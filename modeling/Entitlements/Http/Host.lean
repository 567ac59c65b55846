import Entitlements.Http.Percent
import Entitlements.Text.Blank
import Entitlements.Text.Digits

/-! # Hosts

The host that a text in an address names (`hostOf?`), the way browsers read it: eight numbers in
brackets, four numbers, or the name of a server, which may be percent-encoded. What is read is
written in one way only: names in lower case, numbers without what they can do without. For a name
that is not plain ASCII, its form in ASCII has to be given (`AsciiNames`). -/

namespace Entitlements

/-- The form in ASCII of names that have other characters or labels encoded in ASCII, if they are
names. -/
abbrev AsciiNames : Type := List Char → Option (List Char)

/-- The number that digits stand for; no digits stand for zero. -/
def numberOfBase? (base : Nat) (digits : List Char) : Option Nat :=
  digits.foldlM (fun n d => do
    let value ← Json.hexValue? d
    if value < base then some (n * base + value) else none) 0

/-! ### Four numbers -/

/-- The number of a part: with base sixteen behind `0x`, with base eight behind another zero. -/
def ipv4Number? : List Char → Option Nat
  | [] => none
  | '0' :: 'x' :: digits | '0' :: 'X' :: digits => numberOfBase? 16 digits
  | '0' :: d :: digits => numberOfBase? 8 (d :: digits)
  | digits => numberOfBase? 10 digits

/-- The parts of a name; a point at its end separates nothing. -/
def nameParts (name : List Char) : List (List Char) :=
  let parts := splitOn '.' name
  if 1 < parts.length && parts.getLast? == some [] then parts.dropLast else parts

/-- Whether a name ends in a number, so that it has to be one of numbers alone. -/
def endsInNumber (name : List Char) : Bool :=
  (nameParts name).getLast?.any fun part =>
    (!part.isEmpty && part.all Char.isDigit) || (ipv4Number? part).isSome

/-- The number of 32 bits that parts stand for: one byte each, and the last one for the bytes that
are left. -/
def ipv4Of? (name : List Char) : Option Nat := do
  let numbers ← (nameParts name).mapM ipv4Number?
  let last ← numbers.getLast?
  let front := numbers.dropLast
  let room := Nat.pow 256 (4 - front.length)
  if 3 < front.length || front.any (255 < ·) || room ≤ last then none
  else some (front.foldl (fun n byte => n * 256 + byte) 0 * room + last)

/-- The bytes of a number of 32 bits, in decimal. -/
def ipv4Text (n : Nat) : String :=
  ".".intercalate ([Nat.pow 256 3, Nat.pow 256 2, 256, 1].map fun unit => toString (n / unit % 256))

/-! ### Eight numbers -/

/-- A number of 16 bits. -/
def ipv6Number? (digits : List Char) : Option Nat :=
  if digits.isEmpty || 4 < digits.length then none else numberOfBase? 16 digits

/-- A byte in decimal, without a zero in front. -/
def decimalByte? (digits : List Char) : Option Nat :=
  let n := natOfDigits digits
  if digits.all Char.isDigit && digits == Nat.toDigits 10 n && n < 256 then some n else none

/-- Numbers between colons; the last two of them may be written as four bytes. -/
def ipv6Numbers? : List (List Char) → Option (List Nat)
  | [] => some []
  | [last] =>
    match splitOn '.' last with
    | [a, b, c, d] => do
      let a ← decimalByte? a
      let b ← decimalByte? b
      let c ← decimalByte? c
      let d ← decimalByte? d
      return [a * 256 + b, c * 256 + d]
    | _ => (ipv6Number? last).map ([·])
  | digits :: rest => do
    let n ← ipv6Number? digits
    let ns ← ipv6Numbers? rest
    return n :: ns

/-- The numbers on one side of two colons, of which there may be none. -/
def ipv6Side? (cs : List Char) : Option (List Nat) :=
  if cs.isEmpty then some [] else ipv6Numbers? (splitOn ':' cs)

/-- The text in front of the first two colons in a row, and the text behind them. -/
def cutColons : List Char → Option (List Char × List Char)
  | ':' :: ':' :: cs => some ([], cs)
  | c :: cs => (cutColons cs).map fun (front, back) => (c :: front, back)
  | [] => none

/-- The eight numbers of a text; two colons stand for the zeros that are left out. -/
def ipv6Of? (cs : List Char) : Option (List Nat) :=
  match cutColons cs with
  | none => (ipv6Side? cs).bind fun numbers => if numbers.length = 8 then some numbers else none
  | some (front, back) => do
    if front.contains '.' then none
    let front ← ipv6Side? front
    let back ← ipv6Side? back
    let left := 8 - (front.length + back.length)
    if left = 0 then none else some (front ++ List.replicate left 0 ++ back)

/-- How many zeros stand in a row from a place on. -/
def zerosFrom (numbers : List Nat) (i : Nat) : Nat := ((numbers.drop i).takeWhile (· == 0)).length

/-- The text of eight numbers; two colons stand for the first of the longest rows of zeros. -/
def ipv6Text (numbers : List Nat) : String :=
  let join := fun (ns : List Nat) => ":".intercalate (ns.map fun n => .ofList (Nat.toDigits 16 n))
  let rows := (List.range 8).map (zerosFrom numbers)
  let longest := rows.foldl max 0
  let start := rows.idxOf longest
  if longest < 2 then join numbers
  else join (numbers.take start) ++ "::" ++ join (numbers.drop (start + longest))

/-! ### Names -/

/-- Whether a character can stand in the name of a server. -/
def isHostChar (c : Char) : Bool := c.isAlphanum || "-._~!$&\x27()*+,;=".toList.contains c

/-- Whether a name has ASCII characters only, and no label that is encoded. -/
def isPlainName (name : List Char) : Bool :=
  name.all (·.toNat < 0x80)
    && (splitOn '.' name).all fun label => !"xn--".toList.isPrefixOf (label.map Char.toLower)

/-- The host that a text names, in the one way in which it is written. -/
def hostOf? (names : AsciiNames) : List Char → Option String
  | '[' :: cs =>
    if cs.getLast? = some ']' then
      (ipv6Of? cs.dropLast).map fun numbers => "[" ++ ipv6Text numbers ++ "]"
    else none
  | cs => do
    let name := (textOfBytes (percentDecode cs)).toList
    let name ← if isPlainName name then some (name.map Char.toLower) else names name
    if name.isEmpty || !name.all isHostChar then none
    else if endsInNumber name then (ipv4Of? name).map ipv4Text
    else some (.ofList name)

end Entitlements
