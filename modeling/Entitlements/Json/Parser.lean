import Entitlements.Json.Basic
import Entitlements.Json.Decimal
import Entitlements.Text.Digits
import Entitlements.Text.Utf8

/-! # Reading JSON

`Json.parse?` reads one value with blanks around it. What a reader may skip but not take is kept
as `Json.unreadable`, so that it matters only to those who look at it: strings that name half of a
surrogate pair, objects with such a key, numbers outside the range of doubles, and containers
within more than `maxDepth` others. `Json.parseBytes?` reads a value from bytes. Those that are no
UTF-8 may stand in strings that are skipped, too. -/

namespace Entitlements

namespace Json

/-- How many containers may stand within each other. -/
def maxDepth : Nat := 127

/-- The blanks of JSON. -/
def isSpace (c : Char) : Bool := c = ' ' || c = '\n' || c = '\t' || c = '\r'

/-- The text from its first character that is not a blank. -/
def skipSpaces (cs : List Char) : List Char := cs.dropWhile isSpace

/-! ### Strings -/

/-- A part of a string: a character, or half of a surrogate pair. -/
inductive Piece where
  | char (c : Char)
  | half (unit : Nat)

/-- The value of a hexadecimal digit. -/
def hexValue? (c : Char) : Option Nat :=
  if '0' ≤ c && c ≤ '9' then some (c.toNat - 48)
  else if 'a' ≤ c && c ≤ 'f' then some (c.toNat - 87)
  else if 'A' ≤ c && c ≤ 'F' then some (c.toNat - 55)
  else none

/-- The number of four hexadecimal digits. -/
def hexNumber? (a b c d : Char) : Option Nat := do
  return (((← hexValue? a) * 16 + (← hexValue? b)) * 16 + (← hexValue? c)) * 16 + (← hexValue? d)

/-- The character of an escape by letter. -/
def escaped? (c : Char) : Option Char :=
  if c = '"' || c = '\\' || c = '/' then some c
  else if c = 'b' then some '\x08'
  else if c = 'f' then some '\x0c'
  else if c = 'n' then some '\n'
  else if c = 'r' then some '\r'
  else if c = 't' then some '\t'
  else none

/-- What a unit of a `\u` escape stands for. -/
def pieceOfUnit (unit : Nat) : Piece :=
  if 0xD800 ≤ unit && unit < 0xE000 then .half unit else .char (Char.ofNat unit)

/-- The parts of a string up to its closing quote, and the text behind that. -/
def scanString : List Char → Option (List Piece × List Char)
  | [] => none
  | '"' :: cs => some ([], cs)
  | '\\' :: 'u' :: a :: b :: c :: d :: cs => do
    let unit ← hexNumber? a b c d
    let (pieces, rest) ← scanString cs
    return (pieceOfUnit unit :: pieces, rest)
  | '\\' :: c :: cs => do
    let c ← escaped? c
    let (pieces, rest) ← scanString cs
    return (.char c :: pieces, rest)
  | c :: cs => do
    if c.toNat < 0x20 then none
    let (pieces, rest) ← scanString cs
    return (.char c :: pieces, rest)

/-- The text of the parts of a string, unless half of a surrogate pair stands alone. -/
def joinPieces? : List Piece → Option (List Char)
  | [] => some []
  | .char c :: pieces => (joinPieces? pieces).map (c :: ·)
  | .half high :: .half low :: pieces =>
    if high < 0xDC00 && 0xDC00 ≤ low then
      (joinPieces? pieces).map
        (Char.ofNat (0x10000 + (high - 0xD800) * 0x400 + (low - 0xDC00)) :: ·)
    else none
  | .half _ :: _ => none

/-- A string behind its opening quote, `none` inside for one that cannot be read. -/
def string? (cs : List Char) : Option (Option String × List Char) := do
  let (pieces, rest) ← scanString cs
  return ((joinPieces? pieces).map String.ofList, rest)

/-! ### Numbers -/

/-- The digits at the start of a text, of which there has to be one. -/
def digits? (cs : List Char) : Option (List Char × List Char) :=
  match takeDigits cs with
  | ([], _) => none
  | taken => some taken

/-- The digits before the point: a single zero, or digits that do not start with one. -/
def wholePart? : List Char → Option (List Char × List Char)
  | '0' :: cs => some (['0'], cs)
  | cs => digits? cs

/-- The digits behind a point, if there is one. -/
def fractionPart? : List Char → Option (List Char × List Char)
  | '.' :: cs => digits? cs
  | cs => some ([], cs)

/-- Whether an exponent has a minus in front, and what follows its sign. -/
def takeSign : List Char → Bool × List Char
  | '-' :: cs => (true, cs)
  | '+' :: cs => (false, cs)
  | cs => (false, cs)

/-- The exponent, if there is one. -/
def exponentPart? : List Char → Option (Option Int × List Char)
  | c :: cs =>
    if c = 'e' || c = 'E' then
      let (negative, cs) := takeSign cs
      (digits? cs).map fun (ds, rest) =>
        let n : Int := natOfDigits ds
        (some (if negative then -n else n), rest)
    else some (none, c :: cs)
  | [] => some (none, [])

/-- The value of a number. Whole numbers of at most 64 bits are kept as such; minus zero is no
whole number. -/
def numberValue (negative : Bool) (whole fraction : List Char) (exponent : Option Int) : Json :=
  let n := natOfDigits whole
  let fits : Bool := if negative then n != 0 && n ≤ Nat.pow 2 63 else n < Nat.pow 2 64
  if fraction.isEmpty && exponent.isNone && fits then .int (if negative then -n else n)
  else
    match Double.ofDecimal? negative whole fraction (exponent.getD 0) with
    | some bits => .float bits
    | none => .unreadable

/-- The number at the start of a text, behind its sign. -/
def unsigned? (negative : Bool) (cs : List Char) : Option (Json × List Char) := do
  let (whole, cs) ← wholePart? cs
  let (fraction, cs) ← fractionPart? cs
  let (exponent, cs) ← exponentPart? cs
  return (numberValue negative whole fraction exponent, cs)

/-- The number at the start of a text. -/
def number? : List Char → Option (Json × List Char)
  | '-' :: cs => unsigned? true cs
  | cs => unsigned? false cs

/-! ### Values -/

/-- What follows `word` at the start of a text. -/
def literal? (word cs : List Char) : Option (List Char) :=
  if word.isPrefixOf cs then some (cs.drop word.length) else none

/-- A container, if there is room for one more. -/
def inRoom (room : Nat) (j : Json) : Json := if room = 0 then .unreadable else j

/-- The object of the entries, if every key can be read. -/
def ofEntries (entries : List (Option String × Json)) : Json :=
  match entries.mapM fun e => e.1.map fun k => (k, e.2) with
  | some es => .obj es
  | none => .unreadable

mutual

/-- The value at the start of a text, with room for that many containers within each other. The
fuel is used up by one with every step into a value or to the next one. -/
def value? : Nat → Nat → List Char → Option (Json × List Char)
  | 0, _, _ => none
  | fuel + 1, room, cs =>
    match cs with
    | [] => none
    | '"' :: cs => do
      let (s, rest) ← string? cs
      return (s.elim .unreadable .str, rest)
    | '[' :: cs =>
      match skipSpaces cs with
      | ']' :: rest => some (inRoom room (.arr []), rest)
      | cs => do
        let (items, rest) ← items? fuel (room - 1) cs
        return (inRoom room (.arr items), rest)
    | '\x7b' :: cs =>
      match skipSpaces cs with
      | '\x7d' :: rest => some (inRoom room (.obj []), rest)
      | cs => do
        let (entries, rest) ← entries? fuel (room - 1) cs
        return (inRoom room (ofEntries entries), rest)
    | c :: cs =>
      if c = 'n' then (literal? "ull".toList cs).map fun rest => (.null, rest)
      else if c = 't' then (literal? "rue".toList cs).map fun rest => (.bool true, rest)
      else if c = 'f' then (literal? "alse".toList cs).map fun rest => (.bool false, rest)
      else number? (c :: cs)

/-- The items of an array from the first one on, up to the closing bracket. -/
def items? : Nat → Nat → List Char → Option (List Json × List Char)
  | 0, _, _ => none
  | fuel + 1, room, cs => do
    let (j, rest) ← value? fuel room cs
    match skipSpaces rest with
    | ']' :: rest => some ([j], rest)
    | ',' :: rest => do
      let (js, rest) ← items? fuel room (skipSpaces rest)
      return (j :: js, rest)
    | _ => none

/-- The entries of an object from the first one on, up to the closing brace. -/
def entries? : Nat → Nat → List Char → Option (List (Option String × Json) × List Char)
  | 0, _, _ => none
  | fuel + 1, room, cs => do
    match cs with
    | '"' :: cs => do
      let (k, rest) ← string? cs
      match skipSpaces rest with
      | ':' :: rest => do
        let (j, rest) ← value? fuel room (skipSpaces rest)
        match skipSpaces rest with
        | '\x7d' :: rest => some ([(k, j)], rest)
        | ',' :: rest => do
          let (es, rest) ← entries? fuel room (skipSpaces rest)
          return ((k, j) :: es, rest)
        | _ => none
      | _ => none
    | _ => none

end

/-- The value that a text consists of. -/
def parse? (s : String) : Option Json :=
  let cs := skipSpaces s.toList
  match value? (2 * cs.length + 2) maxDepth cs with
  | some (j, rest) => if skipSpaces rest = [] then some j else none
  | none => none

/-- What is put where bytes are no UTF-8: a character with which no escape goes on, so that the
halves behind it count, of which the first one stands alone whatever follows. -/
def brokenMark : List Char := "x\\ud800\\ud800".toList

/-- The text of bytes, in which a string with bytes that are no UTF-8 cannot be read. -/
def markedText (bytes : List UInt8) : String :=
  .ofList ((decodeUtf8 bytes).flatMap fun c => c.elim brokenMark fun c => [c])

/-- The value that bytes consist of. -/
def parseBytes? (bytes : List UInt8) : Option Json := parse? (markedText bytes)

end Json

end Entitlements
