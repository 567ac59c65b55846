import Entitlements.Text.Blank
import Entitlements.Text.Digits
import Entitlements.Text.LetterCase

/-! # Timestamps

Moments as nanoseconds since the start of 1970, and their written form: date and time of day in the
Gregorian calendar with an offset from Greenwich. `Time.text` writes a moment, `Time.parse?` reads
one and is lenient about blanks and leading zeros. -/

namespace Entitlements

/-- Nanoseconds since the start of 1970. -/
abbrev Time := Int

namespace Time

/-- The last moment of the calendar, at the end of the year 262142. -/
def last : Time := 8210266876799 * 1000000000 + 999999999

/-! ### The calendar

Years start in March here, so that the day that some years have more is their last one. -/

/-- The days from the start of 1970 to a date. -/
def daysOfDate (year : Int) (month day : Nat) : Int :=
  let year := if month ≤ 2 then year - 1 else year
  let era := Int.fdiv year 400
  let yearOfEra := Int.fmod year 400
  let dayOfYear : Int := ((153 * ((month + 9) % 12) + 2) / 5 + day - 1 : Nat)
  era * 146097 + (yearOfEra * 365 + yearOfEra / 4 - yearOfEra / 100 + dayOfYear) - 719468

/-- The date that lies so many days behind the start of 1970. -/
def dateOfDays (days : Int) : Int × Nat × Nat :=
  let days := days + 719468
  let era := Int.fdiv days 146097
  let dayOfEra := (Int.fmod days 146097).toNat
  let yearOfEra := (dayOfEra - dayOfEra / 1460 + dayOfEra / 36524 - dayOfEra / 146096) / 365
  let dayOfYear := dayOfEra - (365 * yearOfEra + yearOfEra / 4 - yearOfEra / 100)
  let month := (5 * dayOfYear + 2) / 153
  let day := dayOfYear - (153 * month + 2) / 5 + 1
  let year : Int := era * 400 + yearOfEra
  if month < 10 then (year, month + 3, day) else (year + 1, month - 9, day)

/-- Whether the calendar has a year. -/
def isYear (year : Int) : Bool := -262143 ≤ year && year ≤ 262142

/-- Whether the calendar has a date. -/
def isDate (year : Int) (month day : Nat) : Bool :=
  isYear year && 1 ≤ month && month ≤ 12 && 1 ≤ day
    && dateOfDays (daysOfDate year month day) == (year, month, day)

/-! ### Reading -/

/-- A number of at least one and at most `width` digits. -/
def number? (width : Nat) (cs : List Char) : Option (Nat × List Char) :=
  let digits := (cs.take width).takeWhile Char.isDigit
  if digits.isEmpty then none else some (natOfDigits digits, cs.drop digits.length)

/-- What follows a sign, with blanks in front of it. -/
def mark? (c : Char) (cs : List Char) : Option (List Char) :=
  match dropBlanks cs with
  | x :: rest => if x = c then some rest else none
  | [] => none

/-- The year, with any number of digits behind a sign. -/
def year? (cs : List Char) : Option (Int × List Char) :=
  match dropBlanks cs with
  | '-' :: cs => (number? cs.length cs).map fun (n, rest) => (-n, rest)
  | '+' :: cs => (number? cs.length cs).map fun (n, rest) => (n, rest)
  | cs => (number? 4 cs).map fun (n, rest) => (n, rest)

/-- The nanoseconds behind a point; digits beyond the ninth are left aside. -/
def fraction? : List Char → Option (Nat × List Char)
  | '.' :: cs =>
    let (digits, rest) := takeDigits cs
    match number? 9 digits with
    | some (n, _) => some (n * Nat.pow 10 (9 - digits.length), rest)
    | none => none
  | cs => some (0, cs)

/-- The offset from Greenwich, in seconds. -/
def offset? (cs : List Char) : Option (Int × List Char) :=
  match stripWord? "UTC".toList cs with
  | some rest => some (0, rest)
  | none =>
    let east := fun (cs : List Char) => do
      let (hours, rest) ← if (cs.take 2).length = 2 && (cs.take 2).all Char.isDigit
        then number? 2 cs else none
      let rest := rest.dropWhile fun c => c = ':' || isBlank c
      let (minutes, rest) ← if (rest.take 2).length = 2 && (rest.take 2).all Char.isDigit
        then number? 2 rest else none
      if 59 < minutes || 23 < hours then none
      return (((hours * 60 + minutes) * 60 : Nat), rest)
    match cs with
    | 'Z' :: rest | 'z' :: rest => some (0, rest)
    | '+' :: rest => (east rest).map fun (n, rest) => ((n : Int), rest)
    | '-' :: rest | '\u2212' :: rest => (east rest).map fun (n, rest) => (-(n : Int), rest)
    | _ => none

/-- The moment that a text names. Its date has to be in the calendar where the text was written as
well as in Greenwich. -/
def parse? (s : String) : Option Time := do
  let (year, cs) ← year? s.toList
  let (month, cs) ← number? 2 (dropBlanks (← mark? '-' cs))
  let (day, cs) ← number? 2 (dropBlanks (← mark? '-' cs))
  let cs ← match cs with
    | 'T' :: cs | 't' :: cs | ' ' :: cs => some cs
    | _ => none
  let (hour, cs) ← number? 2 (dropBlanks cs)
  let (minute, cs) ← number? 2 (dropBlanks (← mark? ':' cs))
  let (second, cs) ← number? 2 (dropBlanks (← mark? ':' cs))
  let (nanos, cs) ← fraction? cs
  let (offset, cs) ← offset? (dropBlanks cs)
  if isDate year month day && hour < 24 && minute < 60 && second ≤ 60
      && (dropBlanks cs).isEmpty then
    let minutes : Int := (hour * 60 + minute : Nat)
    let start := daysOfDate year month day * 86400 + minutes * 60 - offset
    if isYear (dateOfDays (Int.fdiv start 86400)).1 then
      some ((start + second) * 1000000000 + nanos)
    else none
  else none

/-! ### Writing -/

/-- A number with at least `width` digits. -/
def padded (width n : Nat) : String :=
  let digits := Nat.repr n
  String.ofList (List.replicate (width - digits.length) '0') ++ digits

/-- A moment in Greenwich time, with as many groups of three decimals as it needs. -/
def text (t : Time) : String :=
  let seconds := Int.fdiv t 1000000000
  let nanos := (Int.fmod t 1000000000).toNat
  let (year, month, day) := dateOfDays (Int.fdiv seconds 86400)
  let ofDay := (Int.fmod seconds 86400).toNat
  let yearText :=
    if 0 ≤ year && year ≤ 9999 then padded 4 year.toNat
    else (if year < 0 then "-" else "+") ++ padded 4 year.natAbs
  let fraction :=
    if nanos = 0 then ""
    else if nanos % 1000000 = 0 then "." ++ padded 3 (nanos / 1000000)
    else if nanos % 1000 = 0 then "." ++ padded 6 (nanos / 1000)
    else "." ++ padded 9 nanos
  yearText ++ "-" ++ padded 2 month ++ "-" ++ padded 2 day ++ "T" ++ padded 2 (ofDay / 3600) ++ ":"
    ++ padded 2 (ofDay / 60 % 60) ++ ":" ++ padded 2 (ofDay % 60) ++ fraction ++ "Z"

end Time

end Entitlements
