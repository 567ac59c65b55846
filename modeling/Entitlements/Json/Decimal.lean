import Entitlements.Number.Double

/-! # Doubles as decimals

Writing a finite double, given by its bits, with the fewest digits that read back as the nearest
double (`Double.text`), and reading a decimal (`Double.ofDecimal?`). Reading is quick rather than
exact: as many leading digits as fit into 64 bits are rounded to a double, which is then scaled by
a power of ten. The result may lie next to the nearest double. -/

namespace Entitlements.Double

/-! ### Shortest digits

Everything is measured in quarters of the last place, `2 ^ (e - 1076)`. -/

/-- Whether `d * 10 ^ k` lies between `low` and `high` quarters, for `k = up - down`. -/
def liesBetween (low high : Nat) (closed : Bool) (e up down d : Nat) : Bool :=
  let point := d * Nat.pow 10 up * Nat.pow 2 1076
  let low := low * Nat.pow 2 e * Nat.pow 10 down
  let high := high * Nat.pow 2 e * Nat.pow 10 down
  if closed then low ≤ point && point ≤ high else low < point && point < high

/-- The multiple of `10 ^ (up - down)` closest to `m * 2 ^ (e - 1074)` among those that read back
as it, an even multiple before an odd one. -/
def gridPoint? (m e up down : Nat) : Option Nat :=
  let low := if m = Nat.pow 2 52 && e != 0 then 4 * m - 1 else 4 * m - 2
  let ok := fun d => d != 0 && liesBetween low (4 * m + 2) (m % 2 == 0) e up down d
  let value := m * Nat.pow 2 e * Nat.pow 10 down
  let unit := Nat.pow 10 up * Nat.pow 2 1074
  let d := value / unit
  let rest := value % unit
  match ok d, ok (d + 1) with
  | true, true =>
    if 2 * rest < unit then some d
    else if unit < 2 * rest then some (d + 1)
    else if d % 2 = 0 then some d else some (d + 1)
  | true, false => some d
  | false, true => some (d + 1)
  | false, false => none

/-- The digits and the power of ten of the coarsest grid with a point that reads back, the grids
tried from `10 ^ 309` on. -/
def digitsFrom (m e : Nat) : Nat → Nat × Int
  | 0 => (0, 0)
  | n + 1 =>
    let k : Int := n - 400
    match gridPoint? m e k.toNat (-k).toNat with
    | some d => (d, k)
    | none => digitsFrom m e n

/-- The shortest digits of a finite double that is not zero, and their power of ten. -/
def shortest (bits : UInt64) : Nat × Int :=
  let x := magnitude bits
  digitsFrom x.significand x.exponent 710

/-- The text of a finite double: positional from `1e-5` up to `1e16`, with a digit behind the
point, and with an exponent otherwise. -/
def text (bits : UInt64) : String :=
  let sign := if isNegative bits then "-" else ""
  if (magnitude bits).isZero then sign ++ "0.0"
  else
    let (d, k) := shortest bits
    let digits := (Nat.repr d).toList
    let point : Int := digits.length + k
    let zeros := fun (n : Int) => List.replicate n.toNat '0'
    let body : List Char :=
      if 0 ≤ k && point ≤ 16 then digits ++ zeros k ++ ['.', '0']
      else if 0 < point && point ≤ 16 then
        digits.take point.toNat ++ ['.'] ++ digits.drop point.toNat
      else if -5 < point && point ≤ 0 then ['0', '.'] ++ zeros (-point) ++ digits
      else
        let exponent := 'e' :: (toString (point - 1)).toList
        match digits with
        | [c] => c :: exponent
        | c :: cs => c :: '.' :: (cs ++ exponent)
        | [] => exponent
    sign ++ String.ofList body

/-! ### Reading -/

/-- The number whose digits are those of `n` and then those of a text, as many as fit into 64 bits,
and how many of the text's digits do. -/
def takeFitting (n : Nat) : List Char → Nat × Nat
  | [] => (n, 0)
  | d :: ds =>
    let more := Nat.ofDigitChars 10 [d] n
    if more < Nat.pow 2 64 then
      let (all, count) := takeFitting more ds
      (all, count + 1)
    else (n, 0)

/-- The greatest power of ten that is a double. -/
def maxPower : Nat := 308

/-- A magnitude multiplied with `10 ^ k`. -/
def scaleUp? (x : Magnitude) (k : Nat) : Option Magnitude :=
  if x.isZero then some x
  else if maxPower < k then none
  else do x.mul? (← Magnitude.ofNat? (Nat.pow 10 k))

/-- A magnitude divided by `10 ^ k`, in steps if that power of ten is no double. -/
def scaleDown? (x : Magnitude) (k : Nat) : Option Magnitude :=
  if x.isZero then some x
  else if maxPower < k then do
    scaleDown? (← x.div? (← Magnitude.ofNat? (Nat.pow 10 maxPower))) (k - maxPower)
  else do x.div? (← Magnitude.ofNat? (Nat.pow 10 k))
  termination_by k
  decreasing_by
    have : 0 < maxPower := by decide
    omega

/-- The double that is read for the digits before and behind a point and an exponent, unless it is
too large. Digits that do not fit count by their number only before the point, and not at all
behind it. -/
def ofDecimal? (negative : Bool) (whole fraction : List Char) (exponent : Int) : Option UInt64 := do
  let (n, wholeCount) := takeFitting 0 whole
  let (n, fractionCount) := takeFitting n fraction
  let exponent := exponent + (whole.length - wholeCount : Nat) - fractionCount
  let x ← Magnitude.ofNat? n
  let x ← if 0 ≤ exponent then scaleUp? x exponent.toNat else scaleDown? x (-exponent).toNat
  return ofMagnitude negative x

end Entitlements.Double
