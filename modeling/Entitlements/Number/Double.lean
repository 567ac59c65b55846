import Entitlements.Number.Rounding

/-! # Doubles

Finite doubles without their sign, as whole multiples of a power of two (`Magnitude`), their 64
bits, and the double nearest to a quotient (`Magnitude.nearest?`), of two that are equally near the
one with an even significand. Products and quotients of doubles are rounded the same way. -/

namespace Entitlements

/-- The magnitude `significand * 2 ^ (exponent - 1074)` of a finite double. The significand is below
`2 ^ 53`, and not below `2 ^ 52` unless the exponent is zero. -/
structure Magnitude where
  significand : Nat
  exponent : Nat
  deriving DecidableEq, Repr

namespace Magnitude

/-- The magnitude as a multiple of the least one, `2 ^ -1074`. -/
def units (x : Magnitude) : Nat := x.significand * Nat.pow 2 x.exponent

/-- Whether it is zero. -/
def isZero (x : Magnitude) : Bool := x.significand == 0

/-- The greatest exponent of a finite double. -/
def maxExponent : Nat := 2045

/-- The magnitude nearest to `num / den`, unless that is too large for a double. -/
def nearest? (num den : Nat) : Option Magnitude :=
  let units := num * Nat.pow 2 1074
  let exponent := (units / den).log2 - 52
  let significand := roundDiv units (den * Nat.pow 2 exponent)
  let x : Magnitude :=
    if significand = Nat.pow 2 53 then ⟨Nat.pow 2 52, exponent + 1⟩ else ⟨significand, exponent⟩
  if x.exponent ≤ maxExponent then some x else none

/-- The magnitude nearest to a natural number. -/
def ofNat? (n : Nat) : Option Magnitude := nearest? n 1

/-- The product, rounded. -/
def mul? (x y : Magnitude) : Option Magnitude := nearest? (x.units * y.units) (Nat.pow 2 2148)

/-- The quotient, rounded. -/
def div? (x y : Magnitude) : Option Magnitude := nearest? x.units y.units

end Magnitude

/-! ### Bits -/

namespace Double

/-- The sign bit. -/
def isNegative (bits : UInt64) : Bool := bits >>> 63 != 0

/-- The magnitude of a finite double. -/
def magnitude (bits : UInt64) : Magnitude :=
  let fraction := (bits &&& 0xFFFFFFFFFFFFF).toNat
  let exponent := ((bits >>> 52) &&& 0x7FF).toNat
  if exponent = 0 then ⟨fraction, 0⟩ else ⟨Nat.pow 2 52 + fraction, exponent - 1⟩

/-- The bits of a double. The leading bit of a significand from `2 ^ 52` on is not stored, but
counted as one more of the exponent. -/
def ofMagnitude (negative : Bool) (x : Magnitude) : UInt64 :=
  UInt64.ofNat ((if negative then Nat.pow 2 63 else 0) + x.exponent * Nat.pow 2 52 + x.significand)

end Double

end Entitlements
