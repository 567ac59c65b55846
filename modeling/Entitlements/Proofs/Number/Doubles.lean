import Entitlements.Number.Double
import Mathlib.Algebra.Order.Field.Power
import Mathlib.Data.Rat.Cast.Order
import Mathlib.Tactic.Linarith
import Mathlib.Tactic.NormNum
import Mathlib.Tactic.Ring

/-! # Doubles as numbers

The number that a finite double shows, unless it is negative (`Double.Shows`). Significand and
exponent of a double are canonical (`Double.Canonical`): they are read off its bits
(`units_of_unpack`), come back when they are put into bits (`unpack_pack`), and are in the order of
the numbers (`units_le_of_not_lt`). -/

namespace Entitlements.Double

open Float.Model Float.Model.UnpackedFloat

/-- Significands and exponents of doubles: the significand is below `2 ^ 53`, and not below `2 ^ 52`
unless the exponent is the least one. -/
structure Canonical (m : Nat) (e : Int) : Prop where
  lt : m < 2 ^ 53
  least : -1074 ≤ e
  greatest : e ≤ 971
  full : 2 ^ 52 ≤ m ∨ e = -1074

/-- A double is finite and shows the number `v`, which is not negative. -/
inductive Shows : UnpackedFloat → ℚ → Prop
  | zero : Shows (.zero .positive) 0
  | finite {m : Nat} {e : Int} (hm : 0 < m) (h : Canonical m e) :
      Shows (.finite .positive m e hm) (m * 2 ^ e)

/-! ### Bits -/

theorem toNat_fraction (bits : UInt64) : (bits &&& 0xFFFFFFFFFFFFF).toNat =
    (@unpackMantissa Format.binary64 bits.toBitVec).toNat := by
  rw [UInt64.toNat_and]
  exact Nat.and_two_pow_sub_one_eq_mod bits.toNat 52

theorem toNat_exponent (bits : UInt64) : ((bits >>> 52) &&& 0x7FF).toNat =
    (@unpackExponent Format.binary64 bits.toBitVec).toNat := by
  rw [UInt64.toNat_and, UInt64.toNat_shiftRight]
  exact Nat.and_two_pow_sub_one_eq_mod _ 11

theorem toNat_one_append (M : BitVec 52) : (1#1 ++ M).toNat = 2 ^ 52 + M.toNat := by
  rw [BitVec.toNat_append, ← Nat.shiftLeft_add_eq_or_of_lt M.isLt]
  rfl

theorem unpackSign_components (s : Sign) (E : BitVec 11) (M : BitVec 52) :
    Sign.ofBitVec (unpackSign (packComponents Format.binary64 s E M)) = s := by
  have hsign : unpackSign (packComponents Format.binary64 s E M) = s.toBitVec := by
    show BitVec.extractLsb' 63 1 (s.toBitVec ++ E ++ M) = s.toBitVec
    rw [BitVec.extractLsb'_append_eq_of_le (by decide),
      BitVec.extractLsb'_append_eq_of_le (by decide)]
    cases s <;> rfl
  rw [hsign]
  cases s <;> rfl

/-- The double with this sign, exponent and fraction. -/
def ofParts (s : Sign) (E : BitVec 11) (M : BitVec 52) : UnpackedFloat :=
  if E = -1#11 then if M = 0#52 then .infinity s else .notANumber
  else if E = 0#11 then
    if h : M = 0#52 then .zero s
    else .finite s M.toNat (E.toNat - 1075 + 1)
      (Nat.pos_of_ne_zero fun h0 => h (BitVec.eq_of_toNat_eq h0))
  else .finite s (1#1 ++ M).toNat (E.toNat - 1075) (by rw [toNat_one_append]; omega)

theorem unpack_eq (b : BitVec 64) : UnpackedFloat.unpack Format.binary64 b =
    ofParts (Sign.ofBitVec (@unpackSign Format.binary64 b))
      (@unpackExponent Format.binary64 b) (@unpackMantissa Format.binary64 b) :=
  rfl

theorem unpack_components (s : Sign) (E : BitVec 11) (M : BitVec 52) :
    UnpackedFloat.unpack Format.binary64 (packComponents Format.binary64 s E M) =
      ofParts s E M := by
  rw [unpack_eq, unpackSign_components, unpackExponent_packComponents,
    unpackMantissa_packComponents]

/-- How significand and exponent of a finite double follow from its parts. -/
def PartsOf (E : BitVec 11) (M : BitVec 52) (m : Nat) (e : Int) : Prop :=
  E.toNat = 0 ∧ m = M.toNat ∧ e = -1074 ∨ E.toNat ≠ 0 ∧ m = 2 ^ 52 + M.toNat ∧ e = E.toNat - 1075

theorem ofParts_cases (s : Sign) (E : BitVec 11) (M : BitVec 52) :
    (ofParts s E M = .infinity s ∨ ofParts s E M = .notANumber) ∨
      (ofParts s E M = .zero s ∧ E.toNat = 0 ∧ M.toNat = 0) ∨
      ∃ m e hm, ofParts s E M = .finite s m e hm ∧ Canonical m e ∧ PartsOf E M m e := by
  have hE := E.isLt
  have hM := M.isLt
  unfold ofParts
  by_cases hall : E = -1#11
  · rw [if_pos hall]
    exact .inl (Decidable.em (M = 0#52) |>.imp (if_pos ·) (if_neg ·))
  · have hE' : E.toNat ≠ 2047 := fun heq => hall (BitVec.eq_of_toNat_eq heq)
    rw [if_neg hall]
    refine .inr ?_
    by_cases hzero : E = 0#11
    · have hE0 : E.toNat = 0 := congrArg BitVec.toNat hzero
      rw [if_pos hzero]
      by_cases hM0 : M = 0#52
      · exact .inl ⟨dif_pos hM0, hE0, congrArg BitVec.toNat hM0⟩
      · exact .inr ⟨_, _, _, dif_neg hM0,
          ⟨by omega, by omega, by omega, .inr (by omega)⟩, .inl ⟨hE0, rfl, by omega⟩⟩
    · have hE0 : E.toNat ≠ 0 := fun heq => hzero (BitVec.eq_of_toNat_eq heq)
      have hm := toNat_one_append M
      rw [if_neg hzero]
      exact .inr ⟨_, _, _, rfl, ⟨by omega, by omega, by omega, .inl (by omega)⟩,
        .inr ⟨hE0, hm, rfl⟩⟩

/-- The parts that a finite double has. -/
theorem ofParts_eq_finite {s s' : Sign} {E : BitVec 11} {M : BitVec 52} {m : Nat} {e : Int}
    {hm : 0 < m} (h : ofParts s E M = .finite s' m e hm) : Canonical m e ∧ PartsOf E M m e := by
  rcases ofParts_cases s E M with (heq | heq) | ⟨heq, -⟩ | ⟨_, _, _, heq, hparts⟩ <;>
    rw [heq] at h <;> cases h
  exact hparts

theorem ofParts_eq_zero {s s' : Sign} {E : BitVec 11} {M : BitVec 52}
    (h : ofParts s E M = .zero s') : E.toNat = 0 ∧ M.toNat = 0 := by
  rcases ofParts_cases s E M with (heq | heq) | ⟨heq, hparts⟩ | ⟨_, _, _, heq, -⟩ <;>
    rw [heq] at h <;> cases h
  exact hparts

theorem finite_congr {s : Sign} {m m' : Nat} {e e' : Int} {hm : 0 < m} {hm' : 0 < m'} (h : m = m')
    (he : e = e') : UnpackedFloat.finite s m e hm = .finite s m' e' hm' := by
  subst h he
  rfl

section Pack
variable {m : Nat} {e : Int} (hm : 0 < m) (h : Canonical m e)
include h

theorem Canonical.exponent_lt : ¬ 2 ^ 11 ≤ (e + 1023 + 52).toNat + 1 := by
  have hgreatest := h.greatest
  omega

/-- The leading bit of a full significand is not stored. -/
theorem pack_of_full (hfull : 2 ^ 52 ≤ m) :
    UnpackedFloat.pack Format.binary64 (.finite .positive m e hm) =
      packComponents Format.binary64 .positive (BitVec.ofNat 11 (e + 1023 + 52).toNat)
        (BitVec.ofNat 52 m) := by
  have hlog : m.log2 + 1 = 53 := by
    rw [(Nat.log2_eq_iff hm.ne').mpr ⟨hfull, h.lt⟩]
  unfold UnpackedFloat.pack
  exact (if_neg h.exponent_lt).trans (if_pos hlog)

theorem pack_of_not_full (hfull : m < 2 ^ 52) :
    UnpackedFloat.pack Format.binary64 (.finite .positive m e hm) =
      packComponents Format.binary64 .positive 0#11 (BitVec.ofNat 52 m) := by
  have hlog : m.log2 + 1 ≠ 53 := by
    have := (Nat.log2_lt hm.ne').mpr hfull
    omega
  unfold UnpackedFloat.pack
  exact (if_neg h.exponent_lt).trans (if_neg hlog)

/-- **What is put into bits comes back.** -/
theorem unpack_pack :
    (Float.Model.pack (.finite .positive m e hm)).unpack = .finite .positive m e hm := by
  have hleast := h.least
  have hgreatest := h.greatest
  have hlt := h.lt
  show UnpackedFloat.unpack _ (UnpackedFloat.pack Format.binary64 _) = _
  rcases Nat.lt_or_ge m (2 ^ 52) with hshort | hfull
  · obtain rfl : e = -1074 := h.full.resolve_left (Nat.not_le.mpr hshort)
    have hM : (BitVec.ofNat 52 m).toNat = m := by
      rw [BitVec.toNat_ofNat, Nat.mod_eq_of_lt hshort]
    have hzero : BitVec.ofNat 52 m ≠ 0#52 := fun heq =>
      hm.ne' (hM ▸ congrArg BitVec.toNat heq)
    rw [pack_of_not_full hm h hshort, unpack_components, ofParts, if_neg (by decide), if_pos rfl,
      dif_neg hzero]
    exact finite_congr hM rfl
  · have hE : (BitVec.ofNat 11 (e + 1023 + 52).toNat).toNat = (e + 1023 + 52).toNat := by
      rw [BitVec.toNat_ofNat, Nat.mod_eq_of_lt (by omega)]
    have hM : (1#1 ++ BitVec.ofNat 52 m).toNat = m := by
      rw [toNat_one_append, BitVec.toNat_ofNat]
      omega
    have hne : ∀ E : BitVec 11, (e + 1023 + 52).toNat ≠ E.toNat →
        BitVec.ofNat 11 (e + 1023 + 52).toNat ≠ E :=
      fun E hne heq => hne (hE ▸ congrArg BitVec.toNat heq)
    have hone := hne (-1#11) (by show _ ≠ 2047; omega)
    have hzero := hne 0#11 (by show _ ≠ 0; omega)
    rw [pack_of_full hm h hfull, unpack_components, ofParts, if_neg hone, if_neg hzero]
    exact finite_congr hM (by omega)

end Pack

theorem Shows.unpack_pack {u : UnpackedFloat} {v : ℚ} (h : Shows u v) :
    Shows (Float.Model.pack u).unpack v := by
  cases h with
  | zero =>
    have hzero : (Float.Model.pack (.zero .positive)).unpack = .zero .positive := rfl
    rw [hzero]
    exact .zero
  | finite hm h =>
    rw [Double.unpack_pack hm h]
    exact .finite hm h

theorem Shows.isNaN {u : UnpackedFloat} {v : ℚ} (h : Shows u v) : u.isNaN = false := by
  cases h <;> rfl

/-! ### Magnitudes -/

theorem magnitude_eq (bits : UInt64) : magnitude bits =
    let E := @unpackExponent Format.binary64 bits.toBitVec
    let M := @unpackMantissa Format.binary64 bits.toBitVec
    if E.toNat = 0 then ⟨M.toNat, 0⟩ else ⟨2 ^ 52 + M.toNat, E.toNat - 1⟩ := by
  unfold magnitude
  rw [toNat_fraction, toNat_exponent]
  rfl

/-- Significand and exponent of a double, and the units that they stand for. -/
theorem units_of_unpack {x : Float} {s : Sign} {m : Nat} {e : Int} {hm : 0 < m}
    (h : x.toModel.unpack = .finite s m e hm) :
    Canonical m e ∧ (magnitude x.toBits).units = m * 2 ^ (e + 1074).toNat := by
  obtain ⟨hcanonical, hparts⟩ := ofParts_eq_finite h
  refine ⟨hcanonical, ?_⟩
  show (magnitude x.toModel.toBits).units = _
  rw [magnitude_eq]
  rcases hparts with ⟨hE, rfl, rfl⟩ | ⟨hE, rfl, rfl⟩
  · rw [if_pos hE]
    rfl
  · rw [if_neg hE]
    show (2 ^ 52 + BitVec.toNat _) * 2 ^ (BitVec.toNat _ - 1) = _
    congr 2
    omega

theorem units_of_unpack_zero {x : Float} {s : Sign} (h : x.toModel.unpack = .zero s) :
    (magnitude x.toBits).units = 0 := by
  obtain ⟨hE, hM⟩ := ofParts_eq_zero h
  show (magnitude x.toModel.toBits).units = 0
  rw [magnitude_eq, if_pos hE, hM]
  rfl

/-- A double that shows a number has as many units as the number. -/
theorem Shows.units_eq {x : Float} {v : ℚ} (h : Shows x.toModel.unpack v) :
    ((magnitude x.toBits).units : ℚ) = v * 2 ^ 1074 := by
  generalize hu : x.toModel.unpack = u at h
  cases h with
  | zero => rw [units_of_unpack_zero hu, Nat.cast_zero, zero_mul]
  | @finite m e hm hcanonical =>
    have hsplit : (2 : ℚ) ^ (e + 1074).toNat = 2 ^ e * 2 ^ 1074 := by
      rw [← zpow_natCast, ← zpow_natCast, ← zpow_add₀ two_ne_zero,
        Int.toNat_of_nonneg (by have := hcanonical.least; omega)]
      rfl
    rw [(units_of_unpack hu).2, Nat.cast_mul, Nat.cast_pow, Nat.cast_ofNat, hsplit, mul_assoc]

/-! ### Order -/

theorem lt_iff {x y : Float} :
    x < y ↔ x.toModel.unpack.compare y.toModel.unpack = some .lt := by
  show x.lt y = true ↔ _
  unfold Float.lt
  rw [decide_eq_true_iff]
  show x.toModel.lt y.toModel = true ↔ _
  unfold Float.Model.lt UnpackedFloat.lt
  exact beq_iff_eq

/-- The greater exponent belongs to the greater number. -/
theorem Canonical.units_le {m m' : Nat} {e e' : Int} (h : Canonical m e) (h' : Canonical m' e')
    (hle : ((compare e' e).then (compare m' m)) ≠ .lt) :
    m * 2 ^ (e + 1074).toNat ≤ m' * 2 ^ (e' + 1074).toNat := by
  have hleast := h.least
  rcases lt_trichotomy e e' with hlt | rfl | hgt
  · have hfull : 2 ^ 52 ≤ m' := h'.full.resolve_right (by omega)
    have hexponent : (e + 1074).toNat + 1 ≤ (e' + 1074).toNat := by omega
    calc m * 2 ^ (e + 1074).toNat
        ≤ 2 ^ 53 * 2 ^ (e + 1074).toNat := Nat.mul_le_mul_right _ h.lt.le
      _ = 2 ^ 52 * 2 ^ ((e + 1074).toNat + 1) := by ring
      _ ≤ m' * 2 ^ (e' + 1074).toNat :=
        Nat.mul_le_mul hfull (Nat.pow_le_pow_right (by decide) hexponent)
  · refine Nat.mul_le_mul_right _ (Nat.not_lt.mp fun hlt => hle ?_)
    rw [compare_eq_iff_eq.mpr rfl, compare_lt_iff_lt.mpr hlt]
    rfl
  · refine absurd ?_ hle
    rw [compare_lt_iff_lt.mpr hgt]
    rfl

/-- **What is not above a number has no more units**, unless it is negative. -/
theorem units_le_of_not_lt {x y : Float} {v : ℚ} (hy : Shows y.toModel.unpack v)
    (hnan : x.isNaN = false) (hneg : ¬ x < 0.0) (hlt : ¬ y < x) :
    (magnitude x.toBits).units ≤ (magnitude y.toBits).units := by
  have hzero : (0.0 : Float).toModel.unpack = .zero .positive := rfl
  rw [lt_iff, hzero] at hneg
  rw [lt_iff] at hlt
  replace hnan : x.toModel.unpack.isNaN = false := hnan
  cases hx : x.toModel.unpack with
  | notANumber =>
    rw [hx] at hnan
    cases hnan
  | infinity s =>
    rw [hx] at hneg hlt
    cases s with
    | negative => exact absurd rfl hneg
    | positive =>
      cases hv : y.toModel.unpack <;> rw [hv] at hy hlt <;> cases hy <;> exact absurd rfl hlt
  | zero s =>
    rw [units_of_unpack_zero hx]
    exact Nat.zero_le _
  | finite s m e hm =>
    rw [hx] at hneg hlt
    cases s with
    | negative => exact absurd rfl hneg
    | positive =>
      obtain ⟨hcanonical, hunits⟩ := units_of_unpack hx
      cases hv : y.toModel.unpack with
      | notANumber => rw [hv] at hy; cases hy
      | infinity => rw [hv] at hy; cases hy
      | zero s' =>
        rw [hv] at hlt
        exact absurd rfl hlt
      | finite s' m' e' hm' =>
        obtain ⟨hcanonical', hunits'⟩ := units_of_unpack hv
        rw [hv] at hy hlt
        cases hy
        rw [hunits, hunits']
        exact hcanonical.units_le hcanonical' fun heq => hlt (congrArg some heq)

end Entitlements.Double
