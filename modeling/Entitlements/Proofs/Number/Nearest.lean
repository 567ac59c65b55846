import Entitlements.Proofs.Number.Doubles
import Mathlib.Algebra.Order.Ring.Abs
import Mathlib.Tactic.FieldSimp
import Mathlib.Tactic.Positivity

/-! # The nearest doubles

Sums, products and quotients of doubles are rounded to a nearest double (`Nearest`): a multiple of a
power of two that the exact result is near, and equal to if it is a double itself
(`Nearest.eq_of_multiple`). They are finite while the exact result is less than `2 ^ 1023`. -/

namespace Entitlements.Double

open Float.Model Float.Model.UnpackedFloat

/-! ### The rest of a quotient -/

theorem div_eq_whole_add_rest (num : ℕ) {den : ℕ} (hden : 0 < den) :
    (num / den : ℚ) = (num / den : ℕ) + (num % den : ℕ) / den := by
  have hpos : (0 : ℚ) < den := Nat.cast_pos.mpr hden
  rw [div_eq_iff hpos.ne', add_mul, div_mul_cancel₀ _ hpos.ne']
  exact_mod_cast (Nat.div_add_mod' num den).symm

theorem rest_div_lt_one (num : ℕ) {den : ℕ} (hden : 0 < den) :
    ((num % den : ℕ) / den : ℚ) < 1 :=
  (div_lt_one (Nat.cast_pos.mpr hden)).mpr (Nat.cast_lt.mpr (Nat.mod_lt num hden))

section Half
variable {r den : ℕ} (hden : 0 < den)
include hden

theorem div_lt_half_iff : (r / den : ℚ) < 1 / 2 ↔ 2 * r < den := by
  rw [div_lt_div_iff₀ (Nat.cast_pos.mpr hden) two_pos, one_mul, mul_comm]
  exact_mod_cast Iff.rfl

theorem half_lt_div_iff : (1 / 2 : ℚ) < r / den ↔ den < 2 * r := by
  rw [div_lt_div_iff₀ two_pos (Nat.cast_pos.mpr hden), one_mul, mul_comm]
  exact_mod_cast Iff.rfl

theorem half_le_div_iff : (1 / 2 : ℚ) ≤ r / den ↔ den ≤ 2 * r := by
  rw [← not_lt, div_lt_half_iff hden, not_lt]

theorem div_le_half_iff : (r / den : ℚ) ≤ 1 / 2 ↔ 2 * r ≤ den := by
  rw [← not_lt, half_lt_div_iff hden, not_lt]

end Half

/-! ### Significands with a rest -/

/-- The bits beside a significand tell how the rest of the number `x` compares with a half. -/
def Marks (em : ExtendedMantissa) (x : ℚ) : Prop :=
  match em.roundBit, em.stickyBit with
  | false, false => x = em.mantissa
  | false, true => em.mantissa < x ∧ x < em.mantissa + 1 / 2
  | true, false => x = em.mantissa + 1 / 2
  | true, true => em.mantissa + 1 / 2 < x ∧ x < em.mantissa + 1

theorem Marks.exact (m : ℕ) : Marks (.ofMantissaAndAccuracy m .exact) m := rfl

/-- Of a quotient, the rest is a fraction. -/
theorem Marks.quotient (num : ℕ) {den : ℕ} (hden : 0 < den) :
    Marks (.ofMantissaAndAccuracy (num / den) (accuracyOfFraction (num % den) den))
      (num / den : ℚ) := by
  have hpos : (0 : ℚ) < den := Nat.cast_pos.mpr hden
  have hr := rest_div_lt_one num hden
  rw [div_eq_whole_add_rest num hden]
  generalize num % den = r at hr
  generalize num / den = q
  unfold accuracyOfFraction
  split
  · next hzero =>
    show (q : ℚ) + r / den = q
    rw [hzero, Nat.cast_zero, zero_div, add_zero]
  · next hnonzero =>
    have hr0 : (0 : ℚ) < r / den := div_pos (Nat.cast_pos.mpr (Nat.pos_of_ne_zero hnonzero)) hpos
    rcases lt_trichotomy (2 * r) den with hhalf | hhalf | hhalf
    · have := (div_lt_half_iff hden).mpr hhalf
      rw [compare_lt_iff_lt.mpr hhalf]
      show (q : ℚ) < q + r / den ∧ (q : ℚ) + r / den < q + 1 / 2
      exact ⟨by linarith, by linarith⟩
    · have heq := le_antisymm ((div_le_half_iff hden).mpr hhalf.le)
        ((half_le_div_iff hden).mpr hhalf.ge)
      rw [compare_eq_iff_eq.mpr hhalf, heq]
      rfl
    · have := (half_lt_div_iff hden).mpr hhalf
      rw [compare_gt_iff_gt.mpr hhalf]
      show (q : ℚ) + 1 / 2 < q + r / den ∧ (q : ℚ) + r / den < q + 1
      exact ⟨by linarith, by linarith⟩

theorem Marks.le {em : ExtendedMantissa} {x : ℚ} (h : Marks em x) : (em.mantissa : ℚ) ≤ x := by
  obtain ⟨m, r, s⟩ := em
  cases r <;> cases s <;> simp only [Marks] at h ⊢ <;> linarith

theorem Marks.shiftRightOne {em : ExtendedMantissa} {x : ℚ} (h : Marks em x) :
    Marks em.shiftRightOne (x / 2) := by
  obtain ⟨m, r, s⟩ := em
  have hsplit : (m : ℚ) = 2 * (m / 2 : ℕ) + (m % 2 : ℕ) := by
    exact_mod_cast (Nat.div_add_mod m 2).symm
  -- The bit that is shifted out becomes the round bit, the other two make the sticky bit.
  rcases Nat.mod_two_eq_zero_or_one m with hbit | hbit <;>
    rw [hbit] at hsplit <;>
    cases r <;> cases s <;>
    simp only [Marks, ExtendedMantissa.shiftRightOne, hbit, bne_self_eq_false,
      Nat.reduceBNe, Bool.or_self, Bool.or_true, Bool.or_false, Nat.cast_zero, Nat.cast_one]
      at h hsplit ⊢ <;>
    first
      | linarith
      | exact ⟨by linarith, by linarith⟩

theorem Marks.shiftRight {em : ExtendedMantissa} {x : ℚ} (h : Marks em x) (k : ℕ) :
    Marks (em >>> k) (x / 2 ^ k) := by
  show Marks (k.repeat ExtendedMantissa.shiftRightOne em) _
  induction k with
  | zero => simpa [Nat.repeat] using h
  | succ k ih =>
    rw [Nat.repeat, pow_succ, ← div_div]
    exact ih.shiftRightOne

theorem mantissa_shiftRight (em : ExtendedMantissa) (k : ℕ) :
    (em >>> k).mantissa = em.mantissa / 2 ^ k := by
  show (k.repeat ExtendedMantissa.shiftRightOne em).mantissa = _
  induction k with
  | zero => simp [Nat.repeat]
  | succ k ih =>
    rw [Nat.repeat, pow_succ, ← Nat.div_div_eq_div_mul, ← ih]
    rfl

theorem mantissa_ofMantissaAndAccuracy (m : ℕ) (acc : Accuracy) :
    (ExtendedMantissa.ofMantissaAndAccuracy m acc).mantissa = m := by
  rcases acc with _ | (_ | _ | _) <;> rfl

/-- A significand is rounded to one of its two neighbours. -/
theorem roundedMantissa_mem (em : ExtendedMantissa) :
    em.mantissa ≤ em.roundedMantissa ∧ em.roundedMantissa ≤ em.mantissa + 1 := by
  obtain ⟨m, r, s⟩ := em
  have := Nat.mod_lt m two_pos
  cases r <;> cases s <;>
    simp only [ExtendedMantissa.roundedMantissa, ExtendedMantissa.accuracy,
      Accuracy.roundToNearestEven] <;> omega

theorem Marks.abs_sub_le {em : ExtendedMantissa} {x : ℚ} (h : Marks em x) :
    |(em.roundedMantissa : ℚ) - x| ≤ 1 / 2 := by
  obtain ⟨m, r, s⟩ := em
  rw [abs_le]
  cases r <;> cases s <;>
    simp only [Marks, ExtendedMantissa.roundedMantissa, ExtendedMantissa.accuracy,
      Accuracy.roundToNearestEven, Nat.cast_add, Nat.cast_one] at h ⊢
  · exact ⟨by linarith, by linarith⟩
  · exact ⟨by linarith, by linarith⟩
  · rcases Nat.mod_two_eq_zero_or_one m with hbit | hbit <;> rw [hbit] <;> norm_num <;>
      exact ⟨by linarith, by linarith⟩
  · exact ⟨by linarith, by linarith⟩

/-! ### Rounding -/

/-- `v` is nearest to `t` among the multiples of a power of two. The power is the least one, unless
`t` has all bits of a significand above it. -/
def Nearest (t v : ℚ) : Prop :=
  ∃ (n : ℕ) (k : ℤ), v = n * 2 ^ k ∧ -1074 ≤ k ∧ |v - t| ≤ 2 ^ k / 2 ∧
    (k = -1074 ∨ 2 ^ (k + 52) ≤ t)

/-- The exponent at which a significand `m` with the exponent `e` is rounded. -/
def lastExponent (m : ℕ) (e : ℤ) : ℤ := max (m.log2 - 52 + e) (-1074)

/-- A significand that was rounded, without a bit that it may have too many. -/
def settle (r : ℕ) (k : ℤ) : UnpackedFloat :=
  let (em, e) := shiftToTargetExponent Format.binary64 r k .exact
  if h : em.mantissa = 0 then .zero .positive
  else .finite .positive em.mantissa e (Nat.pos_of_ne_zero h)

theorem shiftToTargetExponent_eq (m : ℕ) (e : ℤ) (acc : Accuracy) :
    shiftToTargetExponent Format.binary64 m e acc =
      (ExtendedMantissa.ofMantissaAndAccuracy m acc >>> (lastExponent m e - e).toNat,
        e + (lastExponent m e - e).toNat) := by
  have htarget : Format.binary64.targetExponent (totalExponent m e) = lastExponent m e := by
    show max ((m.log2 : ℤ) + 1 + e - 53) (-1074) = max (m.log2 - 52 + e) (-1074)
    congr 1
    omega
  rw [shiftToTargetExponent, shiftToExponent, htarget]

theorem roundWithAccuracy_eq (m : ℕ) (e : ℤ) (acc : Accuracy) :
    roundWithAccuracy Format.binary64 .positive m e acc =
      settle (ExtendedMantissa.ofMantissaAndAccuracy m acc >>>
          (lastExponent m e - e).toNat).roundedMantissa (e + (lastExponent m e - e).toNat) := by
  rw [roundWithAccuracy, shiftToTargetExponent_eq]
  rfl

theorem shows_settle {r : ℕ} {k : ℤ} (hr : r ≤ 2 ^ 53) (hleast : -1074 ≤ k) (hgreatest : k ≤ 970)
    (hfull : 2 ^ 52 ≤ r ∨ k = -1074) : Shows (settle r k) (r * 2 ^ k) := by
  rw [settle, shiftToTargetExponent_eq]
  rcases hr.lt_or_eq with hlt | rfl
  · have hshift : (lastExponent r k - k).toNat = 0 := by
      have hlog : r.log2 < 53 := by
        rcases Nat.eq_zero_or_pos r with rfl | hpos
        · decide
        · exact (Nat.log2_lt hpos.ne').mpr hlt
      unfold lastExponent
      omega
    rw [hshift]
    show Shows (if h : r = 0 then .zero .positive
      else .finite .positive r (k + (0 : ℕ)) (Nat.pos_of_ne_zero h)) _
    by_cases hzero : r = 0
    · rw [dif_pos hzero, hzero, Nat.cast_zero, zero_mul]
      exact .zero
    · have hpos : 0 < r := Nat.pos_of_ne_zero hzero
      have hsame : UnpackedFloat.finite .positive r (k + (0 : ℕ)) hpos =
          .finite .positive r k hpos := finite_congr rfl (add_zero k)
      rw [dif_neg hzero, hsame]
      exact .finite hpos ⟨hlt, hleast, by omega, hfull⟩
  · have hshift : (lastExponent (2 ^ 53) k - k).toNat = 1 := by
      unfold lastExponent
      rw [Nat.log2_two_pow]
      omega
    have hvalue : ((2 ^ 53 : ℕ) * 2 ^ k : ℚ) = (2 ^ 52 : ℕ) * 2 ^ (k + 1) := by
      rw [zpow_add_one₀ two_ne_zero]
      norm_num
      ring
    rw [hshift, hvalue]
    exact .finite (Nat.two_pow_pos 52) ⟨by decide, by omega, by omega, .inl le_rfl⟩

/-- Without `k` bits a significand is short enough, and full unless the exponent is the least. -/
theorem shortened_bounds {m k : ℕ} {e : ℤ} (hk : lastExponent m e = e + k) :
    m / 2 ^ k < 2 ^ 53 ∧ (2 ^ 52 ≤ m / 2 ^ k ∨ e + k = -1074) := by
  unfold lastExponent at hk
  rw [Nat.div_lt_iff_lt_mul (Nat.two_pow_pos k), Nat.le_div_iff_mul_le (Nat.two_pow_pos k),
    ← pow_add, ← pow_add]
  refine ⟨Nat.lt_log2_self.trans_le (Nat.pow_le_pow_right two_pos (by omega)),
    or_iff_not_imp_right.mpr fun hne => ?_⟩
  have hpos : m ≠ 0 := by
    rintro rfl
    rw [Nat.log2_zero] at hk
    omega
  exact (Nat.pow_le_pow_right two_pos (by omega)).trans (Nat.log2_self_le hpos)

/-- The leading bit of a significand is below the number that is rounded. -/
theorem lead_le {m : ℕ} {x : ℚ} (hpos : 0 < m) (hm : (m : ℚ) ≤ x) (e : ℤ) :
    (2 : ℚ) ^ ((m.log2 : ℤ) + e) ≤ x * 2 ^ e := by
  rw [zpow_add₀ two_ne_zero, zpow_natCast]
  refine mul_le_mul_of_nonneg_right (le_trans ?_ hm) (by positivity)
  exact_mod_cast Nat.log2_self_le hpos.ne'

theorem lastExponent_le {m : ℕ} {e : ℤ} {x : ℚ} (hm : (m : ℚ) ≤ x)
    (hbits : 52 ≤ m.log2 ∨ e ≤ -1074) (hlt : x * 2 ^ e < 2 ^ (1023 : ℤ)) :
    lastExponent m e ≤ 970 := by
  unfold lastExponent
  rcases Nat.eq_zero_or_pos m with rfl | hpos
  · rw [Nat.log2_zero] at hbits ⊢
    omega
  · have := (zpow_lt_zpow_iff_right₀ (one_lt_two (α := ℚ))).mp ((lead_le hpos hm e).trans_lt hlt)
    omega

/-- **Rounding** gives a nearest number, if no bit of the significand is missing before. -/
theorem shows_roundWithAccuracy {m : ℕ} {e : ℤ} {acc : Accuracy} {x : ℚ}
    (hx : Marks (.ofMantissaAndAccuracy m acc) x) (hbits : 52 ≤ m.log2 ∨ e ≤ -1074)
    (hlt : x * 2 ^ e < 2 ^ (1023 : ℤ)) :
    ∃ v, Shows (roundWithAccuracy Format.binary64 .positive m e acc) v ∧ Nearest (x * 2 ^ e) v := by
  have hm : (m : ℚ) ≤ x := by simpa only [mantissa_ofMantissaAndAccuracy] using hx.le
  have hgreatest := lastExponent_le hm hbits hlt
  have hlast : lastExponent m e = max (m.log2 - 52 + e) (-1074) := rfl
  obtain ⟨k, hk⟩ : ∃ k : ℕ, lastExponent m e = e + k := ⟨(lastExponent m e - e).toNat, by omega⟩
  obtain ⟨hupper, hlower⟩ := shortened_bounds hk
  have hmarks := hx.shiftRight k
  have hround := roundWithAccuracy_eq m e acc
  have hmantissa := mantissa_shiftRight (.ofMantissaAndAccuracy m acc) k
  rw [hk, add_sub_cancel_left, Int.toNat_natCast] at hround
  rw [mantissa_ofMantissaAndAccuracy] at hmantissa
  generalize ExtendedMantissa.ofMantissaAndAccuracy m acc >>> k = em at hmarks hround hmantissa
  obtain ⟨hge, hle⟩ := roundedMantissa_mem em
  have hscale : x * 2 ^ e = x / 2 ^ k * 2 ^ (e + k) := by
    rw [zpow_add₀ two_ne_zero, zpow_natCast]
    field_simp
  refine ⟨em.roundedMantissa * 2 ^ (e + k), ?_, em.roundedMantissa, e + k, rfl, by omega, ?_, ?_⟩
  · rw [hround]
    exact shows_settle (by omega) (by omega) (by omega) (hlower.imp_left fun h => by omega)
  · rw [hscale, ← sub_mul, abs_mul, abs_of_pos (by positivity : (0 : ℚ) < 2 ^ (e + k))]
    calc |(em.roundedMantissa : ℚ) - x / 2 ^ k| * 2 ^ (e + k)
        ≤ 1 / 2 * 2 ^ (e + k) := mul_le_mul_of_nonneg_right hmarks.abs_sub_le (by positivity)
      _ = 2 ^ (e + k) / 2 := by ring
  · refine or_iff_not_imp_left.mpr fun hne => ?_
    have hpos : 0 < m := Nat.pos_of_ne_zero <| by
      rintro rfl
      rw [Nat.log2_zero] at hlast
      omega
    have hexponent : e + k + 52 = m.log2 + e := by omega
    rw [hexponent]
    exact lead_le hpos hm e

/-! ### How near -/

theorem Nearest.nonneg {t v : ℚ} (h : Nearest t v) : 0 ≤ v := by
  obtain ⟨n, k, rfl, -⟩ := h
  positivity

/-- The number that a double shows is nearest to itself. -/
theorem Shows.nearest {u : UnpackedFloat} {v : ℚ} (h : Shows u v) : Nearest v v := by
  cases h with
  | zero => exact ⟨0, -1074, by simp, le_rfl, by simp; positivity, .inl rfl⟩
  | @finite m e hm h =>
    refine ⟨m, e, rfl, h.least, by simp; positivity, h.full.symm.imp_right fun hfull => ?_⟩
    rw [add_comm, zpow_add₀ two_ne_zero]
    refine mul_le_mul_of_nonneg_right ?_ (by positivity)
    exact_mod_cast hfull

theorem natCast_eq_of_abs_sub_lt {m n : ℕ} (h : |(m : ℚ) - n| < 1) : m = n := by
  have hlt : |((m : ℤ) - n : ℤ)| < 1 := by
    have : ((|((m : ℤ) - n : ℤ)| : ℤ) : ℚ) < 1 := by
      push_cast
      exact h
    exact_mod_cast this
  rwa [Int.abs_lt_one_iff, sub_eq_zero, Nat.cast_inj] at hlt

/-- **A number that a double can show** is nearest to itself only. -/
theorem Nearest.eq_of_multiple {t v : ℚ} (h : Nearest t v) {n : ℕ} {k : ℤ} (ht : t = n * 2 ^ k)
    (hn : n < 2 ^ 53) (hk : -1074 ≤ k) : v = t := by
  obtain ⟨m, j, rfl, -, habs, hbits⟩ := h
  have hle : j ≤ k := by
    rcases hbits with rfl | hbits
    · exact hk
    · have hlt : (2 : ℚ) ^ (j + 52) < 2 ^ (53 + k) := by
        rw [zpow_add₀ two_ne_zero 53 k]
        refine hbits.trans_lt ?_
        rw [ht]
        exact mul_lt_mul_of_pos_right (by exact_mod_cast hn) (by positivity)
      have := (zpow_lt_zpow_iff_right₀ (one_lt_two (α := ℚ))).mp hlt
      omega
  obtain ⟨i, hi⟩ : ∃ i : ℕ, k = j + i := ⟨(k - j).toNat, by omega⟩
  have hmultiple : t = (n * 2 ^ i : ℕ) * 2 ^ j := by
    rw [ht, hi, zpow_add₀ two_ne_zero, zpow_natCast]
    push_cast
    ring
  have hpos : (0 : ℚ) < 2 ^ j := by positivity
  rw [hmultiple, ← sub_mul, abs_mul, abs_of_pos hpos, div_eq_inv_mul, mul_le_mul_iff_left₀ hpos]
    at habs
  rw [hmultiple]
  rw [natCast_eq_of_abs_sub_lt (habs.trans_lt (by norm_num))]

/-- A number below a power of two is rounded by at most half of its last bit. -/
theorem Nearest.abs_sub_le {t v : ℚ} (h : Nearest t v) {j : ℤ} (ht : t < 2 ^ j) (hj : -1021 ≤ j) :
    |v - t| ≤ 2 ^ (j - 54) := by
  obtain ⟨n, k, -, -, habs, hbits⟩ := h
  refine habs.trans ?_
  rw [div_eq_mul_inv, ← zpow_neg_one, ← zpow_add₀ two_ne_zero]
  refine zpow_le_zpow_right₀ one_le_two ?_
  rcases hbits with rfl | hbits
  · omega
  · have := (zpow_lt_zpow_iff_right₀ (one_lt_two (α := ℚ))).mp (hbits.trans_lt ht)
    omega

/-- Any number is rounded by at most one part in `2 ^ 53`, or half of the least double. -/
theorem Nearest.le {t v : ℚ} (h : Nearest t v) (ht : 0 ≤ t) :
    v ≤ t + t * 2 ^ (-53 : ℤ) + 2 ^ (-1075 : ℤ) := by
  obtain ⟨n, k, -, -, habs, hbits⟩ := h
  have hhalf : (2 : ℚ) ^ k / 2 = 2 ^ (k - 1) := (zpow_sub_one₀ two_ne_zero k).symm
  have hrelative : 0 ≤ t * 2 ^ (-53 : ℤ) := by positivity
  have hleast : (0 : ℚ) ≤ 2 ^ (-1075 : ℤ) := by positivity
  have hle := (le_abs_self _).trans habs
  rw [hhalf] at hle
  rcases hbits with rfl | hbits
  · exact (by linarith : v ≤ t + t * 2 ^ (-53 : ℤ) + 2 ^ (-1074 - 1 : ℤ))
  · have hshift : (2 : ℚ) ^ (k - 1) = 2 ^ (k + 52) * 2 ^ (-53 : ℤ) := by
      rw [← zpow_add₀ two_ne_zero]
      congr 1
      omega
    have := mul_le_mul_of_nonneg_right hbits (by positivity : (0 : ℚ) ≤ 2 ^ (-53 : ℤ))
    linarith

end Entitlements.Double
