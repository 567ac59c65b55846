import Entitlements.Proofs.Number.Nearest

/-! # Arithmetic of doubles

What the operations on doubles give for doubles that show numbers, and for a natural number: a
double that shows a nearest number (`Shows.add`, `Shows.mul`, `Shows.div`, `shows_ofNat`). -/

namespace Entitlements.Double

open Float.Model Float.Model.UnpackedFloat

/-! ### Significands of any length -/

theorem log2_shiftLeft {m : ℕ} (hm : 0 < m) (k : ℕ) : (m <<< k).log2 = m.log2 + k := by
  induction k with
  | zero => rfl
  | succ k ih =>
    have hne : m <<< k ≠ 0 := by
      rw [Nat.shiftLeft_eq]
      exact (Nat.mul_pos hm (Nat.two_pow_pos k)).ne'
    rw [Nat.shiftLeft_succ, Nat.log2_two_mul hne, ih]
    rfl

theorem cast_shiftLeft_mul (m k : ℕ) (e : ℤ) : ((m <<< k : ℕ) : ℚ) * 2 ^ e = m * 2 ^ (e + k) := by
  rw [Nat.shiftLeft_eq, zpow_add₀ two_ne_zero, zpow_natCast]
  push_cast
  ring

/-- Bits are added at the end until there are enough of them. -/
theorem shows_round {m : ℕ} (hm : 0 < m) {e : ℤ} (hlt : (m : ℚ) * 2 ^ e < 2 ^ (1023 : ℤ)) :
    ∃ v, Shows (UnpackedFloat.round Format.binary64 .positive m e) v ∧ Nearest (m * 2 ^ e) v := by
  have htarget : Format.binary64.targetExponent (totalExponent m e) =
      max ((m.log2 : ℤ) + 1 + e - 53) (-1074) := rfl
  rw [UnpackedFloat.round, decreaseExponent]
  generalize hT : Format.binary64.targetExponent (totalExponent m e) = T
  obtain ⟨k, hk⟩ : ∃ k : ℕ, (e - T).toNat = k := ⟨_, rfl⟩
  have hvalue : (m : ℚ) * 2 ^ e = (m <<< k : ℕ) * 2 ^ (e - k) := by
    rw [cast_shiftLeft_mul, sub_add_cancel]
  rw [hvalue] at hlt ⊢
  dsimp only
  rw [hk]
  refine shows_roundWithAccuracy (.exact _) ?_ hlt
  rw [log2_shiftLeft hm]
  omega

theorem shows_normalize (n : ℕ) {e : ℤ} (hlt : (n : ℚ) * 2 ^ e < 2 ^ (1023 : ℤ)) :
    ∃ v, Shows (UnpackedFloat.normalize Format.binary64 n e .positive) v ∧
      Nearest (n * 2 ^ e) v := by
  rcases Nat.eq_zero_or_pos n with rfl | hpos
  · simp only [Nat.cast_zero, zero_mul]
    exact ⟨0, .zero, Shows.zero.nearest⟩
  · have hcompare : compare (n : ℤ) 0 = .gt :=
      compare_gt_iff_gt.mpr (Int.natCast_pos.mpr hpos)
    rw [UnpackedFloat.normalize, hcompare]
    exact shows_round hpos hlt

/-! ### Operations -/

section Operations
variable {x y : UnpackedFloat} {v w : ℚ}

theorem shows_add (hx : Shows x v) (hy : Shows y w) (hlt : v + w < 2 ^ (1023 : ℤ)) :
    ∃ u, Shows (UnpackedFloat.add Format.binary64 x y) u ∧ Nearest (v + w) u := by
  cases hx with
  | zero =>
    rw [zero_add]
    cases hy with
    | zero => exact ⟨0, .zero, Shows.zero.nearest⟩
    | finite hm h => exact ⟨_, .finite hm h, (Shows.finite hm h).nearest⟩
  | @finite m₁ e₁ hm₁ h₁ =>
    cases hy with
    | zero =>
      rw [add_zero]
      exact ⟨_, .finite hm₁ h₁, (Shows.finite hm₁ h₁).nearest⟩
    | @finite m₂ e₂ hm₂ h₂ =>
      obtain ⟨k₁, hk₁⟩ : ∃ k : ℕ, (e₁ - min e₁ e₂).toNat = k := ⟨_, rfl⟩
      obtain ⟨k₂, hk₂⟩ : ∃ k : ℕ, (e₂ - min e₁ e₂).toNat = k := ⟨_, rfl⟩
      have hvalue : (m₁ * 2 ^ e₁ + m₂ * 2 ^ e₂ : ℚ) =
          (m₁ <<< k₁ + m₂ <<< k₂ : ℕ) * 2 ^ min e₁ e₂ := by
        have he₁ : min e₁ e₂ + k₁ = e₁ := by omega
        have he₂ : min e₁ e₂ + k₂ = e₂ := by omega
        rw [Nat.cast_add, add_mul, cast_shiftLeft_mul, cast_shiftLeft_mul, he₁, he₂]
      rw [hvalue] at hlt ⊢
      have hadd : UnpackedFloat.add Format.binary64 (.finite .positive m₁ e₁ hm₁)
          (.finite .positive m₂ e₂ hm₂) =
            UnpackedFloat.normalize Format.binary64 (m₁ <<< k₁ + m₂ <<< k₂ : ℕ) (min e₁ e₂)
              .positive := by
        rw [← hk₁, ← hk₂]
        rfl
      rw [hadd]
      exact shows_normalize _ hlt

theorem shows_mul (hx : Shows x v) (hy : Shows y w) (hlt : v * w < 2 ^ (1023 : ℤ)) :
    ∃ u, Shows (UnpackedFloat.mul Format.binary64 x y) u ∧ Nearest (v * w) u := by
  cases hx with
  | zero =>
    rw [zero_mul]
    cases hy <;> exact ⟨0, .zero, Shows.zero.nearest⟩
  | @finite m₁ e₁ hm₁ h₁ =>
    cases hy with
    | zero =>
      rw [mul_zero]
      exact ⟨0, .zero, Shows.zero.nearest⟩
    | @finite m₂ e₂ hm₂ h₂ =>
      have hvalue : (m₁ * 2 ^ e₁ * (m₂ * 2 ^ e₂) : ℚ) = (m₁ * m₂ : ℕ) * 2 ^ (e₁ + e₂) := by
        rw [zpow_add₀ two_ne_zero, Nat.cast_mul]
        ring
      rw [hvalue] at hlt ⊢
      refine shows_roundWithAccuracy (.exact _) ?_ hlt
      -- One of two significands that are full makes a product with bits enough.
      have hbits : 2 ^ 52 ≤ m₁ * m₂ ∨ e₁ + e₂ ≤ -1074 := by
        rcases h₁.full with hfull | rfl
        · exact .inl (hfull.trans (Nat.le_mul_of_pos_right m₁ hm₂))
        · rcases h₂.full with hfull | rfl
          · exact .inl (hfull.trans (Nat.le_mul_of_pos_left m₂ hm₁))
          · exact .inr (by decide)
      exact hbits.imp_left (Nat.le_log2 (Nat.mul_pos hm₁ hm₂).ne').mpr

theorem shows_div (hx : Shows x v) (hy : Shows y w) (hw : 0 < w) (hlt : v / w < 2 ^ (1023 : ℤ)) :
    ∃ u, Shows (UnpackedFloat.div Format.binary64 x y) u ∧ Nearest (v / w) u := by
  cases hy with
  | zero => exact absurd rfl hw.ne
  | @finite m₂ e₂ hm₂ h₂ =>
    cases hx with
    | zero =>
      rw [zero_div]
      exact ⟨0, .zero, Shows.zero.nearest⟩
    | @finite m₁ e₁ hm₁ h₁ =>
      have htarget : Format.binary64.targetExponent (totalExponent m₁ e₁ - totalExponent m₂ e₂) =
          max ((m₁.log2 : ℤ) + 1 + e₁ - (m₂.log2 + 1 + e₂) - 53) (-1074) := rfl
      generalize hT : min (e₁ - e₂) (Format.binary64.targetExponent
        (totalExponent m₁ e₁ - totalExponent m₂ e₂)) = T
      obtain ⟨k, hk⟩ : ∃ k : ℕ, (e₁ - e₂ - T).toNat = k := ⟨_, rfl⟩
      have hdiv : UnpackedFloat.div Format.binary64 (.finite .positive m₁ e₁ hm₁)
          (.finite .positive m₂ e₂ hm₂) =
            roundWithAccuracy Format.binary64 .positive ((m₁ <<< k) / m₂) T
              (accuracyOfFraction ((m₁ <<< k) % m₂) m₂) := by
        rw [← hk, ← hT]
        rfl
      have hvalue : (m₁ * 2 ^ e₁ / (m₂ * 2 ^ e₂) : ℚ) = ((m₁ <<< k : ℕ) / m₂ : ℚ) * 2 ^ T := by
        have he : e₁ = T + k + e₂ := by omega
        rw [div_mul_eq_mul_div, cast_shiftLeft_mul, he, zpow_add₀ two_ne_zero (T + k) e₂,
          ← mul_assoc, mul_div_mul_right _ _ (by positivity)]
      rw [hvalue] at hlt ⊢
      rw [hdiv]
      refine shows_roundWithAccuracy (.quotient _ hm₂) ?_ hlt
      refine or_iff_not_imp_right.mpr fun hlarge => ?_
      have hquotient : 2 ^ 52 ≤ (m₁ <<< k) / m₂ := by
        rw [Nat.le_div_iff_mul_le hm₂, Nat.shiftLeft_eq]
        calc 2 ^ 52 * m₂ ≤ 2 ^ 52 * 2 ^ (m₂.log2 + 1) :=
              Nat.mul_le_mul_left _ Nat.lt_log2_self.le
          _ = 2 ^ (52 + (m₂.log2 + 1)) := (pow_add 2 52 _).symm
          _ ≤ 2 ^ (m₁.log2 + k) := Nat.pow_le_pow_right two_pos (by omega)
          _ = 2 ^ m₁.log2 * 2 ^ k := pow_add 2 _ _
          _ ≤ m₁ * 2 ^ k := Nat.mul_le_mul_right _ (Nat.log2_self_le hm₁.ne')
      exact (Nat.le_log2 (by omega)).mpr hquotient

end Operations

section Floats
variable {x y : Float} {v w : ℚ}

theorem Shows.add (hx : Shows x.toModel.unpack v) (hy : Shows y.toModel.unpack w)
    (hlt : v + w < 2 ^ (1023 : ℤ)) : ∃ u, Shows (x + y).toModel.unpack u ∧ Nearest (v + w) u := by
  obtain ⟨u, hu, hnearest⟩ := shows_add hx hy hlt
  exact ⟨u, hu.unpack_pack, hnearest⟩

theorem Shows.mul (hx : Shows x.toModel.unpack v) (hy : Shows y.toModel.unpack w)
    (hlt : v * w < 2 ^ (1023 : ℤ)) : ∃ u, Shows (x * y).toModel.unpack u ∧ Nearest (v * w) u := by
  obtain ⟨u, hu, hnearest⟩ := shows_mul hx hy hlt
  exact ⟨u, hu.unpack_pack, hnearest⟩

theorem Shows.div (hx : Shows x.toModel.unpack v) (hy : Shows y.toModel.unpack w) (hw : 0 < w)
    (hlt : v / w < 2 ^ (1023 : ℤ)) : ∃ u, Shows (x / y).toModel.unpack u ∧ Nearest (v / w) u := by
  obtain ⟨u, hu, hnearest⟩ := shows_div hx hy hw hlt
  exact ⟨u, hu.unpack_pack, hnearest⟩

end Floats

/-! ### Natural numbers -/

theorem Nearest.eq_natCast {n : ℕ} {v : ℚ} (h : Nearest n v) (hn : n < 2 ^ 53) : v = n :=
  h.eq_of_multiple (by rw [zpow_zero, mul_one]) hn (by decide)

/-- **A natural number** of 64 bits is a nearest double. -/
theorem shows_ofNat {n : ℕ} (hn : n < 2 ^ 64) :
    ∃ v, Shows (Float.ofNat n).toModel.unpack v ∧ Nearest n v := by
  have hlt : (n : ℚ) < 2 ^ (1023 : ℤ) :=
    calc (n : ℚ) < 2 ^ (64 : ℤ) := by exact_mod_cast hn
      _ < 2 ^ (1023 : ℤ) := zpow_lt_zpow_right₀ one_lt_two (by decide)
  by_cases hsmall : n < 2 ^ 53
  · -- Up to here the number is converted, and multiplied by the double that shows one.
    have heq : Float.ofNat n = n.toUInt64.toFloat * Float.ofBits 0x3FF0000000000000 := by
      show Float.ofScientific n false 0 = _
      rw [Float.ofScientific, dif_pos ⟨hsmall, Nat.zero_le 22⟩]
      rfl
    have hone : Shows (Float.ofBits 0x3FF0000000000000).toModel.unpack 1 := by
      have hvalue : (1 : ℚ) = (2 ^ 52 : ℕ) * 2 ^ (-52 : ℤ) := by norm_num
      rw [hvalue]
      exact .finite (Nat.two_pow_pos 52) ⟨by decide, by decide, by decide, .inl le_rfl⟩
    have hconvert : n.toUInt64.toFloat.toModel =
        Float.Model.pack (UnpackedFloat.normalize Format.binary64 n 0 .positive) := by
      have hnat : n.toUInt64.toNat = n := Nat.mod_eq_of_lt hn
      show Float.Model.pack
        (UnpackedFloat.normalize Format.binary64 n.toUInt64.toNat 0 .positive) = _
      rw [hnat]
    obtain ⟨v, hv, hnearest⟩ := shows_normalize n (e := 0) (by rwa [zpow_zero, mul_one])
    rw [zpow_zero, mul_one] at hnearest
    obtain rfl := hnearest.eq_natCast hsmall
    have hv' : Shows n.toUInt64.toFloat.toModel.unpack n := by
      rw [hconvert]
      exact hv.unpack_pack
    rw [heq]
    simpa only [mul_one] using hv'.mul hone (by rwa [mul_one])
  · have hpos : 0 < n := by omega
    have hvalue : (n : ℚ) = (n <<< 53 * 1 : ℕ) * 2 ^ (-53 + 0 : ℤ) := by
      rw [mul_one, cast_shiftLeft_mul]
      simp
    have heq : (Float.ofNat n).toModel = Float.Model.pack
        (roundWithAccuracy Format.binary64 .positive (n <<< 53 * 1) (-53 + 0) .exact) := by
      have hscientific : Float.ofNat n = Float.ofModel (Float.Model.ofScientific n 0) := by
        show Float.ofScientific n false 0 = _
        rw [Float.ofScientific, dif_neg fun h => hsmall h.1]
        rfl
      have hexponent : ¬ (0 : ℤ) < -((2 : ℤ) ^ 11 + n.log2) := by omega
      rw [hscientific]
      show Float.Model.ofScientific n 0 = _
      rw [Float.Model.ofScientific, UnpackedFloat.ofScientific, dif_neg hpos.ne',
        if_neg (by decide), if_neg hexponent, if_pos le_rfl]
      rfl
    have hbits : 52 ≤ (n <<< 53 * 1).log2 := by
      rw [mul_one, log2_shiftLeft hpos]
      omega
    rw [hvalue] at hlt ⊢
    obtain ⟨v, hv, hnearest⟩ := shows_roundWithAccuracy (.exact _) (.inl hbits) hlt
    rw [heq]
    exact ⟨v, hv.unpack_pack, hnearest⟩

end Entitlements.Double
