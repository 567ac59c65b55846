import Entitlements.Proofs.Text.Cut
import Entitlements.Text.LetterCase

/-! # Lower case

What the scanners make of a text whose letters `A` to `Z` have become small. A letter stays a letter
and everything else stays as it is (`toLower_cases`), so that a text in lower case is cut and
trimmed at the same places as before (`splitOn_map`, `trim_map_toLower`). -/

namespace Entitlements

/-! ### Characters -/

/-- A letter from `A` to `Z` becomes one from `a` to `z`, and nothing else changes. -/
theorem toLower_cases (c : Char) : c.toLower = c ∨
    65 ≤ c.toNat ∧ c.toNat ≤ 90 ∧ c.toLower.toNat = c.toNat + 32 := by
  unfold Char.toLower
  split
  · next hc =>
    have h1 : 65 ≤ c.toNat := hc.1
    have h2 : c.toNat ≤ 90 := hc.2
    have hmod : (c.toNat + 32) % 4294967296 = c.toNat + 32 := by omega
    exact .inr ⟨h1, h2, (UInt32.toNat_add c.val ('a'.val - 'A'.val)).trans hmod⟩
  · exact .inl rfl

theorem toLower_toLower (c : Char) : c.toLower.toLower = c.toLower := by
  rcases toLower_cases c with h | ⟨h1, h2, h⟩
  · rw [h, h]
  · rcases toLower_cases c.toLower with h' | ⟨h1', h2', -⟩
    · exact h'
    · omega

/-- What is no letter is the lower case of nothing else. -/
theorem toLower_eq_iff {c x : Char}
    (hx : ¬ (65 ≤ x.toNat ∧ x.toNat ≤ 90) ∧ ¬ (97 ≤ x.toNat ∧ x.toNat ≤ 122)) :
    c.toLower = x ↔ c = x := by
  constructor
  · rintro rfl
    rcases toLower_cases c with h | ⟨h1, h2, h⟩
    · exact h.symm
    · omega
  · rintro rfl
    rcases toLower_cases c with h | ⟨h1, h2, h⟩
    · exact h
    · omega

theorem not_isBlank_of_letter {c : Char} (h1 : 65 ≤ c.toNat) (h2 : c.toNat ≤ 122) :
    isBlank c = false := by
  simp only [isBlank, Bool.or_eq_false_iff, Bool.and_eq_false_iff, decide_eq_false_iff_not,
    beq_eq_false_iff_ne]
  omega

theorem isBlank_toLower (c : Char) : isBlank c.toLower = isBlank c := by
  rcases toLower_cases c with h | ⟨h1, h2, h⟩
  · rw [h]
  · rw [not_isBlank_of_letter (c := c) h1 (by omega), not_isBlank_of_letter (by omega) (by omega)]

theorem not_isBlank_of_toLower {c x : Char} (h : c.toLower = x) (hx : isBlank x = false) :
    isBlank c = false := by
  rw [← isBlank_toLower, h, hx]

/-! ### Texts -/

theorem toList_toLower (s : String) : s.toLower.toList = s.toList.map Char.toLower :=
  String.toList_map

theorem sameLetters_iff {s s' : String} : sameLetters s s' = true ↔ s.toLower = s'.toLower := by
  rw [← String.toList_inj, toList_toLower, toList_toLower]
  exact beq_iff_eq

theorem ofList_map_toLower (cs : List Char) :
    String.ofList (cs.map Char.toLower) = (String.ofList cs).toLower := by
  rw [← String.toList_inj, toList_toLower, String.toList_ofList, String.toList_ofList]

/-- A text is cut at the same places when nothing but the separator becomes the separator. -/
theorem splitOn_map {sep : Char} {f : Char → Char} (hf : ∀ c, f c = sep ↔ c = sep)
    (cs : List Char) : splitOn sep (cs.map f) = (splitOn sep cs).map (List.map f) := by
  induction cs with
  | nil => rfl
  | cons c cs ih =>
    rw [List.map_cons, splitOn, splitOn, ih]
    by_cases hc : c = sep
    · rw [if_pos ((hf c).mpr hc), if_pos hc]
      rfl
    · rw [if_neg (mt (hf c).mp hc), if_neg hc]
      cases splitOn sep cs <;> rfl

theorem dropBlanks_map_toLower (cs : List Char) :
    dropBlanks (cs.map Char.toLower) = (dropBlanks cs).map Char.toLower := by
  have h : isBlank ∘ Char.toLower = isBlank := funext isBlank_toLower
  rw [dropBlanks, List.dropWhile_map, h, ← dropBlanks]

theorem dropBlanksEnd_map_toLower (cs : List Char) :
    dropBlanksEnd (cs.map Char.toLower) = (dropBlanksEnd cs).map Char.toLower := by
  have h := dropBlanks_map_toLower cs.reverse
  unfold dropBlanks at h
  rw [dropBlanksEnd, ← List.map_reverse, h, ← List.map_reverse, ← dropBlanksEnd]

theorem trim_map_toLower (cs : List Char) :
    trim (cs.map Char.toLower) = (trim cs).map Char.toLower := by
  rw [trim, dropBlanks_map_toLower, dropBlanksEnd_map_toLower, ← trim]

end Entitlements
