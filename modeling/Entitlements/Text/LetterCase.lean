/-! # Letter case

Comparing text without regard to the case of the letters `A` to `Z` (`sameLetters`, `stripWord?`)
and lower-casing it (`lowercase`). -/

namespace Entitlements

/-- Whether two texts are equal up to the case of the letters `A` to `Z`. -/
def sameLetters (s t : String) : Bool :=
  s.toList.map Char.toLower == t.toList.map Char.toLower

/-- What follows `word`, in any letter case, at the start of a text. -/
def stripWord? : List Char → List Char → Option (List Char)
  | [], cs => some cs
  | _ :: _, [] => none
  | w :: word, c :: cs => if c.toLower = w.toLower then stripWord? word cs else none

/-- The lower case of a character, as far as it has letters `a` to `z` in it. Outside ASCII these
are `İ`, whose lower case is an `i` with a dot above, and the Kelvin sign; every other character
stands for itself. -/
def lowercaseChar (c : Char) : List Char :=
  if c = '\u0130' then ['i', '\u0307']
  else if c = '\u212A' then ['k']
  else [c.toLower]

/-- The text in lower case, as far as the letters `a` to `z` go. -/
def lowercase (cs : List Char) : List Char := cs.flatMap lowercaseChar

/-- Whether `word` occurs in `cs` as a contiguous run. -/
def occursIn (word : List Char) : List Char → Bool
  | [] => word.isEmpty
  | c :: cs => word.isPrefixOf (c :: cs) || occursIn word cs

/-! ### Small facts -/

@[simp] theorem sameLetters_refl (s : String) : sameLetters s s = true := by simp [sameLetters]

theorem stripWord?_self_append (word cs : List Char) : stripWord? word (word ++ cs) = some cs := by
  induction word with
  | nil => rfl
  | cons w word ih => simp [stripWord?, ih]

theorem length_of_stripWord? {word cs rest : List Char} (h : stripWord? word cs = some rest) :
    cs.length = word.length + rest.length := by
  induction word generalizing cs with
  | nil => simp_all [stripWord?]
  | cons w word ih =>
    cases cs with
    | nil => simp [stripWord?] at h
    | cons c cs =>
      simp only [stripWord?] at h
      split at h
      · simp [ih h]; omega
      · simp at h

theorem stripWord?_eq_some_iff : ∀ {word cs rest : List Char},
    stripWord? word cs = some rest ↔
      ∃ w, cs = w ++ rest ∧ w.map Char.toLower = word.map Char.toLower
  | [], cs, rest => by
    constructor
    · intro h; exact ⟨[], by simpa [stripWord?] using h, rfl⟩
    · rintro ⟨w, rfl, hw⟩
      obtain rfl : w = [] := by simpa using hw
      rfl
  | x :: word, [], rest => by
    simp only [stripWord?]
    constructor
    · intro h; cases h
    · rintro ⟨w, hw, hl⟩
      obtain ⟨rfl, -⟩ := List.append_eq_nil_iff.mp hw.symm
      cases hl
  | x :: word, c :: cs, rest => by
    simp only [stripWord?]
    constructor
    · intro h
      split at h
      · next hc =>
        obtain ⟨w, rfl, hw⟩ := stripWord?_eq_some_iff.mp h
        exact ⟨c :: w, rfl, by simp [hc, hw]⟩
      · cases h
    · rintro ⟨_ | ⟨y, w⟩, hw, hl⟩
      · cases hl
      · obtain ⟨rfl, rfl⟩ := List.cons.inj hw
        obtain ⟨hc, hl⟩ := List.cons.inj hl
        rw [if_pos hc]
        exact stripWord?_eq_some_iff.mpr ⟨w, rfl, hl⟩

end Entitlements
