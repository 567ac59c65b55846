import Entitlements.Proofs.Text.LowerCase

/-! # Occurrences in any letter case

A word occurs in a text, in any letter case, when the text has a part that is the word but for the
case of its letters (`OccursAnyCase`). Whether it does so depends on the letters of the text only
(`occursAnyCase_congr`), and a sign that is not in the word keeps the texts on its two sides apart
(`occursAnyCase_append`). This is what a search in the text in lower case finds
(`occursIn_lowercase_iff`), although a few characters outside `A` to `Z` have a letter in their
lower case too: no word that is `Plain` can be put together from those. -/

namespace Entitlements

/-- Whether `word` occurs in `text`, each of its letters in either case. -/
def OccursAnyCase (word text : String) : Prop :=
  ∃ before written after : String, text = before ++ written ++ after ∧
    sameLetters written word = true

theorem occursAnyCase_iff {word text : String} : OccursAnyCase word text ↔
    word.toList.map Char.toLower <:+: text.toList.map Char.toLower := by
  rw [List.infix_map_iff]
  constructor
  · rintro ⟨before, written, after, rfl, h⟩
    refine ⟨written.toList, ⟨before.toList, after.toList, by simp⟩, (beq_iff_eq.mp h).symm⟩
  · rintro ⟨written, ⟨before, after, h⟩, hword⟩
    refine ⟨String.ofList before, String.ofList written, String.ofList after, ?_, ?_⟩
    · rw [← String.toList_inj]
      simpa using h.symm
    · rw [sameLetters, String.toList_ofList, hword]
      exact beq_self_eq_true _

theorem occursAnyCase_congr {text text' : String} (h : sameLetters text text' = true)
    (word : String) : OccursAnyCase word text ↔ OccursAnyCase word text' := by
  rw [occursAnyCase_iff, occursAnyCase_iff, beq_iff_eq.mp h]

/-- What is part of a word occurs wherever the word does. -/
theorem OccursAnyCase.of_part {part word text : String} (hpart : part.toList <:+: word.toList)
    (h : OccursAnyCase word text) : OccursAnyCase part text := by
  rw [occursAnyCase_iff] at h ⊢
  exact (hpart.map Char.toLower).trans h

theorem eq_nil_of_prefix_cons {α : Type} {x : α} {w cs : List α} (hx : x ∉ w)
    (h : w <+: x :: cs) : w = [] := by
  rcases List.prefix_cons_iff.mp h with rfl | ⟨t, rfl, -⟩
  · rfl
  · exact absurd List.mem_cons_self hx

/-- A word without the separator stands on one side of it. -/
theorem infix_append_cons_iff {α : Type} {x : α} {w : List α} (hx : x ∉ w) {a b : List α} :
    w <:+: a ++ x :: b ↔ w <:+: a ∨ w <:+: b := by
  constructor
  · intro h
    rcases List.infix_append_iff.mp h with h | h | ⟨w₁, w₂, rfl, h₁, h₂⟩
    · exact .inl h
    · rcases List.infix_cons_iff.mp h with h | h
      · rw [eq_nil_of_prefix_cons hx h]
        exact .inl List.nil_infix
      · exact .inr h
    · have hnil := eq_nil_of_prefix_cons (fun hm => hx (List.mem_append_right w₁ hm)) h₂
      rw [hnil, List.append_nil]
      exact .inl h₁.isInfix
  · rintro (h | h)
    · exact h.trans (List.prefix_append a _).isInfix
    · exact h.trans ((List.suffix_cons x b).isInfix.trans (List.suffix_append a _).isInfix)

/-- **A separator that is not in the word** keeps two texts apart. -/
theorem occursAnyCase_append {word : String} (h : ';' ∉ word.toList) (a b : String) :
    OccursAnyCase word (a ++ ";" ++ b) ↔ OccursAnyCase word a ∨ OccursAnyCase word b := by
  have hsep : ∀ c : Char, c.toLower = ';' ↔ c = ';' := fun c => toLower_eq_iff (by decide)
  have hword : ';' ∉ word.toList.map Char.toLower := by
    simpa [hsep] using h
  have htext : (a ++ ";" ++ b).toList.map Char.toLower =
      a.toList.map Char.toLower ++ ';' :: b.toList.map Char.toLower := by
    simp
  rw [occursAnyCase_iff, occursAnyCase_iff, occursAnyCase_iff, htext, infix_append_cons_iff hword]

/-! ### Searching in lower case -/

theorem occursIn_iff {word cs : List Char} : occursIn word cs = true ↔ word <:+: cs := by
  induction cs with
  | nil => simp [occursIn]
  | cons c cs ih =>
    rw [occursIn, Bool.or_eq_true, ih, List.isPrefixOf_iff_prefix, List.infix_cons_iff]

/-- A word in small letters that the lower case of other characters has no part in: it has no `k`,
which the Kelvin sign gives, and no `i` at its end, where the one that `İ` gives could stand. -/
def Plain (word : List Char) : Prop :=
  (∀ c ∈ word, c.toNat < 128 ∧ c.toLower = c ∧ c ≠ 'k') ∧ word.getLast? ≠ some 'i'

-- The characters of the word are gone through, not all that there are.
instance (word : List Char) : Decidable (Plain word) :=
  @instDecidableAnd _ _ (List.decidableBAll _ word) inferInstance

theorem Plain.tail {x : Char} {word : List Char} (h : Plain (x :: word)) : Plain word := by
  refine ⟨fun c hc => h.1 c (List.mem_cons_of_mem x hc), fun hlast => h.2 ?_⟩
  rw [List.getLast?_cons, hlast]
  rfl

theorem Plain.not_mem_of_le {word : List Char} (h : Plain word) {c : Char} (hc : 128 ≤ c.toNat) :
    c ∉ word := fun hm => by
  have := (h.1 c hm).1
  omega

theorem lowercase_cons (c : Char) (cs : List Char) :
    lowercase (c :: cs) = lowercaseChar c ++ lowercase cs := List.flatMap_cons

/-- Only two characters have other letters in their lower case than `Char.toLower` gives. -/
theorem lowercaseChar_cases (c : Char) : lowercaseChar c = [c.toLower] ∨
    c = '\u0130' ∧ lowercaseChar c = ['i', '\u0307'] ∨
      c = '\u212A' ∧ lowercaseChar c = ['k'] := by
  unfold lowercaseChar
  split
  · next h => exact .inr (.inl ⟨h, rfl⟩)
  · split
    · next h => exact .inr (.inr ⟨h, rfl⟩)
    · exact .inl rfl

theorem prefix_lowercase_iff {word : List Char} (h : Plain word) (cs : List Char) :
    word <+: lowercase cs ↔ word <+: cs.map Char.toLower := by
  induction cs generalizing word with
  | nil => rfl
  | cons c cs ih =>
    cases word with
    | nil => exact iff_of_true List.nil_prefix List.nil_prefix
    | cons x word =>
      obtain ⟨hascii, -, hk⟩ := h.1 x List.mem_cons_self
      rw [lowercase_cons, List.map_cons, List.cons_prefix_cons]
      rcases lowercaseChar_cases c with hc | ⟨rfl, hc⟩ | ⟨rfl, hc⟩
      · rw [hc, List.singleton_append, List.cons_prefix_cons, ih h.tail]
      · -- Behind the `i` there is a dot, so that `i` would be the whole word.
        rw [hc, List.cons_append, List.singleton_append, List.cons_prefix_cons]
        refine iff_of_false ?_ ?_
        · rintro ⟨rfl, hword⟩
          obtain rfl := eq_nil_of_prefix_cons (h.tail.not_mem_of_le (by decide)) hword
          exact h.2 rfl
        · rintro ⟨rfl, -⟩
          exact absurd hascii (by decide)
      · rw [hc, List.singleton_append, List.cons_prefix_cons]
        refine iff_of_false (fun hword => hk hword.1) ?_
        rintro ⟨rfl, -⟩
        exact absurd hascii (by decide)

theorem infix_lowercase_iff {word : List Char} (h : Plain word) (cs : List Char) :
    word <:+: lowercase cs ↔ word <:+: cs.map Char.toLower := by
  induction cs with
  | nil => rfl
  | cons c cs ih =>
    rw [List.map_cons, List.infix_cons_iff, ← List.map_cons, ← prefix_lowercase_iff h, ← ih,
      lowercase_cons]
    rcases lowercaseChar_cases c with hc | ⟨-, hc⟩ | ⟨-, hc⟩
    · rw [hc, List.singleton_append, List.infix_cons_iff]
    · rw [hc, List.cons_append, List.singleton_append, List.infix_cons_iff, List.infix_cons_iff]
      constructor
      · rintro (hword | hword | hword)
        · exact .inl hword
        · rw [eq_nil_of_prefix_cons (h.not_mem_of_le (by decide)) hword]
          exact .inl List.nil_prefix
        · exact .inr hword
      · exact Or.imp_right .inr
    · rw [hc, List.singleton_append, List.infix_cons_iff]

/-- **Searching for a plain word in lower case** finds where it occurs in any letter case. -/
theorem occursIn_lowercase_iff {word : String} (h : Plain word.toList) (text : String) :
    occursIn word.toList (lowercase text.toList) = true ↔ OccursAnyCase word text := by
  have hword : word.toList.map Char.toLower = word.toList :=
    (List.map_congr_left fun c hc => (h.1 c hc).2.1).trans (List.map_id _)
  rw [occursIn_iff, infix_lowercase_iff h, occursAnyCase_iff, hword]

end Entitlements
