import Entitlements.Proofs.Statement.Held

/-! # Stars at the end

An entry whose only `*`, if it has one, is its last character stands for a set of actions: itself
without a `*`, and else everything that starts with what is in front of it (`Covers`). Such entries
meet exactly when they have an action in common (`meets_iff_covered`), and permissions that are held
satisfy what is required when one of them has an action in common with one of the patterns
(`satisfies_iff_covered`). -/

namespace Entitlements

/-- An entry with at most one `*`, which is then its last character. -/
def StarLast (entry : String) : Prop := '*' ∉ entry.toList.dropLast

instance (entry : String) : Decidable (StarLast entry) := inferInstanceAs (Decidable (¬ _))

/-- What an entry covers. -/
inductive Covers (entry action : String) : Prop
  | itself (h : '*' ∉ entry.toList) (heq : action = entry)
  | start {p : String} (h : entry = p ++ "*") (hp : p.toList <+: action.toList)

/-! ### Entries -/

/-- Either there is no star, or the entry is what is in front of it and the star. -/
theorem StarLast.cases {entry : String} (h : StarLast entry) :
    '*' ∉ entry.toList ∨ ∃ p : String, '*' ∉ p.toList ∧ entry = p ++ "*" := by
  rcases List.eq_nil_or_concat entry.toList with hnil | ⟨p, c, hconcat⟩
  · exact .inl (by simp [hnil])
  · have hp : '*' ∉ p := by simpa [StarLast, hconcat] using h
    by_cases hc : c = '*'
    · refine .inr ⟨.ofList p, by simpa using hp, String.toList_inj.mp ?_⟩
      simpa [hc] using hconcat
    · exact .inl (by simp [hconcat, hp, Ne.symm hc])

section Star
variable {p : String} (hp : '*' ∉ p.toList)
include hp

theorem hasStar_eq_false : hasStar p = false := by simpa [hasStar] using hp

theorem coversByStar_eq_false (s : String) : coversByStar p s = false := by
  rw [coversByStar, hasStar_eq_false hp, Bool.false_and]

theorem stem_append_star : stem (p ++ "*") = p.toList := by
  have hfilter : p.toList.filter (· != '*') = p.toList :=
    List.filter_eq_self.mpr fun c hc => by
      rw [bne_iff_ne]
      rintro rfl
      exact hp hc
  simp [stem, hfilter]

theorem coversByStar_append_star (s : String) :
    coversByStar (p ++ "*") s = true ↔ p.toList <+: s.toList := by
  rw [coversByStar, stem_append_star hp]
  simp [hasStar]

/-- What is free of stars and starts an entry with a star starts what is in front of it. -/
theorem prefix_append_star_iff {q : String} :
    p.toList <+: (q ++ "*").toList ↔ p.toList <+: q.toList := by
  rw [String.toList_append, show "*".toList = ['*'] from rfl, List.prefix_concat_iff]
  refine or_iff_right fun heq => hp ?_
  rw [heq]
  exact List.mem_append_right _ List.mem_cons_self

theorem covers_iff_eq {action : String} : Covers p action ↔ action = p := by
  constructor
  · rintro (⟨-, heq⟩ | ⟨rfl, -⟩)
    · exact heq
    · exact absurd (by simp) hp
  · exact .itself hp

omit hp in
theorem covers_append_star_iff {action : String} :
    Covers (p ++ "*") action ↔ p.toList <+: action.toList := by
  constructor
  · rintro (⟨h, -⟩ | ⟨heq, hq⟩)
    · exact absurd (by simp) h
    · exact (String.append_left_inj _).mp heq ▸ hq
  · exact .start rfl

end Star

/-! ### Pairs of entries -/

theorem meets_comm (held required : String) : meets held required = meets required held := by
  simp only [meets, Bool.or_assoc, Bool.or_comm (coversByStar required held), BEq.comm]

theorem meets_of_plain {held p : String} (hheld : '*' ∉ held.toList) (hp : '*' ∉ p.toList) :
    meets held (p ++ "*") = true ↔ p.toList <+: held.toList := by
  have hne : (held == p ++ "*") = false := by
    rw [beq_eq_false_iff_ne]
    rintro rfl
    exact hheld (by simp)
  rw [meets, hne, coversByStar_eq_false hheld, Bool.false_or, Bool.or_false,
    coversByStar_append_star hp]

theorem meets_of_stars {p q : String} (hp : '*' ∉ p.toList) (hq : '*' ∉ q.toList) :
    meets (p ++ "*") (q ++ "*") = true ↔ q.toList <+: p.toList ∨ p.toList <+: q.toList := by
  simp only [meets, Bool.or_eq_true, beq_iff_eq, coversByStar_append_star hp,
    coversByStar_append_star hq, prefix_append_star_iff hp, prefix_append_star_iff hq]
  constructor
  · rintro ((heq | h) | h)
    · exact .inl ((String.append_left_inj _).mp heq ▸ List.prefix_rfl)
    · exact .inl h
    · exact .inr h
  · rintro (h | h)
    · exact .inl (.inr h)
    · exact .inr h

/-- **Entries meet when they have an action in common**, and then one without a star. -/
theorem meets_iff_covered {held required : String} (hheld : StarLast held)
    (hrequired : StarLast required) :
    (meets held required = true →
      ∃ action : String, '*' ∉ action.toList ∧ Covers held action ∧ Covers required action) ∧
    ∀ action, Covers held action → Covers required action → meets held required = true := by
  rcases hheld.cases with hplain | ⟨p, hp, rfl⟩
  · rcases hrequired.cases with hplain' | ⟨q, hq, rfl⟩
    · simp only [covers_iff_eq hplain, covers_iff_eq hplain', meets, coversByStar_eq_false hplain,
        coversByStar_eq_false hplain', Bool.or_false, beq_iff_eq]
      constructor
      · rintro rfl
        exact ⟨held, hplain, rfl, rfl⟩
      · rintro _ rfl rfl
        rfl
    · simp only [covers_iff_eq hplain, covers_append_star_iff, meets_of_plain hplain hq]
      constructor
      · exact fun h => ⟨held, hplain, rfl, h⟩
      · rintro _ rfl h
        exact h
  · rcases hrequired.cases with hplain' | ⟨q, hq, rfl⟩
    · rw [meets_comm]
      simp only [covers_iff_eq hplain', covers_append_star_iff, meets_of_plain hplain' hp]
      constructor
      · exact fun h => ⟨required, hplain', h, rfl⟩
      · rintro _ h rfl
        exact h
    · -- The longer one of two starts is covered by both, and any two starts of an action are so
      -- related.
      simp only [covers_append_star_iff, meets_of_stars hp hq]
      constructor
      · rintro (h | h)
        · exact ⟨p, hp, List.prefix_rfl, h⟩
        · exact ⟨q, hq, h, List.prefix_rfl⟩
      · exact fun action hp hq => List.prefix_or_prefix_of_prefix hq hp

/-! ### Sets of entries -/

namespace HeldPermissions

/-- **A trailing star is a wildcard.** Where a `*` is at most the last character of an entry, what
is held satisfies what is required exactly when some action, free of stars, is covered by an entry
of each; an action with stars would do as well. -/
theorem satisfies_iff_covered (h : HeldPermissions) (required : List String)
    (hheld : ∀ entry ∈ h.actions, StarLast entry) (hrequired : ∀ entry ∈ required, StarLast entry) :
    (h.satisfies required = true ↔ ∃ action : String, '*' ∉ action.toList ∧
      (∃ entry ∈ h.actions, Covers entry action) ∧ ∃ entry ∈ required, Covers entry action) ∧
    (h.satisfies required = true ↔ ∃ action : String,
      (∃ entry ∈ h.actions, Covers entry action) ∧ ∃ entry ∈ required, Covers entry action) := by
  have hsatisfies : h.satisfies required = true → ∃ action : String, '*' ∉ action.toList ∧
      (∃ entry ∈ h.actions, Covers entry action) ∧ ∃ entry ∈ required, Covers entry action := by
    intro hs
    obtain ⟨pattern, hpattern, held, hmem, hmeets⟩ := satisfies_iff.mp hs
    obtain ⟨action, hstar, hcovers, hcovers'⟩ :=
      (meets_iff_covered (hheld held hmem) (hrequired pattern hpattern)).1 hmeets
    exact ⟨action, hstar, ⟨held, hmem, hcovers⟩, pattern, hpattern, hcovers'⟩
  have hcovered : ∀ action, (∃ entry ∈ h.actions, Covers entry action) →
      (∃ entry ∈ required, Covers entry action) → h.satisfies required = true := by
    rintro action ⟨held, hmem, hcovers⟩ ⟨pattern, hpattern, hcovers'⟩
    exact satisfies_iff.mpr ⟨pattern, hpattern, held, hmem,
      (meets_iff_covered (hheld held hmem) (hrequired pattern hpattern)).2 action hcovers hcovers'⟩
  refine ⟨⟨hsatisfies, ?_⟩, fun hs => ?_, ?_⟩
  · rintro ⟨action, -, hheld, hrequired⟩
    exact hcovered action hheld hrequired
  · obtain ⟨action, -, hboth⟩ := hsatisfies hs
    exact ⟨action, hboth⟩
  · rintro ⟨action, hheld, hrequired⟩
    exact hcovered action hheld hrequired

/-- Two wildcards of different lengths have actions in common. -/
theorem wildcards_satisfies_iff_covered :
    let h : HeldPermissions := .ofList ["account:users:*", "settings:read"]
    let required := ["account:*", "billing:read"]
    (∀ entry ∈ h.actions, StarLast entry) ∧ (∀ entry ∈ required, StarLast entry) ∧
      h.satisfies required = true ∧ ∃ action : String, '*' ∉ action.toList ∧
        (∃ entry ∈ h.actions, Covers entry action) ∧ ∃ entry ∈ required, Covers entry action := by
  intro h required
  have hheld : ∀ entry ∈ h.actions, StarLast entry := by
    intro entry hentry
    rcases List.mem_cons.mp (mem_actions_ofList.mp hentry) with rfl | hentry
    · decide
    · rw [List.mem_singleton.mp hentry]
      decide
  have hrequired : ∀ entry ∈ required, StarLast entry := by decide
  have hsatisfies : h.satisfies required = true := by decide +kernel
  exact ⟨hheld, hrequired, hsatisfies,
    (h.satisfies_iff_covered required hheld hrequired).1.mp hsatisfies⟩

end HeldPermissions

end Entitlements
