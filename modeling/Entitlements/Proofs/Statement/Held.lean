import Entitlements.Statement.Held

/-! # What held permissions satisfy

A requirement is satisfied when one held permission meets one of its patterns (`satisfies_iff`), so
that sets of permissions satisfy together what one of them satisfies alone (`satisfies_merge`). How
a set was put together (`Assembly`) does not matter, only what was put into it
(`satisfies_set_iff`, `satisfies_pointwise`). -/

namespace Entitlements.HeldPermissions

variable {h k : HeldPermissions} {action : String} {required : List String}

@[simp] theorem mem_actions_ofList {actions : List String} :
    action ∈ (ofList actions).actions ↔ action ∈ actions := KeySet.mem_ofList

@[simp] theorem mem_actions_insert {new : String} :
    action ∈ (h.insert new).actions ↔ action = new ∨ action ∈ h.actions := KeySet.mem_insert

@[simp] theorem mem_actions_merge :
    action ∈ (h.merge k).actions ↔ action ∈ h.actions ∨ action ∈ k.actions := KeySet.mem_union

theorem satisfies_iff : h.satisfies required = true ↔
    ∃ pattern ∈ required, ∃ action ∈ h.actions, meets action pattern = true := by
  simp only [satisfies, List.any_eq_true]
  rfl

theorem satisfies_empty : empty.satisfies required = false := by
  rw [Bool.eq_false_iff, ne_eq, satisfies_iff]
  rintro ⟨_, -, action, haction, -⟩
  exact KeySet.not_mem_empty action haction

/-- **Together they satisfy what one of them satisfies.** -/
theorem satisfies_merge :
    (h.merge k).satisfies required = (h.satisfies required || k.satisfies required) := by
  rw [Bool.eq_iff_iff, Bool.or_eq_true, satisfies_iff, satisfies_iff, satisfies_iff]
  constructor
  · rintro ⟨pattern, hpattern, action, haction, hmeets⟩
    rcases mem_actions_merge.mp haction with haction | haction
    · exact .inl ⟨pattern, hpattern, action, haction, hmeets⟩
    · exact .inr ⟨pattern, hpattern, action, haction, hmeets⟩
  · rintro (⟨pattern, hpattern, action, haction, hmeets⟩ |
      ⟨pattern, hpattern, action, haction, hmeets⟩)
    · exact ⟨pattern, hpattern, action, mem_actions_merge.mpr (.inl haction), hmeets⟩
    · exact ⟨pattern, hpattern, action, mem_actions_merge.mpr (.inr haction), hmeets⟩

/-- So do any number of sets. -/
theorem satisfies_foldl_merge (sets : List HeldPermissions) : ∀ h : HeldPermissions,
    (sets.foldl merge h).satisfies required =
      (h.satisfies required || sets.any (·.satisfies required)) := by
  induction sets with
  | nil => intro h; simp
  | cons k sets ih =>
    intro h
    rw [List.foldl_cons, ih, satisfies_merge, List.any_cons, Bool.or_assoc]

/-- Further patterns can be met in place of the others. -/
theorem satisfies_append {more : List String} :
    h.satisfies (required ++ more) = (h.satisfies required || h.satisfies more) :=
  List.any_append

/-! ### Sets that are put together -/

/-- The steps by which a set of permissions is put together. -/
inductive Assembly where
  | empty
  /-- The permissions of a list. -/
  | collect (actions : List String)
  /-- One more permission. -/
  | insert (a : Assembly) (action : String)
  /-- The permissions of another set. -/
  | merge (a b : Assembly)

namespace Assembly

/-- The set that the steps lead to. -/
def set : Assembly → HeldPermissions
  | empty => .empty
  | collect actions => .ofList actions
  | insert a action => a.set.insert action
  | merge a b => a.set.merge b.set

/-- What is put in, step by step and with repetitions. -/
def given : Assembly → List String
  | empty => []
  | collect actions => actions
  | insert a action => a.given ++ [action]
  | merge a b => a.given ++ b.given

/-- **What was put in is held**, and nothing else. -/
theorem mem_set_iff (a : Assembly) : action ∈ a.set.actions ↔ action ∈ a.given := by
  induction a with
  | empty => simp [set, given, HeldPermissions.empty]
  | collect actions => exact mem_actions_ofList
  | insert a new ih =>
    rw [set, given, mem_actions_insert, ih, List.mem_append, List.mem_singleton, or_comm]
  | merge a b iha ihb => rw [set, given, mem_actions_merge, iha, ihb, List.mem_append]

theorem satisfies_set_iff (a : Assembly) : a.set.satisfies required = true ↔
    ∃ action ∈ a.given, ∃ pattern ∈ required, meets action pattern = true := by
  rw [satisfies_iff]
  simp only [mem_set_iff]
  constructor
  · rintro ⟨pattern, hpattern, action, haction, hmeets⟩
    exact ⟨action, haction, pattern, hpattern, hmeets⟩
  · rintro ⟨action, haction, pattern, hpattern, hmeets⟩
    exact ⟨pattern, hpattern, action, haction, hmeets⟩

/-- More that is held, or more patterns to choose from, satisfy no less. -/
theorem satisfies_set_mono {a b : Assembly} {more : List String} (hgiven : a.given ⊆ b.given)
    (hrequired : required ⊆ more) (h : a.set.satisfies required = true) :
    b.set.satisfies more = true := by
  obtain ⟨action, haction, pattern, hpattern, hmeets⟩ := a.satisfies_set_iff.mp h
  exact b.satisfies_set_iff.mpr
    ⟨action, hgiven haction, pattern, hrequired hpattern, hmeets⟩

/-- **Matching is pointwise.** However two sets were put together, both satisfy two lists of
patterns together when one of them satisfies one of the lists. Only what is held and required
matters, neither order nor repetition; more of either satisfies no less, and nothing held or nothing
required satisfies nothing. -/
theorem satisfies_pointwise (a b : Assembly) (r s : List String) :
    ((a.set.merge b.set).satisfies (r ++ s) = true ↔
      a.set.satisfies r = true ∨ b.set.satisfies r = true ∨
        a.set.satisfies s = true ∨ b.set.satisfies s = true) ∧
    (a.set.satisfies r = true ↔
      ∃ action ∈ a.given, ∃ pattern ∈ r, meets action pattern = true) ∧
    ((∀ x, x ∈ a.given ↔ x ∈ b.given) → (∀ x, x ∈ r ↔ x ∈ s) →
      a.set.satisfies r = b.set.satisfies s) ∧
    (a.given ⊆ b.given → r ⊆ s → a.set.satisfies r = true → b.set.satisfies s = true) ∧
    (a.given = [] → a.set.satisfies r = false) ∧ a.set.satisfies [] = false := by
  refine ⟨?_, a.satisfies_set_iff, fun hgiven hrequired => ?_, satisfies_set_mono, fun hnone => ?_,
    rfl⟩
  · simp only [satisfies_merge, satisfies_append, Bool.or_eq_true, or_assoc]
  · rw [Bool.eq_iff_iff]
    exact ⟨satisfies_set_mono (fun x => (hgiven x).mp) fun x => (hrequired x).mp,
      satisfies_set_mono (fun x => (hgiven x).mpr) fun x => (hrequired x).mpr⟩
  · rw [Bool.eq_false_iff, ne_eq, satisfies_set_iff, hnone]
    rintro ⟨_, haction, -⟩
    cases haction

/-- Two ways of holding the same, once with a repetition; stars may stand anywhere. -/
theorem reordered_satisfies_pointwise :
    let a : Assembly := .insert (.merge (.collect ["b:*:c", "a"]) (.insert .empty "a")) "d"
    let b : Assembly := .merge (.collect ["d"]) (.collect ["a", "b:*:c"])
    a.set.satisfies ["x", "b::c:e*"] = b.set.satisfies ["b::c:e*", "x", "x"] ∧
      (a.set.satisfies ["x", "b::c:e*"] = true → b.set.satisfies ["b::c:e*", "x", "x"] = true) ∧
      a.set.satisfies ["x", "b::c:e*"] = true := by
  intro a b
  have hgiven : ∀ x, x ∈ a.given ↔ x ∈ b.given := by
    simp only [a, b, given, List.mem_append, List.mem_cons, List.not_mem_nil]
    grind
  have hrequired : ∀ x, x ∈ ["x", "b::c:e*"] ↔ x ∈ ["b::c:e*", "x", "x"] := by
    simp only [List.mem_cons, List.not_mem_nil]
    grind
  obtain ⟨-, -, hsame, hmore, -⟩ :=
    satisfies_pointwise a b ["x", "b::c:e*"] ["b::c:e*", "x", "x"]
  exact ⟨hsame hgiven hrequired,
    hmore (fun x => (hgiven x).mp) (fun x => (hrequired x).mp), by decide +kernel⟩

end Assembly

end Entitlements.HeldPermissions
