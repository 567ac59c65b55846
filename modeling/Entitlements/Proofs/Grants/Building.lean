import Entitlements.Proofs.Grants.Index

/-! # Building an index

An index is built in steps: a declaration is added with its source, or what a statement allows is
folded in (`IndexStep`). A step adds its grants one after the other (`PermissionIndex.next_eq`), and
a grant goes to the entry with its key or to a new one at the end (`PermissionIndex.AddsOne`). So
whatever the steps, entries and positions fit together (`PermissionIndex.WellFormed`), and an entry
keeps its place and only gathers sources (`index_represents`). -/

namespace Entitlements

/-- A step in building an index. -/
inductive IndexStep where
  /-- A declaration, which may deny something, is added. -/
  | add (p : PermissionStatement) (source : PermissionSource)
  /-- What some declarations allow is folded in. -/
  | fold (ps : List PermissionStatement) (source : PermissionSource)

/-- The grants of a step, in the order in which they are added. -/
def IndexStep.grants : IndexStep → List Grant
  | add p source => [⟨p, source⟩]
  | fold ps source => (ps.filter (·.effect.isAllow)).map (⟨·, source⟩)

/-- The sources of the grants with a key. -/
def sourcesWith (key : String) (gs : List Grant) : List PermissionSource :=
  (gs.filter (·.statement.key = key)).map (·.source)

/-- An entry with the sources of those grants that have its key. -/
def EffectivePermission.gathering (e : EffectivePermission) (gs : List Grant) :
    EffectivePermission :=
  { e with sources := e.sources ++ sourcesWith e.key gs }

namespace PermissionIndex

/-- The index after a step. -/
def next (x : PermissionIndex) : IndexStep → PermissionIndex
  | .add p source => x.add p source
  | .fold ps source => x.addGrants ps source

/-- The index that some steps build. -/
def build (steps : List IndexStep) : PermissionIndex := steps.foldl next empty

/-- What a grant makes of an index: the entry with its key gets the source, or a new entry with this
one source comes behind the others. -/
inductive AddsOne (x : PermissionIndex) (g : Grant) : PermissionIndex → Prop
  | source {before after : List EffectivePermission} {e : EffectivePermission}
      (split : x.entries = before ++ e :: after) (own : e.key = g.statement.key) :
      AddsOne x g ⟨before ++ withSource g.source e :: after, x.positions⟩
  | entry (absent : ∀ e ∈ x.entries, e.key ≠ g.statement.key) :
      AddsOne x g
        ⟨x.entries ++
            [⟨g.statement.effect, g.statement.action, g.statement.description, [g.source]⟩],
          (g.statement.key, x.entries.length) :: x.positions⟩

/-- Entries and positions fit together. -/
structure WellFormed (x : PermissionIndex) : Prop where
  /-- The position under a key is that of the entry with this key. -/
  positions : ∀ k i, x.positions.lookup k = some i ↔ ∃ e, x.entries[i]? = some e ∧ e.key = k
  inRange : ∀ k i, x.positions.lookup k = some i → i < x.entries.length
  distinct : (x.entries.map (·.key)).Nodup
  sourced : ∀ e ∈ x.entries, e.sources ≠ []

/-! ### Steps as grants -/

theorem next_eq (x : PermissionIndex) (step : IndexStep) : x.next step = x.addAll step.grants := by
  cases step with
  | add p source => rfl
  | fold ps source => simp [next, addGrants, addAll, IndexStep.grants, List.foldl_map]

theorem foldl_next_eq (steps : List IndexStep) (x : PermissionIndex) :
    steps.foldl next x = x.addAll (steps.flatMap (·.grants)) := by
  unfold addAll
  rw [List.foldl_flatMap]
  congr 1
  funext x step
  exact x.next_eq step

/-! ### One grant -/

section Consistent
variable {x : PermissionIndex} (hx : x.Consistent)
include hx

theorem Consistent.addsOne (g : Grant) : x.AddsOne g (x.add g.statement g.source) := by
  rcases hx.add_cases g.statement g.source with ⟨i, e, he, hk, hadd⟩ | ⟨hnew, hadd⟩
  · obtain ⟨hi, rfl⟩ := List.getElem?_eq_some_iff.mp he
    have hsplit : x.entries = x.entries.take i ++ x.entries[i] :: x.entries.drop (i + 1) := by
      rw [List.getElem_cons_drop, List.take_append_drop]
    rw [hadd, List.modify_eq_take_cons_drop hi]
    exact .source hsplit hk
  · rw [hadd]
    exact .entry fun e he hk => hnew (hk ▸ List.mem_map_of_mem he)

/-- An entry gets the source of a grant that has its key, and stays as it is otherwise. -/
theorem Consistent.getElem?_add (g : Grant) {i : Nat} {e : EffectivePermission}
    (he : x.entries[i]? = some e) :
    (x.add g.statement g.source).entries[i]? = some (e.gathering [g]) := by
  have hother : g.statement.key ≠ e.key → e.gathering [g] = e := fun hne => by
    simp [EffectivePermission.gathering, sourcesWith, hne]
  rcases hx.add_cases g.statement g.source with ⟨j, e', he', hk, hadd⟩ | ⟨hnew, hadd⟩
  · rw [hadd, List.getElem?_modify, he]
    by_cases hj : j = i
    · obtain rfl : e' = e := Option.some.inj (he'.symm.trans (hj ▸ he))
      simp [hj, EffectivePermission.gathering, sourcesWith, withSource, hk]
    · -- No other entry has the key.
      have hne : g.statement.key ≠ e.key := fun heq => hj <| by
        have h1 := (hx g.statement.key j).mpr (by simp [he', hk])
        have h2 := (hx g.statement.key i).mpr (by simp [he, heq])
        exact Option.some.inj (h1.symm.trans h2)
      simp [hj, hother hne]
  · have hne : g.statement.key ≠ e.key := fun heq =>
      hnew (heq ▸ List.mem_map_of_mem (List.mem_of_getElem? he))
    obtain ⟨hi, -⟩ := List.getElem?_eq_some_iff.mp he
    rw [hadd, List.getElem?_append_left hi, he, hother hne]

end Consistent

/-! ### Many grants -/

theorem gathering_cons (e : EffectivePermission) (g : Grant) (gs : List Grant) :
    (e.gathering [g]).gathering gs = e.gathering (g :: gs) := by
  show { e with sources := e.sources ++ sourcesWith e.key [g] ++ sourcesWith e.key gs } = _
  rw [List.append_assoc, sourcesWith, sourcesWith, ← List.map_append, ← List.filter_append]
  rfl

/-- **An entry keeps its place**, and gathers the sources of the grants that have its key. -/
theorem Consistent.getElem?_addAll : ∀ (gs : List Grant) {x : PermissionIndex}, x.Consistent →
    ∀ {i : Nat} {e : EffectivePermission}, x.entries[i]? = some e →
      (x.addAll gs).entries[i]? = some (e.gathering gs)
  | [], x, _, i, e, he => by simpa [addAll, EffectivePermission.gathering, sourcesWith] using he
  | g :: gs, x, hx, i, e, he => by
    have hmore := Consistent.getElem?_addAll gs (hx.add g.statement g.source) (hx.getElem?_add g he)
    rwa [gathering_cons] at hmore

theorem wellFormed_addAll_empty (gs : List Grant) : (empty.addAll gs).WellFormed := by
  obtain ⟨hconsistent, hgathers⟩ := gathers_addAll_empty gs
  have hpositions : ∀ k i, (empty.addAll gs).positions.lookup k = some i ↔
      ∃ e, (empty.addAll gs).entries[i]? = some e ∧ e.key = k := fun k i => by
    rw [hconsistent k i, List.getElem?_map, Option.map_eq_some_iff]
  refine ⟨hpositions, fun k i h => ?_, hconsistent.nodup_keys, fun e he hnil => ?_⟩
  · obtain ⟨e, he, -⟩ := (hpositions k i).mp h
    exact (List.getElem?_eq_some_iff.mp he).1
  · -- The kind of the entry is that of a grant, whose source it has.
    have hkind : e.kind ∈ gs.map (·.kind) := by
      rw [← List.mem_eraseDups, ← hgathers.kinds]
      exact List.mem_map_of_mem he
    obtain ⟨g, hg, hk⟩ := List.mem_map.mp hkind
    rw [hgathers.sources e he, List.map_eq_nil_iff, List.filter_eq_nil_iff] at hnil
    exact hnil g hg (decide_eq_true hk)

end PermissionIndex

theorem EffectivePermission.key_eq_key_iff {e : EffectivePermission} {p : PermissionStatement} :
    e.key = p.key ↔ e.effect = p.effect ∧ e.action = p.action := keyword_append_inj

open PermissionIndex in
/-- **An index represents what was added.** Whatever the steps that build it, entries and positions
fit together, and the key of an entry is that of a declaration exactly when effect and action are.
A step adds its grants one after the other; a grant goes to the entry with its key or to a new one
at the end, and nothing else changes. So with more steps every entry keeps its place, and only gets
the sources of those grants that have its key, in order. -/
theorem index_represents (steps : List IndexStep) :
    (build steps).WellFormed ∧
    (∀ e ∈ (build steps).entries, ∀ e' ∈ (build steps).entries, e.key = e'.key →
      e.effect = e'.effect ∧ e.action = e'.action) ∧
    (∀ e ∈ (build steps).entries, ∀ p : PermissionStatement,
      e.key = p.key ↔ e.effect = p.effect ∧ e.action = p.action) ∧
    (∀ step, (build steps).next step = (build steps).addAll step.grants) ∧
    (∀ p source, (build steps).AddsOne ⟨p, source⟩ ((build steps).add p source)) ∧
    ∀ more (i : Nat) (e : EffectivePermission), (build steps).entries[i]? = some e →
      (build (steps ++ more)).entries[i]? = some (e.gathering (more.flatMap (·.grants))) := by
  have hbuild : build steps = empty.addAll (steps.flatMap (·.grants)) := foldl_next_eq steps empty
  have hconsistent : (build steps).Consistent :=
    hbuild ▸ (gathers_addAll_empty (steps.flatMap (·.grants))).1
  refine ⟨hbuild ▸ wellFormed_addAll_empty _, fun e _ e' _ => keyword_append_inj.mp,
    fun e _ p => EffectivePermission.key_eq_key_iff, (build steps).next_eq,
    fun p source => hconsistent.addsOne ⟨p, source⟩, fun more i e he => ?_⟩
  have hmore : build (steps ++ more) = (build steps).addAll (more.flatMap (·.grants)) := by
    rw [build, List.foldl_append, ← build, foldl_next_eq]
  rw [hmore]
  exact hconsistent.getElem?_addAll _ he

/-- A source for each policy. -/
def policySource (policy : String) : PermissionSource := ⟨none, policy, none⟩

/-- A denial of an action that looks like a key, and two grants of the action in it. -/
def keyLikeSteps : List IndexStep :=
  [.add (.declare .deny "ALLOW:a" none) (policySource "p"),
    .fold [.declare .allow "a" none, .declare .deny "a" none, .declare .allow "a" none]
      (policySource "q")]

open PermissionIndex in
/-- The entry of the two grants keeps its place and gets a third source. -/
theorem keyLikeSteps_represents :
    let more : List IndexStep :=
      [.add (.declare .deny "a" none) (policySource "p"),
        .fold [.declare .allow "a" none] (policySource "r")]
    (build keyLikeSteps).entries.map (·.key) = ["DENY:ALLOW:a", "ALLOW:a"] ∧
      (build keyLikeSteps).entries[1]? =
        some ⟨.allow, "a", "a", [policySource "q", policySource "q"]⟩ ∧
      (build (keyLikeSteps ++ more)).entries[1]? =
        some ⟨.allow, "a", "a", [policySource "q", policySource "q", policySource "r"]⟩ := by
  intro more
  have he : (build keyLikeSteps).entries[1]? =
      some ⟨.allow, "a", "a", [policySource "q", policySource "q"]⟩ := by decide
  obtain ⟨-, -, -, -, -, hstays⟩ := index_represents keyLikeSteps
  exact ⟨by decide, he, hstays more 1 _ he⟩

end Entitlements
