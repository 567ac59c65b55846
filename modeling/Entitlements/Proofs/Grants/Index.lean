import Entitlements.Proofs.Lists.Distinct
import Entitlements.Review.Grants

/-! # The index of grants

Declarations are added to an index one after the other. `Consistent`: a position under a key is that
of the entry with this key, so that no two entries share one. `Gathers`: the entries hold exactly
the grants that were added, one entry for each effect and action in the order in which they were
first met, with the sources in order. Both are kept by every `add` (`Consistent.add`,
`Gathers.add`), and `grantsOf` gathers all grants of the policies met (`gathers_grantsOf`). -/

namespace Entitlements

/-! ### Keys -/

theorem keyword_append_inj {e f : Effect} {a b : String} :
    e.keyword ++ ":" ++ a = f.keyword ++ ":" ++ b ↔ e = f ∧ a = b := by
  constructor
  · intro h
    have hl := congrArg String.toList h
    cases e <;> cases f <;> simp [Effect.keyword] at hl ⊢ <;> exact String.toList_inj.mp hl
  · rintro ⟨rfl, rfl⟩; rfl

/-- A declaration that was met, and where. -/
structure Grant where
  statement : PermissionStatement
  source : PermissionSource

/-- What a grant is gathered under. -/
def Grant.kind (g : Grant) : Effect × String := (g.statement.effect, g.statement.action)

/-- What an entry gathers. -/
def EffectivePermission.kind (e : EffectivePermission) : Effect × String := (e.effect, e.action)

theorem EffectivePermission.key_eq_iff {e : EffectivePermission} {g : Grant} :
    e.key = g.statement.key ↔ e.kind = g.kind := by
  rw [EffectivePermission.key, PermissionStatement.key, keyword_append_inj]
  simp [EffectivePermission.kind, Grant.kind]

namespace PermissionIndex

/-! ### Positions -/

/-- The position under a key is that of the entry with this key. -/
def Consistent (x : PermissionIndex) : Prop :=
  ∀ k i, x.positions.lookup k = some i ↔ (x.entries.map (·.key))[i]? = some k

theorem consistent_empty : empty.Consistent := by simp [Consistent, empty]

section Consistent
variable {x : PermissionIndex} (hx : x.Consistent)
include hx

theorem Consistent.nodup_keys : (x.entries.map (·.key)).Nodup := by
  rw [List.Nodup, List.pairwise_iff_getElem]
  intro i j hi hj hlt heq
  have h1 := (hx _ i).mpr (List.getElem?_eq_getElem hi)
  have h2 := (hx _ j).mpr (List.getElem?_eq_getElem hj)
  rw [heq, h2] at h1
  have := Option.some.inj h1
  omega

theorem Consistent.lookup_eq_none_iff {k : String} :
    x.positions.lookup k = none ↔ k ∉ x.entries.map (·.key) := by
  rw [List.mem_iff_getElem?, Option.eq_none_iff_forall_ne_some]
  simp only [ne_eq, hx k, not_exists]

end Consistent

/-- An entry with one more source. -/
def withSource (s : PermissionSource) (e : EffectivePermission) : EffectivePermission :=
  { e with sources := e.sources ++ [s] }

theorem map_modify_withSource {β : Type} (f : EffectivePermission → β)
    (es : List EffectivePermission) (i : Nat) (s : PermissionSource)
    (hf : ∀ e, f (withSource s e) = f e) : (es.modify i (withSource s)).map f = es.map f := by
  refine List.ext_getElem? fun j => ?_
  rw [List.getElem?_map, List.getElem?_map, List.getElem?_modify]
  cases es[j]? with
  | none => rfl
  | some e => by_cases hij : i = j <;> simp [hij, hf]

/-- **What adding a grant does**: the entry with its key gets the source, or there is no such entry
and a new one stands behind the others. -/
theorem Consistent.add_cases {x : PermissionIndex} (hx : x.Consistent) (p : PermissionStatement)
    (s : PermissionSource) :
    (∃ i e, x.entries[i]? = some e ∧ e.key = p.key ∧
      x.add p s = { x with entries := x.entries.modify i (withSource s) }) ∨
    (p.key ∉ x.entries.map (·.key) ∧
      x.add p s = ⟨x.entries ++ [⟨p.effect, p.action, p.description, [s]⟩],
        (p.key, x.entries.length) :: x.positions⟩) := by
  unfold PermissionIndex.add
  cases h : x.positions.lookup p.key with
  | some i =>
    left
    have hi := (hx _ _).mp h
    rw [List.getElem?_map, Option.map_eq_some_iff] at hi
    obtain ⟨e, he, hk⟩ := hi
    exact ⟨i, e, he, hk, rfl⟩
  | none => exact Or.inr ⟨hx.lookup_eq_none_iff.mp h, rfl⟩

theorem Consistent.add {x : PermissionIndex} (hx : x.Consistent) (p : PermissionStatement)
    (s : PermissionSource) : (x.add p s).Consistent := by
  rcases hx.add_cases p s with ⟨i, e, -, -, hadd⟩ | ⟨hnew, hadd⟩
  · rw [hadd]
    intro k j
    show x.positions.lookup k = some j ↔ ((x.entries.modify i (withSource s)).map _)[j]? = some k
    rw [map_modify_withSource (·.key) x.entries i s fun _ => rfl]
    exact hx k j
  · rw [hadd]
    intro k j
    simp only [List.lookup_cons, List.map_append, List.map_cons, List.map_nil]
    by_cases hk : k = p.key
    · subst hk
      have hj : ∀ j, (x.entries.map (·.key))[j]? ≠ some p.key := fun j h =>
        hnew (List.mem_of_getElem? h)
      simp only [beq_self_eq_true, Option.some.injEq]
      rcases Nat.lt_or_ge j x.entries.length with hlt | hge
      · rw [List.getElem?_append_left (by simpa using hlt)]
        exact ⟨fun h => by omega, fun h => absurd h (hj j)⟩
      · rw [List.getElem?_append_right (by simpa using hge), List.getElem?_singleton]
        simp [EffectivePermission.key, PermissionStatement.key]
        omega
    · have hb : (k == p.key) = false := by simpa using hk
      rw [hb]
      simp only [hx k j]
      rcases Nat.lt_or_ge j x.entries.length with hlt | hge
      · rw [List.getElem?_append_left (by simpa using hlt)]
      · rw [List.getElem?_append_right (by simpa using hge), List.getElem?_singleton,
          List.getElem?_eq_none (by simpa using hge)]
        have hne : ¬ (p.effect.keyword ++ ":" ++ p.action = k) := fun h => hk h.symm
        simp [EffectivePermission.key, hne]

/-! ### All grants together -/

/-- The entries that gather these grants: one for each effect and action, in the order in which they
are first met, each with all its sources in order. -/
structure Gathers (es : List EffectivePermission) (gs : List Grant) : Prop where
  kinds : es.map (·.kind) = (gs.map (·.kind)).eraseDups
  sources : ∀ e ∈ es, e.sources = (gs.filter (·.kind = e.kind)).map (·.source)
  described : ∀ e ∈ es, ∃ g ∈ gs, g.kind = e.kind ∧ g.statement.description = e.description
  total : (es.flatMap (·.sources)).length = gs.length

/-- The index after these grants were added. -/
def addAll (x : PermissionIndex) (gs : List Grant) : PermissionIndex :=
  gs.foldl (fun x g => x.add g.statement g.source) x

theorem length_flatMap_modify (es : List EffectivePermission) (s : PermissionSource) :
    ∀ {i : Nat} {e : EffectivePermission}, es[i]? = some e →
      ((es.modify i (withSource s)).flatMap (·.sources)).length =
        (es.flatMap (·.sources)).length + 1 := by
  induction es with
  | nil => simp
  | cons a es ih =>
    intro i e he
    rcases i with _ | i
    · rw [List.modify_zero_cons, List.flatMap_cons, List.flatMap_cons, List.length_append,
        List.length_append]
      have hsources : (withSource s a).sources = a.sources ++ [s] := rfl
      rw [hsources, List.length_append, List.length_singleton]
      omega
    · have hmore := @ih i e (by simpa using he)
      rw [List.modify_succ_cons, List.flatMap_cons, List.flatMap_cons, List.length_append,
        List.length_append, hmore]
      omega

section Gathers
variable {es : List EffectivePermission} {gs : List Grant} (h : Gathers es gs) (g : Grant)
include h

theorem Gathers.mem_kinds_iff : g.kind ∈ gs.map (·.kind) ↔ ∃ e ∈ es, e.kind = g.kind := by
  rw [← List.mem_eraseDups, ← h.kinds, List.mem_map]

/-- One more grant of the kind of the entry at `i`, the only entry of this kind. -/
theorem Gathers.modify {i : Nat} {e : EffectivePermission} (he : es[i]? = some e)
    (hk : e.kind = g.kind) (honly : ∀ j e', es[j]? = some e' → e'.kind = g.kind → i = j) :
    Gathers (es.modify i (withSource g.source)) (gs ++ [g]) := by
  have hmem := List.mem_of_getElem? he
  have hcases : ∀ e' ∈ es.modify i (withSource g.source),
      e' = withSource g.source e ∨ (e' ∈ es ∧ e'.kind ≠ g.kind) := by
    intro e' he'
    obtain ⟨j, hj⟩ := List.mem_iff_getElem?.mp he'
    rw [List.getElem?_modify] at hj
    by_cases hij : i = j
    · subst hij
      left
      simpa [he] using hj.symm
    · have hj' : es[j]? = some e' := by simpa [hij] using hj
      exact Or.inr ⟨List.mem_of_getElem? hj', fun hk' => hij (honly j e' hj' hk')⟩
  refine ⟨?_, ?_, ?_, ?_⟩
  · rw [map_modify_withSource (·.kind) es i g.source fun _ => rfl, List.map_append,
      List.map_singleton, eraseDups_append_singleton,
      if_pos ((h.mem_kinds_iff g).mpr ⟨e, hmem, hk⟩), h.kinds]
  · intro e' he'
    rcases hcases e' he' with rfl | ⟨he', hne⟩
    · have hsame : (withSource g.source e).kind = g.kind := hk
      have hsources : (withSource g.source e).sources = e.sources ++ [g.source] := rfl
      rw [hsame, hsources, h.sources e hmem, hk, List.filter_append]
      simp
    · simp [List.filter_append, h.sources e' he', Ne.symm hne]
  · intro e' he'
    rcases hcases e' he' with rfl | ⟨he', -⟩
    · obtain ⟨g', hg', hd⟩ := h.described e hmem
      exact ⟨g', by simp [hg'], hd⟩
    · obtain ⟨g', hg', hd⟩ := h.described e' he'
      exact ⟨g', by simp [hg'], hd⟩
  · rw [List.length_append, List.length_singleton, ← h.total]
    exact length_flatMap_modify es g.source he

/-- A grant of a kind that no entry has. -/
theorem Gathers.push (hnew : ∀ e ∈ es, e.kind ≠ g.kind) :
    Gathers (es ++ [⟨g.statement.effect, g.statement.action, g.statement.description, [g.source]⟩])
      (gs ++ [g]) := by
  have hgs : g.kind ∉ gs.map (·.kind) := by
    rw [h.mem_kinds_iff]
    rintro ⟨e, he, hk⟩; exact hnew e he hk
  refine ⟨?_, ?_, ?_, ?_⟩
  · rw [List.map_append, List.map_append, List.map_singleton, List.map_singleton,
      eraseDups_append_singleton, if_neg hgs, h.kinds]
    rfl
  · intro e he
    rcases List.mem_append.mp he with he | he
    · simp [List.filter_append, h.sources e he, Ne.symm (hnew e he)]
    · obtain rfl := List.mem_singleton.mp he
      have hnone : gs.filter (·.kind = g.kind) = [] := by
        rw [List.filter_eq_nil_iff]
        intro g' hg' hk
        have hk := of_decide_eq_true hk
        exact hgs (hk ▸ List.mem_map_of_mem hg')
      show [g.source] = _
      rw [show EffectivePermission.kind _ = g.kind from rfl, List.filter_append, hnone]
      simp
  · intro e he
    rcases List.mem_append.mp he with he | he
    · obtain ⟨g', hg', hd⟩ := h.described e he
      exact ⟨g', by simp [hg'], hd⟩
    · obtain rfl := List.mem_singleton.mp he
      exact ⟨g, by simp, rfl, rfl⟩
  · simp [h.total]

end Gathers

theorem Gathers.add {x : PermissionIndex} {gs : List Grant} (hx : x.Consistent)
    (h : Gathers x.entries gs) (g : Grant) :
    Gathers (x.add g.statement g.source).entries (gs ++ [g]) := by
  rcases hx.add_cases g.statement g.source with ⟨i, e, he, hk, hadd⟩ | ⟨hnew, hadd⟩
  · rw [hadd]
    refine h.modify g he (EffectivePermission.key_eq_iff.mp hk) fun j e' he' hk' => ?_
    have h1 := (hx g.statement.key i).mpr (by simp [he, hk])
    have h2 := (hx g.statement.key j).mpr (by simp [he', EffectivePermission.key_eq_iff.mpr hk'])
    exact Option.some.inj (h1.symm.trans h2)
  · rw [hadd]
    exact h.push g fun e he hk =>
      hnew (List.mem_map.mpr ⟨e, he, EffectivePermission.key_eq_iff.mpr hk⟩)

/-- **The entries gather what was added**, from any consistent index on. -/
theorem gathers_addAll : ∀ (gs : List Grant) {x : PermissionIndex} {before : List Grant},
    x.Consistent → Gathers x.entries before →
      (x.addAll gs).Consistent ∧ Gathers (x.addAll gs).entries (before ++ gs)
  | [], x, before, hx, h => by simpa [addAll] using ⟨hx, h⟩
  | g :: gs, x, before, hx, h => by
    have := gathers_addAll gs (hx.add g.statement g.source) (h.add hx g)
    rwa [List.append_assoc] at this

theorem gathers_addAll_empty (gs : List Grant) :
    (empty.addAll gs).Consistent ∧ Gathers (empty.addAll gs).entries gs := by
  have h : Gathers empty.entries [] := ⟨rfl, by simp [empty], by simp [empty], rfl⟩
  exact gathers_addAll gs consistent_empty h

end PermissionIndex

/-! ### The grants of policies -/

/-- What a policy grants when it is met for a group of some name or of none: its declarations that
allow something. -/
def BoundPolicy.grants (b : BoundPolicy) (group : Option String) : List Grant :=
  (b.permissions.filter (·.effect.isAllow)).map fun p => ⟨p, b.source group⟩

theorem grantsOf_eq (met : List (Option String × BoundPolicy)) :
    grantsOf met =
      (PermissionIndex.empty.addAll (met.flatMap fun (group, b) => b.grants group)).entries := by
  unfold grantsOf PermissionIndex.addAll
  rw [List.foldl_flatMap]
  congr 1
  simp [BoundPolicy.grants, PermissionIndex.addGrants, List.foldl_map]

theorem nodup_keys_grantsOf (met : List (Option String × BoundPolicy)) :
    ((grantsOf met).map (·.key)).Nodup := by
  rw [grantsOf_eq]
  exact (PermissionIndex.gathers_addAll_empty _).1.nodup_keys

/-- **The grants of policies that were met** are all gathered. -/
theorem gathers_grantsOf (met : List (Option String × BoundPolicy)) :
    PermissionIndex.Gathers (grantsOf met) (met.flatMap fun (group, b) => b.grants group) := by
  rw [grantsOf_eq]
  exact (PermissionIndex.gathers_addAll_empty _).2

end Entitlements
