import Entitlements.Proofs.Directory.Memory
import Entitlements.Proofs.Grants.Exactness
import Entitlements.Proofs.Lists.Distinct
import Entitlements.Proofs.Review.Alike
import Mathlib.Algebra.GroupWithZero.Nat

/-! # Users and their groups

What a user is granted is what the groups of the user are granted, put together. A resolution of a
user leaves the directory as the reports on the groups, made one after the other, would leave it,
and its report is the merge of theirs (`MergedReport`, `resolveUser_merges_groups`): the keys are
those of the groups in the order of first occurrence, and each source has the name of its group. -/

namespace Entitlements

/-! ### Entries and grants -/

/-- The key of an effect and an action. -/
def keyOfKind (k : Effect × String) : String := k.1.keyword ++ ":" ++ k.2

theorem keyOfKind_injective (k l : Effect × String) (h : keyOfKind k = keyOfKind l) : k = l := by
  obtain ⟨h1, h2⟩ := keyword_append_inj.mp h
  exact Prod.ext h1 h2

theorem EffectivePermission.key_eq (e : EffectivePermission) : e.key = keyOfKind e.kind := rfl

theorem EffectivePermission.key_eq_keyOfKind_iff {e : EffectivePermission} {k : Effect × String} :
    e.key = keyOfKind k ↔ e.kind = k :=
  ⟨fun h => keyOfKind_injective e.kind k h, fun h => congrArg keyOfKind h⟩

/-- The sources of the entry with a key; none when there is no such entry. -/
def sourcesUnder (key : String) (es : List EffectivePermission) : List PermissionSource :=
  ((es.find? (·.key == key)).map (·.sources)).getD []

/-- The source with this name as that of its group. -/
def PermissionSource.inGroup (s : PermissionSource) (name : String) : PermissionSource :=
  { s with group := some name }

/-- The grant with this name as that of the group of its source. -/
def Grant.inGroup (g : Grant) (name : String) : Grant := ⟨g.statement, g.source.inGroup name⟩

namespace ExactGrants

variable {es : List EffectivePermission} {gs : List Grant} (h : ExactGrants es gs)
include h

theorem keys : es.map (·.key) = ((gs.map (·.kind)).map keyOfKind).eraseDups := by
  rw [eraseDups_map_of_injective keyOfKind_injective, ← h.kinds, List.map_map]
  rfl

theorem nodup_keys : (es.map (·.key)).Nodup := by
  rw [h.keys]
  exact nodup_eraseDups _

theorem kind_eq {e : EffectivePermission} (he : e ∈ es) : e.kind = (.allow, e.action) := by
  rw [EffectivePermission.kind, h.allowed e he]

/-- The sources under the key of an action that is allowed. -/
theorem sourcesUnder_eq (action : String) : sourcesUnder (keyOfKind (.allow, action)) es =
    (gs.filter (·.statement.action = action)).map (·.source) := by
  have hkey : ∀ e ∈ es, e.key = keyOfKind (.allow, action) → e.action = action := by
    intro e he hk
    exact congrArg Prod.snd (EffectivePermission.key_eq_keyOfKind_iff.mp hk)
  unfold sourcesUnder
  cases hfind : es.find? (·.key == keyOfKind (.allow, action)) with
  | some e =>
    have he := List.mem_of_find?_eq_some hfind
    have hk : e.key = keyOfKind (.allow, action) := by simpa using List.find?_some hfind
    show e.sources = _
    rw [h.sources e he, hkey e he hk]
  | none =>
    have hnone : ∀ g ∈ gs, g.statement.action ≠ action := by
      rintro g hg rfl
      have hmem : g.kind ∈ es.map (·.kind) := by
        rw [h.kinds, List.mem_eraseDups]
        exact List.mem_map_of_mem hg
      obtain ⟨e, he, hkind⟩ := List.mem_map.mp hmem
      have haction : e.action = g.statement.action := congrArg Prod.snd hkind
      have hk : e.key = keyOfKind (.allow, g.statement.action) := by
        rw [EffectivePermission.key_eq, h.kind_eq he, haction]
      exact absurd hk (by simpa using List.find?_eq_none.mp hfind e he)
    have hfilter : gs.filter (·.statement.action = action) = [] :=
      List.filter_eq_nil_iff.mpr fun g hg => by simpa using hnone g hg
    rw [hfilter]
    rfl

end ExactGrants

/-! ### Reports put together -/

/-- The report on a user with these groups, put together from the reports on the groups. -/
structure MergedReport (groups : List Group) (reports : List GroupEffectivePermissions)
    (r : UserEffectivePermissions) : Prop where
  reportGroups : reports.map (·.group) = groups.map (·.ref)
  groups : r.groups = groups.map (·.ref)
  bindingCount : r.bindingCount = (reports.map (·.bindingCount)).sum
  /-- The keys are those of the groups. -/
  mem_keys : ∀ k, k ∈ r.effectivePermissions.map (·.key) ↔
    ∃ q ∈ reports, k ∈ q.effectivePermissions.map (·.key)
  /-- Each key stands once, in the order of first occurrence in the reports. -/
  keys : r.effectivePermissions.map (·.key) =
    ((reports.flatMap (·.effectivePermissions)).map (·.key)).eraseDups
  /-- The sources are those of the groups, in order, each with the name of its group. -/
  sources : ∀ e ∈ r.effectivePermissions, e.sources = reports.flatMap fun q =>
    (sourcesUnder e.key q.effectivePermissions).map (·.inGroup q.group.name)
  agree : ∀ e ∈ r.effectivePermissions, ∀ q ∈ reports, ∀ e' ∈ q.effectivePermissions,
    e'.key = e.key →
      e'.effect = e.effect ∧ e'.action = e.action ∧ e'.description = e.description

section Merge
variable {ι : Type} {parts : List ι} {name : ι → String} {entries : ι → List EffectivePermission}
  {grants : ι → List Grant} (hparts : ∀ i ∈ parts, ExactGrants (entries i) (grants i))
  {es : List EffectivePermission}
  (h : ExactGrants es (parts.flatMap fun i => (grants i).map (·.inGroup (name i))))
include hparts h

/-- **The keys of all grants together** are those of the parts. -/
theorem keys_of_parts :
    es.map (·.key) = ((parts.flatMap entries).map (·.key)).eraseDups := by
  have hes : es.map (·.key) =
      (parts.flatMap fun i => ((grants i).map (·.kind)).map keyOfKind).eraseDups := by
    rw [h.keys]
    simp only [List.map_flatMap, List.map_map]
    rfl
  have hentries : (parts.flatMap entries).map (·.key) =
      parts.flatMap fun i => (((grants i).map (·.kind)).map keyOfKind).eraseDups := by
    rw [List.map_flatMap]
    exact List.flatMap_congr fun i hi => (hparts i hi).keys
  rw [hes, hentries, eraseDups_flatMap_eraseDups]

/-- **The sources of all grants together** are those of the parts. -/
theorem sources_of_parts {e : EffectivePermission} (he : e ∈ es) : e.sources =
    parts.flatMap fun i => (sourcesUnder e.key (entries i)).map (·.inGroup (name i)) := by
  rw [h.sources e he, List.filter_flatMap, List.map_flatMap]
  refine List.flatMap_congr fun i hi => ?_
  rw [EffectivePermission.key_eq, h.kind_eq he, (hparts i hi).sourcesUnder_eq, List.filter_map,
    List.map_map, List.map_map]
  rfl

omit hparts in
theorem agree_of_parts {gs : List Grant} {es' : List EffectivePermission} (h' : ExactGrants es' gs)
    {e e' : EffectivePermission} (he : e ∈ es) (he' : e' ∈ es') (hk : e'.key = e.key) :
    e'.effect = e.effect ∧ e'.action = e.action ∧ e'.description = e.description := by
  have hkind : e'.kind = e.kind := EffectivePermission.key_eq_keyOfKind_iff.mp hk
  have haction : e'.action = e.action := congrArg Prod.snd hkind
  refine ⟨congrArg Prod.fst hkind, haction, ?_⟩
  rw [h.described e he, h'.described e' he', haction]

end Merge

/-! ### Resolutions -/

/-- The report on a group whose bindings were met. -/
def reportOn (p : Group × List MetBinding) : GroupEffectivePermissions :=
  .ofBindings p.1 (p.2.map (·.bound))

namespace Directory

variable {σ : Type} {d : Directory σ}

theorem Steady.forall₂_collectGroup (hd : d.Steady) {groups : List Group}
    {reports : List GroupEffectivePermissions} {s s' : σ}
    (h : Access.Each d.collectGroup s groups reports s') (t : σ) :
    List.Forall₂ (fun g q => ((d.collectGroup g).call t).1 = .ok q) groups reports := by
  induction h with
  | nil => exact .nil
  | @cons g gs q qs s s₁ s₂ hhead _ ih =>
    refine .cons ?_ ih
    have hsame := (hd.alike.collectGroup g t s trivial).answer_eq
    rw [hsame, hhead]

section Walk
variable {groups : List Group} {mets : List (List MetBinding)} {s s' : σ}
  (h : d.Walk s groups mets s')
include h

theorem Walk.each_collectGroup :
    Access.Each d.collectGroup s groups ((groups.zip mets).map reportOn) s' := by
  induction h with
  | nil s => exact .nil s
  | cons hhead _ ih =>
    refine .cons ((d.call_collectGroup_eq_ok_iff).mpr ⟨_, hhead, ?_⟩) ih
    exact groupReport_mk _ _

theorem Walk.length_eq : groups.length = mets.length := by
  induction h with
  | nil => rfl
  | cons _ _ ih => simp [ih]

/-- What is granted on a walk, group by group. -/
theorem Walk.flatMap_grants_eq : (mets.flatten.flatMap fun m => m.grants (some m.group.name)) =
    (groups.zip mets).flatMap fun p =>
      (p.2.flatMap fun m => m.grants none).map (·.inGroup p.1.name) := by
  induction h with
  | nil => rfl
  | @cons g gs met mets s s₁ s₂ hhead _ ih =>
    have hmet : met.flatMap (fun m => m.grants (some m.group.name)) =
        (met.flatMap fun m => m.grants none).map (·.inGroup g.name) := by
      rw [List.map_flatMap]
      refine List.flatMap_congr fun m hm => ?_
      rw [hhead.group_eq m hm, MetBinding.grants, MetBinding.grants, List.map_map]
      rfl
    rw [List.flatten_cons, List.flatMap_append, ih, List.zip_cons_cons, List.flatMap_cons, hmet]

/-- **The report on a user is the merge** of the reports on the groups of the walk. -/
theorem Walk.mergedReport {user : User} {r : UserEffectivePermissions}
    (hr : UserReport user groups mets.flatten r) :
    MergedReport groups ((groups.zip mets).map reportOn) r := by
  have hgrants := hr.grants
  rw [h.flatMap_grants_eq] at hgrants
  have hparts : ∀ p ∈ groups.zip mets, ExactGrants (reportOn p).effectivePermissions
      (p.2.flatMap fun m => m.grants none) := fun p _ => (groupReport_mk p.1 p.2).grants
  have hkeys := keys_of_parts hparts hgrants
  have hfst : (groups.zip mets).map Prod.fst = groups :=
    List.map_fst_zip (Nat.le_of_eq h.length_eq)
  have hsnd : (groups.zip mets).map Prod.snd = mets :=
    List.map_snd_zip (Nat.le_of_eq h.length_eq.symm)
  rw [← List.flatMap_map] at hkeys
  refine ⟨?_, hr.groups, ?_, fun k => ?_, hkeys, fun e he => ?_, fun e he q hq e' he' hk => ?_⟩
  · rw [List.map_map]
    conv_rhs => rw [← hfst, List.map_map]
    rfl
  · rw [hr.bindingCount, hr.bindings, List.length_map, List.length_flatten, List.map_map]
    conv_lhs => rw [← hsnd, List.map_map]
    simp [reportOn, GroupEffectivePermissions.ofBindings, Function.comp_def]
  · rw [hkeys, List.mem_eraseDups, List.map_flatMap, List.mem_flatMap]
  · rw [sources_of_parts hparts hgrants he, List.flatMap_map]
    rfl
  · obtain ⟨p, hp, rfl⟩ := List.mem_map.mp hq
    exact agree_of_parts hgrants (hparts p hp) he he' hk

end Walk

/-- **A user is granted what the groups are granted.** When a user is resolved, the reports on the
groups can be made in order in place of the walk and leave the same state, and the report on the
user is their merge. A directory whose answers do not change gives these reports at any time. -/
theorem resolveUser_merges_groups (d : Directory σ) {identifier : String}
    {r : UserEffectivePermissions} {s s' : σ}
    (h : (d.resolveUser identifier).call s = (.ok (.found r), s')) :
    ∃ user groups reports s₁ s₂, (d.findUser identifier).call s = (.ok (some user), s₁) ∧
      (d.groupsOfUser user.uid).call s₁ = (.ok groups, s₂) ∧
      Access.Each d.collectGroup s₂ groups reports s' ∧ MergedReport groups reports r ∧
      (d.Steady → ∀ t, List.Forall₂ (fun g q => ((d.collectGroup g).call t).1 = .ok q) groups
        reports) := by
  obtain ⟨user, groups, mets, s₁, s₂, hfind, hgroups, hwalk, hr⟩ :=
    (d.call_resolveUser_eq_ok_iff).mp h
  have heach := hwalk.each_collectGroup
  refine ⟨user, groups, _, s₁, s₂, hfind, hgroups, heach, hwalk.mergedReport hr, fun hd t => ?_⟩
  exact hd.forall₂_collectGroup heach t

end Directory

namespace MemoryDirectory

theorem steady (m : MemoryDirectory) : m.directory.Steady where
  ask c s t := by rw [m.call_ask, m.call_ask]
  page query page size s t := by rw [m.call_page, m.call_page]

/-- A user who is in one group twice and in another one, which share a policy. -/
def overlapping : MemoryDirectory where
  account := "account"
  groups := [⟨"g1", "Admins", none, none⟩, ⟨"g2", "Ops", none, none⟩]
  users := [⟨"u", "u@example.com", none, none⟩]
  policies :=
    [⟨"p", "Read", none, some "ALLOW a, b; DENY c"⟩, ⟨"q", "Write", none, some "ALLOW b"⟩]
  bindings := [{ policyUuid := "p", groupUuid := "g1" }, { policyUuid := "q", groupUuid := "g1" },
    { policyUuid := "p", groupUuid := "g2", boundaries := ["x"] }]
  memberships := [("u", "g2"), ("u", "g1"), ("u", "g2")]

/-- The groups of this user give three sources for one action and four for the other. -/
theorem overlapping_merges_groups :
    ∃ r, (overlapping.directory.resolveUser "u").call 0 = (.ok (.found r), 9) ∧
      r.effectivePermissions.map (fun e => (e.key, e.sources.length)) =
        [("ALLOW:a", 3), ("ALLOW:b", 4)] ∧
      ∃ user groups reports s₁ s₂,
        (overlapping.directory.findUser "u").call 0 = (.ok (some user), s₁) ∧
        (overlapping.directory.groupsOfUser user.uid).call s₁ = (.ok groups, s₂) ∧
        Access.Each overlapping.directory.collectGroup s₂ groups reports 9 ∧
        MergedReport groups reports r ∧ ∀ t, List.Forall₂ (fun g q =>
          ((overlapping.directory.collectGroup g).call t).1 = .ok q) groups reports := by
  have hcall : (overlapping.directory.resolveUser "u").call 0 = (.ok (.found _), 9) := rfl
  refine ⟨_, hcall, by decide +kernel, ?_⟩
  obtain ⟨user, groups, reports, s₁, s₂, hfind, hgroups, heach, hmerged, hsteady⟩ :=
    overlapping.directory.resolveUser_merges_groups hcall
  exact ⟨user, groups, reports, s₁, s₂, hfind, hgroups, heach, hmerged, hsteady overlapping.steady⟩

end MemoryDirectory

end Entitlements
