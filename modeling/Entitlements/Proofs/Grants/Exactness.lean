import Entitlements.Proofs.Access.Each
import Entitlements.Proofs.Grants.Index
import Mathlib.Data.List.Nodup

/-! # Exactness of the reports on users and groups

A report is compared with the walk that it summarises: the bindings of the groups in order, each
with its policy (`Directory.Walk`). `ExactGrants` says that entries gather the grants met on the
way, nothing lost and nothing twice; `UserReport` and `GroupReport` describe a whole report. A
resolution succeeds exactly when the walk does, with the one report that describes it (`resolutions_exact`). -/

namespace Entitlements

/-! ### Walks -/

/-- A binding met on a walk, with its group and its policy. -/
structure MetBinding where
  group : Group
  binding : Binding
  policy : Policy

namespace MetBinding

/-- The binding and its policy alone. -/
def bound (m : MetBinding) : BoundPolicy := ⟨m.binding, m.policy⟩

/-- What the policy allows, each declaration with its source: the group if it is named, the policy
and the boundaries of the binding. -/
def grants (m : MetBinding) (group : Option String) : List Grant :=
  ((parseStatement m.policy.statement).filter (·.effect.isAllow)).map fun p =>
    ⟨p, ⟨group, m.policy.name, m.binding.boundary⟩⟩

/-- The binding as a report on a user shows it, with all declarations of the policy. -/
def shown (m : MetBinding) : UserBinding :=
  ⟨m.group.uuid, m.group.name, m.binding.policyUuid, m.policy.name, m.binding.boundary,
    parseStatement m.policy.statement⟩

end MetBinding

namespace Directory

variable {σ : Type} (d : Directory σ)

/-- The bindings of a group are listed and their policies fetched, in order. -/
def WalkGroup (g : Group) (s : σ) (met : List MetBinding) (s' : σ) : Prop :=
  ∃ bindings policies s₁, (d.bindingsOfGroup g.uuid).call s = (.ok bindings, s₁) ∧
    Access.Each (fun b => d.policy b.policyUuid) s₁ bindings policies s' ∧
    met = List.zipWith (MetBinding.mk g) bindings policies

/-- Groups are walked one after the other; each has its own bindings. -/
inductive Walk : σ → List Group → List (List MetBinding) → σ → Prop
  | nil (s : σ) : Walk s [] [] s
  | cons {g : Group} {gs : List Group} {met : List MetBinding} {mets : List (List MetBinding)}
      {s s₁ s₂ : σ} (head : d.WalkGroup g s met s₁) (tail : Walk s₁ gs mets s₂) :
      Walk s (g :: gs) (met :: mets) s₂

variable {d}

theorem WalkGroup.group_eq {g : Group} {s s' : σ} {met : List MetBinding}
    (h : d.WalkGroup g s met s') : ∀ m ∈ met, m.group = g := by
  obtain ⟨bindings, policies, s₁, -, -, rfl⟩ := h
  intro m hm
  obtain ⟨i, hi, rfl⟩ := List.getElem_of_mem hm
  simp

variable (d)

theorem call_boundPolicies_eq_ok_iff {g : Group} {bs : List BoundPolicy} {s s' : σ} :
    (d.boundPolicies g.uuid).call s = (.ok bs, s') ↔
      ∃ met, d.WalkGroup g s met s' ∧ bs = met.map (·.bound) := by
  unfold boundPolicies
  rw [Access.call_bind_eq_ok_iff]
  simp only [Access.call_mapM_eq_ok_iff, Access.each_map_iff]
  have hmap : ∀ (bindings : List Binding) (policies : List Policy),
      (List.zipWith (MetBinding.mk g) bindings policies).map (·.bound) =
        List.zipWith BoundPolicy.mk bindings policies := fun bindings policies => by
    rw [List.map_zipWith]; rfl
  constructor
  · rintro ⟨bindings, s₁, hlist, policies, hfetch, rfl⟩
    exact ⟨_, ⟨bindings, policies, s₁, hlist, hfetch, rfl⟩, (hmap _ _).symm⟩
  · rintro ⟨met, ⟨bindings, policies, s₁, hlist, hfetch, rfl⟩, rfl⟩
    exact ⟨bindings, s₁, hlist, policies, hfetch, hmap _ _⟩

/-- The bindings of several groups are fetched when the groups are walked. -/
theorem each_bound_iff : ∀ {gs : List Group} {bss : List (List BoundPolicy)} {s s' : σ},
    Access.Each (fun g => d.boundPolicies g.uuid) s gs bss s' ↔
      ∃ mets, d.Walk s gs mets s' ∧ bss = mets.map (·.map (·.bound))
  | [], bss, s, s' => by
    constructor
    · rintro (_ | _); exact ⟨[], .nil s, rfl⟩
    · rintro ⟨_, _ | _, rfl⟩; exact .nil s
  | g :: gs, bss, s, s' => by
    constructor
    · rintro (_ | ⟨hhead, htail⟩)
      obtain ⟨met, hmet, rfl⟩ := (d.call_boundPolicies_eq_ok_iff).mp hhead
      obtain ⟨mets, hmets, rfl⟩ := each_bound_iff.mp htail
      exact ⟨met :: mets, .cons hmet hmets, rfl⟩
    · rintro ⟨_, _ | ⟨hmet, hmets⟩, rfl⟩
      exact .cons ((d.call_boundPolicies_eq_ok_iff).mpr ⟨_, hmet, rfl⟩)
        (each_bound_iff.mpr ⟨_, hmets, rfl⟩)

theorem each_boundPolicies_iff {gs : List Group} {bound : List (Group × List BoundPolicy)}
    {s s' : σ} :
    Access.Each (fun g => do return (g, ← d.boundPolicies g.uuid)) s gs bound s' ↔
      ∃ mets, d.Walk s gs mets s' ∧
        bound = List.zipWith (fun g met => (g, met.map (·.bound))) gs mets := by
  rw [Access.each_map_iff]
  simp only [each_bound_iff]
  constructor
  · rintro ⟨_, ⟨mets, hmets, rfl⟩, rfl⟩
    exact ⟨mets, hmets, List.zipWith_map_right⟩
  · rintro ⟨mets, hmets, rfl⟩
    exact ⟨_, ⟨mets, hmets, rfl⟩, List.zipWith_map_right.symm⟩

section Walk
variable {d} {gs : List Group} {mets : List (List MetBinding)} {s s' : σ} (h : d.Walk s gs mets s')
include h

theorem Walk.map_fst_eq :
    (List.zipWith (fun g (met : List MetBinding) => (g, met.map (·.bound))) gs mets).map (·.1) =
      gs := by
  induction h with
  | nil => rfl
  | cons _ _ ih => simpa using ih

/-- What is met, each binding behind its group. -/
theorem Walk.flatMap_eq :
    (List.zipWith (fun g (met : List MetBinding) => (g, met.map (·.bound))) gs mets).flatMap
        (fun (g, bs) => bs.map fun b => (g, b)) =
      mets.flatten.map fun m => (m.group, m.bound) := by
  induction h with
  | nil => rfl
  | cons hhead _ ih =>
    rw [List.zipWith_cons_cons, List.flatMap_cons, ih, List.flatten_cons, List.map_append]
    congr 1
    show List.map _ (List.map _ _) = _
    rw [List.map_map]
    exact List.map_congr_left fun m hm => by simp [hhead.group_eq m hm]

end Walk

end Directory

/-! ### What a report says -/

/-- Entries that gather grants exactly. -/
structure ExactGrants (es : List EffectivePermission) (gs : List Grant) : Prop where
  /-- One entry for each effect and action that is met, in the order of first occurrence. -/
  kinds : es.map (·.kind) = (gs.map (·.kind)).eraseDups
  distinct : (es.map (·.kind)).Nodup
  allowed : ∀ e ∈ es, e.effect = .allow
  described : ∀ e ∈ es, e.description = (describeAction? e.action).getD e.action
  /-- The sources of an action, in order and with repetitions. -/
  sources : ∀ e ∈ es, e.sources = (gs.filter (·.statement.action = e.action)).map (·.source)
  /-- Nothing is lost and nothing is there twice. -/
  total : (es.flatMap (·.sources)).length = gs.length

/-- Exact entries can only be these. -/
theorem ExactGrants.eq_map {es : List EffectivePermission} {gs : List Grant}
    (h : ExactGrants es gs) :
    es = (gs.map (·.kind)).eraseDups.map fun k =>
      ⟨.allow, k.2, (describeAction? k.2).getD k.2,
        (gs.filter (·.statement.action = k.2)).map (·.source)⟩ := by
  rw [← h.kinds, List.map_map]
  refine (List.map_id es).symm.trans (List.map_congr_left fun e he => ?_)
  have h1 := h.allowed e he
  have h2 := h.described e he
  have h3 := h.sources e he
  rcases e with ⟨effect, action, description, sources⟩
  simp only at h1 h2 h3
  simp only [id_eq, Function.comp_apply, EffectivePermission.kind, h1, h2, h3]

/-- The declarations of a statement have the standard descriptions. -/
theorem description_of_mem_parseStatement {statement : String} {p : PermissionStatement}
    (hp : p ∈ parseStatement statement) :
    p.description = (describeAction? p.action).getD p.action := by
  simp only [parseStatement, Clause.declarations, List.mem_flatMap, List.mem_map] at hp
  obtain ⟨c, -, action, -, rfl⟩ := hp
  rfl

/-- Policies only grant what they allow, with the standard descriptions. -/
theorem BoundPolicy.grant_standard {b : BoundPolicy} {group : Option String} {g : Grant}
    (hg : g ∈ b.grants group) : g.statement.effect = .allow ∧
      g.statement.description = (describeAction? g.statement.action).getD g.statement.action := by
  obtain ⟨p, hp, rfl⟩ := List.mem_map.mp hg
  obtain ⟨hp, hallow⟩ := List.mem_filter.mp hp
  refine ⟨?_, description_of_mem_parseStatement hp⟩
  show p.effect = .allow
  cases he : p.effect
  · rfl
  · simp [he, Effect.isAllow] at hallow

theorem exactGrants_grantsOf (met : List (Option String × BoundPolicy)) :
    ExactGrants (grantsOf met) (met.flatMap fun (group, b) => b.grants group) := by
  have h := gathers_grantsOf met
  have hgs : ∀ g ∈ met.flatMap (fun (group, b) => b.grants group), g.statement.effect = .allow ∧
      g.statement.description = (describeAction? g.statement.action).getD g.statement.action := by
    intro g hg
    obtain ⟨⟨group, b⟩, -, hg⟩ := List.mem_flatMap.mp hg
    exact BoundPolicy.grant_standard hg
  have hallowed : ∀ e ∈ grantsOf met, e.effect = .allow := by
    intro e he
    obtain ⟨g, hg, hk, -⟩ := h.described e he
    have heff : g.statement.effect = e.effect := congrArg Prod.fst hk
    rw [← heff]
    exact (hgs g hg).1
  refine ⟨h.kinds, ?_, hallowed, ?_, ?_, h.total⟩
  · refine List.Nodup.of_map (fun k => k.1.keyword ++ ":" ++ k.2) ?_
    rw [List.map_map]
    exact nodup_keys_grantsOf met
  · intro e he
    obtain ⟨g, hg, hk, hd⟩ := h.described e he
    have haction : g.statement.action = e.action := congrArg Prod.snd hk
    rw [← hd, ← haction]
    exact (hgs g hg).2
  · intro e he
    rw [h.sources e he]
    congr 1
    refine List.filter_congr fun g hg => ?_
    simp [Grant.kind, EffectivePermission.kind, (hgs g hg).1, hallowed e he]

/-- The report on a user with these groups, whose bindings are met in this order. -/
structure UserReport (user : User) (groups : List Group) (met : List MetBinding)
    (r : UserEffectivePermissions) : Prop where
  user : r.user = ⟨user.uid, user.email⟩
  groups : r.groups = groups.map fun g => ⟨g.uuid, g.name⟩
  groupCount : r.groupCount = r.groups.length
  bindings : r.bindings = met.map (·.shown)
  bindingCount : r.bindingCount = r.bindings.length
  grants : ExactGrants r.effectivePermissions (met.flatMap fun m => m.grants (some m.group.name))
  permissionCount : r.permissionCount = r.effectivePermissions.length

/-- The report on a group whose bindings are met in this order; sources leave the group out. -/
structure GroupReport (group : Group) (met : List MetBinding) (r : GroupEffectivePermissions) :
    Prop where
  group : r.group = ⟨group.uuid, group.name⟩
  bindings : r.bindings = met.map (·.binding)
  bindingCount : r.bindingCount = r.bindings.length
  grants : ExactGrants r.effectivePermissions (met.flatMap fun m => m.grants none)
  permissionCount : r.permissionCount = r.effectivePermissions.length

/-! ### The reports that are made -/

theorem UserReport.unique {user : User} {groups : List Group} {met : List MetBinding}
    {r r' : UserEffectivePermissions} (h : UserReport user groups met r)
    (h' : UserReport user groups met r') : r = r' := by
  have hgrants := h.grants.eq_map.trans h'.grants.eq_map.symm
  rcases r with ⟨u, gs, n, bs, k, es, l⟩
  rcases r' with ⟨u', gs', n', bs', k', es', l'⟩
  obtain ⟨hu, hg, hn, hb, hk, -, hl⟩ := h
  obtain ⟨hu', hg', hn', hb', hk', -, hl'⟩ := h'
  simp only at hu hg hn hb hk hl hu' hg' hn' hb' hk' hl' hgrants
  subst hu hg hn hb hk hl hu' hg' hn' hb' hk' hl' hgrants
  rfl

theorem GroupReport.unique {group : Group} {met : List MetBinding}
    {r r' : GroupEffectivePermissions} (h : GroupReport group met r)
    (h' : GroupReport group met r') : r = r' := by
  have hgrants := h.grants.eq_map.trans h'.grants.eq_map.symm
  rcases r with ⟨g, bs, k, es, l⟩
  rcases r' with ⟨g', bs', k', es', l'⟩
  obtain ⟨hg, hb, hk, -, hl⟩ := h
  obtain ⟨hg', hb', hk', -, hl'⟩ := h'
  simp only at hg hb hk hl hg' hb' hk' hl' hgrants
  subst hg hb hk hl hg' hb' hk' hl' hgrants
  rfl

/-- There is a report on any user with any groups, whatever is met. -/
theorem userReport_mk (user : User) (groups : List Group) (met : List MetBinding) :
    let grants := grantsOf (met.map fun m => (some m.group.name, m.bound))
    UserReport user groups met ⟨user.ref, groups.map (·.ref), groups.length, met.map (·.shown),
      met.length, grants, grants.length⟩ := by
  refine ⟨rfl, rfl, by simp, rfl, by simp, ?_, rfl⟩
  have hgrants := exactGrants_grantsOf (met.map fun m => (some m.group.name, m.bound))
  rw [List.flatMap_map] at hgrants
  exact hgrants

theorem groupReport_mk (group : Group) (met : List MetBinding) :
    GroupReport group met (.ofBindings group (met.map (·.bound))) := by
  refine ⟨rfl, ?_, ?_, ?_, rfl⟩
  · simp [GroupEffectivePermissions.ofBindings, MetBinding.bound]
  · simp [GroupEffectivePermissions.ofBindings]
  · have hgrants := exactGrants_grantsOf (met.map fun m => ((none : Option String), m.bound))
    simp only [GroupEffectivePermissions.ofBindings, List.map_map]
    rw [List.flatMap_map] at hgrants
    exact hgrants

namespace Directory

variable {σ : Type} {d : Directory σ}

theorem Walk.userReport_ofGroups {groups : List Group} {mets : List (List MetBinding)} {s s' : σ}
    (h : d.Walk s groups mets s') (user : User) :
    UserReport user groups mets.flatten (.ofGroups user
      (List.zipWith (fun g (met : List MetBinding) => (g, met.map (·.bound))) groups mets)) := by
  have hgroups := congrArg (List.map Group.ref) h.map_fst_eq
  have hlength := congrArg List.length h.map_fst_eq
  rw [List.map_map] at hgroups
  rw [List.length_map] at hlength
  have hreport := userReport_mk user groups mets.flatten
  simp only [UserEffectivePermissions.ofGroups, h.flatMap_eq, List.map_map, List.length_map,
    hlength]
  exact hgroups ▸ hreport

variable (d)

theorem call_collectGroup_eq_ok_iff {group : Group} {r : GroupEffectivePermissions} {s s' : σ} :
    (d.collectGroup group).call s = (.ok r, s') ↔
      ∃ met, d.WalkGroup group s met s' ∧ GroupReport group met r := by
  unfold collectGroup
  rw [Access.call_map_eq_ok_iff]
  simp only [call_boundPolicies_eq_ok_iff]
  constructor
  · rintro ⟨_, ⟨met, hmet, rfl⟩, rfl⟩
    exact ⟨met, hmet, groupReport_mk group met⟩
  · rintro ⟨met, hmet, hr⟩
    exact ⟨_, ⟨met, hmet, rfl⟩, (groupReport_mk group met).unique hr⟩

theorem call_resolveGroup_eq_ok_iff {identifier : String} {r : GroupEffectivePermissions}
    {s s' : σ} :
    (d.resolveGroup identifier).call s = (.ok (.found r), s') ↔
      ∃ group s₁, (d.findGroup identifier).call s = (.ok (some group), s₁) ∧
        (d.collectGroup group).call s₁ = (.ok r, s') := by
  unfold resolveGroup
  rw [Access.call_bind_eq_ok_iff]
  constructor
  · rintro ⟨_ | group, s₁, hfind, h⟩
    · simp [Outcome.notFound, Access.call_pure_eq_ok_iff] at h
    · obtain ⟨r', hr, heq⟩ := Access.call_map_eq_ok_iff.mp h
      cases heq
      exact ⟨group, s₁, hfind, hr⟩
  · rintro ⟨group, s₁, hfind, h⟩
    exact ⟨some group, s₁, hfind, Access.call_map_eq_ok_iff.mpr ⟨r, h, rfl⟩⟩

theorem call_resolveUser_eq_ok_iff {identifier : String} {r : UserEffectivePermissions}
    {s s' : σ} :
    (d.resolveUser identifier).call s = (.ok (.found r), s') ↔
      ∃ user groups mets s₁ s₂, (d.findUser identifier).call s = (.ok (some user), s₁) ∧
        (d.groupsOfUser user.uid).call s₁ = (.ok groups, s₂) ∧ d.Walk s₂ groups mets s' ∧
        UserReport user groups mets.flatten r := by
  unfold resolveUser
  rw [Access.call_bind_eq_ok_iff]
  constructor
  · rintro ⟨_ | user, s₁, hfind, h⟩
    · simp [Outcome.notFound, Access.call_pure_eq_ok_iff] at h
    · obtain ⟨groups, s₂, hgroups, h⟩ := Access.call_bind_eq_ok_iff.mp h
      obtain ⟨bound, hbound, heq⟩ := Access.call_map_eq_ok_iff.mp h
      obtain ⟨mets, hwalk, rfl⟩ :=
        d.each_boundPolicies_iff.mp (Access.call_mapM_eq_ok_iff.mp hbound)
      cases heq
      exact ⟨user, groups, mets, s₁, s₂, hfind, hgroups, hwalk, hwalk.userReport_ofGroups user⟩
  · rintro ⟨user, groups, mets, s₁, s₂, hfind, hgroups, hwalk, hr⟩
    refine ⟨some user, s₁, hfind, Access.call_bind_eq_ok_iff.mpr ⟨groups, s₂, hgroups, ?_⟩⟩
    refine Access.call_map_eq_ok_iff.mpr ⟨_, Access.call_mapM_eq_ok_iff.mpr
      (d.each_boundPolicies_iff.mpr ⟨mets, hwalk, rfl⟩), ?_⟩
    rw [(hwalk.userReport_ofGroups user).unique hr]

/-- **Exactness.** A user or group is resolved exactly when its groups, bindings and policies are
fetched in order, and then with the one report that describes what was met on this walk. -/
theorem resolutions_exact (s s' : σ) :
    (∀ identifier r, (d.resolveUser identifier).call s = (.ok (.found r), s') ↔
      ∃ user groups mets s₁ s₂, (d.findUser identifier).call s = (.ok (some user), s₁) ∧
        (d.groupsOfUser user.uid).call s₁ = (.ok groups, s₂) ∧ d.Walk s₂ groups mets s' ∧
        UserReport user groups mets.flatten r) ∧
    (∀ group r, (d.collectGroup group).call s = (.ok r, s') ↔
      ∃ met, d.WalkGroup group s met s' ∧ GroupReport group met r) ∧
    (∀ identifier r, (d.resolveGroup identifier).call s = (.ok (.found r), s') ↔
      ∃ group met s₁, (d.findGroup identifier).call s = (.ok (some group), s₁) ∧
        d.WalkGroup group s₁ met s' ∧ GroupReport group met r) ∧
    (∀ user groups met, ∃! r, UserReport user groups met r) ∧
    ∀ group met, ∃! r, GroupReport group met r := by
  refine ⟨fun _ _ => d.call_resolveUser_eq_ok_iff, fun _ _ => d.call_collectGroup_eq_ok_iff,
    fun identifier r => ?_, fun user groups met => ?_, fun group met => ?_⟩
  · rw [call_resolveGroup_eq_ok_iff]
    simp only [call_collectGroup_eq_ok_iff]
    constructor
    · rintro ⟨group, s₁, hfind, met, hmet, hr⟩; exact ⟨group, met, s₁, hfind, hmet, hr⟩
    · rintro ⟨group, met, s₁, hfind, hmet, hr⟩; exact ⟨group, s₁, hfind, met, hmet, hr⟩
  · exact ⟨_, userReport_mk user groups met, fun r hr => hr.unique (userReport_mk user groups met)⟩
  · exact ⟨_, groupReport_mk group met, fun r hr => hr.unique (groupReport_mk group met)⟩

end Directory

end Entitlements
