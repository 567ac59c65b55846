import Entitlements.Proofs.Coverage.Rows
import Entitlements.Proofs.Grants.Merge

/-! # Groups in the coverage matrix

The matrix of the groups and the reports on the groups come from the same walk. Keys of different
effects start differently, so that a row falls into two parts: its `ALLOW` keys are the keys of the
report on its group, and the rest are the keys that the policies of the group deny (`GroupRow`,
`groupMatrix_shows_grants`). -/

namespace Entitlements

/-! ### Keys by effect -/

theorem prefix_keyOfKind_iff {e : Effect} {k : Effect × String} :
    (e.keyword ++ ":").toList <+: (keyOfKind k).toList ↔ k.1 = e := by
  obtain ⟨effect, action⟩ := k
  cases e <;> cases effect <;> simp [keyOfKind, Effect.keyword]

theorem allowPrefix_iff {k : Effect × String} :
    "ALLOW:".toList <+: (keyOfKind k).toList ↔ k.1 = .allow := by
  rw [← prefix_keyOfKind_iff]
  rfl

theorem denyPrefix_iff {k : Effect × String} :
    "DENY:".toList <+: (keyOfKind k).toList ↔ k.1 = .deny := by
  rw [← prefix_keyOfKind_iff]
  rfl

/-! ### The keys of a group -/

/-- A group with the keys that the policies bound to it declare. -/
def coveredGroup (g : Group) (bs : List BoundPolicy) : CoveredEntity :=
  ⟨g.name, g.uuid, .ofList (bs.flatMap fun b => keysOf b.policy.statement)⟩

/-- The effects and actions that the policies met declare. -/
def declaredKinds (met : List MetBinding) : List (Effect × String) :=
  met.flatMap fun m => (parseStatement m.policy.statement).map fun p => (p.effect, p.action)

theorem mem_keys_coveredGroup {g : Group} {met : List MetBinding} {k : String} :
    k ∈ (coveredGroup g (met.map (·.bound))).keys ↔ k ∈ (declaredKinds met).map keyOfKind := by
  rw [coveredGroup, KeySet.mem_ofList, List.flatMap_map, declaredKinds, List.map_flatMap]
  simp only [List.map_map]
  rfl

theorem mem_declaredKinds {met : List MetBinding} {kind : Effect × String} :
    kind ∈ declaredKinds met ↔
      ∃ m ∈ met, ∃ p ∈ parseStatement m.policy.statement, (p.effect, p.action) = kind := by
  simp only [declaredKinds, List.mem_flatMap, List.mem_map]

/-- What is granted is what is declared and allowed. -/
theorem mem_kinds_grants {met : List MetBinding} {group : Option String}
    {kind : Effect × String} : kind ∈ (met.flatMap fun m => m.grants group).map (·.kind) ↔
      kind ∈ declaredKinds met ∧ kind.1 = .allow := by
  simp only [mem_declaredKinds, MetBinding.grants, List.mem_map, List.mem_flatMap, List.mem_filter,
    Effect.isAllow_iff]
  constructor
  · rintro ⟨_, ⟨m, hm, p, ⟨hp, hallow⟩, rfl⟩, rfl⟩
    exact ⟨⟨m, hm, p, hp, rfl⟩, hallow⟩
  · rintro ⟨⟨m, hm, p, hp, rfl⟩, hallow⟩
    exact ⟨_, ⟨m, hm, p, ⟨hp, hallow⟩, rfl⟩, rfl⟩

theorem GroupReport.mem_keys_iff {g : Group} {met : List MetBinding} {q : GroupEffectivePermissions}
    (h : GroupReport g met q) {k : String} : k ∈ q.effectivePermissions.map (·.key) ↔
      ∃ kind ∈ declaredKinds met, kind.1 = .allow ∧ keyOfKind kind = k := by
  rw [h.grants.keys, List.mem_eraseDups, List.mem_map]
  simp only [mem_kinds_grants, and_assoc]

/-! ### Rows -/

/-- The row of a group whose bindings were met, next to the report on the group. -/
structure GroupRow (g : Group) (met : List MetBinding) (q : GroupEffectivePermissions)
    (row : MatrixRow) : Prop where
  name : row.entityName = g.name
  id : row.entityId = g.uuid
  has_iff : ∀ k, row.has k = true ↔ k ∈ row.flagged
  nodup : row.flagged.Nodup
  /-- The `ALLOW` flags are the keys of the report. -/
  allowed : ∀ k, k ∈ row.flagged ∧ "ALLOW:".toList <+: k.toList ↔
    k ∈ q.effectivePermissions.map (·.key)
  allowedCount :
    (row.flagged.filter fun k => "ALLOW:".toList.isPrefixOf k.toList).length = q.permissionCount
  /-- The other flags are what the policies deny. -/
  denied : ∀ k, k ∈ row.flagged ∧ ¬ "ALLOW:".toList <+: k.toList ↔
    ∃ m ∈ met, ∃ p ∈ parseStatement m.policy.statement, p.effect = .deny ∧ p.key = k
  denyPrefix : ∀ k ∈ row.flagged, ¬ "ALLOW:".toList <+: k.toList → "DENY:".toList <+: k.toList

/-- **The row of a group** agrees with the report on it, both made from the bindings met. -/
theorem groupRow_row {g : Group} {met : List MetBinding} {q : GroupEffectivePermissions}
    (hq : GroupReport g met q) {columns : KeySet}
    (hcolumns : ∀ k ∈ (coveredGroup g (met.map (·.bound))).keys, k ∈ columns) :
    GroupRow g met q ((coveredGroup g (met.map (·.bound))).row columns) := by
  have hflagged := CoveredEntity.flagged_row hcolumns
  have hmem : ∀ k, k ∈ ((coveredGroup g (met.map (·.bound))).row columns).flagged ↔
      ∃ kind ∈ declaredKinds met, keyOfKind kind = k := by
    intro k
    rw [hflagged, ← KeySet.mem_def, mem_keys_coveredGroup, List.mem_map]
  have hnodup : ((coveredGroup g (met.map (·.bound))).row columns).flagged.Nodup := by
    rw [hflagged]
    exact KeySet.nodup _
  have hallowed : ∀ k, k ∈ ((coveredGroup g (met.map (·.bound))).row columns).flagged ∧
      "ALLOW:".toList <+: k.toList ↔ k ∈ q.effectivePermissions.map (·.key) := by
    intro k
    rw [hmem, hq.mem_keys_iff]
    constructor
    · rintro ⟨⟨kind, hkind, rfl⟩, hprefix⟩
      exact ⟨kind, hkind, allowPrefix_iff.mp hprefix, rfl⟩
    · rintro ⟨kind, hkind, hallow, rfl⟩
      exact ⟨⟨kind, hkind, rfl⟩, allowPrefix_iff.mpr hallow⟩
  have hdeny : ∀ {kind : Effect × String}, ¬ "ALLOW:".toList <+: (keyOfKind kind).toList →
      kind.1 = .deny := by
    intro kind hprefix
    cases hkind : kind.1 with
    | allow => exact absurd (allowPrefix_iff.mpr hkind) hprefix
    | deny => rfl
  refine ⟨rfl, rfl, fun k => ?_, hnodup, hallowed, ?_, fun k => ?_, fun k hk hprefix => ?_⟩
  · rw [CoveredEntity.has_row hcolumns, hflagged, KeySet.mem_def]
  · -- Neither list has repetitions, so that equal members mean equal lengths.
    have hperm := (List.perm_ext_iff_of_nodup
      (hnodup.filter fun k => "ALLOW:".toList.isPrefixOf k.toList) hq.grants.nodup_keys).mpr fun k =>
        by rw [List.mem_filter, List.isPrefixOf_iff_prefix, hallowed]
    rw [hperm.length_eq, List.length_map, hq.permissionCount]
  · rw [hmem]
    constructor
    · rintro ⟨⟨kind, hkind, rfl⟩, hprefix⟩
      obtain ⟨m, hm, p, hp, rfl⟩ := mem_declaredKinds.mp hkind
      exact ⟨m, hm, p, hp, hdeny hprefix, rfl⟩
    · rintro ⟨m, hm, p, hp, hdenied, rfl⟩
      have hkind : p.key = keyOfKind (p.effect, p.action) := rfl
      refine ⟨⟨_, mem_declaredKinds.mpr ⟨m, hm, p, hp, rfl⟩, rfl⟩, ?_⟩
      rw [hkind, allowPrefix_iff, hdenied]
      exact nofun
  · obtain ⟨kind, -, rfl⟩ := (hmem k).mp hk
    exact denyPrefix_iff.mpr (hdeny hprefix)

/-! ### The matrix of an account -/

/-- The entities of the matrix, from the bindings met on a walk. -/
def coveredGroups (groups : List Group) (mets : List (List MetBinding)) : List CoveredEntity :=
  (groups.zip mets).map fun p => coveredGroup p.1 (p.2.map (·.bound))

namespace Directory

variable {σ : Type} {d : Directory σ}

/-- The matrix is made on a walk of the listed groups. -/
theorem call_groupMatrix_eq_ok_iff {m : CoverageMatrix} {s s' : σ} :
    d.groupMatrix.call s = (.ok m, s') ↔ ∃ groups mets s₁, d.groups.call s = (.ok groups, s₁) ∧
      d.Walk s₁ groups mets s' ∧ m = .build .group (coveredGroups groups mets) := by
  have hgroup : ∀ g : Group, (do
      let bound ← d.boundPolicies g.uuid
      let keys := bound.flatMap fun b => keysOf b.policy.statement
      return (⟨g.name, g.uuid, .ofList keys⟩ : CoveredEntity)) =
      (do return coveredGroup g (← d.boundPolicies g.uuid) : Access σ CoveredEntity) :=
    fun _ => rfl
  have hcovered : ∀ (groups : List Group) (mets : List (List MetBinding)),
      List.zipWith coveredGroup groups (mets.map (·.map (·.bound))) =
        coveredGroups groups mets := by
    intro groups mets
    rw [List.zipWith_map_right, coveredGroups, List.map_zip_eq_zipWith]
    rfl
  unfold groupMatrix
  simp only [hgroup, Access.call_bind_eq_ok_iff, Access.call_pure_eq_ok_iff,
    Access.call_mapM_eq_ok_iff, Access.each_map_iff, each_bound_iff]
  constructor
  · rintro ⟨groups, s₁, hgroups, _, _, ⟨_, ⟨mets, hwalk, rfl⟩, rfl⟩, rfl, rfl⟩
    exact ⟨groups, mets, s₁, hgroups, hwalk, by rw [hcovered]⟩
  · rintro ⟨groups, mets, s₁, hgroups, hwalk, rfl⟩
    exact ⟨groups, s₁, hgroups, _, s', ⟨_, ⟨mets, hwalk, rfl⟩, rfl⟩, by rw [hcovered], rfl⟩

/-- **The matrix of the groups shows their grants.** When it is made, the reports on the listed
groups can be made in place of it, and each row agrees with the report on its group; what is not
granted in a row is denied. A directory whose answers do not change gives these reports at any
time. -/
theorem groupMatrix_shows_grants (d : Directory σ) {m : CoverageMatrix} {s s' : σ}
    (h : d.groupMatrix.call s = (.ok m, s')) :
    ∃ (groups : List Group) (mets : List (List MetBinding))
      (reports : List GroupEffectivePermissions) (s₁ : σ),
      d.groups.call s = (.ok groups, s₁) ∧ d.Walk s₁ groups mets s' ∧
      Access.Each d.collectGroup s₁ groups reports s' ∧ m.rows.length = groups.length ∧
      (∀ (i : Nat) g, groups[i]? = some g → ∃ met q row, mets[i]? = some met ∧ reports[i]? = some q ∧
        m.rows[i]? = some row ∧ GroupRow g met q row) ∧
      (d.Steady → ∀ t, List.Forall₂ (fun g q => ((d.collectGroup g).call t).1 = .ok q) groups
        reports) := by
  obtain ⟨groups, mets, s₁, hgroups, hwalk, rfl⟩ := call_groupMatrix_eq_ok_iff.mp h
  have heach := hwalk.each_collectGroup
  have hlength := hwalk.length_eq
  refine ⟨groups, mets, _, s₁, hgroups, hwalk, heach, ?_, fun i g hg => ?_, fun hd t => ?_⟩
  · simp [CoverageMatrix.build, coveredGroups, hlength]
  · obtain ⟨hi, -⟩ := List.getElem?_eq_some_iff.mp hg
    have hmet : mets[i]? = some mets[i] := List.getElem?_eq_getElem (hlength ▸ hi)
    have hzip : (groups.zip mets)[i]? = some (g, mets[i]) :=
      List.getElem?_zip_eq_some.mpr ⟨hg, hmet⟩
    have hentity : (coveredGroups groups mets)[i]? =
        some (coveredGroup g (mets[i].map (·.bound))) := by
      rw [coveredGroups, List.getElem?_map, hzip]
      rfl
    refine ⟨_, _, _, hmet, by rw [List.getElem?_map, hzip]; rfl,
      by rw [CoverageMatrix.build, List.getElem?_map, hentity]; rfl, ?_⟩
    refine groupRow_row (groupReport_mk g mets[i]) fun k hk => ?_
    exact mem_columnsOf.mpr ⟨_, List.mem_of_getElem? hentity, hk⟩
  · exact hd.forall₂_collectGroup heach t

end Directory

/-- A group that is listed twice, with a policy bound to it twice whose actions look like keys, and
a group without bindings. -/
def MemoryDirectory.keyLike : MemoryDirectory where
  account := "account"
  groups := [⟨"g", "Ops", none, none⟩, ⟨"e", "Nobody", none, none⟩, ⟨"g", "Ops", none, none⟩]
  policies := [⟨"p", "Mixed", none, some "ALLOW a, DENY:b, a; DENY a, ALLOW:c WHERE x = 1"⟩]
  bindings := [{ policyUuid := "p", groupUuid := "g" }, { policyUuid := "p", groupUuid := "g" }]

/-- Both rows of the group agree with its report, two of its four keys being grants. -/
theorem MemoryDirectory.keyLike_shows_grants :
    ∃ m, keyLike.directory.groupMatrix.call 0 = (.ok m, 8) ∧
      m.rows.map (·.flagged) = [["ALLOW:DENY:b", "ALLOW:a", "DENY:ALLOW:c", "DENY:a"], [],
        ["ALLOW:DENY:b", "ALLOW:a", "DENY:ALLOW:c", "DENY:a"]] ∧
      ∃ (groups : List Group) (mets : List (List MetBinding))
        (reports : List GroupEffectivePermissions) (s₁ : Nat),
        keyLike.directory.groups.call 0 = (.ok groups, s₁) ∧
        keyLike.directory.Walk s₁ groups mets 8 ∧
        Access.Each keyLike.directory.collectGroup s₁ groups reports 8 ∧
        m.rows.length = groups.length ∧
        (∀ (i : Nat) g, groups[i]? = some g → ∃ met q row, mets[i]? = some met ∧
          reports[i]? = some q ∧ m.rows[i]? = some row ∧ GroupRow g met q row) ∧
        ∀ t, List.Forall₂ (fun g q => ((keyLike.directory.collectGroup g).call t).1 = .ok q) groups
          reports := by
  have hcall : keyLike.directory.groupMatrix.call 0 = (.ok _, 8) := rfl
  refine ⟨_, hcall, by decide +kernel, ?_⟩
  obtain ⟨groups, mets, reports, s₁, hgroups, hwalk, heach, hlength, hrows, hsteady⟩ :=
    keyLike.directory.groupMatrix_shows_grants hcall
  exact ⟨groups, mets, reports, s₁, hgroups, hwalk, heach, hlength, hrows, hsteady keyLike.steady⟩

end Entitlements
