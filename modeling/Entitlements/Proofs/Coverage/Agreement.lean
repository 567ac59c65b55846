import Entitlements.Proofs.Coverage.Matrix
import Entitlements.Proofs.Directory.Memory

/-! # The two matrices of an account

A directory in memory shows policies twice: listed, and bound to groups. Either way the matrix asks
for the policy under a uuid, and it is the first one there is (`MemoryDirectory.Declares`). A group
therefore has a key exactly when a policy bound to it has it in the matrix of the policies
(`MemoryDirectory.matrices_agree`). -/

namespace Entitlements

/-! ### Calls in pairs with their answers -/

theorem Directory.Walk.exists_walkGroup {σ : Type} {d : Directory σ} {gs : List Group}
    {mets : List (List MetBinding)} {s s' : σ} (h : d.Walk s gs mets s') {g : Group}
    {met : List MetBinding} (hmem : (g, met) ∈ gs.zip mets) : ∃ t t', d.WalkGroup g t met t' := by
  induction h with
  | nil => simp at hmem
  | cons head _ ih =>
    rcases List.mem_cons.mp (List.zip_cons_cons ▸ hmem) with heq | hmem
    · cases heq
      exact ⟨_, _, head⟩
    · exact ih hmem

/-! ### What is found in memory -/

namespace MemoryDirectory

variable (m : MemoryDirectory)

/-- The policy that is found under a uuid declares a key. -/
def Declares (uuid key : String) : Prop :=
  ∃ p, m.policies.find? (·.uuid == uuid) = some p ∧ key ∈ keysOf p.statement

variable {m}

theorem declares_iff {uuid key : String} {p : Policy}
    (h : m.policies.find? (·.uuid == uuid) = some p) :
    m.Declares uuid key ↔ key ∈ keysOf p.statement := by
  constructor
  · rintro ⟨q, hq, hkey⟩
    cases Option.some.inj (h.symm.trans hq)
    exact hkey
  · exact fun hkey => ⟨p, h, hkey⟩

/-! ### Rows -/

/-- The keys of a group are those that the policies bound to it declare. -/
theorem mem_keys_coveredGroup_iff {g : Group} {met : List MetBinding} {n n' : Nat}
    (h : m.directory.WalkGroup g n met n') {key : String} :
    key ∈ (coveredGroup g (met.map (·.bound))).keys ↔
      ∃ b ∈ m.bindings, b.groupUuid = g.uuid ∧ m.Declares b.policyUuid key := by
  obtain ⟨bindings, policies, n₁, hbindings, hpolicies, rfl⟩ := h
  have hkeys : key ∈ (coveredGroup g ((List.zipWith (MetBinding.mk g) bindings policies).map
      (·.bound))).keys ↔ ∃ b p, (b, p) ∈ bindings.zip policies ∧ key ∈ keysOf p.statement := by
    rw [coveredGroup, KeySet.mem_ofList, ← List.map_uncurry_zip_eq_zipWith, List.map_map,
      List.flatMap_map, List.mem_flatMap]
    simp only [Prod.exists]
    rfl
  have hdeclares : ∀ {b : Binding} {p : Policy}, (b, p) ∈ bindings.zip policies →
      (m.Declares b.policyUuid key ↔ key ∈ keysOf p.statement) := by
    intro b p hbp
    obtain ⟨t, t', hcall⟩ := hpolicies.exists_call hbp
    exact declares_iff (find?_policies_of_call hcall)
  have hmem : ∀ {b : Binding}, b ∈ bindings ↔ b ∈ m.bindings ∧ b.groupUuid = g.uuid := by
    intro b
    rw [eq_bindings_of_call hbindings, List.mem_filter, beq_iff_eq]
  rw [hkeys]
  constructor
  · rintro ⟨b, p, hbp, hkey⟩
    obtain ⟨hb, hgroup⟩ := hmem.mp (List.of_mem_zip hbp).1
    exact ⟨b, hb, hgroup, (hdeclares hbp).mpr hkey⟩
  · rintro ⟨b, hb, hgroup, hkey⟩
    obtain ⟨p, hbp⟩ := hpolicies.exists_answer (hmem.mpr ⟨hb, hgroup⟩)
    exact ⟨b, p, hbp, (hdeclares hbp).mp hkey⟩

/-- A row of the matrix that is built is that of an entity. -/
theorem mem_rows_build {kind : MatrixKind} {entities : List CoveredEntity} {r : MatrixRow} :
    r ∈ (CoverageMatrix.build kind entities).rows ↔
      ∃ e ∈ entities, e.row (columnsOf entities) = r := List.mem_map

theorem map_entityId_build (kind : MatrixKind) (entities : List CoveredEntity) :
    (CoverageMatrix.build kind entities).rows.map (·.entityId) = entities.map (·.id) := by
  rw [CoverageMatrix.build, List.map_map]
  rfl

theorem has_row_columnsOf {entities : List CoveredEntity} {e : CoveredEntity} (he : e ∈ entities)
    {key : String} : (e.row (columnsOf entities)).has key = true ↔ key ∈ e.keys :=
  CoveredEntity.has_row (fun _ hk => mem_columnsOf.mpr ⟨e, he, hk⟩) key

/-- **A row of the groups** has what the policies bound to its group declare. -/
theorem has_groupMatrix_iff {groups : CoverageMatrix} {n n' : Nat}
    (h : m.directory.groupMatrix.call n = (.ok groups, n')) {r : MatrixRow} (hr : r ∈ groups.rows)
    {key : String} : r.has key = true ↔
      ∃ b ∈ m.bindings, b.groupUuid = r.entityId ∧ m.Declares b.policyUuid key := by
  obtain ⟨listed, mets, n₁, -, hwalk, rfl⟩ := Directory.call_groupMatrix_eq_ok_iff.mp h
  obtain ⟨e, he, rfl⟩ := mem_rows_build.mp hr
  rw [has_row_columnsOf he]
  obtain ⟨⟨g, met⟩, hmem, rfl⟩ := List.mem_map.mp he
  obtain ⟨t, t', hgroup⟩ := hwalk.exists_walkGroup hmem
  exact mem_keys_coveredGroup_iff hgroup

/-- **The rows of a policy** have what the policy that is found under its uuid declares. -/
theorem exists_has_policyMatrix_iff {policies : CoverageMatrix} {n n' : Nat}
    (h : m.directory.policyMatrix.call n = (.ok policies, n')) {uuid key : String} :
    (∃ r ∈ policies.rows, r.entityId = uuid ∧ r.has key = true) ↔ m.Declares uuid key := by
  obtain ⟨listed, fetched, n₁, hlisted, hfetched, rfl⟩ :=
    (Directory.call_policyMatrix_eq_ok_iff _).mp h
  have hdeclares : ∀ {p q : Policy}, (p, q) ∈ listed.zip fetched →
      (m.Declares p.uuid key ↔ key ∈ keysOf q.statement) := by
    intro p q hpq
    obtain ⟨t, t', hcall⟩ := hfetched.exists_call hpq
    exact declares_iff (find?_policies_of_call hcall)
  constructor
  · rintro ⟨r, hr, rfl, hhas⟩
    obtain ⟨e, he, rfl⟩ := mem_rows_build.mp hr
    rw [has_row_columnsOf he] at hhas
    obtain ⟨⟨p, q⟩, hpq, rfl⟩ := List.mem_map.mp he
    exact (hdeclares hpq).mpr (KeySet.mem_ofList.mp hhas)
  · -- The policy found is listed as well, and there it is found once more.
    intro hkey
    obtain ⟨p, hfind, -⟩ := id hkey
    have huuid : p.uuid = uuid := by simpa using List.find?_some hfind
    have hp : p.withoutStatement ∈ listed := by
      rw [eq_policies_of_call hlisted]
      exact List.mem_map_of_mem (List.mem_of_find?_eq_some hfind)
    obtain ⟨q, hpq⟩ := hfetched.exists_answer hp
    have he : coveredPolicy p.withoutStatement q ∈ coveredPolicies listed fetched :=
      List.mem_map_of_mem hpq
    refine ⟨_, mem_rows_build.mpr ⟨_, he, rfl⟩, huuid, (has_row_columnsOf he).mpr ?_⟩
    exact KeySet.mem_ofList.mpr ((hdeclares hpq).mp (huuid ▸ hkey))

/-- **The matrices agree.** When both are made, they have a row for each group and each policy there
is, and a row of the groups has a key exactly when some policy that is bound to its group has it in
a row of the policies. What is a column of the groups is then a column of the policies. -/
theorem matrices_agree (m : MemoryDirectory) {groups policies : CoverageMatrix} {n n' k k' : Nat}
    (hgroups : m.directory.groupMatrix.call n = (.ok groups, n'))
    (hpolicies : m.directory.policyMatrix.call k = (.ok policies, k')) :
    groups.rows.map (·.entityId) = m.groups.map (·.uuid) ∧
    policies.rows.map (·.entityId) = m.policies.map (·.uuid) ∧
    (∀ r ∈ groups.rows, ∀ key, r.has key = true ↔ ∃ b ∈ m.bindings, b.groupUuid = r.entityId ∧
      ∃ p ∈ policies.rows, p.entityId = b.policyUuid ∧ p.has key = true) ∧
    ∀ key ∈ groups.permissions, key ∈ policies.permissions := by
  have hrow : ∀ r ∈ groups.rows, ∀ key, r.has key = true ↔ ∃ b ∈ m.bindings,
      b.groupUuid = r.entityId ∧ ∃ p ∈ policies.rows, p.entityId = b.policyUuid ∧
        p.has key = true := by
    intro r hr key
    simp only [exists_has_policyMatrix_iff hpolicies]
    exact has_groupMatrix_iff hgroups hr
  obtain ⟨gs, mets, n₁, hgs, hwalk, rfl⟩ := Directory.call_groupMatrix_eq_ok_iff.mp hgroups
  obtain ⟨ps, qs, k₁, hps, hqs, rfl⟩ := (Directory.call_policyMatrix_eq_ok_iff _).mp hpolicies
  refine ⟨?_, ?_, hrow, fun key hkey => ?_⟩
  · rw [map_entityId_build, coveredGroups, List.map_map, ← eq_groups_of_call hgs]
    conv_rhs => rw [← List.map_fst_zip (Nat.le_of_eq hwalk.length_eq), List.map_map]
    rfl
  · have hlisted : ps.map (·.uuid) = m.policies.map (·.uuid) := by
      rw [eq_policies_of_call hps, List.map_map]
      rfl
    rw [map_entityId_build, coveredPolicies, List.map_map, ← hlisted]
    conv_rhs => rw [← List.map_fst_zip (Nat.le_of_eq hqs.length_eq), List.map_map]
    rfl
  · obtain ⟨r, hr, hhas⟩ := ((CoverageMatrix.covers_build _ _).mem_iff key).mp hkey
    obtain ⟨b, -, -, p, hp, -, hhas⟩ := (hrow r hr key).mp hhas
    exact ((CoverageMatrix.covers_build _ _).mem_iff key).mpr ⟨p, hp, hhas⟩

/-- Two policies of one uuid, the first of which is bound twice; a policy that is not bound, and one
without a statement; and two groups of one uuid. -/
def shadowed : MemoryDirectory where
  account := "account"
  groups := [⟨"g", "Ops", none, none⟩, ⟨"e", "Nobody", none, none⟩, ⟨"g", "Others", none, none⟩]
  policies := [⟨"p", "Shown", none, some "ALLOW a; DENY b"⟩, ⟨"p", "Hidden", none, some "ALLOW c"⟩,
    ⟨"q", "Unbound", none, some "ALLOW d"⟩, ⟨"r", "Silent", none, none⟩]
  bindings := [{ policyUuid := "p", groupUuid := "g" }, { policyUuid := "r", groupUuid := "g" },
    { policyUuid := "p", groupUuid := "g" }, { policyUuid := "q", groupUuid := "x" }]

/-- Both groups of the uuid have the keys of the policy that is found, and so have both policies. -/
theorem shadowed_agree : ∃ groups policies,
    shadowed.directory.groupMatrix.call 0 = (.ok groups, 10) ∧
    shadowed.directory.policyMatrix.call 10 = (.ok policies, 15) ∧
    groups.rows.map (·.flagged) = [["ALLOW:a", "DENY:b"], [], ["ALLOW:a", "DENY:b"]] ∧
    policies.rows.map (·.flagged) =
      [["ALLOW:a", "DENY:b"], ["ALLOW:a", "DENY:b"], ["ALLOW:d"], []] ∧
    groups.rows.map (·.entityId) = ["g", "e", "g"] ∧
    policies.rows.map (·.entityId) = ["p", "p", "q", "r"] ∧
    (∀ r ∈ groups.rows, ∀ key, r.has key = true ↔ ∃ b ∈ shadowed.bindings,
      b.groupUuid = r.entityId ∧ ∃ p ∈ policies.rows, p.entityId = b.policyUuid ∧
        p.has key = true) ∧
    ∀ key ∈ groups.permissions, key ∈ policies.permissions := by
  have hgroups : shadowed.directory.groupMatrix.call 0 = (.ok _, 10) := rfl
  have hpolicies : shadowed.directory.policyMatrix.call 10 = (.ok _, 15) := rfl
  exact ⟨_, _, hgroups, hpolicies, by decide +kernel, by decide +kernel,
    shadowed.matrices_agree hgroups hpolicies⟩

end MemoryDirectory

end Entitlements
