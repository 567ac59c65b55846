import Entitlements.Proofs.Coverage.Groups
import Entitlements.Proofs.Text.ByteOrder
import Mathlib.Data.List.Forall2

/-! # The shape of coverage matrices

What a matrix of some entities looks like (`CoverageMatrix.Covers`): its columns in the order of
their bytes, a row for each entity in the order of the listing, and in it a cell for each column.
There is just one such matrix, the one that is built (`CoverageMatrix.covers_iff`), and the matrices
of an account are those of the policies and groups that it lists (`matrices_cover`). -/

namespace Entitlements

/-- The row of an entity under some columns. -/
structure CoveredEntity.HasRow (e : CoveredEntity) (columns : List String) (r : MatrixRow) :
    Prop where
  name : r.entityName = e.name
  id : r.entityId = e.id
  /-- A cell for each column, and no other. -/
  cells : r.cells.map (·.1) = columns
  /-- Only the keys of the entity are flagged. -/
  has_iff : ∀ k, r.has k = true ↔ k ∈ e.keys

/-- The matrix of some entities. -/
structure CoverageMatrix.Covers (kind : MatrixKind) (entities : List CoveredEntity)
    (m : CoverageMatrix) : Prop where
  kind : m.kind = kind
  sorted : m.permissions.Pairwise Precedes
  /-- Every column is flagged in some row. -/
  mem_iff : ∀ k, k ∈ m.permissions ↔ ∃ r ∈ m.rows, r.has k = true
  /-- One row for each entity, in order. -/
  rows : List.Forall₂ (fun e r => e.HasRow m.permissions r) entities m.rows
  names : m.entities = entities.map (·.name)
  entityCount : m.entityCount = m.rows.length
  permissionCount : m.permissionCount = m.permissions.length

namespace CoveredEntity

/-- The row that is built for an entity. -/
theorem hasRow_row {e : CoveredEntity} {columns : KeySet} (h : ∀ k ∈ e.keys, k ∈ columns) :
    e.HasRow columns.toList (e.row columns) := by
  refine ⟨rfl, rfl, ?_, has_row h⟩
  rw [row, List.map_map]
  exact List.map_id _

/-- Cells with distinct keys are told by what is found in them. -/
theorem eq_map_lookup : ∀ {cells : List (String × Bool)}, (cells.map (·.1)).Nodup →
    cells = (cells.map (·.1)).map fun k => (k, (cells.lookup k).getD false)
  | [], _ => rfl
  | (key, flag) :: cells, h => by
    rw [List.map_cons, List.nodup_cons] at h
    rw [List.map_cons, List.map_cons, List.lookup_cons_self]
    refine congrArg _ ((eq_map_lookup h.2).trans (List.map_congr_left fun k hk => ?_))
    have hne : (k == key) = false := beq_false_of_ne (ne_of_mem_of_not_mem hk h.1)
    rw [List.lookup_cons, hne]

/-- An entity has no other row. -/
theorem HasRow.eq_row {e : CoveredEntity} {columns : KeySet} {r : MatrixRow}
    (h : e.HasRow columns.toList r) : r = e.row columns := by
  obtain ⟨name, id, cells⟩ := r
  obtain ⟨hname, hid, hcells, hhas⟩ := h
  simp only at hname hid hcells
  subst hname hid
  rw [row, MatrixRow.mk.injEq]
  refine ⟨rfl, rfl, ?_⟩
  have hnodup : (cells.map (·.1)).Nodup := hcells ▸ columns.nodup
  have hlookup := eq_map_lookup hnodup
  rw [hcells] at hlookup
  refine hlookup.trans (List.map_congr_left fun k _ => Prod.ext rfl ?_)
  exact Bool.eq_iff_iff.mpr ((hhas k).trans decide_eq_true_iff.symm)

end CoveredEntity

/-! ### The matrix that is built -/

/-- Rows are flagged under the keys of their entities. -/
theorem exists_has_iff {entities : List CoveredEntity} {columns : List String}
    {rows : List MatrixRow} {k : String}
    (h : List.Forall₂ (fun e r => CoveredEntity.HasRow e columns r) entities rows) :
    (∃ r ∈ rows, r.has k = true) ↔ ∃ e ∈ entities, k ∈ e.keys := by
  induction h with
  | nil => simp
  | cons hrow _ ih => rw [List.exists_mem_cons_iff, List.exists_mem_cons_iff, ih, hrow.has_iff]

theorem CoverageMatrix.covers_build (kind : MatrixKind) (entities : List CoveredEntity) :
    (build kind entities).Covers kind entities := by
  have hrows : List.Forall₂ (fun e r => CoveredEntity.HasRow e (columnsOf entities).toList r)
      entities (entities.map (·.row (columnsOf entities))) := by
    rw [List.forall₂_map_right_iff, List.forall₂_same]
    exact fun e he => CoveredEntity.hasRow_row fun k hk => mem_columnsOf.mpr ⟨e, he, hk⟩
  refine ⟨rfl, (columnsOf entities).sorted.imp precedes_of_lt, fun k => ?_, hrows, rfl, ?_, rfl⟩
  · exact mem_columnsOf.trans (exists_has_iff hrows).symm
  · exact (List.length_map _).symm

/-- **The matrix of some entities** is the one that is built. -/
theorem CoverageMatrix.covers_iff {kind : MatrixKind} {entities : List CoveredEntity}
    {m : CoverageMatrix} : m.Covers kind entities ↔ m = .build kind entities := by
  constructor
  · rintro ⟨hkind, hsorted, hmem, hrows, hnames, hentities, hpermissions⟩
    have hcolumns : m.permissions = (columnsOf entities).toList := by
      refine List.Pairwise.eq_of_mem_iff hsorted ((columnsOf entities).sorted.imp precedes_of_lt) ?_
      exact fun k => ((hmem k).trans (exists_has_iff hrows)).trans mem_columnsOf.symm
    rw [hcolumns] at hrows hpermissions
    have hbuilt : m.rows = entities.map (·.row (columnsOf entities)) := by
      refine (List.forall₂_eq_eq_eq ▸ ?_ : entities.map _ = m.rows).symm
      rw [List.forall₂_map_left_iff]
      exact hrows.imp fun _ _ h => h.eq_row.symm
    rw [hbuilt, List.length_map] at hentities
    obtain ⟨kind, permissions, names, rows, entityCount, permissionCount⟩ := m
    simp only at hkind hcolumns hnames hbuilt hentities hpermissions
    subst hkind hcolumns hnames hbuilt hentities hpermissions
    rfl
  · rintro rfl
    exact covers_build kind entities

/-! ### The matrices of an account -/

/-- A listed policy with the keys that it declares, its statement taken from the policy fetched. -/
def coveredPolicy (listed fetched : Policy) : CoveredEntity :=
  ⟨listed.name, listed.uuid, .ofList (keysOf fetched.statement)⟩

/-- The entities of the matrix, from the policies listed and those fetched for them. -/
def coveredPolicies (listed fetched : List Policy) : List CoveredEntity :=
  (listed.zip fetched).map fun p => coveredPolicy p.1 p.2

namespace Directory

variable {σ : Type} (d : Directory σ)

/-- The matrix is made of the policies that are listed, each fetched once more. -/
theorem call_policyMatrix_eq_ok_iff {m : CoverageMatrix} {s s' : σ} :
    d.policyMatrix.call s = (.ok m, s') ↔ ∃ listed fetched s₁,
      d.policies.call s = (.ok listed, s₁) ∧
      Access.Each (fun p => d.policy p.uuid) s₁ listed fetched s' ∧
      m = .build .policy (coveredPolicies listed fetched) := by
  have hpolicy : ∀ p : Policy, (do
      let statement := (← d.policy p.uuid).statement
      return (⟨p.name, p.uuid, .ofList (keysOf statement)⟩ : CoveredEntity)) =
      (do return coveredPolicy p (← d.policy p.uuid) : Access σ CoveredEntity) := fun _ => rfl
  have hcovered : ∀ listed fetched : List Policy,
      List.zipWith coveredPolicy listed fetched = coveredPolicies listed fetched := by
    intro listed fetched
    rw [coveredPolicies, List.map_zip_eq_zipWith]
    rfl
  unfold policyMatrix
  simp only [hpolicy, Access.call_bind_eq_ok_iff, Access.call_pure_eq_ok_iff,
    Access.call_mapM_eq_ok_iff, Access.each_map_iff]
  constructor
  · rintro ⟨listed, s₁, hlisted, _, _, ⟨fetched, hfetched, rfl⟩, rfl, rfl⟩
    exact ⟨listed, fetched, s₁, hlisted, hfetched, by rw [hcovered]⟩
  · rintro ⟨listed, fetched, s₁, hlisted, hfetched, rfl⟩
    exact ⟨listed, s₁, hlisted, _, s', ⟨fetched, hfetched, rfl⟩, by rw [hcovered], rfl⟩

/-- **Coverage matrices.** Whatever the entities, the matrix that is built, and no other one, has
their keys as columns in the order of bytes, and a row with a cell for each column for each of them
in order. The matrices of an account are those of the policies that it lists, with the statements
fetched for them, and of the groups that it lists, with the bindings met on a walk. -/
theorem matrices_cover (s s' : σ) (m : CoverageMatrix) :
    (∀ kind entities, m = .build kind entities ↔ m.Covers kind entities) ∧
    (d.policyMatrix.call s = (.ok m, s') ↔ ∃ listed fetched s₁,
      d.policies.call s = (.ok listed, s₁) ∧
      Access.Each (fun p => d.policy p.uuid) s₁ listed fetched s' ∧
      m.Covers .policy (coveredPolicies listed fetched)) ∧
    (d.groupMatrix.call s = (.ok m, s') ↔ ∃ listed mets s₁,
      d.groups.call s = (.ok listed, s₁) ∧ d.Walk s₁ listed mets s' ∧
      m.Covers .group (coveredGroups listed mets)) := by
  refine ⟨fun _ _ => CoverageMatrix.covers_iff.symm, ?_, ?_⟩
  · simp only [CoverageMatrix.covers_iff, call_policyMatrix_eq_ok_iff]
  · simp only [CoverageMatrix.covers_iff, call_groupMatrix_eq_ok_iff]

end Directory

end Entitlements
