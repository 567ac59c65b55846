import Entitlements.Review.Coverage
import Mathlib.Data.List.Basic
import Mathlib.Data.List.Sort

/-! # Rows of coverage matrices

A row has a cell for every column. It is flagged under the keys of its entity and under no others,
for every key of an entity is a column (`CoveredEntity.flagged_row`, `CoveredEntity.has_row`). -/

namespace Entitlements

/-- The keys under which a row is flagged, in the order of its columns. -/
def MatrixRow.flagged (r : MatrixRow) : List String := (r.cells.filter (·.2)).map (·.1)

theorem mem_columnsOf {entities : List CoveredEntity} {k : String} :
    k ∈ columnsOf entities ↔ ∃ e ∈ entities, k ∈ e.keys := by
  rw [columnsOf, KeySet.mem_ofList, List.mem_flatMap]
  rfl

namespace CoveredEntity

variable {e : CoveredEntity} {columns : KeySet} (h : ∀ k ∈ e.keys, k ∈ columns)
include h

/-- **A row is flagged** under the keys of its entity, in increasing order. -/
theorem flagged_row : (e.row columns).flagged = e.keys.toList := by
  have hfilter : (e.row columns).flagged = columns.toList.filter fun k => decide (k ∈ e.keys) := by
    rw [MatrixRow.flagged, row, List.filter_map, List.map_map]
    exact List.map_id _
  rw [hfilter]
  -- Both lists are in increasing order, so that their members decide.
  refine List.Pairwise.eq_of_mem_iff (columns.sorted.filter _) e.keys.sorted fun k => ?_
  rw [List.mem_filter, decide_eq_true_iff]
  exact ⟨fun hk => hk.2, fun hk => ⟨h k hk, hk⟩⟩

theorem has_row (k : String) : (e.row columns).has k = true ↔ k ∈ e.keys := by
  rw [MatrixRow.has, row]
  by_cases hk : k ∈ columns
  · rw [List.lookup_graph (fun key => decide (key ∈ e.keys)) hk]
    simp
  · have hnone : (columns.toList.map fun key => (key, decide (key ∈ e.keys))).lookup k = none := by
      rw [List.lookup_eq_none_iff]
      intro p hp
      obtain ⟨key, hkey, rfl⟩ := List.mem_map.mp hp
      simpa using ne_of_mem_of_not_mem hkey hk |>.symm
    rw [hnone]
    exact ⟨fun hfalse => absurd hfalse (by decide), fun hmem => absurd (h k hmem) hk⟩

end CoveredEntity

end Entitlements
