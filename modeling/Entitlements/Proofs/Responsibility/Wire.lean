import Entitlements.Proofs.Wire.RoundTrip
import Entitlements.Review.Responsibility
import Mathlib.Logic.Function.Defs

/-! # Responsibility matrices on the wire

A row is one flat object in which the columns of the groups stand beside the fields. No column
stands under the name of a field, and no two groups share a column (`columnKey_not_mem`,
`columnKey_injective`), so that every row and every matrix is read back from its text, whatever the
groups are called (`raci_read_back`). -/

namespace Entitlements

open Json

/-! ### Columns -/

/-- **Where a column stands**: under the marked name, or under a name that needs no mark. -/
theorem columnKey_cases (group : String) :
    columnKey group = columnMark ++ group ∨
    columnKey group = group ∧ group ∉ raciRowFields ∧ ¬ columnMark.toList <+: group.toList := by
  unfold columnKey
  split
  · exact .inl rfl
  · next h => exact .inr ⟨rfl, by simpa using h⟩

theorem startsWith_columnMark (group : String) :
    columnMark.toList <+: (columnMark ++ group).toList := by
  rw [String.toList_append]
  exact List.prefix_append _ _

/-- A column is read as that of the group that it was written for. -/
theorem columnGroup_columnKey (group : String) : columnGroup (columnKey group) = group := by
  rcases columnKey_cases group with hkey | ⟨hkey, -, hmark⟩
  · rw [hkey, columnGroup, if_pos (List.isPrefixOf_iff_prefix.mpr (startsWith_columnMark group)),
      String.toList_append, List.drop_left, String.ofList_toList]
  · rw [hkey, columnGroup, if_neg (mt List.isPrefixOf_iff_prefix.mp hmark)]

/-- Names that look like marked ones are marked once more. -/
example : ["activity", "group:", "group:activity", "", "Admins"].map columnKey =
    ["group:activity", "group:group:", "group:group:activity", "", "Admins"] := by decide

theorem columnKey_injective : Function.Injective columnKey := fun g g' h => by
  rw [← columnGroup_columnKey g, h, columnGroup_columnKey g']

/-- No column stands under the name of a field. -/
theorem columnKey_not_mem (group : String) : columnKey group ∉ raciRowFields := by
  rcases columnKey_cases group with hkey | ⟨hkey, hfield, -⟩
  · rw [hkey]
    intro h
    have hmark : ∀ field ∈ raciRowFields, ¬ columnMark.toList <+: field.toList := by decide
    exact hmark _ h (startsWith_columnMark group)
  · rw [hkey]
    exact hfield

/-! ### Rows -/

instance : LawfulWire RaciRole := ⟨fun r => by cases r <;> decide⟩

/-- An entry that is no field of a row is read as a column. -/
theorem RaciRowEntries.read?_column (r : RaciRowEntries) (group : String) (role : Option RaciRole) :
    r.read? (columnKey group, role.elim .null toJson) =
      some { r with roles := r.roles ++ [(group, role)] } := by
  have hkey := columnKey_not_mem group
  have hrole : orNull? (ofJson? : Json → Option RaciRole) (role.elim .null toJson) = some role := by
    rcases role with _ | role
    · rfl
    · cases role <;> decide
  simp only [raciRowFields, List.mem_cons, List.not_mem_nil, or_false, not_or] at hkey
  simp [RaciRowEntries.read?, hkey, hrole, columnGroup_columnKey]

theorem RaciRowEntries.foldlM_read?_columns (columns : List (String × Option RaciRole)) :
    ∀ r : RaciRowEntries,
    (columns.map fun c => (columnKey c.1, c.2.elim .null toJson)).foldlM RaciRowEntries.read? r =
      some { r with roles := r.roles ++ columns } := by
  induction columns with
  | nil => intro r; simp
  | cons c columns ih =>
    intro r
    rw [List.map_cons, List.foldlM_cons, RaciRowEntries.read?_column]
    simp [ih]

/-- The fields of a row are read, with or without a category. -/
theorem RaciRowEntries.foldlM_read?_fields (activity : String) (category : Option String)
    (requiredPermissions : List String) :
    ([("activity", Json.str activity)] ++ entryOfSome "category" .str category
      ++ [("required_permissions", toJson requiredPermissions)]).foldlM RaciRowEntries.read? {} =
      some ⟨some activity, category, some requiredPermissions, []⟩ := by
  have hlist : asList? asString? (toJson requiredPermissions) = some requiredPermissions :=
    mapM_ofJson?_toJson requiredPermissions
  cases category with
  | none => simp [entryOfSome, RaciRowEntries.read?, asString?, hlist]
  | some category => simp [entryOfSome, RaciRowEntries.read?, asString?, orNull?, hlist]

/-- Its columns are read behind its fields. -/
instance : LawfulWire RaciRow where
  ofJson?_toJson r := by
    obtain ⟨activity, category, requiredPermissions, roles⟩ := r
    show (List.foldlM RaciRowEntries.read? {} (_ ++ _ ++ _ ++ _)).bind _ = _
    rw [List.foldlM_append, RaciRowEntries.foldlM_read?_fields]
    show (List.foldlM RaciRowEntries.read? _ _).bind _ = _
    rw [RaciRowEntries.foldlM_read?_columns]
    rfl

theorem fits_toJson_strings (room : Nat) (ss : List String) : Fits (room + 1) (toJson ss) :=
  fits_toJson_list fun s _ => fits_str s

theorem fits_toJson_row (room : Nat) (r : RaciRow) : Fits (room + 2) (toJson r) := by
  obtain ⟨activity, category, requiredPermissions, roles⟩ := r
  have hcategory : ∀ e ∈ entryOfSome "category" Json.str category, Fits (room + 1) e.2 := by
    cases category <;> simp [entryOfSome]
  have hcell : ∀ role : Option RaciRole, Fits (room + 1) (role.elim .null toJson) := by
    rintro (_ | _)
    · exact fits_null
    · exact fits_str _
  intro e he
  simp only [List.mem_append, List.mem_singleton, List.mem_map] at he
  rcases he with ((rfl | he) | rfl) | ⟨c, -, rfl⟩
  · exact fits_str _
  · exact hcategory e he
  · exact fits_toJson_strings room requiredPermissions
  · exact hcell c.2

/-! ### Matrices -/

instance : LawfulWire GovernanceMatrix where
  ofJson?_toJson m := by
    obtain ⟨template, description, activities, entities, rows⟩ := m
    have hactivities := ofJson?_toJson activities
    have hentities := ofJson?_toJson entities
    have hrows := ofJson?_toJson rows
    show (ofJson? (toJson activities)).bind _ = _
    rw [hactivities]
    show (ofJson? (toJson entities)).bind _ = _
    rw [hentities]
    show (ofJson? (toJson rows)).bind _ = _
    rw [hrows]
    rfl

theorem fits_toJson_matrix (room : Nat) (m : GovernanceMatrix) : Fits (room + 4) (toJson m) := by
  have hrows : Fits (room + 3) (toJson m.rows) :=
    fits_toJson_list fun r _ => fits_toJson_row room r
  intro e he
  simp only [List.mem_cons, List.not_mem_nil, or_false] at he
  rcases he with rfl | rfl | rfl | rfl | rfl
  · exact fits_str _
  · exact fits_str _
  · exact fits_toJson_strings (room + 2) m.activities
  · exact fits_toJson_strings (room + 2) m.entities
  · exact hrows

/-- **Rows and matrices are read back** from their texts as they were, columns in the same order;
every group has a column of its own, under the name of no field. -/
theorem raci_read_back :
    (∀ r : RaciRow, ofText? (toText r) = some r) ∧
    (∀ m : GovernanceMatrix, ofText? (toText m) = some m) ∧
    (∀ group, columnKey group ∉ ["activity", "category", "required_permissions"]) ∧
    Function.Injective columnKey :=
  ⟨fun r => ofText?_toText (fits_toJson_row 125 r),
    fun m => ofText?_toText (fits_toJson_matrix 123 m), columnKey_not_mem, columnKey_injective⟩

end Entitlements
