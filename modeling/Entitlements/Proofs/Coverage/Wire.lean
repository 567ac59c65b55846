import Entitlements.Proofs.Coverage.Matrix
import Entitlements.Proofs.Responsibility.Wire
import Entitlements.Proofs.Wire.Reports

/-! # Coverage matrices on the wire

A row is one flat object in which the cells stand beside the name and the id of the entity. Columns
are keys of declarations, which start with an effect, so that no column stands under the name of a
field whatever the actions are (`PermissionStatement.key_not_mem`). The matrices of an account are
read back from their JSON form, its canonical form and its text (`coverage_read_back`). -/

namespace Entitlements

open Json

/-! ### Cells -/

/-- The entry of a cell. -/
def cellEntry (c : String × Bool) : String × Json := (c.1, .bool c.2)

/-- Whether a key stands for a field of a row. -/
def isRowField (key : String) : Bool := rowFields.any (·.accepts key)

theorem isRowField_iff {key : String} :
    isRowField key = true ↔ key ∈ ["entity_name", "entity_id"] := by
  simp [isRowField, rowFields, FieldName.accepts, @eq_comm _ key]

/-- The cells that are read are the entries under other names. -/
theorem cellsOf?_eq_some_iff {entries : List (String × Json)} {cells : List (String × Bool)} :
    cellsOf? entries = some cells ↔
      entries.filter (fun e => !isRowField e.1) = cells.map cellEntry := by
  have hcell : ∀ (e : String × Json) (c : String × Bool),
      (do return (e.1, ← asBool? e.2)) = some c ↔ e = cellEntry c := by
    rintro ⟨k, j⟩ ⟨k', b⟩
    cases j <;> simp [asBool?, cellEntry]
  show List.mapM _ _ = _ ↔ _
  simp only [mapM_eq_some_iff_forall₂, hcell]
  rw [← List.forall₂_map_right_iff, List.forall₂_eq_eq_eq]
  rfl

theorem cellsOf?_sortEntries {entries : List (String × Json)} {cells : List (String × Bool)}
    (h : cellsOf? entries = some cells) :
    cellsOf? (sortEntries entries) = some (sortEntries cells) := by
  rw [cellsOf?_eq_some_iff] at h ⊢
  rw [filter_sortEntries (fun k => !isRowField k), h]
  exact sortEntries_map_values Json.bool cells

/-- Cells are canonical. -/
theorem cellsOf?_of_canonicalEntry {es es' : List (String × Json)} {cells : List (String × Bool)}
    (hes : List.Forall₂ CanonicalEntry es es') (h : cellsOf? es = some cells) :
    cellsOf? es' = some cells := by
  rw [cellsOf?_eq_some_iff] at h ⊢
  have hfilter := List.rel_filter (p := fun e => !isRowField e.1) (q := fun e => !isRowField e.1)
    (fun e e' (he : CanonicalEntry e e') => by simp only [he.1]) hes
  rw [h, List.forall₂_map_left_iff] at hfilter
  have hentry : ∀ c e, CanonicalEntry (cellEntry c) e → e = cellEntry c := fun c e he =>
    Prod.ext he.1 (Option.some.inj he.2).symm
  rw [← List.forall₂_eq_eq_eq, List.forall₂_map_right_iff]
  exact (hfilter.imp hentry).flip

/-! ### Rows -/

/-- What is read of a row, its fields first. -/
theorem ofJson?_row (entries : List (String × Json)) :
    (ofJson? (.obj entries) : Option MatrixRow) =
      (Json.obj entries).fields? rowFields >>= fun f => do
        return ⟨← f.required "entity_name" asString?, ← f.required "entity_id" asString?,
          sortEntries (← cellsOf? entries)⟩ := by
  show (namedFields? rowFields entries).bind _ = ((namedFields? rowFields entries).map _).bind _
  cases namedFields? rowFields entries <;> rfl

theorem stable_row : Stable (ofJson? : Json → Option MatrixRow) := by
  intro j j' r hj hr
  cases j with
  | obj entries =>
    obtain ⟨entries', hentries, rfl⟩ := Option.map_eq_some_iff.mp hj
    rw [ofJson?_row, Option.bind_eq_bind, Option.bind_eq_some_iff] at hr ⊢
    obtain ⟨f, hf, hr⟩ := hr
    obtain ⟨f', hf', hcanonical⟩ := exists_fields?_of_canonical? hj hf
    obtain ⟨name, hname, hr⟩ := Option.bind_eq_some_iff.mp hr
    obtain ⟨id, hid, hr⟩ := Option.bind_eq_some_iff.mp hr
    obtain ⟨cells, hcells, hr⟩ := Option.bind_eq_some_iff.mp hr
    -- The cells stay when values are brought into canonical form, and are sorted with the entries.
    have hcells' := cellsOf?_sortEntries
      (cellsOf?_of_canonicalEntry (canonicalEntries?_eq_some_iff.mp hentries) hcells)
    refine ⟨f', hf', Option.bind_eq_some_iff.mpr ⟨name,
      StableFields.required stable_asString? _ hcanonical hname,
      Option.bind_eq_some_iff.mpr ⟨id,
        StableFields.required stable_asString? _ hcanonical hid,
        Option.bind_eq_some_iff.mpr ⟨_, hcells', ?_⟩⟩⟩⟩
    rwa [sortEntries_eq_self (pairwise_keys_sortEntries cells)]
  | _ => exact absurd hr nofun

/-- A row as it is made: its columns are in order, and none of them stands under the name of a
field. -/
structure MatrixRow.Kept (r : MatrixRow) : Prop where
  sorted : (r.cells.map Prod.fst).Pairwise (· < ·)
  columns : ∀ k ∈ r.cells.map Prod.fst, k ∉ ["entity_name", "entity_id"]

namespace MatrixRow

/-- The entries of a row in front of its cells. -/
def fieldEntries (r : MatrixRow) : List (String × Json) :=
  [("entity_name", .str r.entityName), ("entity_id", .str r.entityId)]

variable {r : MatrixRow} (h : r.Kept)
include h

theorem Kept.isRowField_cell {e : String × Json} (he : e ∈ r.cells.map cellEntry) :
    isRowField e.1 = false := by
  obtain ⟨c, hc, rfl⟩ := List.mem_map.mp he
  rw [← Bool.not_eq_true, isRowField_iff]
  exact h.columns c.1 (List.mem_map_of_mem hc)

theorem Kept.fields?_toJson : (toJson r).fields? rowFields = some ⟨false, r.fieldEntries⟩ := by
  have hcells : named rowFields (r.cells.map cellEntry) = [] := by
    refine List.filterMap_eq_nil_iff.mpr fun e he => ?_
    have hnone : rowFields.find? (·.accepts e.1) = none :=
      List.find?_eq_none.mpr (List.any_eq_false.mp (h.isRowField_cell he))
    rw [fieldOf?, hnone]
    rfl
  have hnamed : named rowFields (r.fieldEntries ++ r.cells.map cellEntry) = r.fieldEntries := by
    rw [named, List.filterMap_append, ← named, ← named, hcells]
    rfl
  refine fields?_obj_eq_some_iff.mpr ?_
  show ((named rowFields (r.fieldEntries ++ r.cells.map cellEntry)).map Prod.fst).Nodup ∧
    _ = Fields.mk false (named rowFields (r.fieldEntries ++ r.cells.map cellEntry))
  rw [hnamed]
  exact ⟨by simp [fieldEntries], rfl⟩

theorem Kept.cellsOf?_toJson :
    cellsOf? (r.fieldEntries ++ r.cells.map cellEntry) = some r.cells := by
  have hfields : r.fieldEntries.filter (fun e => !isRowField e.1) = [] := rfl
  rw [cellsOf?_eq_some_iff, List.filter_append, hfields, List.nil_append, List.filter_eq_self]
  intro e he
  rw [h.isRowField_cell he]
  rfl

/-- **A row is read back** when its columns are told from its fields. -/
theorem Kept.ofJson?_toJson : ofJson? (toJson r) = some r := by
  refine (ofJson?_row _).trans <| record_eq_some h.fields?_toJson <|
    required_bind_eq_some rfl rfl <| required_bind_eq_some rfl rfl <|
    Option.bind_eq_some_iff.mpr ⟨_, h.cellsOf?_toJson, ?_⟩
  rw [sortEntries_eq_self h.sorted]
  rfl

omit h in
theorem readable_toJson (r : MatrixRow) : (toJson r).Readable := by
  refine readable_obj.mpr (readableEntries_append.mpr ⟨by simp, ?_⟩)
  exact List.forall_mem_map.mpr fun c _ => ⟨_, rfl⟩

omit h in
theorem fits_toJson (room : Nat) (r : MatrixRow) : Fits (room + 1) (toJson r) := by
  intro e he
  rcases List.mem_append.mp he with he | he
  · simp only [List.mem_cons, List.not_mem_nil, or_false] at he
    rcases he with rfl | rfl
    · exact fits_str _
    · exact fits_str _
  · obtain ⟨c, -, rfl⟩ := List.mem_map.mp he
    exact fits_bool c.2

end MatrixRow

/-! ### Matrices -/

instance : CanonicalWire MatrixKind where
  ofJson?_toJson k := by cases k <;> decide
  readable_toJson k := readable_str k.name
  stable := stable_variant?.bind _

/-- A matrix as it is made: its rows are, and its numbers are of 64 bits. -/
structure CoverageMatrix.Kept (m : CoverageMatrix) : Prop where
  rows : ∀ r ∈ m.rows, r.Kept
  entityCount : m.entityCount < Nat.pow 2 64
  permissionCount : m.permissionCount < Nat.pow 2 64

theorem CoverageMatrix.Kept.readBack {m : CoverageMatrix} (h : m.Kept) : ReadBack m := by
  refine readBack_of_stable ?_ (readable_obj.mpr ?_) ?_
  · exact stable_record <| .bind (.required stable _) fun _ => .bind (.required stable _) fun _ =>
      .bind (.required stable _) fun _ => .bind (.required (stable_asList? stable_row) _) fun _ =>
      .bind (.required (stable_asNat? 64) _) fun _ =>
      .bind (.required (stable_asNat? 64) _) fun _ => .const _
  · have hrows : (toJson m.rows).Readable :=
      readable_arr.mpr <| List.forall_mem_map.mpr fun r _ => r.readable_toJson
    simp [hrows]
  · exact record_eq_some rfl <| required_bind_eq_some rfl (ofJson?_toJson m.kind) <|
      required_bind_eq_some rfl (ofJson?_toJson m.permissions) <|
      required_bind_eq_some rfl (ofJson?_toJson m.entities) <|
      required_bind_eq_some rfl (ofJson?_toJson_list fun r hr => (h.rows r hr).ofJson?_toJson) <|
      required_bind_eq_some rfl (asNat?_ofNat h.entityCount) <|
      required_bind_eq_some rfl (asNat?_ofNat h.permissionCount) rfl

theorem fits_ofNat {room n : Nat} (h : n < Nat.pow 2 64) : Fits room (.ofNat n) :=
  fits_int.mpr ⟨(Int.neg_nonpos_of_nonneg (Int.natCast_nonneg _)).trans (Int.natCast_nonneg n),
    Int.ofNat_lt.mpr h⟩

theorem CoverageMatrix.Kept.fits_toJson {m : CoverageMatrix} (h : m.Kept) (room : Nat) :
    Fits (room + 3) (toJson m) := by
  have hrows : Fits (room + 2) (toJson m.rows) := fits_toJson_list fun r _ => r.fits_toJson room
  intro e he
  simp only [List.mem_cons, List.not_mem_nil, or_false] at he
  rcases he with rfl | rfl | rfl | rfl | rfl | rfl
  · exact fits_str _
  · exact fits_toJson_strings (room + 1) m.permissions
  · exact fits_toJson_strings (room + 1) m.entities
  · exact hrows
  · exact fits_ofNat h.entityCount
  · exact fits_ofNat h.permissionCount

/-! ### The matrices of an account -/

/-- **No key stands under the name of a field**, for it starts with an effect. -/
theorem PermissionStatement.key_not_mem (p : PermissionStatement) :
    p.key ∉ ["entity_name", "entity_id"] := by
  obtain ⟨effect, action, conditions, description⟩ := p
  intro hmem
  have hhead : ∀ field ∈ ["entity_name", "entity_id"], field.toList.head? = some 'e' := by decide
  have hkey := hhead _ hmem
  cases effect <;> simp [key, Effect.keyword] at hkey

/-- Entities with keys of declarations make a matrix that is kept. -/
theorem CoverageMatrix.kept_rows_build {kind : MatrixKind} {entities : List CoveredEntity}
    (h : ∀ e ∈ entities, ∀ k ∈ e.keys, ∃ p : PermissionStatement, p.key = k) :
    ∀ r ∈ (build kind entities).rows, r.Kept := by
  intro r hr
  obtain ⟨e, he, rfl⟩ := List.mem_map.mp hr
  have hcolumns : ((e.row (columnsOf entities)).cells.map Prod.fst) = (columnsOf entities).toList :=
    (CoveredEntity.hasRow_row fun k hk => mem_columnsOf.mpr ⟨e, he, hk⟩).cells
  constructor
  · rw [hcolumns]
    exact (columnsOf entities).sorted
  · rw [hcolumns]
    intro k hk
    obtain ⟨e', he', hk⟩ := mem_columnsOf.mp hk
    obtain ⟨p, rfl⟩ := h e' he' k hk
    exact p.key_not_mem

theorem exists_key_of_mem_keysOf {statement k : String} (h : k ∈ keysOf statement) :
    ∃ p : PermissionStatement, p.key = k := by
  obtain ⟨p, -, rfl⟩ := List.mem_map.mp h
  exact ⟨p, rfl⟩

namespace Directory

variable {σ : Type} (d : Directory σ)

theorem kept_rows {s s' : σ} {m : CoverageMatrix}
    (h : d.policyMatrix.call s = (.ok m, s') ∨ d.groupMatrix.call s = (.ok m, s')) :
    ∀ r ∈ m.rows, r.Kept := by
  rcases h with h | h
  · obtain ⟨listed, fetched, _, _, _, rfl⟩ := (call_policyMatrix_eq_ok_iff d).mp h
    refine CoverageMatrix.kept_rows_build fun e he k hk => ?_
    obtain ⟨p, _, rfl⟩ := List.mem_map.mp he
    exact exists_key_of_mem_keysOf (KeySet.mem_ofList.mp hk)
  · obtain ⟨groups, mets, _, _, _, rfl⟩ := call_groupMatrix_eq_ok_iff.mp h
    refine CoverageMatrix.kept_rows_build fun e he k hk => ?_
    obtain ⟨p, _, rfl⟩ := List.mem_map.mp he
    obtain ⟨b, _, hk⟩ := List.mem_flatMap.mp (KeySet.mem_ofList.mp hk)
    exact exists_key_of_mem_keysOf hk

/-- **The matrices of an account are read back** as they were, from their JSON form, the canonical
form of it and their text: no column stands under the name of a field, whatever the policies
declare. The numbers of rows and columns have to be of 64 bits. -/
theorem coverage_read_back {s s' : σ} {m : CoverageMatrix}
    (h : d.policyMatrix.call s = (.ok m, s') ∨ d.groupMatrix.call s = (.ok m, s'))
    (hentities : m.entityCount < Nat.pow 2 64) (hpermissions : m.permissionCount < Nat.pow 2 64) :
    ReadBack m ∧ ofText? (toText m) = some m ∧
    ∀ r ∈ m.rows, ∀ c ∈ r.cells, c.1 ∉ ["entity_name", "entity_id"] := by
  have hkept : m.Kept := ⟨d.kept_rows h, hentities, hpermissions⟩
  refine ⟨hkept.readBack, ?_, fun r hr c hc => ?_⟩
  · exact (ofText?_toText_eq (hkept.fits_toJson 124)).trans hkept.readBack.1
  · exact (hkept.rows r hr).columns c.1 (List.mem_map_of_mem hc)

end Directory

/-- A policy and a group that are called like the fields of a row, as are the actions. -/
def MemoryDirectory.fieldLike : MemoryDirectory where
  account := "account"
  groups := [⟨"entity_id", "entity_name", none, none⟩]
  policies := [⟨"entity_name", "entity_id", none,
    some "ALLOW entity_name, entity_id; DENY entity_name"⟩]
  bindings := [{ policyUuid := "entity_name", groupUuid := "entity_id" }]

/-- Both matrices have three columns, and are read back. -/
theorem MemoryDirectory.fieldLike_read_back : ∃ m m',
    fieldLike.directory.policyMatrix.call 0 = (.ok m, 2) ∧
    fieldLike.directory.groupMatrix.call 0 = (.ok m', 3) ∧
    m.permissions = ["ALLOW:entity_id", "ALLOW:entity_name", "DENY:entity_name"] ∧
    m'.permissions = m.permissions ∧
    (ReadBack m ∧ ofText? (toText m) = some m) ∧ ReadBack m' ∧ ofText? (toText m') = some m' := by
  have hpolicies : fieldLike.directory.policyMatrix.call 0 = (.ok _, 2) := rfl
  have hgroups : fieldLike.directory.groupMatrix.call 0 = (.ok _, 3) := rfl
  obtain ⟨hread, htext, -⟩ := fieldLike.directory.coverage_read_back (.inl hpolicies)
    (by decide +kernel) (by decide +kernel)
  obtain ⟨hread', htext', -⟩ := fieldLike.directory.coverage_read_back (.inr hgroups)
    (by decide +kernel) (by decide +kernel)
  exact ⟨_, _, hpolicies, hgroups, by decide +kernel, by decide +kernel, ⟨hread, htext⟩,
    hread', htext'⟩

end Entitlements
