import Entitlements.Proofs.Json.Fields
import Entitlements.Proofs.Wire.RoundTrip
import Entitlements.Review.Audit
import Entitlements.Review.Resolution

/-! # Reports on the wire

Reports are read back from their JSON form, and from the canonical form of that, whichever of their
optional fields are present (`ReadBack`). The parts of reports are read back whatever they are
(`CanonicalWire`), the reports themselves when their numbers are of 64 bits. -/

namespace Entitlements

open Json

/-- Types whose values are read back from their JSON form and from the canonical form of it. -/
class CanonicalWire (α : Type) [Wire α] : Prop extends LawfulWire α where
  readable_toJson (a : α) : (toJson a).Readable
  stable : Stable (ofJson? : Json → Option α)

export CanonicalWire (readable_toJson stable)

attribute [simp] CanonicalWire.readable_toJson

/-- Whether a value is read back from its JSON form and from the canonical form of it. -/
def ReadBack {α : Type} [Wire α] (a : α) : Prop :=
  ofJson? (toJson a) = some a ∧ ∃ j, (toJson a).canonical? = some j ∧ ofJson? j = some a

theorem readBack_of_stable {α : Type} [Wire α] {a : α}
    (hstable : Stable (ofJson? : Json → Option α)) (hreadable : (toJson a).Readable)
    (h : ofJson? (toJson a) = some a) : ReadBack a := by
  obtain ⟨j, hj⟩ := hreadable
  exact ⟨h, j, hj, hstable hj h⟩

theorem readBack {α : Type} [Wire α] [CanonicalWire α] (a : α) : ReadBack a :=
  readBack_of_stable stable (readable_toJson a) (ofJson?_toJson a)

/-! ### Parts of reports -/

instance : CanonicalWire String where
  readable_toJson := readable_str
  stable := stable_asString?

instance {α : Type} [Wire α] [CanonicalWire α] : CanonicalWire (List α) where
  readable_toJson _ := readable_arr.mpr <| List.forall_mem_map.mpr fun a _ => readable_toJson a
  stable := stable_asList? stable

theorem asNat?_ofNat {width n : Nat} (h : n < Nat.pow 2 width) :
    asNat? width (.ofNat n) = some n := by
  have hfits : (0 ≤ (n : Int) && (n : Int) < Nat.pow 2 width) = true := by
    simp only [Bool.and_eq_true, decide_eq_true_eq]
    exact ⟨Int.natCast_nonneg n, Int.ofNat_lt.mpr h⟩
  rw [Json.ofNat, asNat?, if_pos hfits]
  rfl

@[simp] theorem readable_ofNat (n : Nat) : (Json.ofNat n).Readable := readable_int n

instance : CanonicalWire UInt16 where
  ofJson?_toJson n := by
    show (asNat? 16 (.ofNat n.toNat)).map UInt16.ofNat = some n
    rw [asNat?_ofNat n.toNat_lt]
    simp
  readable_toJson n := readable_ofNat n.toNat
  stable := (stable_asNat? 16).map _

instance : CanonicalWire Effect where
  ofJson?_toJson e := by cases e <;> decide
  readable_toJson e := readable_str e.keyword
  stable := stable_variant?.bind _

instance : CanonicalWire EntityType where
  ofJson?_toJson t := by cases t <;> decide
  readable_toJson t := readable_str t.name
  stable := stable_variant?.bind _

instance : CanonicalWire PermissionStatement where
  ofJson?_toJson
    | ⟨effect, _, none, _⟩ => by cases effect <;> rfl
    | ⟨effect, _, some _, _⟩ => by cases effect <;> rfl
  readable_toJson p := readable_obj.mpr (by simp)
  -- Here as below, one step for each field in the order in which they are read.
  stable := stable_record <| .bind (.required stable _) fun _ =>
    .bind (.required stable_asString? _) fun _ => .bind (.optional stable_asString? _) fun _ =>
    .bind (.required stable_asString? _) fun _ => .const _

instance : CanonicalWire PermissionSource where
  ofJson?_toJson
    | ⟨none, _, none⟩ => rfl
    | ⟨none, _, some _⟩ => rfl
    | ⟨some _, _, none⟩ => rfl
    | ⟨some _, _, some _⟩ => rfl
  readable_toJson s := readable_obj.mpr (by simp)
  stable := stable_record <| .bind (.optional stable_asString? _) fun _ =>
    .bind (.required stable_asString? _) fun _ => .bind (.optional stable_asString? _) fun _ =>
    .const _

instance : CanonicalWire EffectivePermission where
  ofJson?_toJson p := record_eq_some rfl <| required_bind_eq_some rfl (ofJson?_toJson p.effect) <|
    required_bind_eq_some rfl rfl <| required_bind_eq_some rfl rfl <|
    required_bind_eq_some rfl (ofJson?_toJson p.sources) rfl
  readable_toJson p := readable_obj.mpr (by simp)
  stable := stable_record <| .bind (.required stable _) fun _ =>
    .bind (.required stable_asString? _) fun _ => .bind (.required stable_asString? _) fun _ =>
    .bind (.required stable _) fun _ => .const _

instance : CanonicalWire UserRef where
  ofJson?_toJson _ := rfl
  readable_toJson u := readable_obj.mpr (by simp)
  stable := stable_record <| .bind (.required stable_asString? _) fun _ =>
    .bind (.required stable_asString? _) fun _ => .const _

instance : CanonicalWire GroupRef where
  ofJson?_toJson _ := rfl
  readable_toJson g := readable_obj.mpr (by simp)
  stable := stable_record <| .bind (.required stable_asString? _) fun _ =>
    .bind (.required stable_asString? _) fun _ => .const _

instance : CanonicalWire UserBinding where
  ofJson?_toJson b := by
    obtain ⟨groupUuid, groupName, policyUuid, policyName, boundary, permissions⟩ := b
    have hpermissions := ofJson?_toJson permissions
    cases boundary <;>
    exact record_eq_some rfl <| required_bind_eq_some rfl rfl <| required_bind_eq_some rfl rfl <|
      required_bind_eq_some rfl rfl <| required_bind_eq_some rfl rfl <|
      Option.bind_eq_some_iff.mpr ⟨_, rfl, required_bind_eq_some rfl hpermissions rfl⟩
  readable_toJson b := readable_obj.mpr (by simp)
  stable := stable_record <| .bind (.required stable_asString? _) fun _ =>
    .bind (.required stable_asString? _) fun _ => .bind (.required stable_asString? _) fun _ =>
    .bind (.required stable_asString? _) fun _ => .bind (.optional stable_asString? _) fun _ =>
    .bind (.required stable _) fun _ => .const _

instance : CanonicalWire PolicySummary where
  ofJson?_toJson _ := rfl
  readable_toJson p := readable_obj.mpr (by simp)
  stable := stable_record <| .bind (.required stable_asString? _) fun _ =>
    .bind (.required stable_asString? _) fun _ => .bind (.required stable_asString? _) fun _ =>
    .bind (.required stable_asString? _) fun _ => .const _

instance : CanonicalWire BoundGroup where
  ofJson?_toJson
    | ⟨_, _, none⟩ => rfl
    | ⟨_, _, some _⟩ => rfl
  readable_toJson b := readable_obj.mpr (by simp)
  stable := stable_record <| .bind (.required stable_asString? _) fun _ =>
    .bind (.required stable_asString? _) fun _ => .bind (.optional stable_asString? _) fun _ =>
    .const _

instance : CanonicalWire Group where
  readable_toJson g := readable_obj.mpr (by simp)
  stable := stable_record <| .bind (.orDefault stable_asString? _ _) fun _ =>
    .bind (.orDefault stable_asString? _ _) fun _ => .bind (.optional stable_asString? _) fun _ =>
    .bind (.optional stable_asString? _) fun _ => .const _

instance : CanonicalWire User where
  readable_toJson u := readable_obj.mpr (by simp)
  stable := stable_record <| .bind (.orDefault stable_asString? _ _) fun _ =>
    .bind (.orDefault stable_asString? _ _) fun _ => .bind (.optional stable_asString? _) fun _ =>
    .bind (.optional stable_asString? _) fun _ => .const _

instance : CanonicalWire Policy where
  readable_toJson p := readable_obj.mpr (by simp)
  stable := stable_record <| .bind (.orDefault stable_asString? _ _) fun _ =>
    .bind (.orDefault stable_asString? _ _) fun _ => .bind (.optional stable_asString? _) fun _ =>
    .bind (.optional stable_asString? _) fun _ => .const _

instance : CanonicalWire Binding where
  readable_toJson b := readable_obj.mpr (by simp)
  stable := stable_record <| .bind (.orDefault stable_asString? _ _) fun _ =>
    .bind (.orDefault stable_asString? _ _) fun _ =>
    .bind (.orDefault (stable_asList? stable_asString?) _ _) fun _ =>
    .bind (.orDefault stable_asString? _ _) fun _ =>
    .bind (.orDefault stable_asString? _ _) fun _ => .const _

instance : CanonicalWire SoftError where
  ofJson?_toJson e := by
    obtain ⟨error, _ | status⟩ := e
    · rfl
    · have hnull : toJson status ≠ .null := nofun
      exact record_eq_some rfl <| required_bind_eq_some rfl rfl <|
        optional_bind_eq_some rfl hnull (ofJson?_toJson status) rfl
  readable_toJson e := readable_obj.mpr (by simp)
  stable := stable_record <| .bind (.required stable_asString? _) fun _ =>
    .bind (.optional stable _) fun _ => .const _

/-! ### Reports -/

/-- A report as it is kept: its numbers are of 64 bits. -/
structure UserEffectivePermissions.Kept (p : UserEffectivePermissions) : Prop where
  groupCount : p.groupCount < Nat.pow 2 64
  bindingCount : p.bindingCount < Nat.pow 2 64
  permissionCount : p.permissionCount < Nat.pow 2 64

theorem UserEffectivePermissions.Kept.readBack {p : UserEffectivePermissions} (h : p.Kept) :
    ReadBack p := by
  refine readBack_of_stable ?_ (readable_obj.mpr (by simp)) ?_
  · exact stable_record <| .bind (.required stable _) fun _ => .bind (.required stable _) fun _ =>
      .bind (.required (stable_asNat? 64) _) fun _ => .bind (.required stable _) fun _ =>
      .bind (.required (stable_asNat? 64) _) fun _ => .bind (.required stable _) fun _ =>
      .bind (.required (stable_asNat? 64) _) fun _ => .const _
  · exact record_eq_some rfl <| required_bind_eq_some rfl (ofJson?_toJson p.user) <|
      required_bind_eq_some rfl (ofJson?_toJson p.groups) <|
      required_bind_eq_some rfl (asNat?_ofNat h.groupCount) <|
      required_bind_eq_some rfl (ofJson?_toJson p.bindings) <|
      required_bind_eq_some rfl (asNat?_ofNat h.bindingCount) <|
      required_bind_eq_some rfl (ofJson?_toJson p.effectivePermissions) <|
      required_bind_eq_some rfl (asNat?_ofNat h.permissionCount) rfl

/-- A report as it is kept: its numbers are of 64 bits. -/
structure GroupEffectivePermissions.Kept (p : GroupEffectivePermissions) : Prop where
  bindingCount : p.bindingCount < Nat.pow 2 64
  permissionCount : p.permissionCount < Nat.pow 2 64

theorem GroupEffectivePermissions.Kept.readBack {p : GroupEffectivePermissions} (h : p.Kept) :
    ReadBack p := by
  refine readBack_of_stable ?_ (readable_obj.mpr (by simp)) ?_
  · exact stable_record <| .bind (.required stable _) fun _ => .bind (.required stable _) fun _ =>
      .bind (.required (stable_asNat? 64) _) fun _ => .bind (.required stable _) fun _ =>
      .bind (.required (stable_asNat? 64) _) fun _ => .const _
  · exact record_eq_some rfl <| required_bind_eq_some rfl (ofJson?_toJson p.group) <|
      required_bind_eq_some rfl (ofJson?_toJson p.bindings) <|
      required_bind_eq_some rfl (asNat?_ofNat h.bindingCount) <|
      required_bind_eq_some rfl (ofJson?_toJson p.effectivePermissions) <|
      required_bind_eq_some rfl (asNat?_ofNat h.permissionCount) rfl

/-- A report as it is kept: its numbers are of 64 bits. -/
structure PolicyAnalysis.Kept (p : PolicyAnalysis) : Prop where
  permissionCount : p.permissionCount < Nat.pow 2 64
  bindingCount : p.bindingCount < Nat.pow 2 64

theorem PolicyAnalysis.Kept.readBack {p : PolicyAnalysis} (h : p.Kept) : ReadBack p := by
  refine readBack_of_stable ?_ (readable_obj.mpr (by simp)) ?_
  · exact stable_record <| .bind (.required stable _) fun _ => .bind (.required stable _) fun _ =>
      .bind (.required (stable_asNat? 64) _) fun _ => .bind (.required stable _) fun _ =>
      .bind (.required (stable_asNat? 64) _) fun _ => .const _
  · exact record_eq_some rfl <| required_bind_eq_some rfl (ofJson?_toJson p.policy) <|
      required_bind_eq_some rfl (ofJson?_toJson p.permissions) <|
      required_bind_eq_some rfl (asNat?_ofNat h.permissionCount) <|
      required_bind_eq_some rfl (ofJson?_toJson p.bindings) <|
      required_bind_eq_some rfl (asNat?_ofNat h.bindingCount) rfl

/-- A report as it is kept: its number is of 64 bits, and its items are canonical. -/
structure EffectivePermissionsReport.Kept (r : EffectivePermissionsReport) : Prop where
  total : r.total < Nat.pow 2 64
  items : ∀ j ∈ r.items, j.Canonical

theorem EffectivePermissionsReport.Kept.readBack {r : EffectivePermissionsReport} (h : r.Kept) :
    ReadBack r := by
  refine readBack_of_stable ?_ (readable_obj.mpr ?_) ?_
  · exact stable_record <| .bind (.required stable_asString? _) fun _ =>
      .bind (.required stable _) fun _ => .bind (.required stable_asString? _) fun _ =>
      .bind (.required stable_asString? _) fun _ =>
      .bind (.required (stable_asList? stable_canonical?) _) fun _ =>
      .bind (.required (stable_asNat? 64) _) fun _ => .const _
  · have hreadable : (toJson r.items).Readable :=
      readable_arr.mpr <| List.forall_mem_map.mpr fun j hj => (h.items j hj).readable
    simp [hreadable]
  · exact record_eq_some rfl <| required_bind_eq_some rfl rfl <|
      required_bind_eq_some rfl (ofJson?_toJson r.entityType) <| required_bind_eq_some rfl rfl <|
      required_bind_eq_some rfl rfl <| required_bind_eq_some rfl (ofJson?_toJson_list h.items) <|
      required_bind_eq_some rfl (asNat?_ofNat h.total) rfl

end Entitlements
