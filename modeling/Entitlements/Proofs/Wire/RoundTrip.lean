import Entitlements.Directory.Record
import Entitlements.Proofs.Json.Text

/-! # Round trips of records

What is written as JSON is read back as it was (`LawfulWire`). This holds of the records that a
directory returns, and of lists of them. What fits into a text is read back from its text
(`ofText?_toText`). -/

namespace Entitlements

/-- Types whose values are read back from their JSON form. -/
class LawfulWire (α : Type) [Wire α] : Prop where
  ofJson?_toJson (a : α) : ofJson? (toJson a) = some a

export LawfulWire (ofJson?_toJson)

/-- A list is read back when its items are. -/
theorem ofJson?_toJson_list {α : Type} [Wire α] : ∀ {xs : List α},
    (∀ x ∈ xs, ofJson? (toJson x) = some x) → ofJson? (toJson xs) = some xs
  | [], _ => rfl
  | x :: xs, h => by
    obtain ⟨hx, hxs⟩ := List.forall_mem_cons.mp h
    have htail : (xs.map toJson).mapM (ofJson? : Json → Option α) = some xs :=
      ofJson?_toJson_list hxs
    show ((x :: xs).map toJson).mapM ofJson? = _
    rw [List.map_cons, List.mapM_cons, hx, htail]
    rfl

theorem mapM_ofJson?_toJson {α : Type} [Wire α] [LawfulWire α] (xs : List α) :
    (xs.map toJson).mapM (ofJson? : Json → Option α) = some xs :=
  ofJson?_toJson_list fun x _ => ofJson?_toJson x

instance : LawfulWire String := ⟨fun _ => rfl⟩

instance {α : Type} [Wire α] [LawfulWire α] : LawfulWire (List α) := ⟨mapM_ofJson?_toJson⟩

/-- A list takes room for one container more than its items. -/
theorem fits_toJson_list {α : Type} [Wire α] {room : Nat} {xs : List α}
    (h : ∀ x ∈ xs, (toJson x).Fits room) : (toJson xs).Fits (room + 1) := by
  intro j hj
  obtain ⟨x, hx, rfl⟩ := List.mem_map.mp hj
  exact h x hx

/-- What fits is read from its text as it is read from its JSON form. -/
theorem ofText?_toText_eq {α : Type} [Wire α] {a : α} (h : (toJson a).Fits Json.maxDepth) :
    ofText? (toText a) = (ofJson? (toJson a) : Option α) := by
  rw [ofText?, toText, Json.parse?_render h]
  rfl

/-- A record comes back from its text. -/
theorem ofText?_toText {α : Type} [Wire α] [LawfulWire α] {a : α}
    (h : (toJson a).Fits Json.maxDepth) : ofText? (toText a) = some a :=
  (ofText?_toText_eq h).trans (ofJson?_toJson a)

/-! ### Records of a directory -/

instance : LawfulWire Group where
  ofJson?_toJson
    | ⟨_, _, none, none⟩ => rfl
    | ⟨_, _, none, some _⟩ => rfl
    | ⟨_, _, some _, none⟩ => rfl
    | ⟨_, _, some _, some _⟩ => rfl

instance : LawfulWire User where
  ofJson?_toJson
    | ⟨_, _, none, none⟩ => rfl
    | ⟨_, _, none, some _⟩ => rfl
    | ⟨_, _, some _, none⟩ => rfl
    | ⟨_, _, some _, some _⟩ => rfl

instance : LawfulWire Policy where
  ofJson?_toJson
    | ⟨_, _, none, none⟩ => rfl
    | ⟨_, _, none, some _⟩ => rfl
    | ⟨_, _, some _, none⟩ => rfl
    | ⟨_, _, some _, some _⟩ => rfl

/-- The boundaries of a binding are a list of their own. -/
instance : LawfulWire Binding where
  ofJson?_toJson b := by
    obtain ⟨policyUuid, groupUuid, boundaries, levelType, levelId⟩ := b
    have hlist : Json.asList? Json.asString? (toJson boundaries) = some boundaries :=
      mapM_ofJson?_toJson boundaries
    show (Json.asList? Json.asString? (toJson boundaries)).bind _ = _
    rw [hlist]
    rfl

end Entitlements
