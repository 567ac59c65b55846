import Entitlements.Json.Parser
import Entitlements.Json.Printer

/-! # Records in JSON

How the library's records are written and read. A record is written as an object with its fields
in order. It is read from an object, in any order and with further entries left aside, or from an
array of its fields in order (`Json.fields?`); a field may not be given twice. A type's two
directions are the class `Wire`. -/

namespace Entitlements

/-- Types with a JSON form. -/
class Wire (α : Type) where
  /-- The value as JSON. -/
  toJson : α → Json
  /-- The value that a JSON value stands for. -/
  ofJson? : Json → Option α

export Wire (toJson ofJson?)

namespace Json

/-! ### Reading -/

/-- The name of a variant without data: its name alone, or an object with `null` under its name. -/
def variant? : Json → Option String
  | .str s => some s
  | .obj [(s, .null)] => some s
  | _ => none

/-- The name of a variant without data inside a tagged record, where an empty object also counts
as no data. -/
def taggedVariant? : Json → Option String
  | .obj [(s, .obj [])] => some s
  | j => j.variant?

/-- A string. -/
def asString? : Json → Option String
  | .str s => some s
  | _ => none

/-- A truth value. -/
def asBool? : Json → Option Bool
  | .bool b => some b
  | _ => none

/-- A natural number below `2 ^ width`. -/
def asNat? (width : Nat) : Json → Option Nat
  | .int n => if 0 ≤ n && n < Nat.pow 2 width then some n.toNat else none
  | _ => none

/-- The items of an array. -/
def asList? {α : Type} (item : Json → Option α) : Json → Option (List α)
  | .arr items => items.mapM item
  | _ => none

/-- A value, or `null` for none. -/
def orNull? {α : Type} (value : Json → Option α) : Json → Option (Option α)
  | .null => some none
  | j => (value j).map some

/-- The name of a field, with the other names under which it is accepted. -/
structure FieldName where
  name : String
  aliases : List String

instance : Coe String FieldName := ⟨fun s => ⟨s, []⟩⟩

/-- Whether `key` is one of the names of the field. -/
def FieldName.accepts (f : FieldName) (key : String) : Bool :=
  f.name == key || f.aliases.contains key

/-- The values found for the fields of a record. -/
structure Fields where
  /-- Whether the record is an array of its fields. -/
  positional : Bool
  /-- The values, under the names of the fields. -/
  values : List (String × Json)

/-- The values of an object's entries for the named fields, unless one is given twice. -/
def namedFields? (names : List FieldName) : List (String × Json) → Option (List (String × Json))
  | [] => some []
  | (key, j) :: entries => do
    let found ← namedFields? names entries
    match names.find? (·.accepts key) with
    | none => some found
    | some f => if found.any (·.1 == f.name) then none else some ((f.name, j) :: found)

/-- The values of a record's fields. -/
def fields? (names : List FieldName) : Json → Option Fields
  | .obj entries => (namedFields? names entries).map (⟨false, ·⟩)
  | .arr items =>
    if items.length ≤ names.length then some ⟨true, (names.map (·.name)).zip items⟩ else none
  | _ => none

namespace Fields

variable {α : Type} (fields : Fields) (name : String) (read : Json → Option α)

/-- A field that has to be given. -/
def required : Option α := do read (← fields.values.lookup name)

/-- A field that stands for `default` when it is not given. -/
def orDefault (default : α) : Option α :=
  match fields.values.lookup name with
  | none => some default
  | some j => read j

/-- A field that may be missing or `null`. -/
def optional : Option (Option α) :=
  match fields.values.lookup name with
  | none => some none
  | some j => orNull? read j

/-- A field that may be `null`, and missing from an object but not from an array. -/
def nullable : Option (Option α) :=
  match fields.values.lookup name with
  | none => if fields.positional then none else some none
  | some j => orNull? read j

end Fields

/-! ### Writing -/

/-- The entry of a field that is left out when it has no value. -/
def entryOfSome {α : Type} (name : String) (write : α → Json) : Option α → List (String × Json)
  | none => []
  | some a => [(name, write a)]

/-- A natural number. -/
def ofNat (n : Nat) : Json := .int n

end Json

/-! ### Basic types -/

instance : Wire String := ⟨.str, Json.asString?⟩

instance : Wire Bool := ⟨.bool, Json.asBool?⟩

/-- A status is a number of 16 bits. -/
instance : Wire UInt16 :=
  ⟨fun n => .ofNat n.toNat, fun j => (Json.asNat? 16 j).map UInt16.ofNat⟩

instance {α : Type} [Wire α] : Wire (List α) :=
  ⟨fun xs => .arr (xs.map toJson), Json.asList? ofJson?⟩

/-- Values of free form are read in canonical form. -/
instance : Wire Json := ⟨id, Json.canonical?⟩

/-- The value that a text stands for. -/
def ofText? {α : Type} [Wire α] (s : String) : Option α := do ofJson? (← Json.parse? s)

/-- The compact text of a value. -/
def toText {α : Type} [Wire α] (a : α) : String := (toJson a).render

end Entitlements
