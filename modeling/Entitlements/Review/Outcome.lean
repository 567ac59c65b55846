import Entitlements.Directory.Basic

/-! # Outcomes

A report that was asked for by a name may not come about because nothing has this name, or because
the platform refuses. Such a failure is an answer of its own: an `Outcome` is the record or a
`SoftError`. On the wire it is the one or the other, and read as a failure if it can be. -/

namespace Entitlements

/-- Why there is no record. -/
structure SoftError where
  error : String
  /-- The status that the failure came with. -/
  statusCode : Option UInt16
  deriving DecidableEq, Repr

namespace SoftError

/-- The failure in words. -/
def display (e : SoftError) : String :=
  match e.statusCode with
  | none => e.error
  | some status => e.error ++ " (status " ++ toString status.toNat ++ ")"

/-- The failure that a directory reports. -/
def ofDirectoryError (e : DirectoryError) : SoftError := ⟨e.message, e.statusCode⟩

end SoftError

/-- A record, or why there is none. -/
inductive Outcome (α : Type) where
  | failed (e : SoftError)
  | found (a : α)
  deriving DecidableEq, Repr

namespace Outcome

variable {α β : Type}

/-- Nothing of this kind has this name. -/
def notFound (kind identifier : String) : Outcome α :=
  .failed ⟨kind ++ " not found: " ++ identifier, none⟩

/-- Whether there is a record. -/
def isFound : Outcome α → Bool
  | failed _ => false
  | found _ => true

/-- The record. -/
def found? : Outcome α → Option α
  | failed _ => none
  | found a => some a

/-- The failure. -/
def failure? : Outcome α → Option SoftError
  | failed e => some e
  | found _ => none

/-- The outcome with another record. -/
def map (f : α → β) : Outcome α → Outcome β
  | failed e => .failed e
  | found a => .found (f a)

/-- The outcome as a result. -/
def toExcept : Outcome α → Except SoftError α
  | failed e => .error e
  | found a => .ok a

/-- The outcome of a call to a directory. -/
def ofExcept : Except DirectoryError α → Outcome α
  | .error e => .failed (.ofDirectoryError e)
  | .ok a => .found a

end Outcome

/-! ### Wire form -/

open Json in
instance : Wire SoftError where
  toJson e := .obj (("error", .str e.error) :: entryOfSome "status_code" toJson e.statusCode)
  ofJson? j := do
    let f ← j.fields? ["error", "status_code"]
    return ⟨← f.required "error" asString?, ← f.optional "status_code" ofJson?⟩

instance {α : Type} [Wire α] : Wire (Outcome α) where
  toJson
    | .failed e => toJson e
    | .found a => toJson a
  ofJson? j := do
    let _ ← j.canonical?
    ((ofJson? j).map .failed).or ((ofJson? j).map .found)

end Entitlements
