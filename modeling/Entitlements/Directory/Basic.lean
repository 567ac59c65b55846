import Entitlements.Directory.Error
import Entitlements.Directory.Record
import Entitlements.Text.LetterCase

/-! # Directories

Read access to the records of an account. A directory works on a state of some type `σ`: every
call takes the state, gives an answer or a failure, and leaves a new state, so the same call may be
answered differently the next time. Lookups by name or email go through the listings. -/

namespace Entitlements

/-- What stops a whole analysis. -/
inductive Abort where
  /-- The expiry of a fetched record lies behind the last date of the calendar. -/
  | expiryOverflow
  /-- The delay before the next attempt is negative, or too long for a duration. -/
  | invalidDelay
  /-- There is no number for the next page. -/
  | pageOverflow
  deriving DecidableEq, Repr

/-- Why a call gives no answer. -/
inductive Failure where
  /-- The directory reports an error. -/
  | error (e : DirectoryError)
  /-- The analysis stops. -/
  | abort (a : Abort)
  deriving DecidableEq, Repr

/-- Calls on a state of type `σ`; the state outlives a failure. -/
abbrev Access (σ : Type) := ExceptT Failure (StateM σ)

namespace Access

variable {σ α : Type}

/-- What a call gives on a state, and the state it leaves. -/
def call (a : Access σ α) (s : σ) : Except Failure α × σ := a s

theorem call_pure (a : α) (s : σ) : (pure a : Access σ α).call s = (.ok a, s) := rfl

theorem call_bind {β : Type} (a : Access σ α) (f : α → Access σ β) (s : σ) :
    (a >>= f).call s =
      match a.call s with
      | (.ok x, s) => (f x).call s
      | (.error e, s) => (.error e, s) := by
  simp only [call, bind, ExceptT.bind, ExceptT.mk, StateT.bind, ExceptT.bindCont]
  rcases a s with ⟨_ | _, _⟩ <;> rfl

/-- The failure `e` reported by the directory. -/
def fail (e : DirectoryError) : Access σ α := throw (.error e)

/-- `a`, with the missing resource reported as none. -/
def orMissing (a : Access σ α) : Access σ (Option α) := fun s =>
  match a.call s with
  | (.ok x, s) => (.ok (some x), s)
  | (.error (.error e), s) => if e.isNotFound then (.ok none, s) else (.error (.error e), s)
  | (.error f, s) => (.error f, s)

/-- `a`, with an error of the directory as its answer. -/
def reported (a : Access σ α) : Access σ (Except DirectoryError α) := fun s =>
  match a.call s with
  | (.ok x, s) => (.ok (.ok x), s)
  | (.error (.error e), s) => (.ok (.error e), s)
  | (.error f, s) => (.error f, s)

end Access

/-- Read access to the records of an account. -/
structure Directory (σ : Type) where
  /-- The account that the records belong to. -/
  account : String
  /-- All groups. -/
  groups : Access σ (List Group)
  /-- The group with a uuid. -/
  group : String → Access σ Group
  /-- All users. -/
  users : Access σ (List User)
  /-- The user with a uid. -/
  user : String → Access σ User
  /-- The groups that a user belongs to. -/
  groupsOfUser : String → Access σ (List Group)
  /-- All bindings. -/
  bindings : Access σ (List Binding)
  /-- The bindings of a group. -/
  bindingsOfGroup : String → Access σ (List Binding)
  /-- All policies, possibly without their statements. -/
  policies : Access σ (List Policy)
  /-- The policy with a uuid, with its statement. -/
  policy : String → Access σ Policy
  /-- A page, of some size, of the permissions that the platform resolves. -/
  effectivePermissions : EffectivePermissionsQuery → Nat → Nat → Access σ EffectivePermissionsPage

namespace Directory

variable {σ : Type} (d : Directory σ)

/-- The first listed group of this name. -/
def groupByName (name : String) : Access σ (Option Group) :=
  return (← d.groups).find? (·.name == name)

/-- The first listed user with this email, in any letter case. -/
def userByEmail (email : String) : Access σ (Option User) :=
  return (← d.users).find? (sameLetters ·.email email)

/-- The first listed policy of this name. -/
def policyByName (name : String) : Access σ (Option Policy) :=
  return (← d.policies).find? (·.name == name)

end Directory

end Entitlements
