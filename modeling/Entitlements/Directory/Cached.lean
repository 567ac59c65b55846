import Entitlements.Directory.Basic
import Entitlements.Directory.Cache

/-! # Cached directories

A directory in front of another one, which remembers successful answers for some time. Answers are
kept in their wire form under a key that names the call and its argument. Errors are not kept, and
pages of resolved permissions are always asked for. Time comes from a clock whose readings need not
increase. -/

namespace Entitlements

/-- A clock with a state of type `τ`. -/
structure Clock (τ : Type) where
  /-- The time, and the state after it has been read. -/
  read : τ → Time × τ

/-- The state of a cached directory. -/
structure CachedState (σ τ : Type) where
  /-- The state of the directory behind the cache. -/
  inner : σ
  clock : τ
  cache : Cache

/-- The longest time to live that is counted, in nanoseconds. -/
def longestTtl : Nat := (Nat.pow 2 63 - 1) * 1000000

/-- The time to live that is used for the one asked for: one that is too long to be counted stands
for none at all. -/
def usableTtl (ttl : Nat) : Nat := if ttl ≤ longestTtl then ttl else 0

/-- A call that is remembered. -/
inductive CachedCall where
  | groups
  | group (uuid : String)
  | users
  | user (uid : String)
  | groupsOfUser (uid : String)
  | bindings
  | bindingsOfGroup (uuid : String)
  | policies
  | policy (uuid : String)
  deriving DecidableEq, Repr

/-- The key under which the answer to a call is kept. -/
def CachedCall.key : CachedCall → String
  | groups => "groups"
  | group uuid => "group:" ++ uuid
  | users => "users"
  | user uid => "user:" ++ uid
  | groupsOfUser uid => "user-groups:" ++ uid
  | bindings => "bindings"
  | bindingsOfGroup uuid => "group-bindings:" ++ uuid
  | policies => "policies"
  | policy uuid => "policy:" ++ uuid

/-- A directory in front of another one. -/
structure CachedDirectory (σ τ : Type) where
  inner : Directory σ
  clock : Clock τ
  /-- For how long an answer counts, in nanoseconds. -/
  ttl : Nat

namespace CachedDirectory

variable {σ τ : Type} (d : CachedDirectory σ τ)

/-- In front of `inner`, with the time to live asked for. -/
def ofTtl (inner : Directory σ) (clock : Clock τ) (ttl : Nat) : CachedDirectory σ τ :=
  ⟨inner, clock, usableTtl ttl⟩

/-- The state before the first call. -/
def start (inner : σ) (clock : τ) (capacity : Nat) : CachedState σ τ :=
  ⟨inner, clock, .ofCapacity capacity⟩

/-- Keeps an answer, unless its expiry lies behind the end of the calendar. -/
def keep {α : Type} [Wire α] (call : CachedCall) (answer : α) (s : CachedState σ τ) :
    Except Failure α × CachedState σ τ :=
  let (now, clock) := d.clock.read s.clock
  if Time.last < now + d.ttl then (.error (.abort .expiryOverflow), { s with clock })
  else
    let entry : CacheEntry := ⟨call.key, toJson answer, now, now + d.ttl⟩
    (.ok answer, { s with clock, cache := s.cache.store entry })

/-- A call through the cache: the answer that is kept, or else the answer of the directory behind
it, which is kept from then on. -/
def through {α : Type} [Wire α] (call : CachedCall) (fetch : Access σ α) :
    Access (CachedState σ τ) α := fun s =>
  let (now, clock) := d.clock.read s.clock
  match s.cache.lookup now call.key with
  | (some value, cache) =>
    match ofJson? value with
    | some answer => (.ok answer, { s with clock, cache })
    | none => (.error (.error (.invalidResponse none)), { s with clock, cache })
  | (none, cache) =>
    match fetch.call s.inner with
    | (.ok answer, inner) => d.keep call answer ⟨inner, clock, cache⟩
    | (.error f, inner) => (.error f, ⟨inner, clock, cache⟩)

/-- A call that is not remembered. -/
def direct {α : Type} (fetch : Access σ α) : Access (CachedState σ τ) α := fun s =>
  match fetch.call s.inner with
  | (answer, inner) => (answer, { s with inner })

/-- The directory that answers through the cache. -/
def directory : Directory (CachedState σ τ) where
  account := d.inner.account
  groups := d.through .groups d.inner.groups
  group uuid := d.through (.group uuid) (d.inner.group uuid)
  users := d.through .users d.inner.users
  user uid := d.through (.user uid) (d.inner.user uid)
  groupsOfUser uid := d.through (.groupsOfUser uid) (d.inner.groupsOfUser uid)
  bindings := d.through .bindings d.inner.bindings
  bindingsOfGroup uuid := d.through (.bindingsOfGroup uuid) (d.inner.bindingsOfGroup uuid)
  policies := d.through .policies d.inner.policies
  policy uuid := d.through (.policy uuid) (d.inner.policy uuid)
  effectivePermissions query page size := direct (d.inner.effectivePermissions query page size)

/-- Drops all entries and counts them. -/
def clear (s : CachedState σ τ) : Nat × CachedState σ τ :=
  let (n, cache) := s.cache.clear
  (n, { s with cache })

/-- Drops the entries whose key starts with `start`, and counts them. -/
def invalidate (start : String) (s : CachedState σ τ) : Nat × CachedState σ τ :=
  let (n, cache) := s.cache.removeStarting start
  (n, { s with cache })

/-- Drops the entries that have expired, and counts them. -/
def cleanUp (s : CachedState σ τ) : Nat × CachedState σ τ :=
  let (now, clock) := d.clock.read s.clock
  let (n, cache) := s.cache.removeExpired now
  (n, { s with clock, cache })

end CachedDirectory

end Entitlements
