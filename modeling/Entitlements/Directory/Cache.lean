import Entitlements.Json.Record
import Entitlements.Text.Timestamp

/-! # Bounded caches

Values under keys, each with the time at which it expires. The entries stand in the order of their
last use, the latest first; when there is no room for a new one the last entry goes. Looking a key
up counts as a hit or a miss. Main definitions: `Cache.lookup`, `Cache.store`. -/

namespace Entitlements

/-- A stored value. -/
structure CacheEntry where
  key : String
  value : Json
  createdAt : Time
  expiresAt : Time
  deriving DecidableEq, Repr

/-- Whether the entry has expired at `now`. -/
def CacheEntry.isExpired (e : CacheEntry) (now : Time) : Bool := e.expiresAt ≤ now

/-- A cache for at most `capacity` entries. -/
structure Cache where
  capacity : Nat
  /-- The entries, the one used last first. -/
  entries : List CacheEntry
  /-- The lookups that found a value. -/
  hits : Nat
  /-- The lookups that found none. -/
  misses : Nat
  deriving DecidableEq, Repr

namespace Cache

/-- The capacity of a cache that is given none. -/
def defaultCapacity : Nat := 1024

/-- A cache without entries, for at least one. -/
def ofCapacity (capacity : Nat) : Cache := ⟨max capacity 1, [], 0, 0⟩

/-- The entry under a key. -/
def find? (c : Cache) (key : String) : Option CacheEntry := c.entries.find? (·.key == key)

/-- The entries under other keys. -/
def without (c : Cache) (key : String) : List CacheEntry := c.entries.filter (·.key != key)

/-- The value under a key, unless it has expired at `now`. A value that is found becomes the one
used last; an expired one is dropped. -/
def lookup (c : Cache) (now : Time) (key : String) : Option Json × Cache :=
  match c.find? key with
  | some e =>
    if e.isExpired now then (none, { c with entries := c.without key, misses := c.misses + 1 })
    else (some e.value, { c with entries := e :: c.without key, hits := c.hits + 1 })
  | none => (none, { c with misses := c.misses + 1 })

/-- Puts an entry in front, in the place of one under its key. -/
def store (c : Cache) (e : CacheEntry) : Cache :=
  { c with entries := (e :: c.without e.key).take c.capacity }

/-- Drops the entries that satisfy `p`, and counts them. -/
def removeWhere (c : Cache) (p : CacheEntry → Bool) : Nat × Cache :=
  ((c.entries.filter p).length, { c with entries := c.entries.filter fun e => !p e })

/-- Drops all entries. -/
def clear (c : Cache) : Nat × Cache := c.removeWhere fun _ => true

/-- Drops the entries whose key starts with `start`. -/
def removeStarting (c : Cache) (start : String) : Nat × Cache :=
  c.removeWhere fun e => start.toList.isPrefixOf e.key.toList

/-- Drops the entries that have expired at `now`. -/
def removeExpired (c : Cache) (now : Time) : Nat × Cache := c.removeWhere (·.isExpired now)

end Cache

/-! ### Statistics -/

/-- What a cache has done so far. -/
structure CacheStats where
  hits : Nat
  misses : Nat
  entries : Nat
  capacity : Nat
  /-- When the oldest entry was stored. -/
  oldestEntry : Option Time
  deriving DecidableEq, Repr

/-- The statistics of a cache. -/
def Cache.stats (c : Cache) : CacheStats :=
  ⟨c.hits, c.misses, c.entries.length, c.capacity, (c.entries.map (·.createdAt)).min?⟩

/-- The number of lookups, as a counter of 64 bits holds it. -/
def CacheStats.lookups (s : CacheStats) : Nat := (s.hits + s.misses) % Nat.pow 2 64

/-- The part of the lookups that found a value; zero when there were none. -/
def CacheStats.hitRate (s : CacheStats) : Float :=
  if s.lookups = 0 then 0.0 else Float.ofNat s.hits / Float.ofNat s.lookups

open Json in
instance : Wire CacheStats where
  toJson s := .obj ([("hits", .ofNat s.hits), ("misses", .ofNat s.misses),
    ("entries", .ofNat s.entries), ("capacity", .ofNat s.capacity)]
    ++ entryOfSome "oldest_entry" (fun t => .str t.text) s.oldestEntry)
  ofJson? j := do
    let f ← j.fields? ["hits", "misses", "entries", "capacity", "oldest_entry"]
    return {
      hits := ← f.required "hits" (asNat? 64)
      misses := ← f.required "misses" (asNat? 64)
      entries := ← f.required "entries" (asNat? 64)
      capacity := ← f.required "capacity" (asNat? 64)
      oldestEntry := ← f.nullable "oldest_entry" fun j => asString? j >>= Time.parse? }

end Entitlements
