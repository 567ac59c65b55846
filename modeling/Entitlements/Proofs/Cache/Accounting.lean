import Entitlements.Proofs.Cache.Recency

/-! # Accounting: what the counters of a cache say

Every call through the cache is counted once, as a hit or as a miss, and the directory behind is
asked for each miss and for each page. An entry only comes in after a miss, in the place of any
other entry under its key, and there is never more than the capacity (`Cache.Sound`). Both are kept
by every request (`CachedDirectory.Balanced.next`), so that the books of a cache in front of a
directory in memory balance after any run (`cache_accounts`). -/

namespace Entitlements

/-! ### Entries -/

namespace Cache

/-- What holds of a cache with room for `n` entries. -/
structure Sound (n : Nat) (c : Cache) : Prop where
  capacity : c.capacity = n
  room : c.entries.length ≤ n
  distinct : c.keys.Nodup
  /-- Every entry came in after a miss. -/
  missed : c.entries.length ≤ c.misses

theorem sound_ofCapacity (n : Nat) : (ofCapacity n).Sound (max n 1) :=
  ⟨rfl, Nat.zero_le _, List.nodup_nil, Nat.le_refl 0⟩

variable {n : Nat} {c : Cache}

theorem length_without_le (c : Cache) (key : String) :
    (c.without key).length ≤ c.entries.length := List.length_filter_le _ _

theorem nodup_key_without (h : c.keys.Nodup) (key : String) :
    ((c.without key).map (·.key)).Nodup := by
  rw [map_key_without]
  exact h.filter _

/-- An entry in front of those under other keys. -/
theorem nodup_key_cons_without (h : c.keys.Nodup) (e : CacheEntry) :
    ((e :: c.without e.key).map (·.key)).Nodup := by
  rw [List.map_cons, List.nodup_cons]
  refine ⟨fun hmem => ?_, nodup_key_without h e.key⟩
  obtain ⟨e', he', hkey⟩ := List.mem_map.mp hmem
  exact (mem_without.mp he').2 hkey

theorem Sound.removeWhere (h : c.Sound n) (p : CacheEntry → Bool) :
    (c.removeWhere p).2.Sound n := by
  have hle : (c.removeWhere p).2.entries.length ≤ c.entries.length := List.length_filter_le _ _
  have hsub : (c.removeWhere p).2.entries.Sublist c.entries := List.filter_sublist
  exact ⟨h.capacity, hle.trans h.room, h.distinct.sublist (hsub.map CacheEntry.key),
    hle.trans h.missed⟩

/-- A lookup that finds something is a hit. -/
theorem Sound.lookup_some (h : c.Sound n) {now : Time} {key : String} {value : Json} {c' : Cache}
    (hlookup : c.lookup now key = (some value, c')) :
    c'.Sound n ∧ c'.hits = c.hits + 1 ∧ c'.misses = c.misses := by
  unfold lookup at hlookup
  split at hlookup
  · next e hfind =>
    have hmem : e ∈ c.entries := List.mem_of_find?_eq_some hfind
    obtain rfl : e.key = key := by simpa using List.find?_some hfind
    split at hlookup
    · cases hlookup
    · cases hlookup
      have hlt : (c.without e.key).length < c.entries.length :=
        List.length_filter_lt_length_iff_exists.mpr ⟨e, hmem, by simp⟩
      exact ⟨⟨h.capacity, hlt.trans_le h.room, nodup_key_cons_without h.distinct e,
        hlt.trans_le h.missed⟩, rfl, rfl⟩
  · cases hlookup

/-- A lookup that finds nothing is a miss, and leaves room in the books for one more entry. -/
theorem Sound.lookup_none (h : c.Sound n) {now : Time} {key : String} {c' : Cache}
    (hlookup : c.lookup now key = (none, c')) :
    c'.Sound n ∧ c'.entries.length < c'.misses ∧ c'.hits = c.hits ∧ c'.misses = c.misses + 1 := by
  unfold lookup at hlookup
  split at hlookup
  · split at hlookup
    · cases hlookup
      have hle := c.length_without_le key
      have hlt : (c.without key).length < c.misses + 1 := Nat.lt_succ_of_le (hle.trans h.missed)
      have hdistinct := nodup_key_without h.distinct key
      exact ⟨⟨h.capacity, hle.trans h.room, hdistinct, hlt.le⟩, hlt, rfl, rfl⟩
    · cases hlookup
  · cases hlookup
    have hlt : c.entries.length < c.misses + 1 := Nat.lt_succ_of_le h.missed
    exact ⟨⟨h.capacity, h.room, h.distinct, hlt.le⟩, hlt, rfl, rfl⟩

theorem Sound.store (h : c.Sound n) (hlt : c.entries.length < c.misses) (e : CacheEntry) :
    (c.store e).Sound n := by
  have hsub : (c.store e).entries.Sublist (e :: c.without e.key) := List.take_sublist _ _
  refine ⟨h.capacity, ?_, ?_, ?_⟩
  · rw [← h.capacity]
    exact List.length_take_le _ _
  · exact (nodup_key_cons_without h.distinct e).sublist (hsub.map CacheEntry.key)
  · have hlength : (c.store e).entries.length ≤ (c.without e.key).length + 1 := hsub.length_le
    have hwithout := c.length_without_le e.key
    show (c.store e).entries.length ≤ c.misses
    omega

end Cache

namespace CachedDirectory

variable {σ τ : Type} {d : CachedDirectory σ τ} {n : Nat} {s : CachedState σ τ}

theorem sound_ask (h : s.cache.Sound n) (c : CachedCall) :
    ((d.directory.ask c).call s).2.cache.Sound n := by
  have hserved := d.served c (d.inner.ask c) s
  rw [← ask_directory] at hserved
  generalize (d.directory.ask c).call s = result at hserved
  cases hserved with
  | hit hlookup => exact (h.lookup_some hlookup).1
  | failed hlookup => exact (h.lookup_none hlookup).1
  | overflow hlookup => exact (h.lookup_none hlookup).1
  | fetched hlookup =>
    obtain ⟨hsound, hlt, -, -⟩ := h.lookup_none hlookup
    exact hsound.store hlt _

theorem sound_next (h : s.cache.Sound n) (r : CacheRequest) : (d.next s r).cache.Sound n :=
  next_cases (P := fun s' => s'.cache.Sound n) r (sound_ask h) (fun _ _ _ => h)
    fun p _ => h.removeWhere p

theorem sound_run (inner : σ) (w : τ) (capacity : Nat) (rs : List CacheRequest) :
    (d.run (start inner w capacity) rs).cache.Sound (max capacity 1) := by
  induction rs using List.reverseRecOn with
  | nil => exact Cache.sound_ofCapacity capacity
  | append_singleton rs r ih =>
    rw [run_append]
    exact sound_next ih r

end CachedDirectory

/-! ### Counters -/

/-- Whether a request asks for a page of resolved permissions. -/
def CacheRequest.isPage : CacheRequest → Bool
  | page .. => true
  | _ => false

namespace CachedDirectory

variable {τ : Type}

/-- The books after so many calls through the cache and so many calls for pages, with room for `n`
entries. -/
structure Balanced (n lookups pages : Nat) (s : CachedState Nat τ) : Prop where
  sound : s.cache.Sound n
  lookups : s.cache.hits + s.cache.misses = lookups
  /-- The directory behind counts its calls. -/
  calls : s.inner = s.cache.misses + pages

variable {m : MemoryDirectory} {d : CachedDirectory Nat τ} {n lookups pages : Nat}
  {s : CachedState Nat τ}

/-- **A call through the cache** is a hit, or a miss for which the directory behind is asked. -/
theorem Balanced.ask (hd : d.inner = m.directory) (h : Balanced n lookups pages s)
    (c : CachedCall) : Balanced n (lookups + 1) pages ((d.directory.ask c).call s).2 := by
  have hsound' : ((d.directory.ask c).call s).2.cache.Sound n := sound_ask h.sound c
  have hserved := d.served c (d.inner.ask c) s
  rw [← ask_directory, hd] at hserved
  obtain ⟨hsound, hlookups, hcalls⟩ := h
  -- After a miss the directory behind has answered one call more, whatever its answer.
  have hmiss : ∀ {cache : Cache} {answer : Except Failure c.Answer} {inner : Nat},
      s.cache.lookup (d.clock.read s.clock).1 c.key = (none, cache) →
      (m.directory.ask c).call s.inner = (answer, inner) →
        cache.hits + cache.misses = lookups + 1 ∧ inner = cache.misses + pages := by
    intro cache answer inner hlookup hfetch
    obtain ⟨-, -, hhits, hmisses⟩ := hsound.lookup_none hlookup
    rw [m.call_ask c] at hfetch
    cases hfetch
    omega
  generalize (d.directory.ask c).call s = result at hserved hsound'
  cases hserved with
  | hit hlookup =>
    obtain ⟨-, hhits, hmisses⟩ := hsound.lookup_some hlookup
    exact ⟨hsound', by dsimp only; omega, by dsimp only; omega⟩
  | failed hlookup hfetch =>
    obtain ⟨hlookups', hcalls'⟩ := hmiss hlookup hfetch
    exact ⟨hsound', hlookups', hcalls'⟩
  | overflow hlookup hfetch =>
    obtain ⟨hlookups', hcalls'⟩ := hmiss hlookup hfetch
    exact ⟨hsound', hlookups', hcalls'⟩
  | fetched hlookup hfetch =>
    obtain ⟨hlookups', hcalls'⟩ := hmiss hlookup hfetch
    exact ⟨hsound', hlookups', hcalls'⟩

theorem Balanced.page (hd : d.inner = m.directory) (h : Balanced n lookups pages s)
    (query : EffectivePermissionsQuery) (page size : Nat) :
    Balanced n lookups (pages + 1)
      ((d.directory.effectivePermissions query page size).call s).2 := by
  have hinner : ((d.directory.effectivePermissions query page size).call s).2 =
      { s with inner := s.inner + 1 } := by
    show { s with inner := ((d.inner.effectivePermissions query page size).call s.inner).2 } = _
    rw [hd, m.call_page]
  rw [hinner]
  exact ⟨h.sound, h.lookups, congrArg (· + 1) h.calls⟩

theorem Balanced.remove (h : Balanced n lookups pages s) (p : CacheEntry → Bool) (w : τ) :
    Balanced n lookups pages ⟨s.inner, w, (s.cache.removeWhere p).2⟩ :=
  ⟨h.sound.removeWhere p, h.lookups, h.calls⟩

/-- **Every request** keeps the books. -/
theorem Balanced.next (hd : d.inner = m.directory) (h : Balanced n lookups pages s)
    (r : CacheRequest) :
    Balanced n (lookups + [r].countP (·.call?.isSome)) (pages + [r].countP (·.isPage))
      (d.next s r) := by
  cases r with
  | ask c => exact h.ask hd c
  | groupByName name =>
    rw [next_of_call? (r := .groupByName name) rfl]
    exact h.ask hd .groups
  | userByEmail email =>
    rw [next_of_call? (r := .userByEmail email) rfl]
    exact h.ask hd .users
  | policyByName name =>
    rw [next_of_call? (r := .policyByName name) rfl]
    exact h.ask hd .policies
  | page query page size => exact h.page hd query page size
  | clear => exact h.remove _ _
  | invalidate start => exact h.remove _ _
  | cleanUp => exact h.remove _ _

theorem balanced_run (hd : d.inner = m.directory) (capacity : Nat) (w : τ)
    (rs : List CacheRequest) :
    Balanced (max capacity 1) (rs.countP (·.call?.isSome)) (rs.countP (·.isPage))
      (d.run (start 0 w capacity) rs) := by
  induction rs using List.reverseRecOn with
  | nil => exact ⟨Cache.sound_ofCapacity capacity, rfl, rfl⟩
  | append_singleton rs r ih =>
    rw [run_append, List.countP_append, List.countP_append]
    exact ih.next hd r

end CachedDirectory

open CachedDirectory in
/-- **The books of a cache balance.** After any calls and removals on a new cache in front of a
directory in memory, hits and misses together are the calls that were made through the cache, a
lookup by name or email being one listing; the directory behind has been asked once for each miss
and for each page; no two entries share a key; and there are no more entries than misses or than
the capacity, which is the one asked for but at least one. -/
theorem cache_accounts {τ : Type} (m : MemoryDirectory) (clock : Clock τ) (ttl capacity : Nat)
    (w : τ) (rs : List CacheRequest) :
    let d : CachedDirectory Nat τ := ofTtl m.directory clock ttl
    let s := d.run (start 0 w capacity) rs
    s.cache.stats.hits + s.cache.stats.misses = rs.countP (·.call?.isSome) ∧
      s.inner = s.cache.stats.misses + rs.countP (·.isPage) ∧
      s.cache.stats.entries ≤ max capacity 1 ∧ s.cache.stats.capacity = max capacity 1 ∧
      s.cache.keys.Nodup ∧ s.cache.stats.entries ≤ s.cache.stats.misses := by
  intro d s
  obtain ⟨⟨hcapacity, hroom, hdistinct, hmissed⟩, hlookups, hcalls⟩ :=
    balanced_run (m := m) (d := d) rfl capacity w rs
  exact ⟨hlookups, hcalls, hroom, hcapacity, hdistinct, hmissed⟩

end Entitlements
