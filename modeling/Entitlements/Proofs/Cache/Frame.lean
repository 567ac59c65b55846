import Entitlements.Proofs.Cache.Accounting

/-! # What a cache keeps as it is

A call through the cache touches the entry under its own key and one counter, and everything else
stays: the values and times of the other entries, and the order in which they were used. The only
one that may go is the one used longest ago, when the cache is full without an entry for the call.
`Cache.Apart` takes the entry under a key apart from the others, `CachedDirectory.Effect` tells by
cases what becomes of both, and `Cache.Drops` is what a removal does. All of it holds in the states
that a new cache can be brought to (`cache_frame`). -/

namespace Entitlements

/-! ### Entries -/

namespace Cache

/-- The entry under a key, if there is one, and the others in the order of their last use. -/
inductive Apart (key : String) (entries : List CacheEntry) :
    Option CacheEntry → List CacheEntry → Prop
  | absent (h : ∀ e ∈ entries, e.key ≠ key) : Apart key entries none entries
  | present {later earlier : List CacheEntry} {e : CacheEntry}
      (split : entries = later ++ e :: earlier) (own : e.key = key)
      (h : ∀ e' ∈ later ++ earlier, e'.key ≠ key) : Apart key entries (some e) (later ++ earlier)

/-- Exactly the entries that satisfy `P` go, which are `n`; what stays is as it was. -/
structure Drops (P : CacheEntry → Prop) (n : Nat) (c c' : Cache) : Prop where
  entries : c'.entries.Sublist c.entries
  mem_iff : ∀ e, e ∈ c'.entries ↔ e ∈ c.entries ∧ ¬ P e
  count : c.entries.length = c'.entries.length + n
  others : c' = { c with entries := c'.entries }

variable {c : Cache} {n : Nat}

theorem without_eq_of_forall_ne {key : String} (h : ∀ e ∈ c.entries, e.key ≠ key) :
    c.without key = c.entries :=
  List.filter_eq_self.mpr fun e he => bne_iff_ne.mpr (h e he)

/-- What is found under a key, and what stands under other keys. -/
theorem apart_find? (hdistinct : c.keys.Nodup) (key : String) :
    Apart key c.entries (c.find? key) (c.without key) := by
  cases hfind : c.find? key with
  | none =>
    have habsent : ∀ e ∈ c.entries, e.key ≠ key := fun e he hkey =>
      List.find?_eq_none.mp hfind e he (beq_iff_eq.mpr hkey)
    rw [without_eq_of_forall_ne habsent]
    exact .absent habsent
  | some e =>
    obtain ⟨hown, later, earlier, hsplit, hlater⟩ := List.find?_eq_some_iff_append.mp hfind
    have hkey : e.key = key := beq_iff_eq.mp hown
    -- No entry behind the one that is found has its key.
    have hkeys : (e.key :: earlier.map (·.key)).Nodup := by
      rw [keys, hsplit, List.map_append, List.map_cons] at hdistinct
      exact (List.nodup_append.mp hdistinct).2.1
    have hothers : ∀ e' ∈ later ++ earlier, e'.key ≠ key := by
      intro e' he'
      rcases List.mem_append.mp he' with h | h
      · simpa using hlater e' h
      · rintro heq
        exact (List.nodup_cons.mp hkeys).1 (hkey ▸ heq ▸ List.mem_map_of_mem h)
    have hwithout : c.without key = later ++ earlier := by
      unfold without
      rw [hsplit, List.filter_append, List.filter_cons_of_neg (by simp [hkey]),
        ← List.filter_append]
      exact List.filter_eq_self.mpr fun e' he' => bne_iff_ne.mpr (hothers e' he')
    rw [hwithout]
    exact .present hsplit hkey hothers

theorem lookup_live {now : Time} {key : String} {e : CacheEntry} (hfind : c.find? key = some e)
    (hlive : now < e.expiresAt) : c.lookup now key =
      (some e.value, { c with entries := e :: c.without key, hits := c.hits + 1 }) := by
  have hexpired : e.isExpired now = false := decide_eq_false (Int.not_le.mpr hlive)
  simp only [lookup, hfind, hexpired, Bool.false_eq_true, if_false]

theorem lookup_expired {now : Time} {key : String}
    (hexpired : ∀ e, c.find? key = some e → e.expiresAt ≤ now) : c.lookup now key =
      (none, { c with entries := c.without key, misses := c.misses + 1 }) := by
  unfold lookup
  cases hfind : c.find? key with
  | none =>
    have habsent : ∀ e ∈ c.entries, e.key ≠ key := fun e he hkey =>
      List.find?_eq_none.mp hfind e he (beq_iff_eq.mpr hkey)
    rw [without_eq_of_forall_ne habsent]
  | some e =>
    have hdead : e.isExpired now = true := decide_eq_true (hexpired e hfind)
    simp only [hdead, if_true]

theorem store_of_room {e : CacheEntry} (hne : ∀ e' ∈ c.entries, e'.key ≠ e.key)
    (hroom : c.entries.length < c.capacity) :
    c.store e = { c with entries := e :: c.entries } := by
  rw [store, without_eq_of_forall_ne hne, List.take_of_length_le hroom]

/-- In a full cache the entry at the end goes. -/
theorem store_of_full {e last : CacheEntry} {others : List CacheEntry}
    (hne : ∀ e' ∈ c.entries, e'.key ≠ e.key) (hentries : c.entries = others ++ [last])
    (hfull : c.entries.length = c.capacity) :
    c.store e = { c with entries := e :: others } := by
  have hlength : (e :: others).length = c.capacity := by
    rw [← hfull, hentries, List.length_append, List.length_cons, List.length_singleton]
  have htake : (e :: (others ++ [last])).take c.capacity = e :: others := by
    rw [← hlength, ← List.cons_append, List.take_left]
  rw [store, without_eq_of_forall_ne hne, hentries, htake]

theorem drops_removeWhere {p : CacheEntry → Bool} {P : CacheEntry → Prop}
    (hp : ∀ e, p e = true ↔ P e) :
    Drops P (c.removeWhere p).1 c (c.removeWhere p).2 where
  entries := List.filter_sublist
  mem_iff e := by
    unfold removeWhere
    rw [List.mem_filter, ← hp e, Bool.not_eq_true', Bool.not_eq_true]
  count := by
    unfold removeWhere
    have := List.length_eq_length_filter_add (l := c.entries) p
    dsimp only
    omega
  others := rfl

end Cache

/-! ### Calls -/

namespace CachedDirectory

variable {σ τ : Type}

/-- When the clock is read before an answer is fetched. -/
def askedAt (d : CachedDirectory σ τ) (s : CachedState σ τ) : Time := (d.clock.read s.clock).1

/-- When the clock is read once an answer has been fetched. -/
def fetchedAt (d : CachedDirectory σ τ) (s : CachedState σ τ) : Time :=
  (d.clock.read (d.clock.after 1 s.clock)).1

/-- What a call through the cache makes of a state. A live entry under its key comes in front and a
hit is counted. Otherwise a miss is counted, the directory behind is asked, and an expired entry
under the key goes. Then an answer comes in front, for which the last entry has to go when there is
no room. -/
inductive Effect (d : CachedDirectory σ τ) (c : CachedCall) (s : CachedState σ τ) :
    CachedState σ τ → Prop
  | hit {e : CacheEntry} {others : List CacheEntry}
      (apart : Cache.Apart c.key s.cache.entries (some e) others)
      (live : d.askedAt s < e.expiresAt) :
      Effect d c s ⟨s.inner, d.clock.after 1 s.clock,
        { s.cache with entries := e :: others, hits := s.cache.hits + 1 }⟩
  | failed {own : Option CacheEntry} {others : List CacheEntry} {f : Failure} {inner : σ}
      (apart : Cache.Apart c.key s.cache.entries own others)
      (expired : ∀ e, own = some e → e.expiresAt ≤ d.askedAt s)
      (fetch : (d.inner.ask c).call s.inner = (.error f, inner)) :
      Effect d c s ⟨inner, d.clock.after 1 s.clock,
        { s.cache with entries := others, misses := s.cache.misses + 1 }⟩
  | stored {own : Option CacheEntry} {others : List CacheEntry} {answer : c.Answer} {inner : σ}
      (apart : Cache.Apart c.key s.cache.entries own others)
      (expired : ∀ e, own = some e → e.expiresAt ≤ d.askedAt s)
      (fetch : (d.inner.ask c).call s.inner = (.ok answer, inner))
      (room : others.length < s.cache.capacity) :
      Effect d c s ⟨inner, d.clock.after 2 s.clock,
        { s.cache with
          entries := d.entry c answer (d.fetchedAt s) :: others
          misses := s.cache.misses + 1 }⟩
  | evicted {others : List CacheEntry} {last : CacheEntry} {answer : c.Answer} {inner : σ}
      (absent : ∀ e ∈ s.cache.entries, e.key ≠ c.key)
      (split : s.cache.entries = others ++ [last])
      (full : s.cache.entries.length = s.cache.capacity)
      (fetch : (d.inner.ask c).call s.inner = (.ok answer, inner)) :
      Effect d c s ⟨inner, d.clock.after 2 s.clock,
        { s.cache with
          entries := d.entry c answer (d.fetchedAt s) :: others
          misses := s.cache.misses + 1 }⟩

variable {d : CachedDirectory σ τ} {n : Nat} {s : CachedState σ τ}

/-- An answer comes in: there is room for it, or no entry under its key and one to go. -/
theorem effect_fetched (h : s.cache.Sound n) (hn : 0 < n) {c : CachedCall}
    (hexpired : ∀ e, s.cache.find? c.key = some e → e.expiresAt ≤ d.askedAt s)
    {answer : c.Answer} {inner : σ} (hfetch : (d.inner.ask c).call s.inner = (.ok answer, inner)) :
    d.Effect c s ⟨inner, d.clock.after 2 s.clock,
      Cache.store { s.cache with
        entries := s.cache.without c.key
        misses := s.cache.misses + 1 } (d.entry c answer (d.fetchedAt s))⟩ := by
  have hapart := Cache.apart_find? h.distinct c.key
  have hne : ∀ e ∈ s.cache.without c.key, e.key ≠ c.key := fun e he => (Cache.mem_without.mp he).2
  by_cases hroom : (s.cache.without c.key).length < s.cache.capacity
  · rw [Cache.store_of_room hne hroom]
    exact .stored hapart hexpired hfetch hroom
  · have hle := h.room
    have hcapacity := h.capacity
    -- The cache is full, and nothing in it has been taken apart.
    generalize s.cache.find? c.key = own at hapart
    generalize hothers : s.cache.without c.key = others at hapart hne hroom
    cases hapart with
    | present split =>
      rw [split, List.length_append, List.length_cons] at hle
      rw [List.length_append] at hroom
      omega
    | absent habsent =>
      have hfull : s.cache.entries.length = s.cache.capacity := by omega
      have hnil : s.cache.entries ≠ [] := List.length_pos_iff.mp (by omega)
      have hsplit := (List.dropLast_concat_getLast hnil).symm
      have hstore := Cache.store_of_full
        (c := { s.cache with misses := s.cache.misses + 1 })
        (e := d.entry c answer (d.fetchedAt s)) habsent hsplit hfull
      rw [hstore]
      exact .evicted habsent hsplit hfull hfetch

/-- **A call through the cache** has one of these effects. -/
theorem effect_ask (h : s.cache.Sound n) (hn : 0 < n) (c : CachedCall)
    (hlast : d.fetchedAt s + d.ttl ≤ Time.last) :
    d.Effect c s ((d.directory.ask c).call s).2 := by
  have hapart := Cache.apart_find? h.distinct c.key
  have hserved := d.served c (d.inner.ask c) s
  rw [← ask_directory] at hserved
  generalize (d.directory.ask c).call s = result at hserved
  by_cases hlive : ∃ e, s.cache.find? c.key = some e ∧ d.askedAt s < e.expiresAt
  · obtain ⟨e, hfind, hlive⟩ := hlive
    have hfound := Cache.lookup_live hfind hlive
    rw [hfind] at hapart
    cases hserved with
    | hit hlookup =>
      cases hfound.symm.trans hlookup
      exact .hit hapart hlive
    | failed hlookup => cases hfound.symm.trans hlookup
    | overflow hlookup => cases hfound.symm.trans hlookup
    | fetched hlookup => cases hfound.symm.trans hlookup
  · have hexpired : ∀ e, s.cache.find? c.key = some e → e.expiresAt ≤ d.askedAt s :=
      fun e hfind => Int.not_lt.mp fun hlt => hlive ⟨e, hfind, hlt⟩
    have hmissing := Cache.lookup_expired hexpired
    cases hserved with
    | hit hlookup => cases hmissing.symm.trans hlookup
    | failed hlookup hfetch =>
      cases hmissing.symm.trans hlookup
      exact .failed hapart hexpired hfetch
    | overflow _ _ hread hover =>
      obtain ⟨rfl, rfl⟩ := Prod.mk.inj hread
      exact absurd hlast (Int.not_le.mpr hover)
    | fetched hlookup hfetch hread =>
      cases hmissing.symm.trans hlookup
      obtain ⟨rfl, rfl⟩ := Prod.mk.inj hread
      exact effect_fetched h hn hexpired hfetch

end CachedDirectory

open CachedDirectory in
/-- **Operations change what they should**, in every state that a new cache can be brought to. A
call through the cache, a lookup by name or email being one listing, has one of the effects above,
as long as the expiry of an answer lies in the calendar. To invalidate, to clean up and to clear
drops exactly the entries whose key starts so, those that have expired at the reading of the clock,
and all of them; their number is returned, and everything else in the cache is as it was. -/
theorem cache_frame {σ τ : Type} (d : CachedDirectory σ τ) (inner : σ) (w : τ) (capacity : Nat)
    (rs : List CacheRequest) :
    let s := d.run (start inner w capacity) rs
    (∀ r c, r.call? = some c → d.fetchedAt s + d.ttl ≤ Time.last → d.Effect c s (d.next s r)) ∧
    (∀ key, ∃ n cache, invalidate key s = (n, { s with cache }) ∧
      Cache.Drops (fun e => key.toList <+: e.key.toList) n s.cache cache) ∧
    (∃ n cache, d.cleanUp s = (n, { s with clock := d.clock.after 1 s.clock, cache }) ∧
      Cache.Drops (fun e => e.expiresAt ≤ d.askedAt s) n s.cache cache) ∧
    ∃ n cache, clear s = (n, { s with cache }) ∧ Cache.Drops (fun _ => True) n s.cache cache := by
  intro s
  have hsound : s.cache.Sound (max capacity 1) := sound_run inner w capacity rs
  have hpos : 0 < max capacity 1 := Nat.le_max_right ..
  refine ⟨fun r c hcall hlast => ?_, fun key => ⟨_, _, rfl, ?_⟩, ⟨_, _, rfl, ?_⟩, ⟨_, _, rfl, ?_⟩⟩
  · rw [next_of_call? hcall]
    exact effect_ask hsound hpos c hlast
  · exact Cache.drops_removeWhere fun _ => List.isPrefixOf_iff_prefix
  · exact Cache.drops_removeWhere fun _ => decide_eq_true_iff
  · exact Cache.drops_removeWhere fun _ => iff_of_true rfl trivial

open CachedDirectory in
/-- In a full cache the entry used longest ago makes room. -/
theorem fullCache_frame :
    let d : CachedDirectory Nat Unit := ⟨MemoryDirectory.oneGroup.directory, Clock.steady, 60⟩
    let s := d.run (start 0 () 2) [.ask (.group "g"), .ask .policies]
    s.cache.keys = ["policies", "group:g"] ∧ d.fetchedAt s + d.ttl ≤ Time.last ∧
      d.Effect .groups s (d.next s (.ask .groups)) ∧
      (d.next s (.ask .groups)).cache.keys = ["groups", "policies"] := by
  intro d s
  have hlast : d.fetchedAt s + d.ttl ≤ Time.last := by decide +kernel
  have hframe := cache_frame d 0 () 2 [.ask (.group "g"), .ask .policies]
  exact ⟨by decide +kernel, hlast, hframe.1 (.ask .groups) .groups rfl hlast, by decide +kernel⟩

end Entitlements
