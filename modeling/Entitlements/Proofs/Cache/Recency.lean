import Entitlements.Proofs.Cache.Coherence
import Entitlements.Proofs.Cache.Transparency
import Entitlements.Proofs.Lists.Distinct
import Mathlib.Data.Finset.Card

/-! # Recency: which calls are hits

The cache drops what was used longest ago. As long as nothing expires, its keys are the keys that
were read, in the order of their last reading, the latest first, as far as there is room
(`CachedDirectory.Recent`): a call that succeeds puts its key in front (`promote`), whether the
answer was found or fetched, and any other call leaves the keys as they are. So a call is a hit
exactly when its key was read and not too many other keys have been read since (`cache_recency`). -/

namespace Entitlements

/-! ### The order of the last readings -/

/-- `k` put in front. -/
def promote (k : String) (keys : List String) : List String := k :: keys.filter (· != k)

/-- The keys that were read, the one read last first. -/
def latestFirst (reads : List String) : List String := reads.reverse.eraseDups

/-- `k` was read, and less than `n` other keys were read since. -/
def ReadRecently (n : Nat) (k : String) (reads : List String) : Prop :=
  ∃ earlier later, reads = earlier ++ k :: later ∧ k ∉ later ∧ later.toFinset.card < n

theorem latestFirst_append_singleton (reads : List String) (k : String) :
    latestFirst (reads ++ [k]) = promote k (latestFirst reads) := by
  rw [latestFirst, List.reverse_append, List.reverse_singleton, List.singleton_append,
    List.eraseDups_cons, eraseDups_filter]
  rfl

theorem nodup_latestFirst (reads : List String) : (latestFirst reads).Nodup := nodup_eraseDups _

theorem length_latestFirst (reads : List String) :
    (latestFirst reads).length = reads.toFinset.card := by
  rw [← List.toFinset_card_of_nodup (nodup_latestFirst reads)]
  congr 1
  ext k
  simp [latestFirst]

/-- In front of `k` stand the keys that were read after it. -/
theorem latestFirst_append_cons (earlier : List String) {later : List String} {k : String}
    (h : k ∉ later) :
    ∃ rest, latestFirst (earlier ++ k :: later) = latestFirst later ++ k :: rest := by
  have hremove : (k :: earlier.reverse).removeAll later.reverse =
      k :: earlier.reverse.removeAll later.reverse :=
    List.filter_cons_of_pos (by simpa using h)
  rw [latestFirst, List.reverse_append, List.reverse_cons, List.append_assoc,
    List.singleton_append, List.eraseDups_append, hremove, List.eraseDups_cons]
  exact ⟨_, rfl⟩

theorem mem_take_append_cons_iff {k : String} {xs ys : List String} (h : k ∉ xs) (n : Nat) :
    k ∈ (xs ++ k :: ys).take n ↔ xs.length < n := by
  rw [List.take_append, List.mem_append]
  constructor
  · rintro (hk | hk)
    · exact absurd (List.mem_of_mem_take hk) h
    · by_contra hle
      rw [Nat.sub_eq_zero_of_le (Nat.not_lt.mp hle)] at hk
      cases hk
  · intro hlt
    obtain ⟨j, hj⟩ : ∃ j, n - xs.length = j + 1 := ⟨n - xs.length - 1, by omega⟩
    rw [hj]
    exact .inr List.mem_cons_self

/-- **The keys that stand in the first places** were read recently. -/
theorem mem_take_latestFirst_iff {n : Nat} {k : String} {reads : List String} :
    k ∈ (latestFirst reads).take n ↔ ReadRecently n k reads := by
  constructor
  · intro h
    have hmem : k ∈ reads.reverse := List.mem_eraseDups.mp (List.mem_of_mem_take h)
    obtain ⟨later, earlier, heq, hk⟩ := List.eq_append_cons_of_mem hmem
    have hreads : reads = earlier.reverse ++ k :: later.reverse := by
      rw [← List.reverse_reverse reads, heq]
      simp
    have hk' : k ∉ later.reverse := mt List.mem_reverse.mp hk
    obtain ⟨rest, hlatest⟩ := latestFirst_append_cons earlier.reverse hk'
    rw [hreads, hlatest, mem_take_append_cons_iff (by simpa [latestFirst] using hk)] at h
    exact ⟨_, _, hreads, hk', length_latestFirst _ ▸ h⟩
  · rintro ⟨earlier, later, rfl, hk, hcard⟩
    obtain ⟨rest, hlatest⟩ := latestFirst_append_cons earlier hk
    rw [hlatest, mem_take_append_cons_iff (by simpa [latestFirst] using hk), length_latestFirst]
    exact hcard

/-! ### The first places -/

theorem take_filter_take (k : String) : ∀ {keys : List String}, keys.Nodup → ∀ n : Nat,
    ((keys.take (n + 1)).filter (· != k)).take n = (keys.filter (· != k)).take n
  | [], _, n => by simp
  | a :: keys, h, n => by
    obtain ⟨ha, hkeys⟩ := List.nodup_cons.mp h
    rw [List.take_succ_cons]
    by_cases hak : a = k
    · -- `k` stands in front, and nowhere else.
      subst hak
      have hfilter : ∀ {l : List String}, l ⊆ keys → l.filter (· != a) = l := fun hl =>
        List.filter_eq_self.mpr fun b hb => bne_iff_ne.mpr fun hba => ha (hba ▸ hl hb)
      rw [List.filter_cons_of_neg (by simp), List.filter_cons_of_neg (by simp),
        hfilter (List.take_subset n keys), hfilter (List.Subset.refl keys), List.take_take,
        Nat.min_self]
    · have hcons : ∀ l : List String, (a :: l).filter (· != k) = a :: l.filter (· != k) :=
        fun l => List.filter_cons_of_pos (bne_iff_ne.mpr hak)
      rw [hcons, hcons]
      cases n with
      | zero => rfl
      | succ n => rw [List.take_succ_cons, List.take_succ_cons, take_filter_take k hkeys n]

/-- A key that comes in front drops what has no room. -/
theorem take_promote_take {keys : List String} (h : keys.Nodup) (k : String) (n : Nat) :
    (promote k (keys.take n)).take n = (promote k keys).take n := by
  cases n with
  | zero => rfl
  | succ n =>
    rw [promote, promote, List.take_succ_cons, List.take_succ_cons, take_filter_take k h n]

/-- A key that stands there already drops nothing. -/
theorem promote_take_of_mem {keys : List String} (h : keys.Nodup) {k : String} {n : Nat}
    (hk : k ∈ keys.take n) : promote k (keys.take n) = (promote k keys).take n := by
  have hlt : ((keys.take n).filter (· != k)).length < (keys.take n).length :=
    List.length_filter_lt_length_iff_exists.mpr ⟨k, hk, by simp⟩
  have hle : (promote k (keys.take n)).length ≤ n :=
    Nat.le_trans hlt (List.length_take_le n keys)
  rw [← take_promote_take h, List.take_of_length_le hle]

/-! ### Keys of a cache -/

namespace Cache

/-- The keys of the entries, the one used last first. -/
def keys (c : Cache) : List String := c.entries.map (·.key)

theorem map_key_without (c : Cache) (key : String) :
    (c.without key).map (·.key) = c.keys.filter (· != key) := by
  rw [keys, List.filter_map]
  rfl

theorem keys_store (c : Cache) (e : CacheEntry) :
    (c.store e).keys = (promote e.key c.keys).take c.capacity := by
  rw [keys, store, List.map_take, List.map_cons, map_key_without, promote]

/-- When nothing has expired, what stands in the cache is found. -/
theorem lookup_of_mem {c : Cache} {now : Time} (hfresh : ∀ e ∈ c.entries, now < e.expiresAt)
    {key : String} (h : key ∈ c.keys) : ∃ e ∈ c.entries, e.key = key ∧
      c.lookup now key =
        (some e.value, { c with entries := e :: c.without key, hits := c.hits + 1 }) := by
  obtain ⟨e, hfind⟩ : ∃ e, c.find? key = some e := by
    obtain ⟨e, he, rfl⟩ := List.mem_map.mp h
    exact Option.isSome_iff_exists.mp (List.find?_isSome.mpr ⟨e, he, by simp⟩)
  have hmem : e ∈ c.entries := List.mem_of_find?_eq_some hfind
  have hlive : e.isExpired now = false := by simpa [CacheEntry.isExpired] using hfresh e hmem
  exact ⟨e, hmem, by simpa using List.find?_some hfind, by simp [lookup, hfind, hlive]⟩

theorem lookup_of_not_mem {c : Cache} {key : String} (h : key ∉ c.keys) (now : Time) :
    c.lookup now key = (none, { c with misses := c.misses + 1 }) := by
  have hfind : c.find? key = none := List.find?_eq_none.mpr fun e he hkey =>
    h (List.mem_map.mpr ⟨e, he, by simpa using hkey⟩)
  simp [lookup, hfind]

theorem lookup_capacity (c : Cache) (now : Time) (key : String) :
    (c.lookup now key).2.capacity = c.capacity := by
  unfold lookup
  split
  · split <;> rfl
  · rfl

end Cache

/-! ### Requests -/

namespace CacheRequest

/-- Whether the request is a call on the directory. -/
def isCall : CacheRequest → Bool
  | clear | invalidate _ | cleanUp => false
  | _ => true

/-- The call that the request makes through the cache; lookups by name or email go through the
listings. -/
def call? : CacheRequest → Option CachedCall
  | ask c => some c
  | groupByName _ => some .groups
  | userByEmail _ => some .users
  | policyByName _ => some .policies
  | page .. | clear | invalidate _ | cleanUp => none

end CacheRequest

namespace CachedDirectory

variable {σ τ : Type} (d : CachedDirectory σ τ)

/-- The request is answered by what is kept. -/
def Hits (s : CachedState σ τ) (r : CacheRequest) : Prop :=
  (d.next s r).cache.hits = s.cache.hits + 1

/-- The key that a request reads: the one of its call through the cache, if this succeeds. -/
def read? (s : CachedState σ τ) (r : CacheRequest) : Option String :=
  r.call?.bind fun c => ((d.directory.ask c).call s).1.toOption.map fun _ => c.key

/-- The keys that some requests read, one after the other. -/
def reads (s : CachedState σ τ) : List CacheRequest → List String
  | [] => []
  | r :: rs => (d.read? s r).toList ++ reads (d.next s r) rs

/-- No entry has expired when the clock is read next. -/
def Fresh (s : CachedState σ τ) : Prop :=
  ∀ e ∈ s.cache.entries, (d.clock.read s.clock).1 < e.expiresAt

/-- Nothing expires before, between and after some requests. -/
def NothingExpires (s : CachedState σ τ) (rs : List CacheRequest) : Prop :=
  ∀ earlier, earlier <+: rs → d.Fresh (d.run s earlier)

/-- The states of a cache of some capacity at its start and after it has been cleared. -/
inductive Emptied (capacity : Nat) : CachedState σ τ → Prop
  | start (inner : σ) (w : τ) : Emptied capacity (start inner w capacity)
  | cleared (inner : σ) (w : τ) (rs : List CacheRequest) :
      Emptied capacity (d.run (start inner w capacity) (rs ++ [.clear]))

variable {d}

theorem next_of_call? {r : CacheRequest} {c : CachedCall} (h : r.call? = some c)
    (s : CachedState σ τ) : d.next s r = ((d.directory.ask c).call s).2 := by
  cases r with
  | ask => cases h; rfl
  | groupByName name => cases h; exact Access.call_map_snd _ _ s
  | userByEmail email => cases h; exact Access.call_map_snd _ _ s
  | policyByName name => cases h; exact Access.call_map_snd _ _ s
  | page => cases h
  | clear => cases h
  | invalidate => cases h
  | cleanUp => cases h

/-- A request is a call through the cache, the call for a page, or a removal. -/
theorem next_cases {P : CachedState σ τ → Prop} {s : CachedState σ τ} (r : CacheRequest)
    (ask : ∀ c, P ((d.directory.ask c).call s).2)
    (page : ∀ query page size, P ((d.directory.effectivePermissions query page size).call s).2)
    (remove : ∀ p w, P ⟨s.inner, w, (s.cache.removeWhere p).2⟩) : P (d.next s r) := by
  cases r with
  | ask c => exact ask c
  | groupByName name => exact (next_of_call? (r := .groupByName name) rfl s).symm ▸ ask .groups
  | userByEmail email => exact (next_of_call? (r := .userByEmail email) rfl s).symm ▸ ask .users
  | policyByName name => exact (next_of_call? (r := .policyByName name) rfl s).symm ▸ ask .policies
  | page => exact page _ _ _
  | clear => exact remove _ _
  | invalidate => exact remove _ _
  | cleanUp => exact remove _ _

theorem next_of_direct {r : CacheRequest} (hr : r.isCall = true) (h : r.call? = none)
    (s : CachedState σ τ) :
    (d.next s r).cache = s.cache ∧ (d.next s r).clock = s.clock := by
  cases r with
  | page => exact ⟨rfl, rfl⟩
  | ask => cases h
  | groupByName => cases h
  | userByEmail => cases h
  | policyByName => cases h
  | clear => cases hr
  | invalidate => cases hr
  | cleanUp => cases hr

theorem reads_append_singleton (s : CachedState σ τ) (rs : List CacheRequest) (r : CacheRequest) :
    d.reads s (rs ++ [r]) = d.reads s rs ++ (d.read? (d.run s rs) r).toList := by
  induction rs generalizing s with
  | nil => simp [reads, run]
  | cons r' rs ih =>
    rw [List.cons_append, reads, ih, reads, List.append_assoc]
    rfl

/-! ### Entries -/

/-- Every entry keeps an answer to the call whose key it has. -/
def Stored (d : CachedDirectory σ τ) (cache : Cache) : Prop :=
  ∀ e ∈ cache.entries, ∃ (c : CachedCall) (answer : c.Answer) (w : τ),
    e = d.entry c answer (d.clock.read w).1

theorem stored_ask {s : CachedState σ τ} (h : d.Stored s.cache) (c : CachedCall) :
    d.Stored ((d.directory.ask c).call s).2.cache := by
  have hserved := d.served c (d.inner.ask c) s
  rw [← ask_directory] at hserved
  have hleft : ∀ {cache : Cache}, s.cache.lookup (d.clock.read s.clock).1 c.key = (none, cache) →
      d.Stored cache := fun hlookup e he => h e (Cache.lookup_eq_none hlookup e he).1
  generalize (d.directory.ask c).call s = result at hserved
  cases hserved with
  | hit hlookup => exact fun e he => h e ((Cache.lookup_eq_some hlookup).2 e he)
  | failed hlookup => exact hleft hlookup
  | overflow hlookup => exact hleft hlookup
  | @fetched cache answer _ now _ hlookup _ hread =>
    intro e he
    rcases Cache.mem_store he with rfl | ⟨he, -⟩
    · exact ⟨c, answer, (d.clock.read s.clock).2, by rw [hread]; rfl⟩
    · exact hleft hlookup e he

theorem stored_next {s : CachedState σ τ} (h : d.Stored s.cache) (r : CacheRequest) :
    d.Stored (d.next s r).cache := by
  refine next_cases (P := fun s' => d.Stored s'.cache) r (stored_ask h) (fun _ _ _ => h) ?_
  exact fun _ _ e he => h e (Cache.mem_removeWhere he)

theorem stored_run {s : CachedState σ τ} (hs : s.cache.entries = []) (rs : List CacheRequest) :
    d.Stored (d.run s rs).cache := by
  induction rs using List.reverseRecOn with
  | nil =>
    intro e he
    rw [run, List.foldl_nil, hs] at he
    cases he
  | append_singleton rs r ih =>
    rw [run_append]
    exact stored_next ih r

/-- With less time between any two readings of the clock than answers live, nothing expires. -/
theorem nothingExpires_of_lt (hlt : ∀ w w', (d.clock.read w).1 < (d.clock.read w').1 + d.ttl)
    {s : CachedState σ τ} (hs : s.cache.entries = []) (rs : List CacheRequest) :
    d.NothingExpires s rs := by
  intro earlier _ e he
  obtain ⟨c, answer, w, rfl⟩ := stored_run hs earlier e he
  exact hlt _ w

/-! ### Steps -/

/-- What a call through the cache does when nothing has expired: its key is found and comes in
front; or it is not found and the directory behind is asked, and the key comes in front if this
succeeds. -/
inductive Turn (d : CachedDirectory σ τ) (c : CachedCall) (s : CachedState σ τ) :
    Except Failure c.Answer × CachedState σ τ → Prop
  | hit {answer : c.Answer} {s' : CachedState σ τ} (mem : c.key ∈ s.cache.keys)
      (inner : s'.inner = s.inner) (hits : s'.cache.hits = s.cache.hits + 1)
      (keys : s'.cache.keys = promote c.key s.cache.keys) : Turn d c s (.ok answer, s')
  | fetched {answer : c.Answer} {s' : CachedState σ τ} (mem : c.key ∉ s.cache.keys)
      (inner : s'.inner = ((d.inner.ask c).call s.inner).2) (hits : s'.cache.hits = s.cache.hits)
      (keys : s'.cache.keys = (promote c.key s.cache.keys).take s.cache.capacity) :
      Turn d c s (.ok answer, s')
  | failed {f : Failure} {s' : CachedState σ τ} (mem : c.key ∉ s.cache.keys)
      (inner : s'.inner = ((d.inner.ask c).call s.inner).2) (hits : s'.cache.hits = s.cache.hits)
      (keys : s'.cache.keys = s.cache.keys) : Turn d c s (.error f, s')

theorem turn_ask {s : CachedState σ τ} (hfresh : d.Fresh s) (hstored : d.Stored s.cache)
    (c : CachedCall) : d.Turn c s ((d.directory.ask c).call s) := by
  have hserved := d.served c (d.inner.ask c) s
  rw [← ask_directory] at hserved
  by_cases hmem : c.key ∈ s.cache.keys
  · obtain ⟨e, he, hkey, hlookup⟩ := Cache.lookup_of_mem hfresh hmem
    generalize (d.directory.ask c).call s = result at hserved
    cases hserved with
    | hit h =>
      rw [hlookup] at h
      cases h
      -- What is found was stored for this very call, so that it can be read.
      obtain ⟨c', answer, w, rfl⟩ := hstored e he
      obtain rfl := CachedCall.key_injective hkey
      have hkeys : (d.entry c' answer (d.clock.read w).1 :: s.cache.without c'.key).map (·.key) =
          promote c'.key s.cache.keys := congrArg (c'.key :: ·) (s.cache.map_key_without c'.key)
      show d.Turn c' s ((ofJson? (toJson answer)).elim _ _, _)
      rw [ofJson?_toJson]
      exact .hit hmem rfl rfl hkeys
    | failed h => rw [hlookup] at h; cases h
    | overflow h => rw [hlookup] at h; cases h
    | fetched h => rw [hlookup] at h; cases h
  · have hlookup := Cache.lookup_of_not_mem hmem (d.clock.read s.clock).1
    generalize (d.directory.ask c).call s = result at hserved
    cases hserved with
    | hit h => rw [hlookup] at h; cases h
    | failed h hfetch =>
      rw [hlookup] at h
      cases h
      exact .failed hmem (by rw [hfetch]) rfl rfl
    | overflow h hfetch =>
      rw [hlookup] at h
      cases h
      exact .failed hmem (by rw [hfetch]) rfl rfl
    | fetched h hfetch =>
      rw [hlookup] at h
      cases h
      exact .fetched hmem (by rw [hfetch]) rfl (Cache.keys_store _ _)

theorem capacity_ask (s : CachedState σ τ) (c : CachedCall) :
    ((d.directory.ask c).call s).2.cache.capacity = s.cache.capacity := by
  have hserved := d.served c (d.inner.ask c) s
  rw [← ask_directory] at hserved
  have hcapacity := s.cache.lookup_capacity (d.clock.read s.clock).1 c.key
  generalize (d.directory.ask c).call s = result at hserved
  cases hserved with
  | hit h => rwa [h] at hcapacity
  | failed h => rwa [h] at hcapacity
  | overflow h => rwa [h] at hcapacity
  | fetched h => rwa [h] at hcapacity

theorem capacity_next (s : CachedState σ τ) (r : CacheRequest) :
    (d.next s r).cache.capacity = s.cache.capacity :=
  next_cases (P := fun s' => s'.cache.capacity = s.cache.capacity) r (capacity_ask s)
    (fun _ _ _ => rfl) fun _ _ => rfl

/-- What the cache holds after some readings, with room for `n` keys. -/
structure Recent (n : Nat) (reads : List String) (s : CachedState σ τ) : Prop where
  capacity : s.cache.capacity = n
  keys : s.cache.keys = (latestFirst reads).take n

/-- **One call** adds the key that it reads. -/
theorem Recent.next {n : Nat} {reads : List String} {s : CachedState σ τ} (h : Recent n reads s)
    (hfresh : d.Fresh s) (hstored : d.Stored s.cache) {r : CacheRequest} (hr : r.isCall = true) :
    Recent n (reads ++ (d.read? s r).toList) (d.next s r) := by
  refine ⟨(capacity_next s r).trans h.capacity, ?_⟩
  cases hc : r.call? with
  | none =>
    rw [read?, hc, (next_of_direct hr hc s).1, h.keys]
    simp
  | some c =>
    rw [next_of_call? hc, read?, hc]
    have hturn := turn_ask hfresh hstored c
    dsimp only [Option.bind_some]
    generalize (d.directory.ask c).call s = result at hturn
    cases hturn with
    | hit mem _ _ keys =>
      rw [h.keys] at mem keys
      rw [keys, promote_take_of_mem (nodup_latestFirst reads) mem, ← latestFirst_append_singleton]
      rfl
    | fetched _ _ _ keys =>
      rw [h.keys, h.capacity, take_promote_take (nodup_latestFirst reads)] at keys
      rw [keys, ← latestFirst_append_singleton]
      rfl
    | failed _ _ _ keys =>
      rw [keys, h.keys]
      simp [Except.toOption]

/-! ### Runs -/

theorem capacity_run (s : CachedState σ τ) (rs : List CacheRequest) :
    (d.run s rs).cache.capacity = s.cache.capacity := by
  induction rs using List.reverseRecOn with
  | nil => rfl
  | append_singleton rs r ih => rw [run_append, capacity_next, ih]

theorem Emptied.entries_eq_nil {capacity : Nat} {s : CachedState σ τ}
    (h : d.Emptied capacity s) : s.cache.entries = [] := by
  cases h with
  | start => rfl
  | cleared inner w rs =>
    rw [run_append]
    exact List.filter_eq_nil_iff.mpr (by simp)

theorem Emptied.recent {capacity : Nat} {s : CachedState σ τ} (h : d.Emptied capacity s) :
    Recent (max capacity 1) [] s := by
  refine ⟨?_, by simp [Cache.keys, h.entries_eq_nil, latestFirst]⟩
  cases h with
  | start => rfl
  | cleared inner w rs => exact capacity_run _ _

/-- **Calls in a row** leave the keys that they read, those read last first. -/
theorem recent_run {capacity : Nat} {s : CachedState σ τ} (hs : d.Emptied capacity s)
    {rs : List CacheRequest} (hcalls : ∀ r ∈ rs, r.isCall = true)
    (hfresh : d.NothingExpires s rs) :
    Recent (max capacity 1) (d.reads s rs) (d.run s rs) := by
  induction rs using List.reverseRecOn with
  | nil => exact hs.recent
  | append_singleton rs r ih =>
    rw [run_append, reads_append_singleton]
    have hrs : Recent (max capacity 1) (d.reads s rs) (d.run s rs) :=
      ih (fun r' hr' => hcalls r' (List.mem_append_left _ hr'))
        fun earlier h => hfresh earlier (h.trans (List.prefix_append rs [r]))
    exact hrs.next (hfresh rs (List.prefix_append rs [r])) (stored_run hs.entries_eq_nil rs)
      (hcalls r (by simp))

/-- A call is a hit when its key stands in the cache. -/
theorem hits_iff {s : CachedState σ τ} (hfresh : d.Fresh s) (hstored : d.Stored s.cache)
    {r : CacheRequest} {c : CachedCall} (hc : r.call? = some c) :
    d.Hits s r ↔ c.key ∈ s.cache.keys := by
  rw [Hits, next_of_call? hc]
  have hturn := turn_ask hfresh hstored c
  generalize (d.directory.ask c).call s = result at hturn
  cases hturn with
  | hit mem _ hits => exact iff_of_true hits mem
  | fetched mem _ hits => exact iff_of_false (fun h => Nat.succ_ne_self _ (h.symm.trans hits)) mem
  | failed mem _ hits => exact iff_of_false (fun h => Nat.succ_ne_self _ (h.symm.trans hits)) mem

/-- The directory behind is asked by the calls that are no hits. -/
theorem inner_next {s : CachedState σ τ} (hfresh : d.Fresh s) (hstored : d.Stored s.cache)
    {r : CacheRequest} {c : CachedCall} (hc : r.call? = some c) :
    (d.Hits s r → (d.next s r).inner = s.inner) ∧
      (¬ d.Hits s r → (d.next s r).inner = ((d.inner.ask c).call s.inner).2) := by
  rw [hits_iff hfresh hstored hc, next_of_call? hc]
  have hturn := turn_ask hfresh hstored c
  generalize (d.directory.ask c).call s = result at hturn
  cases hturn with
  | hit mem inner => exact ⟨fun _ => inner, fun h => absurd mem h⟩
  | fetched mem inner => exact ⟨fun h => absurd h mem, fun _ => inner⟩
  | failed mem inner => exact ⟨fun h => absurd h mem, fun _ => inner⟩

/-- **A call after others** is a hit when its key was read recently. -/
theorem hits_run_iff {capacity : Nat} {s : CachedState σ τ} (hs : d.Emptied capacity s)
    {rs : List CacheRequest} (hcalls : ∀ r ∈ rs, r.isCall = true) (hfresh : d.NothingExpires s rs)
    {r : CacheRequest} {c : CachedCall} (hc : r.call? = some c) :
    d.Hits (d.run s rs) r ↔ ReadRecently (max capacity 1) c.key (d.reads s rs) := by
  rw [hits_iff (hfresh rs (List.prefix_refl rs)) (stored_run hs.entries_eq_nil rs) hc,
    (recent_run hs hcalls hfresh).keys, mem_take_latestFirst_iff]

end CachedDirectory

/-! ### Records at hand -/

/-- The key that a request reads when a directory in memory stands behind the cache. -/
def MemoryDirectory.read? (m : MemoryDirectory) (r : CacheRequest) : Option String :=
  r.call?.bind fun c => (m.answer c).toOption.map fun _ => c.key

namespace CachedDirectory

variable {τ : Type} {m : MemoryDirectory} {d : CachedDirectory Nat τ} (hd : d.inner = m.directory)
  (hlast : ∀ w, (d.clock.read w).1 + d.ttl ≤ Time.last)
include hd hlast

theorem agree_ask {s : CachedState Nat τ} (h : Faithful m s.cache) (c : CachedCall) :
    ((d.directory.ask c).call s).1 = m.answer c ∧
      Faithful m ((d.directory.ask c).call s).2.cache := by
  have htracks : Tracks m s.inner 0 s 0 := ⟨h, by omega⟩
  have hagree := ask_related hd hlast c s 0 htracks
  exact ⟨hagree.answer_eq, hagree.state.1⟩

theorem faithful_next {s : CachedState Nat τ} (h : Faithful m s.cache) (r : CacheRequest) :
    Faithful m (d.next s r).cache := by
  refine next_cases (P := fun s' => Faithful m s'.cache) r ?_ (fun _ _ _ => h) ?_
  · exact fun c => (agree_ask hd hlast h c).2
  · exact fun _ _ e he => h e (Cache.mem_removeWhere he)

theorem read?_eq {s : CachedState Nat τ} (h : Faithful m s.cache) (r : CacheRequest) :
    d.read? s r = m.read? r := by
  unfold read? MemoryDirectory.read?
  refine congrArg r.call?.bind (funext fun c => ?_)
  rw [(agree_ask hd hlast h c).1]

theorem faithful_run {s : CachedState Nat τ} (h : Faithful m s.cache) (rs : List CacheRequest) :
    Faithful m (d.run s rs).cache := by
  induction rs using List.reverseRecOn with
  | nil => exact h
  | append_singleton rs r ih =>
    rw [run_append]
    exact faithful_next hd hlast ih r

/-- What is read does not depend on the cache. -/
theorem reads_eq {s : CachedState Nat τ} (h : Faithful m s.cache) (rs : List CacheRequest) :
    d.reads s rs = rs.filterMap m.read? := by
  induction rs generalizing s with
  | nil => rfl
  | cons r rs ih =>
    rw [reads, read?_eq hd hlast h, ih (faithful_next hd hlast h r), List.filterMap_cons]
    cases m.read? r with
    | none => rfl
    | some k => rfl

/-- A request that reads nothing does not change what the requests after it read. -/
theorem reads_append_cons {s : CachedState Nat τ} (h : Faithful m s.cache)
    {before : List CacheRequest} {r : CacheRequest} (hr : d.read? (d.run s before) r = none)
    (after : List CacheRequest) :
    d.reads s (before ++ r :: after) = d.reads s (before ++ after) := by
  rw [read?_eq hd hlast (faithful_run hd hlast h before)] at hr
  rw [reads_eq hd hlast h, reads_eq hd hlast h, List.filterMap_append, List.filterMap_append,
    List.filterMap_cons_none hr]

end CachedDirectory

open CachedDirectory in
/-- **The calls that hit are those whose keys were read last.** Let nothing expire while a directory
in memory is called through a cache that is empty at first. A call through the cache is a hit, which
is when the directory behind is not asked, exactly when its key was read and fewer other keys than
the cache has room for were read since. A call that fails or is not remembered leaves the keys in
their order; without it, as long as expiries stay in the calendar, the same calls after it hit. -/
theorem cache_recency {τ : Type} (m : MemoryDirectory) (clock : Clock τ) (ttl capacity : Nat)
    (s : CachedState Nat τ) (hs : Emptied ⟨m.directory, clock, ttl⟩ capacity s)
    (rs : List CacheRequest) (hcalls : ∀ r ∈ rs, r.isCall = true)
    (hfresh : NothingExpires ⟨m.directory, clock, ttl⟩ s rs) :
    let d : CachedDirectory Nat τ := ⟨m.directory, clock, ttl⟩
    (∀ r c, r.call? = some c →
      (d.Hits (d.run s rs) r ↔ ReadRecently (max capacity 1) c.key (d.reads s rs)) ∧
      (d.Hits (d.run s rs) r ↔ (d.next (d.run s rs) r).inner = (d.run s rs).inner)) ∧
    (∀ r, r.isCall = true → d.read? (d.run s rs) r = none →
      (d.next (d.run s rs) r).cache.keys = (d.run s rs).cache.keys) ∧
    ((∀ w, (clock.read w).1 + ttl ≤ Time.last) → ∀ before r after, rs = before ++ r :: after →
      d.read? (d.run s before) r = none → d.NothingExpires s (before ++ after) →
        ∀ r' c, r'.call? = some c →
          (d.Hits (d.run s rs) r' ↔ d.Hits (d.run s (before ++ after)) r')) := by
  intro d
  have hnow : d.Fresh (d.run s rs) := hfresh rs (List.prefix_refl rs)
  have hstored : d.Stored (d.run s rs).cache := stored_run hs.entries_eq_nil rs
  refine ⟨fun r c hc => ⟨hits_run_iff hs hcalls hfresh hc, ?_⟩, fun r hr hnone => ?_, ?_⟩
  · obtain ⟨hhit, hmiss⟩ := inner_next hnow hstored hc
    refine ⟨hhit, fun h => ?_⟩
    by_contra hnot
    have hasked := hmiss hnot
    rw [h, m.call_ask] at hasked
    exact Nat.succ_ne_self _ hasked.symm
  · have hrecent := recent_run hs hcalls hfresh
    have hnext := hrecent.next hnow hstored hr
    rw [hnone, Option.toList_none, List.append_nil] at hnext
    rw [hnext.keys, hrecent.keys]
  · rintro hlast before r after rfl hnone hfresh' r' c hc
    have hfaithful : Faithful m s.cache := by
      intro e he
      rw [hs.entries_eq_nil] at he
      cases he
    have hcalls' : ∀ q ∈ before ++ after, q.isCall = true := by
      simp only [List.mem_append, List.mem_cons] at hcalls ⊢
      exact fun q hq => hcalls q (hq.imp_right .inr)
    rw [hits_run_iff hs hcalls hfresh hc, hits_run_iff hs hcalls' hfresh' hc,
      reads_append_cons rfl hlast hfaithful hnone]

open CachedDirectory in
/-- With room for two keys: the group is read again before the groups are listed, so that the
listing of the policies is what goes. The group that does not exist changes nothing. -/
theorem policies_dropped :
    let d : CachedDirectory Nat Unit := ⟨MemoryDirectory.oneGroup.directory, Clock.steady, 60⟩
    let s : CachedState Nat Unit := start 0 () 2
    let before : List CacheRequest := [.ask (.group "g"), .ask .policies, .ask (.group "g")]
    let rs : List CacheRequest := before ++ [.ask (.group "h"), .ask .groups]
    d.Emptied 2 s ∧ (∀ r ∈ rs, r.isCall = true) ∧ d.NothingExpires s rs ∧
      d.Hits (d.run s rs) (.ask (.group "g")) ∧ ¬ d.Hits (d.run s rs) (.ask .policies) ∧
      d.Hits (d.run s (before ++ [.ask .groups])) (.ask (.group "g")) := by
  intro d s before rs
  have hs : d.Emptied 2 s := .start 0 ()
  have hcalls : ∀ r ∈ rs, r.isCall = true := by simp [rs, before, CacheRequest.isCall]
  have hlt : ∀ w w', (d.clock.read w).1 < (d.clock.read w').1 + (d.ttl : Int) := by
    intro w w'
    show (0 : Int) < 0 + 60
    decide
  have hlast : ∀ w, (d.clock.read w).1 + (d.ttl : Int) ≤ Time.last := by
    intro w
    show (0 : Int) + 60 ≤ Time.last
    decide
  have hfresh : ∀ rs, d.NothingExpires s rs := nothingExpires_of_lt hlt rfl
  obtain ⟨hhits, -, hwithout⟩ := cache_recency MemoryDirectory.oneGroup Clock.steady 60 2 s hs rs
    hcalls (hfresh rs)
  have hgroup : d.Hits (d.run s rs) (.ask (.group "g")) :=
    (hhits _ (.group "g") rfl).1.mpr
      ⟨["group:g", "policies"], ["groups"], by decide, by decide, by decide⟩
  have hpolicies : ¬ d.Hits (d.run s rs) (.ask .policies) :=
    mt (hhits _ .policies rfl).2.mp (by decide)
  exact ⟨hs, hcalls, hfresh rs, hgroup, hpolicies,
    (hwithout hlast before (.ask (.group "h")) [.ask .groups] rfl (by decide) (hfresh _) _
      (.group "g") rfl).mp hgroup⟩

end Entitlements
