import Entitlements.Directory.Config
import Entitlements.Proofs.Cache.Frame

/-! # Expiry and the end of the calendar

An answer is kept with the time at which it expires, and the calendar ends. As long as the expiry
lies within it, a request fails only where it fails without the cache, and an answer that is fetched
comes back to the caller. Beyond it the call aborts although the answer was there
(`reads_within_calendar`). A time to live that is too long to be counted stands for none and is
safe, but one that can be counted may still be too long for the calendar (`longTtl_aborts`). -/

namespace Entitlements

/-- How a request ends on a directory; nothing is asked of it by a removal. -/
def Directory.ending {σ : Type} (d : Directory σ) (s : σ) : CacheRequest → Except Failure Unit
  | .ask c => ((d.ask c).call s).1.map fun _ => ()
  | .groupByName name => ((d.groupByName name).call s).1.map fun _ => ()
  | .userByEmail email => ((d.userByEmail email).call s).1.map fun _ => ()
  | .policyByName name => ((d.policyByName name).call s).1.map fun _ => ()
  | .page query page size => ((d.effectivePermissions query page size).call s).1.map fun _ => ()
  | .clear | .invalidate _ | .cleanUp => .ok ()

/-! ### Failures -/

section Map
variable {σ α β : Type}

theorem map_eq_error_iff {answer : Except Failure α} {g : α → β} {f : Failure} :
    answer.map g = .error f ↔ answer = .error f := by
  cases answer <;> simp [Except.map]

theorem Access.call_map_fst (a : Access σ α) (g : α → β) (s : σ) :
    ((do return g (← a) : Access σ β).call s).1 = (a.call s).1.map g := by
  rw [call_bind]
  rcases a.call s with ⟨_ | _, _⟩ <;> rfl

end Map

/-- A lookup by name or email fails as the listing does. -/
theorem Directory.ending_of_call? {σ : Type} (d : Directory σ) (s : σ) {r : CacheRequest}
    {c : CachedCall} (h : r.call? = some c) {f : Failure} :
    d.ending s r = .error f ↔ ((d.ask c).call s).1 = .error f := by
  cases r with
  | ask => cases h; exact map_eq_error_iff
  | groupByName name =>
    cases h
    rw [ending, groupByName, Access.call_map_fst, map_eq_error_iff, map_eq_error_iff]
    rfl
  | userByEmail email =>
    cases h
    rw [ending, userByEmail, Access.call_map_fst, map_eq_error_iff, map_eq_error_iff]
    rfl
  | policyByName name =>
    cases h
    rw [ending, policyByName, Access.call_map_fst, map_eq_error_iff, map_eq_error_iff]
    rfl
  | page => cases h
  | clear => cases h
  | invalidate => cases h
  | cleanUp => cases h

namespace CachedDirectory

variable {σ τ : Type} {d : CachedDirectory σ τ} {s : CachedState σ τ}

/-- No entry under the key of a call is alive, so that the directory behind is asked. -/
def Misses (d : CachedDirectory σ τ) (s : CachedState σ τ) (c : CachedCall) : Prop :=
  (s.cache.lookup (d.askedAt s) c.key).1 = none

/-! ### Entries expire within the calendar -/

/-- All entries expire within the calendar. -/
def ExpiresInTime (cache : Cache) : Prop := ∀ e ∈ cache.entries, e.expiresAt ≤ Time.last

theorem expiresInTime_ask (h : ExpiresInTime s.cache) (c : CachedCall) :
    ExpiresInTime ((d.directory.ask c).call s).2.cache := by
  have hserved := d.served c (d.inner.ask c) s
  rw [← ask_directory] at hserved
  have hleft : ∀ {cache : Cache}, s.cache.lookup (d.clock.read s.clock).1 c.key = (none, cache) →
      ExpiresInTime cache := fun hlookup e he => h e (Cache.lookup_eq_none hlookup e he).1
  generalize (d.directory.ask c).call s = result at hserved
  cases hserved with
  | hit hlookup => exact fun e he => h e ((Cache.lookup_eq_some hlookup).2 e he)
  | failed hlookup => exact hleft hlookup
  | overflow hlookup => exact hleft hlookup
  | fetched hlookup _ _ hlast =>
    intro e he
    rcases Cache.mem_store he with rfl | ⟨he, -⟩
    · exact hlast
    · exact hleft hlookup e he

theorem expiresInTime_next (h : ExpiresInTime s.cache) (r : CacheRequest) :
    ExpiresInTime (d.next s r).cache := by
  refine next_cases (P := fun s' => ExpiresInTime s'.cache) r (expiresInTime_ask h)
    (fun _ _ _ => h) ?_
  exact fun _ _ e he => h e (Cache.mem_removeWhere he)

theorem expiresInTime_run (hs : s.cache.entries = []) (rs : List CacheRequest) :
    ExpiresInTime (d.run s rs).cache := by
  induction rs using List.reverseRecOn with
  | nil =>
    intro e he
    rw [run, List.foldl_nil, hs] at he
    cases he
  | append_singleton rs r ih =>
    rw [run_append]
    exact expiresInTime_next ih r

/-! ### Calls -/

/-- **A call fails only as the directory behind does**, as long as the expiry of an answer lies in
the calendar: what is kept is always read back. -/
theorem ask_fails (hstored : d.Stored s.cache) (hlast : d.fetchedAt s + d.ttl ≤ Time.last)
    {c : CachedCall} {f : Failure} (h : ((d.directory.ask c).call s).1 = .error f) :
    ((d.inner.ask c).call s.inner).1 = .error f := by
  have hserved := d.served c (d.inner.ask c) s
  rw [← ask_directory] at hserved
  generalize (d.directory.ask c).call s = result at hserved h
  cases hserved with
  | hit hlookup =>
    obtain ⟨⟨e, he, hkey, rfl, -⟩, -⟩ := Cache.lookup_eq_some hlookup
    obtain ⟨c', answer, w, rfl⟩ := hstored e he
    obtain rfl := CachedCall.key_injective hkey
    have hback : (ofJson? (toJson answer) : Option c'.Answer) = some answer := ofJson?_toJson answer
    rw [show (d.entry c' answer (d.clock.read w).1).value = toJson answer from rfl, hback] at h
    cases h
  | failed _ hfetch =>
    cases h
    rw [hfetch]
  | overflow _ _ hread hover =>
    obtain ⟨rfl, rfl⟩ := Prod.mk.inj hread
    exact absurd hlast (Int.not_le.mpr hover)
  | fetched => cases h

/-- **A request ends in failure** only where it does so on the directory behind. -/
theorem ending_eq (hstored : d.Stored s.cache) (hlast : d.fetchedAt s + d.ttl ≤ Time.last)
    {r : CacheRequest} {f : Failure} (h : d.directory.ending s r = .error f) :
    d.inner.ending s.inner r = .error f := by
  cases hcall : r.call? with
  | some c =>
    rw [Directory.ending_of_call? _ _ hcall] at h ⊢
    exact ask_fails hstored hlast h
  | none =>
    cases r with
    | page => exact h
    | ask => cases hcall
    | groupByName => cases hcall
    | userByEmail => cases hcall
    | policyByName => cases hcall
    | clear => cases h
    | invalidate => cases h
    | cleanUp => cases h

/-- What becomes of an answer that is fetched: it comes back and is kept, or the call aborts and
keeps nothing. -/
theorem ask_of_fetched (hroom : 0 < s.cache.capacity) {c : CachedCall} {answer : c.Answer}
    (hmiss : d.Misses s c) (hfetch : ((d.inner.ask c).call s.inner).1 = .ok answer) :
    let (result, s') := (d.directory.ask c).call s
    (d.fetchedAt s + d.ttl ≤ Time.last →
      result = .ok answer ∧ d.entry c answer (d.fetchedAt s) ∈ s'.cache.entries) ∧
    (Time.last < d.fetchedAt s + d.ttl →
      result = .error (.abort .expiryOverflow) ∧ c.key ∉ s'.cache.keys) := by
  have hserved := d.served c (d.inner.ask c) s
  rw [← ask_directory] at hserved
  generalize (d.directory.ask c).call s = result at hserved
  cases hserved with
  | hit hlookup => cases hmiss.symm.trans (congrArg Prod.fst hlookup)
  | failed _ hcall =>
    rw [hcall] at hfetch
    cases hfetch
  | overflow hlookup _ hread hover =>
    obtain ⟨rfl, rfl⟩ := Prod.mk.inj hread
    refine ⟨fun hle => absurd hle (Int.not_le.mpr hover), fun _ => ⟨rfl, fun hmem => ?_⟩⟩
    obtain ⟨e, he, hkey⟩ := List.mem_map.mp hmem
    exact (Cache.lookup_eq_none hlookup e he).2 hkey
  | @fetched cache a _ _ _ hlookup hcall hread hlast =>
    rw [hcall] at hfetch
    cases hfetch
    obtain ⟨rfl, rfl⟩ := Prod.mk.inj hread
    refine ⟨fun _ => ⟨rfl, ?_⟩, fun hlt => absurd hlast (Int.not_le.mpr hlt)⟩
    have hcapacity : cache.capacity = s.cache.capacity := by
      rw [← s.cache.lookup_capacity (d.clock.read s.clock).1 c.key, hlookup]
    obtain ⟨n, hn⟩ : ∃ n, cache.capacity = n + 1 := ⟨cache.capacity - 1, by omega⟩
    unfold Cache.store
    rw [hn, List.take_succ_cons]
    exact List.mem_cons_self

end CachedDirectory

open CachedDirectory in
/-- **Reads end within the calendar.** After any requests on a new cache, its entries expire within
the calendar. As long as the next expiry lies there too, which it does for a time to live that is too
long to be counted, a request fails only as it does on the directory behind. An answer that is
fetched then comes back and is kept; with an expiry behind the end of the calendar the call aborts
and keeps nothing. -/
theorem reads_within_calendar {σ τ : Type} (inner : Directory σ) (clock : Clock τ)
    (ttl capacity : Nat) (a : σ) (w : τ) (rs : List CacheRequest) :
    let d : CachedDirectory σ τ := ofTtl inner clock ttl
    let s := d.run (start a w capacity) rs
    (∀ e ∈ s.cache.entries, e.expiresAt ≤ Time.last) ∧
    (longestTtl < ttl → d.fetchedAt s ≤ Time.last → d.fetchedAt s + d.ttl ≤ Time.last) ∧
    (d.fetchedAt s + d.ttl ≤ Time.last → ∀ r f, d.directory.ending s r = .error f →
      inner.ending s.inner r = .error f) ∧
    ∀ (c : CachedCall) (answer : c.Answer), d.Misses s c →
      ((inner.ask c).call s.inner).1 = .ok answer →
        let (result, s') := (d.directory.ask c).call s
        (d.fetchedAt s + d.ttl ≤ Time.last →
          result = .ok answer ∧ d.entry c answer (d.fetchedAt s) ∈ s'.cache.entries) ∧
        (Time.last < d.fetchedAt s + d.ttl →
          result = .error (.abort .expiryOverflow) ∧ c.key ∉ s'.cache.keys) := by
  intro d s
  have hstored : d.Stored s.cache := stored_run rfl rs
  have hroom : 0 < s.cache.capacity := by
    rw [(sound_run a w capacity rs : s.cache.Sound _).capacity]
    exact Nat.le_max_right ..
  refine ⟨expiresInTime_run rfl rs, fun hlong hread => ?_, fun hlast r f => ending_eq hstored hlast,
    fun c answer => ask_of_fetched hroom⟩
  have httl : d.ttl = 0 := if_neg (Nat.not_le.mpr hlong)
  rw [httl, Int.natCast_zero, Int.add_zero]
  exact hread

open CachedDirectory in
/-- The longest time to live that reaches the end of the calendar and no further. -/
theorem lastMoment_within_calendar :
    let d : CachedDirectory Nat Unit :=
      ofTtl MemoryDirectory.oneGroup.directory Clock.steady Time.last.toNat
    let s := d.run (start 0 () 8) [.ask .policies]
    d.fetchedAt s + d.ttl = Time.last ∧ d.Misses s .groups ∧
      ((d.directory.ask .groups).call s).1 = .ok [⟨"g", "Group", none, none⟩] ∧
      d.directory.ending s (.ask (.group "h")) =
        .error (.error (.notFound "group" "h")) ∧
      MemoryDirectory.oneGroup.directory.ending s.inner (.ask (.group "h")) =
        .error (.error (.notFound "group" "h")) := by
  intro d s
  have hlast : d.fetchedAt s + d.ttl = Time.last := by decide +kernel
  have hmiss : d.Misses s .groups := by unfold Misses; decide +kernel
  have hfails : d.directory.ending s (.ask (.group "h")) =
      .error (.error (.notFound "group" "h")) := by decide +kernel
  obtain ⟨-, -, hending, hfetched⟩ := reads_within_calendar MemoryDirectory.oneGroup.directory
    Clock.steady Time.last.toNat 8 0 () [.ask .policies]
  have hanswer := (hfetched .groups [⟨"g", "Group", none, none⟩] hmiss (by decide +kernel)).1
  exact ⟨hlast, hmiss, (hanswer hlast.le).1, hfails, hending hlast.le _ _ hfails⟩

open CachedDirectory in
/-- A configured time to live that can be counted, but ends behind the calendar: the groups are there
and are asked for once, and the call aborts. -/
theorem longTtl_aborts :
    let c : DirectoryConfig := { cacheTtlSeconds := 100000000000000 }
    let d : CachedDirectory Nat Unit :=
      ofTtl MemoryDirectory.oneGroup.directory Clock.steady c.cacheTtl
    let s := start 0 () c.cacheCapacity
    c.cacheTtl ≤ longestTtl ∧
      ((MemoryDirectory.oneGroup.directory.ask .groups).call 0).1 =
        .ok [⟨"g", "Group", none, none⟩] ∧
      ((d.directory.ask .groups).call s).1 = .error (.abort .expiryOverflow) ∧
      ((d.directory.ask .groups).call s).2.inner = 1 := by
  decide +kernel

end Entitlements
