import Entitlements.Proofs.Directory.Calls

/-! # Calls through a cache

Readings of a clock one after the other, what a lookup finds and leaves in a cache, and what comes
in when an answer is stored. How a call goes through a cached directory is told by cases
(`CachedDirectory.served`). -/

namespace Entitlements

/-! ### Clocks -/

namespace Clock

/-- The state of a clock that has been read `n` times. -/
def after {τ : Type} (clock : Clock τ) : Nat → τ → τ
  | 0, w => w
  | n + 1, w => clock.after n (clock.read w).2

theorem read_le_after {τ : Type} {clock : Clock τ}
    (hmono : ∀ w, (clock.read w).1 ≤ (clock.read (clock.read w).2).1) :
    ∀ (n : Nat) (w : τ), (clock.read w).1 ≤ (clock.read (clock.after n w)).1
  | 0, _ => Int.le_refl _
  | n + 1, w => Int.le_trans (hmono w) (read_le_after hmono n _)

/-- A clock that stands still. -/
def steady : Clock Unit := ⟨fun w => (0, w)⟩

end Clock

/-! ### Entries of a cache -/

namespace Cache

theorem mem_without {c : Cache} {key : String} {e : CacheEntry} :
    e ∈ c.without key ↔ e ∈ c.entries ∧ e.key ≠ key := by
  simp [without]

/-- What is found stands in the cache and has not expired, and nothing new comes in. -/
theorem lookup_eq_some {c c' : Cache} {now : Time} {key : String} {value : Json}
    (h : c.lookup now key = (some value, c')) :
    (∃ e ∈ c.entries, e.key = key ∧ e.value = value ∧ now < e.expiresAt) ∧
      ∀ e ∈ c'.entries, e ∈ c.entries := by
  unfold lookup at h
  split at h
  · next e hfind =>
    have hmem : e ∈ c.entries := List.mem_of_find?_eq_some hfind
    split at h
    · cases h
    · next hexpired =>
      cases h
      refine ⟨⟨e, hmem, ?_, rfl, ?_⟩, fun e' he' => ?_⟩
      · simpa using List.find?_some hfind
      · simpa [CacheEntry.isExpired] using hexpired
      · rcases List.mem_cons.mp he' with rfl | he'
        · exact hmem
        · exact (mem_without.mp he').1
  · cases h

/-- When nothing is found, no entry under the key is left. -/
theorem lookup_eq_none {c c' : Cache} {now : Time} {key : String}
    (h : c.lookup now key = (none, c')) : ∀ e ∈ c'.entries, e ∈ c.entries ∧ e.key ≠ key := by
  unfold lookup at h
  split at h
  · split at h
    · cases h
      exact fun e he => mem_without.mp he
    · cases h
  · next hfind =>
    cases h
    refine fun e he => ⟨he, fun hkey => ?_⟩
    exact List.find?_eq_none.mp hfind e he (by simp [hkey])

theorem mem_store {c : Cache} {e e' : CacheEntry} (h : e' ∈ (c.store e).entries) :
    e' = e ∨ e' ∈ c.entries ∧ e'.key ≠ e.key := by
  rcases List.mem_cons.mp (List.mem_of_mem_take h) with rfl | h
  · exact .inl rfl
  · exact .inr (mem_without.mp h)

theorem mem_removeWhere {c : Cache} {p : CacheEntry → Bool} {e : CacheEntry}
    (h : e ∈ (c.removeWhere p).2.entries) : e ∈ c.entries := (List.mem_filter.mp h).1

end Cache

namespace CachedDirectory

variable {σ τ α : Type} (d : CachedDirectory σ τ)

theorem ask_directory (c : CachedCall) : d.directory.ask c = d.through c (d.inner.ask c) := by
  cases c <;> rfl

/-- How a call goes through the cache: its answer is found; or it is asked for, and fails, or cannot
be kept, or is kept from then on. -/
inductive Served [Wire α] (c : CachedCall) (fetch : Access σ α) (s : CachedState σ τ) :
    Except Failure α × CachedState σ τ → Prop
  | hit {value : Json} {cache : Cache}
      (h : s.cache.lookup (d.clock.read s.clock).1 c.key = (some value, cache)) :
      Served c fetch s
        ((ofJson? value).elim (.error (.error (.invalidResponse none))) .ok,
          ⟨s.inner, (d.clock.read s.clock).2, cache⟩)
  | failed {cache : Cache} {f : Failure} {inner : σ}
      (h : s.cache.lookup (d.clock.read s.clock).1 c.key = (none, cache))
      (hfetch : fetch.call s.inner = (.error f, inner)) :
      Served c fetch s (.error f, ⟨inner, (d.clock.read s.clock).2, cache⟩)
  | overflow {cache : Cache} {a : α} {inner : σ} {now : Time} {clock : τ}
      (h : s.cache.lookup (d.clock.read s.clock).1 c.key = (none, cache))
      (hfetch : fetch.call s.inner = (.ok a, inner))
      (hread : d.clock.read (d.clock.read s.clock).2 = (now, clock))
      (hlast : Time.last < now + d.ttl) :
      Served c fetch s (.error (.abort .expiryOverflow), ⟨inner, clock, cache⟩)
  | fetched {cache : Cache} {a : α} {inner : σ} {now : Time} {clock : τ}
      (h : s.cache.lookup (d.clock.read s.clock).1 c.key = (none, cache))
      (hfetch : fetch.call s.inner = (.ok a, inner))
      (hread : d.clock.read (d.clock.read s.clock).2 = (now, clock))
      (hlast : now + d.ttl ≤ Time.last) :
      Served c fetch s
        (.ok a, ⟨inner, clock, cache.store ⟨c.key, toJson a, now, now + d.ttl⟩⟩)

theorem served [Wire α] (c : CachedCall) (fetch : Access σ α) (s : CachedState σ τ) :
    d.Served c fetch s ((d.through c fetch).call s) := by
  show d.Served c fetch s (d.through c fetch s)
  unfold through
  dsimp only
  split
  · next value cache hlookup =>
    have : d.Served c fetch s _ := .hit hlookup
    cases h : (ofJson? value : Option α) with
    | none => simpa [h] using this
    | some a => simpa [h] using this
  · next cache hlookup =>
    split
    · next a inner hfetch =>
      unfold keep
      dsimp only
      split
      · next hlast => exact .overflow hlookup hfetch rfl hlast
      · next hlast => exact .fetched hlookup hfetch rfl (Int.not_lt.mp hlast)
    · next f inner hfetch => exact .failed hlookup hfetch

end CachedDirectory

end Entitlements
