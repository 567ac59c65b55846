import Entitlements.Proofs.Cache.Served
import Entitlements.Proofs.Directory.Memory
import Entitlements.Proofs.Review.Alike

/-! # Transparency: a cache in front of records at hand

The entries of a cache in front of a directory in memory are what that directory would answer
(`Faithful`), since it answers a call in the same way each time. The cached directory is then alike
to it, with no more calls made behind the cache than without one, and no analysis can tell the two
apart (`cache_transparent`). -/

namespace Entitlements

open Access

/-- A cache whose entries are what `m` answers. -/
def Faithful (m : MemoryDirectory) (cache : Cache) : Prop :=
  ∀ e ∈ cache.entries, ∃ (c : CachedCall) (answer : c.Answer), e.key = c.key ∧
    e.value = toJson answer ∧ m.answer c = .ok answer

/-- A state whose cache is faithful, with no more calls made behind it since there were `before`
than without a cache since there were `before'`. -/
def Tracks (m : MemoryDirectory) {τ : Type} (before before' : Nat) (s : CachedState Nat τ)
    (n : Nat) : Prop :=
  Faithful m s.cache ∧ s.inner + before' ≤ n + before

namespace CachedDirectory

variable {τ : Type} {m : MemoryDirectory} {d : CachedDirectory Nat τ} {before before' : Nat}

/-- **Each call** through the cache is answered like the call on the directory behind it. -/
theorem ask_related (hd : d.inner = m.directory)
    (hlast : ∀ w, (d.clock.read w).1 + d.ttl ≤ Time.last) (c : CachedCall) :
    Related (Tracks m before before') Eq (d.directory.ask c) (m.directory.ask c) := by
  rintro s n ⟨hfaithful, hcount⟩
  have hserved := d.served c (d.inner.ask c) s
  rw [← ask_directory, hd] at hserved
  rw [m.call_ask c n]
  generalize (d.directory.ask c).call s = result at hserved
  have hsub : ∀ {cache : Cache}, s.cache.lookup (d.clock.read s.clock).1 c.key = (none, cache) →
      Faithful m cache := fun h e he => hfaithful e (Cache.lookup_eq_none h e he).1
  cases hserved with
  | hit h =>
    obtain ⟨⟨e, he, hkey, rfl, -⟩, hcache⟩ := Cache.lookup_eq_some h
    obtain ⟨c', answer, hkey', hvalue, hanswer⟩ := hfaithful e he
    obtain rfl := CachedCall.key_injective (hkey'.symm.trans hkey)
    rw [hvalue, ofJson?_toJson, hanswer]
    exact agree_same _ ⟨fun e he => hfaithful e (hcache e he), by dsimp only; omega⟩
  | failed h hfetch =>
    rw [m.call_ask c] at hfetch
    obtain ⟨hanswer, rfl⟩ := Prod.mk.inj hfetch
    rw [hanswer]
    exact agree_same _ ⟨hsub h, by dsimp only; omega⟩
  | overflow h hfetch hread hlt =>
    have := hlast (d.clock.read s.clock).2
    rw [hread] at this
    exact absurd hlt (Int.not_lt.mpr this)
  | @fetched cache answer inner now clock h hfetch =>
    rw [m.call_ask c] at hfetch
    obtain ⟨hanswer, rfl⟩ := Prod.mk.inj hfetch
    rw [hanswer]
    refine agree_same _ ⟨fun e he => ?_, by dsimp only; omega⟩
    rcases Cache.mem_store he with rfl | ⟨he, -⟩
    · exact ⟨c, answer, rfl, rfl, hanswer⟩
    · exact hsub h e he

theorem alike (hd : d.inner = m.directory)
    (hlast : ∀ w, (d.clock.read w).1 + d.ttl ≤ Time.last) :
    d.directory.Alike (Tracks m before before') m.directory := by
  refine ⟨congrArg Directory.account hd, ask_related hd hlast, fun query page size => ?_⟩
  rintro s n ⟨hfaithful, hcount⟩
  have hcall : (d.directory.effectivePermissions query page size).call s =
      (m.pageAnswer query page size, { s with inner := s.inner + 1 }) := by
    show (match (d.inner.effectivePermissions query page size).call s.inner with
      | (answer, inner) => (answer, { s with inner })) = _
    rw [hd, m.call_page]
  rw [hcall, m.call_page]
  exact agree_same _ ⟨hfaithful, by dsimp only; omega⟩

/-- The states that a cached directory reaches by calls, analyses and removals. -/
inductive Reachable (d : CachedDirectory Nat τ) : CachedState Nat τ → Prop
  | start (calls : Nat) (w : τ) (capacity : Nat) : Reachable d (start calls w capacity)
  | engine {s : CachedState Nat τ} (x : EngineCall) (h : Reachable d s) :
      Reachable d ((x.on d.directory).call s).2
  | clear {s : CachedState Nat τ} (h : Reachable d s) : Reachable d (clear s).2
  | invalidate {s : CachedState Nat τ} (start : String) (h : Reachable d s) :
      Reachable d (invalidate start s).2
  | cleanUp {s : CachedState Nat τ} (h : Reachable d s) : Reachable d (d.cleanUp s).2

theorem Reachable.faithful (hd : d.inner = m.directory)
    (hlast : ∀ w, (d.clock.read w).1 + d.ttl ≤ Time.last) {s : CachedState Nat τ}
    (h : Reachable d s) : Faithful m s.cache := by
  induction h with
  | start =>
    intro e he
    cases he
  | @engine s x _ ih =>
    have htracks : Tracks m s.inner 0 s 0 := ⟨ih, by omega⟩
    exact ((alike hd hlast).engine x s 0 htracks).state.1
  | clear _ ih => exact fun e he => ih e (Cache.mem_removeWhere he)
  | invalidate start _ ih => exact fun e he => ih e (Cache.mem_removeWhere he)
  | cleanUp _ ih => exact fun e he => ih e (Cache.mem_removeWhere he)

end CachedDirectory

open CachedDirectory in
/-- **The cache cannot be noticed.** In front of a directory in memory, whatever its state, every
call and every analysis fails alike or gives the same answer with the cache as without it, and no
more calls are made behind it. -/
theorem cache_transparent {τ : Type} (m : MemoryDirectory) (clock : Clock τ) (ttl : Nat)
    (hlast : ∀ w, (clock.read w).1 + ttl ≤ Time.last) (s : CachedState Nat τ)
    (h : Reachable ⟨m.directory, clock, ttl⟩ s) (x : EngineCall) (n : Nat) :
    let cached := (x.on (CachedDirectory.mk m.directory clock ttl).directory).call s
    let bare := (x.on m.directory).call n
    cached.1 = bare.1 ∧ cached.2.inner + n ≤ bare.2 + s.inner := by
  have hd : (CachedDirectory.mk m.directory clock ttl).inner = m.directory := rfl
  have htracks : Tracks m s.inner n s n := ⟨h.faithful hd hlast, by omega⟩
  have hagree := (alike hd hlast).engine x s n htracks
  exact ⟨hagree.answer_eq, hagree.state.2⟩

open CachedDirectory in
/-- The matrix of the groups, whose listing is kept already. -/
theorem groupMatrix_transparent :
    let d : CachedDirectory Nat Unit := ⟨MemoryDirectory.oneGroup.directory, Clock.steady, 60⟩
    let s := ((EngineCall.ask .groups).on d.directory |>.call (start 0 () 8)).2
    let cached := (EngineCall.groupMatrix.on d.directory).call s
    let bare := (EngineCall.groupMatrix.on MemoryDirectory.oneGroup.directory).call 0
    (∀ w, (Clock.steady.read w).1 + (60 : Nat) ≤ Time.last) ∧ Reachable d s ∧
      cached.1 = bare.1 ∧ cached.2.inner + 0 ≤ bare.2 + s.inner := by
  intro d s cached bare
  have hlast : ∀ w, (Clock.steady.read w).1 + (60 : Nat) ≤ Time.last := by
    intro w
    show (0 : Int) + 60 ≤ Time.last
    decide
  have hs : Reachable d s := .engine _ (.start 0 () 8)
  exact ⟨hlast, hs, cache_transparent MemoryDirectory.oneGroup Clock.steady 60 hlast s hs
    .groupMatrix 0⟩

end Entitlements
