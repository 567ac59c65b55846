import Entitlements.Proofs.Access.Each
import Entitlements.Proofs.Cache.Served
import Entitlements.Proofs.Directory.Memory
import Entitlements.Proofs.Directory.Recorded
import Mathlib.Data.List.Induction

/-! # Coherence: what a cached directory answers

A cached directory in front of a recorded one is asked for anything, and cleared from time to time
(`CacheRequest`, `CachedDirectory.run`). `Kept` says which answers it still keeps: those fetched
last, as long as their entries stay. Every entry of the cache is such an answer (`run_entries`), so
a call either asks the directory behind once or gives the answer fetched last
(`cached_coherent`). -/

namespace Entitlements

/-- What can be asked of a cached directory. -/
inductive CacheRequest where
  | ask (c : CachedCall)
  | groupByName (name : String)
  | userByEmail (email : String)
  | policyByName (name : String)
  | page (query : EffectivePermissionsQuery) (page size : Nat)
  | clear
  | invalidate (start : String)
  | cleanUp

namespace CachedDirectory

section Run

variable {σ τ : Type} (d : CachedDirectory σ τ)

/-- The state after a request. -/
def next (s : CachedState σ τ) : CacheRequest → CachedState σ τ
  | .ask c => ((d.directory.ask c).call s).2
  | .groupByName name => ((d.directory.groupByName name).call s).2
  | .userByEmail email => ((d.directory.userByEmail email).call s).2
  | .policyByName name => ((d.directory.policyByName name).call s).2
  | .page query page size => ((d.directory.effectivePermissions query page size).call s).2
  | .clear => (clear s).2
  | .invalidate start => (invalidate start s).2
  | .cleanUp => (d.cleanUp s).2

/-- The state after some requests. -/
def run (s : CachedState σ τ) (rs : List CacheRequest) : CachedState σ τ := rs.foldl d.next s

@[simp] theorem run_append (s : CachedState σ τ) (rs : List CacheRequest) (r : CacheRequest) :
    d.run s (rs ++ [r]) = d.next (d.run s rs) r := by
  simp [run]

/-- The entry of an answer that is kept at `now`. -/
def entry (c : CachedCall) (answer : c.Answer) (now : Time) : CacheEntry :=
  ⟨c.key, toJson answer, now, now + d.ttl⟩

end Run

/-! ### Steps -/

section Recorded

variable {σ τ : Type} (d : CachedDirectory (σ × List Record) τ)

/-- What a request can do: the directory behind is asked for `new`, the clock is read some times,
and every entry stood there before, under the key of no call that was asked, or keeps an answer
just fetched. -/
structure Step (s s' : CachedState (σ × List Record) τ) (new : List Record) : Prop where
  log : s'.inner.2 = s.inner.2 ++ new
  clock : ∃ n, s'.clock = d.clock.after n s.clock
  entries : ∀ e ∈ s'.cache.entries,
    (e ∈ s.cache.entries ∧ ∀ c answer, .kept c answer ∈ new → e.key ≠ c.key) ∨
      ∃ c answer, new = [.kept c (.ok answer)] ∧ s'.clock = d.clock.after 2 s.clock ∧
        e = d.entry c answer (d.clock.read (d.clock.after 1 s.clock)).1

variable {d} {inner : Directory σ} (hd : d.inner = inner.recorded)
include hd

theorem served_recorded (c : CachedCall) (s : CachedState (σ × List Record) τ) :
    d.Served c ((inner.ask c).recorded (.kept c)) s ((d.directory.ask c).call s) := by
  rw [ask_directory, hd, Directory.ask_recorded]
  exact d.served c _ s

omit hd in
theorem log_of_recorded {c : CachedCall} {s s' : σ × List Record}
    {answer : Except Failure c.Answer}
    (h : ((inner.ask c).recorded (.kept c)).call s = (answer, s')) :
    s'.2 = s.2 ++ [.kept c answer] := by
  rw [(Access.call_recorded_eq h).2]

/-- A call through the cache asks for itself or for nothing. -/
theorem exists_step_ask (c : CachedCall) (s : CachedState (σ × List Record) τ) :
    ∃ new, d.Step s ((d.directory.ask c).call s).2 new := by
  -- Where a lookup finds nothing, no entry under the key of the call is left.
  have hleft : ∀ {cache : Cache}, s.cache.lookup (d.clock.read s.clock).1 c.key = (none, cache) →
      ∀ answer, ∀ e ∈ cache.entries, e ∈ s.cache.entries ∧
        ∀ c' answer', .kept c' answer' ∈ [Record.kept c answer] → e.key ≠ c'.key := by
    intro cache h answer e he
    obtain ⟨hmem, hne⟩ := Cache.lookup_eq_none h e he
    refine ⟨hmem, fun c' answer' h' => ?_⟩
    cases List.mem_singleton.mp h'
    exact hne
  have hserved := served_recorded hd c s
  generalize (d.directory.ask c).call s = result at hserved
  cases hserved with
  | hit h =>
    refine ⟨[], by simp, ⟨1, rfl⟩, fun e he => .inl ⟨(Cache.lookup_eq_some h).2 e he, ?_⟩⟩
    intro c' answer hmem
    cases hmem
  | failed h hfetch =>
    exact ⟨_, log_of_recorded hfetch, ⟨1, rfl⟩, fun e he => .inl (hleft h _ e he)⟩
  | overflow h hfetch hread =>
    exact ⟨_, log_of_recorded hfetch, ⟨2, (congrArg Prod.snd hread).symm⟩,
      fun e he => .inl (hleft h _ e he)⟩
  | @fetched cache answer inner' now clock h hfetch hread =>
    have hclock : clock = d.clock.after 2 s.clock := (congrArg Prod.snd hread).symm
    have hnow : now = (d.clock.read (d.clock.after 1 s.clock)).1 := (congrArg Prod.fst hread).symm
    refine ⟨_, log_of_recorded hfetch, ⟨2, hclock⟩, fun e he => ?_⟩
    rcases Cache.mem_store he with rfl | ⟨he, -⟩
    · exact .inr ⟨c, answer, rfl, hclock, by rw [entry, hnow]⟩
    · exact .inl (hleft h _ e he)

omit hd in
theorem step_removeWhere (s : CachedState (σ × List Record) τ) (p : CacheEntry → Bool) (w : τ)
    (n : Nat) (hw : w = d.clock.after n s.clock) :
    d.Step s ⟨s.inner, w, (s.cache.removeWhere p).2⟩ [] := by
  refine ⟨by simp, ⟨n, hw⟩, fun e he => .inl ⟨Cache.mem_removeWhere he, fun c answer h => ?_⟩⟩
  cases h

/-- **Every request is a step.** -/
theorem exists_step (r : CacheRequest) (s : CachedState (σ × List Record) τ) :
    ∃ new, d.Step s (d.next s r) new := by
  cases r with
  | ask c => exact exists_step_ask hd c s
  | groupByName name =>
    rw [next, Directory.groupByName, Access.call_map_snd]
    exact exists_step_ask hd .groups s
  | userByEmail email =>
    rw [next, Directory.userByEmail, Access.call_map_snd]
    exact exists_step_ask hd .users s
  | policyByName name =>
    rw [next, Directory.policyByName, Access.call_map_snd]
    exact exists_step_ask hd .policies s
  | page query page size =>
    refine ⟨[.page query page size ((inner.effectivePermissions query page size).call s.inner.1).1],
      ?_, ⟨0, rfl⟩, fun e he => .inl ⟨he, fun c answer h => ?_⟩⟩
    · show ((d.inner.effectivePermissions query page size).call s.inner).2.2 = _
      rw [hd]
      rfl
    · cases List.mem_singleton.mp h
  | clear => exact ⟨[], step_removeWhere s _ _ 0 rfl⟩
  | invalidate start => exact ⟨[], step_removeWhere s _ _ 0 rfl⟩
  | cleanUp => exact ⟨[], step_removeWhere s _ _ 1 rfl⟩

/-! ### Runs -/

omit hd in
/-- The answers that are kept after some requests: `answer` to `c` was fetched by one of them and
stored at `t`, `c` was not asked again since, and the entry has always been there. -/
inductive Kept (d : CachedDirectory (σ × List Record) τ) (s : CachedState (σ × List Record) τ)
    (c : CachedCall) (answer : c.Answer) (t : Time) : List CacheRequest → Prop
  | fetched {rs : List CacheRequest} {r : CacheRequest}
      (log : (d.run s (rs ++ [r])).inner.2 = (d.run s rs).inner.2 ++ [.kept c (.ok answer)])
      (time : t = (d.clock.read (d.clock.after 1 (d.run s rs).clock)).1)
      (mem : d.entry c answer t ∈ (d.run s (rs ++ [r])).cache.entries) :
      Kept d s c answer t (rs ++ [r])
  | stays {rs : List CacheRequest} {r : CacheRequest} {new : List Record}
      (h : Kept d s c answer t rs)
      (log : (d.run s (rs ++ [r])).inner.2 = (d.run s rs).inner.2 ++ new)
      (other : ∀ answer', .kept c answer' ∉ new)
      (mem : d.entry c answer t ∈ (d.run s (rs ++ [r])).cache.entries) :
      Kept d s c answer t (rs ++ [r])

omit hd in
theorem Kept.lastAnswer?_eq {s : CachedState (σ × List Record) τ} {c : CachedCall}
    {answer : c.Answer} {t : Time} {rs : List CacheRequest} (h : Kept d s c answer t rs) :
    lastAnswer? c (d.run s rs).inner.2 = some (.ok answer) := by
  induction h with
  | fetched log => rw [log, lastAnswer?_append_kept]
  | stays _ log other _ ih => rw [log, lastAnswer?_append_of_not_mem _ other, ih]

/-- **The entries of the cache** are the answers that are kept. -/
theorem run_entries {s : CachedState (σ × List Record) τ} (hs : s.cache.entries = []) :
    ∀ rs : List CacheRequest, ∀ e ∈ (d.run s rs).cache.entries,
      ∃ c answer t, e = d.entry c answer t ∧ Kept d s c answer t rs := by
  intro rs
  induction rs using List.reverseRecOn with
  | nil =>
    intro e he
    rw [run, List.foldl_nil, hs] at he
    cases he
  | append_singleton rs r ih =>
    intro e he
    obtain ⟨new, hstep⟩ := exists_step hd r (d.run s rs)
    rw [← run_append] at hstep
    rcases hstep.entries e he with ⟨hmem, hother⟩ | ⟨c, answer, rfl, -, rfl⟩
    · obtain ⟨c, answer, t, rfl, hkept⟩ := ih e hmem
      exact ⟨c, answer, t, rfl, .stays hkept hstep.log (fun answer' h => hother c answer' h rfl) he⟩
    · exact ⟨c, answer, _, rfl, .fetched hstep.log rfl he⟩

/-- With readings that never decrease, what is kept was stored before the next reading. -/
theorem Kept.time_le (hmono : ∀ w, (d.clock.read w).1 ≤ (d.clock.read (d.clock.read w).2).1)
    {s : CachedState (σ × List Record) τ} {c : CachedCall} {answer : c.Answer} {t : Time}
    {rs : List CacheRequest} (h : Kept d s c answer t rs) :
    t ≤ (d.clock.read (d.run s rs).clock).1 := by
  induction h with
  | @fetched rs r log time mem =>
    obtain ⟨new, hstep⟩ := exists_step hd r (d.run s rs)
    rw [← run_append] at hstep
    have hnew : new = [.kept c (.ok answer)] := List.append_cancel_left (hstep.log.symm.trans log)
    rcases hstep.entries _ mem with ⟨-, hother⟩ | ⟨-, -, -, hclock, -⟩
    · exact absurd rfl (hother c (.ok answer) (by simp [hnew]))
    · rw [time, hclock]
      exact hmono _
  | @stays rs r new _ _ _ _ ih =>
    obtain ⟨new, hstep⟩ := exists_step hd r (d.run s rs)
    rw [← run_append] at hstep
    obtain ⟨n, hclock⟩ := hstep.clock
    rw [hclock]
    exact Int.le_trans ih (Clock.read_le_after hmono n _)

/-! ### Answers -/

omit hd in
/-- After some requests, `c` is answered by the directory behind, which is asked once. -/
def AsksOnce (d : CachedDirectory (σ × List Record) τ) (inner : Directory σ)
    (start : CachedState (σ × List Record) τ) (rs : List CacheRequest) (c : CachedCall) : Prop :=
  let s := d.run start rs
  let (answer, s') := (d.directory.ask c).call s
  let (fetched, inner') := (inner.ask c).call s.inner.1
  answer = fetched ∧ s'.inner = (inner', s.inner.2 ++ [.kept c fetched])

omit hd in
/-- After some requests, `c` is answered by what is kept, and the directory behind is not asked: it
is the last answer that it gave to `c`, its entry is still there and has not expired. -/
def AnswersKept (d : CachedDirectory (σ × List Record) τ)
    (start : CachedState (σ × List Record) τ) (rs : List CacheRequest) (c : CachedCall) : Prop :=
  let s := d.run start rs
  let (result, s') := (d.directory.ask c).call s
  s'.inner = s.inner ∧ ∃ answer t, result = .ok answer ∧
    lastAnswer? c s.inner.2 = some (.ok answer) ∧ d.Kept start c answer t rs ∧
      (d.clock.read s.clock).1 < t + d.ttl

theorem asksOnce_or_answersKept (hlast : ∀ w, (d.clock.read w).1 + d.ttl ≤ Time.last)
    {start : CachedState (σ × List Record) τ} (hs : start.cache.entries = [])
    (rs : List CacheRequest) (c : CachedCall) :
    d.AsksOnce inner start rs c ∨ d.AnswersKept start rs c := by
  have hserved := served_recorded hd c (d.run start rs)
  unfold AsksOnce AnswersKept
  dsimp only
  generalize (d.directory.ask c).call (d.run start rs) = result at hserved
  cases hserved with
  | hit h =>
    obtain ⟨⟨e, he, hkey, rfl, hfresh⟩, -⟩ := Cache.lookup_eq_some h
    obtain ⟨c', answer, t, rfl, hkept⟩ := run_entries hd hs rs e he
    obtain rfl := CachedCall.key_injective hkey
    refine .inr ⟨rfl, answer, t, ?_, hkept.lastAnswer?_eq, hkept, hfresh⟩
    show Option.elim (ofJson? (toJson answer)) _ _ = _
    rw [ofJson?_toJson]
    rfl
  | failed h hfetch =>
    obtain ⟨hanswer, hinner⟩ := Access.call_recorded_eq hfetch
    exact .inl ⟨hanswer, hanswer ▸ hinner⟩
  | overflow h hfetch hread hlt =>
    have := hlast (d.clock.read (d.run start rs).clock).2
    rw [hread] at this
    exact absurd hlt (Int.not_lt.mpr this)
  | fetched h hfetch =>
    obtain ⟨hanswer, hinner⟩ := Access.call_recorded_eq hfetch
    exact .inl ⟨hanswer, hanswer ▸ hinner⟩

/-- With no time to live and readings that never decrease, what is kept has expired. -/
theorem not_answersKept (httl : d.ttl = 0)
    (hmono : ∀ w, (d.clock.read w).1 ≤ (d.clock.read (d.clock.read w).2).1)
    (start : CachedState (σ × List Record) τ) (rs : List CacheRequest) (c : CachedCall) :
    ¬ d.AnswersKept start rs c := by
  rintro ⟨-, answer, t, -, -, hkept, hfresh⟩
  have hlt : (d.clock.read (d.run start rs).clock).1 < t + d.ttl := hfresh
  rw [httl, Int.natCast_zero, Int.add_zero] at hlt
  exact Int.not_lt.mpr (hkept.time_le hd hmono) hlt

end Recorded

end CachedDirectory

open CachedDirectory in
/-- **A cached directory is coherent.** After any requests, each call that is remembered either asks
the directory behind once and gives its answer, or asks nothing and gives what that directory
answered last to the same call, as long as this is kept and has not expired. With no time to live
and readings that never decrease, the directory behind is always asked. -/
theorem cached_coherent {σ τ : Type} (inner : Directory σ) (clock : Clock τ) (ttl capacity : Nat)
    (hlast : ∀ w, (clock.read w).1 + ttl ≤ Time.last) (s : σ) (w : τ) (rs : List CacheRequest)
    (c : CachedCall) :
    let d : CachedDirectory (σ × List Record) τ := ⟨inner.recorded, clock, ttl⟩
    (d.AsksOnce inner (start (s, []) w capacity) rs c ∨
      d.AnswersKept (start (s, []) w capacity) rs c) ∧
    (ttl = 0 → (∀ w, (clock.read w).1 ≤ (clock.read (clock.read w).2).1) →
      d.AsksOnce inner (start (s, []) w capacity) rs c) := by
  intro d
  have hd : d.inner = inner.recorded := rfl
  have hs : (start (s, ([] : List Record)) w capacity).cache.entries = [] := rfl
  have hcases := asksOnce_or_answersKept hd hlast hs rs c
  exact ⟨hcases, fun httl hmono => hcases.resolve_right (not_answersKept hd httl hmono _ rs c)⟩

open CachedDirectory in
/-- The second listing of the groups is answered by what is kept, and asked for with no time to
live. -/
theorem groups_listed_again :
    (∀ w, (Clock.steady.read w).1 + (60 : Nat) ≤ Time.last) ∧
    AnswersKept ⟨MemoryDirectory.oneGroup.directory.recorded, Clock.steady, 60⟩
      (start (0, []) () 8) [.ask .groups] .groups ∧
    AsksOnce ⟨MemoryDirectory.oneGroup.directory.recorded, Clock.steady, 0⟩
      MemoryDirectory.oneGroup.directory (start (0, []) () 8) [.ask .groups] .groups := by
  have hlast : ∀ ttl : Nat, ttl ≤ 60 → ∀ w, (Clock.steady.read w).1 + ttl ≤ Time.last := by
    intro ttl httl w
    show (0 : Int) + ttl ≤ 8210266876799 * 1000000000 + 999999999
    omega
  refine ⟨hlast 60 (by decide), ?_, ?_⟩
  · refine (cached_coherent MemoryDirectory.oneGroup.directory Clock.steady 60 8
      (hlast 60 (by decide)) 0 () [.ask .groups] .groups).1.resolve_left ?_
    rintro ⟨-, hasked⟩
    exact absurd (congrArg (fun inner => inner.2.length) hasked) (by decide)
  · exact (cached_coherent MemoryDirectory.oneGroup.directory Clock.steady 0 8
      (hlast 0 (by decide)) 0 () [.ask .groups] .groups).2 rfl fun _ => Int.le_refl _

end Entitlements
