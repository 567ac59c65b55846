import Entitlements.Retry.Attempts
import Mathlib.Order.Bounds.Defs

/-! # Runs: how often a request is made

A request is made again while it fails in a way that may pass and attempts remain
(`RetryPolicy.Retries`). Where there is a delay for each retry, a run makes one attempt for each of
these retries and a first one, and ends with the outcome of the last (`RetryPolicy.run_runFrom`).
Counted from one, the last attempt is the least that can be the last (`RetryPolicy.run_exact`). -/

namespace Entitlements

/-! ### The same request again and again -/

section Again
variable {σ β γ : Type} (request : StateM σ β)

theorem run_bind (f : β → StateM σ γ) (s : σ) :
    (request >>= f).run s = (f (request.run s).1).run (request.run s).2 := rfl

/-- The state after a request was made `n` times. -/
def afterRequests (s : σ) : Nat → σ
  | 0 => s
  | n + 1 => (request.run (afterRequests s n)).2

/-- What comes of a request that was made `n` times before. -/
def outcomeAfter (s : σ) (n : Nat) : β := (request.run (afterRequests request s n)).1

theorem afterRequests_first (s : σ) : ∀ n : Nat,
    afterRequests request (request.run s).2 n = afterRequests request s (n + 1)
  | 0 => rfl
  | n + 1 => by rw [afterRequests, afterRequests_first s n]; rfl

theorem outcomeAfter_first (s : σ) (n : Nat) :
    outcomeAfter request (request.run s).2 n = outcomeAfter request s (n + 1) := by
  rw [outcomeAfter, afterRequests_first, outcomeAfter]

theorem afterRequests_map (f : β → γ) (s : σ) :
    ∀ n : Nat, afterRequests (f <$> request) s n = afterRequests request s n
  | 0 => rfl
  | n + 1 => by rw [afterRequests, afterRequests_map f s n]; rfl

theorem outcomeAfter_map (f : β → γ) (s : σ) (n : Nat) :
    outcomeAfter (f <$> request) s n = f (outcomeAfter request s n) := by
  rw [outcomeAfter, afterRequests_map]
  rfl

end Again

namespace RetryPolicy

variable {σ ε α : Type}

/-- Whether a request is not made again whatever attempts remain. -/
def settles (transient : ε → Bool) : Except ε α → Bool
  | .ok _ => true
  | .error e => !transient e

/-- `k` retries are made of the `more` that are possible: each attempt before the last one fails in
a way that may pass, and the last one does not, unless no retry is left. -/
structure Retries (transient : ε → Bool) (outcome : Nat → Except ε α) (more k : Nat) : Prop where
  le : k ≤ more
  pass : ∀ i < k, settles transient (outcome i) = false
  settled : k < more → settles transient (outcome k) = true

section Retries
variable {transient : ε → Bool} {outcome : Nat → Except ε α} {more k : Nat}

theorem Retries.zero (h : settles transient (outcome 0) = true ∨ more = 0) :
    Retries transient outcome more 0 := by
  refine ⟨Nat.zero_le more, fun i hi => absurd hi (Nat.not_lt_zero i), fun hlt => ?_⟩
  rcases h with h | rfl
  · exact h
  · exact absurd hlt (Nat.lt_irrefl 0)

/-- A retry after the first attempt, and those that follow it. -/
theorem Retries.succ (hfirst : settles transient (outcome 0) = false)
    (h : Retries transient (fun i => outcome (i + 1)) more k) :
    Retries transient outcome (more + 1) (k + 1) := by
  refine ⟨Nat.succ_le_succ h.le, fun i hi => ?_, fun hlt => h.settled (Nat.lt_of_succ_lt_succ hlt)⟩
  cases i with
  | zero => exact hfirst
  | succ i => exact h.pass i (Nat.lt_of_succ_lt_succ hi)

/-- Another attempt follows exactly when one fails in a way that may pass and attempts remain. -/
theorem Retries.lt_iff (h : Retries transient outcome more k) {i : Nat} (hi : i ≤ k) :
    i < k ↔ settles transient (outcome i) = false ∧ i < more := by
  constructor
  · exact fun hlt => ⟨h.pass i hlt, Nat.lt_of_lt_of_le hlt h.le⟩
  · rintro ⟨hpass, hmore⟩
    refine Nat.lt_of_le_of_ne hi ?_
    rintro rfl
    exact absurd (h.settled hmore) (by simp [hpass])

end Retries

/-! ### Events -/

/-- What is reported before the retries, the first of which follows attempt number `attempt`. -/
def retryEvents (p : RetryPolicy) (attempt : Nat) (delay : Nat → Duration) (k : Nat) :
    List RetryEvent :=
  (List.range k).map fun i => .retrying (attempt + i) p.maxAttempts (delay i)

/-- What is reported of the last attempt. -/
def closingEvents (transient : ε → Bool) (attempt : Nat) : Except ε α → List RetryEvent
  | .ok _ => if 1 < attempt then [.recovered attempt] else []
  | .error e => if transient e then [.exhausted attempt] else []

theorem retryEvents_succ (p : RetryPolicy) (attempt : Nat) (delay : Nat → Duration) (k : Nat) :
    p.retryEvents attempt delay (k + 1) = .retrying attempt p.maxAttempts (delay 0)
      :: p.retryEvents (attempt + 1) (fun i => delay (i + 1)) k := by
  rw [retryEvents, List.range_succ_eq_map, List.map_cons, List.map_map, retryEvents]
  congr 1
  refine List.map_congr_left fun i _ => ?_
  simp [Nat.add_comm i 1, Nat.add_assoc]

/-! ### Runs -/

variable (p : RetryPolicy) (transient : ε → Bool) (request : StateM σ (Except ε α))

section Steps
variable {p transient request} {more attempt : Nat} {delay : Duration} {s : σ}

/-- The last attempt. -/
theorem run_runFrom_of_settles
    (h : settles transient (request.run s).1 = true ∨ more = 0) :
    (p.runFrom transient request more attempt delay).run s =
      (⟨attempt, closingEvents transient attempt (request.run s).1,
        .finished (request.run s).1⟩, (request.run s).2) := by
  rw [runFrom, run_bind]
  generalize (request.run s).1 = outcome at h
  cases outcome with
  | ok a => rfl
  | error e =>
    cases htransient : transient e with
    | false =>
      simp only [closingEvents, htransient]
      rfl
    | true =>
      obtain rfl : more = 0 := h.resolve_left (by simp [settles, htransient])
      simp only [closingEvents, htransient]
      rfl

/-- An attempt that another one follows. -/
theorem run_runFrom_of_passes (h : settles transient (request.run s).1 = false)
    {delay' : Duration} (hdelay : p.nextDelay? delay = some delay') :
    (p.runFrom transient request (more + 1) attempt delay).run s =
      let (run, s') :=
        (p.runFrom transient request more (attempt + 1) delay').run (request.run s).2
      ({ run with events := .retrying attempt p.maxAttempts delay :: run.events }, s') := by
  rw [runFrom, run_bind]
  generalize (request.run s).1 = outcome at h
  cases outcome with
  | ok a => cases h
  | error e =>
    have htransient : transient e = true := by simpa [settles] using h
    simp only [htransient, hdelay]
    rfl

end Steps

/-- **A run** makes the retries there are, and ends with the outcome of the last attempt. -/
theorem run_runFrom (more attempt : Nat) {delay : Nat → Duration}
    (hdelay : ∀ i < more, p.nextDelay? (delay i) = some (delay (i + 1))) (s : σ) :
    ∃ k, Retries transient (outcomeAfter request s) more k ∧
      (p.runFrom transient request more attempt (delay 0)).run s =
        (⟨attempt + k, p.retryEvents attempt delay k
            ++ closingEvents transient (attempt + k) (outcomeAfter request s k),
          .finished (outcomeAfter request s k)⟩, afterRequests request s (k + 1)) := by
  induction more generalizing attempt delay s with
  | zero =>
    exact ⟨0, .zero (.inr rfl), run_runFrom_of_settles (.inr rfl)⟩
  | succ more ih =>
    cases hfirst : settles transient (request.run s).1 with
    | true => exact ⟨0, .zero (.inl hfirst), run_runFrom_of_settles (.inl hfirst)⟩
    | false =>
      have hdelay' : ∀ i < more, p.nextDelay? (delay (i + 1)) = some (delay (i + 1 + 1)) :=
        fun i hi => hdelay (i + 1) (Nat.succ_lt_succ hi)
      obtain ⟨k, hk, hrun⟩ := ih (attempt + 1) hdelay' (request.run s).2
      have hk' : Retries transient (fun i => outcomeAfter request s (i + 1)) more k := by
        simpa only [funext (outcomeAfter_first request s)] using hk
      refine ⟨k + 1, hk'.succ hfirst, ?_⟩
      rw [run_runFrom_of_passes hfirst (hdelay 0 (Nat.succ_pos more)), hrun, outcomeAfter_first,
        afterRequests_first, retryEvents_succ, List.cons_append, Nat.add_assoc, Nat.add_comm 1 k]

/-! ### The last attempt -/

/-- Whether attempt number `n`, with this outcome, is not followed by another one. -/
inductive Ends (p : RetryPolicy) (transient : ε → Bool) (n : Nat) (outcome : Except ε α) : Prop
  | succeeded {a : α} (h : outcome = .ok a)
  | failed {e : ε} (h : outcome = .error e) (hstop : transient e = false)
  | exhausted (h : max 1 p.maxAttempts ≤ n)

theorem ends_iff {p : RetryPolicy} {transient : ε → Bool} {n : Nat} {outcome : Except ε α} :
    p.Ends transient n outcome ↔ settles transient outcome = true ∨ max 1 p.maxAttempts ≤ n := by
  constructor
  · rintro (rfl | ⟨rfl, hstop⟩ | h)
    · exact .inl rfl
    · exact .inl (by rw [settles, hstop]; rfl)
    · exact .inr h
  · rintro (h | h)
    · cases outcome with
      | ok a => exact .succeeded rfl
      | error e => exact .failed rfl (by simpa [settles] using h)
    · exact .exhausted h

/-- The attempt after all retries is the first one that ends. -/
theorem Retries.isLeast {p : RetryPolicy} {transient : ε → Bool} {outcome : Nat → Except ε α}
    {k : Nat} (h : Retries transient outcome (p.maxAttempts - 1) k) :
    IsLeast {n | 1 ≤ n ∧ p.Ends transient n (outcome (n - 1))} (k + 1) := by
  refine ⟨⟨Nat.le_add_left 1 k, ends_iff.mpr ?_⟩, ?_⟩
  · rcases Nat.lt_or_ge k (p.maxAttempts - 1) with hlt | hge
    · exact .inl (h.settled hlt)
    · exact .inr (by omega)
  · rintro n ⟨hpos, hends⟩
    refine Nat.le_of_not_lt fun hlt => ?_
    have hle := h.le
    rcases ends_iff.mp hends with hsettles | hexhausted
    · exact absurd (h.pass (n - 1) (by omega)) (by simp [hsettles])
    · omega

/-- The delays of a run, each of them after the attempt of this number: the first one is that of the
policy, and each attempt that another one may follow leads to the next. -/
structure Delays (p : RetryPolicy) (delay : Nat → Duration) : Prop where
  first : delay 1 = p.initialDelay
  next : ∀ i, 1 ≤ i → i < p.maxAttempts → p.nextDelay? (delay i) = some (delay (i + 1))

/-- **What a run does.** Where the delays are defined, the request is made until the first attempt
that succeeds, fails in a way that does not pass, or is the last one allowed, and its outcome is the
result. Each attempt before it is reported with its number and its delay, and it is reported itself
if it succeeds after others, or fails in a way that may pass. Attempts can be counted with 32 bits
if their limit can. -/
theorem run_exact {p : RetryPolicy} {delay : Nat → Duration} (h : p.Delays delay)
    (transient : ε → Bool) (request : StateM σ (Except ε α)) (s : σ) :
    ∃ m, IsLeast {n | 1 ≤ n ∧ p.Ends transient n (outcomeAfter request s (n - 1))} m ∧
      (p.run transient request).run s =
        (⟨m, (List.range' 1 (m - 1)).map (fun i => .retrying i p.maxAttempts (delay i))
            ++ closingEvents transient m (outcomeAfter request s (m - 1)),
          .finished (outcomeAfter request s (m - 1))⟩, afterRequests request s m) ∧
      (p.maxAttempts < Nat.pow 2 32 → m < Nat.pow 2 32) := by
  have hdelay : ∀ i < p.maxAttempts - 1, p.nextDelay? (delay (i + 1)) = some (delay (i + 1 + 1)) :=
    fun i hi => h.next (i + 1) (Nat.le_add_left 1 i) (by omega)
  obtain ⟨k, hk, hrun⟩ := p.run_runFrom transient request (p.maxAttempts - 1) 1 hdelay s
  have hevents : p.retryEvents 1 (fun i => delay (i + 1)) k =
      (List.range' 1 k).map fun i => .retrying i p.maxAttempts (delay i) := by
    rw [List.range'_eq_map_range, List.map_map, retryEvents]
    refine List.map_congr_left fun i _ => ?_
    rw [Function.comp_apply, Nat.add_comm i 1]
  rw [h.first, hevents, Nat.add_comm 1 k] at hrun
  refine ⟨k + 1, hk.isLeast, hrun, fun hlimit => ?_⟩
  have hle := hk.le
  have htwo : 1 < Nat.pow 2 32 := by decide
  omega

/-! ### Scripts -/

/-- A request whose outcomes are given beforehand; the state counts how often it was made. -/
def scripted (outcome : Nat → Except ε α) : StateM Nat (Except ε α) := fun n => (outcome n, n + 1)

/-- A request that succeeds when it is made for the fourth time. -/
def fourthTime : StateM Nat (Except String String) :=
  scripted fun n => if n < 3 then .error "unavailable" else .ok "here"

/-- Four attempts, whose delays are doubled up to a bound. -/
def capped : RetryPolicy := ⟨4, .ofSeconds 4, .ofSeconds 10, 2.0⟩

/-- The delays of `capped`. -/
def cappedDelay : Nat → Duration
  | 1 => .ofSeconds 4
  | 2 => .ofSeconds 8
  | _ => .ofSeconds 10

/-- The last attempt that is allowed succeeds, after three delays of which the third is bounded. -/
theorem capped_run_exact :
    capped.Delays cappedDelay ∧
      (capped.run (fun _ => true) fourthTime).run 0 =
        (⟨4, [.retrying 1 4 (.ofSeconds 4), .retrying 2 4 (.ofSeconds 8),
          .retrying 3 4 (.ofSeconds 10), .recovered 4], .finished (.ok "here")⟩, 4) := by
  have hnext : ∀ i < 4, 1 ≤ i → capped.nextDelay? (cappedDelay i) = some (cappedDelay (i + 1)) := by
    decide +kernel
  have hdelays : capped.Delays cappedDelay := ⟨rfl, fun i hpos hlt => hnext i hlt hpos⟩
  obtain ⟨m, -, hrun, -⟩ := run_exact hdelays (fun _ => true) fourthTime 0
  have hattempts : ((capped.run (fun _ => true) fourthTime).run 0).1.attempts = 4 := by
    decide +kernel
  rw [hrun] at hattempts
  obtain rfl : m = 4 := hattempts
  exact ⟨hdelays, hrun⟩

end RetryPolicy

end Entitlements
