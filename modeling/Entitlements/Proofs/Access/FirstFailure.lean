import Entitlements.Proofs.Access.Each
import Entitlements.Proofs.Directory.Recorded

/-! # The first failure

What an analysis makes of the failures of its calls (`FirstFailure`): it goes on after a success and
after a failure that it absorbs, and any other failure ends it. `Heeds` says this of calls on a
recorded directory, wherever they stand in the records; it is kept by everything that calls are put
together with. -/

namespace Entitlements

namespace Record

/-- Why the call gave no answer. -/
def failure? : Record → Option Failure
  | kept _ (.error f) => some f
  | page _ _ _ (.error f) => some f
  | _ => none

/-- The answer to `c` that the resource does not exist. -/
def IsMissing (c : CachedCall) (r : Record) : Prop :=
  ∃ e : DirectoryError, e.isNotFound = true ∧ r = kept c (.error (.error e))

end Record

/-- The result of an analysis after these calls, `n` others having been made before: a call that
fails, with a failure that is not absorbed, is the last one and gives its failure. -/
inductive FirstFailure {α : Type} (absorbs : Nat → Record → Prop) :
    Nat → List Record → Except Failure α → Prop
  | finished (n : Nat) (x : α) : FirstFailure absorbs n [] (.ok x)
  | stopped {n : Nat} {r : Record} {f : Failure} (failed : r.failure? = some f)
      (h : ¬ absorbs n r) : FirstFailure absorbs n [r] (.error f)
  | next {n : Nat} {r : Record} {calls : List Record} {result : Except Failure α}
      (h : r.failure? = none ∨ absorbs n r) (rest : FirstFailure absorbs (n + 1) calls result) :
      FirstFailure absorbs n (r :: calls) result

namespace FirstFailure

variable {α β : Type} {absorbs : Nat → Record → Prop} {n : Nat} {calls : List Record}

theorem append {x : α} (h : FirstFailure absorbs n calls (.ok x)) {calls' : List Record}
    {result : Except Failure β} (h' : FirstFailure absorbs (n + calls.length) calls' result) :
    FirstFailure absorbs n (calls ++ calls') result := by
  generalize hx : Except.ok x = first at h
  induction h with
  | finished => exact h'
  | stopped => cases hx
  | @next n r calls _ hr _ ih =>
    refine .next hr (ih ?_ hx)
    rwa [List.length_cons, ← Nat.add_assoc, Nat.add_right_comm] at h'

/-- What stops at a failure stops there whatever was to be computed. -/
theorem of_error {f : Failure} (h : FirstFailure absorbs n calls (.error f : Except Failure α)) :
    FirstFailure absorbs n calls (.error f : Except Failure β) := by
  generalize hf : Except.error f = result at h
  induction h with
  | finished => cases hf
  | stopped failed hstop =>
    cases hf
    exact .stopped failed hstop
  | next hr _ ih => exact .next hr (ih hf)

end FirstFailure

namespace Access

variable {σ α β : Type} {absorbs : Nat → Record → Prop}

/-! ### Missing resources -/

theorem call_orMissing (a : Access σ α) (s : σ) :
    a.orMissing.call s =
      match a.call s with
      | (.ok x, s) => (.ok (some x), s)
      | (.error (.error e), s) =>
        if e.isNotFound then (.ok none, s) else (.error (.error e), s)
      | (.error f, s) => (.error f, s) := rfl

theorem call_orMissing_snd (a : Access σ α) (s : σ) : (a.orMissing.call s).2 = (a.call s).2 := by
  rw [call_orMissing]
  rcases a.call s with ⟨(e | _) | _, s'⟩
  · dsimp only
    split
    · rfl
    · rfl
  · rfl
  · rfl

theorem call_orMissing_eq_some_iff {a : Access σ α} {x : α} {s s' : σ} :
    a.orMissing.call s = (.ok (some x), s') ↔ a.call s = (.ok x, s') := by
  rw [call_orMissing]
  rcases a.call s with ⟨(e | _) | _, s₁⟩
  · dsimp only
    split
    · simp
    · simp
  · simp
  · simp

theorem call_orMissing_eq_none_iff {a : Access σ α} {s s' : σ} :
    a.orMissing.call s = (.ok none, s') ↔
      ∃ e : DirectoryError, e.isNotFound = true ∧ a.call s = (.error (.error e), s') := by
  rw [call_orMissing]
  rcases a.call s with ⟨(e | _) | _, s₁⟩
  · dsimp only
    split
    · next h =>
      constructor
      · intro heq
        cases heq
        exact ⟨e, h, rfl⟩
      · rintro ⟨_, -, heq⟩
        cases heq
        rfl
    · next h =>
      constructor
      · intro heq
        cases heq
      · rintro ⟨_, hmissing, heq⟩
        cases heq
        exact absurd hmissing h
  · simp
  · simp

/-! ### Calls that heed failures -/

/-- In this state, where some calls have been recorded, the calls of `a` end with the first failure
that is not absorbed. -/
def HeedsAt (absorbs : Nat → Record → Prop) (s : σ × List Record)
    (a : Access (σ × List Record) α) : Prop :=
  ∃ calls, (a.call s).2.2 = s.2 ++ calls ∧ FirstFailure absorbs s.2.length calls (a.call s).1

/-- Once `n` calls have been recorded, the calls of `a` end with the first failure that is not
absorbed. -/
def Heeds (absorbs : Nat → Record → Prop) (n : Nat) (a : Access (σ × List Record) α) : Prop :=
  ∀ s : σ × List Record, n ≤ s.2.length → HeedsAt absorbs s a

theorem HeedsAt.bind {a : Access (σ × List Record) α} {f : α → Access (σ × List Record) β}
    {s : σ × List Record} (ha : HeedsAt absorbs s a)
    (hf : ∀ x s', a.call s = (.ok x, s') → HeedsAt absorbs s' (f x)) :
    HeedsAt absorbs s (a >>= f) := by
  obtain ⟨calls, hcalls, hfirst⟩ := ha
  unfold HeedsAt
  rw [call_bind]
  rcases heq : a.call s with ⟨e | x, s'⟩
  · rw [heq] at hcalls hfirst
    exact ⟨calls, hcalls, hfirst.of_error⟩
  · obtain ⟨calls', hcalls', hfirst'⟩ := hf x s' heq
    rw [heq] at hcalls hfirst
    dsimp only at hcalls
    rw [hcalls] at hcalls' hfirst'
    rw [List.length_append] at hfirst'
    exact ⟨calls ++ calls', by rw [← List.append_assoc]; exact hcalls', hfirst.append hfirst'⟩

section Heeds
variable {n : Nat}

theorem heeds_pure (x : α) : Heeds absorbs n (pure x : Access (σ × List Record) α) :=
  fun _ _ => ⟨[], (List.append_nil _).symm, .finished _ x⟩

theorem Heeds.bind {a : Access (σ × List Record) α} {f : α → Access (σ × List Record) β}
    (ha : Heeds absorbs n a) (hf : ∀ x, Heeds absorbs n (f x)) : Heeds absorbs n (a >>= f) := by
  intro s hs
  refine (ha s hs).bind fun x s' hcall => hf x s' (Nat.le_trans hs ?_)
  obtain ⟨calls, hcalls, -⟩ := ha s hs
  rw [hcall] at hcalls
  rw [hcalls, List.length_append]
  exact Nat.le_add_right _ _

theorem heeds_mapM {f : α → Access (σ × List Record) β} (hf : ∀ x, Heeds absorbs n (f x)) :
    ∀ xs : List α, Heeds absorbs n (xs.mapM f)
  | [] => by
    rw [List.mapM_nil]
    exact heeds_pure _
  | x :: xs => by
    rw [List.mapM_cons]
    exact (hf x).bind fun _ => (heeds_mapM hf xs).bind fun _ => heeds_pure _

end Heeds

variable (d : Directory σ)

/-- A call is recorded with its answer. -/
theorem call_ask_recorded (c : CachedCall) (s : σ × List Record) :
    (d.recorded.ask c).call s =
      (((d.ask c).call s.1).1, ((d.ask c).call s.1).2,
        s.2 ++ [.kept c ((d.ask c).call s.1).1]) := by
  rw [Directory.ask_recorded]
  rfl

/-- A call none of whose failures is absorbed. -/
theorem heeds_ask {c : CachedCall} {n : Nat}
    (hstop : ∀ i answer, n ≤ i → ¬ absorbs i (.kept c answer)) :
    Heeds absorbs n (d.recorded.ask c) := by
  intro s hs
  unfold HeedsAt
  rw [call_ask_recorded]
  refine ⟨_, rfl, ?_⟩
  cases (d.ask c).call s.1 with | mk answer t =>
  cases answer with
  | ok x => exact .next (.inl rfl) (.finished _ x)
  | error f => exact .stopped rfl (hstop _ _ hs)

/-- A call of which it is absorbed, and only this, that the resource does not exist. -/
theorem heedsAt_orMissing {c : CachedCall} {s : σ × List Record}
    (hmissing : ∀ answer,
      absorbs s.2.length (.kept c answer) ↔ (Record.kept c answer).IsMissing c) :
    HeedsAt absorbs s (d.recorded.ask c).orMissing := by
  unfold HeedsAt
  rw [call_orMissing_snd, call_orMissing, call_ask_recorded]
  refine ⟨_, rfl, ?_⟩
  cases (d.ask c).call s.1 with | mk answer t =>
  match answer with
  | .ok x => exact .next (.inl rfl) (.finished _ _)
  | .error (.abort f) =>
    refine .stopped rfl fun h => ?_
    obtain ⟨e, -, heq⟩ := (hmissing _).mp h
    cases heq
  | .error (.error e) =>
    dsimp only
    split
    · next h => exact .next (.inr ((hmissing _).mpr ⟨e, h, rfl⟩)) (.finished _ _)
    · next h =>
      refine .stopped rfl fun habsorbed => ?_
      obtain ⟨e', he', heq⟩ := (hmissing _).mp habsorbed
      cases heq
      exact h he'

end Access

end Entitlements
