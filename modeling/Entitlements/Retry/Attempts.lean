import Entitlements.Retry.Delay

/-! # Attempts

Making a request again while it fails in a way that may pass. `RetryPolicy.run` makes at most
`maxAttempts` attempts, at least one, and sleeps between them; what it reports on the way are its
`RetryEvent`s. -/

namespace Entitlements

/-- What is reported while a request is made again and again. -/
inductive RetryEvent where
  /-- Attempt number `attempt` failed, and the next follows after `delay`. -/
  | retrying (attempt maxAttempts : Nat) (delay : Duration)
  /-- The last of several attempts succeeded. -/
  | recovered (attempts : Nat)
  /-- The last attempt failed as well. -/
  | exhausted (attempts : Nat)
  deriving DecidableEq, Repr

/-- How a request ends. -/
inductive RetryResult (ε α : Type) where
  /-- With the outcome of the last attempt. -/
  | finished (outcome : Except ε α)
  /-- With a delay that is negative, or too long for a duration. -/
  | invalidDelay

/-- A request with all its attempts. -/
structure RetryRun (ε α : Type) where
  /-- The number of attempts made. -/
  attempts : Nat
  events : List RetryEvent
  result : RetryResult ε α

namespace RetryPolicy

variable {σ ε α : Type} (p : RetryPolicy) (transient : ε → Bool) (request : StateM σ (Except ε α))

/-- Makes attempt number `attempt`, with `delay` before the next one, and up to `more` further
attempts. -/
def runFrom : (more attempt : Nat) → Duration → StateM σ (RetryRun ε α)
  | more, attempt, delay => do
    match ← request with
    | .ok a =>
      return ⟨attempt, if 1 < attempt then [.recovered attempt] else [], .finished (.ok a)⟩
    | .error e =>
      if !transient e then return ⟨attempt, [], .finished (.error e)⟩
      match more with
      | 0 => return ⟨attempt, [.exhausted attempt], .finished (.error e)⟩
      | more + 1 =>
        let event := RetryEvent.retrying attempt p.maxAttempts delay
        match p.nextDelay? delay with
        | none => return ⟨attempt, [event], .invalidDelay⟩
        | some delay =>
          let run ← runFrom more (attempt + 1) delay
          return { run with events := event :: run.events }

/-- Makes the request until it succeeds, fails in a way that does not pass, or has been attempted
often enough. -/
def run : StateM σ (RetryRun ε α) :=
  p.runFrom transient request (p.maxAttempts - 1) 1 p.initialDelay

end RetryPolicy

end Entitlements
