import Entitlements.Number.Double

/-! # Delays

Durations are counted in nanoseconds. The next delay of a backoff is computed in seconds, on
doubles, and rounded back to the nearest nanosecond (`nextDelay?`). -/

namespace Entitlements

/-- A length of time, in nanoseconds. -/
abbrev Duration := Nat

namespace Duration

/-- So many milliseconds. -/
def ofMillis (n : Nat) : Duration := n * 1000000

/-- So many seconds. -/
def ofSeconds (n : Nat) : Duration := n * 1000000000

/-- The whole milliseconds of a duration. -/
def toMillis (d : Duration) : Nat := d / 1000000

/-- A duration in seconds: the whole seconds and the rest are rounded each. -/
def toSeconds (d : Duration) : Float :=
  Float.ofNat (d / 1000000000) + Float.ofNat (d % 1000000000) / 1e9

/-- Seconds are counted with 64 bits. -/
def secondsLimit : Float := 18446744073709551616.0

/-- The duration closest to a number of seconds, unless that is negative or too large. -/
def ofSeconds? (x : Float) : Option Duration :=
  if x < 0.0 ∨ secondsLimit ≤ x then none
  else
    some (roundDiv ((Double.magnitude x.toBits).units * 1000000000) (Nat.pow 2 1074))

/-- The lesser of two numbers; a NaN gives way to the other one. -/
def lesser (x y : Float) : Float :=
  if x.isNaN then y else if y.isNaN then x else if y < x then y else x

end Duration

/-- How often, and after which delays, a request is made again. -/
structure RetryPolicy where
  /-- The number of attempts, the first one included. -/
  maxAttempts : Nat
  initialDelay : Duration
  /-- The bound of every delay after the first. -/
  maxDelay : Duration
  /-- What each delay is multiplied with for the next one. -/
  base : Float

namespace RetryPolicy

/-- The policy for the public service. -/
def standard : RetryPolicy := ⟨4, .ofSeconds 1, .ofSeconds 10, 2.0⟩

/-- Short delays, for a service nearby. -/
def fast : RetryPolicy := ⟨3, .ofMillis 10, .ofMillis 100, 2.0⟩

/-- Long delays, for an account with a low rate limit. -/
def slow : RetryPolicy := ⟨6, .ofSeconds 2, .ofSeconds 30, 2.0⟩

/-- A single attempt. -/
def noRetry : RetryPolicy := ⟨1, 0, 0, 1.0⟩

/-- The policy with all delays left out. -/
def withoutDelay (p : RetryPolicy) : RetryPolicy := { p with initialDelay := 0, maxDelay := 0 }

/-- The delay after `delay`, unless it is negative or too long for a duration. -/
def nextDelay? (p : RetryPolicy) (delay : Duration) : Option Duration :=
  Duration.ofSeconds? (Duration.lesser (delay.toSeconds * p.base) p.maxDelay.toSeconds)

end RetryPolicy

end Entitlements
