import PaymentRetry.Outcome
import PaymentRetry.Time.DateTime

/-!
# The circuit breaker

After a number of failures in a row the breaker opens and lets no call through, until a recovery time has passed
since the last failure.  The first look at it after that time makes it half-open: calls are let through again, the
next failure opens it at once, and a success closes it.

The basic facts: a look changes neither the count nor the time of the last failure (`failures_observe`,
`lastFailure_observe`), a failure adds one to the count (`failures_failed`), and a success clears it
(`failures_succeeded`).
-/

namespace PaymentRetry

/-- A circuit breaker: its settings, the number of failures since the last success, the time of the last failure, and
the state noted last. -/
structure Breaker where
  /-- The number of failures in a row that open the breaker. -/
  threshold : Int
  /-- The seconds for which it stays open. -/
  recovery : Quantity
  /-- The number of failures since the last success. -/
  failures : Nat := 0
  /-- The time of the last failure. -/
  lastFailure : Option DateTime := none
  /-- The state noted last. -/
  state : CircuitState := .closed
  deriving DecidableEq

namespace Breaker

/-- The recovery time has passed since the last failure. -/
def hasRecovered (b : Breaker) (now : DateTime) : Bool :=
  match b.lastFailure with
  | some last => b.recovery.le (now.since last).seconds
  | none => false

/-- A look at the breaker makes it half-open. -/
def wakes (b : Breaker) (now : DateTime) : Bool := b.state == .opened && b.hasRecovered now

/-- The breaker after a look: an open one whose recovery time has passed becomes half-open. -/
def observe (b : Breaker) (now : DateTime) : Breaker :=
  if b.wakes now then { b with state := .halfOpen } else b

/-- The state that a look exports, if it changes the state. -/
def observeExport (b : Breaker) (now : DateTime) : Option CircuitState :=
  if b.wakes now then some .halfOpen else none

/-- The breaker, once it has been looked at, lets calls through. -/
def allows (b : Breaker) : Bool := b.state != .opened

/-- The breaker after a success. -/
def succeeded (b : Breaker) : Breaker := { b with failures := 0, state := .closed }

/-- One more failure opens the breaker. -/
def trips (b : Breaker) : Bool :=
  b.state == .halfOpen || (b.threshold ≤ b.failures + 1 && b.state != .opened)

/-- The breaker after a failure at `now`. -/
def failed (b : Breaker) (now : DateTime) : Breaker :=
  { b with
    failures := b.failures + 1
    lastFailure := some now
    state := if b.trips then .opened else b.state }

/-- The state that a failure exports, if it changes the state. -/
def failedExport (b : Breaker) : Option CircuitState := if b.trips then some .opened else none

/-! ### Basic facts -/

@[simp]
theorem failures_observe (b : Breaker) (now : DateTime) : (b.observe now).failures = b.failures := by
  unfold observe
  split <;> rfl

@[simp]
theorem lastFailure_observe (b : Breaker) (now : DateTime) : (b.observe now).lastFailure = b.lastFailure := by
  unfold observe
  split <;> rfl

@[simp]
theorem failures_failed (b : Breaker) (now : DateTime) : (b.failed now).failures = b.failures + 1 := rfl

@[simp]
theorem failures_succeeded (b : Breaker) : b.succeeded.failures = 0 := rfl

end Breaker

end PaymentRetry
