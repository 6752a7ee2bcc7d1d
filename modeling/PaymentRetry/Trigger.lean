import PaymentRetry.Scheduler

/-!
# The poll trigger

A trigger polls in a loop until it is told to stop.  `Trigger` is the state that starting and stopping share: the
loops that are still alive, the one the trigger refers to, and whether it has been told to stop.  Stopping takes two
steps, because the loop finishes its cycle first: the request, and the release once the loop has ended.

`Trigger.cycle` is what a loop does between two waits.  A failed poll is noted and does not end the loop.
-/

namespace PaymentRetry

/-- The state of a trigger and its poll loops. -/
structure Trigger where
  /-- The number of loops that have been started. -/
  started : Nat := 0
  /-- The loop that the trigger refers to. -/
  task : Option Nat := none
  /-- The trigger has been told to stop. -/
  stopping : Bool := false
  live : List Nat := []
  /-- The loops whose end is awaited, once for each party that awaits it. -/
  awaited : List Nat := []
  deriving DecidableEq, Repr

namespace Trigger

/-- The loop that the trigger refers to is alive. -/
def running (t : Trigger) : Bool := t.task.any t.live.contains

/-- Start a loop, unless one is running. -/
def start (t : Trigger) : Trigger :=
  if t.running then t
  else
    { t with started := t.started + 1, task := some t.started, stopping := false, live := t.started :: t.live }

/-- The first step of a stop: tell the trigger to stop and await the end of the loop that it refers to, if any. -/
def requestStop (t : Trigger) : Trigger :=
  match t.task with
  | some loop => { t with stopping := true, awaited := loop :: t.awaited }
  | none => t

/-- The end of `loop`. -/
def finish (t : Trigger) (loop : Nat) : Trigger := { t with live := t.live.erase loop }

/-- The last step of a stop, after the awaited `loop` has ended: the trigger refers to no loop any more. -/
def release (t : Trigger) (loop : Nat) : Trigger := { t with task := none, awaited := t.awaited.erase loop }

/-- One step of one party.  A loop ends when it finds that the trigger has been told to stop, and a party that awaits
the end of a loop releases the trigger some time after it. -/
inductive Step : Trigger → Trigger → Prop
  | start (t : Trigger) : Step t t.start
  | requestStop (t : Trigger) : Step t t.requestStop
  | finish (t : Trigger) (loop : Nat) : loop ∈ t.live → t.stopping = true → Step t (t.finish loop)
  | release (t : Trigger) (loop : Nat) : loop ∈ t.awaited → loop ∉ t.live → Step t (t.release loop)

/-! ### The loop -/

/-- The logger of the trigger. -/
def logger : String := "retry_service.trigger"

/-- The record of a loop that starts. -/
def startedRecord (interval : Json) : Log.Record where
  logger := logger
  level := .info
  message := "Retry trigger started"
  extras := [("poll_interval_s", interval)]

/-- The record of a loop that is not started because one is running. -/
def alreadyRunningRecord : Log.Record where
  logger := logger
  level := .debug
  message := "Retry trigger already running"

/-- The record of a loop that was stopped. -/
def stoppedRecord : Log.Record where
  logger := logger
  level := .info
  message := "Retry trigger stopped"

/-- The record of a poll that failed. -/
def failedRecord (kind : String) : Log.Record where
  logger := logger
  level := .error
  message := "Retry trigger cycle failed — will retry next poll"
  failure := some kind

/-- One cycle of the loop: a poll whose failure is logged and not raised, unless it is a cancellation. -/
def cycle (s : Scheduler) : Program (Except Failure Unit) := do
  match ← s.poll none with
  | .ok _ => return .ok ()
  | .error (.cancelled arguments) => return .error (.cancelled arguments)
  | .error e =>
    .log (failedRecord e.kind)
    return .ok ()

end Trigger

end PaymentRetry
