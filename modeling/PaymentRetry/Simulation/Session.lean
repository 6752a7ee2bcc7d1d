import PaymentRetry.Api.Handler
import PaymentRetry.Simulation.World
import PaymentRetry.Trigger

/-!
# Sessions

A session drives schedulers, triggers and the interface step by step over one world.  `Session.step` carries out one
step and tells its result; after the steps that may touch the store it also tells which rows are new or have
changed and what has been published.
-/

namespace PaymentRetry.Simulation

/-- A named trigger: the scheduler it polls, the time between polls, and how far it has got. -/
structure Poller where
  name : String
  /-- The scheduler that it polls. -/
  scheduler : Nat
  interval : Quantity
  /-- The state that starting and stopping share. -/
  trigger : Trigger := {}
  /-- How many cycles have been run. -/
  cycles : Nat := 0
  /-- Whether the loop has yet to run its first cycle. -/
  fresh : Bool := false
  /-- What the loop was called off with, if it was. -/
  calledOff : Option Failure := none

/-- Whether the time between polls is so short that cycles follow one another. -/
def Poller.isQuick (p : Poller) : Bool := !(Quantity.whole 1).le p.interval.toBinary64

/-- A session. -/
structure Session where
  /-- The world that all steps share. -/
  world : World
  /-- The gateway that the schedulers call. -/
  gateway : Calling := World.charge
  schedulers : List Scheduler
  pollers : List Poller := []
  /-- The rows as they were told last. -/
  told : List Attempt := []

/-- One step of a session. -/
inductive Step where
  /-- Move the clock by a number of seconds. -/
  | addSeconds (amount : Quantity)
  /-- Move the clock by a number of days. -/
  | addDays (amount : Quantity)
  | setTime (moment : DateTime)
  /-- Extend the script of the gateway. -/
  | script (entries : List ScriptEntry)
  /-- Let a fault wait for the store. -/
  | fault (fault : Fault)
  | submit (on : Nat) (submission : Submission)
  /-- List the attempts of a payment. -/
  | attempts (key : String)
  /-- Report an outcome; without a key, under the key of the attempt itself. -/
  | record (on : Nat) (key : Option String) (id : AttemptId) (result : GatewayResult)
  /-- Poll with one scheduler. -/
  | fire (on : Nat) (asOf : Option DateTime)
  /-- Poll with all schedulers at the same time. -/
  | fireAll
  | create (draft : Draft)
  | get (id : AttemptId)
  /-- Show the draft that retries an attempt. -/
  | nextAttempt (id : AttemptId)
  /-- Move an attempt from one state to another. -/
  | transition (id : AttemptId) (source target : AttemptState) (change : Change)
  /-- List the retries that are due. -/
  | due (asOf : DateTime) (limit : Option Int)
  /-- List the pending attempts that have not been touched for long. -/
  | stale (olderThan : DateTime) (limit : Option Int)
  /-- Tell the calls of the gateway since this was last asked. -/
  | calls
  /-- Tell what has been counted. -/
  | metrics
  /-- Tell the state of the circuit breaker. -/
  | breaker
  | makeTrigger (name : String) (on : Nat) (interval : Quantity)
  | startTrigger (name : String)
  | stopTrigger (name : String)
  /-- Tell whether a trigger is running. -/
  | askTrigger (name : String)
  /-- Wait until a trigger has run a number of cycles. -/
  | awaitTrigger (name : String) (cycles : Nat)
  /-- Run one cycle of a trigger at once. -/
  | runTrigger (name : String) (asOf : Option DateTime)
  /-- Ask the interface. -/
  | http (on : Nat) (request : Api.Request)

/-- Whether the rows and events are told after a step. -/
def Step.tells : Step → Bool
  | submit .. | record .. | fire .. | fireAll | create _ | transition .. | awaitTrigger .. | stopTrigger _
  | runTrigger .. | http .. => true
  | _ => false

/-- The result of a step. -/
inductive Result where
  | moment (t : DateTime)
  | number (n : Nat)
  | flag (b : Bool)
  | attempt (a : Attempt)
  | attempts (as : List Attempt)
  | decision (d : Decision)
  | draft (d : Draft)
  | due (retries : List DueRetry)
  | identities (ids : List AttemptId)
  | calls (charges : List Charge)
  | metrics (counts : Counts) (exported : CircuitState)
  | breaker (state : CircuitState) (allows : Bool) (failures : Nat)
  | response (r : Api.Response)

/-- What is told after a step: the rows that are new or have changed, how many rows there are, and what has been
published. -/
structure Observation where
  /-- The rows that are new or have changed. -/
  rows : List Attempt
  /-- How many rows there are. -/
  count : Nat
  /-- What has been published, in order. -/
  events : List Publication

/-- The answer to a step. -/
structure Answer where
  result : Except Failure Result
  /-- What is told about the store, if anything. -/
  observation : Option Observation
  /-- What has been logged, in order. -/
  logs : List Log.Record

namespace Session

/-- The attempt that a label names: a stored one, or else one that no one has. -/
def attemptId (s : Session) (label : String) : AttemptId :=
  ((s.world.store.rows.find? (·.id.text == label)).map (·.id)).getD (.named label)

/-- The payment that a label names: a stored one, or else one that no one has. -/
def paymentId (s : Session) (label : String) : PaymentId :=
  ((s.world.store.rows.find? (·.payment.text == label)).map (·.payment)).getD (.named label)

/-- The scheduler at an index. -/
def scheduler (s : Session) (n : Nat) : Scheduler := s.schedulers.getD n (s.schedulers.headD default)

/-- Run a program. -/
def run {α : Type} (s : Session) (p : Program α) : α × Session :=
  let (a, world) := p.run (World.answerBy s.gateway) s.world
  (a, { s with world := world })

/-- Run a program whose result is told. -/
def tell {α : Type} (s : Session) (p : Program (Except Failure α)) (f : α → Result) :
    Except Failure Result × Session :=
  let (a, s) := s.run p
  (a.map f, s)

/-! ### Observing -/

/-- Whether a row looks the same as it did. -/
private def sameRow (a b : Attempt) : Bool :=
  a.state = b.state && a.failureType = b.failureType && a.dueAt = b.dueAt && a.updated = b.updated

/-- The rows that differ from earlier ones, place by place, or are new. -/
private def changedRows : List Attempt → List Attempt → List Attempt
  | _, [] => []
  | [], rows => rows
  | old :: olds, row :: rows => if sameRow old row then changedRows olds rows else row :: changedRows olds rows

/-- Tell what has changed. -/
def observe (s : Session) : Observation × Session :=
  let rows := s.world.store.rows
  ({ rows := changedRows s.told rows, count := rows.length, events := s.world.published.reverse },
   { s with told := rows, world := { s.world with published := [] } })

/-- Tell what has been logged. -/
def takeLogs (s : Session) : List Log.Record × Session :=
  (s.world.records.reverse, { s with world := { s.world with records := [] } })

/-! ### Triggers -/

/-- The trigger of a name. -/
def poller? (s : Session) (name : String) : Option Poller := s.pollers.find? (·.name == name)

/-- Put a trigger in the place of the one with its name. -/
def setPoller (s : Session) (p : Poller) : Session :=
  { s with pollers := s.pollers.map fun q => if q.name == p.name then p else q }

/-- Whether the trigger of a name is running. -/
def isRunning (s : Session) (name : String) : Bool := (s.poller? name).any (·.trigger.running)

/-- A number as a structured value. -/
private def quantityJson : Quantity → Json
  | .whole n => .int n
  | .double x => .float x

/-- Start a trigger. -/
def startTrigger (s : Session) (p : Poller) : Session :=
  if p.trigger.running then { s with world := s.world.log Trigger.alreadyRunningRecord }
  else
    let s := s.setPoller { p with trigger := p.trigger.start, fresh := true, calledOff := none }
    { s with world := s.world.log (Trigger.startedRecord (quantityJson p.interval)) }

/-- Stop a trigger.  Stopping one whose loop was called off is called off too. -/
def stopTrigger (s : Session) (p : Poller) : Except Failure Result × Session :=
  match p.trigger.task with
  | none => (.ok (.flag false), s)
  | some loop =>
    let s := s.setPoller { p with trigger := (p.trigger.requestStop.finish loop).release loop, fresh := false }
    match p.calledOff with
    | some e => (.error e, s)
    | none => (.ok (.flag false), { s with world := s.world.log Trigger.stoppedRecord })

/-- Run one cycle of a trigger's loop. -/
def cycle (s : Session) (p : Poller) : Poller × Session :=
  let (done, s) := s.run (Trigger.cycle (s.scheduler p.scheduler))
  let p := { p with cycles := p.cycles + 1, fresh := false }
  let p := match done, p.trigger.task with
    | .error e, some loop => { p with trigger := p.trigger.finish loop, calledOff := some e }
    | _, _ => p
  (p, s.setPoller p)

/-- Run cycles until so many have been run and the last one has changed no row.  `fuel` bounds their number. -/
def runCycles : Nat → Session → Poller → Nat → Session
  | 0, s, _, _ => s
  | fuel + 1, s, p, cycles =>
    if p.trigger.running then
      let (p', s') := s.cycle p
      if p'.cycles < cycles || !(changedRows s.world.store.rows s'.world.store.rows).isEmpty then
        runCycles fuel s' p' cycles
      else s'
    else s

/-- Wait until a trigger has run a number of cycles.  Between two polls that lie far apart nothing happens. -/
def awaitTrigger (s : Session) (p : Poller) (cycles : Nat) : Session :=
  if p.isQuick then runCycles (cycles + 1000) s p cycles
  else if p.fresh && p.trigger.running then (s.cycle p).2 else s

/-- Run one cycle of a trigger at once. -/
def runTrigger (s : Session) (p : Poller) (asOf : Option DateTime) : Except Failure Result × Session :=
  let (fired, s) := s.run ((s.scheduler p.scheduler).poll asOf)
  (fired.map .number, s.setPoller { p with cycles := p.cycles + 1 })

/-! ### Steps -/

/-- Move the clock. -/
def moveClock (s : Session) (span : Except RangeError Duration) : Except Failure Result × Session :=
  match span >>= s.world.now.add with
  | .ok now => (.ok (.moment now), { s with world := { s.world with now := now } })
  | .error e => (.error (.range e), s)

/-- Report an outcome, under the key of the attempt itself if none is given. -/
def recordUnder (s : Session) (on : Nat) (key : Option String) (id : AttemptId) (result : GatewayResult) :
    Except Failure Result × Session :=
  match key, s.world.store.find? id with
  | some key, _ => s.tell ((s.scheduler on).recordOutcome key id result) .decision
  | none, some a => s.tell ((s.scheduler on).recordOutcome a.key id result) .decision
  | none, none => (.error (.unknownAttempt id), s)

/-- Do something with the trigger of a name; there is nothing to do if there is none. -/
def withPoller (s : Session) (name : String) (f : Poller → Except Failure Result × Session) :
    Except Failure Result × Session :=
  match s.poller? name with
  | some p => f p
  | none => (.error (.raised "KeyError" [.text name]), s)

/-- The result that tells whether a trigger is running. -/
def runningFlag (s : Session) (name : String) : Except Failure Result × Session :=
  (.ok (.flag (s.isRunning name)), s)

/-- Carry out a step. -/
def perform (s : Session) : Step → Except Failure Result × Session
  | .addSeconds amount => s.moveClock (Duration.ofSeconds amount)
  | .addDays amount => s.moveClock (Duration.ofDays amount)
  | .setTime moment => (.ok (.moment moment), { s with world := { s.world with now := moment } })
  | .script entries =>
    (.ok (.number entries.length), { s with world := { s.world with script := s.world.script ++ entries } })
  | .fault fault =>
    let faults := s.world.faults ++ [fault]
    (.ok (.number faults.length), { s with world := { s.world with faults := faults } })
  | .submit on submission => s.tell ((s.scheduler on).submit submission) .attempt
  | .attempts key => s.tell (.history key) .attempts
  | .record on key id result => s.recordUnder on key id result
  | .fire on asOf => s.tell ((s.scheduler on).poll asOf) .number
  | .fireAll =>
    let (fired, s) := s.run (.interleaveAll (s.schedulers.map (·.poll none)))
    ((Scheduler.collect fired).map fun ns => .number (ns.foldl (· + ·) 0), s)
  | .create draft => s.tell (.create draft) .attempt
  | .get id => s.tell (.get id) .attempt
  | .nextAttempt id => s.tell (.get id) fun a => .draft a.next
  | .transition id source target change => s.tell (.transition id source target change) .attempt
  | .due asOf limit => s.tell (.listDue asOf limit) .due
  | .stale olderThan limit => s.tell (.listStale olderThan limit) fun as => .identities (as.map (·.id))
  | .calls => (.ok (.calls s.world.charges.reverse), { s with world := { s.world with charges := [] } })
  | .metrics => (.ok (.metrics s.world.counts s.world.exported), s)
  | .breaker =>
    let world := s.world.observeBreaker
    let b := world.breaker
    (.ok (.breaker b.state b.allows b.failures), { s with world := world })
  | .makeTrigger name on interval =>
    (.ok (.flag false),
      let poller : Poller := { name := name, scheduler := on, interval := interval }
      { s with pollers := (s.pollers.filter (·.name != name)) ++ [poller] })
  | .startTrigger name => s.withPoller name fun p => (s.startTrigger p).runningFlag name
  | .stopTrigger name => s.withPoller name s.stopTrigger
  | .askTrigger name => s.runningFlag name
  | .awaitTrigger name cycles => s.withPoller name fun p => (s.awaitTrigger p cycles).runningFlag name
  | .runTrigger name asOf => s.withPoller name fun p => s.runTrigger p asOf
  | .http on request =>
    let (response, s) := s.run (Api.handle (s.scheduler on) request)
    (.ok (.response response), s)

/-- The answer with a result, given whether the store is to be told of. -/
def answerWith (s : Session) (tells : Bool) (result : Except Failure Result) : Answer × Session :=
  let (logs, s) := s.takeLogs
  if tells then
    let (o, s) := s.observe
    (⟨result, some o, logs⟩, s)
  else (⟨result, none, logs⟩, s)

/-- Carry out a step and answer it. -/
def step (s : Session) (step : Step) : Answer × Session :=
  let (result, s) := s.perform step
  s.answerWith step.tells result

end Session

end PaymentRetry.Simulation
