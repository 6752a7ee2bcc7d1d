import PaymentRetry.Breaker
import PaymentRetry.Publishing
import PaymentRetry.Sandbox
import PaymentRetry.Simulation.Fault
import PaymentRetry.Store

/-!
# A world to run programs in

A `World` is everything that programs make requests of: a clock that only moves when told to, a store whose calls
may be disturbed by faults, a gateway that follows a script and then a sandbox, a circuit breaker, a publisher, and
what has been counted and logged.  `World.answer` answers one request; `World.answerBy` does so with another gateway.
-/

namespace PaymentRetry.Simulation

/-- What the gateway does at one call of its script. -/
inductive ScriptedAct where
  | sandbox
  | answer (result : GatewayResult)
  | raise (failure : Failure)

/-- One entry of the gateway's script. -/
structure ScriptEntry where
  /-- By how many seconds the clock moves during the call. -/
  advance : Option Quantity := none
  /-- The state to which another worker moves the newest attempt during the call. -/
  steal : Option AttemptState := none
  /-- How the call ends. -/
  act : ScriptedAct

/-- Where completions go. -/
inductive Publisher where
  /-- They are taken down. -/
  | recorder
  /-- They are taken down, and then publishing fails. -/
  | broken
  /-- They are sent to a topic of the broker. -/
  | broker (topic : String)

/-- What has been published. -/
inductive Publication where
  | event (completion : Completion)
  | sent (message : BrokerMessage)

/-- Everything that programs make requests of. -/
structure World where
  now : DateTime
  /-- By how many microseconds the clock moves whenever it is read. -/
  tick : Nat := 0
  store : Store := {}
  /-- The faults that wait for calls of the store. -/
  faults : List Fault := []
  script : List ScriptEntry := []
  /-- The gateway once its script is used up. -/
  sandbox : Sandbox := {}
  breaker : Breaker := { threshold := 1, recovery := .whole 0 }
  /-- The circuit state exported last. -/
  exported : CircuitState := .closed
  /-- Where completions go. -/
  publisher : Publisher := .recorder
  /-- What has been published, the latest first. -/
  published : List Publication := []
  /-- The calls of the gateway, the latest first. -/
  charges : List Charge := []
  /-- What has been counted. -/
  counts : Counts := []
  /-- What has been logged, the latest first. -/
  records : List Log.Record := []

/-- What a gateway does with a call. -/
abbrev Calling := World → Charge → Except Failure GatewayResult × World

namespace World

/-- The reason given by a broken publisher. -/
def brokenReason : String := "broker unavailable"

/-- Write a log record. -/
def log (w : World) (r : Log.Record) : World := { w with records := r :: w.records }

/-- Read the clock. -/
def readClock (w : World) : DateTime × World :=
  (w.now, { w with now := (DateTime.ofMicros? (w.now.micros + w.tick)).getD w.now })

/-! ### The store -/

/-- The record of a stored attempt. -/
def createdRecord (a : Attempt) : Log.Record where
  logger := "retry_service.store"
  level := .debug
  message := "Payment attempt created"
  extras := [("attempt_id", .text a.id.text), ("payment_external_key", .text a.key),
    ("attempt_number", .int a.number)]

/-- Store an attempt undisturbed. -/
def storeDraft (w : World) (d : Draft) : Except Failure Attempt × World :=
  let (now, w) := w.readClock
  match w.store.insert d now with
  | .error e => (.error e, w)
  | .ok (a, store) => (.ok a, { w with store := store }.log (createdRecord a))

/-- What happens to a call of the store, and the world with the faults that wait afterwards. -/
def disturb (w : World) (call : StoreCall) (key : Option String) : Option FaultAction × World :=
  let (action, faults) := Fault.take call key w.faults
  (action, { w with faults := faults })

/-- Store an attempt. -/
def create (w : World) (d : Draft) : Except Failure Attempt × World :=
  match w.disturb .create d.key with
  | (some (.raise e), w) => (.error e, w)
  | (some .duplicate, w) =>
    match w.storeDraft { d with id := none } with
    | (.error e, w) => (.error e, w)
    | (.ok copy, w) => w.storeDraft { d with payment := some copy.payment }
  | (_, w) => w.storeDraft d

/-- Look up an attempt. -/
def get (w : World) (id : AttemptId) : Except Failure Attempt × World :=
  match w.disturb .get none with
  | (some (.raise e), w) => (.error e, w)
  | (_, w) => ((w.store.find? id).elim (.error (.unknownAttempt id)) .ok, w)

/-- Move an attempt from one state to another undisturbed, and look it up. -/
def move (w : World) (id : AttemptId) (source target : AttemptState) (change : Change) :
    Except Failure Attempt × World :=
  let (now, w) := w.readClock
  match Failure.ofTexts? (change.message.join).toList with
  | some failure => (.error failure, w)
  | none =>
    match w.store.move? id source target change now with
    | none => (.error (.staleState id source), w)
    | some store => { w with store := store }.get id

/-- Move an attempt from one state to another. -/
def transition (w : World) (id : AttemptId) (source target : AttemptState) (change : Change) :
    Except Failure Attempt × World :=
  match w.disturb .transition none with
  | (some (.raise e), w) => (.error e, w)
  | (some (.steal state), w) =>
    match w.move id source state {} with
    | (.error e, w) => (.error e, w)
    | (.ok _, w) => w.move id source target change
  | (_, w) => w.move id source target change

/-- Answer a listing, unless a fault or a limit gets in its way. -/
def list {α : Type} (w : World) (call : StoreCall) (limit : Option Int) (items : Store → List α) :
    Except Failure (List α) × World :=
  match w.disturb call none with
  | (some (.raise e), w) => (.error e, w)
  | (_, w) => (if Store.limitFits limit then .ok (items w.store) else .error .integerTooWide, w)

/-! ### The gateway -/

/-- A call of the sandbox. -/
def callSandbox (w : World) (c : Charge) : Except Failure GatewayResult × World :=
  let w := if w.sandbox.logsNext then w.log (w.sandbox.callRecord c) else w
  let (answer, sandbox) := w.sandbox.call
  (answer, { w with sandbox := sandbox })

/-- Move the clock by a number of seconds. -/
def advance (w : World) (seconds : Quantity) : Except Failure Unit × World :=
  match Duration.ofSeconds seconds >>= w.now.add with
  | .ok now => (.ok (), { w with now := now })
  | .error e => (.error (.range e), w)

/-- Let another worker move the newest attempt to a state. -/
def stealNewest (w : World) (state : AttemptState) : Except Failure Unit × World :=
  match w.store.rows.getLast? with
  | none => (.ok (), w)
  | some newest =>
    match w.move newest.id .pending state {} with
    | (.error e, w) => (.error e, w)
    | (.ok _, w) => (.ok (), w)

/-- Carry out an entry of the script. -/
def follow (w : World) (entry : ScriptEntry) (c : Charge) : Except Failure GatewayResult × World :=
  match entry.advance.elim (.ok (), w) w.advance with
  | (.error e, w) => (.error e, w)
  | (.ok (), w) =>
    match entry.steal.elim (.ok (), w) w.stealNewest with
    | (.error e, w) => (.error e, w)
    | (.ok (), w) =>
      match entry.act with
      | .sandbox => w.callSandbox c
      | .answer result => (.ok result, w)
      | .raise e => (.error e, w)

/-- Call the gateway. -/
def charge (w : World) (c : Charge) : Except Failure GatewayResult × World :=
  let w := { w with charges := c :: w.charges }
  match w.script with
  | [] => w.callSandbox c
  | entry :: rest => { w with script := rest }.follow entry c

/-! ### The circuit breaker -/

/-- Export a circuit state, if it changes. -/
def exportState (w : World) (state : Option CircuitState) : World :=
  { w with exported := state.getD w.exported }

/-- A record of the circuit breaker. -/
private def breakerRecord (level : Log.Level) (message : String) : Log.Record :=
  ⟨Gateway.logger, level, message, [], none⟩

/-- Look at the circuit breaker. -/
def observeBreaker (w : World) : World :=
  let b := w.breaker
  let w' := { w with breaker := b.observe w.now }.exportState (b.observeExport w.now)
  if b.wakes w.now then w'.log (breakerRecord .info "Circuit breaker transitioned to HALF_OPEN") else w'

/-- Tell the circuit breaker of a failure. -/
def failBreaker (w : World) : World :=
  let b := w.breaker
  let w' := { w with breaker := b.failed w.now }.exportState b.failedExport
  if b.trips then
    w'.log (breakerRecord .warning
      ("Circuit breaker OPENED after " ++ toString (b.failures + 1) ++ " consecutive failures"))
  else w'

/-- Tell the circuit breaker of a success. -/
def succeedBreaker (w : World) : World :=
  ({ w with breaker := w.breaker.succeeded }.exportState (some .closed)).log
    (breakerRecord .debug "Circuit breaker: success recorded, state=CLOSED")

/-! ### Publishing -/

/-- Announce a completion. -/
def publish (w : World) (c : Completion) : Except Failure Unit × World :=
  match w.publisher with
  | .recorder => (.ok (), { w with published := .event c :: w.published })
  | .broken =>
    (.error (.raised "ConnectionError" [.text brokenReason]), { w with published := .event c :: w.published })
  | .broker topic =>
    let message := BrokerMessage.ofEvent topic none (.ofCompletion c)
    (.ok (), { w with published := .sent message :: w.published }.log message.sentRecord)

/-! ### Answering -/

/-- Answer a request. -/
def answer : Program.Answering World
  | .now, w => w.readClock
  | .create d, w => w.create d
  | .get id, w => w.get id
  | .transition id source target change, w => w.transition id source target change
  | .listDue asOf limit, w => w.list .listDue limit (·.dueRetries asOf limit)
  | .listStale olderThan limit, w => w.list .listStale limit (·.stalePending olderThan limit)
  | .history key, w => ((Failure.ofTexts? [key]).elim (.ok (w.store.history key)) .error, w)
  | .charge c, w => w.charge c
  | .publish c, w => w.publish c
  | .breakerAllows, w => (w.observeBreaker.breaker.allows, w.observeBreaker)
  | .breakerFailed, w => ((), w.failBreaker)
  | .breakerSucceeded, w => ((), w.succeedBreaker)
  | .count m, w => ((), { w with counts := w.counts.increment m })
  | .log r, w => ((), w.log r)

/-- Answer a request, with any gateway. -/
def answerBy (gateway : Calling) : Program.Answering World
  | .charge c, w => gateway w c
  | r, w => w.answer r

end World

end PaymentRetry.Simulation
