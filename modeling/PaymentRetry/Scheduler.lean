import PaymentRetry.Gateway
import PaymentRetry.Task

/-!
# The retry scheduler

A payment is a sequence of attempts.  `submit` makes the first one; `recordOutcome` completes an attempt and decides,
by the policy, whether the payment has ended or is to be retried, and when; `poll` first completes the attempts whose
lease has expired and then makes the attempts that are due.

Everything that several workers share is reached by requests, so each operation is a `Program`: what it does
between two requests depends on nothing but the answers it got.  A poll is a `Task`, because the attempts it takes up
are worked on side by side.
-/

namespace PaymentRetry

/-- A scheduler.  Its store, clock, gateway and publisher are reached through requests. -/
structure Scheduler where
  policy : RetryPolicy
  /-- The most attempts of each kind that a poll takes up, if limited. -/
  batch : Option Int := none
  /-- How long an attempt may stay pending before a poll recovers it. -/
  lease : Duration := ⟨3600 * Duration.second⟩
  /-- Calls of the gateway go through the circuit breaker. -/
  guarded : Bool := false
  /-- Completions are published. -/
  announces : Bool := true
  deriving Inhabited

/-- The arguments of a submission. -/
structure Submission where
  key : Option String
  transaction : Option String
  amount : Decimal
  currency : Option String
  /-- The properties passed to the gateway. -/
  properties : Properties := []
  /-- The payment id, if the caller chose one. -/
  payment : Option PaymentId := none

/-- The draft of the first attempt of a payment. -/
def Submission.draft (s : Submission) : Draft where
  payment := s.payment
  key := s.key
  transaction := s.transaction
  amount := s.amount
  currency := s.currency
  properties := some s.properties

namespace Scheduler

/-- The logger of the scheduler. -/
def logger : String := "retry_service.scheduler"

/-- A record with the given fields. -/
private def record (level : Log.Level) (message : String) (extras : List (String × Json))
    (failure : Option String := none) : Log.Record :=
  ⟨logger, level, message, extras, failure⟩

/-- The log fields that identify an attempt. -/
def attemptFields (a : Attempt) : List (String × Json) :=
  [("attempt_id", .text a.id.text), ("payment_id", .text a.payment.text), ("payment_external_key", .text a.key),
   ("attempt_number", .int a.number)]

/-! ### Completing an attempt -/

/-- Publish a decision that ends a payment.  A failure of the publisher is logged and not raised. -/
def announce (s : Scheduler) (d : Decision) : Program (Except Failure Unit) :=
  if s.announces then
    match Completion.ofDecision d with
    | .error issues => return .error (.untellable issues)
    | .ok completion => do
      match ← .publish completion with
      | .ok () => return .ok ()
      | .error e =>
        if e.isCancellation then return .error e
        .log (record .error "Failed to publish retry completion event"
          [("payment_id", .text d.attempt.payment.text), ("final_state", .text d.state.text)] (some e.kind))
        return .ok ()
  else return .ok ()

/-- Move `a` to SUCCESS. -/
def completeSuccess (a : Attempt) : Program (Except Failure Decision) := do
  match ← .transition a.id .pending .success {} with
  | .error e => return .error e
  | .ok updated =>
    .log (record .info "Payment attempt succeeded" (attemptFields a))
    return .ok ⟨updated, .success, none⟩

/-- Move `a` to ABORTED, with the type and the reason of its failure. -/
def abort (a : Attempt) (type : FailureType) (message : Option String) : Program (Except Failure Decision) := do
  match ← .transition a.id .pending .aborted { failureType := some (some type), message := some message } with
  | .error e => return .error e
  | .ok updated =>
    .log (record .error "Payment retries exhausted — aborting"
      (attemptFields a ++ [("failure_type", .text type.text), ("error", .ofText? message)]))
    return .ok ⟨updated, .aborted, none⟩

/-- Move `a` to RETRIED, due after `delay`. -/
def schedule (a : Attempt) (type : FailureType) (message : Option String) (delay : Duration) :
    Program (Except Failure Decision) := do
  match (← .now).add delay with
  | .error e => return .error (.range e)
  | .ok due =>
    match ← .transition a.id .pending .retried
      { failureType := some (some type), message := some message, dueAt := some (some due) } with
    | .error e => return .error e
    | .ok updated =>
      .log (record .warning "Payment attempt failed, retry scheduled"
        (attemptFields a ++ [("failure_type", .text type.text), ("error", .ofText? message),
          ("retry_due_at", .text due.text)]))
      return .ok ⟨updated, .retried, some due⟩

/-- Schedule the retry of the failed attempt `a`, or abort it if the policy has no delay for its number. -/
def completeFailure (s : Scheduler) (a : Attempt) (type : FailureType) (message : Option String) :
    Program (Except Failure Decision) :=
  match s.policy.delay type (a.number - 1) with
  | .error e => return .error (.range e)
  | .ok none => abort a type message
  | .ok (some delay) => schedule a type message delay

/-- Move the pending attempt `a` out of PENDING according to `result`. -/
def complete (s : Scheduler) (a : Attempt) (result : GatewayResult) : Program (Except Failure Decision) :=
  match result.outcome.failureType with
  | none => completeSuccess a
  | some type => s.completeFailure a type result.message

/-- Record `result` for the attempt `id` of the payment `key`, if it is pending, and publish the end of the payment if
this ends it. -/
def recordOutcome (s : Scheduler) (key : String) (id : AttemptId) (result : GatewayResult) :
    Program (Except Failure Decision) := do
  match ← .get id with
  | .error e => return .error e
  | .ok a =>
    if a.key ≠ key then return .error (.foreignAttempt id key)
    if a.state ≠ .pending then return .error (.alreadyCompleted a.id a.state)
    .count (.outcome result.outcome)
    match ← s.complete a result with
    | .error e =>
      match e with
      | .staleState .. =>
        .count .staleTransition
        .log (record .warning "Attempt completed concurrently — dropping outcome" (attemptFields a))
      | _ => pure ()
      return .error e
    | .ok decision =>
      .count (.transition decision.state)
      if decision.state.isTerminal then
        match ← s.announce decision with
        | .error e => return .error e
        | .ok () => return .ok decision
      else return .ok decision

/-! ### Carrying out an attempt -/

/-- Call the gateway, through the circuit breaker if there is one. -/
def charge (s : Scheduler) (c : Charge) : Program (Except Failure GatewayResult) :=
  if s.guarded then Gateway.guarded c else .charge c

/-- Charge for the attempt `a` and record the result.  Any failure that the gateway raises, except a cancellation, is
recorded as a technical one. -/
def execute (s : Scheduler) (a : Attempt) : Program (Except Failure Decision) := do
  match ← s.charge a.charge with
  | .ok result => s.recordOutcome a.key a.id result
  | .error e =>
    if e.isCancellation then return .error e
    .log (record .warning "Gateway raised — accounting as plugin failure"
      [("attempt_id", .text a.id.text), ("error", .text e.shown)])
    s.recordOutcome a.key a.id ⟨.pluginException, some e.reason⟩

/-- Create and execute the first attempt of a payment.  If the attempt fails, `paymentFailed` is raised after the retry
has been scheduled or the payment aborted. -/
def submit (s : Scheduler) (p : Submission) : Program (Except Failure Attempt) := do
  match ← .create p.draft with
  | .error e => return .error e
  | .ok a =>
    .log (record .info "Payment submitted"
      [("payment_id", .text a.payment.text), ("payment_external_key", .text a.key),
       ("amount", .float a.amount.toBinary64), ("currency", .text a.currency)])
    match ← s.execute a with
    | .error e => return .error e
    | .ok decision =>
      if decision.state = .success then return .ok decision.attempt
      else return .error (.paymentFailed decision)

/-! ### Polling -/

/-- The reason recorded for an attempt whose lease has expired. -/
def leaseReason : String := "Attempt outcome was not recorded before its lease expired"

/-- Record a technical failure for an attempt whose lease has expired.  Failures other than cancellations are logged
and not raised. -/
def recover (s : Scheduler) (a : Attempt) : Program (Except Failure Unit) := do
  let fields := attemptFields a ++ [("pending_since", .text a.updated.text)]
  .log (record .warning "Recovering stale PENDING attempt" fields)
  match ← s.recordOutcome a.key a.id ⟨.pluginException, some leaseReason⟩ with
  | .ok _ =>
    .count (.recovered .recovered)
    return .ok ()
  | .error (.cancelled arguments) => return .error (.cancelled arguments)
  | .error (.staleState ..) | .error (.alreadyCompleted ..) =>
    .count (.recovered .raced)
    .log (record .info "Stale attempt completed elsewhere — skipping" fields)
    return .ok ()
  | .error e =>
    .count (.recovered .error)
    .log (record .error "Could not recover stale attempt — left for next poll" fields (some e.kind))
    return .ok ()

/-- The log fields that identify a retry. -/
def retryFields (d : DueRetry) : List (String × Json) :=
  [("payment_id", .text d.payment.text), ("payment_external_key", .text d.attempt.key),
   ("attempt_number", .int (d.attempt.number + 1)), ("due_date", .text d.due.text)]

/-- Execute a retry that has been created. -/
def carryOut (s : Scheduler) (d : DueRetry) (a : Attempt) : Program (Except Failure Bool) := do
  let fields := retryFields d ++ [("attempt_id", .text a.id.text)]
  .log (record .info "Firing payment retry" fields)
  match ← s.execute a with
  | .ok _ =>
    .count (.fired .executed)
    return .ok true
  | .error (.cancelled arguments) => return .error (.cancelled arguments)
  | .error (.staleState id expected) =>
    .log (record .warning "Retry outcome dropped"
      (fields ++ [("error", .text (Failure.staleState id expected).message)]))
    .count (.fired .executed)
    return .ok true
  | .error (.alreadyCompleted id state) =>
    .log (record .warning "Retry outcome dropped"
      (fields ++ [("error", .text (Failure.alreadyCompleted id state).message)]))
    .count (.fired .executed)
    return .ok true
  | .error e =>
    .count (.fired .error)
    .log (record .error
      "Unexpected error recording retry outcome — attempt stays PENDING until its lease expires" fields
      (some e.kind))
    return .ok true

/-- Create and execute the successor of a due attempt; the result is whether it was created.  Failures other than
cancellations are logged and not raised. -/
def fire (s : Scheduler) (d : DueRetry) : Program (Except Failure Bool) := do
  match ← .create d.attempt.next with
  | .ok a => s.carryOut d a
  | .error (.cancelled arguments) => return .error (.cancelled arguments)
  | .error (.duplicateKey ..) =>
    .count (.fired .duplicate)
    .log (record .info "Retry already created by another worker — skipping" (retryFields d))
    return .ok false
  | .error e =>
    .count (.fired .error)
    .log (record .error "Could not create retry attempt — left for next poll" (retryFields d) (some e.kind))
    return .ok false

/-- The results of several programs, or the first failure among them. -/
def collect {α : Type} : List (Except Failure α) → Except Failure (List α)
  | [] => .ok []
  | .error e :: _ => .error e
  | .ok a :: rest => (collect rest).map (a :: ·)

/-- Recover the attempts that were pending at `asOf` for the lease or longer; the result is their number. -/
def recoverStale (s : Scheduler) (asOf : DateTime) : Task (Except Failure Nat) :=
  match asOf.sub s.lease with
  | .error e => return .error (.range e)
  | .ok horizon => do
    match ← .lift (.listStale horizon s.batch) with
    | .error e => return .error e
    | .ok stale =>
      match collect (← .each stale s.recover) with
      | .error e => return .error e
      | .ok _ => return .ok stale.length

/-- Fire the retries due at `asOf`; the result is how many were due and how many were created. -/
def fireDue (s : Scheduler) (asOf : DateTime) : Task (Except Failure (Nat × Nat)) := do
  match ← .lift (.listDue asOf s.batch) with
  | .error e => return .error e
  | .ok due =>
    match collect (← .each due s.fire) with
    | .error e => return .error e
    | .ok made => return .ok (due.length, made.count true)

/-- Count a poll, and log it if there was anything to do. -/
def concludePoll (asOf : DateTime) (recovered due fired : Nat) : Program (Except Failure Nat) := do
  .count .poll
  if due ≠ 0 ∨ recovered ≠ 0 then
    .log (record .info "Retry cycle complete"
      [("as_of", .text asOf.text), ("recovered", .int recovered), ("due", .int due), ("fired", .int fired)])
  return .ok fired

/-- A poll as of `asOf`: recover stale attempts, then fire due retries.  The result is the number created. -/
def pollAt (s : Scheduler) (asOf : DateTime) : Task (Except Failure Nat) := do
  match ← s.recoverStale asOf with
  | .error e => return .error e
  | .ok recovered =>
    match ← s.fireDue asOf with
    | .error e => return .error e
    | .ok (due, fired) => .lift (concludePoll asOf recovered due fired)

/-- A poll as of the given moment, or else the present one, in rounds whose programs may take turns. -/
def polling (s : Scheduler) (asOf : Option DateTime) : Task (Except Failure Nat) :=
  match asOf with
  | some t => s.pollAt t
  | none => do s.pollAt (← .lift .now)

/-- A poll that works on one attempt after the other. -/
def poll (s : Scheduler) (asOf : Option DateTime) : Program (Except Failure Nat) := (s.polling asOf).sequential

end Scheduler

end PaymentRetry
