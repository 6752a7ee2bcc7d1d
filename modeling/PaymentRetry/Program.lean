import PaymentRetry.Event
import PaymentRetry.Failure
import PaymentRetry.Log.Record
import PaymentRetry.Metric
import PaymentRetry.Policy

/-!
# Programs

What a scheduler does is a `Program`: a tree of requests to the world (the clock, the store, the gateway, the
publisher, the log and the counters), each followed by what is done with the answer.  A program is run against any
answering function; two programs can also be interleaved request by request.

`run_bind` says that a sequence of programs is run as a sequence.
-/

namespace PaymentRetry

/-- What a transition writes besides the state; a missing entry leaves the column as it is. -/
structure Change where
  /-- The kind of failure to write. -/
  failureType : Option (Option FailureType) := none
  message : Option (Option String) := none
  dueAt : Option (Option DateTime) := none

/-- A request to the clock, the store, the gateway, the publisher, the circuit breaker, the counters or the log. -/
inductive Request where
  | now
  | create (draft : Draft)
  | get (id : AttemptId)
  /-- Move an attempt from one state to another, if it is in the first. -/
  | transition (id : AttemptId) (source target : AttemptState) (change : Change)
  /-- List the retries that are due. -/
  | listDue (asOf : DateTime) (limit : Option Int)
  /-- List the pending attempts that have not been touched for long. -/
  | listStale (olderThan : DateTime) (limit : Option Int)
  /-- List the attempts of a payment. -/
  | history (key : String)
  /-- Ask the gateway to carry out an attempt. -/
  | charge (charge : Charge)
  | publish (completion : Completion)
  /-- Look at the circuit breaker: may a call be made? -/
  | breakerAllows
  /-- Tell the circuit breaker of a failure. -/
  | breakerFailed
  /-- Tell the circuit breaker of a success. -/
  | breakerSucceeded
  /-- Count a series once more. -/
  | count (metric : Metric)
  | log (record : Log.Record)

/-- The type of the answer to a request. -/
abbrev Request.Answer : Request → Type
  | now => DateTime
  | create _ | get _ | transition .. => Except Failure Attempt
  | listDue .. => Except Failure (List DueRetry)
  | listStale .. | history _ => Except Failure (List Attempt)
  | charge _ => Except Failure GatewayResult
  | publish _ => Except Failure Unit
  | breakerAllows => Bool
  | breakerFailed | breakerSucceeded | count _ | log _ => Unit

/-- A program: it ends with a result, or makes a request and goes on with the answer. -/
inductive Program (α : Type) where
  | done (a : α)
  | ask (r : Request) (next : r.Answer → Program α)

namespace Program

/-- The program `p`, followed by the program made from its result. -/
def bind {α β : Type} : Program α → (α → Program β) → Program β
  | done a, f => f a
  | ask r next, f => ask r fun x => (next x).bind f

instance : Monad Program where
  pure := done
  bind := bind

/-- The program that makes one request. -/
def request (r : Request) : Program r.Answer := ask r done

/-! ### Single requests -/

def now : Program DateTime := request .now

def create (draft : Draft) : Program (Except Failure Attempt) := request (.create draft)

def get (id : AttemptId) : Program (Except Failure Attempt) := request (.get id)

def transition (id : AttemptId) (source target : AttemptState) (change : Change) :
    Program (Except Failure Attempt) := request (.transition id source target change)

def listDue (asOf : DateTime) (limit : Option Int) : Program (Except Failure (List DueRetry)) :=
  request (.listDue asOf limit)

def listStale (olderThan : DateTime) (limit : Option Int) : Program (Except Failure (List Attempt)) :=
  request (.listStale olderThan limit)

def history (key : String) : Program (Except Failure (List Attempt)) := request (.history key)

def charge (c : Charge) : Program (Except Failure GatewayResult) := request (.charge c)

def publish (c : Completion) : Program (Except Failure Unit) := request (.publish c)

def breakerAllows : Program Bool := request .breakerAllows

def breakerFailed : Program Unit := request .breakerFailed

def breakerSucceeded : Program Unit := request .breakerSucceeded

def count (m : Metric) : Program Unit := request (.count m)

def log (r : Log.Record) : Program Unit := request (.log r)

/-! ### Running programs -/

/-- How requests are answered in a state, and the state afterwards. -/
abbrev Answering (σ : Type) := (r : Request) → σ → r.Answer × σ

/-- Run a program: each request is answered before the next is made. -/
def run {σ α : Type} (answer : Answering σ) : Program α → σ → α × σ
  | done a, s => (a, s)
  | ask r next, s => (next (answer r s).1).run answer (answer r s).2

/-- Two programs in turns: each makes one request while both go on. -/
def interleave {α β : Type} : Program α → Program β → Program (α × β)
  | done a, q => q.bind fun b => done (a, b)
  | p, done b => p.bind fun a => done (a, b)
  | ask r next, ask s next' => ask r fun x => ask s fun y => (next x).interleave (next' y)

/-- Many programs in turns. -/
def interleaveAll {α : Type} : List (Program α) → Program (List α)
  | [] => done []
  | p :: ps => (p.interleave (interleaveAll ps)).bind fun (a, as) => done (a :: as)

/-- Many programs one after the other. -/
def sequence {α : Type} : List (Program α) → Program (List α)
  | [] => done []
  | p :: ps => p.bind fun a => (sequence ps).bind fun as => done (a :: as)

@[simp]
theorem run_done {σ α : Type} (answer : Answering σ) (a : α) (s : σ) : (done a).run answer s = (a, s) := rfl

@[simp]
theorem run_ask {σ α : Type} (answer : Answering σ) (r : Request) (next : r.Answer → Program α) (s : σ) :
    (ask r next).run answer s = (next (answer r s).1).run answer (answer r s).2 := rfl

theorem run_bind {σ α β : Type} (answer : Answering σ) (p : Program α) (f : α → Program β) (s : σ) :
    (p.bind f).run answer s = (f (p.run answer s).1).run answer (p.run answer s).2 := by
  induction p generalizing s with
  | done a => rfl
  | ask r next ih => exact ih _ _

@[simp]
theorem bind_eq {α β : Type} (p : Program α) (f : α → Program β) : (p >>= f) = p.bind f := rfl

@[simp]
theorem pure_eq {α : Type} (a : α) : (pure a : Program α) = done a := rfl

theorem bind_done {α : Type} (p : Program α) : p.bind done = p := by
  induction p with
  | done a => rfl
  | ask r next ih => exact congrArg (ask r) (funext ih)

theorem bind_assoc {α β γ : Type} (p : Program α) (f : α → Program β) (g : β → Program γ) :
    (p.bind f).bind g = p.bind fun a => (f a).bind g := by
  induction p with
  | done a => rfl
  | ask r next ih => exact congrArg (ask r) (funext ih)

end Program

end PaymentRetry
