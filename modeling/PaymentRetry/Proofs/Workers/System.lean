import PaymentRetry.Proofs.Workers.Exchange
import PaymentRetry.Scheduler

/-!
# Workers over one world

Any number of workers share one world.  A worker carries out an operation as a task: the programs of a round take
turns with each other and with the programs of all other workers, one request at a time.  A call of the gateway is two
steps, so anything may happen while it is under way.  Nothing obliges a worker to go on, so an operation may end after
any of its steps.

`System.Step` is one step, `Reachable` what any number of steps lead to.  The log of a system says what has happened
at which place; a place is one program of one round of one worker.  A completion of an attempt by `recordOutcome`,
wherever in an operation it is called, may be marked in the log by its beginning and its end.
-/

namespace PaymentRetry

open Simulation

/-! ### What is logged -/

/-- An act of a program: it asks the gateway, or has a request answered. -/
inductive Act where
  | asked (c : Charge)
  | exchanged (e : Exchange)

/-- A call of `Scheduler.recordOutcome`. -/
structure Recording where
  scheduler : Scheduler
  key : String
  id : AttemptId
  /-- The gateway's answer. -/
  result : GatewayResult

def Recording.program (call : Recording) : Program (Except Failure Decision) :=
  call.scheduler.recordOutcome call.key call.id call.result

/-- An event of a program: an act, the beginning of a call, its return with the acts in it, or the end of the program.
-/
inductive Event where
  | act (a : Act)
  | entered (call : Recording)
  | left (call : Recording) (own : List Act) (x : Except Failure Decision)
  | ended

/-- A program, by worker, round and index. -/
structure Place where
  worker : Nat
  round : Nat
  piece : Nat
  deriving DecidableEq

/-- An event with its place. -/
structure Entry where
  place : Place
  event : Event

/-- The events so far, the latest first. -/
abbrev Log := List Entry

/-! ### What is carried out -/

/-- What a worker may do: submit a payment, record an outcome, or poll. -/
inductive Operation where
  | submit (p : Submission)
  | record (key : String) (id : AttemptId) (result : GatewayResult)
  | poll (asOf : Option DateTime)

/-- The result of an operation. -/
inductive Report where
  | submitted (x : Except Failure Attempt)
  | recorded (x : Except Failure Decision)
  | polled (x : Except Failure Nat)

/-- The task of an operation. -/
def Scheduler.task (s : Scheduler) : Operation → Task Report
  | .submit p => (Task.lift (s.submit p)).bind fun x => .done (.submitted x)
  | .record key id result => (Task.lift (s.recordOutcome key id result)).bind fun x => .done (.recorded x)
  | .poll asOf => (s.polling asOf).bind fun x => .done (.polled x)

/-- The phase of a program: running, waiting for the gateway, in a call, or finished. -/
inductive Phase (β : Type) where
  | running (p : Program β)
  | waiting (c : Charge) (next : Except Failure GatewayResult → Program β)
  | recording (call : Recording) (own : List Act) (body : Program (Except Failure Decision))
    (next : Except Failure Decision → Program β)
  | finished (b : β)

/-- The activity of a worker: idle, in a round, or finished. -/
inductive Activity : Type 1 where
  | idle
  | round {β : Type} {n : Nat} (number : Nat) (phases : Fin n → Phase β) (next : (Fin n → β) → Task Report)
  | finished (x : Report)

/-- The activity of a worker that begins a task with the round `number`. -/
def Task.begin (number : Nat) : Task Report → Activity
  | done x => .finished x
  | round pieces next => .round number (fun i => .running (pieces i)) next

theorem Task.begin_ne_idle (t : Task Report) (number : Nat) : t.begin number ≠ .idle := by
  cases t <;> exact Activity.noConfusion

/-- The world, the workers, and the log. -/
structure System where
  world : World
  workers : Nat → Activity := fun _ => .idle
  log : Log := []

/-! ### Steps -/

/-- One step of a program. -/
inductive Phase.Step {β : Type} : Phase β → World → Event → Phase β → World → Prop
  | exchange {r : Request} {next : r.Answer → Program β} {x : r.Answer} {refused : Bool} {w w' : World} :
      (∀ c, r ≠ .charge c) → Exchange.Happens ⟨r, x, refused, w, w'⟩ →
      Step (running (.ask r next)) w (.act (.exchanged ⟨r, x, refused, w, w'⟩)) (running (next x)) w'
  | ask {c : Charge} {next : Except Failure GatewayResult → Program β} {w : World} :
      Step (running (.ask (.charge c) next)) w (.act (.asked c)) (waiting c next) (w.charged c)
  | answer {c : Charge} {next : Except Failure GatewayResult → Program β} {x : Except Failure GatewayResult}
      {w : World} :
      Step (waiting c next) w (.act (.exchanged ⟨.charge c, x, false, w, w⟩)) (running (next x)) w
  | enter {call : Recording} {next : Except Failure Decision → Program β} {w : World} :
      Step (running (call.program.bind next)) w (.entered call) (recording call [] call.program next) w
  | record {call : Recording} {own : List Act} {r : Request} {body : r.Answer → Program (Except Failure Decision)}
      {next : Except Failure Decision → Program β} {x : r.Answer} {refused : Bool} {w w' : World} :
      (∀ c, r ≠ .charge c) → Exchange.Happens ⟨r, x, refused, w, w'⟩ →
      Step (recording call own (.ask r body) next) w (.act (.exchanged ⟨r, x, refused, w, w'⟩))
        (recording call (.exchanged ⟨r, x, refused, w, w'⟩ :: own) (body x) next) w'
  | leave {call : Recording} {own : List Act} {x : Except Failure Decision}
      {next : Except Failure Decision → Program β} {w : World} :
      Step (recording call own (.done x) next) w (.left call own x) (running (next x)) w
  | finish {b : β} {w : World} : Step (running (.done b)) w .ended (finished b) w

/-- One step of the system: the clock moves, an idle worker begins an operation, a program takes a step, or a worker
goes on to its next round. -/
inductive System.Step : System → System → Prop
  | clock {σ : System} (t : DateTime) : Step σ { σ with world := { σ.world with now := t } }
  | start {σ : System} {k : Nat} (s : Scheduler) (op : Operation) :
      σ.workers k = .idle → Step σ { σ with workers := Function.update σ.workers k ((s.task op).begin 0) }
  | act {σ : System} {k number n : Nat} {β : Type} {phases : Fin n → Phase β} {next : (Fin n → β) → Task Report}
      {i : Fin n} {event : Event} {φ : Phase β} {w : World} :
      σ.workers k = .round number phases next → (phases i).Step σ.world event φ w →
      Step σ {
        world := w
        workers := Function.update σ.workers k (.round number (Function.update phases i φ) next)
        log := ⟨⟨k, number, i⟩, event⟩ :: σ.log }
  | advance {σ : System} {k number n : Nat} {β : Type} {phases : Fin n → Phase β}
      {next : (Fin n → β) → Task Report} {bs : Fin n → β} :
      σ.workers k = .round number phases next → (∀ i, phases i = .finished (bs i)) →
      Step σ { σ with workers := Function.update σ.workers k ((next bs).begin (number + 1)) }

/-- The systems that can be reached from `w` with idle workers. -/
inductive Reachable (w : World) : System → Prop
  | refl : Reachable w { world := w }
  | step {σ σ' : System} : Reachable w σ → σ.Step σ' → Reachable w σ'

end PaymentRetry
