import PaymentRetry.Proofs.Workers.Conduct

/-!
# How far an attempt has come

A program works on at most one attempt.  Its `Stage` is what it has learnt of it so far: the attempt it has made,
whether it has asked the gateway and with what answer, what it found when it looked the attempt up, how its transition
went and how announcing the end went.

`Scheduler.conduct` says what is asked, and when a program ends, in terms of stages; `Recording.Returns` does so for
what a call of `recordOutcome` returns.
-/

namespace PaymentRetry

open Simulation

/-- What a program has learnt of the attempt that it works on. -/
structure Stage where
  /-- The attempt it has created. -/
  attempt : Option Attempt := none
  /-- It has asked the gateway. -/
  asked : Bool := false
  /-- The gateway's answer. -/
  answer : Option (Except Failure GatewayResult) := none
  /-- The attempt it has looked up, with the answer. -/
  looked : Option (AttemptId × Except Failure Attempt) := none
  /-- The latest reading of the clock. -/
  clock : Option DateTime := none
  /-- The transitions it has asked for with their answers, the latest first. -/
  moved : List (AttemptId × AttemptState × Change × Except Failure Attempt) := []
  /-- The event it has published, with the answer. -/
  published : Option (Completion × Except Failure Unit) := none

namespace Stage

/-- The stage after an answer. -/
def hear (σ : Stage) : (r : Request) → r.Answer → Stage
  | .create _, x => { σ with attempt := x.toOption <|> σ.attempt }
  | .charge _, x => { σ with asked := true, answer := some x }
  | .get id, x => { σ with looked := some (id, x) }
  | .now, t => { σ with clock := some t }
  | .transition id _ target change, x => { σ with moved := (id, target, change, x) :: σ.moved }
  | .publish c, x => { σ with published := some (c, x) }
  | _, _ => σ

/-- The stage after an act. -/
def after (σ : Stage) : Act → Stage
  | .asked _ => { σ with asked := true }
  | .exchanged e => σ.hear e.request e.answer

/-- The stage after acts, the latest first. -/
def ofActs : List Act → Stage
  | [] => {}
  | a :: h => (ofActs h).after a

@[simp]
theorem ofActs_nil : ofActs [] = {} := rfl

@[simp]
theorem ofActs_cons (a : Act) (h : List Act) : ofActs (a :: h) = (ofActs h).after a := rfl

@[simp]
theorem after_exchanged (σ : Stage) (e : Exchange) : σ.after (.exchanged e) = σ.hear e.request e.answer := rfl

@[simp]
theorem after_asked (σ : Stage) (c : Charge) : σ.after (.asked c) = { σ with asked := true } := rfl

/-! ### Where it was learnt -/

private theorem exists_act {Q : Stage → Prop} {R : Act → Prop} (hfirst : ¬Q {})
    (hstep : ∀ σ a, Q (after σ a) → Q σ ∨ R a) {h : List Act} (hQ : Q (ofActs h)) : ∃ a ∈ h, R a := by
  induction h with
  | nil => exact absurd hQ hfirst
  | cons a h ih =>
    rcases hstep _ _ hQ with hQ | hR
    · obtain ⟨b, hb, hR⟩ := ih hQ
      exact ⟨b, List.mem_cons_of_mem _ hb, hR⟩
    · exact ⟨a, List.mem_cons_self, hR⟩

private theorem of_mem {Q : Stage → Prop} {a : Act} (ha : ∀ σ, Q (after σ a)) (hkeep : ∀ σ b, Q σ → Q (after σ b))
    {h : List Act} (hmem : a ∈ h) : Q (ofActs h) := by
  induction h with
  | nil => cases hmem
  | cons b h ih =>
    rcases List.mem_cons.1 hmem with rfl | hmem
    · exact ha _
    · exact hkeep _ _ (ih hmem)

theorem exists_create {h : List Act} {a : Attempt} (ha : (ofActs h).attempt = some a) :
    ∃ d refused before after, Act.exchanged ⟨.create d, .ok a, refused, before, after⟩ ∈ h := by
  obtain ⟨_, hmem, d, refused, before, after, rfl⟩ := exists_act (Q := fun σ => σ.attempt = some a)
    (R := fun act => ∃ d refused before after, act = .exchanged ⟨.create d, .ok a, refused, before, after⟩)
    (by simp) (by
      rintro σ (c | ⟨r, x, refused, before, after⟩) h
      · exact .inl h
      · cases r
        case create d =>
          rcases x with e | b
          · exact .inl h
          · obtain rfl : b = a := Option.some.inj h
            exact .inr ⟨d, refused, before, after, rfl⟩
        all_goals exact .inl h) ha
  exact ⟨d, refused, before, after, hmem⟩

theorem attempt_ne_none {h : List Act} {d : Draft} {a : Attempt} {refused : Bool} {before after : World}
    (hmem : Act.exchanged ⟨.create d, .ok a, refused, before, after⟩ ∈ h) : (ofActs h).attempt ≠ none := by
  refine of_mem (Q := fun σ => σ.attempt ≠ none) ?_ ?_ hmem
  · exact fun σ => Option.some_ne_none a
  rintro σ (c | ⟨r, x, refused, before, after⟩) h
  · exact h
  · cases r
    case create d =>
      rcases x with e | b
      · exact h
      · exact Option.some_ne_none b
    all_goals exact h

theorem exists_get {h : List Act} {id : AttemptId} {x : Except Failure Attempt}
    (hx : (ofActs h).looked = some (id, x)) :
    ∃ refused before after, Act.exchanged ⟨.get id, x, refused, before, after⟩ ∈ h := by
  obtain ⟨_, hmem, refused, before, after, rfl⟩ := exists_act (Q := fun σ => σ.looked = some (id, x))
    (R := fun act => ∃ refused before after, act = .exchanged ⟨.get id, x, refused, before, after⟩)
    (by simp) (by
      rintro σ (c | ⟨r, y, refused, before, after⟩) h
      · exact .inl h
      · cases r
        case get id' =>
          obtain ⟨rfl, rfl⟩ := Prod.mk.inj (Option.some.inj h)
          exact .inr ⟨refused, before, after, rfl⟩
        all_goals exact .inl h) hx
  exact ⟨refused, before, after, hmem⟩

theorem exists_now {h : List Act} {t : DateTime} (ht : (ofActs h).clock = some t) :
    ∃ refused before after, Act.exchanged ⟨.now, t, refused, before, after⟩ ∈ h := by
  obtain ⟨_, hmem, refused, before, after, rfl⟩ := exists_act (Q := fun σ => σ.clock = some t)
    (R := fun act => ∃ refused before after, act = .exchanged ⟨.now, t, refused, before, after⟩)
    (by simp) (by
      rintro σ (c | ⟨r, y, refused, before, after⟩) h
      · exact .inl h
      · cases r
        case now =>
          obtain rfl := Option.some.inj h
          exact .inr ⟨refused, before, after, rfl⟩
        all_goals exact .inl h) ht
  exact ⟨refused, before, after, hmem⟩

theorem exists_publish {h : List Act} {c : Completion} {x : Except Failure Unit}
    (hx : (ofActs h).published = some (c, x)) :
    ∃ refused before after, Act.exchanged ⟨.publish c, x, refused, before, after⟩ ∈ h := by
  obtain ⟨_, hmem, refused, before, after, rfl⟩ := exists_act (Q := fun σ => σ.published = some (c, x))
    (R := fun act => ∃ refused before after, act = .exchanged ⟨.publish c, x, refused, before, after⟩)
    (by simp) (by
      rintro σ (c | ⟨r, y, refused, before, after⟩) h
      · exact .inl h
      · cases r
        case publish c' =>
          obtain ⟨rfl, rfl⟩ := Prod.mk.inj (Option.some.inj h)
          exact .inr ⟨refused, before, after, rfl⟩
        all_goals exact .inl h) hx
  exact ⟨refused, before, after, hmem⟩

theorem exists_transition {h : List Act} {id : AttemptId} {target : AttemptState} {change : Change}
    {x : Except Failure Attempt} (hx : (id, target, change, x) ∈ (ofActs h).moved) :
    ∃ source refused before after,
      Act.exchanged ⟨.transition id source target change, x, refused, before, after⟩ ∈ h := by
  obtain ⟨_, hmem, source, refused, before, after, rfl⟩ := exists_act
    (Q := fun σ => (id, target, change, x) ∈ σ.moved)
    (R := fun act => ∃ source refused before after,
      act = .exchanged ⟨.transition id source target change, x, refused, before, after⟩)
    (by simp) (by
      rintro σ (c | ⟨r, y, refused, before, after⟩) h
      · exact .inl h
      · cases r
        case transition id' source target' change' =>
          rcases List.mem_cons.1 h with heq | h
          · simp only [Prod.mk.injEq] at heq
            obtain ⟨rfl, rfl, rfl, rfl⟩ := heq
            exact .inr ⟨source, refused, before, after, rfl⟩
          · exact .inl h
        all_goals exact .inl h) hx
  exact ⟨source, refused, before, after, hmem⟩

theorem mem_moved {h : List Act} {id : AttemptId} {source target : AttemptState} {change : Change}
    {x : Except Failure Attempt} {refused : Bool} {before after : World}
    (hmem : Act.exchanged ⟨.transition id source target change, x, refused, before, after⟩ ∈ h) :
    (id, target, change, x) ∈ (ofActs h).moved := by
  refine of_mem (Q := fun σ => (id, target, change, x) ∈ σ.moved) (fun σ => List.mem_cons_self) ?_ hmem
  rintro σ (c | ⟨r, y, refused, before, after⟩) h
  · exact h
  · cases r
    case transition id' source' target' change' => exact List.mem_cons_of_mem _ h
    all_goals exact h

theorem published_ne_none {h : List Act} {c : Completion} {x : Except Failure Unit} {refused : Bool}
    {before after : World} (hmem : Act.exchanged ⟨.publish c, x, refused, before, after⟩ ∈ h) :
    (ofActs h).published ≠ none := by
  refine of_mem (Q := fun σ => σ.published ≠ none) ?_ ?_ hmem
  · exact fun σ => Option.some_ne_none (c, x)
  rintro σ (c | ⟨r, y, refused, before, after⟩) h
  · exact h
  · cases r
    case publish c' => exact Option.some_ne_none (c', y)
    all_goals exact h

/-- The gateway has accepted the charge. -/
def Succeeded (σ : Stage) : Prop := ∃ result, σ.answer = some (.ok result) ∧ result.outcome = .success

/-- Nothing has been looked up, moved or published. -/
def Unrecorded (σ : Stage) : Prop := σ.looked = none ∧ σ.moved = [] ∧ σ.published = none

end Stage

/-- The draft is that of a pending attempt with a fresh identity. -/
structure Draft.Opens (d : Draft) : Prop where
  pending : d.state = .pending
  unnamed : d.id = none
  undue : d.dueAt = none

/-- The retry was listed as due. -/
def Listed (known : Exchange → Prop) (due : DueRetry) : Prop :=
  ∃ asOf limit listed refused before after,
    known ⟨.listDue asOf limit, .ok listed, refused, before, after⟩ ∧ due ∈ listed

/-- The request may be made at the stage `σ`. -/
def Stage.Asks (known : Exchange → Prop) (σ : Stage) : Request → Prop
  | .create d =>
    σ = {} ∧ d.Opens ∧ (d.number = some 1 ∨ ∃ due, Listed known due ∧ d = due.attempt.next)
  | .charge c => σ.Unrecorded ∧ σ.asked = false ∧ ∃ a, σ.attempt = some a ∧ c = a.charge
  | .get id => σ.Unrecorded ∧ ∀ a, σ.attempt = some a → id = a.id
  | .transition id source target change =>
    σ.moved = [] ∧ σ.published = none ∧ source = .pending ∧ target ≠ .pending ∧
      (∃ id' a, σ.looked = some (id', .ok a) ∧ id = a.id) ∧ (σ.Succeeded → target = .success ∧ change = {})
  | .publish c =>
    σ.published = none ∧ ∃ id target change a, σ.moved = [(id, target, change, .ok a)] ∧
      target.isTerminal = true ∧ Completion.ofDecision ⟨a, target, none⟩ = .ok c
  | _ => True

/-- A program may end at the stage `σ`.  After an accepted charge it must have asked for a transition, unless the
attempt was not found, is of another payment, or is not pending. -/
def Stage.MayEnd (σ : Stage) : Prop :=
  ∀ a, σ.attempt = some a → σ.Succeeded →
    (∃ id e, σ.looked = some (id, .error e)) ∨
    (∃ id b, σ.looked = some (id, .ok b) ∧ (b.key ≠ a.key ∨ b.state ≠ .pending)) ∨
    ∃ id target change x, σ.moved = [(id, target, change, x)]

/-- The result of `recordOutcome`, by the stage of the call. -/
inductive Recording.Returns (call : Recording) (σ : Stage) : Except Failure Decision → Prop
  | decided {b : Attempt} {d : Decision} {change : Change} :
      σ.looked = some (call.id, .ok b) → b.key = call.key → b.state = .pending →
      σ.moved = [(b.id, d.state, change, .ok d.attempt)] → d.state ≠ .pending → d.due = change.dueAt.join →
      Returns call σ (.ok d)
  | unfound {e : Failure} : σ.looked = some (call.id, .error e) → σ.moved = [] → Returns call σ (.error e)
  | foreign {b : Attempt} :
      σ.looked = some (call.id, .ok b) → b.key ≠ call.key → σ.moved = [] →
      Returns call σ (.error (.foreignAttempt call.id call.key))
  | completed {b : Attempt} :
      σ.looked = some (call.id, .ok b) → b.state ≠ .pending → σ.moved = [] →
      Returns call σ (.error (.alreadyCompleted b.id b.state))
  | unscheduled {b : Attempt} {type : FailureType} {r : RangeError} :
      σ.looked = some (call.id, .ok b) → σ.moved = [] → call.result.outcome.failureType = some type →
      (call.scheduler.policy.delay type (b.number - 1) = .error r ∨
        ∃ t delay, σ.clock = some t ∧ call.scheduler.policy.delay type (b.number - 1) = .ok (some delay) ∧
          t.add delay = .error r) →
      Returns call σ (.error (.range r))
  | unmoved {id : AttemptId} {target : AttemptState} {change : Change} {e : Failure} :
      σ.moved = [(id, target, change, .error e)] → Returns call σ (.error e)
  | untellable {id : AttemptId} {target : AttemptState} {change : Change} {a : Attempt}
      {issues : List Validation.Issue} :
      σ.moved = [(id, target, change, .ok a)] →
      Completion.ofDecision ⟨a, target, none⟩ = .error issues → Returns call σ (.error (.untellable issues))
  | calledOff {id : AttemptId} {target : AttemptState} {change : Change} {a : Attempt} {c : Completion} {e : Failure} :
      σ.moved = [(id, target, change, .ok a)] → σ.published = some (c, .error e) → e.isCancellation = true →
      Returns call σ (.error e)

/-- The conduct of all operations. -/
def Scheduler.conduct : Conduct where
  asks known past := (Stage.ofActs past).Asks known
  ends past := (Stage.ofActs past).MayEnd
  returns call own x := call.Returns (Stage.ofActs own) x ∧ (Stage.ofActs own).attempt = none

end PaymentRetry
