import PaymentRetry.Proofs.Workers.Announcing

/-!
# The publisher changes nothing

A scheduler without a publisher goes through the same requests, with the same answers, as the scheduler with it: all
that it leaves out are the announcements, and the log records of those that have failed.  So a run of workers with
publishers is accompanied by a run of workers without, step by step but for these requests, and both come to the same
rows, the same calls of the gateway and the same reports (`System.Onward.unmoved`).

What is announced has to be told first, and an amount that is not finite cannot be.  An attempt of such an amount fails
to be announced after it has been completed, and this failure is raised (`raised_of_infinite_amount`).
-/

namespace PaymentRetry

open Simulation

/-! ### Programs -/

/-- A transition to a terminal state that succeeds is of a row with a finite amount. -/
def Request.Tellable : (r : Request) → r.Answer → Prop
  | .transition _ _ target _, x => target.isTerminal = true → ∀ a, x = .ok a → a.amount.isFinite = true
  | _, _ => True

/-- `p.Mutes ends q`: `q` is `p` without its calls of the publisher and some log records.  For answers that are
`Tellable`, both end with the same result, of which `ends` holds. -/
inductive Program.Mutes {α : Type} (ends : α → Prop) : Program α → Program α → Prop
  | done {a : α} : ends a → Mutes ends (done a) (done a)
  | ask {r : Request} {next next' : r.Answer → Program α} : (∀ c, r ≠ .publish c) →
      (∀ x, r.Tellable x → Mutes ends (next x) (next' x)) → Mutes ends (ask r next) (ask r next')
  | publish {c : Completion} {next : Except Failure Unit → Program α} {q : Program α} :
      (∀ x, (∀ e, x = .error e → e.isCancellation = false) → Mutes ends (next x) q) →
      Mutes ends (ask (.publish c) next) q
  | log {r : Log.Record} {next : Unit → Program α} {q : Program α} :
      Mutes ends (next ()) q → Mutes ends (ask (.log r) next) q

namespace Program

variable {α β : Type} {ends : α → Prop} {ends' : β → Prop}

theorem Mutes.bind {p q : Program α} {f g : α → Program β} (h : p.Mutes ends q)
    (hf : ∀ a, ends a → (f a).Mutes ends' (g a)) : (p.bind f).Mutes ends' (q.bind g) := by
  induction h with
  | done ha => exact hf _ ha
  | ask hr _ ih => exact .ask hr ih
  | publish _ ih => exact .publish ih
  | log _ ih => exact .log ih

theorem mutes_request {r : Request} (hr : ∀ c, r ≠ .publish c) : (request r).Mutes r.Tellable (request r) :=
  .ask hr fun _ hx => .done hx

theorem mutes_done {a : α} : (Program.done a).Mutes (fun _ => True) (.done a) := .done trivial

end Program

namespace Scheduler

open Program

variable (s : Scheduler)

/-- The scheduler without its publisher. -/
def muted : Scheduler := { s with announces := false }

theorem announce_mutes {d : Decision} (hd : d.attempt.amount.isFinite = true) :
    (s.announce d).Mutes (· = .ok ()) (.done (.ok ())) := by
  unfold announce Completion.ofDecision
  rw [if_pos hd]
  split
  · refine .publish fun x hx => ?_
    cases x with
    | ok u => exact .done rfl
    | error e =>
      simp only [Program.bind, hx e rfl, Bool.false_eq_true, if_false]
      exact .log (.done rfl)
  · exact .done rfl

private theorem mutes_of_request {α : Type} {ends : α → Prop} {r : Request} {f g : r.Answer → Program α}
    (hr : ∀ c, r ≠ .publish c) (hf : ∀ x, r.Tellable x → (f x).Mutes ends (g x)) :
    ((request r).bind f).Mutes ends ((request r).bind g) :=
  (mutes_request hr).bind hf

private theorem Enacts.mutes {a : Attempt} {y : Except RangeError (AttemptState × Change)}
    {q : Program (Except Failure Decision)} (h : Enacts a y q) :
    q.Mutes (fun x => ∀ d, x = .ok d → d.state.isTerminal = true → d.attempt.amount.isFinite = true) q := by
  cases h with
  | unruled => exact .done (by simp)
  | ruled =>
    refine mutes_of_request (by simp) fun x hx => ?_
    split
    · exact .done (by simp)
    · -- if this ends the payment, the answer is a tellable one
      refine mutes_of_request (by simp) fun _ _ => .done ?_
      rintro d ⟨⟩ hterminal
      exact hx hterminal _ rfl

theorem complete_mutes (a : Attempt) (result : GatewayResult) :
    (s.complete a result).Mutes
      (fun x => ∀ d, x = .ok d → d.state.isTerminal = true → d.attempt.amount.isFinite = true)
      (s.complete a result) := by
  rcases s.complete_enacts a result with ⟨-, y, -, h⟩ | ⟨rest, hrest, h⟩
  · exact h.mutes
  · rw [hrest]
    exact mutes_of_request (by simp) fun t _ => (h t).mutes

theorem recordOutcome_mutes (key : String) (id : AttemptId) (result : GatewayResult) :
    (s.recordOutcome key id result).Mutes (fun _ => True) (s.muted.recordOutcome key id result) := by
  unfold recordOutcome
  refine mutes_of_request (by simp) fun x _ => ?_
  split
  · exact mutes_done
  split
  · exact mutes_done
  split
  · exact mutes_done
  refine mutes_of_request (by simp) fun _ _ => (s.complete_mutes _ _).bind fun y hy => ?_
  split
  · split
    · exact mutes_of_request (by simp) fun _ _ => mutes_of_request (by simp) fun _ _ => mutes_done
    · exact mutes_done
  · rename_i decision
    refine mutes_of_request (by simp) fun _ _ => ?_
    -- here the two differ: one announces the decision, and the other returns it at once
    by_cases hterminal : decision.state.isTerminal = true
    · rw [if_pos hterminal, if_pos hterminal]
      refine (s.announce_mutes (hy _ rfl hterminal)).bind ?_
      rintro x rfl
      exact mutes_done
    · rw [if_neg hterminal, if_neg hterminal]
      exact mutes_done

theorem charge_mutes (c : Charge) : (s.charge c).Mutes (fun _ => True) (s.muted.charge c) := by
  show (s.charge c).Mutes _ (s.charge c)
  unfold charge
  split
  · refine mutes_of_request (by simp) fun allowed _ => ?_
    split
    · refine mutes_of_request (by simp) fun x _ => ?_
      have hreport : (Gateway.report x).Mutes (fun _ => True) (Gateway.report x) := by
        rcases Gateway.report_cases x with h | h | h
        · rw [h]
          exact mutes_done
        · rw [h]
          exact .ask (by simp) fun _ _ => mutes_done
        · rw [h]
          exact .ask (by simp) fun _ _ => mutes_done
      exact hreport.bind fun _ _ => mutes_done
    · exact mutes_of_request (by simp) fun _ _ => mutes_done
  · exact .ask (by simp) fun _ _ => mutes_done

theorem execute_mutes (a : Attempt) : (s.execute a).Mutes (fun _ => True) (s.muted.execute a) := by
  unfold execute
  refine (s.charge_mutes _).bind fun x _ => ?_
  split
  · exact s.recordOutcome_mutes _ _ _
  · split
    · exact mutes_done
    · exact mutes_of_request (by simp) fun _ _ => s.recordOutcome_mutes _ _ _

theorem submit_mutes (p : Submission) : (s.submit p).Mutes (fun _ => True) (s.muted.submit p) := by
  unfold submit
  refine mutes_of_request (by simp) fun x _ => ?_
  split
  · exact mutes_done
  · refine mutes_of_request (by simp) fun _ _ => (s.execute_mutes _).bind fun y _ => ?_
    split
    · exact mutes_done
    · split <;> exact mutes_done

theorem recover_mutes (a : Attempt) : (s.recover a).Mutes (fun _ => True) (s.muted.recover a) := by
  unfold recover
  refine mutes_of_request (by simp) fun _ _ => (s.recordOutcome_mutes _ _ _).bind fun x _ => ?_
  split
  · exact mutes_of_request (by simp) fun _ _ => mutes_done
  · exact mutes_done
  all_goals exact mutes_of_request (by simp) fun _ _ => mutes_of_request (by simp) fun _ _ => mutes_done

theorem carryOut_mutes (d : DueRetry) (a : Attempt) :
    (s.carryOut d a).Mutes (fun _ => True) (s.muted.carryOut d a) := by
  unfold carryOut
  refine mutes_of_request (by simp) fun _ _ => (s.execute_mutes _).bind fun x _ => ?_
  split
  · exact mutes_of_request (by simp) fun _ _ => mutes_done
  · exact mutes_done
  all_goals exact mutes_of_request (by simp) fun _ _ => mutes_of_request (by simp) fun _ _ => mutes_done

theorem fire_mutes (d : DueRetry) : (s.fire d).Mutes (fun _ => True) (s.muted.fire d) := by
  unfold fire
  refine mutes_of_request (by simp) fun x _ => ?_
  split
  · exact s.carryOut_mutes _ _
  · exact mutes_done
  all_goals exact mutes_of_request (by simp) fun _ _ => mutes_of_request (by simp) fun _ _ => mutes_done

end Scheduler

/-! ### Tasks -/

/-- `t.Mutes t'`: `t'` is `t` without its calls of the publisher. -/
inductive Task.Mutes {α : Type} : Task α → Task α → Prop
  | done (a : α) : Mutes (done a) (done a)
  | round {β : Type} {n : Nat} {pieces pieces' : Fin n → Program β} {next next' : (Fin n → β) → Task α} :
      (∀ i, (pieces i).Mutes (fun _ => True) (pieces' i)) → (∀ bs, (next bs).Mutes (next' bs)) →
      Mutes (round pieces next) (round pieces' next')

namespace Task

variable {α β : Type}

theorem Mutes.bind {t t' : Task α} {f g : α → Task β} (h : t.Mutes t') (hf : ∀ a, (f a).Mutes (g a)) :
    (t.bind f).Mutes (t'.bind g) := by
  induction h with
  | done a => exact hf a
  | round hpieces _ ih => exact .round hpieces ih

theorem mutes_lift {p q : Program α} (h : p.Mutes (fun _ => True) q) : (lift p).Mutes (lift q) :=
  .round (fun _ => h) fun _ => .done _

theorem mutes_each {ι : Type} {items : List ι} {f g : ι → Program α} (h : ∀ i, (f i).Mutes (fun _ => True) (g i)) :
    (each items f).Mutes (each items g) :=
  .round (fun _ => h _) fun _ => .done _

end Task

namespace Scheduler

open Program

variable (s : Scheduler)

private theorem concludePoll_mutes (t : DateTime) (recovered due fired : Nat) :
    (concludePoll t recovered due fired).Mutes (fun _ => True) (concludePoll t recovered due fired) := by
  unfold concludePoll
  refine mutes_of_request (by simp) fun _ _ => ?_
  split
  · exact mutes_of_request (by simp) fun _ _ => mutes_done
  · exact mutes_done

theorem pollAt_mutes (t : DateTime) : (s.pollAt t).Mutes (s.muted.pollAt t) := by
  have hrecover : (s.recoverStale t).Mutes (s.muted.recoverStale t) := by
    unfold recoverStale
    rw [show s.muted.lease = s.lease from rfl]
    cases t.sub s.lease with
    | error e => exact .done _
    | ok horizon =>
      refine (Task.mutes_lift (.ask (by simp) fun _ _ => mutes_done)).bind fun x => ?_
      split
      · exact .done _
      · refine (Task.mutes_each s.recover_mutes).bind fun xs => ?_
        split <;> exact .done _
  have hfire : (s.fireDue t).Mutes (s.muted.fireDue t) := by
    unfold fireDue
    refine (Task.mutes_lift (.ask (by simp) fun _ _ => mutes_done)).bind fun x => ?_
    split
    · exact .done _
    · refine (Task.mutes_each s.fire_mutes).bind fun xs => ?_
      split <;> exact .done _
  unfold pollAt
  refine hrecover.bind fun x => ?_
  split
  · exact .done _
  · refine hfire.bind fun y => ?_
    split
    · exact .done _
    · exact Task.mutes_lift (concludePoll_mutes _ _ _ _)

theorem task_mutes (op : Operation) : (s.task op).Mutes (s.muted.task op) := by
  cases op with
  | submit p => exact (Task.mutes_lift (s.submit_mutes p)).bind fun _ => .done _
  | record key id result => exact (Task.mutes_lift (s.recordOutcome_mutes key id result)).bind fun _ => .done _
  | poll asOf =>
    refine Task.Mutes.bind ?_ fun _ => .done _
    cases asOf with
    | some t => exact s.pollAt_mutes t
    | none => exact (Task.mutes_lift (.ask (by simp) fun _ _ => mutes_done)).bind s.pollAt_mutes

end Scheduler

/-! ### Worlds -/

namespace Simulation.World

/-- The world without events and log records. -/
def unannounced (w : World) : World := { w with published := [], records := [] }

/-- Events and log records do not change any answer. -/
theorem answer_unannounced {w : World} (hw : w.faults = []) {r : Request} (hcharge : ∀ c, r ≠ .charge c)
    (hpublish : ∀ c, r ≠ .publish c) :
    (w.unannounced.answer r).1 = (w.answer r).1 ∧
      (w.unannounced.answer r).2.unannounced = (w.answer r).2.unannounced := by
  have hw' : w.unannounced.faults = [] := hw
  cases r
  case charge c => exact absurd rfl (hcharge c)
  case publish c => exact absurd rfl (hpublish c)
  case get id =>
    rw [answer, answer, get_of_undisturbed hw, get_of_undisturbed hw']
    exact ⟨rfl, rfl⟩
  case create d =>
    rw [answer, answer, create_of_undisturbed hw, create_of_undisturbed hw']
    simp only [storeDraft, readClock, unannounced]
    cases w.store.insert d w.now <;> exact ⟨rfl, rfl⟩
  case transition id source target change =>
    rw [answer, answer, transition_of_undisturbed hw, transition_of_undisturbed hw']
    simp only [move, readClock, unannounced]
    cases Failure.ofTexts? change.message.join.toList with
    | some f => exact ⟨rfl, rfl⟩
    | none =>
      cases w.store.move? id source target change w.now with
      | none => exact ⟨rfl, rfl⟩
      | some s =>
        simp only [get, disturb]
        rcases Fault.take .get none w.faults with ⟨_ | (f | _ | _), rest⟩ <;> exact ⟨rfl, rfl⟩
  case listDue asOf limit =>
    rw [answer, answer, list_of_undisturbed hw, list_of_undisturbed hw']
    exact ⟨rfl, rfl⟩
  case listStale asOf limit =>
    rw [answer, answer, list_of_undisturbed hw, list_of_undisturbed hw']
    exact ⟨rfl, rfl⟩
  case breakerAllows =>
    by_cases hwakes : w.breaker.wakes w.now = true <;>
      simp only [answer, observeBreaker, unannounced, hwakes, if_true] <;> exact ⟨rfl, rfl⟩
  case breakerFailed =>
    refine ⟨rfl, ?_⟩
    by_cases htrips : w.breaker.trips = true <;> simp only [answer, failBreaker, unannounced, htrips, if_true] <;> rfl
  all_goals exact ⟨rfl, rfl⟩

end Simulation.World

/-- An exchange may happen in any world that differs in events and log records only. -/
theorem Exchange.Happens.of_unannounced {r : Request} {x : r.Answer} {refused : Bool} {w w' v : World}
    (h : Exchange.Happens ⟨r, x, refused, w, w'⟩) (hw : w.faults = []) (hcharge : ∀ c, r ≠ .charge c)
    (hpublish : ∀ c, r ≠ .publish c) (hv : v.unannounced = w.unannounced) :
    ∃ v', Exchange.Happens ⟨r, x, refused, v, v'⟩ ∧ v'.unannounced = w'.unannounced := by
  cases refused with
  | true =>
    obtain ⟨rfl, hrefusal⟩ : w' = w ∧ _ := h
    exact ⟨v, ⟨rfl, hrefusal⟩, hv⟩
  | false =>
    have hvw : v.faults = [] := (congrArg World.faults hv).trans hw
    have hanswer : w.answer r = (x, w') := by
      cases r
      case charge c => exact absurd rfl (hcharge c)
      case publish c => exact absurd rfl (hpublish c)
      all_goals exact h
    have hboth := World.answer_unannounced hw hcharge hpublish
    rw [hanswer, ← hv] at hboth
    obtain ⟨hsame, hafter⟩ := World.answer_unannounced hvw hcharge hpublish
    refine ⟨(v.answer r).2, ?_, hafter.symm.trans hboth.2⟩
    have hx : v.answer r = (x, (v.answer r).2) := Prod.ext (hsame.symm.trans hboth.1) rfl
    cases r
    case charge c => exact absurd rfl (hcharge c)
    case publish c => exact absurd rfl (hpublish c)
    all_goals exact hx

/-! ### What is heard -/

/-- An act of a program, without the worlds in which it happened. -/
inductive Heard where
  | asked (c : Charge)
  | answered (r : Request) (x : r.Answer) (refused : Bool)

/-- The request publishes or logs. -/
def Request.isNotice : Request → Bool
  | .publish _ | .log _ => true
  | _ => false

/-- The act of an event, if it is not a notice. -/
def Event.heard? : Event → Option Heard
  | .act (.asked c) => some (.asked c)
  | .act (.exchanged e) => if e.request.isNotice then none else some (.answered e.request e.answer e.refused)
  | _ => none

/-- The acts in the log, each with its place, without notices. -/
def Log.heard (log : Log) : List (Place × Heard) :=
  log.filterMap fun entry => entry.event.heard?.map (entry.place, ·)

/-! ### Steps -/

/-- `φ.Mutes ψ`: the program in the phase `ψ` is as far as that in `φ`, without calls of the publisher. -/
inductive Phase.Mutes {β : Type} : Phase β → Phase β → Prop
  | running {p q : Program β} : p.Mutes (fun _ => True) q → Mutes (running p) (running q)
  | waiting {c : Charge} {next next' : Except Failure GatewayResult → Program β} :
      (∀ x, (next x).Mutes (fun _ => True) (next' x)) → Mutes (waiting c next) (waiting c next')
  | recording {call : Recording} {own : List Act} {body : Program (Except Failure Decision)}
      {next : Except Failure Decision → Program β} {q : Program β} :
      (body.bind next).Mutes (fun _ => True) q → Mutes (recording call own body next) (running q)
  | finished (b : β) : Mutes (finished b) (finished b)

/-- A step from `φ` with `event` is followed by a step from `ψ` that is heard alike, or by none. -/
def Phase.Followed {β : Type} (φ : Phase β) (w : World) (event : Event) (ψ : Phase β) (v : World) : Prop :=
  (∃ event' ψ' v', ψ.Step v event' ψ' v' ∧ φ.Mutes ψ' ∧ v'.unannounced = w.unannounced ∧ event'.heard? = event.heard?) ∨
    φ.Mutes ψ ∧ v.unannounced = w.unannounced ∧ event.heard? = none

private theorem Program.Mutes.followed {β : Type} {r : Request} {next : r.Answer → Program β} {q : Program β}
    (h : (Program.ask r next).Mutes (fun _ => True) q) (hcharge : ∀ c, r ≠ .charge c) {x : r.Answer} {refused : Bool}
    {w w' v : World} (he : Exchange.Happens ⟨r, x, refused, w, w'⟩) (hx : r.Tellable x) (hw : w.faults = [])
    (hv : v.unannounced = w.unannounced) {φ : Phase β}
    (hφ : ∀ q', (next x).Mutes (fun _ => True) q' → φ.Mutes (.running q')) :
    φ.Followed w' (.act (.exchanged ⟨r, x, refused, w, w'⟩)) (.running q) v := by
  have hgranted : ∀ {r : Request} {x : r.Answer} {w w' : World}, Exchange.Happens ⟨r, x, refused, w, w'⟩ →
      (∀ f, r.refusal? f = none) → w.Answers r x w' := by
    intro r x w w' he hnone
    cases refused with
    | true =>
      obtain ⟨-, f, hf⟩ : _ ∧ ∃ f, r.refusal? f = some x := he
      rw [hnone f] at hf
      cases hf
    | false => exact he
  cases h with
  | ask hpublish hnext =>
    obtain ⟨v', hv', hsame⟩ := he.of_unannounced hw hcharge hpublish hv
    exact .inl ⟨_, _, v', .exchange hcharge hv', hφ _ (hnext x hx), hsame, rfl⟩
  | publish hnext =>
    obtain ⟨rfl, hx⟩ := hgranted he fun _ => rfl
    exact .inr ⟨hφ _ (hnext x hx), hv, rfl⟩
  | log hnext =>
    obtain rfl : _ = w' := (Prod.mk.inj (hgranted he fun _ => rfl)).2
    exact .inr ⟨hφ _ hnext, hv, rfl⟩

/-- Every step of a program is followed by the muted program. -/
theorem Phase.Mutes.followed {β : Type} {φ φ' ψ : Phase β} (h : φ.Mutes ψ) {w w' v : World} {event : Event}
    (hstep : φ.Step w event φ' w') (hw : w.faults = []) (hv : v.unannounced = w.unannounced)
    (htellable : ∀ e, event = .act (.exchanged e) → e.request.Tellable e.answer) : φ'.Followed w' event ψ v := by
  cases hstep with
  | @exchange r next x refused w w' hcharge he =>
    cases h with
    | running h => exact h.followed hcharge he (htellable _ rfl) hw hv fun _ => .running
  | @record call own r body next x refused w w' hcharge he =>
    cases h with
    | recording h => exact h.followed hcharge he (htellable _ rfl) hw hv fun _ => .recording
  | @ask c =>
    cases h with
    | running h =>
      cases h with
      | ask _ hnext =>
        exact .inl ⟨_, _, _, .ask, .waiting fun x => hnext x trivial, congrArg (World.charged · c) hv, rfl⟩
  | answer =>
    cases h with
    | waiting hnext => exact .inl ⟨_, _, _, .answer, .running (hnext _), hv, rfl⟩
  | enter =>
    -- calls are marked by the first program only
    cases h with
    | running h => exact .inr ⟨.recording h, hv, rfl⟩
  | leave =>
    cases h with
    | recording h => exact .inr ⟨.running h, hv, rfl⟩
  | finish =>
    cases h with
    | running h =>
      cases h with
      | done _ => exact .inl ⟨_, _, _, .finish, .finished _, hv, rfl⟩

/-! ### Runs -/

/-- The worker in the second activity is as far as the one in the first, without calls of the publisher. -/
inductive Activity.Mutes : Activity → Activity → Prop
  | idle : Mutes idle idle
  | round {β : Type} {n : Nat} (number : Nat) {phases phases' : Fin n → Phase β}
      {next next' : (Fin n → β) → Task Report} :
      (∀ i, (phases i).Mutes (phases' i)) → (∀ bs, (next bs).Mutes (next' bs)) →
      Mutes (round number phases next) (round number phases' next')
  | finished (x : Report) : Mutes (finished x) (finished x)

theorem Task.Mutes.begin {t t' : Task Report} (h : t.Mutes t') (number : Nat) :
    (t.begin number).Mutes (t'.begin number) := by
  cases h with
  | done x => exact .finished x
  | round hpieces hnext => exact .round number (fun i => .running (hpieces i)) hnext

/-- What `may` permits, by schedulers without a publisher. -/
def Permission.muted (may : Permission) : Permission := fun k s op => ∃ s', may k s' op ∧ s = s'.muted

/-- `σ.Mutes τ`: the workers of `τ` are as far as those of `σ`, without calls of the publisher, and the worlds differ
in events and log records only. -/
structure System.Mutes (σ τ : System) : Prop where
  world : τ.world.unannounced = σ.world.unannounced
  workers : ∀ k, (σ.workers k).Mutes (τ.workers k)
  heard : τ.log.heard = σ.log.heard

/-- All transitions to terminal states in the log are `Tellable`. -/
def Log.Tellable (log : Log) : Prop := ∀ p e, ⟨p, .act (.exchanged e)⟩ ∈ log → e.request.Tellable e.answer

private theorem Log.heard_cons (p : Place) (event : Event) (log : Log) :
    heard (⟨p, event⟩ :: log) = (event.heard?.map (p, ·)).toList ++ log.heard := by
  unfold heard
  rw [List.filterMap_cons]
  cases event.heard? <;> rfl

private theorem forall_update₂ {ι : Type} [DecidableEq ι] {α β : Type*} {R : α → β → Prop} {f : ι → α} {g : ι → β}
    (h : ∀ j, R (f j) (g j)) (i : ι) {a : α} {b : β} (hab : R a b) (j : ι) :
    R (Function.update f i a j) (Function.update g i b j) := by
  by_cases hj : j = i
  · subst hj
    simpa only [Function.update_self] using hab
  · simpa only [Function.update_of_ne hj] using h j

/-- Every step of a system is followed by the muted system. -/
theorem System.Mutes.followed {σ σ' τ : System} (h : σ.Mutes τ) (hw : σ.world.faults = []) (hstep : σ.Step σ')
    (hidle : ∀ k, σ.workers k = .idle → σ'.workers k = .idle) (htellable : σ'.log.Tellable) :
    σ'.Mutes τ ∨ ∃ τ', τ.Step τ' ∧ (∀ k, τ.workers k = .idle → τ'.workers k = .idle) ∧ σ'.Mutes τ' := by
  cases hstep with
  | clock t =>
    have hworld := congrArg (fun u : World => { u with now := t }) h.world
    exact .inr ⟨_, .clock t, fun _ hk => hk, hworld, h.workers, h.heard⟩
  | @start k s op hk =>
    have hbegun := hidle k hk
    simp only [Function.update_self] at hbegun
    exact absurd hbegun (Task.begin_ne_idle _ _)
  | @advance k number n β phases next bs hk hover =>
    have hmutes := h.workers k
    rw [hk] at hmutes
    generalize hτ : τ.workers k = activity at hmutes
    cases hmutes with
    | @round _ _ _ _ phases' _ next' hphases hnext =>
      have hover' : ∀ i, phases' i = .finished (bs i) := by
        intro i
        have hphase := hphases i
        rw [hover i] at hphase
        generalize phases' i = ψ at hphase ⊢
        cases hphase with
        | finished => rfl
      refine .inr ⟨_, .advance hτ hover', System.idle_update (by simp [hτ]) _, h.world, ?_, h.heard⟩
      exact forall_update₂ h.workers k ((hnext bs).begin _)
  | @act k number n β phases next i event φ w hk hphase =>
    have hmutes := h.workers k
    rw [hk] at hmutes
    generalize hτ : τ.workers k = activity at hmutes
    cases hmutes with
    | @round _ _ _ _ phases' _ next' hphases hnext =>
      have hlogged : ∀ e, event = .act (.exchanged e) → e.request.Tellable e.answer :=
        fun e he => htellable ⟨k, number, i⟩ e (by rw [he]; exact List.mem_cons_self)
      rcases (hphases i).followed hphase hw h.world hlogged with
        ⟨event', ψ, v, hstep', hφ, hsame, hheard⟩ | ⟨hφ, hsame, hheard⟩
      · refine .inr ⟨_, .act hτ hstep', System.idle_update (by simp [hτ]) _, hsame, ?_, ?_⟩
        · exact forall_update₂ h.workers k (.round number (forall_update₂ hphases i hφ) hnext)
        · rw [Log.heard_cons, Log.heard_cons, hheard, h.heard]
      · -- nothing follows, so the other worker is where it was
        have hphases' := forall_update₂ hphases i hφ
        rw [Function.update_eq_self] at hphases'
        have hround : (Activity.round number (Function.update phases i φ) next).Mutes (τ.workers k) := by
          rw [hτ]
          exact .round number hphases' hnext
        have hworkers := forall_update₂ h.workers k hround
        rw [Function.update_eq_self] at hworkers
        refine .inl ⟨hsame, hworkers, ?_⟩
        rw [Log.heard_cons, hheard, h.heard]
        rfl

private theorem System.Step.undisturbed {σ σ' : System} (h : σ.Step σ') (hw : σ.world.faults = []) :
    σ'.world.faults = [] := by
  rcases h.exchange_or_quiet with ⟨p, e, -, he, hbefore, hafter⟩ | ⟨p, c, -, hworld⟩ | ⟨⟨t, hworld⟩, -⟩
  · rw [← hafter]
    exact (he.effect (hbefore ▸ hw)).2
  · rw [hworld]
    exact hw
  · rw [hworld]
    exact hw

/-- Every run is followed by a run without publishers. -/
theorem System.Onward.exists_muted {may : Permission} {w : World} {σ : System} (hw : w.faults = [])
    (h : Onward may { world := w } σ) (htellable : σ.log.Tellable) :
    ∃ τ, Onward may.muted { world := w } τ ∧ σ.Mutes τ ∧ σ.world.faults = [] := by
  induction h with
  | refl => exact ⟨_, .refl, ⟨rfl, fun _ => .idle, rfl⟩, hw⟩
  | @start σ k s op _ hidle hmay ih =>
    obtain ⟨τ, hτ, hmutes, hfaults⟩ := ih htellable
    have hidle' : τ.workers k = .idle := by
      have hk := hmutes.workers k
      rw [hidle] at hk
      generalize τ.workers k = activity at hk ⊢
      cases hk with
      | idle => rfl
    refine ⟨_, hτ.start hidle' ⟨s, hmay, rfl⟩, ⟨hmutes.world, ?_, hmutes.heard⟩, hfaults⟩
    exact forall_update₂ hmutes.workers k ((s.task_mutes op).begin 0)
  | @step σ σ' h hstep hidles _ ih =>
    have hearlier : σ.log.Tellable := fun p e hmem => htellable p e (hstep.log_subset hmem)
    obtain ⟨τ, hτ, hmutes, hfaults⟩ := ih hearlier
    have hfaults' := hstep.undisturbed hfaults
    rcases hmutes.followed hfaults hstep hidles htellable with hmutes' | ⟨τ', hstep', hidles', hmutes'⟩
    · exact ⟨τ, hτ, hmutes', hfaults'⟩
    · exact ⟨τ', hτ.next hstep' fun k hk => .inl (hidles' k hk), hmutes', hfaults'⟩

/-! ### The publisher changes nothing -/

/-- Both systems have the same rows, calls of the gateway and reports, and the same acts but for notices. -/
structure System.Alike (σ τ : System) : Prop where
  store : τ.world.store = σ.world.store
  charges : τ.world.charges = σ.world.charges
  reports : ∀ k x, τ.workers k = .finished x ↔ σ.workers k = .finished x
  heard : τ.log.heard = σ.log.heard

theorem System.Mutes.alike {σ τ : System} (h : σ.Mutes τ) : σ.Alike τ := by
  refine ⟨congrArg (·.store) h.world, congrArg (·.charges) h.world, fun k x => ?_, h.heard⟩
  have hk := h.workers k
  generalize σ.workers k = activity, τ.workers k = activity' at hk ⊢
  cases hk with
  | idle | finished => exact Iff.rfl
  | round => exact ⟨Activity.noConfusion, Activity.noConfusion⟩

theorem Orderly.told_of_completed {w₀ w : World} {log : Log} (h : Orderly Scheduler.conduct w₀ log w)
    (htellable : log.Tellable) {p : Place} {call : Recording} {own : List Act} {e : Failure}
    (hleft : ⟨p, .left call own (.error e)⟩ ∈ log) {id : AttemptId} {source target : AttemptState} {change : Change}
    {a : Attempt} {refused : Bool} {before after : World}
    (hmem : .exchanged ⟨.transition id source target change, .ok a, refused, before, after⟩ ∈ own) :
    target.isTerminal = false := by
  obtain ⟨⟨hreturns, -⟩, hown⟩ := h.returned hleft
  have hmoved := Stage.mem_moved hmem
  by_contra hterminal
  rw [Bool.not_eq_false] at hterminal
  have hfinite : a.amount.isFinite = true := htellable p _ (hown _ hmem) hterminal a rfl
  cases hreturns with
  | unfound _ hnone | foreign _ _ hnone | completed _ _ hnone | unscheduled _ hnone =>
    rw [hnone] at hmoved
    cases hmoved
  | unmoved hfailed =>
    rw [hfailed, List.mem_singleton] at hmoved
    cases hmoved
  | untellable hone hissues =>
    rw [hone, List.mem_singleton] at hmoved
    cases hmoved
    exact Completion.ofDecision_ne_error hfinite _ _ hissues
  | calledOff _ hpublished hcancelled =>
    obtain ⟨refused', before', after', hpublish⟩ := Stage.exists_publish hpublished
    rw [(h.happens (hown _ hpublish)).not_cancelled] at hcancelled
    cases hcancelled

/-- Publishers do not matter.  For every run of workers whose publishers answer anything, there is a run without
publishers that comes to the same (`Alike`), and no call fails that has moved its attempt to a terminal state.  The
hypothesis `htellable` says that all rows which reach a terminal state have finite amounts. -/
theorem System.Onward.unmoved {may : Permission} {w : World} {σ : System} (hw : w.faults = [])
    (h : Onward may { world := w } σ) (htellable : σ.log.Tellable) :
    (∃ τ, Onward may.muted { world := w } τ ∧ σ.Alike τ) ∧
      ∀ p call own e, ⟨p, .left call own (.error e)⟩ ∈ σ.log → ∀ id source target change a refused before after,
        .exchanged ⟨.transition id source target change, .ok a, refused, before, after⟩ ∈ own →
          target.isTerminal = false := by
  refine ⟨?_, fun p call own e hleft id source target change a refused before after hmem => ?_⟩
  · obtain ⟨τ, hτ, hmutes, -⟩ := h.exists_muted hw htellable
    exact ⟨τ, hτ, hmutes.alike⟩
  · exact ((h.reachable .refl).orderly Scheduler.conduct_observed).told_of_completed htellable hleft hmem

theorem Log.Sound.tellable {log : Log} {w : World} (h : log.Sound w)
    (hfinite : ∀ a ∈ w.store.rows, a.amount.isFinite = true) : log.Tellable := by
  rintro p ⟨r, x, refused, before, after⟩ hmem
  cases r
  case transition id source target change =>
    rintro - a rfl
    exact hfinite a (h.exchanges p _ hmem).mem_of_transition
  all_goals trivial

/-- A payment that was declined and has been retried has the same history without a publisher. -/
theorem unmoved_of_retry : ∃ σ, System.Onward Sample.submitsOrPolls { world := Sample.world } σ ∧ σ.log.Tellable ∧
    σ.world.store.rows.map (·.state) = [.retried, .success] ∧ σ.world.published.length = 1 ∧
    ∃ τ, System.Onward Sample.submitsOrPolls.muted { world := Sample.world } τ ∧ σ.Alike τ := by
  obtain ⟨σ, h, hworld, -⟩ := Sample.onward_retried
  have hall : (∀ a ∈ Sample.retried.store.rows, a.amount.isFinite = true) ∧ Sample.retried.published.length = 1 := by
    decide +kernel
  rw [← hworld] at hall
  have htellable := (((h.reachable .refl).orderly Scheduler.conduct_observed).sound ⟨rfl, rfl⟩).tellable hall.1
  exact ⟨σ, h, htellable, by rw [hworld]; decide +kernel, hall.2, (h.unmoved rfl htellable).1⟩

/-- An accepted payment of an infinite amount fails with a publisher, and succeeds without one. -/
theorem raised_of_infinite_amount :
    let paid := fun (s : Scheduler) => (s.submit { Sample.submission with amount := .infinite false }).run
      (World.reply fun _ _ => .ok ⟨.success, none⟩) Sample.world
    (paid Sample.scheduler).1 = .error (.untellable [⟨[.field "amount"], .finiteNumber⟩]) ∧
      ((paid Sample.scheduler.muted).1.map (·.state)) = .ok .success ∧
      (paid Sample.scheduler).2.store.rows.map (·.state) = [.success] ∧
      (paid Sample.scheduler.muted).2.store.rows.map (·.state) = [.success] := by
  refine ⟨rfl, rfl, ?_, ?_⟩ <;> decide +kernel

end PaymentRetry
