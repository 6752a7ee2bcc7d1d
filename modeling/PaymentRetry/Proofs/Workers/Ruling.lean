import PaymentRetry.Proofs.Course.Operations
import PaymentRetry.Proofs.Workers.Transcript

/-!
# What programs take down

When an attempt is completed, the policy rules what state it moves to and what is written into it
(`RetryPolicy.ruling`); a ruling that ends the payment is announced.  This module follows the scheduler's programs
through their stages once more, and now says exactly at what stage they end: `Recording.Concludes` for a call of
`recordOutcome`, `Scheduler.Executes` for carrying out an attempt.

A program is followed for answers that keep to some `Manners`.  For any manners at all, every transition takes down a
ruling and every end is told (`Scheduler.all_keep`); if nobody calls the work off, no program raises that it was.
-/

namespace PaymentRetry

open Simulation

/-! ### Announcements -/

/-- The event that `s` publishes for the attempt `a` after a transition to `target`, if any. -/
def Scheduler.announced? (s : Scheduler) (a : Attempt) (target : AttemptState) : Option Completion :=
  if s.announces && target.isTerminal then (Completion.ofDecision ⟨a, target, none⟩).toOption else none

/-! ### Manners -/

/-- Restrictions on the answers of an environment. -/
structure Manners where
  /-- The failures that the store and the publisher may raise. -/
  raises : Failure → Prop
  /-- The answers that the gateway may give. -/
  answers : Charge → Except Failure GatewayResult → Prop

namespace Manners

/-- The answer `x` to `r` keeps to `m`. -/
def Allows (m : Manners) : (r : Request) → r.Answer → Prop
  | .charge c, x => m.answers c x
  | .create _, x | .get _, x | .transition .., x => ∀ e, x = .error e → m.raises e
  | .publish _, x => ∀ e, x = .error e → m.raises e
  | _, _ => True

/-- No restrictions. -/
def any : Manners := ⟨fun _ => True, fun _ _ => True⟩

theorem any_allows (r : Request) (x : r.Answer) : any.Allows r x := by
  cases r
  case charge c => trivial
  case create | get | transition => exact fun _ _ => trivial
  case publish => exact fun _ _ => trivial
  all_goals trivial

/-- No failure is a cancellation. -/
structure CarryOn (m : Manners) : Prop where
  raises : ∀ e, m.raises e → e.isCancellation = false
  answers : ∀ c e, m.answers c (.error e) → e.isCancellation = false

end Manners

/-! ### Programs by stages -/

namespace Stage

/-- The transition is a ruling of `p` on `result` for the row that was looked up, which is pending. -/
def Ruled (σ : Stage) (p : RetryPolicy) (result : GatewayResult) (id : AttemptId) (target : AttemptState)
    (change : Change) : Prop :=
  ∃ id' b, σ.looked = some (id', .ok b) ∧ b.id = id ∧ b.state = .pending ∧
    p.Gives result b.number σ.clock (.ok (target, change))

end Stage

/-- A transition that `s` asks for is a ruling of its policy. -/
def Scheduler.Rules (s : Scheduler) (σ : Stage) : Request → Prop
  | .transition id _ target change => ∃ result, σ.Ruled s.policy result id target change
  | _ => True

namespace Program

variable {α β : Type} {m : Manners} {s : Scheduler}

/-- The weakest precondition of a program, from a stage: its transitions are rulings of `s`, and it ends as `ends`
says, for all answers that `m` allows. -/
def Obeys (m : Manners) (s : Scheduler) (ends : Stage → α → Prop) : Program α → Stage → Prop
  | done a, σ => ends σ a
  | ask r next, σ => s.Rules σ r ∧ ∀ x, m.Allows r x → (next x).Obeys m s ends (σ.hear r x)

theorem Obeys.mono {ends ends' : Stage → α → Prop} {p : Program α} {σ : Stage} (hp : p.Obeys m s ends σ)
    (h : ∀ σ a, ends σ a → ends' σ a) : p.Obeys m s ends' σ := by
  induction p generalizing σ with
  | done a => exact h σ a hp
  | ask r next ih => exact ⟨hp.1, fun x hx => ih x (hp.2 x hx)⟩

@[simp]
theorem obeys_done {ends : Stage → α → Prop} {a : α} {σ : Stage} : (done a).Obeys m s ends σ ↔ ends σ a := Iff.rfl

@[simp]
theorem obeys_bind {ends : Stage → β → Prop} {p : Program α} {f : α → Program β} {σ : Stage} :
    (p.bind f).Obeys m s ends σ ↔ p.Obeys m s (fun σ a => (f a).Obeys m s ends σ) σ := by
  induction p generalizing σ with
  | done a => rfl
  | ask r next ih =>
    simp only [bind, Obeys]
    exact and_congr_right fun _ => forall₂_congr fun x _ => ih x

@[simp]
theorem obeys_log {ends : Stage → Unit → Prop} {r : Log.Record} {σ : Stage} :
    (log r).Obeys m s ends σ ↔ ends σ () :=
  ⟨fun h => h.2 () trivial, fun h => ⟨trivial, fun _ _ => h⟩⟩

@[simp]
theorem obeys_count {ends : Stage → Unit → Prop} {metric : Metric} {σ : Stage} :
    (count metric).Obeys m s ends σ ↔ ends σ () :=
  ⟨fun h => h.2 () trivial, fun h => ⟨trivial, fun _ _ => h⟩⟩

@[simp]
theorem obeys_breakerAllows {ends : Stage → Bool → Prop} {σ : Stage} :
    breakerAllows.Obeys m s ends σ ↔ ∀ b, ends σ b :=
  ⟨fun h x => h.2 x trivial, fun h => ⟨trivial, fun x _ => h x⟩⟩

@[simp]
theorem obeys_breakerFailed {ends : Stage → Unit → Prop} {σ : Stage} :
    breakerFailed.Obeys m s ends σ ↔ ends σ () :=
  ⟨fun h => h.2 () trivial, fun h => ⟨trivial, fun _ _ => h⟩⟩

@[simp]
theorem obeys_breakerSucceeded {ends : Stage → Unit → Prop} {σ : Stage} :
    breakerSucceeded.Obeys m s ends σ ↔ ends σ () :=
  ⟨fun h => h.2 () trivial, fun h => ⟨trivial, fun _ _ => h⟩⟩

@[simp]
theorem obeys_listDue {ends : Stage → Except Failure (List DueRetry) → Prop} {asOf : DateTime} {limit : Option Int}
    {σ : Stage} : (listDue asOf limit).Obeys m s ends σ ↔ ∀ x, ends σ x :=
  ⟨fun h x => h.2 x trivial, fun h => ⟨trivial, fun x _ => h x⟩⟩

@[simp]
theorem obeys_listStale {ends : Stage → Except Failure (List Attempt) → Prop} {olderThan : DateTime}
    {limit : Option Int} {σ : Stage} : (listStale olderThan limit).Obeys m s ends σ ↔ ∀ x, ends σ x :=
  ⟨fun h x => h.2 x trivial, fun h => ⟨trivial, fun x _ => h x⟩⟩

@[simp]
theorem obeys_now {ends : Stage → DateTime → Prop} {σ : Stage} :
    now.Obeys m s ends σ ↔ ∀ t, ends { σ with clock := some t } t :=
  ⟨fun h t => h.2 t trivial, fun h => ⟨trivial, fun t _ => h t⟩⟩

@[simp]
theorem obeys_get {ends : Stage → Except Failure Attempt → Prop} {id : AttemptId} {σ : Stage} :
    (get id).Obeys m s ends σ ↔
      ∀ x, (∀ e, x = .error e → m.raises e) → ends { σ with looked := some (id, x) } x :=
  ⟨fun h => h.2, fun h => ⟨trivial, h⟩⟩

@[simp]
theorem obeys_create {ends : Stage → Except Failure Attempt → Prop} {d : Draft} {σ : Stage} :
    (create d).Obeys m s ends σ ↔
      ∀ x, (∀ e, x = .error e → m.raises e) → ends { σ with attempt := x.toOption <|> σ.attempt } x :=
  ⟨fun h => h.2, fun h => ⟨trivial, h⟩⟩

@[simp]
theorem obeys_transition {ends : Stage → Except Failure Attempt → Prop} {id : AttemptId}
    {source target : AttemptState} {change : Change} {σ : Stage} :
    (transition id source target change).Obeys m s ends σ ↔
      (∃ result, σ.Ruled s.policy result id target change) ∧
        ∀ x, (∀ e, x = .error e → m.raises e) → ends { σ with moved := (id, target, change, x) :: σ.moved } x :=
  Iff.rfl

@[simp]
theorem obeys_charge {ends : Stage → Except Failure GatewayResult → Prop} {c : Charge} {σ : Stage} :
    (charge c).Obeys m s ends σ ↔ ∀ x, m.answers c x → ends { σ with asked := true, answer := some x } x :=
  ⟨fun h => h.2, fun h => ⟨trivial, h⟩⟩

@[simp]
theorem obeys_publish {ends : Stage → Except Failure Unit → Prop} {c : Completion} {σ : Stage} :
    (publish c).Obeys m s ends σ ↔
      ∀ x, (∀ e, x = .error e → m.raises e) → ends { σ with published := some (c, x) } x :=
  ⟨fun h => h.2, fun h => ⟨trivial, h⟩⟩

theorem Obeys.of_leaves {ends : Stage → α → Prop} {p q : Program α} {h₀ h : List Act}
    (hp : p.Obeys m s ends (Stage.ofActs h₀)) (hq : p.Leaves h q)
    (hm : ∀ e, .exchanged e ∈ h → m.Allows e.request e.answer) : q.Obeys m s ends (Stage.ofActs (h ++ h₀)) := by
  induction hq with
  | start => exact hp
  | @answered h r next x refused before after _ ih =>
    have hrest := (ih fun e he => hm e (by simp [he])).2 x (hm ⟨r, x, refused, before, after⟩ (by simp))
    have hstage : Stage.ofActs (.exchanged ⟨r, x, refused, before, after⟩ :: (r.opening ++ h) ++ h₀) =
        (Stage.ofActs (h ++ h₀)).hear r x := by
      cases r <;> rfl
    rw [hstage]
    exact hrest

/-- Each answered request of a program that `Obeys` was allowed by `Scheduler.Rules` at the stage it was made. -/
theorem Obeys.rules_of_leaves {ends : Stage → α → Prop} {p q : Program α} {h₀ h later earlier : List Act}
    {e : Exchange} (hp : p.Obeys m s ends (Stage.ofActs h₀)) (hq : p.Leaves h q)
    (hm : ∀ e, .exchanged e ∈ h → m.Allows e.request e.answer) (he : h = later ++ .exchanged e :: earlier) :
    ∃ h', earlier = e.request.opening ++ h' ∧ s.Rules (Stage.ofActs (h' ++ h₀)) e.request := by
  induction hq generalizing later with
  | start => simp at he
  | @answered h r next x refused before after hq ih =>
    rcases later with _ | ⟨a, later⟩
    · simp only [List.nil_append, List.cons.injEq] at he
      obtain ⟨heq, hrest⟩ := he
      cases heq
      exact ⟨h, hrest.symm, (hp.of_leaves hq fun e he => hm e (by simp [he])).1⟩
    · simp only [List.cons_append, List.cons.injEq] at he
      have hsplit : ∃ later', h = later' ++ .exchanged e :: earlier := by
        have hrest := he.2
        cases r
        case charge c =>
          rcases later with _ | ⟨b, later⟩
          · simp [Request.opening] at hrest
          · simp only [Request.opening, List.cons_append, List.nil_append, List.cons.injEq] at hrest
            exact ⟨later, hrest.2⟩
        all_goals exact ⟨later, hrest⟩
      obtain ⟨later', hlater⟩ := hsplit
      exact ih (fun e he => hm e (by simp [he])) hlater

end Program

/-! ### What has been learnt at the end -/

/-- A terminal transition of `a` has been published, if it is to be. -/
def Scheduler.Tells (s : Scheduler) (a : Attempt) (target : AttemptState) (σ σ' : Stage) : Prop :=
  match s.announced? a target with
  | none => σ' = σ
  | some c => ∃ x, σ' = { σ with published := some (c, x) }

/-- The stage after `recordOutcome`. -/
inductive Recording.Concludes (call : Recording) (σ : Stage) : Stage → Prop
  | unfound {e : Failure} : Concludes call σ { σ with looked := some (call.id, .error e) }
  | foreign {b : Attempt} : b.key ≠ call.key → Concludes call σ { σ with looked := some (call.id, .ok b) }
  | completed {b : Attempt} : b.state ≠ .pending → Concludes call σ { σ with looked := some (call.id, .ok b) }
  | unruled {b : Attempt} {clock : Option DateTime} {r : RangeError} :
      b.key = call.key → b.state = .pending →
      call.scheduler.policy.Gives call.result b.number clock (.error r) →
      Concludes call σ { σ with looked := some (call.id, .ok b), clock := clock }
  | unmoved {b : Attempt} {clock : Option DateTime} {target : AttemptState} {change : Change} {e : Failure} :
      b.key = call.key → b.state = .pending →
      call.scheduler.policy.Gives call.result b.number clock (.ok (target, change)) →
      Concludes call σ
        { σ with looked := some (call.id, .ok b), clock := clock, moved := (b.id, target, change, .error e) :: σ.moved }
  | moved {b a : Attempt} {clock : Option DateTime} {target : AttemptState} {change : Change} {σ' : Stage} :
      b.key = call.key → b.state = .pending →
      call.scheduler.policy.Gives call.result b.number clock (.ok (target, change)) →
      call.scheduler.Tells a target
        { σ with
          looked := some (call.id, .ok b), clock := clock, moved := (b.id, target, change, .ok a) :: σ.moved } σ' →
      Concludes call σ σ'

/-- The gateway has answered `x`, or the circuit breaker has rejected the call. -/
def Scheduler.Calls (s : Scheduler) (m : Manners) (c : Charge) (σ σ' : Stage) (x : Except Failure GatewayResult) :
    Prop :=
  (m.answers c x ∧ σ' = { σ with asked := true, answer := some x }) ∨
    s.guarded = true ∧ σ' = σ ∧ x = .error (.gatewayUnavailable Gateway.rejectionReason)

/-- The stage after `execute`. -/
inductive Scheduler.Executes (s : Scheduler) (m : Manners) (a : Attempt) (σ : Stage) : Stage → Prop
  | calledOff {σ' : Stage} {e : Failure} : s.Calls m a.charge σ σ' (.error e) → e.isCancellation = true →
      Executes s m a σ σ'
  | recorded {σ' σ'' : Stage} {x : Except Failure GatewayResult} : s.Calls m a.charge σ σ' x →
      Recording.Concludes ⟨s, a.key, a.id, .ofAnswer x⟩ σ' σ'' → Executes s m a σ σ''

namespace Scheduler

open Program

variable {m : Manners} (s : Scheduler)

/-- The result is a cancellation. -/
def CalledOff {α : Type} : Except Failure α → Prop
  | .error e => e.isCancellation = true
  | .ok _ => False

/-- The stage after `complete`, and its result. -/
inductive Enacted (m : Manners) (b : Attempt) (result : GatewayResult) (σ : Stage) :
    Stage → Except Failure Decision → Prop
  | unruled {clock : Option DateTime} {r : RangeError} : s.policy.Gives result b.number clock (.error r) →
      Enacted m b result σ { σ with clock := clock } (.error (.range r))
  | ruled {clock : Option DateTime} {target : AttemptState} {change : Change} {y : Except Failure Attempt} :
      s.policy.Gives result b.number clock (.ok (target, change)) → (∀ e, y = .error e → m.raises e) →
      Enacted m b result σ { σ with clock := clock, moved := (b.id, target, change, y) :: σ.moved }
        (y.map fun a => ⟨a, target, change.dueAt.join⟩)

section

variable {b : Attempt} {id : AttemptId} {result : GatewayResult} {σ : Stage} (hlooked : σ.looked = some (id, .ok b))
  (hpending : b.state = .pending)

include hlooked hpending

private theorem Enacts.obeys {y : Except RangeError (AttemptState × Change)} {q : Program (Except Failure Decision)}
    (h : Enacts b y q) (clock : Option DateTime) (hgives : s.policy.Gives result b.number clock y) :
    q.Obeys m s (s.Enacted m b result σ) { σ with clock := clock } := by
  cases h with
  | unruled r => exact .unruled hgives
  | ruled target change note =>
    simp only [obeys_bind, obeys_transition]
    refine ⟨⟨result, id, b, hlooked, rfl, hpending, hgives⟩, fun y hy => ?_⟩
    cases y with
    | error e => exact .ruled hgives hy
    | ok a =>
      simp only [obeys_bind, obeys_log, obeys_done]
      exact .ruled (y := .ok a) hgives hy

private theorem complete_obeys : (s.complete b result).Obeys m s (s.Enacted m b result σ) σ := by
  rcases s.complete_enacts b result with ⟨-, y, hy, h⟩ | ⟨rest, hrest, h⟩
  · exact h.obeys s hlooked hpending σ.clock (.inr hy)
  · simp only [hrest, obeys_bind, obeys_now]
    exact fun t => (h t).obeys s hlooked hpending (some t) (.inl ⟨t, rfl, rfl⟩)

end

private theorem announce_obeys {d : Decision} (hterminal : d.state.isTerminal = true) (σ : Stage) :
    (s.announce d).Obeys m s (fun σ' x =>
      s.Tells d.attempt d.state σ σ' ∧ (m.CarryOn → ¬CalledOff x)) σ := by
  have htold : Completion.ofDecision ⟨d.attempt, d.state, none⟩ = Completion.ofDecision d := rfl
  unfold announce
  cases hannounces : s.announces with
  | false =>
    have hnone : s.announced? d.attempt d.state = none := by simp [announced?, hannounces]
    refine ⟨?_, fun _ h => h⟩
    unfold Tells
    rw [hnone]
  | true =>
    cases hd : Completion.ofDecision d with
    | error issues =>
      have hnone : s.announced? d.attempt d.state = none := by
        simp [announced?, hannounces, hterminal, htold, hd, Except.toOption]
      refine ⟨?_, fun _ h => Bool.noConfusion h⟩
      unfold Tells
      rw [hnone]
    | ok c =>
      have hsome : s.announced? d.attempt d.state = some c := by
        simp [announced?, hannounces, hterminal, htold, hd, Except.toOption]
      unfold Tells
      rw [hsome]
      simp only [if_true, bind_eq, obeys_bind, obeys_publish]
      intro x hx
      rcases x with e | u
      · simp only
        split
        · rename_i he
          refine ⟨⟨_, rfl⟩, fun hm _ => ?_⟩
          rw [hm.raises e (hx e rfl)] at he
          cases he
        · simp only [obeys_bind, obeys_log, pure_eq, obeys_done]
          exact ⟨⟨_, rfl⟩, fun _ h => h⟩
      · exact ⟨⟨_, rfl⟩, fun _ h => h⟩

theorem recordOutcome_obeys (key : String) (id : AttemptId) (result : GatewayResult) (σ : Stage) :
    (s.recordOutcome key id result).Obeys m s (fun σ' x =>
      Recording.Concludes ⟨s, key, id, result⟩ σ σ' ∧ (m.CarryOn → ¬CalledOff x)) σ := by
  unfold recordOutcome
  simp only [bind_eq, obeys_bind, obeys_get]
  intro x hx
  rcases x with e | b
  · refine ⟨.unfound, fun hm h => ?_⟩
    have := hm.raises e (hx e rfl)
    rw [show e.isCancellation = true from h] at this
    cases this
  simp only
  split
  · rename_i hkey
    exact ⟨.foreign hkey, fun _ h => Bool.noConfusion h⟩
  rename_i hkey
  simp only [ne_eq, Decidable.not_not] at hkey
  split
  · rename_i hsettled
    exact ⟨.completed hsettled, fun _ h => Bool.noConfusion h⟩
  rename_i hpending
  simp only [ne_eq, Decidable.not_not] at hpending
  simp only [pure_eq, obeys_bind, obeys_count]
  refine (s.complete_obeys (σ := { σ with looked := some (id, .ok b) }) rfl hpending).mono ?_
  rintro σ' x (⟨hgives⟩ | @⟨clock, target, change, y, hgives, hy⟩)
  · exact ⟨.unruled hkey hpending hgives, fun _ h => Bool.noConfusion h⟩
  · rcases y with e | a
    · have he : m.CarryOn → ¬CalledOff (Except.error e : Except Failure Decision) := by
        intro hm h
        have := hm.raises e (hy e rfl)
        rw [show e.isCancellation = true from h] at this
        cases this
      simp only [Except.map]
      split
      · simp only [obeys_bind, obeys_count, obeys_log, obeys_done]
        exact ⟨.unmoved hkey hpending hgives, he⟩
      · exact ⟨.unmoved hkey hpending hgives, he⟩
    · simp only [Except.map, obeys_bind, obeys_count]
      split
      · rename_i hterminal
        simp only [obeys_bind]
        refine (s.announce_obeys hterminal _).mono ?_
        rintro σ'' x ⟨htells, hx⟩
        rcases x with e | u
        · exact ⟨.moved hkey hpending hgives htells, hx⟩
        · exact ⟨.moved hkey hpending hgives htells, fun _ h => h⟩
      · rename_i hterminal
        refine ⟨.moved (a := a) hkey hpending hgives ?_, fun _ h => h⟩
        have hnone : s.announced? a target = none := by
          simp only [Bool.not_eq_true] at hterminal
          simp [announced?, hterminal]
        unfold Tells
        rw [hnone]

private theorem charge_obeys (c : Charge) (σ : Stage) : (s.charge c).Obeys m s (s.Calls m c σ) σ := by
  unfold charge
  split
  · rename_i hguarded
    simp only [Gateway.guarded, bind_eq, obeys_bind, obeys_breakerAllows]
    intro allowed
    split
    · simp only [obeys_bind, obeys_charge]
      intro x hx
      rcases Gateway.report_cases x with hreport | hreport | hreport
      · rw [hreport]
        exact .inl ⟨hx, rfl⟩
      · rw [hreport, obeys_breakerFailed]
        exact .inl ⟨hx, rfl⟩
      · rw [hreport, obeys_breakerSucceeded]
        exact .inl ⟨hx, rfl⟩
    · simp only [obeys_bind, obeys_log]
      exact .inr ⟨hguarded, rfl, rfl⟩
  · rw [obeys_charge]
    exact fun x hx => .inl ⟨hx, rfl⟩

theorem execute_obeys (a : Attempt) (σ : Stage) :
    (s.execute a).Obeys m s (fun σ' x => s.Executes m a σ σ' ∧ (m.CarryOn → ¬CalledOff x)) σ := by
  unfold execute
  simp only [bind_eq, obeys_bind]
  refine (s.charge_obeys a.charge σ).mono ?_
  intro σ' x hcalls
  cases x with
  | ok result =>
    exact (s.recordOutcome_obeys a.key a.id result σ').mono fun σ'' y h => ⟨.recorded hcalls h.1, h.2⟩
  | error e =>
    simp only
    split
    · rename_i he
      refine ⟨.calledOff hcalls he, fun hm h => ?_⟩
      rcases hcalls with ⟨hx, -⟩ | ⟨-, -, hx⟩
      · rw [hm.answers _ e hx] at he
        cases he
      · cases hx
        cases he
    · simp only [obeys_bind, obeys_log]
      exact (s.recordOutcome_obeys a.key a.id ⟨.pluginException, some e.reason⟩ σ').mono
        fun σ'' y h => ⟨.recorded hcalls h.1, h.2⟩

theorem recover_obeys (a : Attempt) (σ : Stage) :
    (s.recover a).Obeys m s (fun σ' x =>
      Recording.Concludes ⟨s, a.key, a.id, ⟨.pluginException, some leaseReason⟩⟩ σ σ' ∧
        (m.CarryOn → x = .ok ())) σ := by
  unfold recover
  simp only [bind_eq, obeys_bind, obeys_log]
  refine (s.recordOutcome_obeys a.key a.id _ σ).mono ?_
  rintro σ' x ⟨hconcludes, hx⟩
  split
  case h_2 => exact ⟨hconcludes, fun hm => absurd rfl (hx hm)⟩
  all_goals
    simp only [obeys_bind, obeys_count, obeys_log, pure_eq, obeys_done]
    exact ⟨hconcludes, fun _ => trivial⟩

theorem carryOut_obeys (d : DueRetry) (a : Attempt) (σ : Stage) :
    (s.carryOut d a).Obeys m s (fun σ' x => s.Executes m a σ σ' ∧ (m.CarryOn → x = .ok true)) σ := by
  unfold carryOut
  simp only [bind_eq, obeys_bind, obeys_log]
  refine (s.execute_obeys a σ).mono ?_
  rintro σ' x ⟨hexecutes, hx⟩
  split
  case h_2 => exact ⟨hexecutes, fun hm => absurd rfl (hx hm)⟩
  all_goals
    simp only [obeys_bind, obeys_count, obeys_log, pure_eq, obeys_done]
    exact ⟨hexecutes, fun _ => trivial⟩

/-! ### All programs -/

/-- Every terminal transition of the stage has been published, if it is to be. -/
def Told (σ : Stage) : Prop :=
  ∀ id target change a, (id, target, change, .ok a) ∈ σ.moved → ∀ c, s.announced? a target = some c →
    ∃ x, σ.published = some (c, x)

/-- The transitions of the program are rulings of `s`, and it ends with all terminal ones published. -/
def Keeps (β : Type) (p : Program β) : Prop := p.Obeys .any s (fun σ _ => s.Told σ) {}

variable {s}

private theorem told_of_concludes {call : Recording} {σ σ' : Stage} (h : call.Concludes σ σ')
    (hmoved : σ.moved = []) : call.scheduler.Told σ' := by
  cases h with
  | unfound | foreign | completed | unruled => simp [Told, hmoved]
  | unmoved => simp [Told, hmoved]
  | @moved b a clock target change σ' _ _ _ htells =>
    intro id target' change' a' hmem c hc
    unfold Tells at htells
    cases hannounced : call.scheduler.announced? a target with
    | none =>
      rw [hannounced] at htells
      simp only at htells
      simp only [htells, hmoved, List.mem_singleton, Prod.mk.injEq, Except.ok.injEq] at hmem
      obtain ⟨-, rfl, -, rfl⟩ := hmem
      rw [hannounced] at hc
      cases hc
    | some c' =>
      rw [hannounced] at htells
      obtain ⟨x, hx⟩ := htells
      simp only [hx, hmoved, List.mem_singleton, Prod.mk.injEq, Except.ok.injEq] at hmem
      obtain ⟨-, rfl, -, rfl⟩ := hmem
      rw [hannounced] at hc
      cases hc
      exact ⟨x, by rw [hx]⟩

private theorem Calls.moved_eq {m : Manners} {c : Charge} {σ σ' : Stage} {x : Except Failure GatewayResult}
    (h : s.Calls m c σ σ' x) : σ'.moved = σ.moved := by
  rcases h with ⟨-, rfl⟩ | ⟨-, rfl, -⟩ <;> rfl

private theorem told_of_executes {m : Manners} {a : Attempt} {σ σ' : Stage} (h : s.Executes m a σ σ')
    (hmoved : σ.moved = []) : s.Told σ' := by
  cases h with
  | calledOff hcalls => simp [Told, hcalls.moved_eq, hmoved]
  | recorded hcalls hconcludes => exact told_of_concludes hconcludes (hcalls.moved_eq.trans hmoved)

private theorem told_of_moved {σ : Stage} (h : σ.moved = []) : s.Told σ := by simp [Told, h]

variable (s)

theorem submit_keeps (p : Submission) : s.Keeps _ (s.submit p) := by
  unfold Keeps submit
  simp only [bind_eq, obeys_bind, obeys_create]
  rintro (e | a) -
  · exact told_of_moved rfl
  · simp only [obeys_bind, obeys_log]
    refine (s.execute_obeys a _).mono ?_
    rintro σ x ⟨hexecutes, -⟩
    have htold : s.Told σ := told_of_executes hexecutes rfl
    rcases x with e | decision
    · exact htold
    · simp only
      split <;> exact htold

theorem recordOutcome_keeps (key : String) (id : AttemptId) (result : GatewayResult) :
    s.Keeps _ (s.recordOutcome key id result) :=
  (s.recordOutcome_obeys key id result {}).mono fun _ _ h => told_of_concludes h.1 rfl

theorem recover_keeps (a : Attempt) : s.Keeps _ (s.recover a) :=
  (s.recover_obeys a {}).mono fun _ _ h => told_of_concludes h.1 rfl

theorem fire_keeps (d : DueRetry) : s.Keeps _ (s.fire d) := by
  unfold Keeps fire
  simp only [bind_eq, obeys_bind, obeys_create]
  rintro x -
  split
  · exact (s.carryOut_obeys d _ _).mono fun _ _ h => told_of_executes h.1 rfl
  · exact told_of_moved rfl
  all_goals
    simp only [obeys_bind, obeys_count, obeys_log, pure_eq, obeys_done]
    exact told_of_moved rfl

theorem all_keep (op : Operation) : (s.task op).All s.Keeps := by
  have hquiet : s.Told {} := told_of_moved rfl
  refine s.all_pieces s.submit_keeps s.recordOutcome_keeps ?_ ?_ s.recover_keeps ?_ s.fire_keeps ?_ op
  · exact obeys_now.2 fun _ => told_of_moved rfl
  · exact fun _ _ => obeys_listStale.2 fun _ => hquiet
  · exact fun _ _ => obeys_listDue.2 fun _ => hquiet
  · intro asOf recovered due fired
    unfold Keeps concludePoll
    simp only [bind_eq, obeys_bind, obeys_count]
    split
    · simp only [obeys_bind, obeys_log]
      exact hquiet
    · exact hquiet

end Scheduler

/-- If all operations have the policy `policy`, every transition was a ruling at its stage. -/
theorem System.Onward.ruled_of_split {w : World} {σ : System} {may : Permission} {policy : RetryPolicy}
    (hmay : ∀ k s op, may k s op → s.policy = policy) (h : Onward may { world := w } σ) {p : Place} {id : AttemptId}
    {source target : AttemptState} {change : Change} {x : Except Failure Attempt} {refused : Bool}
    {before after : World} {later earlier : Log}
    (hlog : σ.log =
      later ++ ⟨p, .act (.exchanged ⟨.transition id source target change, x, refused, before, after⟩)⟩ :: earlier)
    (hallows : may.Allows p.worker) :
    ∃ result, (Stage.ofActs (Log.past p earlier)).Ruled policy result id target change := by
  have hpast : σ.log.past p = later.past p ++
      .exchanged ⟨.transition id source target change, x, refused, before, after⟩ :: Log.past p earlier := by
    rw [hlog, Log.past_append, Log.past_cons_act]
  have hkeeps : ∀ s op, may p.worker s op →
      (s.task op).All fun β q => s.policy = policy ∧ s.Keeps β q :=
    fun s op hbegun => (s.all_keep op).mono fun _ _ hq => ⟨hmay _ _ _ hbegun, hq⟩
  obtain ⟨s, β, q, q', h', ⟨hpolicy, hq⟩, hleaves, hwhole⟩ :=
    h.piece (may.fresh w) hallows (by simp [hpast]) (Q := fun s β q => s.policy = policy ∧ s.Keeps β q) hkeeps
  -- a call of the gateway that is still open came after the transition
  obtain ⟨later', hsplit⟩ : ∃ later', h' = later' ++
      .exchanged ⟨.transition id source target change, x, refused, before, after⟩ :: Log.past p earlier := by
    rcases hwhole with heq | ⟨c, heq⟩
    · exact ⟨_, heq ▸ hpast⟩
    · rw [hpast] at heq
      rcases hlater : Log.past p later with _ | ⟨a, rest⟩
      · simp [hlater] at heq
      · rw [hlater, List.cons_append, List.cons.injEq] at heq
        exact ⟨rest, heq.2.symm⟩
  have hfirst : q.Obeys .any s (fun σ _ => s.Told σ) (Stage.ofActs []) := hq
  obtain ⟨h'', hearlier, result, hruled⟩ :=
    hfirst.rules_of_leaves hleaves (fun _ _ => Manners.any_allows _ _) hsplit
  obtain rfl : earlier.past p = h'' := hearlier
  rw [List.append_nil, hpolicy] at hruled
  exact ⟨result, hruled⟩

end PaymentRetry
