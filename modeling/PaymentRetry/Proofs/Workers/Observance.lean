import PaymentRetry.Proofs.Course.Completing
import PaymentRetry.Proofs.Workers.Stage

/-!
# Operations keep to the conduct

All operations of a scheduler ask and end as `Scheduler.conduct` has it, whatever the answers to their requests
(`Scheduler.conduct_observed`).  A program is followed through its stages (`Program.Follows`), for each of the
scheduler's programs once; tasks are put together from programs.
-/

namespace PaymentRetry

open Simulation

/-! ### Programs by stages -/

namespace Program

variable {α β : Type} {known : Exchange → Prop}

/-- The weakest precondition of a program, from a stage: its requests are those that `Stage.Asks` allows, and it ends
as `ends` says. -/
def Follows (known : Exchange → Prop) (ends : Stage → α → Prop) : Program α → Stage → Prop
  | done a, σ => ends σ a
  | ask r next, σ => σ.Asks known r ∧ ∀ x, (next x).Follows known ends (σ.hear r x)

private theorem ofActs_exchanged (h : List Act) (r : Request) (x : r.Answer) (refused : Bool) (before after : World) :
    Stage.ofActs (.exchanged ⟨r, x, refused, before, after⟩ :: (r.opening ++ h)) = (Stage.ofActs h).hear r x := by
  cases r <;> rfl

/-- A program that `Follows` conforms to `Scheduler.conduct`. -/
theorem Follows.conforms {ends : Stage → α → Prop} {p : Program α} {h : List Act}
    (hp : p.Follows known ends (Stage.ofActs h)) :
    p.Conforms (Scheduler.conduct.asks known) (fun h a => ends (Stage.ofActs h) a) h := by
  induction p generalizing h with
  | done a => exact hp
  | ask r next ih =>
    refine ⟨hp.1, fun x refused before after => ih x ?_⟩
    rw [ofActs_exchanged]
    exact hp.2 x

theorem Follows.mono {ends ends' : Stage → α → Prop} {p : Program α} {σ : Stage} (hp : p.Follows known ends σ)
    (h : ∀ σ a, ends σ a → ends' σ a) : p.Follows known ends' σ := by
  induction p generalizing σ with
  | done a => exact h σ a hp
  | ask r next ih => exact ⟨hp.1, fun x => ih x (hp.2 x)⟩

@[simp]
theorem follows_done {ends : Stage → α → Prop} {a : α} {σ : Stage} : (done a).Follows known ends σ ↔ ends σ a :=
  Iff.rfl

@[simp]
theorem follows_bind {ends : Stage → β → Prop} {p : Program α} {f : α → Program β} {σ : Stage} :
    (p.bind f).Follows known ends σ ↔ p.Follows known (fun σ a => (f a).Follows known ends σ) σ := by
  induction p generalizing σ with
  | done a => rfl
  | ask r next ih =>
    simp only [bind, Follows]
    exact and_congr_right fun _ => forall_congr' fun x => ih x

@[simp]
theorem follows_log {ends : Stage → Unit → Prop} {r : Log.Record} {σ : Stage} :
    (log r).Follows known ends σ ↔ ends σ () :=
  ⟨fun h => h.2 (), fun h => ⟨trivial, fun _ => h⟩⟩

@[simp]
theorem follows_count {ends : Stage → Unit → Prop} {m : Metric} {σ : Stage} :
    (count m).Follows known ends σ ↔ ends σ () :=
  ⟨fun h => h.2 (), fun h => ⟨trivial, fun _ => h⟩⟩

@[simp]
theorem follows_now {ends : Stage → DateTime → Prop} {σ : Stage} :
    now.Follows known ends σ ↔ ∀ t, ends { σ with clock := some t } t :=
  ⟨fun h => h.2, fun h => ⟨trivial, h⟩⟩

@[simp]
theorem follows_get {ends : Stage → Except Failure Attempt → Prop} {id : AttemptId} {σ : Stage} :
    (get id).Follows known ends σ ↔ σ.Asks known (.get id) ∧ ∀ x, ends { σ with looked := some (id, x) } x :=
  Iff.rfl

@[simp]
theorem follows_transition {ends : Stage → Except Failure Attempt → Prop} {id : AttemptId}
    {source target : AttemptState} {change : Change} {σ : Stage} :
    (transition id source target change).Follows known ends σ ↔
      σ.Asks known (.transition id source target change) ∧
        ∀ x, ends { σ with moved := (id, target, change, x) :: σ.moved } x :=
  Iff.rfl

@[simp]
theorem follows_create {ends : Stage → Except Failure Attempt → Prop} {d : Draft} {σ : Stage} :
    (create d).Follows known ends σ ↔
      σ.Asks known (.create d) ∧ ∀ x, ends { σ with attempt := x.toOption <|> σ.attempt } x :=
  Iff.rfl

@[simp]
theorem follows_charge {ends : Stage → Except Failure GatewayResult → Prop} {c : Charge} {σ : Stage} :
    (charge c).Follows known ends σ ↔
      σ.Asks known (.charge c) ∧ ∀ x, ends { σ with asked := true, answer := some x } x :=
  Iff.rfl

@[simp]
theorem follows_breakerAllows {ends : Stage → Bool → Prop} {σ : Stage} :
    breakerAllows.Follows known ends σ ↔ ∀ b, ends σ b :=
  ⟨fun h => h.2, fun h => ⟨trivial, h⟩⟩

@[simp]
theorem follows_breakerFailed {ends : Stage → Unit → Prop} {σ : Stage} :
    breakerFailed.Follows known ends σ ↔ ends σ () :=
  ⟨fun h => h.2 (), fun h => ⟨trivial, fun _ => h⟩⟩

@[simp]
theorem follows_breakerSucceeded {ends : Stage → Unit → Prop} {σ : Stage} :
    breakerSucceeded.Follows known ends σ ↔ ends σ () :=
  ⟨fun h => h.2 (), fun h => ⟨trivial, fun _ => h⟩⟩

@[simp]
theorem follows_listDue {ends : Stage → Except Failure (List DueRetry) → Prop} {asOf : DateTime}
    {limit : Option Int} {σ : Stage} : (listDue asOf limit).Follows known ends σ ↔ ∀ x, ends σ x :=
  ⟨fun h => h.2, fun h => ⟨trivial, h⟩⟩

@[simp]
theorem follows_listStale {ends : Stage → Except Failure (List Attempt) → Prop} {olderThan : DateTime}
    {limit : Option Int} {σ : Stage} : (listStale olderThan limit).Follows known ends σ ↔ ∀ x, ends σ x :=
  ⟨fun h => h.2, fun h => ⟨trivial, h⟩⟩

@[simp]
theorem follows_publish {ends : Stage → Except Failure Unit → Prop} {c : Completion} {σ : Stage} :
    (publish c).Follows known ends σ ↔
      σ.Asks known (.publish c) ∧ ∀ x, ends { σ with published := some (c, x) } x :=
  Iff.rfl

end Program

/-! ### The scheduler's programs -/

namespace Scheduler

open Program

variable {known : Exchange → Prop}

/-- The stage after `complete`, and its result. -/
inductive Completes (s : Scheduler) (b : Attempt) (result : GatewayResult) (σ σ' : Stage) :
    Except Failure Decision → Prop
  | decided {d : Decision} {change : Change} (clock : Option DateTime) :
      σ' = { σ with clock := clock, moved := (b.id, d.state, change, .ok d.attempt) :: σ.moved } → d.state ≠ .pending →
      d.due = change.dueAt.join → (d.state.isTerminal = true → d.due = none) → Completes s b result σ σ' (.ok d)
  | unscheduled {type : FailureType} {r : RangeError} (clock : Option DateTime) :
      σ' = { σ with clock := clock } → result.outcome.failureType = some type →
      (s.policy.delay type (b.number - 1) = .error r ∨
        ∃ t delay, clock = some t ∧ s.policy.delay type (b.number - 1) = .ok (some delay) ∧
          t.add delay = .error r) →
      Completes s b result σ σ' (.error (.range r))
  | unmoved {target : AttemptState} {change : Change} {e : Failure} (clock : Option DateTime) :
      σ' = { σ with clock := clock, moved := (b.id, target, change, .error e) :: σ.moved } →
      Completes s b result σ σ' (.error e)

section

variable (s : Scheduler) {b : Attempt} {id : AttemptId} {result : GatewayResult} {σ : Stage}
  (hlooked : σ.looked = some (id, .ok b)) (hmoved : σ.moved = []) (hpublished : σ.published = none)
  (hresult : σ.Succeeded → result.outcome = .success)

include hlooked hmoved hpublished hresult

private theorem Enacts.follows {t : DateTime} {target : AttemptState} {change : Change}
    {q : Program (Except Failure Decision)} (h : Enacts b (.ok (target, change)) q) (clock : Option DateTime)
    (hruling : s.policy.ruling result b.number t = .ok (target, change)) :
    q.Follows known (s.Completes b result σ) { σ with clock := clock } := by
  have hne := RetryPolicy.ruling_ne_pending hruling
  have hsucceeded : σ.Succeeded → target = .success ∧ change = {} := by
    intro hσ
    cases RetryPolicy.rules_of_ruling hruling with
    | success => exact ⟨rfl, rfl⟩
    | aborted htype =>
      rw [hresult hσ] at htype
      cases htype
    | retried hwaits =>
      rw [RetryPolicy.Waits, hresult hσ] at hwaits
      cases hwaits.1
  cases h with
  | ruled _ _ note =>
    simp only [follows_bind, follows_transition]
    refine ⟨⟨hmoved, hpublished, rfl, hne, ⟨id, b, hlooked, rfl⟩, hsucceeded⟩, ?_⟩
    rintro (e | updated)
    · exact .unmoved clock rfl
    · simp only [follows_bind, follows_log, follows_done]
      exact .decided clock rfl hne rfl (RetryPolicy.due_eq_none_of_ruling hruling)

theorem complete_follows : (s.complete b result).Follows known (s.Completes b result σ) σ := by
  rcases s.complete_enacts b result with ⟨hwaits, y, hy, h⟩ | ⟨rest, hrest, h⟩
  · have hruling := hy default
    cases y with
    | error r =>
      obtain ⟨type, htype, hlate⟩ := RetryPolicy.exists_failure_of_ruling hruling
      rw [h.eq_done rfl]
      refine .unscheduled σ.clock rfl htype (.inl (hlate.resolve_right ?_))
      rintro ⟨delay, hwait, -⟩
      exact hwaits type delay hwait
    | ok y => exact h.follows s hlooked hmoved hpublished hresult σ.clock hruling
  · simp only [hrest, follows_bind, follows_now]
    intro t
    cases hruling : s.policy.ruling result b.number t with
    | error r =>
      obtain ⟨type, htype, hlate⟩ := RetryPolicy.exists_failure_of_ruling hruling
      rw [(h t).eq_done hruling]
      refine .unscheduled (some t) rfl htype (hlate.imp_right ?_)
      rintro ⟨delay, hwait, hadd⟩
      exact ⟨t, delay, rfl, hwait.2, hadd⟩
    | ok y => exact (hruling ▸ h t).follows s hlooked hmoved hpublished hresult (some t) hruling

end

theorem announce_follows (s : Scheduler) {id : AttemptId} {change : Change} {d : Decision} {σ : Stage}
    (hmoved : σ.moved = [(id, d.state, change, .ok d.attempt)]) (hpublished : σ.published = none)
    (hterminal : d.state.isTerminal = true) (hdue : d.due = none) :
    (s.announce d).Follows known (fun σ' x =>
      ∃ published, σ' = { σ with published := published } ∧ ∀ e, x = .error e →
        (∃ issues, e = .untellable issues ∧ Completion.ofDecision ⟨d.attempt, d.state, none⟩ = .error issues) ∨
          (∃ c, published = some (c, .error e)) ∧ e.isCancellation = true) σ := by
  obtain ⟨a, state, due⟩ := d
  simp only at hmoved hterminal hdue
  subst hdue
  unfold announce
  split
  · split
    · rename_i issues hissues
      refine ⟨none, ?_, ?_⟩
      · rw [← hpublished]
      · rintro e ⟨⟩
        exact .inl ⟨issues, rfl, hissues⟩
    · rename_i c hc
      simp only [bind_eq, follows_bind, follows_publish]
      refine ⟨⟨hpublished, id, state, change, a, hmoved, hterminal, hc⟩, ?_⟩
      rintro (e | u)
      · simp only
        split
        · rename_i he
          refine ⟨_, rfl, ?_⟩
          rintro e' ⟨⟩
          exact .inr ⟨⟨c, rfl⟩, he⟩
        · simp only [pure_eq, follows_bind, follows_log, follows_done]
          exact ⟨_, rfl, by simp⟩
      · exact ⟨_, rfl, by simp⟩
  · refine ⟨none, ?_, by simp⟩
    rw [← hpublished]

theorem recordOutcome_follows (s : Scheduler) (key : String) {id : AttemptId} {result : GatewayResult} {σ : Stage}
    (hσ : σ.Unrecorded) (hid : ∀ a, σ.attempt = some a → id = a.id)
    (hresult : σ.Succeeded → result.outcome = .success) :
    (s.recordOutcome key id result).Follows known (fun σ' x =>
      Recording.Returns ⟨s, key, id, result⟩ σ' x ∧ σ'.attempt = σ.attempt ∧ σ'.answer = σ.answer) σ := by
  obtain ⟨hlooked, hmoved, hpublished⟩ := hσ
  unfold recordOutcome
  simp only [bind_eq, follows_bind, follows_get]
  refine ⟨⟨⟨hlooked, hmoved, hpublished⟩, hid⟩, ?_⟩
  rintro (e | a)
  · exact ⟨.unfound rfl hmoved, rfl, rfl⟩
  simp only
  split
  · rename_i hkey
    exact ⟨.foreign rfl hkey hmoved, rfl, rfl⟩
  rename_i hkey
  simp only [ne_eq, Decidable.not_not] at hkey
  split
  · rename_i hsettled
    exact ⟨.completed rfl hsettled hmoved, rfl, rfl⟩
  rename_i hpending
  simp only [ne_eq, Decidable.not_not] at hpending
  simp only [pure_eq, follows_bind, follows_count]
  refine (s.complete_follows (σ := { σ with looked := some (id, .ok a) }) rfl hmoved hpublished hresult).mono ?_
  rintro σ' x hx
  cases hx with
  | @decided d change clock hσ' hsettled hdue hover =>
    have hmoved' : σ'.moved = [(a.id, d.state, change, .ok d.attempt)] := by simp only [hσ', hmoved]
    have hlooked' : σ'.looked = some (id, .ok a) := by rw [hσ']
    have hpublished' : σ'.published = none := by rw [hσ', hpublished]
    have hattempt : σ'.attempt = σ.attempt := by rw [hσ']
    have hanswer : σ'.answer = σ.answer := by rw [hσ']
    have hdecided : ∀ published, Recording.Returns ⟨s, key, id, result⟩ { σ' with published := published } (.ok d) :=
      fun published => .decided hlooked' hkey hpending hmoved' hsettled hdue
    simp only [follows_bind, follows_count]
    split
    · rename_i hterminal
      simp only [follows_bind]
      refine (s.announce_follows hmoved' hpublished' hterminal (hover hterminal)).mono ?_
      rintro σ'' x ⟨published, rfl, hx⟩
      rcases x with e | u
      · refine ⟨?_, hattempt, hanswer⟩
        rcases hx e rfl with ⟨issues, rfl, hissues⟩ | ⟨⟨c, hc⟩, he⟩
        · exact .untellable hmoved' hissues
        · exact .calledOff hmoved' hc he
      · exact ⟨hdecided published, hattempt, hanswer⟩
    · exact ⟨hdecided σ'.published, hattempt, hanswer⟩
  | unscheduled clock hσ' htype hrange =>
    subst hσ'
    exact ⟨.unscheduled rfl hmoved htype hrange, rfl, rfl⟩
  | @unmoved target change e clock hσ' =>
    have hmoved' : σ'.moved = [(a.id, target, change, .error e)] := by simp only [hσ', hmoved]
    have hattempt : σ'.attempt = σ.attempt := by rw [hσ']
    have hanswer : σ'.answer = σ.answer := by rw [hσ']
    simp only
    split
    · simp only [follows_bind, follows_count, follows_log]
      exact ⟨.unmoved hmoved', hattempt, hanswer⟩
    · exact ⟨.unmoved hmoved', hattempt, hanswer⟩

theorem charge_follows (s : Scheduler) {a : Attempt} {σ : Stage} (hσ : σ.Unrecorded) (hasked : σ.asked = false)
    (hanswer : σ.answer = none) (ha : σ.attempt = some a) :
    (s.charge a.charge).Follows known (fun σ' x =>
      σ'.Unrecorded ∧ σ'.attempt = some a ∧ ∀ y, σ'.answer = some y → y = x) σ := by
  have hcharge : (Program.charge a.charge).Follows known (fun σ' x =>
      σ' = { σ with asked := true, answer := some x }) σ := by
    rw [follows_charge]
    exact ⟨⟨hσ, hasked, a, ha, rfl⟩, fun x => rfl⟩
  have hcharged : ∀ x, Stage.Unrecorded { σ with asked := true, answer := some x } ∧ σ.attempt = some a ∧
      ∀ y, some x = some y → y = x := fun x => ⟨hσ, ha, fun y hy => (Option.some.inj hy).symm⟩
  unfold charge
  split
  · simp only [Gateway.guarded, bind_eq, follows_bind, follows_breakerAllows]
    intro allowed
    split
    · simp only [follows_bind]
      refine hcharge.mono ?_
      rintro σ' x rfl
      rcases Gateway.report_cases x with hreport | hreport | hreport
      · rw [hreport]
        exact hcharged x
      · rw [hreport, follows_breakerFailed]
        exact hcharged x
      · rw [hreport, follows_breakerSucceeded]
        exact hcharged x
    · simp only [follows_bind, follows_log]
      exact ⟨hσ, ha, by simp [hanswer]⟩
  · refine hcharge.mono ?_
    rintro σ' x rfl
    exact hcharged x

/-- After `recordOutcome` has returned, the program may end. -/
private theorem mayEnd_of_returns {s : Scheduler} {a : Attempt} {result : GatewayResult} {σ : Stage}
    {x : Except Failure Decision} (h : Recording.Returns ⟨s, a.key, a.id, result⟩ σ x)
    (ha : ∀ b, σ.attempt = some b → b = a) (hresult : σ.Succeeded → result.outcome = .success) : σ.MayEnd := by
  intro b hb hsucceeded
  rw [ha b hb]
  cases h with
  | decided _ _ _ hmoved => exact .inr (.inr ⟨_, _, _, _, hmoved⟩)
  | unfound hlooked => exact .inl ⟨_, _, hlooked⟩
  | foreign hlooked hkey => exact .inr (.inl ⟨_, _, hlooked, .inl hkey⟩)
  | completed hlooked hsettled => exact .inr (.inl ⟨_, _, hlooked, .inr hsettled⟩)
  | unscheduled _ _ htype =>
    have hsuccess : result.outcome = .success := hresult hsucceeded
    simp only [hsuccess, Outcome.failureType, reduceCtorEq] at htype
  | unmoved hmoved => exact .inr (.inr ⟨_, _, _, _, hmoved⟩)
  | untellable hmoved => exact .inr (.inr ⟨_, _, _, _, hmoved⟩)
  | calledOff hmoved => exact .inr (.inr ⟨_, _, _, _, hmoved⟩)

theorem execute_follows (s : Scheduler) {a : Attempt} {σ : Stage} (hσ : σ.Unrecorded) (hasked : σ.asked = false)
    (hanswer : σ.answer = none) (ha : σ.attempt = some a) :
    (s.execute a).Follows known (fun σ' _ => σ'.MayEnd) σ := by
  unfold execute
  simp only [bind_eq, follows_bind]
  refine (s.charge_follows hσ hasked hanswer ha).mono ?_
  rintro σ' x ⟨hσ', ha', hanswer'⟩
  have hrecord : ∀ result : GatewayResult, (σ'.Succeeded → result.outcome = .success) →
      (s.recordOutcome a.key a.id result).Follows known (fun σ'' _ => σ''.MayEnd) σ' := by
    intro result hresult
    refine (s.recordOutcome_follows a.key hσ' ?_ hresult).mono ?_
    · intro b hb
      rw [ha', Option.some.injEq] at hb
      rw [hb]
    · rintro σ'' x ⟨hx, hattempt, hanswer''⟩
      refine mayEnd_of_returns hx ?_ ?_
      · intro b hb
        rw [hattempt, ha', Option.some.injEq] at hb
        exact hb.symm
      · unfold Stage.Succeeded at hresult ⊢
        rw [hanswer'']
        exact hresult
  cases x with
  | ok result =>
    refine hrecord result ?_
    rintro ⟨result', hx, hsuccess⟩
    have := hanswer' _ hx
    simp only [Except.ok.injEq] at this
    rw [← this]
    exact hsuccess
  | error e =>
    have hfailed : ¬σ'.Succeeded := by
      rintro ⟨result, hx, -⟩
      cases hanswer' _ hx
    simp only
    split
    · exact fun _ _ h => absurd h hfailed
    · simp only [follows_bind, follows_log]
      exact hrecord _ fun h => absurd h hfailed

private theorem mayEnd_of_attempt {σ : Stage} (h : σ.attempt = none) : σ.MayEnd := by
  intro a ha
  rw [h] at ha
  cases ha

private theorem execute_follows_create (s : Scheduler) (a : Attempt) :
    (s.execute a).Follows known (fun σ' _ => σ'.MayEnd) { attempt := some a } :=
  s.execute_follows ⟨rfl, rfl, rfl⟩ rfl rfl rfl

theorem submit_follows (s : Scheduler) (p : Submission) :
    (s.submit p).Follows known (fun σ _ => σ.MayEnd) {} := by
  unfold submit
  simp only [bind_eq, follows_bind, follows_create]
  refine ⟨⟨rfl, ⟨rfl, rfl, rfl⟩, .inl rfl⟩, ?_⟩
  rintro (e | a)
  · exact mayEnd_of_attempt rfl
  · simp only [follows_bind, follows_log]
    refine (s.execute_follows_create a).mono ?_
    intro σ x hσ
    rcases x with e | decision
    · exact hσ
    · simp only
      split <;> exact hσ

theorem record_follows (s : Scheduler) (key : String) (id : AttemptId) (result : GatewayResult) :
    (s.recordOutcome key id result).Follows known (fun σ x =>
      Recording.Returns ⟨s, key, id, result⟩ σ x ∧ σ.attempt = none) {} := by
  refine (s.recordOutcome_follows key ⟨rfl, rfl, rfl⟩ ?_ ?_).mono ?_
  · intro a ha
    cases ha
  · rintro ⟨result', h, -⟩
    cases h
  · rintro σ x ⟨hx, hattempt, -⟩
    exact ⟨hx, hattempt⟩

theorem recover_follows (s : Scheduler) (a : Attempt) :
    (s.recover a).Follows known (fun σ _ => σ.MayEnd) {} := by
  unfold recover
  simp only [bind_eq, follows_bind, follows_log]
  refine (s.record_follows a.key a.id _).mono ?_
  rintro σ x ⟨-, hattempt⟩
  have hσ : σ.MayEnd := mayEnd_of_attempt hattempt
  split <;> simpa using hσ

theorem carryOut_follows (s : Scheduler) (d : DueRetry) (a : Attempt) :
    (s.carryOut d a).Follows known (fun σ _ => σ.MayEnd) { attempt := some a } := by
  unfold carryOut
  simp only [bind_eq, follows_bind, follows_log]
  refine (s.execute_follows_create a).mono ?_
  intro σ x hσ
  split <;> simpa using hσ

theorem fire_follows (s : Scheduler) {d : DueRetry} (hd : Listed known d) :
    (s.fire d).Follows known (fun σ _ => σ.MayEnd) {} := by
  unfold fire
  simp only [bind_eq, follows_bind, follows_create]
  refine ⟨⟨rfl, ⟨rfl, rfl, rfl⟩, .inr ⟨d, hd, rfl⟩⟩, ?_⟩
  rintro (e | a)
  · have hnone : Stage.MayEnd { attempt := none } := mayEnd_of_attempt rfl
    split
    · rename_i h
      cases h
    all_goals
      simp only [pure_eq, follows_bind, follows_count, follows_log]
      exact hnone
  · exact s.carryOut_follows d a

end Scheduler

/-! ### The scheduler's tasks -/

/-- A task of one program conforms if the program does. -/
theorem Task.Conforms.lift {α : Type} {C : Conduct} {ends : (Exchange → Prop) → α → Prop} {p : Program α}
    {known : Exchange → Prop} (result : List Act → α → Prop)
    (hp : p.Conforms (C.asks known) (fun h a => C.ends h ∧ result h a) [])
    (hends : ∀ h a known', result h a → (∀ e, known e → known' e) → (∀ e, .exchanged e ∈ h → known' e) →
      ends known' a) : (Task.lift p).Conforms C ends known :=
  ⟨fun _ => result, fun _ => hp, fun bs pasts known' hbs hknown hpasts =>
    hends (pasts 0) (bs 0) known' (hbs 0) hknown (hpasts 0)⟩

/-- A task of one program for each item conforms if each program does. -/
theorem Task.Conforms.each {ι α : Type} {C : Conduct} {ends : (Exchange → Prop) → List α → Prop} {items : List ι}
    {f : ι → Program α} {known : Exchange → Prop}
    (hf : ∀ i ∈ items, (f i).Conforms (C.asks known) (fun h _ => C.ends h) [])
    (hends : ∀ known' as, (∀ e, known e → known' e) → ends known' as) : (Task.each items f).Conforms C ends known :=
  ⟨fun _ _ _ => True,
    fun i => (hf _ (List.getElem_mem i.isLt)).mono (fun _ _ h => h) fun _ _ h => ⟨h, trivial⟩,
    fun bs _ known' _ hknown _ => hends known' (List.ofFn bs) hknown⟩

namespace Scheduler

open Program

variable {known : Exchange → Prop}

private theorem conforms_of_follows {α : Type} {p : Program α} (hp : p.Follows known (fun σ _ => σ.MayEnd) {}) :
    p.Conforms (conduct.asks known) (fun h _ => conduct.ends h) [] := by
  rw [← Stage.ofActs_nil] at hp
  have hconforms := hp.conforms
  exact hconforms

private theorem conforms_lift {α : Type} {ends : (Exchange → Prop) → α → Prop} {p : Program α}
    (hp : p.Follows known (fun σ _ => σ.MayEnd) {}) (hends : ∀ known' a, (∀ e, known e → known' e) → ends known' a) :
    (Task.lift p).Conforms conduct ends known :=
  .lift (fun _ _ => True)
    ((conforms_of_follows hp).mono (fun _ _ h => h) fun _ _ h => ⟨h, trivial⟩)
    fun _ a known' _ hknown _ => hends known' a hknown

private theorem mayEnd_nil : Stage.MayEnd {} := mayEnd_of_attempt rfl

theorem recoverStale_conforms (s : Scheduler) (asOf : DateTime) (known : Exchange → Prop) :
    (s.recoverStale asOf).Conforms conduct (fun _ _ => True) known := by
  unfold recoverStale
  split
  · trivial
  · simp only [Task.bind_eq, Task.pure_eq]
    refine .bind (conforms_lift (by simp [mayEnd_nil]) ?_)
    rintro known' (e | stale) -
    · trivial
    · refine .bind (.each (fun a _ => conforms_of_follows (s.recover_follows a)) ?_)
      intro known'' as _
      split <;> trivial

theorem fireDue_conforms (s : Scheduler) (asOf : DateTime) (known : Exchange → Prop) :
    (s.fireDue asOf).Conforms conduct (fun _ _ => True) known := by
  unfold fireDue
  simp only [Task.bind_eq, Task.pure_eq]
  -- the retries that are fired are those that were listed
  refine .bind (.lift (fun h x => ∃ refused before after,
    h = [.exchanged ⟨.listDue asOf s.batch, x, refused, before, after⟩]) ?_ ?_)
  · exact ⟨trivial, fun x refused before after => ⟨mayEnd_nil, refused, before, after, rfl⟩⟩
  · rintro h (e | due) known' ⟨refused, before, after, rfl⟩ - hpast
    · trivial
    · have hlisted : ∀ d ∈ due, Listed known' d := fun d hd =>
        ⟨asOf, s.batch, due, refused, before, after, hpast _ (by simp), hd⟩
      refine .bind (.each (fun d hd => conforms_of_follows (s.fire_follows (hlisted d hd))) ?_)
      intro known'' as _
      split <;> trivial

private theorem conforms_bind {α β : Type} {t : Task α} {f : α → Task β}
    (ht : t.Conforms conduct (fun _ _ => True) known)
    (hf : ∀ a known', (f a).Conforms conduct (fun _ _ => True) known') :
    (t.bind f).Conforms conduct (fun _ _ => True) known :=
  .bind (ht.mono fun known' a _ => hf a known')

theorem polling_conforms (s : Scheduler) (asOf : Option DateTime) (known : Exchange → Prop) :
    (s.polling asOf).Conforms conduct (fun _ _ => True) known := by
  have hat : ∀ t known, (s.pollAt t).Conforms conduct (fun _ _ => True) known := by
    intro t known
    unfold pollAt
    simp only [Task.bind_eq, Task.pure_eq]
    refine conforms_bind (s.recoverStale_conforms t known) ?_
    rintro (e | recovered) known'
    · trivial
    · refine conforms_bind (s.fireDue_conforms t known') ?_
      rintro (e | ⟨due, fired⟩) known''
      · trivial
      · refine conforms_lift ?_ fun _ _ _ => trivial
        unfold concludePoll
        simp only [bind_eq, follows_bind, follows_count]
        split <;> simp [mayEnd_nil]
  unfold polling
  cases asOf with
  | some t => exact hat t known
  | none =>
    simp only [Task.bind_eq]
    refine .bind (conforms_lift ?_ fun known' t _ => hat t known')
    simp only [follows_now]
    exact fun t => mayEnd_of_attempt rfl

/-- All operations and calls conform to `Scheduler.conduct`, whatever they are answered. -/
theorem conduct_observed : conduct.Observed := by
  refine ⟨?_, ?_⟩
  · rintro s (p | ⟨key, id, result⟩ | asOf)
    · exact conforms_bind (conforms_lift (s.submit_follows p) fun _ _ _ => trivial) fun _ _ => trivial
    · refine conforms_bind (conforms_lift ?_ fun _ _ _ => trivial) fun _ _ => trivial
      exact (s.record_follows key id result).mono fun _ _ h => mayEnd_of_attempt h.2
    · exact conforms_bind (s.polling_conforms asOf _) fun _ _ => trivial
  · intro call
    have hfollows : Program.Follows (fun _ => False) _ _ _ :=
      call.scheduler.record_follows call.key call.id call.result
    rw [← Stage.ofActs_nil] at hfollows
    exact hfollows.conforms.mono (fun _ _ _ => trivial) fun _ _ h => h

end Scheduler

end PaymentRetry
