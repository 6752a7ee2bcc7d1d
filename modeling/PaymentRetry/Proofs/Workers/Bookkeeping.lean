import PaymentRetry.Proofs.Workers.Posting

/-!
# What programs post

This module follows the scheduler's programs once more, and now says what they have posted by their end, if nobody
calls the work off.  A call of `recordOutcome` posts the outcome first, and then one of three things: that the row was
moved and the transition counted, that the race was lost, or that the transition has failed; only a date out of range
leaves the outcome by itself (`Scheduler.Writes`).
-/

namespace PaymentRetry

open Simulation

namespace Program

variable {α β : Type} {m : Manners}

/-- The weakest precondition of a program with the postcondition `ends` on the stage, the postings so far and the
result, over all answers that `m` allows. -/
def Posts (m : Manners) (ends : Stage → List Posting → α → Prop) : Program α → Stage → List Posting → Prop
  | done a, σ, l => ends σ l a
  | ask r next, σ, l => ∀ x, m.Allows r x → (next x).Posts m ends (σ.hear r x) (r.postings x ++ l)

theorem Posts.mono {ends ends' : Stage → List Posting → α → Prop} {p : Program α} {σ : Stage} {l : List Posting}
    (hp : p.Posts m ends σ l) (h : ∀ σ l a, ends σ l a → ends' σ l a) : p.Posts m ends' σ l := by
  induction p generalizing σ l with
  | done a => exact h σ l a hp
  | ask r next ih => exact fun x hx => ih x (hp x hx)

variable {σ : Stage} {l : List Posting}

@[simp]
theorem posts_done {ends : Stage → List Posting → α → Prop} {a : α} : (done a).Posts m ends σ l ↔ ends σ l a := Iff.rfl

@[simp]
theorem posts_bind {ends : Stage → List Posting → β → Prop} {p : Program α} {f : α → Program β} :
    (p.bind f).Posts m ends σ l ↔ p.Posts m (fun σ l a => (f a).Posts m ends σ l) σ l := by
  induction p generalizing σ l with
  | done a => rfl
  | ask r next ih => exact forall₂_congr fun x _ => ih x

@[simp]
theorem posts_log {ends : Stage → List Posting → Unit → Prop} {r : Log.Record} :
    (log r).Posts m ends σ l ↔ ends σ l () := ⟨fun h => h () trivial, fun h _ _ => h⟩

@[simp]
theorem posts_count {ends : Stage → List Posting → Unit → Prop} {metric : Metric} :
    (count metric).Posts m ends σ l ↔ ends σ (.counted metric :: l) () := ⟨fun h => h () trivial, fun h _ _ => h⟩

@[simp]
theorem posts_breakerAllows {ends : Stage → List Posting → Bool → Prop} :
    breakerAllows.Posts m ends σ l ↔ ∀ b, ends σ l b := ⟨fun h b => h b trivial, fun h b _ => h b⟩

@[simp]
theorem posts_breakerFailed {ends : Stage → List Posting → Unit → Prop} :
    breakerFailed.Posts m ends σ l ↔ ends σ l () := ⟨fun h => h () trivial, fun h _ _ => h⟩

@[simp]
theorem posts_breakerSucceeded {ends : Stage → List Posting → Unit → Prop} :
    breakerSucceeded.Posts m ends σ l ↔ ends σ l () := ⟨fun h => h () trivial, fun h _ _ => h⟩

@[simp]
theorem posts_now {ends : Stage → List Posting → DateTime → Prop} :
    now.Posts m ends σ l ↔ ∀ t, ends { σ with clock := some t } l t := ⟨fun h t => h t trivial, fun h t _ => h t⟩

@[simp]
theorem posts_get {ends : Stage → List Posting → Except Failure Attempt → Prop} {id : AttemptId} :
    (get id).Posts m ends σ l ↔
      ∀ x, (∀ e, x = .error e → m.raises e) → ends { σ with looked := some (id, x) } l x := Iff.rfl

@[simp]
theorem posts_create {ends : Stage → List Posting → Except Failure Attempt → Prop} {d : Draft} :
    (create d).Posts m ends σ l ↔ ∀ x, (∀ e, x = .error e → m.raises e) →
      ends { σ with attempt := x.toOption <|> σ.attempt } (Request.postings (.create d) x ++ l) x := Iff.rfl

@[simp]
theorem posts_transition {ends : Stage → List Posting → Except Failure Attempt → Prop} {id : AttemptId}
    {source target : AttemptState} {change : Change} :
    (transition id source target change).Posts m ends σ l ↔ ∀ x, (∀ e, x = .error e → m.raises e) →
      ends { σ with moved := (id, target, change, x) :: σ.moved }
        (Request.postings (.transition id source target change) x ++ l) x := Iff.rfl

@[simp]
theorem posts_charge {ends : Stage → List Posting → Except Failure GatewayResult → Prop} {c : Charge} :
    (charge c).Posts m ends σ l ↔ ∀ x, m.answers c x → ends { σ with asked := true, answer := some x } l x := Iff.rfl

@[simp]
theorem posts_publish {ends : Stage → List Posting → Except Failure Unit → Prop} {c : Completion} :
    (publish c).Posts m ends σ l ↔
      ∀ x, (∀ e, x = .error e → m.raises e) → ends { σ with published := some (c, x) } l x := Iff.rfl

/-- `Posts` is sound for programs that have been left after the acts `h`. -/
theorem Posts.of_leaves {ends : Stage → List Posting → α → Prop} {p q : Program α} {h : List Act}
    (hp : p.Posts m ends {} []) (hq : p.Leaves h q) (hm : ∀ e, .exchanged e ∈ h → m.Allows e.request e.answer) :
    q.Posts m ends (Stage.ofActs h) (Act.allPostings h) := by
  induction hq with
  | start => exact hp
  | @answered h r next x refused before after _ ih =>
    have hrest := ih (fun e he => hm e (by simp [he])) x (hm ⟨r, x, refused, before, after⟩ (by simp))
    cases r <;> exact hrest

end Program

namespace Scheduler

open Program

/-- The postings of completing the attempt `b` with `result`, after the postings `l`, and the result. -/
inductive Disposes (s : Scheduler) (b : Attempt) (result : GatewayResult) (σ : Stage) (l : List Posting) :
    Stage → List Posting → Except Failure Decision → Prop
  | overflow {σ' : Stage} {r : RangeError} : σ'.looked = σ.looked →
      s.policy.Gives result b.number σ'.clock (.error r) → Disposes s b result σ l σ' l (.error (.range r))
  | moved {σ' : Stage} {d : Decision} : Disposes s b result σ l σ' (.moved d.state :: l) (.ok d)
  | lost {σ' : Stage} {id : AttemptId} {expected : AttemptState} :
      Disposes s b result σ l σ' l (.error (.staleState id expected))
  | failed {σ' : Stage} {e : Failure} : (∀ id expected, e ≠ .staleState id expected) → e.isCancellation = false →
      Disposes s b result σ l σ' (.failed :: l) (.error e)

/-- The postings of a call of `recordOutcome`, after the postings `l`. -/
inductive Writes (s : Scheduler) (l : List Posting) : Stage → List Posting → Prop
  | nothing {σ : Stage} : Writes s l σ l
  | overflow {σ : Stage} {id : AttemptId} {b : Attempt} {result : GatewayResult} {r : RangeError} :
      σ.looked = some (id, .ok b) → s.policy.Gives result b.number σ.clock (.error r) →
      Writes s l σ (.counted (.outcome result.outcome) :: l)
  | failed {σ : Stage} {o : Outcome} : Writes s l σ (.failed :: .counted (.outcome o) :: l)
  | lost {σ : Stage} {o : Outcome} : Writes s l σ (.counted .staleTransition :: .counted (.outcome o) :: l)
  | moved {σ : Stage} {o : Outcome} {target : AttemptState} :
      Writes s l σ (.counted (.transition target) :: .moved target :: .counted (.outcome o) :: l)

variable {m : Manners} (s : Scheduler) {σ : Stage} {l : List Posting}

/-- A transition that fails was lost to another worker or raised an error. -/
private theorem Disposes.of_refused (hm : m.CarryOn) {b : Attempt} {result : GatewayResult} {σ' : Stage}
    {id : AttemptId} {source target : AttemptState} {change : Change} {e : Failure} (he : m.raises e) :
    s.Disposes b result σ l σ' (Request.postings (.transition id source target change) (.error e) ++ l) (.error e) := by
  have hcarries := hm.raises e he
  cases e
  case staleState => exact .lost
  all_goals exact .failed (by simp) hcarries

private theorem Enacts.posts (hm : m.CarryOn) {b : Attempt} {result : GatewayResult} {σ σ' : Stage}
    {y : Except RangeError (AttemptState × Change)} {q : Program (Except Failure Decision)} (h : Enacts b y q)
    (hgives : s.policy.Gives result b.number σ'.clock y) (hlooked : σ'.looked = σ.looked) :
    q.Posts m (s.Disposes b result σ l) σ' l := by
  cases h with
  | unruled r => exact .overflow hlooked hgives
  | ruled target change note =>
    simp only [posts_bind, posts_transition]
    rintro (e | a) hx
    · exact .of_refused s hm (hx e rfl)
    · simp only [posts_bind, posts_log, posts_done]
      exact .moved (d := ⟨a, target, change.dueAt.join⟩)

private theorem complete_posts (hm : m.CarryOn) (b : Attempt) (result : GatewayResult) (σ : Stage) (l : List Posting) :
    (s.complete b result).Posts m (s.Disposes b result σ l) σ l := by
  rcases s.complete_enacts b result with ⟨-, y, hy, h⟩ | ⟨rest, hrest, h⟩
  · exact h.posts s hm (.inr hy) rfl
  · simp only [hrest, posts_bind, posts_now]
    exact fun t => (h t).posts s hm (.inl ⟨t, rfl, rfl⟩) rfl

private theorem announce_posts (hm : m.CarryOn) (d : Decision) (σ : Stage) (l : List Posting) :
    (s.announce d).Posts m (fun _ l' x => l' = l ∧ ¬CalledOff x) σ l := by
  unfold announce
  split
  · split
    · exact ⟨rfl, Bool.noConfusion⟩
    · simp only [bind_eq, posts_bind, posts_publish]
      rintro (e | u) hx
      · simp only [hm.raises e (hx e rfl), Bool.false_eq_true, if_false, posts_bind, posts_log]
        exact ⟨rfl, id⟩
      · exact ⟨rfl, id⟩
  · exact ⟨rfl, id⟩

theorem recordOutcome_posts (hm : m.CarryOn) (key : String) (id : AttemptId) (result : GatewayResult) (σ : Stage)
    (l : List Posting) :
    (s.recordOutcome key id result).Posts m (fun σ' l' x => s.Writes l σ' l' ∧ ¬CalledOff x) σ l := by
  unfold recordOutcome
  simp only [bind_eq, posts_bind, posts_get]
  rintro (e | b) hx
  · exact ⟨.nothing, by simp [CalledOff, hm.raises e (hx e rfl)]⟩
  simp only
  split
  · exact ⟨.nothing, Bool.noConfusion⟩
  split
  · exact ⟨.nothing, Bool.noConfusion⟩
  simp only [pure_eq, posts_bind, posts_count]
  refine (s.complete_posts hm b result _ _).mono ?_
  rintro σ' l' x hdisposes
  cases hdisposes with
  | overflow hlooked hgives => exact ⟨.overflow hlooked hgives, Bool.noConfusion⟩
  | moved =>
    simp only [posts_bind, posts_count]
    split
    · simp only [posts_bind]
      refine (s.announce_posts hm _ _ _).mono ?_
      rintro σ'' l'' (e | u) ⟨rfl, hx⟩
      · exact ⟨.moved, hx⟩
      · exact ⟨.moved, fun h => h⟩
    · exact ⟨.moved, fun h => h⟩
  | lost =>
    simp only [posts_bind, posts_count, posts_log]
    exact ⟨.lost, Bool.noConfusion⟩
  | failed hother he =>
    simp only
    exact ⟨.failed, by simp [CalledOff, he]⟩

private theorem charge_posts (hm : m.CarryOn) (c : Charge) (σ : Stage) (l : List Posting) :
    (s.charge c).Posts m (fun _ l' x => l' = l ∧ ¬CalledOff x) σ l := by
  have hanswer : ∀ x, m.answers c x → ¬CalledOff x := by
    rintro (e | result) hx
    · simp [CalledOff, hm.answers c e hx]
    · exact id
  have hreport : ∀ (x : Except Failure GatewayResult) (σ : Stage),
      (Gateway.report x).Posts m (fun _ l' _ => l' = l) σ l := by
    intro x σ
    rcases Gateway.report_cases x with h | h | h <;> simp [h]
  unfold charge
  split
  · simp only [Gateway.guarded, bind_eq, posts_bind, posts_breakerAllows]
    intro allowed
    split
    · simp only [posts_bind, posts_charge]
      exact fun x hx => (hreport x _).mono fun _ _ _ hl => ⟨hl, hanswer x hx⟩
    · simp only [posts_bind, posts_log]
      exact ⟨rfl, Bool.noConfusion⟩
  · exact fun x hx => ⟨rfl, hanswer x hx⟩

theorem execute_posts (hm : m.CarryOn) (a : Attempt) (σ : Stage) (l : List Posting) :
    (s.execute a).Posts m (fun σ' l' x => s.Writes l σ' l' ∧ ¬CalledOff x) σ l := by
  unfold execute
  simp only [bind_eq, posts_bind]
  refine (s.charge_posts hm a.charge σ l).mono ?_
  rintro σ' l' (e | result) ⟨rfl, hx⟩
  · have he : e.isCancellation = false := by simpa [CalledOff] using hx
    simp only [he, Bool.false_eq_true, if_false, posts_bind, posts_log]
    exact s.recordOutcome_posts hm a.key a.id _ σ' l'
  · exact s.recordOutcome_posts hm a.key a.id result σ' l'

theorem submit_posts (hm : m.CarryOn) (p : Submission) :
    (s.submit p).Posts m (fun σ l _ => l = [] ∨ s.Writes [.stored (some 1)] σ l) {} [] := by
  unfold submit
  simp only [bind_eq, posts_bind, posts_create]
  rintro (e | a) -
  · exact .inl rfl
  · simp only [posts_bind, posts_log]
    refine (s.execute_posts hm a _ _).mono ?_
    rintro σ l (e | decision) ⟨hwrites, -⟩
    · exact .inr hwrites
    · simp only
      split <;> exact .inr hwrites

/-- The last posting of `recover` counts it. -/
theorem recover_posts (hm : m.CarryOn) (a : Attempt) :
    (s.recover a).Posts m (fun σ l x => x = .ok () ∧
      ∃ status l', l = .counted (.recovered status) :: l' ∧ s.Writes [] σ l') {} [] := by
  unfold recover
  simp only [bind_eq, posts_bind, posts_log]
  refine (s.recordOutcome_posts hm a.key a.id _ _ _).mono ?_
  rintro σ l x ⟨hwrites, hx⟩
  split
  case h_2 => exact absurd rfl hx
  all_goals
    simp only [posts_bind, posts_count, posts_log, pure_eq, posts_done, true_and]
    exact ⟨_, _, rfl, hwrites⟩

/-- The last posting of `carryOut` counts the retry. -/
private theorem carryOut_posts (hm : m.CarryOn) (d : DueRetry) (a : Attempt) (σ : Stage) (l : List Posting) :
    (s.carryOut d a).Posts m (fun σ' l'' x => x = .ok true ∧
      ∃ status l', l'' = .counted (.fired status) :: l' ∧ s.Writes l σ' l') σ l := by
  unfold carryOut
  simp only [bind_eq, posts_bind, posts_log]
  refine (s.execute_posts hm a σ l).mono ?_
  rintro σ' l' x ⟨hwrites, hx⟩
  split
  case h_2 => exact absurd rfl hx
  all_goals
    simp only [posts_bind, posts_count, posts_log, pure_eq, posts_done, true_and]
    exact ⟨_, _, rfl, hwrites⟩

/-- `fire` counts the retry, whether it could be created or not. -/
theorem fire_posts (hm : m.CarryOn) (d : DueRetry) :
    (s.fire d).Posts m (fun σ l x => ∃ status l', l = .counted (.fired status) :: l' ∧
      (x = .ok false ∧ l' = [] ∨ x = .ok true ∧ s.Writes [.stored (some (d.attempt.number + 1))] σ l')) {} [] := by
  unfold fire
  simp only [bind_eq, posts_bind, posts_create]
  intro x hx
  split
  · refine (s.carryOut_posts hm d _ _ _).mono ?_
    rintro σ l y ⟨rfl, status, l', rfl, hwrites⟩
    exact ⟨status, l', rfl, .inr ⟨rfl, hwrites⟩⟩
  · cases hm.raises _ (hx _ rfl)
  all_goals
    simp only [posts_bind, posts_count, posts_log, pure_eq, posts_done, true_and]
    exact ⟨_, [], rfl, .inl rfl⟩

theorem concludePoll_posts (asOf : DateTime) (recovered due fired : Nat) :
    (concludePoll asOf recovered due fired).Posts m (fun _ l x => x = .ok fired ∧ l = [.counted .poll]) {} [] := by
  unfold concludePoll
  simp only [bind_eq, posts_bind, posts_count]
  split
  · simp only [posts_bind, posts_log]
    exact ⟨rfl, rfl⟩
  · exact ⟨rfl, rfl⟩

end Scheduler

end PaymentRetry
