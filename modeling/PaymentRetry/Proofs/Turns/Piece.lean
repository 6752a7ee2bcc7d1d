import PaymentRetry.Proofs.Turns.Service

/-!
# What a poll does for one payment

A poll works on each payment by a program of its own.  Here these programs are followed on the attempts of their
payment: a pending attempt that is completed with a result (`Scheduler.recordOutcome_ensures`), one whose lease has
expired (`Scheduler.recover_ensures`), and a retry that is made and carried out (`Scheduler.fire_ensures`).  Whatever
fails, none of the latter two raises anything.
-/

namespace PaymentRetry

open Simulation

/-! ### What becomes of a pending attempt -/

namespace Service

/-- What recording `result` makes of the pending attempt `a`: it is completed by the ruling of `p`, or it stays
pending, because the ruling fails, the store does not take the reason, or a store call fails. -/
inductive Settles (S : Service) (p : RetryPolicy) (clock : DateTime → Prop) (result : GatewayResult) (a : Attempt) :
    Attempt → Prop
  | completed {t t' : DateTime} {target : AttemptState} {change : Change} : clock t → clock t' →
      p.ruling result a.number t = .ok (target, change) → Failure.ofTexts? change.message.join.toList = none →
      Settles S p clock result a (change.apply { a with state := target, updated := t' })
  | leftPending {t : DateTime} : clock t → p.LeavesPending result a.number t → Settles S p clock result a a
  | disturbed : S.disturbed a.key → Settles S p clock result a a

variable {S : Service} {p : RetryPolicy} {clock : DateTime → Prop} {result : GatewayResult} {a b : Attempt}

theorem Settles.becomes (h : S.Settles p clock result a b) (hpending : a.state = .pending) : a.Becomes b := by
  cases h with
  | completed _ _ hruling _ =>
    exact .inr (Change.completedAs_apply _ hpending (RetryPolicy.ruling_ne_pending hruling) _)
  | leftPending => exact .refl a
  | disturbed => exact .refl a

/-- With the clock at `t`, an undisturbed attempt is settled by `RetryPolicy.settle`. -/
theorem Settles.eq_settle {t : DateTime} (h : S.Settles p (· = t) result a b) :
    b = p.settle result t a ∨ S.disturbed a.key ∧ b = a := by
  cases h with
  | completed ht ht' hruling hmessage =>
    subst ht ht'
    exact .inl (RetryPolicy.settle_of_ruling hruling hmessage).symm
  | leftPending ht hleaves =>
    subst ht
    exact .inl (RetryPolicy.settle_of_leavesPending hleaves).symm
  | disturbed hdisturbed => exact .inr ⟨hdisturbed, rfl⟩

/-- How recording `result` for `a`, the last attempt of its payment, ends: `x` is not a cancellation, and `rows` is
`prior` followed by what `a` settles to. -/
def Records (S : Service) (p : RetryPolicy) (clock : DateTime → Prop) (result : GatewayResult) (prior : List Attempt)
    (a : Attempt) {α : Type} (x : Except Failure α) (rows : List Attempt) : Prop :=
  (∀ e, x = .error e → e.isCancellation = false) ∧ ∃ b, rows = prior ++ [b] ∧ S.Settles p clock result a b

end Service

namespace Scheduler

/-- What `s` may hear of the charge `c`: an answer of the gateway, or that the circuit breaker is open. -/
def Hears (s : Scheduler) (S : Service) (c : Charge) (x : Except Failure GatewayResult) : Prop :=
  S.answers c x ∨ s.guarded = true ∧ x = .error (.gatewayUnavailable Gateway.rejectionReason)

/-- What comes of the retry of `a`: whether it is made, and the list of the attempts it adds (none or one). -/
inductive Retries (s : Scheduler) (S : Service) (clock : DateTime → Prop) (a : Attempt) : Bool → List Attempt → Prop
  | unmade : Store.fits (a.number + 1) = false ∨ S.disturbed a.key ∨ S.barred a.key → Retries s S clock a false []
  | made {t : DateTime} {id : AttemptId} {y : Except Failure GatewayResult} {b : Attempt} :
      Store.fits (a.number + 1) = true → ¬S.barred a.key → clock t → s.Hears S a.charge y →
      S.Settles s.policy clock (.ofAnswer y) (a.retryAt t id) b → Retries s S clock a true [b]

theorem Retries.length_eq {s : Scheduler} {S : Service} {clock : DateTime → Prop} {a : Attempt} {made : Bool}
    {added : List Attempt} (h : s.Retries S clock a made added) : added.length = if made then 1 else 0 := by
  cases h <;> rfl

open Program

variable {S : Service} {s : Scheduler} {clock : DateTime → Prop} {result : GatewayResult} {prior : List Attempt}
  {a : Attempt}

private theorem announce_ensures {d : Decision} {key : String} {rows : List Attempt} :
    (s.announce d).Ensures S clock key (fun x rows' => (∀ e, x = .error e → e.isCancellation = false) ∧ rows' = rows)
      rows := by
  unfold announce
  split
  · split
    · exact ⟨by simp [Failure.isCancellation], rfl⟩
    · simp only [bind_eq, ensures_bind, ensures_publish]
      intro x hx
      cases x with
      | ok u => exact ⟨by simp, rfl⟩
      | error e =>
        simp only [hx e rfl, Bool.false_eq_true, if_false]
        exact ⟨by simp, rfl⟩
  · exact ⟨by simp, rfl⟩

section

variable (hpending : a.state = .pending)

include hpending

private theorem transition_ensures {t : DateTime} (ht : clock t) {target : AttemptState} {change : Change}
    (hruling : s.policy.ruling result a.number t = .ok (target, change))
    {next : Except Failure Attempt → Program (Except Failure Decision)}
    (herror : ∀ e, next (.error e) = done (.error e))
    (hok : ∀ b, ∃ r d, next (.ok b) = (log r).bind fun _ => done (.ok d)) :
    ((transition a.id .pending target change).bind next).Ensures S clock a.key
      (S.Records s.policy clock result prior a) (prior ++ [a]) := by
  have hnext : ∀ x b, (∀ e, x = .error e → e.isCancellation = false) → S.Settles s.policy clock result a b →
      (next x).Ensures S clock a.key (S.Records s.policy clock result prior a) (prior ++ [b]) := by
    intro x b hx hb
    cases x with
    | error e =>
      rw [herror]
      exact ⟨by simpa using hx, b, rfl, hb⟩
    | ok c =>
      obtain ⟨r, d, heq⟩ := hok c
      rw [heq]
      exact ⟨by rintro e ⟨⟩, b, rfl, hb⟩
  rw [ensures_bind]
  refine ⟨prior, a, rfl, rfl, hpending, rfl, RetryPolicy.ruling_ne_pending hruling, fun f hf => ?_,
    fun hmessage t' ht' => ⟨?_, fun _ f hf => ?_⟩, fun hdisturbed f hf => ?_⟩
  · exact hnext _ a (by simpa using Failure.ofTexts?_isCancellation hf)
      (.leftPending ht (.inr ⟨target, change, f, hruling, hf⟩))
  · exact hnext _ _ (by simp) (.completed ht ht' hruling hmessage)
  · exact hnext _ _ (by simpa using hf) (.completed ht ht' hruling hmessage)
  · exact hnext _ a (by simpa using hf) (.disturbed hdisturbed)

private theorem Enacts.ensures {t : DateTime} (ht : clock t) {q : Program (Except Failure Decision)}
    (h : Enacts a (s.policy.ruling result a.number t) q) :
    q.Ensures S clock a.key (S.Records s.policy clock result prior a) (prior ++ [a]) := by
  cases hruling : s.policy.ruling result a.number t with
  | error e =>
    rw [h.eq_done hruling]
    exact ⟨by simp [Failure.isCancellation], a, rfl, .leftPending ht (.inl ⟨e, hruling⟩)⟩
  | ok y =>
    rw [hruling] at h
    cases h with
    | ruled => exact transition_ensures hpending ht hruling (fun _ => rfl) fun _ => ⟨_, _, rfl⟩

private theorem complete_ensures (hclock : ∃ t, clock t) :
    (s.complete a result).Ensures S clock a.key (S.Records s.policy clock result prior a) (prior ++ [a]) := by
  rcases s.complete_enacts a result with ⟨-, y, hy, h⟩ | ⟨rest, hrest, h⟩
  · obtain ⟨t, ht⟩ := hclock
    rw [← hy t] at h
    exact h.ensures hpending ht
  · simp only [hrest, ensures_bind, ensures_now]
    exact fun t ht => (h t).ensures hpending ht

/-- `recordOutcome` for the last attempt `a` of a payment ends as `Records` says. -/
theorem recordOutcome_ensures (hclock : ∃ t, clock t) : (s.recordOutcome a.key a.id result).Ensures S clock a.key
    (S.Records s.policy clock result prior a) (prior ++ [a]) := by
  unfold recordOutcome
  simp only [bind_eq, ensures_bind]
  refine ensures_get (by simp) ?_ fun hdisturbed f hf => ⟨by simpa using hf, a, rfl, .disturbed hdisturbed⟩
  simp only [ne_eq, not_true_eq_false, if_false, hpending, ensures_bind, ensures_count]
  refine (complete_ensures hpending hclock).mono fun x rows hx => ?_
  cases x with
  | error e =>
    obtain ⟨he, b, rfl, hb⟩ := hx
    dsimp only
    split <;> exact ⟨by simpa using he, b, rfl, hb⟩
  | ok d =>
    obtain ⟨-, b, rfl, hb⟩ := hx
    simp only [ensures_bind, ensures_count]
    split
    · rw [ensures_bind]
      refine announce_ensures.mono fun y rows hy => ?_
      obtain ⟨hy, rfl⟩ := hy
      cases y with
      | error e => exact ⟨by simpa using hy, b, rfl, hb⟩
      | ok u => exact ⟨by simp, b, rfl, hb⟩
    · exact ⟨by simp, b, rfl, hb⟩

/-- `recover` settles the last attempt `a` as a technical failure and never raises. -/
theorem recover_ensures (hclock : ∃ t, clock t) :
    (s.recover a).Ensures S clock a.key
      (fun x rows => x = .ok () ∧
        ∃ b, rows = prior ++ [b] ∧ S.Settles s.policy clock ⟨.pluginException, some leaseReason⟩ a b)
      (prior ++ [a]) := by
  unfold recover
  simp only [bind_eq, ensures_bind, ensures_log]
  refine (recordOutcome_ensures hpending hclock).mono fun x rows hx => ?_
  obtain ⟨hcarriesOn, hsettled⟩ := hx
  cases x with
  | ok d => exact ⟨rfl, hsettled⟩
  | error e =>
    cases e
    case cancelled arguments => exact absurd (hcarriesOn _ rfl) (by simp [Failure.isCancellation])
    all_goals exact ⟨rfl, hsettled⟩

end

/-! ### Retries -/

section

variable (hmoments : ∀ t, S.moments t → clock t)

include hmoments

private theorem charge_ensures {c : Charge} {key : String} {rows : List Attempt} :
    (s.charge c).Ensures S clock key (fun x rows' => s.Hears S c x ∧ rows' = rows) rows := by
  unfold charge
  split
  · rename_i hguarded
    unfold Gateway.guarded
    simp only [bind_eq, ensures_bind, ensures_breakerAllows]
    intro b
    cases b with
    | true =>
      simp only [if_true, ensures_bind, ensures_charge]
      refine ⟨hmoments, fun x hx => ?_⟩
      rcases Gateway.report_cases x with hreport | hreport | hreport
      all_goals
        rw [hreport]
        exact ⟨.inl hx, rfl⟩
    | false => exact ⟨.inr ⟨hguarded, rfl⟩, rfl⟩
  · exact ⟨hmoments, fun x hx => ⟨.inl hx, rfl⟩⟩

variable (hS : S.Steady) (hclock : ∃ t, clock t)

include hS hclock

/-- `execute` for the stored attempt `b` settles it by what is heard of its charge. -/
private theorem execute_ensures {b : Attempt} (hpending : b.state = .pending) :
    (s.execute b).Ensures S clock b.key
      (fun x rows => (∀ e, x = .error e → e.isCancellation = false) ∧ ∃ y c, s.Hears S b.charge y ∧
        rows = prior ++ [c] ∧ S.Settles s.policy clock (.ofAnswer y) b.asStored c)
      (prior ++ [b.asStored]) := by
  have hrecords : ∀ y, s.Hears S b.charge y →
      (s.recordOutcome b.key b.id (.ofAnswer y)).Ensures S clock b.key
        (fun x rows => (∀ e, x = .error e → e.isCancellation = false) ∧ ∃ y c, s.Hears S b.charge y ∧
          rows = prior ++ [c] ∧ S.Settles s.policy clock (.ofAnswer y) b.asStored c)
        (prior ++ [b.asStored]) := by
    intro y hy
    refine (recordOutcome_ensures (a := b.asStored) hpending hclock).mono fun x rows hx => ?_
    obtain ⟨hcarriesOn, c, hrows, hsettled⟩ := hx
    exact ⟨hcarriesOn, y, c, hy, hrows, hsettled⟩
  unfold execute
  simp only [bind_eq, ensures_bind]
  refine (charge_ensures hmoments).mono fun y rows hy => ?_
  obtain ⟨hy, rfl⟩ := hy
  cases y with
  | ok result => exact hrecords _ hy
  | error e =>
    have hcarriesOn : e.isCancellation = false := by
      rcases hy with hy | ⟨-, heq⟩
      · exact hS.carriesOn _ _ hy
      · rw [Except.error.inj heq]
        rfl
    simp only [hcarriesOn, Bool.false_eq_true, if_false, ensures_bind, ensures_log]
    exact hrecords _ hy

/-- `fire` for the last attempt of a payment ends as `Retries` says and never raises. -/
theorem fire_ensures {d : DueRetry} (hretried : d.attempt.state = .retried) :
    (s.fire d).Ensures S clock d.attempt.key
      (fun x rows => ∃ made added, x = .ok made ∧ rows = prior ++ [d.attempt] ++ added ∧
        s.Retries S clock d.attempt made added)
      (prior ++ [d.attempt]) := by
  unfold fire
  simp only [bind_eq, ensures_bind]
  refine ensures_create hretried (fun hfits hfree b t ht hb hcharge => ?_) fun hmay f hf => ?_
  · have hpending : b.asStored.state = .pending := by rw [hb]; rfl
    have hkey : b.asStored.key = d.attempt.key := by rw [hb]; rfl
    unfold carryOut
    simp only [bind_eq, ensures_bind, ensures_log]
    rw [← hkey]
    refine (execute_ensures (b := b) hmoments hS hclock hpending).mono fun x rows hx => ?_
    obtain ⟨hcarriesOn, y, c, hy, rfl, hsettled⟩ := hx
    have hretries : s.Retries S clock d.attempt true [c] := .made hfits hfree ht (hcharge ▸ hy) (hb ▸ hsettled)
    cases x with
    | ok decision => exact ⟨true, [c], rfl, rfl, hretries⟩
    | error e =>
      cases e
      case cancelled arguments => exact absurd (hcarriesOn _ rfl) (by simp [Failure.isCancellation])
      all_goals exact ⟨true, [c], rfl, rfl, hretries⟩
  · have hretries : s.Retries S clock d.attempt false [] := .unmade hmay
    cases f
    case cancelled arguments => exact absurd hf (by simp [Failure.isCancellation])
    all_goals exact ⟨false, [], rfl, by simp, hretries⟩

end

end Scheduler

end PaymentRetry
