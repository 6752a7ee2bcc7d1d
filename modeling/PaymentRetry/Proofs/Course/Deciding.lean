import PaymentRetry.Proofs.Course.History
import PaymentRetry.Proofs.Workers.Ruling

/-!
# Accepted policies at work

A policy is accepted if none of its settings is negative; how large they may be is not limited.  So an accepted policy
rules on a failed attempt if and only if the retry that it asks for is due within the calendar
(`RetryPolicy.exists_ruling_iff`).  If it does, the call of `recordOutcome` decides; if it does not, the call fails and
leaves the attempt pending (`Scheduler.decides_within_calendar`).
-/

namespace PaymentRetry

open Simulation

/-! ### Rulings within the calendar -/

namespace RetryPolicy

/-- Whether the retry that `p` asks for at `t` after the failed attempt `number`, if any, is due within the calendar. -/
def Reaches (p : RetryPolicy) (type : FailureType) (number : Int) (t : DateTime) : Prop :=
  number ≤ p.maxAttempts type → t.micros + p.wait number type < (calendarDays * Duration.day : Nat)

instance (p : RetryPolicy) (type : FailureType) (number : Int) (t : DateTime) : Decidable (p.Reaches type number t) :=
  inferInstanceAs (Decidable (_ → _))

variable {p : RetryPolicy} {days : List Int} {maximum : Int} {delay : Duration}

/-- An accepted policy rules on the failed attempt `number` at `t` if and only if the retry that it asks for, if any,
is due within the calendar. -/
theorem exists_ruling_iff (hbuild : build days maximum delay = .ok p) {result : GatewayResult} {type : FailureType}
    (htype : result.outcome.failureType = some type) {number : Int} (hnumber : 1 ≤ number) (t : DateTime) :
    (∃ target change, p.ruling result number t = .ok (target, change)) ↔ p.Reaches type number t := by
  have hnonneg := wait_nonneg hbuild number type
  unfold ruling
  simp only [htype]
  by_cases hle : number ≤ p.maxAttempts type
  · have hreaches : p.Reaches type number t ↔ t.micros + p.wait number type < (calendarDays * Duration.day : Nat) := by
      simp only [Reaches, hle, true_implies]
    have hsum := DateTime.exists_add_iff (t := t) (d := ⟨p.wait number type⟩)
    simp only at hsum
    rcases delay_of_le hnumber hle hnonneg with hdelay | ⟨⟨e, he⟩, hlarge⟩
    · simp only [hdelay, hreaches]
      cases hadd : t.add ⟨p.wait number type⟩ with
      | error e =>
        rw [hadd] at hsum
        simp only [reduceCtorEq, exists_false, false_iff] at hsum ⊢
        omega
      | ok due =>
        obtain ⟨-, hlt⟩ := hsum.1 ⟨due, hadd⟩
        exact ⟨fun _ => hlt, fun _ => ⟨_, _, rfl⟩⟩
    · simp only [he, hreaches, reduceCtorEq, exists_false, false_iff]
      omega
  · have hend : p.delay type (number - 1) = .ok none := delay_eq_none_iff.2 fun h => hle h.2
    simp only [hend]
    exact ⟨fun _ h => absurd h hle, fun _ => ⟨_, _, rfl⟩⟩

theorem ruling_of_failure {result : GatewayResult} {type : FailureType} (htype : result.outcome.failureType = some type)
    {number : Int} {t : DateTime} {target : AttemptState} {change : Change}
    (h : p.ruling result number t = .ok (target, change)) :
    (target = .retried ∨ target = .aborted) ∧ change.message = some result.message := by
  cases rules_of_ruling h with
  | success hsuccess => cases htype.symm.trans hsuccess
  | aborted => exact ⟨.inr rfl, rfl⟩
  | retried => exact ⟨.inl rfl, rfl⟩

end RetryPolicy

/-! ### Completing a pending attempt -/

namespace Scheduler

open Program

variable {s : Scheduler} {o : Nat → Except Failure GatewayResult} {w : World} {a : Attempt} {result : GatewayResult}

theorem complete_run_of_error (hw : w.Still) {e : RangeError} (h : s.policy.ruling result a.number w.now = .error e) :
    (s.complete a result).run (World.stream o) w = (.error (.range e), w) := by
  obtain ⟨q, hq, hrun⟩ := complete_run_enacts s o hw a result
  rw [hrun, hq.eq_done h]
  rfl

theorem complete_run_of_ruling (hw : w.Still) (hdistinct : w.store.Distinct) (ha : a ∈ w.store.rows)
    (hpending : a.state = .pending) {target : AttemptState} {change : Change}
    (h : s.policy.ruling result a.number w.now = .ok (target, change))
    (hmessage : Failure.ofTexts? change.message.join.toList = none) :
    ∃ due w', (s.complete a result).run (World.stream o) w =
        (.ok ⟨change.apply { a with state := target, updated := w.now }, target, due⟩, w') ∧
      w.store.move? a.id .pending target change w.now = some w'.store := by
  obtain ⟨store, hmove⟩ := Store.exists_move? ha hpending target change w.now
  obtain ⟨a', ha', hid, -, hfind⟩ := Store.find?_of_move? hdistinct hmove
  obtain rfl := hdistinct.eq_of_id ha ha' hid.symm
  have htransition := World.stream_transition hw o hmessage hmove hfind
  obtain ⟨q, hq, hrun⟩ := complete_run_enacts s o hw a result
  rw [h] at hq
  cases hq with
  | ruled _ _ note =>
    simp only [hrun, run_bind, run_transition, htransition]
    exact ⟨_, _, rfl, hmove⟩

/-- Let the policy be accepted, and the reason of the failure one that the store takes.  If the retry that the policy
asks for, if any, is due within the calendar, then the call of `recordOutcome` for the pending attempt `a` retries it
or gives it up; if not, the call fails and changes no row. -/
theorem decides_within_calendar {days : List Int} {maximum : Int} {delay : Duration} {type : FailureType}
    (hbuild : RetryPolicy.build days maximum delay = .ok s.policy) (hannounces : s.announces = false) (hw : w.Still)
    (hdistinct : w.store.Distinct) (ha : a ∈ w.store.rows) (hpending : a.state = .pending) (hnumber : 1 ≤ a.number)
    (htype : result.outcome.failureType = some type) (hreason : Failure.ofTexts? result.message.toList = none) :
    ∃ x w', (s.recordOutcome a.key a.id result).run (World.stream o) w = (x, w') ∧
      if s.policy.Reaches type a.number w.now then
        ∃ d before after, x = .ok d ∧ (d.state = .retried ∨ d.state = .aborted) ∧ d.attempt.state = d.state ∧
          a.CompletedAs d.attempt ∧ w.store.rows = before ++ a :: after ∧ w'.store.rows = before ++ d.attempt :: after
      else (∃ e, x = .error (.range e)) ∧ w'.store = w.store := by
  have hget := World.stream_get hw o (hdistinct.find?_of_mem ha)
  have hiff := RetryPolicy.exists_ruling_iff hbuild htype hnumber w.now
  let w₁ : World := { w with counts := w.counts.increment (.outcome result.outcome) }
  have hw₁ : w₁.Still := ⟨hw.undisturbed, hw.still⟩
  simp only [recordOutcome, bind_eq, run_bind, run_get, hget, ne_eq, not_true_eq_false, if_false, hpending, pure_eq,
    run_count, World.stream_count]
  cases hruling : s.policy.ruling result a.number w.now with
  | error e =>
    have hcomplete := complete_run_of_error (s := s) (o := o) hw₁ hruling
    have hlate : ¬s.policy.Reaches type a.number w.now := by
      rw [← hiff, hruling]
      simp
    simp only [w₁] at hcomplete
    simp only [hcomplete, if_neg hlate]
    exact ⟨_, _, rfl, ⟨_, rfl⟩, rfl⟩
  | ok y =>
    obtain ⟨target, change⟩ := y
    obtain ⟨htarget, hmessage⟩ := RetryPolicy.ruling_of_failure htype hruling
    have hstorable : Failure.ofTexts? change.message.join.toList = none := by
      rw [hmessage]
      exact hreason
    obtain ⟨due, w₂, hcomplete, hmove⟩ :=
      complete_run_of_ruling (s := s) (o := o) hw₁ hdistinct ha hpending hruling hstorable
    obtain ⟨before, a', after, hrows, hid, -, hrows'⟩ := Store.move?_eq_some hdistinct hmove
    obtain rfl := hdistinct.eq_of_id (a := a') (by simp [hrows]) ha hid
    have hne : target ≠ .pending := by
      rcases htarget with rfl | rfl <;> simp
    have hcompleted := change.completedAs_apply hpending hne w.now
    have hsilent : ∀ d, s.announce d = .done (.ok ()) := fun d => by simp [announce, hannounces]
    simp only [w₁] at hcomplete
    simp only [hcomplete, hsilent, Program.bind, if_pos (hiff.1 ⟨_, _, hruling⟩), run_bind, run_count,
      World.stream_count, ite_self, run_done]
    exact ⟨_, _, rfl, _, before, after, rfl, htarget, rfl, hcompleted, hrows, hrows'⟩

end Scheduler

namespace Sample

/-- A scheduler that announces nothing and retries a declined payment once, after `days` days. -/
def deferring (days : Int) : Scheduler := { policy := ⟨[days], 0, ⟨0⟩⟩, announces := false }

private theorem exists_created_row : ∃ a, created.store.rows = [a] ∧ a.state = .pending ∧ a.number = 1 := by
  have hrows : created.store.rows.map (fun a => (a.state, a.number)) = [(.pending, 1)] := by decide +kernel
  obtain ⟨a, l, heq, ha, hl⟩ := List.map_eq_cons_iff.1 hrows
  obtain rfl := List.map_eq_nil_iff.1 hl
  exact ⟨a, heq, (Prod.mk.inj ha).1, (Prod.mk.inj ha).2⟩

end Sample

/-- The first attempt of the sample's payment is declined, and is to be retried the day after. -/
theorem decides_of_next_day : ∃ a d w', Sample.created.store.rows = [a] ∧
    ((Sample.deferring 1).recordOutcome a.key a.id ⟨.businessFailure, none⟩).run (World.stream Sample.answers)
      Sample.created = (.ok d, w') ∧ (d.state = .retried ∨ d.state = .aborted) ∧ w'.store.rows = [d.attempt] := by
  obtain ⟨a, hrows, hpending, hnumber⟩ := Sample.exists_created_row
  have hbuild : RetryPolicy.build [1] 0 ⟨0⟩ = .ok (Sample.deferring 1).policy := rfl
  have htype : (⟨.businessFailure, none⟩ : GatewayResult).outcome.failureType = some .business := rfl
  obtain ⟨x, w', hrun, hends⟩ := (Sample.deferring 1).decides_within_calendar (o := Sample.answers)
    (w := Sample.created) (a := a) hbuild rfl ⟨rfl, rfl⟩ (by simp [Store.Distinct, hrows]) (by simp [hrows]) hpending
    (by omega) htype rfl
  have hreaches : (Sample.deferring 1).policy.Reaches .business a.number Sample.created.now := by
    rw [hnumber]
    decide +kernel
  rw [if_pos hreaches, hrows] at hends
  obtain ⟨d, before, after, rfl, hstate, -, -, hsplit, hrows'⟩ := hends
  obtain ⟨rfl, rfl⟩ : before = [] ∧ after = [] := by
    have hlength := congrArg List.length hsplit
    simp only [List.length_append, List.length_cons, List.length_nil] at hlength
    exact ⟨List.length_eq_zero_iff.1 (by omega), List.length_eq_zero_iff.1 (by omega)⟩
  exact ⟨a, d, w', hrows, hrun, hstate, hrows'⟩

/-- A policy that retries after four million days is accepted, and leaves the attempt that it is asked about pending. -/
theorem undecided_of_distant_retry : RetryPolicy.build [4000000] 0 ⟨0⟩ = .ok (Sample.deferring 4000000).policy ∧
    ∃ σ, Reachable Sample.world σ ∧ σ.world.store.rows.map (·.state) = [.pending] ∧
      ∀ a ∈ σ.world.store.rows,
        let run := ((Sample.deferring 4000000).recordOutcome a.key a.id ⟨.businessFailure, none⟩).run
          (World.stream Sample.answers) σ.world
        run.1.isOk = false ∧ run.2.store.rows.map (·.state) = [.pending] := by
  obtain ⟨σ, h, hworld, -⟩ := Sample.reachable_created
  refine ⟨rfl, σ, h, ?_⟩
  rw [hworld]
  decide +kernel

end PaymentRetry
