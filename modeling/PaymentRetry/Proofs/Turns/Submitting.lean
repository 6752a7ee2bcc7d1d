import PaymentRetry.Proofs.Store.Refusals
import PaymentRetry.Proofs.Turns.Undisturbed

/-!
# Submitting a payment

A payment that is submitted has its first attempt stored and carried out (`Scheduler.submit_served`), whatever the
gateway answers and wherever it moves the clock.  So a submission is called a duplicate if the payment has attempts
already, and then it has changed nothing; but it is called a duplicate too if it is incomplete
(`Reachable.duplicate_or_incomplete`), although nothing is recorded then.
-/

namespace PaymentRetry

open Simulation

/-! ### How a service answers -/

namespace Simulation.World

private theorem exists_observeBreaker (w : World) :
    ∃ b e rs, w.observeBreaker = { w with breaker := b, exported := e, records := rs } := by
  simp only [observeBreaker]
  split <;> exact ⟨_, _, _, rfl⟩

private theorem exists_failBreaker (w : World) :
    ∃ b e rs, w.failBreaker = { w with breaker := b, exported := e, records := rs } := by
  simp only [failBreaker]
  split <;> exact ⟨_, _, _, rfl⟩

end Simulation.World

theorem Service.servesAsWorld {S : Service} (hfree : ∀ key, ¬S.disturbed key ∧ ¬S.barred key) :
    Program.ServesAsWorld S.Serves where
  answered {r w x w'} hcharge hpublish := by
    constructor
    · intro hx
      cases hx with
      | answered => rfl
      | charged => exact absurd rfl (hcharge _)
      | published => exact absurd rfl (hpublish _)
      | refused _ hmay => exact absurd hmay (by simp [hfree])
      | unread _ hdisturbed => exact absurd hdisturbed (hfree _).1
    · intro hanswer
      have hserved := Serves.answered (S := S) (w := w) hcharge hpublish fun _ key _ _ => (hfree key).2
      rwa [hanswer] at hserved
  publishes c w := ⟨.ok (), _, .published (by rintro e ⟨⟩)⟩
  published {c w x w'} hx := by
    cases hx with
    | answered _ hpublish => exact absurd rfl (hpublish _)
    | published hcarriesOn => exact ⟨rfl, hcarriesOn⟩
    | refused hsubject => cases hsubject

/-! ### Carrying out an attempt -/

namespace Scheduler

/-- What carrying out `a` in `w` comes to: `a` is settled by what is heard of its charge, at the moment it is heard, or
the work is cancelled. -/
inductive CarriesOut (s : Scheduler) (S : Service) (w : World) (a : Attempt) : Except Failure Decision → World → Prop
  | settled {y : Except Failure GatewayResult} {x : Except Failure Decision} {w' : World} : s.Hears S a.charge y →
      w'.Still → (w'.now = w.now ∨ S.moments w'.now) →
      w'.store = w.store.put (s.policy.settle (.ofAnswer y) w'.now a.asStored) →
      s.Concludes (.ofAnswer y) w'.now a.asStored x → CarriesOut s S w a x w'
  | calledOff {e : Failure} {w' : World} : e.isCancellation = true → S.answers a.charge (.error e) →
      w'.store = w.store → CarriesOut s S w a (.error e) w'

/-- The answer to a submission, by what has come of its first attempt. -/
def submitted : Except Failure Decision → Except Failure Attempt
  | .error e => .error e
  | .ok d => if d.state = .success then .ok d.attempt else .error (.paymentFailed d)

open Program

variable {S : Service} {s : Scheduler} {w : World} (hanswered : ∀ c, ∃ x, S.answers c x)
  (hfree : ∀ key, ¬S.disturbed key ∧ ¬S.barred key) (hw : w.Still)

include hanswered hw

private theorem request_served {c : Charge} {ends : Except Failure GatewayResult → World → Prop}
    (hends : ∀ x w', S.answers c x → w'.store = w.store → w'.Still → (w'.now = w.now ∨ S.moments w'.now) → ends x w') :
    (Program.charge c).AlwaysEnds S.Serves ends w := by
  refine alwaysEnds_request.2 ⟨?_, fun x w' hx => ?_⟩
  · obtain ⟨x, hx⟩ := hanswered c
    exact ⟨x, _, .charged hx (.inl rfl)⟩
  · cases hx with
    | answered hcharge => exact absurd rfl (hcharge c)
    | charged hx ht => exact hends x _ hx rfl ⟨hw.undisturbed, hw.still⟩ ht
    | refused hsubject => cases hsubject

include hfree

private theorem charge_served (c : Charge) :
    (s.charge c).AlwaysEnds S.Serves (fun x w' => s.Hears S c x ∧ w'.store = w.store ∧ w'.Still ∧
      (w'.now = w.now ∨ S.moments w'.now)) w := by
  have hserves := Service.servesAsWorld hfree
  unfold charge
  split
  · rename_i hguarded
    unfold Gateway.guarded
    simp only [bind_eq, alwaysEnds_bind, hserves.alwaysEnds_breakerAllows]
    obtain ⟨b, e, rs, hobserved⟩ := w.exists_observeBreaker
    have hstill : World.Still { w with breaker := b, exported := e, records := rs } := ⟨hw.undisturbed, hw.still⟩
    rw [hobserved]
    split
    · rw [alwaysEnds_bind]
      refine request_served hanswered hstill fun x w₁ hx hstore hw₁ hnow => ?_
      rcases Gateway.report_cases x with hreport | hreport | hreport
      · rw [hreport]
        exact ⟨.inl hx, hstore, hw₁, hnow⟩
      · obtain ⟨b, e, rs, hfailed⟩ := w₁.exists_failBreaker
        rw [hreport, alwaysEnds_bind, hserves.alwaysEnds_breakerFailed, hfailed]
        exact ⟨.inl hx, hstore, ⟨hw₁.undisturbed, hw₁.still⟩, hnow⟩
      · rw [hreport, alwaysEnds_bind, hserves.alwaysEnds_breakerSucceeded]
        exact ⟨.inl hx, hstore, ⟨hw₁.undisturbed, hw₁.still⟩, hnow⟩
    · rw [alwaysEnds_bind, hserves.alwaysEnds_log]
      exact ⟨.inr ⟨hguarded, rfl⟩, rfl, ⟨hw.undisturbed, hw.still⟩, .inl rfl⟩
  · exact request_served hanswered hw fun x w' hx hstore hw' hnow => ⟨.inl hx, hstore, hw', hnow⟩

theorem execute_served {a : Attempt} (hdistinct : w.store.Distinct) (ha : a.asStored ∈ w.store.rows)
    (hpending : a.state = .pending) : (s.execute a).AlwaysEnds S.Serves (s.CarriesOut S w a) w := by
  have hcharge := (charge_served hanswered hfree (s := s) hw a.charge).mono fun y w₁ hy =>
    (⟨⟨hy.1, hy.2.2.2⟩, hy.2.1, hy.2.2.1⟩ :
      (s.Hears S a.charge y ∧ (w₁.now = w.now ∨ S.moments w₁.now)) ∧ w₁.store = w.store ∧ w₁.Still)
  refine (execute_undisturbed (Service.servesAsWorld hfree) hdistinct ha hpending hcharge).mono fun x w' hx => ?_
  obtain ⟨y, w₁, ⟨hy, hnow⟩, hw₁, ⟨e, hcancelled, rfl, rfl, hstore⟩ | ⟨haround, hput, hconcludes⟩⟩ := hx
  · rcases hy with hy | ⟨-, heq⟩
    · exact .calledOff hcancelled hy hstore
    · obtain rfl := Except.error.inj heq
      cases hcancelled
  · have hnow' := World.now_eq_of_around haround
    rw [← hnow'] at hnow hput hconcludes
    exact .settled hy (hw₁.of_around haround) hnow hput hconcludes

/-- A submission is refused by the store and changes nothing, or its first attempt is inserted and carried out. -/
theorem submit_served (hdistinct : w.store.Distinct) (p : Submission) :
    (s.submit p).AlwaysEnds S.Serves (fun x w' =>
      (∃ f, w.store.insert p.draft w.now = .error f ∧ x = .error f ∧ w.Unmoved w') ∨
        ∃ a t y w₁, w.store.insert p.draft w.now = .ok (a, t) ∧ w₁.store = t ∧ w₁.now = w.now ∧
          s.CarriesOut S w₁ a y w' ∧ x = submitted y) w := by
  have hserves := Service.servesAsWorld hfree
  unfold submit
  simp only [bind_eq, alwaysEnds_bind, hserves.alwaysEnds_create hw]
  cases hinsert : w.store.insert p.draft w.now with
  | error f => exact .inl ⟨f, rfl, rfl, rfl, rfl, rfl, rfl⟩
  | ok stored =>
    obtain ⟨a, t⟩ := stored
    obtain ⟨hcomplete, -, -, hrows⟩ := Store.insert_eq_ok hinsert
    obtain ⟨-, -, -, -, hstate, -⟩ := Store.complete?_eq_some hcomplete
    dsimp only
    rw [hserves.alwaysEnds_log]
    generalize hw₁ : World.log (World.log _ _) _ = w₁
    have hstore : w₁.store = t := by
      rw [← hw₁]
      rfl
    have hnow : w₁.now = w.now := by
      rw [← hw₁]
      rfl
    have hstill : w₁.Still := by
      rw [← hw₁]
      exact ⟨hw.undisturbed, hw.still⟩
    refine (execute_served hanswered hfree (s := s) hstill (hstore ▸ hdistinct.insert hinsert) (a := a) ?_
      hstate).mono fun y w' hy => ?_
    · rw [hstore, hrows]
      simp
    cases y with
    | error e => exact .inr ⟨a, t, _, w₁, rfl, hstore, hnow, hy, rfl⟩
    | ok d =>
      by_cases hsuccess : d.state = .success
      · simp only [hsuccess, if_true]
        exact .inr ⟨a, t, _, w₁, rfl, hstore, hnow, hy, (if_pos hsuccess).symm⟩
      · simp only [hsuccess, if_false]
        exact .inr ⟨a, t, _, w₁, rfl, hstore, hnow, hy, (if_neg hsuccess).symm⟩

end Scheduler

/-! ### Duplicates -/

/-- The rows after the first attempt has been inserted and carried out. -/
theorem Scheduler.CarriesOut.rows_eq {s : Scheduler} {S : Service} {w w' : World} {p : Submission} {a : Attempt}
    {t t' : Store} {now : DateTime} {x : Except Failure Decision} (h : s.CarriesOut S w a x w')
    (hinsert : t.insert p.draft now = .ok (a, t')) (hdistinct : t.Distinct) (hstore : w.store = t') :
    ∃ b, a.asStored.Becomes b ∧ w'.store.rows = t.rows ++ [b] := by
  obtain ⟨hcomplete, -, -, hrows⟩ := Store.insert_eq_ok hinsert
  obtain ⟨-, -, -, -, hstate, -⟩ := Store.complete?_eq_some hcomplete
  cases h with
  | @settled y _ _ _ _ _ hput _ =>
    refine ⟨s.policy.settle (.ofAnswer y) w'.now a.asStored, RetryPolicy.settle_becomes hstate, ?_⟩
    rw [hput, hstore]
    exact Store.put_last (hdistinct.insert hinsert) hrows RetryPolicy.settle_id
  | calledOff _ _ heq =>
    refine ⟨_, .refl _, ?_⟩
    rw [heq, hstore]
    exact hrows

private theorem Scheduler.CarriesOut.not_isDuplicate {s : Scheduler} {S : Service} {w w' : World} {a : Attempt}
    {x : Except Failure Decision} (h : s.CarriesOut S w a x w') : ¬IsDuplicate (submitted x) := by
  cases h with
  | settled _ _ _ _ hconcludes =>
    cases hconcludes with
    | decided =>
      unfold submitted
      dsimp only
      split
      · exact not_isDuplicate_ok _
      · rintro ⟨key, number, ⟨⟩⟩
    | untold => rintro ⟨key, number, ⟨⟩⟩
    | unruled => rintro ⟨key, number, ⟨⟩⟩
    | refused _ hmessage => exact Failure.ofTexts?_not_isDuplicate hmessage
  | @calledOff e _ hcancelled _ _ =>
    rintro ⟨key, number, heq⟩
    obtain rfl : e = .duplicateKey key number := Except.error.inj heq
    cases hcancelled

/-- The number of a first attempt is taken iff the payment has attempts. -/
theorem Store.Sequenced.has_first_iff {s : Store} (hs : s.Sequenced) {p : Submission} :
    (∃ a ∈ s.rows, p.draft.key = some a.key ∧ p.draft.number = some a.number) ↔
      ∃ a ∈ s.rows, p.key = some a.key := by
  constructor
  · rintro ⟨a, ha, hkey, -⟩
    exact ⟨a, ha, hkey⟩
  · rintro ⟨a, ha, hkey⟩
    have hnumber := mem_numbersTo.1 (hs.number_mem ha)
    have hsome : (1 : Int) ≤ (s.attemptsOf a.key).length := Int.le_trans hnumber.1 hnumber.2
    obtain ⟨b, hb, hfirst⟩ := hs.exists_number (Int.le_refl 1) hsome
    obtain ⟨hb, hbkey⟩ := mem_attemptsOf.1 hb
    exact ⟨b, hb, hkey.trans (congrArg some hbkey.symm), congrArg some hfirst.symm⟩

/-- When an attempt is refused as a duplicate.  Without store faults, `submit` ends with a duplicate iff the values of
`p` can be handed to the store and `p` is incomplete or its key has attempts; then, and if the values cannot be handed
over, nothing has changed, and otherwise the key has a first attempt afterwards.  `create` with a fresh identity ends
with a duplicate iff `d` is incomplete or its key has its number.  `Draft.payment := none` asks for the identity of a
new payment, so a draft without any payment, which the store calls a duplicate too, cannot be expressed. -/
theorem Reachable.duplicate_or_incomplete {w : World} {σ : System} (hw : w.Unused) (h : Reachable w σ)
    (hstill : σ.world.Still) (s : Scheduler) (answers : Charge → Except Failure GatewayResult → Prop)
    (moments : DateTime → Prop) (hanswered : ∀ c, ∃ x, answers c x) (p : Submission) (d : Draft)
    (hd : σ.world.store.Unclaimed d) :
    (s.submit p).AlwaysEnds (Service.Serves { answers, moments })
        (fun x w' =>
          (IsDuplicate x ↔ p.draft.unstorable? = none ∧
            (p.draft.Incomplete ∨ ∃ a ∈ σ.world.store.rows, p.key = some a.key)) ∧
          (IsDuplicate x ∨ p.draft.unstorable? ≠ none → σ.world.Unmoved w') ∧
          (¬IsDuplicate x → p.draft.unstorable? = none →
            ∃ a ∈ w'.store.rows, p.key = some a.key ∧ a.number = 1))
        σ.world ∧
      (Program.create d).AlwaysEnds (Service.Serves { answers, moments })
        (fun x w' =>
          (IsDuplicate x ↔ d.unstorable? = none ∧
            (d.Incomplete ∨ ∃ a ∈ σ.world.store.rows, d.key = some a.key ∧ d.number = some a.number)) ∧
          (IsDuplicate x ∨ d.unstorable? ≠ none → σ.world.Unmoved w'))
        σ.world := by
  have hsequenced := (h.log_sound hw).sequenced
  have hminted := (h.coherent hw).minted
  have hfree : ∀ key : String, ¬False ∧ ¬False := fun _ => ⟨id, id⟩
  constructor
  · have hiff := Store.insert_isDuplicate_iff (d := p.draft) (t := σ.world.now) hminted (by rintro id ⟨⟩)
    rw [hsequenced.has_first_iff] at hiff
    refine (Scheduler.submit_served (S := { answers, moments }) (s := s) hanswered hfree hstill hsequenced.distinct
      p).mono fun x w' hx => ?_
    rcases hx with ⟨f, hinsert, rfl, hunmoved⟩ | ⟨a, t, y, w₁, hinsert, hstore, -, hcarried, rfl⟩
    · rw [hinsert] at hiff
      refine ⟨isDuplicate_error.trans hiff, fun _ => hunmoved, fun hnot hstorable => ?_⟩
      rcases Store.insert_refused hinsert with hunstorable | hduplicate
      · exact absurd hstorable hunstorable
      · exact absurd hduplicate hnot
    · have hnot := hcarried.not_isDuplicate
      have hstorable := Store.storable_of_insert hinsert
      rw [hinsert] at hiff
      refine ⟨⟨fun hduplicate => absurd hduplicate hnot, fun h => absurd (hiff.2 h) (not_isDuplicate_ok _)⟩,
        fun h => ?_, fun _ _ => ?_⟩
      · rcases h with hduplicate | hunstorable
        · exact absurd hduplicate hnot
        · exact absurd hstorable hunstorable
      · obtain ⟨b, hbecomes, hrows⟩ := hcarried.rows_eq hinsert hsequenced.distinct hstore
        obtain ⟨hkey, -, hnumber, -⟩ := Store.complete?_eq_some (Store.insert_eq_ok hinsert).1
        have hfirst : 1 = a.number := Option.some.inj hnumber
        refine ⟨b, by simp [hrows], ?_, hbecomes.number_eq.trans hfirst.symm⟩
        rw [hbecomes.key_eq]
        exact hkey
  · have hiff := Store.insert_isDuplicate_iff (t := σ.world.now) hminted hd
    rw [(Service.servesAsWorld hfree).alwaysEnds_create hstill]
    cases hinsert : σ.world.store.insert d σ.world.now with
    | error f =>
      rw [hinsert] at hiff
      exact ⟨isDuplicate_error.trans hiff, fun _ => ⟨rfl, rfl, rfl, rfl⟩⟩
    | ok stored =>
      obtain ⟨a, t⟩ := stored
      have hstorable := Store.storable_of_insert hinsert
      rw [hinsert] at hiff
      refine ⟨⟨fun hduplicate => absurd hduplicate (not_isDuplicate_ok _),
        fun h => absurd (hiff.2 h) (not_isDuplicate_ok _)⟩, fun h => ?_⟩
      rcases h with hduplicate | hunstorable
      · exact absurd hduplicate (not_isDuplicate_ok _)
      · exact absurd hstorable hunstorable

/-- A payment that has been retried is submitted once more, and its first attempt is inserted once more. -/
theorem duplicate_of_second_submission : ∃ σ, Reachable Sample.world σ ∧
    let service : Service := { answers := fun _ _ => True, moments := fun _ => True }
    (Sample.scheduler.submit Sample.submission).AlwaysEnds service.Serves
        (fun x w' => IsDuplicate x ∧ σ.world.Unmoved w') σ.world ∧
      (Program.create Sample.submission.draft).AlwaysEnds service.Serves
        (fun x w' => IsDuplicate x ∧ σ.world.Unmoved w') σ.world := by
  obtain ⟨σ, h, hworld⟩ := Sample.reachable_retried
  have hstill : σ.world.Still := by
    rw [hworld]
    exact ⟨by decide +kernel, by decide +kernel⟩
  have hstorable : Sample.submission.draft.unstorable? = none := by decide +kernel
  have hrecorded : ∃ a ∈ σ.world.store.rows, a.key = "order" ∧ a.number = 1 := by
    rw [hworld]
    decide +kernel
  obtain ⟨a, ha, hkey, hnumber⟩ := hrecorded
  obtain ⟨hsubmit, hcreate⟩ := h.duplicate_or_incomplete ⟨rfl, rfl⟩ hstill Sample.scheduler (fun _ _ => True)
    (fun _ => True) (fun _ => ⟨.ok ⟨.success, none⟩, trivial⟩) Sample.submission Sample.submission.draft
    (by rintro id ⟨⟩)
  refine ⟨σ, h, hsubmit.mono fun x w' hx => ?_, hcreate.mono fun x w' hx => ?_⟩
  · have hduplicate := hx.1.2 ⟨hstorable, .inr ⟨a, ha, congrArg some hkey.symm⟩⟩
    exact ⟨hduplicate, hx.2.1 (.inl hduplicate)⟩
  · have hduplicate := hx.1.2 ⟨hstorable, .inr ⟨a, ha, congrArg some hkey.symm, congrArg some hnumber.symm⟩⟩
    exact ⟨hduplicate, hx.2 (.inl hduplicate)⟩

/-- A NaN amount is called a duplicate, although the payment has no attempt before or after. -/
theorem duplicate_of_not_a_number :
    let run := (Sample.scheduler.submit { Sample.submission with amount := .nan false }).run World.answer Sample.world
    Sample.world.store.rows = [] ∧ run.1 = .error (.duplicateKey (some "order") (some 1)) ∧
      run.2.store.rows = [] ∧ run.2.charges = [] := by
  refine ⟨rfl, rfl, rfl, rfl⟩

end PaymentRetry
