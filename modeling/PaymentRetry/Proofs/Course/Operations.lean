import PaymentRetry.Proofs.Course.Completing
import PaymentRetry.Proofs.Course.Replies
import PaymentRetry.Proofs.Store.Latest

/-!
# Operations in a still world

What the operations of the scheduler come to in a still world, when the attempt they work on is the latest row.  An
attempt that is carried out is completed as the policy has it for the gateway's answer (`execute_run`); a poll does so
for the next attempt if the latest one is due (`poll_run_of_due`), and otherwise changes nothing but the count of
polls (`poll_run_of_nothing`).
-/

namespace PaymentRetry

open Simulation

/-! ### What is taken down -/

/-- The result that is taken down for an answer of the gateway.  Whatever the gateway raises is a technical failure. -/
def GatewayResult.ofAnswer : Except Failure GatewayResult → GatewayResult
  | .ok result => result
  | .error e => ⟨.pluginException, some e.reason⟩

/-- Whether `x` is a result, or an exception that does not call the work off. -/
def GatewayResult.CarriesOn (x : Except Failure GatewayResult) : Prop := ∀ e, x = .error e → e.isCancellation = false

/-- Whether `x` carries on and, if it is a failure, has a text that the store takes.  The store refuses texts with half
of a surrogate pair. -/
structure GatewayResult.Regular (x : Except Failure GatewayResult) : Prop where
  carriesOn : CarriesOn x
  storable : ∀ type, (ofAnswer x).outcome.failureType = some type →
    Failure.ofTexts? (ofAnswer x).message.toList = none

namespace RetryPolicy

/-- The state to which `p` moves the attempt `number` after `outcome`. -/
def stateAfter (p : RetryPolicy) (outcome : Outcome) (number : Int) : AttemptState :=
  match outcome.failureType with
  | none => .success
  | some type => if number ≤ p.maxAttempts type then .retried else .aborted

/-- Whether `a` has been completed as `p` has it for `result`. -/
structure Records (p : RetryPolicy) (result : GatewayResult) (a : Attempt) : Prop where
  state : a.state = p.stateAfter result.outcome a.number
  failureType : a.failureType = result.outcome.failureType
  due : a.state = .retried → ∃ t, a.dueAt = some t

/-- Whether the retry of the attempt `number` that `p` asks for at `t` after `outcome`, if any, is due within the
calendar. -/
def DateFits (p : RetryPolicy) (outcome : Outcome) (number : Int) (t : DateTime) : Prop :=
  ∀ type, outcome.failureType = some type →
    ∃ delay, p.delay type (number - 1) = .ok delay ∧ ∀ d, delay = some d → ∃ due, t.add d = .ok due

theorem stateAfter_ne_pending (p : RetryPolicy) (outcome : Outcome) (number : Int) :
    p.stateAfter outcome number ≠ .pending := by
  unfold stateAfter
  split
  · simp
  · split <;> simp

/-- All dates that an accepted policy computes at `t` lie within the calendar if those after its delays do. -/
theorem dateFits_of_build {p : RetryPolicy} (h : build p.days p.pluginMaximum p.pluginDelay = .ok p) {t : DateTime}
    (hdays : ∀ n ∈ p.days, t.micros + n * Duration.day < (calendarDays * Duration.day : Nat))
    (hdelay : t.micros + p.pluginDelay.micros < (calendarDays * Duration.day : Nat)) (outcome : Outcome)
    (number : Int) : p.DateFits outcome number t := by
  intro type _
  by_cases hretried : 1 ≤ number ∧ number ≤ p.maxAttempts type
  · obtain ⟨hnumber, hle⟩ := hretried
    have hnonneg := wait_nonneg h number type
    have hreaches : t.micros + p.wait number type < (calendarDays * Duration.day : Nat) := by
      rcases wait_mem hnumber hle with ⟨n, hn, heq⟩ | heq
      · exact heq ▸ hdays n hn
      · exact heq ▸ hdelay
    rcases delay_of_le hnumber hle hnonneg with heq | ⟨-, hlarge⟩
    · refine ⟨_, heq, ?_⟩
      rintro d ⟨⟩
      exact DateTime.exists_add_iff.2 ⟨Int.add_nonneg (Int.natCast_nonneg _) hnonneg, hreaches⟩
    · omega
  · exact ⟨none, delay_eq_none_iff.2 hretried, by simp⟩

section

variable {p : RetryPolicy} {result : GatewayResult} {number : Int} {now : DateTime} {target : AttemptState}
  {change : Change}

theorem DateFits.exists_ruling (h : p.DateFits result.outcome number now) :
    ∃ target change, p.ruling result number now = .ok (target, change) := by
  cases hruling : p.ruling result number now with
  | ok y => exact ⟨y.1, y.2, rfl⟩
  | error e =>
    obtain ⟨type, htype, hfailed⟩ := exists_failure_of_ruling hruling
    obtain ⟨delay, hdelay, hdue⟩ := h type htype
    rcases hfailed with hnone | ⟨d, hwaits, hlate⟩
    · cases hdelay.symm.trans hnone
    · obtain ⟨due, hadd⟩ := hdue d (by simpa [hdelay] using hwaits.2)
      cases hadd.symm.trans hlate

theorem records_of_ruling (hnumber : 1 ≤ number) (h : p.ruling result number now = .ok (target, change))
    {a : Attempt} (ha : a.number = number) (hblank : a.failureType = none) (t : DateTime) :
    p.Records result (change.apply { a with state := target, updated := t }) := by
  subst ha
  cases rules_of_ruling h with
  | success htype =>
    refine ⟨?_, hblank.trans htype.symm, nofun⟩
    simp only [stateAfter, htype]
    rfl
  | @aborted type htype hdelay =>
    refine ⟨?_, htype.symm, nofun⟩
    have hend : ¬a.number ≤ p.maxAttempts type := by simpa using delay_eq_ok hnumber hdelay
    simp only [stateAfter, htype]
    exact (if_neg hend).symm
  | @retried type delay due hwaits hdue =>
    refine ⟨?_, hwaits.1.symm, fun _ => ⟨due, rfl⟩⟩
    simp only [stateAfter, hwaits.1]
    exact (if_pos ((delay_eq_ok hnumber hwaits.2).1 rfl)).symm

end

end RetryPolicy

namespace Scheduler

open Program

variable (s : Scheduler) (o : Nat → Except Failure GatewayResult)

theorem complete_run_enacts {w : World} (hw : w.Still) (a : Attempt) (result : GatewayResult) :
    ∃ q, Enacts a (s.policy.ruling result a.number w.now) q ∧
      (s.complete a result).run (World.stream o) w = q.run (World.stream o) w := by
  rcases s.complete_enacts a result with ⟨-, y, hy, h⟩ | ⟨rest, hrest, h⟩
  · exact ⟨_, (hy w.now).symm ▸ h, rfl⟩
  · refine ⟨rest w.now, h w.now, ?_⟩
    simp only [hrest, run_bind, run_now, World.stream_now hw]

/-! ### Completing the latest attempt -/

section

variable {w : World} (hw : w.Still) (hdistinct : w.store.Distinct) {prior : List Attempt} {a : Attempt}
  (hrows : w.store.rows = prior ++ [a]) (ha : a.state = .pending)

include hw hdistinct hrows ha

private theorem transition_run (target : AttemptState) (change : Change)
    (hmessage : Failure.ofTexts? change.message.join.toList = none) :
    World.stream o (.transition a.id .pending target change) w =
      (.ok (change.apply { a with state := target, updated := w.now }),
        { w with store := { w.store with
          rows := prior ++ [change.apply { a with state := target, updated := w.now }] } }) := by
  have hmove := Store.move?_latest hdistinct hrows ha target change w.now
  refine World.stream_transition hw o hmessage hmove ?_
  have hdistinct' := hdistinct.move hmove
  exact hdistinct'.find?_of_mem (a := change.apply { a with state := target, updated := w.now }) (by simp)

theorem complete_run {result : GatewayResult} (hblank : a.failureType = none) (hnumber : 1 ≤ a.number)
    (hmessage : ∀ type, result.outcome.failureType = some type → Failure.ofTexts? result.message.toList = none)
    (hfits : s.policy.DateFits result.outcome a.number w.now) :
    ∃ b due w', (s.complete a result).run (World.stream o) w =
        (.ok ⟨b, s.policy.stateAfter result.outcome a.number, due⟩, w') ∧
      a.CompletedAs b ∧ s.policy.Records result b ∧
      w'.bare = ({ w with store := { w.store with rows := prior ++ [b] } } : World).bare := by
  obtain ⟨target, change, hruling⟩ := hfits.exists_ruling
  have hrecords := RetryPolicy.records_of_ruling hnumber hruling rfl hblank w.now
  obtain ⟨q, hq, hrun⟩ := complete_run_enacts s o hw a result
  rw [hruling] at hq
  cases hq
  have htransition := transition_run o hw hdistinct hrows ha target change
    (RetryPolicy.storable_of_ruling hruling hmessage)
  simp only [hrun, run_bind, run_transition, htransition, run_log, World.stream_log, run_done]
  have hstate : target = s.policy.stateAfter result.outcome a.number := hrecords.state
  have hcompleted := change.completedAs_apply ha (RetryPolicy.ruling_ne_pending hruling) w.now
  rw [← hstate]
  exact ⟨_, _, _, rfl, hcompleted, hrecords, rfl⟩

end

/-- Announcing a decision fails, if at all, because it cannot be told. -/
theorem announce_run (d : Decision) (w : World) :
    ∃ x w', (s.announce d).run (World.stream o) w = (x, w') ∧ w'.bare = w.bare ∧
      ∀ e, x = .error e → ∃ issues, e = .untellable issues := by
  unfold announce
  split
  · split
    · simp only [pure_eq, run_done]
      refine ⟨_, _, rfl, rfl, ?_⟩
      rintro e ⟨⟩
      exact ⟨_, rfl⟩
    · simp only [bind_eq, run_bind, run_publish, World.stream_publish, pure_eq, run_done]
      exact ⟨_, _, rfl, World.bare_published .., by simp⟩
  · simp only [pure_eq, run_done]
    exact ⟨_, _, rfl, rfl, by simp⟩

section

variable {w : World} (hw : w.Still) (hdistinct : w.store.Distinct) {prior : List Attempt} {a : Attempt}
  (hrows : w.store.rows = prior ++ [a]) (ha : a.state = .pending) (hblank : a.failureType = none)
  (hnumber : 1 ≤ a.number)

include hw hdistinct hrows ha hblank hnumber

/-- A call of `recordOutcome` for the latest attempt completes it, if the store takes the reason. -/
theorem recordOutcome_run {result : GatewayResult}
    (hmessage : ∀ type, result.outcome.failureType = some type → Failure.ofTexts? result.message.toList = none)
    (hfits : s.policy.DateFits result.outcome a.number w.now) :
    ∃ x b w', (s.recordOutcome a.key a.id result).run (World.stream o) w = (x, w') ∧
      a.CompletedAs b ∧ s.policy.Records result b ∧
      w'.bare = ({ w with store := { w.store with rows := prior ++ [b] } } : World).bare ∧
      ∀ e, x = .error e → ∃ issues, e = .untellable issues := by
  have hget := World.stream_get hw o (hdistinct.find?_of_mem (a := a) (by simp [hrows]))
  obtain ⟨b, due, w₁, hcomplete, hcompleted, hrecords, hbare⟩ := s.complete_run o
    (w := { w with counts := w.counts.increment (.outcome result.outcome) }) ⟨hw.undisturbed, hw.still⟩ hdistinct hrows
    ha hblank hnumber hmessage hfits
  simp only [recordOutcome, bind_eq, run_bind, run_get, hget, ne_eq, not_true_eq_false, if_false, ha, pure_eq,
    run_count, World.stream_count, hcomplete]
  split
  · obtain ⟨x, w₂, hannounce, hbare', hx⟩ :=
      s.announce_run o ⟨b, s.policy.stateAfter result.outcome a.number, due⟩
        { w₁ with counts := w₁.counts.increment (.transition (s.policy.stateAfter result.outcome a.number)) }
    simp only [run_bind, hannounce]
    rcases x with e | u
    · exact ⟨_, b, w₂, rfl, hcompleted, hrecords, hbare'.trans hbare, by simpa using hx e rfl⟩
    · exact ⟨_, b, w₂, rfl, hcompleted, hrecords, hbare'.trans hbare, by simp⟩
  · exact ⟨_, b, _, rfl, hcompleted, hrecords, hbare, by simp⟩

end

/-! ### Carrying out an attempt -/

private theorem created_of_insert {t t' : Store} {d : Draft} {now : DateTime} {a : Attempt}
    (hinsert : t.insert d now = .ok (a, t')) (hpending : d.state = .pending) :
    a.state = .pending ∧ a.failureType = none ∧ d.number = some a.number ∧ t'.rows = t.rows ++ [a.asStored] := by
  obtain ⟨hcomplete, -, -, hrows⟩ := Store.insert_eq_ok hinsert
  obtain ⟨-, -, hnumber, -, hstate, -, -, htype, -⟩ := Store.complete?_eq_some hcomplete
  exact ⟨hstate.trans hpending, htype, hnumber, hrows⟩

section

variable (hs : s.guarded = false) {w : World} (hw : w.Still)

include hs hw

/-- An attempt that is carried out is completed as the policy has it for the gateway's answer. -/
theorem execute_run {prior : List Attempt} {a : Attempt} (hdistinct : w.store.Distinct)
    (hrows : w.store.rows = prior ++ [a.asStored]) (ha : a.state = .pending) (hblank : a.failureType = none)
    (hnumber : 1 ≤ a.number) {answer : Except Failure GatewayResult} (hanswer : o (w.charges.length + 1) = answer)
    (hregular : GatewayResult.Regular answer)
    (hfits : s.policy.DateFits (GatewayResult.ofAnswer answer).outcome a.number w.now) :
    ∃ x b w', (s.execute a).run (World.stream o) w = (x, w') ∧
      a.asStored.CompletedAs b ∧ s.policy.Records (GatewayResult.ofAnswer answer) b ∧
      w'.bare = ({ w with
        store := { w.store with rows := prior ++ [b] }, charges := a.charge :: w.charges } : World).bare ∧
      ∀ e, x = .error e → ∃ issues, e = .untellable issues := by
  obtain ⟨hcarriesOn, hstorable⟩ := hregular
  simp only [execute, Scheduler.charge, hs, Bool.false_eq_true, if_false, bind_eq, run_bind, run_charge,
    World.stream_charge, hanswer]
  cases answer with
  | ok result =>
    obtain ⟨x, b, w', hrun, hrest⟩ := s.recordOutcome_run o (w := w.charged a.charge) (a := a.asStored)
      ⟨hw.undisturbed, hw.still⟩ hdistinct hrows ha hblank hnumber hstorable hfits
    exact ⟨x, b, w', hrun, hrest⟩
  | error e =>
    obtain ⟨x, b, w', hrun, hrest⟩ := s.recordOutcome_run o (a := a.asStored)
      (w := (w.charged a.charge).log ⟨logger, .warning, "Gateway raised — accounting as plugin failure",
        [("attempt_id", .text a.id.text), ("error", .text e.shown)], none⟩)
      ⟨hw.undisturbed, hw.still⟩ hdistinct hrows ha hblank hnumber hstorable hfits
    simp only [hcarriesOn e rfl, Bool.false_eq_true, if_false, run_bind, run_log, World.stream_log]
    exact ⟨x, b, w', hrun, hrest⟩

private theorem execute_run_of_insert (hdistinct : w.store.Distinct) {d : Draft} {a : Attempt} {t : Store}
    (hinsert : w.store.insert d w.now = .ok (a, t)) (hpending : d.state = .pending) {w₁ : World}
    (hw₁ : w₁.bare = ({ w with store := t } : World).bare) (hnumber : 1 ≤ a.number)
    {answer : Except Failure GatewayResult} (hanswer : o (w.charges.length + 1) = answer)
    (hregular : GatewayResult.Regular answer)
    (hfits : s.policy.DateFits (GatewayResult.ofAnswer answer).outcome a.number w.now) :
    ∃ x b w', (s.execute a).run (World.stream o) w₁ = (x, w') ∧
      a.asStored.CompletedAs b ∧ s.policy.Records (GatewayResult.ofAnswer answer) b ∧
      w'.bare = ({ w with
        store := { t with rows := w.store.rows ++ [b] }, charges := a.charge :: w.charges } : World).bare ∧
      ∀ e, x = .error e → ∃ issues, e = .untellable issues := by
  obtain ⟨hstate, hblank, -, hrows⟩ := created_of_insert hinsert hpending
  have hstore : w₁.store = t := World.store_eq_of_bare hw₁
  have hcharges : w₁.charges = w.charges := World.charges_eq_of_bare (w := { w with store := t }) hw₁
  have hnow : w₁.now = w.now := World.now_eq_of_bare (w := { w with store := t }) hw₁
  have hstill : w₁.Still := World.Still.of_bare (w := { w with store := t }) ⟨hw.undisturbed, hw.still⟩ hw₁
  have hrows₁ : w₁.store.rows = w.store.rows ++ [a.asStored] := by
    rw [hstore]
    exact hrows
  obtain ⟨x, b, w', hrun, hcompleted, hrecords, hbare, hx⟩ := s.execute_run o hs hstill
    (by rw [hstore]; exact hdistinct.insert hinsert) hrows₁ hstate hblank hnumber (by rw [hcharges]; exact hanswer)
    hregular (by rw [hnow]; exact hfits)
  refine ⟨x, b, w', hrun, hcompleted, hrecords, ?_, hx⟩
  rw [hbare, hstore, hcharges, World.bare_with hw₁]

theorem submit_run (hdistinct : w.store.Distinct) {p : Submission} {a : Attempt} {t : Store}
    (hinsert : w.store.insert p.draft w.now = .ok (a, t)) {answer : Except Failure GatewayResult}
    (hanswer : o (w.charges.length + 1) = answer) (hregular : GatewayResult.Regular answer)
    (hfits : s.policy.DateFits (GatewayResult.ofAnswer answer).outcome 1 w.now) :
    ∃ x b w', (s.submit p).run (World.stream o) w = (x, w') ∧
      a.asStored.CompletedAs b ∧ s.policy.Records (GatewayResult.ofAnswer answer) b ∧
      w'.bare = ({ w with
        store := { t with rows := w.store.rows ++ [b] }, charges := a.charge :: w.charges } : World).bare := by
  have hfirst : a.number = 1 := (Option.some.inj (created_of_insert hinsert rfl).2.2.1).symm
  simp only [submit, bind_eq, run_bind, run_create, World.stream_create hw o hinsert, run_log, World.stream_log]
  generalize hw₁ : World.log (World.log _ _) _ = w₁
  have hbare₁ : w₁.bare = ({ w with store := t } : World).bare := by
    rw [← hw₁]
    rfl
  obtain ⟨x, b, w', hrun, hcompleted, hrecords, hbare, -⟩ := s.execute_run_of_insert o hs hw hdistinct hinsert rfl
    hbare₁ (by omega) hanswer hregular (by rw [hfirst]; exact hfits)
  rw [hrun]
  cases x with
  | error e => exact ⟨_, b, w', rfl, hcompleted, hrecords, hbare⟩
  | ok decision =>
    simp only
    split
    · exact ⟨_, b, w', rfl, hcompleted, hrecords, hbare⟩
    · exact ⟨_, b, w', rfl, hcompleted, hrecords, hbare⟩

theorem fire_run (hdistinct : w.store.Distinct) {d : DueRetry} {a : Attempt} {t : Store}
    (hinsert : w.store.insert d.attempt.next w.now = .ok (a, t)) (hnumber : 0 ≤ d.attempt.number)
    {answer : Except Failure GatewayResult} (hanswer : o (w.charges.length + 1) = answer)
    (hregular : GatewayResult.Regular answer)
    (hfits : s.policy.DateFits (GatewayResult.ofAnswer answer).outcome (d.attempt.number + 1) w.now) :
    ∃ b w', (s.fire d).run (World.stream o) w = (.ok true, w') ∧
      a.asStored.CompletedAs b ∧ s.policy.Records (GatewayResult.ofAnswer answer) b ∧
      w'.bare = ({ w with
        store := { t with rows := w.store.rows ++ [b] }, charges := a.charge :: w.charges } : World).bare := by
  have hnext : d.attempt.number + 1 = a.number := Option.some.inj (created_of_insert hinsert rfl).2.2.1
  simp only [fire, carryOut, bind_eq, run_bind, run_create, World.stream_create hw o hinsert, run_log,
    World.stream_log]
  generalize hw₁ : World.log (World.log _ _) _ = w₁
  have hbare₁ : w₁.bare = ({ w with store := t } : World).bare := by
    rw [← hw₁]
    rfl
  obtain ⟨x, b, w', hrun, hcompleted, hrecords, hbare, hx⟩ := s.execute_run_of_insert o hs hw hdistinct hinsert rfl
    hbare₁ (by omega) hanswer hregular (by rw [← hnext]; exact hfits)
  rw [hrun]
  cases x with
  | error e =>
    obtain ⟨issues, rfl⟩ := hx e rfl
    simp only [run_bind, run_count, World.stream_count, run_log, World.stream_log, pure_eq, run_done]
    exact ⟨b, _, rfl, hcompleted, hrecords, hbare⟩
  | ok decision =>
    simp only [run_bind, run_count, World.stream_count, pure_eq, run_done]
    exact ⟨b, _, rfl, hcompleted, hrecords, hbare⟩

end

/-! ### Polling -/

section

variable {w : World} (hw : w.Still) (hlimit : Store.limitFits s.batch = true)
  (hpending : ∀ a ∈ w.store.rows, a.state ≠ .pending)

include hw

private theorem poll_run (asOf : Option DateTime) :
    (s.poll asOf).run (World.stream o) w = (s.pollAt (asOf.getD w.now)).sequential.run (World.stream o) w := by
  unfold poll polling
  cases asOf with
  | some t => rfl
  | none =>
    simp only [Task.bind_eq, Task.sequential_bind, Task.sequential_lift, run_bind, run_now, World.stream_now hw,
      Option.getD_none]

include hlimit hpending

private theorem recoverStale_run {asOf horizon : DateTime} (hlease : asOf.sub s.lease = .ok horizon) :
    (s.recoverStale asOf).sequential.run (World.stream o) w = (.ok 0, w) := by
  simp only [recoverStale, hlease, Task.bind_eq, Task.sequential_bind, Task.sequential_lift, run_bind, run_listStale,
    World.stream_listStale hw o hlimit, Store.stalePending_eq_nil hpending, Task.sequential_each, List.map_nil,
    Program.sequence, run_done, collect, Task.pure_eq, Task.sequential_done, List.length_nil]

theorem poll_run_of_nothing {asOf : Option DateTime} {horizon : DateTime}
    (hlease : (asOf.getD w.now).sub s.lease = .ok horizon)
    (hdue : w.store.dueRetries (asOf.getD w.now) s.batch = []) :
    (s.poll asOf).run (World.stream o) w = (.ok 0, { w with counts := w.counts.increment .poll }) := by
  rw [s.poll_run o hw]
  simp only [pollAt, Task.bind_eq, Task.sequential_bind, run_bind, s.recoverStale_run o hw hlimit hpending hlease]
  simp only [fireDue, Task.bind_eq, Task.sequential_bind, run_bind, Task.sequential_lift, run_listDue,
    World.stream_listDue hw o hlimit, hdue, Task.sequential_each, List.map_nil, Program.sequence, run_done, collect,
    Task.pure_eq, Task.sequential_done, List.length_nil, List.count_nil, concludePoll, bind_eq, run_count,
    World.stream_count]
  rw [if_neg (by omega)]
  simp only [pure_eq, run_done]

/-- A poll that finds one retry due makes its attempt and carries it out. -/
theorem poll_run_of_due (hs : s.guarded = false) (hdistinct : w.store.Distinct) {horizon : DateTime}
    (hlease : w.now.sub s.lease = .ok horizon) {d : DueRetry} (hdue : w.store.dueRetries w.now s.batch = [d])
    {a : Attempt} {t : Store} (hinsert : w.store.insert d.attempt.next w.now = .ok (a, t))
    (hnumber : 0 ≤ d.attempt.number) {answer : Except Failure GatewayResult}
    (hanswer : o (w.charges.length + 1) = answer) (hregular : GatewayResult.Regular answer)
    (hfits : s.policy.DateFits (GatewayResult.ofAnswer answer).outcome (d.attempt.number + 1) w.now) :
    ∃ b w', (s.poll none).run (World.stream o) w = (.ok 1, w') ∧
      a.asStored.CompletedAs b ∧ s.policy.Records (GatewayResult.ofAnswer answer) b ∧
      w'.bare = ({ w with
        store := { t with rows := w.store.rows ++ [b] }, charges := a.charge :: w.charges } : World).bare := by
  obtain ⟨b, w', hfire, hcompleted, hrecords, hbare⟩ :=
    s.fire_run o hs hw hdistinct hinsert hnumber hanswer hregular hfits
  rw [s.poll_run o hw, Option.getD_none]
  simp only [pollAt, Task.bind_eq, Task.sequential_bind, run_bind, s.recoverStale_run o hw hlimit hpending hlease]
  simp only [fireDue, Task.bind_eq, Task.sequential_bind, run_bind, Task.sequential_lift, run_listDue,
    World.stream_listDue hw o hlimit, hdue, Task.sequential_each, List.map_cons, List.map_nil, Program.sequence,
    run_done, hfire, collect, Except.map, Task.pure_eq, Task.sequential_done, List.length_singleton, concludePoll,
    bind_eq, run_count, World.stream_count, List.count_singleton_self]
  rw [if_pos (by omega)]
  simp only [run_bind, run_log, World.stream_log, pure_eq, run_done]
  exact ⟨b, _, rfl, hcompleted, hrecords, hbare⟩

end

end Scheduler

end PaymentRetry
