import PaymentRetry.Proofs.Course.Unlogged
import PaymentRetry.Proofs.Workers.Alone
import PaymentRetry.Proofs.Workers.Asking
import PaymentRetry.Simulation.Session

/-!
# Raising and reporting a failure

A gateway may raise a failure, or report a technical one with the same reason.  The scheduler and the circuit breaker
make no difference between the two: whatever is done in a session, the results, the rows, the events, what has been
counted and the circuit breaker are the same, and only the log tells which it was.

Two programs are `Program.Alike` if they end alike and leave the same world but for its log, one with a gateway that
raises, the other with a gateway that may report instead.  A program is `Program.SameWith` if it is alike itself.
`Scheduler.execute` is the only one that hears of the difference, and it makes the report itself
(`Scheduler.sameWith_execute`).
-/

namespace PaymentRetry

open Simulation

/-! ### Gateways -/

/-- Whether the second answer is the first, or reports the failure that the first raises. -/
inductive Reported : Except Failure GatewayResult → Except Failure GatewayResult → Prop
  | same (x : Except Failure GatewayResult) : Reported x x
  | instead {e : Failure} : e.isCancellation = false → Reported (.error e) (.ok ⟨.pluginException, some e.reason⟩)

namespace Simulation.Calling

/-- Whether `h` does the same as `g`, but may report what `g` raises. -/
def ReportsFor (h g : Calling) : Prop :=
  ∀ ⦃w v : World⦄ (c : Charge), w.unlogged = v.unlogged →
    Reported (g w c).1 (h v c).1 ∧ (g w c).2.unlogged = (h v c).2.unlogged

/-- The gateway that reports the failures of `gateway` where `replaced` says so.  That the work is called off is no
failure of the gateway. -/
def reporting (replaced : World → Charge → Bool) (gateway : Calling) : Calling := fun w c =>
  match gateway w c with
  | (.error e, w') =>
    if replaced w.unlogged c && !e.isCancellation then (.ok ⟨.pluginException, some e.reason⟩, w') else (.error e, w')
  | (.ok result, w') => (.ok result, w')

theorem reporting_reportsFor {gateway : Calling} (hignores : ∀ c, World.IgnoresRecords (gateway · c))
    (replaced : World → Charge → Bool) : (gateway.reporting replaced).ReportsFor gateway := by
  intro w v c hwv
  obtain ⟨x, w', v', hw, hv, hworld⟩ := (hignores c).elim hwv
  simp only [reporting, hw, hv]
  cases x with
  | ok result => exact ⟨.same _, hworld⟩
  | error e =>
    simp only
    split
    · rename_i hreplaced
      exact ⟨.instead (by simpa using (Bool.and_eq_true_iff.1 hreplaced).2), hworld⟩
    · exact ⟨.same _, hworld⟩

theorem reporting_all {gateway : Calling} {w : World} {c : Charge} {e : Failure}
    (h : (gateway.reporting (fun _ _ => true) w c).1 = .error e) : e.isCancellation = true := by
  unfold reporting at h
  split at h
  · split at h
    · cases h
    · rename_i hkept
      obtain rfl : _ = e := Except.error.inj h
      simpa using hkept
  · cases h

end Simulation.Calling

/-! ### Programs -/

namespace Program

variable {α β γ δ : Type}

/-- Whether `p` with `g` and `q` with `h` end alike and leave the same world but for its log, in worlds that are the
same but for their logs. -/
def Alike (g h : Calling) (ends : α → β → Prop) (p : Program α) (q : Program β) : Prop :=
  ∀ ⦃w v : World⦄, w.unlogged = v.unlogged →
    ends (p.run (World.answerBy g) w).1 (q.run (World.answerBy h) v).1 ∧
      (p.run (World.answerBy g) w).2.unlogged = (q.run (World.answerBy h) v).2.unlogged

/-- Whether `p` does the same with `g` as with `h`. -/
def SameWith (g h : Calling) (p : Program α) : Prop := p.Alike g h Eq p

variable {g h : Calling} {ends : α → β → Prop} {ends' : γ → δ → Prop}

theorem alike_done {a : α} {b : β} (hends : ends a b) : (done a).Alike g h ends (done b) :=
  fun _ _ hwv => ⟨hends, hwv⟩

theorem sameWith_done (a : α) : (done a).SameWith g h := alike_done rfl

theorem Alike.bind {p : Program α} {q : Program β} {f : α → Program γ} {f' : β → Program δ}
    (hp : p.Alike g h ends q) (hf : ∀ a b, ends a b → (f a).Alike g h ends' (f' b)) :
    (p.bind f).Alike g h ends' (q.bind f') := by
  intro w v hwv
  obtain ⟨hends, hworld⟩ := hp hwv
  rw [run_bind, run_bind]
  exact hf _ _ hends hworld

theorem SameWith.bind {p : Program α} {f : α → Program β} (hp : p.SameWith g h) (hf : ∀ a, (f a).SameWith g h) :
    (p.bind f).SameWith g h := by
  refine Alike.bind hp ?_
  rintro a _ rfl
  exact hf a

theorem sameWith_of_uses {p : Program α} (hp : p.Uses fun r => ∀ c, r ≠ .charge c) : p.SameWith g h := by
  induction p with
  | done a => exact sameWith_done a
  | ask r next ih =>
    intro w v hwv
    -- with neither gateway does the request reach it
    have hanswer : World.answerBy h r v = World.answerBy g r v := by
      cases r
      case charge c => exact absurd rfl (hp.1 c)
      all_goals rfl
    obtain ⟨x, w', v', hw, hv, hworld⟩ := (World.ignoresRecords_answerBy g hp.1).elim hwv
    simp only [run_ask, hanswer, hw, hv]
    exact ih x (hp.2 x) hworld

theorem sameWith_request {r : Request} (hr : ∀ c, r ≠ .charge c) : (request r).SameWith g h :=
  sameWith_of_uses (uses_request hr)

theorem sameWith_log (r : Log.Record) : (Program.log r).SameWith g h := sameWith_request (by simp)

theorem sameWith_count (m : Metric) : (Program.count m).SameWith g h := sameWith_request (by simp)

theorem alike_charge (hgh : h.ReportsFor g) (c : Charge) : (Program.charge c).Alike g h Reported (Program.charge c) :=
  fun _ _ hwv => hgh c hwv

theorem Alike.log_left {p : Program α} {q : Program β} (hp : p.Alike g h ends q) (r : Log.Record) :
    ((Program.log r).bind fun _ => p).Alike g h ends q := by
  intro w v hwv
  have hlogged : (w.log r).unlogged = v.unlogged := hwv
  exact hp hlogged

theorem sameWith_sequence {ps : List (Program α)} (hps : ∀ p ∈ ps, p.SameWith g h) :
    (sequence ps).SameWith g h := by
  induction ps with
  | nil => exact sameWith_done _
  | cons p ps ih =>
    refine (hps p List.mem_cons_self).bind fun a => ?_
    exact (ih fun q hq => hps q (List.mem_cons_of_mem p hq)).bind fun as => sameWith_done _

end Program

namespace Scheduler

open Program

variable {g h : Calling} (s : Scheduler)

theorem sameWith_recordOutcome (key : String) (id : AttemptId) (result : GatewayResult) :
    (s.recordOutcome key id result).SameWith g h := by
  refine sameWith_of_uses ((s.recordOutcome_uncharged key id result).mono fun r hr => ?_)
  rintro c rfl
  exact hr

/-- The circuit breaker is told the same of a failure that is raised and of one that is reported. -/
theorem alike_report {x y : Except Failure GatewayResult} (hxy : Reported x y) :
    (Gateway.report x).Alike g h Eq (Gateway.report y) := by
  cases hxy with
  | same x =>
    unfold Gateway.report
    split
    · split <;> exact sameWith_request (by simp)
    · split
      · exact sameWith_done ()
      · exact sameWith_request (by simp)
  | instead hgoesOn =>
    simp only [Gateway.report, hgoesOn, if_true, Bool.false_eq_true, if_false]
    exact sameWith_request (by simp)

theorem alike_charge (hgh : h.ReportsFor g) (c : Charge) : (s.charge c).Alike g h Reported (s.charge c) := by
  unfold charge
  split
  · refine Alike.bind (sameWith_request (r := .breakerAllows) (by simp)) ?_
    rintro allowed _ rfl
    split
    · refine (Program.alike_charge hgh c).bind fun x y hxy => ?_
      exact (alike_report hxy).bind fun _ _ _ => alike_done hxy
    · refine Alike.bind (sameWith_log _) fun _ _ _ => alike_done (.same _)
  · exact Program.alike_charge hgh c

theorem sameWith_execute (hgh : h.ReportsFor g) (a : Attempt) : (s.execute a).SameWith g h := by
  refine (s.alike_charge hgh a.charge).bind ?_
  rintro x _ (x | hgoesOn)
  · cases x with
    | ok result => exact s.sameWith_recordOutcome _ _ _
    | error e =>
      simp only
      split
      · exact sameWith_done _
      · exact (sameWith_log _).bind fun _ => s.sameWith_recordOutcome _ _ _
  · simp only [hgoesOn, Bool.false_eq_true, if_false]
    exact Alike.log_left (s.sameWith_recordOutcome _ _ _) _

theorem sameWith_submit (hgh : h.ReportsFor g) (p : Submission) : (s.submit p).SameWith g h := by
  refine (sameWith_request (r := .create p.draft) (by simp)).bind fun x => ?_
  split
  · exact sameWith_done _
  · refine (sameWith_log _).bind fun _ => (s.sameWith_execute hgh _).bind fun y => ?_
    split
    · exact sameWith_done _
    · split <;> exact sameWith_done _

theorem sameWith_recover (a : Attempt) : (s.recover a).SameWith g h := by
  refine (sameWith_log _).bind fun _ => (s.sameWith_recordOutcome _ _ _).bind fun x => ?_
  split
  · exact (sameWith_count _).bind fun _ => sameWith_done _
  · exact sameWith_done _
  all_goals exact (sameWith_count _).bind fun _ => (sameWith_log _).bind fun _ => sameWith_done _

theorem sameWith_carryOut (hgh : h.ReportsFor g) (d : DueRetry) (a : Attempt) : (s.carryOut d a).SameWith g h := by
  refine (sameWith_log _).bind fun _ => (s.sameWith_execute hgh a).bind fun x => ?_
  split
  · exact (sameWith_count _).bind fun _ => sameWith_done _
  · exact sameWith_done _
  · exact (sameWith_log _).bind fun _ => (sameWith_count _).bind fun _ => sameWith_done _
  · exact (sameWith_log _).bind fun _ => (sameWith_count _).bind fun _ => sameWith_done _
  · exact (sameWith_count _).bind fun _ => (sameWith_log _).bind fun _ => sameWith_done _

theorem sameWith_fire (hgh : h.ReportsFor g) (d : DueRetry) : (s.fire d).SameWith g h := by
  refine (sameWith_request (r := .create d.attempt.next) (by simp)).bind fun x => ?_
  split
  · exact s.sameWith_carryOut hgh d _
  · exact sameWith_done _
  all_goals exact (sameWith_count _).bind fun _ => (sameWith_log _).bind fun _ => sameWith_done _

theorem sameWith_recoverStale (t : DateTime) : (s.recoverStale t).sequential.SameWith g h := by
  unfold recoverStale
  split
  · exact sameWith_done _
  · rename_i horizon _
    simp only [Task.bind_eq, Task.pure_eq, Task.sequential_bind, Task.sequential_lift]
    refine (sameWith_request (r := .listStale horizon s.batch) (by simp)).bind fun x => ?_
    split
    · exact sameWith_done _
    · simp only [Task.sequential_bind, Task.sequential_each]
      refine (sameWith_sequence ?_).bind fun xs => ?_
      · simp only [List.forall_mem_map]
        exact fun a _ => s.sameWith_recover a
      · split <;> exact sameWith_done _

theorem sameWith_fireDue (hgh : h.ReportsFor g) (t : DateTime) : (s.fireDue t).sequential.SameWith g h := by
  unfold fireDue
  simp only [Task.bind_eq, Task.pure_eq, Task.sequential_bind, Task.sequential_lift]
  refine (sameWith_request (r := .listDue t s.batch) (by simp)).bind fun x => ?_
  split
  · exact sameWith_done _
  · simp only [Task.sequential_bind, Task.sequential_each]
    refine (sameWith_sequence ?_).bind fun xs => ?_
    · simp only [List.forall_mem_map]
      exact fun d _ => s.sameWith_fire hgh d
    · split <;> exact sameWith_done _

theorem sameWith_concludePoll (t : DateTime) (recovered due fired : Nat) :
    (concludePoll t recovered due fired).SameWith g h := by
  refine (sameWith_count _).bind fun _ => ?_
  split
  · exact (sameWith_log _).bind fun _ => sameWith_done _
  · exact sameWith_done _

theorem sameWith_poll (hgh : h.ReportsFor g) (asOf : Option DateTime) : (s.poll asOf).SameWith g h := by
  have hpoll : ∀ t, (s.pollAt t).sequential.SameWith g h := by
    intro t
    simp only [pollAt, Task.bind_eq, Task.pure_eq, Task.sequential_bind]
    refine (s.sameWith_recoverStale t).bind fun x => ?_
    split
    · exact sameWith_done _
    · simp only [Task.sequential_bind]
      refine (s.sameWith_fireDue hgh t).bind fun y => ?_
      split
      · exact sameWith_done _
      · rw [Task.sequential_lift]
        exact sameWith_concludePoll _ _ _ _
  unfold poll polling
  cases asOf with
  | some t => exact hpoll t
  | none =>
    simp only [Task.bind_eq, Task.sequential_bind, Task.sequential_lift]
    exact (sameWith_request (r := .now) (by simp)).bind hpoll

end Scheduler

/-! ### Cycles and requests -/

section

open Program

variable {g h : Calling} (s : Scheduler)

theorem Trigger.sameWith_cycle (hgh : h.ReportsFor g) : (Trigger.cycle s).SameWith g h := by
  refine (s.sameWith_poll hgh none).bind fun x => ?_
  split
  · exact sameWith_done _
  · exact sameWith_done _
  · exact (sameWith_log _).bind fun _ => sameWith_done _

namespace Api

theorem sameWith_showByKey (status : Nat) (key : String) : (showByKey status key).SameWith g h := by
  refine (sameWith_request (r := .history key) (by simp)).bind fun x => ?_
  split <;> exact sameWith_done _

theorem sameWith_submitOrder (hgh : h.ReportsFor g) (identity : String) (o : Order) :
    (submitOrder s identity o).SameWith g h := by
  refine (sameWith_log _).bind fun _ => (s.sameWith_submit hgh _).bind fun x => ?_
  split
  · exact sameWith_showByKey _ _
  · exact sameWith_done _
  · split
    · exact sameWith_done _
    · exact sameWith_showByKey _ _
  · exact sameWith_done _

theorem sameWith_follow (hgh : h.ReportsFor g) (r : Request) (route : Route) : (follow s r route).SameWith g h := by
  cases route with
  | payments =>
    simp only [follow]
    split
    · exact sameWith_done _
    · exact sameWith_submitOrder s hgh _ _
  | payment key =>
    refine (sameWith_request (r := .history key) (by simp)).bind fun x => ?_
    split <;> exact sameWith_done _
  | attempts key =>
    refine (sameWith_request (r := .history key) (by simp)).bind fun x => ?_
    split
    · exact sameWith_done _
    · exact sameWith_done _
    · split <;> exact sameWith_done _
  | metrics => exact sameWith_done _
  | health => exact sameWith_done _
  | manual => exact sameWith_done _

theorem sameWith_handle (hgh : h.ReportsFor g) (r : Request) : (handle s r).SameWith g h := by
  have hdispatch : ∀ t, (dispatch s r t).SameWith g h := by
    intro t
    unfold dispatch
    split
    · split
      · exact sameWith_follow s hgh r _
      · split
        · exact sameWith_follow s hgh r _
        · exact sameWith_done _
    · split <;> exact sameWith_done _
  refine (hdispatch _).bind fun response => ?_
  split
  · exact sameWith_done _
  · split
    · refine ((sameWith_count _).bind fun _ => sameWith_count _).bind fun _ => sameWith_done _
    · exact sameWith_done _

end Api

end

/-! ### Sessions -/

namespace Simulation.Session

variable {g h : Calling} {s z : Session} {α : Type}

/-- Whether `s`, with the gateway `g`, and `z`, with `h`, are the same but for their logs. -/
def Alike (g h : Calling) (s z : Session) : Prop :=
  s.gateway = g ∧ ∃ records, z = { s with gateway := h, world := { s.world with records := records } }

/-- Whether `x` and `y` are the same but for the logs of their sessions. -/
def Matches (g h : Calling) (x y : α × Session) : Prop := x.1 = y.1 ∧ x.2.Alike g h y.2

theorem Alike.with_world (hs : s.Alike g h z) {w v : World} (h' : w.unlogged = v.unlogged) :
    Alike g h { s with world := w } { z with world := v } := by
  obtain ⟨hg, records, rfl⟩ := hs
  exact ⟨hg, v.records, by rw [World.eq_of_unlogged h']⟩

theorem Alike.run (hs : s.Alike g h z) {p : Program α} (hp : p.SameWith g h) : Matches g h (s.run p) (z.run p) := by
  obtain ⟨rfl, records, rfl⟩ := hs
  have hworld : s.world.unlogged = { s.world with records := records }.unlogged := rfl
  obtain ⟨hresult, hworld⟩ := hp hworld
  exact ⟨hresult, Alike.with_world ⟨rfl, records, rfl⟩ hworld⟩

theorem Alike.tell (hs : s.Alike g h z) {p : Program (Except Failure α)} (hp : p.SameWith g h) (f : α → Result) :
    Matches g h (s.tell p f) (z.tell p f) := by
  obtain ⟨hresult, hs⟩ := hs.run hp
  exact ⟨congrArg (·.map f) hresult, hs⟩

theorem Alike.setPoller (hs : s.Alike g h z) (p : Poller) : (s.setPoller p).Alike g h (z.setPoller p) := by
  obtain ⟨hg, records, rfl⟩ := hs
  exact ⟨hg, records, rfl⟩

theorem Alike.startTrigger (hs : s.Alike g h z) (p : Poller) : (s.startTrigger p).Alike g h (z.startTrigger p) := by
  obtain ⟨hg, records, rfl⟩ := hs
  unfold Session.startTrigger
  split <;> exact ⟨hg, _, rfl⟩

theorem Alike.stopTrigger (hs : s.Alike g h z) (p : Poller) :
    Matches g h (s.stopTrigger p) (z.stopTrigger p) := by
  obtain ⟨hg, records, rfl⟩ := hs
  unfold Session.stopTrigger
  split
  · exact ⟨rfl, hg, _, rfl⟩
  · split <;> exact ⟨rfl, hg, _, rfl⟩

theorem Alike.scheduler_eq (hs : s.Alike g h z) (n : Nat) : z.scheduler n = s.scheduler n := by
  obtain ⟨-, records, rfl⟩ := hs
  rfl

theorem Alike.rows_eq (hs : s.Alike g h z) : z.world.store.rows = s.world.store.rows := by
  obtain ⟨-, records, rfl⟩ := hs
  rfl

theorem Alike.cycle (hgh : h.ReportsFor g) (hs : s.Alike g h z) (p : Poller) : Matches g h (s.cycle p) (z.cycle p) := by
  obtain ⟨hdone, hs'⟩ := hs.run (Trigger.sameWith_cycle (s.scheduler p.scheduler) hgh)
  simp only [Session.cycle, hs.scheduler_eq, ← hdone]
  exact ⟨rfl, hs'.setPoller _⟩

theorem Alike.runCycles (hgh : h.ReportsFor g) (fuel : Nat) (hs : s.Alike g h z) (p : Poller) (cycles : Nat) :
    (s.runCycles fuel p cycles).Alike g h (z.runCycles fuel p cycles) := by
  induction fuel generalizing s z p with
  | zero => exact hs
  | succ fuel ih =>
    obtain ⟨hpoller, hs'⟩ := hs.cycle hgh p
    simp only [Session.runCycles, ← hpoller, hs.rows_eq, hs'.rows_eq]
    split
    · split
      · exact ih hs' _
      · exact hs'
    · exact hs

theorem Alike.awaitTrigger (hgh : h.ReportsFor g) (hs : s.Alike g h z) (p : Poller) (cycles : Nat) :
    (s.awaitTrigger p cycles).Alike g h (z.awaitTrigger p cycles) := by
  unfold Session.awaitTrigger
  split
  · exact hs.runCycles hgh _ p cycles
  · split
    · exact (hs.cycle hgh p).2
    · exact hs

theorem Alike.runTrigger (hgh : h.ReportsFor g) (hs : s.Alike g h z) (p : Poller) (asOf : Option DateTime) :
    Matches g h (s.runTrigger p asOf) (z.runTrigger p asOf) := by
  obtain ⟨hfired, hs'⟩ := hs.run ((s.scheduler p.scheduler).sameWith_poll hgh asOf)
  simp only [Session.runTrigger, hs.scheduler_eq, ← hfired]
  exact ⟨rfl, hs'.setPoller _⟩

theorem Alike.moveClock (hs : s.Alike g h z) (span : Except RangeError Duration) :
    Matches g h (s.moveClock span) (z.moveClock span) := by
  obtain ⟨hg, records, rfl⟩ := hs
  unfold Session.moveClock
  simp only
  split <;> exact ⟨rfl, hg, records, rfl⟩

theorem Alike.recordUnder (hs : s.Alike g h z) (on : Nat) (key : Option String) (id : AttemptId)
    (result : GatewayResult) : Matches g h (s.recordUnder on key id result) (z.recordUnder on key id result) := by
  have hfound : z.world.store.find? id = s.world.store.find? id := by
    unfold Store.find?
    rw [hs.rows_eq]
  unfold Session.recordUnder
  rw [hfound, hs.scheduler_eq]
  split
  · exact hs.tell ((s.scheduler on).sameWith_recordOutcome _ _ _) _
  · exact hs.tell ((s.scheduler on).sameWith_recordOutcome _ _ _) _
  · exact ⟨rfl, hs⟩

theorem Alike.runningFlag (hs : s.Alike g h z) (name : String) :
    Matches g h (s.runningFlag name) (z.runningFlag name) := by
  obtain ⟨hg, records, rfl⟩ := hs
  exact ⟨rfl, hg, records, rfl⟩

theorem Alike.withPoller (hs : s.Alike g h z) (name : String) {f f' : Poller → Except Failure Result × Session}
    (hf : ∀ p, Matches g h (f p) (f' p)) : Matches g h (s.withPoller name f) (z.withPoller name f') := by
  have hpoller : z.poller? name = s.poller? name := by
    obtain ⟨-, records, rfl⟩ := hs
    rfl
  unfold Session.withPoller
  rw [hpoller]
  split
  · exact hf _
  · exact ⟨rfl, hs⟩

/-- A step has the same result, unless several schedulers poll at the same time. -/
theorem Alike.perform (hgh : h.ReportsFor g) (hs : s.Alike g h z) {step : Step} (hstep : step ≠ .fireAll) :
    Matches g h (s.perform step) (z.perform step) := by
  have hscheduler := hs.scheduler_eq
  cases step
  case fireAll => exact absurd rfl hstep
  case addSeconds => exact hs.moveClock _
  case addDays => exact hs.moveClock _
  case submit on submission =>
    simp only [Session.perform, hscheduler]
    exact hs.tell ((s.scheduler on).sameWith_submit hgh submission) _
  case attempts key => exact hs.tell (Program.sameWith_request (by simp)) _
  case record on key id result => exact hs.recordUnder on key id result
  case fire on asOf =>
    simp only [Session.perform, hscheduler]
    exact hs.tell ((s.scheduler on).sameWith_poll hgh asOf) _
  case create draft => exact hs.tell (Program.sameWith_request (by simp)) _
  case get id => exact hs.tell (Program.sameWith_request (by simp)) _
  case nextAttempt id => exact hs.tell (Program.sameWith_request (by simp)) _
  case transition id source target change => exact hs.tell (Program.sameWith_request (by simp)) _
  case due asOf limit => exact hs.tell (Program.sameWith_request (by simp)) _
  case stale olderThan limit => exact hs.tell (Program.sameWith_request (by simp)) _
  case breaker =>
    obtain ⟨hg, records, rfl⟩ := hs
    have hworld : s.world.observeBreaker.unlogged = { s.world with records := records }.observeBreaker.unlogged :=
      World.unlogged_observeBreaker rfl
    refine ⟨?_, Alike.with_world ⟨hg, records, rfl⟩ hworld⟩
    simp only [Session.perform]
    rw [World.eq_of_unlogged hworld]
  case startTrigger name => exact hs.withPoller name fun p => (hs.startTrigger p).runningFlag name
  case stopTrigger name => exact hs.withPoller name hs.stopTrigger
  case askTrigger name => exact hs.runningFlag name
  case awaitTrigger name cycles => exact hs.withPoller name fun p => (hs.awaitTrigger hgh p cycles).runningFlag name
  case runTrigger name asOf => exact hs.withPoller name fun p => hs.runTrigger hgh p asOf
  case http on request =>
    simp only [Session.perform, hscheduler]
    obtain ⟨hresponse, hs'⟩ := hs.run (Api.sameWith_handle (s.scheduler on) hgh request)
    exact ⟨congrArg (fun r => Except.ok (Result.response r)) hresponse, hs'⟩
  all_goals
    obtain ⟨hg, records, rfl⟩ := hs
    exact ⟨rfl, hg, records, rfl⟩

/-! ### Steps -/

end Simulation.Session

/-- The answer `a` without its log. -/
def Simulation.Answer.unlogged (a : Answer) : Answer := { a with logs := [] }

namespace Simulation.Session

variable {g h : Calling} {s z : Session}

theorem Alike.answerWith (hs : s.Alike g h z) (tells : Bool) (result : Except Failure Result) :
    (s.answerWith tells result).1.unlogged = (z.answerWith tells result).1.unlogged ∧
      (s.answerWith tells result).2.Alike g h (z.answerWith tells result).2 := by
  obtain ⟨hg, records, rfl⟩ := hs
  cases tells <;> exact ⟨rfl, hg, _, rfl⟩

theorem Alike.step (hgh : h.ReportsFor g) (hs : s.Alike g h z) {step : Step} (hstep : step ≠ .fireAll) :
    (s.step step).1.unlogged = (z.step step).1.unlogged ∧ (s.step step).2.Alike g h (z.step step).2 := by
  obtain ⟨hresult, hs'⟩ := hs.perform hgh hstep
  simp only [Session.step, ← hresult]
  exact hs'.answerWith step.tells _

/-- A step of a session, the gateway that is called in it, and which failures of the gateway are reported instead of
raised. -/
structure Phase where
  step : Step
  gateway : Calling
  /-- The worlds and the charges at which a failure is reported. -/
  replaced : World → Charge → Bool

/-- The phase `p` with its failures reported. -/
def Phase.reporting (p : Phase) : Phase := { p with gateway := p.gateway.reporting p.replaced }

/-- The answers to the steps of a session, and what it comes to. -/
def course : Session → List Phase → List Answer × Session
  | s, [] => ([], s)
  | s, p :: rest =>
    let (answer, s) := { s with gateway := p.gateway }.step p.step
    let (answers, s) := s.course rest
    (answer :: answers, s)

theorem Alike.with_gateway {g' h' : Calling} (hs : s.Alike g h z) :
    Alike g' h' { s with gateway := g' } { z with gateway := h' } := by
  obtain ⟨-, records, rfl⟩ := hs
  exact ⟨rfl, records, rfl⟩

theorem Alike.course {phases : List Phase} (hignores : ∀ p ∈ phases, ∀ c, World.IgnoresRecords (p.gateway · c))
    (hsequential : ∀ p ∈ phases, p.step ≠ .fireAll) (hs : s.Alike g h z) :
    (s.course phases).1.map Answer.unlogged = (z.course (phases.map Phase.reporting)).1.map Answer.unlogged ∧
      ∃ g' h', (s.course phases).2.Alike g' h' (z.course (phases.map Phase.reporting)).2 := by
  induction phases generalizing s z g h with
  | nil => exact ⟨rfl, g, h, hs⟩
  | cons p phases ih =>
    have hreports := Calling.reporting_reportsFor (hignores p List.mem_cons_self) p.replaced
    obtain ⟨hanswer, hs'⟩ := hs.with_gateway.step hreports (hsequential p List.mem_cons_self)
    obtain ⟨hanswers, hend⟩ := ih (fun q hq => hignores q (List.mem_cons_of_mem p hq))
      (fun q hq => hsequential q (List.mem_cons_of_mem p hq)) hs'
    exact ⟨congrArg₂ List.cons hanswer hanswers, hend⟩

/-- Whether the gateway raises its failures or reports those that `phases` names makes no difference to the answers to
the steps, but for the log, nor to the world at the end.  A submission and a poll end as they do with a gateway that
raises nothing but that the work is called off, so no failure of the gateway escapes from them.  The gateway does not
read the log (`hignores`). -/
theorem course_reporting (s : Session) (phases : List Phase)
    (hignores : ∀ p ∈ phases, ∀ c, World.IgnoresRecords (p.gateway · c))
    (hsequential : ∀ p ∈ phases, p.step ≠ .fireAll) :
    let reported := s.course (phases.map Phase.reporting)
    (s.course phases).1.map Answer.unlogged = reported.1.map Answer.unlogged ∧
      (s.course phases).2.world.unlogged = reported.2.world.unlogged ∧
      (s.course phases).2.pollers = reported.2.pollers ∧
      ∀ gateway : Calling, (∀ c, World.IgnoresRecords (gateway · c)) →
        let reporting := gateway.reporting fun _ _ => true
        (∀ w c e, (reporting w c).1 = .error e → e.isCancellation = true) ∧
        ∀ (w : World) (scheduler : Scheduler),
          (∀ submission, ((scheduler.submit submission).run (World.answerBy gateway) w).1 =
            ((scheduler.submit submission).run (World.answerBy reporting) w).1) ∧
          ∀ asOf, ((scheduler.poll asOf).run (World.answerBy gateway) w).1 =
            ((scheduler.poll asOf).run (World.answerBy reporting) w).1 := by
  intro reported
  have hself : s.Alike s.gateway s.gateway s := ⟨rfl, s.world.records, rfl⟩
  obtain ⟨hanswers, g', h', -, records, hend⟩ := hself.course hignores hsequential
  refine ⟨hanswers, ?_, ?_, ?_⟩
  · simp only [reported, hend]
    rfl
  · simp only [reported, hend]
  · intro gateway hgateway reporting
    have hreports : reporting.ReportsFor gateway := Calling.reporting_reportsFor hgateway _
    refine ⟨fun w c e => Calling.reporting_all, fun w scheduler => ⟨fun submission => ?_, fun asOf => ?_⟩⟩
    · exact (scheduler.sameWith_submit hreports submission rfl).1
    · exact (scheduler.sameWith_poll hreports asOf rfl).1

end Simulation.Session

/-! ### Two failures behind a circuit breaker -/

namespace Sample

/-- A session with one scheduler, whose circuit breaker opens after two failures. -/
def guardedSession : Session where
  world := { world with breaker := { threshold := 2, recovery := .whole 60 } }
  schedulers := [{ policy := ⟨[], 3, ⟨0⟩⟩, guarded := true }]

/-- The failures that the gateway raises: one that the scheduler knows from its own store, and one that it does not. -/
def raised : List Simulation.ScriptEntry :=
  [{ act := .raise (.staleState (.named "order") .pending) }, { act := .raise (.raised "RuntimeError" []) }]

/-- A payment is submitted and polled twice.  The first failure of the gateway may be reported. -/
def phases : List Session.Phase :=
  [.script raised, .submit 0 submission, .fire 0 none, .fire 0 none].map fun step =>
    { step := step, gateway := World.charge, replaced := fun w _ => w.charges.isEmpty }

end Sample

/-- The first failure is reported instead of raised, and the second still opens the circuit breaker, which lets no
third call through. -/
theorem course_reporting_of_two_failures :
    let raised := Sample.guardedSession.course Sample.phases
    let reported := Sample.guardedSession.course (Sample.phases.map Session.Phase.reporting)
    raised.1.map Answer.unlogged = reported.1.map Answer.unlogged ∧
      raised.2.world.unlogged = reported.2.world.unlogged ∧
      reported.2.world.store.rows.map (·.state) = [.retried, .retried, .retried] ∧
      reported.2.world.charges.length = 2 ∧ reported.2.world.breaker.state = .opened := by
  have hignores : ∀ p ∈ Sample.phases, ∀ c, World.IgnoresRecords (p.gateway · c) := by
    intro p hp c
    obtain ⟨step, -, rfl⟩ := List.mem_map.1 hp
    exact World.ignoresRecords_charge c
  have hsequential : ∀ p ∈ Sample.phases, p.step ≠ .fireAll := by simp [Sample.phases]
  obtain ⟨hanswers, hworld, -⟩ := Sample.guardedSession.course_reporting Sample.phases hignores hsequential
  refine ⟨hanswers, hworld, ?_, ?_, ?_⟩ <;> decide +kernel

end PaymentRetry
