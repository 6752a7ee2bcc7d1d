import Mathlib.Algebra.Order.Floor.Div
import PaymentRetry.Proofs.Turns.Backlog

/-!
# Polls in batches

A poll whose batch has room for everything does all there is to do; polls with small batches do it piece by piece.  Both
come to the same: as many of the small polls as the longer of the two lists takes leave the same store, have called the
gateway in the same way and order, and have made as many attempts altogether (`Reachable.batching_transparent`).  A poll
after that finds nothing to do.

What is done for a list of attempts and a list of retries is a function of the store and of what surrounds it
(`Scheduler.work`).  A poll does so much of the work as its batch holds (`Scheduler.poll_works`), and the work of one
poll followed by that of the next one is the work of both (`Scheduler.work_append`), since attempts can as well be taken
up before the retries that precede them are made.
-/

namespace PaymentRetry

open Simulation

/-! ### A gateway with a memory -/

/-- Whether `answer` answers as `World.answer` does, but for `gateway`, whose answer depends on the calls it had
before, and for the publisher, which may fail. -/
structure Simulation.World.RepliesBy (gateway : List Charge → Charge → Except Failure GatewayResult)
    (answer : Program.Answering World) : Prop where
  charged : ∀ c w, answer (.charge c) w = (gateway w.charges c, w.charged c)
  published : ∀ c w, (answer (.publish c) w).2 = { w with published := .event c :: w.published } ∧
    ∀ e, (answer (.publish c) w).1 = .error e → e.isCancellation = false
  answered : ∀ r w, (∀ c, r ≠ .charge c) → (∀ c, r ≠ .publish c) → answer r w = w.answer r

theorem Simulation.World.repliesBy_reply (gateway : List Charge → Charge → Except Failure GatewayResult) :
    World.RepliesBy gateway (World.reply gateway) where
  charged _ _ := rfl
  published _ _ := ⟨rfl, by rintro e ⟨⟩⟩
  answered r w hcharge hpublish := by
    cases r
    case charge c => exact absurd rfl (hcharge c)
    case publish c => exact absurd rfl (hpublish c)
    all_goals rfl

namespace Program

variable {answer : Answering World} {gateway : List Charge → Charge → Except Failure GatewayResult}

theorem servesAsWorld_of_repliesBy (h : World.RepliesBy gateway answer) : ServesAsWorld (servedBy answer) where
  answered {r w x w'} hcharge hpublish := by
    unfold servedBy
    rw [h.answered r w hcharge hpublish]
  publishes c w := ⟨_, _, rfl⟩
  published {c w x w'} hx := by
    obtain ⟨hworld, hcarriesOn⟩ := h.published c w
    unfold servedBy at hx
    rw [hx] at hworld hcarriesOn
    exact ⟨hworld, hcarriesOn⟩

/-! ### Programs that leave the store alone -/

/-- Whether the result of `p` depends only on what surrounds the store, and `p` leaves the store and the clock alone. -/
structure IgnoresStore {α : Type} (answer : Answering World) (p : Program α) : Prop where
  same : ∀ {w v : World}, w.around = v.around →
    (p.run answer w).1 = (p.run answer v).1 ∧ (p.run answer w).2.around = (p.run answer v).2.around
  kept : ∀ w : World, (p.run answer w).2.store = w.store ∧ (p.run answer w).2.now = w.now ∧
    (w.Still → (p.run answer w).2.Still)

variable {α β : Type}

theorem ignoresStore_done (a : α) : IgnoresStore answer (done a) := ⟨fun h => ⟨rfl, h⟩, fun _ => ⟨rfl, rfl, id⟩⟩

theorem ignoresStore_bind {p : Program α} {f : α → Program β} (hp : IgnoresStore answer p)
    (hf : ∀ a, IgnoresStore answer (f a)) : IgnoresStore answer (p.bind f) := by
  refine ⟨fun {w v} h => ?_, fun w => ?_⟩
  · obtain ⟨hresult, haround⟩ := hp.same h
    rw [run_bind, run_bind, hresult]
    exact (hf _).same haround
  · obtain ⟨hstore, hnow, hstill⟩ := hp.kept w
    obtain ⟨hstore', hnow', hstill'⟩ := (hf (p.run answer w).1).kept (p.run answer w).2
    rw [run_bind]
    exact ⟨hstore'.trans hstore, hnow'.trans hnow, hstill' ∘ hstill⟩

section

variable (h : World.RepliesBy gateway answer)

include h

theorem ignoresStore_charge (c : Charge) : IgnoresStore answer (charge c) := by
  have hrun : ∀ w, (charge c).run answer w = (gateway w.charges c, w.charged c) := fun w => h.charged c w
  refine ⟨fun {w v} heq => ?_, fun w => ?_⟩
  · rw [hrun, hrun, World.charges_eq_of_around heq]
    exact ⟨rfl, congrArg (World.charged · c) heq⟩
  · rw [hrun]
    exact ⟨rfl, rfl, fun hw => ⟨hw.undisturbed, hw.still⟩⟩

private theorem ignoresStore_request {r : Request} (hcharge : ∀ c, r ≠ .charge c) (hpublish : ∀ c, r ≠ .publish c)
    (hsame : ∀ w : World, (w.answer r).1 = (w.around.answer r).1 ∧
      (w.answer r).2.around = (w.around.answer r).2.around)
    (hkept : ∀ w : World, (w.answer r).2.store = w.store ∧ (w.answer r).2.now = w.now ∧
      (w.Still → (w.answer r).2.Still)) : IgnoresStore answer (request r) := by
  have hrun : ∀ w, (request r).run answer w = w.answer r := fun w => h.answered r w hcharge hpublish
  refine ⟨fun {w v} heq => ?_, fun w => ?_⟩
  · rw [hrun, hrun, (hsame w).1, (hsame w).2, (hsame v).1, (hsame v).2, heq]
    exact ⟨rfl, rfl⟩
  · rw [hrun]
    exact hkept w

theorem ignoresStore_log (r : Log.Record) : IgnoresStore answer (log r) :=
  ignoresStore_request h (by rintro c ⟨⟩) (by rintro c ⟨⟩) (fun _ => ⟨rfl, rfl⟩)
    fun _ => ⟨rfl, rfl, fun hw => ⟨hw.undisturbed, hw.still⟩⟩

theorem ignoresStore_breakerAllows : IgnoresStore answer breakerAllows := by
  refine ignoresStore_request h (r := .breakerAllows) (by rintro c ⟨⟩) (by rintro c ⟨⟩) (fun w => ?_) fun w => ?_
  · have hbreaker : w.around.breaker = w.breaker := rfl
    have hnow : w.around.now = w.now := rfl
    simp only [World.answer, World.observeBreaker, hbreaker, hnow]
    split <;> exact ⟨rfl, rfl⟩
  · simp only [World.answer, World.observeBreaker]
    split <;> exact ⟨rfl, rfl, fun hw => ⟨hw.undisturbed, hw.still⟩⟩

theorem ignoresStore_breakerFailed : IgnoresStore answer breakerFailed := by
  refine ignoresStore_request h (r := .breakerFailed) (by rintro c ⟨⟩) (by rintro c ⟨⟩) (fun w => ?_) fun w => ?_
  · have hbreaker : w.around.breaker = w.breaker := rfl
    simp only [World.answer, World.failBreaker, hbreaker]
    split <;> exact ⟨trivial, rfl⟩
  · simp only [World.answer, World.failBreaker]
    split <;> exact ⟨rfl, rfl, fun hw => ⟨hw.undisturbed, hw.still⟩⟩

theorem ignoresStore_breakerSucceeded : IgnoresStore answer breakerSucceeded :=
  ignoresStore_request h (r := .breakerSucceeded) (by rintro c ⟨⟩) (by rintro c ⟨⟩) (fun _ => ⟨rfl, rfl⟩)
    fun _ => ⟨rfl, rfl, fun hw => ⟨hw.undisturbed, hw.still⟩⟩

end

end Program

/-! ### What is done -/

namespace Scheduler

open Program

variable {s : Scheduler} {answer : Answering World} {gateway : List Charge → Charge → Except Failure GatewayResult}

section

variable (h : World.RepliesBy gateway answer)

include h

/-- What is heard of a charge does not depend on the store. -/
theorem charge_ignoresStore (c : Charge) : IgnoresStore answer (s.charge c) := by
  unfold charge
  split
  · unfold Gateway.guarded
    refine ignoresStore_bind (ignoresStore_breakerAllows h) fun allows => ?_
    split
    · refine ignoresStore_bind (ignoresStore_charge h c) fun x => ignoresStore_bind ?_ fun _ => ignoresStore_done x
      rcases Gateway.report_cases x with hreport | hreport | hreport
      · rw [hreport]
        exact ignoresStore_done ()
      · rw [hreport]
        exact ignoresStore_breakerFailed h
      · rw [hreport]
        exact ignoresStore_breakerSucceeded h
    · exact ignoresStore_bind (ignoresStore_log h _) fun _ => ignoresStore_done _
  · exact ignoresStore_charge h c

theorem charge_carriesOn (hcarriesOn : ∀ calls c e, gateway calls c = .error e → e.isCancellation = false) (c : Charge)
    (w : World) : ∀ e, ((s.charge c).run answer w).1 = .error e → e.isCancellation = false := by
  intro e he
  unfold charge at he
  split at he
  · simp only [Gateway.guarded, bind_eq, run_bind] at he
    split at he
    · simp only [run_bind, run_charge, h.charged] at he
      exact hcarriesOn _ _ _ he
    · simp only [run_bind, pure_eq, run_done] at he
      obtain rfl := Except.error.inj he
      rfl
  · rw [run_charge, h.charged] at he
    exact hcarriesOn _ _ _ he

end

/-- The store, and what surrounds it, once the retry of `d` has been made and carried out at `now`. -/
def retry (s : Scheduler) (answer : Answering World) (now : DateTime) (p : Store × World) (d : DueRetry) :
    Store × World :=
  let heard := (s.charge d.attempt.charge).run answer p.2
  (s.make now heard.1 p.1 d.attempt, heard.2.around)

/-- The store, and what surrounds it, once the attempts `stale` have been taken up at `now` and then the retries `due`
made. -/
def work (s : Scheduler) (answer : Answering World) (now : DateTime) (stale : List Attempt) (due : List DueRetry)
    (p : Store × World) : Store × World :=
  due.foldl (s.retry answer now) (stale.foldl (s.takeUp now) p.1, p.2)

private theorem foldl_takeUp_retry {now : DateTime} {stale : List Attempt} {due : List DueRetry} {t : Store} {u : World}
    (hids : ∀ a ∈ stale, ∃ k ≤ t.attemptsMinted, a.id = .minted k) :
    due.foldl (s.retry answer now) (stale.foldl (s.takeUp now) t, u) =
      (stale.foldl (s.takeUp now) (due.foldl (s.retry answer now) (t, u)).1,
        (due.foldl (s.retry answer now) (t, u)).2) := by
  induction due generalizing t u with
  | nil => rfl
  | cons d due ih =>
    have hnext : s.retry answer now (stale.foldl (s.takeUp now) t, u) d =
        (stale.foldl (s.takeUp now) (s.retry answer now (t, u) d).1, (s.retry answer now (t, u) d).2) :=
      congrArg (·, _) (foldl_takeUp_make hids).symm
    rw [List.foldl_cons, hnext, List.foldl_cons]
    refine ih fun a ha => ?_
    obtain ⟨k, hk, hid⟩ := hids a ha
    exact ⟨k, Nat.le_succ_of_le hk, hid⟩

/-- Work on attempts that were there can be done in two goes. -/
theorem work_append {now : DateTime} {stale stale' : List Attempt} {due due' : List DueRetry} {p : Store × World}
    (hids : ∀ a ∈ stale', ∃ k ≤ p.1.attemptsMinted, a.id = .minted k) :
    s.work answer now (stale ++ stale') (due ++ due') p =
      s.work answer now stale' due' (s.work answer now stale due p) := by
  have hids' : ∀ a ∈ stale', ∃ k ≤ (stale.foldl (s.takeUp now) p.1).attemptsMinted, a.id = .minted k := by
    simpa only [attemptsMinted_foldl_takeUp] using hids
  unfold work
  rw [List.foldl_append, List.foldl_append, foldl_takeUp_retry hids']

/-! ### What a poll does -/

/-- Whether the clock of `w` is at `now`, and its store has the backlog `stale` and `due`. -/
structure HasBacklog (now horizon : DateTime) (stale : List Attempt) (due : List DueRetry) (w : World) : Prop
    extends w.Still where
  timely : w.now = now
  backlog : w.store.Backlog now horizon stale due

theorem HasBacklog.of_around {now horizon : DateTime} {stale : List Attempt} {due : List DueRetry} {w w' : World}
    (hw : HasBacklog now horizon stale due w) (hstore : w'.store = w.store) (haround : w'.around = w.around) :
    HasBacklog now horizon stale due w' :=
  ⟨hw.toStill.of_around haround, (World.now_eq_of_around haround).trans hw.timely, hstore ▸ hw.backlog⟩

theorem Concludes.carriesOn {result : GatewayResult} {t : DateTime} {a : Attempt} {x : Except Failure Decision}
    (hx : s.Concludes result t a x) : ∀ e, x = .error e → e.isCancellation = false := by
  rintro e rfl
  cases hx with
  | untold => rfl
  | unruled => rfl
  | refused _ hmessage => exact Failure.ofTexts?_isCancellation hmessage

private theorem collect_replicate {α : Type} (n : Nat) (a : α) :
    collect (List.replicate n (.ok a)) = .ok (List.replicate n a) := by
  induction n with
  | zero => rfl
  | succ n ih =>
    rw [List.replicate_succ, collect, ih]
    rfl

section

variable (h : World.RepliesBy gateway answer) {now horizon : DateTime} {stale : List Attempt} {due : List DueRetry}
  {w : World} (hdelays : ∀ type index delay, s.policy.delay type index = .ok (some delay) → 0 < delay.micros)

include h hdelays

private theorem recover_works (hdates : ∀ number, s.policy.DateFits .pluginException number now) {a : Attempt}
    (hw : HasBacklog now horizon (a :: stale) due w) :
    (s.recover a).AlwaysEnds (servedBy answer) (fun x w' => x = .ok () ∧ HasBacklog now horizon stale due w' ∧
      w'.store = s.takeUp now w.store a ∧ w'.around = w.around) w := by
  have hserves := servesAsWorld_of_repliesBy h
  obtain ⟨ha, hpending, -⟩ := hw.backlog.of_mem_stale List.mem_cons_self
  have hdone : ∀ w' : World, w'.around = w.around → w'.store = s.takeUp now w.store a →
      HasBacklog now horizon stale due w' := fun w' haround hstore =>
    ⟨hw.toStill.of_around haround, (World.now_eq_of_around haround).trans hw.timely,
      hstore ▸ takeUp_backlog hdelays hdates hw.backlog⟩
  unfold recover
  simp only [bind_eq, alwaysEnds_bind, hserves.alwaysEnds_log]
  refine (recordOutcome_undisturbed hserves (w := w.log _) ⟨hw.undisturbed, hw.still⟩ hw.backlog.sequenced.distinct ha
    hpending).mono fun x w' hx => ?_
  obtain ⟨haround, hstore, hconcludes⟩ := hx
  have hstore : w'.store = s.takeUp now w.store a := by
    rw [hstore, takeUp, ← hw.timely]
    rfl
  cases x with
  | ok d =>
    simp only [alwaysEnds_bind, hserves.alwaysEnds_count]
    exact ⟨rfl, hdone _ haround hstore, hstore, haround⟩
  | error e =>
    have hcarriesOn := hconcludes.carriesOn e rfl
    cases e
    case cancelled arguments => cases hcarriesOn
    all_goals
      simp only [alwaysEnds_bind, hserves.alwaysEnds_count, hserves.alwaysEnds_log]
      exact ⟨rfl, hdone _ haround hstore, hstore, haround⟩

variable (hcarriesOn : ∀ calls c e, gateway calls c = .error e → e.isCancellation = false)

include hcarriesOn

omit hdelays in
/-- An attempt that has been stored is carried out: its row is settled by what is heard of its charge. -/
private theorem execute_works (hw : w.Still) (hdistinct : w.store.Distinct) {b : Attempt}
    (hb : b.asStored ∈ w.store.rows) (hpending : b.state = .pending) :
    (s.execute b).AlwaysEnds (servedBy answer) (fun x w' => (∀ e, x = .error e → e.isCancellation = false) ∧
      w'.Still ∧ w'.now = w.now ∧
      let heard := (s.charge b.charge).run answer w
      w'.store = w.store.put (s.policy.settle (.ofAnswer heard.1) w.now b.asStored) ∧
        w'.around = heard.2.around) w := by
  obtain ⟨hstore, hnow, hstill⟩ := (charge_ignoresStore h (s := s) b.charge).kept w
  have hheard := charge_carriesOn h hcarriesOn (s := s) b.charge w
  generalize hrun : (s.charge b.charge).run answer w = heard at hstore hnow hstill hheard ⊢
  have hcharge : (s.charge b.charge).AlwaysEnds (servedBy answer)
      (fun y w₁ => (y, w₁) = heard ∧ w₁.store = w.store ∧ w₁.Still) w := by
    rw [alwaysEnds_servedBy, hrun]
    exact ⟨rfl, hstore, hstill hw⟩
  refine (execute_undisturbed (servesAsWorld_of_repliesBy h) hdistinct hb hpending hcharge).mono fun x w' hx => ?_
  obtain ⟨y, w₁, rfl, hw₁, ⟨e, hcancelled, rfl, -⟩ | ⟨haround, hput, hconcludes⟩⟩ := hx
  · rw [hheard e rfl] at hcancelled
    cases hcancelled
  · rw [hnow] at hput
    exact ⟨hconcludes.carriesOn, hw₁.of_around haround, (World.now_eq_of_around haround).trans hnow, hput, haround⟩

private theorem fire_works (hlease : horizon < now) {d : DueRetry} (hw : HasBacklog now horizon stale (d :: due) w) :
    (s.fire d).AlwaysEnds (servedBy answer) (fun x w' => x = .ok true ∧ HasBacklog now horizon stale due w' ∧
      (w'.store, w'.around) = s.retry answer now (w.store, w.around) d) w := by
  have hserves := servesAsWorld_of_repliesBy h
  obtain ⟨b, t', hinsert, hrow, hcharge, hsequenced, -, hmem, hput⟩ := s.exists_insert_of_due hw.backlog
  rw [← hw.timely] at hinsert
  unfold fire
  rw [bind_eq, alwaysEnds_bind, hserves.alwaysEnds_create hw.toStill, hinsert]
  unfold carryOut
  simp only [bind_eq, alwaysEnds_bind, hserves.alwaysEnds_log]
  generalize hw₁ : World.log (World.log _ _) _ = w₁
  have haround₁ : w₁.around = w.around := by
    rw [← hw₁]
    rfl
  have hstore₁ : w₁.store = t' := by
    rw [← hw₁]
    rfl
  have hnow₁ : w₁.now = now := (World.now_eq_of_around haround₁).trans hw.timely
  have hpending : b.asStored.state = .pending := by
    rw [hrow]
    rfl
  obtain ⟨hheard, hafter⟩ := (charge_ignoresStore h (s := s) d.attempt.charge).same (v := w.around) haround₁
  refine (execute_works h hcarriesOn (s := s) (hw.toStill.of_around haround₁) (hstore₁ ▸ hsequenced.distinct)
    (b := b) (hstore₁ ▸ hmem) hpending).mono fun x w' hx => ?_
  obtain ⟨hx, hstill, hnow, hstore, haround⟩ := hx
  rw [hstore₁, hnow₁, hcharge, hput, hheard] at hstore
  rw [hcharge, hafter] at haround
  have hbacklog : HasBacklog now horizon stale due w' :=
    ⟨hstill, hnow.trans hnow₁, hstore ▸ make_backlog hdelays hlease hw.backlog _⟩
  have hdone : ∀ w'' : World, w''.store = w'.store → w''.around = w'.around →
      HasBacklog now horizon stale due w'' ∧ (w''.store, w''.around) = s.retry answer now (w.store, w.around) d := by
    intro w'' hstore'' haround''
    refine ⟨hbacklog.of_around hstore'' haround'', ?_⟩
    rw [hstore'', haround'']
    exact Prod.ext hstore haround
  cases x with
  | ok decision =>
    simp only [alwaysEnds_bind, hserves.alwaysEnds_count]
    exact ⟨rfl, hdone _ rfl rfl⟩
  | error e =>
    have hnot := hx e rfl
    cases e
    case cancelled arguments => cases hnot
    all_goals
      simp only [alwaysEnds_bind, hserves.alwaysEnds_count, hserves.alwaysEnds_log]
      exact ⟨rfl, hdone _ rfl rfl⟩

variable (hdates : ∀ number, s.policy.DateFits .pluginException number now)
  (hhorizon : now.sub s.lease = .ok horizon) (hlimit : Store.limitFits s.batch = true)

include hdates hhorizon hlimit

omit hcarriesOn in
private theorem recoverStale_works {stale' : List Attempt} (hstale : Store.limited s.batch (stale ++ stale') = stale)
    (hw : HasBacklog now horizon (stale ++ stale') due w) :
    (s.recoverStale now).sequential.AlwaysEnds (servedBy answer)
      (fun x w' => x = .ok stale.length ∧ HasBacklog now horizon stale' due w' ∧
        w'.store = stale.foldl (s.takeUp now) w.store ∧ w'.around = w.around) w := by
  have hserves := servesAsWorld_of_repliesBy h
  have hlisted : w.store.stalePending horizon s.batch = stale := by
    rw [← hstale, ← hw.backlog.stale_eq]
    rfl
  have hrecovers := alwaysEnds_sequence (f := s.recover) (a := .ok ())
    (fun xs v => HasBacklog now horizon (xs ++ stale') due v ∧
      xs.foldl (s.takeUp now) v.store = stale.foldl (s.takeUp now) w.store ∧ v.around = w.around)
    (fun a xs v hv => (recover_works h hdelays hdates hv.1).mono fun x v' hx => by
      obtain ⟨rfl, hbacklog, hstore, haround⟩ := hx
      refine ⟨rfl, hbacklog, ?_, haround.trans hv.2.2⟩
      rw [hstore]
      exact hv.2.1) ⟨hw, rfl, rfl⟩
  simp only [recoverStale, hhorizon, Task.bind_eq, Task.sequential_bind, Task.sequential_lift, alwaysEnds_bind]
  rw [hserves.alwaysEnds_listStale hw.toStill hlimit, hlisted]
  simp only [Task.sequential_bind, Task.sequential_each, alwaysEnds_bind]
  refine hrecovers.mono fun xs v hxs => ?_
  obtain ⟨rfl, hbacklog, hstore, haround⟩ := hxs
  rw [collect_replicate]
  exact ⟨rfl, hbacklog, hstore, haround⟩

omit hdates hhorizon in
private theorem fireDue_works (hlease : horizon < now) {due' : List DueRetry}
    (hdue : Store.limited s.batch (due ++ due') = due) (hw : HasBacklog now horizon stale (due ++ due') w) :
    (s.fireDue now).sequential.AlwaysEnds (servedBy answer) (fun x w' => x = .ok (due.length, due.length) ∧
      HasBacklog now horizon stale due' w' ∧
      (w'.store, w'.around) = due.foldl (s.retry answer now) (w.store, w.around)) w := by
  have hserves := servesAsWorld_of_repliesBy h
  have hlisted : w.store.dueRetries now s.batch = due := by
    rw [← hdue, ← hw.backlog.due_eq]
    rfl
  have hfires := alwaysEnds_sequence (f := s.fire) (a := .ok true)
    (fun ds v => HasBacklog now horizon stale (ds ++ due') v ∧
      ds.foldl (s.retry answer now) (v.store, v.around) = due.foldl (s.retry answer now) (w.store, w.around))
    (fun d ds v hv => (fire_works h hdelays hcarriesOn hlease hv.1).mono fun x v' hx => by
      obtain ⟨rfl, hbacklog, hretry⟩ := hx
      refine ⟨rfl, hbacklog, ?_⟩
      rw [hretry]
      exact hv.2) ⟨hw, rfl⟩
  simp only [fireDue, Task.bind_eq, Task.sequential_bind, Task.sequential_lift, alwaysEnds_bind]
  rw [hserves.alwaysEnds_listDue hw.toStill hlimit, hlisted]
  simp only [Task.sequential_bind, Task.sequential_each, alwaysEnds_bind]
  refine hfires.mono fun xs v hxs => ?_
  obtain ⟨rfl, hbacklog, hretry⟩ := hxs
  rw [collect_replicate]
  refine ⟨?_, hbacklog, hretry⟩
  simp only [List.count_replicate_self]

/-- A poll does the part of the backlog for which its batch has room, and leaves the rest. -/
theorem poll_works (hlease : horizon < now) {stale' : List Attempt} {due' : List DueRetry}
    (hstale : Store.limited s.batch (stale ++ stale') = stale) (hdue : Store.limited s.batch (due ++ due') = due)
    (hw : HasBacklog now horizon (stale ++ stale') (due ++ due') w) :
    (s.poll none).AlwaysEnds (servedBy answer) (fun x w' => x = .ok due.length ∧ HasBacklog now horizon stale' due' w' ∧
      (w'.store, w'.around) = s.work answer now stale due (w.store, w.around)) w := by
  have hserves := servesAsWorld_of_repliesBy h
  simp only [poll, polling, Task.bind_eq, Task.sequential_bind, Task.sequential_lift, alwaysEnds_bind]
  rw [hserves.alwaysEnds_now hw.toStill, hw.timely]
  simp only [pollAt, Task.bind_eq, Task.sequential_bind, alwaysEnds_bind]
  refine (recoverStale_works h hdelays hdates hhorizon hlimit hstale hw).mono fun x w₁ hx => ?_
  obtain ⟨rfl, hw₁, hstore₁, haround₁⟩ := hx
  simp only [Task.sequential_bind, alwaysEnds_bind]
  refine (fireDue_works h hdelays hcarriesOn hlimit hlease hdue hw₁).mono fun x w₂ hx => ?_
  obtain ⟨rfl, hw₂, hretry⟩ := hx
  rw [hstore₁, haround₁] at hretry
  simp only [Task.sequential_lift, concludePoll, bind_eq, alwaysEnds_bind, hserves.alwaysEnds_count]
  split
  · rw [alwaysEnds_bind, hserves.alwaysEnds_log]
    exact ⟨rfl, hw₂.of_around rfl rfl, hretry⟩
  · exact ⟨rfl, hw₂.of_around rfl rfl, hretry⟩

omit hdelays hcarriesOn hdates in
theorem poll_idles (hw : HasBacklog now horizon [] [] w) :
    (s.poll none).AlwaysEnds (servedBy answer) (fun x w' => x = .ok 0 ∧ w.Unmoved w') w := by
  have hserves := servesAsWorld_of_repliesBy h
  have hstale : w.store.stalePending horizon s.batch = [] :=
    List.prefix_nil.1 (hw.backlog.stale_eq ▸ Store.limited_isPrefix s.batch (w.store.stalePending horizon none))
  have hdue : w.store.dueRetries now s.batch = [] :=
    List.prefix_nil.1 (hw.backlog.due_eq ▸ Store.limited_isPrefix s.batch (w.store.dueRetries now none))
  simp only [poll, polling, Task.bind_eq, Task.sequential_bind, Task.sequential_lift, alwaysEnds_bind]
  rw [hserves.alwaysEnds_now hw.toStill, hw.timely]
  simp only [pollAt, recoverStale, hhorizon, Task.bind_eq, Task.sequential_bind, Task.sequential_lift, alwaysEnds_bind]
  rw [hserves.alwaysEnds_listStale hw.toStill hlimit, hstale]
  simp only [Task.sequential_bind, Task.sequential_each, List.map_nil, Program.sequence, alwaysEnds_bind,
    alwaysEnds_done, collect, Task.pure_eq, Task.sequential_done]
  simp only [fireDue, Task.bind_eq, Task.sequential_bind, Task.sequential_lift, alwaysEnds_bind]
  rw [hserves.alwaysEnds_listDue hw.toStill hlimit, hdue]
  simp only [Task.sequential_bind, Task.sequential_each, List.map_nil, Program.sequence, alwaysEnds_bind,
    alwaysEnds_done, collect, Task.pure_eq, Task.sequential_done, Task.sequential_lift, concludePoll, bind_eq,
    hserves.alwaysEnds_count]
  exact ⟨rfl, rfl, rfl, rfl, rfl⟩

omit hlimit in
/-- `n` polls with a batch, one after the other, do so much of the backlog as their batches hold together. -/
theorem polls_work (hlease : horizon < now) {b : Nat} (hbatch : s.batch = some (b : Int))
    (hlimit : Store.limitFits s.batch = true) (n : Nat) (hw : HasBacklog now horizon stale due w) :
    (Program.sequence (List.replicate n (s.poll none))).AlwaysEnds (servedBy answer) (fun xs w' =>
      (∃ counts : List Nat, xs = counts.map .ok ∧ counts.sum = (due.take (n * b)).length) ∧
        HasBacklog now horizon (stale.drop (n * b)) (due.drop (n * b)) w' ∧
        (w'.store, w'.around) =
          s.work answer now (stale.take (n * b)) (due.take (n * b)) (w.store, w.around)) w := by
  have hlimited : ∀ {α : Type} (xs : List α), Store.limited s.batch (xs.take b ++ xs.drop b) = xs.take b := by
    intro α xs
    rw [hbatch, List.take_append_drop]
    simp [Store.limited]
  induction n generalizing w stale due with
  | zero => exact ⟨⟨[], rfl, by simp⟩, by simpa using hw, by simp [work]⟩
  | succ n ih =>
    have hids : ∀ a ∈ (stale.drop b).take (n * b), ∃ k ≤ w.store.attemptsMinted, a.id = .minted k := fun a ha =>
      hw.backlog.coherent.minted a (hw.backlog.of_mem_stale (List.mem_of_mem_drop (List.mem_of_mem_take ha))).1
    have hfirst := poll_works h hdelays hcarriesOn hdates hhorizon hlimit hlease (hlimited stale) (hlimited due)
      (by rwa [List.take_append_drop, List.take_append_drop])
    rw [List.replicate_succ, Program.sequence, alwaysEnds_bind]
    refine hfirst.mono fun x w₁ hx => ?_
    obtain ⟨rfl, hw₁, hwork₁⟩ := hx
    rw [alwaysEnds_bind]
    refine (ih hw₁).mono fun xs w₂ hxs => ?_
    obtain ⟨⟨counts, rfl, hsum⟩, hw₂, hwork₂⟩ := hxs
    have htimes : (n + 1) * b = b + n * b := by rw [Nat.succ_mul, Nat.add_comm]
    rw [alwaysEnds_done, htimes, List.take_add, List.take_add, ← List.drop_drop, ← List.drop_drop]
    refine ⟨⟨(due.take b).length :: counts, rfl, ?_⟩, hw₂, ?_⟩
    · rw [List.sum_cons, hsum, List.length_append]
    · rw [hwork₂, hwork₁, work_append hids]

end

end Scheduler

/-- Let no two keys share a payment and let the clock stand still.  The batch size `b` is less than `2 ^ 63`
(`hlimit`), and the numbers of the next attempts fit the store (`hfits`).  If `n` polls with batches of `b` hold both
lists of what there is to do, they come to the same as one poll without a limit: the same store, the same calls of the
gateway in the same order, and the same circuit breaker; the attempts they have made add up to the number of retries
that were due.  A further poll changes nothing.  The gateway may answer in view of the calls it has had. -/
theorem Reachable.batching_transparent {w : World} {σ : System} (hw : w.Unused) (h : Reachable w σ)
    (hstill : σ.world.Still) (hapart : σ.world.store.Apart) (s : Scheduler)
    {gateway : List Charge → Charge → Except Failure GatewayResult} {answer : Program.Answering World}
    (hreplies : World.RepliesBy gateway answer)
    (hcarriesOn : ∀ calls c e, gateway calls c = .error e → e.isCancellation = false) (hlease : 0 < s.lease.micros)
    {horizon : DateTime} (hhorizon : σ.world.now.sub s.lease = .ok horizon)
    (hdelays : ∀ type index delay, s.policy.delay type index = .ok (some delay) → 0 < delay.micros)
    (hdates : ∀ number, s.policy.DateFits .pluginException number σ.world.now)
    (hfits : ∀ d ∈ σ.world.store.dueRetries σ.world.now none, Store.fits (d.attempt.number + 1) = true)
    {b n : Nat} (hb : 1 ≤ b) (hlimit : Store.limitFits (some (b : Int)) = true)
    (hn : max ((σ.world.store.stalePending horizon none).length ⌈/⌉ b)
      ((σ.world.store.dueRetries σ.world.now none).length ⌈/⌉ b) ≤ n) :
    let full := ({ s with batch := none }.poll none).run answer σ.world
    let small := (Program.sequence (List.replicate n ({ s with batch := some (b : Int) }.poll none))).run answer σ.world
    full.1 = .ok (σ.world.store.dueRetries σ.world.now none).length ∧
      (∃ counts : List Nat, small.1 = counts.map .ok ∧
        counts.sum = (σ.world.store.dueRetries σ.world.now none).length) ∧
      small.2.store = full.2.store ∧ small.2.charges = full.2.charges ∧ small.2.breaker = full.2.breaker ∧
      ∀ batch, Store.limitFits batch = true →
        let further := ({ s with batch := batch }.poll none).run answer small.2
        further.1 = .ok 0 ∧ small.2.Unmoved further.2 := by
  have hsequenced := (h.log_sound hw).sequenced
  generalize hstale : σ.world.store.stalePending horizon none = stale at hn
  generalize hdue : σ.world.store.dueRetries σ.world.now none = due at hn hfits ⊢
  have hbacklog : Scheduler.HasBacklog σ.world.now horizon stale due σ.world :=
    ⟨hstill, rfl, hsequenced, h.coherent hw, hapart, hstale, hdue, hfits⟩
  have hbefore : horizon < σ.world.now := by
    have hmicros := DateTime.micros_of_sub hhorizon
    show horizon.micros < σ.world.now.micros
    omega
  have hlong : stale.length ≤ n * b ∧ due.length ≤ n * b := by
    rw [max_le_iff, ceilDiv_le_iff_le_mul hb, ceilDiv_le_iff_le_mul hb, Nat.mul_comm b n] at hn
    exact hn
  have hfull := Program.alwaysEnds_servedBy.1 (Scheduler.poll_works hreplies (s := { s with batch := none }) hdelays
    hcarriesOn hdates hhorizon rfl hbefore (List.append_nil stale) (List.append_nil due) (by simpa using hbacklog))
  have hsmall := Program.alwaysEnds_servedBy.1 (Scheduler.polls_work hreplies (s := { s with batch := some (b : Int) })
    hdelays hcarriesOn hdates hhorizon hbefore rfl hlimit n hbacklog)
  rw [List.take_of_length_le hlong.1, List.take_of_length_le hlong.2, List.drop_of_length_le hlong.1,
    List.drop_of_length_le hlong.2] at hsmall
  obtain ⟨hcounts, hidle, hsmall⟩ := hsmall
  obtain ⟨hcount, -, hfull⟩ := hfull
  have hsame := Prod.mk.inj (hsmall.trans hfull.symm)
  refine ⟨hcount, hcounts, hsame.1, World.charges_eq_of_around hsame.2, World.breaker_eq_of_around hsame.2,
    fun batch hbatch => ?_⟩
  exact Program.alwaysEnds_servedBy.1
    (Scheduler.poll_idles hreplies (s := { s with batch := batch }) hhorizon hbatch hidle)

/-! ### Two retries and an attempt that was left behind -/

namespace Sample

/-- The world a day after two payments have been declined and the submission of a third one has been called off. -/
def piledUp : World :=
  { ((daily.task (.submit { submission with key := some "third" })).sequential.run
      (World.reply fun _ _ => .error (.cancelled [])) (submitting "second" (submitting "first" world))).2 with
    now := dayAfter }

theorem reachable_piledUp : ∃ σ, Reachable world σ ∧ σ.world = piledUp := by
  obtain ⟨_, hfirst, -⟩ := Reachable.refl.alone (fun _ _ => .ok ⟨.businessFailure, none⟩) (w := world) (k := 0) rfl
    daily (.submit { submission with key := some "first" })
  obtain ⟨_, hsecond, -⟩ := hfirst.alone (fun _ _ => .ok ⟨.businessFailure, none⟩) (k := 1) rfl daily
    (.submit { submission with key := some "second" })
  obtain ⟨_, hthird, -⟩ := hsecond.alone (fun _ _ => .error (.cancelled [])) (k := 2) rfl daily
    (.submit { submission with key := some "third" })
  exact ⟨_, hthird.step (.clock dayAfter), by rw [piledUp, submitting, submitting]⟩

/-- A gateway that declines the fourth charge and accepts all others. -/
def declinesFourth (called : List Charge) (_ : Charge) : Except Failure GatewayResult :=
  .ok ⟨if called.length = 3 then .businessFailure else .success, none⟩

end Sample

/-- An attempt is to be taken up and two retries are to be made: two polls with a batch of one do so, behind a circuit
breaker. -/
theorem batching_transparent_of_piledUp : ∃ σ, Reachable Sample.world σ ∧
    (σ.world.store.stalePending Sample.dayEarlier none).length = 1 ∧
    (σ.world.store.dueRetries σ.world.now none).length = 2 ∧
    let s : Scheduler := { Sample.daily with guarded := true }
    let full := (s.poll none).run (World.reply Sample.declinesFourth) σ.world
    let small := (Program.sequence (List.replicate 2 ({ s with batch := some 1 }.poll none))).run
      (World.reply Sample.declinesFourth) σ.world
    full.1 = .ok 2 ∧ small.2.store = full.2.store ∧ small.2.charges = full.2.charges := by
  obtain ⟨σ, h, hworld⟩ := Sample.reachable_piledUp
  have hstill : σ.world.Still := by
    rw [hworld]
    exact ⟨by decide +kernel, by decide +kernel⟩
  have hapart : σ.world.store.Apart := by
    unfold Store.Apart
    rw [hworld]
    decide +kernel
  have hhorizon : σ.world.now.sub Sample.daily.lease = .ok Sample.dayEarlier := by
    rw [hworld]
    decide +kernel
  have hfits : ∀ a ∈ σ.world.store.rows, Store.fits (a.number + 1) = true := by
    rw [hworld]
    decide +kernel
  have hstale : (σ.world.store.stalePending Sample.dayEarlier none).length = 1 := by
    rw [hworld]
    refine (List.length_mergeSort _).trans ?_
    decide +kernel
  have hdue : (σ.world.store.dueRetries σ.world.now none).length = 2 := by
    rw [hworld]
    refine (List.length_mergeSort _).trans ?_
    decide +kernel
  have hdates : ∀ number, Sample.daily.policy.DateFits .pluginException number σ.world.now := by
    rw [hworld]
    exact RetryPolicy.dateFits_of_build rfl (by decide +kernel) (by decide +kernel) .pluginException
  obtain ⟨hcount, -, hstore, hcharges, -⟩ := h.batching_transparent ⟨rfl, rfl⟩ hstill hapart
    { Sample.daily with guarded := true } (World.repliesBy_reply Sample.declinesFourth) (by rintro calls c e ⟨⟩)
    (by decide) hhorizon Sample.narrow_delays hdates (fun d hd => hfits _ (Store.mem_dueRetries hd).1) (b := 1) (n := 2)
    (Nat.le_refl 1) rfl (by rw [hstale, hdue]; decide)
  rw [hdue] at hcount
  exact ⟨σ, h, hstale, hdue, hcount, hstore, hcharges⟩

end PaymentRetry
