import PaymentRetry.Proofs.Workers.Exchange
import PaymentRetry.Scheduler

/-!
# The answers of a still world

A world is still if its store is not disturbed and its clock moves only when it is told to.  What such a world answers
is known exactly: this is said request by request, for a gateway that gives the answers of a stream, one at each call
(`World.stream`).

What is counted, logged and announced has no bearing on any answer; `World.bare` is a world without it.
-/

namespace PaymentRetry

open Simulation

theorem DateTime.ofMicros?_micros (t : DateTime) : DateTime.ofMicros? t.micros = some t := by
  obtain ⟨micros, hmicros⟩ := t
  have hin : 0 ≤ (micros : Int) ∧ (micros : Int) < (calendarDays * Duration.day : Nat) := by omega
  unfold ofMicros?
  rw [dif_pos hin]
  rfl

theorem DateTime.micros_of_add {t u : DateTime} {d : Duration} (h : t.add d = .ok u) :
    (u.micros : Int) = t.micros + d.micros := by
  unfold add ofMicros? at h
  split at h
  · rename_i heq
    split at heq
    · obtain rfl := Option.some.inj heq
      obtain rfl := Except.ok.inj h
      simp only
      omega
    · cases heq
  · cases h

theorem DateTime.micros_of_sub {t u : DateTime} {d : Duration} (h : t.sub d = .ok u) :
    (u.micros : Int) = t.micros - d.micros := micros_of_add h

/-! ### Single requests -/

namespace Program

variable {σ : Type} (answer : Answering σ) (s : σ)

@[simp]
theorem run_now : now.run answer s = answer .now s := rfl

@[simp]
theorem run_create (d : Draft) : (create d).run answer s = answer (.create d) s := rfl

@[simp]
theorem run_get (id : AttemptId) : (get id).run answer s = answer (.get id) s := rfl

@[simp]
theorem run_transition (id : AttemptId) (source target : AttemptState) (change : Change) :
    (transition id source target change).run answer s = answer (.transition id source target change) s := rfl

@[simp]
theorem run_listDue (asOf : DateTime) (limit : Option Int) :
    (listDue asOf limit).run answer s = answer (.listDue asOf limit) s := rfl

@[simp]
theorem run_listStale (olderThan : DateTime) (limit : Option Int) :
    (listStale olderThan limit).run answer s = answer (.listStale olderThan limit) s := rfl

@[simp]
theorem run_charge (c : Charge) : (charge c).run answer s = answer (.charge c) s := rfl

@[simp]
theorem run_publish (c : Completion) : (publish c).run answer s = answer (.publish c) s := rfl

@[simp]
theorem run_count (m : Metric) : (count m).run answer s = answer (.count m) s := rfl

@[simp]
theorem run_log (r : Log.Record) : (log r).run answer s = answer (.log r) s := rfl

end Program

/-! ### Still worlds -/

namespace Simulation.World

/-- Whether no faults wait for the store of `w`, and its clock moves only when it is told to. -/
structure Still (w : World) : Prop where
  undisturbed : w.faults = []
  still : w.tick = 0

/-- The world `w` without what was counted, logged and announced. -/
def bare (w : World) : World := { w with counts := [], records := [], published := [] }

/-- The answers of a world whose gateway answers the `n`-th call by `o n`. -/
def stream (o : Nat → Except Failure GatewayResult) : Program.Answering World :=
  reply fun called _ => o (called.length + 1)

/-! ### What does not matter -/

section

variable {w w' : World}

@[simp]
theorem bare_published (w : World) (published : List Publication) :
    ({ w with published := published } : World).bare = w.bare := rfl

theorem store_eq_of_bare (h : w'.bare = w.bare) : w'.store = w.store := by
  show w'.bare.store = w.bare.store
  rw [h]

theorem charges_eq_of_bare (h : w'.bare = w.bare) : w'.charges = w.charges := by
  show w'.bare.charges = w.bare.charges
  rw [h]

theorem now_eq_of_bare (h : w'.bare = w.bare) : w'.now = w.now := by
  show w'.bare.now = w.bare.now
  rw [h]

theorem Still.of_bare (hw : w.Still) (h : w'.bare = w.bare) : w'.Still :=
  ⟨(congrArg faults h).trans hw.undisturbed, (congrArg tick h).trans hw.still⟩

theorem bare_with (h : w'.bare = w.bare) (s : Store) (called : List Charge) :
    ({ w' with store := s, charges := called } : World).bare =
      ({ w with store := s, charges := called } : World).bare :=
  congrArg (fun v : World => ({ v with store := s, charges := called } : World)) h

end

/-! ### Answers -/

section

variable {w : World} (hw : w.Still) (o : Nat → Except Failure GatewayResult)

@[simp]
theorem stream_log (r : Log.Record) : stream o (.log r) w = ((), w.log r) := rfl

@[simp]
theorem stream_count (m : Metric) : stream o (.count m) w = ((), { w with counts := w.counts.increment m }) := rfl

@[simp]
theorem stream_publish (c : Completion) :
    stream o (.publish c) w = (.ok (), { w with published := .event c :: w.published }) := rfl

@[simp]
theorem stream_charge (c : Charge) : stream o (.charge c) w = (o (w.charges.length + 1), w.charged c) := rfl

include hw

theorem readClock_of_still : w.readClock = (w.now, w) := by
  obtain ⟨-, hstill⟩ := hw
  cases w
  simp only at hstill
  subst hstill
  simp only [readClock, Int.natCast_zero, Int.add_zero, DateTime.ofMicros?_micros, Option.getD_some]

theorem reply_now (gateway : List Charge → Charge → Except Failure GatewayResult) :
    reply gateway .now w = (w.now, w) := readClock_of_still hw

theorem stream_now : stream o .now w = (w.now, w) := reply_now hw _

theorem stream_create {d : Draft} {a : Attempt} {s : Store} (h : w.store.insert d w.now = .ok (a, s)) :
    stream o (.create d) w = (.ok a, { w with store := s }.log (createdRecord a)) := by
  show w.create d = _
  rw [create_of_undisturbed hw.undisturbed, storeDraft, readClock_of_still hw]
  simp only [h]

theorem stream_get {id : AttemptId} {a : Attempt} (h : w.store.find? id = some a) :
    stream o (.get id) w = (.ok a, w) := by
  show w.get id = _
  rw [get_of_undisturbed hw.undisturbed, h]
  rfl

theorem stream_transition {id : AttemptId} {source target : AttemptState} {change : Change} {s : Store} {a : Attempt}
    (hmessage : Failure.ofTexts? change.message.join.toList = none)
    (hmove : w.store.move? id source target change w.now = some s) (hfind : s.find? id = some a) :
    stream o (.transition id source target change) w = (.ok a, { w with store := s }) := by
  show w.transition id source target change = _
  rw [transition_of_undisturbed hw.undisturbed, move, readClock_of_still hw]
  simp only [hmessage, hmove, get_of_undisturbed (w := { w with store := s }) hw.undisturbed, hfind]
  rfl

theorem stream_listDue {asOf : DateTime} {limit : Option Int} (hlimit : Store.limitFits limit = true) :
    stream o (.listDue asOf limit) w = (.ok (w.store.dueRetries asOf limit), w) := by
  show w.list .listDue limit (·.dueRetries asOf limit) = _
  rw [list_of_undisturbed hw.undisturbed, if_pos hlimit]

theorem stream_listStale {olderThan : DateTime} {limit : Option Int} (hlimit : Store.limitFits limit = true) :
    stream o (.listStale olderThan limit) w = (.ok (w.store.stalePending olderThan limit), w) := by
  show w.list .listStale limit (·.stalePending olderThan limit) = _
  rw [list_of_undisturbed hw.undisturbed, if_pos hlimit]

/-- A still world stays still, and its clock where it is, whatever it is asked but for a call of the gateway. -/
theorem Still.reply (gateway : List Charge → Charge → Except Failure GatewayResult) {r : Request}
    (hr : ∀ c, r ≠ .charge c) : (reply gateway r w).2.Still ∧ (reply gateway r w).2.now = w.now := by
  have hread := readClock_of_still hw
  obtain ⟨hundisturbed, hstill⟩ := hw
  cases r
  case charge c => exact absurd rfl (hr c)
  case create d =>
    simp only [World.reply, answer, create_of_undisturbed hundisturbed, storeDraft, hread]
    split <;> exact ⟨⟨hundisturbed, hstill⟩, rfl⟩
  case get id =>
    simp only [World.reply, answer, get_of_undisturbed hundisturbed]
    exact ⟨⟨hundisturbed, hstill⟩, trivial⟩
  case transition id source target change =>
    simp only [World.reply, answer, transition_of_undisturbed hundisturbed, move, hread]
    split
    · exact ⟨⟨hundisturbed, hstill⟩, rfl⟩
    · split
      · exact ⟨⟨hundisturbed, hstill⟩, rfl⟩
      · rename_i store _
        rw [get_of_undisturbed (w := { w with store := store }) hundisturbed]
        exact ⟨⟨hundisturbed, hstill⟩, rfl⟩
  case listDue asOf limit =>
    simp only [World.reply, answer, list_of_undisturbed hundisturbed]
    exact ⟨⟨hundisturbed, hstill⟩, trivial⟩
  case listStale olderThan limit =>
    simp only [World.reply, answer, list_of_undisturbed hundisturbed]
    exact ⟨⟨hundisturbed, hstill⟩, trivial⟩
  case now =>
    simp only [World.reply, answer, hread]
    exact ⟨⟨hundisturbed, hstill⟩, trivial⟩
  case breakerAllows =>
    simp only [World.reply, answer, observeBreaker]
    split <;> exact ⟨⟨hundisturbed, hstill⟩, rfl⟩
  case breakerFailed =>
    simp only [World.reply, answer, failBreaker]
    split <;> exact ⟨⟨hundisturbed, hstill⟩, rfl⟩
  all_goals exact ⟨⟨hundisturbed, hstill⟩, rfl⟩

end

end Simulation.World

end PaymentRetry
