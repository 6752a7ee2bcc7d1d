import PaymentRetry.Proofs.Turns.Single

/-!
# Undisturbed work

What the operations of the scheduler come to when nobody disturbs them: the store does not fail, the clock moves only
when it is told to, and no one else writes.  Then a result that is taken down for a pending attempt puts the attempt as
the policy settles it in its place and changes no other row (`Scheduler.recordOutcome_undisturbed`), and the call ends
in one of a few ways, which are known (`Scheduler.Concludes`).

The gateway is left out here, and the publisher may fail or not (`Program.ServesAsWorld`).
-/

namespace PaymentRetry

open Simulation

/-! ### What surrounds the store -/

namespace Simulation.World

/-- `w` without the store, the counters, the log and the announcements. -/
def around (w : World) : World := { w with store := {}, counts := [], records := [], published := [] }

variable {w w' : World}

theorem Still.of_around (hw : w.Still) (h : w'.around = w.around) : w'.Still :=
  ⟨(congrArg faults h).trans hw.undisturbed, (congrArg tick h).trans hw.still⟩

theorem now_eq_of_around (h : w'.around = w.around) : w'.now = w.now := by
  show w'.around.now = w.around.now
  rw [h]

theorem charges_eq_of_around (h : w'.around = w.around) : w'.charges = w.charges := by
  show w'.around.charges = w.around.charges
  rw [h]

theorem breaker_eq_of_around (h : w'.around = w.around) : w'.breaker = w.breaker := by
  show w'.around.breaker = w.around.breaker
  rw [h]

/-- `w'` has the store, the charges, the circuit breaker and the events of `w`. -/
structure Unmoved (w w' : World) : Prop where
  store : w'.store = w.store
  charges : w'.charges = w.charges
  breaker : w'.breaker = w.breaker
  published : w'.published = w.published

end Simulation.World

/-! ### Putting a row in its place -/

namespace Store

/-- `s` with `b` in the place of the row that has its identity. -/
def put (s : Store) (b : Attempt) : Store := { s with rows := s.rows.map fun a => if a.id = b.id then b else a }

variable {s : Store} {a : Attempt}

theorem put_self (hs : s.Distinct) (ha : a ∈ s.rows) : s.put a = s := by
  have hrows : (s.rows.map fun r => if r.id = a.id then a else r) = s.rows := by
    refine (List.map_congr_left fun r hr => ?_).trans (List.map_id _)
    split
    · rename_i hid
      exact (hs.eq_of_id hr ha hid).symm
    · rfl
  unfold put
  rw [hrows]

/-- A transition of the pending row `a` puts the completed row in its place. -/
theorem move?_eq_put (hs : s.Distinct) (ha : a ∈ s.rows) (hpending : a.state = .pending) (target : AttemptState)
    (change : Change) (t : DateTime) :
    s.move? a.id .pending target change t = some (s.put (change.apply { a with state := target, updated := t })) := by
  have hany : (s.rows.any fun r => r.id = a.id && r.state = .pending) = true :=
    List.any_eq_true.2 ⟨a, ha, by simp [hpending]⟩
  have hrows : (s.rows.map fun r => if r.id = a.id ∧ r.state = .pending then
        change.apply { r with state := target, updated := t } else r) =
      s.rows.map fun r => if r.id = a.id then change.apply { a with state := target, updated := t } else r := by
    refine List.map_congr_left fun r hr => ?_
    by_cases hid : r.id = a.id
    · obtain rfl := hs.eq_of_id hr ha hid
      rw [if_pos ⟨rfl, hpending⟩, if_pos rfl]
    · rw [if_neg fun h => hid h.1, if_neg hid]
  unfold move?
  rw [if_pos hany, hrows]
  rfl

theorem put_last {prior : List Attempt} {b : Attempt} (hs : s.Distinct) (hrows : s.rows = prior ++ [a])
    (hid : b.id = a.id) : (s.put b).rows = prior ++ [b] := by
  have hprior : ∀ r ∈ prior, r.id ≠ b.id := by
    intro r hr heq
    unfold Distinct at hs
    rw [hrows, List.map_append, List.nodup_append] at hs
    exact hs.2.2 r.id (List.mem_map_of_mem hr) a.id (by simp) (heq.trans hid)
  have hkept : (prior.map fun r => if r.id = b.id then b else r) = prior := by
    refine (List.map_congr_left fun r hr => ?_).trans (List.map_id _)
    rw [if_neg (hprior r hr)]
    rfl
  show s.rows.map _ = _
  rw [hrows, List.map_append, hkept]
  simp [hid]

end Store

/-! ### Single requests -/

namespace Program

/-- `serving` answers every request as `World.answer` does, except for charges, and for announcements, which may fail.
-/
structure ServesAsWorld (serving : Serving World) : Prop where
  answered : ∀ {r : Request} {w : World} {x : r.Answer} {w' : World}, (∀ c, r ≠ .charge c) → (∀ c, r ≠ .publish c) →
    (serving r w x w' ↔ w.answer r = (x, w'))
  publishes : ∀ c w, ∃ x w', serving (.publish c) w x w'
  published : ∀ {c : Completion} {w : World} {x : Except Failure Unit} {w' : World}, serving (.publish c) w x w' →
    w' = { w with published := .event c :: w.published } ∧ ∀ e, x = .error e → e.isCancellation = false

namespace ServesAsWorld

variable {serving : Serving World} (h : ServesAsWorld serving) {w : World}

include h

private theorem alwaysEnds_request {r : Request} (hcharge : ∀ c, r ≠ .charge c) (hpublish : ∀ c, r ≠ .publish c)
    {x : r.Answer} {w' : World} (hanswer : w.answer r = (x, w')) {ends : r.Answer → World → Prop} :
    (request r).AlwaysEnds serving ends w ↔ ends x w' := by
  have hserved : ∀ y w'', serving r w y w'' ↔ w.answer r = (y, w'') := fun _ _ => h.answered hcharge hpublish
  simp only [Program.alwaysEnds_request, hserved, hanswer]
  constructor
  · exact fun hends => hends.2 _ _ rfl
  · rintro hends
    refine ⟨⟨_, _, rfl⟩, fun y w'' hy => ?_⟩
    obtain ⟨rfl, rfl⟩ := Prod.mk.inj hy
    exact hends

theorem alwaysEnds_log {r : Log.Record} {ends : Unit → World → Prop} :
    (log r).AlwaysEnds serving ends w ↔ ends () (w.log r) :=
  h.alwaysEnds_request (r := .log r) (by rintro c ⟨⟩) (by rintro c ⟨⟩) rfl

theorem alwaysEnds_count {m : Metric} {ends : Unit → World → Prop} :
    (count m).AlwaysEnds serving ends w ↔ ends () { w with counts := w.counts.increment m } :=
  h.alwaysEnds_request (r := .count m) (by rintro c ⟨⟩) (by rintro c ⟨⟩) rfl

theorem alwaysEnds_breakerAllows {ends : Bool → World → Prop} :
    breakerAllows.AlwaysEnds serving ends w ↔ ends w.observeBreaker.breaker.allows w.observeBreaker :=
  h.alwaysEnds_request (r := .breakerAllows) (by rintro c ⟨⟩) (by rintro c ⟨⟩) rfl

theorem alwaysEnds_breakerFailed {ends : Unit → World → Prop} :
    breakerFailed.AlwaysEnds serving ends w ↔ ends () w.failBreaker :=
  h.alwaysEnds_request (r := .breakerFailed) (by rintro c ⟨⟩) (by rintro c ⟨⟩) rfl

theorem alwaysEnds_breakerSucceeded {ends : Unit → World → Prop} :
    breakerSucceeded.AlwaysEnds serving ends w ↔ ends () w.succeedBreaker :=
  h.alwaysEnds_request (r := .breakerSucceeded) (by rintro c ⟨⟩) (by rintro c ⟨⟩) rfl

theorem alwaysEnds_history {key : String} {ends : Except Failure (List Attempt) → World → Prop} :
    (history key).AlwaysEnds serving ends w ↔
      ends ((Failure.ofTexts? [key]).elim (.ok (w.store.history key)) .error) w :=
  h.alwaysEnds_request (r := .history key) (by rintro c ⟨⟩) (by rintro c ⟨⟩) rfl

theorem alwaysEnds_publish {c : Completion} {ends : Except Failure Unit → World → Prop}
    (hends : ∀ x, (∀ e, x = .error e → e.isCancellation = false) →
      ends x { w with published := .event c :: w.published }) :
    (publish c).AlwaysEnds serving ends w := by
  refine Program.alwaysEnds_request.2 ⟨h.publishes c w, fun x w' hx => ?_⟩
  obtain ⟨rfl, hcarriesOn⟩ := h.published hx
  exact hends x hcarriesOn

section

variable (hw : w.Still)

include hw

theorem alwaysEnds_now {ends : DateTime → World → Prop} : now.AlwaysEnds serving ends w ↔ ends w.now w :=
  h.alwaysEnds_request (r := .now) (by rintro c ⟨⟩) (by rintro c ⟨⟩) (World.readClock_of_still hw)

theorem alwaysEnds_get {a : Attempt} (hdistinct : w.store.Distinct) (ha : a ∈ w.store.rows)
    {ends : Except Failure Attempt → World → Prop} : (get a.id).AlwaysEnds serving ends w ↔ ends (.ok a) w :=
  h.alwaysEnds_request (r := .get a.id) (by rintro c ⟨⟩) (by rintro c ⟨⟩)
    (World.stream_get hw (fun _ => .error .unstorable) (hdistinct.find?_of_mem ha))

theorem alwaysEnds_create {d : Draft} {ends : Except Failure Attempt → World → Prop} :
    (create d).AlwaysEnds serving ends w ↔
      match w.store.insert d w.now with
      | .error f => ends (.error f) w
      | .ok (a, s) => ends (.ok a) ({ w with store := s }.log (World.createdRecord a)) := by
  have hanswer : w.answer (.create d) = w.storeDraft d := World.create_of_undisturbed hw.undisturbed d
  rw [World.storeDraft, World.readClock_of_still hw] at hanswer
  refine (h.alwaysEnds_request (r := .create d) (by rintro c ⟨⟩) (by rintro c ⟨⟩) hanswer).trans ?_
  cases w.store.insert d w.now with
  | error f => rfl
  | ok y => rfl

/-- A transition of a pending row is carried out, unless the store refuses the reason. -/
theorem alwaysEnds_transition {a : Attempt} (hdistinct : w.store.Distinct) (ha : a ∈ w.store.rows)
    (hpending : a.state = .pending) {target : AttemptState} {change : Change}
    {ends : Except Failure Attempt → World → Prop} :
    (transition a.id .pending target change).AlwaysEnds serving ends w ↔
      match Failure.ofTexts? change.message.join.toList with
      | some f => ends (.error f) w
      | none =>
        ends (.ok (change.apply { a with state := target, updated := w.now }))
          { w with store := w.store.put (change.apply { a with state := target, updated := w.now }) } := by
  cases hmessage : Failure.ofTexts? change.message.join.toList with
  | some f =>
    have hanswer : w.answer (.transition a.id .pending target change) = (.error f, w) := by
      simp only [World.answer, World.transition_of_undisturbed hw.undisturbed, World.move,
        World.readClock_of_still hw, hmessage]
    exact h.alwaysEnds_request (r := .transition a.id .pending target change) (by rintro c ⟨⟩) (by rintro c ⟨⟩) hanswer
  | none =>
    have hmove := Store.move?_eq_put hdistinct ha hpending target change w.now
    obtain ⟨a', ha', hid, -, hfind⟩ := Store.find?_of_move? hdistinct hmove
    obtain rfl := hdistinct.eq_of_id ha' ha hid
    exact h.alwaysEnds_request (r := .transition a'.id .pending target change) (by rintro c ⟨⟩) (by rintro c ⟨⟩)
      (World.stream_transition hw (fun _ => .error .unstorable) hmessage hmove hfind)

theorem alwaysEnds_listStale {olderThan : DateTime} {limit : Option Int} (hlimit : Store.limitFits limit = true)
    {ends : Except Failure (List Attempt) → World → Prop} :
    (listStale olderThan limit).AlwaysEnds serving ends w ↔ ends (.ok (w.store.stalePending olderThan limit)) w :=
  h.alwaysEnds_request (r := .listStale olderThan limit) (by rintro c ⟨⟩) (by rintro c ⟨⟩)
    (World.stream_listStale hw (fun _ => .error .unstorable) hlimit)

theorem alwaysEnds_listDue {asOf : DateTime} {limit : Option Int} (hlimit : Store.limitFits limit = true)
    {ends : Except Failure (List DueRetry) → World → Prop} :
    (listDue asOf limit).AlwaysEnds serving ends w ↔ ends (.ok (w.store.dueRetries asOf limit)) w :=
  h.alwaysEnds_request (r := .listDue asOf limit) (by rintro c ⟨⟩) (by rintro c ⟨⟩)
    (World.stream_listDue hw (fun _ => .error .unstorable) hlimit)

end

end ServesAsWorld

end Program

/-! ### Taking a result down -/

theorem Attempt.Becomes.amount_eq {a b : Attempt} (h : a.Becomes b) : b.amount = a.amount := by
  rcases h with rfl | h
  · rfl
  · rw [h.rest]

theorem RetryPolicy.settle_becomes {p : RetryPolicy} {result : GatewayResult} {t : DateTime} {a : Attempt}
    (hpending : a.state = .pending) : a.Becomes (p.settle result t a) := by
  unfold settle
  split
  · rename_i target change hruling
    split
    · exact .inr (change.completedAs_apply hpending (ruling_ne_pending hruling) t)
    · exact .refl a
  · exact .refl a

namespace Scheduler

/-- How recording `result` for the pending attempt `a` at `t` ends: with the decision, with `untellable`, which needs
an amount that is not finite, or with an error if the ruling or the store fails. -/
inductive Concludes (s : Scheduler) (result : GatewayResult) (t : DateTime) (a : Attempt) :
    Except Failure Decision → Prop
  | decided {target : AttemptState} {change : Change} : s.policy.ruling result a.number t = .ok (target, change) →
      Failure.ofTexts? change.message.join.toList = none →
      Concludes s result t a (.ok ⟨s.policy.settle result t a, target, change.dueAt.join⟩)
  | untold {issues : List Validation.Issue} : a.amount.isFinite = false →
      Concludes s result t a (.error (.untellable issues))
  | unruled {e : RangeError} : s.policy.ruling result a.number t = .error e →
      Concludes s result t a (.error (.range e))
  | refused {target : AttemptState} {change : Change} {f : Failure} :
      s.policy.ruling result a.number t = .ok (target, change) →
      Failure.ofTexts? change.message.join.toList = some f → Concludes s result t a (.error f)

open Program

variable {s : Scheduler} {serving : Serving World} (h : ServesAsWorld serving) {w : World}

include h

/-- Announcing fails only for an amount that is not finite. -/
private theorem announce_undisturbed (d : Decision) :
    (s.announce d).AlwaysEnds serving (fun x w' => w'.around = w.around ∧ w'.store = w.store ∧
      (x = .ok () ∨ d.attempt.amount.isFinite = false ∧ ∃ issues, x = .error (.untellable issues))) w := by
  unfold announce
  split
  · split
    · rename_i issues hissues
      have hinfinite : d.attempt.amount.isFinite = false := by
        by_contra hfinite
        rw [Completion.ofDecision, if_pos (by simpa using hfinite)] at hissues
        cases hissues
      exact ⟨rfl, rfl, .inr ⟨hinfinite, issues, rfl⟩⟩
    · simp only [bind_eq, alwaysEnds_bind]
      refine h.alwaysEnds_publish fun x hx => ?_
      cases x with
      | ok u => exact ⟨rfl, rfl, .inl rfl⟩
      | error e =>
        simp only [hx e rfl, Bool.false_eq_true, if_false, alwaysEnds_bind, h.alwaysEnds_log]
        exact ⟨rfl, rfl, .inl rfl⟩
  · exact ⟨rfl, rfl, .inl rfl⟩

variable {result : GatewayResult} {a : Attempt} (hw : w.Still) (hdistinct : w.store.Distinct) (ha : a ∈ w.store.rows)
  (hpending : a.state = .pending)

include hw hdistinct ha hpending

private theorem Enacts.undisturbed {q : Program (Except Failure Decision)}
    (hq : Enacts a (s.policy.ruling result a.number w.now) q) :
    q.AlwaysEnds serving
      (fun x w' => w'.around = w.around ∧ w'.store = w.store.put (s.policy.settle result w.now a) ∧
        s.Concludes result w.now a x) w := by
  cases hruling : s.policy.ruling result a.number w.now with
  | error e =>
    rw [hq.eq_done hruling, RetryPolicy.settle_of_leavesPending (.inl ⟨e, hruling⟩), Store.put_self hdistinct ha]
    exact ⟨rfl, rfl, .unruled hruling⟩
  | ok y =>
    rw [hruling] at hq
    cases hq with
    | ruled target change note =>
      rw [alwaysEnds_bind, h.alwaysEnds_transition hw hdistinct ha hpending]
      cases hmessage : Failure.ofTexts? change.message.join.toList with
      | some f =>
        rw [RetryPolicy.settle_of_leavesPending (.inr ⟨target, change, f, hruling, hmessage⟩),
          Store.put_self hdistinct ha]
        exact ⟨rfl, rfl, .refused hruling hmessage⟩
      | none =>
        dsimp only
        rw [← RetryPolicy.settle_of_ruling hruling hmessage, alwaysEnds_bind, h.alwaysEnds_log]
        exact ⟨rfl, rfl, .decided hruling hmessage⟩

private theorem complete_undisturbed :
    (s.complete a result).AlwaysEnds serving
      (fun x w' => w'.around = w.around ∧ w'.store = w.store.put (s.policy.settle result w.now a) ∧
        s.Concludes result w.now a x) w := by
  rcases s.complete_enacts a result with ⟨-, y, hy, hq⟩ | ⟨rest, hrest, hq⟩
  · rw [← hy w.now] at hq
    exact hq.undisturbed h hw hdistinct ha hpending
  · rw [hrest, alwaysEnds_bind, h.alwaysEnds_now hw]
    exact (hq w.now).undisturbed h hw hdistinct ha hpending

/-- Recording `result` for the pending attempt `a` puts its settlement in the store and changes no other row. -/
theorem recordOutcome_undisturbed :
    (s.recordOutcome a.key a.id result).AlwaysEnds serving
      (fun x w' => w'.around = w.around ∧ w'.store = w.store.put (s.policy.settle result w.now a) ∧
        s.Concludes result w.now a x) w := by
  unfold recordOutcome
  simp only [bind_eq, alwaysEnds_bind, h.alwaysEnds_get hw hdistinct ha, ne_eq, not_true_eq_false, if_false, hpending,
    h.alwaysEnds_count]
  refine (complete_undisturbed h (w := { w with counts := w.counts.increment (.outcome result.outcome) })
    ⟨hw.undisturbed, hw.still⟩ hdistinct ha hpending).mono fun x w₁ hx => ?_
  obtain ⟨haround, hstore, hconcludes⟩ := hx
  cases x with
  | error e =>
    dsimp only
    split
    · simp only [alwaysEnds_bind, h.alwaysEnds_count, h.alwaysEnds_log]
      exact ⟨haround, hstore, hconcludes⟩
    · exact ⟨haround, hstore, hconcludes⟩
  | ok d =>
    simp only [alwaysEnds_bind, h.alwaysEnds_count]
    split
    · rw [alwaysEnds_bind]
      refine (announce_undisturbed h d).mono fun y w₂ hy => ?_
      obtain ⟨haround', hstore', rfl | ⟨hinfinite, issues, rfl⟩⟩ := hy
      · exact ⟨haround'.trans haround, hstore'.trans hstore, hconcludes⟩
      · refine ⟨haround'.trans haround, hstore'.trans hstore, .untold ?_⟩
        cases hconcludes with
        | decided hruling hmessage =>
          rw [← (RetryPolicy.settle_becomes hpending).amount_eq]
          exact hinfinite
    · exact ⟨haround, hstore, hconcludes⟩

omit hw hdistinct ha hpending in
/-- `execute` settles the stored attempt `a` by what is heard of its charge, unless the work is cancelled. -/
theorem execute_undisturbed (hdistinct : w.store.Distinct) (ha : a.asStored ∈ w.store.rows)
    (hpending : a.state = .pending) {heard : Except Failure GatewayResult → World → Prop}
    (hcharge : (s.charge a.charge).AlwaysEnds serving (fun y w₁ => heard y w₁ ∧ w₁.store = w.store ∧ w₁.Still) w) :
    (s.execute a).AlwaysEnds serving (fun x w' => ∃ y w₁, heard y w₁ ∧ w₁.Still ∧
      ((∃ e, e.isCancellation = true ∧ y = .error e ∧ x = .error e ∧ w'.store = w.store) ∨
        w'.around = w₁.around ∧ w'.store = w.store.put (s.policy.settle (.ofAnswer y) w₁.now a.asStored) ∧
          s.Concludes (.ofAnswer y) w₁.now a.asStored x)) w := by
  unfold execute
  simp only [bind_eq, alwaysEnds_bind]
  refine hcharge.mono fun y w₁ hy => ?_
  obtain ⟨hy, hstore, hw₁⟩ := hy
  -- a failure is noted before it is taken down, in a world that differs in its log
  have hrecords : ∀ w₂ : World, w₂.around = w₁.around → w₂.store = w₁.store →
      (s.recordOutcome a.key a.id (.ofAnswer y)).AlwaysEnds serving (fun x w' => ∃ y w₁, heard y w₁ ∧ w₁.Still ∧
        ((∃ e, e.isCancellation = true ∧ y = .error e ∧ x = .error e ∧ w'.store = w.store) ∨
          w'.around = w₁.around ∧ w'.store = w.store.put (s.policy.settle (.ofAnswer y) w₁.now a.asStored) ∧
            s.Concludes (.ofAnswer y) w₁.now a.asStored x)) w₂ := by
    intro w₂ haround hstore₂
    have hstore₂ := hstore₂.trans hstore
    refine (recordOutcome_undisturbed h (a := a.asStored) (hw₁.of_around haround) (hstore₂ ▸ hdistinct)
      (hstore₂ ▸ ha) hpending).mono fun x w' hx => ?_
    rw [hstore₂, World.now_eq_of_around haround] at hx
    exact ⟨y, w₁, hy, hw₁, .inr ⟨hx.1.trans haround, hx.2⟩⟩
  cases y with
  | ok result => exact hrecords w₁ rfl rfl
  | error e =>
    dsimp only
    split
    · rename_i hcancelled
      exact ⟨_, w₁, hy, hw₁, .inl ⟨e, hcancelled, rfl, rfl, hstore⟩⟩
    · rw [alwaysEnds_bind, h.alwaysEnds_log]
      exact hrecords _ rfl rfl

end Scheduler

end PaymentRetry
