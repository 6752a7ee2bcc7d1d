import PaymentRetry.Simulation.World

/-!
# The log is only written

A record is added to the log, and nothing in the world depends on the records that are there.  `World.IgnoresRecords`
says this of anything that is done to the world: in two worlds that differ only in their records it has the same result,
and comes to worlds that differ only in their records.  Every request is answered so
(`World.ignoresRecords_answerBy`), as long as the gateway does not read the log either.
-/

namespace PaymentRetry.Simulation.World

/-- The world `w` without its records. -/
def unlogged (w : World) : World := { w with records := [] }

theorem eq_of_unlogged {w v : World} (h : w.unlogged = v.unlogged) : v = { w with records := v.records } := by
  cases w
  cases v
  simpa [unlogged] using h.symm

variable {α β : Type} {f : World → α × World}

/-- Whether the result of `f`, and the world that it makes but for its records, do not depend on the records. -/
def IgnoresRecords (f : World → α × World) : Prop :=
  ∀ ⦃w v⦄, w.unlogged = v.unlogged → (f w).1 = (f v).1 ∧ (f w).2.unlogged = (f v).2.unlogged

theorem IgnoresRecords.of_records (h : ∀ w records, (f w).1 = (f { w with records := records }).1 ∧
    (f w).2.unlogged = (f { w with records := records }).2.unlogged) : IgnoresRecords f := by
  intro w v hwv
  rw [eq_of_unlogged hwv]
  exact h w v.records

theorem IgnoresRecords.elim (hf : IgnoresRecords f) {w v : World} (h : w.unlogged = v.unlogged) :
    ∃ a w' v', f w = (a, w') ∧ f v = (a, v') ∧ w'.unlogged = v'.unlogged := by
  obtain ⟨hresult, hworld⟩ := hf h
  exact ⟨(f w).1, (f w).2, (f v).2, rfl, Prod.ext hresult.symm rfl, hworld⟩

theorem ignoresRecords_pure (a : α) : IgnoresRecords fun w => (a, w) := fun _ _ h => ⟨rfl, h⟩

/-! ### The store -/

theorem ignoresRecords_storeDraft (d : Draft) : IgnoresRecords (·.storeDraft d) := by
  refine .of_records fun w records => ?_
  simp only [storeDraft, readClock]
  cases w.store.insert d w.now with
  | error e => exact ⟨rfl, rfl⟩
  | ok stored => exact ⟨rfl, rfl⟩

theorem ignoresRecords_disturb (call : StoreCall) (key : Option String) : IgnoresRecords (·.disturb call key) :=
  .of_records fun _ _ => ⟨rfl, rfl⟩

theorem ignoresRecords_create (d : Draft) : IgnoresRecords (·.create d) := by
  intro w v h
  obtain ⟨action, w₁, v₁, hw, hv, h₁⟩ := (ignoresRecords_disturb .create d.key).elim h
  simp only [create, hw, hv]
  rcases action with _ | e | _ | state
  · exact ignoresRecords_storeDraft d h₁
  · exact ⟨rfl, h₁⟩
  · obtain ⟨copy, w₂, v₂, hw, hv, h₂⟩ := (ignoresRecords_storeDraft { d with id := none }).elim h₁
    simp only [hw, hv]
    cases copy with
    | error e => exact ⟨rfl, h₂⟩
    | ok copy => exact ignoresRecords_storeDraft _ h₂
  · exact ignoresRecords_storeDraft d h₁

theorem ignoresRecords_get (id : AttemptId) : IgnoresRecords (·.get id) := by
  intro w v h
  obtain ⟨action, w₁, v₁, hw, hv, h₁⟩ := (ignoresRecords_disturb .get none).elim h
  simp only [get, hw, hv]
  rw [eq_of_unlogged h₁]
  rcases action with _ | e | _ | state <;> exact ⟨rfl, rfl⟩

theorem ignoresRecords_move (id : AttemptId) (source target : AttemptState) (change : Change) :
    IgnoresRecords (·.move id source target change) := by
  intro w v h
  rw [eq_of_unlogged h]
  simp only [move, readClock]
  cases Failure.ofTexts? change.message.join.toList with
  | some e => exact ⟨rfl, rfl⟩
  | none =>
    cases w.store.move? id source target change w.now with
    | none => exact ⟨rfl, rfl⟩
    | some store => exact ignoresRecords_get id rfl

theorem ignoresRecords_transition (id : AttemptId) (source target : AttemptState) (change : Change) :
    IgnoresRecords (·.transition id source target change) := by
  intro w v h
  obtain ⟨action, w₁, v₁, hw, hv, h₁⟩ := (ignoresRecords_disturb .transition none).elim h
  simp only [transition, hw, hv]
  rcases action with _ | e | _ | state
  · exact ignoresRecords_move id source target change h₁
  · exact ⟨rfl, h₁⟩
  · exact ignoresRecords_move id source target change h₁
  · obtain ⟨moved, w₂, v₂, hw, hv, h₂⟩ := (ignoresRecords_move id source state {}).elim h₁
    simp only [hw, hv]
    cases moved with
    | error e => exact ⟨rfl, h₂⟩
    | ok moved => exact ignoresRecords_move id source target change h₂

theorem ignoresRecords_list (call : StoreCall) (limit : Option Int) (items : Store → List α) :
    IgnoresRecords (·.list call limit items) := by
  intro w v h
  obtain ⟨action, w₁, v₁, hw, hv, h₁⟩ := (ignoresRecords_disturb call none).elim h
  simp only [list, hw, hv]
  rw [eq_of_unlogged h₁]
  rcases action with _ | e | _ | state <;> exact ⟨rfl, rfl⟩

/-! ### The gateway -/

theorem ignoresRecords_callSandbox (c : Charge) : IgnoresRecords (·.callSandbox c) := by
  refine .of_records fun w records => ?_
  simp only [callSandbox]
  cases w.sandbox.logsNext <;> exact ⟨rfl, rfl⟩

theorem ignoresRecords_advance (seconds : Quantity) : IgnoresRecords (·.advance seconds) := by
  refine .of_records fun w records => ?_
  simp only [advance]
  cases Duration.ofSeconds seconds >>= w.now.add with
  | error e => exact ⟨rfl, rfl⟩
  | ok now => exact ⟨rfl, rfl⟩

theorem ignoresRecords_stealNewest (state : AttemptState) : IgnoresRecords (·.stealNewest state) := by
  intro w v h
  rw [eq_of_unlogged h]
  simp only [stealNewest]
  cases w.store.rows.getLast? with
  | none => exact ⟨rfl, rfl⟩
  | some newest =>
    have hrecords : w.unlogged = { w with records := v.records }.unlogged := rfl
    obtain ⟨moved, w₁, v₁, hw, hv, h₁⟩ := (ignoresRecords_move newest.id .pending state {}).elim hrecords
    simp only [hw, hv]
    cases moved <;> exact ⟨rfl, h₁⟩

private theorem IgnoresRecords.elim_option {γ : Type} {act : World → γ → Except Failure Unit × World}
    (hact : ∀ x, IgnoresRecords (act · x)) (x : Option γ) : IgnoresRecords fun w => x.elim (.ok (), w) (act w) := by
  cases x with
  | none => exact ignoresRecords_pure _
  | some x => exact hact x

theorem ignoresRecords_follow (entry : ScriptEntry) (c : Charge) : IgnoresRecords (·.follow entry c) := by
  intro w v h
  obtain ⟨advanced, w₁, v₁, hw, hv, h₁⟩ := (IgnoresRecords.elim_option ignoresRecords_advance entry.advance).elim h
  simp only [follow, hw, hv]
  cases advanced with
  | error e => exact ⟨rfl, h₁⟩
  | ok _ =>
    obtain ⟨stolen, w₂, v₂, hw, hv, h₂⟩ := (IgnoresRecords.elim_option ignoresRecords_stealNewest entry.steal).elim h₁
    simp only [hw, hv]
    cases stolen with
    | error e => exact ⟨rfl, h₂⟩
    | ok _ =>
      cases entry.act with
      | sandbox => exact ignoresRecords_callSandbox c h₂
      | answer result => exact ⟨rfl, h₂⟩
      | raise e => exact ⟨rfl, h₂⟩

theorem ignoresRecords_charge (c : Charge) : IgnoresRecords (·.charge c) := by
  intro w v h
  rw [eq_of_unlogged h]
  simp only [charge]
  cases w.script with
  | nil => exact ignoresRecords_callSandbox c rfl
  | cons entry rest => exact ignoresRecords_follow entry c rfl

/-! ### The circuit breaker -/

theorem unlogged_observeBreaker {w v : World} (h : w.unlogged = v.unlogged) :
    w.observeBreaker.unlogged = v.observeBreaker.unlogged := by
  rw [eq_of_unlogged h]
  simp only [observeBreaker]
  cases w.breaker.wakes w.now <;> rfl

theorem unlogged_failBreaker {w v : World} (h : w.unlogged = v.unlogged) :
    w.failBreaker.unlogged = v.failBreaker.unlogged := by
  rw [eq_of_unlogged h]
  simp only [failBreaker]
  cases w.breaker.trips <;> rfl

/-! ### Answering -/

theorem ignoresRecords_publish (c : Completion) : IgnoresRecords (·.publish c) := by
  refine .of_records fun w records => ?_
  simp only [publish]
  cases w.publisher <;> exact ⟨rfl, rfl⟩

theorem ignoresRecords_answer (r : Request) : IgnoresRecords (answer r) := by
  cases r with
  | now => exact .of_records fun _ _ => ⟨rfl, rfl⟩
  | create d => exact ignoresRecords_create d
  | get id => exact ignoresRecords_get id
  | transition id source target change => exact ignoresRecords_transition id source target change
  | listDue asOf limit => exact ignoresRecords_list .listDue limit _
  | listStale olderThan limit => exact ignoresRecords_list .listStale limit _
  | history key => exact .of_records fun _ _ => ⟨rfl, rfl⟩
  | charge c => exact ignoresRecords_charge c
  | publish c => exact ignoresRecords_publish c
  | breakerAllows =>
    intro w v h
    have hworld := unlogged_observeBreaker h
    have hallows : w.observeBreaker.unlogged.breaker.allows = v.observeBreaker.unlogged.breaker.allows := by rw [hworld]
    exact ⟨hallows, hworld⟩
  | breakerFailed => exact fun _ _ h => ⟨rfl, unlogged_failBreaker h⟩
  | breakerSucceeded => exact .of_records fun _ _ => ⟨rfl, rfl⟩
  | count m => exact .of_records fun _ _ => ⟨rfl, rfl⟩
  | log record => exact fun _ _ h => ⟨rfl, h⟩

theorem ignoresRecords_answerBy (gateway : Calling) {r : Request} (hr : ∀ c, r ≠ .charge c) :
    IgnoresRecords (answerBy gateway r) := by
  cases r
  case charge c => exact absurd rfl (hr c)
  all_goals exact ignoresRecords_answer _

end PaymentRetry.Simulation.World
