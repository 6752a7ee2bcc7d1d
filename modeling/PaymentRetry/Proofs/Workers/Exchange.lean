import PaymentRetry.Proofs.Store.Numbering
import PaymentRetry.Simulation.World

/-!
# Exchanges with the world

An `Exchange` is one request, its answer, and the world before and after.  `Exchange.Happens` says which exchanges
there are: the clock, the store, the circuit breaker, the counters and the log answer as `World.answer` has it, the
gateway and the publisher answer as they like, and a call of the store may be refused, so that it raises any failure
and has no effect.

What an exchange does to the rows is said once, by `Request.Effect` (`Exchange.Happens.effect`); that it moves the
rows by at most one step follows (`Request.Effect.moves`).
-/

namespace PaymentRetry

open Simulation

/-! ### Answers -/

/-- The answer to a store call that fails with `f`; no other request is refused. -/
def Request.refusal? (f : Failure) : (r : Request) → Option r.Answer
  | .create _ | .get _ | .transition .. => some (.error f)
  | .listDue .. => some (.error f)
  | .listStale .. => some (.error f)
  | .history _ => some (.error f)
  | _ => none

/-- The world after a call of the gateway. -/
def Simulation.World.charged (w : World) (c : Charge) : World := { w with charges := c :: w.charges }

/-- The possible answers to a request and the worlds afterwards.  The gateway may answer anything, and the publisher
anything but a cancellation. -/
def Simulation.World.Answers (w : World) : (r : Request) → r.Answer → World → Prop
  | .charge _, _, w' => w' = w
  | .publish c, x, w' =>
    w' = { w with published := .event c :: w.published } ∧ ∀ e, x = .error e → e.isCancellation = false
  | r, x, w' => w.answer r = (x, w')

/-- `World.answer` with a gateway that answers in view of the charges it has had before, and a publisher that records
events. -/
def Simulation.World.reply (gateway : List Charge → Charge → Except Failure GatewayResult) : Program.Answering World
  | .charge c, w => (gateway w.charges c, w.charged c)
  | .publish c, w => (.ok (), { w with published := .event c :: w.published })
  | r, w => w.answer r

/-- A request and its answer. -/
structure Exchange where
  request : Request
  answer : request.Answer
  refused : Bool
  before : World
  after : World

/-- The answer is that of the world, or the request has been refused and has had no effect. -/
def Exchange.Happens (e : Exchange) : Prop :=
  if e.refused then e.after = e.before ∧ ∃ f, e.request.refusal? f = some e.answer
  else e.before.Answers e.request e.answer e.after

theorem Simulation.World.reply_happens (gateway : List Charge → Charge → Except Failure GatewayResult) (r : Request)
    (hr : ∀ c, r ≠ .charge c) (w : World) :
    Exchange.Happens ⟨r, (World.reply gateway r w).1, false, w, (World.reply gateway r w).2⟩ := by
  cases r
  case charge c => exact absurd rfl (hr c)
  case publish c => exact ⟨rfl, by rintro e ⟨⟩⟩
  all_goals exact rfl

theorem Exchange.Happens.not_cancelled {c : Completion} {e : Failure} {refused : Bool} {before after : World}
    (h : Exchange.Happens ⟨.publish c, .error e, refused, before, after⟩) : e.isCancellation = false := by
  cases refused with
  | true =>
    obtain ⟨-, f, hf⟩ : _ ∧ ∃ f, Request.refusal? f (.publish c) = some (.error e) := h
    cases hf
  | false => exact h.2 e rfl

/-! ### Effects -/

/-- The effect of a request on the rows, given its answer. -/
def Request.Effect (s s' : Store) : (r : Request) → r.Answer → Prop
  | .create d, x =>
    (∃ f, x = .error f ∧ s' = s) ∨ ∃ a now, x = .ok a ∧ s.insert d now = .ok (a, s')
  | .get id, x => s' = s ∧ ((∃ f, x = .error f) ∨ ∃ a, x = .ok a ∧ s.find? id = some a)
  | .transition id source target change, x =>
    (∃ f, x = .error f ∧ s' = s) ∨
      ∃ a now, x = .ok a ∧ s.move? id source target change now = some s' ∧ s'.find? id = some a
  | .listDue asOf limit, x => s' = s ∧ ((∃ f, x = .error f) ∨ x = .ok (s.dueRetries asOf limit))
  | _, _ => s' = s

namespace Simulation.World

private theorem disturb_none {w : World} (hw : w.faults = []) (call : StoreCall) (key : Option String) :
    w.disturb call key = (none, w) := by
  unfold disturb
  rw [hw, Fault.take, ← hw]

theorem create_of_undisturbed {w : World} (hw : w.faults = []) (d : Draft) : w.create d = w.storeDraft d := by
  simp only [create, disturb_none hw]

theorem get_of_undisturbed {w : World} (hw : w.faults = []) (id : AttemptId) :
    w.get id = ((w.store.find? id).elim (.error (.unknownAttempt id)) .ok, w) := by
  simp only [get, disturb_none hw]

theorem transition_of_undisturbed {w : World} (hw : w.faults = []) (id : AttemptId) (source target : AttemptState)
    (change : Change) : w.transition id source target change = w.move id source target change := by
  simp only [transition, disturb_none hw]

theorem list_of_undisturbed {α : Type} {w : World} (hw : w.faults = []) (call : StoreCall) (limit : Option Int)
    (items : Store → List α) :
    w.list call limit items =
      (if Store.limitFits limit then .ok (items w.store) else .error .integerTooWide, w) := by
  simp only [list, disturb_none hw]

theorem exists_readClock (w : World) : ∃ t, w.readClock = (w.now, { w with now := t }) :=
  ⟨_, rfl⟩

private theorem storeDraft_effect (w : World) (d : Draft) :
    (Request.create d).Effect w.store (w.storeDraft d).2.store (w.storeDraft d).1 ∧
      (w.storeDraft d).2.faults = w.faults := by
  obtain ⟨t, hread⟩ := exists_readClock w
  simp only [storeDraft, hread]
  cases hi : w.store.insert d w.now with
  | error f => exact ⟨.inl ⟨f, rfl, rfl⟩, rfl⟩
  | ok p => exact ⟨.inr ⟨p.1, w.now, rfl, hi⟩, rfl⟩

private theorem observeBreaker_frame (w : World) :
    w.observeBreaker.store = w.store ∧ w.observeBreaker.faults = w.faults := by
  simp only [observeBreaker]
  split <;> exact ⟨rfl, rfl⟩

private theorem failBreaker_frame (w : World) :
    w.failBreaker.store = w.store ∧ w.failBreaker.faults = w.faults := by
  simp only [failBreaker]
  split <;> exact ⟨rfl, rfl⟩

private theorem isSome_find?_move {s s' : Store} {id : AttemptId} {source target : AttemptState} {change : Change}
    {now : DateTime} (h : s.move? id source target change now = some s') : ∃ a, s'.find? id = some a := by
  have hids := Store.map_id_move h
  unfold Store.move? at h
  split at h
  · rename_i hany
    obtain ⟨a, ha, hp⟩ := List.any_eq_true.1 hany
    simp only [Bool.and_eq_true, decide_eq_true_eq] at hp
    have hmem : id ∈ s'.rows.map (·.id) := by
      rw [hids, ← hp.1]
      exact List.mem_map_of_mem ha
    obtain ⟨b, hb, hid⟩ := List.mem_map.1 hmem
    exact Option.isSome_iff_exists.1 (List.find?_isSome.2 ⟨b, hb, by simpa using hid⟩)
  · cases h

private theorem move_effect {w : World} (hw : w.faults = []) (id : AttemptId) (source target : AttemptState)
    (change : Change) :
    (Request.transition id source target change).Effect w.store (w.move id source target change).2.store
        (w.move id source target change).1 ∧
      (w.move id source target change).2.faults = [] := by
  obtain ⟨t, hread⟩ := exists_readClock w
  simp only [move, hread]
  cases Failure.ofTexts? change.message.join.toList with
  | some f => exact ⟨.inl ⟨f, rfl, rfl⟩, hw⟩
  | none =>
    cases hm : w.store.move? id source target change w.now with
    | none => exact ⟨.inl ⟨_, rfl, rfl⟩, hw⟩
    | some s =>
      obtain ⟨a, ha⟩ := isSome_find?_move hm
      simp only [get_of_undisturbed (w := { w with now := t, store := s }) hw]
      exact ⟨.inr ⟨a, w.now, by simp only [ha]; rfl, hm, ha⟩, hw⟩

/-- A transition of a pending row succeeds if its reason can be stored. -/
theorem exists_move_of_pending {w : World} (hw : w.faults = []) {a : Attempt} (ha : a ∈ w.store.rows)
    (hp : a.state = .pending) (target : AttemptState) (change : Change)
    (hmessage : Failure.ofTexts? change.message.join.toList = none) :
    ∃ b w', w.move a.id .pending target change = (.ok b, w') := by
  obtain ⟨t, hread⟩ := exists_readClock w
  obtain ⟨s, hm⟩ := Store.exists_move? ha hp target change w.now
  obtain ⟨b, hb⟩ := isSome_find?_move hm
  simp only [move, hread, hmessage, hm, get_of_undisturbed (w := { w with now := t, store := s }) hw, hb]
  exact ⟨b, _, rfl⟩

end Simulation.World

/-- An exchange has the effect `Request.Effect` and leaves no faults. -/
theorem Exchange.Happens.effect {e : Exchange} (h : e.Happens) (hw : e.before.faults = []) :
    e.request.Effect e.before.store e.after.store e.answer ∧ e.after.faults = [] := by
  obtain ⟨request, answer, refused, before, after⟩ := e
  simp only [Exchange.Happens] at h hw ⊢
  cases refused with
  | true =>
    simp only [if_true] at h
    obtain ⟨rfl, f, hf⟩ := h
    refine ⟨?_, hw⟩
    cases request <;> simp only [Request.refusal?, Option.some.injEq, reduceCtorEq] at hf <;> subst hf <;>
      simp [Request.Effect]
  | false =>
    simp only [Bool.false_eq_true, if_false] at h
    cases request <;> simp only [World.Answers] at h
    case create d =>
      have heffect := World.storeDraft_effect before d
      rw [World.answer, World.create_of_undisturbed hw] at h
      rw [h] at heffect
      exact ⟨heffect.1, heffect.2.trans hw⟩
    case get id =>
      rw [World.answer, World.get_of_undisturbed hw, Prod.mk.injEq] at h
      obtain ⟨rfl, rfl⟩ := h
      refine ⟨⟨rfl, ?_⟩, hw⟩
      cases before.store.find? id with
      | none => exact .inl ⟨_, rfl⟩
      | some a => exact .inr ⟨a, rfl, rfl⟩
    case transition id source target change =>
      have heffect := World.move_effect hw id source target change
      rw [World.answer, World.transition_of_undisturbed hw] at h
      rw [h] at heffect
      exact heffect
    case listDue asOf limit =>
      rw [World.answer, World.list_of_undisturbed hw, Prod.mk.injEq] at h
      obtain ⟨rfl, rfl⟩ := h
      refine ⟨⟨rfl, ?_⟩, hw⟩
      split
      · exact .inr rfl
      · exact .inl ⟨_, rfl⟩
    case listStale olderThan limit =>
      rw [World.answer, World.list_of_undisturbed hw, Prod.mk.injEq] at h
      obtain ⟨-, rfl⟩ := h
      exact ⟨rfl, hw⟩
    case charge c =>
      subst h
      exact ⟨rfl, hw⟩
    case publish c =>
      obtain ⟨rfl, -⟩ := h
      exact ⟨rfl, hw⟩
    case now =>
      obtain ⟨t, hread⟩ := World.exists_readClock before
      rw [World.answer, hread, Prod.mk.injEq] at h
      obtain ⟨-, rfl⟩ := h
      exact ⟨rfl, hw⟩
    all_goals
      rw [World.answer, Prod.mk.injEq] at h
      obtain ⟨-, rfl⟩ := h
    case breakerAllows => exact hw ▸ World.observeBreaker_frame before
    case breakerFailed => exact hw ▸ World.failBreaker_frame before
    all_goals exact ⟨rfl, hw⟩

/-- A transition, if the request is one, leads out of the pending state. -/
def Request.Settles : Request → Prop
  | .transition _ source target _ => source = .pending ∧ target ≠ .pending
  | _ => True

theorem Request.Effect.moves {s s' : Store} {r : Request} {x : r.Answer} (h : r.Effect s s' x) (hs : s.Distinct)
    (hr : r.Settles) : s.Moves s' := by
  cases r
  case create d =>
    rcases h with ⟨-, -, rfl⟩ | ⟨a, now, -, h⟩
    · exact .same rfl
    · exact .added _ (Store.insert_eq_ok h).2.2.2
  case transition id source target change =>
    obtain ⟨rfl, ht⟩ := hr
    rcases h with ⟨-, -, rfl⟩ | ⟨a, now, -, h, -⟩
    · exact .same rfl
    · obtain ⟨before, a, after, hrows, -, hp, hrows'⟩ := Store.move?_eq_some hs h
      exact .completed before a _ after hrows hrows' (change.completedAs_apply hp ht now)
  case get id => exact .same (by rw [h.1])
  case listDue asOf limit => exact .same (by rw [h.1])
  all_goals exact .same (congrArg Store.rows h)

theorem Request.Effect.sequenced {s s' : Store} {r : Request} {x : r.Answer} (h : r.Effect s s' x)
    (hs : s.Sequenced) (hr : r.Settles) (hd : ∀ d, r = .create d → s.Admits d) : s'.Sequenced := by
  cases r
  case create d =>
    rcases h with ⟨-, -, rfl⟩ | ⟨a, now, -, h⟩
    · exact hs
    · exact hs.insert (hd d rfl) h
  case transition id source target change =>
    obtain ⟨rfl, ht⟩ := hr
    rcases h with ⟨-, -, rfl⟩ | ⟨a, now, -, h, -⟩
    · exact hs
    · exact hs.move h
  case get id => rw [h.1]; exact hs
  case listDue asOf limit => rw [h.1]; exact hs
  all_goals
    rw [show s' = s from h]
    exact hs

theorem Request.Effect.blank {s s' : Store} {r : Request} {x : r.Answer} (h : r.Effect s s' x) (hs : s.Distinct)
    (hblank : s.Blank) (hr : r.Settles) (hd : ∀ d, r = .create d → d.dueAt = none) : s'.Blank := by
  cases r
  case create d =>
    rcases h with ⟨-, -, rfl⟩ | ⟨a, now, -, h⟩
    · exact hblank
    · obtain ⟨hcomplete, -, -, hrows⟩ := Store.insert_eq_ok h
      obtain ⟨-, -, -, -, -, -, -, htype, hmessage, hdue, -⟩ := Store.complete?_eq_some hcomplete
      intro b hb hp
      rw [hrows, List.mem_append, List.mem_singleton] at hb
      rcases hb with hb | rfl
      · exact hblank b hb hp
      · exact ⟨htype, hmessage, hdue.trans (hd d rfl)⟩
  case transition id source target change =>
    obtain ⟨rfl, ht⟩ := hr
    rcases h with ⟨-, -, rfl⟩ | ⟨a, now, -, h, -⟩
    · exact hblank
    · obtain ⟨before, a, after, hrows, -, -, hrows'⟩ := Store.move?_eq_some hs h
      intro b hb hp
      rw [hrows', List.mem_append, List.mem_cons] at hb
      rcases hb with hb | rfl | hb
      · exact hblank b (by simp [hrows, hb]) hp
      · exact absurd hp ht
      · exact hblank b (by simp [hrows, hb]) hp
  case get id => rw [h.1]; exact hblank
  case listDue asOf limit => rw [h.1]; exact hblank
  all_goals
    rw [show s' = s from h]
    exact hblank

end PaymentRetry
