import Mathlib.Logic.Relation
import PaymentRetry.Proofs.Workers.Alone
import PaymentRetry.Proofs.Workers.Sequence

/-!
# One winner for each attempt

Several calls may want to complete the same attempt: its own executor, recoveries of expired leases, and direct
callers.  However they take turns, a row leaves the pending state at most once, and at most one call returns a
decision for it; all others fail and have changed nothing (`Reachable.one_winner`).

The proof counts, for each attempt and each place: the decisions returned there, and the completion in the call that
is still open there, are no more than the completions logged there (`Orderly.decided_le`).  And all in all there is no
more than one completion (`Orderly.completed_once`).
-/

namespace PaymentRetry

open Simulation

/-! ### Completions -/

/-- The exchange takes the attempt `id` out of PENDING. -/
def Exchange.completes (e : Exchange) (id : AttemptId) : Bool :=
  e.before.store.isPending id && !e.after.store.isPending id

/-- The act takes the attempt `id` out of PENDING. -/
def Act.completes (id : AttemptId) : Act → Bool
  | exchanged e => e.completes id
  | asked _ => false

/-- The entry takes the attempt `id` out of PENDING. -/
def Entry.completes (id : AttemptId) : Entry → Bool
  | ⟨_, .act a⟩ => a.completes id
  | _ => false

/-- The entry returns a decision for `id`. -/
def Entry.decides (id : AttemptId) : Entry → Bool
  | ⟨_, .left call _ (.ok _)⟩ => call.id = id
  | _ => false

namespace Entry

@[simp]
theorem completes_act (id : AttemptId) (p : Place) (a : Act) : completes id ⟨p, .act a⟩ = a.completes id := rfl

@[simp]
theorem completes_entered (id : AttemptId) (p : Place) (call : Recording) :
    completes id ⟨p, .entered call⟩ = false := rfl

@[simp]
theorem completes_left (id : AttemptId) (p : Place) (call : Recording) (own : List Act)
    (x : Except Failure Decision) : completes id ⟨p, .left call own x⟩ = false := rfl

@[simp]
theorem completes_ended (id : AttemptId) (p : Place) : completes id ⟨p, .ended⟩ = false := rfl

@[simp]
theorem decides_left_ok (id : AttemptId) (p : Place) (call : Recording) (own : List Act) (d : Decision) :
    decides id ⟨p, .left call own (.ok d)⟩ = decide (call.id = id) := rfl

end Entry

/-- `1` if the call that is running at `p` has taken `id` out of PENDING, and `0` otherwise. -/
def Log.held (id : AttemptId) (p : Place) (log : Log) : Nat :=
  match openCall p log with
  | some (_, own) => if own.any (Act.completes id) then 1 else 0
  | none => 0

namespace Exchange.Sound

variable {s : Store}

theorem transition_ok {id : AttemptId} {source target : AttemptState} {change : Change} {a : Attempt} {refused : Bool}
    {before after : World}
    (h : Exchange.Sound ⟨.transition id source target change, .ok a, refused, before, after⟩ s) :
    Exchange.completes ⟨.transition id source target change, .ok a, refused, before, after⟩ id = true ∧
      a ∈ after.store.rows ∧ a.id = id ∧ a.state = target ∧ target ≠ .pending ∧ a.dueAt = change.dueAt.join := by
  obtain ⟨rfl, ht⟩ := h.settles
  rcases h.effect with ⟨f, hf, -⟩ | ⟨b, now, hb, hmove, hfind⟩
  · cases hf
  simp only [Except.ok.injEq] at hb
  subst hb
  obtain ⟨c, hc, hid, hpending, hfind'⟩ := Store.find?_of_move? h.sequenced.distinct hmove
  obtain ⟨hmem, hid'⟩ := Store.find?_eq_some hfind
  obtain rfl : a = _ := Option.some.inj (hfind.symm.trans hfind')
  refine ⟨?_, hmem, hid', rfl, ht, ?_⟩
  · have hbefore : before.store.isPending id = true := Store.isPending_iff.2 ⟨c, hc, hid, hpending⟩
    have hsettled : after.store.Settled id := ⟨_, hmem, hid', ht⟩
    unfold Exchange.completes
    rw [hbefore, hsettled.not_isPending (h.sequenced.distinct.move hmove)]
    rfl
  · -- nothing had been written into the pending row
    have hdue := (h.blank c hc hpending).2.2
    show change.dueAt.getD c.dueAt = change.dueAt.join
    rw [hdue]
    cases change.dueAt <;> rfl

theorem mem_of_transition {id : AttemptId} {source target : AttemptState} {change : Change} {a : Attempt}
    {refused : Bool} {before after : World}
    (h : Exchange.Sound ⟨.transition id source target change, .ok a, refused, before, after⟩ s) : a ∈ s.rows := by
  obtain ⟨-, hrow, -, hstate, ht, -⟩ := h.transition_ok
  exact h.grows.mem_of_settled hrow (by rw [hstate]; exact ht)

theorem store_eq {e : Exchange} (h : e.Sound s)
    (hcreate : ∀ d a refused before after, e ≠ ⟨.create d, .ok a, refused, before, after⟩)
    (hmove : ∀ id source target change a refused before after,
      e ≠ ⟨.transition id source target change, .ok a, refused, before, after⟩) :
    e.after.store = e.before.store := by
  have heffect := h.effect
  obtain ⟨r, x, refused, before, after⟩ := e
  cases r
  case create d =>
    rcases heffect with ⟨f, -, heq⟩ | ⟨a, now, hx, -⟩
    · exact heq
    · simp only at hx
      subst hx
      exact absurd rfl (hcreate d a refused before after)
  case transition id source target change =>
    rcases heffect with ⟨f, -, heq⟩ | ⟨a, now, hx, -⟩
    · exact heq
    · simp only at hx
      subst hx
      exact absurd rfl (hmove id source target change a refused before after)
  case get id => exact heffect.1
  case listDue asOf limit => exact heffect.1
  all_goals exact heffect

end Exchange.Sound

/-- Each attempt is moved at most once, and is settled from then on. -/
theorem Orderly.completed_once {w₀ w : World} {log : Log} (hw₀ : w₀.Unused)
    (h : Orderly Scheduler.conduct w₀ log w) (id : AttemptId) :
    log.countP (Entry.completes id) ≤ 1 ∧ (0 < log.countP (Entry.completes id) → w.store.Settled id) := by
  induction h with
  | nil => simp
  | clock t _ ih => exact ih
  | asked _ _ _ _ ih => simpa [Act.completes, World.charged] using ih
  | @answered log w p c h x _ _ _ ih =>
    have hnot : Entry.completes id ⟨p, .act (.exchanged ⟨.charge c, x, false, w, w⟩)⟩ = false := by
      simp [Act.completes, Exchange.completes]
    rw [List.countP_cons, hnot]
    exact ih
  | @exchanged log p e hlog hended hwaits hcharge hasks he ih =>
    obtain ⟨hcount, hsettled⟩ := ih
    obtain ⟨hsound, -, hsequenced, -⟩ := (hlog.sound hw₀).exchange hasks he
    rw [List.countP_cons]
    by_cases hc : Entry.completes id ⟨p, .act (.exchanged e)⟩ = true
    · rw [if_pos hc]
      simp only [Entry.completes_act, Act.completes, Exchange.completes, Bool.and_eq_true, Bool.not_eq_true'] at hc
      -- a settled attempt is not pending, so this is the first completion
      have hzero : log.countP (Entry.completes id) = 0 := by
        by_contra hpos
        have := (hsettled (by omega)).not_isPending hsound.sequenced.distinct
        rw [hc.1] at this
        cases this
      exact ⟨by omega, fun _ => hsound.moves.grows.settled hc.1 hc.2⟩
    · rw [if_neg hc]
      exact ⟨by omega, fun hpos => (hsettled (by omega)).grows hsound.moves.grows⟩
  | entered _ ih => simpa using ih
  | left _ _ _ ih => simpa using ih
  | ended _ _ _ ih => simpa using ih

/-! ### Decisions -/

namespace Log

theorem mem_of_openCall {p : Place} {log : Log} {call : Recording} {own : List Act}
    (h : openCall p log = some (call, own)) {a : Act} (ha : a ∈ own) : ⟨p, .act a⟩ ∈ log := by
  induction log generalizing own with
  | nil => cases h
  | cons entry log ih =>
    obtain ⟨q, event⟩ := entry
    by_cases hq : q = p
    · subst hq
      cases event with
      | act b =>
        simp only [openCall, if_true, Option.map_eq_some_iff, Prod.mk.injEq, Prod.exists] at h
        obtain ⟨call', own', hopen, rfl, rfl⟩ := h
        rcases List.mem_cons.1 ha with rfl | ha
        · exact List.mem_cons_self
        · exact List.mem_cons_of_mem _ (ih hopen ha)
      | entered call' =>
        simp only [openCall, if_true, Option.some.injEq, Prod.mk.injEq] at h
        rw [← h.2] at ha
        cases ha
      | left call' own' x => simp [openCall] at h
      | ended => simp [openCall] at h
    · rw [openCall_cons_of_ne hq] at h
      exact List.mem_cons_of_mem _ (ih h ha)

private theorem held_cons_of_ne {p : Place} {entry : Entry} (h : entry.place ≠ p) (id : AttemptId) (log : Log) :
    held id p (entry :: log) = held id p log := by
  unfold held
  rw [openCall_cons_of_ne h]

private theorem held_cons_act (id : AttemptId) (p : Place) (a : Act) (log : Log) :
    held id p (⟨p, .act a⟩ :: log) ≤ held id p log + if a.completes id then 1 else 0 := by
  unfold held
  simp only [openCall, if_true]
  cases openCall p log with
  | none => simp
  | some open' =>
    cases h : a.completes id
    · simp [h]
    · simp [h]

/-- The decisions for `id` returned at `p`, with the one that the running call may return, are no more than the acts at
`p` that take `id` out of PENDING. -/
def Balanced (id : AttemptId) (p : Place) (log : Log) : Prop :=
  log.countP (fun e => e.place = p && e.decides id) + held id p log ≤ log.countP fun e => e.place = p && e.completes id

private theorem Balanced.cons {id : AttemptId} {p : Place} {log : Log} (h : log.Balanced id p) {e : Entry}
    (hdecides : e.place = p → e.decides id = false)
    (hheld : e.place = p → held id p (e :: log) ≤ held id p log + if e.completes id then 1 else 0) :
    Balanced id p (e :: log) := by
  unfold Balanced at h ⊢
  by_cases hp : e.place = p
  · have hheld' := hheld hp
    simp only [List.countP_cons, hp, hdecides hp, decide_true, Bool.true_and, Bool.false_eq_true, if_false]
    omega
  · rw [held_cons_of_ne hp]
    simpa [hp] using h

private theorem Balanced.act {id : AttemptId} {p : Place} {log : Log} (h : log.Balanced id p) (q : Place) (a : Act) :
    Balanced id p (⟨q, .act a⟩ :: log) := by
  refine h.cons (fun _ => rfl) ?_
  rintro rfl
  exact held_cons_act id q a log

/-- A returned decision is what the row is now. -/
theorem Sound.decided {log : Log} {w : World} (h : log.Sound w) {p : Place} {call : Recording} {own : List Act}
    (hown : ∀ a ∈ own, ⟨p, .act a⟩ ∈ log) {d : Decision} (hd : Scheduler.conduct.returns call own (.ok d)) :
    own.any (Act.completes call.id) = true ∧ d.attempt ∈ w.store.rows ∧ d.attempt.id = call.id ∧
      d.attempt.state = d.state ∧ d.state ≠ .pending ∧ d.due = d.attempt.dueAt := by
  obtain ⟨hreturns, -⟩ := hd
  cases hreturns with
  | @decided b d change hlooked hkey hpending hmoved hsettled hdue =>
    obtain ⟨refused, before, after, hget⟩ := Stage.exists_get hlooked
    have hfound := (h.exchanges p _ (hown _ hget)).effect
    have hid : b.id = call.id := by
      rcases hfound.2 with ⟨f, hf⟩ | ⟨a, ha, hfind⟩
      · cases hf
      · obtain rfl : b = a := by simpa using ha
        exact (Store.find?_eq_some hfind).2
    obtain ⟨source, refused, before, after, hmem⟩ := Stage.exists_transition (by rw [hmoved]; exact List.mem_cons_self)
    have hsound := h.exchanges p _ (hown _ hmem)
    obtain ⟨hcompletes, -, hrowid, hstate, -, hrowdue⟩ := hsound.transition_ok
    rw [hid] at hcompletes hrowid
    exact ⟨List.any_eq_true.2 ⟨_, hmem, hcompletes⟩, hsound.mem_of_transition, hrowid, hstate, hsettled,
      hdue.trans hrowdue.symm⟩

end Log

theorem Orderly.decided_le {w₀ w : World} {log : Log} (hw₀ : w₀.Unused) (h : Orderly Scheduler.conduct w₀ log w)
    (id : AttemptId) (p : Place) : log.Balanced id p := by
  induction h with
  | nil => simp [Log.Balanced, Log.held, Log.openCall]
  | clock t _ ih => exact ih
  | asked _ _ _ _ ih => exact ih.act _ _
  | answered _ _ _ ih => exact ih.act _ _
  | exchanged _ _ _ _ _ _ ih => exact ih.act _ _
  | @entered log w q call _ ih =>
    refine ih.cons (fun _ => rfl) ?_
    rintro rfl
    simp [Log.held, Log.openCall]
  | @left log w q call own x hlog hopen hx ih =>
    have hnone : Log.held id q (⟨q, .left call own x⟩ :: log) = 0 := by simp [Log.held, Log.openCall]
    by_cases hdecided : q = p ∧ Entry.decides id ⟨q, .left call own x⟩ = true
    · obtain ⟨rfl, hdecides⟩ := hdecided
      cases x with
      | error e => cases hdecides
      | ok d =>
        -- the completion that was held is now decided
        rw [Entry.decides_left_ok, decide_eq_true_eq] at hdecides
        subst hdecides
        obtain ⟨hown, -⟩ := (hlog.sound hw₀).decided (fun _ => Log.mem_of_openCall hopen) hx
        have hheld : Log.held call.id q log = 1 := by simp only [Log.held, hopen, hown, if_true]
        unfold Log.Balanced at ih ⊢
        rw [hnone]
        simp
        omega
    · refine ih.cons (fun hq => ?_) (fun hq => ?_)
      · simp only [not_and, Bool.not_eq_true] at hdecided
        exact hdecided hq
      · rw [← hq, hnone]
        omega
  | @ended log w q _ _ _ ih =>
    refine ih.cons (fun _ => rfl) ?_
    rintro rfl
    simp [Log.held, Log.openCall]

/-- If at each place no more entries satisfy `D` than `W`, and at most one in all satisfies `W`, then at most one
satisfies `D`. -/
private theorem countP_le_one_of_places {log : Log} {D W : Entry → Bool}
    (hle : ∀ p : Place, log.countP (fun e => e.place = p && D e) ≤ log.countP fun e => e.place = p && W e)
    (hW : log.countP W ≤ 1) : log.countP D ≤ 1 := by
  have hunique : ∀ a ∈ log, W a = true → ∀ b ∈ log, W b = true → a = b := by
    intro a ha hWa b hb hWb
    rw [List.countP_eq_length_filter] at hW
    have ha' := List.mem_filter.2 ⟨ha, hWa⟩
    have hb' := List.mem_filter.2 ⟨hb, hWb⟩
    generalize log.filter W = l at hW ha' hb'
    rcases l with _ | ⟨c, _ | ⟨c', l⟩⟩
    · cases ha'
    · rw [List.mem_singleton.1 ha', List.mem_singleton.1 hb']
    · simp at hW
  have hplace : ∀ e ∈ log, D e = true → ∃ a ∈ log, W a = true ∧ a.place = e.place := by
    intro e he hD
    have hpos : 0 < log.countP fun a => a.place = e.place && D a :=
      List.countP_pos_iff.2 ⟨e, he, by simp [hD]⟩
    obtain ⟨a, ha, hWa⟩ := List.countP_pos_iff.1 (Nat.lt_of_lt_of_le hpos (hle e.place))
    simp only [Bool.and_eq_true, decide_eq_true_eq] at hWa
    exact ⟨a, ha, hWa.2, hWa.1⟩
  by_cases hnone : ∃ e ∈ log, D e = true
  · obtain ⟨e, he, hD⟩ := hnone
    obtain ⟨a, ha, hWa, hae⟩ := hplace e he hD
    -- all of the first are at the place of the only one of the other
    have hall : log.countP D ≤ log.countP fun e' => e'.place = e.place && D e' := by
      apply List.countP_mono_left
      intro e' he' hD'
      obtain ⟨b, hb, hWb, hbe⟩ := hplace e' he' hD'
      have : b = a := hunique b hb hWb a ha hWa
      subst this
      simp [hD', ← hbe, hae]
    have hmore : log.countP (fun e' => e'.place = e.place && W e') ≤ log.countP W := by
      apply List.countP_mono_left
      intro e' _ he'
      simp only [Bool.and_eq_true] at he'
      exact he'.2
    have := hle e.place
    omega
  · have : log.countP D = 0 := by
      rw [List.countP_eq_zero]
      intro e he hD
      exact hnone ⟨e, he, hD⟩
    omega

theorem Orderly.decided_once {w₀ w : World} {log : Log} (hw₀ : w₀.Unused) (h : Orderly Scheduler.conduct w₀ log w)
    (id : AttemptId) : log.countP (Entry.decides id) ≤ 1 := by
  refine countP_le_one_of_places (fun p => ?_) (h.completed_once hw₀ id).1
  have := h.decided_le hw₀ id p
  unfold Log.Balanced at this
  omega

theorem Orderly.returned {C : Conduct} {w₀ w : World} {log : Log} (h : Orderly C w₀ log w) {p : Place}
    {call : Recording} {own : List Act} {x : Except Failure Decision} (hmem : ⟨p, .left call own x⟩ ∈ log) :
    C.returns call own x ∧ ∀ a ∈ own, ⟨p, .act a⟩ ∈ log := by
  have hcons : ∀ {log : Log} {entry : Entry}, (C.returns call own x ∧ ∀ a ∈ own, ⟨p, .act a⟩ ∈ log) →
      C.returns call own x ∧ ∀ a ∈ own, ⟨p, .act a⟩ ∈ entry :: log :=
    fun h => ⟨h.1, fun a ha => List.mem_cons_of_mem _ (h.2 a ha)⟩
  induction h with
  | nil => cases hmem
  | clock t _ ih => exact ih hmem
  | asked _ _ _ _ ih => exact hcons (ih (by simpa using hmem))
  | answered _ _ _ ih => exact hcons (ih (by simpa using hmem))
  | exchanged _ _ _ _ _ _ ih => exact hcons (ih (by simpa using hmem))
  | entered _ ih => exact hcons (ih (by simpa using hmem))
  | left _ hopen hx ih =>
    rcases List.mem_cons.1 hmem with heq | hmem
    · simp only [Entry.mk.injEq, Event.left.injEq] at heq
      obtain ⟨rfl, rfl, rfl, rfl⟩ := heq
      exact ⟨hx, fun a ha => List.mem_cons_of_mem _ (Log.mem_of_openCall hopen ha)⟩
    · exact hcons (ih hmem)
  | ended _ _ _ ih => exact hcons (ih (by simpa using hmem))

/-! ### Failures -/

/-- The failures of a call that came too late, or was not for an attempt of its payment. -/
def Failure.IsLoss : Failure → Prop
  | alreadyCompleted .. | staleState .. | unknownAttempt _ | foreignAttempt .. => True
  | _ => False

/-- The exchange is a store call that raised the failure. -/
inductive Exchange.Raises : Exchange → Failure → Prop
  | get {id : AttemptId} {e : Failure} {refused : Bool} {before after : World} :
      Raises ⟨.get id, .error e, refused, before, after⟩ e
  | transition {id : AttemptId} {source target : AttemptState} {change : Change} {e : Failure} {refused : Bool}
      {before after : World} : Raises ⟨.transition id source target change, .error e, refused, before, after⟩ e

/-- The delays and due dates computed for the recorded failures lie within the calendar. -/
def Log.DatesFit (log : Log) : Prop :=
  ∀ p call own x, ⟨p, .left call own x⟩ ∈ log → ∀ b refused before after,
    .exchanged ⟨.get call.id, .ok b, refused, before, after⟩ ∈ own → ∀ type,
      call.result.outcome.failureType = some type →
        ∃ delay, call.scheduler.policy.delay type (b.number - 1) = .ok delay ∧
          ∀ t refused before after, .exchanged ⟨.now, t, refused, before, after⟩ ∈ own →
            ∀ d, delay = some d → ∃ due, t.add d = .ok due

/-- A call that fails has moved no row, unless it failed while publishing. -/
private theorem Log.Sound.idle {log : Log} {w : World} (h : log.Sound w) {p : Place} {own : List Act}
    (hown : ∀ a ∈ own, ⟨p, .act a⟩ ∈ log) (hattempt : (Stage.ofActs own).attempt = none)
    (hmoved : ∀ id target change a, (id, target, change, .ok a) ∉ (Stage.ofActs own).moved) (e : Exchange)
    (he : .exchanged e ∈ own) : e.after.store.rows = e.before.store.rows := by
  refine congrArg Store.rows ((h.exchanges p e (hown _ he)).store_eq ?_ ?_)
  · rintro d a refused before after rfl
    exact Stage.attempt_ne_none he hattempt
  · rintro id source target change a refused before after rfl
    exact hmoved _ _ _ _ (Stage.mem_moved he)

theorem Completion.ofDecision_ne_error {a : Attempt} (ha : a.amount.isFinite = true) (state : AttemptState)
    (issues : List Validation.Issue) : ofDecision ⟨a, state, none⟩ ≠ .error issues := by
  unfold ofDecision
  rw [if_pos ha]
  rintro ⟨⟩

private theorem Log.Sound.failed {log : Log} {w : World} (h : log.Sound w)
    (hfinite : ∀ a ∈ w.store.rows, a.amount.isFinite = true) (hfit : log.DatesFit) {p : Place} {call : Recording}
    {own : List Act} {e : Failure} (hleft : ⟨p, .left call own (.error e)⟩ ∈ log)
    (hown : ∀ a ∈ own, ⟨p, .act a⟩ ∈ log) (hx : Scheduler.conduct.returns call own (.error e)) :
    (e.IsLoss ∨ ∃ x, .exchanged x ∈ own ∧ x.Raises e) ∧
      ∀ x, .exchanged x ∈ own → x.after.store.rows = x.before.store.rows := by
  obtain ⟨hreturns, hattempt⟩ := hx
  have hidle := h.idle hown hattempt
  -- a transition that has been answered has left a row, whose amount is finite
  have hrow : ∀ {id target change a}, (Stage.ofActs own).moved = [(id, target, change, .ok a)] →
      a.amount.isFinite = true := by
    intro id target change a hmoved
    obtain ⟨source, refused, before, after, hmem⟩ :=
      Stage.exists_transition (by rw [hmoved]; exact List.mem_cons_self)
    exact hfinite a (h.exchanges p _ (hown _ hmem)).mem_of_transition
  cases hreturns with
  | unfound hlooked hmoved =>
    obtain ⟨refused, before, after, hget⟩ := Stage.exists_get hlooked
    exact ⟨.inr ⟨_, hget, .get⟩, hidle (by simp [hmoved])⟩
  | foreign _ _ hmoved => exact ⟨.inl trivial, hidle (by simp [hmoved])⟩
  | completed _ _ hmoved => exact ⟨.inl trivial, hidle (by simp [hmoved])⟩
  | @unscheduled b type r hlooked hmoved htype hrange =>
    exfalso
    obtain ⟨refused, before, after, hget⟩ := Stage.exists_get hlooked
    obtain ⟨delay, hdelay, hdue⟩ := hfit p call own _ hleft b refused before after hget type htype
    rcases hrange with hpolicy | ⟨t, delay', hclock, hpolicy, hadd⟩
    · rw [hdelay] at hpolicy
      cases hpolicy
    · obtain ⟨refused, before, after, hnow⟩ := Stage.exists_now hclock
      rw [hdelay, Except.ok.injEq] at hpolicy
      obtain ⟨due, hdue⟩ := hdue t refused before after hnow delay' hpolicy
      rw [hdue] at hadd
      cases hadd
  | unmoved hmoved =>
    obtain ⟨source, refused, before, after, hmem⟩ :=
      Stage.exists_transition (by rw [hmoved]; exact List.mem_cons_self)
    exact ⟨.inr ⟨_, hmem, .transition⟩, hidle (by simp [hmoved])⟩
  | untellable hmoved hissues => exact absurd hissues (Completion.ofDecision_ne_error (hrow hmoved) _ _)
  | calledOff _ hpublished hcancelled =>
    -- publishing is never called off
    exfalso
    obtain ⟨refused, before, after, hmem⟩ := Stage.exists_publish hpublished
    rw [(h.exchanges p _ (hown _ hmem)).happens.not_cancelled] at hcancelled
    cases hcancelled

/-! ### One winner -/

private theorem Reachable.moves {w : World} {σ σ' : System} (hw : w.Unused) (h : Reachable w σ) (hstep : σ.Step σ') :
    σ.world.store.Moves σ'.world.store := by
  have hsound := ((h.step hstep).orderly Scheduler.conduct_observed).sound hw
  cases hstep with
  | clock t => exact .same rfl
  | start s op hidle => exact .same rfl
  | advance hk hover => exact .same rfl
  | @act k number n β phases next i event φ w' hk hstep =>
    generalize phases i = φ' at hstep
    cases hstep with
    | exchange hr he => exact (hsound.exchanges _ _ List.mem_cons_self).moves
    | record hr he => exact (hsound.exchanges _ _ List.mem_cons_self).moves
    | ask => exact .same rfl
    | answer => exact .same rfl
    | enter => exact .same rfl
    | leave => exact .same rfl
    | finish => exact .same rfl

/-- Each attempt is completed once, by one call, and rows are never removed or changed after that. -/
structure System.OneWinner (σ : System) : Prop where
  /-- Each row leaves PENDING at most once. -/
  completed_once : ∀ id, σ.log.countP (Entry.completes id) ≤ 1
  /-- At most one call for an attempt returns a decision. -/
  decided_once : ∀ id, σ.log.countP (Entry.decides id) ≤ 1
  /-- A returned decision is what the row is now. -/
  decision_stands : ∀ p call own d, ⟨p, .left call own (.ok d)⟩ ∈ σ.log →
    d.attempt ∈ σ.world.store.rows ∧ d.attempt.id = call.id ∧ d.attempt.state = d.state ∧ d.state ≠ .pending ∧
      d.due = d.attempt.dueAt
  /-- A call that failed came too late, was not for an attempt of its payment, or was failed by the store, and has
  moved no row. -/
  failure_is_idle : ∀ p call own e, ⟨p, .left call own (.error e)⟩ ∈ σ.log →
    (e.IsLoss ∨ ∃ x, .exchanged x ∈ own ∧ x.Raises e) ∧
      ∀ x, .exchanged x ∈ own → x.after.store.rows = x.before.store.rows
  /-- A step adds a row, or completes one and changes only its state, failure, due date and update time, or leaves the
  rows alone. -/
  moves : ∀ σ', σ.Step σ' → σ.world.store.Moves σ'.world.store
  /-- However the run goes on, no row is removed, and no row that is not PENDING changes. -/
  grows : ∀ σ', Relation.ReflTransGen System.Step σ σ' → σ.world.store.Grows σ'.world.store

/-- In every run, each attempt has at most one winner.  The amounts are finite (`hfinite`) and the dates lie within the
calendar (`hfit`). -/
theorem Reachable.one_winner {w : World} {σ : System} (hw : w.Unused) (h : Reachable w σ)
    (hfinite : ∀ a ∈ σ.world.store.rows, a.amount.isFinite = true) (hfit : σ.log.DatesFit) : σ.OneWinner := by
  have horderly := h.orderly Scheduler.conduct_observed
  have hsound := horderly.sound hw
  refine ⟨fun id => (horderly.completed_once hw id).1, horderly.decided_once hw, ?_, ?_, ?_, ?_⟩
  · intro p call own d hleft
    obtain ⟨hreturns, hown⟩ := horderly.returned hleft
    exact (hsound.decided hown hreturns).2
  · intro p call own e hleft
    obtain ⟨hreturns, hown⟩ := horderly.returned hleft
    exact hsound.failed hfinite hfit hleft hown hreturns
  · exact fun σ' hstep => h.moves hw hstep
  · intro σ' hsteps
    have hreached : Reachable w σ' ∧ σ.world.store.Grows σ'.world.store := by
      induction hsteps with
      | refl => exact ⟨h, .refl _⟩
      | tail _ hstep ih => exact ⟨ih.1.step hstep, ih.2.trans (ih.1.moves hw hstep).grows⟩
    exact hreached.2

/-! ### Two callers -/

private theorem Program.Follows.uncharged {α : Type} {known : Exchange → Prop} {ends : Stage → α → Prop}
    {p : Program α} {σ : Stage} (hp : p.Follows known ends σ) (hσ : σ.asked = true) (h : List Act) :
    p.Conforms (fun _ r => ∀ c, r ≠ .charge c) (fun _ _ => True) h := by
  induction p generalizing σ h with
  | done a => trivial
  | ask r next ih =>
    refine ⟨?_, fun x refused before after => ih x (hp.2 x) ?_ _⟩
    · rintro c rfl
      have hasked := hp.1.2.1
      rw [hσ] at hasked
      cases hasked
    · cases r
      case charge c => rfl
      all_goals exact hσ

private theorem Recording.uncharged (call : Recording) :
    call.program.Conforms (fun _ r => ∀ c, r ≠ .charge c) (fun _ _ => True) [] := by
  have hfollows : call.program.Follows (fun _ => False) _ { asked := true } :=
    call.scheduler.recordOutcome_follows call.key ⟨rfl, rfl, rfl⟩ (by rintro a ⟨⟩) (by rintro ⟨result, ⟨⟩, -⟩)
  exact hfollows.uncharged rfl []

private theorem ReachedAt.body (gateway : List Charge → Charge → Except Failure GatewayResult)
    {places : Place → Prop} {w w' : World} {σ : System} {k number n : Nat} {β : Type} {phases : Fin n → Phase β}
    {next : (Fin n → β) → Task Report} {i : Fin n} {call : Recording} {own h : List Act}
    {body : Program (Except Failure Decision)} {rest : Except Failure Decision → Program β}
    (hbody : body.Conforms (fun _ r => ∀ c, r ≠ .charge c) (fun _ _ => True) h)
    (hreached :
      ReachedAt places w σ k w' (.round number (Function.update phases i (.recording call own body rest)) next))
    (hplace : places ⟨k, number, i⟩) :
    ∃ own', ReachedAt places w σ k (body.run (World.reply gateway) w').2
      (.round number (Function.update phases i
        (.recording call own' (.done (body.run (World.reply gateway) w').1) rest)) next) := by
  induction body generalizing w' own h with
  | done x => exact ⟨own, hreached⟩
  | ask r body ih =>
    have hhappens := World.reply_happens gateway r hbody.1 w'
    exact ih _ (hbody.2 _ false w' w') (hreached.step (.record hbody.1 hhappens) hplace rfl)

/-- An idle worker may make a call alone. -/
theorem Reachable.call (gateway : List Charge → Charge → Except Failure GatewayResult) {w : World} {σ : System}
    (h : Reachable w σ) {k : Nat} (hk : σ.workers k = .idle) (call : Recording) :
    ∃ σ' own, Reachable w σ' ∧ σ'.world = (call.program.run (World.reply gateway) σ.world).2 ∧
      (∀ j, j ≠ k → σ'.workers j = σ.workers j) ∧
      σ'.log.head? = some ⟨⟨k, 0, 0⟩, .left call own (call.program.run (World.reply gateway) σ.world).1⟩ ∧
      σ.log ⊆ σ'.log ∧ ∀ e ∈ σ'.log, e.event.Ongoing ∨ (∃ own x, e.event = .left call own x) ∨ e ∈ σ.log := by
  have hbegin := h.beginProgram hk (s := call.scheduler) (.record call.key call.id call.result)
    (p := call.program.bind .done) (f := .recorded) (by rw [Program.bind_done]; rfl) fun _ => True
  obtain ⟨own, new, hreached, hnew⟩ :=
    ReachedAt.body gateway call.uncharged (hbegin.step .enter trivial trivial) trivial
  have hleave := hreached.step (.act (Function.update_self ..) (by
    rw [Function.update_self]
    exact .leave))
  refine ⟨_, own, hleave, rfl, ?_, rfl, fun e he => by simp [he], ?_⟩
  · intro j hj
    simp only [Function.update_of_ne hj]
  · intro e he
    rcases List.mem_cons.1 he with rfl | he
    · exact .inr (.inl ⟨own, _, rfl⟩)
    · rcases List.mem_append.1 he with he | he
      · exact .inl (hnew e he).2
      · exact .inr (.inr he)

/-- A call for the first attempt of the sample payment, by a scheduler that retries nothing. -/
def Sample.report (outcome : Outcome) : Recording :=
  ⟨{ policy := ⟨[], 0, ⟨0⟩⟩ }, "order", .minted 1, ⟨outcome, none⟩⟩

private theorem Sample.delay_report (outcome : Outcome) (type : FailureType) (index : Int) :
    (Sample.report outcome).scheduler.policy.delay type index = .ok none := by
  have hend : (Sample.report outcome).scheduler.policy.maxAttempts type = 0 := by cases type <;> rfl
  unfold RetryPolicy.delay
  rw [hend, if_pos (by simp; omega)]

private theorem exists_ok {α : Type} {x : Except Failure α} (h : x.isOk = true) : ∃ a, x = .ok a := by
  cases x with
  | ok a => exact ⟨a, rfl⟩
  | error e => cases h

private theorem exists_error {α : Type} {x : Except Failure α} (h : x.isOk = false) : ∃ e, x = .error e := by
  cases x with
  | ok a => cases h
  | error e => exact ⟨e, rfl⟩

theorem one_winner_of_two_callers :
    ∃ σ own own' d e p p', Reachable Sample.world σ ∧
      ⟨p, .left (Sample.report .success) own (.ok d)⟩ ∈ σ.log ∧
      ⟨p', .left (Sample.report .businessFailure) own' (.error e)⟩ ∈ σ.log ∧
      (∀ a ∈ σ.world.store.rows, a.amount.isFinite = true) ∧ σ.log.DatesFit ∧ σ.OneWinner := by
  obtain ⟨σ, hcreated, hworld, hidle, hongoing⟩ := Sample.reachable_created
  obtain ⟨σ₁, own, hfirst, hworld₁, hidle₁, hleft, -, hcalls₁⟩ :=
    hcreated.call Sample.gateway (hidle 1 (by decide)) (Sample.report .success)
  obtain ⟨σ₂, own', hsecond, hworld₂, -, hleft', hlog₂, hcalls₂⟩ :=
    hfirst.call Sample.gateway ((hidle₁ 2 (by decide)).trans (hidle 2 (by decide))) (Sample.report .businessFailure)
  rw [hworld] at hworld₁ hleft
  rw [hworld₁] at hworld₂ hleft'
  have hfirstOk :
      ((Sample.report .success).program.run (World.reply Sample.gateway) Sample.created).1.isOk = true := by
    decide +kernel
  obtain ⟨d, hd⟩ := exists_ok hfirstOk
  have hsecondError : (((Sample.report .businessFailure).program.run (World.reply Sample.gateway)
      ((Sample.report .success).program.run (World.reply Sample.gateway) Sample.created).2).1).isOk = false := by
    decide +kernel
  obtain ⟨e, he⟩ := exists_error hsecondError
  rw [hd] at hleft
  rw [he] at hleft'
  have hfinite : ∀ a ∈ σ₂.world.store.rows, a.amount.isFinite = true := by
    rw [hworld₂]
    decide +kernel
  have hfit : Log.DatesFit σ₂.log := by
    intro p call own x hmem b _ _ _ _ type _
    have hcall : ∃ outcome, call = Sample.report outcome := by
      rcases hcalls₂ _ hmem with hongoing | ⟨_, _, heq⟩ | hmem
      · exact hongoing.elim
      · exact ⟨_, (Event.left.inj heq).1⟩
      · rcases hcalls₁ _ hmem with hongoing | ⟨_, _, heq⟩ | hmem
        · exact hongoing.elim
        · exact ⟨_, (Event.left.inj heq).1⟩
        · exact (hongoing _ hmem).elim
    obtain ⟨outcome, rfl⟩ := hcall
    refine ⟨none, Sample.delay_report outcome type _, ?_⟩
    rintro t refused before after _ d ⟨⟩
  exact ⟨σ₂, own, own', d, e, _, _, hsecond, hlog₂ (List.mem_of_mem_head? hleft), List.mem_of_mem_head? hleft',
    hfinite, hfit, hsecond.one_winner ⟨rfl, rfl⟩ hfinite hfit⟩

end PaymentRetry
