import PaymentRetry.Proofs.Workers.Aftermath

/-!
# Polls at one moment

When several workers poll at one moment, through a gateway whose answer depends on the charge only, what they leave
behind does not depend on how they take turns.  A row that was there is as it was, or its lease had expired and it has
been completed so (`Scheduler.recovered`); any other row is the retry of an attempt that was due, and has been
completed by the gateway's answer (`System.JointPoll.origins`).

It does not matter that a worker may act on lists that are out of date.  What it finds stale or due was so from the
beginning (`System.JointPoll.old_of_stale`, `System.JointPoll.due_of_listed`), because a new attempt is not stale yet,
and a retry that has just been scheduled is not due yet.  And what was due from the beginning is found by one of the
workers at least (`System.JointPoll.exists_listed`), because it stops being due only when its retry is stored.

How many programs of a round run at once is left open here: a limit to that only rules out some of the ways in which
they may take turns.
-/

namespace PaymentRetry

open Simulation

/-! ### What becomes of one row -/

namespace RetryPolicy

/-- The pending row `a` completed by the ruling of `p` on `result` at `t`, or `a` itself if there is no ruling or the
store refuses the reason. -/
def settle (p : RetryPolicy) (result : GatewayResult) (t : DateTime) (a : Attempt) : Attempt :=
  match p.ruling result a.number t with
  | .ok (target, change) =>
    if Failure.ofTexts? change.message.join.toList = none then change.apply { a with state := target, updated := t }
    else a
  | .error _ => a

variable {p : RetryPolicy} {result : GatewayResult} {t : DateTime} {a : Attempt}

theorem settle_of_leavesPending (h : p.LeavesPending result a.number t) : p.settle result t a = a := by
  unfold settle
  rcases h with ⟨e, he⟩ | ⟨target, change, f, hruling, hf⟩
  · rw [he]
  · simp [hruling, hf]

theorem settle_of_ruling {target : AttemptState} {change : Change}
    (h : p.ruling result a.number t = .ok (target, change))
    (hmessage : Failure.ofTexts? change.message.join.toList = none) :
    p.settle result t a = change.apply { a with state := target, updated := t } := by
  unfold settle
  simp [h, hmessage]

@[simp]
theorem settle_id : (p.settle result t a).id = a.id := by
  unfold settle
  split
  · split <;> rfl
  · rfl

@[simp]
theorem settle_key : (p.settle result t a).key = a.key := by
  unfold settle
  split
  · split <;> rfl
  · rfl

@[simp]
theorem settle_number : (p.settle result t a).number = a.number := by
  unfold settle
  split
  · split <;> rfl
  · rfl

theorem settle_with_id (id : AttemptId) :
    p.settle result t { a with id := id } = { p.settle result t a with id := id } := by
  unfold settle
  simp only
  split
  · split <;> rfl
  · rfl

/-- With positive delays, a settled row is not due yet. -/
theorem lt_of_settle (hdelay : ∀ type index delay, p.delay type index = .ok (some delay) → 0 < delay.micros)
    (ha : a.state = .pending) (hretried : (p.settle result t a).state = .retried) {due : DateTime}
    (hdue : (p.settle result t a).dueAt = some due) : t < due := by
  cases hruling : p.ruling result a.number t with
  | error e =>
    rw [settle_of_leavesPending (.inl ⟨e, hruling⟩), ha] at hretried
    cases hretried
  | ok y =>
    obtain ⟨target, change⟩ := y
    cases hmessage : Failure.ofTexts? change.message.join.toList with
    | some f =>
      rw [settle_of_leavesPending (.inr ⟨target, change, f, hruling, hmessage⟩), ha] at hretried
      cases hretried
    | none =>
      rw [settle_of_ruling hruling hmessage] at hretried hdue
      obtain rfl : target = .retried := hretried
      -- only a delay that was added to the moment is written down
      cases rules_of_ruling hruling with
      | @retried type delay due' hwaits hadd =>
        obtain rfl : due' = due := by simpa [Change.apply] using hdue
        have hpos := hdelay _ _ _ hwaits.2
        have hmicros := DateTime.micros_of_add hadd
        show t.micros < due'.micros
        omega

end RetryPolicy

namespace Scheduler

/-- The row after a poll at `t`: an attempt pending at `horizon` or before is settled as a technical failure. -/
def recovered (s : Scheduler) (t horizon : DateTime) (a : Attempt) : Attempt :=
  if a.state = .pending ∧ a.updated ≤ horizon then s.policy.settle ⟨.pluginException, some leaseReason⟩ t a else a

/-- The retry of `a` with the identity `id`, settled by the answer of `g`. -/
def retried (s : Scheduler) (g : Charge → Except Failure GatewayResult) (t : DateTime) (id : AttemptId) (a : Attempt) :
    Attempt :=
  s.policy.settle (.ofAnswer (g a.charge)) t (a.retryAt t id)

/-- The delays and the lease of `s` are positive, and it has no circuit breaker. -/
structure PositiveDelays (s : Scheduler) : Prop where
  leased : 0 < s.lease.micros
  delayed : ∀ type index delay, s.policy.delay type index = .ok (some delay) → 0 < delay.micros
  unguarded : s.guarded = false

end Scheduler

/-- The retries due at `t` whose numbers fit the store. -/
def Store.retries (s : Store) (t : DateTime) : List DueRetry :=
  (s.dueRetries t none).filter fun d => fits (d.attempt.number + 1)

/-! ### What becomes of all rows -/

/-- The idle workers `ks` poll in any order of steps, all others rest, the clock shows the time of `σ₀` whenever they
act, and the gateway answers by the function `g` of the charge. -/
structure System.JointPoll (s : Scheduler) (g : Charge → Except Failure GatewayResult) (ks : List Nat) (σ₀ σ : System) :
    Prop extends Polls s (fun c x => x = g c) ks σ₀ σ where
  delays : s.PositiveDelays
  at_once : ∀ k ∈ ks, ∀ t, σ.log.At k t → t = σ₀.world.now

namespace System.JointPoll

variable {s : Scheduler} {g : Charge → Except Failure GatewayResult} {ks : List Nat} {w : World} {σ₀ σ : System}
  (hw : w.Unused) (h₀ : Reachable w σ₀) (h : JointPoll s g ks σ₀ σ)

include h in
theorem polledBy (hrange : ∃ horizon, σ₀.world.now.sub s.lease = .ok horizon) :
    PolledBy s (fun c x => x = g c) ks σ₀ σ :=
  ⟨h.toPolls, fun p e hp hmem => h.at_once _ hp e.before.now ⟨p, e, rfl, hmem, rfl⟩ ▸ hrange⟩

section

variable {p : Place} (hp : p.worker ∈ ks) {d : Draft} {b : Attempt} {refused : Bool} {before after : World}
  (hmem : ⟨p, .act (.exchanged ⟨.create d, .ok b, refused, before, after⟩)⟩ ∈ σ.log)

include hw h₀ h hp hmem

theorem insert_eq : before.store.insert d σ₀.world.now = .ok (b, after.store) := by
  obtain rfl : refused = false := h.granted p _ hp hmem
  rw [← h.at_once _ hp before.now ⟨p, _, rfl, hmem, rfl⟩]
  rcases ((h.sound hw h₀).exchanges p _ hmem).create_eq with ⟨f, hf, -⟩ | ⟨a, ha, hinsert⟩
  · cases hf
  · obtain rfl := Except.ok.inj ha
    exact hinsert

theorem mem_after : b.asStored ∈ after.store.rows :=
  (Store.insert_eq_ok (h.insert_eq hw h₀ hp hmem)).2.2.2 ▸ List.mem_append_right _ List.mem_cons_self

theorem id_ne {a : Attempt} (ha : a ∈ σ₀.world.store.rows) : a.id ≠ b.id := by
  intro hid
  obtain ⟨-, -, hfree, -⟩ := Store.insert_eq_ok (h.insert_eq hw h₀ hp hmem)
  obtain ⟨c, hc, hbecomes⟩ := (h.onward.grows_before hw h₀ (h.not_mem h₀ hp) hmem).exists_becomes ha
  have hne := List.find?_eq_none.1 hfree c hc
  simp [hbecomes.id_eq, hid] at hne

end

include hw h₀ h

/-- A row that has been completed since was completed by a worker in `ks`. -/
theorem exists_transition {r : Attempt} (hr : r ∈ σ.world.store.rows) (hsettled : r.state ≠ .pending)
    (hnew : r ∉ σ₀.world.store.rows) : ∃ p id target change refused before after, p.worker ∈ ks ∧
      ⟨p, .act (.exchanged ⟨.transition id .pending target change, .ok r, refused, before, after⟩)⟩ ∈ σ.log := by
  cases h.onward.stems hw h₀ r hr with
  | kept hold => exact absurd hold hnew
  | stored hmem _ hstored =>
    have hpending := (h.orderly h₀).pending_of_create hw hmem
    rw [hstored] at hsettled
    exact absurd hpending hsettled
  | completed hmem hallows =>
    obtain ⟨_, _, hp, -⟩ := hallows
    exact ⟨_, _, _, _, _, _, _, hp, hmem⟩

variable {horizon : DateTime} (hhorizon : σ₀.world.now.sub s.lease = .ok horizon)

include hhorizon

theorem viewed {k : Nat} (hk : k ∈ ks) : ∃ first second third, first.now = σ₀.world.now ∧
    σ.log.Viewed s (.steady fun c x => x = g c) k horizon first second third ∧
    σ.workers k =
      .finished (.polled (.ok (σ.log.countMade k 4 (third.store.dueRetries first.now none).length))) := by
  obtain ⟨horizon', first, second, third, hviewed, hreport⟩ := (h.polledBy ⟨_, hhorizon⟩).polled hw h₀ hk
  obtain ⟨after, hclock⟩ := hviewed.clock
  have hnow := h.at_once _ hk first.now ⟨⟨k, 0, 0⟩, _, rfl, hclock, rfl⟩
  obtain rfl : horizon' = horizon := by
    have heq := hviewed.polled.horizon_eq
    rw [hnow, hhorizon] at heq
    exact (Except.ok.inj heq).symm
  exact ⟨first, second, third, hnow, hviewed, hreport⟩

section

variable {p : Place} (hp : p.worker ∈ ks) {d : Draft} {b : Attempt} {refused : Bool} {before after : World}
  (hmem : ⟨p, .act (.exchanged ⟨.create d, .ok b, refused, before, after⟩)⟩ ∈ σ.log)

include hp hmem

theorem carriedOut : σ.log.CarriedOut s (.steady fun c x => x = g c) p b (g b.charge) := by
  obtain ⟨first, second, third, -, hviewed, -⟩ := h.viewed hw h₀ hhorizon hp
  obtain ⟨i, -, -, x, hcarried⟩ := hviewed.polled.created (h.orderly h₀) h.carryOn rfl hmem
  obtain ⟨stage, ⟨rfl, -⟩ | ⟨hguarded, -⟩, -⟩ := hcarried.called
  · exact hcarried
  · cases h.delays.unguarded.symm.trans hguarded

theorem exists_due : ∃ first second third,
    σ.log.Viewed s (.steady fun c x => x = g c) p.worker horizon first second third ∧
      third.store.Grows before.store ∧ ∃ due ∈ third.store.dueRetries first.now none, d = due.attempt.next := by
  obtain ⟨first, second, third, -, hviewed, -⟩ := h.viewed hw h₀ hhorizon hp
  obtain ⟨i, hplace, rfl, -⟩ := hviewed.polled.created (h.orderly h₀) h.carryOn rfl hmem
  obtain ⟨y, after', hlisted⟩ := hviewed.due
  have hgrows := h.onward.grows_rounds hw h₀ (h.fresh h₀) (p := ⟨p.worker, 3, 0⟩) (q := p) ⟨s, _, hp, rfl, rfl⟩ rfl
    (by rw [hplace]; simp) hlisted hmem
  rw [show after'.store = third.store from ((h.sound hw h₀).exchanges _ _ hlisted).effect.1] at hgrows
  exact ⟨first, second, third, hviewed, hgrows, _, List.get_mem _ i, rfl⟩

end

theorem eq_of_created {p q : Place} (hp : p.worker ∈ ks) (hq : q.worker ∈ ks) {d d' : Draft} {b b' : Attempt}
    {refused refused' : Bool} {before after before' after' : World}
    (hmem : ⟨p, .act (.exchanged ⟨.create d, .ok b, refused, before, after⟩)⟩ ∈ σ.log)
    (hmem' : ⟨q, .act (.exchanged ⟨.create d', .ok b', refused', before', after'⟩)⟩ ∈ σ.log)
    (hid : b.id = b'.id) : b = b' := by
  have hsound := h.sound hw h₀
  have hmade := (h.carriedOut hw h₀ hhorizon hp hmem).made_eq
  have hmade' := (h.carriedOut hw h₀ hhorizon hq hmem').made_eq
  obtain ⟨hkey, hnumber⟩ := (hsound.exchanges p _ hmem).grows.eq_of_id (hsound.exchanges q _ hmem').grows
    hsound.sequenced.distinct (h.mem_after hw h₀ hp hmem) (h.mem_after hw h₀ hq hmem') hid
  obtain rfl := (h.orderly h₀).made_unique hw hmade hmade' hkey hnumber
  exact Option.some.inj (hmade.symm.trans hmade')

/-- A stale attempt of any of the polls is a row of `σ₀`, because new attempts are not stale yet. -/
theorem old_of_stale {k : Nat} (hk : k ∈ ks) {first second third : World}
    (hviewed : σ.log.Viewed s (.steady fun c x => x = g c) k horizon first second third) {a : Attempt}
    (ha : a ∈ second.store.stalePending horizon none) :
    a ∈ σ₀.world.store.rows ∧ a.state = .pending ∧ a.updated ≤ horizon := by
  obtain ⟨hrow, hpending, hle⟩ := Store.mem_stalePending_iff.1 ha
  obtain ⟨x, after, hlisted⟩ := hviewed.stale
  obtain ⟨σ₁, later, h₁, hworld, -, hlog⟩ := h.onward.at_exchange (h.not_mem h₀ hk) hlisted
  have hunchanged : ∀ {b : Attempt}, b.Becomes a → b = a := by
    rintro b (rfl | hcompleted)
    · rfl
    · exact absurd hpending hcompleted.settled
  rw [show second = σ₁.world from hworld.symm] at hrow
  rcases h₁.origins hw h₀ hrow with
    ⟨b, hb, hbecomes⟩ | ⟨q, d, b, refused, before, after', hmem, ⟨_, _, hq, -⟩, hbecomes⟩
  · obtain rfl := hunchanged hbecomes
    exact ⟨hb, hpending, hle⟩
  · have hmem' : ⟨q, .act (.exchanged ⟨.create d, .ok b, refused, before, after'⟩)⟩ ∈ σ.log :=
      hlog ▸ List.mem_append_right _ (List.mem_cons_of_mem _ hmem)
    obtain ⟨hcomplete, -⟩ := Store.insert_eq_ok (h.insert_eq hw h₀ hq hmem')
    have hupdated : b.updated = σ₀.world.now := (Store.complete?_eq_some hcomplete).2.2.2.2.2.2.2.2.2.2.2.1
    have hle' : b.asStored.updated.micros ≤ horizon.micros := by
      rw [hunchanged hbecomes]
      exact hle
    rw [show b.asStored.updated = b.updated from rfl, hupdated] at hle'
    have hsub := DateTime.micros_of_sub hhorizon
    have hpos := h.delays.leased
    omega

/-- A transition is for a stale row of `σ₀` or for what its own program has created. -/
theorem concludes {p : Place} (hp : p.worker ∈ ks) {id : AttemptId} {source target : AttemptState} {change : Change}
    {x : Except Failure Attempt} {refused : Bool} {before after : World}
    (hmem : ⟨p, .act (.exchanged ⟨.transition id source target change, x, refused, before, after⟩)⟩ ∈ σ.log) :
    ∃ call stage, Recording.Concludes call stage (σ.log.stage p) ∧ call.scheduler = s ∧ stage.moved = [] ∧
      stage.published = none ∧
      ((∃ a ∈ σ₀.world.store.rows, a.id = call.id ∧ a.state = .pending ∧ a.updated ≤ horizon ∧
          call.result = ⟨.pluginException, some Scheduler.leaseReason⟩) ∨
        ∃ d b refused before after, ⟨p, .act (.exchanged ⟨.create d, .ok b, refused, before, after⟩)⟩ ∈ σ.log ∧
          b.id = call.id ∧ call.result = .ofAnswer (g b.charge)) := by
  obtain ⟨first, second, third, -, hviewed, -⟩ := h.viewed hw h₀ hhorizon hp
  rcases hviewed.polled.moved rfl hmem with ⟨i, hplace⟩ | ⟨d, b, refused', before', after', hcreate⟩
  · have hconcludes := hviewed.polled.recovered i
    rw [← hplace] at hconcludes
    obtain ⟨hold, hpending, hle⟩ := h.old_of_stale hw h₀ hhorizon hp hviewed (List.get_mem _ i)
    exact ⟨_, _, hconcludes, rfl, rfl, rfl, .inl ⟨_, hold, rfl, hpending, hle, rfl⟩⟩
  · obtain ⟨stage, hcalls, hconcludes⟩ := (h.carriedOut hw h₀ hhorizon hp hcreate).called
    have hfirst : stage.moved = [] ∧ stage.published = none := by
      rcases hcalls with ⟨-, rfl⟩ | ⟨-, rfl, -⟩ <;> exact ⟨rfl, rfl⟩
    exact ⟨_, _, hconcludes, rfl, hfirst.1, hfirst.2, .inr ⟨d, b, refused', before', after', hcreate, rfl, rfl⟩⟩

/-- A completed row is a recovered row of `σ₀`, or was created by its own program and settled by the gateway's answer.
-/
theorem completed {p : Place} (hp : p.worker ∈ ks) {id : AttemptId} {source target : AttemptState} {change : Change}
    {r : Attempt} {refused : Bool} {before after : World}
    (hmem : ⟨p, .act (.exchanged ⟨.transition id source target change, .ok r, refused, before, after⟩)⟩ ∈ σ.log) :
    (∃ a ∈ σ₀.world.store.rows, r.id = a.id ∧ r = s.recovered σ₀.world.now horizon a) ∨
      ∃ d b refused before after, ⟨p, .act (.exchanged ⟨.create d, .ok b, refused, before, after⟩)⟩ ∈ σ.log ∧
        r.id = b.id ∧ r = s.policy.settle (.ofAnswer (g b.charge)) σ₀.world.now b.asStored := by
  have hsound := h.sound hw h₀
  have hbefore := (hsound.exchanges p _ hmem).sequenced.distinct
  have hnow : before.now = σ₀.world.now := h.at_once _ hp _ ⟨p, _, rfl, hmem, rfl⟩
  obtain ⟨call, stage, hconcludes, rfl, hfirst, -, hcall⟩ := h.concludes hw h₀ hhorizon hp hmem
  obtain ⟨a, ha, hid, hpending, hgives, hmessage, rfl⟩ :=
    hconcludes.moved_row hfirst hsound (fun e => h.granted p e hp) hmem
  -- the ruling was made at the one moment
  obtain ⟨t, ht, hruling⟩ := (h.polledBy ⟨_, hhorizon⟩).exists_ruling hw h₀ hp hgives
  obtain rfl := h.at_once _ hp t ht
  rw [hnow]
  rcases hcall with ⟨c, hold, hcid, hstate, hle, hresult⟩ | ⟨d, b, refused', before', after', hcreate, hbid, hresult⟩
  · obtain rfl := (h.onward.grows_before hw h₀ (h.not_mem h₀ hp) hmem).eq_of_pending hbefore hold ha
      (hid.trans hcid.symm) hpending
    refine .inl ⟨a, hold, rfl, ?_⟩
    rw [Scheduler.recovered, if_pos ⟨hstate, hle⟩, ← hresult, RetryPolicy.settle_of_ruling hruling hmessage]
  · obtain ⟨-, rest, d', refused₁, before₁, after₁, hpast⟩ := h.carriedOut hw h₀ hhorizon hp hcreate
    -- the row had been stored before
    have hgrows := (h.orderly h₀).grows_since hw hpast hmem (by simp)
    have hstored := h.mem_after hw h₀ hp (Log.mem_past.1 (hpast ▸ List.mem_append_right rest List.mem_cons_self))
    have hsame := hgrows.eq_of_pending hbefore hstored ha (hid.trans hbid.symm) hpending
    refine .inr ⟨d, b, refused', before', after', hcreate, hid.trans hbid.symm, ?_⟩
    rw [← hsame, ← hresult, RetryPolicy.settle_of_ruling hruling hmessage]

/-- An old row is recovered if its lease has expired, and otherwise unchanged. -/
theorem eq_recovered (hks : ks ≠ []) {a r : Attempt} (ha : a ∈ σ₀.world.store.rows) (hr : r ∈ σ.world.store.rows)
    (hbecomes : a.Becomes r) : r = s.recovered σ₀.world.now horizon a := by
  have hsound := h.sound hw h₀
  have hdistinct := (h₀.log_sound hw).sequenced.distinct
  rcases hbecomes with rfl | hcompleted
  · by_cases hstale : r.state = .pending ∧ r.updated ≤ horizon
    · -- it has been recovered, and the policy leaves it pending
      obtain ⟨k, hk⟩ := List.exists_mem_of_ne_nil ks hks
      obtain ⟨first, second, third, -, hviewed, -⟩ := h.viewed hw h₀ hhorizon hk
      obtain ⟨x, after, hlisted⟩ := hviewed.stale
      have hfound := (h.onward.grows_before hw h₀ (h.not_mem h₀ hk) hlisted).mem_between
        (hsound.exchanges _ _ hlisted).grows_before hsound.sequenced.distinct ha hr
      have hmem := Store.mem_stalePending_iff.2 ⟨hfound, hstale⟩
      rcases (h.polledBy ⟨_, hhorizon⟩).recovered_or hw h₀ hk hviewed hmem with
        hsettled | ⟨r', hr', hid, t, ht, hleaves⟩
      · exact absurd hsettled (hsound.sequenced.distinct.not_settled hr hstale.1)
      · obtain rfl := hsound.sequenced.distinct.eq_of_id hr' hr hid
        obtain rfl := h.at_once _ hk t ht
        rw [Scheduler.recovered, if_pos hstale, RetryPolicy.settle_of_leavesPending hleaves]
    · rw [Scheduler.recovered, if_neg hstale]
  · have hnew : r ∉ σ₀.world.store.rows := by
      intro hold
      rw [hdistinct.eq_of_id hold ha hcompleted.id_eq] at hcompleted
      exact hcompleted.settled hcompleted.pending
    obtain ⟨p, id, target, change, refused, before, after, hp, hmem⟩ :=
      h.exists_transition hw h₀ hr hcompleted.settled hnew
    rcases h.completed hw h₀ hhorizon hp hmem with ⟨c, hc, hid, heq⟩ | ⟨d, b, _, _, _, hcreate, hid, -⟩
    · rwa [hdistinct.eq_of_id hc ha (hid.symm.trans hcompleted.id_eq)] at heq
    · exact absurd (hcompleted.id_eq.symm.trans hid) (h.id_ne hw h₀ hp hcreate ha)

/-- A new row is settled by the gateway's answer. -/
theorem eq_settle {p : Place} (hp : p.worker ∈ ks) {d : Draft} {b r : Attempt} {refused : Bool} {before after : World}
    (hmem : ⟨p, .act (.exchanged ⟨.create d, .ok b, refused, before, after⟩)⟩ ∈ σ.log) (hr : r ∈ σ.world.store.rows)
    (hbecomes : b.asStored.Becomes r) :
    r = s.policy.settle (.ofAnswer (g b.charge)) σ₀.world.now b.asStored := by
  have hsound := h.sound hw h₀
  rcases hbecomes with rfl | hcompleted
  · have hcarried := h.carriedOut hw h₀ hhorizon hp hmem
    have hpending : b.state = .pending := (h.orderly h₀).pending_of_create hw hmem
    rcases (h.polledBy ⟨_, hhorizon⟩).carriedOut_or hw h₀ hp hcarried with hsettled | ⟨r, hr', hid, t, ht, hleaves⟩
    · exact absurd hsettled (hsound.sequenced.distinct.not_settled (a := b.asStored) hr hpending)
    · obtain rfl := hsound.sequenced.distinct.eq_of_id hr' hr hid
      obtain rfl := h.at_once _ hp t ht
      exact (RetryPolicy.settle_of_leavesPending hleaves).symm
  · have hnew : r ∉ σ₀.world.store.rows := fun hold => h.id_ne hw h₀ hp hmem hold hcompleted.id_eq
    obtain ⟨q, id, target, change, refused', before', after', hq, hmem'⟩ :=
      h.exists_transition hw h₀ hr hcompleted.settled hnew
    rcases h.completed hw h₀ hhorizon hq hmem' with ⟨c, hc, hid, -⟩ | ⟨d', b', _, _, _, hcreate, hid, heq⟩
    · exact absurd (hid.symm.trans hcompleted.id_eq) (h.id_ne hw h₀ hp hmem hc)
    · rwa [h.eq_of_created hw h₀ hhorizon hp hq hmem hcreate (hcompleted.id_eq.symm.trans hid)]

/-- A due attempt of any of the polls was due in `σ₀`, because retries scheduled since are not due yet. -/
theorem due_of_listed (hks : ks ≠ []) {k : Nat} (hk : k ∈ ks) {first second third : World}
    (hviewed : σ.log.Viewed s (.steady fun c x => x = g c) k horizon first second third) {d : DueRetry}
    (hd : d ∈ third.store.dueRetries first.now none) : d ∈ σ₀.world.store.dueRetries σ₀.world.now none := by
  obtain ⟨hrow, hretried, hdue, hle, hpayment, hlater⟩ := Store.mem_dueRetries_iff.1 hd
  obtain ⟨x, after, hlisted⟩ := hviewed.due
  obtain ⟨x', hclock⟩ := hviewed.clock
  have hnow : first.now = σ₀.world.now := h.at_once _ hk _ ⟨⟨k, 0, 0⟩, _, rfl, hclock, rfl⟩
  rw [hnow] at hle
  have hsettled : d.attempt.state ≠ .pending := by simp [hretried]
  have hr : d.attempt ∈ σ.world.store.rows :=
    ((h.sound hw h₀).exchanges _ _ hlisted).grows_before.mem_of_settled hrow hsettled
  have hgrows := h.onward.grows_before hw h₀ (h.not_mem h₀ hk) hlisted
  have hnotyet : ∀ {a : Attempt} {result : GatewayResult}, a.state = .pending →
      d.attempt ≠ s.policy.settle result σ₀.world.now a := by
    intro a result hpending heq
    have hlt := RetryPolicy.lt_of_settle h.delays.delayed hpending (heq ▸ hretried) (heq ▸ hdue)
    have hle' : d.due.micros ≤ σ₀.world.now.micros := hle
    have hlt' : σ₀.world.now.micros < d.due.micros := hlt
    omega
  have hold : d.attempt ∈ σ₀.world.store.rows := by
    rcases h.onward.origins hw h₀ hr with ⟨a, ha, rfl | hcompleted⟩ | ⟨p, d', b, _, _, _, hmem, ⟨_, _, hp, -⟩, hbecomes⟩
    · exact ha
    · have heq := h.eq_recovered hw h₀ hhorizon hks ha hr (.inr hcompleted)
      rw [Scheduler.recovered] at heq
      split at heq
      · exact absurd heq (hnotyet hcompleted.pending)
      · exact absurd hcompleted.pending (heq ▸ hsettled)
    · have hpending : b.state = .pending := (h.orderly h₀).pending_of_create hw hmem
      exact absurd (h.eq_settle hw h₀ hhorizon hp hmem hr hbecomes) (hnotyet (a := b.asStored) hpending)
  refine Store.mem_dueRetries_iff.2 ⟨hold, hretried, hdue, hle, hpayment, Store.hasLater_eq_false_iff.2 ?_⟩
  intro b hb hpayment'
  obtain ⟨c, hc, hbecomes⟩ := hgrows.exists_becomes hb
  rw [← hbecomes.number_eq]
  exact Store.hasLater_eq_false_iff.1 hlater c hc (hbecomes.payment_eq.trans hpayment')

theorem due_of_created (hks : ks ≠ []) {p : Place} (hp : p.worker ∈ ks) {d : Draft} {b : Attempt} {refused : Bool}
    {before after : World}
    (hmem : ⟨p, .act (.exchanged ⟨.create d, .ok b, refused, before, after⟩)⟩ ∈ σ.log) :
    ∃ due ∈ σ₀.world.store.retries σ₀.world.now,
      b.asStored = due.attempt.retryAt σ₀.world.now b.id ∧ b.charge = due.attempt.charge := by
  obtain ⟨first, second, third, hviewed, -, due, hdue, rfl⟩ := h.exists_due hw h₀ hhorizon hp hmem
  obtain ⟨hstored, hcharge, hfits⟩ := Store.retry_of_insert (h.insert_eq hw h₀ hp hmem)
  exact ⟨due, List.mem_filter.2 ⟨h.due_of_listed hw h₀ hhorizon hks hp hviewed hdue, hfits⟩, hstored, hcharge⟩

/-- A row is an old one or the retry of one that was due in `σ₀`, as `recovered` and `retried` say. -/
theorem origins (hks : ks ≠ []) {r : Attempt} (hr : r ∈ σ.world.store.rows) :
    (∃ a ∈ σ₀.world.store.rows, r = s.recovered σ₀.world.now horizon a) ∨
      ∃ due ∈ σ₀.world.store.retries σ₀.world.now, ∃ id, (∀ a ∈ σ₀.world.store.rows, a.id ≠ id) ∧
        r = s.retried g σ₀.world.now id due.attempt := by
  rcases h.onward.origins hw h₀ hr with ⟨a, ha, hbecomes⟩ | ⟨p, d, b, _, _, _, hmem, ⟨_, _, hp, -⟩, hbecomes⟩
  · exact .inl ⟨a, ha, h.eq_recovered hw h₀ hhorizon hks ha hr hbecomes⟩
  · obtain ⟨due, hdue, hstored, hcharge⟩ := h.due_of_created hw h₀ hhorizon hks hp hmem
    refine .inr ⟨due, hdue, b.id, fun a ha => h.id_ne hw h₀ hp hmem ha, ?_⟩
    rw [Scheduler.retried, ← hstored, ← hcharge]
    exact h.eq_settle hw h₀ hhorizon hp hmem hr hbecomes

/-- Each retry that was due in `σ₀` is listed by one of the workers.  If one of them has not found it, a later attempt
had been created, and its creator had listed when there were fewer rows. -/
private theorem exists_listed {d : DueRetry} (hd : d ∈ σ₀.world.store.dueRetries σ₀.world.now none) (n : Nat) :
    ∀ k ∈ ks, ∀ first second third, σ.log.Viewed s (.steady fun c x => x = g c) k horizon first second third →
      third.store.rows.length ≤ n →
      ∃ j ∈ ks, ∃ first second third, σ.log.Viewed s (.steady fun c x => x = g c) j horizon first second third ∧
        d ∈ third.store.dueRetries first.now none := by
  obtain ⟨hrow, hretried, hdue, hle, hpayment, hlater⟩ := Store.mem_dueRetries_iff.1 hd
  induction n with
  | zero =>
    intro k hk first second third hviewed hlength
    obtain ⟨x, after, hlisted⟩ := hviewed.due
    have hgrows := h.onward.grows_before hw h₀ (h.not_mem h₀ hk) hlisted
    have hpos := List.length_pos_of_mem (hgrows.mem_of_settled hrow (by simp [hretried]))
    simp only at hpos
    omega
  | succ n ih =>
    intro k hk first second third hviewed hlength
    obtain ⟨x, after, hlisted⟩ := hviewed.due
    obtain ⟨x', hclock⟩ := hviewed.clock
    have hnow : first.now = σ₀.world.now := h.at_once _ hk _ ⟨⟨k, 0, 0⟩, _, rfl, hclock, rfl⟩
    obtain ⟨σ₁, later, h₁, hworld, -, hlog⟩ := h.onward.at_exchange (h.not_mem h₀ hk) hlisted
    have hgrows := h.onward.grows_before hw h₀ (h.not_mem h₀ hk) hlisted
    have hrow' := hgrows.mem_of_settled hrow (by simp [hretried])
    cases hlater' : third.store.hasLater d.attempt with
    | false =>
      refine ⟨k, hk, first, second, third, hviewed, Store.mem_dueRetries_iff.2 ?_⟩
      exact ⟨hrow', hretried, hdue, hnow ▸ hle, hpayment, hlater'⟩
    | true =>
      obtain ⟨c, hc, hnumber⟩ := List.any_eq_true.1 hlater'
      simp only [Bool.and_eq_true, decide_eq_true_eq] at hnumber
      rw [show third = σ₁.world from hworld.symm] at hc
      rcases h₁.origins hw h₀ hc with ⟨b, hb, hbecomes⟩ | ⟨p, d', b, refused, before, after', hmem, ⟨_, _, hp, -⟩, -⟩
      · have hle := Store.hasLater_eq_false_iff.1 hlater b hb (hbecomes.payment_eq.symm.trans hnumber.1)
        rw [← hbecomes.number_eq] at hle
        omega
      · have hmem' : ⟨p, .act (.exchanged ⟨.create d', .ok b, refused, before, after'⟩)⟩ ∈ σ.log :=
          hlog ▸ List.mem_append_right _ (List.mem_cons_of_mem _ hmem)
        obtain ⟨first', second', third', hviewed', hgrows', -⟩ := h.exists_due hw h₀ hhorizon hp hmem'
        refine ih p.worker hp first' second' third' hviewed' ?_
        -- the later attempt had been stored in between
        have hbetween := (((h₁.reachable h₀).log_sound hw).exchanges p _ hmem).grows.length_le
        have hfirst := hgrows'.length_le
        have hrows := congrArg List.length (Store.insert_eq_ok (h.insert_eq hw h₀ hp hmem')).2.2.2
        rw [List.length_append, List.length_singleton] at hrows
        rw [hworld] at hbetween
        simp only at hbetween
        omega

/-- Each retry that was due has been created, if its number fits. -/
theorem exists_created (hks : ks ≠ []) {due : DueRetry} (hdue : due ∈ σ₀.world.store.retries σ₀.world.now) :
    ∃ p d b refused before after, p.worker ∈ ks ∧
      ⟨p, .act (.exchanged ⟨.create d, .ok b, refused, before, after⟩)⟩ ∈ σ.log ∧
        b.asStored = due.attempt.retryAt σ₀.world.now b.id ∧ b.charge = due.attempt.charge := by
  obtain ⟨hdue, hfits⟩ := List.mem_filter.1 hdue
  have hsequenced := (h₀.log_sound hw).sequenced
  obtain ⟨hrow, -, -, -, -, hlater⟩ := Store.mem_dueRetries_iff.1 hdue
  obtain ⟨j, hj⟩ := List.exists_mem_of_ne_nil ks hks
  obtain ⟨first, second, third, -, hviewed, -⟩ := h.viewed hw h₀ hhorizon hj
  obtain ⟨k, hk, first, second, third, hviewed, hlisted⟩ :=
    h.exists_listed hw h₀ hhorizon hdue _ j hj first second third hviewed (Nat.le_refl _)
  obtain ⟨a, ha, hkey, hnumber⟩ := (h.polledBy ⟨_, hhorizon⟩).followed hw h₀ hk hviewed hlisted hfits
  rcases h.onward.origins hw h₀ ha with
    ⟨b, hb, hbecomes⟩ | ⟨p, d, b, refused, before, after, hmem, ⟨_, _, hp, -⟩, hbecomes⟩
  · -- it was not there before
    have hpayment := (h₀.coherent hw).one_payment b hb _ hrow (hbecomes.key_eq.symm.trans hkey)
    have hle := Store.hasLater_eq_false_iff.1 hlater b hb hpayment
    rw [← hbecomes.number_eq] at hle
    omega
  · obtain ⟨due', hdue', hstored, hcharge⟩ := h.due_of_created hw h₀ hhorizon hks hp hmem
    obtain ⟨hrow', -⟩ := Store.mem_dueRetries_iff.1 (List.mem_filter.1 hdue').1
    have hkey' := hbecomes.key_eq.symm.trans hkey
    have hnumber' := hbecomes.number_eq.symm.trans hnumber
    rw [hstored] at hkey' hnumber'
    have hsame : due'.attempt = due.attempt :=
      hsequenced.eq_of_number hrow' hrow hkey' (by simpa [Attempt.retryAt] using hnumber')
    rw [hsame] at hstored hcharge
    exact ⟨p, d, b, refused, before, after, hp, hmem, hstored, hcharge⟩

end System.JointPoll

end PaymentRetry
