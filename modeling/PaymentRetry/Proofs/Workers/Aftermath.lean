import PaymentRetry.Proofs.Workers.Polling

/-!
# What polls leave behind

`System.PolledBy` says that some idle workers have polled while all others rested, that no request was refused to them
and that nobody called the work off.  Then every attempt that one of them found stale has been completed, and every
attempt that one of them has made has been carried out and completed, unless there was no ruling for it or the reason
could not be stored (`System.PolledBy.recovered_or`, `System.PolledBy.carriedOut_or`).  A retry that one of them found
due has been made, by it or by another (`System.PolledBy.followed`).
-/

namespace PaymentRetry

open Simulation

/-! ### What one worker has done -/

/-- The `create` with which a program begins is its only one. -/
theorem Orderly.create_eq {w₀ w : World} {log : Log} (h : Orderly Scheduler.conduct w₀ log w) {p : Place}
    {rest : List Act} {d d' : Draft} {a : Attempt} {x : Except Failure Attempt} {refused refused' : Bool}
    {before after before' after' : World}
    (hpast : log.past p = rest ++ [.exchanged ⟨.create d, .ok a, refused, before, after⟩])
    (hmem : ⟨p, .act (.exchanged ⟨.create d', x, refused', before', after'⟩)⟩ ∈ log) :
    (⟨.create d', x, refused', before', after'⟩ : Exchange) = ⟨.create d, .ok a, refused, before, after⟩ := by
  obtain ⟨later, earlier, hlog, -, hasks⟩ := h.exists_earlier hmem (by simp)
  have hstage : Stage.ofActs (Log.past p earlier) = {} := hasks.1
  rw [hlog, Log.past_append, Log.past_cons_act] at hpast
  rcases List.eq_nil_or_concat' (Log.past p earlier) with hnil | ⟨L, last, hL⟩
  · rw [hnil, ← List.concat_eq_append, ← List.concat_eq_append, List.concat_inj] at hpast
    exact Act.exchanged.inj hpast.2
  · -- otherwise the attempt had been made before
    rw [hL, ← List.cons_append, ← List.append_assoc, ← List.concat_eq_append, ← List.concat_eq_append,
      List.concat_inj] at hpast
    have hmade : .exchanged ⟨.create d, .ok a, refused, before, after⟩ ∈ Log.past p earlier := by
      rw [hL, ← hpast.2]
      exact List.mem_append_right _ List.mem_cons_self
    exact absurd (congrArg Stage.attempt hstage) (Stage.attempt_ne_none hmade)

/-- The stores that a program has seen since its `create` are the one after that call or have grown from it. -/
theorem Orderly.grows_since {w₀ w : World} {log : Log} (hw₀ : w₀.Unused) (h : Orderly Scheduler.conduct w₀ log w)
    {p : Place} {rest : List Act} {d : Draft} {x : Except Failure Attempt} {refused : Bool} {before after : World}
    (hpast : log.past p = rest ++ [.exchanged ⟨.create d, x, refused, before, after⟩]) {e : Exchange}
    (hmem : ⟨p, .act (.exchanged e)⟩ ∈ log) (hcreate : ∀ d, e.request ≠ .create d) :
    after.store.Grows e.before.store := by
  have hfollows := h.past_grows hw₀ p
  have hmem := Log.mem_past.2 hmem
  rw [hpast, List.pairwise_append] at hfollows
  rw [hpast, List.mem_append, List.mem_singleton] at hmem
  rcases hmem with hmem | heq
  · exact hfollows.2.2 _ hmem _ List.mem_cons_self _ _ rfl rfl
  · cases heq
    exact absurd rfl (hcreate d)

section

variable {w₀ w : World} {log : Log} {s : Scheduler} {m : Manners} {k : Nat} {t horizon : DateTime}
  {stale : List Attempt} {due : List DueRetry}

private theorem Scheduler.Calls.attempt_eq {c : Charge} {σ σ' : Stage} {x : Except Failure GatewayResult}
    (h : s.Calls m c σ σ' x) : σ'.attempt = σ.attempt := by
  rcases h with ⟨-, rfl⟩ | ⟨-, rfl, -⟩ <;> rfl

private theorem Scheduler.Executes.recorded_of_carryOn (hm : m.CarryOn) {a : Attempt} {σ σ' : Stage}
    (h : s.Executes m a σ σ') : ∃ σ₁ x, s.Calls m a.charge σ σ₁ x ∧
      Recording.Concludes ⟨s, a.key, a.id, .ofAnswer x⟩ σ₁ σ' := by
  cases h with
  | recorded hcalls hconcludes => exact ⟨_, _, hcalls, hconcludes⟩
  | @calledOff σ' e hcalls he =>
    rcases hcalls with ⟨hx, -⟩ | ⟨-, -, hx⟩
    · rw [hm.answers _ e hx] at he
      cases he
    · cases hx
      cases he

/-- The program at `p` has created `b` and executed it, and `x` is what it heard of the charge. -/
structure Log.CarriedOut (log : Log) (s : Scheduler) (m : Manners) (p : Place) (b : Attempt)
    (x : Except Failure GatewayResult) : Prop where
  called : ∃ σ, s.Calls m b.charge { attempt := some b } σ x ∧
    Recording.Concludes ⟨s, b.key, b.id, .ofAnswer x⟩ σ (log.stage p)
  /-- All other acts of the program came after its `create`. -/
  since : ∃ rest d refused before after, log.past p =
    rest ++ [.exchanged ⟨.create d, .ok b, refused, before, after⟩]

theorem Log.CarriedOut.made_eq {p : Place} {b : Attempt} {x : Except Failure GatewayResult}
    (h : log.CarriedOut s m p b x) : log.made p = some b := by
  obtain ⟨σ, hcalls, hconcludes⟩ := h.called
  exact hconcludes.keeps.1.trans hcalls.attempt_eq

/-- A `create` logged in a poll is the retry of an attempt in `due`, and its attempt has been carried out. -/
theorem Log.Polled.created (h : log.Polled s m k t horizon stale due) (hlog : Orderly Scheduler.conduct w₀ log w)
    (hm : m.CarryOn) {p : Place} (hp : p.worker = k) {d : Draft} {b : Attempt} {refused : Bool} {before after : World}
    (hmem : ⟨p, .act (.exchanged ⟨.create d, .ok b, refused, before, after⟩)⟩ ∈ log) :
    ∃ i : Fin due.length, p = ⟨k, 4, i⟩ ∧ d = (due.get i).attempt.next ∧ ∃ x, log.CarriedOut s m p b x := by
  obtain ⟨_, r, i⟩ := p
  subst hp
  have hmade : (log.stage ⟨_, r, i⟩).attempt ≠ none := Stage.attempt_ne_none (Log.mem_past.2 hmem)
  by_cases hrecovers : r = 2 ∧ i < stale.length
  · obtain ⟨rfl, hi⟩ := hrecovers
    exact absurd (h.recovered ⟨i, hi⟩).keeps.1 hmade
  by_cases hfires : r = 4 ∧ i < due.length
  · obtain ⟨rfl, hi⟩ := hfires
    refine ⟨⟨i, hi⟩, rfl, ?_⟩
    cases h.fired ⟨i, hi⟩ with
    | unmade _ hstage => exact absurd (congrArg Stage.attempt hstage) hmade
    | made hpast hexecutes =>
      have heq := hlog.create_eq hpast hmem
      cases heq
      obtain ⟨σ, x, hcalls, hconcludes⟩ := hexecutes.recorded_of_carryOn hm
      exact ⟨rfl, x, ⟨σ, hcalls, hconcludes⟩, _, _, _, _, _, hpast⟩
  · obtain ⟨clock, hstage⟩ := h.elsewhere r i hrecovers hfires
    exact absurd (congrArg Stage.attempt hstage) hmade

/-- A transition logged in a poll is for an attempt in `stale` or one created in the poll. -/
theorem Log.Polled.moved (h : log.Polled s m k t horizon stale due) {p : Place} (hp : p.worker = k) {id : AttemptId}
    {source target : AttemptState} {change : Change} {x : Except Failure Attempt} {refused : Bool}
    {before after : World}
    (hmem : ⟨p, .act (.exchanged ⟨.transition id source target change, x, refused, before, after⟩)⟩ ∈ log) :
    (∃ i : Fin stale.length, p = ⟨k, 2, i⟩) ∨ ∃ d b refused before after,
      ⟨p, .act (.exchanged ⟨.create d, .ok b, refused, before, after⟩)⟩ ∈ log := by
  obtain ⟨_, r, i⟩ := p
  subst hp
  have hmoved := Stage.mem_moved (Log.mem_past.2 hmem)
  by_cases hrecovers : r = 2 ∧ i < stale.length
  · obtain ⟨rfl, hi⟩ := hrecovers
    exact .inl ⟨⟨i, hi⟩, rfl⟩
  by_cases hfires : r = 4 ∧ i < due.length
  · obtain ⟨rfl, hi⟩ := hfires
    cases h.fired ⟨i, hi⟩ with
    | unmade _ hstage =>
      rw [hstage] at hmoved
      cases hmoved
    | made hpast _ =>
      exact .inr ⟨_, _, _, _, _, Log.mem_past.1 (hpast ▸ List.mem_append_right _ List.mem_cons_self)⟩
  · obtain ⟨clock, hstage⟩ := h.elsewhere r i hrecovers hfires
    rw [show Stage.ofActs (log.past _) = _ from hstage] at hmoved
    cases hmoved

end

/-! ### The attempt after an attempt -/

/-- The attempt with the next number of the same payment exists. -/
def Store.Followed (s : Store) (a : Attempt) : Prop := ∃ b ∈ s.rows, b.key = a.key ∧ b.number = a.number + 1

theorem Store.Followed.mono {s s' : Store} {a : Attempt} (h : s.Followed a) (hgrows : s.Grows s') :
    s'.Followed a := by
  obtain ⟨b, hb, hkey, hnumber⟩ := h
  obtain ⟨c, hc, hbecomes⟩ := hgrows.exists_becomes hb
  exact ⟨c, hc, hbecomes.key_eq.trans hkey, hbecomes.number_eq.trans hnumber⟩

namespace Exchange.Sound

variable {s : Store} {a : Attempt} {before after : World}

theorem followed_of_made {b : Attempt} {refused : Bool}
    (h : Exchange.Sound ⟨.create a.next, .ok b, refused, before, after⟩ s) : s.Followed a := by
  rcases h.effect with ⟨f, hf, -⟩ | ⟨b', now, hb', hinsert⟩
  · cases hf
  · obtain rfl := Except.ok.inj hb'
    obtain ⟨hcomplete, -, -, hrows⟩ := Store.insert_eq_ok hinsert
    obtain ⟨hkey, -, hnumber, -⟩ := Store.complete?_eq_some hcomplete
    have hstored : after.store.Followed a :=
      ⟨b.asStored, hrows ▸ List.mem_append_right _ List.mem_cons_self, (Option.some.inj hkey).symm,
        (Option.some.inj hnumber).symm⟩
    exact hstored.mono h.grows

/-- If a coherent store refuses the successor of `a`, although its number fits, the successor exists. -/
theorem followed_of_unmade {f : Failure} (h : Exchange.Sound ⟨.create a.next, .error f, false, before, after⟩ s)
    (hcoherent : before.store.Coherent) (ha : a ∈ before.store.rows) (hfits : Store.fits (a.number + 1) = true) :
    s.Followed a := by
  refine Store.Followed.mono ?_ h.grows_before
  cases hfree : before.store.hasNumber a.key (a.number + 1) with
  | false =>
    obtain ⟨b, s', hinsert⟩ :=
      Store.exists_insert_next (hcoherent.storable a ha) hcoherent.minted hfits hfree before.now
    rcases h.create_eq with ⟨f', -, hinsert'⟩ | ⟨b', hb', -⟩
    · rw [hinsert] at hinsert'
      cases hinsert'
    · cases hb'
  | true =>
    obtain ⟨b, hb, hnumber⟩ := List.any_eq_true.1 hfree
    simp only [Bool.and_eq_true, decide_eq_true_eq] at hnumber
    exact ⟨b, hb, hnumber.1, hnumber.2⟩

end Exchange.Sound

/-! ### What several workers have done -/

/-- The workers `ks` go from idle in `σ₀` to the end of an unlimited poll in `σ`, while no other worker moves.  No
request of theirs is refused, and the gateway's answers to them satisfy `answers`, which admits no cancellation. -/
structure System.Polls (s : Scheduler) (answers : Charge → Except Failure GatewayResult → Prop) (ks : List Nat)
    (σ₀ σ : System) : Prop where
  unlimited : s.batch = none
  steady : ∀ c e, answers c (.error e) → e.isCancellation = false
  idle : ∀ k ∈ ks, σ₀.workers k = .idle
  onward : Onward (.polls s ks) σ₀ σ
  finished : ∀ k ∈ ks, ∃ x, σ.workers k = .finished x
  granted : ∀ p e, p.worker ∈ ks → ⟨p, .act (.exchanged e)⟩ ∈ σ.log → e.refused = false
  answered : ∀ p c x refused before after, p.worker ∈ ks →
    ⟨p, .act (.exchanged ⟨.charge c, x, refused, before, after⟩)⟩ ∈ σ.log → answers c x

/-- Moreover, the horizon of stale attempts could be computed in each poll. -/
structure System.PolledBy (s : Scheduler) (answers : Charge → Except Failure GatewayResult → Prop) (ks : List Nat)
    (σ₀ σ : System) : Prop extends Polls s answers ks σ₀ σ where
  in_range : ∀ p e, p.worker ∈ ks → ⟨p, .act (.exchanged e)⟩ ∈ σ.log →
    ∃ horizon, e.before.now.sub s.lease = .ok horizon

/-- What worker `k` has done in its poll: it read the clock in `first`, listed the stale attempts in `second` and the
due ones in `third`. -/
structure Log.Viewed (log : Log) (s : Scheduler) (m : Manners) (k : Nat) (horizon : DateTime)
    (first second third : World) : Prop where
  clock : ∃ after, ⟨⟨k, 0, 0⟩, .act (.exchanged ⟨.now, first.now, false, first, after⟩)⟩ ∈ log
  stale : ∃ x after, ⟨⟨k, 1, 0⟩, .act (.exchanged ⟨.listStale horizon none, x, false, second, after⟩)⟩ ∈ log
  due : ∃ x after, ⟨⟨k, 3, 0⟩, .act (.exchanged ⟨.listDue first.now none, x, false, third, after⟩)⟩ ∈ log
  polled : log.Polled s m k first.now horizon (second.store.stalePending horizon none)
    (third.store.dueRetries first.now none)

/-- Worker `k` has done something at the moment `t`. -/
def Log.At (log : Log) (k : Nat) (t : DateTime) : Prop :=
  ∃ p e, p.worker = k ∧ ⟨p, .act (.exchanged e)⟩ ∈ log ∧ e.before.now = t

/-- `p` leaves the attempt `number` pending after `result` at the moment `t`: it has no ruling, or the store cannot
take the reason. -/
def RetryPolicy.LeavesPending (p : RetryPolicy) (result : GatewayResult) (number : Int) (t : DateTime) : Prop :=
  (∃ e, p.ruling result number t = .error e) ∨ ∃ target change f,
    p.ruling result number t = .ok (target, change) ∧ Failure.ofTexts? change.message.join.toList = some f

namespace System.Polls

variable {s : Scheduler} {answers : Charge → Except Failure GatewayResult → Prop} {ks : List Nat} {w : World}
  {σ₀ σ : System} (hw : w.Unused) (h₀ : Reachable w σ₀) (h : Polls s answers ks σ₀ σ)

include h

theorem carryOn : (Manners.steady answers).CarryOn := ⟨fun _ he => he, h.steady⟩

include h₀

theorem fresh : (Permission.polls s ks).Fresh σ₀ := Permission.polls_fresh h₀ h.idle

theorem not_mem {p : Place} {event : Event} (hp : p.worker ∈ ks) : ⟨p, event⟩ ∉ σ₀.log := fun hmem =>
  h₀.unlogged (h.idle _ hp) _ hmem rfl

theorem orderly : Orderly Scheduler.conduct w σ.log σ.world :=
  (h.onward.reachable h₀).orderly Scheduler.conduct_observed

include hw

theorem sound : σ.log.Sound σ.world := (h.orderly h₀).sound hw

end System.Polls

namespace System.PolledBy

variable {s : Scheduler} {answers : Charge → Except Failure GatewayResult → Prop} {ks : List Nat} {w : World}
  {σ₀ σ : System} (hw : w.Unused) (h₀ : Reachable w σ₀) (h : PolledBy s answers ks σ₀ σ)

include hw h₀ h

theorem polled {k : Nat} (hk : k ∈ ks) : ∃ horizon first second third,
    σ.log.Viewed s (.steady answers) k horizon first second third ∧ σ.workers k =
      .finished (.polled (.ok (σ.log.countMade k 4 (third.store.dueRetries first.now none).length))) := by
  have hsound := h.sound hw h₀
  obtain ⟨x, hx⟩ := h.finished k hk
  have hgranted : ∀ p e, p.worker = k → ⟨p, .act (.exchanged e)⟩ ∈ σ.log → e.refused = false :=
    fun p e hp => h.granted p e (hp ▸ hk)
  obtain ⟨t, horizon, stale, due, hpolled, rfl⟩ := h.onward.polled hw h₀ h.idle h.unlimited h.carryOn hk hx hgranted
    (fun p e hp hmem => (hsound.exchanges p e hmem).allowed (hgranted p e hp hmem) (by
      rintro c x refused before after rfl
      exact h.answered p c x refused before after (hp ▸ hk) hmem))
    (fun e hmem => h.in_range _ e hk hmem)
  obtain ⟨refused, first, after, hclock⟩ := hpolled.clock
  obtain rfl : refused = false := hgranted _ _ rfl hclock
  obtain rfl := (hsound.exchanges _ _ hclock).now_eq
  obtain ⟨refused, second, after₁, hstale⟩ := hpolled.listed_stale
  obtain rfl : refused = false := hgranted _ _ rfl hstale
  obtain ⟨refused, third, after₃, hdue⟩ := hpolled.listed_due
  obtain rfl : refused = false := hgranted _ _ rfl hdue
  rw [h.unlimited] at hstale hdue
  obtain rfl := Except.ok.inj (hsound.exchanges _ _ hstale).listStale_eq
  obtain rfl := Except.ok.inj (hsound.exchanges _ _ hdue).listDue_eq
  exact ⟨horizon, first, second, third, ⟨⟨_, hclock⟩, ⟨_, _, hstale⟩, ⟨_, _, hdue⟩, hpolled⟩, hx⟩

/-! ### What has become of attempts -/

/-- A ruling that a program of the workers `ks` has been given is the ruling at a moment when its worker did something.
-/
theorem exists_ruling {p : Place} (hp : p.worker ∈ ks) {result : GatewayResult} {number : Int}
    {y : Except RangeError (AttemptState × Change)}
    (hgives : s.policy.Gives result number (σ.log.stage p).clock y) :
    ∃ t, σ.log.At p.worker t ∧ s.policy.ruling result number t = y := by
  rcases hgives with ⟨t, hclock, hruling⟩ | hruling
  · obtain ⟨refused, before, after, hmem⟩ := Stage.exists_now hclock
    have hmem := Log.mem_past.1 hmem
    obtain rfl : refused = false := h.granted p _ hp hmem
    exact ⟨t, ⟨p, _, rfl, hmem, ((h.sound hw h₀).exchanges p _ hmem).now_eq.symm⟩, hruling⟩
  · obtain ⟨horizon, first, second, third, hviewed, -⟩ := h.polled hw h₀ hp
    obtain ⟨after, hmem⟩ := hviewed.clock
    exact ⟨first.now, ⟨⟨p.worker, 0, 0⟩, _, rfl, hmem, rfl⟩, hruling _⟩

private theorem settled_or {p : Place} (hp : p.worker ∈ ks) {key : String} {id : AttemptId} {result : GatewayResult}
    {stage : Stage} (hconcludes : Recording.Concludes ⟨s, key, id, result⟩ stage (σ.log.stage p))
    (hrow : σ.log.Holds p id key) :
    σ.world.store.Settled id ∨ ∃ a ∈ σ.world.store.rows, a.id = id ∧
      ∃ t, σ.log.At p.worker t ∧ s.policy.LeavesPending result a.number t := by
  rcases hconcludes.settled_or (h.sound hw h₀) (fun e hmem => h.granted p e hp hmem) hrow with
    hsettled | ⟨a, ha, hid, ⟨e, hgives⟩ | ⟨target, change, f, before, after, hgives, hmessage, -⟩⟩
  · exact .inl hsettled
  · obtain ⟨t, ht, hruling⟩ := h.exists_ruling hw h₀ hp hgives
    exact .inr ⟨a, ha, hid, t, ht, .inl ⟨e, hruling⟩⟩
  · obtain ⟨t, ht, hruling⟩ := h.exists_ruling hw h₀ hp hgives
    exact .inr ⟨a, ha, hid, t, ht, .inr ⟨target, change, f, hruling, hmessage⟩⟩

section

variable {k : Nat} (hk : k ∈ ks) {horizon : DateTime} {first second third : World}
  (hviewed : σ.log.Viewed s (.steady answers) k horizon first second third)

include hk hviewed

/-- A stale attempt is settled in the end, unless the policy leaves it pending. -/
theorem recovered_or {a : Attempt} (ha : a ∈ second.store.stalePending horizon none) :
    σ.world.store.Settled a.id ∨ ∃ r ∈ σ.world.store.rows, r.id = a.id ∧
      ∃ t, σ.log.At k t ∧ s.policy.LeavesPending ⟨.pluginException, some Scheduler.leaseReason⟩ r.number t := by
  have hsound := h.sound hw h₀
  obtain ⟨i, rfl⟩ := List.get_of_mem ha
  refine h.settled_or hw h₀ (p := ⟨k, 2, i⟩) hk (hviewed.polled.recovered i) ?_
  intro e hmem _
  -- the row was there when it was listed
  obtain ⟨x, after, hlisted⟩ := hviewed.stale
  have hgrows := h.onward.grows_rounds hw h₀ (h.fresh h₀) (p := ⟨k, 1, 0⟩) (q := ⟨k, 2, i⟩) ⟨s, _, hk, rfl, rfl⟩ rfl
    (by simp) hlisted hmem
  rw [show after.store = second.store from (hsound.exchanges _ _ hlisted).effect] at hgrows
  obtain ⟨b, hb, hbecomes⟩ := hgrows.exists_becomes (Store.mem_stalePending_iff.1 ha).1
  exact ⟨b, hb, hbecomes.id_eq, hbecomes.key_eq⟩

/-- The successor of every due attempt exists in the end, made by this worker or another, if its number fits. -/
theorem followed {d : DueRetry} (hd : d ∈ third.store.dueRetries first.now none)
    (hfits : Store.fits (d.attempt.number + 1) = true) : σ.world.store.Followed d.attempt := by
  have hsound := h.sound hw h₀
  obtain ⟨i, rfl⟩ := List.get_of_mem hd
  cases hviewed.polled.fired i with
  | @made a refused before after rest hpast _ =>
    have hmem : ⟨⟨k, 4, i⟩, .act (.exchanged ⟨.create _, .ok a, refused, before, after⟩)⟩ ∈ σ.log :=
      Log.mem_past.1 (hpast ▸ List.mem_append_right _ List.mem_cons_self)
    exact (hsound.exchanges _ _ hmem).followed_of_made
  | @unmade f refused before after hpast _ =>
    have hmem := Log.mem_past.1 hpast
    obtain rfl : refused = false := h.granted _ _ hk hmem
    obtain ⟨σ₁, _, h₁, hworld, -⟩ := h.onward.at_exchange (h.not_mem h₀ hk) hmem
    have hcoherent := (h₁.reachable h₀).coherent hw
    rw [hworld] at hcoherent
    -- the attempt was there when the retry was listed
    obtain ⟨x, after', hlisted⟩ := hviewed.due
    have hgrows := h.onward.grows_rounds hw h₀ (h.fresh h₀) (p := ⟨k, 3, 0⟩) (q := ⟨k, 4, i⟩) ⟨s, _, hk, rfl, rfl⟩ rfl
      (by simp) hlisted hmem
    rw [show after'.store = third.store from (hsound.exchanges _ _ hlisted).effect.1] at hgrows
    obtain ⟨hrow, hretried, -⟩ := Store.mem_dueRetries_iff.1 hd
    exact (hsound.exchanges _ _ hmem).followed_of_unmade hcoherent
      (hgrows.mem_of_settled hrow (by rw [hretried]; simp)) hfits

end

/-- An attempt that was carried out is settled in the end, unless the policy leaves it pending. -/
theorem carriedOut_or {p : Place} (hp : p.worker ∈ ks) {m : Manners} {b : Attempt} {x : Except Failure GatewayResult}
    (hcarried : σ.log.CarriedOut s m p b x) :
    σ.world.store.Settled b.id ∨ ∃ r ∈ σ.world.store.rows, r.id = b.id ∧
      ∃ t, σ.log.At p.worker t ∧ s.policy.LeavesPending (.ofAnswer x) r.number t := by
  obtain ⟨⟨stage, -, hconcludes⟩, rest, d, refused, before, after, hpast⟩ := hcarried
  refine h.settled_or hw h₀ hp hconcludes ?_
  intro e hmem hcreate
  have hgrows := (h.orderly h₀).grows_since hw hpast hmem hcreate
  have hcreated := Log.mem_past.1 (hpast ▸ List.mem_append_right rest List.mem_cons_self)
  rcases ((h.sound hw h₀).exchanges p _ hcreated).effect with ⟨f, hf, -⟩ | ⟨b', now, hb', hinsert⟩
  · cases hf
  · obtain rfl := Except.ok.inj hb'
    obtain ⟨a, ha, hbecomes⟩ := hgrows.exists_becomes (a := b.asStored)
      ((Store.insert_eq_ok hinsert).2.2.2 ▸ List.mem_append_right _ List.mem_cons_self)
    exact ⟨a, ha, hbecomes.id_eq, hbecomes.key_eq⟩

end System.PolledBy

/-! ### A worker that polls by itself -/

/-- The entry belongs to worker `k` at the moment `t`; it is not refused, and `answers` holds of an answer of the
gateway. -/
def Entry.Served (answers : Charge → Except Failure GatewayResult → Prop) (k : Nat) (t : DateTime) (entry : Entry) :
    Prop :=
  entry.place.worker = k ∧ ∀ e, entry.event = .act (.exchanged e) → e.refused = false ∧ e.before.now = t ∧
    ∀ c x refused before after, e = ⟨.charge c, x, refused, before, after⟩ → answers c x

theorem Replies.served {answers : Charge → Except Failure GatewayResult → Prop}
    {gateway : List Charge → Charge → Except Failure GatewayResult}
    (hgateway : ∀ called c, answers c (gateway called c)) (t : DateTime) (p : Place) :
    Replies gateway (Log.All (Entry.Served answers p.worker t)) (Log.All (Entry.Served answers p.worker t))
      (fun w => w.Still ∧ w.now = t) p := by
  refine ⟨fun _ h => h, fun r w hr hw => ?_, fun c w hw => ?_, fun _ => .cons ⟨rfl, by simp⟩⟩
  · obtain ⟨hstill, hnow⟩ := hw.1.reply gateway hr
    refine ⟨fun _ => .cons ⟨rfl, ?_⟩, hstill, hnow.trans hw.2⟩
    rintro e ⟨⟩
    refine ⟨rfl, hw.2, ?_⟩
    rintro c x refused before after heq
    exact absurd (congrArg Exchange.request heq) (hr c)
  · refine ⟨fun _ => .cons ⟨rfl, by simp⟩, fun _ => .cons ⟨rfl, ?_⟩, ⟨hw.1.undisturbed, hw.1.still⟩, hw.2⟩
    rintro e ⟨⟩
    refine ⟨rfl, hw.2, ?_⟩
    rintro c' x refused before after heq
    cases heq
    exact hgateway _ _

/-- An idle worker may poll alone, one program after the other, while the clock stands still. -/
theorem Reachable.polledBy {w : World} {σ₀ : System} (h₀ : Reachable w σ₀) {s : Scheduler} (hbatch : s.batch = none)
    (answers : Charge → Except Failure GatewayResult → Prop)
    (hsteady : ∀ c e, answers c (.error e) → e.isCancellation = false)
    {gateway : List Charge → Charge → Except Failure GatewayResult}
    (hgateway : ∀ called c, answers c (gateway called c))
    (hstill : σ₀.world.Still) (hrange : ∃ horizon, σ₀.world.now.sub s.lease = .ok horizon) {k : Nat}
    (hk : σ₀.workers k = .idle) :
    ∃ σ, System.PolledBy s answers [k] σ₀ σ ∧ σ.world = ((s.poll none).run (World.reply gateway) σ₀.world).2 ∧
      σ.workers = Function.update σ₀.workers k
        (.finished (.polled ((s.poll none).run (World.reply gateway) σ₀.world).1)) ∧
      σ.world.Still ∧ σ.world.now = σ₀.world.now ∧ ∀ t, σ.log.At k t → t = σ₀.world.now := by
  have hmay : Permission.polls s [k] k s (.poll none) := ⟨List.mem_singleton_self k, rfl, rfl⟩
  have hserved : ∀ number piece, ∃ during, Replies gateway (Log.All (Entry.Served answers k σ₀.world.now)) during
      (fun w' => w'.Still ∧ w'.now = σ₀.world.now) ⟨k, number, piece⟩ :=
    fun number piece => ⟨_, Replies.served hgateway _ ⟨k, number, piece⟩⟩
  have hfirst : System.Onward (.polls s [k]) σ₀ σ₀ := .refl
  obtain ⟨⟨new, honward, hnew⟩, hstill', hnow⟩ :=
    Solo.task (System.Onward.keptBy ⟨s, _, hmay⟩) hserved (hfirst.begin hk hmay .nil) ⟨hstill, rfl⟩
  have hrun : ((s.task (.poll none)).sequential.run (World.reply gateway) σ₀.world) =
      (.polled ((s.poll none).run (World.reply gateway) σ₀.world).1,
        ((s.poll none).run (World.reply gateway) σ₀.world).2) := by
    simp only [Scheduler.task, Task.sequential_bind, Task.sequential_done, Program.run_bind, Program.run_done]
    rfl
  rw [hrun] at honward hstill' hnow
  have hlogged : ∀ p e, p.worker = k → ⟨p, .act (.exchanged e)⟩ ∈ new ++ σ₀.log →
      e.refused = false ∧ e.before.now = σ₀.world.now ∧
        ∀ c x refused before after, e = ⟨.charge c, x, refused, before, after⟩ → answers c x := by
    intro p e hp hmem
    rcases List.mem_append.1 hmem with hmem | hmem
    · exact (hnew _ hmem).2 e rfl
    · exact absurd hp (h₀.unlogged hk _ hmem)
  have hworker : ∀ {j}, j ∈ [k] → j = k := List.mem_singleton.1
  refine ⟨_, ⟨⟨hbatch, hsteady, ?_, honward, ?_, ?_, ?_⟩, ?_⟩, rfl, rfl, hstill', hnow, ?_⟩
  · intro j hj
    rw [hworker hj, hk]
  · intro j hj
    rw [hworker hj]
    exact ⟨_, Function.update_self ..⟩
  · exact fun p e hp hmem => (hlogged p e (hworker hp) hmem).1
  · exact fun p c x refused before after hp hmem => (hlogged p _ (hworker hp) hmem).2.2 c x refused before after rfl
  · intro p e hp hmem
    rw [(hlogged p e (hworker hp) hmem).2.1]
    exact hrange
  · rintro t ⟨p, e, hp, hmem, rfl⟩
    exact (hlogged p e hp hmem).2.1

end PaymentRetry
