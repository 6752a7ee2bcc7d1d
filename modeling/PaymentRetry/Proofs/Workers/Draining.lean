import PaymentRetry.Proofs.Workers.Aftermath
import PaymentRetry.Proofs.Workers.Listing

/-!
# No payment stays stuck

Whatever faults there have been, and wherever operations were abandoned: if one scheduler then polls without faults,
each time when all that waits is due, then every payment comes to its end.  A poll takes up every pending attempt and
makes the next attempt of every payment that is to be retried, so after `n` polls the last attempt of a payment has
ended it, or is to be retried and has at least the number `n` (`System.CleanPoll.advances`).  But an attempt is only
to be retried up to a number that the policy gives (`System.Onward.retried_within`).  So after one poll more than that
nothing is left to do (`System.PolledInTurn.drains`).
-/

namespace PaymentRetry

open Simulation

/-! ### What is to be retried -/

/-- The greatest number of an attempt that the policy retries. -/
def RetryPolicy.longest (p : RetryPolicy) : Int := max p.days.length p.pluginMaximum

theorem RetryPolicy.maxAttempts_le_longest (p : RetryPolicy) (type : FailureType) : p.maxAttempts type ≤ p.longest := by
  cases type
  · exact Int.le_max_left _ _
  · exact Int.le_max_right _ _

/-- If all operations have the policy `policy`, each transition of a row is a ruling of it for the row's number. -/
theorem System.Onward.ruled {w : World} {σ : System} {may : Permission} {policy : RetryPolicy} (hw : w.Unused)
    (hmay : ∀ k s op, may k s op → s.policy = policy) (h : Onward may { world := w } σ) {p : Place} {id : AttemptId}
    {source target : AttemptState} {change : Change} {a : Attempt} {refused : Bool} {before after : World}
    (hmem : ⟨p, .act (.exchanged ⟨.transition id source target change, .ok a, refused, before, after⟩)⟩ ∈ σ.log)
    (hallows : may.Allows p.worker) (ha : a ∈ σ.world.store.rows) :
    ∃ result t, policy.ruling result a.number t = .ok (target, change) := by
  have hsound := (h.reachable .refl).log_sound hw
  obtain ⟨later, earlier, hlog⟩ := List.append_of_mem hmem
  obtain ⟨result, id', b, hlooked, hid, -, hgives⟩ := h.ruled_of_split hmay hlog hallows
  obtain ⟨t, hruling⟩ := hgives.exists_ruling
  -- it was the attempt that had been looked up
  obtain ⟨refused', before', after', hget⟩ := Stage.exists_get hlooked
  have hget := hsound.exchanges p _ (hlog ▸ List.mem_append_right _ (List.mem_cons_of_mem _ (Log.mem_past.1 hget)))
  obtain ⟨-, ⟨f, hf⟩ | ⟨b', hb', hfind⟩⟩ := hget.effect
  · cases hf
  obtain rfl := Except.ok.inj hb'
  obtain ⟨hb, -⟩ := Store.find?_eq_some hfind
  obtain ⟨-, -, hrid, -⟩ := (hsound.exchanges p _ hmem).transition_ok
  have hnumber := (Store.Grows.eq_of_id (.refl _) hget.grows_before hsound.sequenced.distinct ha hb
    (hrid.trans hid.symm)).2
  rw [← hnumber] at hruling
  exact ⟨result, t, hruling⟩

/-- If all operations have the policy `policy`, a retried attempt has a due date, and its number is at most
`policy.longest`. -/
theorem System.Onward.retried_within {w : World} {σ : System} {may : Permission} {policy : RetryPolicy} (hw : w.Unused)
    (hmay : ∀ k s op, may k s op → s.policy = policy) (h : Onward may { world := w } σ) {a : Attempt}
    (ha : a ∈ σ.world.store.rows) (hretried : a.state = .retried) :
    (∃ due, a.dueAt = some due) ∧ a.number ≤ policy.longest := by
  have hreached := h.reachable .refl
  cases h.stems hw .refl a ha with
  | kept hold =>
    rw [hw.empty] at hold
    cases hold
  | stored hmem _ hstored =>
    have hpending := (hreached.orderly Scheduler.conduct_observed).pending_of_create hw hmem
    rw [hstored] at hretried
    cases hpending.symm.trans hretried
  | @completed p id target change refused before after hmem hallows =>
    obtain ⟨result, t, hruling⟩ := h.ruled hw hmay hmem hallows ha
    obtain ⟨-, -, -, hstate, -, hdue⟩ := ((hreached.log_sound hw).exchanges p _ hmem).transition_ok
    obtain rfl : target = .retried := hstate.symm.trans hretried
    obtain ⟨⟨due, hchange⟩, type, -, hle⟩ := RetryPolicy.ruling_retried hruling
    exact ⟨⟨due, by rw [hdue, hchange]; rfl⟩, Int.le_trans hle (policy.maxAttempts_le_longest type)⟩

/-! ### One poll -/

/-- At `t`, every retried attempt is due and the lease of every pending one has expired. -/
def Store.AllDue (s : Store) (lease : Duration) (t : DateTime) : Prop :=
  ∀ a ∈ s.rows, (a.state = .retried → ∀ due ∈ a.dueAt, due ≤ t) ∧
    (a.state = .pending → (a.updated.micros : Int) + lease.micros ≤ t.micros)

/-- Worker `k` has been answered `x` when it asked for the charge `c`, or `s` has a circuit breaker and `x` is its
rejection. -/
def Log.Heard (log : Log) (s : Scheduler) (k : Nat) (c : Charge) (x : Except Failure GatewayResult) : Prop :=
  (∃ p refused before after,
    p.worker = k ∧ ⟨p, .act (.exchanged ⟨.charge c, x, refused, before, after⟩)⟩ ∈ log) ∨
    s.guarded = true ∧ x = .error (.gatewayUnavailable Gateway.rejectionReason)

/-- The idle worker `k` has polled alone from `σ₀` to `σ` without faults, at a time when everything is due, and the
gateway's answers satisfied `answers`.  The numbers of the next attempts fit the store, and the dates that are computed
lie within the calendar: those of the pending attempts, which are recovered, and those of the next attempts, after what
has been heard of their charges. -/
structure System.CleanPoll (s : Scheduler) (answers : Charge → Except Failure GatewayResult → Prop) (k : Nat)
    (σ₀ σ : System) : Prop extends PolledBy s answers [k] σ₀ σ where
  recoveries_fit : ∀ t, σ.log.At k t → ∀ a ∈ σ₀.world.store.rows, a.state = .pending →
    s.policy.DateFits .pluginException a.number t
  retries_fit : ∀ t, σ.log.At k t → ∀ a ∈ σ₀.world.store.rows, a.state = .pending ∨ a.state = .retried →
    ∀ x, σ.log.Heard s k a.charge x → s.policy.DateFits (GatewayResult.ofAnswer x).outcome (a.number + 1) t
  numbers_fit : ∀ a ∈ σ₀.world.store.rows, Store.fits (a.number + 1) = true
  allDue : ∀ e, ⟨⟨k, 0, 0⟩, .act (.exchanged e)⟩ ∈ σ.log → σ₀.world.store.AllDue s.lease e.before.now

theorem RetryPolicy.not_leavesPending {p : RetryPolicy} {result : GatewayResult} {number : Int} {t : DateTime}
    (hdate : p.DateFits result.outcome number t) (hreason : ∀ type, result.outcome.failureType = some type →
      Failure.ofTexts? result.message.toList = none) : ¬p.LeavesPending result number t := by
  rintro (⟨e, he⟩ | ⟨target, change, f, hruling, hf⟩)
  · obtain ⟨target, change, hruling⟩ := hdate.exists_ruling
    cases hruling.symm.trans he
  · obtain ⟨type, htype, hf⟩ := exists_reason_of_ruling hruling hf
    cases (hreason type htype).symm.trans hf

namespace System.CleanPoll

variable {s : Scheduler} {answers : Charge → Except Failure GatewayResult → Prop} {k : Nat} {w : World} {σ₀ σ : System}
  (hw : w.Unused) (h₀ : Reachable w σ₀) (h : CleanPoll s answers k σ₀ σ)

include hw h₀ h

/-- Before round 4, in which it creates attempts, the worker finds the rows of `σ₀`, as they were or completed. -/
theorem old_rows {p : Place} {e : Exchange} (hp : p.worker = k) (hround : p.round < 4)
    (hmem : ⟨p, .act (.exchanged e)⟩ ∈ σ.log) {a : Attempt} (ha : a ∈ e.before.store.rows) :
    ∃ b ∈ σ₀.world.store.rows, b.Becomes a := by
  have hk : p.worker ∈ [k] := List.mem_singleton.2 hp
  obtain ⟨σ₁, later, h₁, hworld, hin, hlog⟩ := h.onward.at_exchange (h.not_mem h₀ hk) hmem
  rw [← hworld] at ha
  rcases h₁.origins hw h₀ ha with hold | ⟨q, d, b, refused, before, after, hcreate, ⟨_, _, hq, -⟩, -⟩
  · exact hold
  · obtain rfl : q.worker = k := List.mem_singleton.1 hq
    obtain ⟨horizon, first, second, third, hviewed, -⟩ := h.polled hw h₀ hq
    have hcreate' : ⟨q, .act (.exchanged ⟨.create d, .ok b, refused, before, after⟩)⟩ ∈ σ.log :=
      hlog ▸ List.mem_append_right _ (List.mem_cons_of_mem _ hcreate)
    obtain ⟨i, hplace, -⟩ := hviewed.polled.created (h.orderly h₀) h.carryOn rfl hcreate'
    have hle := h₁.rounds_le (h.fresh h₀) ⟨s, _, hk, rfl, rfl⟩ hin _ hcreate hp.symm
    rw [hplace] at hle
    simp only at hle
    omega

omit hw h₀ in
/-- The answers to the worker are those in the log. -/
theorem logged : PolledBy s (fun c x => answers c x ∧ σ.log.Heard s k c x) [k] σ₀ σ :=
  { h.toPolledBy with
    steady := fun c e he => h.steady c e he.1
    answered := fun p c x refused before after hp hmem =>
      ⟨h.answered p c x refused before after hp hmem,
        .inl ⟨p, refused, before, after, List.mem_singleton.1 hp, hmem⟩⟩ }

/-- A created attempt is the successor of a retried one that was the last of its payment, and it has been carried out.
-/
theorem created {p : Place} (hp : p.worker = k) {d : Draft} {b : Attempt} {refused : Bool} {before after : World}
    (hmem : ⟨p, .act (.exchanged ⟨.create d, .ok b, refused, before, after⟩)⟩ ∈ σ.log) :
    ∃ a, a.state = .retried ∧ (∃ c ∈ σ₀.world.store.rows, c.Becomes a) ∧
      (∀ c ∈ σ₀.world.store.rows, c.key = a.key → c.number ≤ a.number) ∧
      (∃ t, b.asStored = a.retryAt t b.id) ∧ b.charge = a.charge ∧
      ∃ x, σ.log.CarriedOut s (.steady fun c x => answers c x ∧ σ.log.Heard s k c x) p b x := by
  subst hp
  have hk : p.worker ∈ [p.worker] := List.mem_singleton_self _
  obtain ⟨horizon, first, second, third, hviewed, -⟩ := h.logged.polled hw h₀ hk
  obtain ⟨i, -, hd, hcarried⟩ := hviewed.polled.created (h.orderly h₀) h.logged.carryOn rfl hmem
  have hlisted := List.get_mem (third.store.dueRetries first.now none) i
  generalize (third.store.dueRetries first.now none).get i = due at hd hlisted
  obtain ⟨hrow, hretried, -, -, -, hlater⟩ := Store.mem_dueRetries_iff.1 hlisted
  obtain ⟨x, after', hdue⟩ := hviewed.due
  refine ⟨due.attempt, hretried, ?_, ?_, ?_⟩
  · exact h.old_rows hw h₀ (p := ⟨p.worker, 3, 0⟩) rfl (by simp) hdue hrow
  · intro c hc hkey
    obtain ⟨σ₁, -, h₁, hworld, -⟩ := h.onward.at_exchange (p := ⟨p.worker, 3, 0⟩) (h.not_mem h₀ hk) hdue
    have hcoherent := (h₁.reachable h₀).coherent hw
    have hgrows := h₁.grows hw h₀
    rw [hworld] at hcoherent hgrows
    obtain ⟨c', hc', hbecomes⟩ := hgrows.exists_becomes hc
    have hle := Store.hasLater_eq_false_iff.1 hlater c' hc'
      (hcoherent.one_payment c' hc' _ hrow (hbecomes.key_eq.trans hkey))
    rwa [hbecomes.number_eq] at hle
  · rcases ((h.sound hw h₀).exchanges p _ hmem).effect with ⟨f, hf, -⟩ | ⟨b', now, hb', hinsert⟩
    · cases hf
    obtain rfl := Except.ok.inj hb'
    rw [hd] at hinsert
    obtain ⟨hstored, hcharge, -⟩ := Store.retry_of_insert hinsert
    exact ⟨⟨now, hstored⟩, hcharge, hcarried⟩

/-- Every row is a row of `σ₀`, as it was or completed, or the successor of a retried one that was the last of its
payment. -/
theorem origins {r : Attempt} (hr : r ∈ σ.world.store.rows) :
    (∃ b ∈ σ₀.world.store.rows, b.Becomes r) ∨ ∃ a, a.state = .retried ∧ (∃ b ∈ σ₀.world.store.rows, b.Becomes a) ∧
      (∀ b ∈ σ₀.world.store.rows, b.key = a.key → b.number ≤ a.number) ∧
      r.key = a.key ∧ r.payment = a.payment ∧ r.number = a.number + 1 := by
  rcases h.onward.origins hw h₀ hr with hold | ⟨p, d, b, refused, before, after, hmem, ⟨_, _, hp, -⟩, hbecomes⟩
  · exact .inl hold
  obtain ⟨a, hretried, hold, hlast, ⟨t, hstored⟩, -⟩ := h.created hw h₀ (List.mem_singleton.1 hp) hmem
  rw [hstored] at hbecomes
  exact .inr ⟨a, hretried, hold, hlast, hbecomes.key_eq, hbecomes.payment_eq, hbecomes.number_eq⟩

theorem apart (hapart : σ₀.world.store.Apart) : σ.world.store.Apart := by
  refine hapart.of_origins fun r hr => ?_
  rcases h.origins hw h₀ hr with ⟨b, hb, hbecomes⟩ | ⟨a, -, ⟨b, hb, hbecomes⟩, -, hkey, hpayment, -⟩
  · exact ⟨b, hb, hbecomes.payment_eq, hbecomes.key_eq⟩
  · exact ⟨b, hb, hpayment.trans hbecomes.payment_eq, hkey.trans hbecomes.key_eq⟩

/-- A row of `σ₀` that was pending is stale in the poll, so it has been recovered. -/
private theorem not_pending_of_old {r : Attempt} (hold : r ∈ σ₀.world.store.rows) (hr : r ∈ σ.world.store.rows) :
    r.state ≠ .pending := by
  intro hpending
  have hk : k ∈ [k] := List.mem_singleton_self k
  have hsound := h.sound hw h₀
  have hdistinct := hsound.sequenced.distinct
  obtain ⟨horizon, first, second, third, hviewed, -⟩ := h.polled hw h₀ hk
  obtain ⟨x, after, hstale⟩ := hviewed.stale
  obtain ⟨after', hclock⟩ := hviewed.clock
  have hgrows := h.onward.grows_before hw h₀ (h.not_mem h₀ hk) hstale
  have hfound := hgrows.mem_between (hsound.exchanges _ _ hstale).grows_before hdistinct hold hr
  have hdue := (h.allDue _ hclock r hold).2 hpending
  have hsub := DateTime.micros_of_sub hviewed.polled.horizon_eq
  have hlisted : r ∈ second.store.stalePending horizon none := by
    refine Store.mem_stalePending_iff.2 ⟨hfound, hpending, ?_⟩
    show r.updated.micros ≤ horizon.micros
    simp only at hdue
    omega
  rcases h.recovered_or hw h₀ hk hviewed hlisted with hsettled | ⟨r', hr', hid, t, ht, hleaves⟩
  · exact hdistinct.not_settled hr hpending hsettled
  · obtain rfl := hdistinct.eq_of_id hr' hr hid
    exact RetryPolicy.not_leavesPending (h.recoveries_fit t ht _ hold hpending) (fun _ _ => by decide +kernel) hleaves

/-- A row that was created in the poll has been carried out. -/
private theorem not_pending_of_created (hregular : ∀ c x, answers c x → GatewayResult.Regular x) {p : Place}
    (hp : p.worker = k) {d : Draft} {b r : Attempt} {refused : Bool} {before after : World}
    (hmem : ⟨p, .act (.exchanged ⟨.create d, .ok b, refused, before, after⟩)⟩ ∈ σ.log)
    (hr : r ∈ σ.world.store.rows) (hbecomes : b.asStored.Becomes r) : r.state ≠ .pending := by
  intro hpending
  have hk : p.worker ∈ [k] := List.mem_singleton.2 hp
  have hdistinct := (h.sound hw h₀).sequenced.distinct
  have hid : r.id = b.id := hbecomes.id_eq
  obtain ⟨a, hretried, ⟨c, hc, hc'⟩, -, ⟨t', hstored⟩, hcharge, x, hcarried⟩ := h.created hw h₀ hp hmem
  rcases h.logged.carriedOut_or hw h₀ hk hcarried with hsettled | ⟨r', hr', hid', t, ht, hleaves⟩
  · exact hdistinct.not_settled hr hpending (hid ▸ hsettled)
  obtain rfl := hdistinct.eq_of_id hr' hr (hid'.trans hid.symm)
  have hnumber : r'.number = c.number + 1 := by
    rw [hbecomes.number_eq, hstored, ← hc'.number_eq]
    rfl
  rw [hnumber] at hleaves
  rw [hp] at ht
  have hwaits : c.state = .pending ∨ c.state = .retried := by
    rcases hc' with rfl | hcompleted
    · exact .inr hretried
    · exact .inl hcompleted.pending
  obtain ⟨stage, hcalls, -⟩ := hcarried.called
  rw [hcharge, hc'.charge_eq] at hcalls
  rcases hcalls with ⟨⟨hx, hheard⟩, -⟩ | ⟨hguarded, -, rfl⟩
  · exact RetryPolicy.not_leavesPending (h.retries_fit t ht c hc hwaits x hheard) (hregular _ x hx).storable hleaves
  · exact RetryPolicy.not_leavesPending (h.retries_fit t ht c hc hwaits _ (.inr ⟨hguarded, rfl⟩))
      (fun _ _ => by decide +kernel) hleaves

/-- If the store takes the texts of all failures, nothing is pending after a poll. -/
theorem not_pending (hregular : ∀ c x, answers c x → GatewayResult.Regular x) {r : Attempt}
    (hr : r ∈ σ.world.store.rows) : r.state ≠ .pending := by
  intro hpending
  have hdistinct := (h.sound hw h₀).sequenced.distinct
  rcases h.onward.origins hw h₀ hr with
    ⟨b, hb, hbecomes⟩ | ⟨p, d, b, refused, before, after, hmem, ⟨_, _, hp, -⟩, hbecomes⟩
  · obtain rfl := (h.onward.grows hw h₀).eq_of_pending hdistinct hb hr hbecomes.id_eq hpending
    exact h.not_pending_of_old hw h₀ hb hr hpending
  · exact h.not_pending_of_created hw h₀ hregular (List.mem_singleton.1 hp) hmem hr hbecomes hpending

/-- A retried attempt has a successor after a poll. -/
theorem exists_later (hapart : σ₀.world.store.Apart) {a : Attempt} (ha : a ∈ σ₀.world.store.rows)
    (hretried : a.state = .retried) {due : DateTime} (hdue : a.dueAt = some due) :
    ∃ b ∈ σ.world.store.rows, b.key = a.key ∧ a.number < b.number := by
  by_contra hlast
  simp only [not_exists, not_and, Int.not_lt] at hlast
  have hk : k ∈ [k] := List.mem_singleton_self k
  obtain ⟨horizon, first, second, third, hviewed, -⟩ := h.polled hw h₀ hk
  obtain ⟨after, hclock⟩ := hviewed.clock
  obtain ⟨x, after', hlisted⟩ := hviewed.due
  have ha' := (h.onward.grows_before hw h₀ (h.not_mem h₀ hk) hlisted).mem_of_settled ha (by simp [hretried])
  have hgrows := ((h.sound hw h₀).exchanges _ _ hlisted).grows_before
  have hmem : ⟨a.payment, due, a⟩ ∈ third.store.dueRetries first.now none := by
    refine Store.mem_dueRetries_iff.2 ⟨ha', hretried, hdue, (h.allDue _ hclock a ha).1 hretried due hdue, rfl, ?_⟩
    refine Store.hasLater_eq_false_iff.2 fun b hb hpayment => ?_
    obtain ⟨c, hc, hbecomes⟩ := hgrows.exists_becomes hb
    rw [← hbecomes.number_eq]
    exact hlast c hc (h.apart hw h₀ hapart c hc a (hgrows.mem_of_settled ha' (by simp [hretried]))
      (hbecomes.payment_eq.trans hpayment))
  obtain ⟨b, hb, hkey, hnumber⟩ := h.followed hw h₀ hk hviewed hmem (h.numbers_fit a ha)
  have hle := hlast b hb hkey
  simp only at hnumber
  omega

end System.CleanPoll

/-! ### One poll after the other -/

/-- If `0 < n`, nothing is pending in `s`; the last attempt of a payment, if it is retried, has at least the number
`n`. -/
structure Store.Advanced (s : Store) (n : Nat) : Prop where
  settled : 0 < n → ∀ a ∈ s.rows, a.state ≠ .pending
  reached : ∀ a ∈ s.rows, a.state = .retried → (∀ b ∈ s.rows, b.key = a.key → b.number ≤ a.number) → n ≤ a.number

/-- The last attempt of every payment is in a terminal state. -/
def Store.AllEnded (s : Store) : Prop :=
  ∀ key a, s.last? key = some a → a.state = .success ∨ a.state = .aborted

/-- `n` clean polls of `s`, one after the other. -/
inductive System.PolledInTurn (s : Scheduler) (answers : Charge → Except Failure GatewayResult → Prop) (σ₀ : System) :
    Nat → System → Prop
  | none : PolledInTurn s answers σ₀ 0 σ₀
  | next {n k : Nat} {σ σ' : System} : PolledInTurn s answers σ₀ n σ → CleanPoll s answers k σ σ' →
      PolledInTurn s answers σ₀ (n + 1) σ'

namespace System.CleanPoll

variable {s : Scheduler} {answers : Charge → Except Failure GatewayResult → Prop} {k : Nat} {w : World} {σ₀ σ : System}
  (hw : w.Unused) (h₀ : Reachable w σ₀) (h : CleanPoll s answers k σ₀ σ)

include hw h₀ h

/-- A poll takes `Advanced n` to `Advanced (n + 1)`. -/
theorem advances (hregular : ∀ c x, answers c x → GatewayResult.Regular x)
    (hdue : ∀ a ∈ σ₀.world.store.rows, a.state = .retried → ∃ due, a.dueAt = some due)
    (hapart : σ₀.world.store.Apart) {n : Nat} (hn : σ₀.world.store.Advanced n) : σ.world.store.Advanced (n + 1) := by
  refine ⟨fun _ r hr => h.not_pending hw h₀ hregular hr, ?_⟩
  intro r hr hretried hlast
  have hpositive := (Store.mem_numbersTo.1 ((h.sound hw h₀).sequenced.number_mem hr)).1
  rcases Nat.eq_zero_or_pos n with rfl | hpos
  · omega
  rcases h.origins hw h₀ hr with ⟨b, hb, hbecomes⟩ | ⟨a, hretried', ⟨b, hb, hbecomes⟩, hlast', hkey, -, hnumber⟩
  · -- an old row would have been retried
    obtain rfl := hbecomes.eq_of_settled (hn.settled hpos b hb)
    obtain ⟨due, hdue⟩ := hdue r hb hretried
    obtain ⟨c, hc, hckey, hlt⟩ := h.exists_later hw h₀ hapart hb hretried hdue
    have hle := hlast c hc hckey
    omega
  · obtain rfl := hbecomes.eq_of_settled (hn.settled hpos b hb)
    have hreached := hn.reached a hb hretried' hlast'
    omega

/-- If all payments have ended, a poll creates nothing and changes no row. -/
theorem rest (hended : σ₀.world.store.AllEnded) :
    σ.workers k = .finished (.polled (.ok 0)) ∧ σ.world.store.rows = σ₀.world.store.rows := by
  have hk : k ∈ [k] := List.mem_singleton_self k
  have hsequenced := (h₀.log_sound hw).sequenced
  have hsettled : ∀ a ∈ σ₀.world.store.rows, a.state ≠ .pending := by
    intro a ha hpending
    rcases hended _ a (hsequenced.last?_of_open ha (by simp [hpending])) with hstate | hstate
    · cases hpending.symm.trans hstate
    · cases hpending.symm.trans hstate
  obtain ⟨horizon, first, second, third, hviewed, hreport⟩ := h.polled hw h₀ hk
  -- nothing was found to be due
  have hnone : third.store.dueRetries first.now none = [] := by
    refine List.eq_nil_iff_forall_not_mem.2 fun d hd => ?_
    obtain ⟨hrow, hretried, -, -, -, hlater⟩ := Store.mem_dueRetries_iff.1 hd
    obtain ⟨x, after, hlisted⟩ := hviewed.due
    obtain ⟨b, hb, hbecomes⟩ := h.old_rows hw h₀ (p := ⟨k, 3, 0⟩) rfl (by simp) hlisted hrow
    have hsame := hbecomes.eq_of_settled (hsettled b hb)
    subst hsame
    have hgrows := h.onward.grows_before hw h₀ (h.not_mem h₀ hk) hlisted
    have hlast : σ₀.world.store.last? d.attempt.key = some d.attempt := by
      refine hsequenced.last?_eq_some_iff_le.2 ⟨hb, fun c hc hkey => ?_⟩
      exact Store.hasLater_eq_false_iff.1 hlater c (hgrows.mem_of_settled hc (hsettled c hc))
        ((h₀.coherent hw).one_payment c hc _ hb hkey)
    rcases hended _ _ hlast with hstate | hstate
    · cases hretried.symm.trans hstate
    · cases hretried.symm.trans hstate
  have hpolled := hviewed.polled
  rw [hnone] at hreport hpolled
  refine ⟨hreport, (h.onward.grows hw h₀).rows_eq hsequenced.distinct (h.sound hw h₀).sequenced.distinct fun a ha => ?_⟩
  rcases h.onward.origins hw h₀ ha with ⟨b, hb, hbecomes⟩ | ⟨p, d, b, refused, before, after, hmem, ⟨_, _, hp, -⟩, -⟩
  · rwa [hbecomes.eq_of_settled (hsettled b hb)]
  · obtain ⟨i, -⟩ := hpolled.created (h.orderly h₀) h.carryOn (List.mem_singleton.1 hp) hmem
    exact i.elim0

end System.CleanPoll

private theorem System.PolledInTurn.onward {s : Scheduler} {answers : Charge → Except Failure GatewayResult → Prop}
    {w : World} {σ₀ σ : System} {n : Nat} (h₀ : Onward (fun _ s' _ => s'.policy = s.policy) { world := w } σ₀)
    (h : PolledInTurn s answers σ₀ n σ) :
    Onward (fun _ s' _ => s'.policy = s.policy) { world := w } σ := by
  induction h with
  | none => exact h₀
  | next _ hpoll ih => exact ih.trans (hpoll.onward.mono fun k s' op hmay => by rw [hmay.2.1])

/-- Every payment ends.  Let `σ₀` be reached under one policy, whatever calls failed and wherever operations were
abandoned, and let no two keys share a payment (`hapart`).  If `s` then makes clean polls in turn, with a gateway that
raises no text which the store refuses (`GatewayResult.Regular`), all payments have ended after `longest + 1` polls,
and further polls create nothing and change no row. -/
theorem System.PolledInTurn.drains {s : Scheduler} {w : World} {σ₀ σ : System} {n : Nat} (hw : w.Unused)
    (h₀ : Onward (fun _ s' _ => s'.policy = s.policy) { world := w } σ₀) (hapart : σ₀.world.store.Apart)
    (h : PolledInTurn s (fun _ => GatewayResult.Regular) σ₀ n σ) (hn : s.policy.longest + 1 ≤ n) :
    σ.world.store.AllEnded ∧ ∀ answers k σ', CleanPoll s answers k σ σ' →
      σ'.workers k = .finished (.polled (.ok 0)) ∧ σ'.world.store.rows = σ.world.store.rows := by
  have hmay : ∀ (k : Nat) (s' : Scheduler) (op : Operation), s'.policy = s.policy → s'.policy = s.policy :=
    fun _ _ _ h => h
  -- each poll advances the store by one
  have hadvanced : σ.world.store.Apart ∧ σ.world.store.Advanced n := by
    clear hn
    induction h with
    | none =>
      refine ⟨hapart, fun hpos => absurd hpos (Nat.lt_irrefl 0), fun a ha _ _ => ?_⟩
      have := (Store.mem_numbersTo.1 (((h₀.reachable .refl).log_sound hw).sequenced.number_mem ha)).1
      omega
    | next hturn hpoll ih =>
      have honward := hturn.onward h₀
      have hreached := honward.reachable .refl
      have hwithin := fun a ha hr => (honward.retried_within hw hmay (a := a) ha hr).1
      exact ⟨hpoll.apart hw hreached ih.1, hpoll.advances hw hreached (fun _ _ hx => hx) hwithin ih.1 ih.2⟩
  have honward := h.onward h₀
  have hreached := honward.reachable .refl
  have hsequenced := (hreached.log_sound hw).sequenced
  have hlongest : 0 ≤ s.policy.longest := Int.le_trans (Int.natCast_nonneg _) (Int.le_max_left _ _)
  have hended : σ.world.store.AllEnded := by
    intro key a hlast
    obtain ⟨-, hkey⟩ := Store.mem_attemptsOf.1 (hsequenced.last?_eq_some_iff.1 hlast).1
    subst hkey
    obtain ⟨ha, hle⟩ := hsequenced.last?_eq_some_iff_le.1 hlast
    cases hstate : a.state with
    | pending => exact absurd hstate (hadvanced.2.settled (by omega) a ha)
    | retried =>
      have hreached := hadvanced.2.reached a ha hstate hle
      have hwithin := (honward.retried_within hw hmay ha hstate).2
      omega
    | success => exact .inl rfl
    | aborted => exact .inr rfl
  exact ⟨hended, fun answers k σ' hpoll => hpoll.rest hw hreached hended⟩

/-! ### A submission that was abandoned -/

namespace Sample

/-- A scheduler that retries a payment once, without delay, after a failure of either kind. -/
def tolerant : Scheduler := { policy := ⟨[0], 1, ⟨0⟩⟩ }

/-- When the lease of the first attempt expires. -/
def expiry : DateTime := ⟨7200 * Duration.second, by decide⟩

/-- A scheduler that retries a payment once, an hour after a technical failure of its first attempt. -/
def hourly : Scheduler := { policy := ⟨[], 1, ⟨3600 * Duration.second⟩⟩ }

/-- When `hourly` retries what it has recovered at `expiry`. -/
def hourAfter : DateTime := ⟨10800 * Duration.second, by decide⟩

/-- The first attempt has been created and its lease has expired. -/
def abandoned : World := { created with now := expiry }

/-- The world after a poll of `s` at `t` with a gateway that answers `x` to every charge. -/
def polled (s : Scheduler) (x : Except Failure GatewayResult) (t : DateTime) (w : World) : World :=
  ((s.poll none).run (World.reply fun _ _ => x) { w with now := t }).2

theorem onward_abandoned (s : Scheduler) : ∃ σ,
    System.Onward (fun _ s' _ => s'.policy = s.policy) { world := world } σ ∧ σ.world = abandoned ∧
      ∀ k, k ≠ 0 → σ.workers k = .idle := by
  obtain ⟨next, hnext⟩ : ∃ next, s.submit submission = .ask (.create submission.draft) next := ⟨_, rfl⟩
  have hfirst : System.Onward (fun _ s' _ => s'.policy = s.policy) { world := world } { world := world } := .refl
  have hbegin : Solo _ (fun _ => True) _ _ _ ((s.task (.submit submission)).begin 0) :=
    hfirst.begin (k := 0) rfl rfl trivial
  replace hbegin := hbegin.single (f := .submitted) rfl
  rw [hnext] at hbegin
  obtain ⟨new, hstored, -⟩ : Solo _ (fun _ => True) _ _ _ _ :=
    hbegin.step (System.Onward.keptBy ⟨s, .submit submission, rfl⟩)
      (.exchange (by simp) (World.reply_happens gateway _ (by simp) world)) fun _ _ => trivial
  exact ⟨_, hstored.step (.clock expiry) (fun _ hk => hk) (by simp), rfl, fun k hk => Function.update_of_ne hk _ _⟩

theorem still_abandoned : abandoned.Still := by
  have hkept := (World.Still.reply (w := world) ⟨rfl, rfl⟩ gateway (r := .create submission.draft) (by simp)).1
  exact ⟨hkept.undisturbed, hkept.still⟩

/-- An idle worker may make a clean poll at `t`, if everything is due then. -/
private theorem cleanPoll {s : Scheduler} (hbatch : s.batch = none)
    {answers : Charge → Except Failure GatewayResult → Prop}
    (hsteady : ∀ c e, answers c (.error e) → e.isCancellation = false) {x : Except Failure GatewayResult}
    (hx : ∀ c, answers c x) {t : DateTime} (hrange : ∃ horizon, t.sub s.lease = .ok horizon)
    (hdates : ∀ outcome number, s.policy.DateFits outcome number t) {σ₀ : System} (h₀ : Reachable world σ₀)
    (hstill : σ₀.world.Still) (hfits : ∀ a ∈ σ₀.world.store.rows, Store.fits (a.number + 1) = true)
    (hdue : σ₀.world.store.AllDue s.lease t) {k : Nat} (hk : σ₀.workers k = .idle) :
    ∃ σ, System.CleanPoll s answers k σ₀ σ ∧ σ.world = polled s x t σ₀.world ∧ σ.world.Still ∧
      ∀ j, j ≠ k → σ.workers j = σ₀.workers j := by
  -- first the clock is set
  have hset : System.Onward (.polls s [k]) σ₀ { σ₀ with world := { σ₀.world with now := t } } :=
    System.Onward.refl.step (.clock t) (fun _ hj => hj) (by simp)
  obtain ⟨σ, hpolled, hworld, hworkers, hstill', hnow, hat⟩ :=
    (h₀.step (.clock t)).polledBy hbatch answers hsteady (fun _ => hx) ⟨hstill.undisturbed, hstill.still⟩ hrange hk
  refine ⟨σ, ⟨{ hpolled with idle := hpolled.idle, onward := hset.trans hpolled.onward }, ?_, ?_, hfits, ?_⟩, hworld,
    hstill', fun j hj => ?_⟩
  · intro t' ht' a _ _
    rw [hat t' ht']
    exact hdates _ a.number
  · intro t' ht' a _ _ x _
    rw [hat t' ht']
    exact hdates _ (a.number + 1)
  · intro e he
    rw [hat _ ⟨_, e, rfl, he, rfl⟩]
    exact hdue
  · rw [hworkers]
    exact Function.update_of_ne hj _ _

end Sample

/-- A poll recovers the abandoned attempt and makes its successor, which ends the payment. -/
theorem drains_of_abandoned : ∃ σ₀ σ,
    System.Onward (fun _ s' _ => s'.policy = Sample.tolerant.policy) { world := Sample.world } σ₀ ∧
      σ₀.world.store.rows.map (·.state) = [.pending] ∧
      System.PolledInTurn Sample.tolerant (fun _ => GatewayResult.Regular) σ₀ 2 σ ∧
      σ.world.store.rows.map (·.state) = [.retried, .aborted] ∧ σ.world.store.AllEnded ∧
      ∀ answers k σ', System.CleanPoll Sample.tolerant answers k σ σ' →
        σ'.workers k = .finished (.polled (.ok 0)) ∧ σ'.world.store.rows = σ.world.store.rows := by
  obtain ⟨σ₀, h₀, hworld, hidle⟩ := Sample.onward_abandoned Sample.tolerant
  have hreached := h₀.reachable .refl
  have hapart : σ₀.world.store.Apart := by
    unfold Store.Apart
    rw [hworld]
    decide +kernel
  have hregular : ∀ _ : Charge, GatewayResult.Regular (.ok ⟨.businessFailure, none⟩) :=
    fun _ => ⟨by rintro e ⟨⟩, fun _ _ => rfl⟩
  have hsteady : ∀ (_ : Charge) e, GatewayResult.Regular (.error e) → e.isCancellation = false :=
    fun _ e he => he.carriesOn e rfl
  have hrange : ∃ horizon, Sample.expiry.sub Sample.tolerant.lease = .ok horizon :=
    ⟨Sample.world.now, by decide +kernel⟩
  have hdates : ∀ outcome number, Sample.tolerant.policy.DateFits outcome number Sample.expiry :=
    RetryPolicy.dateFits_of_build rfl (by decide) (by decide)
  obtain ⟨σ₁, hfirst, hworld₁, hstill₁, hidle₁⟩ :=
    Sample.cleanPoll rfl hsteady hregular hrange hdates hreached (hworld ▸ Sample.still_abandoned) (k := 1)
      (by rw [hworld]; decide +kernel) (by unfold Store.AllDue; rw [hworld]; decide +kernel) (hidle 1 (by simp))
  rw [hworld] at hworld₁
  obtain ⟨σ₂, hsecond, hworld₂, -⟩ :=
    Sample.cleanPoll rfl hsteady hregular hrange hdates (hfirst.onward.reachable hreached) hstill₁ (k := 2)
      (by rw [hworld₁]; decide +kernel) (by unfold Store.AllDue; rw [hworld₁]; decide +kernel)
      (by rw [hidle₁ 2 (by simp)]; exact hidle 2 (by simp))
  rw [hworld₁] at hworld₂
  have hturn := (System.PolledInTurn.none.next hfirst).next hsecond
  refine ⟨σ₀, σ₂, h₀, by rw [hworld]; decide +kernel, hturn, by rw [hworld₂]; decide +kernel, ?_⟩
  exact hturn.drains ⟨rfl, rfl⟩ h₀ hapart (by decide +kernel)

/-- `GatewayResult.Regular` is needed in `drains`: if the gateway raises an exception whose text the store refuses in
the last poll, the last attempt is left pending. -/
theorem stuck_of_unwritable_reason : ∃ σ₀ σ,
    System.Onward (fun _ s' _ => s'.policy = Sample.hourly.policy) { world := Sample.world } σ₀ ∧
      σ₀.world.store.Apart ∧
      System.PolledInTurn Sample.hourly (fun _ => GatewayResult.CarriesOn) σ₀ 2 σ ∧
      Sample.hourly.policy.longest + 1 = 2 ∧ σ.world.store.rows.map (·.state) = [.retried, .pending] ∧
      ¬σ.world.store.AllEnded := by
  obtain ⟨σ₀, h₀, hworld, hidle⟩ := Sample.onward_abandoned Sample.hourly
  have hreached := h₀.reachable .refl
  have hsteady : ∀ (_ : Charge) e, GatewayResult.CarriesOn (.error e) → e.isCancellation = false :=
    fun _ e he => he e rfl
  have hraised : ∀ _ : Charge, GatewayResult.CarriesOn (.error Sample.unwritable) := by
    rintro _ e ⟨⟩
    rfl
  obtain ⟨σ₁, hfirst, hworld₁, hstill₁, hidle₁⟩ :=
    Sample.cleanPoll (s := Sample.hourly) (t := Sample.expiry) rfl hsteady hraised ⟨Sample.world.now, by decide +kernel⟩
      (RetryPolicy.dateFits_of_build rfl (by decide) (by decide)) hreached (hworld ▸ Sample.still_abandoned) (k := 1)
      (by rw [hworld]; decide +kernel) (by unfold Store.AllDue; rw [hworld]; decide +kernel) (hidle 1 (by simp))
  rw [hworld] at hworld₁
  obtain ⟨σ₂, hsecond, hworld₂, -⟩ :=
    Sample.cleanPoll (s := Sample.hourly) (t := Sample.hourAfter) rfl hsteady hraised ⟨Sample.expiry, by decide +kernel⟩
      (RetryPolicy.dateFits_of_build rfl (by decide) (by decide)) (hfirst.onward.reachable hreached) hstill₁ (k := 2)
      (by rw [hworld₁]; decide +kernel) (by unfold Store.AllDue; rw [hworld₁]; decide +kernel)
      (by rw [hidle₁ 2 (by simp)]; exact hidle 2 (by simp))
  rw [hworld₁] at hworld₂
  have hlast : (σ₂.world.store.last? "order").map (·.state) = some .pending := by
    rw [hworld₂]
    decide +kernel
  refine ⟨σ₀, σ₂, h₀, by unfold Store.Apart; rw [hworld]; decide +kernel,
    (System.PolledInTurn.none.next hfirst).next hsecond, by decide +kernel, by rw [hworld₂]; decide +kernel, ?_⟩
  intro hended
  obtain ⟨a, ha, hstate⟩ := Option.map_eq_some_iff.1 hlast
  rcases hended _ a ha with h | h <;> simp [hstate] at h

end PaymentRetry
