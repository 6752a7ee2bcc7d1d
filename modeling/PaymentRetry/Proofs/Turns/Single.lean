import PaymentRetry.Proofs.Turns.Poll
import PaymentRetry.Proofs.Workers.Draining

/-!
# One poll

If the calls of the store do not fail and all dates lie within the calendar, it is known exactly which attempts a poll
takes up (`Reachable.one_poll`).  The attempts that are overdue (`Store.Overdue`) are completed as technical failures,
and no others; then each attempt that is due in the store as it is now (`Store.Due`) gets one successor, which is
carried out.  An attempt that has just been completed may be due at once, but a payment gets no more than one attempt.
-/

namespace PaymentRetry

open Simulation

/-! ### Expired leases -/

namespace RetryPolicy

variable {p : RetryPolicy} {number : Int} {now : DateTime} {a : Attempt}

/-- `a` has become `b` at the moment `now` because its lease has expired: `b` is retried after the delay for technical
failures, or aborted if the policy has no such delay at its number. -/
def Lapses (p : RetryPolicy) (now : DateTime) (a b : Attempt) : Prop :=
  if a.number ≤ p.pluginMaximum then
    ∃ due, now.add p.pluginDelay = .ok due ∧
      b = { a with
        state := .retried, failureType := some .plugin, message := some Scheduler.leaseReason, dueAt := some due
        updated := now }
  else
    b = { a with
      state := .aborted, failureType := some .plugin, message := some Scheduler.leaseReason, updated := now }

theorem delay_plugin (hnumber : 1 ≤ number) :
    p.delay .plugin (number - 1) = .ok (if number ≤ p.pluginMaximum then some p.pluginDelay else none) := by
  unfold delay maxAttempts
  by_cases hle : number ≤ p.pluginMaximum
  · rw [if_neg (by simp only [Bool.or_eq_true, decide_eq_true_eq]; omega), if_pos hle]
  · rw [if_pos (by simp only [Bool.or_eq_true, decide_eq_true_eq]; omega), if_neg hle]

/-- The settlement of an expired attempt is a lapse, unless `p` leaves it pending. -/
theorem lapses_or_leavesPending (p : RetryPolicy) (now : DateTime) (hnumber : 1 ≤ a.number) :
    p.Lapses now a (p.settle ⟨.pluginException, some Scheduler.leaseReason⟩ now a) ∨
      p.LeavesPending ⟨.pluginException, some Scheduler.leaseReason⟩ a.number now := by
  have hstorable : Failure.ofTexts? [Scheduler.leaseReason] = none := by decide +kernel
  have hdelay := p.delay_plugin hnumber
  by_cases hle : a.number ≤ p.pluginMaximum
  · rw [if_pos hle] at hdelay
    cases hadd : now.add p.pluginDelay with
    | error e =>
      refine .inr (.inl ⟨e, ?_⟩)
      simp only [ruling, Outcome.failureType, hdelay, hadd]
    | ok due =>
      refine .inl ?_
      have hruling : p.ruling ⟨.pluginException, some Scheduler.leaseReason⟩ a.number now = .ok (.retried,
          { failureType := some (some .plugin), message := some (some Scheduler.leaseReason)
            dueAt := some (some due) }) := by
        simp only [ruling, Outcome.failureType, hdelay, hadd]
      rw [settle_of_ruling hruling hstorable, Lapses, if_pos hle]
      exact ⟨due, hadd, rfl⟩
  · rw [if_neg hle] at hdelay
    refine .inl ?_
    have hruling : p.ruling ⟨.pluginException, some Scheduler.leaseReason⟩ a.number now = .ok (.aborted,
        { failureType := some (some .plugin), message := some (some Scheduler.leaseReason) }) := by
      simp only [ruling, Outcome.failureType, hdelay]
    rw [settle_of_ruling hruling hstorable, Lapses, if_neg hle]
    rfl

end RetryPolicy

/-! ### Successors -/

namespace Scheduler

/-- `b` is a successor of `a` that has been carried out: it is completed by the ruling on what was heard of its charge,
or pending because the store refuses the text of its failure. -/
inductive Succeeds (s : Scheduler) (S : Service) (clock : DateTime → Prop) (a : Attempt) : Attempt → Prop
  | completed {t t' t'' : DateTime} {id : AttemptId} {y : Except Failure GatewayResult} {target : AttemptState}
      {change : Change} : clock t → clock t' → clock t'' → s.Hears S a.charge y → target ≠ .pending →
      s.policy.ruling (.ofAnswer y) (a.number + 1) t' = .ok (target, change) →
      Succeeds s S clock a (change.apply { a.retryAt t id with state := target, updated := t'' })
  | unstorable {t : DateTime} {id : AttemptId} {y : Except Failure GatewayResult} {type : FailureType} {f : Failure} :
      clock t → s.Hears S a.charge y → (GatewayResult.ofAnswer y).outcome.failureType = some type →
      Failure.ofTexts? (GatewayResult.ofAnswer y).message.toList = some f → Succeeds s S clock a (a.retryAt t id)

/-- The effect of a poll without faults: the overdue attempts of `first` lapse, which gives `between`, and `added` has
one successor for each attempt due in `between`. -/
structure Sweeps (s : Scheduler) (S : Service) (clock : DateTime → Prop) (now asOf horizon : DateTime)
    (first between last : Store) (added : List Attempt) : Prop where
  lapsed : List.Forall₂
    (fun a b => (first.Overdue horizon s.batch a → s.policy.Lapses now a b) ∧
      (¬first.Overdue horizon s.batch a → b = a)) first.rows between.rows
  rows_eq : last.rows = between.rows ++ added
  succeeded : ∀ d, between.Due asOf s.batch d →
    ∃ r, added.filter (·.key = d.attempt.key) = [r] ∧ s.Succeeds S clock d.attempt r
  among : ∀ r ∈ added, ∃ d, between.Due asOf s.batch d ∧ r.key = d.attempt.key
  once : (added.map (·.key)).Nodup

/-- The dates that a poll of `first` may compute lie within the calendar: those of overdue attempts when they lapse
(`lapse`), and those of the successors of attempts that may be due, after anything heard of their charges
(`succeed`). -/
structure DatesFit (s : Scheduler) (S : Service) (clock : DateTime → Prop) (now asOf horizon : DateTime)
    (first : Store) : Prop where
  lapse : ∀ a, first.Overdue horizon s.batch a → s.policy.DateFits .pluginException a.number now
  succeed : ∀ a ∈ first.rows,
    (first.Overdue horizon s.batch a ∨ a.state = .retried ∧ ∃ due, a.dueAt = some due ∧ due ≤ asOf) →
    ∀ t, clock t → ∀ y, s.Hears S a.charge y →
      s.policy.DateFits (GatewayResult.ofAnswer y).outcome (a.number + 1) t

variable {s : Scheduler} {S : Service} {clock : DateTime → Prop} {a : Attempt}

/-- A retry whose number and dates fit is one successor. -/
theorem Retries.succeeds {made : Bool} {added : List Attempt} (h : s.Retries S clock a made added)
    (hfree : ∀ key, ¬S.disturbed key ∧ ¬S.barred key) (hfits : Store.fits (a.number + 1) = true)
    (hdates : ∀ t, clock t → ∀ y, s.Hears S a.charge y →
      s.policy.DateFits (GatewayResult.ofAnswer y).outcome (a.number + 1) t) :
    ∃ r, added = [r] ∧ s.Succeeds S clock a r := by
  cases h with
  | unmade hmay =>
    rcases hmay with hwide | hdisturbed | hbarred
    · rw [hfits] at hwide
      cases hwide
    · exact absurd hdisturbed (hfree _).1
    · exact absurd hbarred (hfree _).2
  | @made t id y b _ _ ht hy hsettles =>
    refine ⟨b, rfl, ?_⟩
    cases hsettles with
    | completed ht' ht'' hruling _ =>
      exact .completed ht ht' ht'' hy (RetryPolicy.ruling_ne_pending hruling) hruling
    | leftPending ht' hleaves =>
      have hunstorable : ∃ type f, (GatewayResult.ofAnswer y).outcome.failureType = some type ∧
          Failure.ofTexts? (GatewayResult.ofAnswer y).message.toList = some f := by
        by_contra hnone
        refine RetryPolicy.not_leavesPending (hdates _ ht' y hy) (fun type htype => ?_) hleaves
        cases hreason : Failure.ofTexts? (GatewayResult.ofAnswer y).message.toList with
        | none => rfl
        | some f => exact absurd ⟨type, f, htype, hreason⟩ hnone
      obtain ⟨type, f, htype, hreason⟩ := hunstorable
      exact .unstorable ht hy htype hreason
    | disturbed hdisturbed => exact absurd hdisturbed (hfree _).1

private theorem nodup_keys_of_filter {added : List Attempt}
    (h : ∀ r ∈ added, (added.filter (·.key = r.key)).length = 1) : (added.map (·.key)).Nodup := by
  refine List.nodup_iff_count_le_one.2 fun key => ?_
  by_cases hkey : key ∈ added.map (·.key)
  · obtain ⟨r, hr, rfl⟩ := List.mem_map.1 hkey
    rw [List.count, List.countP_map, List.countP_eq_length_filter]
    refine Nat.le_of_eq (Eq.trans ?_ (h r hr))
    congr 1
  · rw [List.count_eq_zero_of_not_mem hkey]
    omega

private theorem Polled.dates_of_due {now asOf horizon : DateTime} {first between last : Store} {added : List Attempt}
    (h : s.Polled S clock now asOf horizon first between last added) (hfirst : first.Sequenced)
    (hdates : s.DatesFit S clock now asOf horizon first) {d : DueRetry} (hd : between.Due asOf s.batch d)
    (t : DateTime) (ht : clock t) (y : Except Failure GatewayResult) (hy : s.Hears S d.attempt.charge y) :
    s.policy.DateFits (GatewayResult.ofAnswer y).outcome (d.attempt.number + 1) t := by
  obtain ⟨a, ha, hrecovers⟩ := h.exists_recovers hd.1
  have hbecomes := hrecovers.becomes
  rw [hbecomes.number_eq]
  rw [hbecomes.charge_eq] at hy
  refine hdates.succeed a ha ?_ t ht y hy
  by_cases hstale : a ∈ first.stalePending horizon s.batch
  · exact .inl ((Store.mem_stalePending_iff_overdue hfirst.distinct).1 hstale)
  · -- it has not been touched, so it was due before
    have hlisted := (Store.mem_dueRetries_iff_due h.sequenced.distinct).2 hd
    obtain ⟨-, hretried, hdue, hle, -⟩ := Store.mem_dueRetries_iff.1 (Store.mem_dueRetries_of_limit hlisted)
    rw [hrecovers.2 hstale] at hretried hdue
    exact .inr ⟨hretried, d.due, hdue, hle⟩

/-- Without faults, `Polled` is `Sweeps`. -/
theorem Polled.sweeps {now asOf horizon : DateTime} {first between last : Store} {added : List Attempt}
    (h : s.Polled S clock now asOf horizon first between last added) (hfirst : first.Sequenced)
    (hfree : ∀ key, ¬S.disturbed key ∧ ¬S.barred key)
    (hfits : ∀ a ∈ first.rows, Store.fits (a.number + 1) = true)
    (hdates : s.DatesFit S clock now asOf horizon first) :
    s.Sweeps S clock now asOf horizon first between last added := by
  have hlapses : ∀ a ∈ first.rows, ∀ b, s.Recovers S now (first.stalePending horizon s.batch) a b →
      (first.Overdue horizon s.batch a → s.policy.Lapses now a b) ∧ (¬first.Overdue horizon s.batch a → b = a) := by
    intro a ha b hrecovers
    rw [← Store.mem_stalePending_iff_overdue hfirst.distinct]
    refine ⟨fun hstale => ?_, hrecovers.2⟩
    rcases (hrecovers.1 hstale).eq_settle with rfl | ⟨hdisturbed, -⟩
    · refine (s.policy.lapses_or_leavesPending now (Store.mem_numbersTo.1 (hfirst.number_mem ha)).1).resolve_right ?_
      have hoverdue := (Store.mem_stalePending_iff_overdue hfirst.distinct).1 hstale
      exact RetryPolicy.not_leavesPending (hdates.lapse a hoverdue) fun _ _ => by decide +kernel
    · exact absurd hdisturbed (hfree _).1
  -- what is due is an old attempt, so the number of its successor fits the store
  have hnumbers : ∀ d, between.Due asOf s.batch d → Store.fits (d.attempt.number + 1) = true := by
    rintro d ⟨hd, -⟩
    obtain ⟨a, ha, hbecomes⟩ := h.exists_old hd
    rw [hbecomes.number_eq]
    exact hfits a ha
  have hsucceeded : ∀ d, between.Due asOf s.batch d →
      ∃ r, added.filter (·.key = d.attempt.key) = [r] ∧ s.Succeeds S clock d.attempt r := by
    intro d hd
    obtain ⟨made, hretries⟩ := h.retried d ((Store.mem_dueRetries_iff_due h.sequenced.distinct).2 hd)
    exact hretries.succeeds hfree (hnumbers d hd) (h.dates_of_due hfirst hdates hd)
  have hamong : ∀ r ∈ added, ∃ d, between.Due asOf s.batch d ∧ r.key = d.attempt.key := by
    intro r hr
    obtain ⟨d, hd, hkey⟩ := h.among r hr
    exact ⟨d, (Store.mem_dueRetries_iff_due h.sequenced.distinct).1 hd, hkey⟩
  refine ⟨?_, h.rows_eq, hsucceeded, hamong, nodup_keys_of_filter fun r hr => ?_⟩
  · exact ((List.forall₂_and_left ..).2 ⟨fun a ha => ha, h.recovered⟩).imp fun a b hab => hlapses a hab.1 b hab.2
  · obtain ⟨d, hd, hkey⟩ := hamong r hr
    obtain ⟨r', hr', -⟩ := hsucceeded d hd
    rw [hkey, hr', List.length_singleton]

end Scheduler

/-- The effect of one poll.  Nobody else writes and no store call fails, while the gateway may answer or raise anything
in `answers` and move the clock to any of `moments`.  If the limit, the numbers of the next attempts (`hfits`) and the
dates that are computed (`hdates`) fit, the poll ends with the number of attempts it has added, and its effect is
`Sweeps`: overdue attempts have lapsed, nothing else has changed, and every attempt then due has exactly one successor,
completed unless the store refuses the text of its failure. -/
theorem Reachable.one_poll {w : World} {σ : System} (hw : w.Unused) (h : Reachable w σ) (hstill : σ.world.Still)
    (s : Scheduler) (asOf : Option DateTime) {horizon : DateTime}
    (answers : Charge → Except Failure GatewayResult → Prop) (moments : DateTime → Prop)
    (hanswered : ∀ c, ∃ x, answers c x) (hcarriesOn : ∀ c e, answers c (.error e) → e.isCancellation = false)
    (hlimit : Store.limitFits s.batch = true) (hfits : ∀ a ∈ σ.world.store.rows, Store.fits (a.number + 1) = true)
    (hhorizon : (asOf.getD σ.world.now).sub s.lease = .ok horizon)
    (hdates : s.DatesFit { answers, moments } (fun t => t = σ.world.now ∨ moments t) σ.world.now
      (asOf.getD σ.world.now) horizon σ.world.store) :
    (s.polling asOf).AlwaysEnds (Service.Serves { answers, moments })
      (fun x w' => ∃ between added, x = .ok added.length ∧
        s.Sweeps { answers, moments } (fun t => t = σ.world.now ∨ moments t) σ.world.now (asOf.getD σ.world.now) horizon
          σ.world.store between w'.store added)
      σ.world := by
  have hsane : σ.world.Sane fun t => t = σ.world.now ∨ moments t := h.sane hw hstill (.inl rfl)
  have hpoll := Scheduler.polling_alwaysEnds (S := { answers, moments }) ⟨hanswered, hcarriesOn⟩ hlimit
    (fun _ ht => .inr ht) asOf hhorizon hsane
  refine hpoll.mono fun x w' hx => ?_
  obtain ⟨between, added, rfl, -, hpolled⟩ := hx
  exact ⟨between, added, rfl, hpolled.sweeps hsane.sequenced (fun _ => ⟨id, id⟩) hfits hdates⟩

/-- An abandoned attempt lapses and, with no delay for technical failures, is retried by the same poll. -/
theorem one_poll_of_abandoned : ∃ σ, Reachable Sample.world σ ∧
    σ.world.store.rows.map (·.state) = [.pending] ∧
    let declines : Charge → Except Failure GatewayResult → Prop := fun _ x => x = .ok ⟨.businessFailure, none⟩
    let run := (Sample.tolerant.poll none).run (World.reply fun _ _ => .ok ⟨.businessFailure, none⟩) σ.world
    run.2.store.rows.map (·.state) = [.retried, .aborted] ∧ ∃ between added, run.1 = .ok added.length ∧
      Sample.tolerant.Sweeps { answers := declines } (fun t => t = Sample.expiry ∨ False) Sample.expiry Sample.expiry
        Sample.world.now σ.world.store between run.2.store added := by
  obtain ⟨σ, h, hworld, -⟩ := Sample.onward_abandoned Sample.tolerant
  have hstill : σ.world.Still := by
    rw [hworld]
    exact ⟨by decide +kernel, by decide +kernel⟩
  have hnow : σ.world.now = Sample.expiry := by rw [hworld]; rfl
  have hhorizon : σ.world.now.sub Sample.tolerant.lease = .ok Sample.world.now := by
    rw [hnow]
    decide +kernel
  have hdates : ∀ outcome number, Sample.tolerant.policy.DateFits outcome number Sample.expiry :=
    RetryPolicy.dateFits_of_build rfl (by decide) (by decide)
  have hpoll := (h.reachable .refl).one_poll ⟨rfl, rfl⟩ hstill Sample.tolerant none
    (fun _ x => x = .ok ⟨.businessFailure, none⟩) (fun _ => False) (fun _ => ⟨_, rfl⟩) (by rintro c e ⟨⟩) rfl
    (by rw [hworld]; decide +kernel) hhorizon
    ⟨fun a _ => hnow ▸ hdates _ a.number, by
      rintro a - - t (rfl | ⟨⟨⟩⟩) y -
      rw [hnow]
      exact hdates _ (a.number + 1)⟩
  refine ⟨σ, h.reachable .refl, by rw [hworld]; decide +kernel, by rw [hworld]; decide +kernel, ?_⟩
  have hrun := hpoll.sequential (Service.serves_reply (fun _ _ => rfl) fun _ => id)
  simp only [Option.getD_none, hnow] at hrun
  exact hrun

/-- The gateway raises an exception whose text the store does not take, and the successor is left pending. -/
theorem pending_successor_of_unwritable_reason : ∃ σ, Reachable Sample.world σ ∧
    σ.world.store.rows.map (·.state) = [.pending] ∧
    let run := (Sample.tolerant.poll none).run (World.reply fun _ _ => .error Sample.unwritable) σ.world
    run.1.toOption = some 1 ∧ run.2.store.rows.map (·.state) = [.retried, .pending] := by
  obtain ⟨σ, h, hworld, -⟩ := Sample.onward_abandoned Sample.tolerant
  refine ⟨σ, h.reachable .refl, ?_, ?_, ?_⟩ <;> (rw [hworld]; decide +kernel)

end PaymentRetry
