import PaymentRetry.Proofs.Workers.Writing

/-!
# Rows that the policy justifies

Under one policy, what stands in a row is what the policy has ruled for it.  A row that is pending or went through holds
nothing of a failure; a row that is to be retried has a number that the policy retries and falls due after the policy's
delay; a row that was given up has a number beyond those (`Attempt.Justified`).  The kind of failure may change from one
row of a payment to the next, so a payment may have as many rows as the more patient of the two rules allows, and one
more (`System.Governed.justified`).

A program reads the clock to reckon when the retry is due, and the transition that it asks for next reads the clock
again.  Nothing else gets a turn between these two readings.  So the clock may move, forwards or backwards, at all times
but these (`System.Deciding`): between operations, while the gateway is called, before and after any other request.
-/

namespace PaymentRetry

open Simulation

/-! ### What a policy rules -/

/-- The failure type, the message, the due date and the update time of the row `a` are those that `p` gives for its
state and number. -/
inductive Attempt.Justified (p : RetryPolicy) (a : Attempt) : Prop
  | pending : a.state = .pending → a.failureType = none → a.message = none → a.dueAt = none →
      a.updated = a.created → Justified p a
  | success : a.state = .success → a.failureType = none → a.message = none → a.dueAt = none → Justified p a
  | retried {type : FailureType} {delay : Duration} {due : DateTime} : a.state = .retried → a.failureType = some type →
      a.number ≤ p.maxAttempts type → p.delay type (a.number - 1) = .ok (some delay) →
      a.updated.add delay = .ok due → a.dueAt = some due → a.updated ≤ due → Justified p a
  | aborted {type : FailureType} : a.state = .aborted → a.failureType = some type → p.maxAttempts type < a.number →
      a.dueAt = none → Justified p a

namespace RetryPolicy

variable {days : List Int} {pluginMaximum : Int} {pluginDelay : Duration} {p : RetryPolicy}

/-- A pending row without a failure, once a ruling of `p` has been written into it, is justified. -/
theorem justified_of_ruling (h : build days pluginMaximum pluginDelay = .ok p) {c : Attempt} (hnumber : 1 ≤ c.number)
    (htype : c.failureType = none) (hmessage : c.message = none) (hdue : c.dueAt = none) {result : GatewayResult}
    {now : DateTime} {target : AttemptState} {change : Change}
    (hruling : p.ruling result c.number now = .ok (target, change)) :
    (change.apply { c with state := target, updated := now }).Justified p := by
  cases rules_of_ruling hruling with
  | success => exact .success rfl htype hmessage hdue
  | @aborted type _ hdelay =>
    have hend : ¬c.number ≤ p.maxAttempts type := by simpa using delay_eq_ok hnumber hdelay
    exact .aborted rfl rfl (Int.not_le.1 hend) hdue
  | @retried type delay due hwaits hadd =>
    have hdelay := hwaits.2
    refine .retried rfl rfl ((delay_eq_ok hnumber hdelay).1 rfl) hdelay hadd rfl ?_
    have hnonneg := delay_nonneg h hdelay
    have hmicros := DateTime.micros_of_add hadd
    show now.micros ≤ due.micros
    omega

end RetryPolicy

/-! ### Runs under one policy -/

/-- The program at `p` has read the clock, and has neither ended nor asked for a transition since. -/
def System.Deciding (σ : System) (p : Place) : Prop :=
  (σ.workers p.worker).InRound p.round ∧ (σ.log.stage p).clock ≠ none ∧ (σ.log.stage p).moved = [] ∧
    ¬Log.Ended p σ.log

/-- The runs in which all schedulers have the policy `policy` and the clock does not move while a program is deciding.
-/
inductive System.Governed (policy : RetryPolicy) (w : World) : System → Prop
  | refl : Governed policy w { world := w }
  | step {σ σ' : System} : Governed policy w σ → σ.Step σ' → σ.Begins (fun _ s _ => s.policy = policy) σ' →
      (∀ p, σ.Deciding p → σ'.world.now = σ.world.now) → Governed policy w σ'

theorem Stage.clock_hear {σ : Stage} {r : Request} {x : r.Answer} (hr : r ≠ .now) : (σ.hear r x).clock = σ.clock := by
  cases r
  case now => exact absurd rfl hr
  all_goals rfl

theorem Stage.moved_of_hear {σ : Stage} {r : Request} {x : r.Answer} (h : (σ.hear r x).moved = []) : σ.moved = [] := by
  cases r
  case transition id source target change => cases h
  all_goals exact h

theorem Log.stage_cons_quiet {p : Place} {entry : Entry} (h : ∀ a, entry.event ≠ .act a) (log : Log) :
    stage p (entry :: log) = stage p log := by
  obtain ⟨q, event⟩ := entry
  cases event with
  | act a => exact absurd rfl (h a)
  | entered | left | ended => rfl

/-- A worker that is in the round of one of its logged entries after a step was in it before. -/
theorem System.Onward.in_round_of_logged {may : Permission} {w : World} {σ σ' : System}
    (h : Onward may { world := w } σ) (hstep : σ.Step σ') (hbegins : σ.Begins may σ') {entry : Entry}
    (hentry : entry ∈ σ.log) (hround : (σ'.workers entry.place.worker).InRound entry.place.round) :
    (σ.workers entry.place.worker).InRound entry.place.round := by
  cases hstep with
  | clock t => exact hround
  | @start k s op hidle =>
    by_cases hk : entry.place.worker = k
    · -- nothing is logged of a worker that is idle
      have hallows : may.Allows k := by
        rcases hbegins k hidle with hidle' | ⟨s', op', hmay, -⟩
        · simp only [Function.update_self] at hidle'
          exact absurd hidle' (Task.begin_ne_idle _ _)
        · exact ⟨s', op', hmay⟩
      have htranscribed := h.transcribed (may.fresh w) k hallows
      rw [hidle] at htranscribed
      exact absurd hk (htranscribed entry hentry)
    · simp only [Function.update_of_ne hk] at hround
      exact hround
  | @act k number n β phases next i event φ w' hk hphase =>
    by_cases hworker : entry.place.worker = k
    · subst hworker
      simp only [Function.update_self] at hround
      rw [hk]
      exact hround
    · simp only [Function.update_of_ne hworker] at hround
      exact hround
  | @advance k number n β phases next bs hk hover =>
    by_cases hworker : entry.place.worker = k
    · -- nothing is logged of the round that begins
      subst hworker
      have hin : (σ.workers entry.place.worker).InRound number := by simp [hk, Activity.InRound]
      have hle := h.rounds_le (may.fresh w) (h.allows_of_busy (by simp [hk])) hin entry hentry rfl
      simp only [Function.update_self] at hround
      cases hnext : next bs with
      | done x =>
        rw [hnext] at hround
        exact hround.elim
      | round pieces next' =>
        rw [hnext] at hround
        have : number + 1 = entry.place.round := hround
        omega
    · simp only [Function.update_of_ne hworker] at hround
      exact hround

namespace System.Governed

variable {policy : RetryPolicy} {w : World} {σ : System}

theorem onward (h : Governed policy w σ) : Onward (fun _ s _ => s.policy = policy) { world := w } σ := by
  induction h with
  | refl => exact .refl
  | step _ hstep hbegins _ ih => exact ih.next hstep hbegins

theorem still (hw : w.Still) (h : Governed policy w σ) : σ.world.Still := by
  induction h with
  | refl => exact hw
  | step _ hstep _ _ ih => exact (hstep.still ih).1

/-- A program that is deciding has read the time that the clock still shows. -/
theorem clock_of_deciding (hw : w.Still) (h : Governed policy w σ) {p : Place} (hp : σ.Deciding p) :
    (σ.log.stage p).clock = some σ.world.now := by
  induction h with
  | refl => exact absurd rfl hp.2.1
  | @step σ σ' h hstep hbegins hclock ih =>
    obtain ⟨hround, hread, hmoved, hended⟩ := hp
    -- a program that had read the clock before was deciding before, so the clock has not moved
    have hbefore : (σ'.log.stage p).clock = (σ.log.stage p).clock → (σ.log.stage p).moved = [] →
        (σ'.log.stage p).clock = some σ'.world.now := by
      intro hsame hmoved'
      rw [hsame] at hread ⊢
      obtain ⟨t, ht⟩ := Option.ne_none_iff_exists'.1 hread
      obtain ⟨refused, before, after, hmem⟩ := Stage.exists_now ht
      have hround' : (σ.workers p.worker).InRound p.round :=
        h.onward.in_round_of_logged hstep hbegins (Log.mem_past.1 hmem) hround
      have hdeciding : σ.Deciding p := ⟨hround', hread, hmoved', fun h => hended (hstep.log_subset h)⟩
      rw [hclock p hdeciding]
      exact ih hdeciding
    have hunchanged : σ'.log.stage p = σ.log.stage p → (σ'.log.stage p).clock = some σ'.world.now :=
      fun hsame => hbefore (by rw [hsame]) (hsame ▸ hmoved)
    rcases hstep.exchange_or_quiet with ⟨q, e, hlog, he, hearlier, hlater⟩ | ⟨q, c, hlog, -⟩ |
      ⟨-, hlog | ⟨entry, hlog, hquiet⟩⟩
    · by_cases hq : q = p
      · subst hq
        have hstage : σ'.log.stage q = (σ.log.stage q).hear e.request e.answer := by
          rw [hlog, Log.stage_cons_act]
          rfl
        rw [hstage] at hmoved
        by_cases hnow : e.request = .now
        · -- it has just read the clock, and reading the clock does not move it
          obtain ⟨hafter, hsame⟩ := he.still (hearlier ▸ h.still hw)
          obtain ⟨r, t, refused, before, after⟩ := e
          simp only at hnow hearlier hlater hsame
          subst hnow hlater
          rw [hstage, hsame]
          exact congrArg some he.now_eq
        · exact hbefore (by rw [hstage, Stage.clock_hear hnow]) (Stage.moved_of_hear hmoved)
      · exact hunchanged (by rw [hlog, Log.stage_cons_of_ne hq])
    · by_cases hq : q = p
      · subst hq
        have hstage : σ'.log.stage q = { σ.log.stage q with asked := true } := by rw [hlog, Log.stage_cons_act]; rfl
        exact hbefore (by rw [hstage]) (by rwa [hstage] at hmoved)
      · exact hunchanged (by rw [hlog, Log.stage_cons_of_ne hq])
    · exact hunchanged (by rw [hlog])
    · exact hunchanged (by rw [hlog, Log.stage_cons_quiet hquiet])

/-- What a transition writes is the ruling for its row at the moment of the transition. -/
theorem ruling_eq (hw : w.Unused) (htick : w.tick = 0) {σ' : System} (h : Governed policy w σ)
    (h' : Governed policy w σ') {p : Place} {id : AttemptId} {target : AttemptState} {change : Change}
    {a c : Attempt} {refused : Bool} {before after : World}
    (hlog : σ'.log =
      ⟨p, .act (.exchanged ⟨.transition id .pending target change, .ok a, refused, before, after⟩)⟩ :: σ.log)
    (hround : (σ.workers p.worker).InRound p.round) (hbefore : before = σ.world) (hc : c ∈ before.store.rows)
    (hid : c.id = id) : ∃ result, policy.ruling result c.number before.now = .ok (target, change) := by
  have hreached := h.onward.reachable .refl
  have hsound := hreached.log_sound hw
  have horderly := (h'.onward.reachable .refl).orderly Scheduler.conduct_observed
  have hallows : Permission.Allows (fun _ s _ => s.policy = policy) p.worker := by
    refine h.onward.allows_of_busy fun hidle => ?_
    rw [hidle] at hround
    exact hround
  have hsplit := hlog
  rw [← List.nil_append (_ :: σ.log)] at hsplit
  obtain ⟨result, id', b, hlooked, hbid, -, hgives⟩ := h'.onward.ruled_of_split (fun _ _ _ h => h) hsplit hallows
  -- it is the row that had been looked up
  have hnumber : b.number = c.number := by
    obtain ⟨refused', before', after', hget⟩ := Stage.exists_get hlooked
    have hget := hsound.exchanges p _ (Log.mem_past.1 hget)
    rcases hget.effect.2 with ⟨f, hf⟩ | ⟨b', hb', hfind⟩
    · cases hf
    obtain rfl := Except.ok.inj hb'
    obtain ⟨hb, -⟩ := Store.find?_eq_some hfind
    exact (Store.Grows.eq_of_id hget.grows_before (.refl _) hsound.sequenced.distinct hb (hbefore ▸ hc)
      (hbid.trans hid.symm)).2
  rw [hnumber] at hgives
  rcases hgives with ⟨t, hread, hruling⟩ | hruling
  · rw [hlog] at horderly
    obtain ⟨-, hended, -, hmoved, -⟩ := horderly.of_exchanged (by simp)
    have hnow := h.clock_of_deciding ⟨hw.undisturbed, htick⟩ (p := p)
      ⟨hround, by rw [Log.stage, hread]; exact Option.some_ne_none t, hmoved, hended⟩
    obtain rfl : t = σ.world.now := Option.some.inj (hread.symm.trans hnow)
    exact ⟨result, hbefore ▸ hruling⟩
  · exact ⟨result, hruling _⟩

/-- A step preserves that all rows are justified. -/
private theorem justified_rows {days : List Int} {pluginMaximum : Int} {pluginDelay : Duration}
    (hpolicy : RetryPolicy.build days pluginMaximum pluginDelay = .ok policy) (hw : w.Unused) (htick : w.tick = 0)
    (h : Governed policy w σ) : ∀ a ∈ σ.world.store.rows, a.Justified policy := by
  induction h with
  | refl =>
    intro a ha
    rw [hw.empty] at ha
    cases ha
  | @step σ σ' h hstep hbegins hclock ih =>
    have h' := h.step hstep hbegins hclock
    have hreached' := h'.onward.reachable .refl
    rcases hstep.exchange_or_quiet with ⟨p, e, hlog, -, hbefore, hafter⟩ | ⟨p, c, -, hworld⟩ | ⟨⟨t, hworld⟩, -⟩
    · rw [← hbefore] at ih
      rw [← hafter]
      have hmem : ⟨p, .act (.exchanged e)⟩ ∈ σ'.log := by simp [hlog]
      have hsound := (hreached'.log_sound hw).exchanges p e hmem
      cases hsound.writes with
      | nothing hrows =>
        rw [hrows]
        exact ih
      | @added d a refused before after hinsert =>
        obtain ⟨hcomplete, -, -, hrows⟩ := Store.insert_eq_ok hinsert
        obtain ⟨-, -, -, -, -, -, -, htype, hmessage, -, hcreated, hupdated, -⟩ := Store.complete?_eq_some hcomplete
        have hpending := (hreached'.orderly Scheduler.conduct_observed).pending_of_create hw hmem
        intro b hb
        simp only [hrows, List.mem_append, List.mem_singleton] at hb
        rcases hb with hb | rfl
        · exact ih b hb
        · have hrow : a.asStored ∈ σ'.world.store.rows := by
            rw [← hafter]
            simp [hrows]
          obtain ⟨-, -, hdue⟩ := (hreached'.log_sound hw).blank _ hrow hpending
          exact .pending hpending htype hmessage hdue (hupdated.trans hcreated.symm)
      | @completed target change a refused before after c first last htarget hpending hrows ha hrows' =>
        have hc : c ∈ before.store.rows := by simp [hrows]
        obtain ⟨result, hruling⟩ := h.ruling_eq hw htick h' hlog (hstep.in_round hlog) hbefore hc rfl
        obtain ⟨htype, hmessage, hdue⟩ := hsound.blank c hc hpending
        have hnumber := (Store.mem_numbersTo.1 (hsound.sequenced.number_mem hc)).1
        intro b hb
        simp only [hrows', List.mem_append, List.mem_cons] at hb
        rcases hb with hb | rfl | hb
        · exact ih b (by simp [hrows, hb])
        · rw [ha]
          exact RetryPolicy.justified_of_ruling hpolicy hnumber htype hmessage hdue hruling
        · exact ih b (by simp [hrows, hb])
    · rw [hworld]
      exact ih
    · rw [hworld]
      exact ih

/-- In every run under one accepted policy, whatever is submitted, recorded and polled and whatever calls fail, each
row is justified by the policy, and no payment has more attempts than one plus the maximum for business failures or
that for plugin failures, whichever is greater. -/
theorem justified {days : List Int} {pluginMaximum : Int} {pluginDelay : Duration}
    (hpolicy : RetryPolicy.build days pluginMaximum pluginDelay = .ok policy) (hw : w.Unused) (htick : w.tick = 0)
    (h : Governed policy w σ) :
    (∀ a ∈ σ.world.store.rows, a.Justified policy) ∧ ∀ key, ((σ.world.store.attemptsOf key).length : Int) ≤
      max (policy.maxAttempts .business) (policy.maxAttempts .plugin) + 1 := by
  have hrows := h.justified_rows hpolicy hw htick
  refine ⟨hrows, fun key => ?_⟩
  have hbusiness : 0 ≤ policy.maxAttempts .business := Int.natCast_nonneg _
  by_cases hshort : (σ.world.store.attemptsOf key).length ≤ 1
  · omega
  -- the attempt before the last one is to be retried
  have hsequenced := ((h.onward.reachable .refl).log_sound hw).sequenced
  obtain ⟨a, ha, hnumber⟩ : ∃ a ∈ σ.world.store.attemptsOf key,
      a.number = ((σ.world.store.attemptsOf key).length : Int) - 1 := hsequenced.exists_number (by omega) (by omega)
  have hretried := hsequenced.retried_of_lt ha (by omega)
  have hwithin : ∃ type, a.number ≤ policy.maxAttempts type := by
    cases hrows a (Store.mem_attemptsOf.1 ha).1 with
    | retried _ _ hle => exact ⟨_, hle⟩
    | pending hstate => cases hstate.symm.trans hretried
    | success hstate => cases hstate.symm.trans hretried
    | aborted hstate => cases hstate.symm.trans hretried
  obtain ⟨type, hle⟩ := hwithin
  cases type <;> omega

/-! ### A payment that is given up a day later -/

theorem keptBy (hw : w.Still) (k : Nat) : KeptBy (Governed policy w) k := by
  intro σ σ' h hstep hbusy hothers _ _ hquiet
  refine h.step hstep (fun j hj => .inl ?_) fun p _ => ?_
  · rw [hothers j (by rintro rfl; exact hbusy hj)]
    exact hj
  · rcases (hstep.still (h.still hw)).2 with hnow | ⟨hlog, -⟩
    · exact hnow
    · rw [hquiet hlog]

/-- An idle worker may run an operation alone. -/
theorem alone (hw : w.Still) (h : Governed policy w σ) {k : Nat} (hk : σ.workers k = .idle) {s : Scheduler}
    (hs : s.policy = policy) (op : Operation) (gateway : List Charge → Charge → Except Failure GatewayResult) :
    ∃ σ', Governed policy w σ' ∧ σ'.world = ((s.task op).sequential.run (World.reply gateway) σ.world).2 ∧
      σ'.workers = Function.update σ.workers k
        (.finished ((s.task op).sequential.run (World.reply gateway) σ.world).1) := by
  have hbegun : Governed policy w { σ with workers := Function.update σ.workers k ((s.task op).begin 0) } := by
    refine h.step (.start s op hk) (fun j hj => ?_) fun _ _ => rfl
    by_cases hjk : j = k
    · subst hjk
      exact .inr ⟨s, op, hs, Function.update_self ..⟩
    · exact .inl ((Function.update_of_ne hjk _ _).trans hj)
  obtain ⟨⟨new, hreached, -⟩, -⟩ := Solo.task (keptBy hw k)
    (fun _ _ => ⟨_, Replies.ongoing gateway (fun _ => True) trivial⟩) ⟨[], hbegun, .nil⟩ trivial
  exact ⟨_, hreached, rfl, rfl⟩

/-- The clock may move while no worker is in a round. -/
theorem move (h : Governed policy w σ) (hrest : ∀ k number, ¬(σ.workers k).InRound number) (t : DateTime) :
    Governed policy w { σ with world := { σ.world with now := t } } :=
  h.step (.clock t) (fun _ hk => .inl hk) fun _ hp => absurd hp.1 (hrest _ _)

end System.Governed

namespace Sample

/-- Two days after the payment has been submitted. -/
def later : DateTime := ⟨3600 * Duration.second + 2 * Duration.day, by decide⟩

/-- The world after a submission to a gateway that declines every charge. -/
def declinedOnce : World :=
  ((patient.task (.submit submission)).sequential.run (World.reply fun _ _ => .ok ⟨.businessFailure, none⟩) world).2

/-- The world after the retry two days later. -/
def declinedTwice : World :=
  ((patient.task (.poll none)).sequential.run (World.reply fun _ _ => .ok ⟨.businessFailure, none⟩)
    { declinedOnce with now := later }).2

end Sample

theorem justified_of_two_declines : ∃ σ, System.Governed Sample.patient.policy Sample.world σ ∧
    σ.world.store.rows.map (fun a => (a.number, a.state, a.failureType)) =
      [(1, .retried, some .business), (2, .aborted, some .business)] ∧
    (∀ a ∈ σ.world.store.rows, a.Justified Sample.patient.policy) ∧
    ∀ key, ((σ.world.store.attemptsOf key).length : Int) ≤
      max (Sample.patient.policy.maxAttempts .business) (Sample.patient.policy.maxAttempts .plugin) + 1 := by
  have hstill : Sample.world.Still := ⟨rfl, rfl⟩
  obtain ⟨σ₁, h₁, hworld₁, hworkers₁⟩ := System.Governed.refl.alone hstill (k := 0) rfl (s := Sample.patient) rfl
    (.submit Sample.submission) fun _ _ => .ok ⟨.businessFailure, none⟩
  have hrest : ∀ k number, ¬(σ₁.workers k).InRound number := by
    intro k number
    rw [hworkers₁]
    by_cases hk : k = 0
    · subst hk
      rw [Function.update_self]
      exact fun h => h
    · rw [Function.update_of_ne hk]
      exact fun h => h
  obtain ⟨σ₂, h₂, hworld₂, -⟩ := (h₁.move hrest Sample.later).alone hstill (k := 1)
    (by rw [hworkers₁]; exact Function.update_of_ne (by simp) _ _) (s := Sample.patient) rfl (.poll none)
    fun _ _ => .ok ⟨.businessFailure, none⟩
  have hdeclined : σ₂.world = Sample.declinedTwice := by
    rw [hworld₂, hworld₁]
    rfl
  have hpolicy : RetryPolicy.build [1] 0 ⟨0⟩ = .ok Sample.patient.policy := rfl
  refine ⟨σ₂, h₂, ?_, h₂.justified hpolicy ⟨rfl, rfl⟩ rfl⟩
  rw [hdeclined]
  decide +kernel

end PaymentRetry
