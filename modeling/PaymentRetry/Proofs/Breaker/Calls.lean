import PaymentRetry.Proofs.Breaker.History
import PaymentRetry.Simulation.World

/-!
# Calls through the breaker

Calls that are made one after the other through the breaker: the gateway behind it is called for those that the history
of the earlier calls does not reject, and for no others, and what it returns or raises is passed on
(`Breaker.Calls.reflects`, `Breaker.Calls.reply`).  A call that is let through is noted in the history by what became of
it (`Breaker.Call.notes`), a call that is turned away is not.

`Breaker.goes_by_history` puts this together with what a breaker answers, for the comparison of durations that the
breaker makes, and for the comparison of their exact values where the breaker's comes to the same.
-/

namespace PaymentRetry.Breaker

open Simulation

instance (threshold : Int) (short : Duration → Bool) (h : History) (t : DateTime) :
    Decidable (h.Rejects threshold short t) :=
  decidable_of_iff ((max 1 threshold ≤ (h.streak : Int)) ∧ (h.lastFailure?.any fun last => short (t.since last)) = true)
    (by simp only [History.Rejects, Option.any_eq_true])

/-- A call: what is to be charged, when the call begins, what the gateway makes of it, and when. -/
structure Call where
  charge : Charge
  /-- When the call begins. -/
  begins : DateTime
  /-- What the gateway returns or raises. -/
  answer : Except Failure GatewayResult
  /-- When the gateway has answered. -/
  ends : DateTime

/-- What is noted of `call` if it is let through.  A technical failure, returned or raised, is a failure, another
answer a success, and a call that is called off is neither. -/
def Call.notes (call : Call) : History :=
  match call.answer with
  | .ok result => if result.outcome = .pluginException then [⟨.fail, call.ends⟩] else [⟨.succeed, call.ends⟩]
  | .error e => if e.isCancellation then [] else [⟨.fail, call.ends⟩]

section Rule

variable (threshold : Int) (short : Duration → Bool)

/-- The history that calls leave, the latest first.  Rejected calls leave nothing. -/
def recorded : List Call → History
  | [] => []
  | call :: earlier =>
    if (recorded earlier).Rejects threshold short call.begins then recorded earlier
    else call.notes ++ recorded earlier

/-- The calls that their history does not reject. -/
def admitted : List Call → List Call
  | [] => []
  | call :: earlier =>
    if (recorded threshold short earlier).Rejects threshold short call.begins then admitted earlier
    else call :: admitted earlier

/-- What the caller gets after the history `h`: the answer of the gateway, or that it is unavailable. -/
def replyTo (h : History) (call : Call) : Except Failure GatewayResult :=
  if h.Rejects threshold short call.begins then .error (.gatewayUnavailable Gateway.rejectionReason) else call.answer

end Rule

/-- Whether `gateway` answers `call` in `w` as the call says, takes it down, leaves the breaker alone, and does not set
the clock back. -/
structure Meets (gateway : Calling) (call : Call) (w : World) : Prop where
  answers : (gateway w call.charge).1 = call.answer
  takesDown : (gateway w call.charge).2.charges = call.charge :: w.charges
  breaker : (gateway w call.charge).2.breaker = w.breaker
  ends : (gateway w call.charge).2.now = call.ends
  onward : call.begins ≤ call.ends

/-- Whether `call` begins in `w`, and meets `gateway` if the breaker lets it through. -/
structure Comes (gateway : Calling) (call : Call) (w : World) : Prop where
  begins : call.begins = w.now
  meets : w.observeBreaker.breaker.allows = true → Meets gateway call w.observeBreaker

/-- The world after `call` through the breaker. -/
def called (gateway : Calling) (call : Call) (w : World) : World :=
  ((Gateway.guarded call.charge).run (World.answerBy gateway) w).2

/-- Calls are made one after the other through the breaker, the latest first.  Between them anything may happen that
leaves the breaker and the gateway alone, and the clock does not go back. -/
inductive Calls (gateway : Calling) (start : World) : List Call → World → Prop
  | none : Calls gateway start [] start
  | wait {calls : List Call} {w w' : World} (hcalls : Calls gateway start calls w) (hbreaker : w'.breaker = w.breaker)
    (hcharges : w'.charges = w.charges) (hnow : w.now ≤ w'.now) : Calls gateway start calls w'
  | call {calls : List Call} {w : World} {call : Call} (hcalls : Calls gateway start calls w)
    (hcomes : Comes gateway call w) : Calls gateway start (call :: calls) (called gateway call w)

/-! ### One call -/

@[simp]
theorem breaker_observeBreaker (w : World) : w.observeBreaker.breaker = w.breaker.observe w.now := by
  simp only [World.observeBreaker]
  split <;> rfl

@[simp]
theorem charges_observeBreaker (w : World) : w.observeBreaker.charges = w.charges := by
  simp only [World.observeBreaker]
  split <;> rfl

@[simp]
theorem now_observeBreaker (w : World) : w.observeBreaker.now = w.now := by
  simp only [World.observeBreaker]
  split <;> rfl

theorem failBreaker_facts (w : World) : w.failBreaker.breaker = w.breaker.failed w.now ∧
    w.failBreaker.charges = w.charges ∧ w.failBreaker.now = w.now := by
  simp only [World.failBreaker]
  split <;> exact ⟨rfl, rfl, rfl⟩

/-- The breaker is told what the call is noted for. -/
theorem run_report (gateway : Calling) (call : Call) {w : World} (hends : w.now = call.ends) :
    ((Gateway.report call.answer).run (World.answerBy gateway) w).2.breaker = w.breaker.after call.notes ∧
      ((Gateway.report call.answer).run (World.answerBy gateway) w).2.charges = w.charges ∧
      ((Gateway.report call.answer).run (World.answerBy gateway) w).2.now = call.ends := by
  have hfail := failBreaker_facts w
  rw [hends] at hfail
  unfold Gateway.report Call.notes
  cases call.answer with
  | ok result =>
    by_cases hplugin : result.outcome = .pluginException
    · simp only [hplugin, if_true]
      exact hfail
    · simp only [hplugin, if_false]
      exact ⟨rfl, rfl, hends⟩
  | error e =>
    by_cases hcancelled : e.isCancellation = true
    · simp only [hcancelled, if_true]
      exact ⟨rfl, rfl, hends⟩
    · simp only [hcancelled]
      exact hfail

theorem guarded_rejected (gateway : Calling) {call : Call} {w : World}
    (hrejects : w.observeBreaker.breaker.allows = false) :
    (Gateway.guarded call.charge).run (World.answerBy gateway) w =
      (.error (.gatewayUnavailable Gateway.rejectionReason),
        w.observeBreaker.log (Gateway.rejectionRecord call.charge)) := by
  have hanswer : World.answerBy gateway .breakerAllows w = (false, w.observeBreaker) := by
    rw [← hrejects]
    rfl
  simp only [Gateway.guarded, Program.breakerAllows, Program.request, Program.bind_eq, Program.bind, Program.run_ask,
    hanswer, Bool.false_eq_true, if_false]
  rfl

theorem guarded_admitted {gateway : Calling} {call : Call} {w : World}
    (hallows : w.observeBreaker.breaker.allows = true) (hmeets : Meets gateway call w.observeBreaker) :
    (Gateway.guarded call.charge).run (World.answerBy gateway) w =
      (call.answer, ((Gateway.report call.answer).run (World.answerBy gateway)
        (gateway w.observeBreaker call.charge).2).2) := by
  have hanswer : World.answerBy gateway .breakerAllows w = (true, w.observeBreaker) := by
    rw [← hallows]
    rfl
  have hcharge : World.answerBy gateway (.charge call.charge) w.observeBreaker =
      (call.answer, (gateway w.observeBreaker call.charge).2) := by
    rw [← hmeets.answers]
    rfl
  simp only [Gateway.guarded, Program.breakerAllows, Program.charge, Program.request, Program.bind_eq, Program.bind,
    Program.run_ask, hanswer, if_true, hcharge]
  rw [Program.run_bind]
  rfl

/-- After a call that is let through, the breaker has noted what became of it, and the gateway has taken it down. -/
theorem called_admitted {gateway : Calling} {call : Call} {w : World}
    (hallows : w.observeBreaker.breaker.allows = true) (hmeets : Meets gateway call w.observeBreaker) :
    (called gateway call w).breaker = (w.breaker.observe w.now).after call.notes ∧
      (called gateway call w).charges = call.charge :: w.charges ∧ (called gateway call w).now = call.ends := by
  obtain ⟨hbreaker, hcharges, hnow⟩ := run_report gateway call hmeets.ends
  unfold called
  rw [guarded_admitted hallows hmeets]
  refine ⟨?_, ?_, hnow⟩
  · rw [hbreaker, hmeets.breaker, breaker_observeBreaker]
  · rw [hcharges, hmeets.takesDown, charges_observeBreaker]

/-- After a call that is turned away, the breaker has been looked at, and the gateway has not been called. -/
theorem called_rejected (gateway : Calling) (call : Call) {w : World}
    (hrejects : w.observeBreaker.breaker.allows = false) :
    (called gateway call w).breaker = w.breaker.observe w.now ∧
      (called gateway call w).charges = w.charges ∧ (called gateway call w).now = w.now := by
  unfold called
  rw [guarded_rejected gateway hrejects]
  exact ⟨breaker_observeBreaker w, charges_observeBreaker w, now_observeBreaker w⟩

theorem Call.notes_cases (call : Call) : call.notes = [] ∨ ∃ move, call.notes = [⟨move, call.ends⟩] := by
  unfold notes
  cases call.answer with
  | ok result =>
    right
    dsimp only
    split <;> exact ⟨_, rfl⟩
  | error e =>
    dsimp only
    split
    · exact .inl rfl
    · exact .inr ⟨_, rfl⟩

/-! ### Calls one after the other -/

section Calls

variable {threshold : Int} {recovery : Quantity} {short : Duration → Bool} {gateway : Calling} {start w : World}
  {calls : List Call} {call : Call}

/-- The breaker rejects what its history rejects, if `short` compares durations as it does. -/
theorem Reflects.rejects_iff {h : History} {t : DateTime} {b : Breaker}
    (hshort : ∀ d : Duration, 0 ≤ d.micros → short d = !recovery.le d.seconds)
    (hb : Reflects threshold recovery h t b) (hh : h.UpTo t) :
    (b.observe t).allows = false ↔ h.Rejects threshold short t := by
  rw [hb.allows_observe]
  refine and_congr_right fun _ => exists_congr fun last => and_congr_right fun hlast => ?_
  have hpast : last.micros ≤ t.micros := hh.lastFailure?_le hlast
  have hspan : 0 ≤ (t.since last).micros := by
    unfold DateTime.since
    dsimp only
    omega
  rw [hshort _ hspan]

/-- The breaker holds what the admitted calls have left, and these are the calls that the gateway has taken down. -/
theorem Calls.reflects (hshort : ∀ d : Duration, 0 ≤ d.micros → short d = !recovery.le d.seconds)
    (hstart : start.breaker = fresh threshold recovery) (hcalls : Calls gateway start calls w) :
    (recorded threshold short calls).UpTo w.now ∧
      Reflects threshold recovery (recorded threshold short calls) w.now w.breaker ∧
      w.charges = (admitted threshold short calls).map (·.charge) ++ start.charges := by
  induction hcalls with
  | none =>
    rw [hstart]
    exact ⟨trivial, .fresh _, rfl⟩
  | wait _ hbreaker hcharges hnow ih =>
    obtain ⟨hupTo, hreflects, htaken⟩ := ih
    rw [hbreaker, hcharges]
    exact ⟨hupTo.later hnow, hreflects.later hupTo hnow, htaken⟩
  | @call calls w call _ hcomes ih =>
    obtain ⟨hupTo, hreflects, htaken⟩ := ih
    have hiff := hreflects.rejects_iff hshort hupTo
    rw [← breaker_observeBreaker, ← hcomes.begins] at hiff
    unfold recorded admitted
    by_cases hrejects : (recorded threshold short calls).Rejects threshold short call.begins
    · obtain ⟨hbreaker, hcharges, hnow⟩ := called_rejected gateway call (hiff.2 hrejects)
      rw [if_pos hrejects, if_pos hrejects, hbreaker, hcharges, hnow]
      exact ⟨hupTo, hreflects.observe, htaken⟩
    · have hallows := Bool.of_not_eq_false fun hfalse => hrejects (hiff.1 hfalse)
      obtain ⟨hbreaker, hcharges, hnow⟩ := called_admitted hallows (hcomes.meets hallows)
      have honward : w.now ≤ call.ends := hcomes.begins ▸ (hcomes.meets hallows).onward
      rw [if_neg hrejects, if_neg hrejects, hbreaker, hcharges, hnow, htaken]
      have hlater := hreflects.observe.later hupTo honward
      rcases call.notes_cases with hnone | ⟨move, hnoted⟩
      · rw [hnone]
        exact ⟨hupTo.later honward, hlater, rfl⟩
      · rw [hnoted]
        exact ⟨⟨Nat.le_refl _, hupTo.later honward⟩, hlater.apply move, rfl⟩

/-- What the caller of the next call gets. -/
theorem Calls.reply (hshort : ∀ d : Duration, 0 ≤ d.micros → short d = !recovery.le d.seconds)
    (hstart : start.breaker = fresh threshold recovery) (hcalls : Calls gateway start calls w)
    (hcomes : Comes gateway call w) :
    ((Gateway.guarded call.charge).run (World.answerBy gateway) w).1 =
      replyTo threshold short (recorded threshold short calls) call := by
  obtain ⟨hupTo, hreflects, -⟩ := hcalls.reflects hshort hstart
  have hiff := hreflects.rejects_iff hshort hupTo
  rw [← breaker_observeBreaker, ← hcomes.begins] at hiff
  unfold replyTo
  by_cases hrejects : (recorded threshold short calls).Rejects threshold short call.begins
  · rw [if_pos hrejects, guarded_rejected gateway (hiff.2 hrejects)]
  · have hallows := Bool.of_not_eq_false fun hfalse => hrejects (hiff.1 hfalse)
    rw [if_neg hrejects, guarded_admitted hallows (hcomes.meets hallows)]

end Calls

/-- What it means that a breaker goes by its history.  `short` says whether a duration is less than the recovery time.
-/
structure GoesByHistory (threshold : Int) (recovery : Quantity) (short : Duration → Bool) : Prop where
  /-- It turns a call away if and only if the history rejects it. -/
  answers : ∀ {h : History} {t : DateTime}, h.UpTo t →
    ((((fresh threshold recovery).after h).observe t).allows = false ↔
      max 1 threshold ≤ (h.streak : Int) ∧ ∃ last, h.lastFailure? = some last ∧ short (t.since last) = true)
  /-- Looks that are put in or left out make no difference to a later answer. -/
  looks : ∀ {h h' : History} {t : DateTime}, h.UpTo t → h'.UpTo t → h.notes = h'.notes →
    (((fresh threshold recovery).after h).observe t).allows = (((fresh threshold recovery).after h').observe t).allows
  /-- The gateway behind it has been called for the calls that the history does not reject, and for no others. -/
  charges : ∀ {gateway : Calling} {start w : World} {calls : List Call}, start.breaker = fresh threshold recovery →
    Calls gateway start calls w → w.charges = (admitted threshold short calls).map (·.charge) ++ start.charges
  /-- What the gateway returns or raises is passed on, and a call that is turned away is told so. -/
  replies : ∀ {gateway : Calling} {start w : World} {calls : List Call} {call : Call},
    start.breaker = fresh threshold recovery → Calls gateway start calls w → Comes gateway call w →
    ((Gateway.guarded call.charge).run (World.answerBy gateway) w).1 =
      replyTo threshold short (recorded threshold short calls) call
  /-- The count and the time of the last failure are those that the calls have left. -/
  counts : ∀ {gateway : Calling} {start w : World} {calls : List Call}, start.breaker = fresh threshold recovery →
    Calls gateway start calls w → w.breaker.failures = (recorded threshold short calls).streak ∧
      w.breaker.lastFailure = (recorded threshold short calls).lastFailure?
  /-- A call that is turned away changes neither. -/
  rejections : ∀ {gateway : Calling} {start w : World} {calls : List Call} {call : Call},
    start.breaker = fresh threshold recovery → Calls gateway start calls w → Comes gateway call w →
    (recorded threshold short calls).Rejects threshold short call.begins →
    (called gateway call w).breaker.failures = w.breaker.failures ∧
      (called gateway call w).breaker.lastFailure = w.breaker.lastFailure
  /-- A payment that is accepted or declined clears the count. -/
  resets : ∀ {gateway : Calling} {start w : World} {calls : List Call} {call : Call} {result : GatewayResult},
    start.breaker = fresh threshold recovery → Calls gateway start calls w → Comes gateway call w →
    ¬(recorded threshold short calls).Rejects threshold short call.begins → call.answer = .ok result →
    result.outcome = .success ∨ result.outcome = .businessFailure → (called gateway call w).breaker.failures = 0

theorem goesByHistory_of_short {threshold : Int} {recovery : Quantity} {short : Duration → Bool}
    (hshort : ∀ d : Duration, 0 ≤ d.micros → short d = !recovery.le d.seconds) :
    GoesByHistory threshold recovery short where
  answers hh := (reflects_after threshold recovery hh).rejects_iff hshort hh
  looks := allows_after_of_notes threshold recovery
  charges hstart hcalls := (hcalls.reflects hshort hstart).2.2
  replies hstart hcalls hcomes := hcalls.reply hshort hstart hcomes
  counts hstart hcalls :=
    ⟨(hcalls.reflects hshort hstart).2.1.failures_eq, (hcalls.reflects hshort hstart).2.1.lastFailure_eq⟩
  rejections {gateway start w calls call} hstart hcalls hcomes hrejects := by
    obtain ⟨hupTo, hreflects, -⟩ := hcalls.reflects hshort hstart
    rw [hcomes.begins] at hrejects
    have hturned := (hreflects.rejects_iff hshort hupTo).2 hrejects
    rw [← breaker_observeBreaker] at hturned
    rw [(called_rejected gateway call hturned).1]
    exact ⟨failures_observe .., lastFailure_observe ..⟩
  resets {gateway start w calls call result} hstart hcalls hcomes hadmits hanswer houtcome := by
    have hcalled := (hcalls.call hcomes).reflects hshort hstart
    rw [hcalled.2.1.failures_eq]
    have hplugin : result.outcome ≠ .pluginException := by
      rcases houtcome with hsuccess | hdeclined
      · simp [hsuccess]
      · simp [hdeclined]
    have hnotes : call.notes = [⟨.succeed, call.ends⟩] := by
      simp only [Call.notes, hanswer, hplugin, if_false]
    rw [recorded, if_neg hadmits, hnotes]
    exact History.streak_succeed ..

/-- For every `threshold` and every `recovery` time the breaker goes by its history.  The recovery time is compared
with durations as doubles, and exactly where the doubles compare as the exact values do. -/
theorem goes_by_history (threshold : Int) (recovery : Quantity) :
    GoesByHistory threshold recovery (fun d => !recovery.le d.seconds) ∧
      ((∀ d : Duration, 0 ≤ d.micros → recovery.ComparesExactly d) →
        GoesByHistory threshold recovery recovery.exceeds) := by
  refine ⟨goesByHistory_of_short fun _ _ => rfl, fun hexact => goesByHistory_of_short fun d hd => ?_⟩
  rw [hexact d hd, Bool.not_not]

namespace Outage

/-- A gateway that cannot be reached. -/
def gateway : Calling := fun w c => (.error (.raised "ConnectionError" []), { w with charges := c :: w.charges })

/-- A world with a breaker that opens at the first failure, for half a minute. -/
def world : World where
  now := ⟨Duration.second, by decide⟩
  breaker := fresh 1 (.whole 30)

/-- A call that fails at once. -/
def call : Call where
  charge := ⟨.minted 1, "charge", .ofHundredths false 100, "EUR", []⟩
  begins := world.now
  answer := .error (.raised "ConnectionError" [])
  ends := world.now

theorem comes {w : World} (hnow : w.now = world.now) : Comes gateway call w where
  begins := hnow.symm
  meets _ := ⟨rfl, rfl, rfl, (now_observeBreaker w).trans hnow, Nat.le_refl _⟩

end Outage

/-- With a recovery time of half a minute, a second call at once does not reach the gateway. -/
theorem goes_by_history_of_outage :
    (∀ d : Duration, 0 ≤ d.micros → (Quantity.whole 30).ComparesExactly d) ∧
      GoesByHistory 1 (.whole 30) (Quantity.whole 30).exceeds ∧
      ((Gateway.guarded Outage.call.charge).run (World.answerBy Outage.gateway)
        (called Outage.gateway Outage.call Outage.world)).1 =
        .error (.gatewayUnavailable Gateway.rejectionReason) := by
  have hexact : ∀ d : Duration, 0 ≤ d.micros → (Quantity.whole 30).ComparesExactly d :=
    fun d hd => Quantity.comparesExactly_whole (by decide) hd
  have hlaw := (goes_by_history 1 (.whole 30)).2 hexact
  refine ⟨hexact, hlaw, ?_⟩
  have hallows : Outage.world.observeBreaker.breaker.allows = true := rfl
  have hcomes : Comes Outage.gateway Outage.call Outage.world := Outage.comes rfl
  have hnow := (called_admitted hallows (hcomes.meets hallows)).2.2
  rw [hlaw.replies rfl (Calls.none.call hcomes) (Outage.comes hnow)]
  exact if_pos ⟨by decide, Outage.world.now, rfl, rfl⟩

end PaymentRetry.Breaker
