import PaymentRetry.Api.Handler
import PaymentRetry.Proofs.Store.Chronicle
import PaymentRetry.Proofs.Workers.Asking
import PaymentRetry.Proofs.Workers.Governing

/-!
# Chronology

All workers share one clock that never goes back.  A request reads it when it is made and has its effect some time
later; meanwhile other workers may go on, so what is stored last need not bear the latest time.  `System.Timely` keeps
apart what the clock shows and what the next request has read off it: a request may have read anything that the clock
has shown since its program was last answered.

Even so the attempts of each payment are in the order of time (`System.Timely.dated`).  A retry is asked for
after the attempt that it retries was listed, and that had last been changed before.  So the history of a payment is in
the order of the numbers, and what the interface reports of a payment is the state of its last attempt.  If no poll is
given a moment that the clock has not reached, then no retry is made before it is due.
-/

namespace PaymentRetry

open Simulation

/-! ### Runs with a clock -/

/-- Acts at `q` come before those still to come at `p`: `q` is `p` or a place of an earlier round of the same worker. -/
def Place.Precedes (q p : Place) : Prop := q = p ∨ q.worker = p.worker ∧ q.round < p.round

/-- `Timely may w σ t dates`: `w` with idle workers reaches `σ` under a clock that shows `t` and has never gone back,
and `dates` has the time of each logged event.  A request reads `σ.world.now`, any time that the clock has shown since
the events that precede it.  An operation begins at a time when `may` permits it. -/
inductive System.Timely (may : DateTime → Operation → Prop) (w : World) :
    System → DateTime → List (Place × DateTime) → Prop
  | begin (t : DateTime) : Timely may w { world := w } t []
  | pass {σ : System} {t t' : DateTime} {dates : List (Place × DateTime)} :
      Timely may w σ t dates → t ≤ t' → Timely may w σ t' dates
  | quiet {σ σ' : System} {t : DateTime} {dates : List (Place × DateTime)} :
      Timely may w σ t dates → σ.Step σ' → σ'.log = σ.log → σ.Begins (fun _ _ op => may t op) σ' →
      Timely may w σ' t dates
  | act {σ σ' : System} {entry : Entry} {t : DateTime} {dates : List (Place × DateTime)} :
      Timely may w σ t dates → σ.Step σ' → σ'.log = entry :: σ.log →
      (∀ q s, (q, s) ∈ dates → q.Precedes entry.place → s ≤ σ.world.now) → σ.world.now ≤ t →
      Timely may w σ' t ((entry.place, t) :: dates)

theorem System.Step.begins_of_logged {σ σ' : System} (h : σ.Step σ') {entry : Entry} (hlog : σ'.log = entry :: σ.log)
    (may : Permission) : σ.Begins may σ' := by
  have hne : σ.log ≠ entry :: σ.log := fun heq => by simpa using congrArg List.length heq
  cases h with
  | clock t => exact absurd hlog hne
  | start s op hidle => exact absurd hlog hne
  | advance hk hover => exact absurd hlog hne
  | @act k _ _ _ _ _ _ _ _ _ hk _ =>
    intro j hj
    have hjk : j ≠ k := by
      rintro rfl
      rw [hk] at hj
      cases hj
    exact .inl ((Function.update_of_ne hjk _ _).trans hj)

namespace System.Timely

variable {may : DateTime → Operation → Prop} {w : World} {σ : System} {t : DateTime} {dates : List (Place × DateTime)}

/-- A timely run is a run in which operations begin that `may` permits at some time up to `t`. -/
theorem onward (h : Timely may w σ t dates) : Onward (fun _ _ op => ∃ s ≤ t, may s op) { world := w } σ := by
  induction h with
  | begin t => exact .refl
  | pass _ hle ih =>
    refine ih.mono ?_
    rintro k s op ⟨t₀, ht₀, hmay⟩
    exact ⟨t₀, Nat.le_trans ht₀ hle, hmay⟩
  | @quiet σ σ' t dates _ hstep _ hbegins ih =>
    refine ih.next hstep fun k hk => (hbegins k hk).imp_right ?_
    rintro ⟨s, op, hmay, hbegun⟩
    exact ⟨s, op, ⟨t, Nat.le_refl _, hmay⟩, hbegun⟩
  | act _ hstep hlog _ _ ih => exact ih.next hstep (hstep.begins_of_logged hlog _)

theorem reachable (h : Timely may w σ t dates) : Reachable w σ := h.onward.reachable .refl

end System.Timely

theorem System.Step.store_of_quiet {σ σ' : System} (h : σ.Step σ') (hlog : σ'.log = σ.log) :
    σ'.world.store = σ.world.store := by
  have hne : ∀ entry, σ'.log ≠ entry :: σ.log := by
    intro entry heq
    rw [hlog] at heq
    simpa using congrArg List.length heq
  rcases h.exchange_or_quiet with ⟨p, e, hlog', -⟩ | ⟨p, c, hlog', -⟩ | ⟨⟨t, hworld⟩, -⟩
  · exact absurd hlog' (hne _)
  · exact absurd hlog' (hne _)
  · rw [hworld]

/-! ### What is done in time -/

/-- In the exchange `e`, the clock reading and all dates of rows are not later than `s`. -/
def Exchange.By (s : DateTime) (e : Exchange) : Prop :=
  e.before.now ≤ s ∧ ∀ a ∈ e.before.store.rows, a.created ≤ s ∧ a.updated ≤ s

/-- The rows of `σ` are in the order of time, no later than `t`, and each exchange has a date by which it was had. -/
structure System.Dated (σ : System) (t : DateTime) (dates : List (Place × DateTime)) : Prop where
  chronological : σ.world.store.Chronological
  past : ∀ a ∈ σ.world.store.rows, a.updated ≤ t
  exchanges : ∀ p e, ⟨p, .act (.exchanged e)⟩ ∈ σ.log → ∃ s, (p, s) ∈ dates ∧ e.By s

/-- Retries were created when they were due, and due attempts were listed as of moments that were not in the future. -/
structure System.Prompt (σ : System) (dates : List (Place × DateTime)) : Prop where
  punctual : σ.world.store.Punctual
  listed : ∀ p asOf limit x refused before after,
    ⟨p, .act (.exchanged ⟨.listDue asOf limit, x, refused, before, after⟩)⟩ ∈ σ.log →
      ∃ s, (p, s) ∈ dates ∧ asOf ≤ s

namespace System.Timely

variable {may : DateTime → Operation → Prop} {w : World} {σ σ' : System} {t : DateTime}
  {dates : List (Place × DateTime)} {p : Place}

/-- A created attempt is the first of its payment or retries an attempt that its worker had listed before. -/
private theorem exists_listing (hw : w.Unused) (h' : Reachable w σ') {d : Draft} {x : Except Failure Attempt}
    {refused : Bool} {before after : World}
    (hlog : σ'.log = ⟨p, .act (.exchanged ⟨.create d, x, refused, before, after⟩)⟩ :: σ.log)
    (hlate : ∀ q s, (q, s) ∈ dates → q.Precedes p → s ≤ before.now) :
    d.number = some 1 ∨ ∃ q asOf limit y refused' before' after',
      ⟨q, .act (.exchanged ⟨.listDue asOf limit, y, refused', before', after'⟩)⟩ ∈ σ.log ∧
        (∀ s, (q, s) ∈ dates → s ≤ before.now) ∧ ∃ prior ∈ before.store.rows, d = prior.next ∧
          prior ∈ before'.store.rows ∧ ∀ due, prior.dueAt = some due → due ≤ asOf := by
  have horderly := h'.orderly Scheduler.conduct_observed
  rw [hlog] at horderly
  obtain ⟨hearlier, -, -, -, -, hfirst | ⟨due, hlisted, rfl⟩⟩ := horderly.of_exchanged (by simp)
  · exact .inl hfirst
  have hsound := hearlier.sound hw
  have hmem := (hsound.mem_of_listed hlisted).1
  obtain ⟨asOf, limit, listed, refused', before', after', ⟨⟨q, event⟩, hentry, hworker, hround, rfl⟩, hdue⟩ := hlisted
  rcases (hsound.exchanges q _ hentry).effect.2 with ⟨f, hf⟩ | hx
  · cases hf
  obtain ⟨hlisted, hdueRetry⟩ := Store.mem_dueRetries (Except.ok.inj hx ▸ hdue)
  obtain ⟨-, -, hdueAt, hdue, -⟩ := Store.dueRetry?_eq_some hdueRetry
  refine .inr ⟨q, asOf, limit, _, refused', before', after', hentry, fun s hs => hlate q s hs (.inr ⟨hworker, hround⟩),
    due.attempt, hmem, rfl, hlisted, fun due' hdue' => ?_⟩
  obtain rfl := Option.some.inj (hdueAt.symm.trans hdue')
  exact hdue

theorem created_le_of_completed (hw : w.Unused) (hσ : σ.Dated t dates) (h' : Reachable w σ') {c : Attempt}
    {target : AttemptState} {change : Change} {x : Except Failure Attempt} {refused : Bool} {before after : World}
    (hlog : σ'.log =
      ⟨p, .act (.exchanged ⟨.transition c.id .pending target change, x, refused, before, after⟩)⟩ :: σ.log)
    (hlate : ∀ q s, (q, s) ∈ dates → q.Precedes p → s ≤ before.now) (hc : c ∈ before.store.rows) :
    c.created ≤ before.now := by
  have horderly := h'.orderly Scheduler.conduct_observed
  rw [hlog] at horderly
  obtain ⟨hearlier, -, -, -, -, -, -, ⟨id', a, hlooked, hid⟩, -⟩ := horderly.of_exchanged (by simp)
  have hsound := hearlier.sound hw
  obtain ⟨refused', before', after', hget⟩ := Stage.exists_get hlooked
  have hget := Log.mem_past.1 hget
  obtain ⟨s, hs, -, hrows⟩ := hσ.exchanges _ _ hget
  have hgot := hsound.exchanges _ _ hget
  rcases hgot.effect.2 with ⟨f, hf⟩ | ⟨a', ha', hfind⟩
  · cases hf
  obtain rfl := Except.ok.inj ha'
  obtain ⟨ha, -⟩ := Store.find?_eq_some hfind
  -- it is the row that was looked up
  obtain ⟨b, hb, hbecomes⟩ := hgot.grows_before.exists_becomes ha
  obtain rfl := hsound.sequenced.distinct.eq_of_id hb hc (hbecomes.id_eq.trans hid.symm)
  rw [hbecomes.created_eq]
  exact Nat.le_trans (hrows a ha).1 (hlate p s hs (.inl rfl))

/-- An exchange that reads no later clock keeps the rows in the order of time. -/
private theorem chronological_after (hw : w.Unused) (hσ : σ.Dated t dates) (h' : Reachable w σ') {e : Exchange}
    (hlog : σ'.log = ⟨p, .act (.exchanged e)⟩ :: σ.log) (hbefore : e.before = σ.world) (hafter : e.after = σ'.world)
    (hlate : ∀ q s, (q, s) ∈ dates → q.Precedes p → s ≤ e.before.now) (hnow : e.before.now ≤ t) :
    σ'.world.store.Chronological ∧ ∀ a ∈ σ'.world.store.rows, a.updated ≤ t := by
  have hsound := (h'.log_sound hw).exchanges p e (by simp [hlog])
  have hsequenced := (h'.log_sound hw).sequenced
  have hchronological : e.before.store.Chronological := hbefore ▸ hσ.chronological
  have hpast : ∀ a ∈ e.before.store.rows, a.updated ≤ t := hbefore ▸ hσ.past
  rw [← hafter] at hsequenced ⊢
  cases hsound.writes with
  | nothing hrows =>
    rw [hrows]
    exact ⟨⟨hrows ▸ hchronological.made, hrows ▸ hchronological.apart⟩, hpast⟩
  | @added d a refused before after hinsert =>
    obtain ⟨hcomplete, -, -, hrows⟩ := Store.insert_eq_ok hinsert
    obtain ⟨-, -, -, -, -, -, -, -, -, -, -, hupdated, -⟩ := Store.complete?_eq_some hcomplete
    have hdraft : d.number = some 1 ∨ ∃ prior ∈ before.store.rows, prior.updated ≤ before.now ∧ d = prior.next := by
      refine (exists_listing hw h' hlog hlate).imp_right ?_
      rintro ⟨q, asOf, limit, y, refused', before', after', hlisting, hearlier, prior, hprior, rfl, hlisted, -⟩
      obtain ⟨s, hs, -, hold⟩ := hσ.exchanges _ _ hlisting
      exact ⟨prior, hprior, Nat.le_trans (hold _ hlisted).2 (hearlier s hs), rfl⟩
    refine ⟨hchronological.insert hsound.sequenced hsequenced hinsert hdraft, fun b hb => ?_⟩
    simp only [hrows, List.mem_append, List.mem_singleton] at hb
    rcases hb with hb | rfl
    · exact hpast b hb
    · rw [show a.asStored.updated = a.updated from rfl, hupdated]
      exact hnow
  | @completed target change a refused before after c first last htarget hpending hrows ha hrows' =>
    have hc : c ∈ before.store.rows := by simp [hrows]
    have hupdated : a.updated = before.now := by rw [ha]; rfl
    have hcompleted : c.CompletedAs a := ha ▸ change.completedAs_apply hpending htarget before.now
    refine ⟨hchronological.completed hsound.sequenced hrows hrows' hcompleted ?_, fun b hb => ?_⟩
    · rw [hupdated]
      exact created_le_of_completed hw hσ h' hlog hlate hc
    · simp only [hrows', List.mem_append, List.mem_cons] at hb
      rcases hb with hb | rfl | hb
      · exact hpast b (by simp [hrows, hb])
      · rw [hupdated]
        exact hnow
      · exact hpast b (by simp [hrows, hb])

theorem exchanged_or_kept (hstep : σ.Step σ') {entry : Entry} (hlog : σ'.log = entry :: σ.log) :
    (∃ e, entry.event = .act (.exchanged e) ∧ e.before = σ.world ∧ e.after = σ'.world) ∨
      (∀ e, entry.event ≠ .act (.exchanged e)) ∧ σ'.world.store = σ.world.store := by
  rcases hstep.exchange_or_quiet with ⟨p, e, hlog', -, hbefore, hafter⟩ | ⟨p, c, hlog', hworld⟩ |
    ⟨⟨t', hworld⟩, hlog' | ⟨entry', hlog', hquiet⟩⟩
  · obtain ⟨rfl, -⟩ := List.cons.inj (hlog.symm.trans hlog')
    exact .inl ⟨e, rfl, hbefore, hafter⟩
  · obtain ⟨rfl, -⟩ := List.cons.inj (hlog.symm.trans hlog')
    exact .inr ⟨by simp, by rw [hworld]; rfl⟩
  · exact absurd (congrArg List.length (hlog.symm.trans hlog')) (by simp)
  · obtain ⟨rfl, -⟩ := List.cons.inj (hlog.symm.trans hlog')
    exact .inr ⟨fun e => hquiet _, by rw [hworld]⟩

private theorem dated_act (hw : w.Unused) (hσ : σ.Dated t dates) (h' : Reachable w σ') (hstep : σ.Step σ')
    {entry : Entry} (hlog : σ'.log = entry :: σ.log)
    (hlate : ∀ q s, (q, s) ∈ dates → q.Precedes entry.place → s ≤ σ.world.now) (hnow : σ.world.now ≤ t) :
    σ'.Dated t ((entry.place, t) :: dates) := by
  have hearlier : ∀ p e, ⟨p, .act (.exchanged e)⟩ ∈ σ.log → ∃ s, (p, s) ∈ (entry.place, t) :: dates ∧ e.By s := by
    intro p e hmem
    obtain ⟨s, hs, hby⟩ := hσ.exchanges p e hmem
    exact ⟨s, List.mem_cons_of_mem _ hs, hby⟩
  obtain ⟨p, event⟩ := entry
  rcases exchanged_or_kept hstep hlog with ⟨e, rfl, hbefore, hafter⟩ | ⟨hne, hstore⟩
  · rw [← hbefore] at hlate hnow
    obtain ⟨hchronological, hpast⟩ := chronological_after hw hσ h' hlog hbefore hafter hlate hnow
    refine ⟨hchronological, hpast, fun q e' hmem => ?_⟩
    rw [hlog, List.mem_cons] at hmem
    rcases hmem with heq | hmem
    · cases heq
      refine ⟨t, List.mem_cons_self, hnow, fun a ha => ?_⟩
      rw [hbefore] at ha
      exact ⟨Nat.le_trans (hσ.chronological.made a ha) (hσ.past a ha), hσ.past a ha⟩
    · exact hearlier q e' hmem
  · refine ⟨hstore ▸ hσ.chronological, hstore ▸ hσ.past, fun q e hmem => ?_⟩
    rw [hlog, List.mem_cons] at hmem
    rcases hmem with heq | hmem
    · cases heq
      exact absurd rfl (hne e)
    · exact hearlier q e hmem

/-- The step lemmas give `Dated` for every timely run. -/
theorem dated (hw : w.Unused) (h : Timely may w σ t dates) : σ.Dated t dates := by
  induction h with
  | begin t => exact ⟨Store.chronological_of_rows_eq_nil hw.empty, by simp [hw.empty], by simp⟩
  | pass _ hle ih => exact ⟨ih.chronological, fun a ha => Nat.le_trans (ih.past a ha) hle, ih.exchanges⟩
  | quiet _ hstep hlog _ ih =>
    have hstore := hstep.store_of_quiet hlog
    exact ⟨hstore ▸ ih.chronological, hstore ▸ ih.past, hlog ▸ ih.exchanges⟩
  | act h hstep hlog hlate hnow ih => exact dated_act hw ih (h.reachable.step hstep) hstep hlog hlate hnow

private theorem asOf_le (hw : w.Unused) (hmay : ∀ s asOf, may s (.poll (some asOf)) → asOf ≤ s)
    (h : Timely may w σ t dates) (hσ' : Onward (fun _ _ op => ∃ s ≤ t, may s op) { world := w } σ') {asOf : DateTime}
    {limit : Option Int} {x : Except Failure (List DueRetry)} {refused : Bool} {before after : World}
    (hlog : σ'.log = ⟨p, .act (.exchanged ⟨.listDue asOf limit, x, refused, before, after⟩)⟩ :: σ.log)
    (hlate : ∀ q s, (q, s) ∈ dates → q.Precedes p → s ≤ σ.world.now) (hnow : σ.world.now ≤ t) : asOf ≤ t := by
  rcases hσ'.listed hw (p := p) (by rw [hlog]; exact List.mem_cons_self) with
    ⟨-, s, hs, hgiven⟩ | ⟨hround, refused', before', after', hread⟩
  · exact Nat.le_trans (hmay s asOf hgiven) hs
  · rw [hlog, List.mem_cons] at hread
    rcases hread with heq | hread
    · cases congrArg Entry.event heq
    · -- the poll has read the clock to begin with
      obtain ⟨s, hs, hby, -⟩ := (h.dated hw).exchanges _ _ hread
      obtain rfl := ((h.reachable.log_sound hw).exchanges _ _ hread).happens.now_eq
      exact Nat.le_trans hby (Nat.le_trans (hlate _ s hs (.inr ⟨rfl, hround⟩)) hnow)

/-- An exchange keeps the rows punctual, if what has been listed was due. -/
private theorem punctual_after (hw : w.Unused) (hσ : σ.Prompt dates) (h' : Reachable w σ') {e : Exchange}
    (hlog : σ'.log = ⟨p, .act (.exchanged e)⟩ :: σ.log) (hbefore : e.before = σ.world) (hafter : e.after = σ'.world)
    (hlate : ∀ q s, (q, s) ∈ dates → q.Precedes p → s ≤ e.before.now) : σ'.world.store.Punctual := by
  have hsound := (h'.log_sound hw).exchanges p e (by simp [hlog])
  have hsequenced := (h'.log_sound hw).sequenced
  have hpunctual : e.before.store.Punctual := hbefore ▸ hσ.punctual
  rw [← hafter] at hsequenced ⊢
  cases hsound.writes with
  | nothing hrows =>
    unfold Store.Punctual
    rw [hrows]
    exact hpunctual
  | @added d a refused before after hinsert =>
    refine hpunctual.insert hsound.sequenced hsequenced hinsert ((exists_listing hw h' hlog hlate).imp_right ?_)
    rintro ⟨q, asOf, limit, y, refused', before', after', hlisting, hearlier, prior, hprior, rfl, -, hdue⟩
    obtain ⟨s, hs, hasOf⟩ := hσ.listed _ _ _ _ _ _ _ hlisting
    exact ⟨prior, hprior, fun due h => Nat.le_trans (hdue due h) (Nat.le_trans hasOf (hearlier s hs)), rfl⟩
  | @completed target change a refused before after c first last htarget hpending hrows ha hrows' =>
    exact hpunctual.completed hsound.sequenced hrows hrows' (ha ▸ change.completedAs_apply hpending htarget before.now)

/-- If polls are given no moments in the future, `Prompt` holds of every timely run. -/
theorem prompt (hw : w.Unused) (hmay : ∀ s asOf, may s (.poll (some asOf)) → asOf ≤ s) (h : Timely may w σ t dates) :
    σ.Prompt dates := by
  induction h with
  | begin t => exact ⟨Store.punctual_of_rows_eq_nil hw.empty, by simp⟩
  | pass _ _ ih => exact ih
  | quiet _ hstep hlog _ ih =>
    have hstore := hstep.store_of_quiet hlog
    exact ⟨hstore ▸ ih.punctual, hlog ▸ ih.listed⟩
  | @act σ σ' entry t dates h hstep hlog hlate hnow ih =>
    have hσ' := h.onward.next hstep (hstep.begins_of_logged hlog _)
    obtain ⟨p, event⟩ := entry
    refine ⟨?_, fun q asOf limit x refused before after hmem => ?_⟩
    · rcases exchanged_or_kept hstep hlog with ⟨e, rfl, hbefore, hafter⟩ | ⟨-, hstore⟩
      · exact punctual_after hw ih (h.reachable.step hstep) hlog hbefore hafter (hbefore ▸ hlate)
      · exact hstore ▸ ih.punctual
    · rw [hlog, List.mem_cons] at hmem
      rcases hmem with heq | hmem
      · cases heq
        exact ⟨t, List.mem_cons_self, asOf_le hw hmay h hσ' hlog hlate hnow⟩
      · obtain ⟨s, hs, hasOf⟩ := ih.listed q asOf limit x refused before after hmem
        exact ⟨s, List.mem_cons_of_mem _ hs, hasOf⟩

end System.Timely

/-! ### What is reported -/

/-- `GET /payments/{payment_external_key}` shows the history of the payment as `paymentJson` of its last attempt. -/
theorem Api.getPayment_run {w : World} {key : String} {latest : Attempt} (hkey : Failure.ofTexts? [key] = none)
    (hlast : (w.store.history key).getLast? = some latest) :
    ((getPayment key).run World.answer w).1 =
      if showable (w.store.history key) then
        { status := 200, body := .json (paymentJson latest (w.store.history key)) }
      else internalError := by
  simp only [getPayment, Program.history, Program.request, Program.bind_eq, Program.bind, Program.run_ask, World.answer,
    hkey, Option.elim_none]
  cases hhistory : w.store.history key with
  | nil =>
    rw [hhistory] at hlast
    cases hlast
  | cons first rest =>
    rw [hhistory] at hlast
    simp only [Program.pure_eq, Program.run_done, showPayment, hlast]

/-- The members `state` and `next_retry_at` are those of the attempt `latest`. -/
theorem Api.paymentJson_reports (latest : Attempt) (attempts : List Attempt) :
    (paymentJson latest attempts).get? "state" = some (.text latest.state.text) ∧
      (paymentJson latest attempts).get? "next_retry_at" =
        some (if latest.state = .retried then .ofText? (latest.dueAt.map DateTime.text) else .null) := by
  refine ⟨rfl, ?_⟩
  show some (Json.ofText? ((nextRetryAt latest).map DateTime.text)) = _
  unfold nextRetryAt
  split <;> rfl

private theorem Failure.ofTexts?_of_cons {text : String} {texts : List String} (h : ofTexts? (text :: texts) = none) :
    ofTexts? [text] = none := by
  simp only [ofTexts?, Option.map_eq_none_iff, List.findSome?_eq_none_iff, List.mem_singleton] at h ⊢
  rintro _ rfl
  exact h _ List.mem_cons_self

namespace System.Timely

variable {may : DateTime → Operation → Prop} {w : World} {σ : System} {t : DateTime} {dates : List (Place × DateTime)}

/-- Attempts are made in the order of time.  If workers share a clock that never goes back (`Timely`), the history of
`key` has the attempts numbered `1` to `n`, and each was created after the one before was last updated.  `GET
/payments/{payment_external_key}` reports the `state` of the attempt with the highest number, and its due date as
`next_retry_at` if that is RETRIED and `null` otherwise.  If no poll is given a moment in the future, each retry was
created at its due date or later. -/
theorem in_order_of_time (hw : w.Unused) (h : Timely may w σ t dates) (key : String) :
    (∀ a, a ∈ σ.world.store.history key ↔ a ∈ σ.world.store.rows ∧ a.key = key) ∧
      (∃ n, (σ.world.store.history key).map (·.number) = Store.numbersTo n) ∧
      (∀ a ∈ σ.world.store.history key, a.created ≤ a.updated ∧
        ∀ b ∈ σ.world.store.history key, b.number = a.number + 1 → a.updated ≤ b.created) ∧
      (∀ latest ∈ σ.world.store.history key, (∀ b ∈ σ.world.store.history key, b.number ≤ latest.number) →
        (((Api.getPayment key).run World.answer σ.world).1 =
          if Api.showable (σ.world.store.history key) then
            { status := 200, body := .json (Api.paymentJson latest (σ.world.store.history key)) }
          else Api.internalError) ∧
        (Api.showable (σ.world.store.history key) →
          ∃ j, ((Api.getPayment key).run World.answer σ.world).1.body = .json j ∧
            j.get? "state" = some (.text latest.state.text) ∧
            j.get? "next_retry_at" =
              some (if latest.state = .retried then .ofText? (latest.dueAt.map DateTime.text) else .null))) ∧
      ((∀ s asOf, may s (.poll (some asOf)) → asOf ≤ s) →
        ∀ a ∈ σ.world.store.history key, ∀ b ∈ σ.world.store.history key, b.number = a.number + 1 →
          ∀ due, a.dueAt = some due → due ≤ b.created) := by
  have hchronological := (h.dated hw).chronological
  have hsequenced := (h.reachable.log_sound hw).sequenced
  have hcoherent := h.reachable.coherent hw
  have hlast := hchronological.getLast?_history hsequenced key
  rw [hchronological.history_eq hsequenced] at hlast ⊢
  refine ⟨fun a => Store.mem_attemptsOf, ⟨_, hsequenced.numbered key⟩, fun a ha => ?_, fun latest hmem hle => ?_,
    fun hmay a ha b hb hnumber => ?_⟩
  · obtain ⟨ha, hkey⟩ := Store.mem_attemptsOf.1 ha
    refine ⟨hchronological.made a ha, fun b hb hnumber => ?_⟩
    obtain ⟨hb, hkey'⟩ := Store.mem_attemptsOf.1 hb
    exact hchronological.apart a ha b hb (hkey.trans hkey'.symm) (by omega)
  · obtain ⟨hrow, rfl⟩ := Store.mem_attemptsOf.1 hmem
    have hlatest : σ.world.store.last? latest.key = some latest :=
      hsequenced.last?_eq_some_iff_le.2 ⟨hrow, fun b hb hkey => hle b (Store.mem_attemptsOf.2 ⟨hb, hkey⟩)⟩
    have hstorable := Failure.ofTexts?_of_cons (hcoherent.storable latest hrow).texts
    have hreport := Api.getPayment_run hstorable
      ((hchronological.getLast?_history hsequenced latest.key).trans hlatest)
    rw [hchronological.history_eq hsequenced] at hreport
    refine ⟨hreport, fun hshowable =>
      ⟨Api.paymentJson latest (σ.world.store.attemptsOf latest.key), ?_, Api.paymentJson_reports latest _⟩⟩
    rw [hreport, if_pos hshowable]
  · obtain ⟨ha, hkey⟩ := Store.mem_attemptsOf.1 ha
    obtain ⟨hb, hkey'⟩ := Store.mem_attemptsOf.1 hb
    exact (h.prompt hw hmay).punctual a ha b hb (hkey.trans hkey'.symm) hnumber

end System.Timely

/-! ### A payment that is given up two days later -/

/-- `σ` has been reached in time and its clock stands still. -/
def System.Calm (may : DateTime → Operation → Prop) (w : World) (σ : System) : Prop :=
  σ.world.Still ∧ ∃ dates, (∀ q s, (q, s) ∈ dates → s ≤ σ.world.now) ∧ Timely may w σ σ.world.now dates

namespace System.Calm

variable {may : DateTime → Operation → Prop} {w : World} {σ : System}

theorem keptBy (k : Nat) : KeptBy (Calm may w) k := by
  rintro σ σ' ⟨hstill, dates, hdates, h⟩ hstep hbusy hothers - - hquiet
  obtain ⟨hstill', hnow⟩ := hstep.still hstill
  have hnow : σ'.world.now = σ.world.now := by
    rcases hnow with hnow | ⟨hlog, -⟩
    · exact hnow
    · rw [hquiet hlog]
  have hact : ∀ entry, σ'.log = entry :: σ.log → Calm may w σ' := by
    intro entry hlog
    refine ⟨hstill', (entry.place, σ'.world.now) :: dates, fun q s hs => ?_, ?_⟩
    · rcases List.mem_cons.1 hs with heq | hs
      · cases heq
        exact Nat.le_refl _
      · rw [hnow]
        exact hdates q s hs
    · rw [hnow]
      exact h.act hstep hlog (fun q s hs _ => hdates q s hs) (Nat.le_refl _)
  rcases hstep.exchange_or_quiet with ⟨p, e, hlog, -⟩ | ⟨p, c, hlog, -⟩ | ⟨-, hlog | ⟨entry, hlog, -⟩⟩
  · exact hact _ hlog
  · exact hact _ hlog
  · refine ⟨hstill', dates, hnow ▸ hdates, hnow ▸ h.quiet hstep hlog fun j hj => .inl ?_⟩
    rw [hothers j (by rintro rfl; exact hbusy hj)]
    exact hj
  · exact hact _ hlog

/-- An idle worker may run an operation alone while the clock stands still. -/
theorem alone (h : Calm may w σ) {k : Nat} (hk : σ.workers k = .idle) (s : Scheduler) (op : Operation)
    (hmay : may σ.world.now op) (gateway : List Charge → Charge → Except Failure GatewayResult) :
    ∃ σ', Calm may w σ' ∧ σ'.world = ((s.task op).sequential.run (World.reply gateway) σ.world).2 ∧
      σ'.workers = Function.update σ.workers k
        (.finished ((s.task op).sequential.run (World.reply gateway) σ.world).1) := by
  obtain ⟨hstill, dates, hdates, h⟩ := h
  have hbegun : Calm may w { σ with workers := Function.update σ.workers k ((s.task op).begin 0) } := by
    refine ⟨hstill, dates, hdates, h.quiet (.start s op hk) rfl fun j hj => ?_⟩
    by_cases hjk : j = k
    · subst hjk
      exact .inr ⟨s, op, hmay, Function.update_self ..⟩
    · exact .inl ((Function.update_of_ne hjk _ _).trans hj)
  obtain ⟨⟨new, hreached, -⟩, -⟩ := Solo.task (keptBy k)
    (fun _ _ => ⟨_, Replies.ongoing gateway (fun _ => True) trivial⟩) ⟨[], hbegun, .nil⟩ trivial
  exact ⟨_, hreached, rfl, rfl⟩

theorem pass (h : Calm may w σ) {t : DateTime} (ht : σ.world.now ≤ t) :
    Calm may w { σ with world := { σ.world with now := t } } := by
  obtain ⟨⟨hundisturbed, htick⟩, dates, hdates, h⟩ := h
  exact ⟨⟨hundisturbed, htick⟩, dates, fun q s hs => Nat.le_trans (hdates q s hs) ht,
    (h.pass ht).quiet (.clock t) rfl fun _ hj => .inl hj⟩

end System.Calm

/-- A payment that was declined, retried two days later and declined again. -/
theorem in_order_of_time_of_two_declines : ∃ σ t dates,
    System.Timely (fun s op => ∀ asOf, op = .poll (some asOf) → asOf ≤ s) Sample.world σ t dates ∧
      (σ.world.store.history "order").map (fun a => (a.number, a.state)) = [(1, .retried), (2, .aborted)] ∧
      (∀ a ∈ σ.world.store.history "order", ∀ b ∈ σ.world.store.history "order", b.number = a.number + 1 →
        a.updated ≤ b.created ∧ ∀ due, a.dueAt = some due → due ≤ b.created) ∧
      ∃ latest ∈ σ.world.store.history "order", latest.number = 2 ∧
        ∃ j, ((Api.getPayment "order").run World.answer σ.world).1.body = .json j ∧
          j.get? "state" = some (.text latest.state.text) ∧
          j.get? "next_retry_at" =
            some (if latest.state = .retried then .ofText? (latest.dueAt.map DateTime.text) else .null) := by
  have hfirst : System.Calm (fun s op => ∀ asOf, op = .poll (some asOf) → asOf ≤ s) Sample.world
      { world := Sample.world } := ⟨⟨rfl, rfl⟩, [], by simp, .begin _⟩
  obtain ⟨σ₁, h₁, hworld₁, hworkers₁⟩ := hfirst.alone (k := 0) rfl Sample.patient (.submit Sample.submission)
    (by simp) fun _ _ => .ok ⟨.businessFailure, none⟩
  have hdeclined : σ₁.world = Sample.declinedOnce := hworld₁
  have hlater : σ₁.world.now ≤ Sample.later := by
    rw [hdeclined]
    decide +kernel
  obtain ⟨σ₂, ⟨-, dates, -, h₂⟩, hworld₂, -⟩ := (h₁.pass hlater).alone (k := 1)
    (by rw [hworkers₁]; exact Function.update_of_ne (by simp) _ _) Sample.patient (.poll none) (by simp)
    fun _ _ => .ok ⟨.businessFailure, none⟩
  have hworld : σ₂.world = Sample.declinedTwice := by
    rw [hworld₂, hdeclined]
    rfl
  have hsorted := (h₂.dated ⟨rfl, rfl⟩).chronological.history_eq (h₂.reachable.log_sound ⟨rfl, rfl⟩).sequenced "order"
  have hhistory : (σ₂.world.store.history "order").map (fun a => (a.number, a.state)) =
      [(1, .retried), (2, .aborted)] := by
    rw [hsorted, hworld]
    decide +kernel
  obtain ⟨-, -, hapart, hreport, hpunctual⟩ := h₂.in_order_of_time ⟨rfl, rfl⟩ "order"
  refine ⟨σ₂, _, dates, h₂, hhistory, fun a ha b hb hnumber => ⟨(hapart a ha).2 b hb hnumber,
    hpunctual (fun s asOf hmay => hmay asOf rfl) a ha b hb hnumber⟩, ?_⟩
  have hnumbers := congrArg (List.map Prod.fst) hhistory
  rw [List.map_map] at hnumbers
  have hnumbers : (σ₂.world.store.history "order").map (·.number) = [1, 2] := hnumbers
  obtain ⟨latest, hlatest, hnumber⟩ : ∃ a ∈ σ₂.world.store.history "order", a.number = 2 :=
    List.mem_map.1 (hnumbers ▸ by simp)
  refine ⟨latest, hlatest, hnumber, (hreport latest hlatest fun b hb => ?_).2 ?_⟩
  · have hmem : b.number ∈ [1, 2] := hnumbers ▸ List.mem_map_of_mem hb
    simp only [List.mem_cons, List.not_mem_nil, or_false] at hmem
    omega
  · rw [hsorted, hworld]
    decide +kernel

end PaymentRetry
