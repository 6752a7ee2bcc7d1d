import PaymentRetry.Proofs.Workers.Making
import PaymentRetry.Proofs.Workers.Precedence

/-!
# No double charge

The gateway is called at most once for each number of a payment.  If, moreover, no call of the store is refused, and no
attempt is completed by another program before the one that made it has ended, then the attempt that a program carries
out stays pending until the program completes it (`Orderly.attended`).  A payment has at most one pending attempt, so
at most one call for it is under way; and once a call has succeeded, the attempt is still pending or has ended the
payment, so no further call is made.  Both parts are in `Reachable.charged_once`.
-/

namespace PaymentRetry

open Simulation

/-! ### Calm runs -/

/-- No store call has been refused, and no attempt has been moved by a program other than the one that created it
before that one has ended. -/
def Log.Calm (log : Log) : Prop :=
  ∀ later p e earlier, log = later ++ ⟨p, .act (.exchanged e)⟩ :: earlier →
    e.refused = false ∧ ∀ q a, q ≠ p → made q earlier = some a → e.completes a.id = true → Ended q earlier

theorem Log.Calm.tail {entry : Entry} {log : Log} (h : Log.Calm (entry :: log)) : log.Calm := by
  intro later p e earlier heq
  exact h (entry :: later) p e earlier (by rw [heq]; rfl)

/-- The program at `p` takes care of its attempt `a`: until it moves `a` or ends, `a` is pending and is read as
pending, and after an accepted charge it does not end before it has moved `a` to success. -/
structure Log.Attended (log : Log) (w : World) (p : Place) (a : Attempt) : Prop where
  pending : ¬Ended p log → (stage p log).moved = [] → w.store.isPending a.id = true
  looked : ∀ id x, (stage p log).looked = some (id, x) →
    ∃ b, x = .ok b ∧ b.id = a.id ∧ b.key = a.key ∧ b.state = .pending
  succeeded : (stage p log).Succeeded →
    (∃ b ∈ w.store.rows, b.id = a.id ∧ b.state = .success) ∨ (stage p log).moved = [] ∧ ¬Ended p log

private theorem Store.Grows.success {s s' : Store} (h : s.Grows s') {id : AttemptId}
    (hb : ∃ b ∈ s.rows, b.id = id ∧ b.state = .success) : ∃ b ∈ s'.rows, b.id = id ∧ b.state = .success := by
  obtain ⟨b, hb, hid, hsuccess⟩ := hb
  exact ⟨b, h.mem_of_settled hb (by simp [hsuccess]), hid, hsuccess⟩

private theorem Log.Attended.keep {log log' : Log} {w w' : World} {p : Place} {a : Attempt} (h : log.Attended w p a)
    (hended : Ended p log' ↔ Ended p log) (hmoved : (stage p log').moved = (stage p log).moved)
    (hlooked : (stage p log').looked = (stage p log).looked)
    (hanswer : (stage p log').answer = (stage p log).answer)
    (hpending : ¬Ended p log → w.store.isPending a.id = true → w'.store.isPending a.id = true)
    (hgrows : w.store.Grows w'.store) : log'.Attended w' p a := by
  refine ⟨?_, ?_, ?_⟩
  · rw [hended, hmoved]
    exact fun hended hmoved => hpending hended (h.pending hended hmoved)
  · rw [hlooked]
    exact h.looked
  · unfold Stage.Succeeded
    rw [hanswer, hmoved, hended]
    intro hsucceeded
    rcases h.succeeded hsucceeded with hsuccess | hrest
    · exact .inl (hgrows.success hsuccess)
    · exact .inr hrest

private theorem Log.Attended.elsewhere {log : Log} {w w' : World} {p : Place} {a : Attempt} {e : Entry}
    (h : log.Attended w p a) (hp : e.place ≠ p)
    (hpending : ¬Ended p log → w.store.isPending a.id = true → w'.store.isPending a.id = true)
    (hgrows : w.store.Grows w'.store) : Log.Attended (e :: log) w' p a := by
  have hstage := stage_cons_of_ne hp log
  refine h.keep (ended_cons_of_ne hp log) ?_ ?_ ?_ hpending hgrows
  all_goals rw [hstage]

namespace Exchange.Sound

variable {s : Store}

/-- A `get` of an existing row that is not refused finds it. -/
theorem get_ok {id : AttemptId} {x : Except Failure Attempt} {before after : World}
    (h : Exchange.Sound ⟨.get id, x, false, before, after⟩ s) {a : Attempt} (ha : a ∈ before.store.rows)
    (hid : a.id = id) : x = .ok a := by
  have hx : before.answer (.get id) = (x, after) := h.happens
  subst hid
  rw [World.answer, World.get_of_undisturbed h.undisturbed, h.sequenced.distinct.find?_of_mem ha, Prod.mk.injEq] at hx
  exact hx.1.symm

/-- A transition of a pending row without a text, if it is not refused, succeeds. -/
theorem exists_transition_ok {id : AttemptId} {target : AttemptState} {x : Except Failure Attempt}
    {before after : World} (h : Exchange.Sound ⟨.transition id .pending target {}, x, false, before, after⟩ s)
    (hp : before.store.isPending id = true) : ∃ b, x = .ok b := by
  obtain ⟨a, ha, rfl, hpending⟩ := Store.isPending_iff.1 hp
  have hx : before.answer (.transition a.id .pending target {}) = (x, after) := h.happens
  obtain ⟨b, w', hmove⟩ := World.exists_move_of_pending h.undisturbed ha hpending target {} rfl
  rw [World.answer, World.transition_of_undisturbed h.undisturbed, hmove, Prod.mk.injEq] at hx
  exact ⟨b, hx.1.symm⟩

end Exchange.Sound

private theorem Log.Attended.created {log : Log} {p : Place} {d : Draft} {a : Attempt} {refused : Bool}
    {before after : World} {known : Exchange → Prop} (hasks : (stage p log).Asks known (.create d))
    (hsound : Exchange.Sound ⟨.create d, .ok a, refused, before, after⟩ after.store) :
    Log.Attended (⟨p, .act (.exchanged ⟨.create d, .ok a, refused, before, after⟩)⟩ :: log) after p a := by
  have hstage : stage p (⟨p, .act (.exchanged ⟨.create d, .ok a, refused, before, after⟩)⟩ :: log) =
      { attempt := some a } := by
    rw [stage_cons_act, hasks.1]
    rfl
  refine ⟨?_, ?_, ?_⟩
  · intro _ _
    rcases hsound.effect with ⟨f, hf, -⟩ | ⟨b, now, hb, hinsert⟩
    · cases hf
    · obtain rfl : a = b := by simpa using hb
      obtain ⟨hcomplete, -, -, hrows⟩ := Store.insert_eq_ok hinsert
      have hstate : a.state = .pending := (Store.complete?_eq_some hcomplete).2.2.2.2.1.trans hasks.2.1.pending
      exact Store.isPending_iff.2 ⟨a.asStored, by rw [hrows]; simp, rfl, hstate⟩
  · intro id x hlooked
    rw [hstage] at hlooked
    cases hlooked
  · rintro ⟨result, hanswer, -⟩
    rw [hstage] at hanswer
    cases hanswer

private theorem Log.Attended.answered {log : Log} {w : World} {p : Place} {a : Attempt} (h : log.Attended w p a)
    (hmoved : (stage p log).moved = []) (hended : ¬Ended p log) (c : Charge) (x : Except Failure GatewayResult) :
    Log.Attended (⟨p, .act (.exchanged ⟨.charge c, x, false, w, w⟩)⟩ :: log) w p a := by
  refine ⟨?_, ?_, ?_⟩
  · rw [stage_cons_act, ended_cons_act]
    exact h.pending
  · rw [stage_cons_act]
    exact h.looked
  · rw [stage_cons_act, ended_cons_act]
    exact fun _ => .inr ⟨hmoved, hended⟩

private theorem Log.Attended.found {log : Log} {p : Place} {a : Attempt} {id : AttemptId} {x : Except Failure Attempt}
    {before after : World} {known : Exchange → Prop} (h : log.Attended before p a) (hlog : log.Sound before)
    (hsound : Exchange.Sound ⟨.get id, x, false, before, after⟩ after.store) (hended : ¬Ended p log)
    (hasks : (stage p log).Asks known (.get id)) (ha : made p log = some a) :
    Log.Attended (⟨p, .act (.exchanged ⟨.get id, x, false, before, after⟩)⟩ :: log) after p a := by
  obtain ⟨⟨-, hmoved, -⟩, hid⟩ := hasks
  obtain rfl := hid a ha
  have hstore : after.store = before.store := hsound.effect.1
  obtain ⟨b, hb, hbid, hpending⟩ := Store.isPending_iff.1 (h.pending hended hmoved)
  obtain ⟨c, hc, hcid, hkey, -⟩ := hlog.stored ha
  obtain rfl : c = b := hlog.sequenced.distinct.eq_of_id hc hb (hcid.trans hbid.symm)
  have hx : x = .ok c := hsound.get_ok hb hbid
  refine ⟨?_, ?_, ?_⟩
  · rw [stage_cons_act, ended_cons_act]
    show ¬Ended p log → (stage p log).moved = [] → after.store.isPending a.id = true
    rw [hstore]
    exact h.pending
  · rw [stage_cons_act]
    intro id y hlooked
    obtain ⟨rfl, rfl⟩ := Prod.mk.inj (Option.some.inj hlooked)
    exact ⟨c, hx, hbid, hkey, hpending⟩
  · rw [stage_cons_act, ended_cons_act]
    exact fun _ => .inr ⟨hmoved, hended⟩

private theorem Log.Attended.transitioned {log : Log} {p : Place} {a : Attempt} {id : AttemptId}
    {source target : AttemptState} {change : Change} {x : Except Failure Attempt} {before after : World}
    {known : Exchange → Prop} (h : log.Attended before p a)
    (hsound : Exchange.Sound ⟨.transition id source target change, x, false, before, after⟩ after.store)
    (hended : ¬Ended p log) (hasks : (stage p log).Asks known (.transition id source target change)) :
    Log.Attended (⟨p, .act (.exchanged ⟨.transition id source target change, x, false, before, after⟩)⟩ :: log) after p
      a := by
  obtain ⟨hmoved, -, rfl, -, ⟨id', b, hlooked, rfl⟩, hsuccess⟩ := hasks
  obtain ⟨b', hb', hid, -, -⟩ := h.looked id' _ hlooked
  obtain rfl := Except.ok.inj hb'
  refine ⟨?_, ?_, ?_⟩
  · rw [stage_cons_act]
    rintro - ⟨⟩
  · rw [stage_cons_act]
    exact h.looked
  · rw [stage_cons_act]
    intro hsucceeded
    obtain ⟨rfl, rfl⟩ := hsuccess hsucceeded
    have hpending := h.pending hended hmoved
    rw [← hid] at hpending
    obtain ⟨c, rfl⟩ := hsound.exists_transition_ok hpending
    obtain ⟨-, hc, hcid, hstate, -⟩ := hsound.transition_ok
    exact .inl ⟨c, hc, hcid.trans hid, hstate⟩

private theorem Log.Attended.exchanged {log : Log} {p : Place} {e : Exchange} {a : Attempt} {known : Exchange → Prop}
    (h : log.Attended e.before p a) (hlog : log.Sound e.before) (hsound : e.Sound e.after.store)
    (hrefused : e.refused = false) (hended : ¬Ended p log) (hcharge : ∀ c, e.request ≠ .charge c)
    (hasks : (stage p log).Asks known e.request) (ha : made p log = some a) :
    Log.Attended (⟨p, .act (.exchanged e)⟩ :: log) e.after p a := by
  have hkeep : e.after.store = e.before.store →
      ((stage p log).hear e.request e.answer).moved = (stage p log).moved →
      ((stage p log).hear e.request e.answer).looked = (stage p log).looked →
      ((stage p log).hear e.request e.answer).answer = (stage p log).answer →
      Log.Attended (⟨p, .act (.exchanged e)⟩ :: log) e.after p a := by
    intro hstore hmoved hlooked hanswer
    refine h.keep (ended_cons_act ..) ?_ ?_ ?_ ?_ hsound.moves.grows
    · rw [stage_cons_act, Stage.after_exchanged, hmoved]
    · rw [stage_cons_act, Stage.after_exchanged, hlooked]
    · rw [stage_cons_act, Stage.after_exchanged, hanswer]
    · rw [hstore]
      exact fun _ h => h
  have heffect := hsound.effect
  obtain ⟨r, x, refused, before, after⟩ := e
  simp only at hrefused
  subst hrefused
  cases r
  case create d =>
    rw [made, hasks.1] at ha
    cases ha
  case charge => exact absurd rfl (hcharge _)
  case get id => exact h.found hlog hsound hended hasks ha
  case transition id source target change => exact h.transitioned hsound hended hasks
  case listDue asOf limit => exact hkeep heffect.1 rfl rfl rfl
  all_goals exact hkeep heffect rfl rfl rfl

private theorem Log.Attended.ended {log : Log} {w : World} {p : Place} {a : Attempt} (h : log.Attended w p a)
    (ha : made p log = some a) (hends : (stage p log).MayEnd) : Log.Attended (⟨p, .ended⟩ :: log) w p a := by
  refine ⟨fun h => absurd List.mem_cons_self h, h.looked, ?_⟩
  intro hsucceeded
  rcases h.succeeded hsucceeded with hsuccess | ⟨hmoved, -⟩
  · exact .inl hsuccess
  · -- a program that knows of a success does not end before it has asked for the transition
    exfalso
    rcases hends a ha hsucceeded with ⟨id, f, hlooked⟩ | ⟨id, b, hlooked, hb⟩ | ⟨id, target, change, x, hmoved'⟩
    · obtain ⟨b, hb, -⟩ := h.looked id _ hlooked
      cases hb
    · obtain ⟨b', hb', -, hkey, hpending⟩ := h.looked id _ hlooked
      obtain rfl := Except.ok.inj hb'
      rcases hb with hb | hb
      · exact hb hkey
      · exact hb hpending
    · rw [hmoved] at hmoved'
      cases hmoved'

/-- In a calm run, every program takes care of the attempt that it has created. -/
theorem Orderly.attended {w₀ w : World} {log : Log} (hw₀ : w₀.Unused) (h : Orderly Scheduler.conduct w₀ log w)
    (hcalm : log.Calm) {p : Place} {a : Attempt} (ha : log.made p = some a) : log.Attended w p a := by
  induction h with
  | nil => cases ha
  | clock t _ ih => exact ⟨(ih hcalm ha).pending, (ih hcalm ha).looked, (ih hcalm ha).succeeded⟩
  | @asked log w q c _ _ _ _ ih =>
    have hattended := ih hcalm.tail (by simpa using ha)
    by_cases hq : q = p
    · subst hq
      refine hattended.keep (Log.ended_cons_act ..) ?_ ?_ ?_ (fun _ h => h) (.refl _)
      all_goals rw [Log.stage_cons_act, Stage.after_asked]
    · exact hattended.elsewhere hq (fun _ h => h) (.refl _)
  | @answered log w q c past x hlog hended hpast ih =>
    have hattended := ih hcalm.tail (by rwa [Log.made_cons_answered] at ha)
    by_cases hq : q = p
    · subst hq
      obtain ⟨-, ⟨-, hmoved, -⟩, -⟩ := hlog.waiting ⟨c, past, hpast⟩
      exact hattended.answered hmoved hended c x
    · exact hattended.elsewhere hq (fun _ h => h) (.refl _)
  | @exchanged log q e hlog hended _ hcharge hasks he ih =>
    obtain ⟨hrefused, hothers⟩ := hcalm [] q e log rfl
    have hsound := ((hlog.sound hw₀).exchange hasks he).1
    rcases Log.made_cons ha with ha' | ⟨rfl, d, refused, before, after, rfl⟩
    · have hattended := ih hcalm.tail ha'
      by_cases hq : q = p
      · subst hq
        exact hattended.exchanged (hlog.sound hw₀) hsound hrefused hended hcharge hasks ha'
      · refine hattended.elsewhere hq ?_ hsound.moves.grows
        -- nobody else completes the attempt of a program that goes on
        intro hgoes hpending
        by_contra hcompleted
        rw [Bool.not_eq_true] at hcompleted
        refine hgoes (hothers p a (Ne.symm hq) ha' ?_)
        rw [Exchange.completes, hpending, hcompleted]
        rfl
    · exact .created hasks hsound
  | @entered log w q call _ ih =>
    exact (ih hcalm.tail ha).keep (by simp [Log.Ended]) rfl rfl rfl (fun _ h => h) (.refl _)
  | @left log w q call own x _ _ _ ih =>
    exact (ih hcalm.tail ha).keep (by simp [Log.Ended]) rfl rfl rfl (fun _ h => h) (.refl _)
  | @ended log w q _ _ hends ih =>
    have hattended := ih hcalm.tail ha
    by_cases hq : q = p
    · subst hq
      exact hattended.ended ha hends
    · exact hattended.elsewhere hq (fun _ h => h) (.refl _)

/-! ### No double charge -/

/-- The gateway has accepted a charge for `key`. -/
def Log.Paid (key : String) (log : Log) : Prop :=
  ∃ p c result refused before after a,
    ⟨p, .act (.exchanged ⟨.charge c, .ok result, refused, before, after⟩)⟩ ∈ log ∧ result.outcome = .success ∧
      made p log = some a ∧ a.key = key

theorem Log.Calm.of_append {later log : Log} (h : Log.Calm (later ++ log)) : log.Calm := by
  induction later with
  | nil => exact h
  | cons entry later ih => exact ih h.tail

/-- Two attempts of a payment that are not retried have been created by the same program. -/
private theorem Orderly.made_unique_of_open {w₀ w : World} {log : Log} (hw₀ : w₀.Unused)
    (h : Orderly Scheduler.conduct w₀ log w) {p q : Place} {a b : Attempt} (ha : log.made p = some a)
    (hb : log.made q = some b) (hkey : a.key = b.key)
    (hopen : ∀ x ∈ w.store.rows, x.id = a.id ∨ x.id = b.id → x.state ≠ .retried) : p = q := by
  have hlog := h.sound hw₀
  obtain ⟨x, hx, hxid, hxkey, hxnumber⟩ := hlog.stored ha
  obtain ⟨y, hy, hyid, hykey, hynumber⟩ := hlog.stored hb
  obtain rfl : x = y := hlog.sequenced.eq_of_open hx hy (by rw [hxkey, hykey, hkey]) (hopen x hx (.inl hxid))
    (hopen y hy (.inr hyid))
  exact h.made_unique hw₀ ha hb hkey (hxnumber.symm.trans hynumber)

private theorem Log.Sound.pending {log : Log} {w : World} (h : log.Sound w) {id : AttemptId}
    (hp : w.store.isPending id = true) {x : Attempt} (hx : x ∈ w.store.rows) (hid : x.id = id) :
    x.state = .pending := by
  obtain ⟨y, hy, hyid, hpending⟩ := Store.isPending_iff.1 hp
  obtain rfl := h.sequenced.distinct.eq_of_id hx hy (hid.trans hyid.symm)
  exact hpending

/-- In a calm run, two programs that wait for the gateway work on different payments. -/
theorem Orderly.eq_of_waits {w₀ w : World} {log : Log} (hw₀ : w₀.Unused) (h : Orderly Scheduler.conduct w₀ log w)
    (hcalm : log.Calm) {p q : Place} (hp : log.Waits p) (hq : log.Waits q) {a b : Attempt}
    (ha : log.made p = some a) (hb : log.made q = some b) (hkey : a.key = b.key) : p = q := by
  have hpending : ∀ {p a}, log.Waits p → log.made p = some a → w.store.isPending a.id = true := by
    intro p a hp ha
    obtain ⟨hended, ⟨-, hmoved, -⟩, -⟩ := h.waiting hp
    exact (h.attended hw₀ hcalm ha).pending hended hmoved
  refine h.made_unique_of_open hw₀ ha hb hkey ?_
  rintro x hx (hid | hid)
  · simp [(h.sound hw₀).pending (hpending hp ha) hx hid]
  · simp [(h.sound hw₀).pending (hpending hq hb) hx hid]

/-- In a calm run, no charge is asked for a payment that has been charged with success. -/
theorem Orderly.not_paid {w₀ w : World} {log : Log} (hw₀ : w₀.Unused) {p : Place} {c : Charge}
    (h : Orderly Scheduler.conduct w₀ (⟨p, .act (.asked c)⟩ :: log) w) (hcalm : log.Calm) {a : Attempt}
    (ha : log.made p = some a) : ¬log.Paid a.key := by
  obtain ⟨w', hlog, hended, hasks⟩ := h.of_asked
  obtain ⟨⟨-, hmoved, -⟩, hunasked, -⟩ := hasks
  rintro ⟨q, c', result, refused, before, after, b, hmem, hsuccess, hb, hkey⟩
  have hanswer := hlog.answer_eq hmem
  have hpending := (hlog.attended hw₀ hcalm ha).pending hended hmoved
  have hpq : p = q := by
    refine hlog.made_unique_of_open hw₀ ha hb hkey.symm ?_
    rintro x hx (hid | hid)
    · simp [(hlog.sound hw₀).pending hpending hx hid]
    · -- the attempt that went through is completed so, or still pending
      have hattended := hlog.attended hw₀ hcalm hb
      rcases hattended.succeeded ⟨result, hanswer, hsuccess⟩ with ⟨y, hy, hyid, hstate⟩ | ⟨hmoved', hended'⟩
      · obtain rfl := (hlog.sound hw₀).sequenced.distinct.eq_of_id hx hy (hid.trans hyid.symm)
        simp [hstate]
      · simp [(hlog.sound hw₀).pending (hattended.pending hended' hmoved') hx hid]
  subst hpq
  rw [Stage.asked_of_answer hanswer] at hunasked
  cases hunasked

/-- The calls of the gateway in `σ`, by payment and number. -/
structure System.ChargedOnce (σ : System) : Prop where
  /-- Each call is for the attempt that its program has created. -/
  called_for : ∀ call ∈ σ.log.calls, ∃ a, call = (some a, a.charge)
  /-- For each number of a payment there is at most one call. -/
  called_once : ∀ key number, σ.log.calls.countP (Log.callFor key number) ≤ 1
  /-- In a calm run, at most one call for a payment is in flight. -/
  one_in_flight : σ.log.Calm → ∀ p q, σ.log.Waits p → σ.log.Waits q →
    ∀ a b, σ.log.made p = some a → σ.log.made q = some b → a.key = b.key → p = q
  /-- In a calm run, no call is made for a payment after one that succeeded. -/
  none_after_success : σ.log.Calm → ∀ later p c earlier, σ.log = later ++ ⟨p, .act (.asked c)⟩ :: earlier →
    ∀ a, Log.made p earlier = some a → ¬Log.Paid a.key earlier

/-- In every run, the gateway is called at most once for each key and attempt number.  In a calm run (`Log.Calm`), at
most one call for a key is in flight, and none is made after one that succeeded. -/
theorem Reachable.charged_once {w : World} {σ : System} (hw : w.Unused) (h : Reachable w σ) : σ.ChargedOnce := by
  have horderly := h.orderly Scheduler.conduct_observed
  refine ⟨?_, horderly.called_once hw, ?_, ?_⟩
  · intro call hcall
    obtain ⟨p, a, hcall, -⟩ := horderly.calls_made call hcall
    exact ⟨a, hcall⟩
  · intro hcalm p q hp hq a b ha hb hkey
    exact horderly.eq_of_waits hw hcalm hp hq ha hb hkey
  · intro hcalm later p c earlier hlog a ha
    rw [hlog] at horderly hcalm
    obtain ⟨w', hasked⟩ := horderly.of_append
    exact hasked.not_paid hw hcalm.of_append.tail ha

/-! ### One operation after the other -/

namespace Log

/-- Every program that has created an attempt has ended. -/
def AllEnded (log : Log) : Prop := ∀ p, made p log ≠ none → Ended p log

/-- Every program that has created an attempt has ended, except perhaps the one at `p`. -/
def OthersEnded (p : Place) (log : Log) : Prop := ∀ q, q ≠ p → made q log ≠ none → Ended q log

theorem OthersEnded.cons {p : Place} {log : Log} (h : log.OthersEnded p) (event : Event) :
    OthersEnded p (⟨p, event⟩ :: log) := by
  intro q hq hmade
  rw [made, stage_cons_of_ne (e := ⟨p, event⟩) (Ne.symm hq)] at hmade
  exact List.mem_cons_of_mem _ (h q hq hmade)

theorem Calm.cons {p : Place} {log : Log} (h : log.Calm) (hothers : log.OthersEnded p) {event : Event}
    (hongoing : event.Ongoing) : Calm (⟨p, event⟩ :: log) := by
  intro later q e earlier heq
  rcases List.cons_eq_append_iff.1 heq with ⟨-, heq⟩ | ⟨later', -, heq⟩
  · obtain ⟨hentry, rfl⟩ := List.cons.inj heq
    obtain ⟨rfl, rfl⟩ := Entry.mk.inj hentry
    refine ⟨hongoing, fun r a hr hmade _ => hothers r hr ?_⟩
    rw [hmade]
    exact Option.some_ne_none a
  · exact h later' q e earlier heq

end Log

private theorem Replies.calm (gateway : List Charge → Charge → Except Failure GatewayResult) (log : Log) (p : Place) :
    Replies gateway (fun new => (new ++ log).Calm ∧ (new ++ log).AllEnded)
      (fun new => (new ++ log).Calm ∧ (new ++ log).OthersEnded p) (fun _ => True) p where
  begun _ h := ⟨h.1, fun q _ => h.2 q⟩
  exchanged _ _ _ _ := ⟨fun _ h => ⟨h.1.cons h.2 rfl, h.2.cons _⟩, trivial⟩
  charged _ _ _ := ⟨fun _ h => ⟨h.1.cons h.2 trivial, h.2.cons _⟩, fun _ h => ⟨h.1.cons h.2 rfl, h.2.cons _⟩, trivial⟩
  ended new h := by
    refine ⟨h.1.cons h.2 trivial, fun q hmade => ?_⟩
    by_cases hq : q = p
    · rw [hq]
      exact List.mem_cons_self
    · exact h.2.cons .ended q hq hmade

/-- An operation that an idle worker runs alone keeps the log calm. -/
theorem Reachable.alone_calm (gateway : List Charge → Charge → Except Failure GatewayResult) {w : World} {σ : System}
    (h : Reachable w σ) (hcalm : σ.log.Calm) (hended : σ.log.AllEnded) {k : Nat} (hk : σ.workers k = .idle)
    (s : Scheduler) (op : Operation) :
    ∃ σ', Reachable w σ' ∧ σ'.log.Calm ∧ σ'.log.AllEnded ∧
      σ'.world = ((s.task op).sequential.run (World.reply gateway) σ.world).2 ∧
      ∀ j, j ≠ k → σ'.workers j = σ.workers j := by
  have hbegun : Solo (Reachable w) (fun new => (new ++ σ.log).Calm ∧ (new ++ σ.log).AllEnded) σ k σ.world
      ((s.task op).begin 0) := ⟨[], h.step (.start s op hk), hcalm, hended⟩
  obtain ⟨⟨new, hreached, hcalm', hended'⟩, -⟩ :=
    Solo.task (Reachable.keptBy w k) (fun _ _ => ⟨_, Replies.calm gateway σ.log _⟩) hbegun trivial
  exact ⟨_, hreached, hcalm', hended', rfl, fun j hj => Function.update_of_ne hj _ _⟩

/-- One worker submits a payment, another one retries it: two calls, one for each number. -/
theorem charged_once_of_retry :
    ∃ σ, Reachable Sample.world σ ∧ σ.log.Calm ∧ σ.world.charges.length = 2 ∧
      (σ.world.store.attemptsOf "order").map (fun a => (a.number, a.state)) = [(1, .retried), (2, .success)] ∧
      σ.ChargedOnce := by
  obtain ⟨σ₁, h₁, hcalm₁, hended₁, hworld₁, hidle₁⟩ := Reachable.refl.alone_calm Sample.gateway (w := Sample.world)
    (k := 0) (by simp [Log.Calm]) (fun _ hmade => absurd rfl hmade) rfl Sample.scheduler
    (.submit Sample.submission)
  obtain ⟨σ₂, h₂, hcalm₂, -, hworld₂, -⟩ :=
    h₁.alone_calm Sample.gateway hcalm₁ hended₁ (k := 1) (hidle₁ 1 (by simp)) Sample.scheduler (.poll none)
  have hworld : σ₂.world = Sample.retried := by
    rw [hworld₂, hworld₁]
    rfl
  refine ⟨σ₂, h₂, hcalm₂, ?_, ?_, h₂.charged_once ⟨rfl, rfl⟩⟩
  · rw [hworld]
    decide +kernel
  · rw [hworld]
    decide +kernel

end PaymentRetry
