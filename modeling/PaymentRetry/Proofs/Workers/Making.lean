import PaymentRetry.Proofs.Workers.Sequence

/-!
# What programs have made

The programs that make attempts, and the calls of the gateway that they make for them.  No two programs make an attempt
of the same number of a payment (`Orderly.made_unique`), and each calls the gateway once and only for its own attempt;
so the gateway is called at most once for each number (`Orderly.called_once`).
-/

namespace PaymentRetry

open Simulation

/-! ### What a program has made -/

namespace Log

/-- The stage of the program at `p`. -/
def stage (p : Place) (log : Log) : Stage := Stage.ofActs (past p log)

/-- The attempt that the program at `p` has created. -/
def made (p : Place) (log : Log) : Option Attempt := (stage p log).attempt

/-- The calls of the gateway, each with the attempt that its program had created, the latest first. -/
def calls : Log → List (Option Attempt × Charge)
  | [] => []
  | ⟨p, .act (.asked c)⟩ :: log => (made p log, c) :: calls log
  | _ :: log => calls log

@[simp]
theorem stage_cons_act (p : Place) (a : Act) (log : Log) : stage p (⟨p, .act a⟩ :: log) = (stage p log).after a := by
  rw [stage, past_cons_act, Stage.ofActs_cons, stage]

theorem stage_cons_of_ne {p : Place} {e : Entry} (h : e.place ≠ p) (log : Log) :
    stage p (e :: log) = stage p log := by
  rw [stage, past_cons_of_ne h, stage]

@[simp]
theorem made_cons_asked (p q : Place) (c : Charge) (log : Log) : made p (⟨q, .act (.asked c)⟩ :: log) = made p log := by
  by_cases hq : q = p
  · subst hq
    rw [made, stage_cons_act]
    rfl
  · rw [made, stage_cons_of_ne hq, made]

/-- An attempt counts as created by an entry of the log that exchanged it, or did so before. -/
theorem made_cons {p q : Place} {e : Exchange} {log : Log} {a : Attempt}
    (h : made q (⟨p, .act (.exchanged e)⟩ :: log) = some a) :
    made q log = some a ∨ q = p ∧ ∃ d refused before after, e = ⟨.create d, .ok a, refused, before, after⟩ := by
  by_cases hq : p = q
  · subst hq
    rw [made, stage_cons_act] at h
    obtain ⟨r, x, refused, before, after⟩ := e
    cases r
    case create d =>
      rcases x with f | b
      · exact .inl h
      · obtain rfl : b = a := Option.some.inj h
        exact .inr ⟨rfl, d, refused, before, after, rfl⟩
    all_goals exact .inl h
  · rw [made, stage_cons_of_ne hq] at h
    exact .inl h

theorem made_cons_of_asks {p q : Place} {e : Exchange} {log : Log} {known : Exchange → Prop} {a : Attempt}
    (hasks : (stage p log).Asks known e.request) (h : made q log = some a) :
    made q (⟨p, .act (.exchanged e)⟩ :: log) = some a := by
  by_cases hq : p = q
  · subst hq
    rw [made, stage_cons_act]
    obtain ⟨r, x, refused, before, after⟩ := e
    cases r
    case create d =>
      rw [made, hasks.1] at h
      cases h
    all_goals exact h
  · rw [made, stage_cons_of_ne hq]
    exact h

theorem made_cons_answered {p q : Place} {c : Charge} {x : Except Failure GatewayResult} {refused : Bool}
    {before after : World} {log : Log} :
    made q (⟨p, .act (.exchanged ⟨.charge c, x, refused, before, after⟩)⟩ :: log) = made q log := by
  by_cases hq : p = q
  · subst hq
    rw [made, stage_cons_act]
    rfl
  · rw [made, stage_cons_of_ne hq, made]

theorem asked_cons {q : Place} {log : Log} (h : (stage q log).asked = true) (p : Place) (a : Act) :
    (stage q (⟨p, .act a⟩ :: log)).asked = true := by
  by_cases hq : p = q
  · subst hq
    rw [stage_cons_act]
    rcases a with c | ⟨r, x, refused, before, after⟩
    · rfl
    · cases r
      case charge c => rfl
      all_goals exact h
  · rw [stage_cons_of_ne hq]
    exact h

theorem Sound.stored {log : Log} {w : World} (h : log.Sound w) {p : Place} {a : Attempt}
    (ha : made p log = some a) : ∃ b ∈ w.store.rows, b.id = a.id ∧ b.key = a.key ∧ b.number = a.number := by
  obtain ⟨d, refused, before, after, hmem⟩ := Stage.exists_create ha
  have hsound := h.exchanges p _ (mem_past.1 hmem)
  rcases hsound.effect with ⟨f, hf, -⟩ | ⟨b, now, hb, hinsert⟩
  · cases hf
  · obtain rfl : a = b := by simpa using hb
    have hrow : a.asStored ∈ after.store.rows := by
      rw [(Store.insert_eq_ok hinsert).2.2.2]
      simp
    obtain ⟨b, hb, hbecomes⟩ := hsound.grows.exists_becomes hrow
    exact ⟨b, hb, hbecomes.id_eq, hbecomes.key_eq, hbecomes.number_eq⟩

end Log

/-- No two programs have created attempts of the same key and number. -/
theorem Orderly.made_unique {w₀ w : World} {log : Log} (hw₀ : w₀.Unused) (h : Orderly Scheduler.conduct w₀ log w)
    {p q : Place} {a b : Attempt} (ha : log.made p = some a) (hb : log.made q = some b) (hkey : a.key = b.key)
    (hnumber : a.number = b.number) : p = q := by
  -- a number that a program has made an attempt of is taken
  have hfree : ∀ {log : Log} {d : Draft} {refused : Bool} {before after : World} {a b : Attempt} {q : Place},
      log.Sound before → Exchange.Sound ⟨.create d, .ok a, refused, before, after⟩ after.store →
      log.made q = some b → a.key = b.key → a.number ≠ b.number := by
    intro log d refused before after a b q hlog hsound hb hkey hnumber
    rcases hsound.effect with ⟨f, hf, -⟩ | ⟨a', now, ha', hinsert⟩
    · cases hf
    · obtain rfl : a = a' := by simpa using ha'
      obtain ⟨c, hc, -, hck, hcn⟩ := hlog.stored hb
      have := List.any_eq_false.1 (Store.insert_eq_ok hinsert).2.1 c hc
      simp [hck, hcn, hkey, hnumber] at this
  induction h with
  | nil => cases ha
  | clock t _ ih => exact ih ha hb
  | asked _ _ _ _ ih => exact ih (by simpa using ha) (by simpa using hb)
  | answered _ _ _ ih => exact ih (by rwa [Log.made_cons_answered] at ha) (by rwa [Log.made_cons_answered] at hb)
  | @exchanged log p' e hlog _ _ _ hasks he ih =>
    have hsound := ((hlog.sound hw₀).exchange hasks he).1
    rcases Log.made_cons ha with ha' | ⟨rfl, d, refused, before, after, rfl⟩
    · rcases Log.made_cons hb with hb' | ⟨rfl, d, refused, before, after, rfl⟩
      · exact ih ha' hb'
      · exact absurd hnumber.symm (hfree (hlog.sound hw₀) hsound ha' hkey.symm)
    · rcases Log.made_cons hb with hb' | ⟨rfl, -⟩
      · exact absurd hnumber (hfree (hlog.sound hw₀) hsound hb' hkey)
      · rfl
  | entered _ ih => exact ih ha hb
  | left _ _ _ ih => exact ih ha hb
  | ended _ _ _ ih => exact ih ha hb

/-! ### One call for each attempt -/

/-- The call is for the attempt `number` of `key`. -/
def Log.callFor (key : String) (number : Int) (call : Option Attempt × Charge) : Bool :=
  call.1.any fun a => a.key = key && a.number = number

/-- Each call is for the attempt that its program had created. -/
theorem Orderly.calls_made {w₀ w : World} {log : Log} (h : Orderly Scheduler.conduct w₀ log w) :
    ∀ call ∈ log.calls, ∃ p a, call = (some a, a.charge) ∧ log.made p = some a ∧ (log.stage p).asked = true := by
  induction h with
  | nil => simp [Log.calls]
  | clock t _ ih => exact ih
  | @asked log w p c _ _ _ hasks ih =>
    intro call hcall
    rcases List.mem_cons.1 hcall with rfl | hcall
    · obtain ⟨-, -, a, ha, rfl⟩ := hasks
      have hmade : log.made p = some a := ha
      exact ⟨p, a, by rw [hmade], by rw [Log.made_cons_asked, hmade], by rw [Log.stage_cons_act]; rfl⟩
    · obtain ⟨q, a, hcall, hmade, hasked⟩ := ih call hcall
      exact ⟨q, a, hcall, by rw [Log.made_cons_asked, hmade], Log.asked_cons hasked p _⟩
  | @answered log w p _ _ _ _ _ _ ih =>
    intro call hcall
    obtain ⟨q, a, hcall, hmade, hasked⟩ := ih call hcall
    exact ⟨q, a, hcall, by rw [Log.made_cons_answered, hmade], Log.asked_cons hasked p _⟩
  | @exchanged log p e _ _ _ _ hasks _ ih =>
    intro call hcall
    obtain ⟨q, a, hcall, hmade, hasked⟩ := ih call hcall
    exact ⟨q, a, hcall, Log.made_cons_of_asks hasks hmade, Log.asked_cons hasked p _⟩
  | entered _ ih => exact ih
  | left _ _ _ ih => exact ih
  | ended _ _ _ ih => exact ih

theorem Orderly.called_once {w₀ w : World} {log : Log} (hw₀ : w₀.Unused) (h : Orderly Scheduler.conduct w₀ log w)
    (key : String) (number : Int) : log.calls.countP (Log.callFor key number) ≤ 1 := by
  induction h with
  | nil => simp [Log.calls]
  | clock t _ ih => exact ih
  | @asked log w p c hlog _ _ hasks ih =>
    obtain ⟨-, hunasked, a, ha, -⟩ := hasks
    have hmade : log.made p = some a := ha
    show List.countP _ ((log.made p, c) :: log.calls) ≤ 1
    rw [List.countP_cons, hmade]
    by_cases hfor : Log.callFor key number (some a, c) = true
    · -- an earlier call for the same number would have been by the same program
      have hzero : log.calls.countP (Log.callFor key number) = 0 := by
        rw [List.countP_eq_zero]
        intro call hcall hfor'
        obtain ⟨q, b, rfl, hb, hasked⟩ := hlog.calls_made call hcall
        simp only [Log.callFor, Option.any_some, Bool.and_eq_true, decide_eq_true_eq] at hfor hfor'
        have hpq := hlog.made_unique hw₀ hmade hb (hfor.1.trans hfor'.1.symm) (hfor.2.trans hfor'.2.symm)
        subst hpq
        have hunasked' : (log.stage p).asked = false := hunasked
        rw [hasked] at hunasked'
        cases hunasked'
      rw [if_pos hfor]
      omega
    · rw [if_neg hfor]
      omega
  | answered _ _ _ ih => exact ih
  | exchanged _ _ _ _ _ _ ih => exact ih
  | entered _ ih => exact ih
  | left _ _ _ ih => exact ih
  | ended _ _ _ ih => exact ih

theorem Orderly.nodup_calls {w₀ w : World} {log : Log} (hw₀ : w₀.Unused) (h : Orderly Scheduler.conduct w₀ log w) :
    (log.calls.map fun call => call.1.map fun a => (a.key, a.number)).Nodup := by
  rw [List.nodup_iff_count_le_one]
  rintro (_ | ⟨key, number⟩)
  · have hnone : none ∉ log.calls.map fun call => call.1.map fun a => (a.key, a.number) := by
      intro hmem
      obtain ⟨call, hcall, hnone⟩ := List.mem_map.1 hmem
      obtain ⟨p, a, rfl, -⟩ := h.calls_made call hcall
      cases hnone
    rw [List.count_eq_zero.2 hnone]
    exact Nat.zero_le 1
  · refine Nat.le_trans ?_ (h.called_once hw₀ key number)
    rw [List.count, List.countP_map]
    refine List.countP_mono_left fun call hcall hlabel => ?_
    obtain ⟨p, a, rfl, -⟩ := h.calls_made call hcall
    simpa [Log.callFor] using hlabel

theorem Stage.asked_hear {σ : Stage} {r : Request} {x : r.Answer} (hr : ∀ c, r ≠ .charge c) :
    (σ.hear r x).asked = σ.asked := by
  cases r
  case charge c => exact absurd rfl (hr c)
  all_goals rfl

theorem Orderly.exists_call {w₀ w : World} {log : Log} (h : Orderly Scheduler.conduct w₀ log w) {p : Place}
    (hp : (log.stage p).asked = true) : ∃ a, log.made p = some a ∧ (some a, a.charge) ∈ log.calls := by
  induction h with
  | nil => cases hp
  | clock t _ ih => exact ih hp
  | @asked log w q c _ _ _ hasks ih =>
    by_cases hq : q = p
    · subst hq
      obtain ⟨-, -, a, ha, rfl⟩ := hasks
      have hmade : log.made q = some a := ha
      refine ⟨a, by rw [Log.made_cons_asked, hmade], ?_⟩
      rw [Log.calls, hmade]
      exact List.mem_cons_self
    · rw [Log.stage_cons_of_ne hq] at hp
      obtain ⟨a, ha, hcall⟩ := ih hp
      exact ⟨a, by rw [Log.made_cons_asked, ha], List.mem_cons_of_mem _ hcall⟩
  | @answered log w q c past x _ _ hpast ih =>
    have hp' : (log.stage p).asked = true := by
      by_cases hq : q = p
      · subst hq
        rw [Log.stage, hpast]
        rfl
      · rwa [Log.stage_cons_of_ne hq] at hp
    obtain ⟨a, ha, hcall⟩ := ih hp'
    exact ⟨a, by rw [Log.made_cons_answered, ha], hcall⟩
  | @exchanged log q e _ _ _ hcharge hasks _ ih =>
    have hp' : (log.stage p).asked = true := by
      by_cases hq : q = p
      · subst hq
        rwa [Log.stage_cons_act, Stage.after_exchanged, Stage.asked_hear hcharge] at hp
      · rwa [Log.stage_cons_of_ne hq] at hp
    obtain ⟨a, ha, hcall⟩ := ih hp'
    exact ⟨a, Log.made_cons_of_asks hasks ha, hcall⟩
  | entered _ ih => exact ih hp
  | left _ _ _ ih => exact ih hp
  | ended _ _ _ ih => exact ih hp

/-! ### What is known while the gateway is called -/

theorem Stage.asked_of_answer {h : List Act} {x : Except Failure GatewayResult} (hx : (ofActs h).answer = some x) :
    (ofActs h).asked = true := by
  induction h with
  | nil => cases hx
  | cons a h ih =>
    rcases a with c | ⟨r, y, refused, before, after⟩
    · rfl
    · cases r
      case charge c => rfl
      all_goals exact ih hx

namespace Log

theorem ended_cons_act (p q : Place) (a : Act) (log : Log) : Ended p (⟨q, .act a⟩ :: log) ↔ Ended p log := by
  simp [Ended]

theorem waits_cons {p q : Place} {a : Act} {log : Log} (h : Waits p (⟨q, .act a⟩ :: log)) :
    (q = p ∧ ∃ c, a = .asked c) ∨ q ≠ p ∧ Waits p log := by
  by_cases hq : q = p
  · subst hq
    obtain ⟨c, past, hpast⟩ := h
    rw [past_cons_act, List.cons.injEq] at hpast
    exact .inl ⟨rfl, c, hpast.1⟩
  · rw [waits_cons_of_ne hq] at h
    exact .inr ⟨hq, h⟩

theorem answer_cons {p q : Place} {a : Act} {log : Log}
    (ha : ∀ c x refused before after, a ≠ .exchanged ⟨.charge c, x, refused, before, after⟩) :
    (stage p (⟨q, .act a⟩ :: log)).answer = (stage p log).answer := by
  by_cases hq : q = p
  · subst hq
    rw [stage_cons_act]
    rcases a with c | ⟨r, x, refused, before, after⟩
    · rfl
    · cases r
      case charge c => exact absurd rfl (ha c x refused before after)
      all_goals rfl
  · rw [stage_cons_of_ne hq]

/-- The program at `p` has not ended, has recorded nothing, and has had no answer of the gateway. -/
structure AwaitsAnswer (p : Place) (log : Log) : Prop where
  goes_on : ¬Ended p log
  unrecorded : (stage p log).Unrecorded
  unanswered : (stage p log).answer = none

private theorem AwaitsAnswer.elsewhere {p : Place} {log : Log} (h : log.AwaitsAnswer p) {e : Entry} (hp : e.place ≠ p) :
    AwaitsAnswer p (e :: log) := by
  obtain ⟨hended, hunrecorded, hanswer⟩ := h
  refine ⟨by rwa [ended_cons_of_ne hp], ?_, ?_⟩
  · rw [stage_cons_of_ne hp]
    exact hunrecorded
  · rw [stage_cons_of_ne hp]
    exact hanswer

end Log

theorem Orderly.waiting {w₀ w : World} {log : Log} (h : Orderly Scheduler.conduct w₀ log w) {p : Place}
    (hp : log.Waits p) : log.AwaitsAnswer p := by
  induction h with
  | nil =>
    obtain ⟨c, past, hpast⟩ := hp
    cases hpast
  | clock t _ ih => exact ih hp
  | @asked log w q c _ hended _ hasks ih =>
    rcases Log.waits_cons hp with ⟨rfl, -⟩ | ⟨hq, hp⟩
    · obtain ⟨hunrecorded, hunasked, -⟩ := hasks
      refine ⟨by rwa [Log.ended_cons_act], ?_, ?_⟩
      · rw [Log.stage_cons_act]
        exact hunrecorded
      · rw [Log.answer_cons (by simp)]
        by_contra hanswer
        obtain ⟨x, hx⟩ := Option.ne_none_iff_exists'.1 hanswer
        rw [Stage.asked_of_answer hx] at hunasked
        cases hunasked
    · exact (ih hp).elsewhere hq
  | answered _ _ _ ih =>
    rcases Log.waits_cons hp with ⟨-, c, hc⟩ | ⟨hq, hp⟩
    · cases hc
    · exact (ih hp).elsewhere hq
  | exchanged _ _ _ _ _ _ ih =>
    rcases Log.waits_cons hp with ⟨-, c, hc⟩ | ⟨hq, hp⟩
    · cases hc
    · exact (ih hp).elsewhere hq
  | entered _ ih =>
    obtain ⟨hended, hunrecorded, hanswer⟩ := ih hp
    exact ⟨by simpa [Log.Ended] using hended, hunrecorded, hanswer⟩
  | left _ _ _ ih =>
    obtain ⟨hended, hunrecorded, hanswer⟩ := ih hp
    exact ⟨by simpa [Log.Ended] using hended, hunrecorded, hanswer⟩
  | @ended log w q _ hwaits _ ih =>
    have hp' : log.Waits p := hp
    refine (ih hp').elsewhere ?_
    rintro rfl
    exact hwaits hp'

/-- An answer of the gateway that is logged at `p` stays the one in the stage of `p`. -/
theorem Orderly.answer_eq {w₀ w : World} {log : Log} (h : Orderly Scheduler.conduct w₀ log w) {p : Place}
    {c : Charge} {x : Except Failure GatewayResult} {refused : Bool} {before after : World}
    (hmem : ⟨p, .act (.exchanged ⟨.charge c, x, refused, before, after⟩)⟩ ∈ log) :
    (log.stage p).answer = some x := by
  induction h with
  | nil => cases hmem
  | clock t _ ih => exact ih hmem
  | asked _ _ _ _ ih =>
    rw [Log.answer_cons (by simp)]
    exact ih (by simpa using hmem)
  | @answered log w q c' h y hlog _ hpast ih =>
    rcases List.mem_cons.1 hmem with heq | hmem
    · cases heq
      rw [Log.stage_cons_act]
      rfl
    · have hx := ih hmem
      by_cases hq : q = p
      · -- the program waits, so it had no answer before
        subst hq
        rw [(hlog.waiting ⟨c', h, hpast⟩).unanswered] at hx
        cases hx
      · rw [Log.stage_cons_of_ne hq]
        exact hx
  | @exchanged log q e _ _ _ hcharge _ _ ih =>
    rcases List.mem_cons.1 hmem with heq | hmem
    · simp only [Entry.mk.injEq, Event.act.injEq, Act.exchanged.injEq] at heq
      exact absurd (by rw [← heq.2]) (hcharge c)
    · rw [Log.answer_cons]
      · exact ih hmem
      · rintro c' x' refused' before' after' ⟨⟩
        exact hcharge c' rfl
  | entered _ ih => exact ih (by simpa using hmem)
  | left _ _ _ ih => exact ih (by simpa using hmem)
  | ended _ _ _ ih => exact ih (by simpa using hmem)

end PaymentRetry
