import PaymentRetry.Proofs.Workers.Granted

/-!
# What is written, and when

An exchange writes at most one row, and what it writes bears the moment that the clock shows: it leaves the rows alone,
adds a row, or completes one (`Exchange.Sound.writes`).  Whatever is to be shown of all rows is shown by these three
cases.

Only reading the clock moves it, and only if it ticks.  In a still world the clock moves when it is told to, and by
nothing that a program asks (`System.Step.still`).
-/

namespace PaymentRetry

open Simulation

/-! ### The rows -/

/-- The effect of an exchange on the rows. -/
inductive Exchange.Writes : Exchange → Prop
  | nothing {e : Exchange} : e.after.store.rows = e.before.store.rows → Writes e
  | added {d : Draft} {a : Attempt} {refused : Bool} {before after : World} :
      before.store.insert d before.now = .ok (a, after.store) → Writes ⟨.create d, .ok a, refused, before, after⟩
  | completed {target : AttemptState} {change : Change} {a : Attempt} {refused : Bool} {before after : World}
      (c : Attempt) (first last : List Attempt) :
      target ≠ .pending → c.state = .pending → before.store.rows = first ++ c :: last →
      a = change.apply { c with state := target, updated := before.now } →
      after.store.rows = first ++ a :: last →
      Writes ⟨.transition c.id .pending target change, .ok a, refused, before, after⟩

theorem Exchange.Sound.writes {e : Exchange} {s : Store} (h : e.Sound s) : e.Writes := by
  have heffect := h.effect
  obtain ⟨r, x, refused, before, after⟩ := e
  cases refused with
  | true =>
    obtain ⟨rfl, -⟩ : after = before ∧ _ := h.happens
    exact .nothing rfl
  | false =>
    cases r
    case create d =>
      rcases h.create_eq with ⟨f, rfl, -⟩ | ⟨a, rfl, hinsert⟩
      · rcases heffect with ⟨-, -, heq⟩ | ⟨a, now, ha, -⟩
        · exact .nothing (congrArg Store.rows heq)
        · cases ha
      · exact .added hinsert
    case transition id source target change =>
      obtain ⟨rfl, htarget⟩ := h.settles
      rcases heffect with ⟨f, -, heq⟩ | ⟨a, now, hx, hmove, hfind⟩
      · exact .nothing (congrArg Store.rows heq)
      simp only at hx
      subst hx
      obtain ⟨first, c, last, hrows, rfl, hpending, hrows'⟩ := Store.move?_eq_some h.sequenced.distinct hmove
      have hc : c ∈ before.store.rows := hrows ▸ List.mem_append_right _ List.mem_cons_self
      -- the row that is read back is the one that has been written
      have hback : a = change.apply { c with state := target, updated := now } := by
        obtain ⟨ha, hid⟩ := Store.find?_eq_some hfind
        exact (h.sequenced.distinct.move hmove).eq_of_id ha (hrows' ▸ List.mem_append_right _ List.mem_cons_self) hid
      have hwritten : a = change.apply { c with state := target, updated := before.now } := by
        rcases h.transition_eq with ⟨f, -, hx⟩ | ⟨-, ⟨-, hx⟩ | ⟨c', hc', hid, -, hx⟩⟩
        · cases hx
        · cases hx
        · obtain rfl := h.sequenced.distinct.eq_of_id hc' hc hid
          exact Except.ok.inj hx
      exact .completed c first last htarget hpending hrows hwritten (hback ▸ hrows')
    case get id => exact .nothing (congrArg Store.rows heffect.1)
    case listDue asOf limit => exact .nothing (congrArg Store.rows heffect.1)
    all_goals exact .nothing (congrArg Store.rows heffect)

/-! ### The clock -/

/-- An exchange keeps a still world still and its clock where it is. -/
theorem Exchange.Happens.still {e : Exchange} (h : e.Happens) (hw : e.before.Still) :
    e.after.Still ∧ e.after.now = e.before.now := by
  obtain ⟨r, x, refused, before, after⟩ := e
  cases refused with
  | true =>
    obtain ⟨rfl, -⟩ : after = before ∧ _ := h
    exact ⟨hw, rfl⟩
  | false =>
    have hreply := fun hr => World.Still.reply (r := r) hw (fun _ _ => .ok ⟨.success, none⟩) hr
    cases r
    case charge c =>
      obtain rfl : after = before := h
      exact ⟨hw, rfl⟩
    case publish c =>
      obtain ⟨rfl, -⟩ : after = { before with published := .event c :: before.published } ∧ _ := h
      exact ⟨⟨hw.undisturbed, hw.still⟩, rfl⟩
    all_goals
      have hkept := hreply (by simp)
      rw [show World.reply _ _ before = (x, after) from h] at hkept
      exact hkept

theorem Exchange.Happens.now_eq {t : DateTime} {refused : Bool} {before after : World}
    (h : Exchange.Happens ⟨.now, t, refused, before, after⟩) : t = before.now := by
  cases refused with
  | true =>
    obtain ⟨-, f, hf⟩ := h
    cases hf
  | false =>
    have hread : before.readClock = (t, after) := h
    obtain ⟨later, hclock⟩ := World.exists_readClock before
    rw [hclock] at hread
    exact (Prod.mk.inj hread).1.symm

/-- A step that moves the clock of a still world logs nothing, and no worker takes it. -/
theorem System.Step.still {σ σ' : System} (h : σ.Step σ') (hσ : σ.world.Still) :
    σ'.world.Still ∧ (σ'.world.now = σ.world.now ∨ σ'.log = σ.log ∧ σ'.workers = σ.workers) := by
  cases h with
  | clock t => exact ⟨⟨hσ.undisturbed, hσ.still⟩, .inr ⟨rfl, rfl⟩⟩
  | start s op hidle => exact ⟨hσ, .inl rfl⟩
  | advance hk hover => exact ⟨hσ, .inl rfl⟩
  | @act k number n β phases next i event φ w hk hphase =>
    generalize phases i = φ' at hphase
    cases hphase with
    | exchange hr he => exact ⟨(he.still hσ).1, .inl (he.still hσ).2⟩
    | record hr he => exact ⟨(he.still hσ).1, .inl (he.still hσ).2⟩
    | ask => exact ⟨⟨hσ.undisturbed, hσ.still⟩, .inl rfl⟩
    | answer | enter | leave | finish => exact ⟨hσ, .inl rfl⟩

end PaymentRetry
