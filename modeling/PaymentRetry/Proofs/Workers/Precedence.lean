import PaymentRetry.Proofs.Store.Coherence
import PaymentRetry.Proofs.Workers.Winner

/-!
# What came before

An entry of the log can be asked what came before it.  An exchange was had in the world to which the earlier log had
led, by a program that might make its request then (`Orderly.exists_earlier`), and it found the store as the earlier
exchanges of its program had left it, or grown since (`Orderly.past_grows`).

The stores of all systems that can be reached are coherent (`Reachable.coherent`).
-/

namespace PaymentRetry

open Simulation

theorem Reachable.log_sound {w : World} {σ : System} (hw : w.Unused) (h : Reachable w σ) : σ.log.Sound σ.world :=
  (h.orderly Scheduler.conduct_observed).sound hw

private theorem Orderly.tail {C : Conduct} {w₀ w : World} {entry : Entry} {log : Log}
    (h : Orderly C w₀ (entry :: log) w) : ∃ w', Orderly C w₀ log w' := by
  generalize hl : entry :: log = l at h
  induction h with
  | nil => cases hl
  | clock t _ ih => exact ih hl
  | asked h | answered h | exchanged h | entered h | left h | ended h =>
    cases hl
    exact ⟨_, h⟩

/-- A suffix of an orderly log is orderly. -/
theorem Orderly.of_append {C : Conduct} {w₀ w : World} {later log : Log} (h : Orderly C w₀ (later ++ log) w) :
    ∃ w', Orderly C w₀ log w' := by
  induction later generalizing w with
  | nil => exact ⟨w, h⟩
  | cons entry later ih =>
    obtain ⟨w', h⟩ := h.tail
    exact ih h

theorem Orderly.of_asked {C : Conduct} {w₀ w : World} {p : Place} {c : Charge} {log : Log}
    (h : Orderly C w₀ (⟨p, .act (.asked c)⟩ :: log) w) :
    ∃ w', Orderly C w₀ log w' ∧ ¬log.Ended p ∧ C.asks (Log.Known p.worker p.round log) (log.past p) (.charge c) := by
  generalize hl : (⟨p, .act (.asked c)⟩ :: log : Log) = l at h
  induction h with
  | nil => cases hl
  | clock t _ ih => exact ih hl
  | asked h hended _ hasks =>
    cases hl
    exact ⟨_, h, hended, hasks⟩
  | answered | exchanged | entered | left | ended => cases hl

theorem Orderly.of_exchanged {C : Conduct} {w₀ w : World} {log : Log} {p : Place} {e : Exchange}
    (h : Orderly C w₀ (⟨p, .act (.exchanged e)⟩ :: log) w) (he : ∀ c, e.request ≠ .charge c) :
    Orderly C w₀ log e.before ∧ ¬Log.Ended p log ∧ ¬Log.Waits p log ∧
      C.asks (Log.Known p.worker p.round log) (Log.past p log) e.request := by
  generalize hlog : (⟨p, .act (.exchanged e)⟩ :: log : Log) = log' at h
  induction h with
  | clock t _ ih => exact ih hlog
  | answered _ _ _ =>
    cases hlog
    exact absurd rfl (he _)
  | exchanged hearlier hended hwaits _ hasks _ =>
    cases hlog
    exact ⟨hearlier, hended, hwaits, hasks⟩
  | nil | asked | entered | left | ended => cases hlog

/-- Every logged exchange, other than a charge, took place after an orderly log and was allowed there. -/
theorem Orderly.exists_earlier {C : Conduct} {w₀ w : World} {log : Log} (h : Orderly C w₀ log w) {p : Place}
    {e : Exchange} (hmem : ⟨p, .act (.exchanged e)⟩ ∈ log) (he : ∀ c, e.request ≠ .charge c) :
    ∃ later earlier, log = later ++ ⟨p, .act (.exchanged e)⟩ :: earlier ∧ Orderly C w₀ earlier e.before ∧
      C.asks (Log.Known p.worker p.round earlier) (Log.past p earlier) e.request := by
  obtain ⟨later, earlier, rfl⟩ := List.append_of_mem hmem
  obtain ⟨_, hsince⟩ := h.of_append
  obtain ⟨hearlier, -, -, hasks⟩ := hsince.of_exchanged he
  exact ⟨later, earlier, rfl, hearlier, hasks⟩

theorem Orderly.happens {C : Conduct} {w₀ w : World} {log : Log} (h : Orderly C w₀ log w) {p : Place} {e : Exchange}
    (hmem : ⟨p, .act (.exchanged e)⟩ ∈ log) : e.Happens := by
  obtain ⟨later, earlier, rfl⟩ := List.append_of_mem hmem
  obtain ⟨_, hsince⟩ := h.of_append
  generalize hlog : (⟨p, .act (.exchanged e)⟩ :: earlier : Log) = log' at hsince
  induction hsince with
  | clock t _ ih => exact ih hlog
  | answered =>
    cases hlog
    rfl
  | exchanged _ _ _ _ _ he =>
    cases hlog
    exact he
  | nil | asked | entered | left | ended => cases hlog

/-- A created attempt is pending right after. -/
theorem Orderly.pending_of_create {w₀ w : World} {log : Log} (hw₀ : w₀.Unused)
    (h : Orderly Scheduler.conduct w₀ log w) {p : Place} {d : Draft} {a : Attempt} {refused : Bool}
    {before after : World}
    (hmem : ⟨p, .act (.exchanged ⟨.create d, .ok a, refused, before, after⟩)⟩ ∈ log) : a.state = .pending := by
  obtain ⟨-, earlier, -, -, hasks⟩ := h.exists_earlier hmem (by simp)
  rcases ((h.sound hw₀).exchanges p _ hmem).effect with ⟨f, hf, -⟩ | ⟨b, now, hb, hinsert⟩
  · cases hf
  · obtain rfl : a = b := by simpa using hb
    have hopens : d.Opens := hasks.2.1
    exact (Store.complete?_eq_some (Store.insert_eq_ok hinsert).1).2.2.2.2.1.trans hopens.pending

/-- The store before the act `later` is the one after `earlier`, or has grown from it. -/
def Act.Follows (later earlier : Act) : Prop :=
  ∀ e e', later = .exchanged e → earlier = .exchanged e' → e'.after.store.Grows e.before.store

private theorem past_grows_cons {log : Log} {w : World} {p q : Place} {a : Act}
    (h : (log.past p).Pairwise Act.Follows) (hlog : log.Sound w) (ha : ∀ e, a = .exchanged e → e.before = w) :
    (Log.past p (⟨q, .act a⟩ :: log)).Pairwise Act.Follows := by
  by_cases hq : q = p
  · subst hq
    rw [Log.past_cons_act, List.pairwise_cons]
    refine ⟨?_, h⟩
    rintro b hb e e' he rfl
    rw [ha e he]
    exact (hlog.exchanges q e' (Log.mem_past.1 hb)).grows
  · rw [Log.past_cons_of_ne hq]
    exact h

/-- The stores that a program sees grow. -/
theorem Orderly.past_grows {w₀ w : World} {log : Log} (hw₀ : w₀.Unused) (h : Orderly Scheduler.conduct w₀ log w)
    (p : Place) : (log.past p).Pairwise Act.Follows := by
  induction h with
  | nil => exact .nil
  | clock t _ ih => exact ih
  | asked hlog _ _ _ ih => exact past_grows_cons ih (hlog.sound hw₀) (by simp)
  | answered hlog _ _ ih =>
    refine past_grows_cons ih (hlog.sound hw₀) ?_
    rintro e ⟨⟩
    rfl
  | exchanged hlog _ _ _ _ _ ih =>
    refine past_grows_cons ih (hlog.sound hw₀) ?_
    rintro e ⟨⟩
    rfl
  | entered _ ih => exact ih
  | left _ _ _ ih => exact ih
  | ended _ _ _ ih => exact ih

/-! ### Coherence -/

private theorem Exchange.Sound.coherent {e : Exchange} {s : Store} (h : e.Sound s) (hs : e.before.store.Coherent)
    (hcreate : ∀ d, e.request = .create d →
      d.id = none ∧ (d.number = some 1 ∨ ∃ a ∈ e.before.store.rows, d = a.next)) :
    e.after.store.Coherent := by
  have heffect := h.effect
  have hsettles := h.settles
  obtain ⟨r, x, refused, before, after⟩ := e
  cases r
  case create d =>
    rcases heffect with ⟨f, -, heq⟩ | ⟨a, now, -, hinsert⟩
    · exact heq ▸ hs
    · obtain ⟨hunnamed, hd⟩ := hcreate d rfl
      exact hs.insert h.sequenced hunnamed hd hinsert
  case transition id source target change =>
    obtain ⟨rfl, htarget⟩ := hsettles
    rcases heffect with ⟨f, -, heq⟩ | ⟨a, now, -, hmove, -⟩
    · exact heq ▸ hs
    · exact hs.move h.sequenced.distinct hmove htarget
  case get id => exact heffect.1 ▸ hs
  case listDue asOf limit => exact heffect.1 ▸ hs
  all_goals exact (show after.store = before.store from heffect) ▸ hs

theorem Orderly.coherent {w₀ w : World} {log : Log} (hw₀ : w₀.Unused) (h : Orderly Scheduler.conduct w₀ log w) :
    w.store.Coherent := by
  induction h with
  | nil => exact Store.coherent_of_rows_eq_nil hw₀.empty
  | clock t _ ih => exact ih
  | asked _ _ _ _ ih => exact ih
  | answered _ _ _ ih => exact ih
  | @exchanged log p e hlog _ _ _ hasks he ih =>
    refine ((hlog.sound hw₀).exchange hasks he).1.coherent ih fun d hd => ?_
    have hasks' : (Stage.ofActs (log.past p)).Asks (Log.Known p.worker p.round log) (.create d) := hd ▸ hasks
    obtain ⟨-, hopens, hfirst | ⟨due, hlisted, rfl⟩⟩ := hasks'
    · exact ⟨hopens.unnamed, .inl hfirst⟩
    · exact ⟨rfl, .inr ⟨due.attempt, ((hlog.sound hw₀).mem_of_listed hlisted).1, rfl⟩⟩
  | entered _ ih => exact ih
  | left _ _ _ ih => exact ih
  | ended _ _ _ ih => exact ih

theorem Reachable.coherent {w : World} {σ : System} (hw : w.Unused) (h : Reachable w σ) : σ.world.store.Coherent :=
  (h.orderly Scheduler.conduct_observed).coherent hw

end PaymentRetry
