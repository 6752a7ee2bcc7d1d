import PaymentRetry.Proofs.Workers.Alone
import PaymentRetry.Proofs.Workers.Observance

/-!
# Attempts in sequence

However workers take turns, whatever is answered to them, and wherever they stop, the attempts of each payment are
numbered from one without a gap, and all but the last are to be retried (`Reachable.attempts_in_sequence`).

The list of due retries that a worker acts on may be out of date.  But an attempt that was to be retried when it was
listed still is, since nothing ever happens to it any more, so its successor may still be stored, if it is not there
already: that is what `Orderly.sound` carries through a log.
-/

namespace PaymentRetry

open Simulation

/-- The exchange has had its effect, and `s` has grown from the store after it. -/
structure Exchange.Sound (e : Exchange) (s : Store) : Prop where
  happens : e.Happens
  undisturbed : e.before.faults = []
  sequenced : e.before.store.Sequenced
  blank : e.before.store.Blank
  settles : e.request.Settles
  grows : e.after.store.Grows s

/-- No faults are announced, the store is sequenced and blank, and every exchange of the log has had its effect on an
earlier store. -/
structure Log.Sound (log : Log) (w : World) : Prop where
  undisturbed : w.faults = []
  sequenced : w.store.Sequenced
  blank : w.store.Blank
  exchanges : ∀ p e, ⟨p, .act (.exchanged e)⟩ ∈ log → e.Sound w.store

/-- No rows, and no calls announced to fail. -/
structure Simulation.World.Unused (w : World) : Prop where
  empty : w.store.rows = []
  undisturbed : w.faults = []

namespace Exchange.Sound

variable {e : Exchange} {s : Store}

theorem effect (h : e.Sound s) : e.request.Effect e.before.store e.after.store e.answer :=
  (h.happens.effect h.undisturbed).1

theorem moves (h : e.Sound s) : e.before.store.Moves e.after.store :=
  h.effect.moves h.sequenced.distinct h.settles

theorem grows_before (h : e.Sound s) : e.before.store.Grows s := h.moves.grows.trans h.grows

end Exchange.Sound

theorem Stage.Asks.settles {known : Exchange → Prop} {σ : Stage} {r : Request} (h : σ.Asks known r) : r.Settles := by
  cases r
  case transition id source target change => exact ⟨h.2.2.1, h.2.2.2.1⟩
  all_goals trivial

namespace Log.Sound

variable {log : Log} {w : World}

/-- A listed retry is that of a row that is still retried. -/
theorem mem_of_listed (h : log.Sound w) {worker round : Nat} {due : DueRetry}
    (hd : Listed (Log.Known worker round log) due) :
    due.attempt ∈ w.store.rows ∧ due.attempt.state = .retried := by
  obtain ⟨asOf, limit, listed, refused, before, after, ⟨entry, hmem, -, -, hentry⟩, hd⟩ := hd
  obtain ⟨p, event⟩ := entry
  simp only at hentry
  subst hentry
  have he := h.exchanges p _ hmem
  obtain ⟨-, ⟨f, hf⟩ | hlisted⟩ := he.effect
  · cases hf
  · simp only [Except.ok.injEq] at hlisted
    rw [hlisted] at hd
    obtain ⟨hmem, hdue⟩ := Store.mem_dueRetries hd
    obtain ⟨-, hretried, -⟩ := Store.dueRetry?_eq_some hdue
    exact ⟨he.grows_before.mem_of_settled hmem (by simp [hretried]), hretried⟩

/-- A draft that may be asked for is admitted by the store. -/
theorem admits (h : log.Sound w) {worker round : Nat} {σ : Stage} {d : Draft}
    (hd : σ.Asks (Log.Known worker round log) (.create d)) : w.store.Admits d := by
  obtain ⟨-, hopens, hfirst | ⟨due, hlisted, rfl⟩⟩ := hd
  · exact ⟨hopens.pending, .inl hfirst⟩
  · obtain ⟨hmem, hretried⟩ := h.mem_of_listed hlisted
    exact ⟨rfl, .inr ⟨due.attempt, hmem, hretried, rfl, rfl⟩⟩

/-- An exchange that may be asked for preserves the soundness of the store. -/
theorem exchange {p : Place} {e : Exchange} {σ : Stage} (h : log.Sound e.before)
    (hasks : σ.Asks (Log.Known p.worker p.round log) e.request) (he : e.Happens) :
    e.Sound e.after.store ∧ e.after.faults = [] ∧ e.after.store.Sequenced ∧ e.after.store.Blank := by
  obtain ⟨heffect, hundisturbed⟩ := he.effect h.undisturbed
  refine ⟨⟨he, h.undisturbed, h.sequenced, h.blank, hasks.settles, .refl _⟩, hundisturbed,
    heffect.sequenced h.sequenced hasks.settles ?_, heffect.blank h.sequenced.distinct h.blank hasks.settles ?_⟩
  · intro d hd
    rw [hd] at hasks
    exact h.admits hasks
  · intro d hd
    rw [hd] at hasks
    exact hasks.2.1.undue

private theorem cons (h : log.Sound w) {entry : Entry} {w' : World} (hfaults : w'.faults = [])
    (hsequenced : w'.store.Sequenced) (hblank : w'.store.Blank) (hgrows : w.store.Grows w'.store)
    (hentry : ∀ e, entry.event = .act (.exchanged e) → e.Sound w'.store) : Log.Sound (entry :: log) w' := by
  refine ⟨hfaults, hsequenced, hblank, ?_⟩
  intro p e he
  rcases List.mem_cons.1 he with heq | he
  · exact hentry e (by rw [← heq])
  · have hsound := h.exchanges p e he
    exact { hsound with grows := hsound.grows.trans hgrows }

private theorem quiet (h : log.Sound w) {entry : Entry} {w' : World} (hfaults : w'.faults = w.faults)
    (hstore : w'.store = w.store) (hentry : ∀ e, entry.event ≠ .act (.exchanged e)) :
    Log.Sound (entry :: log) w' := by
  refine h.cons (hfaults.trans h.undisturbed) ?_ ?_ ?_ fun e he => absurd he (hentry e)
  · rw [hstore]
    exact h.sequenced
  · rw [hstore]
    exact h.blank
  · rw [hstore]
    exact .refl _

end Log.Sound

/-- Every orderly log is sound. -/
theorem Orderly.sound {w₀ w : World} {log : Log} (hw₀ : w₀.Unused) (h : Orderly Scheduler.conduct w₀ log w) :
    log.Sound w := by
  induction h with
  | nil =>
    exact ⟨hw₀.undisturbed, Store.sequenced_of_rows_eq_nil hw₀.empty, by simp [Store.Blank, hw₀.empty], by simp⟩
  | clock t _ ih => exact ⟨ih.undisturbed, ih.sequenced, ih.blank, ih.exchanges⟩
  | asked _ _ _ _ ih => exact ih.quiet rfl rfl (by simp)
  | @answered log w p c h x _ _ _ ih =>
    refine ih.cons ih.undisturbed ih.sequenced ih.blank (.refl _) ?_
    rintro e ⟨⟩
    exact ⟨rfl, ih.undisturbed, ih.sequenced, ih.blank, trivial, .refl _⟩
  | @exchanged log p e _ _ _ _ hasks he ih =>
    obtain ⟨hsound, hfaults, hsequenced, hblank⟩ := ih.exchange hasks he
    refine ih.cons hfaults hsequenced hblank hsound.moves.grows ?_
    rintro e ⟨⟩
    exact hsound
  | entered _ ih => exact ih.quiet rfl rfl (by simp)
  | left _ _ _ ih => exact ih.quiet rfl rfl (by simp)
  | ended _ _ _ ih => exact ih.quiet rfl rfl (by simp)

/-- Attempts are in sequence.  In every run, the attempts of `key` are numbered `1` to `n`, and all but the last one
are RETRIED, so at most one is PENDING and at most one is in a terminal state. -/
theorem Reachable.attempts_in_sequence {w : World} {σ : System} (hw : w.Unused) (h : Reachable w σ) (key : String) :
    ∃ n : Nat, (σ.world.store.attemptsOf key).map (·.number) = Store.numbersTo n ∧
      (∀ a ∈ σ.world.store.attemptsOf key, a.number < n → a.state = .retried) ∧
      (σ.world.store.attemptsOf key).countP (·.state = .pending) ≤ 1 ∧
      (σ.world.store.attemptsOf key).countP (·.state.isTerminal) ≤ 1 := by
  have hs : σ.world.store.Sequenced := ((h.orderly Scheduler.conduct_observed).sound hw).sequenced
  refine ⟨_, hs.numbered key, fun a ha => hs.retried_of_lt ha, hs.countP_le_one key ?_, hs.countP_le_one key ?_⟩
  · intro a ha
    simp only [decide_eq_true_eq] at ha
    simp [ha]
  · intro a ha hr
    simp [hr, AttemptState.isTerminal] at ha

theorem attempts_in_sequence_of_sample :
    ∃ σ, Reachable Sample.world σ ∧
      (σ.world.store.attemptsOf "order").map (fun a => (a.number, a.state)) = [(1, .retried), (2, .success)] ∧
      ∃ n : Nat, (σ.world.store.attemptsOf "order").map (·.number) = Store.numbersTo n ∧
        (∀ a ∈ σ.world.store.attemptsOf "order", a.number < n → a.state = .retried) ∧
        (σ.world.store.attemptsOf "order").countP (·.state = .pending) ≤ 1 ∧
        (σ.world.store.attemptsOf "order").countP (·.state.isTerminal) ≤ 1 := by
  obtain ⟨σ, h, hworld⟩ := Sample.reachable_retried
  refine ⟨σ, h, ?_, h.attempts_in_sequence ⟨rfl, rfl⟩ "order"⟩
  rw [hworld]
  decide +kernel

end PaymentRetry
