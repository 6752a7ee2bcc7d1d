import PaymentRetry.Proofs.Workers.Ruling

/-!
# One announcement for each payment that has ended

When an attempt moves to a state that ends its payment, the program that has moved it announces the row it read back.
That row is the last attempt of the payment, and it is there for good; as it is moved once, it is announced once.  And a
program that has ended has announced what it was to announce, so that in the end every payment that has ended has been
announced, and no other (`System.Onward.told_once`).
-/

namespace PaymentRetry

open Simulation

/-! ### Announcements -/

/-- `c` is the event of the attempt `a`. -/
structure Completion.Tells (c : Completion) (a : Attempt) : Prop where
  payment : c.payment = a.payment
  key : c.key = a.key
  transaction : c.transaction = a.transaction
  finalState : c.finalState = a.state
  success : c.success = true ↔ a.state = .success
  attemptCount : c.attemptCount = a.number
  amount : c.amount = a.amount
  currency : c.currency = a.currency
  failureType : c.failureType = a.failureType
  message : c.message = a.message

/-- The entry publishes an event for `key`. -/
def Entry.tells (key : String) : Entry → Bool
  | ⟨_, .act (.exchanged ⟨.publish c, _, _, _, _⟩)⟩ => c.key = key
  | _ => false

/-- The last attempt of `key` is in a terminal state. -/
def Store.hasEnded (s : Store) (key : String) : Bool := (s.last? key).any (·.state.isTerminal)

theorem Completion.ofDecision_tells {a : Attempt} {c : Completion}
    (h : Completion.ofDecision ⟨a, a.state, none⟩ = .ok c) : c.Tells a := by
  unfold ofDecision at h
  split at h
  · cases h
    exact ⟨rfl, rfl, rfl, rfl, by simp, rfl, rfl, rfl, rfl, rfl⟩
  · cases h

private theorem AttemptState.open_of_isTerminal {s : AttemptState} (h : s.isTerminal = true) : s ≠ .retried := by
  rintro rfl
  cases h

private theorem Entry.exists_publish_of_tells {key : String} {entry : Entry} (h : entry.tells key = true) :
    ∃ p c x refused before after, entry = ⟨p, .act (.exchanged ⟨.publish c, x, refused, before, after⟩)⟩ ∧
      c.key = key := by
  obtain ⟨p, event⟩ := entry
  rcases event with (c | ⟨r, x, refused, before, after⟩) | _ | _ | _
  case act.exchanged =>
    cases r
    case publish c => exact ⟨p, c, x, refused, before, after, rfl, by simpa [tells] using h⟩
    all_goals cases h
  all_goals cases h

namespace Log.Sound

variable {log : Log} {w : World}

/-- What a program publishes is a row that it has moved to a terminal state. -/
theorem announced (h : log.Sound w) {p : Place} {c : Completion} (known : Exchange → Prop)
    (hasks : (Stage.ofActs (Log.past p log)).Asks known (.publish c)) :
    ∃ a ∈ w.store.rows, c.Tells a ∧ a.state.isTerminal = true ∧
      ∃ e : Exchange, ⟨p, .act (.exchanged e)⟩ ∈ log ∧ e.completes a.id = true := by
  obtain ⟨-, id, target, change, a, hmoved, hterminal, hc⟩ := hasks
  obtain ⟨source, refused, before, after, hmem⟩ :=
    Stage.exists_transition (by rw [hmoved]; exact List.mem_cons_self)
  have hlogged := Log.mem_past.1 hmem
  have hsound := h.exchanges p _ hlogged
  obtain ⟨hcompletes, -, hid, rfl, -, -⟩ := hsound.transition_ok
  refine ⟨a, hsound.mem_of_transition, Completion.ofDecision_tells hc, hterminal, _, hlogged, ?_⟩
  rw [hid]
  exact hcompletes

end Log.Sound

/-! ### At most once -/

/-- If at most one entry satisfies `D`, such entries are equal. -/
private theorem Log.place_eq_of_countP {log : Log} {D : Entry → Bool} (h : log.countP D ≤ 1) {e e' : Entry}
    (he : e ∈ log) (he' : e' ∈ log) (hD : D e = true) (hD' : D e' = true) : e = e' := by
  rw [List.countP_eq_length_filter] at h
  have hmem := List.mem_filter.2 ⟨he, hD⟩
  have hmem' := List.mem_filter.2 ⟨he', hD'⟩
  generalize log.filter D = l at h hmem hmem'
  rcases l with _ | ⟨a, _ | ⟨b, l⟩⟩
  · cases hmem
  · rw [List.mem_singleton.1 hmem, List.mem_singleton.1 hmem']
  · simp at h

theorem Orderly.countP_tells_le {w₀ w : World} {log : Log} (hw₀ : w₀.Unused) (h : Orderly Scheduler.conduct w₀ log w)
    (key : String) : log.countP (Entry.tells key) ≤ 1 := by
  have hquiet : ∀ {log : Log} {entry : Entry}, log.countP (Entry.tells key) ≤ 1 → entry.tells key = false →
      List.countP (Entry.tells key) (entry :: log) ≤ 1 := by
    intro log entry hlog hentry
    rw [List.countP_cons, hentry]
    exact hlog
  induction h with
  | nil => simp
  | clock t _ ih => exact ih
  | asked _ _ _ _ ih => exact hquiet ih rfl
  | answered _ _ _ ih => exact hquiet ih rfl
  | @exchanged log p e hlog _ _ _ hasks _ ih =>
    by_cases htells : Entry.tells key ⟨p, .act (.exchanged e)⟩ = true
    · obtain ⟨_, c, x, refused, before, after, heq, hkey⟩ := Entry.exists_publish_of_tells htells
      cases heq
      -- an earlier announcement was of the same attempt, which this program has moved; but it has announced nothing
      have hzero : log.countP (Entry.tells key) = 0 := by
        rw [List.countP_eq_zero]
        intro entry hmem htells'
        obtain ⟨q, c', x', refused', before', after', rfl, hkey'⟩ := Entry.exists_publish_of_tells htells'
        obtain ⟨a, ha, htellsa, hterminal, e, he, hcompletes⟩ :=
          (hlog.sound hw₀).announced (Log.Known p.worker p.round log) hasks
        obtain ⟨later, earlier, hsplit, hearlier, hasks'⟩ := hlog.exists_earlier hmem (by simp)
        obtain ⟨b, hb, htellsb, hterminal', e', he', hcompletes'⟩ :=
          (hearlier.sound hw₀).announced (Log.Known q.worker q.round earlier) hasks'
        have hgrows := ((hlog.sound hw₀).exchanges q _ hmem).grows_before
        have hbrow := hgrows.mem_of_settled hb (by intro hpending; rw [hpending] at hterminal'; cases hterminal')
        obtain rfl : a = b := (hlog.sound hw₀).sequenced.eq_of_open ha hbrow
          (htellsa.key.symm.trans (hkey.trans (hkey'.symm.trans htellsb.key)))
          (AttemptState.open_of_isTerminal hterminal)
          (AttemptState.open_of_isTerminal hterminal')
        have hmem' : ⟨q, .act (.exchanged e')⟩ ∈ log := by
          rw [hsplit]
          exact List.mem_append_right _ (List.mem_cons_of_mem _ he')
        have hplace := Log.place_eq_of_countP (hlog.completed_once hw₀ a.id).1 he hmem' hcompletes hcompletes'
        obtain rfl : p = q := congrArg Entry.place hplace
        exact Stage.published_ne_none (Log.mem_past.2 hmem) hasks.1
      rw [List.countP_cons, hzero]
      split <;> simp
    · exact hquiet ih (by simpa using htells)
  | entered _ ih => exact hquiet ih rfl
  | left _ _ _ ih => exact hquiet ih rfl
  | ended _ _ _ ih => exact hquiet ih rfl

theorem Log.mem_announcements {log : Log} {x : Publication} : x ∈ log.announcements ↔
    ∃ p c y refused before after,
      ⟨p, .act (.exchanged ⟨.publish c, y, refused, before, after⟩)⟩ ∈ log ∧ x = .event c := by
  induction log with
  | nil => simp [announcements]
  | cons entry log ih =>
    have hquiet : (∀ p c y refused before after,
          entry ≠ ⟨p, .act (.exchanged ⟨.publish c, y, refused, before, after⟩)⟩) →
        (x ∈ announcements log ↔ ∃ p c y refused before after,
          ⟨p, .act (.exchanged ⟨.publish c, y, refused, before, after⟩)⟩ ∈ entry :: log ∧ x = .event c) := by
      intro hentry
      rw [ih]
      constructor
      · rintro ⟨q, c, y, refused, before, after, hmem, rfl⟩
        exact ⟨q, c, y, refused, before, after, List.mem_cons_of_mem _ hmem, rfl⟩
      · rintro ⟨q, c, y, refused, before, after, hmem, rfl⟩
        rcases List.mem_cons.1 hmem with heq | hmem
        · exact absurd heq.symm (hentry _ _ _ _ _ _)
        · exact ⟨q, c, y, refused, before, after, hmem, rfl⟩
    obtain ⟨p, event⟩ := entry
    rcases event with (c | ⟨r, y, refused, before, after⟩) | _ | _ | _
    case act.exchanged =>
      cases r
      case publish c =>
        rw [announcements, List.mem_append, ih]
        simp only [Request.announcements, List.mem_singleton]
        constructor
        · rintro (rfl | ⟨q, c', y', refused', before', after', hmem, rfl⟩)
          · exact ⟨p, c, y, refused, before, after, List.mem_cons_self, rfl⟩
          · exact ⟨q, c', y', refused', before', after', List.mem_cons_of_mem _ hmem, rfl⟩
        · rintro ⟨q, c', y', refused', before', after', hmem, rfl⟩
          rcases List.mem_cons.1 hmem with heq | hmem
          · cases heq
            exact .inl rfl
          · exact .inr ⟨q, c', y', refused', before', after', hmem, rfl⟩
      all_goals exact hquiet (by rintro _ _ _ _ _ _ ⟨⟩)
    all_goals exact hquiet (by rintro _ _ _ _ _ _ ⟨⟩)

/-- No event is published twice. -/
theorem Log.nodup_announcements {log : Log} (h : ∀ key, log.countP (Entry.tells key) ≤ 1) :
    log.announcements.Nodup := by
  induction log with
  | nil => exact List.nodup_nil
  | cons entry log ih =>
    have hlog : ∀ key, log.countP (Entry.tells key) ≤ 1 := fun key => by
      have := h key
      rw [List.countP_cons] at this
      omega
    obtain ⟨p, event⟩ := entry
    rcases event with (c | ⟨r, y, refused, before, after⟩) | _ | _ | _
    case act.exchanged =>
      cases r
      case publish c =>
        refine List.nodup_cons.2 ⟨fun hmem => ?_, ih hlog⟩
        obtain ⟨q, c', y', refused', before', after', hmem, heq⟩ := mem_announcements.1 hmem
        obtain rfl := Publication.event.inj heq
        have hpos : 0 < log.countP (Entry.tells c.key) := List.countP_pos_iff.2 ⟨_, hmem, by simp [Entry.tells]⟩
        have hle := h c.key
        rw [List.countP_cons, if_pos (by simp [Entry.tells])] at hle
        omega
      all_goals exact ih hlog
    all_goals exact ih hlog

/-! ### Exactly once -/

/-- The events of `σ` match the payments that have ended. -/
structure System.ToldOnce (σ : System) : Prop where
  /-- For each payment at most one event is published. -/
  at_most_once : ∀ key, σ.log.countP (Entry.tells key) ≤ 1
  /-- An event is that of the last attempt at the moment when it is published, which stays the last; its attempt count
  is the number of attempts. -/
  tells_last : ∀ p (c : Completion) x refused (before after : World),
    ⟨p, .act (.exchanged ⟨.publish c, x, refused, before, after⟩)⟩ ∈ σ.log →
    ∃ a, c.Tells a ∧ a.state.isTerminal = true ∧
      before.store.last? c.key = some a ∧ c.attemptCount = (before.store.attemptsOf c.key).length ∧
      σ.world.store.last? c.key = some a ∧ c.attemptCount = (σ.world.store.attemptsOf c.key).length
  /-- Once all workers are done, a payment has ended iff its event has been published, provided that all stored amounts
  are finite. -/
  all_told : (∀ k, σ.workers k = .idle ∨ ∃ x, σ.workers k = .finished x) →
    (∀ a ∈ σ.world.store.rows, a.amount.isFinite = true) →
    ∀ key, σ.log.countP (Entry.tells key) = if σ.world.store.hasEnded key then 1 else 0

private theorem System.Onward.announced {w : World} {σ : System} {may : Permission} (hw : w.Unused)
    (hmay : ∀ k s op, may k s op → s.announces = true) (h : Onward may { world := w } σ)
    (hended : ∀ k, σ.workers k = .idle ∨ ∃ x, σ.workers k = .finished x) {a : Attempt}
    (ha : a ∈ σ.world.store.rows) (hterminal : a.state.isTerminal = true) (hfinite : a.amount.isFinite = true) :
    0 < σ.log.countP (Entry.tells a.key) := by
  have hreached := h.reachable .refl
  have hsound := hreached.log_sound hw
  cases h.stems hw .refl a ha with
  | kept hold =>
    rw [hw.empty] at hold
    cases hold
  | @stored p d b refused before after hmem _ hstored =>
    have hpending := (hreached.orderly Scheduler.conduct_observed).pending_of_create hw hmem
    rw [hstored, show b.asStored.state = b.state from rfl, hpending] at hterminal
    cases hterminal
  | @completed p id target change refused before after hmem hallows =>
    have hpast := Log.mem_past.2 hmem
    have hne : σ.log.pasts p.worker p.round p.piece ≠ [] := fun hnil => by
      rw [show σ.log.past p = [] from hnil] at hpast
      cases hpast
    obtain ⟨x, hx⟩ : ∃ x, σ.workers p.worker = .finished x := by
      rcases hended p.worker with hidle | hx
      · have hfree := h.transcribed (may.fresh w) p.worker hallows
        rw [hidle] at hfree
        exact absurd rfl (hfree _ hmem)
      · exact hx
    obtain ⟨s, op, hbegun, hruns⟩ := h.runs (may.fresh w) hallows hx
    obtain ⟨β, q, b, hkeeps, hleaves⟩ := hruns.along ((s.all_keep op).along (fun _ _ _ _ hq => hq) fun _ _ => trivial)
      (fun r y h => h.2) _ _ (Nat.zero_le _) hne
    have htold : s.Told (Stage.ofActs (σ.log.past p)) := by
      have hfirst : q.Obeys .any s (fun σ _ => s.Told σ) (Stage.ofActs []) := hkeeps
      have hobeys := hfirst.of_leaves hleaves fun e _ => Manners.any_allows _ _
      rw [List.append_nil] at hobeys
      exact hobeys
    obtain ⟨-, -, -, rfl, -, -⟩ := (hsound.exchanges p _ hmem).transition_ok
    obtain ⟨c, hc⟩ : ∃ c, Completion.ofDecision ⟨a, a.state, none⟩ = .ok c := by
      unfold Completion.ofDecision
      rw [if_pos hfinite]
      exact ⟨_, rfl⟩
    have hannounced : s.announced? a a.state = some c := by
      simp [Scheduler.announced?, hmay _ _ _ hbegun, hterminal, hc, Except.toOption]
    obtain ⟨y, hy⟩ := htold _ _ _ _ (Stage.mem_moved hpast) c hannounced
    obtain ⟨refused', before', after', hpublish⟩ := Stage.exists_publish hy
    refine List.countP_pos_iff.2 ⟨_, Log.mem_past.1 hpublish, ?_⟩
    simp [Entry.tells, (Completion.ofDecision_tells hc).key]

/-- In every run of workers with a publisher (`hmay`), whatever calls fail and wherever workers stop, at most one event
is published for a payment, and it shows the last attempt as stored.  Once all workers are done and if all amounts are
finite, every payment that has ended has its event. -/
theorem System.Onward.told_once {w : World} {σ : System} {may : Permission} (hw : w.Unused)
    (hmay : ∀ k s op, may k s op → s.announces = true) (h : System.Onward may { world := w } σ) : σ.ToldOnce := by
  have hreached := h.reachable .refl
  have horderly := hreached.orderly Scheduler.conduct_observed
  have hsound := horderly.sound hw
  have htells : ∀ p (c : Completion) x refused (before after : World),
      ⟨p, .act (.exchanged ⟨.publish c, x, refused, before, after⟩)⟩ ∈ σ.log →
      ∃ a, c.Tells a ∧ a.state.isTerminal = true ∧
        before.store.last? c.key = some a ∧ c.attemptCount = (before.store.attemptsOf c.key).length ∧
        σ.world.store.last? c.key = some a ∧ c.attemptCount = (σ.world.store.attemptsOf c.key).length := by
    intro p c x refused before after hmem
    obtain ⟨-, earlier, -, hearlier, hasks⟩ := horderly.exists_earlier hmem (by simp)
    obtain ⟨a, ha, htells, hterminal, -⟩ := (hearlier.sound hw).announced (Log.Known p.worker p.round earlier) hasks
    have hopen := AttemptState.open_of_isTerminal hterminal
    have hlast := (hearlier.sound hw).sequenced.last?_of_open ha hopen
    have hlater := (hsound.exchanges p _ hmem).grows_before.mem_of_settled ha
      (by intro hpending; rw [hpending] at hterminal; cases hterminal)
    have hlast' := hsound.sequenced.last?_of_open hlater hopen
    rw [← htells.key] at hlast hlast'
    refine ⟨a, htells, hterminal, hlast, ?_, hlast', ?_⟩
    · rw [htells.attemptCount]
      exact ((hearlier.sound hw).sequenced.last?_eq_some_iff.1 hlast).2
    · rw [htells.attemptCount]
      exact (hsound.sequenced.last?_eq_some_iff.1 hlast').2
  refine ⟨horderly.countP_tells_le hw, htells, ?_⟩
  intro hended hfinite key
  have hle := horderly.countP_tells_le hw key
  by_cases hhas : σ.world.store.hasEnded key = true
  · obtain ⟨a, hlast, hterminal⟩ := (Option.any_eq_true _ _).1 hhas
    obtain ⟨hmem, -⟩ := hsound.sequenced.last?_eq_some_iff.1 hlast
    obtain ⟨ha, rfl⟩ := Store.mem_attemptsOf.1 hmem
    have hpos := h.announced hw hmay hended ha hterminal (hfinite a ha)
    rw [if_pos hhas]
    omega
  · rw [if_neg hhas, List.countP_eq_zero]
    intro entry hmem htold
    obtain ⟨p, c, x, refused, before, after, rfl, rfl⟩ := Entry.exists_publish_of_tells htold
    obtain ⟨a, -, hterminal, -, -, hlast, -⟩ := htells p c x refused before after hmem
    exact hhas ((Option.any_eq_true _ _).2 ⟨a, hlast, hterminal⟩)

/-- A declined payment that has been retried with success is announced once. -/
theorem told_once_of_retry :
    ∃ σ, System.Onward Sample.submitsOrPolls { world := Sample.world } σ ∧
      σ.world.store.rows.map (·.state) = [.retried, .success] ∧ σ.ToldOnce ∧
      σ.log.countP (Entry.tells "order") = 1 := by
  obtain ⟨σ, h, hworld, hended⟩ := Sample.onward_retried
  have hall : (∀ a ∈ Sample.retried.store.rows, a.amount.isFinite = true) ∧
      Sample.retried.store.hasEnded "order" = true := by decide +kernel
  rw [← hworld] at hall
  have htold := h.told_once ⟨rfl, rfl⟩ (by rintro k s op ⟨rfl, -⟩; rfl)
  refine ⟨σ, h, by rw [hworld]; decide +kernel, htold, ?_⟩
  rw [htold.all_told hended hall.1 "order", if_pos hall.2]

end PaymentRetry
