import PaymentRetry.Breaker
import PaymentRetry.Proofs.Number.Nearest

/-!
# The breaker and its history

An open breaker becomes half-open only when somebody looks, so the state it holds depends on who has looked.  Its
answers do not: whether it lets a call through follows from the failures since the last success and the time of the last
failure (`Breaker.allows_after`), and looks may be left out of the history (`Breaker.allows_after_of_notes`).

The states are related to the history by `Breaker.Tallies`, which every move keeps, wherever the clock goes
(`Breaker.Tallies.apply`).  A half-open breaker has been seen to recover, and it stays recovered if the clock does not
go back (`Breaker.Reflects`).
-/

namespace PaymentRetry.Breaker

/-- What is done to a breaker: a failure or a success is noted, a call is asked for, or the state is read. -/
inductive Move where
  | fail
  | succeed
  | ask
  | look
  deriving DecidableEq

/-- A move and its time. -/
structure Entry where
  move : Move
  time : DateTime

/-- What has been done to a breaker, the latest first. -/
abbrev History := List Entry

namespace History

/-- Whether the clock has not gone back in a history, nor from its end to a time. -/
def UpTo : History → DateTime → Prop
  | [], _ => True
  | e :: h, t => e.time ≤ t ∧ UpTo h e.time

/-- How many failures there are in `h` since the last success. -/
def streak (h : History) : Nat := (h.takeWhile (·.move ≠ .succeed)).countP (·.move = .fail)

/-- The time of the last failure in `h`. -/
def lastFailure? (h : History) : Option DateTime := (h.find? (·.move = .fail)).map (·.time)

/-- The history `h` without the looks. -/
def notes (h : History) : History := h.filter fun e => e.move = .fail ∨ e.move = .succeed

/-- Whether a call at `t` is turned away after `h`: there are enough failures since the last success, and too little
time has passed since the last failure. -/
def Rejects (threshold : Int) (short : Duration → Bool) (h : History) (t : DateTime) : Prop :=
  max 1 threshold ≤ h.streak ∧ ∃ last, h.lastFailure? = some last ∧ short (t.since last) = true

@[simp]
theorem streak_fail (t : DateTime) (h : History) : streak (⟨.fail, t⟩ :: h) = streak h + 1 := by
  simp [streak]

@[simp]
theorem streak_succeed (t : DateTime) (h : History) : streak (⟨.succeed, t⟩ :: h) = 0 := by
  simp [streak]

@[simp]
theorem lastFailure?_fail (t : DateTime) (h : History) : lastFailure? (⟨.fail, t⟩ :: h) = some t := by
  simp [lastFailure?]

@[simp]
theorem lastFailure?_succeed (t : DateTime) (h : History) :
    lastFailure? (⟨.succeed, t⟩ :: h) = lastFailure? h := by
  simp [lastFailure?]

theorem streak_notes (h : History) : h.notes.streak = h.streak := by
  induction h with
  | nil => rfl
  | cons e h ih =>
    obtain ⟨move, t⟩ := e
    cases move <;> simp_all [notes, streak]

theorem lastFailure?_notes (h : History) : h.notes.lastFailure? = h.lastFailure? := by
  induction h with
  | nil => rfl
  | cons e h ih =>
    obtain ⟨move, t⟩ := e
    cases move <;> simp_all [notes, lastFailure?]

theorem UpTo.later {h : History} {t t' : DateTime} (hh : h.UpTo t) (hle : t ≤ t') : h.UpTo t' := by
  cases h with
  | nil => exact trivial
  | cons e h => exact ⟨Nat.le_trans hh.1 hle, hh.2⟩

theorem UpTo.lastFailure?_le {h : History} {t last : DateTime} (hh : h.UpTo t) (hlast : h.lastFailure? = some last) :
    last ≤ t := by
  induction h generalizing t with
  | nil => cases hlast
  | cons e h ih =>
    obtain ⟨move, time⟩ := e
    by_cases hfail : move = .fail
    · subst hfail
      rw [lastFailure?_fail, Option.some_inj] at hlast
      exact hlast ▸ hh.1
    · have hearlier : lastFailure? h = some last := by simpa [lastFailure?, hfail] using hlast
      exact Nat.le_trans (ih hh.2 hearlier) hh.1

theorem exists_lastFailure? {h : History} (hsome : 0 < h.streak) : ∃ last, h.lastFailure? = some last := by
  induction h with
  | nil => cases hsome
  | cons e h ih =>
    obtain ⟨move, t⟩ := e
    cases move with
    | fail => exact ⟨t, lastFailure?_fail t h⟩
    | succeed => simp at hsome
    | ask | look =>
      obtain ⟨last, hlast⟩ := ih (by simpa [streak] using hsome)
      exact ⟨last, by simpa [lastFailure?] using hlast⟩

end History

/-- A breaker to which nothing has been done. -/
def fresh (threshold : Int) (recovery : Quantity) : Breaker where
  threshold := threshold
  recovery := recovery

/-- The breaker `b` after the move `e`. -/
def apply (b : Breaker) (e : Entry) : Breaker :=
  match e.move with
  | .fail => b.failed e.time
  | .succeed => b.succeeded
  | .ask | .look => b.observe e.time

/-- The breaker `b` after all moves of a history. -/
def after (b : Breaker) : History → Breaker
  | [] => b
  | e :: h => (b.after h).apply e

/-- What the fields of `b` say of its history `h`, wherever the clock goes.  The count and the time of the last failure
are those of `h`, a closed breaker has too few failures, and one that is not closed has enough. -/
structure Tallies (threshold : Int) (recovery : Quantity) (h : History) (b : Breaker) : Prop where
  threshold_eq : b.threshold = threshold
  recovery_eq : b.recovery = recovery
  failures_eq : b.failures = h.streak
  lastFailure_eq : b.lastFailure = h.lastFailure?
  closed : b.state = .closed → (h.streak : Int) < max 1 threshold
  enough : b.state ≠ .closed → max 1 threshold ≤ h.streak

/-- What the fields of `b` say at `t` of its history `h` while the clock does not go back: a half-open breaker has
recovered besides. -/
structure Reflects (threshold : Int) (recovery : Quantity) (h : History) (t : DateTime) (b : Breaker) : Prop
    extends Tallies threshold recovery h b where
  recovered : b.state = .halfOpen → b.hasRecovered t = true

theorem hasRecovered_of_le {b : Breaker} {t t' : DateTime} (hlast : ∀ last, b.lastFailure = some last → last ≤ t)
    (hle : t ≤ t') (h : b.hasRecovered t = true) : b.hasRecovered t' = true := by
  unfold hasRecovered at h ⊢
  cases hl : b.lastFailure with
  | none => simp [hl] at h
  | some last =>
    simp only [hl] at h ⊢
    have hpast : last.micros ≤ t.micros := hlast last hl
    have hlater : t.micros ≤ t'.micros := hle
    refine Quantity.le_seconds_of_le ?_ ?_ h
    · unfold DateTime.since
      dsimp only
      omega
    · unfold DateTime.since
      dsimp only
      omega

section Tallies

variable {threshold : Int} {recovery : Quantity} {h : History} {t : DateTime} {b : Breaker}

theorem Tallies.fresh (threshold : Int) (recovery : Quantity) :
    Tallies threshold recovery [] (fresh threshold recovery) where
  threshold_eq := rfl
  recovery_eq := rfl
  failures_eq := rfl
  lastFailure_eq := rfl
  closed _ := by
    have : History.streak [] = 0 := rfl
    omega
  enough hopen := absurd rfl hopen

/-- After a failure the breaker is closed only if it was closed and there are still too few failures; else it is open.
-/
theorem Tallies.state_failed (hb : Tallies threshold recovery h b) (t : DateTime) :
    (b.failed t).state = .closed ∧ b.state = .closed ∧ (h.streak : Int) + 1 < threshold ∨
      (b.failed t).state = .opened ∧ max 1 threshold ≤ (h.streak : Int) + 1 := by
  have hcount : (b.failures : Int) = h.streak := by rw [hb.failures_eq]
  unfold Breaker.failed trips
  rw [hb.threshold_eq, hcount]
  cases hstate : b.state with
  | closed =>
    by_cases henough : threshold ≤ (h.streak : Int) + 1
    · exact .inr ⟨by simp [henough], by omega⟩
    · exact .inl ⟨by simp [henough], rfl, Int.not_le.1 henough⟩
  | opened | halfOpen =>
    have := hb.enough (by simp [hstate])
    exact .inr ⟨by simp, by omega⟩

theorem Tallies.failed (hb : Tallies threshold recovery h b) (t : DateTime) :
    Tallies threshold recovery (⟨.fail, t⟩ :: h) (b.failed t) := by
  have hstreak := History.streak_fail t h
  refine ⟨hb.threshold_eq, hb.recovery_eq, ?_, ?_, fun hclosed => ?_, fun hopen => ?_⟩
  · rw [failures_failed, hb.failures_eq, hstreak]
  · exact (History.lastFailure?_fail t h).symm
  · rcases hb.state_failed t with ⟨-, -, hfew⟩ | ⟨hopened, -⟩
    · rw [hstreak]
      omega
    · rw [hopened] at hclosed
      cases hclosed
  · rcases hb.state_failed t with ⟨hclosed, -, -⟩ | ⟨-, henough⟩
    · exact absurd hclosed hopen
    · rw [hstreak]
      omega

theorem Tallies.succeeded (hb : Tallies threshold recovery h b) (t : DateTime) :
    Tallies threshold recovery (⟨.succeed, t⟩ :: h) b.succeeded where
  threshold_eq := hb.threshold_eq
  recovery_eq := hb.recovery_eq
  failures_eq := (History.streak_succeed t h).symm
  lastFailure_eq := by rw [History.lastFailure?_succeed]; exact hb.lastFailure_eq
  closed _ := by
    rw [History.streak_succeed]
    omega
  enough hopen := absurd rfl hopen

theorem wakes_iff : b.wakes t = true ↔ b.state = .opened ∧ b.hasRecovered t = true := by
  simp only [wakes, Bool.and_eq_true, beq_iff_eq]

theorem Tallies.observe (hb : Tallies threshold recovery h b) (t : DateTime) :
    Tallies threshold recovery h (b.observe t) := by
  unfold Breaker.observe
  split
  · rename_i hwakes
    have hopened := (wakes_iff.1 hwakes).1
    exact { hb with
      closed := fun hclosed => by cases hclosed
      enough := fun _ => hb.enough (by simp [hopened]) }
  · exact hb

theorem Tallies.skip {move : Move} (hlook : move = .ask ∨ move = .look) (hb : Tallies threshold recovery h b) :
    Tallies threshold recovery (⟨move, t⟩ :: h) b := by
  have hstreak : History.streak (⟨move, t⟩ :: h) = h.streak := by
    rcases hlook with rfl | rfl <;> simp [History.streak]
  have hlast : History.lastFailure? (⟨move, t⟩ :: h) = h.lastFailure? := by
    rcases hlook with rfl | rfl <;> simp [History.lastFailure?]
  refine ⟨hb.threshold_eq, hb.recovery_eq, ?_, ?_, ?_, ?_⟩
  · rw [hstreak]
    exact hb.failures_eq
  · rw [hlast]
    exact hb.lastFailure_eq
  · rw [hstreak]
    exact hb.closed
  · rw [hstreak]
    exact hb.enough

/-- Every move keeps `Tallies`, whatever the time. -/
theorem Tallies.apply (hb : Tallies threshold recovery h b) (e : Entry) :
    Tallies threshold recovery (e :: h) (b.apply e) := by
  obtain ⟨move, t⟩ := e
  cases move with
  | fail => exact hb.failed t
  | succeed => exact hb.succeeded t
  | ask => exact (hb.observe t).skip (.inl rfl)
  | look => exact (hb.observe t).skip (.inr rfl)

end Tallies

section Reflects

variable {threshold : Int} {recovery : Quantity} {h : History} {t t' : DateTime} {b : Breaker}

theorem Reflects.fresh (t : DateTime) : Reflects threshold recovery [] t (fresh threshold recovery) where
  toTallies := .fresh threshold recovery
  recovered hhalf := by cases hhalf

theorem Reflects.later (hb : Reflects threshold recovery h t b) (hh : h.UpTo t) (hle : t ≤ t') :
    Reflects threshold recovery h t' b :=
  { hb with
    recovered := fun hhalf =>
      hasRecovered_of_le (fun _ hlast => hh.lastFailure?_le (hb.lastFailure_eq ▸ hlast)) hle (hb.recovered hhalf) }

/-- A look finds that an open breaker has recovered, or leaves it open. -/
theorem Reflects.observe (hb : Reflects threshold recovery h t b) :
    Reflects threshold recovery h t (b.observe t) := by
  refine ⟨hb.toTallies.observe t, fun hhalf => ?_⟩
  unfold Breaker.observe at hhalf ⊢
  split
  · rename_i hwakes
    exact (wakes_iff.1 hwakes).2
  · rename_i hasleep
    rw [if_neg hasleep] at hhalf
    exact hb.recovered hhalf

/-- Every move at the present time keeps `Reflects`. -/
theorem Reflects.apply (hb : Reflects threshold recovery h t b) (move : Move) :
    Reflects threshold recovery (⟨move, t⟩ :: h) t (b.apply ⟨move, t⟩) := by
  refine ⟨hb.toTallies.apply ⟨move, t⟩, fun hhalf => ?_⟩
  cases move with
  | fail =>
    rcases hb.state_failed t with ⟨hclosed, -, -⟩ | ⟨hopened, -⟩
    · rw [show (b.apply ⟨.fail, t⟩).state = .closed from hclosed] at hhalf
      cases hhalf
    · rw [show (b.apply ⟨.fail, t⟩).state = .opened from hopened] at hhalf
      cases hhalf
  | succeed => cases hhalf
  | ask | look => exact hb.observe.recovered hhalf

theorem Reflects.allows_observe (hb : Reflects threshold recovery h t b) :
    (b.observe t).allows = false ↔ h.Rejects threshold (fun d => !recovery.le d.seconds) t := by
  have hrecovered : ∀ last, h.lastFailure? = some last → b.hasRecovered t = recovery.le (t.since last).seconds := by
    intro last hlast
    simp only [hasRecovered, hb.lastFailure_eq, hlast, hb.recovery_eq]
  have hanswer : (b.observe t).allows = false ↔ b.state = .opened ∧ b.hasRecovered t = false := by
    unfold Breaker.observe wakes allows
    cases hstate : b.state <;> cases b.hasRecovered t <;> simp [hstate]
  rw [hanswer]
  constructor
  · rintro ⟨hopened, hnot⟩
    have henough := hb.enough (by simp [hopened])
    obtain ⟨last, hlast⟩ := History.exists_lastFailure? (h := h) (by omega)
    refine ⟨henough, last, hlast, ?_⟩
    dsimp only
    rw [← hrecovered last hlast, hnot, Bool.not_false]
  · rintro ⟨henough, last, hlast, hshort⟩
    have hnot : b.hasRecovered t = false := by
      rw [hrecovered last hlast]
      simpa using hshort
    refine ⟨?_, hnot⟩
    cases hstate : b.state with
    | opened => rfl
    | closed =>
      have := hb.closed hstate
      omega
    | halfOpen =>
      rw [hb.recovered hstate] at hnot
      cases hnot

end Reflects

theorem reflects_after (threshold : Int) (recovery : Quantity) {h : History} {t : DateTime} (hh : h.UpTo t) :
    Reflects threshold recovery h t ((fresh threshold recovery).after h) := by
  induction h generalizing t with
  | nil => exact .fresh t
  | cons e h ih => exact ((ih hh.2).apply e.move).later ⟨Nat.le_refl _, hh.2⟩ hh.1

/-- After the history `h`, a call at `t` is turned away if and only if the failures since the last success are at least
the threshold, and one, and the recovery time has not passed since the last failure. -/
theorem allows_after (threshold : Int) (recovery : Quantity) {h : History} {t : DateTime} (hh : h.UpTo t) :
    (((fresh threshold recovery).after h).observe t).allows = false ↔
      h.Rejects threshold (fun d => !recovery.le d.seconds) t :=
  (reflects_after threshold recovery hh).allows_observe

/-- Looks that are put in or left out make no difference to a later answer. -/
theorem allows_after_of_notes (threshold : Int) (recovery : Quantity) {h h' : History} {t : DateTime} (hh : h.UpTo t)
    (hh' : h'.UpTo t) (hnotes : h.notes = h'.notes) :
    (((fresh threshold recovery).after h).observe t).allows =
      (((fresh threshold recovery).after h').observe t).allows := by
  have hstreak : h.streak = h'.streak := by rw [← h.streak_notes, hnotes, h'.streak_notes]
  have hlast : h.lastFailure? = h'.lastFailure? := by rw [← h.lastFailure?_notes, hnotes, h'.lastFailure?_notes]
  have hiff : h.Rejects threshold (fun d => !recovery.le d.seconds) t ↔
      h'.Rejects threshold (fun d => !recovery.le d.seconds) t := by
    unfold History.Rejects
    rw [hstreak, hlast]
  refine Bool.eq_iff_iff.2 (not_iff_not.1 ?_)
  rw [Bool.not_eq_true, Bool.not_eq_true, allows_after threshold recovery hh, allows_after threshold recovery hh', hiff]

end PaymentRetry.Breaker
