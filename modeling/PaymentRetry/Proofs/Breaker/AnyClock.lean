import PaymentRetry.Proofs.Breaker.Calls

/-!
# The breaker under any clock

What a breaker holds says of its history what it should even if the clock goes back: the count of failures and the time
of the last one are those of the history, and it is closed if and only if the count is below the threshold, and one.  It
becomes half-open by nothing but a look at an open breaker whose recovery time has passed, and what it exports is the
state that it holds (`Breaker.Course.keeps_books`).

Only what a half-open breaker says of the present depends on the clock: it was seen to recover, and the clock may have
gone back since.
-/

namespace PaymentRetry.Breaker

open Simulation

/-- The world after the breaker of `w` has made `move`. -/
def moved (w : World) : Move → World
  | .fail => w.failBreaker
  | .succeed => w.succeedBreaker
  | .ask | .look => w.observeBreaker

/-- The worlds that `start` becomes by moves of its breaker, with the history of the moves.  Between moves the clock
may go anywhere, and anything may happen that leaves the breaker and the exported state alone. -/
inductive Course (start : World) : History → World → Prop
  | begun : Course start [] start
  | wait {h : History} {w w' : World} (hcourse : Course start h w) (hbreaker : w'.breaker = w.breaker)
    (hexported : w'.exported = w.exported) : Course start h w'
  | move {h : History} {w : World} (hcourse : Course start h w) (move : Move) :
    Course start (⟨move, w.now⟩ :: h) (moved w move)

section

variable {w : World}

theorem Course.clock {start : World} {h : History} (hcourse : Course start h w) (t : DateTime) :
    Course start h { w with now := t } := hcourse.wait rfl rfl

theorem breaker_moved (w : World) (move : Move) : (moved w move).breaker = w.breaker.apply ⟨move, w.now⟩ := by
  cases move with
  | fail => exact (failBreaker_facts w).1
  | succeed => rfl
  | ask | look => exact breaker_observeBreaker w

/-- A failure exports the state that it leaves, if the state from before was exported. -/
theorem exported_failBreaker (hw : w.exported = w.breaker.state) :
    w.failBreaker.exported = (w.breaker.failed w.now).state := by
  have hexported : w.failBreaker.exported = w.breaker.failedExport.getD w.exported := by
    simp only [World.failBreaker]
    split <;> rfl
  rw [hexported, hw]
  unfold failedExport failed
  cases w.breaker.trips <;> rfl

theorem exported_observeBreaker (hw : w.exported = w.breaker.state) :
    w.observeBreaker.exported = (w.breaker.observe w.now).state := by
  have hexported : w.observeBreaker.exported = (w.breaker.observeExport w.now).getD w.exported := by
    simp only [World.observeBreaker]
    split <;> rfl
  rw [hexported, hw]
  unfold observeExport observe
  cases w.breaker.wakes w.now <;> rfl

/-- Every move exports the state that it leaves. -/
theorem exported_moved (hw : w.exported = w.breaker.state) (move : Move) :
    (moved w move).exported = (moved w move).breaker.state := by
  rw [breaker_moved]
  cases move with
  | fail => exact exported_failBreaker hw
  | succeed => rfl
  | ask | look => exact exported_observeBreaker hw

end

section Course

variable {threshold : Int} {recovery : Quantity} {h : History} {start w : World}

theorem Course.tallies (hstart : start.breaker = fresh threshold recovery) (hexported : start.exported = .closed)
    (hcourse : Course start h w) : Tallies threshold recovery h w.breaker ∧ w.exported = w.breaker.state := by
  induction hcourse with
  | begun =>
    rw [hstart]
    exact ⟨.fresh threshold recovery, hexported⟩
  | wait _ hbreaker hsame ih =>
    rw [hbreaker, hsame]
    exact ih
  | move _ move ih =>
    refine ⟨?_, exported_moved ih.2 move⟩
    rw [breaker_moved]
    exact ih.1.apply _

theorem Tallies.closed_iff {b : Breaker} (hb : Tallies threshold recovery h b) :
    b.state = .closed ↔ (b.failures : Int) < max 1 threshold := by
  rw [hb.failures_eq]
  refine ⟨hb.closed, fun hfew => ?_⟩
  by_contra hopen
  exact absurd hfew (Int.not_lt.2 (hb.enough hopen))

theorem Tallies.exists_lastFailure {b : Breaker} (hb : Tallies threshold recovery h b) (hopen : b.state ≠ .closed) :
    ∃ last, b.lastFailure = some last ∧ h.lastFailure? = some last := by
  have henough := hb.enough hopen
  obtain ⟨last, hlast⟩ := History.exists_lastFailure? (h := h) (by omega)
  exact ⟨last, hb.lastFailure_eq.trans hlast, hlast⟩

/-- A breaker becomes half-open only by a look that finds it open and its recovery time passed. -/
theorem Tallies.apply_eq_halfOpen_iff {b : Breaker} (hb : Tallies threshold recovery h b) (hhalf : b.state ≠ .halfOpen)
    (e : Entry) : (b.apply e).state = .halfOpen ↔ b.state = .opened ∧ (e.move = .ask ∨ e.move = .look) ∧
      ∃ last, h.lastFailure? = some last ∧ recovery.le (e.time.since last).seconds = true := by
  have hlook : (b.observe e.time).state = .halfOpen ↔ b.state = .opened ∧
      ∃ last, h.lastFailure? = some last ∧ recovery.le (e.time.since last).seconds = true := by
    have hrecovered : b.hasRecovered e.time = true ↔
        ∃ last, h.lastFailure? = some last ∧ recovery.le (e.time.since last).seconds = true := by
      unfold hasRecovered
      rw [hb.lastFailure_eq, hb.recovery_eq]
      cases h.lastFailure? <;> simp
    rw [← hrecovered, ← wakes_iff]
    unfold Breaker.observe
    cases b.wakes e.time <;> simp [hhalf]
  obtain ⟨move, t⟩ := e
  cases move with
  | fail =>
    rcases hb.state_failed t with ⟨hclosed, -, -⟩ | ⟨hopened, -⟩
    · simp [Breaker.apply, hclosed]
    · simp [Breaker.apply, hopened]
  | succeed => simp [Breaker.apply, Breaker.succeeded]
  | ask | look => simpa [Breaker.apply] using hlook

end Course

/-- What the breaker of `w` holds and exports says of its history `h`.  `reached` says whether a duration is at least
the recovery time. -/
structure KeepsBooks (threshold : Int) (reached : Duration → Bool) (h : History) (w : World) : Prop where
  /-- It is closed if and only if the count of failures is below the threshold, and one. -/
  closed_iff : w.breaker.state = .closed ↔ (w.breaker.failures : Int) < max 1 threshold
  /-- The count is that of the failures since the last success. -/
  counts : w.breaker.failures = h.streak
  /-- One that is open or half-open has the time of the last failure. -/
  dated : w.breaker.state = .opened ∨ w.breaker.state = .halfOpen →
    ∃ last, w.breaker.lastFailure = some last ∧ h.lastFailure? = some last
  /-- The next move makes it half-open if and only if it looks at an open one, and the recovery time has passed since
  the last failure. -/
  wakes_iff : ∀ move, w.breaker.state ≠ .halfOpen → ((moved w move).breaker.state = .halfOpen ↔
    w.breaker.state = .opened ∧ (move = .ask ∨ move = .look) ∧
      ∃ last, h.lastFailure? = some last ∧ reached (w.now.since last) = true)
  /-- What is exported is the number of its state. -/
  gauge_eq : w.exported.gauge = w.breaker.state.gauge

/-- For every `threshold` and every `recovery` time, `KeepsBooks` holds through all moves, wherever the clock goes
between them.  The recovery time is compared with durations as doubles, and exactly where the doubles compare as the
exact values do. -/
theorem Course.keeps_books {threshold : Int} {recovery : Quantity} {h : History} {start w : World}
    (hstart : start.breaker = fresh threshold recovery) (hexported : start.exported = .closed)
    (hcourse : Course start h w) :
    KeepsBooks threshold (fun d => recovery.le d.seconds) h w ∧
      ((∀ last, h.lastFailure? = some last → recovery.ComparesExactly (w.now.since last)) →
        KeepsBooks threshold (fun d => !recovery.exceeds d) h w) := by
  obtain ⟨htallies, hsame⟩ := hcourse.tallies hstart hexported
  have hkeeps : KeepsBooks threshold (fun d => recovery.le d.seconds) h w := by
    refine ⟨htallies.closed_iff, htallies.failures_eq, fun hopen => htallies.exists_lastFailure ?_,
      fun move hhalf => ?_, congrArg CircuitState.gauge hsame⟩
    · rcases hopen with hopened | hhalf
      · simp [hopened]
      · simp [hhalf]
    · rw [breaker_moved]
      exact htallies.apply_eq_halfOpen_iff hhalf ⟨move, w.now⟩
  refine ⟨hkeeps, fun hexact => { hkeeps with wakes_iff := fun move hhalf => (hkeeps.wakes_iff move hhalf).trans ?_ }⟩
  refine and_congr_right fun _ => and_congr_right fun _ => exists_congr fun last => and_congr_right fun hlast => ?_
  rw [hexact last hlast]

namespace Setback

/-- After a failure the clock is set back. -/
def failed : World := { moved Outage.world .fail with now := default }

/-- After a call was asked for, the clock is half a minute past the failure. -/
def asked : World := { moved failed .ask with now := ⟨31 * Duration.second, by decide⟩ }

/-- Then the state is read. -/
def looked : World := moved asked .look

theorem course : Course Outage.world [⟨.look, asked.now⟩, ⟨.ask, failed.now⟩, ⟨.fail, Outage.world.now⟩] looked :=
  (((Course.begun.move .fail).clock _).move .ask |>.clock _).move .look

theorem comparesExactly {last : DateTime} (hlast : some Outage.world.now = some last) :
    (Quantity.whole 30).ComparesExactly (looked.now.since last) := by
  rw [← Option.some.inj hlast]
  exact Quantity.comparesExactly_whole (by decide) (by decide +kernel)

end Setback

/-- With a threshold of one and a recovery time of half a minute: a failure, a look after the clock has gone back, and
a look half a minute after the failure, at which the breaker becomes half-open. -/
theorem keeps_books_of_clock_set_back : ∃ h w, Course Outage.world h w ∧ h.map (·.move) = [.look, .ask, .fail] ∧
    w.breaker.state = .halfOpen ∧ w.exported = .halfOpen ∧
    (∀ last, h.lastFailure? = some last → (Quantity.whole 30).ComparesExactly (w.now.since last)) ∧
    KeepsBooks 1 (fun d => !(Quantity.whole 30).exceeds d) h w :=
  ⟨_, _, Setback.course, rfl, by decide +kernel, by decide +kernel, fun _ => Setback.comparesExactly,
    (Setback.course.keeps_books rfl rfl).2 fun _ => Setback.comparesExactly⟩

end PaymentRetry.Breaker
