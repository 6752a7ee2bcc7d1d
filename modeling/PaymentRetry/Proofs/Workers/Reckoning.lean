import Mathlib.Algebra.BigOperators.Fin
import Mathlib.Algebra.BigOperators.Intervals
import Mathlib.Tactic.Ring
import PaymentRetry.Proofs.Course.Deciding
import PaymentRetry.Proofs.Workers.Aftermath
import PaymentRetry.Proofs.Workers.Bookkeeping

/-!
# The counters agree with the store

Counters are told at different points of a run, before a transition, after it, or once the work on an attempt is over,
and workers take turns in between.  When all that was begun has ended, the counters still add up: with each other, with
the rows, with what was listed, and with what the polls have reported (`System.Onward.reconciled`).

What a program posts is balanced by the time it ends (`Scheduler.Balanced`), and so are the counts of transitions and of
outcomes.  What a poll takes up is listed in one round and counted in the next, so those counts are balanced only by
worker: `Task.tally` is what a worker has posted since a round, and it is followed through the rounds of a poll.
-/

namespace PaymentRetry

open Simulation

/-! ### What is balanced -/

namespace Posting

/-- The value of a posting in (counted transitions to `S`) - (rows moved to `S`). -/
def transitions (S : AttemptState) : Posting → Int
  | counted (.transition T) => if T = S then 1 else 0
  | moved T => if T = S then -1 else 0
  | _ => 0

/-- The value of a posting in (counted outcomes) - (counted transitions and lost races) - (failed transitions). -/
def outcomes : Posting → Int
  | counted (.outcome _) => 1
  | counted (.transition _) | counted .staleTransition | failed => -1
  | _ => 0

/-- The value of a posting in `a` × (counted recoveries - listed stale attempts) + `b` × (counted firings - listed due
retries) + `c` × (created retries). -/
def piecework (a b c : Int) : Posting → Int
  | counted (.recovered _) => a
  | stale => -a
  | counted (.fired _) => b
  | due => -b
  | stored number => if number = some 1 then 0 else c
  | _ => 0

theorem worth_transitions (S : AttemptState) (l : List Posting) :
    worth (transitions S) l = l.count (.counted (.transition S)) - l.count (.moved S) := by
  induction l with
  | nil => rfl
  | cons x l ih =>
    rw [worth_cons, ih, List.count_cons, List.count_cons]
    cases x with
    | counted m =>
      cases m
      case transition T =>
        simp only [transitions, beq_iff_eq, counted.injEq, Metric.transition.injEq, reduceCtorEq, if_false]
        split <;> omega
      all_goals simp [transitions]
    | moved T =>
      simp only [transitions, beq_iff_eq, moved.injEq, reduceCtorEq, if_false]
      split <;> omega
    | stored | failed | due | stale => simp [transitions]

theorem worth_outcomes (l : List Posting) :
    worth outcomes l = (Outcome.all.map fun o => l.count (.counted (.outcome o))).sum -
      ((AttemptState.all.map fun S => l.count (.counted (.transition S))).sum + l.count (.counted .staleTransition)) -
      l.count .failed := by
  simp only [Outcome.all, AttemptState.all, List.map_cons, List.map_nil, List.sum_cons, List.sum_nil]
  induction l with
  | nil => rfl
  | cons x l ih =>
    rw [worth_cons, ih]
    simp only [List.count_cons]
    cases x with
    | counted m =>
      cases m
      case outcome o => cases o <;> simp [outcomes] <;> omega
      case transition S => cases S <;> simp [outcomes] <;> omega
      all_goals simp [outcomes]
      all_goals omega
    | stored | moved | due | stale => simp [outcomes]
    | failed =>
      simp [outcomes]
      omega

theorem worth_piecework (a b c : Int) (l : List Posting) :
    worth (piecework a b c) l =
      a * (l.count (.counted (.recovered .recovered)) + l.count (.counted (.recovered .raced)) +
          l.count (.counted (.recovered .error)) - l.count .stale) +
        b * (l.count (.counted (.fired .executed)) + l.count (.counted (.fired .duplicate)) +
          l.count (.counted (.fired .error)) - l.count .due) +
        c * l.countP isRetry := by
  induction l with
  | nil => simp
  | cons x l ih =>
    rw [worth_cons, ih]
    simp only [List.count_cons, List.countP_cons]
    cases x with
    | counted m =>
      cases m
      case recovered status => cases status <;> simp [piecework, isRetry] <;> ring
      case fired status => cases status <;> simp [piecework, isRetry] <;> ring
      all_goals simp [piecework, isRetry]
    | stored number =>
      by_cases h : number = some 1
      · simp [piecework, isRetry, h]
      · simp [piecework, isRetry, h]
        ring
    | moved | failed => simp [piecework, isRetry]
    | due | stale =>
      simp [piecework, isRetry]
      ring

end Posting

/-! ### By program -/

/-- The policy had no date for the outcome that was recorded for the attempt in the stage. -/
def Scheduler.Overflows (s : Scheduler) (σ : Stage) (l : List Posting) : Prop :=
  ∃ result id b r, .counted (.outcome result.outcome) ∈ l ∧ σ.looked = some (id, .ok b) ∧
    s.policy.Gives result b.number σ.clock (.error r)

/-- The postings `l` are balanced in `transitions` and, unless a date has overflowed, in `outcomes`. -/
structure Scheduler.Balanced (s : Scheduler) (σ : Stage) (l : List Posting) : Prop where
  transitions : ∀ S, Posting.worth (Posting.transitions S) l = 0
  outcomes : Posting.worth Posting.outcomes l = 0 ∨ Posting.worth Posting.outcomes l = 1 ∧ s.Overflows σ l

namespace Scheduler

variable {s : Scheduler} {σ : Stage} {l l' : List Posting}

theorem Balanced.nil : s.Balanced σ [] := ⟨fun _ => rfl, .inl rfl⟩

theorem Balanced.counted (h : s.Balanced σ l) {metric : Metric}
    (htransitions : ∀ S, Posting.transitions S (.counted metric) = 0)
    (houtcomes : Posting.outcomes (.counted metric) = 0) : s.Balanced σ (.counted metric :: l) := by
  refine ⟨fun S => ?_, ?_⟩
  · rw [Posting.worth_cons, htransitions, h.transitions, Int.zero_add]
  · rw [Posting.worth_cons, houtcomes, Int.zero_add]
    refine h.outcomes.imp_right fun ⟨hone, result, id, b, r, hmem, hoverflows⟩ => ?_
    exact ⟨hone, result, id, b, r, List.mem_cons_of_mem _ hmem, hoverflows⟩

/-- The postings of `recordOutcome` are balanced. -/
theorem Writes.balanced (h : s.Writes l σ l') (htransitions : ∀ S, Posting.worth (Posting.transitions S) l = 0)
    (houtcomes : Posting.worth Posting.outcomes l = 0) : s.Balanced σ l' := by
  cases h with
  | nothing => exact ⟨htransitions, .inl houtcomes⟩
  | overflow hlooked hgives =>
    refine ⟨fun S => ?_, .inr ⟨?_, _, _, _, _, List.mem_cons_self, hlooked, hgives⟩⟩
    · simp [Posting.transitions, htransitions S]
    · simp [Posting.outcomes, houtcomes]
  | failed | lost =>
    refine ⟨fun S => ?_, .inl ?_⟩
    · simp [Posting.transitions, htransitions S]
    · simp [Posting.outcomes, houtcomes]
  | @moved o target =>
    refine ⟨fun S => ?_, .inl ?_⟩
    · by_cases hS : target = S <;> simp [Posting.transitions, htransitions S, hS]
    · simp [Posting.outcomes, houtcomes]

/-- `recordOutcome` does not change `piecework`. -/
theorem Writes.piecework (h : s.Writes l σ l') (a b c : Int) :
    Posting.worth (Posting.piecework a b c) l' = Posting.worth (Posting.piecework a b c) l := by
  cases h <;> simp [Posting.piecework]

variable (s) {m : Manners}

/-- The postings of every program of an operation are balanced when it has ended. -/
theorem all_balanced (hm : m.CarryOn) (op : Operation) :
    (s.task op).All fun _ p => p.Posts m (fun σ l _ => s.Balanced σ l) {} [] := by
  have hstored : ∀ {σ l number}, s.Writes [.stored number] σ l → s.Balanced σ l := fun h =>
    h.balanced (fun _ => rfl) rfl
  have hwritten : ∀ {σ l}, s.Writes [] σ l → s.Balanced σ l := fun h => h.balanced (fun _ => rfl) rfl
  refine s.all_pieces (Q := fun _ p => p.Posts m (fun σ l _ => s.Balanced σ l) {} []) ?_ ?_ ?_ ?_ ?_ ?_ ?_ ?_ op
  · exact fun p => (s.submit_posts hm p).mono fun _ _ _ h => h.elim (fun hl => hl ▸ .nil) hstored
  · exact fun key id result => (s.recordOutcome_posts hm key id result {} []).mono fun _ _ _ h => hwritten h.1
  · exact fun _ _ => .nil
  · rintro olderThan limit (e | stale) -
    · exact .nil
    · refine ⟨fun S => ?_, .inl ?_⟩ <;> simp [Request.postings, Posting.transitions, Posting.outcomes]
  · refine fun a => (s.recover_posts hm a).mono ?_
    rintro σ l x ⟨-, status, l', rfl, hwrites⟩
    exact (hwritten hwrites).counted (fun _ => rfl) rfl
  · rintro asOf limit (e | due) -
    · exact .nil
    · refine ⟨fun S => ?_, .inl ?_⟩ <;> simp [Request.postings, Posting.transitions, Posting.outcomes]
  · refine fun d => (s.fire_posts hm d).mono ?_
    rintro σ l x ⟨status, l', rfl, ⟨-, rfl⟩ | ⟨-, hwrites⟩⟩
    · exact Balanced.nil.counted (fun _ => rfl) rfl
    · exact (hstored hwrites).counted (fun _ => rfl) rfl
  · refine fun asOf recovered due fired => (concludePoll_posts asOf recovered due fired).mono ?_
    rintro σ l x ⟨-, rfl⟩
    exact Balanced.nil.counted (fun _ => rfl) rfl

end Scheduler

/-! ### By worker -/

section

variable {H : Nat → Nat → List Act} {rounds pieces : Nat} {φ : Posting → Int}

/-- The worth of the postings in `H` from round `r` on, for fewer than `rounds` rounds and `pieces` programs. -/
def Task.tally (φ : Posting → Int) (H : Nat → Nat → List Act) (rounds pieces r : Nat) : Int :=
  ∑ r' ∈ Finset.Ico r rounds, ∑ i ∈ Finset.range pieces, Posting.worth φ (Act.allPostings (H r' i))

theorem Task.tally_of_nothing {r : Nat} (h : ∀ r' i, r ≤ r' → H r' i = []) : tally φ H rounds pieces r = 0 := by
  refine Finset.sum_eq_zero fun r' hr' => Finset.sum_eq_zero fun i _ => ?_
  rw [h r' i (Finset.mem_Ico.1 hr').1]
  rfl

variable (hbox : ∀ r i, rounds ≤ r ∨ pieces ≤ i → H r i = [])

include hbox

theorem Task.tally_round {r n : Nat} (hrest : ∀ i, n ≤ i → H r i = []) :
    tally φ H rounds pieces r =
      ∑ i : Fin n, Posting.worth φ (Act.allPostings (H r i)) + tally φ H rounds pieces (r + 1) := by
  have hworth : ∀ {k}, (∀ i, k ≤ i → H r i = []) → ∀ i ≥ k, Posting.worth φ (Act.allPostings (H r i)) = 0 :=
    fun hk i hi => by rw [hk i hi]; rfl
  have hinside : ∀ i, pieces ≤ i → H r i = [] := fun i hi => hbox r i (.inr hi)
  have hround : ∑ i : Fin n, Posting.worth φ (Act.allPostings (H r i)) =
      ∑ i ∈ Finset.range pieces, Posting.worth φ (Act.allPostings (H r i)) := by
    rw [← Finset.sum_range fun i => Posting.worth φ (Act.allPostings (H r i)),
      ← Finset.eventually_constant_sum (hworth hrest) (Nat.le_max_left n pieces),
      Finset.eventually_constant_sum (hworth hinside) (Nat.le_max_right n pieces)]
  rw [hround]
  by_cases hr : r < rounds
  · exact Finset.sum_eq_sum_Ico_succ_bot hr _
  · have hnothing : ∀ r' i, r ≤ r' → H r' i = [] := fun r' i hr' => hbox r' i (.inl (by omega))
    rw [tally_of_nothing hnothing, tally_of_nothing fun r' i hr' => hnothing r' i (by omega),
      Finset.sum_eq_zero fun i _ => by rw [hnothing r i (Nat.le_refl r)]; rfl]
    rfl

end

private theorem sum_count_true (c : Int) {n : Nat} (made : Fin n → Bool) :
    ∑ i, (if made i then c else 0) = c * (List.ofFn made).count true := by
  induction n with
  | zero => simp
  | succ n ih =>
    rw [Fin.sum_univ_succ, ih fun i => made i.succ, List.ofFn_succ, List.count_cons]
    cases made 0
    · simp
    · simp
      ring

/-- The number that a poll has reported. -/
def Report.made : Report → Nat
  | polled (.ok n) => n
  | _ => 0

namespace Scheduler

open Program

variable (s : Scheduler) {H : Nat → Nat → List Act} {rounds pieces r : Nat} {a b c : Int} {m : Manners}
  (hbox : ∀ r i, rounds ≤ r ∨ pieces ≤ i → H r i = []) (hm : m.CarryOn)
  (hmanners : ∀ r i e, .exchanged e ∈ H r i → m.Allows e.request e.answer)

include hbox hm hmanners

private theorem recoverStale_tally {asOf : DateTime} {ends : Nat → Except Failure Nat → Prop}
    (hruns : (s.recoverStale asOf).Runs H ends r) :
    ∃ r' y, ends r' y ∧ Task.tally (Posting.piecework a b c) H rounds pieces r =
      Task.tally (Posting.piecework a b c) H rounds pieces r' := by
  unfold recoverStale at hruns
  split at hruns
  · exact ⟨r, _, hruns, rfl⟩
  simp only [Task.bind_eq, Task.runs_bind, Task.runs_lift] at hruns
  obtain ⟨hrest, x, hlist, hruns⟩ := hruns
  obtain ⟨refused, before, after, hpast⟩ := hlist.of_request
  rw [Task.tally_round hbox hrest, Fin.sum_univ_one, Fin.val_zero, hpast]
  rcases x with e | stale
  · exact ⟨r + 1, _, hruns, by simp [Act.postings, Request.opening, Request.postings]⟩
  simp only [Task.runs_bind, Task.runs_each] at hruns
  obtain ⟨hrest', bs, hpieces, hruns⟩ := hruns
  have hrecovers : ∀ i : Fin stale.length,
      Posting.worth (Posting.piecework a b c) (Act.allPostings (H (r + 1) i)) = a ∧ bs i = .ok () := by
    intro i
    obtain ⟨hx, status, l, hl, hwrites⟩ := (s.recover_posts hm (stale.get i)).of_leaves (hpieces i) (hmanners _ _)
    rw [hl, Posting.worth_cons, hwrites.piecework]
    exact ⟨by simp [Posting.piecework], hx⟩
  rw [collect_ofFn_ok fun i => (hrecovers i).2] at hruns
  refine ⟨r + 2, _, hruns, ?_⟩
  rw [Task.tally_round hbox hrest', Finset.sum_congr rfl fun i _ => (hrecovers i).1]
  simp [Act.postings, Request.opening, Request.postings, Posting.piecework]

variable (hnumbers : ∀ r i asOf limit due refused before after,
  .exchanged ⟨.listDue asOf limit, .ok due, refused, before, after⟩ ∈ H r i → ∀ d ∈ due, d.attempt.number ≠ 0)

include hnumbers

private theorem fireDue_tally {asOf : DateTime} {ends : Nat → Except Failure (Nat × Nat) → Prop}
    (hruns : (s.fireDue asOf).Runs H ends r) :
    ∃ r' y, ends r' y ∧ Task.tally (Posting.piecework a b c) H rounds pieces r =
      c * (y.toOption.elim 0 Prod.snd : Nat) + Task.tally (Posting.piecework a b c) H rounds pieces r' := by
  simp only [fireDue, Task.bind_eq, Task.runs_bind, Task.runs_lift] at hruns
  obtain ⟨hrest, x, hlist, hruns⟩ := hruns
  obtain ⟨refused, before, after, hpast⟩ := hlist.of_request
  rw [Task.tally_round hbox hrest, Fin.sum_univ_one, Fin.val_zero, hpast]
  rcases x with e | due
  · exact ⟨r + 1, _, hruns, by simp [Act.postings, Request.opening, Request.postings, Except.toOption]⟩
  simp only [Task.runs_bind, Task.runs_each] at hruns
  obtain ⟨hrest', bs, hpieces, hruns⟩ := hruns
  have hfires : ∀ i : Fin due.length, ∃ made : Bool, bs i = .ok made ∧
      Posting.worth (Posting.piecework a b c) (Act.allPostings (H (r + 1) i)) = b + if made then c else 0 := by
    intro i
    have hnumber := hnumbers r 0 asOf s.batch due refused before after (hpast ▸ List.mem_cons_self) _
      (List.get_mem due i)
    obtain ⟨status, l, hl, hmade⟩ := (s.fire_posts hm (due.get i)).of_leaves (hpieces i) (hmanners _ _)
    rw [hl, Posting.worth_cons]
    rcases hmade with ⟨hx, rfl⟩ | ⟨hx, hwrites⟩
    · exact ⟨false, hx, by simp [Posting.piecework]⟩
    · refine ⟨true, hx, ?_⟩
      rw [hwrites.piecework]
      simpa [Posting.piecework] using fun h => absurd h hnumber
  choose made hbs hworth using hfires
  rw [collect_ofFn_ok hbs] at hruns
  refine ⟨r + 2, _, hruns, ?_⟩
  rw [Task.tally_round hbox hrest', Finset.sum_congr rfl fun i _ => hworth i, Finset.sum_add_distrib, sum_count_true]
  simp [Act.postings, Request.opening, Request.postings, Posting.piecework, Except.toOption]
  ring

/-- A poll reports the number of created retries, and its counted recoveries and firings are those listed. -/
private theorem pollAt_tally {asOf : DateTime} {ends : Nat → Except Failure Nat → Prop}
    (hruns : (s.pollAt asOf).Runs H ends r) :
    ∃ r' y, ends r' y ∧ Task.tally (Posting.piecework a b c) H rounds pieces r =
      c * (Report.polled y).made + Task.tally (Posting.piecework a b c) H rounds pieces r' := by
  simp only [pollAt, Task.bind_eq, Task.runs_bind] at hruns
  obtain ⟨r₁, x, hruns, htally₁⟩ := s.recoverStale_tally hbox hm hmanners hruns
  rw [htally₁]
  rcases x with e | recovered
  · exact ⟨r₁, _, hruns, by simp [Report.made]⟩
  simp only [Task.runs_bind] at hruns
  obtain ⟨r₂, y, hruns, htally₂⟩ := s.fireDue_tally hbox hm hmanners hnumbers hruns
  rw [htally₂]
  rcases y with e | ⟨due, fired⟩
  · exact ⟨r₂, _, hruns, by simp [Report.made, Except.toOption]⟩
  simp only [Task.runs_lift] at hruns
  obtain ⟨hrest, z, hconclude, hends⟩ := hruns
  obtain ⟨rfl, hl⟩ := (concludePoll_posts asOf recovered due fired).of_leaves hconclude (hmanners _ _)
  refine ⟨r₂ + 1, _, hends, ?_⟩
  rw [Task.tally_round hbox hrest, Fin.sum_univ_one, Fin.val_zero, hl]
  simp [Report.made, Except.toOption, Posting.piecework]

theorem task_tally (op : Operation) {x : Report}
    (hruns : (s.task op).Runs H (fun r y => y = x ∧ ∀ r' i, r ≤ r' → H r' i = []) 0) :
    Task.tally (Posting.piecework a b c) H rounds pieces 0 = c * x.made := by
  have hsingle : ∀ {α : Type} {p : Program α} {f : α → Report}, (∀ y, (f y).made = 0) →
      p.Posts m (fun _ l _ => Posting.worth (Posting.piecework a b c) l = 0) {} [] →
      ((Task.lift p).bind fun y => .done (f y)).Runs H (fun r y => y = x ∧ ∀ r' i, r ≤ r' → H r' i = []) 0 →
      Task.tally (Posting.piecework a b c) H rounds pieces 0 = c * x.made := by
    intro α p f hf hp hruns
    simp only [Task.runs_bind, Task.runs_lift, Task.runs_done] at hruns
    obtain ⟨hrest, y, hleaves, rfl, hnothing⟩ := hruns
    have hworth := hp.of_leaves hleaves (hmanners _ _)
    rw [posts_done] at hworth
    rw [Task.tally_round hbox hrest, Fin.sum_univ_one, Fin.val_zero, hworth, Task.tally_of_nothing hnothing, hf]
    simp
  cases op with
  | submit p =>
    refine hsingle (fun _ => rfl) ((s.submit_posts hm p).mono ?_) hruns
    rintro σ l x (rfl | hwrites)
    · rfl
    · rw [hwrites.piecework]
      rfl
  | record key id result =>
    refine hsingle (fun _ => rfl) ((s.recordOutcome_posts hm key id result {} []).mono ?_) hruns
    rintro σ l x ⟨hwrites, -⟩
    rw [hwrites.piecework]
    rfl
  | poll asOf =>
    simp only [task, Task.runs_bind] at hruns
    have hat : ∀ {asOf r}, (s.pollAt asOf).Runs H (fun r y =>
        (Task.done (Report.polled y)).Runs H (fun r y => y = x ∧ ∀ r' i, r ≤ r' → H r' i = []) r) r →
        Task.tally (Posting.piecework a b c) H rounds pieces r = c * x.made := by
      intro asOf r hruns
      obtain ⟨r', y, ⟨rfl, hnothing⟩, htally⟩ := s.pollAt_tally hbox hm hmanners hnumbers hruns
      rw [htally, Task.tally_of_nothing hnothing, Int.add_zero]
    cases asOf with
    | some t => exact hat hruns
    | none =>
      simp only [polling, Task.bind_eq, Task.runs_bind, Task.runs_lift] at hruns
      obtain ⟨hrest, t, hnow, hruns⟩ := hruns
      obtain ⟨refused, before, after, hpast⟩ := hnow.of_request
      rw [Task.tally_round hbox hrest, Fin.sum_univ_one, Fin.val_zero, hpast, hat hruns]
      simp [Act.postings, Request.opening, Request.postings]

end Scheduler

/-! ### The whole run -/

/-- The worth of the postings of a log is the sum over its workers. -/
theorem Log.worth_eq_tally (φ : Posting → Int) {ks : Finset Nat} {rounds pieces : Nat} {log : Log}
    (hbox : ∀ entry ∈ log, entry.place.worker ∈ ks ∧ entry.place.round < rounds ∧ entry.place.piece < pieces) :
    Posting.worth φ log.postings = ∑ k ∈ ks, Task.tally φ (log.pasts k) rounds pieces 0 := by
  have hplaces : ∀ entry ∈ log, entry.place ∈
      (ks ×ˢ Finset.range rounds ×ˢ Finset.range pieces).image fun q => (⟨q.1, q.2.1, q.2.2⟩ : Place) := by
    intro entry hentry
    obtain ⟨hk, hr, hi⟩ := hbox entry hentry
    exact Finset.mem_image.2 ⟨(_, _, _), by simp [hk, hr, hi], rfl⟩
  rw [worth_eq_sum φ hplaces, Finset.sum_image (by rintro ⟨_, _, _⟩ _ ⟨_, _, _⟩ _ h; simpa using h), Finset.sum_product]
  refine Finset.sum_congr rfl fun k _ => ?_
  rw [Finset.sum_product, Task.tally, Finset.range_eq_Ico]
  rfl

private theorem Log.exists_bounds (log : Log) :
    ∃ rounds pieces, ∀ entry ∈ log, entry.place.round < rounds ∧ entry.place.piece < pieces := by
  induction log with
  | nil => exact ⟨0, 0, by simp⟩
  | cons entry log ih =>
    obtain ⟨rounds, pieces, hlog⟩ := ih
    refine ⟨max rounds (entry.place.round + 1), max pieces (entry.place.piece + 1), ?_⟩
    rintro e (_ | ⟨_, he⟩)
    · omega
    · have := hlog e he
      omega

/-- The number that a worker has reported in a poll. -/
def Activity.made : Activity → Nat
  | finished x => x.made
  | _ => 0

/-- The policy had no date for an outcome that was recorded at `p`. -/
def Log.Overflows (s : Scheduler) (log : Log) (p : Place) : Prop :=
  s.Overflows (log.stage p) (Act.allPostings (log.past p))

/-- The gateway never cancels. -/
def Manners.uncancelled : Manners := .steady fun _ x => ∀ e, x = .error e → e.isCancellation = false

theorem Manners.uncancelled_carryOn : uncancelled.CarryOn := ⟨fun _ he => he, fun _ e he => he e rfl⟩

/-- All workers that have begun something have finished, and none was cancelled. -/
structure System.Ended (σ : System) : Prop where
  finished : ∀ k, σ.workers k = .idle ∨ ∃ x, σ.workers k = .finished x
  uncancelled : ∀ p e, ⟨p, .act (.exchanged e)⟩ ∈ σ.log → Manners.uncancelled.Allows e.request e.answer

/-- The counters of `σ` agree with the store, with the lists of stale and due attempts, with the numbers that polls
have reported, and with each other. -/
structure System.Reconciled (may : Permission) (σ : System) : Prop where
  /-- For each state, the counted transitions are the rows in it. -/
  transitions : ∀ S, S ≠ .pending →
    σ.world.counts.get (.transition S) = σ.world.store.rows.countP (·.state = S)
  /-- The counted firings are the listed due retries. -/
  fired : σ.world.counts.get (.fired .executed) + σ.world.counts.get (.fired .duplicate) +
    σ.world.counts.get (.fired .error) = σ.log.postings.count .due
  /-- The counted recoveries are the listed stale attempts. -/
  recovered : σ.world.counts.get (.recovered .recovered) + σ.world.counts.get (.recovered .raced) +
    σ.world.counts.get (.recovered .error) = σ.log.postings.count .stale
  /-- The sum of the numbers reported by polls is the number of rows above number `1`. -/
  made : ∃ ks : Finset Nat, (∀ k, k ∉ ks → σ.workers k = .idle) ∧
    ∑ k ∈ ks, (σ.workers k).made = σ.world.store.rows.countP (1 < ·.number)
  /-- If no transition has failed except by losing a race, and no date has overflowed, the counted outcomes are the
  counted transitions and lost races. -/
  outcomes : .failed ∉ σ.log.postings → (∀ p s op, may p.worker s op → ¬σ.log.Overflows s p) →
    (Outcome.all.map fun o => σ.world.counts.get (.outcome o)).sum =
      (AttemptState.all.map fun S => σ.world.counts.get (.transition S)).sum + σ.world.counts.get .staleTransition

namespace System.Onward

variable {may : Permission} {w : World} {σ : System} (h : Onward may { world := w } σ)

include h

theorem exists_busy : ∃ ks : Finset Nat, ∀ k, k ∉ ks → σ.workers k = .idle := by
  induction h with
  | refl => exact ⟨∅, fun _ _ => rfl⟩
  | @start σ k s op _ _ _ ih =>
    obtain ⟨ks, hks⟩ := ih
    refine ⟨insert k ks, fun j hj => ?_⟩
    rw [Finset.mem_insert, not_or] at hj
    exact (Function.update_of_ne hj.1 _ _).trans (hks j hj.2)
  | step _ _ hidle _ ih =>
    obtain ⟨ks, hks⟩ := ih
    exact ⟨ks, fun k hk => hidle k (hks k hk)⟩

variable (hended : σ.Ended)

include hended

theorem balanced {p : Place} (hne : σ.log.past p ≠ []) :
    ∃ s op, may p.worker s op ∧ s.Balanced (σ.log.stage p) (Act.allPostings (σ.log.past p)) := by
  rcases hended.finished p.worker with hidle | ⟨x, hx⟩
  · exact absurd (Log.past_eq_nil fun e he hp => (h.reachable .refl).unlogged hidle e he (by rw [hp])) hne
  · have hallows : may.Allows p.worker := h.allows_of_busy (by rw [hx]; exact Activity.noConfusion)
    obtain ⟨s, op, hmay, hruns⟩ := h.runs (may.fresh w) hallows hx
    have hbalanced := s.all_balanced Manners.uncancelled_carryOn op
    obtain ⟨β, q, b, hposts, hleaves⟩ :=
      hruns.along (hbalanced.along (fun _ _ _ _ hq => hq) fun _ _ => trivial) (fun _ _ h => h.2) p.round p.piece
        (Nat.zero_le _) hne
    exact ⟨s, op, hmay, hposts.of_leaves hleaves fun e he => hended.uncancelled _ _ (Log.mem_past.1 he)⟩

/-- A property `Q` of integers that is closed under sums holds of the worth of all postings, if it holds of that of
each place. -/
private theorem worth_of_places (φ : Posting → Int) {Q : Int → Prop} (hzero : Q 0) (hadd : ∀ x y, Q x → Q y → Q (x + y))
    (hplace : ∀ p s op, may p.worker s op → s.Balanced (σ.log.stage p) (Act.allPostings (σ.log.past p)) →
      Q (Posting.worth φ (Act.allPostings (σ.log.past p)))) : Q (Posting.worth φ σ.log.postings) := by
  rw [Log.worth_eq_sum φ fun entry hentry => List.mem_toFinset.2 (List.mem_map_of_mem (f := Entry.place) hentry)]
  refine Finset.sum_induction _ Q hadd hzero fun p _ => ?_
  by_cases hne : σ.log.past p = []
  · rw [hne]
    exact hzero
  · obtain ⟨s, op, hmay, hbalanced⟩ := h.balanced hended hne
    exact hplace p s op hmay hbalanced

theorem worth_transitions (S : AttemptState) : Posting.worth (Posting.transitions S) σ.log.postings = 0 :=
  h.worth_of_places hended _ (Q := (· = 0)) rfl (by omega) fun _ _ _ _ hbalanced => hbalanced.transitions S

theorem worth_outcomes_nonneg : 0 ≤ Posting.worth Posting.outcomes σ.log.postings := by
  refine h.worth_of_places hended _ (Q := (0 ≤ ·)) (Int.le_refl 0) (by omega) fun _ _ _ _ hbalanced => ?_
  rcases hbalanced.outcomes with hzero | ⟨hone, -⟩ <;> omega

theorem worth_outcomes (hdates : ∀ p s op, may p.worker s op → ¬σ.log.Overflows s p) :
    Posting.worth Posting.outcomes σ.log.postings = 0 :=
  h.worth_of_places hended _ (Q := (· = 0)) rfl (by omega) fun p s op hmay hbalanced =>
    hbalanced.outcomes.resolve_right fun hoverflows => hdates p s op hmay hoverflows.2

theorem worth_piecework (hw : w.Unused) {ks : Finset Nat} (hks : ∀ k, k ∉ ks → σ.workers k = .idle) (a b c : Int) :
    Posting.worth (Posting.piecework a b c) σ.log.postings = c * ∑ k ∈ ks, (σ.workers k).made := by
  obtain ⟨rounds, pieces, hbounds⟩ := σ.log.exists_bounds
  have hunlogged : ∀ k, σ.workers k = .idle → ∀ entry ∈ σ.log, entry.place.worker ≠ k :=
    fun k => (h.reachable .refl).unlogged
  rw [Log.worth_eq_tally _ fun entry hentry =>
    ⟨by_contra fun hk => hunlogged _ (hks _ hk) entry hentry rfl, hbounds entry hentry⟩, Nat.cast_sum, Finset.mul_sum]
  refine Finset.sum_congr rfl fun k _ => ?_
  rcases hended.finished k with hidle | ⟨x, hx⟩
  · have hnothing : ∀ r i, 0 ≤ r → σ.log.pasts k r i = [] := fun r i _ =>
      Log.past_eq_nil fun e he hp => hunlogged k hidle e he (by rw [hp])
    rw [Task.tally_of_nothing hnothing, hidle]
    simp [Activity.made]
  · obtain ⟨s, op, -, hruns⟩ := h.runs (may.fresh w) (h.allows_of_busy (by rw [hx]; exact Activity.noConfusion)) hx
    rw [hx]
    have hmanners : ∀ r i e, .exchanged e ∈ σ.log.pasts k r i → Manners.uncancelled.Allows e.request e.answer :=
      fun r i e he => hended.uncancelled _ _ (Log.mem_past.1 he)
    refine s.task_tally ?_ Manners.uncancelled_carryOn hmanners ?_ op hruns
    · refine fun r i hri => Log.past_eq_nil fun e he hp => ?_
      obtain ⟨hr, hi⟩ := hbounds e he
      rw [hp] at hr hi
      exact hri.elim (Nat.not_le.2 hr) (Nat.not_le.2 hi)
    · intro r i asOf limit due refused before after hmem d hd
      have hlisted := (((h.reachable .refl).log_sound hw).exchanges _ _ (Log.mem_past.1 hmem))
      obtain ⟨-, ⟨f, hf⟩ | hdue⟩ := hlisted.effect
      · cases hf
      · rw [Except.ok.inj hdue] at hd
        have hpos := (Store.mem_numbersTo.1 (hlisted.sequenced.number_mem (Store.mem_dueRetries hd).1)).1
        omega

omit hended in
theorem counts_eq (hw : w.Unused) (hcounts : ∀ metric, w.counts.get metric = 0) (metric : Metric) :
    σ.world.counts.get metric = σ.log.postings.count (.counted metric) := by
  rw [((h.reachable .refl).orderly Scheduler.conduct_observed).counts_eq hw metric, hcounts, Nat.zero_add]

/-- The counters agree with the store.  Let all work begun on an empty store with all counters at zero have ended, none
of it cancelled.  However the workers took turns and whichever store calls failed, the five sums of `System.Reconciled`
hold. -/
theorem reconciled (hw : w.Unused) (hcounts : ∀ metric, w.counts.get metric = 0) : σ.Reconciled may := by
  have horderly := (h.reachable .refl).orderly Scheduler.conduct_observed
  have hcounted := h.counts_eq hw hcounts
  obtain ⟨ks, hks⟩ := h.exists_busy
  have hpiecework := h.worth_piecework hended hw hks
  simp only [Posting.worth_piecework] at hpiecework
  constructor
  case transitions =>
    intro S hS
    have hbalance := h.worth_transitions hended S
    rw [Posting.worth_transitions] at hbalance
    rw [hcounted, horderly.countP_state hw hS]
    omega
  case fired =>
    have hfired := hpiecework 0 1 0
    simp only [hcounted]
    omega
  case recovered =>
    have hrecovered := hpiecework 1 0 0
    simp only [hcounted]
    omega
  case made =>
    have hmade := hpiecework 0 0 1
    refine ⟨ks, hks, ?_⟩
    rw [horderly.countP_retries hw]
    omega
  case outcomes =>
    intro hfailed hdates
    have hbalance := h.worth_outcomes hended hdates
    rw [Posting.worth_outcomes, List.count_eq_zero.2 hfailed] at hbalance
    simp only [hcounted]
    omega

end System.Onward

/-! ### A payment that is retried once -/

namespace Sample

/-- One worker has submitted the payment to a gateway that declines the first charge, another one has retried it. -/
private theorem ended_retried :
    ∃ σ, System.Onward submitsOrPolls { world := world } σ ∧ σ.world = retried ∧ σ.Ended := by
  have hserved : ∀ k number piece, ∃ during,
      Replies gateway (Log.All (Entry.Served (fun _ x => ∃ result, x = .ok result) k world.now)) during
        (fun w => w.Still ∧ w.now = world.now) ⟨k, number, piece⟩ :=
    fun k number piece => ⟨_, Replies.served (fun _ _ => ⟨_, rfl⟩) world.now ⟨k, number, piece⟩⟩
  have hsubmits : submitsOrPolls 0 scheduler (.submit submission) := ⟨rfl, .inl rfl⟩
  have hpolls : submitsOrPolls 1 scheduler (.poll none) := ⟨rfl, .inr rfl⟩
  have hfirst : System.Onward submitsOrPolls { world := world } { world := world } := .refl
  obtain ⟨⟨new, hsubmitted, hnew⟩, hstill⟩ := Solo.task (System.Onward.keptBy ⟨_, _, hsubmits⟩) (hserved 0)
    (hfirst.begin rfl hsubmits .nil) ⟨⟨rfl, rfl⟩, rfl⟩
  obtain ⟨⟨new', hretried, hnew'⟩, -⟩ := Solo.task (System.Onward.keptBy ⟨_, _, hpolls⟩) (hserved 1)
    (hsubmitted.begin rfl hpolls .nil) hstill
  refine ⟨_, hretried, rfl, System.rest_update (System.rest_update (fun _ => .inl rfl) 0 _) 1 _, fun p e hmem => ?_⟩
  have hanswered : e.refused = false ∧
      ∀ c x refused before after, e = ⟨.charge c, x, refused, before, after⟩ → ∃ result, x = .ok result := by
    rcases List.mem_append.1 hmem with hmem | hmem
    · obtain ⟨hgranted, -, hanswer⟩ := (hnew' _ hmem).2 e rfl
      exact ⟨hgranted, hanswer⟩
    · rw [List.append_nil] at hmem
      obtain ⟨hgranted, -, hanswer⟩ := (hnew _ hmem).2 e rfl
      exact ⟨hgranted, hanswer⟩
  refine (((hretried.reachable .refl).log_sound ⟨rfl, rfl⟩).exchanges p e hmem).allowed hanswered.1 ?_
  rintro c x refused before after heq f rfl
  obtain ⟨result, hresult⟩ := hanswered.2 c _ refused before after heq
  cases hresult

private theorem dates_fit (outcome : Outcome) (number : Int) (t : DateTime) :
    scheduler.policy.DateFits outcome number t := by
  have hin : (t.micros : Int) < (calendarDays * Duration.day : Nat) := by exact_mod_cast t.inCalendar
  refine RetryPolicy.dateFits_of_build rfl (fun n hn => ?_) ?_ outcome number
  · obtain rfl : n = 0 := List.mem_singleton.1 hn
    rwa [Int.zero_mul, Int.add_zero]
  · rwa [show scheduler.policy.pluginDelay.micros = 0 from rfl, Int.add_zero]

end Sample

/-- A payment is declined and then retried by a poll. -/
theorem reconciled_of_retry : ∃ σ, System.Onward Sample.submitsOrPolls { world := Sample.world } σ ∧
    σ.Reconciled Sample.submitsOrPolls ∧
    (σ.world.counts.get (.transition .retried) = 1 ∧ σ.world.counts.get (.transition .success) = 1 ∧
      σ.world.counts.get (.fired .executed) = 1 ∧ σ.world.store.rows.countP (1 < ·.number) = 1) ∧
    .failed ∉ σ.log.postings ∧ ∀ p s op, Sample.submitsOrPolls p.worker s op → ¬σ.log.Overflows s p := by
  obtain ⟨σ, h, hworld, hended⟩ := Sample.ended_retried
  have hcounts : ∀ metric, Sample.world.counts.get metric = 0 := fun _ => rfl
  refine ⟨σ, h, h.reconciled hended ⟨rfl, rfl⟩ hcounts, ?_, ?_, ?_⟩
  · rw [hworld]
    decide +kernel
  · -- as much has come of the outcomes as was taken down
    have hall : (Outcome.all.map fun o => Sample.retried.counts.get (.outcome o)).sum =
        (AttemptState.all.map fun S => Sample.retried.counts.get (.transition S)).sum +
          Sample.retried.counts.get .staleTransition := by decide +kernel
    have hnonneg := h.worth_outcomes_nonneg hended
    rw [Posting.worth_outcomes] at hnonneg
    rw [← hworld] at hall
    simp only [h.counts_eq ⟨rfl, rfl⟩ hcounts] at hall
    rw [← List.count_eq_zero]
    omega
  · rintro p s op ⟨rfl, -⟩ ⟨result, id, b, r, -, -, hgives⟩
    obtain ⟨t, hruling⟩ := hgives.exists_ruling
    obtain ⟨target, change, hruled⟩ := (Sample.dates_fit result.outcome b.number t).exists_ruling
    cases hruled.symm.trans hruling

end PaymentRetry
