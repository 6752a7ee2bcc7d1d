import Mathlib.Algebra.BigOperators.Group.Finset.Piecewise
import Mathlib.Algebra.Ring.Int.Defs
import PaymentRetry.Proofs.Workers.Polling

/-!
# The books of a run

Whatever is counted, stored, moved or listed is a `Posting`.  The postings of a log say what the counters and the rows
are: that is shown once for any quantity that every exchange changes by the worth of what it posts (`Orderly.tally`).

A log is a shuffle of what has been done at its places, so what its postings are worth is the sum of what those of its
places are worth (`Log.worth_eq_sum`).
-/

namespace PaymentRetry

open Simulation

/-! ### Postings -/

/-- A change that the counters are compared with: a counter, a row created or moved, an item listed, or a transition
that failed although no other worker had moved the row. -/
inductive Posting where
  | counted (m : Metric)
  | stored (number : Option Int)
  | moved (target : AttemptState)
  | failed
  | due
  | stale
  deriving DecidableEq

/-- The posting is a row created with a number other than `1`. -/
def Posting.isRetry : Posting → Bool
  | stored number => number ≠ some 1
  | _ => false

/-- The postings of a request, given its answer. -/
def Request.postings : (r : Request) → r.Answer → List Posting
  | .count m, _ => [.counted m]
  | .create d, .ok _ => [.stored d.number]
  | .transition _ _ target _, .ok _ => [.moved target]
  | .transition .., .error (.staleState ..) => []
  | .transition .., .error _ => [.failed]
  | .listDue .., .ok due => .replicate due.length .due
  | .listStale .., .ok stale => .replicate stale.length .stale
  | _, _ => []

def Act.postings : Act → List Posting
  | .asked _ => []
  | .exchanged e => e.request.postings e.answer

/-- The postings of acts, the latest first. -/
def Act.allPostings (h : List Act) : List Posting := h.flatMap postings

/-- The postings of a log, the latest first. -/
def Log.postings : Log → List Posting
  | [] => []
  | ⟨_, .act a⟩ :: log => a.postings ++ postings log
  | _ :: log => postings log

/-- The sum of `φ` over postings. -/
def Posting.worth (φ : Posting → Int) (l : List Posting) : Int := (l.map φ).sum

section

variable (φ : Posting → Int)

@[simp]
theorem Posting.worth_nil : worth φ [] = 0 := rfl

@[simp]
theorem Posting.worth_cons (x : Posting) (l : List Posting) : worth φ (x :: l) = φ x + worth φ l := by
  simp [worth]

@[simp]
theorem Posting.worth_append (l l' : List Posting) : worth φ (l ++ l') = worth φ l + worth φ l' := by
  simp [worth]

@[simp]
theorem Posting.worth_replicate (n : Nat) (x : Posting) : worth φ (.replicate n x) = n * φ x := by
  simp [worth]

theorem Posting.worth_ite (p : Posting → Bool) (l : List Posting) :
    worth (fun x => if p x then 1 else 0) l = l.countP p := by
  induction l with
  | nil => rfl
  | cons x l ih =>
    rw [worth_cons, ih, List.countP_cons]
    cases p x <;> simp [Int.add_comm]

@[simp]
theorem Act.allPostings_nil : allPostings [] = [] := rfl

@[simp]
theorem Act.allPostings_cons (a : Act) (h : List Act) : allPostings (a :: h) = a.postings ++ allPostings h := by
  simp [allPostings]

end

/-- The worth of the postings of a log is the sum over its places. -/
theorem Log.worth_eq_sum (φ : Posting → Int) {places : Finset Place} {log : Log}
    (h : ∀ entry ∈ log, entry.place ∈ places) :
    Posting.worth φ log.postings = ∑ p ∈ places, Posting.worth φ (Act.allPostings (log.past p)) := by
  induction log with
  | nil => simp [postings, past]
  | cons entry log ih =>
    obtain ⟨q, event⟩ := entry
    have hq : q ∈ places := h _ List.mem_cons_self
    replace ih := ih fun e he => h e (List.mem_cons_of_mem _ he)
    cases event with
    | act a =>
      -- only the place of the act has anything new
      have hnew : ∀ p, Posting.worth φ (Act.allPostings (past p (⟨q, .act a⟩ :: log))) =
          (if p = q then Posting.worth φ a.postings else 0) + Posting.worth φ (Act.allPostings (past p log)) := by
        intro p
        by_cases hp : p = q
        · subst hp
          simp
        · rw [past_cons_of_ne (Ne.symm hp)]
          simp [hp]
      simp only [hnew, Finset.sum_add_distrib, Finset.sum_ite_eq', hq, if_true, ← ih, postings, Posting.worth_append]
    | entered call => exact ih
    | left call own x => exact ih
    | ended => exact ih

/-! ### Counters and rows -/

private theorem Request.count_counted {r : Request} (hcount : ∀ m, r ≠ .count m) (x : r.Answer) (m : Metric) :
    (r.postings x).count (.counted m) = 0 := by
  rw [List.count_eq_zero]
  unfold postings
  split
  · exact absurd rfl (hcount _)
  all_goals simp

/-- An exchange changes a counter by the number of its `counted` postings. -/
theorem Exchange.Sound.counts {e : Exchange} {s : Store} (h : e.Sound s) (m : Metric) :
    e.after.counts.get m = e.before.counts.get m + (e.request.postings e.answer).count (.counted m) := by
  have hhappens := h.happens
  have hw := h.undisturbed
  obtain ⟨r, x, refused, before, after⟩ := e
  simp only [Exchange.Happens] at hhappens hw ⊢
  by_cases hcount : ∃ m', r = .count m'
  · obtain ⟨m', rfl⟩ := hcount
    cases refused with
    | true => simp [Request.refusal?] at hhappens
    | false =>
      obtain ⟨rfl, rfl⟩ : x = () ∧ { before with counts := before.counts.increment m' } = after :=
        Prod.mk.inj hhappens
      simp [Counts.get_increment, Request.postings, List.count_singleton]
  · simp only [not_exists] at hcount
    rw [Request.count_counted hcount, Nat.add_zero]
    cases refused with
    | true =>
      obtain ⟨rfl, -⟩ := hhappens
      rfl
    | false =>
      by_cases hcharge : ∃ c, r = .charge c
      · obtain ⟨c, rfl⟩ := hcharge
        obtain rfl : after = before := hhappens
        rfl
      by_cases hpublish : ∃ c, r = .publish c
      · obtain ⟨c, rfl⟩ := hpublish
        obtain ⟨rfl, -⟩ := hhappens
        rfl
      simp only [not_exists] at hcharge hpublish
      have hcounts := (World.answer_frame hw hcharge hpublish).2.2 hcount
      cases r
      case charge c => exact absurd rfl (hcharge c)
      case publish c => exact absurd rfl (hpublish c)
      all_goals
        rw [show before.answer _ = (x, after) from hhappens] at hcounts
        rw [hcounts]

/-- The effect of an exchange on the rows, with its postings. -/
inductive Exchange.Books (e : Exchange) : Prop
  | kept : e.after.store.rows = e.before.store.rows → (∀ n, .stored n ∉ e.request.postings e.answer) →
      (∀ S, .moved S ∉ e.request.postings e.answer) → Books e
  | stored {a : Attempt} : e.after.store.rows = e.before.store.rows ++ [a] → a.state = .pending →
      e.request.postings e.answer = [.stored (some a.number)] → Books e
  | moved {before after : List Attempt} {a b : Attempt} : e.before.store.rows = before ++ a :: after →
      e.after.store.rows = before ++ b :: after → a.state = .pending → b.state ≠ .pending → b.number = a.number →
      e.request.postings e.answer = [.moved b.state] → Books e

theorem Exchange.Sound.books {e : Exchange} {s : Store} (h : e.Sound s)
    (hopens : ∀ d, e.request = .create d → d.state = .pending) : e.Books := by
  have heffect := h.effect
  have hsettles := h.settles
  have hdistinct := h.sequenced.distinct
  obtain ⟨r, x, refused, before, after⟩ := e
  cases r
  case create d =>
    rcases heffect with ⟨f, rfl, heq⟩ | ⟨a, now, rfl, hinsert⟩
    · exact .kept (congrArg Store.rows heq) (by simp [Request.postings]) (by simp [Request.postings])
    · obtain ⟨hcomplete, -, -, hrows⟩ := Store.insert_eq_ok hinsert
      obtain ⟨-, -, hnumber, -, hstate, -⟩ := Store.complete?_eq_some hcomplete
      refine .stored hrows (hstate.trans (hopens d rfl)) ?_
      rw [Request.postings, hnumber]
      rfl
  case transition id source target change =>
    obtain ⟨rfl, htarget⟩ := hsettles
    rcases heffect with ⟨f, rfl, heq⟩ | ⟨a, now, rfl, hmove, -⟩
    · refine .kept (congrArg Store.rows heq) ?_ ?_ <;> cases f <;> simp [Request.postings]
    · obtain ⟨l, a, l', hrows, -, hpending, hrows'⟩ := Store.move?_eq_some hdistinct hmove
      exact .moved hrows hrows' hpending htarget rfl rfl
  case listDue asOf limit =>
    refine .kept (congrArg Store.rows heffect.1) ?_ ?_ <;> cases x <;> simp [Request.postings]
  case listStale olderThan limit =>
    refine .kept (congrArg Store.rows heffect) ?_ ?_ <;> cases x <;> simp [Request.postings]
  case get id => exact .kept (congrArg Store.rows heffect.1) (by simp [Request.postings]) (by simp [Request.postings])
  all_goals exact .kept (congrArg Store.rows heffect) (by simp [Request.postings]) (by simp [Request.postings])

/-- If every exchange changes `f` by the worth of its postings, and nothing else changes `f`, then a run changes `f` by
the worth of its postings. -/
theorem Orderly.tally {w₀ w : World} {log : Log} (hw₀ : w₀.Unused) (h : Orderly Scheduler.conduct w₀ log w)
    {f : World → Int} {φ : Posting → Int} (hclock : ∀ w t, f { w with now := t } = f w)
    (hcharged : ∀ w c, f (w.charged c) = f w)
    (hexchange : ∀ (e : Exchange) (s : Store), e.Sound s → e.Books →
      f e.after = f e.before + Posting.worth φ (e.request.postings e.answer)) :
    f w = f w₀ + Posting.worth φ log.postings := by
  induction h with
  | nil => simp [Log.postings]
  | @clock log w t _ ih => rw [hclock, ih]
  | asked _ _ _ _ ih => rw [hcharged, ih, Log.postings, Act.postings, List.nil_append]
  | answered _ _ _ ih =>
    rw [ih, Log.postings, Act.postings, Request.postings, List.nil_append]
    all_goals simp
  | @exchanged log p e hlog _ _ _ hasks he ih =>
    have hsound := ((hlog.sound hw₀).exchange hasks he).1
    have hopens : ∀ d, e.request = .create d → d.state = .pending := by
      intro d hd
      rw [hd] at hasks
      exact hasks.2.1.pending
    rw [hexchange e _ hsound (hsound.books hopens), ih, Log.postings, Act.postings, Posting.worth_append]
    omega
  | entered _ ih => exact ih
  | left _ _ _ ih => exact ih
  | ended _ _ _ ih => exact ih

section

variable {w₀ w : World} {log : Log} (hw₀ : w₀.Unused) (h : Orderly Scheduler.conduct w₀ log w)

include hw₀ h

/-- A counter is the number of its `counted` postings. -/
theorem Orderly.counts_eq (m : Metric) :
    w.counts.get m = w₀.counts.get m + log.postings.count (.counted m) := by
  have htally := h.tally hw₀ (f := fun w => w.counts.get m) (φ := fun x => if x == .counted m then 1 else 0)
    (fun _ _ => rfl) (fun _ _ => rfl) fun e s hsound _ => by
      rw [hsound.counts m, Posting.worth_ite]
      rfl
  rw [Posting.worth_ite] at htally
  exact_mod_cast htally

/-- If each exchange changes the number of rows with `p` by that of its postings with `q`, the numbers are equal after
a run. -/
theorem Orderly.countP_rows {p : Attempt → Bool} {q : Posting → Bool}
    (hbooks : ∀ e : Exchange, e.Books →
      e.after.store.rows.countP p = e.before.store.rows.countP p + (e.request.postings e.answer).countP q) :
    w.store.rows.countP p = log.postings.countP q := by
  have htally := h.tally hw₀ (f := fun w => w.store.rows.countP p) (φ := fun x => if q x then 1 else 0)
    (fun _ _ => rfl) (fun _ _ => rfl) fun e s _ he => by
      rw [hbooks e he, Posting.worth_ite]
      rfl
  rw [Posting.worth_ite, hw₀.empty, List.countP_nil, Int.natCast_zero, Int.zero_add] at htally
  exact_mod_cast htally

/-- The rows in the state `S` are as many as the moves to `S`. -/
theorem Orderly.countP_state {S : AttemptState} (hS : S ≠ .pending) :
    w.store.rows.countP (·.state = S) = log.postings.count (.moved S) := by
  refine h.countP_rows hw₀ fun e he => ?_
  cases he with
  | kept hrows _ hmoved =>
    have hnone : (e.request.postings e.answer).count (.moved S) = 0 := List.count_eq_zero.2 (hmoved S)
    rw [hrows, show (e.request.postings e.answer).countP _ = 0 from hnone, Nat.add_zero]
  | stored hrows hpending hpostings => simp [hrows, hpostings, hpending, Ne.symm hS]
  | moved hrows hrows' hpending _ _ hpostings =>
    simp [hrows, hrows', hpostings, hpending, Ne.symm hS, List.countP_cons]
    omega

/-- The rows with a number above `1` are as many as the retries created. -/
theorem Orderly.countP_retries : w.store.rows.countP (1 < ·.number) = log.postings.countP Posting.isRetry := by
  have hone : ∀ a ∈ w.store.rows, (decide (1 < a.number) = true ↔ decide (a.number ≠ 1) = true) := by
    intro a ha
    have hpos := (Store.mem_numbersTo.1 ((h.sound hw₀).sequenced.number_mem ha)).1
    simp only [decide_eq_true_eq]
    omega
  rw [List.countP_congr hone]
  refine h.countP_rows hw₀ fun e he => ?_
  cases he with
  | kept hrows hstored _ =>
    have hnone : (e.request.postings e.answer).countP Posting.isRetry = 0 := by
      rw [List.countP_eq_zero]
      rintro (_ | n | _ | _ | _ | _) hmem
      case stored => exact absurd hmem (hstored n)
      all_goals simp [Posting.isRetry]
    rw [hrows, hnone, Nat.add_zero]
  | stored hrows _ hpostings => simp [hrows, hpostings, Posting.isRetry]
  | moved hrows hrows' _ _ hnumber hpostings =>
    simp [hrows, hrows', hpostings, hnumber, Posting.isRetry, List.countP_cons]

end

end PaymentRetry
