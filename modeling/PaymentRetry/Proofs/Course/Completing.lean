import Mathlib.Data.List.GetD
import Mathlib.Tactic.ByContra
import PaymentRetry.Scheduler

/-!
# Completing an attempt

A policy that was accepted retries nothing before its time (`RetryPolicy.wait_nonneg`), but it may ask for a delay that
leads out of the calendar (`RetryPolicy.delay_of_le`).

When an attempt is completed, the policy rules what state it moves to and what is written into it
(`RetryPolicy.ruling`, `RetryPolicy.Rules`).  There are three ways to complete an attempt, but each carries out the
ruling in the same manner: it asks for one transition, or for nothing if there is no ruling (`Scheduler.Enacts`).  The
clock is read only for a retry (`Scheduler.complete_enacts`).  So what is to be shown of `Scheduler.complete` is shown
of any program that carries out a ruling.
-/

namespace PaymentRetry

/-! ### Delays -/

theorem DateTime.exists_add_iff {t : DateTime} {d : Duration} :
    (∃ u, t.add d = .ok u) ↔ 0 ≤ t.micros + d.micros ∧ t.micros + d.micros < (calendarDays * Duration.day : Nat) := by
  unfold add ofMicros?
  by_cases hin : 0 ≤ t.micros + d.micros ∧ t.micros + d.micros < (calendarDays * Duration.day : Nat)
  · rw [dif_pos hin]
    exact ⟨fun _ => hin, fun _ => ⟨_, rfl⟩⟩
  · rw [dif_neg hin]
    simp only [reduceCtorEq, exists_false, hin]

theorem Duration.ofDays_eq (n : Int) :
    ofDays (.whole n) = .ok ⟨n * day⟩ ∨ (∃ e, ofDays (.whole n) = .error e) ∧ (n < -maxDays ∨ maxDays < n) := by
  have hdays : Int.fdiv (n * day) day = n := Int.mul_fdiv_cancel n (by decide)
  have hword : maxDays < Nat.pow 2 31 := by decide
  unfold ofDays scaledMicros
  simp only [bind, Except.bind, ofMicros, hdays, Bool.or_eq_true, decide_eq_true_eq]
  split
  · exact .inr ⟨⟨_, rfl⟩, by omega⟩
  · split
    · exact .inr ⟨⟨_, rfl⟩, by omega⟩
    · exact .inl rfl

namespace RetryPolicy

/-- How long `p` puts off what follows the failed attempt `number`, in microseconds. -/
def wait (p : RetryPolicy) (number : Int) : FailureType → Int
  | .business => p.days.getD (number - 1).toNat 0 * Duration.day
  | .plugin => p.pluginDelay.micros

variable {p : RetryPolicy} {days : List Int} {maximum : Int} {delay : Duration}

theorem eq_of_build (h : build days maximum delay = .ok p) :
    p = ⟨days, maximum, delay⟩ ∧ (∀ n ∈ days, 0 ≤ n) ∧ 0 ≤ delay.micros := by
  unfold build at h
  split at h
  · cases h
  · split at h
    · cases h
    · rename_i hdays
      split at h
      · cases h
      · refine ⟨(Except.ok.inj h).symm, fun n hn => ?_, by omega⟩
        by_contra hneg
        exact hdays (List.any_eq_true.2 ⟨n, hn, by simpa using hneg⟩)

theorem wait_nonneg (h : build days maximum delay = .ok p) (number : Int) (type : FailureType) :
    0 ≤ p.wait number type := by
  obtain ⟨rfl, hdays, hdelay⟩ := eq_of_build h
  cases type with
  | business =>
    refine Int.mul_nonneg ?_ (by decide)
    show 0 ≤ days.getD (number - 1).toNat 0
    by_cases hin : (number - 1).toNat < days.length
    · rw [List.getD_eq_getElem _ _ hin]
      exact hdays _ (List.getElem_mem hin)
    · exact Int.le_of_eq (List.getD_eq_default _ _ (Nat.le_of_not_lt hin)).symm
  | plugin => exact hdelay

theorem wait_mem {number : Int} {type : FailureType} (hnumber : 1 ≤ number) (hle : number ≤ p.maxAttempts type) :
    (∃ n ∈ p.days, p.wait number type = n * Duration.day) ∨ p.wait number type = p.pluginDelay.micros := by
  cases type with
  | plugin => exact .inr rfl
  | business =>
    have hin : (number - 1).toNat < p.days.length := by
      have hlength : number ≤ p.days.length := hle
      omega
    refine .inl ⟨_, List.getElem_mem hin, ?_⟩
    simp only [wait, List.getD_eq_getElem _ _ hin]

/-- The delay of a retry is an error only if it is too long for the calendar. -/
theorem delay_of_le {type : FailureType} {number : Int} (hnumber : 1 ≤ number) (hle : number ≤ p.maxAttempts type)
    (hnonneg : 0 ≤ p.wait number type) : p.delay type (number - 1) = .ok (some ⟨p.wait number type⟩) ∨
      (∃ e, p.delay type (number - 1) = .error e) ∧ (calendarDays * Duration.day : Nat) ≤ p.wait number type := by
  have hend : (decide (number - 1 < 0) || decide (p.maxAttempts type ≤ number - 1)) = false := by
    simp only [Bool.or_eq_false_iff, decide_eq_false_iff_not]
    omega
  unfold RetryPolicy.delay
  simp only [hend, Bool.false_eq_true, if_false]
  cases type with
  | plugin => exact .inl rfl
  | business =>
    simp only [wait] at hnonneg ⊢
    rcases Duration.ofDays_eq (p.days.getD (number - 1).toNat 0) with heq | ⟨⟨e, he⟩, hlarge⟩
    · rw [heq]
      exact .inl rfl
    · rw [he]
      refine .inr ⟨⟨e, rfl⟩, ?_⟩
      generalize p.days.getD (number - 1).toNat 0 = n at hnonneg hlarge
      simp only [Duration.day, Duration.second, Duration.maxDays, calendarDays] at *
      omega

theorem delay_eq_some {type : FailureType} {index : Int} (h : p.delay type index = .ok (some delay)) :
    0 ≤ index ∧ index < p.maxAttempts type ∧ delay = ⟨p.wait (index + 1) type⟩ := by
  unfold RetryPolicy.delay at h
  split at h
  · cases h
  rename_i hend
  simp only [Bool.or_eq_true, decide_eq_true_eq, not_or, Int.not_lt, Int.not_le] at hend
  refine ⟨hend.1, hend.2, ?_⟩
  cases type with
  | plugin => exact (Option.some.inj (Except.ok.inj h)).symm
  | business =>
    simp only [wait, Int.add_sub_cancel]
    rcases Duration.ofDays_eq (p.days.getD index.toNat 0) with heq | ⟨⟨e, he⟩, -⟩
    · rw [heq] at h
      exact (Option.some.inj (Except.ok.inj h)).symm
    · rw [he] at h
      cases h

theorem delay_eq_none_iff {type : FailureType} {number : Int} :
    p.delay type (number - 1) = .ok none ↔ ¬(1 ≤ number ∧ number ≤ p.maxAttempts type) := by
  unfold RetryPolicy.delay
  split
  · rename_i hend
    simp only [Bool.or_eq_true, decide_eq_true_eq] at hend
    exact ⟨fun _ => by omega, fun _ => rfl⟩
  · rename_i hend
    simp only [Bool.or_eq_true, decide_eq_true_eq] at hend
    refine ⟨fun h => ?_, fun h => by omega⟩
    cases type with
    | plugin => cases h
    | business =>
      simp only at h
      rcases Duration.ofDays_eq (p.days.getD (number - 1).toNat 0) with heq | ⟨⟨e, he⟩, -⟩
      · rw [heq] at h
        cases h
      · rw [he] at h
        cases h

theorem delay_eq_ok {type : FailureType} {number : Int} (hnumber : 1 ≤ number) {delay : Option Duration}
    (h : p.delay type (number - 1) = .ok delay) : delay.isSome = true ↔ number ≤ p.maxAttempts type := by
  cases delay with
  | none =>
    have hend := delay_eq_none_iff.1 h
    simp only [Option.isSome_none, Bool.false_eq_true, false_iff]
    omega
  | some d =>
    have hlt := (delay_eq_some h).2.1
    simp only [Option.isSome_some, true_iff]
    omega

theorem delay_nonneg (h : build days maximum delay = .ok p) {type : FailureType} {index : Int} {d : Duration}
    (hdelay : p.delay type index = .ok (some d)) : 0 ≤ d.micros := by
  obtain ⟨-, -, rfl⟩ := delay_eq_some hdelay
  exact wait_nonneg h (index + 1) type

end RetryPolicy

/-! ### Rulings -/

namespace RetryPolicy

/-- What `p` makes of `result` for the attempt `number` at `now`: the state it moves to, and what is written into it. -/
def ruling (p : RetryPolicy) (result : GatewayResult) (number : Int) (now : DateTime) :
    Except RangeError (AttemptState × Change) :=
  match result.outcome.failureType with
  | none => .ok (.success, {})
  | some type =>
    match p.delay type (number - 1) with
    | .error e => .error e
    | .ok none => .ok (.aborted, { failureType := some (some type), message := some result.message })
    | .ok (some delay) =>
      match now.add delay with
      | .error e => .error e
      | .ok due =>
        .ok (.retried, { failureType := some (some type), message := some result.message, dueAt := some (some due) })

/-- Whether `y` is the ruling of `p` at the time that `clock` holds, or at any time. -/
def Gives (p : RetryPolicy) (result : GatewayResult) (number : Int) (clock : Option DateTime)
    (y : Except RangeError (AttemptState × Change)) : Prop :=
  (∃ t, clock = some t ∧ p.ruling result number t = y) ∨ ∀ t, p.ruling result number t = y

/-- Whether `p` wants the attempt `number` to be retried after `delay`, because of a failure of the kind `type`. -/
def Waits (p : RetryPolicy) (result : GatewayResult) (number : Int) (type : FailureType) (delay : Duration) : Prop :=
  result.outcome.failureType = some type ∧ p.delay type (number - 1) = .ok (some delay)

/-- The ways in which `p` may rule on `result` at `now`. -/
inductive Rules (p : RetryPolicy) (result : GatewayResult) (number : Int) (now : DateTime) :
    AttemptState → Change → Prop
  | success : result.outcome.failureType = none → Rules p result number now .success {}
  | aborted {type : FailureType} : result.outcome.failureType = some type → p.delay type (number - 1) = .ok none →
      Rules p result number now .aborted { failureType := some (some type), message := some result.message }
  | retried {type : FailureType} {delay : Duration} {due : DateTime} : p.Waits result number type delay →
      now.add delay = .ok due →
      Rules p result number now .retried
        { failureType := some (some type), message := some result.message, dueAt := some (some due) }

variable {p : RetryPolicy} {result : GatewayResult} {number : Int} {now : DateTime} {target : AttemptState}
  {change : Change}

theorem Gives.exists_ruling {clock : Option DateTime} {y : Except RangeError (AttemptState × Change)}
    (h : p.Gives result number clock y) : ∃ t, p.ruling result number t = y := by
  rcases h with ⟨t, -, h⟩ | h
  · exact ⟨t, h⟩
  · exact ⟨default, h default⟩

theorem ruling_of_waits {type : FailureType} {delay : Duration} (h : p.Waits result number type delay) :
    p.ruling result number now = (now.add delay).map fun due =>
      (.retried, { failureType := some (some type), message := some result.message, dueAt := some (some due) }) := by
  simp only [ruling, h.1, h.2]
  cases now.add delay <;> rfl

theorem ruling_of_not_waits (h : ∀ type delay, ¬p.Waits result number type delay) (t : DateTime) :
    p.ruling result number now = p.ruling result number t := by
  unfold ruling
  split
  · rfl
  · rename_i type htype
    split
    · rfl
    · rfl
    · rename_i delay hdelay
      exact absurd ⟨htype, hdelay⟩ (h type delay)

theorem rules_of_ruling (h : p.ruling result number now = .ok (target, change)) :
    p.Rules result number now target change := by
  unfold ruling at h
  split at h
  · rename_i hsuccess
    cases h
    exact .success hsuccess
  · rename_i type htype
    split at h
    · cases h
    · rename_i hdelay
      cases h
      exact .aborted htype hdelay
    · rename_i delay hdelay
      split at h
      · cases h
      · rename_i due hdue
        cases h
        exact .retried ⟨htype, hdelay⟩ hdue

theorem exists_failure_of_ruling {e : RangeError} (h : p.ruling result number now = .error e) :
    ∃ type, result.outcome.failureType = some type ∧ (p.delay type (number - 1) = .error e ∨
      ∃ delay, p.Waits result number type delay ∧ now.add delay = .error e) := by
  unfold ruling at h
  split at h
  · cases h
  · rename_i type htype
    refine ⟨type, htype, ?_⟩
    split at h
    · rename_i hdelay
      cases h
      exact .inl hdelay
    · cases h
    · rename_i delay hdelay
      split at h
      · rename_i hdue
        cases h
        exact .inr ⟨delay, ⟨htype, hdelay⟩, hdue⟩
      · cases h

theorem ruling_ne_pending (h : p.ruling result number now = .ok (target, change)) : target ≠ .pending := by
  cases rules_of_ruling h <;> simp

theorem due_eq_none_of_ruling (h : p.ruling result number now = .ok (target, change))
    (hterminal : target.isTerminal = true) : change.dueAt.join = none := by
  cases rules_of_ruling h with
  | success => rfl
  | aborted => rfl
  | retried => cases hterminal

theorem exists_reason_of_ruling {f : Failure} (h : p.ruling result number now = .ok (target, change))
    (hf : Failure.ofTexts? change.message.join.toList = some f) :
    ∃ type, result.outcome.failureType = some type ∧ Failure.ofTexts? result.message.toList = some f := by
  cases rules_of_ruling h with
  | success => cases hf
  | aborted htype _ => exact ⟨_, htype, hf⟩
  | retried hwaits _ => exact ⟨_, hwaits.1, hf⟩

/-- If the store takes the reason of any failure, it takes what the ruling writes. -/
theorem storable_of_ruling (h : p.ruling result number now = .ok (target, change))
    (hreason : ∀ type, result.outcome.failureType = some type → Failure.ofTexts? result.message.toList = none) :
    Failure.ofTexts? change.message.join.toList = none := by
  cases hf : Failure.ofTexts? change.message.join.toList with
  | none => rfl
  | some f =>
    obtain ⟨type, htype, hf'⟩ := exists_reason_of_ruling h hf
    cases (hreason type htype).symm.trans hf'

theorem ruling_retried (h : p.ruling result number now = .ok (.retried, change)) :
    (∃ due, change.dueAt = some (some due)) ∧
      ∃ type, result.outcome.failureType = some type ∧ number ≤ p.maxAttempts type := by
  cases rules_of_ruling h with
  | @retried type delay due hwaits =>
    obtain ⟨htype, hdelay⟩ := hwaits
    refine ⟨⟨due, rfl⟩, type, htype, ?_⟩
    have hlt := (delay_eq_some hdelay).2.1
    omega

end RetryPolicy

/-! ### Carrying out a ruling -/

namespace Scheduler

open Program

/-- Whether a program carries out a ruling on the pending attempt `a`: it asks to move `a`, takes a note, and decides
so.  Without a ruling it asks for nothing. -/
inductive Enacts (a : Attempt) : Except RangeError (AttemptState × Change) → Program (Except Failure Decision) → Prop
  | unruled (e : RangeError) : Enacts a (.error e) (done (.error (.range e)))
  | ruled (target : AttemptState) (change : Change) (note : Log.Record) :
      Enacts a (.ok (target, change)) ((transition a.id .pending target change).bind fun
        | .error e => done (.error e)
        | .ok b => (log note).bind fun _ => done (.ok ⟨b, target, change.dueAt.join⟩))

variable (s : Scheduler) {a : Attempt} {result : GatewayResult}

theorem Enacts.eq_done {y : Except RangeError (AttemptState × Change)} {q : Program (Except Failure Decision)}
    (h : Enacts a y q) {e : RangeError} (hy : y = .error e) : q = done (.error (.range e)) := by
  subst hy
  cases h
  rfl

private theorem complete_of_waits {type : FailureType} {delay : Duration}
    (hwaits : s.policy.Waits result a.number type delay) :
    ∃ rest, s.complete a result = now.bind rest ∧ ∀ t, Enacts a (s.policy.ruling result a.number t) (rest t) := by
  simp only [complete, hwaits.1, completeFailure, hwaits.2]
  refine ⟨_, rfl, fun t => ?_⟩
  rw [RetryPolicy.ruling_of_waits hwaits]
  cases t.add delay with
  | error e => exact .unruled e
  | ok due => exact .ruled _ _ _

private theorem complete_of_not_waits (hwaits : ∀ type delay, ¬s.policy.Waits result a.number type delay)
    (t : DateTime) : Enacts a (s.policy.ruling result a.number t) (s.complete a result) := by
  unfold complete RetryPolicy.ruling
  cases htype : result.outcome.failureType with
  | none => exact .ruled _ _ _
  | some type =>
    simp only [completeFailure]
    cases hdelay : s.policy.delay type (a.number - 1) with
    | error e => exact .unruled e
    | ok again =>
      cases again with
      | none => exact .ruled _ _ _
      | some delay => exact absurd ⟨htype, hdelay⟩ (hwaits type delay)

/-- `s.complete a result` carries out the ruling on `result`.  If `a` is to be retried, the ruling is that of the
moment read off the clock; if not, no clock is needed. -/
theorem complete_enacts (a : Attempt) (result : GatewayResult) :
    ((∀ type delay, ¬s.policy.Waits result a.number type delay) ∧
      ∃ y, (∀ t, s.policy.ruling result a.number t = y) ∧ Enacts a y (s.complete a result)) ∨
    ∃ rest, s.complete a result = now.bind rest ∧ ∀ t, Enacts a (s.policy.ruling result a.number t) (rest t) := by
  by_cases hwaits : ∃ type delay, s.policy.Waits result a.number type delay
  · obtain ⟨type, delay, hwaits⟩ := hwaits
    exact .inr (s.complete_of_waits hwaits)
  · simp only [not_exists] at hwaits
    exact .inl ⟨hwaits, _, fun t => RetryPolicy.ruling_of_not_waits hwaits default,
      s.complete_of_not_waits hwaits default⟩

end Scheduler

end PaymentRetry
