import PaymentRetry.Outcome

/-!
# Metrics

What is counted.  A `Metric` is one time series: a family of counts and, for most families, what is told apart
within it.  `Metric.name` is the name under which a series is exported, with its labels in alphabetical order.
-/

namespace PaymentRetry

/-- What became of a due retry. -/
inductive FireStatus where
  | executed
  | duplicate
  | error
  deriving DecidableEq, Repr

/-- What became of an attempt whose lease has expired. -/
inductive RecoveryStatus where
  | recovered
  | raced
  | error
  deriving DecidableEq, Repr

/-- The text of a fire status. -/
def FireStatus.text : FireStatus → String
  | executed => "executed"
  | duplicate => "duplicate"
  | error => "error"

/-- The text of a recovery status. -/
def RecoveryStatus.text : RecoveryStatus → String
  | recovered => "recovered"
  | raced => "raced"
  | error => "error"

/-- A series of counts. -/
inductive Metric where
  /-- Outcomes taken down for attempts. -/
  | outcome (outcome : Outcome)
  /-- Attempts moved out of the pending state. -/
  | transition (state : AttemptState)
  /-- Due retries dispatched by polls. -/
  | fired (status : FireStatus)
  /-- Transitions that lost a race. -/
  | staleTransition
  | poll
  /-- Attempts taken up because their lease expired. -/
  | recovered (status : RecoveryStatus)
  /-- Answered requests. -/
  | request (method path : String) (status : Nat)
  /-- Timed requests. -/
  | requestDuration (method path : String)
  deriving DecidableEq, Repr

namespace Metric

/-- A family name and its labels. -/
private def labelled (family : String) (labels : List (String × String)) : String :=
  family ++ "\x7b" ++ ",".intercalate (labels.map fun (name, value) => name ++ "=" ++ value) ++ "\x7d"

/-- The name under which a series is exported. -/
def name : Metric → String
  | outcome o => labelled "payment_attempt_outcomes_total" [("outcome", o.text)]
  | transition s => labelled "payment_attempt_transitions_total" [("state", s.text)]
  | fired status => labelled "payment_retries_fired_total" [("status", status.text)]
  | staleTransition => "payment_attempt_stale_transitions_total"
  | poll => "payment_retry_poll_duration_seconds_count"
  | recovered status => labelled "payment_attempt_pending_recovered_total" [("status", status.text)]
  | request method path status =>
    labelled "payments_api_requests_total" [("method", method), ("path", path), ("status", toString status)]
  | requestDuration method path =>
    labelled "payments_api_request_duration_seconds_count" [("method", method), ("path", path)]

end Metric

/-- How often each series has been counted. -/
abbrev Counts := List (Metric × Nat)

namespace Counts

/-- The count of a series. -/
def get (counts : Counts) (m : Metric) : Nat := ((counts.find? (·.1 = m)).map (·.2)).getD 0

/-- Count a series once more. -/
def increment : Counts → Metric → Counts
  | [], m => [(m, 1)]
  | (m', n) :: rest, m => if m' = m then (m', n + 1) :: rest else (m', n) :: increment rest m

/-- Counting a series adds one to it and leaves the others alone. -/
theorem get_increment (counts : Counts) (m m' : Metric) :
    (increment counts m).get m' = counts.get m' + (if m = m' then 1 else 0) := by
  induction counts with
  | nil => by_cases h : m = m' <;> simp [increment, get, h]
  | cons entry rest ih =>
    obtain ⟨k, n⟩ := entry
    by_cases hk : k = m
    · subst hk
      by_cases h : k = m' <;> simp [increment, get, h]
    · by_cases h : k = m'
      · subst h
        simp [increment, get, hk, Ne.symm hk]
      · simp only [get, increment, hk, if_false, List.find?_cons, h, decide_false] at ih ⊢
        exact ih

end Counts

end PaymentRetry
