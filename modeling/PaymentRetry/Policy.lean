import PaymentRetry.Outcome
import PaymentRetry.Time.Duration

/-!
# The retry policy

Declined payments are retried after a list of day offsets, one for each attempt; technical failures are retried
after one fixed delay, a bounded number of times.  `RetryPolicy.build` refuses negative settings, and
`RetryPolicy.delay` gives the delay before the attempt that follows a failed one.
-/

namespace PaymentRetry

/-- Why the settings of a policy are refused. -/
inductive ConfigurationError where
  | negativeMaximum (n : Int)
  | negativeDay (days : List Int)
  | negativeDelay
  deriving DecidableEq, Repr

/-- The message of a configuration error. -/
def ConfigurationError.message : ConfigurationError → String
  | negativeMaximum n => "plugin_failure_retry_max_attempts must be >= 0, got " ++ toString n
  | negativeDay days =>
    "payment_failure_retry_days must not contain negative offsets: ["
      ++ ", ".intercalate (days.map toString) ++ "]"
  | negativeDelay => "plugin_failure_retry_delay must not be negative"

/-- A retry policy. -/
structure RetryPolicy where
  /-- The days until the next attempt after the first, second, … business failure. -/
  days : List Int
  /-- The greatest number of an attempt that is retried after a technical failure. -/
  pluginMaximum : Int
  /-- The delay after a technical failure. -/
  pluginDelay : Duration
  deriving DecidableEq, Repr, Inhabited

namespace RetryPolicy

/-- The delay after a technical failure unless another is given. -/
def defaultDelay : Duration := ⟨Duration.day⟩

/-- The policy with these settings, if none of them is negative. -/
def build (days : List Int) (pluginMaximum : Int) (pluginDelay : Duration) :
    Except ConfigurationError RetryPolicy :=
  if pluginMaximum < 0 then .error (.negativeMaximum pluginMaximum)
  else if days.any (· < 0) then .error (.negativeDay days)
  else if pluginDelay.micros < 0 then .error .negativeDelay
  else .ok ⟨days, pluginMaximum, pluginDelay⟩

/-- How many failed attempts of a type are retried. -/
def maxAttempts (p : RetryPolicy) : FailureType → Int
  | .business => p.days.length
  | .plugin => p.pluginMaximum

/-- The delay after the failed attempt at `index`, counted from zero; `none` if it is not retried.  A delay of too many
days is an error. -/
def delay (p : RetryPolicy) (type : FailureType) (index : Int) : Except RangeError (Option Duration) :=
  if index < 0 || p.maxAttempts type ≤ index then .ok none
  else match type with
    | .business => (Duration.ofDays (.whole (p.days.getD index.toNat 0))).map some
    | .plugin => .ok (some p.pluginDelay)

end RetryPolicy

end PaymentRetry
