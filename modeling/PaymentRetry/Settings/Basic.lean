import PaymentRetry.Breaker
import PaymentRetry.Policy
import PaymentRetry.Sandbox
import PaymentRetry.Validation.Lax

/-!
# Settings

All that can be configured, with the values that hold unless others are given.  `Settings.ofJson` reads settings
from the members of an object and finds everything that is wrong with them; `Settings.policy` and
`Settings.sandbox` are what is built from them.
-/

namespace PaymentRetry

/-- All that can be configured. -/
structure Settings where
  /-- Where the database is. -/
  databaseUrl : String := "postgresql+asyncpg://postgres:postgres@db:5432/payments"
  /-- The least grave records that are logged. -/
  logLevel : String := "INFO"
  /-- Where the broker is. -/
  brokerServers : String := "kafka:9092"
  /-- The topic for completions. -/
  completedTopic : String := "payment.completed"
  /-- How many attempts may fail technically and still be retried. -/
  pluginMaximum : Int := 8
  /-- The seconds until an attempt that failed technically is retried. -/
  pluginDelay : Int := 86400
  /-- The days until the next attempt after each declined one. -/
  retryDays : List Int := [8, 8, 8]
  pollInterval : Binary64 := .ofInt 10
  /-- How many attempts a poll takes up at most. -/
  batchSize : Int := 100
  /-- How many attempts are made at the same time. -/
  maxConcurrent : Int := 10
  /-- The seconds for which an attempt may stay pending. -/
  lease : Int := 3600
  /-- The least number of seconds that a call of the sandbox takes. -/
  minLatency : Binary64 := .ofInt 1
  /-- The greatest number of seconds that a call of the sandbox takes. -/
  maxLatency : Binary64 := .ofInt 5
  /-- The number of seconds allowed for a call. -/
  timeout : Binary64 := .ofInt 4
  /-- The rate at which the sandbox declines payments. -/
  declineRate : Binary64 := .nearest false 15 100
  /-- The failures in a row that open the circuit breaker. -/
  breakerThreshold : Int := 5
  /-- The seconds for which the circuit breaker stays open. -/
  breakerRecovery : Binary64 := .ofInt 30
  /-- Where traces are sent; empty if they are not. -/
  traceEndpoint : String := "http://jaeger:4318/v1/traces"
  /-- The port at which metrics are served. -/
  metricsPort : Int := 8001

namespace Settings

/-- The settings by name. -/
def members (s : Settings) : List (String × Json) :=
  [("database_url", .text s.databaseUrl),
   ("log_level", .text s.logLevel),
   ("kafka_bootstrap_servers", .text s.brokerServers),
   ("kafka_completed_topic", .text s.completedTopic),
   ("plugin_failure_retry_max_attempts", .int s.pluginMaximum),
   ("plugin_failure_retry_delay_seconds", .int s.pluginDelay),
   ("payment_failure_retry_days", .list (s.retryDays.map .int)),
   ("retry_poll_interval_seconds", .float s.pollInterval),
   ("retry_batch_size", .int s.batchSize),
   ("max_concurrent_retries", .int s.maxConcurrent),
   ("pending_attempt_lease_seconds", .int s.lease),
   ("payment_min_latency", .float s.minLatency),
   ("payment_max_latency", .float s.maxLatency),
   ("payment_timeout", .float s.timeout),
   ("payment_decline_rate", .float s.declineRate),
   ("circuit_breaker_failure_threshold", .int s.breakerThreshold),
   ("circuit_breaker_recovery_timeout", .float s.breakerRecovery),
   ("otlp_endpoint", .text s.traceEndpoint),
   ("metrics_port", .int s.metricsPort)]

/-- The names of the settings. -/
def names : List String := (members {}).map (·.1)

/-- The setting that is a list. -/
def listName : String := "payment_failure_retry_days"

section

open Validation

/-- An integer that is not negative. -/
private def nonNegative (j : Json) : Checked Int := ensure "must not be negative" (fun n => 0 ≤ n) (integer j)

/-- A positive integer. -/
private def positive (j : Json) : Checked Int := ensure "must be positive" (fun n => 0 < n) (integer j)

/-- A double that is neither zero nor less. -/
private def positiveFloat (j : Json) : Checked Binary64 :=
  ensure "must be positive" (fun x => !(x.isZero || x.lt .zero)) (float j)

/-- A list of day offsets. -/
private def days (j : Json) : Checked (List Int) :=
  ensure "retry day offsets must not be negative" (fun ds => ds.all (0 ≤ ·)) (listOf integer j)

/-- Read settings from the members of an object.  Members of other names are refused. -/
def ofJson (j : Json) : Checked Settings :=
  let d : Settings := {}
  closed j names <| .ok Settings.mk
    |> also (optional j "database_url" d.databaseUrl text)
    |> also (optional j "log_level" d.logLevel text)
    |> also (optional j "kafka_bootstrap_servers" d.brokerServers text)
    |> also (optional j "kafka_completed_topic" d.completedTopic text)
    |> also (optional j "plugin_failure_retry_max_attempts" d.pluginMaximum nonNegative)
    |> also (optional j "plugin_failure_retry_delay_seconds" d.pluginDelay nonNegative)
    |> also (optional j listName d.retryDays days)
    |> also (optional j "retry_poll_interval_seconds" d.pollInterval positiveFloat)
    |> also (optional j "retry_batch_size" d.batchSize positive)
    |> also (optional j "max_concurrent_retries" d.maxConcurrent positive)
    |> also (optional j "pending_attempt_lease_seconds" d.lease positive)
    |> also (optional j "payment_min_latency" d.minLatency float)
    |> also (optional j "payment_max_latency" d.maxLatency float)
    |> also (optional j "payment_timeout" d.timeout float)
    |> also (optional j "payment_decline_rate" d.declineRate float)
    |> also (optional j "circuit_breaker_failure_threshold" d.breakerThreshold integer)
    |> also (optional j "circuit_breaker_recovery_timeout" d.breakerRecovery float)
    |> also (optional j "otlp_endpoint" d.traceEndpoint text)
    |> also (optional j "metrics_port" d.metricsPort integer)

end

/-- The sandbox gateway with these settings. -/
def sandbox (s : Settings) : Sandbox where
  minLatency := .double s.minLatency
  maxLatency := .double s.maxLatency
  timeout := some (.double s.timeout)
  declineRate := .double s.declineRate

/-- The circuit breaker with these settings. -/
def breaker (s : Settings) : Breaker := { threshold := s.breakerThreshold, recovery := .double s.breakerRecovery }

/-- Why no scheduler can be built from settings. -/
inductive BuildError where
  | range (error : RangeError)
  | configuration (error : ConfigurationError)
  deriving DecidableEq, Repr

/-- The retry policy with these settings. -/
def policy (s : Settings) : Except BuildError RetryPolicy :=
  match Duration.ofSeconds (.whole s.pluginDelay) with
  | .error e => .error (.range e)
  | .ok delay => (RetryPolicy.build s.retryDays s.pluginMaximum delay).mapError .configuration

end Settings

end PaymentRetry
