import PaymentRetry.Scheduler
import PaymentRetry.Settings.Basic

/-!
# A scheduler from settings

A scheduler built from settings sits behind a circuit breaker and announces completions.
-/

namespace PaymentRetry.Settings

/-- The scheduler with these settings. -/
def scheduler (s : Settings) : Except BuildError Scheduler :=
  match s.policy with
  | .error e => .error e
  | .ok policy =>
    match Duration.ofSeconds (.whole s.lease) with
    | .error e => .error (.range e)
    | .ok lease => .ok { policy := policy, batch := some s.batchSize, lease := lease, guarded := true }

end PaymentRetry.Settings
