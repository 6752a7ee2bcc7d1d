import PaymentRetry.Program

/-!
# Calling the gateway

A guarded call asks the circuit breaker first and tells it afterwards how the call went.  A technical failure counts
against the gateway whether it is returned or raised; a declined payment is a working gateway's answer.
-/

namespace PaymentRetry.Gateway

/-- The logger of the guarded gateway. -/
def logger : String := "retry_service.gateway"

/-- The reason of a call that the circuit breaker rejects. -/
def rejectionReason : String := "Payment gateway unavailable (circuit breaker open)"

/-- The record of a rejected call. -/
def rejectionRecord (c : Charge) : Log.Record where
  logger := logger
  level := .warning
  message := "Circuit breaker OPEN — rejecting attempt without calling gateway"
  extras := [("payment_id", .text c.payment.text)]

/-- Record the result of a call in the circuit breaker, unless it is a cancellation. -/
def report : Except Failure GatewayResult → Program Unit
  | .ok result => if result.outcome = .pluginException then .breakerFailed else .breakerSucceeded
  | .error e => if e.isCancellation then .done () else .breakerFailed

/-- The circuit breaker is told of a call at most once. -/
theorem report_cases (answer : Except Failure GatewayResult) :
    report answer = .done () ∨ report answer = .breakerFailed ∨ report answer = .breakerSucceeded := by
  unfold report
  split
  · split
    · exact .inr (.inl rfl)
    · exact .inr (.inr rfl)
  · split
    · exact .inl rfl
    · exact .inr (.inl rfl)

/-- A call of the gateway through the circuit breaker. -/
def guarded (c : Charge) : Program (Except Failure GatewayResult) := do
  if ← .breakerAllows then
    let answer ← .charge c
    report answer
    return answer
  else
    .log (rejectionRecord c)
    return .error (.gatewayUnavailable rejectionReason)

end PaymentRetry.Gateway
