import PaymentRetry.Gateway
import PaymentRetry.Number.Arithmetic
import PaymentRetry.Number.Quantity

/-!
# The sandbox gateway

A gateway that carries nothing out.  Failures queued beforehand are used up first, one for each call; otherwise a
call takes a while, fails if that is longer than the time allowed, and is declined if the sandbox declines
payments.  The time a call takes lies between two configured bounds, and the sandbox is only defined where all times
between them behave alike, so the longest one stands for them.
-/

namespace PaymentRetry

/-- A failure queued in the sandbox. -/
inductive QueuedFailure where
  | decline
  | exception
  deriving DecidableEq, Repr

/-- The sandbox gateway: the bounds on the time a call takes, the time allowed, the rate of declines, the queued
failures and the number of calls. -/
structure Sandbox where
  /-- The least number of seconds that a call takes. -/
  minLatency : Quantity := .double .zero
  /-- The greatest number of seconds that a call takes. -/
  maxLatency : Quantity := .double .zero
  /-- The number of seconds allowed, if there is a limit. -/
  timeout : Option Quantity := none
  /-- The rate at which payments are declined. -/
  declineRate : Quantity := .double .zero
  queued : List QueuedFailure := []
  calls : Nat := 0
  deriving DecidableEq

namespace Sandbox

/-- The reason given for a declined payment. -/
def declineReason : String := "Insufficient funds"

/-- The reason given for a queued exception. -/
def exceptionReason : String := "Simulated plugin failure"

/-- The answer to a declined payment. -/
def declined : GatewayResult := ⟨.businessFailure, some declineReason⟩

/-- The answer to a call that went through. -/
def succeeded : GatewayResult := ⟨.success, none⟩

/-- What a queued failure makes of a call. -/
def QueuedFailure.answer : QueuedFailure → Except Failure GatewayResult
  | .decline => .ok declined
  | .exception => .error (.gatewayUnavailable exceptionReason)

/-- The longest time that a call takes.  The time is a part of the distance between the bounds, added to the lower
one; where a bound is not finite that need not be a number. -/
def latency (s : Sandbox) : Binary64 :=
  let least := s.minLatency.toBinary64
  let distance := s.maxLatency.toBinary64.sub least
  if distance.isFinite && distance.lt .zero then least else least.add distance

/-- The time that a call takes, to the hundredth of a second. -/
def shownLatency (s : Sandbox) : Binary64 :=
  match s.latency with
  | .finite negative mantissa scale => .nearest negative (Binary64.hundredths mantissa scale) 100
  | x => x

/-- The record of a call that is not failed by the queue. -/
def callRecord (s : Sandbox) (c : Charge) : Log.Record where
  logger := Gateway.logger
  level := .debug
  message := "Calling payment gateway"
  extras := [("payment_id", .text c.payment.text), ("simulated_latency_s", .float s.shownLatency)]

/-- The time allowed, if a call takes longer. -/
def exceeded? (s : Sandbox) : Option Quantity :=
  match s.timeout with
  | some limit =>
    if Binary64.zero.lt s.latency && limit.toBinary64.lt s.latency then some limit else none
  | none => none

/-- The failure to reckon with an integer that lies outside the range of doubles. -/
def integerTooLarge : Failure := .raised "OverflowError" [.text "int too large to convert to float"]

/-- Whether the bounds on the time that a call takes can be reckoned with. -/
def hasLatency (s : Sandbox) : Bool := s.minLatency.hasDouble && s.maxLatency.hasDouble

/-- Whether the time allowed can be reckoned with, where a call takes any time. -/
def hasTimeout (s : Sandbox) : Bool :=
  !Binary64.zero.lt s.latency || s.timeout.all fun limit => limit.hasDouble || limit.le .zero

/-- The answer to a call that is not failed by the queue. -/
def answer (s : Sandbox) : Except Failure GatewayResult :=
  if !(s.hasLatency && s.hasTimeout) then .error integerTooLarge
  else match s.exceeded? with
    | some limit => .error (.gatewayUnavailable ("Gateway did not respond within " ++ limit.text ++ "s"))
    | none => if (Quantity.whole 1).le s.declineRate.toBinary64 then .ok declined else .ok succeeded

/-- Whether the next call is logged: one that is failed by the queue is not. -/
def logsNext (s : Sandbox) : Bool := s.queued.isEmpty && s.hasLatency

/-- Carry out a call: the answer, and the sandbox afterwards. -/
def call (s : Sandbox) : Except Failure GatewayResult × Sandbox :=
  match s.queued with
  | f :: rest => (QueuedFailure.answer f, { s with queued := rest, calls := s.calls + 1 })
  | [] => (s.answer, { s with calls := s.calls + 1 })

/-- Queue a failure. -/
def queue (s : Sandbox) (f : QueuedFailure) : Sandbox := { s with queued := s.queued ++ [f] }

/-- Forget the queued failures and the calls. -/
def clear (s : Sandbox) : Sandbox := { s with queued := [], calls := 0 }

end Sandbox

end PaymentRetry
