import PaymentRetry.Attempt
import PaymentRetry.Json.Printer
import PaymentRetry.Validation.Message

/-!
# Completion events

When a payment has ended, an event tells the world: which payment, how it ended, after how many attempts.  A
`Completion` is the news itself, taken from the last attempt; an `EventMessage` is the message that carries it, with
an identity, a version and a time of its own.
-/

namespace PaymentRetry

/-- How a payment ended. -/
structure Completion where
  payment : PaymentId
  key : String
  transaction : String
  success : Bool
  /-- The state of its last attempt. -/
  finalState : AttemptState
  /-- The number of its last attempt. -/
  attemptCount : Int
  amount : Decimal
  currency : String
  /-- How the last attempt failed, if it did. -/
  failureType : Option FailureType
  /-- The reason given for the failure. -/
  message : Option String

/-- The news of a final decision.  An amount that is not finite cannot be told. -/
def Completion.ofDecision (d : Decision) : Validation.Checked Completion :=
  if d.attempt.amount.isFinite then
    .ok {
      payment := d.attempt.payment
      key := d.attempt.key
      transaction := d.attempt.transaction
      success := d.state == .success
      finalState := d.state
      attemptCount := d.attempt.number
      amount := d.attempt.amount
      currency := d.attempt.currency
      failureType := d.attempt.failureType
      message := d.attempt.message }
  else .error [⟨[.field "amount"], .finiteNumber⟩]

/-- A message about a payment that has ended. -/
structure EventMessage where
  /-- The identity of the message; none if it is to be given one when it is made. -/
  id : Option String
  /-- The version of its form. -/
  version : Int
  /-- What it belongs to. -/
  correlation : String
  /-- When it was made; none if that is to be filled in when it is made. -/
  occurred : Option Timestamp
  payment : String
  key : String
  transaction : String
  success : Bool
  /-- The state of its last attempt. -/
  finalState : String
  attemptCount : Int
  amount : Decimal
  currency : String
  /-- How the last attempt failed, if it did. -/
  failureType : Option String
  /-- The reason given for the failure. -/
  message : Option String

namespace EventMessage

/-- The message that carries the news of a completion. -/
def ofCompletion (c : Completion) : EventMessage where
  id := none
  version := 1
  correlation := c.key
  occurred := none
  payment := c.payment.text
  key := c.key
  transaction := c.transaction
  success := c.success
  finalState := c.finalState.text
  attemptCount := c.attemptCount
  amount := c.amount
  currency := c.currency
  failureType := c.failureType.map FailureType.text
  message := c.message

/-- The members of the message without its identity and time. -/
def body (e : EventMessage) : List (String × Json) :=
  [("payment_id", .text e.payment), ("payment_external_key", .text e.key),
   ("transaction_external_key", .text e.transaction), ("success", .bool e.success),
   ("final_state", .text e.finalState), ("attempt_count", .int e.attemptCount), ("amount", .text e.amount.text),
   ("currency", .text e.currency), ("failure_type", .ofText? e.failureType), ("error_message", .ofText? e.message)]

/-- The message as it is written. -/
def toJson (e : EventMessage) : Json :=
  .object ([("event_id", .ofText? e.id), ("event_version", .int e.version), ("correlation_id", .text e.correlation),
    ("occurred_at", .ofText? (e.occurred.map Timestamp.text))] ++ e.body)

/-- The text of the message. -/
def render (e : EventMessage) : String := e.toJson.render .compact

open Validation in
/-- Read a message from its members. -/
def ofJson (j : Json) : Checked EventMessage :=
  .ok EventMessage.mk
    |> also (optional j "event_id" none fun v => (identity v).map some)
    |> also (optional j "event_version" 1 integer)
    |> also (required j "correlation_id" text)
    |> also (optional j "occurred_at" none fun v => (timestamp v).map some)
    |> also (required j "payment_id" identity)
    |> also (required j "payment_external_key" text)
    |> also (required j "transaction_external_key" text)
    |> also (required j "success" bool)
    |> also (required j "final_state" text)
    |> also (required j "attempt_count" integer)
    |> also (required j "amount" finiteDecimal)
    |> also (required j "currency" text)
    |> also (optional j "failure_type" none optionalText)
    |> also (optional j "error_message" none optionalText)

end EventMessage

end PaymentRetry
