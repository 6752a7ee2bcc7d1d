import PaymentRetry.Json.Basic
import PaymentRetry.Number.Decimal
import PaymentRetry.Outcome
import PaymentRetry.Time.DateTime

/-!
# Payment attempts

A payment is a sequence of attempts under one external key.  An `Attempt` is a stored row of that history, a
`Draft` is an attempt before it is stored, and `Attempt.next` is the draft that retries an attempt: the same request
under the next number.
-/

namespace PaymentRetry

/-- The identity of an attempt: given out by the store, or chosen by its creator. -/
inductive AttemptId where
  | minted (n : Nat)
  | named (label : String)
  deriving DecidableEq, Repr, Inhabited

/-- The identity of a payment: given out by the store, or chosen by its creator. -/
inductive PaymentId where
  | minted (n : Nat)
  | named (label : String)
  deriving DecidableEq, Repr, Inhabited

/-- The text of an attempt's identity. -/
def AttemptId.text : AttemptId → String
  | minted n => "a" ++ toString n
  | named label => label

/-- The text of a payment's identity. -/
def PaymentId.text : PaymentId → String
  | minted n => "p" ++ toString n
  | named label => label

/-- What is sent along with a payment. -/
abbrev Properties := List (String × Json)

/-- An attempt before it is stored.  What the store gives out or refuses to be without may be missing. -/
structure Draft where
  /-- The identity of the attempt, if its creator chose one. -/
  id : Option AttemptId := none
  /-- The payment, or `none` for one whose identity is yet to be made.  A draft that lacks an identity for good, which
  the store would refuse like one without a key, cannot be expressed. -/
  payment : Option PaymentId := none
  key : Option String
  transaction : Option String
  /-- The number of the attempt, from one. -/
  number : Option Int := some 1
  state : AttemptState := .pending
  amount : Decimal
  currency : Option String
  /-- What is sent along; none if that is null. -/
  properties : Option Properties := some []
  /-- When the next attempt is due. -/
  dueAt : Option DateTime := none

/-- A stored attempt. -/
structure Attempt where
  id : AttemptId
  payment : PaymentId
  key : String
  transaction : String
  /-- The number of the attempt, from one. -/
  number : Int
  state : AttemptState
  amount : Decimal
  currency : String
  /-- What is sent along; none if that is null. -/
  properties : Option Properties
  /-- How the attempt failed, if it did. -/
  failureType : Option FailureType
  /-- The reason given for the failure. -/
  message : Option String
  /-- When the next attempt is due. -/
  dueAt : Option DateTime
  created : DateTime
  updated : DateTime
  deriving Inhabited

/-- What the gateway is asked to do for an attempt. -/
structure Charge where
  payment : PaymentId
  transaction : String
  amount : Decimal
  currency : String
  /-- What is sent along. -/
  properties : Properties

namespace Attempt

/-- The draft that retries an attempt. -/
def next (a : Attempt) : Draft where
  payment := some a.payment
  key := some a.key
  transaction := some a.transaction
  number := some (a.number + 1)
  amount := a.amount
  currency := some a.currency
  properties := some (a.properties.getD [])

/-- What the gateway is asked to do. -/
def charge (a : Attempt) : Charge :=
  ⟨a.payment, a.transaction, a.amount, a.currency, a.properties.getD []⟩

end Attempt

/-- The amount that is read back once an amount has been stored as the nearest double: two places, and infinities
as they are.  A negative zero loses its sign. -/
def Decimal.stored (amount : Decimal) : Decimal :=
  match amount.toBinary64 with
  | .nan => .nan false
  | .infinite negative => .infinite negative
  | .finite negative mantissa scale =>
    .ofHundredths (negative && mantissa != 0) (Binary64.hundredths mantissa scale)

/-- An attempt as it is read back from the store: see `Decimal.stored`. -/
def Attempt.asStored (a : Attempt) : Attempt := { a with amount := a.amount.stored }

/-- What becomes of an attempt once its outcome is known: its stored row, the state it moved to, and when the next
attempt is due. -/
structure Decision where
  /-- The attempt as it is stored now. -/
  attempt : Attempt
  state : AttemptState
  /-- When the next attempt is due, if there is to be one. -/
  due : Option DateTime := none

/-- A retry that is due: the payment, since when, and its latest attempt. -/
structure DueRetry where
  payment : PaymentId
  /-- Since when the retry is due. -/
  due : DateTime
  attempt : Attempt

end PaymentRetry
