import PaymentRetry.Json.Basic

/-!
# Log records

A record is what one logging call says: who says it, how grave it is, a message, further fields, and the kind of the
failure it reports, if it reports one.
-/

namespace PaymentRetry.Log

/-- How grave a record is. -/
inductive Level where
  | debug
  | info
  | warning
  | error
  | critical
  deriving DecidableEq, Repr

/-- The name of a level. -/
def Level.text : Level → String
  | debug => "DEBUG"
  | info => "INFO"
  | warning => "WARNING"
  | error => "ERROR"
  | critical => "CRITICAL"

/-- The rank of a level. -/
def Level.rank : Level → Nat
  | debug => 10
  | info => 20
  | warning => 30
  | error => 40
  | critical => 50

/-- One log record. -/
structure Record where
  logger : String
  /-- How grave it is. -/
  level : Level
  /-- What is said. -/
  message : String
  /-- Further fields. -/
  extras : List (String × Json) := []
  /-- The kind of the failure it reports. -/
  failure : Option String := none

end PaymentRetry.Log
