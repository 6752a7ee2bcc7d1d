/-!
# Outcomes of attempts

The vocabulary of payment attempts: the state an attempt is in, what a call of the gateway may return, and the two
kinds of failure that the retry policy tells apart.  `AttemptState.isTerminal` says which states end a payment, and
`Outcome.failureType` which outcomes are failures and of which kind.
-/

namespace PaymentRetry

/-- The state of an attempt.  An attempt is created pending and leaves that state once. -/
inductive AttemptState where
  | pending
  | success
  | retried
  | aborted
  deriving DecidableEq, Repr, Inhabited

/-- Why an attempt failed: the payment was declined, or it could not be carried out. -/
inductive FailureType where
  | business
  | plugin
  deriving DecidableEq, Repr, Inhabited

/-- What the gateway made of an attempt. -/
inductive Outcome where
  | success
  | businessFailure
  | pluginException
  deriving DecidableEq, Repr, Inhabited

/-- The state of a circuit breaker. -/
inductive CircuitState where
  | closed
  | opened
  | halfOpen
  deriving DecidableEq, Repr, Inhabited

namespace AttemptState

/-- All states. -/
def all : List AttemptState := [pending, success, retried, aborted]

/-- The text of a state. -/
def text : AttemptState → String
  | pending => "PENDING"
  | success => "SUCCESS"
  | retried => "RETRIED"
  | aborted => "ABORTED"

/-- The name of a state in messages. -/
def label (s : AttemptState) : String := "AttemptState." ++ s.text

/-- The state with a text. -/
def ofText? (s : String) : Option AttemptState := all.find? (·.text == s)

/-- Whether the state ends the payment. -/
def isTerminal : AttemptState → Bool
  | success | aborted => true
  | pending | retried => false

end AttemptState

namespace FailureType

/-- All types of failure. -/
def all : List FailureType := [business, plugin]

/-- The text of a failure type. -/
def text : FailureType → String
  | business => "business"
  | plugin => "plugin"

/-- The name of a failure type in messages. -/
def label : FailureType → String
  | business => "FailureType.BUSINESS"
  | plugin => "FailureType.PLUGIN"

/-- The failure type with a text. -/
def ofText? (s : String) : Option FailureType := all.find? (·.text == s)

end FailureType

namespace Outcome

/-- All outcomes. -/
def all : List Outcome := [success, businessFailure, pluginException]

/-- The text of an outcome. -/
def text : Outcome → String
  | success => "success"
  | businessFailure => "business_failure"
  | pluginException => "plugin_exception"

/-- The name of an outcome in messages. -/
def label : Outcome → String
  | success => "Outcome.SUCCESS"
  | businessFailure => "Outcome.BUSINESS_FAILURE"
  | pluginException => "Outcome.PLUGIN_EXCEPTION"

/-- The outcome with a text. -/
def ofText? (s : String) : Option Outcome := all.find? (·.text == s)

/-- The kind of failure that an outcome is, if it is one. -/
def failureType : Outcome → Option FailureType
  | success => none
  | businessFailure => some .business
  | pluginException => some .plugin

/-- Whether the payment went through. -/
def isSuccess (o : Outcome) : Bool := o == success

end Outcome

namespace CircuitState

/-- All states of a circuit breaker. -/
def all : List CircuitState := [closed, opened, halfOpen]

/-- The text of a circuit state. -/
def text : CircuitState → String
  | closed => "closed"
  | opened => "open"
  | halfOpen => "half_open"

/-- The name of a circuit state in messages. -/
def label : CircuitState → String
  | closed => "CircuitState.CLOSED"
  | opened => "CircuitState.OPEN"
  | halfOpen => "CircuitState.HALF_OPEN"

/-- The circuit state with a text. -/
def ofText? (s : String) : Option CircuitState := all.find? (·.text == s)

/-- The number by which a circuit state is exported. -/
def gauge : CircuitState → Nat
  | closed => 0
  | halfOpen => 1
  | opened => 2

end CircuitState

/-- The answer of the gateway: an outcome and perhaps a reason. -/
structure GatewayResult where
  /-- What became of the attempt. -/
  outcome : Outcome
  /-- The reason given for a failure. -/
  message : Option String := none
  deriving DecidableEq, Repr

end PaymentRetry
