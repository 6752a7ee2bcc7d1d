import PaymentRetry.Attempt
import PaymentRetry.Json.Shown
import PaymentRetry.Text.Quoted
import PaymentRetry.Validation.Issue

/-!
# Failures

Everything that can go wrong while payments are worked on.  A failure is its cause; `Failure.kind` names its class
and `Failure.message` words it.  What collaborators raise is kept as the class and the arguments given.
-/

namespace PaymentRetry

/-- Why an operation ended without a result. -/
inductive Failure where
  /-- An attempt with this key and number is recorded already, or a value it needs is missing. -/
  | duplicateKey (key : Option String) (number : Option Int)
  /-- A transition found the attempt in another state. -/
  | staleState (id : AttemptId) (expected : AttemptState)
  /-- An outcome was reported for an attempt that is no longer pending. -/
  | alreadyCompleted (id : AttemptId) (state : AttemptState)
  | unknownAttempt (id : AttemptId)
  /-- The attempt belongs to another payment. -/
  | foreignAttempt (id : AttemptId) (key : String)
  /-- The gateway could not carry out the attempt. -/
  | gatewayUnavailable (reason : String)
  /-- The first attempt of a submitted payment failed. -/
  | paymentFailed (decision : Decision)
  /-- A moment or a span of time cannot be represented. -/
  | range (error : RangeError)
  /-- An integer does not fit the store. -/
  | integerTooWide
  /-- A value cannot be handed to the store. -/
  | unstorable
  /-- A completion cannot be told. -/
  | untellable (issues : List Validation.Issue)
  /-- Something raised by a collaborator, and the files it is about, if it is an error of the operating system. -/
  | raised (kind : String) (arguments : List Json) (files : List Json := [])
  /-- The work was called off; nothing may hold this up. -/
  | cancelled (arguments : List Json)

namespace Failure

/-- The failure to write a text in UTF-8, for the first of several texts that have no such form. -/
def ofTexts? (texts : List String) : Option Failure :=
  (texts.findSome? Text.encodingProblem?).map fun reason => raised "UnicodeEncodeError" [.text reason]

/-- Several arguments in parentheses. -/
def argumentsText : List Json → String
  | [x] => "(" ++ x.shown ++ ",)"
  | xs => "(" ++ Json.shownItems xs ++ ")"

/-- The classes that report an error of the operating system. -/
private def systemKinds : List String :=
  ["OSError", "ConnectionError", "ConnectionResetError", "ConnectionAbortedError", "ConnectionRefusedError",
   "BrokenPipeError", "TimeoutError", "FileNotFoundError", "FileExistsError", "PermissionError", "InterruptedError",
   "BlockingIOError", "ChildProcessError", "IsADirectoryError", "NotADirectoryError", "ProcessLookupError"]

/-- The class that stands for a number of the operating system. -/
private def systemKindOf? (number : Int) : Option String :=
  if number = 11 || number = 114 || number = 115 then some "BlockingIOError"
  else if number = 32 || number = 108 then some "BrokenPipeError"
  else if number = 10 then some "ChildProcessError"
  else if number = 103 then some "ConnectionAbortedError"
  else if number = 111 then some "ConnectionRefusedError"
  else if number = 104 then some "ConnectionResetError"
  else if number = 17 then some "FileExistsError"
  else if number = 2 then some "FileNotFoundError"
  else if number = 21 then some "IsADirectoryError"
  else if number = 20 then some "NotADirectoryError"
  else if number = 4 then some "InterruptedError"
  else if number = 1 || number = 13 then some "PermissionError"
  else if number = 3 then some "ProcessLookupError"
  else if number = 110 then some "TimeoutError"
  else none

/-- The number of the operating system that a value is. -/
private def systemNumber? : Json → Option Int
  | .int n => some n
  | .bool b => some (if b then 1 else 0)
  | _ => none

/-- Whether these arguments give a number and a reason of the operating system. -/
private def isSystemCall (arguments : List Json) : Bool := 2 ≤ arguments.length && arguments.length ≤ 5

/-- An argument, unless it is missing or null. -/
private def argument? (arguments : List Json) (n : Nat) : Option Json :=
  match arguments[n]? with
  | some .null => none
  | x => x

/-- An error of the operating system.  A general one is narrowed down by its number.  The third argument and the
fifth one name files, which then are no arguments any more; but a third argument that is a number tells how much was
written before a call would have blocked. -/
private def ofSystem (kind : String) (arguments : List Json) : Failure :=
  let number := arguments.head?.bind systemNumber?
  let kind := if kind = "OSError" then (number.bind systemKindOf?).getD kind else kind
  match argument? arguments 2 with
  | none => raised kind arguments
  | some file =>
    if kind = "BlockingIOError" && (systemNumber? file).isSome then raised kind arguments
    else raised kind (arguments.take 2) (file :: (argument? arguments 4).toList)

/-- The failure of a class with arguments. -/
def ofRaise (kind : String) (arguments : List Json) : Failure :=
  if kind = "CancelledError" then cancelled arguments
  else if systemKinds.contains kind && isSystemCall arguments then ofSystem kind arguments
  else raised kind arguments

/-- The class of a failure. -/
def kind : Failure → String
  | duplicateKey .. => "DuplicateKeyError"
  | staleState .. => "StaleStateError"
  | alreadyCompleted .. => "AlreadyCompletedError"
  | unknownAttempt _ | foreignAttempt .. => "AttemptNotFoundError"
  | gatewayUnavailable _ => "GatewayUnavailableError"
  | paymentFailed _ => "PaymentFailedError"
  | range .notANumber => "ValueError"
  | range _ | integerTooWide => "OverflowError"
  | unstorable => "StatementError"
  | untellable _ => "ValidationError"
  | raised kind _ _ => kind
  | cancelled _ => "CancelledError"

/-- The wording of arguments: nothing, the only argument, or all of them.  A missing key is quoted. -/
private def argumentsMessage (kind : String) : List Json → String
  | [] => ""
  | [x] => if kind = "KeyError" then x.shown else x.plain
  | xs => argumentsText xs

/-- The wording of what a collaborator raised.  An error of the operating system gives its number, its reason and
the files it is about. -/
private def raisedMessage (kind : String) (arguments files : List Json) : String :=
  match arguments with
  | number :: reason :: _ =>
    if systemKinds.contains kind && isSystemCall arguments then
      "[Errno " ++ number.plain ++ "] " ++ reason.plain ++ (if files.isEmpty then "" else ": ")
        ++ " -> ".intercalate (files.map Json.shown)
    else argumentsMessage kind arguments
  | _ => argumentsMessage kind arguments

/-- A text in quotes, or the word for a missing one. -/
private def quotedOrNone (s : Option String) : String := s.elim "None" Text.quoted

/-- The wording of a failure. -/
def message : Failure → String
  | duplicateKey key number =>
    "Attempt " ++ number.elim "None" toString ++ " already recorded for payment " ++ quotedOrNone key
  | staleState id expected => "Attempt " ++ id.text ++ " is no longer in state " ++ expected.label
  | alreadyCompleted id state => "Attempt " ++ id.text ++ " already completed with state " ++ state.label
  | unknownAttempt id => "No payment attempt " ++ id.text
  | foreignAttempt id key => "Attempt " ++ id.text ++ " does not belong to payment " ++ Text.quoted key
  | gatewayUnavailable reason => reason
  | paymentFailed d =>
    "Payment " ++ Text.quoted d.attempt.key ++ " failed: "
      ++ match d.attempt.message with
        | some reason => if reason = "" then failureLabel d else reason
        | none => failureLabel d
  | range error => error.message
  | integerTooWide => "Python int too large to convert to SQLite INTEGER"
  | unstorable => ""
  | untellable _ => ""
  | raised kind arguments files => raisedMessage kind arguments files
  | cancelled arguments => argumentsMessage "CancelledError" arguments
where
  /-- The kind of failure that a decision is about. -/
  failureLabel (d : Decision) : String := d.attempt.failureType.elim "None" FailureType.label

/-- A failure as it is shown: its class, and what it was raised with. -/
def shown : Failure → String
  | raised kind arguments _ => shownWith kind arguments
  | cancelled arguments => shownWith "CancelledError" arguments
  | f => f.kind ++ "(" ++ Text.quoted f.message ++ ")"
where
  /-- A class and its arguments. -/
  shownWith (kind : String) : List Json → String
    | [x] => kind ++ "(" ++ x.shown ++ ")"
    | xs => kind ++ argumentsText xs

/-- The reason that is taken down for a failure of the gateway: its wording, or its class if it has none. -/
def reason (f : Failure) : String := if f.message = "" then f.kind else f.message

/-- Whether the work was called off. -/
def isCancellation : Failure → Bool
  | cancelled _ => true
  | _ => false

end Failure

end PaymentRetry
