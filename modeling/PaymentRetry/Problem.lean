import PaymentRetry.Failure
import PaymentRetry.Json.Shown
import PaymentRetry.Log.Line
import PaymentRetry.Settings.Scheduler
import PaymentRetry.Settings.Source

/-!
# Problems

A problem is anything that stands in the way of what was asked for: a failure of the work itself, or something wrong
with what was given.  Each problem has a class, and either a wording or a list of issues.
-/

namespace PaymentRetry

/-- What stands in the way of what was asked for. -/
inductive Problem where
  /-- The work failed. -/
  | failure (f : Failure)
  /-- A value is none of the words of a kind. -/
  | unknownWord (kind : String) (value : Json)
  /-- A text writes no moment. -/
  | moment (error : DateTime.ParseError)
  /-- A text writes no amount. -/
  | amount (error : Decimal.ParseError)
  /-- A value that should be the length of a span of time, in some unit, is no number. -/
  | spanType (unit : String) (value : Json)
  /-- A value that should write a moment is no text. -/
  | momentType
  /-- A value that should be an amount is of a kind that never is one. -/
  | amountType (value : Json)
  /-- The settings of a policy are refused. -/
  | configuration (error : ConfigurationError)
  /-- The value of a variable is no structured value. -/
  | unreadable (field source : String)
  /-- The value of a variable is nested too deeply. -/
  | nested (inLists : Bool)
  /-- The name of a level denotes something else. -/
  | level (error : Log.LevelError)
  /-- Values do not fit. -/
  | invalid (issues : List Validation.Issue)
  /-- A value cannot be written, because a text in it has no UTF-8 form. -/
  | unwritable (reason : String)

namespace Problem

/-- A span of time that cannot be represented. -/
def ofRange (e : RangeError) : Problem := failure (.range e)

/-- Settings that cannot be read. -/
def ofLoad : Settings.LoadError → Problem
  | .unreadable field source => unreadable field source
  | .nested inLists => nested inLists
  | .invalid issues => invalid issues

/-- Settings from which no scheduler can be built. -/
def ofBuild : Settings.BuildError → Problem
  | .range e => ofRange e
  | .configuration e => configuration e

/-- Why a value cannot be written, if it cannot. -/
def ofWriting? (j : Json) : Option Problem := (j.texts.findSome? Text.encodingProblem?).map unwritable

/-- The class of a problem. -/
def kind : Problem → String
  | failure f => f.kind
  | unknownWord .. | moment _ => "ValueError"
  | amount _ => "InvalidOperation"
  | configuration _ => "ConfigurationError"
  | unreadable .. => "SettingsError"
  | nested _ => "RecursionError"
  | level .lineFormat => "ValueError"
  | spanType .. | momentType | amountType _ | level .formatStyles => "TypeError"
  | invalid _ => "ValidationError"
  | unwritable _ => "PydanticSerializationError"

/-- The issues that make up a problem, if it is made up of issues. -/
def issues? : Problem → Option (List Validation.Issue)
  | failure (.untellable issues) => some issues
  | invalid issues => some issues
  | _ => none

/-- The wording of a problem; some have none. -/
def message? : Problem → Option String
  | failure (.untellable _) | failure .unstorable | invalid _ => none
  | failure f => some f.message
  | unknownWord kind value => some (value.shown ++ " is not a valid " ++ kind)
  | moment e => some e.message
  | amount e => some e.message
  | spanType unit value => some ("unsupported type for timedelta " ++ unit ++ " component: " ++ value.kindName)
  | momentType => some "fromisoformat: argument must be str"
  | amountType value => some ("conversion from " ++ value.kindName ++ " to Decimal is not supported")
  | configuration e => some e.message
  | unreadable field source => some (Settings.LoadError.unreadableMessage field source)
  | nested inLists => some (Settings.LoadError.nestedMessage inLists)
  | level e => some e.message
  | unwritable reason => some ("Error serializing to JSON: UnicodeEncodeError: " ++ reason)

end Problem

end PaymentRetry
