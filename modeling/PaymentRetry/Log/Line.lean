import PaymentRetry.Json.Printer
import PaymentRetry.Log.Interpolation
import PaymentRetry.Log.Record
import PaymentRetry.Text.Lowercase

/-!
# Log lines

Each record that is grave enough becomes one line: an object with the time, the logger, the level, the message, the
service if it has a name, and the further fields of the record.  A further field replaces the field of its name where
that stands; fields whose names begin with an underscore are left out; some names are reserved.
-/

namespace PaymentRetry.Log

namespace Level

/-- All levels. -/
def all : List Level := [debug, info, warning, error, critical]

/-- The level of a name; two levels have a second name. -/
def ofText? (s : String) : Option Level :=
  if s = "WARN" then some warning
  else if s = "FATAL" then some critical
  else all.find? (·.text == s)

end Level

/-- How logging is set up: the rank a record must have, and the name of the service if it has one. -/
structure Setup where
  /-- The rank that a record must have. -/
  rank : Nat
  /-- The name of the service; empty if it has none. -/
  service : String := ""

/-- Why a name is no level: two names are taken by the format of lines and by the styles of formats. -/
inductive LevelError where
  | lineFormat
  | formatStyles
  deriving DecidableEq, Repr

/-- The wording of a name that is no level. -/
def LevelError.message : LevelError → String
  | lineFormat => "Unknown level: '%(levelname)s:%(name)s:%(message)s'"
  | formatStyles =>
    "Level not an integer or a valid string: \x7b'%': (<class 'logging.PercentStyle'>, "
      ++ "'%(levelname)s:%(name)s:%(message)s'), '\x7b': (<class 'logging.StrFormatStyle'>, "
      ++ "'\x7blevelname\x7d:\x7bname\x7d:\x7bmessage\x7d'), '$': (<class 'logging.StringTemplateStyle'>, "
      ++ "'$\x7blevelname\x7d:$\x7bname\x7d:$\x7bmessage\x7d')\x7d"

/-- The rank of records of no level. -/
def unsetRank : Nat := 0

/-- The name of the rank of records of no level. -/
def unsetName : String := "NOTSET"

/-- The rank for a level that is configured by name, in letters of any case.  An unknown name counts as `INFO`. -/
def configuredRank (name : String) : Except LevelError Nat :=
  match Text.asciiUppercase? name with
  | none => .ok Level.info.rank
  | some upper =>
    if upper = "BASIC_FORMAT" then .error .lineFormat
    else if upper = "_STYLES" then .error .formatStyles
    else if upper = unsetName then .ok unsetRank
    else .ok ((Level.ofText? upper).getD .info).rank

/-- The name of the logger of which all others are part. -/
def rootName : String := "root"

/-- The name under which a logger writes; the one without a name is the root. -/
def loggerName (name : String) : String := if name.isEmpty then rootName else name

/-- The loggers of which only warnings and graver records are wanted. -/
def noisyLoggers : List String := ["uvicorn.access", "sqlalchemy.engine", "aiokafka"]

/-- Whether a logger is another one or lies below it. -/
def isBelow (logger ancestor : String) : Bool :=
  logger == ancestor || (ancestor ++ ".").toList.isPrefixOf logger.toList

/-- The rank that a record of a logger must have. -/
def Setup.rankFor (s : Setup) (logger : String) : Nat :=
  if noisyLoggers.any (isBelow logger) then Level.warning.rank else s.rank

/-- Whether a record is wanted. -/
def Setup.wants (s : Setup) (r : Record) : Bool := s.rankFor r.logger ≤ r.level.rank

/-- The names that further fields may not have. -/
def reservedNames : List String :=
  ["name", "msg", "args", "levelname", "levelno", "pathname", "filename", "module", "exc_info", "exc_text",
   "stack_info", "lineno", "funcName", "created", "msecs", "relativeCreated", "thread", "threadName", "processName",
   "process", "message", "asctime"]

/-- Whether a record cannot be written because a further field takes the place of what words its message. -/
def Record.isUnwritable (r : Record) : Bool := r.extras.any (·.1 == "getMessage")

/-- The first further field with a reserved name. -/
def Record.reservedField? (r : Record) : Option String :=
  (r.extras.find? fun e => reservedNames.contains e.1).map (·.1)

/-- The wording of the error for a reserved name. -/
def reservedMessage (name : String) : String :=
  Text.quoted ("Attempt to overwrite " ++ Text.quoted name ++ " in LogRecord")

/-- The fields of a line. -/
def Setup.fields (s : Setup) (time : String) (r : Record) : List (String × Json) :=
  let own : List (String × Json) :=
    [("asctime", .text time), ("logger", .text r.logger), ("level", .text r.level.text), ("message", .text r.message)]
  let own := if s.service.isEmpty then own else Json.setMember own "service" (.text s.service)
  (r.extras.filter fun e => e.1.toList.head? != some '_').foldl (fun fs (name, value) => Json.setMember fs name value)
    own

/-- The line for a record. -/
def Setup.line (s : Setup) (time : String) (r : Record) : String := (Json.object (s.fields time r)).render .spaced

end PaymentRetry.Log
