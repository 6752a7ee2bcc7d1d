import PaymentRetry.Json.Parser
import PaymentRetry.Settings.Basic
import PaymentRetry.Settings.DotEnv
import PaymentRetry.Text.Lowercase

/-!
# Where settings come from

Settings are given by the caller, by environment variables and by a file of such variables, in this order of
precedence.  The names of variables may be written in any case.  The value of a variable is a text, except that a
list is written as a structured value.
-/

namespace PaymentRetry.Settings

/-- What settings are read from. -/
structure Sources where
  /-- The settings given by the caller. -/
  given : List (String × Json) := []
  environment : List (String × String) := []
  /-- The text of the file of environment variables, if there is one. -/
  file : Option String := none

/-- Why settings cannot be read. -/
inductive LoadError where
  /-- The value of a variable is no structured value. -/
  | unreadable (field source : String)
  /-- The value of a variable is nested too deeply: in lists, or else in objects. -/
  | nested (inLists : Bool)
  /-- Values do not fit. -/
  | invalid (issues : List Validation.Issue)
  deriving DecidableEq, Repr

/-- The wording of an unreadable value. -/
def LoadError.unreadableMessage (field source : String) : String :=
  "error parsing value for field \"" ++ field ++ "\" from source \"" ++ source ++ "\""

/-- The wording of a value that is nested too deeply. -/
def LoadError.nestedMessage (inLists : Bool) : String :=
  "maximum recursion depth exceeded while decoding a JSON " ++ (if inLists then "array" else "object")
    ++ " from a unicode string"

/-- The name of the environment as a source. -/
def environmentName : String := "EnvSettingsSource"

/-- The name of the file as a source. -/
def fileName : String := "DotEnvSettingsSource"

/-- Variables under lower-case names; of two with one name the later counts, at the place of the first. -/
private def lowered (bindings : List DotEnv.Binding) : List DotEnv.Binding :=
  bindings.foldl (fun done (name, value) =>
    let name := Text.lowercase name
    if done.any (·.1 == name) then done.map fun b => if b.1 == name then (name, value) else b
    else done ++ [(name, value)]) []

/-- The value that a variable gives to a setting; none if it gives none. -/
private def valueOf (source field text : String) : Except LoadError (Option Json) :=
  if field = listName then
    match Json.parse text with
    | .ok .null => .ok none
    | .ok j => .ok (some j)
    | .error .deepList => .error (.nested true)
    | .error .deepObject => .error (.nested false)
    | .error _ => .error (.unreadable field source)
  else .ok (some (.text text))

/-- The settings that variables give. -/
private def collected (source : String) (bindings : List DotEnv.Binding) : Except LoadError (List (String × Json)) :=
  names.foldlM (fun done field =>
    match bindings.find? (·.1 == field) with
    | some (_, some text) => do
      match ← valueOf source field text with
      | some j => .ok (done ++ [(field, j)])
      | none => .ok done
    | _ => .ok done) []

/-- The variables of a file that are no settings.  A name that begins with the name of the list counts as one. -/
private def unknownVariables (bindings : List DotEnv.Binding) : List (String × Json) :=
  bindings.filterMap fun (name, value) =>
    match value with
    | some text =>
      if text.isEmpty || names.contains name || listName.toList.isPrefixOf name.toList then none
      else some (name, .text text)
    | none => none

/-- Members over which others take precedence. -/
private def override (base higher : List (String × Json)) : List (String × Json) :=
  higher.foldl (fun done (name, value) => Json.setMember done name value) base

/-- Read settings. -/
def load (s : Sources) : Except LoadError Settings := do
  let environment ← collected environmentName (lowered (s.environment.map fun (name, value) => (name, some value)))
  let file := lowered (s.file.elim [] (DotEnv.parse s.environment))
  let fromFile ← collected fileName file
  let all := override (override (fromFile ++ unknownVariables file) environment) s.given
  (ofJson (.object all)).mapError .invalid

end PaymentRetry.Settings
