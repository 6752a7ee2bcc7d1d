import PaymentRetry.Json.Basic
import PaymentRetry.Json.Token

/-!
# Reading structured values

`Json.parse` reads a text as one value, or says at which position it stops being one.  Integers and nesting have
limits.  The parser is a machine that consumes one token at a time and keeps the unfinished lists and objects on a
stack.  Of two members with one key the later value counts, at the place of the first.
-/

namespace PaymentRetry.Json

/-- Why a text cannot be read as a value. -/
inductive ParseError where
  /-- It stops being one at a position. -/
  | malformed (position : Nat)
  /-- Its bytes are no text. -/
  | undecodable
  /-- An integer has too many digits. -/
  | longInteger
  /-- Lists or objects are nested too deeply. -/
  | deepList
  | deepObject
  deriving DecidableEq, Repr

/-- How deeply lists and objects may be nested. -/
def maxDepth : Nat := 960

/-- An unfinished list (items in reverse), or an unfinished object whose next value belongs to a key. -/
private inductive Frame where
  | list (items : List Json)
  | object (members : List (String × Json)) (key : String)

/-- What may come next. -/
private inductive Expected where
  | value
  /-- A value, or the end of the list just opened. -/
  | valueOrClose
  /-- A key; or the end of the object, when it has just been opened. -/
  | key (members : List (String × Json)) (fresh : Bool)
  | colon (members : List (String × Json)) (key : String)
  /-- A comma or the end of the innermost list or object, after the value given. -/
  | separator (last : Json)

/-- What one token does: it goes on, it completes the whole value, or it is refused. -/
private inductive Progress where
  | more (stack : List Frame) (expected : Expected)
  | complete (value : Json)
  | refused (error : ParseError)

/-- A token where a value is wanted. -/
private def beginValue (stack : List Frame) (position : Nat) : Token → Progress
  | .null => .more stack (.separator null)
  | .bool b => .more stack (.separator (bool b))
  | .int n => .more stack (.separator (int n))
  | .float x => .more stack (.separator (float x))
  | .text s => .more stack (.separator (text s))
  | .longInt => .refused .longInteger
  | .openList =>
    if stack.length < maxDepth then .more (.list [] :: stack) .valueOrClose else .refused .deepList
  | .openObject => if stack.length < maxDepth then .more stack (.key [] true) else .refused .deepObject
  | .badText position => .refused (.malformed position)
  | _ => .refused (.malformed position)

/-- A token after a complete value. -/
private def afterValue (stack : List Frame) (last : Json) (position : Nat) (token : Token) : Progress :=
  match stack, token with
  | [], .finish => .complete last
  | .list items :: stack, .comma => .more (.list (last :: items) :: stack) .value
  | .list items :: stack, .closeList => .more stack (.separator (list (last :: items).reverse))
  | .object members key :: stack, .comma => .more stack (.key (setMember members key last) false)
  | .object members key :: stack, .closeObject =>
    .more stack (.separator (object (setMember members key last)))
  | _, _ => .refused (.malformed position)

/-- One step of the parser. -/
private def step (stack : List Frame) (expected : Expected) (position : Nat) (token : Token) : Progress :=
  match expected, token with
  | .value, token => beginValue stack position token
  | .valueOrClose, .closeList => .more (stack.drop 1) (.separator (list []))
  | .valueOrClose, token => beginValue stack position token
  | .key members true, .closeObject => .more stack (.separator (object members))
  | .key members _, .text key => .more stack (.colon members key)
  | .key _ _, .badText position => .refused (.malformed position)
  | .key _ _, _ => .refused (.malformed position)
  | .colon members key, .colon => .more (.object members key :: stack) .value
  | .colon _ _, _ => .refused (.malformed position)
  | .separator last, token => afterValue stack last position token

/-- Run the parser over the tokens. -/
private def runParser (stack : List Frame) (expected : Expected) : List (Nat × Token) → Except ParseError Json
  | [] => .error (.malformed 0)
  | (position, token) :: rest =>
    match step stack expected position token with
    | .more stack expected => runParser stack expected rest
    | .complete value => .ok value
    | .refused error => .error error

/-- The value that a text writes, or why it writes none. -/
def parse (s : String) : Except ParseError Json := runParser [] .value (Token.scan s)

end PaymentRetry.Json
