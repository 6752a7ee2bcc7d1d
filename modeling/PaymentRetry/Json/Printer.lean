import PaymentRetry.Json.Basic
import PaymentRetry.Number.Shortest
import PaymentRetry.Text.Quoted

/-!
# Writing structured values

A `Json.Style` says what stands between the items of a list, what stands between a key and its value, and whether
characters outside ASCII are escaped.
-/

namespace PaymentRetry.Json

/-- How values are written. -/
structure Style where
  /-- What stands between two items. -/
  comma : String
  /-- What stands between a key and its value. -/
  colon : String
  /-- Whether DEL and the characters outside ASCII are escaped. -/
  asciiOnly : Bool

/-- The style of messages and events: no spaces, and characters outside ASCII as they are. -/
def Style.compact : Style := ⟨",", ":", false⟩

/-- The style of log lines: a space after each mark, and ASCII characters only. -/
def Style.spaced : Style := ⟨", ", ": ", true⟩

/-- The escape of one UTF-16 unit. -/
private def escapeUnit (n : Nat) : String := "\\u" ++ Text.hex 4 n

/-- One character of a text. -/
private def escapeChar (asciiOnly : Bool) (c : Char) : String :=
  let n := c.toNat
  if c = '"' then "\\\""
  else if c = '\\' then "\\\\"
  else if c = '\n' then "\\n"
  else if c = '\r' then "\\r"
  else if c = '\t' then "\\t"
  else if n = 8 then "\\b"
  else if n = 12 then "\\f"
  else if n < 0x20 then escapeUnit n
  else if asciiOnly && 0x7f ≤ n then
    if let some unit := Text.half? c then escapeUnit unit
    else if n < 0x10000 then escapeUnit n
    else escapeUnit (0xd800 + (n - 0x10000) / 0x400) ++ escapeUnit (0xdc00 + (n - 0x10000) % 0x400)
  else c.toString

/-- A text in double quotes. -/
def renderText (style : Style) (s : String) : String :=
  "\"" ++ s.foldl (fun acc c => acc ++ escapeChar style.asciiOnly c) "" ++ "\""

/-- The text of a double, with words for the values that have no digits. -/
def renderFloat : Binary64 → String
  | .nan => "NaN"
  | .infinite negative => if negative then "-Infinity" else "Infinity"
  | x => x.text

mutual

/-- The text of a value. -/
def render (style : Style) : Json → String
  | null => "null"
  | bool b => if b then "true" else "false"
  | int n => toString n
  | float x => renderFloat x
  | text s => renderText style s
  | list xs => "[" ++ renderItems style xs ++ "]"
  | object ms => "\x7b" ++ renderMembers style ms ++ "\x7d"

/-- The texts of the items, with commas between them. -/
def renderItems (style : Style) : List Json → String
  | [] => ""
  | [x] => render style x
  | x :: xs => render style x ++ style.comma ++ renderItems style xs

/-- The texts of the members, with commas between them. -/
def renderMembers (style : Style) : List (String × Json) → String
  | [] => ""
  | [(key, x)] => renderText style key ++ style.colon ++ render style x
  | (key, x) :: ms => renderText style key ++ style.colon ++ render style x ++ style.comma ++ renderMembers style ms

end

end PaymentRetry.Json
