import PaymentRetry.Json.Basic
import PaymentRetry.Number.Shortest
import PaymentRetry.Text.Quoted

/-!
# Structured values in messages

In the wording of a message a value is shown in a form of its own: texts in quotes, words for null and the truth
values, and spaces after the marks.  A text that is not part of another value stands without quotes.
-/

namespace PaymentRetry.Json

mutual

/-- The form of a value within another one. -/
def shown : Json → String
  | null => "None"
  | bool b => if b then "True" else "False"
  | int n => toString n
  | float x => x.text
  | text s => Text.quoted s
  | list items => "[" ++ shownItems items ++ "]"
  | object members => "\x7b" ++ shownMembers members ++ "\x7d"

/-- The forms of the items, with commas between them. -/
def shownItems : List Json → String
  | [] => ""
  | [x] => shown x
  | x :: xs => shown x ++ ", " ++ shownItems xs

/-- The forms of the members, with commas between them. -/
def shownMembers : List (String × Json) → String
  | [] => ""
  | [(key, x)] => Text.quoted key ++ ": " ++ shown x
  | (key, x) :: ms => Text.quoted key ++ ": " ++ shown x ++ ", " ++ shownMembers ms

end

/-- The name of the kind of a value. -/
def kindName : Json → String
  | null => "NoneType"
  | bool _ => "bool"
  | int _ => "int"
  | float _ => "float"
  | text _ => "str"
  | list _ => "list"
  | object _ => "dict"

/-- The form of a value on its own. -/
def plain : Json → String
  | text s => s
  | j => shown j

end PaymentRetry.Json
