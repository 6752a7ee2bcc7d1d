import PaymentRetry.Text.Printable
import PaymentRetry.Text.Surrogate

/-!
# Quoted text

A text in messages stands in single quotes, or in double quotes when it holds a single quote and no double one.
The quote in use, the backslash and the unprintable characters are escaped; all else is shown as itself.
`encodingProblem?` words why a text cannot be written in UTF-8.
-/

namespace PaymentRetry.Text

/-- The lower-case hexadecimal digits of a number, padded with zeros to a width. -/
def hex (width n : Nat) : String :=
  let digits := Nat.toDigits 16 n
  String.ofList (List.replicate (width - digits.length) '0' ++ digits)

/-- The escape of a character by its number. -/
def escapeChar (c : Char) : String :=
  let n := (half? c).getD c.toNat
  if n < 0x100 then "\\x" ++ hex 2 n
  else if n < 0x10000 then "\\u" ++ hex 4 n
  else "\\U" ++ hex 8 n

/-- Why a text has no UTF-8 form, if it has none: where the halves stand at which writing it stops. -/
def encodingProblem? (s : String) : Option String :=
  let (before, rest) := s.toList.span fun c => (half? c).isNone
  let halves := rest.takeWhile fun c => (half? c).isSome
  let start := before.length
  let place := match halves with
    | [] => none
    | [c] => some ("character '" ++ escapeChar c ++ "' in position " ++ toString start)
    | _ => some ("characters in position " ++ toString start ++ "-" ++ toString (start + halves.length - 1))
  place.map fun place => "'utf-8' codec can't encode " ++ place ++ ": surrogates not allowed"

/-- One character of a quoted text. -/
private def quoteChar (mark c : Char) : String :=
  if c = mark || c = '\\' then String.ofList ['\\', c]
  else if c = '\n' then "\\n"
  else if c = '\r' then "\\r"
  else if c = '\t' then "\\t"
  else if isPrintable c then c.toString
  else escapeChar c

/-- A text in quotes. -/
def quoted (s : String) : String :=
  let mark := if s.toList.contains '\'' && !s.toList.contains '"' then '"' else '\''
  mark.toString ++ String.join (s.toList.map (quoteChar mark)) ++ mark.toString

end PaymentRetry.Text
