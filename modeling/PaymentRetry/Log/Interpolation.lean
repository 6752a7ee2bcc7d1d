import PaymentRetry.Json.Shown
import PaymentRetry.Log.Directive
import PaymentRetry.Number.Arithmetic
import PaymentRetry.Number.Notation

/-!
# Messages with arguments

The directives of a message stand for its arguments: `%s` for the plain form of a value, `%r` for its form within
other values and `%a` for that form in ASCII, `%c` for a character, `%d`, `%x` and `%o` for integers, and `%f`, `%e`
and `%g` for doubles.  A message whose directives do not match its arguments has no text.
-/

namespace PaymentRetry.Log

/-- The arguments that are still to be used: a row of them; or named ones, with the one that is used next unless
it has been used. -/
inductive Arguments where
  | row (items : List Json)
  | named (members : List (String × Json)) (current : Option Json)

namespace Arguments

/-- The arguments that a list stands for: a single object with members names them, and is itself the first to be
used. -/
def ofList : List Json → Arguments
  | [.object (m :: ms)] => named (m :: ms) (some (.object (m :: ms)))
  | items => row items

/-- The next argument, and those after it. -/
def next? : Arguments → Option (Json × Arguments)
  | row [] => none
  | row (x :: xs) => some (x, row xs)
  | named _ none => none
  | named members (some x) => some (x, named members none)

/-- The arguments after one has been called for by name. -/
def select? (name : String) : Arguments → Option Arguments
  | row _ => none
  | named members _ => ((Json.object members).get? name).map fun x => named members (some x)

/-- Whether nothing is left over; only of a row something can be. -/
def usedUp : Arguments → Bool
  | row items => items.isEmpty
  | named .. => true

end Arguments

/-! ### Values -/

/-- The integer that a value is for an integer directive. -/
private def asInteger? : Json → Option Int
  | .int n => some n
  | .bool b => some (if b then 1 else 0)
  | _ => none

/-- The integer part of a number. -/
private def asTruncated? : Json → Option Int
  | .float x => x.truncate?
  | j => asInteger? j

/-- The double that a value is for a decimal directive. -/
private def asDouble? : Json → Option Binary64
  | .float x => some x
  | j => (asInteger? j).bind fun n => if (Binary64.ofInt n).isFinite then some (.ofInt n) else none

/-- The character that a value is for a character directive: one of its own, or that of a number. -/
private def asCharacter? (j : Json) : Option Char :=
  match j with
  | .text s =>
    match s.toList with
    | [c] => some c
    | _ => none
  | j => (asInteger? j).bind fun n =>
    if n < 0 || 0x110000 ≤ n then none
    else if 0xd800 ≤ n && n < 0xe000 then some (Text.ofHalf n.toNat)
    else some (Char.ofNat n.toNat)

/-! ### Writing -/

/-- A text without characters outside ASCII, which are escaped. -/
private def inAscii (s : String) : String :=
  String.join (s.toList.map fun c => if c.toNat < 0x80 then c.toString else Text.escapeChar c)

/-- A text in capitals if a letter is one. -/
private def asCase (letter : Char) (s : String) : String := if letter.isUpper then s.map Char.toUpper else s

/-- A text with blanks up to a width. -/
private def padText (d : Directive) (width : Nat) (s : String) : String :=
  let missing := String.ofList (List.replicate (width - s.length) ' ')
  if d.has '-' then s ++ missing else missing ++ s

/-- A number with blanks or zeros up to a width, given its sign, what marks its base, and its digits. -/
private def padNumber (d : Directive) (width : Nat) (negative : Bool) (marker digits : String) : String :=
  let sign := if negative then "-" else if d.has '+' then "+" else if d.has ' ' then " " else ""
  let missing := width - (sign.length + marker.length + digits.length)
  if d.has '-' then sign ++ marker ++ digits ++ String.ofList (List.replicate missing ' ')
  else if d.has '0' then sign ++ marker ++ String.ofList (List.replicate missing '0') ++ digits
  else String.ofList (List.replicate missing ' ') ++ sign ++ marker ++ digits

/-- The digits of a number in a base, at least as many as the precision says. -/
private def integerDigits (base : Nat) (precision : Option Nat) (n : Int) : String :=
  let digits := Nat.toDigits base n.natAbs
  String.ofList (List.replicate (precision.getD 0 - digits.length) '0' ++ digits)

/-- The digits of a double under a directive, without its sign. -/
private def doubleDigits (d : Directive) (places : Nat) : Binary64 → String
  | .nan => "nan"
  | .infinite _ => "inf"
  | .finite _ mantissa scale =>
    let full := d.has '#'
    if d.letter.toLower = 'e' then Binary64.scientific full places mantissa scale
    else if d.letter.toLower = 'g' then Binary64.general full places mantissa scale
    else Binary64.fixed full places mantissa scale

/-- The text of an argument under a directive with this width and precision. -/
private def write? (d : Directive) (width : Nat) (precision : Option Nat) (value : Json) : Option String :=
  let cut (s : String) : String := precision.elim s fun n => String.ofList (s.toList.take n)
  let based (base : Nat) (marker : Char) : Option String :=
    (asInteger? value).map fun n =>
      let marker := if d.has '#' then String.ofList ['0', marker] else ""
      padNumber d width (n < 0) (asCase d.letter marker) (asCase d.letter (integerDigits base precision n))
  match d.letter with
  | 's' => some (padText d width (cut value.plain))
  | 'r' => some (padText d width (cut value.shown))
  | 'a' => some (padText d width (cut (inAscii value.shown)))
  | 'c' => (asCharacter? value).map fun c => padText d width c.toString
  | 'd' | 'i' | 'u' =>
    (asTruncated? value).map fun n => padNumber d width (n < 0) "" (integerDigits 10 precision n)
  | 'x' | 'X' => based 16 'x'
  | 'o' => based 8 'o'
  | 'e' | 'E' | 'f' | 'F' | 'g' | 'G' =>
    (asDouble? value).map fun x =>
      padNumber d width x.isNegative "" (asCase d.letter (doubleDigits d (precision.getD 6) x))
  | _ => none

/-- A width or precision that an argument gives, and the arguments after it. -/
private def extentArgument? (arguments : Arguments) : Option (Int × Arguments) := do
  let (value, arguments) ← arguments.next?
  let n ← asInteger? value
  if n.natAbs ≤ maxExtent then return (n, arguments) else none

/-- A width, and whether it makes the text stand on the left; it may use up an argument. -/
private def width? (e : Extent) (arguments : Arguments) : Option (Nat × Bool × Arguments) :=
  match e with
  | .unset => some (0, false, arguments)
  | .given n => some (n, false, arguments)
  | .argument => (extentArgument? arguments).map fun (n, arguments) => (n.natAbs, n < 0, arguments)

/-- A precision; it may use up an argument. -/
private def precision? (e : Extent) (arguments : Arguments) : Option (Option Nat × Arguments) :=
  match e with
  | .unset => some (none, arguments)
  | .given n => some (some n, arguments)
  | .argument => (extentArgument? arguments).map fun (n, arguments) => (some n.toNat, arguments)

/-- The text of a directive, and the arguments after it. -/
private def convert? (d : Directive) (arguments : Arguments) : Option (String × Arguments) := do
  let arguments ← d.name.elim (some arguments) arguments.select?
  let (width, left, arguments) ← width? d.width arguments
  let (precision, arguments) ← precision? d.precision arguments
  let (value, arguments) ← arguments.next?
  let d := if left then { d with flags := '-' :: d.flags } else d
  return (← write? d width precision value, arguments)

/-- The text of pieces with arguments, all of which have to be used. -/
private def assemble? : List Piece → Arguments → Option String
  | [], arguments => if arguments.usedUp then some "" else none
  | .literal c :: rest, arguments => (c.toString ++ ·) <$> assemble? rest arguments
  | .directive d :: rest, arguments => do
    let (text, arguments) ← convert? d arguments
    return text ++ (← assemble? rest arguments)

/-- The text of a message with arguments.  Without arguments it is taken as it is. -/
def interpolate? (message : String) (arguments : List Json) : Option String :=
  if arguments.isEmpty then some message
  else Piece.ofMessage? message >>= (assemble? · (.ofList arguments))

end PaymentRetry.Log
