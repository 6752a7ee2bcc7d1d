import PaymentRetry.Number.Shortest
import PaymentRetry.Text.Blank
import PaymentRetry.Text.Digit

/-!
# Decimal numbers

A decimal keeps the coefficient and the exponent it was written with, so `10`, `10.0` and `1E+1` are equal in value
and differ in text.  `Decimal.parse` reads the scientific-notation grammar, `Decimal.text` writes it, and
`Decimal.toBinary64` and `Decimal.ofHundredths` are the two halves of storing an amount as a double and reading it
back with two places.
-/

namespace PaymentRetry

/-- A decimal: `± coefficient * 10 ^ exponent`, an infinity, or not a number (quiet or signalling). -/
inductive Decimal where
  | finite (negative : Bool) (coefficient : Nat) (exponent : Int)
  | infinite (negative : Bool)
  | nan (signalling : Bool)
  deriving DecidableEq, Repr, Inhabited

namespace Decimal

/-- Why a text is no decimal: it does not have the form of one, or its exponent is out of range. -/
inductive ParseError where
  | malformed
  | unrepresentable
  deriving DecidableEq, Repr

/-- The wording of a parse error. -/
def ParseError.message : ParseError → String
  | malformed => "[<class 'decimal.ConversionSyntax'>]"
  | unrepresentable => "[<class 'decimal.InvalidOperation'>]"

/-- The largest exponent of a leading digit. -/
def maxExponent : Int := 999999999999999999

/-- The least exponent of a last digit. -/
def minExponent : Int := -1999999999999999997

/-- The text with each digit of any script as an ASCII digit and each blank as a space; underscores are dropped.
There is none when another character outside ASCII occurs. -/
private def plain? (cs : List Char) : Option (List Char) :=
  ((Text.trimBy Text.isBlank cs).filter (· != '_')).mapM fun c =>
    if 0 < c.toNat && c.toNat < 128 then some c
    else if Text.isBlank c then some ' '
    else (Text.digitValue? c).map fun d => Char.ofNat ('0'.toNat + d)

/-- An optionally signed number: whether it is negative, and what follows the sign. -/
private def splitSign : List Char → Bool × List Char
  | '-' :: rest => (true, rest)
  | '+' :: rest => (false, rest)
  | cs => (false, cs)

/-- An exponent part, which is empty or a marker, a sign and digits. -/
private def exponentPart? : List Char → Option Int
  | [] => some 0
  | marker :: rest =>
    if marker = 'e' || marker = 'E' then
      let (negative, digits) := splitSign rest
      (Text.natOfDigits? digits).map fun n => if negative then -(n : Int) else n
    else none

/-- The digits and the exponent of an unsigned number: digits, perhaps with a point among them, and perhaps an
exponent. -/
private def numeral? (cs : List Char) : Option (List Char × Int) :=
  let whole := cs.takeWhile Char.isDigit
  let (fraction, rest) := match cs.dropWhile Char.isDigit with
    | '.' :: rest => (rest.takeWhile Char.isDigit, rest.dropWhile Char.isDigit)
    | rest => ([], rest)
  if whole.isEmpty && fraction.isEmpty then none
  else (exponentPart? rest).map fun exponent => (whole ++ fraction, exponent - fraction.length)

/-- The decimal that an optionally signed number writes, however large its exponent. -/
def ofNumeral? (cs : List Char) : Option Decimal :=
  let (negative, cs) := splitSign cs
  (numeral? cs).map fun (digits, exponent) => .finite negative (Text.digitsValue digits) exponent

/-- Whether the exponent of a number is in range: that of its last digit, and that of its leading one. -/
private def inRange (coefficient : Nat) (exponent : Int) : Bool :=
  minExponent ≤ exponent && exponent + (toString coefficient).length - 1 ≤ maxExponent

/-- Read an unsigned decimal. -/
private def parseMagnitude (negative : Bool) (cs : List Char) : Except ParseError Decimal :=
  let lower := cs.map Char.toLower
  if lower = ['i', 'n', 'f'] || lower = ['i', 'n', 'f', 'i', 'n', 'i', 't', 'y'] then .ok (.infinite negative)
  else if lower.take 3 = ['n', 'a', 'n'] && (lower.drop 3).all Char.isDigit then .ok (.nan false)
  else if lower.take 4 = ['s', 'n', 'a', 'n'] && (lower.drop 4).all Char.isDigit then .ok (.nan true)
  else match numeral? cs with
    | none => .error .malformed
    | some (digits, exponent) =>
      let coefficient := Text.digitsValue digits
      if inRange coefficient exponent then .ok (.finite negative coefficient exponent) else .error .unrepresentable

/-- Read a decimal: blanks around it and underscores anywhere in it are ignored. -/
def parse (s : String) : Except ParseError Decimal :=
  match plain? s.toList with
  | none => .error .malformed
  | some cs =>
    let (negative, cs) := splitSign cs
    parseMagnitude negative cs

/-- The decimal of an integer. -/
def ofInt (n : Int) : Decimal := finite (n < 0) n.natAbs 0

/-- The decimal with exactly the value of a double. -/
def ofBinary64Exact : Binary64 → Decimal
  | .nan => nan false
  | .infinite negative => infinite negative
  | .finite negative mantissa scale =>
    if mantissa = 0 then finite negative 0 0
    else if 1074 ≤ scale then finite negative (mantissa * Nat.pow 2 (scale - 1074)) 0
    else
      let twos := (List.range (1074 - scale)).foldl
        (fun (m, k) _ => if m % 2 = 0 then (m / 2, k - 1) else (m, k)) (mantissa, 1074 - scale)
      finite negative (twos.1 * Nat.pow 5 twos.2) (-(twos.2 : Int))

/-- The decimal that the shortest text of a double writes. -/
def ofBinary64Shortest (x : Binary64) : Decimal := (parse x.text).toOption.getD (nan false)

/-- The number of `n / 100` with two places. -/
def ofHundredths (negative : Bool) (n : Nat) : Decimal := finite negative n (-2)

/-- The double nearest to a decimal, ties to the even mantissa. -/
def toBinary64 : Decimal → Binary64
  | nan _ => .nan
  | infinite negative => .infinite negative
  | finite negative coefficient exponent =>
    let leading := exponent + (toString coefficient).length - 1
    if coefficient = 0 || leading < -400 then .finite negative 0 0
    else if 400 < leading then .infinite negative
    else if exponent < 0 then .nearest negative coefficient (Nat.pow 10 exponent.natAbs)
    else .nearest negative (coefficient * Nat.pow 10 exponent.natAbs) 1

/-- Whether the value is neither infinite nor NaN. -/
def isFinite : Decimal → Bool
  | finite .. => true
  | _ => false

/-- The text of a finite magnitude: positional while the exponent is at most zero and the first digit stands at
most six places after the point, with an exponent otherwise. -/
private def magnitude (coefficient : Nat) (exponent : Int) : String :=
  let digits := (toString coefficient).toList
  let leading : Int := exponent + digits.length
  let point : Int := if exponent ≤ 0 && -6 < leading then leading else 1
  let (whole, fraction) :=
    if point ≤ 0 then (['0'], List.replicate point.natAbs '0' ++ digits)
    else if (digits.length : Int) ≤ point then (digits ++ List.replicate (point.toNat - digits.length) '0', [])
    else (digits.take point.toNat, digits.drop point.toNat)
  let power := leading - point
  String.ofList whole ++ (if fraction.isEmpty then "" else "." ++ String.ofList fraction)
    ++ (if power = 0 then "" else "E" ++ (if power < 0 then "-" else "+") ++ toString power.natAbs)

/-- The text of a decimal. -/
def text : Decimal → String
  | finite negative coefficient exponent => (if negative then "-" else "") ++ magnitude coefficient exponent
  | infinite negative => if negative then "-Infinity" else "Infinity"
  | nan signalling => if signalling then "sNaN" else "NaN"

end Decimal

end PaymentRetry
