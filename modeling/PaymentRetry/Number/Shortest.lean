import PaymentRetry.Number.Binary64

/-!
# The shortest decimal text of a double

Of the decimal numbers that read back as a given double, `Binary64.shortest` takes those with the fewest digits
and of these the nearest one.  `Binary64.text` writes it positionally from `1e-4` up to below `1e16`, with a point
and at least one digit after it, and with a two-digit signed exponent otherwise.
-/

namespace PaymentRetry.Binary64

/-- The exponent of the first decimal digit of a positive quotient. -/
def leadingExponent (num den : Nat) : Int :=
  ((toString (num * Nat.pow 10 400 / den)).length : Int) - 401

/-- The candidates with `count` digits: the two neighbours of the value on the grid of the count's last digit,
the nearer one first. -/
private def candidates (num den : Nat) (exponent : Int) : List Nat :=
  let (num, den) := if exponent < 0 then (num * Nat.pow 10 exponent.natAbs, den)
    else (num, den * Nat.pow 10 exponent.natAbs)
  let low := num / den
  if num % den = 0 then [low]
  else if Number.roundDiv num den = low then [low, low + 1] else [low + 1, low]

/-- Whether `digits * 10 ^ exponent` reads back as the positive value of this mantissa and scale. -/
private def readsBack (mantissa scale digits : Nat) (exponent : Int) : Bool :=
  let read := if exponent < 0 then nearest false digits (Nat.pow 10 exponent.natAbs)
    else nearest false (digits * Nat.pow 10 exponent.natAbs) 1
  read == finite false mantissa scale

/-- The first of `count, count + 1, …` digits (at most `fuel` of them) that can express the value. -/
private def search (mantissa scale num den : Nat) (leading : Int) : Nat → Nat → Nat × Int
  | 0, count =>
    let exponent := leading - count + 1
    ((candidates num den exponent).headD 0, exponent)
  | fuel + 1, count =>
    let exponent := leading - count + 1
    match (candidates num den exponent).find? (readsBack mantissa scale · exponent) with
    | some digits => (digits, exponent)
    | none => search mantissa scale num den leading fuel (count + 1)

/-- The digits and the exponent of the last one, in the shortest decimal number that reads back as a positive
value; seventeen digits always suffice. -/
def shortest (mantissa scale : Nat) : Nat × Int :=
  let num := units mantissa scale
  if num = 0 then (0, 0)
  else search mantissa scale num unit (leadingExponent num unit) 16 1

/-- Drop the zeros at the end of a list of digits. -/
private def dropTrailingZeros (digits : List Char) : List Char :=
  (digits.reverse.dropWhile (· == '0')).reverse

/-- An exponent with its sign and at least two digits. -/
def exponentText (e : Int) : String :=
  let digits := toString e.natAbs
  (if e < 0 then "-" else "+") ++ (if digits.length < 2 then "0" ++ digits else digits)

/-- The text of a positive value. -/
private def magnitudeText (mantissa scale : Nat) : String :=
  let (coefficient, exponent) := shortest mantissa scale
  let all := (toString coefficient).toList
  let leading : Int := exponent + all.length - 1
  let digits := dropTrailingZeros all
  if coefficient = 0 then "0.0"
  else if leading < -4 || leading ≥ 16 then
    let fraction := digits.drop 1
    String.ofList (digits.take 1) ++ (if fraction.isEmpty then "" else "." ++ String.ofList fraction) ++ "e"
      ++ exponentText leading
  else if leading < 0 then
    "0." ++ String.ofList (List.replicate (leading.natAbs - 1) '0') ++ String.ofList digits
  else
    let places := leading.toNat + 1
    let whole := digits.take places ++ List.replicate (places - digits.length) '0'
    let fraction := digits.drop places
    String.ofList whole ++ "." ++ (if fraction.isEmpty then "0" else String.ofList fraction)

/-- The text of a double. -/
def text : Binary64 → String
  | nan => "nan"
  | infinite negative => if negative then "-inf" else "inf"
  | finite negative mantissa scale => (if negative then "-" else "") ++ magnitudeText mantissa scale

end PaymentRetry.Binary64
