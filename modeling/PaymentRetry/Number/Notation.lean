import PaymentRetry.Number.Shortest

/-!
# Notations with a number of digits

A positive double can be written with a number of decimal places (`fixed`), with a number of places and an exponent
(`scientific`), or with a number of digits in the one or the other way (`general`).  The last digit is rounded, a half
to the even one.  On request the point is kept where no digit follows it.
-/

namespace PaymentRetry.Binary64

/-- Digits with a point before the last `places` of them. -/
private def pointed (keepPoint : Bool) (places n : Nat) : String :=
  let digits := (toString n).toList
  let digits := List.replicate (places + 1 - digits.length) '0' ++ digits
  let whole := digits.take (digits.length - places)
  let fraction := digits.drop (digits.length - places)
  String.ofList (whole ++ (if fraction.isEmpty && !keepPoint then [] else '.' :: fraction))

/-- The value of a mantissa and a scale with a number of decimal places. -/
def fixed (keepPoint : Bool) (places mantissa scale : Nat) : String :=
  pointed keepPoint places (Number.roundDiv (units mantissa scale * Nat.pow 10 places) unit)

/-- The first `count` digits of a value, rounded, and the exponent of the first of them. -/
private def leadingDigits (count mantissa scale : Nat) : Nat × Int :=
  let num := units mantissa scale
  if num = 0 then (0, 0)
  else
    let leading := leadingExponent num unit
    let last := leading - (count - 1 : Nat)
    let digits :=
      if last < 0 then Number.roundDiv (num * Nat.pow 10 last.natAbs) unit
      else Number.roundDiv num (unit * Nat.pow 10 last.natAbs)
    if digits = Nat.pow 10 count then (Nat.pow 10 (count - 1), leading + 1) else (digits, leading)

/-- The value of a mantissa and a scale with one digit before the point, a number of decimal places, and an
exponent. -/
def scientific (keepPoint : Bool) (places mantissa scale : Nat) : String :=
  let (digits, leading) := leadingDigits (places + 1) mantissa scale
  pointed keepPoint places digits ++ "e" ++ exponentText leading

/-- Drop the zeros at the end of a natural number of which `places` digits stand after a point, and these only. -/
private def dropPlaces : Nat → Nat → Nat × Nat
  | 0, n => (0, n)
  | places + 1, n => if n % 10 = 0 then dropPlaces places (n / 10) else (places + 1, n)

/-- The value of a mantissa and a scale with at most `count` digits: with an exponent if the first digit stands more
than four places after the point, or more than `count` before it.  Zeros at the end are dropped unless `full`. -/
def general (full : Bool) (count mantissa scale : Nat) : String :=
  let count := max 1 count
  let (digits, leading) := leadingDigits count mantissa scale
  let written (places : Nat) : String :=
    let (places, digits) := if full then (places, digits) else dropPlaces places digits
    pointed full places digits
  if leading < -4 || count ≤ leading then written (count - 1) ++ "e" ++ exponentText leading
  else written ((count - 1 : Nat) - leading).toNat

end PaymentRetry.Binary64
