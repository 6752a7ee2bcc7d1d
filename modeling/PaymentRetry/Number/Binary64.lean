import PaymentRetry.Number.Rounding

/-!
# Binary floating point

`Binary64` holds the values of the IEEE double format.  A finite value is a mantissa and a scale: it stands for
`mantissa * 2 ^ scale / 2 ^ 1074`, so that every finite value is a whole multiple of the least positive one.
`Binary64.nearest` rounds a quotient of natural numbers to this format, ties to the even mantissa.
-/

namespace PaymentRetry

/-- A double: not a number, an infinity, or `± mantissa * 2 ^ scale / 2 ^ 1074`. -/
inductive Binary64 where
  | nan
  | infinite (negative : Bool)
  | finite (negative : Bool) (mantissa scale : Nat)
  deriving DecidableEq, Repr, Inhabited

namespace Binary64

/-- The number of least positive values in one. -/
def unit : Nat := Nat.pow 2 1074

/-- The largest scale of a finite value. -/
def maxScale : Nat := 971 + 1074

/-- The double nearest to `± units / den` least positive values, ties to the even mantissa.  A value of at least
`2 ^ 1024` less half of the last place becomes infinite. -/
def ofQuotient (negative : Bool) (units den : Nat) : Binary64 :=
  let scale := (units / den).log2 - 52
  let mantissa := Number.roundDiv units (den * Nat.pow 2 scale)
  let (mantissa, scale) := if mantissa = Nat.pow 2 53 then (Nat.pow 2 52, scale + 1) else (mantissa, scale)
  if maxScale < scale then infinite negative else finite negative mantissa scale

/-- The double nearest to `± num / den`, ties to the even mantissa. -/
def nearest (negative : Bool) (num den : Nat) : Binary64 := ofQuotient negative (num * unit) den

/-- The double nearest to an integer. -/
def ofInt (n : Int) : Binary64 := nearest (n < 0) n.natAbs 1

/-- The magnitude of a finite value, counted in least positive values. -/
def units (mantissa scale : Nat) : Nat := mantissa * Nat.pow 2 scale

/-- A finite value counted in least positive values. -/
def toUnits? : Binary64 → Option Int
  | finite negative mantissa scale =>
    some (if negative then -(units mantissa scale : Int) else units mantissa scale)
  | _ => none

/-- The order of the extended reals, in which nothing is comparable with NaN. -/
def lt : Binary64 → Binary64 → Bool
  | nan, _ => false
  | _, nan => false
  | infinite s, infinite t => s && !t
  | infinite s, finite .. => s
  | finite .., infinite t => !t
  | x@(finite ..), y@(finite ..) =>
    match x.toUnits?, y.toUnits? with
    | some a, some b => a < b
    | _, _ => false

/-- Whether the value equals zero, of either sign. -/
def isZero : Binary64 → Bool
  | finite _ mantissa _ => mantissa == 0
  | _ => false

/-- Whether the value is neither infinite nor NaN. -/
def isFinite : Binary64 → Bool
  | finite .. => true
  | _ => false

/-- The double zero. -/
def zero : Binary64 := finite false 0 0

/-- Whether a finite value is a whole number. -/
def isWhole : Binary64 → Bool
  | finite _ mantissa scale => units mantissa scale % unit == 0
  | _ => false

/-- The integer part of a finite value, toward zero. -/
def truncate? : Binary64 → Option Int
  | finite negative mantissa scale =>
    let whole : Nat := units mantissa scale / unit
    some (if negative then -(whole : Int) else whole)
  | _ => none

/-- The number of hundredths nearest to a finite value's magnitude. -/
def hundredths (mantissa scale : Nat) : Nat := Number.roundDiv (units mantissa scale * 100) unit

end Binary64

end PaymentRetry
