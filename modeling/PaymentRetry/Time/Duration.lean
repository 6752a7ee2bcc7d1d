import PaymentRetry.Number.Quantity

/-!
# Durations

A duration is a whole number of microseconds, of either sign.  `Duration.ofSeconds` and `Duration.ofDays` round a
given number of seconds or days to the nearest microsecond, a half to the even one, and refuse more than
999999999 days.
-/

namespace PaymentRetry

/-- Why a moment or a span of time cannot be represented. -/
inductive RangeError where
  /-- The result lies outside the calendar. -/
  | dateOutOfRange
  /-- The span has more days than a duration may have. -/
  | tooManyDays (days : Int)
  /-- The number of days does not even fit a 32-bit word. -/
  | wordTooSmall
  /-- The number given is infinite. -/
  | infinite
  /-- The number given is not a number. -/
  | notANumber
  deriving DecidableEq, Repr

/-- The wording of a range error. -/
def RangeError.message : RangeError → String
  | dateOutOfRange => "date value out of range"
  | tooManyDays days => "days=" ++ toString days ++ "; must have magnitude <= 999999999"
  | wordTooSmall => "Python int too large to convert to C int"
  | infinite => "cannot convert float infinity to integer"
  | notANumber => "cannot convert float NaN to integer"

/-- A span of time in microseconds. -/
structure Duration where
  micros : Int
  deriving DecidableEq, Repr, Inhabited

namespace Duration

/-- The microseconds of a second. -/
def second : Nat := 1000000

/-- The microseconds of a day. -/
def day : Nat := 86400 * second

/-- The largest number of days of a duration. -/
def maxDays : Int := 999999999

/-- The duration of that many microseconds, if it is short enough. -/
def ofMicros (micros : Int) : Except RangeError Duration :=
  let days := Int.fdiv micros day
  if days < -Nat.pow 2 31 || Nat.pow 2 31 ≤ days then .error .wordTooSmall
  else if days < -maxDays || maxDays < days then .error (.tooManyDays days)
  else .ok ⟨micros⟩

/-- The microseconds of `x` units of `factor` microseconds each.  The part of a double after the point is
multiplied in double precision before the sum is rounded. -/
def scaledMicros (factor : Nat) : Quantity → Except RangeError Int
  | .whole n => .ok (n * factor)
  | .double .nan => .error .notANumber
  | .double (.infinite _) => .error .infinite
  | .double (.finite negative mantissa scale) =>
    let units := Binary64.units mantissa scale
    let fraction := match Binary64.nearest false (units % Binary64.unit * factor) Binary64.unit with
      | .finite _ m s => Binary64.units m s
      | _ => 0
    let micros := Number.roundDiv (units / Binary64.unit * factor * Binary64.unit + fraction) Binary64.unit
    .ok (if negative then -(micros : Int) else micros)

/-- The duration of a number of seconds. -/
def ofSeconds (x : Quantity) : Except RangeError Duration := scaledMicros second x >>= ofMicros

/-- The duration of a number of days. -/
def ofDays (x : Quantity) : Except RangeError Duration := scaledMicros day x >>= ofMicros

/-- The form of a duration in messages: its days, seconds and microseconds, of which only the days may be negative. -/
def shown (d : Duration) : String :=
  let days := Int.fdiv d.micros day
  let rest := (d.micros - days * day).toNat
  let parts := [("days", days), ("seconds", (rest / second : Nat)), ("microseconds", (rest % second : Nat))]
  let parts := (parts.filter (·.2 != 0)).map fun (name, n) => name ++ "=" ++ toString n
  "datetime.timedelta(" ++ (if parts.isEmpty then "0" else ", ".intercalate parts) ++ ")"

/-- The length in seconds, as the nearest double. -/
def seconds (d : Duration) : Binary64 := .nearest (d.micros < 0) d.micros.natAbs second

end Duration

end PaymentRetry
