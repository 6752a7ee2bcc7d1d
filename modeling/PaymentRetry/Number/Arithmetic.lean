import PaymentRetry.Number.Binary64

/-!
# Arithmetic of doubles

The sum, the product and the quotient of two doubles are the exact results rounded to the nearest double.  Where there
is no exact result (an infinity less itself, an infinity times zero, zero by zero) the result is not a number.
-/

namespace PaymentRetry.Binary64

/-- Whether the value carries a minus sign. -/
def isNegative : Binary64 → Bool
  | nan => false
  | infinite negative => negative
  | finite negative _ _ => negative

/-- The value with the other sign. -/
def neg : Binary64 → Binary64
  | nan => nan
  | infinite negative => infinite !negative
  | finite negative mantissa scale => finite (!negative) mantissa scale

/-- The double nearest to a whole number of least positive values; a zero takes the sign given. -/
def ofUnits (zeroNegative : Bool) (n : Int) : Binary64 :=
  nearest (if n = 0 then zeroNegative else n < 0) n.natAbs unit

/-- The sum of two doubles.  A sum of zero is negative only if both are. -/
def add : Binary64 → Binary64 → Binary64
  | nan, _ => nan
  | _, nan => nan
  | infinite s, infinite t => if s = t then infinite s else nan
  | infinite s, finite .. => infinite s
  | finite .., infinite t => infinite t
  | x@(finite s _ _), y@(finite t _ _) => ofUnits (s && t) (x.toUnits?.getD 0 + y.toUnits?.getD 0)

/-- The difference of two doubles. -/
def sub (x y : Binary64) : Binary64 := add x y.neg

/-- The product of two doubles. -/
def mul : Binary64 → Binary64 → Binary64
  | nan, _ => nan
  | _, nan => nan
  | infinite s, y => if y.isZero then nan else infinite (s != y.isNegative)
  | x, infinite t => if x.isZero then nan else infinite (x.isNegative != t)
  | finite s m k, finite t n l => nearest (s != t) (units m k * units n l) (unit * unit)

/-- The quotient of two doubles. -/
def div : Binary64 → Binary64 → Binary64
  | nan, _ => nan
  | _, nan => nan
  | infinite _, infinite _ => nan
  | infinite s, finite t _ _ => infinite (s != t)
  | finite s _ _, infinite t => finite (s != t) 0 0
  | finite s m k, finite t n l =>
    if n = 0 then if m = 0 then nan else infinite (s != t)
    else nearest (s != t) (units m k) (units n l)

/-- The greatest integer that is not above a finite value. -/
def floor? (x : Binary64) : Option Int := x.toUnits?.map (Int.fdiv · unit)

/-- The integer nearest to a finite value; a half goes away from zero. -/
def round? (x : Binary64) : Option Int :=
  x.toUnits?.map fun n =>
    let whole : Nat := (2 * n.natAbs + unit) / (2 * unit)
    if n < 0 then -(whole : Int) else whole

/-- The sum of two doubles does not depend on their order. -/
theorem add_comm (x y : Binary64) : add x y = add y x := by
  cases x <;> cases y <;> simp only [add, toUnits?]
  · rename_i s t
    by_cases h : s = t
    · simp [h]
    · simp [h, Ne.symm h]
  · rw [Bool.and_comm, Int.add_comm]

end PaymentRetry.Binary64
