import PaymentRetry.Number.Shortest

/-!
# Numbers as they are given

A configured number is an integer or a double, and keeps its kind: the two are printed differently, while they are
compared by exact value.
-/

namespace PaymentRetry

/-- A number that is given as an integer or as a double. -/
inductive Quantity where
  | whole (n : Int)
  | double (x : Binary64)
  deriving DecidableEq, Repr, Inhabited

namespace Quantity

/-- The text of a number, which tells its kind. -/
def text : Quantity → String
  | whole n => toString n
  | double x => x.text

/-- Whether a double is at least the number, by exact value. -/
def le (q : Quantity) (x : Binary64) : Bool :=
  match q, x with
  | double y, x => y == x && x != .nan || y.lt x || (y.isZero && x.isZero)
  | whole _, .nan => false
  | whole _, .infinite negative => !negative
  | whole n, x => match x.toUnits? with
    | some units => n * (Binary64.unit : Int) ≤ units
    | none => false

/-- The number as a double. -/
def toBinary64 : Quantity → Binary64
  | whole n => .ofInt n
  | double x => x

/-- Whether the number lies in the range of doubles. -/
def hasDouble : Quantity → Bool
  | whole n => (Binary64.ofInt n).isFinite
  | double _ => true

end Quantity

end PaymentRetry
