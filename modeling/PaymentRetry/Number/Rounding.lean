/-!
# Rounding a quotient

`roundDiv num den` is the natural number nearest to `num / den`, and a half goes to the even neighbour.  The
basic facts are that a whole quotient is kept (`roundDiv_mul`) and that the result is never more than half a unit
away (`two_mul_roundDiv_le`, `le_two_mul_roundDiv`).
-/

namespace PaymentRetry.Number

/-- The natural number nearest to `num / den`; of two equally near ones the even one. -/
def roundDiv (num den : Nat) : Nat :=
  let q := num / den
  let r := num % den
  if 2 * r < den then q
  else if den < 2 * r then q + 1
  else q + q % 2

/-- A whole quotient is its own rounding. -/
theorem roundDiv_mul (q den : Nat) (h : 0 < den) : roundDiv (q * den) den = q := by
  simp [roundDiv, Nat.mul_div_cancel _ h, h]

/-- The rounding exceeds the quotient by at most a half. -/
theorem two_mul_roundDiv_le (num den : Nat) (h : 0 < den) :
    2 * (roundDiv num den * den) ≤ 2 * num + den := by
  have hq : den * (num / den) + num % den = num := Nat.div_add_mod num den
  have hr : num % den < den := Nat.mod_lt _ h
  simp only [roundDiv]
  split
  · rw [Nat.mul_comm (num / den)]; omega
  · split
    · rw [Nat.add_mul, Nat.mul_comm (num / den)]; omega
    · rcases Nat.mod_two_eq_zero_or_one (num / den) with e | e <;>
        rw [e, Nat.add_mul, Nat.mul_comm (num / den)] <;> omega

/-- The rounding falls short of the quotient by at most a half. -/
theorem le_two_mul_roundDiv (num den : Nat) (h : 0 < den) :
    2 * num ≤ 2 * (roundDiv num den * den) + den := by
  have hq : den * (num / den) + num % den = num := Nat.div_add_mod num den
  have hr : num % den < den := Nat.mod_lt _ h
  simp only [roundDiv]
  split
  · rw [Nat.mul_comm (num / den)]; omega
  · split
    · rw [Nat.add_mul, Nat.mul_comm (num / den)]; omega
    · rcases Nat.mod_two_eq_zero_or_one (num / den) with e | e <;>
        rw [e, Nat.add_mul, Nat.mul_comm (num / den)] <;> omega

end PaymentRetry.Number
