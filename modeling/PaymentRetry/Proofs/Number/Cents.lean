import Mathlib.Algebra.Order.Field.Power
import Mathlib.Algebra.Order.Field.Rat
import Mathlib.Tactic.FieldSimp
import Mathlib.Tactic.Linarith
import Mathlib.Tactic.Positivity
import Mathlib.Tactic.Ring
import PaymentRetry.Api.Order
import PaymentRetry.Attempt

/-!
# Amounts in cents

An amount is stored as the nearest double and read back with two places.  An amount that is a whole number of cents, and
not too large, is read back as it was (`Decimal.stored_of_cents`): the double is away from it by much less than half a
cent.  The amounts that an order may have are such amounts (`Validation.positiveDecimal_eq_ok`), so they are read back
as they were (`Validation.stored_of_positiveDecimal`).
-/

namespace PaymentRetry

/-! ### Rounding -/

/-- A whole number `n` nearer to `num / den` than a half is its rounding. -/
theorem Number.roundDiv_eq {num den n : Nat} (hden : 0 < den) (hlow : 2 * num < 2 * (n * den) + den)
    (hhigh : 2 * (n * den) < 2 * num + den) : roundDiv num den = n := by
  have hle := two_mul_roundDiv_le num den hden
  have hge := le_two_mul_roundDiv num den hden
  have hlt : roundDiv num den * den < (n + 1) * den := by
    rw [Nat.add_mul]
    omega
  have hgt : n * den < (roundDiv num den + 1) * den := by
    rw [Nat.add_mul]
    omega
  have hle' := Nat.lt_of_mul_lt_mul_right hlt
  have hge' := Nat.lt_of_mul_lt_mul_right hgt
  omega

namespace Binary64

/-- The rounded value is off by at most half the value of its last place. -/
theorem ofQuotient_near (negative : Bool) (magnitude : Nat) {den : Nat} (hden : 0 < den)
    (hrange : (magnitude / den).log2 - 52 < maxScale) :
    ∃ m s, ofQuotient negative magnitude den = .finite negative m s ∧
      2 * (units m s * den) ≤ 2 * magnitude + den * 2 ^ ((magnitude / den).log2 - 52) ∧
      2 * magnitude ≤ 2 * (units m s * den) + den * 2 ^ ((magnitude / den).log2 - 52) := by
  unfold ofQuotient
  simp only [Nat.pow_eq]
  generalize (magnitude / den).log2 - 52 = t at hrange ⊢
  have hstep : 0 < den * 2 ^ t := Nat.mul_pos hden (Nat.two_pow_pos t)
  have hle := Number.two_mul_roundDiv_le magnitude (den * 2 ^ t) hstep
  have hge := Number.le_two_mul_roundDiv magnitude (den * 2 ^ t) hstep
  generalize Number.roundDiv magnitude (den * 2 ^ t) = m at hle hge ⊢
  -- a mantissa that has become too long stands for the same value with the next scale
  have hunits : ∀ m' s', m' * 2 ^ s' = m * 2 ^ t →
      2 * (units m' s' * den) ≤ 2 * magnitude + den * 2 ^ t ∧
        2 * magnitude ≤ 2 * (units m' s' * den) + den * 2 ^ t := by
    intro m' s' heq
    have hvalue : units m' s' * den = m * (den * 2 ^ t) := by
      unfold units
      rw [Nat.pow_eq, heq]
      ring
    rw [hvalue]
    exact ⟨hle, hge⟩
  by_cases hlong : m = 2 ^ 53
  · have hvalue : 2 ^ 52 * 2 ^ (t + 1) = m * 2 ^ t := by
      rw [hlong, pow_succ]
      ring
    refine ⟨2 ^ 52, t + 1, ?_, hunits _ _ hvalue⟩
    simp only [hlong, if_true]
    exact if_neg (by omega)
  · refine ⟨m, t, ?_, hunits _ _ rfl⟩
    simp only [hlong, if_false]
    exact if_neg (by omega)

/-- The least positive value is a power of two.  The exponent is hidden, since nothing depends on it and it is large. -/
theorem exists_unit_eq : ∃ k, 52 ≤ k ∧ maxScale = 971 + k ∧ unit = 2 ^ k := by
  refine ⟨1074, by decide, rfl, ?_⟩
  unfold unit
  generalize 1074 = k
  exact Nat.pow_eq

/-- A value of `n` hundredths, if it is not too large, has `n` hundredths as a double. -/
theorem hundredths_nearest (negative : Bool) {num den n : Nat} (hden : 0 < den) (hn : num * 100 = n * den)
    (hsmall : n < 100 * 2 ^ 46) :
    ∃ m s, nearest negative num den = .finite negative m s ∧ hundredths m s = n := by
  obtain ⟨k, hk, hmax, hunit⟩ := exists_unit_eq
  unfold nearest hundredths
  rw [hunit]
  have hpos : 0 < 2 ^ k := Nat.two_pow_pos k
  -- the last place of the double is worth much less than a hundredth
  have hquotient : num * 2 ^ k / den < 2 ^ (46 + k) := by
    have hlt : num < 2 ^ 46 * den := by
      have hle : n * den < 100 * 2 ^ 46 * den := Nat.mul_lt_mul_of_pos_right hsmall hden
      omega
    rw [Nat.div_lt_iff_lt_mul hden, Nat.pow_add]
    calc num * 2 ^ k < 2 ^ 46 * den * 2 ^ k := Nat.mul_lt_mul_of_pos_right hlt hpos
      _ = 2 ^ 46 * 2 ^ k * den := by ring
  have hlog : (num * 2 ^ k / den).log2 < 46 + k := by
    by_cases hzero : num * 2 ^ k / den = 0
    · rw [hzero, Nat.log2_zero]
      omega
    · exact (Nat.log2_lt hzero).2 hquotient
  obtain ⟨m, s, hfinite, hle, hge⟩ := ofQuotient_near negative (num * 2 ^ k) hden (by omega)
  refine ⟨m, s, hfinite, ?_⟩
  have hplace : 100 * 2 ^ ((num * 2 ^ k / den).log2 - 52) < 2 ^ k := by
    calc 100 * 2 ^ ((num * 2 ^ k / den).log2 - 52) < 2 ^ 7 * 2 ^ ((num * 2 ^ k / den).log2 - 52) :=
          Nat.mul_lt_mul_of_pos_right (by decide) (Nat.two_pow_pos _)
      _ = 2 ^ (7 + ((num * 2 ^ k / den).log2 - 52)) := (Nat.pow_add ..).symm
      _ ≤ 2 ^ k := Nat.pow_le_pow_right (by decide) (by omega)
  generalize 2 ^ ((num * 2 ^ k / den).log2 - 52) = place at hle hge hplace
  generalize 2 ^ k = one at hle hge hplace hpos ⊢
  have hscaled : num * one * 100 = n * one * den := by
    calc num * one * 100 = num * 100 * one := by ring
      _ = n * one * den := by rw [hn]; ring
  refine Number.roundDiv_eq hpos ?_ ?_
  · have hle' : 2 * (units m s * 100) * den ≤ (2 * (n * one) + 100 * place) * den := by
      calc 2 * (units m s * 100) * den = 100 * (2 * (units m s * den)) := by ring
        _ ≤ 100 * (2 * (num * one) + den * place) := Nat.mul_le_mul_left _ hle
        _ = 2 * (num * one * 100) + 100 * place * den := by ring
        _ = (2 * (n * one) + 100 * place) * den := by rw [hscaled]; ring
    have := Nat.le_of_mul_le_mul_right hle' hden
    omega
  · have hge' : 2 * (n * one) * den ≤ (2 * (units m s * 100) + 100 * place) * den := by
      calc 2 * (n * one) * den = 2 * (num * one * 100) := by rw [hscaled]; ring
        _ = 100 * (2 * (num * one)) := by ring
        _ ≤ 100 * (2 * (units m s * den) + den * place) := Nat.mul_le_mul_left _ hge
        _ = (2 * (units m s * 100) + 100 * place) * den := by ring
    have := Nat.le_of_mul_le_mul_right hge' hden
    omega

theorem isFinite_nearest (negative : Bool) {num den : Nat} (hden : 0 < den) (hsmall : num < 2 ^ 48 * den) :
    (nearest negative num den).isFinite = true := by
  obtain ⟨k, hk, hmax, hunit⟩ := exists_unit_eq
  unfold nearest
  rw [hunit]
  have hquotient : num * 2 ^ k / den < 2 ^ (48 + k) := by
    rw [Nat.div_lt_iff_lt_mul hden, Nat.pow_add]
    calc num * 2 ^ k < 2 ^ 48 * den * 2 ^ k := Nat.mul_lt_mul_of_pos_right hsmall (Nat.two_pow_pos k)
      _ = 2 ^ 48 * 2 ^ k * den := by ring
  have hlog : (num * 2 ^ k / den).log2 < 48 + k := by
    by_cases hzero : num * 2 ^ k / den = 0
    · rw [hzero, Nat.log2_zero]
      omega
    · exact (Nat.log2_lt hzero).2 hquotient
  obtain ⟨m, s, hfinite, -⟩ := ofQuotient_near negative (num * 2 ^ k) hden (by omega)
  rw [hfinite]
  rfl

end Binary64

/-! ### The value of a decimal -/

namespace Decimal

/-- The value of a decimal, unless it is infinite or not a number. -/
def value? : Decimal → Option ℚ
  | finite negative coefficient exponent => some ((if negative then -1 else 1) * (coefficient * 10 ^ exponent))
  | _ => none

theorem value?_positive (c : Nat) (e : Int) : (finite false c e).value? = some ((c : ℚ) * 10 ^ e) := by
  simp [value?]

theorem value?_ofHundredths (n : Nat) : (ofHundredths false n).value? = some ((n : ℚ) / 100) := by
  rw [ofHundredths, value?_positive, div_eq_mul_inv]
  norm_num

theorem pow_le_of_digits {c : Nat} (hc : c ≠ 0) : 10 ^ ((toString c).length - 1) ≤ c := by
  have hlength : (toString c).length = c.repr.length := rfl
  rw [hlength]
  by_cases hone : c.repr.length = 1
  · rw [hone]
    exact Nat.pos_of_ne_zero hc
  · have hpos : 0 < c.repr.length := Nat.length_repr_pos
    have hnot := mt (Nat.length_repr_le_iff (n := c) (by omega : 0 < c.repr.length - 1)).2
    omega

/-- The number of digits tells between which powers of ten `c` lies. -/
theorem digits_bounds {c : Nat} (hc : c ≠ 0) :
    (10 : ℚ) ^ (((toString c).length : Int) - 1) ≤ c ∧ (c : ℚ) < 10 ^ ((toString c).length : Int) := by
  have hpos : 0 < (toString c).length := Nat.length_repr_pos
  have hlt : c < 10 ^ (toString c).length := (Nat.length_repr_le_iff hpos).1 (Nat.le_refl _)
  have hge := pow_le_of_digits hc
  constructor
  · have hpred : ((toString c).length : Int) - 1 = (((toString c).length - 1 : Nat) : Int) := by omega
    rw [hpred, zpow_natCast]
    exact_mod_cast hge
  · rw [zpow_natCast]
    exact_mod_cast hlt

/-- Where the leading digit of a whole number of cents stands. -/
theorem leading_bounds {c n : Nat} {e : Int} (hc : c ≠ 0) (hn : (c : ℚ) * 10 ^ e = n / 100) (hpos : 0 < n)
    (hsmall : n < 2 ^ 48) :
    -400 ≤ e + (toString c).length - 1 ∧ e + (toString c).length - 1 ≤ 400 := by
  obtain ⟨hge, hlt⟩ := digits_bounds hc
  have hpower : (0 : ℚ) < 10 ^ e := by positivity
  generalize ((toString c).length : Int) = d at hge hlt ⊢
  have hlow : (10 : ℚ) ^ (-2 : Int) < 10 ^ (d + e) := by
    calc (10 : ℚ) ^ (-2 : Int) = 1 / 100 := by norm_num
      _ ≤ n / 100 := by gcongr; exact_mod_cast hpos
      _ = c * 10 ^ e := hn.symm
      _ < 10 ^ d * 10 ^ e := by gcongr
      _ = 10 ^ (d + e) := (zpow_add₀ (by norm_num) d e).symm
  have hhigh : (10 : ℚ) ^ (d - 1 + e) < 10 ^ (15 : Int) := by
    calc (10 : ℚ) ^ (d - 1 + e) = 10 ^ (d - 1) * 10 ^ e := zpow_add₀ (by norm_num) (d - 1) e
      _ ≤ c * 10 ^ e := by gcongr
      _ = n / 100 := hn
      _ < 2 ^ 48 / 100 := by gcongr; exact_mod_cast hsmall
      _ < 10 ^ (15 : Int) := by norm_num
  have hlow' := (zpow_lt_zpow_iff_right₀ (by norm_num : (1 : ℚ) < 10)).1 hlow
  have hhigh' := (zpow_lt_zpow_iff_right₀ (by norm_num : (1 : ℚ) < 10)).1 hhigh
  omega

/-- A whole number of cents that is not too large is read back as it was stored, with two places. -/
theorem stored_of_cents {c n : Nat} {e : Int} (hc : c ≠ 0) (hn : (c : ℚ) * 10 ^ e = n / 100) (hsmall : n < 2 ^ 48) :
    (finite false c e).stored = ofHundredths false n := by
  have hpos : 0 < n := by
    by_contra hzero
    have hvalue : (0 : ℚ) < c * 10 ^ e := by
      have : (0 : ℚ) < c := by exact_mod_cast Nat.pos_of_ne_zero hc
      positivity
    rw [hn, Nat.eq_zero_of_not_pos hzero] at hvalue
    simp at hvalue
  obtain ⟨hlow, hhigh⟩ := leading_bounds hc hn hpos hsmall
  -- the double nearest to the amount, as the quotient it is
  have hstored : ∀ num den : Nat, 0 < den → num * 100 = n * den →
      (finite false c e).toBinary64 = .nearest false num den → (finite false c e).stored = ofHundredths false n := by
    intro num den hden hhundred hdouble
    obtain ⟨m, s, hfinite, hhundredths⟩ := Binary64.hundredths_nearest false hden hhundred (by omega)
    unfold stored
    rw [hdouble, hfinite]
    simp [hhundredths]
  by_cases he : e < 0
  · refine hstored c (10 ^ e.natAbs) (Nat.pow_pos (by decide)) ?_ ?_
    · have hinverse : (10 : ℚ) ^ e = (10 ^ e.natAbs)⁻¹ := by
        rw [← zpow_natCast, ← zpow_neg]
        congr 1
        omega
      rw [hinverse] at hn
      field_simp at hn
      rw [Nat.mul_comm n]
      exact_mod_cast hn
    · simp only [toBinary64]
      rw [if_neg (by simpa [hc] using hlow), if_neg (by omega), if_pos he, Nat.pow_eq]
  · refine hstored (c * 10 ^ e.natAbs) 1 Nat.one_pos ?_ ?_
    · have hwhole : (10 : ℚ) ^ e = 10 ^ e.natAbs := by
        rw [← zpow_natCast]
        congr 1
        omega
      rw [hwhole] at hn
      field_simp at hn
      rw [Nat.mul_one]
      exact_mod_cast hn
    · simp only [toBinary64]
      rw [if_neg (by simpa [hc] using hlow), if_neg (by omega), if_neg he, Nat.pow_eq]

theorem isFinite_toBinary64 {c : Nat} {e : Int} (hsmall : (c : ℚ) * 10 ^ e < 2 ^ 48) :
    (finite false c e).toBinary64.isFinite = true := by
  unfold toBinary64
  dsimp only
  split
  · rfl
  · rename_i hsize
    simp only [Bool.or_eq_true, decide_eq_true_eq, not_or] at hsize
    obtain ⟨hge, -⟩ := digits_bounds hsize.1
    -- the leading digit stands below the bound
    have hleading : (10 : ℚ) ^ (e + ((toString c).length : Int) - 1) < 10 ^ (15 : Int) := by
      calc (10 : ℚ) ^ (e + ((toString c).length : Int) - 1) = 10 ^ (((toString c).length : Int) - 1) * 10 ^ e := by
            rw [← zpow_add₀ (by norm_num)]
            congr 1
            omega
        _ ≤ c * 10 ^ e := by gcongr
        _ < 2 ^ 48 := hsmall
        _ < 10 ^ (15 : Int) := by norm_num
    have hbound := (zpow_lt_zpow_iff_right₀ (by norm_num : (1 : ℚ) < 10)).1 hleading
    rw [if_neg (by omega)]
    split
    · rename_i he
      have hinverse : (10 : ℚ) ^ e = (10 ^ e.natAbs)⁻¹ := by
        rw [← zpow_natCast, ← zpow_neg]
        congr 1
        omega
      rw [hinverse, ← div_eq_mul_inv, div_lt_iff₀ (by positivity)] at hsmall
      exact Binary64.isFinite_nearest false (Nat.pow_pos (by decide)) (by rw [Nat.pow_eq]; exact_mod_cast hsmall)
    · rename_i he
      have hwhole : (10 : ℚ) ^ e = 10 ^ e.natAbs := by
        rw [← zpow_natCast]
        congr 1
        omega
      rw [hwhole] at hsmall
      exact Binary64.isFinite_nearest false Nat.one_pos (by rw [Nat.pow_eq, Nat.mul_one]; exact_mod_cast hsmall)

theorem isFinite_stored_of_toBinary64 {x : Decimal} (h : x.toBinary64.isFinite = true) :
    x.stored.isFinite = true := by
  unfold stored
  split
  · rename_i hnan
    rw [hnan] at h
    cases h
  · rename_i hinfinite
    rw [hinfinite] at h
    cases h
  · rfl

theorem isFinite_stored {c : Nat} {e : Int} (hsmall : (c : ℚ) * 10 ^ e < 2 ^ 48) :
    (finite false c e).stored.isFinite = true :=
  isFinite_stored_of_toBinary64 (isFinite_toBinary64 hsmall)

end Decimal

/-! ### The amounts of orders -/

namespace Validation

open Decimal

theorem lt_of_digitCounts {c d : Nat} {e : Int} (hd : (digitCounts c e).1 ≤ d) : (c : ℚ) * 10 ^ e < 10 ^ d := by
  by_cases hc : c = 0
  · simp [hc]
  obtain ⟨-, hlt⟩ := digits_bounds hc
  unfold digitCounts at hd
  have hexponent : ((toString c).length : Int) + e ≤ d ∨ e < 0 ∧ (toString c).length ≤ d := by
    by_cases he : 0 ≤ e
    · rw [if_pos he] at hd
      left
      omega
    · rw [if_neg he] at hd
      right
      exact ⟨by omega, Nat.le_trans (Nat.le_max_left ..) hd⟩
  have hsum : ((toString c).length : Int) + e ≤ d := by omega
  calc (c : ℚ) * 10 ^ e < 10 ^ ((toString c).length : Int) * 10 ^ e := by gcongr
    _ = 10 ^ (((toString c).length : Int) + e) := (zpow_add₀ (by norm_num) _ e).symm
    _ ≤ 10 ^ (d : Int) := zpow_le_zpow_right₀ (by norm_num) hsum
    _ = 10 ^ d := zpow_natCast _ d

theorem value_dropZeros (fuel c : Nat) (e : Int) :
    ((dropZeros fuel c e).1 : ℚ) * 10 ^ (dropZeros fuel c e).2 = c * 10 ^ e := by
  induction fuel generalizing c e with
  | zero => rfl
  | succ fuel ih =>
    unfold dropZeros
    by_cases hzero : c % 10 = 0
    · rw [if_pos hzero, ih]
      have htens : c = c / 10 * 10 := by omega
      have hcast : (c : ℚ) = ((c / 10 : Nat) : ℚ) * 10 := by exact_mod_cast htens
      rw [hcast, zpow_add₀ (by norm_num)]
      ring
    · rw [if_neg hzero]

theorem value_normalized (c : Nat) (e : Int) :
    ((normalized c e).1 : ℚ) * 10 ^ (normalized c e).2 = c * 10 ^ e := by
  unfold normalized
  by_cases hc : c = 0
  · simp [hc]
  · rw [if_neg hc, value_dropZeros]

/-- A value written with at most two places is a whole number of cents. -/
theorem exists_cents_of_digitCounts {c : Nat} {e : Int} (hp : (digitCounts c e).2 ≤ 2) :
    ∃ n : Nat, (c : ℚ) * 10 ^ e = n / 100 := by
  have he : -2 ≤ e := by
    unfold digitCounts at hp
    split at hp
    · omega
    · simp only at hp
      omega
  obtain ⟨k, hk⟩ := Int.eq_ofNat_of_zero_le (show 0 ≤ e + 2 by omega)
  refine ⟨c * 10 ^ k, ?_⟩
  rw [show e = (k : Int) - 2 by omega, zpow_sub₀ (by norm_num), zpow_natCast]
  push_cast
  ring

theorem ite_refuse_eq_ok {α : Type} {p : Prop} [Decidable p] {complaint : Complaint} {rest : Checked α} {a : α} :
    (if p then refuse complaint else rest) = .ok a ↔ ¬p ∧ rest = .ok a := by
  by_cases hp : p <;> simp [hp, refuse]

theorem isFinite_of_finiteDecimal {j : Json} {x : Decimal} (h : finiteDecimal j = .ok x) : x.isFinite := by
  unfold finiteDecimal at h
  cases hread : anyDecimal j with
  | error issues => simp [hread] at h
  | ok y =>
    by_cases hfinite : y.isFinite
    · simp only [hread, hfinite, if_true] at h
      cases h
      exact hfinite
    · simp [hread, hfinite, refuse] at h

/-- An amount that passes the check is a positive whole number `n` of cents, and less than `10 ^ 12`. -/
theorem positiveDecimal_eq_ok {j : Json} {x : Decimal} (h : positiveDecimal 12 2 j = .ok x) :
    ∃ c e, x = .finite false c e ∧ c ≠ 0 ∧ (c : ℚ) * 10 ^ e < 10 ^ 12 ∧ ∃ n : Nat, (c : ℚ) * 10 ^ e = n / 100 := by
  unfold positiveDecimal at h
  cases hread : finiteDecimal j with
  | error issues => simp [hread] at h
  | ok y =>
    have hfinite := isFinite_of_finiteDecimal hread
    cases y with
    | infinite negative => cases hfinite
    | nan signalling => cases hfinite
    | finite negative c e =>
      simp only [hread] at h
      obtain ⟨hdigits, h⟩ := ite_refuse_eq_ok.1 h
      obtain ⟨hplaces, h⟩ := ite_refuse_eq_ok.1 h
      obtain ⟨-, h⟩ := ite_refuse_eq_ok.1 h
      obtain ⟨hsign, h⟩ := ite_refuse_eq_ok.1 h
      simp only [Bool.and_eq_true, decide_eq_true_eq, Bool.or_eq_true, not_or, Bool.not_eq_true]
        at hdigits hplaces hsign
      obtain ⟨rfl, hc⟩ := hsign
      cases h
      refine ⟨c, e, rfl, hc, ?_, ?_⟩
      · by_cases hwritten : (digitCounts c e).1 ≤ 12
        · exact lt_of_digitCounts hwritten
        · rw [← value_normalized]
          exact lt_of_digitCounts (by omega)
      · by_cases hwritten : (digitCounts c e).2 ≤ 2
        · exact exists_cents_of_digitCounts hwritten
        · rw [← value_normalized]
          exact exists_cents_of_digitCounts (by omega)

/-- An amount that passes the check is read back from the store with the value it had, and the store keeps what it has
read back. -/
theorem stored_of_positiveDecimal {j : Json} {x : Decimal} (h : positiveDecimal 12 2 j = .ok x) :
    x.stored.value? = x.value? ∧ x.stored.stored = x.stored := by
  obtain ⟨c, e, rfl, hc, hlt, n, hn⟩ := positiveDecimal_eq_ok h
  have hpos : n ≠ 0 := by
    rintro rfl
    have hnone : (c : ℚ) * 10 ^ e ≠ 0 := mul_ne_zero (by exact_mod_cast hc) (by positivity)
    exact hnone (by rw [hn]; simp)
  have hsmall : n < 2 ^ 48 := by
    have hcast : (n : ℚ) < 2 ^ 48 := by linarith
    exact_mod_cast hcast
  have hstored := stored_of_cents hc hn hsmall
  refine ⟨by rw [hstored, value?_ofHundredths, value?_positive, hn], ?_⟩
  rw [hstored]
  refine stored_of_cents hpos ?_ hsmall
  rw [div_eq_mul_inv]
  norm_num

theorem also_eq_ok {α β : Type} {a : Checked α} {f : Checked (α → β)} {b : β} (h : also a f = .ok b) :
    ∃ g x, f = .ok g ∧ a = .ok x ∧ g x = b := by
  unfold also both at h
  split at h
  · rename_i g x
    exact ⟨g, x, rfl, rfl, Except.ok.inj h⟩
  all_goals cases h

theorem required_eq_ok {α : Type} {j : Json} {name : String} {check : Json → Checked α} {a : α}
    (h : required j name check = .ok a) : ∃ value, check value = .ok a := by
  unfold required under at h
  cases hget : j.get? name with
  | none => simp [hget, refuse] at h
  | some value =>
    rw [hget] at h
    cases hcheck : check value with
    | error issues => simp [hcheck] at h
    | ok b =>
      simp only [hcheck] at h
      exact ⟨value, h ▸ hcheck⟩

end Validation

theorem Api.Order.members_checked {j : Json} {o : Order} (h : ofMembers j = .ok o) :
    (∃ value, Validation.boundedText 1 128 value = .ok o.key) ∧
      (∃ value, Validation.boundedText 1 128 value = .ok o.transaction) ∧
      (∃ value, Validation.positiveDecimal 12 2 value = .ok o.amount) ∧
      ∃ value, Validation.boundedText 3 3 value = .ok o.currency := by
  unfold ofMembers at h
  obtain ⟨withProperties, properties, hproperties, -, ho⟩ := Validation.also_eq_ok h
  obtain ⟨withCurrency, currency, hcurrency, hcurrency', rfl⟩ := Validation.also_eq_ok hproperties
  obtain ⟨withAmount, amount, hrest, hamount, rfl⟩ := Validation.also_eq_ok hcurrency
  obtain ⟨withTransaction, transaction, hkey, htransaction, rfl⟩ := Validation.also_eq_ok hrest
  obtain ⟨withKey, key, hmk, hkey', rfl⟩ := Validation.also_eq_ok hkey
  obtain rfl := Except.ok.inj hmk
  subst ho
  exact ⟨Validation.required_eq_ok hkey', Validation.required_eq_ok htransaction, Validation.required_eq_ok hamount,
    Validation.required_eq_ok hcurrency'⟩

theorem Api.Order.amount_checked {j : Json} {o : Order} (h : ofJson j = .ok o) :
    ∃ value, Validation.positiveDecimal 12 2 value = .ok o.amount := by
  unfold ofJson at h
  split at h
  · exact (members_checked h).2.2.1
  · cases h

end PaymentRetry
