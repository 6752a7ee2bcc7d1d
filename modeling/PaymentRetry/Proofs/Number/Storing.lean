import PaymentRetry.Api.Handler
import PaymentRetry.Proofs.Number.Nearest
import PaymentRetry.Proofs.Store.Growth

/-!
# Amounts do not drift

An amount is stored as a double and read back with two places, and a retry stores what was read back.  What is read
back is kept from then on (`Decimal.stored_stored`), for every amount that a double can hold.  Either the doubles lie so
close together that each number of hundredths has its own (`Binary64.hundredths_nearest`), or they lie so far apart that
the hundredths nearest to a double are nearest to no other double (`Binary64.rounded_hundredths`).

So the rows of a payment hold one amount, and that is the amount of its order (`Store.amount_kept`).
-/

namespace PaymentRetry

namespace Binary64

/-- The hundredths of a value are off by at most half a hundredth. -/
theorem hundredths_near (m s : Nat) :
    2 * (hundredths m s * unit) ≤ 200 * units m s + unit ∧ 200 * units m s ≤ 2 * (hundredths m s * unit) + unit := by
  obtain ⟨k, -, -, hunit⟩ := exists_unit_eq
  have hpos : 0 < unit := hunit ▸ Nat.two_pow_pos k
  have hle := Number.two_mul_roundDiv_le (units m s * 100) unit hpos
  have hge := Number.le_two_mul_roundDiv (units m s * 100) unit hpos
  unfold hundredths
  omega

theorem scaleOf_eq {magnitude den t : Nat} (hden : 0 < den) (hlow : den * 2 ^ (52 + t) ≤ magnitude)
    (hhigh : magnitude < den * 2 ^ (53 + t)) : scaleOf magnitude den = t := by
  have hlow' : 2 ^ (52 + t) ≤ magnitude / den := (Nat.le_div_iff_mul_le hden).2 (by rw [Nat.mul_comm]; exact hlow)
  have hhigh' : magnitude / den < 2 ^ (53 + t) := (Nat.div_lt_iff_lt_mul hden).2 (by rw [Nat.mul_comm]; exact hhigh)
  have hsome : magnitude / den ≠ 0 := by
    have := Nat.two_pow_pos (52 + t)
    omega
  have hbelow : (magnitude / den).log2 < 53 + t := (Nat.log2_lt hsome).2 hhigh'
  have habove : ¬ (magnitude / den).log2 < 52 + t := fun hlt => by
    have := (Nat.log2_lt hsome).1 hlt
    omega
  unfold scaleOf
  omega

/-- Where the doubles lie further apart than a hundredth, the hundredths nearest to a double are nearest to that double
again: they are away from it by less than half of the way to the next one. -/
theorem rounded_hundredths {m s : Nat} (hnormal : Normal m s) (hcoarse : unit < 100 * 2 ^ s) :
    rounded (hundredths m s * unit) 100 = units m s := by
  obtain ⟨k, hk, -, hunit⟩ := exists_unit_eq
  have hscale : k < 7 + s := by
    have hlt : 2 ^ k < 2 ^ (7 + s) := by
      calc 2 ^ k = unit := hunit.symm
        _ < 100 * 2 ^ s := hcoarse
        _ ≤ 2 ^ 7 * 2 ^ s := Nat.mul_le_mul_right _ (by decide)
        _ = 2 ^ (7 + s) := (Nat.pow_add ..).symm
    exact (Nat.pow_lt_pow_iff_right (by decide)).1 hlt
  have hfull : 2 ^ 52 ≤ m := hnormal.full.resolve_left (by omega)
  obtain ⟨hle, hge⟩ := hundredths_near m s
  have hunits : units m s = m * 2 ^ s := by simp only [units, Nat.pow_eq]
  rcases Nat.eq_or_lt_of_le hfull with hboundary | hinner
  · -- the least double of its scale is a whole number, below which they lie closer together
    subst hboundary
    have hwhole : units (2 ^ 52) s = 2 ^ (52 + s - k) * unit := by
      rw [hunits, hunit, ← Nat.pow_add, ← Nat.pow_add, Nat.sub_add_cancel (by omega)]
    have hexact : hundredths (2 ^ 52) s * unit = 2 ^ 52 * 2 ^ s * 100 := by
      have hmultiple : units (2 ^ 52) s * 100 = 2 ^ (52 + s - k) * 100 * unit := by
        rw [hwhole]
        ring
      unfold hundredths
      rw [hmultiple, Number.roundDiv_mul _ _ (hunit ▸ Nat.two_pow_pos k), ← hunits, ← hmultiple]
    rw [hexact, rounded_of_mantissa (by decide) (by decide), hunits]
  · have hplace : 0 < 2 ^ s := Nat.two_pow_pos s
    have hshort := hnormal.short
    have hlow : (2 ^ 52 + 1) * 2 ^ s ≤ m * 2 ^ s := Nat.mul_le_mul_right _ hinner
    have hhigh : (m + 1) * 2 ^ s ≤ 2 ^ 53 * 2 ^ s := Nat.mul_le_mul_right _ hshort
    rw [Nat.add_mul, Nat.one_mul] at hlow hhigh
    rw [hunits] at hle hge ⊢
    have hscaleOf : scaleOf (hundredths m s * unit) 100 = s := by
      refine scaleOf_eq (by decide) ?_ ?_
      · rw [Nat.pow_add]
        omega
      · rw [Nat.pow_add]
        omega
    have hmantissa : mantissaOf (hundredths m s * unit) 100 = m := by
      unfold mantissaOf
      rw [hscaleOf]
      have hvalue : m * (100 * 2 ^ s) = 100 * (m * 2 ^ s) := Nat.mul_left_comm ..
      refine Number.roundDiv_eq (by omega) ?_ ?_
      · rw [hvalue]
        omega
      · rw [hvalue]
        omega
    unfold rounded
    rw [hmantissa, hscaleOf]

/-- What is read back of a double is kept when it is stored again. -/
theorem hundredths_kept (negative : Bool) {m s : Nat} (hnormal : Normal m s) (hscale : s ≤ maxScale) :
    ∃ m' s', nearest negative (hundredths m s) 100 = .finite negative m' s' ∧ hundredths m' s' = hundredths m s := by
  obtain ⟨k, -, hmax, hunit⟩ := exists_unit_eq
  by_cases hfine : 100 * 2 ^ s ≤ unit
  · -- the doubles lie close together, and the value is not too large
    have hplace : 2 ^ 7 * 2 ^ s ≤ unit := by
      have hlt : 2 ^ (6 + s) < 2 ^ k := by
        have hpow : 2 ^ (6 + s) = 2 ^ 6 * 2 ^ s := Nat.pow_add ..
        have := Nat.two_pow_pos s
        omega
      have hexponent := (Nat.pow_lt_pow_iff_right (by decide : 1 < 2)).1 hlt
      rw [hunit, ← Nat.pow_add]
      exact Nat.pow_le_pow_right (by decide) (by omega)
    have hsmall : hundredths m s < 100 * 2 ^ 46 := by
      obtain ⟨hle, -⟩ := hundredths_near m s
      have hshort := hnormal.short
      have hvalue : 2 ^ 7 * units m s ≤ (2 ^ 53 - 1) * unit := by
        calc 2 ^ 7 * units m s = m * (2 ^ 7 * 2 ^ s) := by
              simp only [units, Nat.pow_eq]
              ring
          _ ≤ (2 ^ 53 - 1) * unit := Nat.mul_le_mul (by omega) hplace
      have hpos : 0 < unit := hunit ▸ Nat.two_pow_pos k
      refine Nat.lt_of_mul_lt_mul_right (a := unit) ?_
      omega
    exact hundredths_nearest negative (by decide) rfl hsmall
  · have hrounded := rounded_hundredths hnormal (Nat.not_le.1 hfine)
    obtain ⟨m', s', hnormal', hvalue, hnearest⟩ :=
      exists_ofQuotient negative (hundredths m s * unit) (by decide : 0 < 100)
    obtain ⟨rfl, rfl⟩ := hnormal'.unique hnormal (hvalue.trans hrounded)
    refine ⟨m', s', ?_, rfl⟩
    unfold nearest
    rw [hnearest, if_neg (by omega)]

/-- A hundred times the bound of the doubles has no more than 403 digits. -/
theorem exists_bound : ∃ bits digits, 1024 ≤ bits ∧ digits ≤ 403 ∧ 101 * 2 ^ bits ≤ 10 ^ digits := by
  have hpow : ∀ n : Nat, 101 * 2 ^ (3 * n) ≤ 10 ^ (3 + n) := by
    intro n
    rw [Nat.pow_mul, Nat.pow_add]
    exact Nat.mul_le_mul (by decide) (Nat.pow_le_pow_left (by decide) n)
  exact ⟨3 * 400, 3 + 400, by decide, by decide, hpow 400⟩

theorem hundredths_lt {m s : Nat} (hnormal : Normal m s) (hscale : s ≤ maxScale) :
    ∃ digits ≤ 403, hundredths m s < 10 ^ digits := by
  obtain ⟨k, -, hmax, hunit⟩ := exists_unit_eq
  obtain ⟨bits, digits, hbits, hdigits, hbound⟩ := exists_bound
  obtain ⟨hle, -⟩ := hundredths_near m s
  have hpos : 0 < unit := hunit ▸ Nat.two_pow_pos k
  have hvalue : units m s < 2 ^ bits * unit := by
    calc units m s = m * 2 ^ s := by simp only [units, Nat.pow_eq]
      _ < 2 ^ 53 * 2 ^ s := Nat.mul_lt_mul_of_pos_right hnormal.short (Nat.two_pow_pos s)
      _ = 2 ^ (53 + s) := (Nat.pow_add ..).symm
      _ ≤ 2 ^ (bits + k) := Nat.pow_le_pow_right (by decide) (by omega)
      _ = 2 ^ bits * unit := by rw [hunit, Nat.pow_add]
  refine ⟨digits, hdigits, Nat.lt_of_lt_of_le (Nat.lt_of_mul_lt_mul_right (a := unit) ?_) hbound⟩
  have hvalue' : 101 * 2 ^ bits * unit = 101 * (2 ^ bits * unit) := Nat.mul_assoc ..
  have hunit' : unit ≤ 2 ^ bits * unit := Nat.le_mul_of_pos_left unit (Nat.two_pow_pos bits)
  rw [hvalue']
  omega

theorem normal_of_isFinite {negative : Bool} {num den : Nat} (hden : 0 < den)
    (h : (nearest negative num den).isFinite = true) :
    ∃ m s, nearest negative num den = .finite negative m s ∧ Normal m s ∧ s ≤ maxScale := by
  obtain ⟨m, s, hnormal, -, hnearest⟩ := exists_ofQuotient negative (num * unit) hden
  unfold nearest at h ⊢
  rw [hnearest] at h ⊢
  by_cases hlarge : maxScale < s
  · rw [if_pos hlarge] at h
    cases h
  · exact ⟨m, s, if_neg hlarge, hnormal, Nat.not_lt.1 hlarge⟩

end Binary64

namespace Decimal

open Binary64

theorem normal_toBinary64 {x : Decimal} (h : x.toBinary64.isFinite = true) :
    ∃ negative m s, x.toBinary64 = .finite negative m s ∧ Normal m s ∧ s ≤ maxScale := by
  cases x with
  | nan signalling => cases h
  | infinite negative => cases h
  | finite negative c e =>
    unfold toBinary64 at h ⊢
    dsimp only at h ⊢
    split at h
    · rename_i hzero
      rw [if_pos hzero]
      exact ⟨negative, 0, 0, rfl, ⟨by decide, .inl rfl⟩, Nat.zero_le _⟩
    · rename_i hsome
      split at h
      · cases h
      · rename_i hsize
        rw [if_neg hsome, if_neg hsize]
        split at h
        · rename_i hplaces
          rw [if_pos hplaces]
          obtain ⟨m, s, hnearest, hnormal⟩ := normal_of_isFinite (Nat.pow_pos (by decide)) h
          exact ⟨negative, m, s, hnearest, hnormal⟩
        · rename_i hplaces
          rw [if_neg hplaces]
          obtain ⟨m, s, hnearest, hnormal⟩ := normal_of_isFinite Nat.one_pos h
          exact ⟨negative, m, s, hnearest, hnormal⟩

theorem toBinary64_ofHundredths (negative : Bool) {n : Nat} (hn : n ≠ 0) (hsize : ∃ digits ≤ 403, n < 10 ^ digits) :
    (ofHundredths negative n).toBinary64 = .nearest negative n 100 := by
  obtain ⟨digits, hdigits, hlt⟩ := hsize
  have hlength : (toString n).length ≤ 403 := by
    have hpow : 10 ^ ((toString n).length - 1) < 10 ^ digits := Nat.lt_of_le_of_lt (pow_le_of_digits hn) hlt
    have := (Nat.pow_lt_pow_iff_right (by decide : 1 < 10)).1 hpow
    omega
  have hsome : 0 < (toString n).length := Nat.length_repr_pos
  unfold ofHundredths toBinary64
  dsimp only
  rw [if_neg (by simp [hn]; omega), if_neg (by omega), if_pos (by decide)]
  rfl

theorem value?_ofHundredths_signed (negative : Bool) (n : Nat) :
    (ofHundredths negative n).value? = some ((if negative then -1 else 1) * ((n : ℚ) / 100)) := by
  have hexponent : (10 : ℚ) ^ (-2 : Int) = 1 / 100 := by norm_num
  simp only [ofHundredths, value?, hexponent]
  rw [mul_one_div]

/-- If a double can hold `x`, then it can hold what is read back, and from then on the same value is read back. -/
theorem stored_stored {x : Decimal} (h : x.toBinary64.isFinite = true) :
    x.stored.toBinary64.isFinite = true ∧ x.stored.stored.value? = x.stored.value? := by
  obtain ⟨negative, m, s, hx, hnormal, hscale⟩ := normal_toBinary64 h
  have hstored : x.stored = ofHundredths (negative && m != 0) (hundredths m s) := by
    unfold stored
    rw [hx]
  rw [hstored]
  by_cases hzero : hundredths m s = 0
  · have hdouble : (ofHundredths (negative && m != 0) 0).toBinary64 = .finite (negative && m != 0) 0 0 := rfl
    rw [hzero]
    refine ⟨by rw [hdouble]; rfl, ?_⟩
    have hnone : hundredths 0 0 = 0 := by simp [hundredths, units, Number.roundDiv]
    unfold stored
    rw [hdouble]
    simp only [hnone, value?_ofHundredths_signed]
    simp
  · obtain ⟨m', s', hnearest, hkept⟩ := hundredths_kept (negative && m != 0) hnormal hscale
    have hdouble := toBinary64_ofHundredths (negative && m != 0) hzero (hundredths_lt hnormal hscale)
    rw [hnearest] at hdouble
    have hsome : (m' != 0) = true := by
      rw [bne_iff_ne]
      rintro rfl
      exact hzero (by rw [← hkept]; simp [hundredths, units, Number.roundDiv])
    refine ⟨by rw [hdouble]; rfl, ?_⟩
    unfold stored
    rw [hdouble]
    dsimp only
    rw [hsome, Bool.and_true, hkept]

theorem exists_value_stored {x : Decimal} (h : x.toBinary64.isFinite = true) : ∃ v, x.stored.value? = some v := by
  obtain ⟨negative, m, s, hx, -, -⟩ := normal_toBinary64 h
  unfold stored
  rw [hx]
  exact ⟨_, value?_ofHundredths_signed ..⟩

end Decimal

/-! ### The rows of a payment -/

/-- Whether the second row is reached from the first by retries: each is made from the row before it, to whatever state
that has been moved, and is stored and read back. -/
inductive Attempt.RetriedTo : Attempt → Attempt → Prop
  | refl (a : Attempt) : RetriedTo a a
  | move {a b : Attempt} (h : RetriedTo a b) (state : AttemptState) (change : Change) (now : DateTime) :
    RetriedTo a (change.apply { b with state := state, updated := now })
  | retry {a b c : Attempt} {s s' : Store} {now : DateTime} (h : RetriedTo a b)
    (hinsert : s.insert b.next now = .ok (c, s')) : RetriedTo a c.asStored

theorem Store.amount_of_insert {s s' : Store} {d : Draft} {now : DateTime} {a : Attempt}
    (h : s.insert d now = .ok (a, s')) : a.amount = d.amount := by
  obtain ⟨hcomplete, -, -, -⟩ := insert_eq_ok h
  obtain ⟨-, -, -, -, -, hamount, -⟩ := complete?_eq_some hcomplete
  exact hamount

/-- A property `P` of amounts that storing keeps holds of all later rows. -/
theorem Attempt.RetriedTo.amount {P : Decimal → Prop} {a b : Attempt} (h : a.RetriedTo b) (ha : P a.amount)
    (hstored : ∀ x, P x → P x.stored) : P b.amount := by
  induction h with
  | refl => exact ha
  | move _ state change now ih => exact ih
  | retry _ hinsert ih =>
    have hamount := Store.amount_of_insert hinsert
    rw [Attempt.asStored, hamount]
    exact hstored _ ih

/-- Let `a` be stored from the draft `d`, and `b` any later row of its payment.  If `d` is the draft of an order that
is accepted, `b` has the amount of the order.  Whatever amount `d` has, if its double is finite, `b` has the amount
that was read back for `a`. -/
theorem Store.amount_kept {s s' : Store} {d : Draft} {now : DateTime} {a b : Attempt}
    (hinsert : s.insert d now = .ok (a, s')) (hretried : a.asStored.RetriedTo b) :
    (∀ {j : Json} {o : Api.Order}, Api.Order.ofJson j = .ok o → d = o.submission.draft →
      b.amount.value? = o.amount.value?) ∧
    (d.amount.toBinary64.isFinite = true → ∃ v, a.asStored.amount.value? = some v ∧ b.amount.value? = some v) := by
  have hamount : a.asStored.amount = d.amount.stored := by rw [Attempt.asStored, Store.amount_of_insert hinsert]
  constructor
  · rintro j o horder rfl
    obtain ⟨value, hchecked⟩ := Api.Order.amount_checked horder
    obtain ⟨hvalue, hkept⟩ := Validation.stored_of_positiveDecimal hchecked
    have hrow : b.amount = o.amount.stored := by
      refine hretried.amount (P := (· = o.amount.stored)) hamount ?_
      rintro x rfl
      exact hkept
    rw [hrow, hvalue]
  · intro hfinite
    obtain ⟨v, hv⟩ := Decimal.exists_value_stored hfinite
    have hrow : b.amount.toBinary64.isFinite = true ∧ b.amount.value? = some v ∧ b.amount.stored.value? = some v := by
      refine hretried.amount
        (P := fun x => x.toBinary64.isFinite = true ∧ x.value? = some v ∧ x.stored.value? = some v) ?_ ?_
      · obtain ⟨hfinite', hkept⟩ := Decimal.stored_stored hfinite
        rw [hamount]
        exact ⟨hfinite', hv, hkept.trans hv⟩
      · rintro x ⟨hx, -, hxv⟩
        obtain ⟨hfinite', hkept⟩ := Decimal.stored_stored hx
        exact ⟨hfinite', hxv, hkept.trans hxv⟩
    exact ⟨v, by rw [hamount, hv], hrow.2.1⟩

namespace Till

/-- When payments are ordered. -/
def now : DateTime := default

/-- An order of `amount` euros, as it is sent. -/
def sent (amount : String) : Json :=
  .object [("payment_external_key", .text "order"), ("transaction_external_key", .text "charge"),
    ("amount", .text amount), ("currency", .text "EUR")]

/-- An order of `amount` euros. -/
def order (amount : Decimal) : Api.Order := ⟨"order", "charge", amount, "EUR", []⟩

/-- The attempt `n` of the order. -/
def attempt (amount : Decimal) (n : Nat) : Attempt where
  id := .minted n
  payment := .minted 1
  key := "order"
  transaction := "charge"
  number := n
  state := .pending
  amount := amount
  currency := "EUR"
  properties := some []
  failureType := none
  message := none
  dueAt := none
  created := now
  updated := now

end Till

/-- An amount of 10.99 is still that after a retry. -/
theorem amount_kept_of_retry :
    Store.insert {} (Till.order (.ofHundredths false 1099)).submission.draft Till.now =
        .ok (Till.attempt (.ofHundredths false 1099) 1, ⟨[Till.attempt (.ofHundredths false 1099) 1], 1, 1⟩) ∧
      Store.insert ⟨[Till.attempt (.ofHundredths false 1099) 1], 1, 1⟩ (Till.attempt (.ofHundredths false 1099) 1).next
          Till.now =
        .ok (Till.attempt (.ofHundredths false 1099) 2,
          ⟨[Till.attempt (.ofHundredths false 1099) 1, Till.attempt (.ofHundredths false 1099) 2], 2, 1⟩) ∧
      (Till.attempt (.ofHundredths false 1099) 2).amount.value? = some (1099 / 100) := by
  have hvalue : (Decimal.ofHundredths false 1099).value? = some (((1099 : Nat) : ℚ) / 100) :=
    Decimal.value?_ofHundredths 1099
  have hstored : (Decimal.ofHundredths false 1099).stored = .ofHundredths false 1099 := by
    refine Decimal.stored_of_cents (by decide) ?_ (by decide)
    norm_num
  have hrow : ∀ n,
      (Till.attempt (.ofHundredths false 1099) n).asStored = Till.attempt (.ofHundredths false 1099) n := by
    intro n
    unfold Attempt.asStored Till.attempt
    rw [hstored]
  have hfirst : Store.insert {} (Till.order (.ofHundredths false 1099)).submission.draft Till.now =
      .ok (Till.attempt (.ofHundredths false 1099) 1, ⟨[Till.attempt (.ofHundredths false 1099) 1], 1, 1⟩) := by
    nth_rewrite 2 [← hrow 1]
    rfl
  have hsecond : Store.insert ⟨[Till.attempt (.ofHundredths false 1099) 1], 1, 1⟩
      (Till.attempt (.ofHundredths false 1099) 1).next Till.now =
        .ok (Till.attempt (.ofHundredths false 1099) 2,
          ⟨[Till.attempt (.ofHundredths false 1099) 1, Till.attempt (.ofHundredths false 1099) 2], 2, 1⟩) := by
    nth_rewrite 2 [← hrow 2]
    rfl
  refine ⟨hfirst, hsecond, ?_⟩
  have hread : Api.Order.ofJson (Till.sent "10.99") = .ok (Till.order (.ofHundredths false 1099)) := rfl
  have hretried : (Till.attempt (.ofHundredths false 1099) 1).asStored.RetriedTo
      (Till.attempt (.ofHundredths false 1099) 2).asStored := .retry (.refl _) (by rw [hrow 1]; exact hsecond)
  have hkept := (Store.amount_kept hfirst hretried).1 hread rfl
  rw [hrow 2] at hkept
  rw [hkept, Till.order, hvalue]
  norm_num

end PaymentRetry
