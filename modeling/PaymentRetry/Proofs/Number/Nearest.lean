import PaymentRetry.Proofs.Number.Cents
import PaymentRetry.Time.DateTime

/-!
# Rounding keeps the order

A quotient is rounded to 53 binary digits (`Binary64.rounded`) and becomes infinite if that needs too large a scale
(`Binary64.exists_ofQuotient`).  A larger quotient is not rounded to less (`Binary64.rounded_mono`), a value that has
no more than 53 digits is its own rounding (`Binary64.rounded_of_mantissa`), and a value has only one mantissa and
scale (`Binary64.Normal.unique`).

So a span of time that has reached a number of seconds still reaches it when it has become longer
(`Quantity.le_seconds_of_le`), although its length is compared as a double.  For a whole number of seconds the
comparison of the doubles is the exact one (`Quantity.comparesExactly_whole`).
-/

namespace PaymentRetry

theorem Number.roundDiv_mono {a b den : Nat} (hden : 0 < den) (h : a ≤ b) : roundDiv a den ≤ roundDiv b den := by
  rcases Nat.eq_or_lt_of_le h with rfl | hlt
  · exact Nat.le_refl _
  · by_contra hmore
    have hstep : (roundDiv b den + 1) * den ≤ roundDiv a den * den := Nat.mul_le_mul_right den (by omega)
    have hle := two_mul_roundDiv_le a den hden
    have hge := le_two_mul_roundDiv b den hden
    rw [Nat.add_mul] at hstep
    omega

namespace Binary64

/-- The scale at which `magnitude / den` is rounded. -/
def scaleOf (magnitude den : Nat) : Nat := (magnitude / den).log2 - 52

/-- The mantissa to which `magnitude / den` is rounded; it may have one digit too many. -/
def mantissaOf (magnitude den : Nat) : Nat := Number.roundDiv magnitude (den * 2 ^ scaleOf magnitude den)

/-- The quotient `magnitude / den` rounded to 53 binary digits. -/
def rounded (magnitude den : Nat) : Nat := mantissaOf magnitude den * 2 ^ scaleOf magnitude den

/-- The form in which finite values are written: no more than 53 digits, and all of them unless the scale is the least.
-/
structure Normal (mantissa scale : Nat) : Prop where
  short : mantissa < 2 ^ 53
  full : scale = 0 ∨ 2 ^ 52 ≤ mantissa

theorem Normal.unique {m s m' s' : Nat} (h : Normal m s) (h' : Normal m' s') (heq : units m s = units m' s') :
    m = m' ∧ s = s' := by
  -- of two scales the larger one has the full mantissa, and the other mantissa would be too long
  have hscale : ∀ {m s m' s' : Nat}, Normal m s → Normal m' s' → units m s = units m' s' → s' ≤ s := by
    intro m s m' s' h h' heq
    by_contra hlt
    have hfull : 2 ^ 52 ≤ m' := h'.full.resolve_left (by omega)
    have hsplit : m * 2 ^ s = m' * 2 ^ (s' - s) * 2 ^ s := by
      rw [Nat.mul_assoc, ← Nat.pow_add, Nat.sub_add_cancel (by omega)]
      simpa only [units, Nat.pow_eq] using heq
    have hm : m = m' * 2 ^ (s' - s) := Nat.eq_of_mul_eq_mul_right (Nat.two_pow_pos s) hsplit
    have htwo : 2 ^ 1 ≤ 2 ^ (s' - s) := Nat.pow_le_pow_right (by decide) (by omega)
    have hlong : 2 ^ 52 * 2 ^ 1 ≤ m := hm ▸ Nat.mul_le_mul hfull htwo
    have hshort := h.short
    omega
  have hs : s = s' := Nat.le_antisymm (hscale h' h heq.symm) (hscale h h' heq)
  subst hs
  simp only [units, Nat.pow_eq] at heq
  exact ⟨Nat.eq_of_mul_eq_mul_right (Nat.two_pow_pos s) heq, rfl⟩

/-- The scale of a quotient tells between which powers of two it lies. -/
theorem scaleOf_bounds (magnitude : Nat) {den : Nat} (hden : 0 < den) :
    magnitude < den * 2 ^ (53 + scaleOf magnitude den) ∧
      (scaleOf magnitude den = 0 ∨ den * 2 ^ (52 + scaleOf magnitude den) ≤ magnitude) := by
  unfold scaleOf
  by_cases hzero : magnitude / den = 0
  · have hsmall : magnitude < den := (Nat.div_eq_zero_iff_lt hden).1 hzero
    rw [hzero, Nat.log2_zero]
    exact ⟨Nat.lt_of_lt_of_le hsmall (Nat.le_mul_of_pos_right den (Nat.two_pow_pos _)), .inl rfl⟩
  · have hlow : 2 ^ (magnitude / den).log2 ≤ magnitude / den := Nat.log2_self_le hzero
    have hhigh : magnitude / den < 2 ^ ((magnitude / den).log2 + 1) := (Nat.log2_lt hzero).1 (Nat.lt_succ_self _)
    generalize (magnitude / den).log2 = l at hlow hhigh ⊢
    have hupper : magnitude < den * 2 ^ (l + 1) := by
      rw [Nat.mul_comm]
      exact (Nat.div_lt_iff_lt_mul hden).1 hhigh
    have hlower : den * 2 ^ l ≤ magnitude := by
      rw [Nat.mul_comm]
      exact (Nat.le_div_iff_mul_le hden).1 hlow
    constructor
    · exact Nat.lt_of_lt_of_le hupper
        (Nat.mul_le_mul_left den (Nat.pow_le_pow_right (by decide) (by omega)))
    · by_cases hl : l ≤ 52
      · left
        omega
      · right
        rw [Nat.add_sub_cancel' (by omega)]
        exact hlower

/-- A rounded mantissa is at most one unit too long, and is full unless the scale is the least. -/
theorem mantissaOf_bounds (magnitude : Nat) {den : Nat} (hden : 0 < den) :
    mantissaOf magnitude den ≤ 2 ^ 53 ∧ (scaleOf magnitude den = 0 ∨ 2 ^ 52 ≤ mantissaOf magnitude den) := by
  obtain ⟨hhigh, hlow⟩ := scaleOf_bounds magnitude hden
  unfold mantissaOf
  have hpos : 0 < den * 2 ^ scaleOf magnitude den := Nat.mul_pos hden (Nat.two_pow_pos _)
  generalize scaleOf magnitude den = t at hhigh hlow hpos ⊢
  have hsplit : ∀ k, den * 2 ^ (k + t) = 2 ^ k * (den * 2 ^ t) := by
    intro k
    rw [Nat.pow_add]
    ring
  constructor
  · rw [← Number.roundDiv_mul (2 ^ 53) _ hpos, ← hsplit]
    exact Number.roundDiv_mono hpos (Nat.le_of_lt hhigh)
  · refine hlow.imp_right fun hle => ?_
    rw [← Number.roundDiv_mul (2 ^ 52) _ hpos, ← hsplit]
    exact Number.roundDiv_mono hpos hle

/-- The nearest double has the rounded value, or is infinite if its scale is too large. -/
theorem exists_ofQuotient (negative : Bool) (magnitude : Nat) {den : Nat} (hden : 0 < den) :
    ∃ m s, Normal m s ∧ units m s = rounded magnitude den ∧
      ofQuotient negative magnitude den = if maxScale < s then infinite negative else finite negative m s := by
  obtain ⟨hle, hfull⟩ := mantissaOf_bounds magnitude hden
  have hdef : ofQuotient negative magnitude den =
      if maxScale < (if mantissaOf magnitude den = 2 ^ 53 then scaleOf magnitude den + 1 else scaleOf magnitude den)
      then infinite negative
      else finite negative (if mantissaOf magnitude den = 2 ^ 53 then 2 ^ 52 else mantissaOf magnitude den)
        (if mantissaOf magnitude den = 2 ^ 53 then scaleOf magnitude den + 1 else scaleOf magnitude den) := by
    unfold ofQuotient mantissaOf scaleOf
    simp only [Nat.pow_eq]
    split <;> rfl
  rw [hdef]
  unfold rounded
  simp only [units, Nat.pow_eq]
  by_cases hlong : mantissaOf magnitude den = 2 ^ 53
  · refine ⟨2 ^ 52, scaleOf magnitude den + 1, ⟨by decide, .inr (Nat.le_refl _)⟩, ?_, ?_⟩
    · rw [hlong, Nat.pow_succ]
      ring
    · simp only [hlong, if_true]
  · refine ⟨mantissaOf magnitude den, scaleOf magnitude den, ⟨by omega, hfull⟩, rfl, ?_⟩
    simp only [hlong, if_false]

theorem scaleOf_mono {a b : Nat} (den : Nat) (h : a ≤ b) : scaleOf a den ≤ scaleOf b den := by
  have hdiv : a / den ≤ b / den := Nat.div_le_div_right h
  have hlog : (a / den).log2 ≤ (b / den).log2 := by
    by_cases hzero : a / den = 0
    · rw [hzero, Nat.log2_zero]
      exact Nat.zero_le _
    · have hlow : 2 ^ (a / den).log2 ≤ a / den := Nat.log2_self_le hzero
      by_contra hless
      have hsome : b / den ≠ 0 := by
        have : 0 < a / den := Nat.pos_of_ne_zero hzero
        omega
      have hhigh : b / den < 2 ^ (a / den).log2 := (Nat.log2_lt hsome).1 (by omega)
      omega
  unfold scaleOf
  omega

theorem rounded_mono {a b den : Nat} (hden : 0 < den) (h : a ≤ b) : rounded a den ≤ rounded b den := by
  rcases Nat.eq_or_lt_of_le (scaleOf_mono den h) with hsame | hless
  · unfold rounded mantissaOf
    rw [hsame]
    exact Nat.mul_le_mul_right _ (Number.roundDiv_mono (Nat.mul_pos hden (Nat.two_pow_pos _)) h)
  · -- the power of two at which the larger scale begins lies between
    have hbelow := (mantissaOf_bounds a hden).1
    have habove : 2 ^ 52 ≤ mantissaOf b den := (mantissaOf_bounds b hden).2.resolve_left (by omega)
    calc rounded a den ≤ 2 ^ 53 * 2 ^ scaleOf a den := Nat.mul_le_mul_right _ hbelow
      _ = 2 ^ 52 * 2 ^ (scaleOf a den + 1) := by rw [Nat.pow_succ]; ring
      _ ≤ 2 ^ 52 * 2 ^ scaleOf b den := Nat.mul_le_mul_left _ (Nat.pow_le_pow_right (by decide) hless)
      _ ≤ rounded b den := Nat.mul_le_mul_right _ habove

/-- The double nearest to a larger quotient is infinite, or no smaller. -/
theorem nearest_mono {a b den : Nat} (hden : 0 < den) (h : a ≤ b) :
    nearest false b den = .infinite false ∨
      ∃ m s m' s', nearest false a den = .finite false m s ∧ nearest false b den = .finite false m' s' ∧
        Normal m s ∧ Normal m' s' ∧ units m s ≤ units m' s' := by
  obtain ⟨m, s, hnormal, hvalue, ha⟩ := exists_ofQuotient false (a * unit) hden
  obtain ⟨m', s', hnormal', hvalue', hb⟩ := exists_ofQuotient false (b * unit) hden
  have hle : units m s ≤ units m' s' := by
    rw [hvalue, hvalue']
    exact rounded_mono hden (Nat.mul_le_mul_right unit h)
  unfold nearest
  rw [ha, hb]
  by_cases hlarge' : maxScale < s'
  · exact .inl (if_pos hlarge')
  · right
    -- a smaller value with a larger scale would have a full mantissa
    have hlarge : ¬ maxScale < s := by
      intro hlarge
      have hfull : 2 ^ 52 ≤ m := hnormal.full.resolve_left (by omega)
      have hshort := hnormal'.short
      have hlt : units m' s' < units m s := by
        simp only [units, Nat.pow_eq]
        calc m' * 2 ^ s' < 2 ^ 53 * 2 ^ s' := Nat.mul_lt_mul_of_pos_right hshort (Nat.two_pow_pos s')
          _ = 2 ^ 52 * 2 ^ (s' + 1) := by rw [Nat.pow_succ]; ring
          _ ≤ 2 ^ 52 * 2 ^ s := Nat.mul_le_mul_left _ (Nat.pow_le_pow_right (by decide) (by omega))
          _ ≤ m * 2 ^ s := Nat.mul_le_mul_right _ hfull
      omega
    exact ⟨m, s, m', s', if_neg hlarge, if_neg hlarge', hnormal, hnormal', hle⟩

theorem rounded_of_mantissa {m s den : Nat} (hden : 0 < den) (hshort : m < 2 ^ 53) :
    rounded (m * 2 ^ s * den) den = m * 2 ^ s := by
  obtain ⟨-, hfull⟩ := scaleOf_bounds (m * 2 ^ s * den) hden
  unfold rounded mantissaOf
  generalize scaleOf (m * 2 ^ s * den) den = t at hfull ⊢
  -- the value is a whole multiple of the last place
  have hscale : t ≤ s := by
    rcases hfull with rfl | hle
    · exact Nat.zero_le s
    · have hpow : 2 ^ (52 + t) ≤ m * 2 ^ s := by
        refine Nat.le_of_mul_le_mul_right (c := den) ?_ hden
        rw [Nat.mul_comm]
        exact hle
      have hlt : 2 ^ (52 + t) < 2 ^ (53 + s) := by
        calc 2 ^ (52 + t) ≤ m * 2 ^ s := hpow
          _ < 2 ^ 53 * 2 ^ s := Nat.mul_lt_mul_of_pos_right hshort (Nat.two_pow_pos s)
          _ = 2 ^ (53 + s) := (Nat.pow_add ..).symm
      have := (Nat.pow_lt_pow_iff_right (by decide : 1 < 2)).1 hlt
      omega
  have hmultiple : m * 2 ^ s * den = m * 2 ^ (s - t) * (den * 2 ^ t) := by
    have hsplit : 2 ^ s = 2 ^ (s - t) * 2 ^ t := by rw [← Nat.pow_add, Nat.sub_add_cancel hscale]
    rw [hsplit]
    ring
  rw [hmultiple, Number.roundDiv_mul _ _ (Nat.mul_pos hden (Nat.two_pow_pos t)), Nat.mul_assoc, ← Nat.pow_add,
    Nat.sub_add_cancel hscale]

/-- A whole number that is not too large is a double. -/
theorem nearest_whole {n den : Nat} (hden : 0 < den) (hsmall : n < 2 ^ 48) :
    ∃ m s, nearest false (n * den) den = .finite false m s ∧ units m s = n * unit := by
  obtain ⟨k, -, -, hunit⟩ := exists_unit_eq
  have hfinite : (nearest false (n * den) den).isFinite = true :=
    isFinite_nearest false hden (Nat.mul_lt_mul_of_pos_right hsmall hden)
  obtain ⟨m, s, -, hvalue, hnearest⟩ := exists_ofQuotient false (n * den * unit) hden
  have hexact : n * den * unit = n * 2 ^ k * den := by
    rw [hunit]
    ring
  rw [hexact, rounded_of_mantissa hden (by omega), ← hunit] at hvalue
  unfold nearest at hfinite ⊢
  rw [hnearest] at hfinite ⊢
  by_cases hlarge : maxScale < s
  · rw [if_pos hlarge] at hfinite
    cases hfinite
  · exact ⟨m, s, if_neg hlarge, hvalue⟩

end Binary64

/-! ### Spans of time -/

/-- A duration that is not negative has the nearest double of its microseconds as its length in seconds. -/
theorem Duration.seconds_of_nonneg {d : Duration} (h : 0 ≤ d.micros) :
    d.seconds = .nearest false d.micros.natAbs second := by
  have hsign : decide (d.micros < 0) = false := decide_eq_false (by omega)
  unfold seconds
  rw [hsign]

namespace Quantity

open Binary64

theorem le_finite_mono {q : Quantity} {m s m' s' : Nat} (hnormal : Normal m s) (hnormal' : Normal m' s')
    (hunits : units m s ≤ units m' s') (h : q.le (.finite false m s) = true) : q.le (.finite false m' s') = true := by
  cases q with
  | whole n =>
    simp only [le, toUnits?, decide_eq_true_eq] at h ⊢
    have hcast : (units m s : Int) ≤ units m' s' := by exact_mod_cast hunits
    exact Int.le_trans h (by simpa using hcast)
  | double y =>
    rcases Nat.eq_or_lt_of_le hunits with hsame | hless
    · obtain ⟨rfl, rfl⟩ := hnormal.unique hnormal' hsame
      exact h
    · cases y with
      | nan => simp [le, lt, isZero] at h
      | infinite negative => simpa [le, lt, isZero] using h
      | finite negative m₀ s₀ =>
        -- whichever way the number was at most the smaller value, it is less than the larger one
        have hlt : (if negative then -(units m₀ s₀ : Int) else units m₀ s₀) < units m' s' := by
          have hcast : (units m s : Int) < units m' s' := by exact_mod_cast hless
          simp only [le, lt, toUnits?, isZero, Bool.or_eq_true, Bool.and_eq_true, beq_iff_eq, decide_eq_true_eq] at h
          rcases h with (⟨heq, -⟩ | hbelow) | ⟨hzero, -⟩
          · cases heq
            simpa using hcast
          · simp only [Bool.false_eq_true, if_false] at hbelow
            exact Int.lt_trans hbelow hcast
          · have hnone : units m₀ s₀ = 0 := by simp [units, hzero]
            rw [hnone]
            simp only [Nat.cast_zero, Int.neg_zero, ite_self]
            exact_mod_cast Nat.zero_lt_of_lt hless
        simp [le, lt, toUnits?, hlt]

theorem le_infinite {q : Quantity} {x : Binary64} (h : q.le x = true) : q.le (.infinite false) = true := by
  cases q with
  | whole n => rfl
  | double y =>
    cases y with
    | nan => cases x <;> simp [le, lt, isZero] at h
    | infinite negative => cases negative <;> simp [le, lt]
    | finite negative m s => simp [le, lt]

/-- A longer duration still reaches the number of seconds that a shorter one reaches. -/
theorem le_seconds_of_le {q : Quantity} {d d' : Duration} (hpos : 0 ≤ d.micros) (hle : d.micros ≤ d'.micros)
    (h : q.le d.seconds = true) : q.le d'.seconds = true := by
  have hmicros : d.micros.natAbs ≤ d'.micros.natAbs := by omega
  rw [Duration.seconds_of_nonneg hpos] at h
  rw [Duration.seconds_of_nonneg (Int.le_trans hpos hle)]
  rcases nearest_mono (by decide : 0 < Duration.second) hmicros with
    hinfinite | ⟨m, s, m', s', hd, hd', hn, hn', hunits⟩
  · rw [hinfinite]
    exact le_infinite h
  · rw [hd] at h
    rw [hd']
    exact le_finite_mono hn hn' hunits h

/-- Whether a duration is less than a number of seconds, by exact value. -/
def exceeds : Quantity → Duration → Bool
  | .whole n, d => d.micros < n * Duration.second
  | .double (.finite negative m s), d =>
    d.micros * (unit : Int) < (if negative then -(units m s : Int) else units m s) * Duration.second
  | .double (.infinite negative), _ => !negative
  | .double .nan, _ => false

/-- Whether the doubles of `q` and `d` compare as their exact values do. -/
def ComparesExactly (q : Quantity) (d : Duration) : Prop := q.le d.seconds = !q.exceeds d

theorem comparesExactly_whole_iff {n : Int} {d : Duration} :
    (whole n).ComparesExactly d ↔ ((whole n).le d.seconds = true ↔ n * Duration.second ≤ d.micros) := by
  have hexceeds : (whole n).exceeds d = decide (d.micros < n * Duration.second) := rfl
  unfold ComparesExactly
  rw [hexceeds]
  by_cases hless : d.micros < n * Duration.second
  · rw [decide_eq_true hless]
    simp only [Bool.not_true, Int.not_le.2 hless, iff_false, Bool.not_eq_true]
  · rw [decide_eq_false hless]
    simp only [Bool.not_false, Int.not_lt.1 hless, iff_true]

/-- A duration that is less than `n` seconds, of less than 272 years, is so as a double: it is a microsecond short at
least, and its double is off by less than half of that. -/
theorem seconds_lt_whole {micros n : Nat} (hsmall : n ≤ 2 ^ 33) (hless : micros < n * Duration.second) :
    ∃ m s, nearest false micros Duration.second = .finite false m s ∧ units m s < n * unit := by
  obtain ⟨k, hk, hmax, hunit⟩ := exists_unit_eq
  have hden : 0 < Duration.second := by decide
  have hbound : micros < 2 ^ 33 * Duration.second := Nat.lt_of_lt_of_le hless (Nat.mul_le_mul_right _ hsmall)
  have hquotient : micros * unit / Duration.second < 2 ^ (33 + k) := by
    rw [Nat.div_lt_iff_lt_mul hden, hunit, Nat.pow_add]
    calc micros * 2 ^ k < 2 ^ 33 * Duration.second * 2 ^ k := Nat.mul_lt_mul_of_pos_right hbound (Nat.two_pow_pos k)
      _ = 2 ^ 33 * 2 ^ k * Duration.second := by ring
  have hscale : (micros * unit / Duration.second).log2 - 52 ≤ k - 20 := by
    by_cases hzero : micros * unit / Duration.second = 0
    · rw [hzero, Nat.log2_zero]
      omega
    · have := (Nat.log2_lt hzero).2 hquotient
      omega
  obtain ⟨m, s, hfinite, hnear, -⟩ := ofQuotient_near false (micros * unit) hden (by omega)
  refine ⟨m, s, hfinite, ?_⟩
  have hplace : Duration.second * 2 ^ ((micros * unit / Duration.second).log2 - 52) < 2 ^ k := by
    calc Duration.second * 2 ^ ((micros * unit / Duration.second).log2 - 52)
        ≤ Duration.second * 2 ^ (k - 20) := Nat.mul_le_mul_left _ (Nat.pow_le_pow_right (by decide) hscale)
      _ < 2 ^ 20 * 2 ^ (k - 20) := Nat.mul_lt_mul_of_pos_right (by decide) (Nat.two_pow_pos _)
      _ = 2 ^ k := by rw [← Nat.pow_add, Nat.add_sub_cancel' (by omega)]
  have hstep : (micros + 1) * 2 ^ k ≤ n * 2 ^ k * Duration.second := by
    calc (micros + 1) * 2 ^ k ≤ n * Duration.second * 2 ^ k := Nat.mul_le_mul_right _ hless
      _ = n * 2 ^ k * Duration.second := by ring
  rw [Nat.add_mul, Nat.one_mul] at hstep
  rw [hunit] at hnear hplace ⊢
  refine Nat.lt_of_mul_lt_mul_right (a := Duration.second) ?_
  have hpos : 0 < 2 ^ k := Nat.two_pow_pos k
  omega

/-- A whole number of seconds, of less than 272 years, is compared exactly with every duration. -/
theorem comparesExactly_whole {n : Int} (hsmall : n ≤ 2 ^ 33) {d : Duration} (hpos : 0 ≤ d.micros) :
    (whole n).ComparesExactly d := by
  have hsecond : (0 : Int) < Duration.second := by decide
  refine comparesExactly_whole_iff.2 ⟨fun hle => ?_, fun hreached => ?_⟩
  · by_contra hshort
    have hpositive : 0 < n := by
      by_contra hnone
      have : n * Duration.second ≤ 0 := Int.mul_nonpos_of_nonpos_of_nonneg (by omega) (by omega)
      omega
    obtain ⟨n, rfl⟩ := Int.eq_ofNat_of_zero_le (Int.le_of_lt hpositive)
    have hless : d.micros.natAbs < n * Duration.second := by
      have hcast : ((n * Duration.second : Nat) : Int) = n * Duration.second := Int.natCast_mul ..
      omega
    obtain ⟨m, s, hfinite, hlt⟩ := seconds_lt_whole (by exact_mod_cast hsmall) hless
    rw [Duration.seconds_of_nonneg hpos, hfinite] at hle
    simp only [le, toUnits?, Bool.false_eq_true, if_false, decide_eq_true_eq] at hle
    exact absurd (by exact_mod_cast hle) (Nat.not_le_of_lt hlt)
  · -- the span is at least one that is exactly that long, or that has no length
    have hlonger : ∀ n₀ : Nat, n ≤ n₀ → n₀ ≤ 2 ^ 33 → ((n₀ * Duration.second : Nat) : Int) ≤ d.micros →
        (whole n).le d.seconds = true := by
      intro n₀ hn hn₀ hle
      obtain ⟨m, s, hfinite, hunits⟩ := nearest_whole (n := n₀) (by decide : 0 < Duration.second) (by omega)
      refine le_seconds_of_le (d := ⟨(n₀ * Duration.second : Nat)⟩) (Int.natCast_nonneg _) hle ?_
      rw [Duration.seconds_of_nonneg (Int.natCast_nonneg _), Int.natAbs_natCast, hfinite]
      simp only [le, toUnits?, Bool.false_eq_true, if_false, decide_eq_true_eq]
      rw [hunits, Int.natCast_mul]
      exact Int.mul_le_mul_of_nonneg_right hn (Int.natCast_nonneg _)
    by_cases hnone : n ≤ 0
    · exact hlonger 0 hnone (by decide) (by omega)
    · obtain ⟨n, rfl⟩ := Int.eq_ofNat_of_zero_le (by omega : 0 ≤ n)
      exact hlonger n (Int.le_refl _) (by exact_mod_cast hsmall) (by exact_mod_cast hreached)

end Quantity

end PaymentRetry
