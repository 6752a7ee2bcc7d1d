import PaymentRetry.Proofs.Store.Numbering

/-!
# The latest attempt

What the calls of the store answer when all rows are attempts of one payment, in order of their numbers: the next
attempt can be stored (`exists_insert_next`), a transition of the latest attempt completes it (`move?_latest`), only the
latest attempt can be due (`dueRetries_latest`), and none is stale unless one is pending (`stalePending_eq_nil`).
-/

namespace PaymentRetry

/-- Whether the store takes the texts, the number and the amount of `a`. -/
structure Attempt.Storable (a : Attempt) : Prop where
  texts : Failure.ofTexts? [a.key, a.transaction] = none
  currency : Failure.ofTexts? [a.currency] = none
  amount : ∀ signalling, a.amount ≠ .nan signalling

private theorem Binary64.ofQuotient_ne_nan (negative : Bool) (units den : Nat) :
    ofQuotient negative units den ≠ .nan := by
  unfold ofQuotient
  dsimp only
  split
  · split
    · exact Binary64.noConfusion
    · exact Binary64.noConfusion
  · split
    · exact Binary64.noConfusion
    · exact Binary64.noConfusion

-- a term, because a tactic would compute the unit
private theorem Binary64.nearest_ne_nan (negative : Bool) (num den : Nat) : nearest negative num den ≠ .nan :=
  ofQuotient_ne_nan negative (num * unit) den

private theorem Decimal.stored_ne_nan {x : Decimal} (hx : ∀ signalling, x ≠ .nan signalling) (signalling : Bool) :
    x.stored ≠ .nan signalling := by
  have hdouble : x.toBinary64 ≠ .nan := by
    cases x with
    | nan signalling => exact absurd rfl (hx signalling)
    | infinite negative => simp [toBinary64]
    | finite negative coefficient exponent =>
      unfold toBinary64
      simp only
      split
      · simp
      · split
        · simp
        · split
          · exact Binary64.nearest_ne_nan _ _ _
          · exact Binary64.nearest_ne_nan _ _ _
  unfold stored
  split
  · rename_i h
    exact absurd h hdouble
  · simp
  · simp [ofHundredths]

theorem Attempt.Storable.asStored {a : Attempt} (h : a.Storable) : a.asStored.Storable :=
  ⟨h.texts, h.currency, Decimal.stored_ne_nan h.amount⟩

/-- The row that is stored for the attempt after `a` at `t`, under the identity `id`. -/
def Attempt.retryAt (a : Attempt) (t : DateTime) (id : AttemptId) : Attempt where
  id := id
  payment := a.payment
  key := a.key
  transaction := a.transaction
  number := a.number + 1
  state := .pending
  amount := a.amount.stored
  currency := a.currency
  properties := some (a.properties.getD [])
  failureType := none
  message := none
  dueAt := none
  created := t
  updated := t

namespace Store

/-! ### Adding an attempt -/

/-- Whether all identities in `s` have been given out by it. -/
def Minted (s : Store) : Prop := ∀ a ∈ s.rows, ∃ n ≤ s.attemptsMinted, a.id = .minted n

theorem Minted.find?_eq_none {s : Store} (h : s.Minted) : s.find? (.minted (s.attemptsMinted + 1)) = none := by
  refine List.find?_eq_none.2 fun a ha => ?_
  obtain ⟨n, hn, hid⟩ := h a ha
  simp [hid]
  omega

theorem unstorable?_eq_none {d : Draft} :
    d.unstorable? = none ↔ d.amount ≠ .nan true ∧ Failure.ofTexts? (d.key.toList ++ d.transaction.toList) = none ∧
      d.number.any (!fits ·) = false ∧ Failure.ofTexts? d.currency.toList = none := by
  unfold Draft.unstorable?
  by_cases hamount : d.amount = .nan true
  · simp [hamount]
  · rw [if_neg hamount]
    cases Failure.ofTexts? (d.key.toList ++ d.transaction.toList) <;> cases d.number.any (!fits ·) <;>
      simp [hamount]

theorem insert_unnamed {s s' : Store} {d : Draft} {now : DateTime} {a : Attempt} (h : s.insert d now = .ok (a, s'))
    (hd : d.id = none) :
    a.Storable ∧ a.id = .minted (s.attemptsMinted + 1) ∧ s'.attemptsMinted = s.attemptsMinted + 1 ∧
      ∀ p, d.payment = some p → a.payment = p := by
  unfold insert at h
  split at h
  · cases h
  · rename_i hstorable
    split at h
    · cases h
    · rename_i b hb
      split at h
      · cases h
      · simp only [Except.ok.injEq, Prod.mk.injEq] at h
        obtain ⟨rfl, rfl⟩ := h
        obtain ⟨hkey, htransaction, -, hcurrency, -, hamount, -, -, -, -, -, -, hid, hpayment, hquiet⟩ :=
          complete?_eq_some hb
        obtain ⟨hsignalling, htexts, -, hcurrencies⟩ := unstorable?_eq_none.1 hstorable
        rw [hkey, htransaction] at htexts
        rw [hcurrency] at hcurrencies
        refine ⟨⟨htexts, hcurrencies, ?_⟩, ?_, ?_, ?_⟩
        · rw [hamount]
          rintro (_ | _)
          · exact hquiet
          · exact hsignalling
        · rw [hid, hd]
          rfl
        · simp [append, hd]
        · intro p hp
          rw [hpayment, hp]
          rfl

theorem fits_of_insert {s s' : Store} {d : Draft} {now : DateTime} {a : Attempt} (h : s.insert d now = .ok (a, s'))
    {number : Int} (hd : d.number = some number) : fits number = true := by
  unfold insert at h
  split at h
  · cases h
  · rename_i hstorable
    have hfits := (unstorable?_eq_none.1 hstorable).2.2.1
    rw [hd] at hfits
    simpa using hfits

/-- The stored successor `b` of `a` asks the gateway for what `a` did. -/
theorem retry_of_insert {s s' : Store} {a b : Attempt} {t : DateTime} (h : s.insert a.next t = .ok (b, s')) :
    b.asStored = a.retryAt t b.id ∧ b.charge = a.charge ∧ Store.fits (a.number + 1) = true := by
  have hfits : Store.fits (a.number + 1) = true := fits_of_insert h rfl
  obtain ⟨hcomplete, -⟩ := insert_eq_ok h
  obtain ⟨hkey, htransaction, hnumber, hcurrency, hstate, hamount, hproperties, htype, hmessage, hdue, hcreated,
    hupdated, -, hpayment, -⟩ := complete?_eq_some hcomplete
  have hkey' : a.key = b.key := Option.some.inj hkey
  have htransaction' : a.transaction = b.transaction := Option.some.inj htransaction
  have hnumber' : a.number + 1 = b.number := Option.some.inj hnumber
  have hcurrency' : a.currency = b.currency := Option.some.inj hcurrency
  have hpayment' : b.payment = a.payment := hpayment
  obtain ⟨id, payment, key, transaction, number, state, amount, currency, properties, failureType, message, dueAt,
    created, updated⟩ := b
  simp only at hkey' htransaction' hnumber' hcurrency' hpayment' hstate
  simp only at hamount hproperties htype hmessage hdue hcreated hupdated
  subst hkey' htransaction' hnumber' hcurrency' hpayment' hstate hamount hproperties htype hmessage hdue hcreated
    hupdated
  exact ⟨rfl, rfl, hfits⟩

theorem exists_insert_next {s : Store} {a : Attempt} (ha : a.Storable) (hs : s.Minted)
    (hfits : fits (a.number + 1) = true) (hfree : s.hasNumber a.key (a.number + 1) = false) (now : DateTime) :
    ∃ b s', s.insert a.next now = .ok (b, s') := by
  have hunstorable : a.next.unstorable? = none :=
    unstorable?_eq_none.2 ⟨ha.amount true, ha.texts, by simp [Attempt.next, hfits], ha.currency⟩
  obtain ⟨b, hb⟩ : ∃ b, s.complete? a.next now = some b := by
    unfold complete?
    simp [Attempt.next, ha.amount false]
  obtain ⟨hkey, -, hnumber, -, -, -, -, -, -, -, -, -, hid, -⟩ := complete?_eq_some hb
  have hkey' : a.key = b.key := Option.some.inj hkey
  have hnumber' : a.number + 1 = b.number := Option.some.inj hnumber
  have hid' : b.id = .minted (s.attemptsMinted + 1) := hid
  rw [hkey', hnumber'] at hfree
  refine ⟨b, s.append a.next b, ?_⟩
  unfold insert
  simp only [hunstorable, hb, hfree, hid', hs.find?_eq_none, Option.isSome_none, Bool.or_self, Bool.false_eq_true,
    if_false]

/-! ### Completing the latest attempt -/

theorem move?_latest {s : Store} (hs : s.Distinct) {prior : List Attempt} {a : Attempt} (hrows : s.rows = prior ++ [a])
    (ha : a.state = .pending) (target : AttemptState) (change : Change) (now : DateTime) :
    s.move? a.id .pending target change now =
      some { s with rows := prior ++ [change.apply { a with state := target, updated := now }] } := by
  have hany : (s.rows.any fun b => b.id = a.id && b.state = .pending) = true :=
    List.any_eq_true.2 ⟨a, by simp [hrows], by simp [ha]⟩
  have hprior : ∀ b ∈ prior, b.id ≠ a.id := by
    intro b hb hid
    unfold Distinct at hs
    rw [hrows, List.map_append, List.nodup_append] at hs
    exact hs.2.2 b.id (List.mem_map_of_mem hb) a.id (by simp) hid
  unfold move?
  rw [if_pos hany, hrows, List.map_append]
  congr 3
  · conv => rhs; rw [← List.map_id prior]
    refine List.map_congr_left fun b hb => ?_
    rw [if_neg fun h => hprior b hb h.1]
    rfl
  · simp [ha]

/-! ### Listings -/

private theorem limited_nil {α : Type} (limit : Option Int) : limited limit ([] : List α) = [] := by
  unfold limited
  split
  · split <;> simp
  · rfl

private theorem limited_singleton {α : Type} {limit : Option Int} (hlimit : limit ≠ some 0) (x : α) :
    limited limit [x] = [x] := by
  unfold limited
  split
  · rename_i n
    split
    · rfl
    · have hn : n ≠ 0 := fun h => hlimit (by rw [h])
      obtain ⟨m, hm⟩ : ∃ m, n.toNat = m + 1 := ⟨n.toNat - 1, by omega⟩
      rw [hm, List.take_succ_cons, List.take_nil]
  · rfl

theorem stalePending_eq_nil {s : Store} (hs : ∀ a ∈ s.rows, a.state ≠ .pending) (olderThan : DateTime)
    (limit : Option Int) : s.stalePending olderThan limit = [] := by
  have hnone : s.rows.filter (fun a => a.state = .pending && a.updated ≤ olderThan) = [] := by
    rw [List.filter_eq_nil_iff]
    intro a ha
    simp [hs a ha]
  rw [stalePending, hnone]
  simp [ordered, limited_nil]

section

variable {s : Store} {prior : List Attempt} {a : Attempt} (hrows : s.rows = prior ++ [a])
  (hprior : ∀ b ∈ prior, b.payment = a.payment ∧ b.number < a.number)

include hrows hprior

private theorem filterMap_dueRetry? (asOf : DateTime) :
    s.rows.filterMap (s.dueRetry? asOf) = (s.dueRetry? asOf a).toList := by
  have hnone : prior.filterMap (s.dueRetry? asOf) = [] := by
    rw [List.filterMap_eq_nil_iff]
    intro b hb
    have hlater : s.hasLater b = true := by
      refine List.any_eq_true.2 ⟨a, by simp [hrows], ?_⟩
      simp [(hprior b hb).1, (hprior b hb).2]
    unfold dueRetry?
    split
    · simp [hlater]
    · rfl
  rw [hrows, List.filterMap_append, hnone, List.nil_append]
  cases h : s.dueRetry? asOf a <;> simp [h]

/-- The latest attempt is due from its due date on, if it is to be retried. -/
theorem dueRetries_latest {asOf due : DateTime} {limit : Option Int} (hlimit : limit ≠ some 0)
    (ha : a.state = .retried) (hdue : a.dueAt = some due) (hle : due ≤ asOf) :
    s.dueRetries asOf limit = [⟨a.payment, due, a⟩] := by
  have hlater : s.hasLater a = false := by
    refine List.any_eq_false.2 fun b hb => ?_
    rw [hrows, List.mem_append, List.mem_singleton] at hb
    rcases hb with hb | rfl
    · have := (hprior b hb).2
      simp
      omega
    · simp
  have hretry : s.dueRetry? asOf a = some ⟨a.payment, due, a⟩ := by
    unfold dueRetry?
    simp [hdue, ha, hle, hlater]
  rw [dueRetries, filterMap_dueRetry? hrows hprior, hretry]
  simp [ordered, limited_singleton hlimit]

/-- Nothing is due before the due date of the latest attempt, or if that is not to be retried. -/
theorem dueRetries_eq_nil {asOf : DateTime} {limit : Option Int}
    (ha : a.state = .retried → ∀ due, a.dueAt = some due → ¬due ≤ asOf) : s.dueRetries asOf limit = [] := by
  have hretry : s.dueRetry? asOf a = none := by
    unfold dueRetry?
    split
    · rename_i due hdue
      by_cases hretried : a.state = .retried
      · simp [ha hretried due hdue]
      · simp [hretried]
    · rfl
  rw [dueRetries, filterMap_dueRetry? hrows hprior, hretry]
  simp [ordered, limited_nil]

end

end Store

end PaymentRetry
