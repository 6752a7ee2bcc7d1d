import PaymentRetry.Proofs.Store.Latest

/-!
# Coherent stores

What holds of a store that only ever took drafts under fresh identities, each of which began a payment or retried an
attempt: `Store.Coherent`.  It is kept by adding such a draft (`Coherent.insert`) and by completing a row
(`Coherent.move`).

The last attempt of a payment is the one with the highest number (`Sequenced.last?_eq_some_iff`), and an attempt that is
not to be retried is the last one (`Sequenced.last?_of_open`).  Unlimited listings hold exactly the rows that they
should (`mem_stalePending_iff`, `dueRetries_perm`).
-/

namespace PaymentRetry

theorem Attempt.CompletedAs.storable {a b : Attempt} (h : a.CompletedAs b) (ha : a.Storable) : b.Storable := by
  rw [h.rest]
  exact ⟨ha.texts, ha.currency, ha.amount⟩

theorem Attempt.CompletedAs.payment_eq {a b : Attempt} (h : a.CompletedAs b) : b.payment = a.payment := by
  rw [h.rest]

theorem Attempt.Becomes.payment_eq {a b : Attempt} (h : a.Becomes b) : b.payment = a.payment := by
  rcases h with rfl | h
  · rfl
  · exact h.payment_eq

theorem Attempt.Becomes.charge_eq {a b : Attempt} (h : a.Becomes b) : b.charge = a.charge := by
  rcases h with rfl | h
  · rfl
  · rw [h.rest]
    rfl

namespace Store

/-! ### The last attempt -/

/-- The last attempt of the payment `key`. -/
def last? (s : Store) (key : String) : Option Attempt := (s.attemptsOf key).getLast?

namespace Sequenced

variable {s : Store} (hs : s.Sequenced)

include hs

theorem last?_eq_some_iff {key : String} {a : Attempt} :
    s.last? key = some a ↔ a ∈ s.attemptsOf key ∧ a.number = (s.attemptsOf key).length := by
  have hlast : ∀ {b}, s.last? key = some b → b ∈ s.attemptsOf key ∧ b.number = (s.attemptsOf key).length := by
    intro b hb
    refine ⟨List.mem_of_getLast? hb, ?_⟩
    have hnumber : ((s.attemptsOf key).map (·.number)).getLast? = some b.number := by
      rw [List.getLast?_map]
      exact congrArg (Option.map _) hb
    obtain ⟨n, hn⟩ : ∃ n, (s.attemptsOf key).length = n + 1 :=
      Nat.exists_eq_succ_of_ne_zero (Nat.ne_of_gt (List.length_pos_of_mem (List.mem_of_getLast? hb)))
    rw [hs.numbered, hn, numbersTo_succ, List.getLast?_concat, Option.some.injEq] at hnumber
    omega
  refine ⟨hlast, ?_⟩
  rintro ⟨ha, hnumber⟩
  cases h : s.last? key with
  | none =>
    rw [List.getLast?_eq_none_iff.1 h] at ha
    cases ha
  | some b =>
    obtain ⟨hb, hnumber'⟩ := hlast h
    rw [hs.eq_of_number (mem_attemptsOf.1 ha).1 (mem_attemptsOf.1 hb).1
      ((mem_attemptsOf.1 ha).2.trans (mem_attemptsOf.1 hb).2.symm) (by omega)]

theorem last?_eq_some_iff_le {a : Attempt} :
    s.last? a.key = some a ↔ a ∈ s.rows ∧ ∀ b ∈ s.rows, b.key = a.key → b.number ≤ a.number := by
  rw [hs.last?_eq_some_iff, mem_attemptsOf]
  constructor
  · rintro ⟨⟨ha, -⟩, hnumber⟩
    refine ⟨ha, fun b hb hkey => ?_⟩
    have hle := (mem_numbersTo.1 (hs.number_mem hb)).2
    rw [hkey] at hle
    omega
  · rintro ⟨ha, hle⟩
    refine ⟨⟨ha, rfl⟩, ?_⟩
    obtain ⟨hpos, hlast⟩ := mem_numbersTo.1 (hs.number_mem ha)
    obtain ⟨b, hb, hnumber⟩ := hs.exists_number (Int.le_trans hpos hlast) (Int.le_refl _)
    obtain ⟨hb, hkey⟩ := mem_attemptsOf.1 hb
    have := hle b hb hkey
    omega

theorem last?_of_open {a : Attempt} (ha : a ∈ s.rows) (hopen : a.state ≠ .retried) : s.last? a.key = some a := by
  have hmem : a ∈ s.attemptsOf a.key := mem_attemptsOf.2 ⟨ha, rfl⟩
  have hle := (mem_numbersTo.1 (hs.number_mem ha)).2
  refine hs.last?_eq_some_iff.2 ⟨hmem, ?_⟩
  by_contra hne
  exact hopen (hs.retried_of_lt hmem (by omega))

theorem exists_last? {a : Attempt} (ha : a ∈ s.rows) :
    ∃ b, s.last? a.key = some b ∧ b ∈ s.rows ∧ b.key = a.key ∧ a.number ≤ b.number := by
  have hmem : a ∈ s.attemptsOf a.key := mem_attemptsOf.2 ⟨ha, rfl⟩
  cases h : s.last? a.key with
  | none =>
    rw [List.getLast?_eq_none_iff.1 h] at hmem
    cases hmem
  | some b =>
    obtain ⟨hb, hnumber⟩ := hs.last?_eq_some_iff.1 h
    obtain ⟨hb, hkey⟩ := mem_attemptsOf.1 hb
    have hle := (mem_numbersTo.1 (hs.number_mem ha)).2
    exact ⟨b, rfl, hb, hkey, by omega⟩

end Sequenced

/-! ### Coherence -/

/-- Whether all identities in `s` were given out by it, all its values can be stored, and all rows under one key belong
to one payment. -/
structure Coherent (s : Store) : Prop where
  minted : s.Minted
  storable : ∀ a ∈ s.rows, a.Storable
  one_payment : ∀ a ∈ s.rows, ∀ b ∈ s.rows, a.key = b.key → a.payment = b.payment

theorem coherent_of_rows_eq_nil {s : Store} (h : s.rows = []) : s.Coherent := by
  refine ⟨?_, ?_, ?_⟩ <;> simp [Minted, h]

theorem Coherent.insert {s s' : Store} (h : s.Coherent) (hs : s.Sequenced) {d : Draft} (hunnamed : d.id = none)
    (hd : d.number = some 1 ∨ ∃ a ∈ s.rows, d = a.next) {now : DateTime} {a : Attempt}
    (hinsert : s.insert d now = .ok (a, s')) : s'.Coherent := by
  obtain ⟨hstorable, hid, hminted, hpayment⟩ := insert_unnamed hinsert hunnamed
  obtain ⟨hcomplete, hfree, -, hrows⟩ := insert_eq_ok hinsert
  obtain ⟨hkey, -, hnumber, -⟩ := complete?_eq_some hcomplete
  have hnew : ∀ b ∈ s.rows, b.key = a.key → b.payment = a.payment := by
    intro b hb hbkey
    rcases hd with hfirst | ⟨c, hc, rfl⟩
    · -- a payment that has attempts has a first one
      exfalso
      have hone : a.number = 1 := by simpa [hfirst] using hnumber.symm
      have hlength : (1 : Int) ≤ (s.attemptsOf a.key).length := by
        have := List.length_pos_of_mem (mem_attemptsOf.2 ⟨hb, hbkey⟩)
        omega
      obtain ⟨c, hc, hcn⟩ := hs.exists_number (Int.le_refl 1) hlength
      obtain ⟨hc, hck⟩ := mem_attemptsOf.1 hc
      have := List.any_eq_false.1 hfree c hc
      simp [hck, hcn, hone] at this
    · have hck : c.key = a.key := by simpa [Attempt.next] using hkey
      rw [hpayment c.payment rfl]
      exact h.one_payment b hb c hc (hbkey.trans hck.symm)
  have hmem : ∀ b, b ∈ s'.rows ↔ b ∈ s.rows ∨ b = a.asStored := by
    intro b
    rw [hrows, List.mem_append, List.mem_singleton]
  refine ⟨?_, ?_, ?_⟩
  · intro b hb
    rcases (hmem b).1 hb with hb | rfl
    · obtain ⟨n, hn, hbid⟩ := h.minted b hb
      exact ⟨n, by omega, hbid⟩
    · exact ⟨s.attemptsMinted + 1, by omega, hid⟩
  · intro b hb
    rcases (hmem b).1 hb with hb | rfl
    · exact h.storable b hb
    · exact hstorable.asStored
  · intro b hb c hc hbc
    rcases (hmem b).1 hb with hb | rfl <;> rcases (hmem c).1 hc with hc | rfl
    · exact h.one_payment b hb c hc hbc
    · exact hnew b hb hbc
    · exact (hnew c hc hbc.symm).symm
    · rfl

theorem Coherent.move {s s' : Store} (h : s.Coherent) (hs : s.Distinct) {id : AttemptId} {target : AttemptState}
    {change : Change} {now : DateTime} (hmove : s.move? id .pending target change now = some s')
    (htarget : target ≠ .pending) : s'.Coherent := by
  obtain ⟨before, a, after, hrows, -, hpending, hrows'⟩ := move?_eq_some hs hmove
  have hcompleted := change.completedAs_apply hpending htarget now
  generalize change.apply { a with state := target, updated := now } = b at hrows' hcompleted
  have hminted : s'.attemptsMinted = s.attemptsMinted := by
    unfold move? at hmove
    split at hmove
    · cases hmove
      rfl
    · cases hmove
  have ha : a ∈ s.rows := by simp [hrows]
  -- each row of the new store is an old one, or one of the old ones completed
  have hmem : ∀ x ∈ s'.rows, ∃ y ∈ s.rows, y.Becomes x := by
    intro x hx
    rw [hrows', List.mem_append, List.mem_cons] at hx
    rcases hx with hx | rfl | hx
    · exact ⟨x, by simp [hrows, hx], .refl x⟩
    · exact ⟨a, ha, .inr hcompleted⟩
    · exact ⟨x, by simp [hrows, hx], .refl x⟩
  refine ⟨?_, ?_, ?_⟩
  · intro x hx
    obtain ⟨y, hy, hyx⟩ := hmem x hx
    rw [hminted, hyx.id_eq]
    exact h.minted y hy
  · intro x hx
    obtain ⟨y, hy, rfl | hyx⟩ := hmem x hx
    · exact h.storable _ hy
    · exact hyx.storable (h.storable y hy)
  · intro x hx y hy hxy
    obtain ⟨x', hx', hxx⟩ := hmem x hx
    obtain ⟨y', hy', hyy⟩ := hmem y hy
    rw [hxx.payment_eq, hyy.payment_eq]
    exact h.one_payment x' hx' y' hy' (by rw [← hxx.key_eq, ← hyy.key_eq, hxy])

/-! ### Unlimited listings -/

theorem mem_stalePending_iff {s : Store} {olderThan : DateTime} {a : Attempt} :
    a ∈ s.stalePending olderThan none ↔ a ∈ s.rows ∧ a.state = .pending ∧ a.updated ≤ olderThan := by
  unfold stalePending limited ordered
  rw [(List.mergeSort_perm _ _).mem_iff, List.mem_filter]
  simp

theorem dueRetries_perm (s : Store) (asOf : DateTime) :
    (s.dueRetries asOf none).Perm (s.rows.filterMap (s.dueRetry? asOf)) := by
  unfold dueRetries limited ordered
  exact List.mergeSort_perm _ _

theorem mem_dueRetries_iff {s : Store} {asOf : DateTime} {d : DueRetry} :
    d ∈ s.dueRetries asOf none ↔
      d.attempt ∈ s.rows ∧ d.attempt.state = .retried ∧ d.attempt.dueAt = some d.due ∧ d.due ≤ asOf ∧
        d.payment = d.attempt.payment ∧ s.hasLater d.attempt = false := by
  rw [(s.dueRetries_perm asOf).mem_iff, List.mem_filterMap]
  constructor
  · rintro ⟨a, ha, hd⟩
    obtain ⟨rfl, hretried, hdue, hle, hlater⟩ := dueRetry?_eq_some hd
    refine ⟨ha, hretried, hdue, hle, ?_, hlater⟩
    unfold dueRetry? at hd
    rw [hdue] at hd
    simp only [hretried, hle, hlater, decide_true, Bool.not_false, Bool.and_self, if_true, Option.some.injEq] at hd
    rw [← hd]
  · rintro ⟨ha, hretried, hdue, hle, hpayment, hlater⟩
    refine ⟨d.attempt, ha, ?_⟩
    unfold dueRetry?
    rw [hdue]
    simp only [hretried, hle, hlater, decide_true, Bool.not_false, Bool.and_self, if_true, Option.some.injEq]
    rw [← hpayment]

theorem hasLater_eq_false_iff {s : Store} {a : Attempt} :
    s.hasLater a = false ↔ ∀ b ∈ s.rows, b.payment = a.payment → b.number ≤ a.number := by
  unfold hasLater
  rw [List.any_eq_false]
  refine forall₂_congr fun b _ => ?_
  simp only [Bool.and_eq_true, decide_eq_true_eq, not_and, Int.not_lt]

private theorem sublist_dueRetries (rows : List Attempt) (s : Store) (asOf : DateTime) :
    ((rows.filterMap (s.dueRetry? asOf)).map (·.attempt)).Sublist rows := by
  induction rows with
  | nil => exact .slnil
  | cons a rows ih =>
    rw [List.filterMap_cons]
    split
    · exact ih.cons a
    · rename_i d hd
      rw [List.map_cons, (dueRetry?_eq_some hd).1]
      exact ih.cons_cons a

theorem nodup_dueRetries {s : Store} (hs : s.Distinct) (asOf : DateTime) :
    ((s.dueRetries asOf none).map (·.attempt.id)).Nodup := by
  rw [((s.dueRetries_perm asOf).map _).nodup_iff]
  refine List.Nodup.sublist ?_ hs
  simpa [Function.comp_def] using (sublist_dueRetries s.rows s asOf).map Attempt.id

end Store

end PaymentRetry
