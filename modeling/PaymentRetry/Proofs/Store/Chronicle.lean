import PaymentRetry.Proofs.Store.Coherence

/-!
# Attempts in the order of time

In a chronological store no attempt was changed before it was made, and each was made after the ones before it had last
been changed (`Store.Chronological`).  There the order of time is the order of the numbers, so the history of a payment
is in the order of its numbers (`Chronological.history_eq`) and ends with the last attempt
(`Chronological.getLast?_history`).

A store stays chronological if an attempt is made or changed late enough: a retry after the attempt that it retries was
last changed, a change after the attempt was made.  If it is also made after that attempt fell due, then every retry of
the store is (`Store.Punctual`).
-/

namespace PaymentRetry.Store

/-- Whether `created ≤ updated` in each row of `s`, and no row was created before the earlier ones of its payment were
last changed. -/
structure Chronological (s : Store) : Prop where
  made : ∀ a ∈ s.rows, a.created ≤ a.updated
  apart : ∀ a ∈ s.rows, ∀ b ∈ s.rows, a.key = b.key → a.number < b.number → a.updated ≤ b.created

/-- Whether every row of `s` after the first of its payment was created at the due date of its predecessor or later. -/
def Punctual (s : Store) : Prop :=
  ∀ a ∈ s.rows, ∀ b ∈ s.rows, a.key = b.key → b.number = a.number + 1 → ∀ due, a.dueAt = some due → due ≤ b.created

theorem chronological_of_rows_eq_nil {s : Store} (h : s.rows = []) : s.Chronological := by
  constructor <;> simp [h]

theorem punctual_of_rows_eq_nil {s : Store} (h : s.rows = []) : s.Punctual := by simp [Punctual, h]

/-! ### Making an attempt -/

section

variable {s s' : Store} {d : Draft} {now : DateTime} {a : Attempt}

theorem Sequenced.lt_of_insert (hs' : s'.Sequenced) (hinsert : s.insert d now = .ok (a, s')) {b : Attempt}
    (hb : b ∈ s.rows) (hkey : b.key = a.key) : b.number < a.number := by
  obtain ⟨-, hfree, -, hrows⟩ := insert_eq_ok hinsert
  have hlast : s'.last? a.asStored.key = some a.asStored := by
    have hattempts : s'.attemptsOf a.key = s.attemptsOf a.key ++ [a.asStored] := by
      simp [attemptsOf, hrows, show a.asStored.key = a.key from rfl]
    rw [show a.asStored.key = a.key from rfl, last?, hattempts, List.getLast?_concat]
  have hle := (hs'.last?_eq_some_iff_le.1 hlast).2 b (by simp [hrows, hb]) hkey
  have hne : b.number ≠ a.number := by
    rintro hnumber
    have htaken : s.hasNumber a.key a.number = true := List.any_eq_true.2 ⟨b, hb, by simp [hkey, hnumber]⟩
    rw [hfree] at htaken
    cases htaken
  have hle' : b.number ≤ a.number := hle
  omega

/-- A row with the key of the stored row `a` is the one that `a` retries, or has a lower number. -/
theorem Sequenced.prior_of_insert (hs : s.Sequenced) (hs' : s'.Sequenced) (hinsert : s.insert d now = .ok (a, s'))
    {P : Attempt → Prop} (hd : d.number = some 1 ∨ ∃ prior ∈ s.rows, P prior ∧ d = prior.next) {b : Attempt}
    (hb : b ∈ s.rows) (hkey : b.key = a.key) :
    ∃ prior ∈ s.rows, P prior ∧ prior.key = a.key ∧ a.number = prior.number + 1 ∧
      (b = prior ∨ b.number < prior.number) := by
  have hlt := hs'.lt_of_insert hinsert hb hkey
  obtain ⟨hdkey, -, hdnumber, -⟩ := complete?_eq_some (insert_eq_ok hinsert).1
  rcases hd with hfirst | ⟨prior, hprior, hP, rfl⟩
  · have hnumber : 1 = a.number := Option.some.inj (hfirst.symm.trans hdnumber)
    have := (mem_numbersTo.1 (hs.number_mem hb)).1
    omega
  · have hpkey : prior.key = a.key := Option.some.inj hdkey
    have hnumber : prior.number + 1 = a.number := Option.some.inj hdnumber
    refine ⟨prior, hprior, hP, hpkey, hnumber.symm, ?_⟩
    by_cases heq : b.number = prior.number
    · exact .inl (hs.eq_of_number hb hprior (hkey.trans hpkey.symm) heq)
    · exact .inr (by omega)

theorem Chronological.insert (h : s.Chronological) (hs : s.Sequenced) (hs' : s'.Sequenced)
    (hinsert : s.insert d now = .ok (a, s'))
    (hd : d.number = some 1 ∨ ∃ prior ∈ s.rows, prior.updated ≤ now ∧ d = prior.next) : s'.Chronological := by
  obtain ⟨hcomplete, -, -, hrows⟩ := insert_eq_ok hinsert
  obtain ⟨-, -, -, -, -, -, -, -, -, -, hcreated, hupdated, -⟩ := complete?_eq_some hcomplete
  have hmade : a.asStored.created = now ∧ a.asStored.updated = now := ⟨hcreated, hupdated⟩
  constructor
  · intro b hb
    rw [hrows, List.mem_append, List.mem_singleton] at hb
    rcases hb with hb | rfl
    · exact h.made b hb
    · rw [hmade.1, hmade.2]
      exact Nat.le_refl _
  · intro b hb c hc hkey hlt
    rw [hrows, List.mem_append, List.mem_singleton] at hb hc
    rcases hb with hb | rfl
    · rcases hc with hc | rfl
      · exact h.apart b hb c hc hkey hlt
      · -- the new attempt was made after all others had last been changed
        obtain ⟨prior, hprior, hlate, hpkey, -, rfl | hbefore⟩ := hs.prior_of_insert hs' hinsert hd hb hkey
        · rw [hmade.1]
          exact hlate
        · rw [hmade.1]
          have hapart := h.apart b hb prior hprior (hkey.trans hpkey.symm) hbefore
          exact Nat.le_trans hapart (Nat.le_trans (h.made prior hprior) hlate)
    · rcases hc with hc | rfl
      · have := hs'.lt_of_insert hinsert hc hkey.symm
        have hlt' : a.number < c.number := hlt
        omega
      · exact absurd hlt (Int.lt_irrefl _)

theorem Punctual.insert (h : s.Punctual) (hs : s.Sequenced) (hs' : s'.Sequenced)
    (hinsert : s.insert d now = .ok (a, s'))
    (hd : d.number = some 1 ∨ ∃ prior ∈ s.rows, (∀ due, prior.dueAt = some due → due ≤ now) ∧ d = prior.next) :
    s'.Punctual := by
  obtain ⟨hcomplete, -, -, hrows⟩ := insert_eq_ok hinsert
  obtain ⟨-, -, -, -, -, -, -, -, -, -, hcreated, -⟩ := complete?_eq_some hcomplete
  have hmade : a.asStored.created = now := hcreated
  intro b hb c hc hkey hnumber due hdue
  rw [hrows, List.mem_append, List.mem_singleton] at hb hc
  rcases hb with hb | rfl
  · rcases hc with hc | rfl
    · exact h b hb c hc hkey hnumber due hdue
    · obtain ⟨prior, -, hlate, -, hnumber', rfl | hbefore⟩ := hs.prior_of_insert hs' hinsert hd hb hkey
      · rw [hmade]
        exact hlate due hdue
      · have : a.number = b.number + 1 := hnumber
        omega
  · rcases hc with hc | rfl
    · have := hs'.lt_of_insert hinsert hc hkey.symm
      have hnumber' : c.number = a.number + 1 := hnumber
      omega
    · omega

end

/-! ### Completing an attempt -/

section

variable {s s' : Store} {first last : List Attempt} {c c' : Attempt}

private theorem mem_completed (hrows : s.rows = first ++ c :: last) (hrows' : s'.rows = first ++ c' :: last)
    {b : Attempt} (hb : b ∈ s'.rows) : b = c' ∨ b ∈ s.rows := by
  simp only [hrows', List.mem_append, List.mem_cons] at hb
  simp only [hrows, List.mem_append, List.mem_cons]
  tauto

private theorem Sequenced.le_of_pending (hs : s.Sequenced) (hc : c ∈ s.rows) (hpending : c.state = .pending)
    {b : Attempt} (hb : b ∈ s.rows) (hkey : c.key = b.key) : b.number ≤ c.number :=
  (hs.last?_eq_some_iff_le.1 (hs.last?_of_open hc (by simp [hpending]))).2 b hb hkey.symm

theorem Chronological.completed (h : s.Chronological) (hs : s.Sequenced) (hrows : s.rows = first ++ c :: last)
    (hrows' : s'.rows = first ++ c' :: last) (hcompleted : c.CompletedAs c') (hlate : c.created ≤ c'.updated) :
    s'.Chronological := by
  have hc : c ∈ s.rows := by simp [hrows]
  have hcreated : c'.created = c.created := by rw [hcompleted.rest]
  have hkey : c'.key = c.key := by rw [hcompleted.rest]
  have hnumber : c'.number = c.number := by rw [hcompleted.rest]
  constructor
  · intro b hb
    rcases mem_completed hrows hrows' hb with rfl | hb
    · rw [hcreated]
      exact hlate
    · exact h.made b hb
  · intro b hb d hd hsame hlt
    rcases mem_completed hrows hrows' hd with rfl | hd
    · rcases mem_completed hrows hrows' hb with rfl | hb
      · exact absurd hlt (Int.lt_irrefl _)
      · rw [hcreated]
        exact h.apart b hb c hc (hsame.trans hkey) (hnumber ▸ hlt)
    · rcases mem_completed hrows hrows' hb with rfl | hb
      · have := hs.le_of_pending hc hcompleted.pending hd (hkey ▸ hsame)
        omega
      · exact h.apart b hb d hd hsame hlt

theorem Punctual.completed (h : s.Punctual) (hs : s.Sequenced) (hrows : s.rows = first ++ c :: last)
    (hrows' : s'.rows = first ++ c' :: last) (hcompleted : c.CompletedAs c') : s'.Punctual := by
  have hc : c ∈ s.rows := by simp [hrows]
  have hcreated : c'.created = c.created := by rw [hcompleted.rest]
  have hkey : c'.key = c.key := by rw [hcompleted.rest]
  have hnumber : c'.number = c.number := by rw [hcompleted.rest]
  intro b hb d hd hsame hnext due hdue
  rcases mem_completed hrows hrows' hd with rfl | hd
  · rcases mem_completed hrows hrows' hb with rfl | hb
    · omega
    · rw [hcreated]
      exact h b hb c hc (hsame.trans hkey) (hnumber ▸ hnext) due hdue
  · rcases mem_completed hrows hrows' hb with rfl | hb
    · have := hs.le_of_pending hc hcompleted.pending hd (hkey ▸ hsame)
      omega
    · exact h b hb d hd hsame hnext due hdue

end

/-! ### The history of a payment -/

private theorem pairwise_numbersTo (n : Nat) : (numbersTo n).Pairwise (· < ·) := by
  induction n with
  | zero => exact .nil
  | succ n ih =>
    rw [numbersTo_succ, List.pairwise_append]
    refine ⟨ih, List.pairwise_singleton _ _, ?_⟩
    intro k hk l hl
    have hle := (mem_numbersTo.1 hk).2
    rw [List.mem_singleton] at hl
    omega

theorem Sequenced.pairwise_attemptsOf {s : Store} (hs : s.Sequenced) (key : String) :
    (s.attemptsOf key).Pairwise fun a b => a.number < b.number := by
  rw [← List.pairwise_map, hs.numbered key]
  exact pairwise_numbersTo _

namespace Chronological

variable {s : Store} (h : s.Chronological) (hs : s.Sequenced)

include h hs

theorem history_eq (key : String) : s.history key = s.attemptsOf key := by
  refine List.mergeSort_of_pairwise ?_
  refine (hs.pairwise_attemptsOf key).imp_of_mem ?_
  intro a b ha hb hlt
  obtain ⟨ha, hkey⟩ := mem_attemptsOf.1 ha
  obtain ⟨hb, hkey'⟩ := mem_attemptsOf.1 hb
  have hmade : a.created.micros ≤ a.updated.micros := h.made a ha
  have hapart : a.updated.micros ≤ b.created.micros := h.apart a ha b hb (hkey.trans hkey'.symm) hlt
  simp only [Bool.or_eq_true, Bool.and_eq_true, decide_eq_true_eq]
  omega

theorem getLast?_history (key : String) : (s.history key).getLast? = s.last? key := by
  rw [h.history_eq hs, last?]

end Chronological

end PaymentRetry.Store
