import PaymentRetry.Proofs.Store.Latest

/-!
# What the store refuses

The store takes a draft, or refuses it as a duplicate, or cannot be handed its values at all.  A draft that is refused
as a duplicate has a number that its payment has already, or else it is incomplete: a value that every attempt has is
missing, or its amount is not a number (`Store.insert_isDuplicate_iff`).
-/

namespace PaymentRetry

/-- Whether `x` says that the attempt is recorded already. -/
def IsDuplicate {α : Type} (x : Except Failure α) : Prop := ∃ key number, x = .error (.duplicateKey key number)

theorem not_isDuplicate_ok {α : Type} (a : α) : ¬IsDuplicate (.ok a : Except Failure α) := by
  rintro ⟨key, number, ⟨⟩⟩

theorem isDuplicate_error {α β : Type} {f : Failure} :
    IsDuplicate (.error f : Except Failure α) ↔ IsDuplicate (.error f : Except Failure β) := by
  simp [IsDuplicate]

theorem Failure.exists_raised_of_ofTexts? {texts : List String} {f : Failure} (h : ofTexts? texts = some f) :
    ∃ reason, f = .raised "UnicodeEncodeError" [.text reason] := by
  unfold ofTexts? at h
  obtain ⟨reason, -, rfl⟩ := Option.map_eq_some_iff.1 h
  exact ⟨reason, rfl⟩

theorem Failure.ofTexts?_not_isDuplicate {α : Type} {texts : List String} {f : Failure} (h : ofTexts? texts = some f) :
    ¬IsDuplicate (.error f : Except Failure α) := by
  obtain ⟨reason, rfl⟩ := exists_raised_of_ofTexts? h
  rintro ⟨key, number, ⟨⟩⟩

namespace Draft

/-- Whether `d` lacks a value that every attempt has, or its amount is not a number. -/
def Incomplete (d : Draft) : Prop :=
  d.key = none ∨ d.transaction = none ∨ d.number = none ∨ d.currency = none ∨ d.amount = .nan false

private theorem unstorable?_not_isDuplicate {α : Type} {d : Draft} {f : Failure} (h : d.unstorable? = some f) :
    ¬IsDuplicate (.error f : Except Failure α) := by
  unfold unstorable? at h
  split at h
  · obtain rfl := Option.some.inj h
    rintro ⟨key, number, ⟨⟩⟩
  · cases hkeys : Failure.ofTexts? (d.key.toList ++ d.transaction.toList) with
    | some f' =>
      obtain rfl : f' = f := by simpa [hkeys] using h
      exact Failure.ofTexts?_not_isDuplicate hkeys
    | none =>
      rw [hkeys] at h
      split at h
      · obtain rfl : Failure.integerTooWide = f := by simpa using h
        rintro ⟨key, number, ⟨⟩⟩
      · exact Failure.ofTexts?_not_isDuplicate (by simpa using h)

end Draft

namespace Store

variable {s : Store} {d : Draft} {t : DateTime}

theorem complete?_eq_none_iff : s.complete? d t = none ↔ d.Incomplete := by
  unfold complete? Draft.Incomplete
  cases d.key <;> cases d.transaction <;> cases d.number <;> cases d.currency <;> simp

/-- Whether the identity that `d` asks for, if any, has not been given to a row of `s`. -/
def Unclaimed (s : Store) (d : Draft) : Prop := ∀ id, d.id = some id → s.find? id = none

private theorem find?_eq_none_of_complete? (hminted : s.Minted) (hd : s.Unclaimed d) {a : Attempt}
    (h : s.complete? d t = some a) : s.find? a.id = none := by
  obtain ⟨-, -, -, -, -, -, -, -, -, -, -, -, hid, -⟩ := complete?_eq_some h
  rw [hid]
  cases hchosen : d.id with
  | none => exact hminted.find?_eq_none
  | some id => exact hd id hchosen

theorem insert_isDuplicate_iff (hminted : s.Minted) (hd : s.Unclaimed d) :
    IsDuplicate (s.insert d t) ↔ d.unstorable? = none ∧
      (d.Incomplete ∨ ∃ a ∈ s.rows, d.key = some a.key ∧ d.number = some a.number) := by
  unfold insert
  cases hunstorable : d.unstorable? with
  | some f => simpa using Draft.unstorable?_not_isDuplicate hunstorable
  | none =>
    cases hcomplete : s.complete? d t with
    | none => simpa [IsDuplicate] using .inl (complete?_eq_none_iff.1 hcomplete)
    | some a =>
      have hincomplete : ¬d.Incomplete := fun h => by simp [complete?_eq_none_iff.2 h] at hcomplete
      have hfree := find?_eq_none_of_complete? hminted hd hcomplete
      obtain ⟨hkey, -, hnumber, -⟩ := complete?_eq_some hcomplete
      have htaken : s.hasNumber a.key a.number = true ↔
          ∃ b ∈ s.rows, d.key = some b.key ∧ d.number = some b.number := by
        rw [hkey, hnumber]
        simp [hasNumber, @eq_comm _ a.key, @eq_comm _ a.number]
      simp only [hfree, Option.isSome_none, Bool.or_false, true_and, hincomplete, false_or, ← htaken]
      split
      · rename_i hnumber
        exact ⟨fun _ => hnumber, fun _ => ⟨_, _, rfl⟩⟩
      · rename_i hnumber
        exact ⟨fun h => absurd h (not_isDuplicate_ok _), fun h => absurd h hnumber⟩

theorem storable_of_insert {a : Attempt} {s' : Store} (h : s.insert d t = .ok (a, s')) : d.unstorable? = none := by
  unfold insert at h
  split at h
  · cases h
  · assumption

theorem insert_refused {α : Type} {f : Failure} (h : s.insert d t = .error f) :
    d.unstorable? ≠ none ∨ IsDuplicate (.error f : Except Failure α) := by
  unfold insert at h
  split at h
  · rename_i hunstorable
    exact .inl (by simp [hunstorable])
  · split at h
    · exact .inr ⟨_, _, congrArg _ (Except.error.inj h).symm⟩
    · split at h
      · exact .inr ⟨_, _, congrArg _ (Except.error.inj h).symm⟩
      · cases h

end Store

end PaymentRetry
