import Mathlib.Data.List.Forall2
import Mathlib.Data.List.Nodup
import PaymentRetry.Store

/-!
# How the store grows

A row is added by `insert` and completed once by `move?`; nothing else ever happens to it.  `Attempt.CompletedAs` says
what completing a row may change, `Store.Moves` what one call may do to the rows, and `Store.Grows` what any number
of calls may do.

The main statements: a transition of a pending row completes exactly that row (`move?_eq_some`), and a row that is
not pending is still there, unchanged, however the store grows (`Grows.mem_of_settled`).
-/

namespace PaymentRetry

/-! ### One row -/

/-- Whether the pending row `a` has become `b` by being completed.  Only the state, the kind of failure, the reason,
the due date and the time of the last change may differ. -/
structure Attempt.CompletedAs (a b : Attempt) : Prop where
  pending : a.state = .pending
  settled : b.state ≠ .pending
  rest : b = { a with state := b.state, failureType := b.failureType, message := b.message, dueAt := b.dueAt,
                      updated := b.updated }

theorem Attempt.CompletedAs.id_eq {a b : Attempt} (h : a.CompletedAs b) : b.id = a.id := by
  rw [h.rest]

/-- Whether the row `a` may be `b` later on. -/
def Attempt.Becomes (a b : Attempt) : Prop := b = a ∨ a.CompletedAs b

namespace Attempt

theorem Becomes.refl (a : Attempt) : a.Becomes a := .inl rfl

theorem Becomes.trans {a b c : Attempt} (hab : a.Becomes b) (hbc : b.Becomes c) : a.Becomes c := by
  rcases hab with rfl | hab
  · exact hbc
  · rcases hbc with rfl | hbc
    · exact .inr hab
    · exact absurd hbc.pending hab.settled

theorem Becomes.eq_of_settled {a b : Attempt} (h : a.Becomes b) (ha : a.state ≠ .pending) : b = a := by
  rcases h with h | h
  · exact h
  · exact absurd h.pending ha

theorem Becomes.id_eq {a b : Attempt} (h : a.Becomes b) : b.id = a.id := by
  rcases h with rfl | h
  · rfl
  · exact h.id_eq

theorem Becomes.key_eq {a b : Attempt} (h : a.Becomes b) : b.key = a.key := by
  rcases h with rfl | h
  · rfl
  · rw [h.rest]

theorem Becomes.number_eq {a b : Attempt} (h : a.Becomes b) : b.number = a.number := by
  rcases h with rfl | h
  · rfl
  · rw [h.rest]

theorem Becomes.created_eq {a b : Attempt} (h : a.Becomes b) : b.created = a.created := by
  rcases h with rfl | h
  · rfl
  · rw [h.rest]

end Attempt

theorem Change.completedAs_apply (c : Change) {a : Attempt} (ha : a.state = .pending) {target : AttemptState}
    (ht : target ≠ .pending) (now : DateTime) :
    a.CompletedAs (c.apply { a with state := target, updated := now }) :=
  ⟨ha, ht, rfl⟩

/-! ### All rows -/

/-- What one call may do to the rows of `s`: nothing, add one, or complete one. -/
inductive Store.Moves (s s' : Store) : Prop
  | same : s'.rows = s.rows → Moves s s'
  | added (a : Attempt) : s'.rows = s.rows ++ [a] → Moves s s'
  | completed (before : List Attempt) (a b : Attempt) (after : List Attempt) :
      s.rows = before ++ a :: after → s'.rows = before ++ b :: after → a.CompletedAs b → Moves s s'

/-- What any number of calls may do to the rows of `s`: complete some, and add others behind them. -/
def Store.Grows (s s' : Store) : Prop :=
  ∃ kept added, s'.rows = kept ++ added ∧ List.Forall₂ Attempt.Becomes s.rows kept

namespace Store

theorem Grows.refl (s : Store) : s.Grows s :=
  ⟨s.rows, [], by simp, List.forall₂_same.2 fun a _ => Attempt.Becomes.refl a⟩

private theorem forall₂_becomes_trans {l₁ l₂ l₃ : List Attempt} (h : List.Forall₂ Attempt.Becomes l₁ l₂)
    (h' : List.Forall₂ Attempt.Becomes l₂ l₃) : List.Forall₂ Attempt.Becomes l₁ l₃ := by
  induction h generalizing l₃ with
  | nil => exact h'
  | cons hab _ ih =>
    cases h' with
    | cons hbc h' => exact .cons (hab.trans hbc) (ih h')

theorem Grows.trans {s s' s'' : Store} (h : s.Grows s') (h' : s'.Grows s'') : s.Grows s'' := by
  obtain ⟨kept, added, hrows, hkept⟩ := h
  obtain ⟨kept', added', hrows', hkept'⟩ := h'
  rw [hrows] at hkept'
  refine ⟨kept'.take kept.length, kept'.drop kept.length ++ added', ?_, ?_⟩
  · rw [hrows', ← List.append_assoc, List.take_append_drop]
  · have hfirst := List.forall₂_take kept.length hkept'
    rw [List.take_left] at hfirst
    exact forall₂_becomes_trans hkept hfirst

theorem Moves.grows {s s' : Store} (h : s.Moves s') : s.Grows s' := by
  have hsame : ∀ l : List Attempt, List.Forall₂ Attempt.Becomes l l :=
    fun l => List.forall₂_same.2 fun a _ => Attempt.Becomes.refl a
  cases h with
  | same h => exact ⟨s.rows, [], by simp [h], hsame _⟩
  | added a h => exact ⟨s.rows, [a], h, hsame _⟩
  | completed before a b after h h' hab =>
    refine ⟨before ++ b :: after, [], by simp [h'], ?_⟩
    rw [h]
    exact List.rel_append (hsame before) (.cons (.inr hab) (hsame after))

theorem Grows.exists_becomes {s s' : Store} (h : s.Grows s') {a : Attempt} (ha : a ∈ s.rows) :
    ∃ b ∈ s'.rows, a.Becomes b := by
  obtain ⟨kept, added, hrows, hkept⟩ := h
  rw [hrows]
  clear hrows
  generalize s.rows = rows at ha hkept
  induction hkept with
  | nil => cases ha
  | cons hab _ ih =>
    rcases List.mem_cons.1 ha with rfl | ha
    · exact ⟨_, by simp, hab⟩
    · obtain ⟨b, hb, hab'⟩ := ih ha
      exact ⟨b, List.mem_cons_of_mem _ hb, hab'⟩

theorem Grows.mem_of_settled {s s' : Store} (h : s.Grows s') {a : Attempt} (ha : a ∈ s.rows)
    (hs : a.state ≠ .pending) : a ∈ s'.rows := by
  obtain ⟨b, hb, hab⟩ := h.exists_becomes ha
  rw [hab.eq_of_settled hs] at hb
  exact hb

/-! ### Identities -/

/-- Whether no two rows have the same identity. -/
def Distinct (s : Store) : Prop := (s.rows.map (·.id)).Nodup

theorem Distinct.eq_of_id {s : Store} (h : s.Distinct) {a b : Attempt} (ha : a ∈ s.rows) (hb : b ∈ s.rows)
    (hid : a.id = b.id) : a = b :=
  List.inj_on_of_nodup_map h ha hb hid

theorem find?_eq_some {s : Store} {id : AttemptId} {a : Attempt} (h : s.find? id = some a) :
    a ∈ s.rows ∧ a.id = id :=
  ⟨List.mem_of_find?_eq_some h, by simpa using List.find?_some h⟩

theorem Distinct.find?_of_mem {s : Store} (h : s.Distinct) {a : Attempt} (ha : a ∈ s.rows) :
    s.find? a.id = some a := by
  cases hf : s.find? a.id with
  | none => exact absurd (List.find?_eq_none.1 hf a ha) (by simp)
  | some b =>
    obtain ⟨hb, hid⟩ := find?_eq_some hf
    rw [h.eq_of_id hb ha hid]

/-! ### Leaving the pending state -/

/-- Whether the row `id` is pending. -/
def isPending (s : Store) (id : AttemptId) : Bool := s.rows.any fun a => a.id = id && a.state = .pending

/-- Whether the row `id` is there and not pending. -/
def Settled (s : Store) (id : AttemptId) : Prop := ∃ a ∈ s.rows, a.id = id ∧ a.state ≠ .pending

theorem isPending_iff {s : Store} {id : AttemptId} :
    s.isPending id = true ↔ ∃ a ∈ s.rows, a.id = id ∧ a.state = .pending := by
  simp [isPending]

theorem Settled.not_isPending {s : Store} (hs : s.Distinct) {id : AttemptId} (h : s.Settled id) :
    s.isPending id = false := by
  obtain ⟨a, ha, rfl, hsettled⟩ := h
  rw [Bool.eq_false_iff]
  intro hpending
  obtain ⟨b, hb, hid, hb'⟩ := isPending_iff.1 hpending
  rw [hs.eq_of_id hb ha hid] at hb'
  exact hsettled hb'

theorem Distinct.not_settled {s : Store} (hs : s.Distinct) {a : Attempt} (ha : a ∈ s.rows) (hp : a.state = .pending) :
    ¬s.Settled a.id := fun h => by
  have hpending := isPending_iff.2 ⟨a, ha, rfl, hp⟩
  rw [h.not_isPending hs] at hpending
  cases hpending

theorem Settled.grows {s s' : Store} {id : AttemptId} (h : s.Settled id) (hg : s.Grows s') : s'.Settled id := by
  obtain ⟨a, ha, hid, hsettled⟩ := h
  exact ⟨a, hg.mem_of_settled ha hsettled, hid, hsettled⟩

theorem Grows.settled {s s' : Store} (h : s.Grows s') {id : AttemptId} (hp : s.isPending id = true)
    (hn : s'.isPending id = false) : s'.Settled id := by
  obtain ⟨a, ha, rfl, -⟩ := isPending_iff.1 hp
  obtain ⟨b, hb, hab⟩ := h.exists_becomes ha
  refine ⟨b, hb, hab.id_eq, fun hpending => ?_⟩
  have := isPending_iff.2 ⟨b, hb, hab.id_eq, hpending⟩
  rw [hn] at this
  cases this

theorem Grows.eq_of_pending {s s' : Store} (h : s.Grows s') (hs : s'.Distinct) {a b : Attempt} (ha : a ∈ s.rows)
    (hb : b ∈ s'.rows) (hid : b.id = a.id) (hpending : b.state = .pending) : b = a := by
  obtain ⟨c, hc, hbecomes⟩ := h.exists_becomes ha
  obtain rfl := hs.eq_of_id hc hb (hbecomes.id_eq.trans hid.symm)
  rcases hbecomes with rfl | hcompleted
  · rfl
  · exact absurd hpending hcompleted.settled

/-- A row that is there at two moments is there in between. -/
theorem Grows.mem_between {s s' s'' : Store} (h : s.Grows s') (h' : s'.Grows s'') (hs : s''.Distinct) {a : Attempt}
    (ha : a ∈ s.rows) (ha' : a ∈ s''.rows) : a ∈ s'.rows := by
  obtain ⟨b, hb, hab⟩ := h.exists_becomes ha
  obtain ⟨c, hc, hbc⟩ := h'.exists_becomes hb
  obtain rfl := hs.eq_of_id hc ha' (hbc.id_eq.trans hab.id_eq)
  rcases hab with rfl | hab
  · exact hb
  · rcases hbc with rfl | hbc
    · exact hb
    · exact absurd hbc.pending hab.settled

theorem Grows.length_le {s s' : Store} (h : s.Grows s') : s.rows.length ≤ s'.rows.length := by
  obtain ⟨kept, added, hrows, hkept⟩ := h
  rw [hrows, List.length_append, hkept.length_eq]
  exact Nat.le_add_right _ _

/-- If `f` says what becomes of each row, the later rows begin with the image of the earlier ones under `f`. -/
theorem Grows.exists_eq_map {s s' : Store} (h : s.Grows s') {f : Attempt → Attempt}
    (hf : ∀ a ∈ s.rows, ∀ b ∈ s'.rows, a.Becomes b → b = f a) : ∃ added, s'.rows = s.rows.map f ++ added := by
  obtain ⟨kept, added, hrows, hkept⟩ := h
  refine ⟨added, ?_⟩
  rw [hrows] at hf ⊢
  have hf' : ∀ a ∈ s.rows, ∀ b ∈ kept, a.Becomes b → b = f a :=
    fun a ha b hb => hf a ha b (List.mem_append_left _ hb)
  clear hrows hf
  generalize s.rows = rows at hkept hf'
  congr 1
  induction hkept with
  | nil => rfl
  | cons hab _ ih =>
    rw [List.map_cons, hf' _ List.mem_cons_self _ List.mem_cons_self hab]
    rw [ih fun a ha b hb => hf' a (List.mem_cons_of_mem _ ha) b (List.mem_cons_of_mem _ hb)]

theorem Grows.rows_eq {s s' : Store} (h : s.Grows s') (hs : s.Distinct) (hs' : s'.Distinct)
    (hold : ∀ a ∈ s'.rows, a ∈ s.rows) : s'.rows = s.rows := by
  obtain ⟨added, hrows⟩ := h.exists_eq_map (f := id) fun a ha b hb hab => hs.eq_of_id (hold b hb) ha hab.id_eq
  rw [List.map_id] at hrows
  rcases added with _ | ⟨a, added⟩
  · rw [hrows, List.append_nil]
  · -- what has been added would be there twice
    unfold Distinct at hs'
    rw [hrows, List.map_append, List.nodup_append] at hs'
    have ha : a ∈ s.rows := hold a (hrows ▸ List.mem_append_right _ List.mem_cons_self)
    exact absurd rfl (hs'.2.2 _ (List.mem_map_of_mem ha) _ (List.mem_map_of_mem List.mem_cons_self))

/-- Whether nothing has been written into the pending rows yet. -/
def Blank (s : Store) : Prop :=
  ∀ a ∈ s.rows, a.state = .pending → a.failureType = none ∧ a.message = none ∧ a.dueAt = none

/-! ### Adding a row -/

theorem insert_eq_ok {s s' : Store} {d : Draft} {now : DateTime} {a : Attempt}
    (h : s.insert d now = .ok (a, s')) :
    s.complete? d now = some a ∧ s.hasNumber a.key a.number = false ∧ s.find? a.id = none ∧
      s'.rows = s.rows ++ [a.asStored] := by
  have hrows := rows_insert h
  unfold insert at h
  split at h
  · cases h
  · split at h
    · cases h
    · rename_i b hb
      split at h
      · cases h
      · rename_i htaken
        simp only [Except.ok.injEq, Prod.mk.injEq] at h
        obtain ⟨rfl, -⟩ := h
        simp only [Bool.or_eq_true, not_or, Bool.not_eq_true, Option.isSome_eq_false_iff,
          Option.isNone_iff_eq_none] at htaken
        exact ⟨hb, htaken.1, htaken.2, hrows⟩

theorem Distinct.insert {s s' : Store} (hs : s.Distinct) {d : Draft} {now : DateTime} {a : Attempt}
    (h : s.insert d now = .ok (a, s')) : s'.Distinct := by
  obtain ⟨-, -, hfree, hrows⟩ := insert_eq_ok h
  unfold Distinct
  rw [hrows, List.map_append, List.nodup_append]
  refine ⟨hs, by simp, ?_⟩
  intro x hx y hy
  obtain ⟨b, hb, rfl⟩ := List.mem_map.1 hx
  simp only [List.map_cons, List.map_nil, List.mem_singleton] at hy
  subst hy
  have : ¬(b.id = a.id) := by simpa using List.find?_eq_none.1 hfree b hb
  exact this

/-- The values of a row that come from its draft, and those that the store gives. -/
theorem complete?_eq_some {s : Store} {d : Draft} {now : DateTime} {a : Attempt} (h : s.complete? d now = some a) :
    d.key = some a.key ∧ d.transaction = some a.transaction ∧ d.number = some a.number ∧
      d.currency = some a.currency ∧ a.state = d.state ∧ a.amount = d.amount ∧ a.properties = d.properties ∧
      a.failureType = none ∧ a.message = none ∧ a.dueAt = d.dueAt ∧ a.created = now ∧ a.updated = now ∧
      a.id = d.id.getD (.minted (s.attemptsMinted + 1)) ∧ a.payment = d.payment.getD (.minted (s.paymentsMinted + 1)) ∧
      d.amount ≠ .nan false := by
  unfold complete? at h
  cases hk : d.key <;> cases ht : d.transaction <;> cases hn : d.number <;> cases hc : d.currency <;>
    simp only [hk, ht, hn, hc, Option.bind_eq_bind, Option.bind_some, Option.bind_none, reduceCtorEq] at h
  split at h
  · simp at h
  · rename_i hamount
    simp only [Option.pure_def, Option.some.injEq] at h
    subst h
    simp [hamount]

/-! ### Completing a row -/

private theorem map_ite_of_nodup {p : Attempt → Prop} [DecidablePred p] (f : Attempt → Attempt)
    {before after : List Attempt} {a : Attempt} (ha : p a) (hrest : ∀ x ∈ before ++ after, ¬p x) :
    (before ++ a :: after).map (fun x => if p x then f x else x) = before ++ f a :: after := by
  have hid : ∀ l : List Attempt, (∀ x ∈ l, ¬p x) → l.map (fun x => if p x then f x else x) = l := by
    intro l hl
    conv => rhs; rw [← List.map_id l]
    exact List.map_congr_left fun x hx => by simp [hl x hx]
  rw [List.map_append, List.map_cons, if_pos ha, hid before fun x hx => hrest x (List.mem_append_left _ hx),
    hid after fun x hx => hrest x (List.mem_append_right _ hx)]

/-- A transition changes the row `id` and no other. -/
theorem move?_eq_some {s s' : Store} (hs : s.Distinct) {id : AttemptId} {target : AttemptState} {change : Change}
    {now : DateTime} (h : s.move? id .pending target change now = some s') :
    ∃ before a after, s.rows = before ++ a :: after ∧ a.id = id ∧ a.state = .pending ∧
      s'.rows = before ++ change.apply { a with state := target, updated := now } :: after := by
  unfold move? at h
  split at h
  · rename_i hany
    simp only [Option.some.injEq] at h
    subst h
    obtain ⟨a, ha, hp⟩ := List.any_eq_true.1 hany
    simp only [Bool.and_eq_true, decide_eq_true_eq] at hp
    obtain ⟨before, after, hrows⟩ := List.append_of_mem ha
    refine ⟨before, a, after, hrows, hp.1, hp.2, ?_⟩
    show s.rows.map _ = _
    unfold Distinct at hs
    rw [hrows, List.map_append, List.map_cons, List.nodup_middle, List.nodup_cons] at hs
    rw [hrows]
    refine map_ite_of_nodup _ hp fun x hx hpx => hs.1 ?_
    rw [← List.map_append, hp.1, ← hpx.1]
    exact List.mem_map_of_mem hx
  · cases h

theorem Distinct.move {s s' : Store} (hs : s.Distinct) {id : AttemptId} {source target : AttemptState}
    {change : Change} {now : DateTime} (h : s.move? id source target change now = some s') : s'.Distinct := by
  unfold Distinct
  rw [map_id_move h]
  exact hs

theorem find?_of_move? {s s' : Store} (hs : s.Distinct) {id : AttemptId} {target : AttemptState} {change : Change}
    {now : DateTime} (h : s.move? id .pending target change now = some s') :
    ∃ a ∈ s.rows, a.id = id ∧ a.state = .pending ∧
      s'.find? id = some (change.apply { a with state := target, updated := now }) := by
  obtain ⟨before, a, after, hrows, hid, ha, hrows'⟩ := move?_eq_some hs h
  refine ⟨a, by simp [hrows], hid, ha, ?_⟩
  have hd : s'.Distinct := hs.move h
  have := hd.find?_of_mem (a := change.apply { a with state := target, updated := now }) (by simp [hrows'])
  rw [← this, ← hid]
  rfl

theorem exists_move? {s : Store} {a : Attempt} (ha : a ∈ s.rows) (hp : a.state = .pending) (target : AttemptState)
    (change : Change) (now : DateTime) : ∃ s', s.move? a.id .pending target change now = some s' := by
  have hany : (s.rows.any fun b => b.id = a.id && b.state = .pending) = true :=
    List.any_eq_true.2 ⟨a, ha, by simp [hp]⟩
  unfold move?
  rw [if_pos hany]
  exact ⟨_, rfl⟩

/-! ### Listings -/

private theorem mem_of_mem_limited {α : Type} {limit : Option Int} {xs : List α} {x : α}
    (h : x ∈ limited limit xs) : x ∈ xs := by
  unfold limited at h
  split at h
  · split at h
    · exact h
    · exact List.mem_of_mem_take h
  · exact h

private theorem mem_ordered {α : Type} {first second : α → Int} {xs : List α} {x : α} :
    x ∈ ordered first second xs ↔ x ∈ xs :=
  (List.mergeSort_perm xs _).mem_iff

theorem mem_dueRetries {s : Store} {asOf : DateTime} {limit : Option Int} {d : DueRetry}
    (h : d ∈ s.dueRetries asOf limit) : d.attempt ∈ s.rows ∧ s.dueRetry? asOf d.attempt = some d := by
  have hmem := mem_ordered.1 (mem_of_mem_limited h)
  obtain ⟨a, ha, hd⟩ := List.mem_filterMap.1 hmem
  have : d.attempt = a := by
    unfold dueRetry? at hd
    split at hd
    · split at hd
      · simp only [Option.some.injEq] at hd
        rw [← hd]
      · cases hd
    · cases hd
  rw [this]
  exact ⟨ha, hd⟩

theorem dueRetry?_eq_some {s : Store} {asOf : DateTime} {a : Attempt} {d : DueRetry}
    (h : s.dueRetry? asOf a = some d) :
    d.attempt = a ∧ a.state = .retried ∧ a.dueAt = some d.due ∧ d.due ≤ asOf ∧ s.hasLater a = false := by
  unfold dueRetry? at h
  split at h
  · rename_i due hdue
    split at h
    · rename_i hc
      simp only [Option.some.injEq] at h
      subst h
      simp only [Bool.and_eq_true, decide_eq_true_eq, Bool.not_eq_true'] at hc
      exact ⟨rfl, hc.1.1, hdue, hc.1.2, hc.2⟩
    · cases h
  · cases h

end Store

end PaymentRetry
