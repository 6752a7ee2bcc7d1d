import PaymentRetry.Proofs.Store.Growth

/-!
# Numbered sequences of attempts

The attempts of a payment are numbered from one in order of creation, and all but the last are to be retried.
`Store.Sequenced` says so of all payments at once.  It is kept by adding an attempt that begins a payment or follows an
attempt to be retried (`Sequenced.insert`), and by completing a pending attempt (`Sequenced.move`).

Its consequences: a payment has at most one attempt that is not to be retried (`Sequenced.eq_of_open`), so at most one
that is pending and at most one that ends it (`Sequenced.countP_le_one`).
-/

namespace PaymentRetry.Store

/-- The attempts of the payment `key`, in order of creation. -/
def attemptsOf (s : Store) (key : String) : List Attempt := s.rows.filter (·.key = key)

/-- The numbers from one to `n`. -/
def numbersTo (n : Nat) : List Int := (List.range n).map fun i : Nat => (i : Int) + 1

/-- Whether the attempts of each payment are numbered from one in `s`, and all but the last are to be retried. -/
structure Sequenced (s : Store) : Prop where
  distinct : s.Distinct
  numbered : ∀ key, (s.attemptsOf key).map (·.number) = numbersTo (s.attemptsOf key).length
  retried : ∀ a ∈ s.rows, ∀ b ∈ s.rows, a.key = b.key → a.number < b.number → a.state = .retried

/-- Whether the draft `d` begins a payment, or follows an attempt that is to be retried. -/
def Admits (s : Store) (d : Draft) : Prop :=
  d.state = .pending ∧ (d.number = some 1 ∨
    ∃ a ∈ s.rows, a.state = .retried ∧ d.key = some a.key ∧ d.number = some (a.number + 1))

theorem mem_attemptsOf {s : Store} {key : String} {a : Attempt} :
    a ∈ s.attemptsOf key ↔ a ∈ s.rows ∧ a.key = key := by
  simp [attemptsOf]

theorem mem_numbersTo {n : Nat} {k : Int} : k ∈ numbersTo n ↔ 1 ≤ k ∧ k ≤ n := by
  simp only [numbersTo, List.mem_map, List.mem_range]
  constructor
  · rintro ⟨i, hi, rfl⟩
    omega
  · rintro ⟨h₁, h₂⟩
    exact ⟨(k - 1).toNat, by omega, by omega⟩

private theorem nodup_numbersTo (n : Nat) : (numbersTo n).Nodup := by
  refine List.Nodup.map ?_ List.nodup_range
  intro i j h
  simp only at h
  omega

theorem numbersTo_succ (n : Nat) : numbersTo (n + 1) = numbersTo n ++ [(n : Int) + 1] := by
  simp [numbersTo, List.range_succ]

theorem Admits.grows {s s' : Store} {d : Draft} (h : s.Admits d) (hg : s.Grows s') : s'.Admits d := by
  obtain ⟨hp, h | ⟨a, ha, hr, hk⟩⟩ := h
  · exact ⟨hp, .inl h⟩
  · exact ⟨hp, .inr ⟨a, hg.mem_of_settled ha (by simp [hr]), hr, hk⟩⟩

/-! ### Consequences -/

namespace Sequenced

variable {s : Store} (hs : s.Sequenced)

include hs

theorem number_mem {a : Attempt} (ha : a ∈ s.rows) : a.number ∈ numbersTo (s.attemptsOf a.key).length := by
  rw [← hs.numbered a.key]
  exact List.mem_map_of_mem (mem_attemptsOf.2 ⟨ha, rfl⟩)

theorem eq_of_number {a b : Attempt} (ha : a ∈ s.rows) (hb : b ∈ s.rows) (hk : a.key = b.key)
    (hn : a.number = b.number) : a = b := by
  have hnd : ((s.attemptsOf b.key).map (·.number)).Nodup := by
    rw [hs.numbered b.key]
    exact nodup_numbersTo _
  exact List.inj_on_of_nodup_map hnd (mem_attemptsOf.2 ⟨ha, hk⟩) (mem_attemptsOf.2 ⟨hb, rfl⟩) hn

theorem eq_of_open {a b : Attempt} (ha : a ∈ s.rows) (hb : b ∈ s.rows) (hk : a.key = b.key)
    (hsa : a.state ≠ .retried) (hsb : b.state ≠ .retried) : a = b := by
  apply hs.eq_of_number ha hb hk
  rcases Int.lt_trichotomy a.number b.number with h | h | h
  · exact absurd (hs.retried a ha b hb hk h) hsa
  · exact h
  · exact absurd (hs.retried b hb a ha hk.symm h) hsb

theorem nodup_attemptsOf (key : String) : (s.attemptsOf key).Nodup := by
  refine List.Nodup.of_map (·.number) ?_
  rw [hs.numbered key]
  exact nodup_numbersTo _

/-- At most one attempt of a payment has the property `p` if no attempt to be retried has it. -/
theorem countP_le_one (key : String) {p : Attempt → Bool} (hp : ∀ a, p a = true → a.state ≠ .retried) :
    (s.attemptsOf key).countP p ≤ 1 := by
  rw [List.countP_eq_length_filter]
  have hnd : ((s.attemptsOf key).filter p).Nodup := (hs.nodup_attemptsOf key).filter p
  have heq : ∀ a ∈ (s.attemptsOf key).filter p, ∀ b ∈ (s.attemptsOf key).filter p, a = b := by
    intro a ha b hb
    obtain ⟨ha, hpa⟩ := List.mem_filter.1 ha
    obtain ⟨hb, hpb⟩ := List.mem_filter.1 hb
    obtain ⟨ha, hka⟩ := mem_attemptsOf.1 ha
    obtain ⟨hb, hkb⟩ := mem_attemptsOf.1 hb
    exact hs.eq_of_open ha hb (hka.trans hkb.symm) (hp a hpa) (hp b hpb)
  generalize (s.attemptsOf key).filter p = l at hnd heq
  rcases l with _ | ⟨a, _ | ⟨b, l⟩⟩
  · simp
  · simp
  · exact absurd (heq a (by simp) b (by simp)) (by simp at hnd; exact hnd.1.1)

theorem exists_number {key : String} {k : Int} (h₁ : 1 ≤ k) (h₂ : k ≤ (s.attemptsOf key).length) :
    ∃ a ∈ s.attemptsOf key, a.number = k := by
  have hmem : k ∈ (s.attemptsOf key).map (·.number) := by
    rw [hs.numbered]
    exact mem_numbersTo.2 ⟨h₁, h₂⟩
  exact List.mem_map.1 hmem

theorem retried_of_lt {key : String} {a : Attempt} (ha : a ∈ s.attemptsOf key)
    (hlt : a.number < (s.attemptsOf key).length) : a.state = .retried := by
  obtain ⟨hmem, hkey⟩ := mem_attemptsOf.1 ha
  have hpos := (mem_numbersTo.1 (hs.number_mem hmem)).1
  obtain ⟨b, hb, hn⟩ := hs.exists_number (Int.le_trans hpos (Int.le_of_lt hlt)) (Int.le_refl _)
  obtain ⟨hb, hkb⟩ := mem_attemptsOf.1 hb
  exact hs.retried a hmem b hb (hkey.trans hkb.symm) (by omega)

theorem number_eq_length {a : Attempt} (ha : a ∈ s.rows) (hfree : s.hasNumber a.key (a.number + 1) = false) :
    a.number = (s.attemptsOf a.key).length := by
  obtain ⟨h₁, h₂⟩ := mem_numbersTo.1 (hs.number_mem ha)
  rcases Int.lt_or_eq_of_le h₂ with hlt | heq
  · exfalso
    obtain ⟨b, hb, hn⟩ := hs.exists_number (k := a.number + 1) (by omega) (Int.add_one_le_of_lt hlt)
    obtain ⟨hb, hk⟩ := mem_attemptsOf.1 hb
    have := List.any_eq_false.1 hfree b hb
    simp [hk, hn] at this
  · exact heq

end Sequenced

/-! ### Adding an attempt -/

private theorem Sequenced.next_number {s : Store} (hs : s.Sequenced) {d : Draft} (hd : s.Admits d) {key : String}
    {number : Int} (hkey : d.key = some key) (hnumber : d.number = some number)
    (hfree : s.hasNumber key number = false) :
    number = ((s.attemptsOf key).length : Int) + 1 ∧ ∀ a ∈ s.attemptsOf key, a.state = .retried := by
  obtain ⟨-, hfirst | ⟨a, ha, hr, hk, hn⟩⟩ := hd
  · -- a payment that has attempts has a first one
    obtain rfl : number = 1 := by simpa [hnumber] using hfirst
    have hnil : s.attemptsOf key = [] := by
      rw [← List.length_eq_zero_iff]
      by_contra hpos
      have hlen : (1 : Int) ≤ (s.attemptsOf key).length := by omega
      obtain ⟨b, hb, hn⟩ := hs.exists_number (Int.le_refl 1) hlen
      obtain ⟨hb, hk⟩ := mem_attemptsOf.1 hb
      have := List.any_eq_false.1 hfree b hb
      simp [hk, hn] at this
    simp [hnil]
  · obtain rfl : key = a.key := by simpa [hkey] using hk
    obtain rfl : number = a.number + 1 := by simpa [hnumber] using hn
    have hlast := hs.number_eq_length ha hfree
    refine ⟨by omega, ?_⟩
    intro b hb
    obtain ⟨hb, hkb⟩ := mem_attemptsOf.1 hb
    have hle := (mem_numbersTo.1 (hs.number_mem hb)).2
    rw [hkb] at hle
    rcases Int.lt_or_eq_of_le hle with hlt | heq
    · exact hs.retried b hb a ha hkb (by omega)
    · rw [hs.eq_of_number hb ha hkb (by omega)]
      exact hr

theorem Sequenced.insert {s s' : Store} (hs : s.Sequenced) {d : Draft} (hd : s.Admits d) {now : DateTime}
    {a : Attempt} (h : s.insert d now = .ok (a, s')) : s'.Sequenced := by
  obtain ⟨hcomplete, hfree, -, hrows⟩ := insert_eq_ok h
  obtain ⟨hkey, -, hnumber, -⟩ := complete?_eq_some hcomplete
  obtain ⟨hnext, hall⟩ := hs.next_number hd hkey hnumber hfree
  have hof : ∀ key, s'.attemptsOf key = s.attemptsOf key ++ if a.key = key then [a.asStored] else [] := by
    intro key
    simp only [attemptsOf, hrows, List.filter_append, List.filter_cons, List.filter_nil, decide_eq_true_eq]
    rfl
  refine ⟨hs.distinct.insert h, ?_, ?_⟩
  · intro key
    rw [hof]
    split
    · rename_i hk
      subst hk
      rw [List.map_append, hs.numbered, List.length_append, List.length_singleton, numbersTo_succ, ← hnext]
      rfl
    · simpa using hs.numbered key
  · intro b hb c hc hk hlt
    rw [hrows, List.mem_append, List.mem_singleton] at hb hc
    rcases hb with hb | rfl <;> rcases hc with hc | rfl
    · exact hs.retried b hb c hc hk hlt
    · exact hall b (mem_attemptsOf.2 ⟨hb, hk⟩)
    · -- no attempt is numbered beyond the new one
      have hle := (mem_numbersTo.1 (hs.number_mem hc)).2
      have hk' : a.key = c.key := hk
      have hlt' : a.number < c.number := hlt
      rw [← hk'] at hle
      omega
    · exact absurd hlt (Int.lt_irrefl _)

/-! ### Completing an attempt -/

private theorem map_number_attemptsOf (rows : List Attempt) (key : String) :
    ((rows.filter (·.key = key)).map (·.number)) =
      (((rows.map fun a => (a.key, a.number)).filter (·.1 = key)).map (·.2)) := by
  induction rows with
  | nil => rfl
  | cons a rows ih =>
    by_cases hk : a.key = key
    · simp [hk, ih]
    · simp [hk, ih]

theorem Sequenced.move {s s' : Store} (hs : s.Sequenced) {id : AttemptId} {target : AttemptState} {change : Change}
    {now : DateTime} (h : s.move? id .pending target change now = some s') : s'.Sequenced := by
  obtain ⟨before, a, after, hrows, -, hp, hrows'⟩ := move?_eq_some hs.distinct h
  generalize hb : change.apply { a with state := target, updated := now } = b at hrows'
  have hkey : b.key = a.key := by rw [← hb]; rfl
  have hnum : b.number = a.number := by rw [← hb]; rfl
  have ha : a ∈ s.rows := by simp [hrows]
  have hpairs : s'.rows.map (fun x => (x.key, x.number)) = s.rows.map fun x => (x.key, x.number) := by
    simp [hrows, hrows', hkey, hnum]
  have hnumbers : ∀ key, (s'.attemptsOf key).map (·.number) = (s.attemptsOf key).map (·.number) := by
    intro key
    unfold attemptsOf
    rw [map_number_attemptsOf, map_number_attemptsOf, hpairs]
  -- a row of the new store is an old one, or the completed one
  have hmem : ∀ x ∈ s'.rows, x ∈ s.rows ∨ x = b := by
    intro x hx
    rw [hrows', List.mem_append, List.mem_cons] at hx
    rw [hrows, List.mem_append, List.mem_cons]
    tauto
  refine ⟨hs.distinct.move h, ?_, ?_⟩
  · intro key
    have hlen := congrArg List.length (hnumbers key)
    simp only [List.length_map] at hlen
    rw [hnumbers, hs.numbered, hlen]
  · intro x hx y hy hk hlt
    obtain ⟨y', hy', hky, hny⟩ : ∃ y' ∈ s.rows, y'.key = y.key ∧ y'.number = y.number := by
      rcases hmem y hy with hy | rfl
      · exact ⟨y, hy, rfl, rfl⟩
      · exact ⟨a, ha, hkey.symm, hnum.symm⟩
    rcases hmem x hx with hx | rfl
    · exact hs.retried x hx y' hy' (hk.trans hky.symm) (by omega)
    · have := hs.retried a ha y' hy' (by rw [← hkey, hk, hky]) (by omega)
      rw [hp] at this
      cases this

theorem sequenced_of_rows_eq_nil {s : Store} (h : s.rows = []) : s.Sequenced := by
  refine ⟨by simp [Distinct, h], ?_, ?_⟩
  · intro key
    simp [attemptsOf, h, numbersTo]
  · simp [h]

end PaymentRetry.Store
