import Mathlib.Data.List.Nodup
import PaymentRetry.Proofs.Store.Coherence

/-!
# Listings with a limit

A listing is in ascending order by two keys; of equal items the earlier one comes first, and only so many are listed as
the limit allows.  `Store.ahead` counts the items that come before one, and an item is listed if and only if the limit
is larger than that (`mem_limited_ordered_iff`).  An item that is left out makes room for the others: what is listed
without some items is in the same order (`ordered_filter`).
-/

namespace PaymentRetry.Store

/-! ### The order of a listing -/

section

variable {α : Type} {first second : α → Int}

/-- Whether `a` comes before `b` by the two keys, or is equal to it in both. -/
def precedes (first second : α → Int) (a b : α) : Bool :=
  first a < first b || (first a = first b && second a ≤ second b)

theorem precedes_trans (a b c : α) (hab : precedes first second a b = true) (hbc : precedes first second b c = true) :
    precedes first second a c = true := by
  simp only [precedes, Bool.or_eq_true, Bool.and_eq_true, decide_eq_true_eq] at *
  omega

theorem precedes_total (a b : α) : (precedes first second a b || precedes first second b a) = true := by
  simp only [precedes, Bool.or_eq_true, Bool.and_eq_true, decide_eq_true_eq]
  omega

theorem ordered_eq (xs : List α) : ordered first second xs = xs.mergeSort (precedes first second) := rfl

theorem ordered_perm (first second : α → Int) (xs : List α) : (ordered first second xs).Perm xs :=
  List.mergeSort_perm xs _

theorem pairwise_ordered (first second : α → Int) (xs : List α) :
    (ordered first second xs).Pairwise fun a b => precedes first second a b = true :=
  List.pairwise_mergeSort precedes_trans precedes_total xs

private theorem mem_right_of_sublist {A B : List α} {x y : α} (hnodup : (A ++ x :: B).Nodup)
    (h : [x, y].Sublist (A ++ x :: B)) : y ∈ B := by
  induction A with
  | nil =>
    rw [List.nil_append, List.nodup_cons] at hnodup
    rcases List.sublist_cons_iff.1 h with h | ⟨r, hr, h⟩
    · exact absurd (h.subset (by simp : x ∈ [x, y])) hnodup.1
    · cases hr
      exact List.singleton_sublist.1 h
  | cons a A ih =>
    rw [List.cons_append, List.nodup_cons] at hnodup
    rcases List.sublist_cons_iff.1 h with h | ⟨r, hr, -⟩
    · exact ih hnodup.2 h
    · cases hr
      exact absurd (by simp) hnodup.1

private theorem mem_left_of_sublist {A B : List α} {x y : α} (hnodup : (A ++ x :: B).Nodup)
    (h : [y, x].Sublist (A ++ x :: B)) : y ∈ A := by
  have hreverse : (A ++ x :: B).reverse = B.reverse ++ x :: A.reverse := by simp
  have hright := List.reverse_sublist.2 h
  rw [hreverse] at hright
  exact List.mem_reverse.1 (mem_right_of_sublist (hreverse ▸ List.nodup_reverse.2 hnodup) hright)

/-- How many of the items `before` and `after` come before `x` by the two keys. -/
def ahead (first second : α → Int) (before : List α) (x : α) (after : List α) : Nat :=
  before.countP (precedes first second · x) + after.countP fun y => !precedes first second x y

/-- Whether `limit` leaves room for an item after `n` others.  A negative limit is none. -/
def hasRoom (limit : Option Int) (n : Nat) : Prop := ∀ k, limit = some k → k < 0 ∨ (n : Int) < k

private theorem stands_before_iff {before after A B : List α} {x : α} (hnodup : (before ++ x :: after).Nodup)
    (hordered : ordered first second (before ++ x :: after) = A ++ x :: B) {y : α} :
    y ∈ A ↔ y ∈ before ∧ precedes first second y x = true ∨ y ∈ after ∧ precedes first second x y = false := by
  have hperm := ordered_perm first second (before ++ x :: after)
  have hsorted := pairwise_ordered first second (before ++ x :: after)
  rw [hordered] at hperm hsorted
  have hnodup' := hperm.nodup_iff.2 hnodup
  -- the sorting is stable
  have hstable : ∀ y z, precedes first second y z = true → [y, z].Sublist (before ++ x :: after) →
      [y, z].Sublist (A ++ x :: B) := by
    intro y z hyz hsublist
    rw [← hordered, ordered_eq]
    exact List.pair_sublist_mergeSort precedes_trans precedes_total hyz hsublist
  obtain ⟨-, hcons, hdisjoint⟩ := List.nodup_append.1 hnodup'
  obtain ⟨-, hbehind, hahead⟩ := List.pairwise_append.1 hsorted
  constructor
  · intro hy
    rcases List.mem_append.1 (hperm.mem_iff.1 (List.mem_append_left _ hy)) with hbefore | hafter
    · exact .inl ⟨hbefore, hahead y hy x (by simp)⟩
    · have hafter := (List.mem_cons.1 hafter).resolve_left (hdisjoint y hy x (by simp))
      refine .inr ⟨hafter, Bool.eq_false_iff.2 fun hxy => ?_⟩
      have hsublist : [x, y].Sublist (before ++ x :: after) :=
        (List.nil_sublist before).append (List.cons_sublist_cons.2 (List.singleton_sublist.2 hafter))
      have hright := mem_right_of_sublist hnodup' (hstable x y hxy hsublist)
      exact hdisjoint y hy y (List.mem_cons_of_mem _ hright) rfl
  · rintro (⟨hy, hyx⟩ | ⟨hy, hxy⟩)
    · refine mem_left_of_sublist hnodup' (hstable y x hyx ?_)
      exact List.Sublist.append (List.singleton_sublist.2 hy) (by simp : [x].Sublist (x :: after))
    · refine (List.mem_append.1 (hperm.mem_iff.2 (by simp [hy]))).resolve_right fun hright => ?_
      have hprecedes : precedes first second x y = true := by
        rcases List.mem_cons.1 hright with rfl | hright
        · simpa using @precedes_total α first second y y
        · exact (List.pairwise_cons.1 hbehind).1 y hright
      rw [hxy] at hprecedes
      cases hprecedes

private theorem length_eq_ahead {before after A B : List α} {x : α} (hnodup : (before ++ x :: after).Nodup)
    (hordered : ordered first second (before ++ x :: after) = A ++ x :: B) :
    A.length = ahead first second before x after := by
  have hnodup' : (A ++ x :: B).Nodup := hordered ▸ (ordered_perm ..).nodup_iff.2 hnodup
  have hnodup_ahead : (before.filter (precedes first second · x) ++
      after.filter fun y => !precedes first second x y).Nodup :=
    hnodup.sublist (List.filter_sublist.append (List.filter_sublist.trans (List.sublist_cons_self x after)))
  have hperm := (List.perm_ext_iff_of_nodup (List.nodup_append.1 hnodup').1 hnodup_ahead).2 fun y => by
    rw [stands_before_iff hnodup hordered, List.mem_append, List.mem_filter, List.mem_filter, Bool.not_eq_true']
  rw [hperm.length_eq, List.length_append, ← List.countP_eq_length_filter, ← List.countP_eq_length_filter, ahead]

private theorem mem_take_iff {A B : List α} {x : α} (hx : x ∉ A) {n : Nat} :
    x ∈ (A ++ x :: B).take n ↔ A.length < n := by
  rw [List.take_append]
  constructor
  · intro h
    by_contra hle
    rw [show n - A.length = 0 by omega, List.take_zero, List.append_nil] at h
    exact hx (List.mem_of_mem_take h)
  · intro hlt
    obtain ⟨k, hk⟩ : ∃ k, n - A.length = k + 1 := ⟨n - A.length - 1, by omega⟩
    rw [hk, List.take_succ_cons]
    simp

/-- `x` is listed if and only if the limit leaves room for it. -/
theorem mem_limited_ordered_iff {limit : Option Int} {before after : List α} {x : α}
    (hnodup : (before ++ x :: after).Nodup) :
    x ∈ limited limit (ordered first second (before ++ x :: after)) ↔
      hasRoom limit (ahead first second before x after) := by
  have hmem : x ∈ ordered first second (before ++ x :: after) := (ordered_perm ..).mem_iff.2 (by simp)
  obtain ⟨A, B, hordered⟩ := List.append_of_mem hmem
  have hlength := length_eq_ahead hnodup hordered
  have hx : x ∉ A := by
    intro hA
    have hnodup' := (ordered_perm first second _).nodup_iff.2 hnodup
    rw [hordered, List.nodup_middle, List.nodup_cons] at hnodup'
    exact hnodup'.1 (List.mem_append_left _ hA)
  rw [← hlength, hordered]
  unfold limited hasRoom
  cases limit with
  | none => simp
  | some k =>
    simp only [Option.some.injEq, forall_eq']
    split
    · rename_i hneg
      simp [hneg]
    · rename_i hneg
      rw [mem_take_iff hx]
      omega

/-- The place of `x` is where the items that it does not precede end. -/
private theorem split_unique {A B A' B' : List α} {x : α} (heq : A ++ B = A' ++ B')
    (hA : ∀ y ∈ A, precedes first second x y = false) (hB : ∀ y ∈ B, precedes first second x y = true)
    (hA' : ∀ y ∈ A', precedes first second x y = false) (hB' : ∀ y ∈ B', precedes first second x y = true) :
    A = A' ∧ B = B' := by
  have hleft : ∀ {C D : List α}, (∀ y ∈ C, precedes first second x y = false) →
      (∀ y ∈ D, precedes first second x y = true) → (C ++ D).filter (fun y => !precedes first second x y) = C := by
    intro C D hC hD
    rw [List.filter_append, List.filter_eq_self.2 (fun y hy => by simp [hC y hy]),
      List.filter_eq_nil_iff.2 (fun y hy => by simp [hD y hy]), List.append_nil]
  obtain rfl : A = A' := by rw [← hleft hA hB, heq, hleft hA' hB']
  exact ⟨rfl, List.append_cancel_left heq⟩

theorem ordered_filter (p : α → Bool) (xs : List α) :
    ordered first second (xs.filter p) = (ordered first second xs).filter p := by
  induction xs with
  | nil => simp [ordered]
  | cons a xs ih =>
    obtain ⟨A, B, hcons, hrest, hA⟩ := List.mergeSort_cons (@precedes_trans α first second)
      precedes_total a xs
    have hsorted := pairwise_ordered first second (a :: xs)
    rw [ordered_eq, hcons, List.pairwise_append, List.pairwise_cons] at hsorted
    rw [ordered_eq (a :: xs), hcons]
    rw [ordered_eq xs, hrest, List.filter_append] at ih
    by_cases hp : p a = true
    · obtain ⟨A', B', hcons', hrest', hA'⟩ := List.mergeSort_cons (@precedes_trans α first second)
        precedes_total a (xs.filter p)
      have hsorted' := pairwise_ordered first second (a :: xs.filter p)
      rw [ordered_eq, hcons', List.pairwise_append, List.pairwise_cons] at hsorted'
      rw [ordered_eq, hrest'] at ih
      obtain ⟨rfl, rfl⟩ := split_unique (x := a) ih (fun y hy => by simpa using hA' y hy)
        (fun y hy => hsorted'.2.1.1 y hy) (fun y hy => by simpa using hA y (List.mem_of_mem_filter hy))
        (fun y hy => hsorted.2.1.1 y (List.mem_of_mem_filter hy))
      rw [List.filter_cons_of_pos hp, ordered_eq, hcons', List.filter_append, List.filter_cons_of_pos hp]
    · rw [List.filter_cons_of_neg hp, ih, List.filter_append, List.filter_cons_of_neg hp]

theorem limited_isPrefix (limit : Option Int) (xs : List α) : limited limit xs <+: xs := by
  unfold limited
  split
  · split
    · exact List.prefix_refl xs
    · exact List.take_prefix ..
  · exact List.prefix_refl xs

end

/-! ### What a poll lists -/

/-- Whether `a` is pending, was last changed by `olderThan`, and is one of the first, as many as `limit` allows, by the
time of the last change, the number and the order of creation. -/
def Overdue (s : Store) (olderThan : DateTime) (limit : Option Int) (a : Attempt) : Prop :=
  a ∈ s.rows ∧ a.state = .pending ∧ a.updated ≤ olderThan ∧ ∀ before after, s.rows = before ++ a :: after →
    hasRoom limit (ahead (·.updated.micros) (·.number)
      (before.filter fun b => b.state = .pending && b.updated ≤ olderThan) a
      (after.filter fun b => b.state = .pending && b.updated ≤ olderThan))

/-- Whether `d` is asked for at `asOf` and is one of the first, as many as `limit` allows, by the due date, the time of
creation of its attempt and the order of creation. -/
def Due (s : Store) (asOf : DateTime) (limit : Option Int) (d : DueRetry) : Prop :=
  d.attempt ∈ s.rows ∧ s.dueRetry? asOf d.attempt = some d ∧ ∀ before after, s.rows = before ++ d.attempt :: after →
    hasRoom limit (ahead (·.due.micros) (·.attempt.created.micros) (before.filterMap (s.dueRetry? asOf)) d
      (after.filterMap (s.dueRetry? asOf)))

variable {s : Store}

theorem Distinct.nodup_rows (hs : s.Distinct) : s.rows.Nodup := List.Nodup.of_map _ hs

theorem mem_stalePending_iff_overdue (hs : s.Distinct) {a : Attempt} {olderThan : DateTime} {limit : Option Int} :
    a ∈ s.stalePending olderThan limit ↔ s.Overdue olderThan limit a := by
  have hlisted : ∀ before after, a.state = .pending ∧ a.updated ≤ olderThan → s.rows = before ++ a :: after →
      (a ∈ s.stalePending olderThan limit ↔ hasRoom limit (ahead (·.updated.micros) (·.number)
        (before.filter fun b => b.state = .pending && b.updated ≤ olderThan) a
        (after.filter fun b => b.state = .pending && b.updated ≤ olderThan))) := by
    intro before after hstale hrows
    have hnodup := hs.nodup_rows.filter fun b => b.state = .pending && b.updated ≤ olderThan
    rw [hrows, List.filter_append, List.filter_cons_of_pos (by simpa using hstale)] at hnodup
    unfold stalePending
    rw [hrows, List.filter_append, List.filter_cons_of_pos (by simpa using hstale), mem_limited_ordered_iff hnodup]
  constructor
  · intro h
    obtain ⟨ha, hstale⟩ := mem_stalePending_iff.1 ((limited_isPrefix ..).subset h)
    exact ⟨ha, hstale.1, hstale.2, fun before after hrows => (hlisted before after hstale hrows).1 h⟩
  · rintro ⟨ha, hpending, hle, hroom⟩
    obtain ⟨before, after, hrows⟩ := List.append_of_mem ha
    exact (hlisted before after ⟨hpending, hle⟩ hrows).2 (hroom before after hrows)

theorem mem_dueRetries_iff_due (hs : s.Distinct) {asOf : DateTime} {limit : Option Int} {d : DueRetry} :
    d ∈ s.dueRetries asOf limit ↔ s.Due asOf limit d := by
  have hlisted : ∀ before after, s.dueRetry? asOf d.attempt = some d → s.rows = before ++ d.attempt :: after →
      (d ∈ s.dueRetries asOf limit ↔ hasRoom limit (ahead (·.due.micros) (·.attempt.created.micros)
        (before.filterMap (s.dueRetry? asOf)) d (after.filterMap (s.dueRetry? asOf)))) := by
    intro before after hd hrows
    have hnodup : (s.rows.filterMap (s.dueRetry? asOf)).Nodup :=
      (s.dueRetries_perm asOf).nodup_iff.1 (List.Nodup.of_map _ (nodup_dueRetries hs asOf))
    have hsplit : s.rows.filterMap (s.dueRetry? asOf) =
        before.filterMap (s.dueRetry? asOf) ++ d :: after.filterMap (s.dueRetry? asOf) := by
      rw [hrows, List.filterMap_append, List.filterMap_cons_some hd]
    rw [hsplit] at hnodup
    unfold dueRetries
    rw [hsplit, mem_limited_ordered_iff hnodup]
  constructor
  · intro h
    obtain ⟨hmem, hd⟩ := mem_dueRetries h
    exact ⟨hmem, hd, fun before after hrows => (hlisted before after hd hrows).1 h⟩
  · rintro ⟨hmem, hd, hroom⟩
    obtain ⟨before, after, hrows⟩ := List.append_of_mem hmem
    exact (hlisted before after hd hrows).2 (hroom before after hrows)

theorem mem_stalePending_of_limit {a : Attempt} {olderThan : DateTime} {limit : Option Int}
    (h : a ∈ s.stalePending olderThan limit) : a ∈ s.rows ∧ a.state = .pending ∧ a.updated ≤ olderThan :=
  mem_stalePending_iff.1 ((limited_isPrefix ..).subset h)

/-- A listing of stale attempts holds at most one attempt of each payment. -/
theorem Sequenced.nodup_stale_keys (hs : s.Sequenced) (olderThan : DateTime) (limit : Option Int) :
    ((s.stalePending olderThan limit).map (·.key)).Nodup := by
  have hnodup : (s.stalePending olderThan none).Nodup :=
    (ordered_perm ..).nodup_iff.2 (hs.distinct.nodup_rows.filter _)
  refine List.Nodup.map_on ?_ (hnodup.sublist (limited_isPrefix ..).sublist)
  intro b hb c hc hkey
  obtain ⟨hb, hbpending, -⟩ := mem_stalePending_of_limit hb
  obtain ⟨hc, hcpending, -⟩ := mem_stalePending_of_limit hc
  exact hs.eq_of_open hb hc hkey (by simp [hbpending]) (by simp [hcpending])

theorem mem_dueRetries_of_limit {asOf : DateTime} {limit : Option Int} {d : DueRetry}
    (h : d ∈ s.dueRetries asOf limit) : d ∈ s.dueRetries asOf none :=
  (limited_isPrefix ..).subset h

end PaymentRetry.Store
