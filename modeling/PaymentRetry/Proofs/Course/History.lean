import Mathlib.Order.Nat
import PaymentRetry.Proofs.Course.Operations
import PaymentRetry.Proofs.Workers.Alone

/-!
# The history of a payment

A payment is submitted, and whenever its latest attempt is to be retried, the clock is moved to the due date or past it
and a poll is made: a `Scheduler.Course`.  What comes of it depends on nothing but the policy and the answers of the
gateway.  The payment ends with the first attempt that goes through or has failed more often than the policy lets
attempts of its kind fail; all attempts before are to be retried, polls before the due date or after the end do nothing
(`Scheduler.history_of_policy`).

What one operation does to the rows is said by `Store.Chronicle.add`, and carried through a course by
`Scheduler.Course.standing`.
-/

namespace PaymentRetry

open Simulation

/-! ### When a payment ends -/

/-- The outcome that is taken down for `o number`. -/
def outcomeOf (o : Nat → Except Failure GatewayResult) (number : Nat) : Outcome :=
  (GatewayResult.ofAnswer (o number)).outcome

theorem Outcome.failureType_eq_none {outcome : Outcome} : outcome.failureType = none ↔ outcome = .success := by
  cases outcome <;> simp [failureType]

namespace RetryPolicy

/-- Whether a payment ends with the attempt `number` after `outcome`: it went through, or it failed and is not to be
retried. -/
def Ends (p : RetryPolicy) (outcome : Outcome) (number : Nat) : Prop :=
  outcome = .success ∨ ∃ type, outcome.failureType = some type ∧ p.maxAttempts type < number

theorem stateAfter_eq_retried_iff {p : RetryPolicy} {outcome : Outcome} {number : Nat} :
    p.stateAfter outcome number = .retried ↔ ¬p.Ends outcome number := by
  unfold stateAfter Ends
  cases htype : outcome.failureType with
  | none => simp [Outcome.failureType_eq_none.1 htype]
  | some type =>
    have hfailed : outcome ≠ .success := fun h => by simp [Outcome.failureType_eq_none.2 h] at htype
    by_cases hle : (number : Int) ≤ p.maxAttempts type
    · simp [hfailed, hle]
    · simp [hfailed, hle, Int.not_le.1 hle]

theorem stateAfter_of_ends {p : RetryPolicy} {outcome : Outcome} {number : Nat} (h : p.Ends outcome number) :
    p.stateAfter outcome number = if outcome = .success then .success else .aborted := by
  rcases h with rfl | ⟨type, htype, hlt⟩
  · rfl
  · have hfailed : outcome ≠ .success := fun h => by simp [Outcome.failureType_eq_none.2 h] at htype
    have hnot : ¬(number : Int) ≤ p.maxAttempts type := by omega
    simp only [stateAfter, htype]
    rw [if_neg hnot, if_neg hfailed]

/-- The first attempt `n` with which the payment ends, and a bound for it. -/
theorem exists_ends (p : RetryPolicy) (o : Nat → Except Failure GatewayResult) :
    ∃ n : Nat, IsLeast {i : Nat | 1 ≤ i ∧ p.Ends (outcomeOf o i) i} n ∧
      (n : Int) ≤ max (p.days.length : Int) p.pluginMaximum + 1 := by
  classical
  -- whatever the answer, no attempt is retried after that many
  obtain ⟨most, hmost⟩ : ∃ most : Nat, (most : Int) = max (p.days.length : Int) p.pluginMaximum :=
    ⟨(max (p.days.length : Int) p.pluginMaximum).toNat, by omega⟩
  have hbound : ∀ type, p.maxAttempts type ≤ most := by
    intro type
    cases type with
    | business => simp only [maxAttempts]; omega
    | plugin => simp only [maxAttempts]; omega
  have hends : 1 ≤ most + 1 ∧ p.Ends (outcomeOf o (most + 1)) (most + 1) := by
    refine ⟨by omega, ?_⟩
    cases htype : (outcomeOf o (most + 1)).failureType with
    | none => exact .inl (Outcome.failureType_eq_none.1 htype)
    | some type =>
      have := hbound type
      exact .inr ⟨type, htype, by omega⟩
  have hleast := Nat.isLeast_find (p := fun i => 1 ≤ i ∧ p.Ends (outcomeOf o i) i) ⟨_, hends⟩
  refine ⟨_, hleast, ?_⟩
  have := hleast.2 hends
  omega

end RetryPolicy

/-! ### What the rows tell -/

/-- Whether the rows of `t` are the first `k` attempts of one payment, each completed as `p` has it for its own answer
`o i`, and all but the last to be retried. -/
structure Store.Chronicle (t : Store) (p : RetryPolicy) (o : Nat → Except Failure GatewayResult) (k : Nat) : Prop where
  distinct : t.Distinct
  minted : t.Minted
  numbered : t.rows.map (·.number) = numbersTo k
  same : ∀ a ∈ t.rows, ∀ b ∈ t.rows, b.payment = a.payment ∧ b.key = a.key
  storable : ∀ a ∈ t.rows, a.Storable
  recorded : ∀ a ∈ t.rows, p.Records (GatewayResult.ofAnswer (o a.number.toNat)) a
  retried : ∀ a ∈ t.rows, a.number < k → a.state = .retried

namespace Store.Chronicle

variable {t : Store} {p : RetryPolicy} {o : Nat → Except Failure GatewayResult} {k : Nat}

theorem number_mem (h : t.Chronicle p o k) {a : Attempt} (ha : a ∈ t.rows) : 1 ≤ a.number ∧ a.number ≤ k := by
  rw [← mem_numbersTo, ← h.numbered]
  exact List.mem_map_of_mem ha

theorem length_eq (h : t.Chronicle p o k) : t.rows.length = k := by
  have := congrArg List.length h.numbered
  simpa [numbersTo] using this

theorem exists_latest (h : t.Chronicle p o k) (hk : 1 ≤ k) : ∃ prior a, t.rows = prior ++ [a] := by
  have hne : t.rows ≠ [] := by
    intro hempty
    have hlen := h.length_eq
    rw [hempty, List.length_nil] at hlen
    omega
  exact ⟨_, _, (List.dropLast_append_getLast hne).symm⟩

theorem state_eq (h : t.Chronicle p o k) {a : Attempt} (ha : a ∈ t.rows) :
    ∃ i : Nat, a.number = i ∧ 1 ≤ i ∧ i ≤ k ∧ a.state = p.stateAfter (outcomeOf o i) i ∧
      a.failureType = (outcomeOf o i).failureType := by
  obtain ⟨h₁, h₂⟩ := h.number_mem ha
  obtain ⟨i, hi⟩ := Int.eq_ofNat_of_zero_le (Int.le_of_lt h₁)
  obtain ⟨hstate, htype, -⟩ := h.recorded a ha
  rw [hi] at hstate htype
  exact ⟨i, hi, by omega, by omega, hstate, htype⟩

theorem not_pending (h : t.Chronicle p o k) {a : Attempt} (ha : a ∈ t.rows) : a.state ≠ .pending := by
  rw [(h.recorded a ha).state]
  exact p.stateAfter_ne_pending _ _

theorem latest (h : t.Chronicle p o k) {prior : List Attempt} {a : Attempt} (hrows : t.rows = prior ++ [a]) :
    a.number = k ∧ ∀ b ∈ prior, b.payment = a.payment ∧ b.number < a.number := by
  have hlen := h.length_eq
  have hnumbered := h.numbered
  rw [hrows, List.length_append, List.length_singleton] at hlen
  rw [hrows, ← hlen, List.map_append, numbersTo_succ] at hnumbered
  obtain ⟨hprior, hlast⟩ := List.append_inj' hnumbered rfl
  have hlast' : a.number = (prior.length : Int) + 1 := by simpa using hlast
  refine ⟨by omega, fun b hb => ⟨(h.same a (by simp [hrows]) b (by simp [hrows, hb])).1, ?_⟩⟩
  have hmem : b.number ∈ numbersTo prior.length := by
    rw [← hprior]
    exact List.mem_map_of_mem hb
  have := (mem_numbersTo.1 hmem).2
  omega

theorem all_retried (h : t.Chronicle p o k) {prior : List Attempt} {a : Attempt} (hrows : t.rows = prior ++ [a])
    (ha : a.state = .retried) : ∀ b ∈ t.rows, b.state = .retried := by
  obtain ⟨hlatest, hprior⟩ := h.latest hrows
  intro b hb
  have hb' := hb
  rw [hrows, List.mem_append, List.mem_singleton] at hb'
  rcases hb' with hb' | rfl
  · have hlt := (hprior b hb').2
    exact h.retried b hb (by omega)
  · exact ha

theorem exists_insert_next (h : t.Chronicle p o k) {prior : List Attempt} {a : Attempt} (hrows : t.rows = prior ++ [a])
    (hfits : fits (k + 1 : Nat) = true) (now : DateTime) : ∃ b t', t.insert a.next now = .ok (b, t') := by
  obtain ⟨hlatest, -⟩ := h.latest hrows
  have hfree : t.hasNumber a.key (a.number + 1) = false := by
    refine List.any_eq_false.2 fun b hb => ?_
    have := (h.number_mem hb).2
    simp
    omega
  rw [Int.natCast_succ, ← hlatest] at hfits
  exact Store.exists_insert_next (h.storable a (by simp [hrows])) h.minted hfits hfree now

/-- An attempt that is added and completed extends the chronicle, if all earlier ones are to be retried. -/
theorem add (h : t.Chronicle p o k) (hretried : ∀ a ∈ t.rows, a.state = .retried) {d : Draft} {now : DateTime}
    {a b : Attempt} {t' : Store} (hinsert : t.insert d now = .ok (a, t')) (hd : d.id = none)
    (hnumber : a.number = k + 1)
    (hsame : ∀ x ∈ t.rows, x.payment = a.payment ∧ x.key = a.key) (hcompleted : a.asStored.CompletedAs b)
    (hrecords : p.Records (GatewayResult.ofAnswer (o (k + 1))) b) :
    Store.Chronicle { t' with rows := t.rows ++ [b] } p o (k + 1) := by
  obtain ⟨hstorable, hid, hminted, -⟩ := insert_unnamed hinsert hd
  have hrows := (insert_eq_ok hinsert).2.2.2
  have hbid : b.id = a.id := by rw [hcompleted.rest]; rfl
  have hbnumber : b.number = k + 1 := by rw [hcompleted.rest, ← hnumber]; rfl
  have hbsame : b.payment = a.payment ∧ b.key = a.key := by
    rw [hcompleted.rest]
    exact ⟨rfl, rfl⟩
  have hbstorable : b.Storable := by
    obtain ⟨htexts, hcurrency, hamount⟩ := hstorable.asStored
    rw [hcompleted.rest]
    exact ⟨htexts, hcurrency, hamount⟩
  have hmem : ∀ {x}, x ∈ t.rows ++ [b] → x ∈ t.rows ∨ x = b := by simp
  refine ⟨?_, ?_, ?_, ?_, ?_, ?_, ?_⟩
  · have hdistinct := h.distinct.insert hinsert
    unfold Distinct at hdistinct ⊢
    simpa [hrows, hbid, Attempt.asStored] using hdistinct
  · intro x hx
    rcases hmem hx with hx | rfl
    · obtain ⟨i, hi, hxid⟩ := h.minted x hx
      exact ⟨i, by show i ≤ t'.attemptsMinted; omega, hxid⟩
    · exact ⟨t.attemptsMinted + 1, by show _ ≤ t'.attemptsMinted; omega, hbid.trans hid⟩
  · show (t.rows ++ [b]).map (·.number) = numbersTo (k + 1)
    rw [List.map_append, h.numbered, numbersTo_succ, List.map_singleton, hbnumber]
  · intro x hx y hy
    have hall : ∀ {z}, z ∈ t.rows ++ [b] → z.payment = a.payment ∧ z.key = a.key := by
      intro z hz
      rcases hmem hz with hz | rfl
      · exact hsame z hz
      · exact hbsame
    exact ⟨(hall hy).1.trans (hall hx).1.symm, (hall hy).2.trans (hall hx).2.symm⟩
  · intro x hx
    rcases hmem hx with hx | rfl
    · exact h.storable x hx
    · exact hbstorable
  · intro x hx
    rcases hmem hx with hx | rfl
    · exact h.recorded x hx
    · rw [hbnumber]
      exact hrecords
  · intro x hx hlt
    rcases hmem hx with hx | rfl
    · exact hretried x hx
    · omega

end Store.Chronicle

/-! ### Courses -/

/-- Whether `s` calls the gateway itself, and its polls take up at least one attempt. -/
structure Scheduler.Direct (s : Scheduler) : Prop where
  unguarded : s.guarded = false
  batch : s.batch ≠ some 0
  limit : Store.limitFits s.batch = true

/-- Whether `w` is still, nothing has been stored in it, and the gateway has not been called. -/
structure Simulation.World.Untouched (w : World) : Prop where
  still : w.Still
  empty : w.store.rows = []
  uncalled : w.charges = []

/-- The courses of the payment `p` from `w₀`, by the number of operations.  It is submitted, and while its latest
attempt is to be retried, the clock is moved to the due date or past it and a poll is made.  All dates lie within the
calendar, and the store takes the numbers. -/
inductive Scheduler.Course (s : Scheduler) (o : Nat → Except Failure GatewayResult) (p : Submission) (w₀ : World) :
    Nat → World → Prop
  | submitted :
      s.policy.DateFits (outcomeOf o 1) 1 w₀.now →
      Course s o p w₀ 1 ((s.submit p).run (World.stream o) w₀).2
  | polled {k : Nat} {w : World} {a : Attempt} {due t horizon : DateTime} :
      Course s o p w₀ k w → w.store.rows.getLast? = some a → a.state = .retried → a.dueAt = some due → due ≤ t →
      t.sub s.lease = .ok horizon → s.policy.DateFits (outcomeOf o (k + 1)) (k + 1 : Nat) t →
      Store.fits (k + 1 : Nat) = true →
      Course s o p w₀ (k + 1) ((s.poll none).run (World.stream o) { w with now := t }).2

/-- How the payment `p` stands in `w` after `k` operations. -/
structure Scheduler.Standing (s : Scheduler) (o : Nat → Except Failure GatewayResult) (p : Submission) (k : Nat)
    (w : World) : Prop where
  still : w.Still
  chronicle : w.store.Chronicle s.policy o k
  called : w.charges.length = k
  key : ∀ a ∈ w.store.rows, p.key = some a.key
  begun : 1 ≤ k

namespace Scheduler

/-- Whether a poll at `t` answers that nothing was due, and changes nothing but the count of polls. -/
def Idle (s : Scheduler) (o : Nat → Except Failure GatewayResult) (w : World) (asOf : Option DateTime) (t : DateTime) :
    Prop :=
  (s.poll asOf).run (World.stream o) { w with now := t } =
    (.ok 0, { w with now := t, counts := w.counts.increment .poll })

/-- What is known in `w`, after `k` operations, of the payment `p`, which ends with attempt `n`. -/
structure History (s : Scheduler) (o : Nat → Except Failure GatewayResult) (p : Submission) (n k : Nat) (w : World) :
    Prop where
  within : k ≤ n
  called : w.charges.length = k
  numbered : w.store.rows.map (·.number) = Store.numbersTo k
  key : ∀ a ∈ w.store.rows, p.key = some a.key
  failureType : ∀ a ∈ w.store.rows, a.failureType = (outcomeOf o a.number.toNat).failureType
  earlier : ∀ a ∈ w.store.rows, a.number < n → a.state = .retried
  last : ∀ a ∈ w.store.rows, a.number = n → a.state = if outcomeOf o n = .success then .success else .aborted
  due : k < n → ∃ a due, w.store.rows.getLast? = some a ∧ a.state = .retried ∧ a.dueAt = some due ∧
    (∀ asOf t horizon, asOf.getD t < due → (asOf.getD t).sub s.lease = .ok horizon → s.Idle o w asOf t) ∧
    ∀ t horizon, due ≤ t → t.sub s.lease = .ok horizon →
      s.policy.DateFits (outcomeOf o (k + 1)) (k + 1 : Nat) t → Store.fits (k + 1 : Nat) = true →
      ((s.poll none).run (World.stream o) { w with now := t }).1 = .ok 1
  ended : k = n → ∀ asOf t horizon, (asOf.getD t).sub s.lease = .ok horizon → s.Idle o w asOf t

variable {s : Scheduler} {o : Nat → Except Failure GatewayResult} {p : Submission} {w₀ : World}

private theorem Standing.of_bare {k : Nat} {w w' : World} (hw : w.Still) {t : Store} {called : List Charge}
    {now : DateTime} (hbare : w'.bare = ({ w with store := t, charges := called, now := now } : World).bare)
    (hchronicle : t.Chronicle s.policy o k) (hcalled : called.length = k) (hkey : ∀ a ∈ t.rows, p.key = some a.key)
    (hbegun : 1 ≤ k) : s.Standing o p k w' := by
  have hstore := World.store_eq_of_bare (w := { w with store := t, charges := called, now := now }) hbare
  have hcharges := World.charges_eq_of_bare (w := { w with store := t, charges := called, now := now }) hbare
  refine ⟨World.Still.of_bare (w := { w with store := t, charges := called, now := now })
    ⟨hw.undisturbed, hw.still⟩ hbare, ?_, ?_, ?_, hbegun⟩
  · rw [hstore]
    exact hchronicle
  · rw [hcharges]
    exact hcalled
  · rw [hstore]
    exact hkey

variable (hs : s.Direct)

include hs

/-- A poll is idle unless the latest attempt is due. -/
theorem Standing.idle {k : Nat} {w : World} (h : s.Standing o p k w) {asOf : Option DateTime} {t horizon : DateTime}
    (hlease : (asOf.getD t).sub s.lease = .ok horizon)
    (hdue : ∀ a, w.store.rows.getLast? = some a → a.state = .retried → ∀ due, a.dueAt = some due →
      ¬due ≤ asOf.getD t) : s.Idle o w asOf t := by
  obtain ⟨hstill, hchronicle, -, -, hbegun⟩ := h
  obtain ⟨prior, a, hrows⟩ := hchronicle.exists_latest hbegun
  have hlast : w.store.rows.getLast? = some a := by simp [hrows]
  have hnone : w.store.dueRetries (asOf.getD t) s.batch = [] :=
    Store.dueRetries_eq_nil hrows (hchronicle.latest hrows).2 (hdue a hlast)
  exact s.poll_run_of_nothing o (w := { w with now := t }) ⟨hstill.undisturbed, hstill.still⟩ hs.limit
    (fun c hc => hchronicle.not_pending hc) hlease hnone

variable (ho : ∀ i, GatewayResult.Regular (o i))

include ho

private theorem Standing.submitted (hw₀ : w₀.Untouched) {a : Attempt} {t : Store}
    (hinsert : w₀.store.insert p.draft w₀.now = .ok (a, t)) (hfits : s.policy.DateFits (outcomeOf o 1) 1 w₀.now) :
    s.Standing o p 1 ((s.submit p).run (World.stream o) w₀).2 := by
  obtain ⟨hstill, hempty, huncalled⟩ := hw₀
  have hchronicle : w₀.store.Chronicle s.policy o 0 := by
    refine ⟨by simp [Store.Distinct, hempty], by simp [Store.Minted, hempty], by simp [hempty, Store.numbersTo], ?_, ?_,
      ?_, ?_⟩ <;> simp [hempty]
  have hcalls : o (w₀.charges.length + 1) = o 1 := by rw [huncalled]; rfl
  obtain ⟨x, b, w', hrun, hcompleted, hrecords, hbare⟩ :=
    s.submit_run o hs.unguarded hstill hchronicle.distinct hinsert hcalls (ho 1) hfits
  have hcreated := Store.complete?_eq_some (Store.insert_eq_ok hinsert).1
  have hnumber : a.number = 1 := (Option.some.inj hcreated.2.2.1).symm
  rw [hrun]
  refine Standing.of_bare hstill hbare ?_ ?_ ?_ (Nat.le_refl 1)
  · exact hchronicle.add (by simp [hempty]) hinsert rfl (by simpa using hnumber) (by simp [hempty]) hcompleted hrecords
  · simp [huncalled]
  · intro c hc
    have hb : c = b := by simpa [hempty] using hc
    rw [hb, hcompleted.rest]
    exact hcreated.1

private theorem Standing.polled {k : Nat} {w : World} (h : s.Standing o p k w) {a : Attempt} {due t horizon : DateTime}
    (hlast : w.store.rows.getLast? = some a) (hretried : a.state = .retried) (hdue : a.dueAt = some due)
    (hle : due ≤ t) (hlease : t.sub s.lease = .ok horizon)
    (hfits : s.policy.DateFits (outcomeOf o (k + 1)) (k + 1 : Nat) t) (hnumber : Store.fits (k + 1 : Nat) = true) :
    ∃ w', (s.poll none).run (World.stream o) { w with now := t } = (.ok 1, w') ∧ s.Standing o p (k + 1) w' := by
  obtain ⟨hstill, hchronicle, hcalled, hkey, hbegun⟩ := h
  obtain ⟨prior, hrows⟩ := List.getLast?_eq_some_iff.1 hlast
  obtain ⟨hlatest, hprior⟩ := hchronicle.latest hrows
  have ha : a ∈ w.store.rows := by simp [hrows]
  have hall := hchronicle.all_retried hrows hretried
  obtain ⟨c, t', hinsert⟩ := hchronicle.exists_insert_next hrows hnumber t
  have hcalls : o (w.charges.length + 1) = o (k + 1) := by rw [hcalled]
  have hdues := Store.dueRetries_latest hrows hprior hs.batch hretried hdue hle
  obtain ⟨b, w', hrun, hcompleted, hrecords, hbare⟩ := s.poll_run_of_due o (w := { w with now := t })
    ⟨hstill.undisturbed, hstill.still⟩ hs.limit (fun c hc => hchronicle.not_pending hc) hs.unguarded
    hchronicle.distinct hlease hdues hinsert (by show 0 ≤ a.number; omega) hcalls (ho (k + 1))
      (by rw [hlatest]; exact hfits)
  have hcreated := Store.complete?_eq_some (Store.insert_eq_ok hinsert).1
  have hckey : c.key = a.key := (Option.some.inj hcreated.1).symm
  have hcnumber : c.number = k + 1 := by
    rw [← hlatest]
    exact (Option.some.inj hcreated.2.2.1).symm
  have hcpayment : c.payment = a.payment := (Store.insert_unnamed hinsert rfl).2.2.2 _ rfl
  have hsame : ∀ x ∈ w.store.rows, x.payment = c.payment ∧ x.key = c.key := by
    intro x hx
    obtain ⟨hpayment, hkeys⟩ := hchronicle.same a ha x hx
    exact ⟨hpayment.trans hcpayment.symm, hkeys.trans hckey.symm⟩
  refine ⟨w', hrun, Standing.of_bare hstill hbare ?_ ?_ ?_ (by omega)⟩
  · exact hchronicle.add hall hinsert rfl hcnumber hsame hcompleted hrecords
  · simp [hcalled]
  · intro x hx
    rw [List.mem_append, List.mem_singleton] at hx
    rcases hx with hx | rfl
    · exact hkey x hx
    · rw [hcompleted.rest]
      show p.key = some c.key
      rw [hckey]
      exact hkey a ha

theorem Course.standing (hw₀ : w₀.Untouched) {a : Attempt} {t : Store}
    (hinsert : w₀.store.insert p.draft w₀.now = .ok (a, t)) {k : Nat} {w : World} (h : s.Course o p w₀ k w) :
    s.Standing o p k w := by
  induction h with
  | submitted hfits => exact Standing.submitted hs ho hw₀ hinsert hfits
  | polled _ hlast hretried hdue hle hlease hfits hnumber ih =>
    obtain ⟨w', hrun, hstanding⟩ := ih.polled hs ho hlast hretried hdue hle hlease hfits hnumber
    rw [hrun]
    exact hstanding

private theorem Standing.history {n k : Nat} {w : World} (h : s.Standing o p k w)
    (hleast : IsLeast {i : Nat | 1 ≤ i ∧ s.policy.Ends (outcomeOf o i) i} n) : s.History o p n k w := by
  have hchronicle := h.chronicle
  obtain ⟨⟨hfirst, hends⟩, hbefore⟩ := hleast
  -- an attempt is to be retried exactly if the payment does not end with it
  have hstate : ∀ a ∈ w.store.rows, (a.number < n → a.state = .retried) ∧
      (a.number = n → a.state = if outcomeOf o n = .success then .success else .aborted) := by
    intro a ha
    obtain ⟨i, hi, hone, -, hstate, -⟩ := hchronicle.state_eq ha
    constructor
    · intro hlt
      rw [hstate, RetryPolicy.stateAfter_eq_retried_iff]
      intro hi'
      have := hbefore ⟨hone, hi'⟩
      omega
    · intro heq
      have hin : i = n := by omega
      rw [hstate, hin]
      exact RetryPolicy.stateAfter_of_ends hends
  have hwithin : k ≤ n := by
    by_contra hlt
    have hmem : (n : Int) ∈ w.store.rows.map (·.number) := by
      rw [hchronicle.numbered, Store.mem_numbersTo]
      omega
    obtain ⟨a, ha, hnumber⟩ := List.mem_map.1 hmem
    have hretried := hchronicle.retried a ha (by omega)
    rw [(hstate a ha).2 hnumber] at hretried
    split at hretried <;> cases hretried
  obtain ⟨prior, a, hrows⟩ := hchronicle.exists_latest h.begun
  have hnumber := (hchronicle.latest hrows).1
  have ha : a ∈ w.store.rows := by simp [hrows]
  have hlast : w.store.rows.getLast? = some a := by simp [hrows]
  refine ⟨hwithin, h.called, hchronicle.numbered, h.key, ?_, fun c hc => (hstate c hc).1, fun c hc => (hstate c hc).2,
    ?_, ?_⟩
  · intro c hc
    exact (hchronicle.recorded c hc).failureType
  · intro hlt
    have hretried : a.state = .retried := (hstate a ha).1 (by omega)
    obtain ⟨due, hdue⟩ := (hchronicle.recorded a ha).due hretried
    refine ⟨a, due, hlast, hretried, hdue, ?_, ?_⟩
    · intro asOf t horizon hearly hlease
      refine h.idle hs hlease fun b hb _ due' hdue' => ?_
      obtain rfl : a = b := Option.some.inj (hlast.symm.trans hb)
      obtain rfl : due = due' := Option.some.inj (hdue.symm.trans hdue')
      exact Nat.not_le.2 hearly
    · intro t horizon hle hlease hfits hnumbers
      obtain ⟨w', hrun, -⟩ := h.polled hs ho hlast hretried hdue hle hlease hfits hnumbers
      rw [hrun]
  · intro heq asOf t horizon hlease
    refine h.idle hs hlease fun b hb hretried _ _ => ?_
    obtain rfl : a = b := Option.some.inj (hlast.symm.trans hb)
    rw [(hstate a ha).2 (by omega)] at hretried
    split at hretried <;> cases hretried

/-- The payment `p` ends with the first attempt that goes through or has failed more often than the policy lets
attempts of its kind fail.  All attempts before it are to be retried.  The store takes the text of every failure
(`ho`); without that, see `pending_of_unwritable_reason`. -/
theorem history_of_policy (hw₀ : w₀.Untouched) {a : Attempt} {t : Store}
    (hinsert : w₀.store.insert p.draft w₀.now = .ok (a, t)) :
    ∃ n : Nat, IsLeast {i : Nat | 1 ≤ i ∧ s.policy.Ends (outcomeOf o i) i} n ∧
      (n : Int) ≤ max (s.policy.days.length : Int) s.policy.pluginMaximum + 1 ∧
      ∀ k w, s.Course o p w₀ k w → s.History o p n k w := by
  obtain ⟨n, hleast, hmost⟩ := s.policy.exists_ends o
  refine ⟨n, hleast, hmost, fun k w hcourse => ?_⟩
  have hstanding := hcourse.standing hs ho hw₀ hinsert
  exact hstanding.history hs ho hleast

end Scheduler

/-! ### A declined payment that is retried once -/

namespace Sample

def answers : Nat → Except Failure GatewayResult
  | 1 => .ok ⟨.businessFailure, none⟩
  | _ => .error (.raised "OSError" [])

theorem regular_answers (i : Nat) : GatewayResult.Regular (answers i) := by
  unfold answers
  split
  · exact ⟨by rintro e ⟨⟩, fun _ _ => rfl⟩
  · refine ⟨?_, fun _ _ => by decide +kernel⟩
    rintro e ⟨⟩
    rfl

/-- The payment is submitted, and retried at once. -/
theorem exists_course : ∃ w, scheduler.Course answers submission world 2 w := by
  have hsum : world.now.add ⟨0⟩ = .ok world.now := by decide +kernel
  have hsubmitted : scheduler.Course answers submission world 1
      ((scheduler.submit submission).run (World.stream answers) world).2 := by
    refine .submitted fun type htype => ?_
    obtain rfl : .business = type := Option.some.inj htype
    refine ⟨some ⟨0⟩, by decide +kernel, fun d hd => ?_⟩
    obtain rfl := Option.some.inj hd
    exact ⟨world.now, hsum⟩
  generalize hw : ((scheduler.submit submission).run (World.stream answers) world).2 = w at hsubmitted
  have hrow : w.store.rows.getLast?.map (fun a => (a.state, a.dueAt)) = some (.retried, some world.now) := by
    rw [← hw]
    decide +kernel
  obtain ⟨a, hlast, hvalues⟩ := Option.map_eq_some_iff.1 hrow
  obtain ⟨hretried, hdue⟩ := Prod.mk.inj hvalues
  have hlease : world.now.sub scheduler.lease = .ok ⟨0, by decide⟩ := by decide +kernel
  refine ⟨_, .polled hsubmitted hlast hretried hdue (Nat.le_refl _) hlease ?_ (by decide)⟩
  intro type htype
  obtain rfl : .plugin = type := Option.some.inj htype
  exact ⟨none, by decide, by simp⟩

end Sample

theorem history_of_sample : ∃ w, Sample.scheduler.Course Sample.answers Sample.submission Sample.world 2 w ∧
    Sample.scheduler.History Sample.answers Sample.submission 2 2 w := by
  obtain ⟨w, hcourse⟩ := Sample.exists_course
  have hinserted : (Sample.world.store.insert Sample.submission.draft Sample.world.now).toOption.isSome = true := by
    decide +kernel
  obtain ⟨⟨a, t⟩, hinsert⟩ : ∃ x, Sample.world.store.insert Sample.submission.draft Sample.world.now = .ok x := by
    cases h : Sample.world.store.insert Sample.submission.draft Sample.world.now with
    | error e => simp [h, Except.toOption] at hinserted
    | ok x => exact ⟨x, rfl⟩
  obtain ⟨n, hleast, -, hhistory⟩ := Scheduler.history_of_policy (s := Sample.scheduler) (o := Sample.answers)
    (p := Sample.submission) ⟨rfl, by simp [Sample.scheduler], rfl⟩ Sample.regular_answers ⟨⟨rfl, rfl⟩, rfl, rfl⟩
    hinsert
  have hend : n ≤ 2 := hleast.2 ⟨by omega, .inr ⟨.plugin, rfl, by decide⟩⟩
  have hwithin := (hhistory 2 w hcourse).within
  obtain rfl : n = 2 := by omega
  exact ⟨w, hcourse, hhistory 2 w hcourse⟩

/-- The gateway raises an exception whose text the store does not take.  The first attempt is left pending, so the
payment has no `Scheduler.History`. -/
theorem pending_of_unwritable_reason : ∃ w,
    Sample.scheduler.Course (fun _ => .error Sample.unwritable) Sample.submission Sample.world 1 w ∧
      w.store.rows.map (·.state) = [.pending] ∧
      ∀ n, ¬Sample.scheduler.History (fun _ => .error Sample.unwritable) Sample.submission n 1 w := by
  have hstates : ((Sample.scheduler.submit Sample.submission).run
      (World.stream fun _ => .error Sample.unwritable) Sample.world).2.store.rows.map (fun a => (a.number, a.state)) =
      [(1, .pending)] := by decide +kernel
  refine ⟨_, .submitted fun type htype => ?_, ?_, fun n h => ?_⟩
  · obtain rfl : .plugin = type := Option.some.inj htype
    exact ⟨none, by decide, by simp⟩
  · simpa using congrArg (List.map Prod.snd) hstates
  · -- an attempt that is pending is neither to be retried nor the last
    obtain ⟨a, ha, hvalues⟩ := List.mem_map.1 (hstates.symm ▸ List.mem_singleton_self (1, AttemptState.pending))
    obtain ⟨hnumber, hpending⟩ := Prod.mk.inj hvalues
    have hwithin := h.within
    rcases Nat.lt_or_eq_of_le hwithin with hlt | rfl
    · cases (h.earlier a ha (by omega)).symm.trans hpending
    · have hlast := h.last a ha hnumber
      rw [hpending] at hlast
      split at hlast <;> cases hlast

end PaymentRetry
