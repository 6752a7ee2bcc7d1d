import PaymentRetry.Proofs.Workers.Precedence

/-!
# What is listed as due

A retry is listed as due for the last attempt of a key, if that is to be retried and its due date has come, unless an
attempt of the same payment has a higher number (`Reachable.listed_once`).  Attempts under one key belong to one
payment, so nothing else of the key is ever listed.  But a payment may have attempts under several keys: then the
longest of them keeps the others from being listed (`lost_retry_of_shared_payment`).  That is the only thing that can:
if no two keys share a payment, every retry that is due is listed.
-/

namespace PaymentRetry

open Simulation

namespace Store

/-- The last attempt of `key` is retried and due at `asOf`. -/
def retryDue (s : Store) (asOf : DateTime) (key : String) : Bool :=
  (s.last? key).any fun a => decide (a.state = .retried) && a.dueAt.any (· ≤ asOf)

/-- An attempt with the payment id of the last attempt of `key` has a higher number. -/
def outnumbered (s : Store) (key : String) : Bool := (s.last? key).any s.hasLater

/-- How often `key` is listed by `dueRetries`. -/
def timesDue (s : Store) (asOf : DateTime) (key : String) : Nat :=
  (s.dueRetries asOf none).countP (·.attempt.key = key)

/-- A listed attempt is the last of its key. -/
theorem Coherent.last?_of_listed {s : Store} (h : s.Coherent) (hs : s.Sequenced) {asOf : DateTime} {d : DueRetry}
    (hd : d ∈ s.dueRetries asOf none) : s.last? d.attempt.key = some d.attempt := by
  obtain ⟨hmem, -, -, -, -, hlater⟩ := mem_dueRetries_iff.1 hd
  obtain ⟨b, hlast, hb, hkey, hle⟩ := hs.exists_last? hmem
  have hge := hasLater_eq_false_iff.1 hlater b hb (h.one_payment b hb d.attempt hmem hkey)
  rw [hlast, hs.eq_of_number hmem hb hkey.symm (by omega)]

theorem Coherent.timesDue_eq {s : Store} (h : s.Coherent) (hs : s.Sequenced) (asOf : DateTime) (key : String) :
    s.timesDue asOf key = if s.retryDue asOf key && !s.outnumbered key then 1 else 0 := by
  split
  · rename_i hdue
    simp only [Bool.and_eq_true, Bool.not_eq_true', retryDue, outnumbered, Option.any_eq_true] at hdue
    obtain ⟨⟨a, hlast, hretried, hdue⟩, hlater⟩ := hdue
    rw [hlast, Option.any_some] at hlater
    simp only [decide_eq_true_eq] at hretried hdue
    obtain ⟨due, hdue, hle⟩ := hdue
    obtain ⟨hmem, hkey⟩ := mem_attemptsOf.1 (hs.last?_eq_some_iff.1 hlast).1
    have hpos : 0 < s.timesDue asOf key :=
      List.countP_pos_iff.2
        ⟨⟨a.payment, due, a⟩, mem_dueRetries_iff.2 ⟨hmem, hretried, hdue, hle, rfl, hlater⟩, by simpa⟩
    have hle : s.timesDue asOf key ≤ ((s.dueRetries asOf none).map (·.attempt.id)).count a.id := by
      rw [List.count, List.countP_map]
      refine List.countP_mono_left fun d hd hkey => ?_
      have hlast' := h.last?_of_listed hs hd
      rw [of_decide_eq_true hkey, hlast, Option.some.injEq] at hlast'
      simp [hlast']
    have hone := List.nodup_iff_count_le_one.1 (nodup_dueRetries hs.distinct asOf) a.id
    omega
  · rename_i hdue
    rw [timesDue, List.countP_eq_zero]
    intro d hd hkey
    obtain ⟨-, hretried, hdueAt, hle, -, hlater⟩ := mem_dueRetries_iff.1 hd
    have hlast := h.last?_of_listed hs hd
    rw [of_decide_eq_true hkey] at hlast
    exact hdue (by simp [retryDue, outnumbered, hlast, hretried, hdueAt, hle, hlater])

end Store

/-- No two keys have attempts with the same payment id. -/
def Store.Apart (s : Store) : Prop := ∀ a ∈ s.rows, ∀ b ∈ s.rows, a.payment = b.payment → a.key = b.key

/-- If each row of `s'` has the key and the payment id of a row of `s`, `Apart` is preserved. -/
theorem Store.Apart.of_origins {s s' : Store} (h : s.Apart)
    (horigins : ∀ r ∈ s'.rows, ∃ a ∈ s.rows, r.payment = a.payment ∧ r.key = a.key) : s'.Apart := by
  intro r hr r' hr' hpayment
  obtain ⟨a, ha, hap, hak⟩ := horigins r hr
  obtain ⟨a', ha', hap', hak'⟩ := horigins r' hr'
  rw [hak, hak']
  exact h a ha a' ha' (hap.symm.trans (hpayment.trans hap'))

/-- If no other key has attempts with its payment id, the last attempt of a key has no later one. -/
theorem Store.Sequenced.hasLater_of_last {s : Store} (hs : s.Sequenced) (hapart : s.Apart) {key : String} {a : Attempt}
    (hlast : s.last? key = some a) : s.hasLater a = false := by
  obtain ⟨hmem, hnumber⟩ := hs.last?_eq_some_iff.1 hlast
  obtain ⟨ha, rfl⟩ := mem_attemptsOf.1 hmem
  refine hasLater_eq_false_iff.2 fun b hb hpayment => ?_
  have hle := (mem_numbersTo.1 (hs.number_mem hb)).2
  rw [hapart b hb a ha hpayment] at hle
  omega

theorem Store.Sequenced.outnumbered_eq_false {s : Store} (hs : s.Sequenced) (hapart : s.Apart) (key : String) :
    s.outnumbered key = false := by
  unfold outnumbered
  cases hlast : s.last? key with
  | none => rfl
  | some a => exact hs.hasLater_of_last hapart hlast

/-- When a retry is listed.  In every run, `key` is listed once if its last attempt is retried, it is due at `asOf`,
and no attempt with the same payment id has a higher number (`outnumbered`); otherwise it is not listed.  If no two
keys share a payment id (`Apart`), no key is outnumbered. -/
theorem Reachable.listed_once {w : World} {σ : System} (hw : w.Unused) (h : Reachable w σ) (asOf : DateTime)
    (key : String) :
    (σ.world.store.timesDue asOf key =
      if σ.world.store.retryDue asOf key && !σ.world.store.outnumbered key then 1 else 0) ∧
    (σ.world.store.Apart → σ.world.store.timesDue asOf key = if σ.world.store.retryDue asOf key then 1 else 0) := by
  have hsequenced := (h.log_sound hw).sequenced
  have htimes := (h.coherent hw).timesDue_eq hsequenced asOf key
  refine ⟨htimes, fun hapart => ?_⟩
  rw [htimes, hsequenced.outnumbered_eq_false hapart, Bool.not_false, Bool.and_true]

namespace Sample

/-- The sample submission under `key`, as a new payment or as that of `payment`. -/
def submissionUnder (key : String) (payment : Option PaymentId) : Submission :=
  { submission with key := some key, payment := payment }

/-- The world after `op` with a gateway that declines every charge. -/
def declined (op : Operation) (w : World) : World :=
  ((scheduler.task op).sequential.run (World.reply fun _ _ => .ok ⟨.businessFailure, none⟩) w).2

/-- The world after `p` has been submitted and retried, and `q` has been submitted. -/
def resubmitted (p q : Submission) : World := declined (.submit q) (declined (.poll none) (declined (.submit p) world))

private theorem declined_reachable {σ : System} (h : Reachable world σ) {k : Nat} (hk : σ.workers k = .idle)
    (op : Operation) :
    ∃ σ', Reachable world σ' ∧ σ'.world = declined op σ.world ∧ ∀ j, j ≠ k → σ'.workers j = σ.workers j := by
  obtain ⟨_, hreached, -⟩ := h.alone (fun _ _ => .ok ⟨.businessFailure, none⟩) hk scheduler op
  exact ⟨_, hreached, rfl, fun j hj => Function.update_of_ne hj _ _⟩

private theorem reachable_resubmitted (p q : Submission) : ∃ σ, Reachable world σ ∧ σ.world = resubmitted p q := by
  obtain ⟨σ₁, h₁, hworld₁, hidle₁⟩ := declined_reachable .refl (k := 0) rfl (.submit p)
  obtain ⟨σ₂, h₂, hworld₂, hidle₂⟩ := declined_reachable h₁ (k := 1) (hidle₁ 1 (by simp)) (.poll none)
  obtain ⟨σ₃, h₃, hworld₃, -⟩ :=
    declined_reachable h₂ (k := 2) ((hidle₂ 2 (by simp)).trans (hidle₁ 2 (by simp))) (.submit q)
  refine ⟨σ₃, h₃, ?_⟩
  rw [hworld₃, hworld₂, hworld₁, resubmitted]

end Sample

/-- One payment has been aborted after its retry, another has been declined: only the second one is listed. -/
theorem listed_once_of_two_keys : ∃ σ, Reachable Sample.world σ ∧ σ.world.store.Apart ∧
    σ.world.store.rows.map (fun a => (a.key, a.number, a.state)) =
      [("first", 1, .retried), ("first", 2, .aborted), ("second", 1, .retried)] ∧
    σ.world.store.timesDue Sample.world.now "first" = 0 ∧ σ.world.store.timesDue Sample.world.now "second" = 1 := by
  obtain ⟨σ, h, hworld⟩ :=
    Sample.reachable_resubmitted (Sample.submissionUnder "first" none) (Sample.submissionUnder "second" none)
  have hapart : σ.world.store.Apart := by
    unfold Store.Apart
    rw [hworld]
    decide +kernel
  refine ⟨σ, h, hapart, by rw [hworld]; decide +kernel, ?_, ?_⟩
  · refine ((h.listed_once ⟨rfl, rfl⟩ _ _).2 hapart).trans (if_neg ?_)
    rw [hworld]
    decide +kernel
  · refine ((h.listed_once ⟨rfl, rfl⟩ _ _).2 hapart).trans (if_pos ?_)
    rw [hworld]
    decide +kernel

/-- A shared payment id hides a due retry: the attempt of the key "second" is due and not listed. -/
theorem lost_retry_of_shared_payment : ∃ σ, Reachable Sample.world σ ∧
    σ.world.store.retryDue Sample.world.now "second" = true ∧ σ.world.store.timesDue Sample.world.now "second" = 0 := by
  obtain ⟨σ, h, hworld⟩ := Sample.reachable_resubmitted (Sample.submissionUnder "first" (some (.named "payment")))
    (Sample.submissionUnder "second" (some (.named "payment")))
  refine ⟨σ, h, ?_⟩
  rw [hworld]
  decide +kernel

end PaymentRetry
