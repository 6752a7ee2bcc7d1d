import PaymentRetry.Proofs.Turns.Isolation

/-!
# Payments that keep others waiting

A poll takes up the retries that are longest due, as many as its batch allows.  A retry that cannot be made keeps its
place, so payments for which no attempt can be stored may fill the batch of every poll.  What is due after a poll is
what was due before it, without the retries that were made (`Scheduler.Polled.dueRetries_after`).  So a retry is made
after some polls if and only if fewer payments that fail are ahead of it than a batch holds (`Reachable.unblocked`): a
single one keeps all that are due later waiting forever, if the batch is one (`blocked_of_batch_of_one`).
-/

namespace PaymentRetry

open Simulation

/-! ### What remains of a list -/

namespace Store

section

variable {α : Type} {blocked : α → Bool} {limit : Option Int} {ahead behind xs : List α} {x : α}

/-- What remains of `xs` if the items that are listed under `limit` are taken away, but for the blocked ones. -/
def remaining (blocked : α → Bool) (limit : Option Int) (xs : List α) : List α :=
  (limited limit xs).filter blocked ++ xs.drop (limited limit xs).length

theorem limited_append_drop (limit : Option Int) (xs : List α) :
    limited limit xs ++ xs.drop (limited limit xs).length = xs :=
  List.prefix_iff_eq_append.1 (limited_isPrefix limit xs)

theorem remaining_sublist : (remaining blocked limit xs).Sublist xs := by
  conv_rhs => rw [← limited_append_drop limit xs]
  exact List.Sublist.append List.filter_sublist (List.Sublist.refl _)

theorem iterate_remaining_sublist (n : Nat) : ((remaining blocked limit)^[n] xs).Sublist xs := by
  induction n with
  | zero => exact .refl xs
  | succ n ih =>
    rw [Function.iterate_succ_apply']
    exact remaining_sublist.trans ih

theorem mem_remaining_of_blocked (hx : blocked x = true) (h : x ∈ xs) : x ∈ remaining blocked limit xs := by
  rw [← limited_append_drop limit xs, List.mem_append] at h
  rw [remaining, List.mem_append, List.mem_filter]
  exact h.imp_left fun h => ⟨h, hx⟩

theorem hasRoom_mono {m n : Nat} (h : hasRoom limit n) (hmn : m ≤ n) : hasRoom limit m := fun k hk => by
  have := h k hk
  omega

theorem not_mem_remaining (hnodup : (ahead ++ x :: behind).Nodup) (hroom : hasRoom limit ahead.length)
    (hx : blocked x = false) : x ∉ remaining blocked limit (ahead ++ x :: behind) := by
  have hlong : ahead.length < (limited limit (ahead ++ x :: behind)).length := by
    unfold limited
    split
    · rename_i k
      have := hroom k rfl
      split
      · simp
      · rw [List.length_take, List.length_append, List.length_cons]
        omega
    · simp
  obtain ⟨m, hm⟩ := Nat.exists_eq_add_of_lt hlong
  rw [Nat.add_assoc] at hm
  rw [remaining, hm, List.drop_length_add_append, List.drop_succ_cons, List.mem_append, List.mem_filter, not_or]
  refine ⟨fun h => ?_, fun h => ?_⟩
  · rw [hx] at h
    cases h.2
  · rw [List.nodup_middle, List.nodup_cons] at hnodup
    exact hnodup.1 (List.mem_append_right _ (List.mem_of_mem_drop h))

/-- An item for which there is no room stays, and so do the blocked ones ahead of it. -/
theorem exists_remaining (blocked : α → Bool) (x : α) (behind : List α) (hroom : ¬hasRoom limit ahead.length) :
    ∃ ahead', remaining blocked limit (ahead ++ x :: behind) = ahead' ++ x :: behind ∧
      ahead'.countP blocked = ahead.countP blocked ∧
      (hasRoom limit (ahead.countP blocked) → ahead'.length < ahead.length) := by
  unfold hasRoom at hroom
  simp only [not_forall, not_or, not_lt] at hroom
  obtain ⟨k, rfl, hk, hle⟩ := hroom
  have hlimited : limited (some k) (ahead ++ x :: behind) = ahead.take k.toNat := by
    unfold limited
    simp only [if_neg (not_lt.2 hk)]
    rw [List.take_append_of_le_length (by omega)]
  have hlength : (ahead.take k.toNat).length = k.toNat := by
    rw [List.length_take]
    omega
  refine ⟨(ahead.take k.toNat).filter blocked ++ ahead.drop k.toNat, ?_, ?_, fun hcount => ?_⟩
  · rw [remaining, hlimited, hlength, List.drop_append_of_le_length (by omega), List.append_assoc]
  · conv_rhs => rw [← List.take_append_drop k.toNat ahead]
    rw [List.countP_append, List.countP_append, List.countP_filter]
    simp only [Bool.and_self]
  · have hfewer : ((ahead.take k.toNat).filter blocked).length ≤ ahead.countP blocked := by
      rw [← List.countP_eq_length_filter]
      exact (List.take_sublist _ _).countP_le
    have := hcount k rfl
    rw [List.length_append, List.length_drop]
    omega

private theorem exists_iterate_remaining (x : α) (behind : List α) (hroom : ¬hasRoom limit (ahead.countP blocked))
    (n : Nat) :
    ∃ ahead', (remaining blocked limit)^[n] (ahead ++ x :: behind) = ahead' ++ x :: behind ∧
      ahead'.countP blocked = ahead.countP blocked := by
  induction n with
  | zero => exact ⟨ahead, rfl, rfl⟩
  | succ n ih =>
    obtain ⟨ahead', hsplit, hcount⟩ := ih
    rw [Function.iterate_succ_apply', hsplit]
    have hfull : ¬hasRoom limit ahead'.length := fun h =>
      hroom (hasRoom_mono h (hcount ▸ List.countP_le_length))
    obtain ⟨ahead'', hsplit', hcount', -⟩ := exists_remaining blocked x behind hfull
    exact ⟨ahead'', hsplit', hcount'.trans hcount⟩

private theorem not_mem_iterate_remaining (hnodup : (ahead ++ x :: behind).Nodup) (hx : blocked x = false)
    (hroom : hasRoom limit (ahead.countP blocked)) {n : Nat} (hn : ahead.length < n) :
    x ∉ (remaining blocked limit)^[n] (ahead ++ x :: behind) := by
  induction n generalizing ahead with
  | zero => omega
  | succ n ih =>
    rw [Function.iterate_succ_apply]
    by_cases hfull : hasRoom limit ahead.length
    · exact fun h => not_mem_remaining hnodup hfull hx ((iterate_remaining_sublist n).subset h)
    · -- one that is ahead and not blocked is taken away
      obtain ⟨ahead', hsplit, hcount, hfewer⟩ := exists_remaining blocked x behind hfull
      rw [hsplit]
      refine ih ?_ (hcount ▸ hroom) (by have := hfewer hroom; omega)
      rw [← hsplit]
      exact hnodup.sublist remaining_sublist

/-- After as many rounds as there are items, `x` remains if and only if it is blocked or there is no room for it behind
the blocked ones. -/
theorem mem_iterate_remaining_iff (hnodup : (ahead ++ x :: behind).Nodup) {n : Nat}
    (hn : (ahead ++ x :: behind).length ≤ n) :
    x ∈ (remaining blocked limit)^[n] (ahead ++ x :: behind) ↔
      blocked x = true ∨ ¬hasRoom limit (ahead.countP blocked) := by
  constructor
  · intro h
    by_contra hnot
    rw [not_or, Bool.not_eq_true, not_not] at hnot
    refine not_mem_iterate_remaining hnodup hnot.1 hnot.2 ?_ h
    rw [List.length_append, List.length_cons] at hn
    omega
  · rintro (hx | hroom)
    · clear hn
      induction n with
      | zero => simp
      | succ n ih =>
        rw [Function.iterate_succ_apply']
        exact mem_remaining_of_blocked hx ih
    · obtain ⟨ahead', hsplit, -⟩ := exists_iterate_remaining x behind hroom n
      rw [hsplit]
      simp

end

/-! ### Followed attempts -/

theorem Apart.hasLater_iff {s : Store} (h : s.Apart) (hs : s.Sequenced) (hc : s.Coherent) {a : Attempt}
    (ha : a ∈ s.rows) : s.hasLater a = true ↔ ∃ r ∈ s.rows, r.key = a.key ∧ r.number = a.number + 1 := by
  unfold hasLater
  simp only [List.any_eq_true, Bool.and_eq_true, decide_eq_true_eq]
  constructor
  · rintro ⟨b, hb, hpayment, hlt⟩
    have hkey := h b hb a ha hpayment
    have hpos := (mem_numbersTo.1 (hs.number_mem ha)).1
    have hle := (mem_numbersTo.1 (hs.number_mem hb)).2
    rw [hkey] at hle
    obtain ⟨r, hr, hnumber⟩ : ∃ r ∈ s.attemptsOf a.key, r.number = a.number + 1 :=
      hs.exists_number (by omega) (by omega)
    obtain ⟨hr, hrkey⟩ := mem_attemptsOf.1 hr
    exact ⟨r, hr, hrkey, hnumber⟩
  · rintro ⟨r, hr, hkey, hnumber⟩
    exact ⟨r, hr, hc.one_payment r hr a ha hkey, by omega⟩

/-- A retry that was due is due in a later store if and only if it has not been made. -/
theorem Grows.mem_dueRetries_iff_not_followed {s s' : Store} (h : s.Grows s') (hs : s'.Sequenced) (hc : s'.Coherent)
    (hapart : s'.Apart) {asOf : DateTime} {d : DueRetry} (hd : d ∈ s.dueRetries asOf none) :
    d ∈ s'.dueRetries asOf none ↔ ¬∃ r ∈ s'.rows, r.key = d.attempt.key ∧ r.number = d.attempt.number + 1 := by
  obtain ⟨hmem, hretried, hdue, hle, hpayment, -⟩ := mem_dueRetries_iff.1 hd
  have hmem' := h.mem_of_settled hmem (by simp [hretried])
  rw [← hapart.hasLater_iff hs hc hmem', mem_dueRetries_iff]
  simp [hmem', hretried, hdue, hle, hpayment]

end Store

/-! ### What is due after a poll -/

namespace Scheduler

variable {s : Scheduler} {S : Service} {now asOf horizon : DateTime} {first between last : Store} {added : List Attempt}

theorem Polled.grows {clock : DateTime → Prop} (h : s.Polled S clock now asOf horizon first between last added) :
    first.Grows last := ⟨between.rows, added, h.rows_eq, h.becomes⟩

/-- An attempt that is made is the retry of one that was due, settled by what was heard of its charge. -/
theorem Polled.exists_settled {clock : DateTime → Prop}
    (h : s.Polled S clock now asOf horizon first between last added) {r : Attempt} (hr : r ∈ added) :
    ∃ d ∈ between.dueRetries asOf s.batch, r.key = d.attempt.key ∧ ∃ t id y, clock t ∧
      S.Settles s.policy clock (.ofAnswer y) (d.attempt.retryAt t id) r := by
  obtain ⟨d, hd, hkey⟩ := h.among r hr
  obtain ⟨made, hretries⟩ := h.retried d hd
  have hmem : r ∈ added.filter (·.key = d.attempt.key) := List.mem_filter.2 ⟨hr, by simpa using hkey⟩
  generalize added.filter (·.key = d.attempt.key) = own at hmem hretries
  cases hretries with
  | unmade => cases hmem
  | made _ _ ht _ hsettles =>
    obtain rfl := List.mem_singleton.1 hmem
    exact ⟨d, hd, hkey, _, _, _, ht, hsettles⟩

theorem Polled.follows {clock : DateTime → Prop} (h : s.Polled S clock now asOf horizon first between last added)
    {r : Attempt} (hr : r ∈ added) : ∃ d ∈ between.dueRetries asOf s.batch,
      r.key = d.attempt.key ∧ r.payment = d.attempt.payment ∧ r.number = d.attempt.number + 1 := by
  obtain ⟨d, hd, hkey, t, id, y, -, hsettles⟩ := h.exists_settled hr
  have hbecomes := hsettles.becomes rfl
  exact ⟨d, hd, hkey, hbecomes.payment_eq, hbecomes.number_eq⟩

theorem Polled.apart {clock : DateTime → Prop} (h : s.Polled S clock now asOf horizon first between last added)
    (hapart : first.Apart) : last.Apart := by
  refine hapart.of_origins fun r hr => ?_
  rw [h.rows_eq, List.mem_append] at hr
  have hold : ∀ b ∈ between.rows, ∃ a ∈ first.rows, b.payment = a.payment ∧ b.key = a.key := fun b hb => by
    obtain ⟨a, ha, hbecomes⟩ := h.exists_old hb
    exact ⟨a, ha, hbecomes.payment_eq, hbecomes.key_eq⟩
  rcases hr with hr | hr
  · exact hold r hr
  · obtain ⟨d, hd, hkey, hpayment, -⟩ := h.follows hr
    rw [hkey, hpayment]
    exact hold _ (Store.mem_dueRetries hd).1

private theorem hasLater_iff_made {clock : DateTime → Prop}
    (h : s.Polled S clock now asOf horizon first between last added) (hapart : first.Apart) {d : DueRetry}
    (hd : d ∈ between.dueRetries asOf none) :
    last.hasLater d.attempt = true ↔ ∃ r ∈ added, r.key = d.attempt.key := by
  obtain ⟨hmem, -, -, -, -, hnone⟩ := Store.mem_dueRetries_iff.1 hd
  constructor
  · intro hlater
    simp only [Store.hasLater, List.any_eq_true, Bool.and_eq_true, decide_eq_true_eq] at hlater
    obtain ⟨b, hb, hpayment, hlt⟩ := hlater
    have hkey := h.apart hapart b hb _ (h.rows_eq ▸ List.mem_append_left _ hmem) hpayment
    rw [h.rows_eq, List.mem_append] at hb
    refine ⟨b, hb.resolve_left fun hb => ?_, hkey⟩
    have := Store.hasLater_eq_false_iff.1 hnone b hb hpayment
    omega
  · rintro ⟨r, hr, hkey⟩
    obtain ⟨d', hd', hrkey, hpayment, hnumber⟩ := h.follows hr
    have hsame : d' = d := List.inj_on_of_nodup_map (h.coherent.nodup_due_keys h.sequenced asOf none)
      (Store.mem_dueRetries_of_limit hd') hd (hrkey.symm.trans hkey)
    subst hsame
    simp only [Store.hasLater, List.any_eq_true, Bool.and_eq_true, decide_eq_true_eq]
    exact ⟨r, h.rows_eq ▸ List.mem_append_right _ hr, hpayment, by omega⟩

private theorem hasLater_of_listed {clock : DateTime → Prop}
    (h : s.Polled S clock now asOf horizon first between last added) (hapart : first.Apart)
    (hundisturbed : ∀ key, ¬S.disturbed key) {blocked : String → Bool}
    (hbarred : ∀ key, S.barred key ↔ blocked key = true) {d : DueRetry} (hd : d ∈ between.dueRetries asOf s.batch)
    (hfits : Store.fits (d.attempt.number + 1) = true) : (!last.hasLater d.attempt) = blocked d.attempt.key := by
  have hmade := hasLater_iff_made h hapart (Store.mem_dueRetries_of_limit hd)
  obtain ⟨made, hretries⟩ := h.retried d hd
  generalize hown : added.filter (·.key = d.attempt.key) = own at hretries
  cases hretries with
  | unmade hmay =>
    have hnone : last.hasLater d.attempt = false := by
      rw [Bool.eq_false_iff, Ne, hmade]
      rintro ⟨r, hr, hkey⟩
      exact List.filter_eq_nil_iff.1 hown r hr (by simpa using hkey)
    rw [hnone, (hbarred _).1 (hmay.resolve_left (by simp [hfits]) |>.resolve_left (hundisturbed _))]
    rfl
  | @made t id y b _ hfree _ _ _ =>
    obtain ⟨hb, hkey⟩ := List.mem_filter.1 (hown ▸ List.mem_singleton_self b)
    rw [hmade.2 ⟨b, hb, of_decide_eq_true hkey⟩, Bool.not_true, eq_comm, Bool.eq_false_iff]
    exact fun hblocked => hfree ((hbarred _).2 hblocked)

private theorem not_hasLater_of_unlisted {clock : DateTime → Prop}
    (h : s.Polled S clock now asOf horizon first between last added) (hapart : first.Apart) {d : DueRetry}
    {behind : List DueRetry} (hsplit : between.dueRetries asOf s.batch ++ behind = between.dueRetries asOf none)
    (hd : d ∈ behind) :
    last.hasLater d.attempt = false := by
  have hkeys := h.coherent.nodup_due_keys h.sequenced asOf none
  rw [Bool.eq_false_iff, Ne, hasLater_iff_made h hapart (hsplit ▸ List.mem_append_right _ hd)]
  rintro ⟨r, hr, hkey⟩
  obtain ⟨d', hd', hrkey⟩ := h.among r hr
  rw [← hsplit, List.map_append, List.nodup_append] at hkeys
  exact hkeys.2.2 _ (List.mem_map_of_mem hd') _ (List.mem_map_of_mem hd) (hrkey.symm.trans hkey)

theorem dueRetries_of_append {t t' : Store} (hrows : t'.rows = t.rows ++ added)
    (hadded : ∀ r ∈ added, t'.dueRetry? asOf r = none) :
    t'.dueRetries asOf none = (t.dueRetries asOf none).filter fun d => !t'.hasLater d.attempt := by
  have hkept : ∀ a ∈ t.rows, t'.dueRetry? asOf a = (t.dueRetry? asOf a).filter fun d => !t'.hasLater d.attempt := by
    intro a ha
    have hmono : t.hasLater a = true → t'.hasLater a = true := by
      unfold Store.hasLater
      rw [hrows, List.any_append]
      exact fun h => by rw [h, Bool.true_or]
    unfold Store.dueRetry?
    cases a.dueAt with
    | none => rfl
    | some due =>
      by_cases hlater : t'.hasLater a = true
      · simp only [hlater, Bool.not_true, Bool.and_false, Bool.false_eq_true, if_false]
        split
        · simp [Option.filter, hlater]
        · rfl
      · have hnone : t.hasLater a = false := Bool.eq_false_iff.2 fun h => hlater (hmono h)
        simp only [Bool.not_eq_true] at hlater
        simp only [hlater, hnone]
        split
        · simp [Option.filter, hlater]
        · rfl
  unfold Store.dueRetries
  simp only [Store.limited]
  rw [← Store.ordered_filter, List.filter_filterMap, hrows, List.filterMap_append,
    List.filterMap_eq_nil_iff.2 hadded, List.append_nil, List.filterMap_congr hkept]

section

variable (h : s.Polled S (· = now) now now horizon first between last added)
  (hdelays : ∀ type index delay, s.policy.delay type index = .ok (some delay) → 0 < delay.micros)
  (hundisturbed : ∀ key, ¬S.disturbed key)

include h hdelays hundisturbed

private theorem not_due_of_added {r : Attempt} (hr : r ∈ added) : last.dueRetry? now r = none := by
  obtain ⟨d, -, -, t, id, y, ht, hsettles⟩ := h.exists_settled hr
  subst ht
  obtain rfl := hsettles.eq_settle.resolve_right fun hdisturbed => hundisturbed _ hdisturbed.1
  exact Store.dueRetry?_eq_none fun hretried due hdue => RetryPolicy.lt_of_settle hdelays rfl hretried hdue

/-- What is due after a poll is what was due before, but for the retries that were listed and could be made. -/
theorem Polled.dueRetries_after (hfirst : first.Sequenced) (hapart : first.Apart)
    (hfits : ∀ d ∈ first.dueRetries now none, Store.fits (d.attempt.number + 1) = true) {blocked : String → Bool}
    (hbarred : ∀ key, S.barred key ↔ blocked key = true) :
    last.dueRetries now none =
      Store.remaining (fun d => blocked d.attempt.key) s.batch (first.dueRetries now none) := by
  have hdue := h.dueRetries_eq (hdelays .plugin) (Nat.le_refl _) hfirst
  have hafter := dueRetries_of_append h.rows_eq fun r hr => not_due_of_added h hdelays hundisturbed hr
  have hsplit := Store.limited_append_drop s.batch (between.dueRetries now none)
  have hlisted : Store.limited s.batch (between.dueRetries now none) = between.dueRetries now s.batch := rfl
  rw [hafter, ← hdue none, Store.remaining]
  conv_lhs => rw [← hsplit]
  rw [List.filter_append, hlisted]
  congr 1
  · refine List.filter_congr fun d hd => hasLater_of_listed h hapart hundisturbed hbarred hd (hfits d ?_)
    exact hdue none ▸ Store.mem_dueRetries_of_limit hd
  · refine List.filter_eq_self.2 fun d hd => ?_
    rw [not_hasLater_of_unlisted h hapart hsplit hd, Bool.not_false]

end

/-! ### One poll after the other -/

/-- `n` polls, one after the other, whatever comes of each. -/
def pollTimes (s : Scheduler) : Nat → Task Unit
  | 0 => .done ()
  | n + 1 => (s.polling none).bind fun _ => s.pollTimes n

section

variable (hS : S.Steady) (hmoments : ∀ t, ¬S.moments t) (hundisturbed : ∀ key, ¬S.disturbed key)
  {blocked : String → Bool} (hbarred : ∀ key, S.barred key ↔ blocked key = true)
  (hlimit : Store.limitFits s.batch = true)
  (hdelays : ∀ type index delay, s.policy.delay type index = .ok (some delay) → 0 < delay.micros)
  (hhorizon : now.sub s.lease = .ok horizon)

include hS hmoments hundisturbed hbarred hlimit hdelays hhorizon

theorem pollTimes_alwaysEnds (n : Nat) {w : World} (hw : w.Sane (· = now)) (hapart : w.store.Apart)
    (hfits : ∀ d ∈ w.store.dueRetries now none, Store.fits (d.attempt.number + 1) = true) :
    (s.pollTimes n).AlwaysEnds S.Serves (fun _ w' => w'.Sane (· = now) ∧ w'.store.Apart ∧ w.store.Grows w'.store ∧
      w'.store.dueRetries now none =
        (Store.remaining (fun d => blocked d.attempt.key) s.batch)^[n] (w.store.dueRetries now none)) w := by
  induction n generalizing w with
  | zero => exact .done ⟨hw, hapart, .refl _, rfl⟩
  | succ n ih =>
    have hnow : w.now = now := hw.timely
    refine Task.AlwaysEnds.bind ((polling_alwaysEnds hS hlimit (fun t ht => absurd ht (hmoments t)) none
      (hnow ▸ hhorizon) hw).mono fun x w₁ hx => ?_)
    obtain ⟨between, added, -, hw₁, hpolled⟩ := hx
    rw [Option.getD_none, hnow] at hpolled
    have hafter := hpolled.dueRetries_after hdelays hundisturbed hw.sequenced hapart hfits hbarred
    have hsublist : (w₁.store.dueRetries now none).Sublist (w.store.dueRetries now none) := by
      rw [hafter]
      exact Store.remaining_sublist
    refine (ih hw₁ (hpolled.apart hapart) fun d hd => hfits d (hsublist.subset hd)).mono fun _ w₂ hx => ?_
    obtain ⟨hw₂, hapart₂, hgrows, hdue⟩ := hx
    refine ⟨hw₂, hapart₂, hpolled.grows.trans hgrows, ?_⟩
    rw [hdue, Function.iterate_succ_apply, hafter]

end

end Scheduler

/-- Let the store refuse the attempts of the payments that are `blocked`, while the clock stands still and nothing else
fails.  Let all delays be positive, and no two keys share a payment.  After as many polls as retries are due, the retry
`d` has been made if and only if its payment is not blocked, and fewer blocked ones were due before it than a batch
holds. -/
theorem Reachable.unblocked {w : World} {σ : System} (hw : w.Unused) (h : Reachable w σ) (hstill : σ.world.Still)
    (s : Scheduler) (answers : Charge → Except Failure GatewayResult → Prop) (hanswered : ∀ c, ∃ x, answers c x)
    (hcarriesOn : ∀ c e, answers c (.error e) → e.isCancellation = false) (hlimit : Store.limitFits s.batch = true)
    {horizon : DateTime} (hhorizon : σ.world.now.sub s.lease = .ok horizon)
    (hdelays : ∀ type index delay, s.policy.delay type index = .ok (some delay) → 0 < delay.micros)
    (hapart : σ.world.store.Apart) (hfits : ∀ a ∈ σ.world.store.rows, Store.fits (a.number + 1) = true)
    (blocked : String → Bool) {n : Nat} (hn : (σ.world.store.dueRetries σ.world.now none).length ≤ n) :
    (s.pollTimes n).AlwaysEnds (Service.Serves { answers, barred := fun key => blocked key = true })
      (fun _ w' => ∀ ahead d behind, σ.world.store.dueRetries σ.world.now none = ahead ++ d :: behind →
        ((∃ r ∈ w'.store.rows, r.key = d.attempt.key ∧ r.number = d.attempt.number + 1) ↔
          blocked d.attempt.key = false ∧ Store.hasRoom s.batch (ahead.countP fun d => blocked d.attempt.key)))
      σ.world := by
  have hsane : σ.world.Sane (· = σ.world.now) := h.sane hw hstill rfl
  have hpolls := Scheduler.pollTimes_alwaysEnds (S := { answers, barred := fun key => blocked key = true })
    ⟨hanswered, hcarriesOn⟩ (fun _ => id) (fun _ => id) (fun _ => Iff.rfl) hlimit hdelays hhorizon n hsane hapart
    fun d hd => hfits _ (Store.mem_dueRetries hd).1
  refine hpolls.mono fun _ w' hx ahead d behind hsplit => ?_
  obtain ⟨hw', hapart', hgrows, hdue⟩ := hx
  have hnodup : (σ.world.store.dueRetries σ.world.now none).Nodup :=
    .of_map _ (hsane.coherent.nodup_due_keys hsane.sequenced _ _)
  have hd : d ∈ σ.world.store.dueRetries σ.world.now none := by simp [hsplit]
  have hremains := hgrows.mem_dueRetries_iff_not_followed hw'.sequenced hw'.coherent hapart' hd
  rw [hdue, hsplit, Store.mem_iterate_remaining_iff (hsplit ▸ hnodup) (hsplit ▸ hn)] at hremains
  rw [← not_iff_not, ← hremains, not_and_or, Bool.not_eq_false]

/-! ### A batch of one -/

namespace Sample

/-- A scheduler that takes up one attempt at a time. -/
def narrow : Scheduler := { daily with batch := some 1 }

private theorem dueRetries_waiting : ∃ d₁ d₂, waiting.store.dueRetries waiting.now none = [d₁, d₂] ∧
    d₁.attempt.key = "first" ∧ d₁.attempt.number = 1 ∧ d₂.attempt.key = "second" ∧ d₂.attempt.number = 1 := by
  have hordered : waiting.store.dueRetries waiting.now none =
      waiting.store.rows.filterMap (waiting.store.dueRetry? waiting.now) := by
    refine List.mergeSort_of_pairwise ?_
    decide +kernel
  have hvalues : (waiting.store.rows.filterMap (waiting.store.dueRetry? waiting.now)).map
      (fun d => (d.attempt.key, d.attempt.number)) = [("first", 1), ("second", 1)] := by
    decide +kernel
  rw [← hordered] at hvalues
  obtain ⟨d₁, rest, hdue, h₁, hrest⟩ := List.map_eq_cons_iff.1 hvalues
  obtain ⟨d₂, rest', rfl, h₂, hrest'⟩ := List.map_eq_cons_iff.1 hrest
  obtain rfl := List.map_eq_nil_iff.1 hrest'
  exact ⟨d₁, d₂, hdue, (Prod.mk.inj h₁).1, (Prod.mk.inj h₁).2, (Prod.mk.inj h₂).1, (Prod.mk.inj h₂).2⟩

theorem narrow_delays (type : FailureType) (index : Int) (delay : Duration)
    (h : narrow.policy.delay type index = .ok (some delay)) : 0 < delay.micros := by
  obtain ⟨hnonneg, hlt, rfl⟩ := RetryPolicy.delay_eq_some h
  have hone : narrow.policy.maxAttempts type = 1 := by cases type <;> rfl
  obtain rfl : index = 0 := by omega
  cases type <;> decide

/-- Two payments are due, one after the other. -/
private theorem reachable_due : ∃ σ d₁ d₂ horizon, Reachable world σ ∧ σ.world.Still ∧ σ.world.store.Apart ∧
    (∀ a ∈ σ.world.store.rows, Store.fits (a.number + 1) = true) ∧ σ.world.now.sub narrow.lease = .ok horizon ∧
    σ.world.store.dueRetries σ.world.now none = [d₁, d₂] ∧
    d₁.attempt.key = "first" ∧ d₁.attempt.number = 1 ∧ d₂.attempt.key = "second" ∧ d₂.attempt.number = 1 := by
  obtain ⟨σ, h, hworld⟩ := reachable_waiting
  obtain ⟨d₁, d₂, hdue⟩ := dueRetries_waiting
  refine ⟨σ, d₁, d₂, dayEarlier, h, ?_⟩
  unfold Store.Apart
  rw [hworld]
  exact ⟨⟨by decide +kernel, by decide +kernel⟩, by decide +kernel, by decide +kernel, by decide +kernel, hdue⟩

end Sample

/-- Two retries are due, and the later one cannot be made: the other one is made. -/
theorem unblocked_of_first_payment : ∃ σ, Reachable Sample.world σ ∧
    (σ.world.store.dueRetries σ.world.now none).map (·.attempt.key) = ["first", "second"] ∧
    (Sample.narrow.pollTimes 2).AlwaysEnds
      (Service.Serves
        { answers := fun c x => x = Sample.accepts c, barred := fun key => decide (key = "second") = true })
      (fun _ w' => (∃ r ∈ w'.store.rows, r.key = "first" ∧ r.number = 2) ∧
        ¬∃ r ∈ w'.store.rows, r.key = "second" ∧ r.number = 2)
      σ.world := by
  obtain ⟨σ, d₁, d₂, horizon, h, hstill, hapart, hfits, hhorizon, hdue, hkey₁, hnumber₁, hkey₂, hnumber₂⟩ :=
    Sample.reachable_due
  have hpolls := h.unblocked ⟨rfl, rfl⟩ hstill Sample.narrow (fun c x => x = Sample.accepts c)
    (fun _ => ⟨_, rfl⟩) (by rintro c e ⟨⟩) rfl hhorizon Sample.narrow_delays hapart hfits (· = "second") (n := 2)
    (by rw [hdue]; simp)
  refine ⟨σ, h, by simp [hdue, hkey₁, hkey₂], hpolls.mono fun _ w' hx => ?_⟩
  have hfirst := hx [] d₁ [d₂] hdue
  have hsecond := hx [d₁] d₂ [] hdue
  rw [hkey₁, hnumber₁] at hfirst
  rw [hkey₂, hnumber₂] at hsecond
  refine ⟨hfirst.2 ⟨by decide, fun k hk => ?_⟩, fun hmade => ?_⟩
  · obtain rfl : 1 = k := Option.some.inj hk
    exact .inr (by decide)
  · have hblocked := (hsecond.1 hmade).1
    cases hblocked

/-- Two retries are due, and the first one cannot be made: with a batch of one, the other is never made, however many
polls there are. -/
theorem blocked_of_batch_of_one : ∃ σ, Reachable Sample.world σ ∧ σ.world.store.Apart ∧
    (σ.world.store.dueRetries σ.world.now none).map (·.attempt.key) = ["first", "second"] ∧
    ∀ n, (Sample.narrow.pollTimes n).AlwaysEnds
      (Service.Serves { answers := fun c x => x = Sample.accepts c, barred := (· = "first") })
      (fun _ w' => ¬∃ r ∈ w'.store.rows, r.key = "second" ∧ r.number = 2) σ.world := by
  obtain ⟨σ, d₁, d₂, horizon, h, hstill, hapart, hfits, hhorizon, hdue, hkey₁, -, hkey₂, hnumber₂⟩ :=
    Sample.reachable_due
  refine ⟨σ, h, hapart, by simp [hdue, hkey₁, hkey₂], fun n => ?_⟩
  have hbarred : ∀ key : String, key = "first" ↔ decide (key = "first") = true := by simp
  have hpolls := Scheduler.pollTimes_alwaysEnds (s := Sample.narrow)
    (S := { answers := fun c x => x = Sample.accepts c, barred := (· = "first") })
    ⟨fun _ => ⟨_, rfl⟩, by rintro c e ⟨⟩⟩ (fun _ => id) (fun _ => id) hbarred rfl Sample.narrow_delays hhorizon n
    (h.sane ⟨rfl, rfl⟩ hstill rfl) hapart fun d hd => hfits _ (Store.mem_dueRetries hd).1
  refine hpolls.mono fun _ w' hx => ?_
  obtain ⟨hw', hapart', hgrows, hremains⟩ := hx
  have hfull : ¬Store.hasRoom Sample.narrow.batch ([d₁].countP fun d => decide (d.attempt.key = "first")) := by
    intro hroom
    have := hroom 1 rfl
    simp [hkey₁] at this
  obtain ⟨ahead, hsplit, -⟩ := Store.exists_iterate_remaining d₂ [] hfull n
  have hd₂ : d₂ ∈ σ.world.store.dueRetries σ.world.now none := by simp [hdue]
  have hsecond := hgrows.mem_dueRetries_iff_not_followed hw'.sequenced hw'.coherent hapart' hd₂
  rw [hkey₂, hnumber₂] at hsecond
  refine hsecond.1 ?_
  rw [hremains, hdue, show [d₁, d₂] = [d₁] ++ d₂ :: [] from rfl, hsplit]
  simp

end PaymentRetry
