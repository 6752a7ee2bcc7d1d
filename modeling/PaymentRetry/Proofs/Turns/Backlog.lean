import PaymentRetry.Proofs.Turns.Blocking
import PaymentRetry.Proofs.Turns.Undisturbed

/-!
# What a poll has to do

`Store.Backlog` says what there is to do at a moment: which attempts are to be taken up because their lease has expired,
and which retries are to be made, each list in the order in which a poll works through it.  Taking up the first attempt,
or making the first retry, takes it off its list and leaves the other list as it is (`Scheduler.takeUp_backlog`,
`Scheduler.make_backlog`): what has just been written is neither stale nor due.

The two kinds of work do not meet, so it makes no difference in which order they are done (`Scheduler.takeUp_make`).
-/

namespace PaymentRetry

open Simulation

/-! ### Settling a row of the store -/

namespace RetryPolicy

variable {p : RetryPolicy} {result : GatewayResult} {t : DateTime} {a : Attempt}

theorem leavesPending_or_ruling (p : RetryPolicy) (result : GatewayResult) (number : Int) (t : DateTime) :
    p.LeavesPending result number t ∨ ∃ target change, p.ruling result number t = .ok (target, change) ∧
      Failure.ofTexts? change.message.join.toList = none := by
  cases hruling : p.ruling result number t with
  | error e => exact .inl (.inl ⟨e, hruling⟩)
  | ok y =>
    obtain ⟨target, change⟩ := y
    cases hmessage : Failure.ofTexts? change.message.join.toList with
    | some f => exact .inl (.inr ⟨target, change, f, hruling, hmessage⟩)
    | none => exact .inr ⟨target, change, rfl, hmessage⟩

theorem settle_updated (hupdated : a.updated = t) : (p.settle result t a).updated = t := by
  unfold settle
  split
  · split
    · rfl
    · exact hupdated
  · exact hupdated

end RetryPolicy

namespace Store

variable {s : Store} {a : Attempt}

theorem mem_put {b r : Attempt} (hr : r ∈ (s.put b).rows) : r = b ∨ r ∈ s.rows ∧ r.id ≠ b.id := by
  obtain ⟨c, hc, rfl⟩ := List.mem_map.1 hr
  split
  · exact .inl rfl
  · rename_i hid
    exact .inr ⟨hc, hid⟩

/-- Settling the pending row `a` leaves a store in good order so. -/
theorem settled_in_order (p : RetryPolicy) (result : GatewayResult) (t : DateTime) (hs : s.Sequenced) (hc : s.Coherent)
    (ha : a ∈ s.rows) (hpending : a.state = .pending) :
    (s.put (p.settle result t a)).Sequenced ∧ (s.put (p.settle result t a)).Coherent := by
  rcases p.leavesPending_or_ruling result a.number t with hleaves | ⟨target, change, hruling, hmessage⟩
  · rw [RetryPolicy.settle_of_leavesPending hleaves, put_self hs.distinct ha]
    exact ⟨hs, hc⟩
  · have hmove := move?_eq_put hs.distinct ha hpending target change t
    rw [RetryPolicy.settle_of_ruling hruling hmessage]
    exact ⟨hs.move hmove, hc.move hs.distinct hmove (RetryPolicy.ruling_ne_pending hruling)⟩

theorem eq_append_of_insert {s' : Store} {d : Draft} {t : DateTime} (h : s.insert d t = .ok (a, s')) :
    s' = s.append d a := by
  unfold insert at h
  split at h
  · cases h
  · split at h
    · cases h
    · split at h
      · cases h
      · obtain ⟨rfl, rfl⟩ := Prod.mk.inj (Except.ok.inj h)
        rfl

theorem becomes_put (hs : s.Distinct) (ha : a ∈ s.rows) {b : Attempt} (hab : a.Becomes b) :
    List.Forall₂ Attempt.Becomes s.rows (s.put b).rows := by
  refine List.forall₂_map_right_iff.2 (List.forall₂_same.2 fun r hr => ?_)
  split
  · rename_i hid
    obtain rfl := hs.eq_of_id hr ha (hid.trans hab.id_eq)
    exact hab
  · exact .refl r

/-! ### What there is to do -/

/-- What there is to do at `now` for the store `s` in good order: `stale` are the attempts to be taken up, pending
since `horizon` or longer, and `due` the retries to be made. -/
structure Backlog (now horizon : DateTime) (stale : List Attempt) (due : List DueRetry) (s : Store) : Prop where
  sequenced : s.Sequenced
  coherent : s.Coherent
  apart : s.Apart
  stale_eq : s.stalePending horizon none = stale
  due_eq : s.dueRetries now none = due
  fits : ∀ d ∈ due, fits (d.attempt.number + 1) = true

variable {now horizon : DateTime} {stale : List Attempt} {due : List DueRetry}

theorem Backlog.of_mem_stale (h : s.Backlog now horizon stale due) (ha : a ∈ stale) :
    a ∈ s.rows ∧ a.state = .pending ∧ a.updated ≤ horizon := by
  rw [← h.stale_eq] at ha
  exact mem_stalePending_iff.1 ha

theorem Backlog.nodup_stale (h : s.Backlog now horizon stale due) : stale.Nodup := by
  rw [← h.stale_eq]
  exact .of_map _ (h.sequenced.nodup_stale_keys horizon none)

theorem stalePending_put {b : Attempt} (hb : ¬(b.state = .pending ∧ b.updated ≤ horizon)) :
    (s.put b).stalePending horizon none = (s.stalePending horizon none).filter (·.id ≠ b.id) := by
  have hfilter : (s.put b).rows.filter (fun r => r.state = .pending && r.updated ≤ horizon) =
      (s.rows.filter fun r => r.state = .pending && r.updated ≤ horizon).filter (·.id ≠ b.id) := by
    unfold put
    rw [List.filter_map, List.filter_filter]
    have hkept : s.rows.filter ((fun r => r.state = .pending && r.updated ≤ horizon) ∘
          fun r => if r.id = b.id then b else r) =
        s.rows.filter fun r => decide (r.id ≠ b.id) && (r.state = .pending && r.updated ≤ horizon) := by
      refine List.filter_congr fun r _ => ?_
      by_cases hid : r.id = b.id
      · simpa [hid] using hb
      · simp [hid]
    rw [hkept]
    refine (List.map_congr_left fun r hr => ?_).trans (List.map_id _)
    have hne : r.id ≠ b.id := by simpa using (Bool.and_eq_true_iff.1 (List.mem_filter.1 hr).2).1
    rw [if_neg hne]
    rfl
  unfold stalePending
  simp only [limited]
  rw [hfilter, ordered_filter]

theorem dueRetries_put (hs : s.Distinct) (ha : a ∈ s.rows) (hpending : a.state = .pending) {b : Attempt}
    (hab : a.Becomes b) (hb : Store.dueRetry? (s.put b) now b = none) :
    (s.put b).dueRetries now none = s.dueRetries now none := by
  have hbecomes := becomes_put hs ha hab
  have hsame : (s.put b).rows.filterMap (Store.dueRetry? (s.put b) now) = s.rows.filterMap (s.dueRetry? now) := by
    show List.filterMap _ (List.map _ _) = _
    rw [List.filterMap_map]
    refine List.filterMap_congr fun r hr => ?_
    simp only [Function.comp]
    split
    · rename_i hid
      obtain rfl := hs.eq_of_id hr ha (hid.trans hab.id_eq)
      rw [hb, dueRetry?_eq_none (by simp [hpending])]
    · unfold dueRetry?
      rw [hasLater_eq_of_becomes hbecomes (.refl r)]
  rw [dueRetries, dueRetries, hsame]

theorem stalePending_append {s' : Store} {b : Attempt} (hrows : s'.rows = s.rows ++ [b])
    (hb : ¬(b.state = .pending ∧ b.updated ≤ horizon)) :
    s'.stalePending horizon none = s.stalePending horizon none := by
  have hnone : [b].filter (fun r => r.state = .pending && r.updated ≤ horizon) = [] :=
    List.filter_eq_nil_iff.2 (by simpa using hb)
  unfold stalePending
  rw [hrows, List.filter_append, hnone, List.append_nil]

/-- The attempt that is made for `d` follows no other attempt that was due. -/
theorem Backlog.filter_due_of_made {d : DueRetry} (h : s.Backlog now horizon stale (d :: due)) {s' : Store}
    {x : Attempt} (hrows : s'.rows = s.rows ++ [x]) (hpayment : x.payment = d.attempt.payment)
    (hnumber : x.number = d.attempt.number + 1) : (d :: due).filter (fun d => !s'.hasLater d.attempt) = due := by
  have hmem : ∀ d' ∈ d :: due, d' ∈ s.dueRetries now none := fun d' hd' => h.due_eq ▸ hd'
  have hlater : s'.hasLater d.attempt = true := by
    simp only [hasLater, hrows, List.any_append, List.any_cons, List.any_nil, Bool.or_false,
      Bool.or_eq_true, Bool.and_eq_true, decide_eq_true_eq]
    exact .inr ⟨hpayment, hnumber ▸ Int.lt_succ _⟩
  rw [List.filter_cons_of_neg (by simp [hlater])]
  refine List.filter_eq_self.2 fun d' hd' => ?_
  have hrow := (mem_dueRetries_iff.1 (hmem d List.mem_cons_self)).1
  obtain ⟨hrow', -, -, -, -, hlast⟩ := mem_dueRetries_iff.1 (hmem d' (List.mem_cons_of_mem d hd'))
  have hkey : d'.attempt.key ≠ d.attempt.key := by
    have hkeys := h.coherent.nodup_due_keys h.sequenced now none
    rw [h.due_eq, List.map_cons, List.nodup_cons] at hkeys
    exact fun heq => hkeys.1 (heq ▸ List.mem_map_of_mem hd')
  rw [Bool.not_eq_true', hasLater_eq_false_iff]
  intro r hr hsame
  rw [hrows, List.mem_append, List.mem_singleton] at hr
  rcases hr with hr | rfl
  · exact hasLater_eq_false_iff.1 hlast r hr hsame
  · rw [hpayment] at hsame
    exact absurd (h.apart _ hrow' _ hrow hsame.symm) hkey

end Store

/-! ### Taking an attempt up -/

namespace Scheduler

variable {s : Scheduler} {now horizon : DateTime} {stale : List Attempt} {due : List DueRetry} {t : Store} {a : Attempt}

/-- The store once `a` has been taken up at `now` because its lease had expired. -/
def takeUp (s : Scheduler) (now : DateTime) (t : Store) (a : Attempt) : Store :=
  t.put (s.policy.settle ⟨.pluginException, some leaseReason⟩ now a)

/-- Taking up the first of the stale attempts leaves the others to be done. -/
theorem takeUp_backlog (hdelays : ∀ type index delay, s.policy.delay type index = .ok (some delay) → 0 < delay.micros)
    (hdates : ∀ number, s.policy.DateFits .pluginException number now)
    (h : t.Backlog now horizon (a :: stale) due) : (s.takeUp now t a).Backlog now horizon stale due := by
  obtain ⟨ha, hpending, -⟩ := h.of_mem_stale List.mem_cons_self
  have hbecomes : a.Becomes (s.policy.settle ⟨.pluginException, some leaseReason⟩ now a) :=
    RetryPolicy.settle_becomes hpending
  have hsettled : (s.policy.settle ⟨.pluginException, some leaseReason⟩ now a).state ≠ .pending := by
    have hleaves : ¬s.policy.LeavesPending ⟨.pluginException, some leaseReason⟩ a.number now :=
      RetryPolicy.not_leavesPending (hdates a.number) fun _ _ => by decide +kernel
    obtain ⟨target, change, hruling, hmessage⟩ := (s.policy.leavesPending_or_ruling _ _ _).resolve_left hleaves
    rw [RetryPolicy.settle_of_ruling hruling hmessage]
    exact RetryPolicy.ruling_ne_pending hruling
  have horder := Store.settled_in_order s.policy ⟨.pluginException, some leaseReason⟩ now h.sequenced h.coherent ha
    hpending
  unfold takeUp
  refine ⟨horder.1, horder.2, h.apart.of_origins fun r hr => ?_, ?_, ?_, h.fits⟩
  · rcases Store.mem_put hr with rfl | ⟨hr, -⟩
    · exact ⟨a, ha, hbecomes.payment_eq, hbecomes.key_eq⟩
    · exact ⟨r, hr, rfl, rfl⟩
  · rw [Store.stalePending_put fun hstale => hsettled hstale.1, h.stale_eq,
      List.filter_cons_of_neg (by simp)]
    refine List.filter_eq_self.2 fun r hr => ?_
    have hrow := (h.of_mem_stale (List.mem_cons_of_mem a hr)).1
    have hne : r ≠ a := fun heq => (List.nodup_cons.1 h.nodup_stale).1 (heq ▸ hr)
    simpa [hbecomes.id_eq] using fun hid => hne (h.sequenced.distinct.eq_of_id hrow ha hid)
  · rw [Store.dueRetries_put h.sequenced.distinct ha hpending hbecomes, h.due_eq]
    exact Store.dueRetry?_eq_none fun hretried due hdue => RetryPolicy.lt_of_settle hdelays hpending hretried hdue

/-! ### Making a retry -/

/-- The store once the retry of `a` has been made at `now` and settled by the answer `y`. -/
def make (s : Scheduler) (now : DateTime) (y : Except Failure GatewayResult) (t : Store) (a : Attempt) : Store :=
  { t with
    rows := t.rows ++ [s.retried (fun _ => y) now (.minted (t.attemptsMinted + 1)) a]
    attemptsMinted := t.attemptsMinted + 1 }

/-- The retry of an attempt that is due can be stored, and has been made once its row has been settled. -/
theorem exists_insert_of_due (s : Scheduler) {d : DueRetry} (h : t.Backlog now horizon stale (d :: due)) :
    ∃ b t', t.insert d.attempt.next now = .ok (b, t') ∧
      b.asStored = d.attempt.retryAt now (.minted (t.attemptsMinted + 1)) ∧ b.charge = d.attempt.charge ∧
      t'.Sequenced ∧ t'.Coherent ∧ b.asStored ∈ t'.rows ∧
      ∀ y, t'.put (s.policy.settle (.ofAnswer y) now b.asStored) = s.make now y t d.attempt := by
  have hd : d ∈ t.dueRetries now none := h.due_eq ▸ List.mem_cons_self
  obtain ⟨hretried, prior, hlast⟩ := h.coherent.last_of_due h.sequenced hd
  have hmem := (Store.mem_dueRetries_iff.1 hd).1
  obtain ⟨b, t', hinsert⟩ := Store.exists_insert_next (h.coherent.storable _ hmem) h.coherent.minted
    (h.fits d List.mem_cons_self) (h.sequenced.free_of_last hlast) now
  obtain ⟨hrow, hcharge, -⟩ := Store.retry_of_insert hinsert
  obtain ⟨-, hid, hminted, -⟩ := Store.insert_unnamed hinsert rfl
  rw [hid] at hrow
  have hrows := (Store.insert_eq_ok hinsert).2.2.2
  have hadmits : t.Admits d.attempt.next := ⟨rfl, .inr ⟨d.attempt, hmem, hretried, rfl, rfl⟩⟩
  refine ⟨b, t', hinsert, hrow, hcharge, h.sequenced.insert hadmits hinsert,
    h.coherent.insert h.sequenced rfl (.inr ⟨d.attempt, hmem, rfl⟩) hinsert, by rw [hrows]; simp, fun y => ?_⟩
  have hput : (t'.put (s.policy.settle (.ofAnswer y) now b.asStored)).rows =
      t.rows ++ [s.policy.settle (.ofAnswer y) now b.asStored] :=
    Store.put_last (h.sequenced.distinct.insert hinsert) hrows RetryPolicy.settle_id
  have hpayments : t'.paymentsMinted = t.paymentsMinted := by
    rw [Store.eq_append_of_insert hinsert]
    rfl
  rw [hrow] at hput ⊢
  exact (Store.mk.injEq ..).mpr ⟨hput, hminted, hpayments⟩

/-- Making the first of the retries leaves the others to be done. -/
theorem make_backlog (hdelays : ∀ type index delay, s.policy.delay type index = .ok (some delay) → 0 < delay.micros)
    (hlease : horizon < now) {d : DueRetry} (h : t.Backlog now horizon stale (d :: due))
    (y : Except Failure GatewayResult) : (s.make now y t d.attempt).Backlog now horizon stale due := by
  obtain ⟨b, t', hinsert, hrow, -, hsequenced, hcoherent, hmem, hput⟩ := s.exists_insert_of_due h
  have hdue : d ∈ t.dueRetries now none := h.due_eq ▸ List.mem_cons_self
  obtain ⟨hrowmem, -, -, -, -, hlast⟩ := Store.mem_dueRetries_iff.1 hdue
  have horder := Store.settled_in_order s.policy (.ofAnswer y) now hsequenced hcoherent hmem (by rw [hrow]; rfl)
  rw [hput y] at horder
  have hrows : (s.make now y t d.attempt).rows =
      t.rows ++ [s.retried (fun _ => y) now (.minted (t.attemptsMinted + 1)) d.attempt] := rfl
  have hbecomes : (d.attempt.retryAt now (.minted (t.attemptsMinted + 1))).Becomes
      (s.retried (fun _ => y) now (.minted (t.attemptsMinted + 1)) d.attempt) := RetryPolicy.settle_becomes rfl
  generalize hx : s.retried (fun _ => y) now (.minted (t.attemptsMinted + 1)) d.attempt = x at hrows hbecomes
  have hupdated : x.updated = now := by
    rw [← hx]
    exact RetryPolicy.settle_updated rfl
  have hfresh : ¬(x.state = .pending ∧ x.updated ≤ horizon) := by
    rintro ⟨-, hle⟩
    have hle' : now.micros ≤ horizon.micros := hupdated ▸ hle
    exact Nat.not_lt.2 hle' hlease
  have hnotdue : Store.dueRetry? (s.make now y t d.attempt) now x = none := by
    refine Store.dueRetry?_eq_none fun hretried due hdue => ?_
    rw [← hx] at hretried hdue
    exact RetryPolicy.lt_of_settle hdelays rfl hretried hdue
  refine ⟨horder.1, horder.2, h.apart.of_origins fun r hr => ?_, ?_, ?_,
    fun d' hd' => h.fits d' (List.mem_cons_of_mem d hd')⟩
  · rw [hrows, List.mem_append, List.mem_singleton] at hr
    rcases hr with hr | rfl
    · exact ⟨r, hr, rfl, rfl⟩
    · exact ⟨d.attempt, hrowmem, hbecomes.payment_eq, hbecomes.key_eq⟩
  · rw [Store.stalePending_append hrows hfresh, h.stale_eq]
  · rw [Scheduler.dueRetries_of_append hrows fun r hr => List.mem_singleton.1 hr ▸ hnotdue, h.due_eq]
    exact h.filter_due_of_made hrows hbecomes.payment_eq hbecomes.number_eq

/-! ### The order of the two kinds of work -/

/-- An attempt that was there is taken up in the same way before a retry is made and after it. -/
theorem takeUp_make {y : Except Failure GatewayResult} {a a' : Attempt} (hid : a.id ≠ .minted (t.attemptsMinted + 1)) :
    s.takeUp now (s.make now y t a') a = s.make now y (s.takeUp now t a) a' := by
  have hkept : (s.retried (fun _ => y) now (.minted (t.attemptsMinted + 1)) a').id ≠
      (s.policy.settle ⟨.pluginException, some leaseReason⟩ now a).id := by
    rw [retried, RetryPolicy.settle_id, RetryPolicy.settle_id]
    exact hid.symm
  unfold takeUp make Store.put
  simp only [List.map_append, List.map_cons, List.map_nil, if_neg hkept]

theorem foldl_takeUp_make {y : Except Failure GatewayResult} {a' : Attempt} {t : Store} {stale : List Attempt}
    (hids : ∀ a ∈ stale, ∃ k ≤ t.attemptsMinted, a.id = .minted k) :
    stale.foldl (s.takeUp now) (s.make now y t a') = s.make now y (stale.foldl (s.takeUp now) t) a' := by
  induction stale generalizing t with
  | nil => rfl
  | cons a stale ih =>
    obtain ⟨⟨k, hk, hid⟩, hids⟩ := List.forall_mem_cons.1 hids
    have hne : a.id ≠ .minted (t.attemptsMinted + 1) := by
      rw [hid, Ne, AttemptId.minted.injEq]
      omega
    rw [List.foldl_cons, takeUp_make hne]
    exact ih (t := s.takeUp now t a) hids

@[simp]
theorem attemptsMinted_foldl_takeUp (s : Scheduler) (now : DateTime) (stale : List Attempt) (t : Store) :
    (stale.foldl (s.takeUp now) t).attemptsMinted = t.attemptsMinted := by
  induction stale generalizing t with
  | nil => rfl
  | cons a stale ih => exact ih (s.takeUp now t a)

end Scheduler

end PaymentRetry
