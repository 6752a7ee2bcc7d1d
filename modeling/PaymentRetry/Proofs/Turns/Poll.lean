import PaymentRetry.Proofs.Store.Batch
import PaymentRetry.Proofs.Turns.Piece
import PaymentRetry.Proofs.Workers.Listing
import PaymentRetry.Proofs.Workers.Polling

/-!
# What a poll comes to

However the programs of a poll take turns and however its requests are served, the poll ends with a number and leaves
the store in a state that is known up to what the gateway answers and which calls of the store fail
(`Scheduler.polling_alwaysEnds`): first the attempts whose lease has expired are settled, and then a retry is made and
settled for each attempt that is due in the store as it is now.

Each program works on a payment of its own, so the work can be described payment by payment; that the rows of the store
are what the payments make of them is `Store.Grows.rows_by_payment`.
-/

namespace PaymentRetry

open Simulation

/-! ### The rows and the payments -/

section

variable {rows kept : List Attempt}

/-- Lists whose keys agree row by row are related by `R` if the sublists of each key are. -/
private theorem forall₂_of_keys {R : Attempt → Attempt → Prop}
    (hkeys : List.Forall₂ (fun a b => b.key = a.key) rows kept)
    (hR : ∀ key : String, List.Forall₂ R (rows.filter (·.key = key)) (kept.filter (·.key = key))) :
    List.Forall₂ R rows kept := by
  induction hkeys with
  | nil => exact .nil
  | @cons a b rows kept hab _ ih =>
    have hfirst := hR a.key
    simp only [List.filter_cons, hab, decide_true, if_true] at hfirst
    cases hfirst with
    | cons hRab hrest =>
      refine .cons hRab (ih fun key => ?_)
      by_cases hkey : a.key = key
      · rw [← hkey]
        exact hrest
      · have hother := hR key
        rwa [List.filter_cons_of_neg (by simpa using hkey),
          List.filter_cons_of_neg (by simpa [hab] using hkey)] at hother

end

/-- If the attempts of each key are related by `R` and followed by `extra`, all rows are related by `R` and followed by
new ones. -/
theorem Store.Grows.rows_by_payment {s s' : Store} (h : s.Grows s') {R : Attempt → Attempt → Prop}
    {extra : String → List Attempt}
    (hR : ∀ key, ∃ kept, s'.attemptsOf key = kept ++ extra key ∧ List.Forall₂ R (s.attemptsOf key) kept) :
    ∃ kept added, s'.rows = kept ++ added ∧ List.Forall₂ R s.rows kept ∧
      ∀ key : String, added.filter (·.key = key) = extra key := by
  obtain ⟨kept, added, hrows, hkept⟩ := h
  have hkeys : List.Forall₂ (fun a b => b.key = a.key) s.rows kept := hkept.imp fun a b hab => hab.key_eq
  have hlength : ∀ key : String, (kept.filter (·.key = key)).length = (s.attemptsOf key).length := by
    intro key
    have hmap : ∀ {l l' : List Attempt}, List.Forall₂ (fun a b => b.key = a.key) l l' →
        (l'.filter (·.key = key)).length = (l.filter (·.key = key)).length := by
      intro l l' hl
      induction hl with
      | nil => rfl
      | @cons a b l l' hab _ ih =>
        by_cases hkey : a.key = key
        · simp [hab, hkey, ih]
        · simp [hab, hkey, ih]
    exact hmap hkeys
  have hsplit : ∀ key, kept.filter (·.key = key) ++ added.filter (·.key = key) = s'.attemptsOf key := by
    intro key
    rw [attemptsOf, hrows, List.filter_append]
  refine ⟨kept, added, hrows, forall₂_of_keys hkeys fun key => ?_, fun key => ?_⟩
  · obtain ⟨kept', hown, hR⟩ := hR key
    obtain ⟨rfl, -⟩ := List.append_inj ((hsplit key).trans hown) ((hlength key).trans hR.length_eq)
    exact hR
  · obtain ⟨kept', hown, hR⟩ := hR key
    exact (List.append_inj ((hsplit key).trans hown) ((hlength key).trans hR.length_eq)).2

/-- If the attempts of the key of each item `i` are followed by `added i`, and no other key has new attempts, then the
new rows of that key are `added i`. -/
private theorem Store.Grows.rows_of_added {s s' : Store} (h : s.Grows s') {ι : Type} {items : List ι}
    {keyOf : ι → String} {added : Fin items.length → List Attempt}
    (hadded : ∀ i : Fin items.length, s'.attemptsOf (keyOf (items.get i)) =
      s.attemptsOf (keyOf (items.get i)) ++ added i)
    (hothers : ∀ key, key ∉ items.map keyOf → s'.attemptsOf key = s.attemptsOf key) :
    ∃ new, s'.rows = s.rows ++ new ∧
      (∀ i : Fin items.length, new.filter (·.key = keyOf (items.get i)) = added i) ∧
        ∀ r ∈ new, r.key ∈ items.map keyOf := by
  have hkept : ∀ key, ∃ extra, s'.attemptsOf key = s.attemptsOf key ++ extra := by
    intro key
    by_cases hkey : key ∈ items.map keyOf
    · obtain ⟨x, hx, rfl⟩ := List.mem_map.1 hkey
      obtain ⟨i, rfl⟩ := List.get_of_mem hx
      exact ⟨_, hadded i⟩
    · exact ⟨[], by rw [hothers key hkey, List.append_nil]⟩
  choose extra hextra using hkept
  obtain ⟨kept, new, hrows, heq, hnew⟩ := h.rows_by_payment fun key =>
    ⟨_, hextra key, List.forall₂_same.2 fun a _ => Eq.refl a⟩
  rw [List.forall₂_eq_eq_eq] at heq
  refine ⟨new, heq ▸ hrows, fun i => ?_, fun r hr => ?_⟩
  · exact (hnew _).trans (List.append_cancel_left ((hextra _).symm.trans (hadded i)))
  · by_contra hkey
    have hnone := List.append_right_eq_self.1 ((hextra r.key).symm.trans (hothers r.key hkey))
    have hmem : r ∈ new.filter (·.key = r.key) := List.mem_filter.2 ⟨hr, by simp⟩
    rw [hnew, hnone] at hmem
    cases hmem

private theorem length_eq_sum {keys : List String} (hkeys : keys.Nodup) {rows : List Attempt}
    (hrows : ∀ r ∈ rows, r.key ∈ keys) : rows.length = (keys.map fun key => rows.countP (·.key = key)).sum := by
  induction keys generalizing rows with
  | nil =>
    obtain rfl : rows = [] := List.eq_nil_iff_forall_not_mem.2 fun r hr => by simpa using hrows r hr
    rfl
  | cons key keys ih =>
    rw [List.nodup_cons] at hkeys
    have hrest : (rows.filter (·.key ≠ key)).length = _ := ih hkeys.2 fun r hr => by
      obtain ⟨hr, hne⟩ := List.mem_filter.1 hr
      exact (List.mem_cons.1 (hrows r hr)).resolve_left (by simpa using hne)
    have hsame : keys.map (fun k => (rows.filter (·.key ≠ key)).countP (·.key = k)) =
        keys.map fun k => rows.countP (·.key = k) := by
      refine List.map_congr_left fun k hk => ?_
      rw [List.countP_filter]
      refine List.countP_congr fun r _ => ?_
      have hne : k ≠ key := fun h => hkeys.1 (h ▸ hk)
      simp only [Bool.and_eq_true, decide_eq_true_eq]
      exact ⟨And.left, fun h => ⟨h, h.trans_ne hne⟩⟩
    rw [hsame] at hrest
    rw [List.map_cons, List.sum_cons, ← hrest, List.length_eq_countP_add_countP (·.key = key) (l := rows),
      ← List.countP_eq_length_filter]
    simp

private theorem count_ofFn_eq_length {ι : Type} {items : List ι} {keyOf : ι → String} (hkeys : (items.map keyOf).Nodup)
    {rows : List Attempt} (hrows : ∀ r ∈ rows, r.key ∈ items.map keyOf) {made : Fin items.length → Bool}
    (hmade : ∀ i : Fin items.length, (rows.filter (·.key = keyOf (items.get i))).length = if made i then 1 else 0) :
    (List.ofFn made).count true = rows.length := by
  have hcount : ∀ l : List Bool, l.count true = (l.map fun b => if b then 1 else 0).sum := by
    intro l
    induction l with
    | nil => rfl
    | cons b l ih => cases b <;> simp [ih, Nat.add_comm]
  rw [length_eq_sum hkeys hrows, hcount, List.map_ofFn, List.map_map]
  congr 1
  refine List.ext_getElem (by simp) fun i hi hi' => ?_
  have hlength := hmade ⟨i, by simpa using hi⟩
  rw [← List.countP_eq_length_filter] at hlength
  simpa using hlength.symm

/-- No payment is listed twice by `dueRetries`. -/
theorem Store.Coherent.nodup_due_keys {s : Store} (hc : s.Coherent) (hs : s.Sequenced) (asOf : DateTime)
    (limit : Option Int) : ((s.dueRetries asOf limit).map (·.attempt.key)).Nodup := by
  refine List.Nodup.map_on ?_ (List.Nodup.sublist (limited_isPrefix ..).sublist
    (List.Nodup.of_map _ (nodup_dueRetries hs.distinct asOf)))
  intro d hd d' hd' hkey
  have hd := mem_dueRetries_of_limit hd
  have hd' := mem_dueRetries_of_limit hd'
  have hlast := hc.last?_of_listed hs hd
  rw [hkey, hc.last?_of_listed hs hd', Option.some.injEq] at hlast
  exact List.inj_on_of_nodup_map (nodup_dueRetries hs.distinct asOf) hd hd' (by rw [hlast])

/-- An attempt listed by `dueRetries` is retried and the last of its payment. -/
theorem Store.Coherent.last_of_due {s : Store} (hc : s.Coherent) (hs : s.Sequenced) {asOf : DateTime}
    {limit : Option Int} {d : DueRetry} (h : d ∈ s.dueRetries asOf limit) :
    d.attempt.state = .retried ∧ ∃ prior, s.attemptsOf d.attempt.key = prior ++ [d.attempt] := by
  have hlisted := mem_dueRetries_of_limit h
  exact ⟨(mem_dueRetries_iff.1 hlisted).2.1, List.getLast?_eq_some_iff.1 (hc.last?_of_listed hs hlisted)⟩

/-- An attempt listed by `stalePending` is the last of its payment. -/
theorem Store.Sequenced.last_of_stale {s : Store} (hs : s.Sequenced) {olderThan : DateTime} {limit : Option Int}
    {a : Attempt} (h : a ∈ s.stalePending olderThan limit) : ∃ prior, s.attemptsOf a.key = prior ++ [a] := by
  obtain ⟨ha, hpending, -⟩ := mem_stalePending_of_limit h
  exact List.getLast?_eq_some_iff.1 (hs.last?_of_open ha (by simp [hpending]))

namespace Scheduler

/-! ### The rounds of a poll -/

section

variable {s : Scheduler} {S : Service}

/-- What taking up the attempts `stale` at the moment `t` makes of a row `a`: it is settled as a technical failure if
it is one of them, and stays as it is otherwise. -/
def Recovers (s : Scheduler) (S : Service) (t : DateTime) (stale : List Attempt) (a b : Attempt) : Prop :=
  (a ∈ stale → S.Settles s.policy (· = t) ⟨.pluginException, some leaseReason⟩ a b) ∧ (a ∉ stale → b = a)

theorem Recovers.becomes {t horizon : DateTime} {limit : Option Int} {first : Store} {a b : Attempt}
    (h : s.Recovers S t (first.stalePending horizon limit) a b) : a.Becomes b := by
  by_cases hstale : a ∈ first.stalePending horizon limit
  · exact (h.1 hstale).becomes (Store.mem_stalePending_of_limit hstale).2.1
  · rw [h.2 hstale]
    exact .refl a

private theorem recovers_of_settled {t : DateTime} {stale prior : List Attempt} {first : Store} {a b : Attempt}
    (hfirst : first.Sequenced) (hpending : ∀ a ∈ stale, a.state = .pending)
    (hlast : first.attemptsOf a.key = prior ++ [a]) (ha : a ∈ stale)
    (hb : S.Settles s.policy (· = t) ⟨.pluginException, some leaseReason⟩ a b) :
    List.Forall₂ (s.Recovers S t stale) (first.attemptsOf a.key) (prior ++ [b]) := by
  rw [hlast]
  refine List.rel_append (List.forall₂_same.2 fun c hc => ⟨fun hc' => ?_, fun _ => rfl⟩)
    (.cons ⟨fun _ => hb, fun hnot => absurd ha hnot⟩ .nil)
  -- the earlier attempts are not pending
  have hretried := hfirst.retried_of_prior hlast hc
  rw [hpending c hc'] at hretried
  cases hretried

private theorem recovers_of_untouched {t : DateTime} {stale : List Attempt} (first : Store) {key : String}
    (hkey : key ∉ stale.map (·.key)) :
    List.Forall₂ (s.Recovers S t stale) (first.attemptsOf key) (first.attemptsOf key) := by
  refine List.forall₂_same.2 fun c hc => ⟨fun hc' => ?_, fun _ => rfl⟩
  exact absurd (List.mem_map_of_mem hc') ((Store.mem_attemptsOf.1 hc).2 ▸ hkey)

private theorem serves_listStale {olderThan : DateTime} {limit : Option Int} (hlimit : Store.limitFits limit = true)
    {w w' : World} (hw : w.Still) {x : Except Failure (List Attempt)}
    (h : S.Serves (.listStale olderThan limit) w x w') :
    x = .ok (w.store.stalePending olderThan limit) ∧ w' = w := by
  cases h with
  | answered => simp only [World.answer, World.list_of_undisturbed hw.undisturbed, hlimit, if_true, and_self]
  | refused hsubject => cases hsubject

private theorem serves_listDue {asOf : DateTime} {limit : Option Int} (hlimit : Store.limitFits limit = true)
    {w w' : World} (hw : w.Still) {x : Except Failure (List DueRetry)} (h : S.Serves (.listDue asOf limit) w x w') :
    x = .ok (w.store.dueRetries asOf limit) ∧ w' = w := by
  cases h with
  | answered => simp only [World.answer, World.list_of_undisturbed hw.undisturbed, hlimit, if_true, and_self]
  | refused hsubject => cases hsubject

private theorem serves_now {w w' : World} (hw : w.Still) {t : DateTime} (h : S.Serves .now w t w') :
    t = w.now ∧ w' = w := by
  cases h with
  | answered => simp only [World.answer, World.readClock_of_still hw, and_self]
  | refused hsubject => cases hsubject

private theorem serves_count {clock : DateTime → Prop} {m : Metric} {w w' : World} (hw : w.Sane clock) {u : Unit}
    (h : S.Serves (.count m) w u w') : w'.Sane clock ∧ w'.store = w.store := by
  cases h with
  | answered => exact ⟨⟨⟨hw.undisturbed, hw.still⟩, hw.timely, hw.sequenced, hw.coherent⟩, rfl⟩
  | refused hsubject => cases hsubject

private theorem serves_log {clock : DateTime → Prop} {r : Log.Record} {w w' : World} (hw : w.Sane clock) {u : Unit}
    (h : S.Serves (.log r) w u w') : w'.Sane clock ∧ w'.store = w.store := by
  cases h with
  | answered => exact ⟨⟨⟨hw.undisturbed, hw.still⟩, hw.timely, hw.sequenced, hw.coherent⟩, rfl⟩
  | refused hsubject => cases hsubject

variable (hS : S.Steady) (hlimit : Store.limitFits s.batch = true)

include hS

private theorem concludePoll_alwaysEnds {clock : DateTime → Prop} {asOf : DateTime} {recovered due fired : Nat}
    {w : World} (hw : w.Sane clock) :
    (concludePoll asOf recovered due fired).AlwaysEnds S.Serves
      (fun x w' => x = .ok fired ∧ w'.Sane clock ∧ w'.store = w.store) w := by
  unfold concludePoll
  simp only [Program.bind_eq, Program.alwaysEnds_bind]
  refine Program.alwaysEnds_request.2 ⟨hS.exists_serves .., fun u w₁ hcounted => ?_⟩
  obtain ⟨hw₁, hstore⟩ := serves_count hw hcounted
  split
  · rw [Program.alwaysEnds_bind]
    refine Program.alwaysEnds_request.2 ⟨hS.exists_serves .., fun u w₂ hlogged => ?_⟩
    obtain ⟨hw₂, hstore'⟩ := serves_log hw₁ hlogged
    exact ⟨rfl, hw₂, hstore'.trans hstore⟩
  · exact ⟨rfl, hw₁, hstore⟩

include hlimit

theorem recoverStale_alwaysEnds {asOf horizon : DateTime} (hhorizon : asOf.sub s.lease = .ok horizon) {w : World}
    (hw : w.Sane (· = w.now)) :
    (s.recoverStale asOf).AlwaysEnds S.Serves (fun x w' =>
      x = .ok (w.store.stalePending horizon s.batch).length ∧ w'.Sane (· = w.now) ∧
        List.Forall₂ (s.Recovers S w.now (w.store.stalePending horizon s.batch)) w.store.rows w'.store.rows) w := by
  simp only [recoverStale, hhorizon, Task.bind_eq]
  refine Task.AlwaysEnds.bind
    (Task.alwaysEnds_lift (Program.alwaysEnds_request.2 ⟨hS.exists_serves .., fun x w' hx => ?_⟩))
  obtain ⟨rfl, rfl⟩ := serves_listStale hlimit hw.toStill hx
  have hlast : ∀ a ∈ w'.store.stalePending horizon s.batch, ∃ prior, w'.store.attemptsOf a.key = prior ++ [a] :=
    fun a => hw.sequenced.last_of_stale
  have hpending : ∀ a ∈ w'.store.stalePending horizon s.batch, a.state = .pending :=
    fun a ha => (Store.mem_stalePending_of_limit ha).2.1
  have hkeys := hw.sequenced.nodup_stale_keys horizon s.batch
  dsimp only
  generalize w'.store.stalePending horizon s.batch = stale at hlast hpending hkeys ⊢
  refine Service.alwaysEnds_each hS hkeys (fun i x rows => x = .ok () ∧ ∃ prior b,
    w'.store.attemptsOf (stale.get i).key = prior ++ [stale.get i] ∧ rows = prior ++ [b] ∧
      S.Settles s.policy (· = w'.now) ⟨.pluginException, some leaseReason⟩ (stale.get i) b) hw (fun i => ?_) ?_
  · obtain ⟨prior, hprior⟩ := hlast _ (List.get_mem stale i)
    rw [hprior]
    refine Program.Ensures.mono (fun x rows hx => ?_)
      (recover_ensures (hpending _ (List.get_mem stale i)) ⟨w'.now, rfl⟩)
    obtain ⟨rfl, b, hrows, hsettled⟩ := hx
    exact ⟨rfl, prior, b, rfl, hrows, hsettled⟩
  · intro bs w₁ hw₁ hgrows hends hothers
    rw [collect_ofFn_ok fun i => (hends i).1]
    refine Task.alwaysEnds_done.2 ⟨rfl, hw₁, ?_⟩
    have hpayments : ∀ key, ∃ kept, w₁.store.attemptsOf key = kept ++ [] ∧
        List.Forall₂ (s.Recovers S w'.now stale) (w'.store.attemptsOf key) kept := by
      intro key
      by_cases hkey : key ∈ stale.map (·.key)
      · obtain ⟨a, ha, rfl⟩ := List.mem_map.1 hkey
        obtain ⟨i, rfl⟩ := List.get_of_mem ha
        obtain ⟨-, prior, b, hprior, hrows, hsettled⟩ := hends i
        exact ⟨prior ++ [b], by simpa using hrows,
          recovers_of_settled hw.sequenced hpending hprior ha hsettled⟩
      · exact ⟨_, by rw [hothers key hkey, List.append_nil], recovers_of_untouched _ hkey⟩
    obtain ⟨kept, added, hrows, hkept, hadded⟩ := hgrows.rows_by_payment hpayments
    have hnil : added = [] := List.eq_nil_iff_forall_not_mem.2 fun a ha => by
      have hmem : a ∈ added.filter (·.key = a.key) := List.mem_filter.2 ⟨ha, by simp⟩
      simp [hadded] at hmem
    rw [hrows, hnil, List.append_nil]
    exact hkept

theorem fireDue_alwaysEnds {asOf : DateTime} {clock : DateTime → Prop} (hmoments : ∀ t, S.moments t → clock t)
    {w : World} (hw : w.Sane clock) :
    (s.fireDue asOf).AlwaysEnds S.Serves (fun x w' => ∃ added,
      x = .ok ((w.store.dueRetries asOf s.batch).length, added.length) ∧ w'.Sane clock ∧
        w'.store.rows = w.store.rows ++ added ∧
        (∀ d ∈ w.store.dueRetries asOf s.batch,
          ∃ made, s.Retries S clock d.attempt made (added.filter (·.key = d.attempt.key))) ∧
        ∀ r ∈ added, ∃ d ∈ w.store.dueRetries asOf s.batch, r.key = d.attempt.key) w := by
  simp only [fireDue, Task.bind_eq]
  refine Task.AlwaysEnds.bind
    (Task.alwaysEnds_lift (Program.alwaysEnds_request.2 ⟨hS.exists_serves .., fun x w' hx => ?_⟩))
  obtain ⟨rfl, rfl⟩ := serves_listDue hlimit hw.toStill hx
  have hlast : ∀ d ∈ w'.store.dueRetries asOf s.batch, d.attempt.state = .retried ∧
      ∃ prior, w'.store.attemptsOf d.attempt.key = prior ++ [d.attempt] := fun d => hw.coherent.last_of_due hw.sequenced
  have hkeys := hw.coherent.nodup_due_keys hw.sequenced asOf s.batch
  dsimp only
  generalize w'.store.dueRetries asOf s.batch = due at hlast hkeys ⊢
  refine Service.alwaysEnds_each hS hkeys (fun i x rows => ∃ made added, x = .ok made ∧
    rows = w'.store.attemptsOf (due.get i).attempt.key ++ added ∧ s.Retries S clock (due.get i).attempt made added) hw
    (fun i => ?_) ?_
  · obtain ⟨hretried, prior, hprior⟩ := hlast _ (List.get_mem due i)
    rw [hprior]
    exact fire_ensures hmoments hS ⟨_, hw.timely⟩ hretried
  · intro bs w₁ hw₁ hgrows hends hothers
    choose made added hbs hrows hretries using hends
    rw [collect_ofFn_ok hbs]
    obtain ⟨new, hstored, hown, hamong⟩ := hgrows.rows_of_added hrows hothers
    refine Task.alwaysEnds_done.2 ⟨new, ?_, hw₁, hstored, ?_, ?_⟩
    · rw [count_ofFn_eq_length hkeys hamong fun i => (hown i) ▸ (hretries i).length_eq]
    · intro d hd
      obtain ⟨i, rfl⟩ := List.get_of_mem hd
      refine ⟨made i, ?_⟩
      rw [hown]
      exact hretries i
    · intro r hr
      obtain ⟨d, hd, hkey⟩ := List.mem_map.1 (hamong r hr)
      exact ⟨d, hd, hkey.symm⟩

end

/-! ### The whole poll -/

/-- The effect of a poll on the store: `between` is `first` with the attempts settled that were pending at `horizon` or
before, and `last` is `between` with the attempts `added`, retries of what is due in `between`. -/
structure Polled (s : Scheduler) (S : Service) (clock : DateTime → Prop) (now asOf horizon : DateTime)
    (first between last : Store) (added : List Attempt) : Prop where
  recovered : List.Forall₂ (s.Recovers S now (first.stalePending horizon s.batch)) first.rows between.rows
  sequenced : between.Sequenced
  coherent : between.Coherent
  rows_eq : last.rows = between.rows ++ added
  retried : ∀ d ∈ between.dueRetries asOf s.batch,
    ∃ made, s.Retries S clock d.attempt made (added.filter (·.key = d.attempt.key))
  among : ∀ r ∈ added, ∃ d ∈ between.dueRetries asOf s.batch, r.key = d.attempt.key

section

variable {s : Scheduler} {S : Service} {clock : DateTime → Prop} {now asOf horizon : DateTime}
  {first between last : Store} {added : List Attempt} (h : s.Polled S clock now asOf horizon first between last added)

include h

/-- Up to the retries, rows are only completed. -/
theorem Polled.becomes : List.Forall₂ Attempt.Becomes first.rows between.rows :=
  h.recovered.imp fun _ _ => Recovers.becomes

theorem Polled.exists_recovers {b : Attempt} (hb : b ∈ between.rows) :
    ∃ a ∈ first.rows, s.Recovers S now (first.stalePending horizon s.batch) a b := by
  have hold : List.Forall₂ (fun b a => a ∈ first.rows ∧ s.Recovers S now (first.stalePending horizon s.batch) a b)
      between.rows first.rows :=
    ((List.forall₂_and_left ..).2 ⟨fun a ha => ha, h.recovered⟩).flip
  obtain ⟨i, rfl⟩ := List.get_of_mem hb
  exact ⟨_, hold.get i.2 (hold.length_eq ▸ i.2)⟩

theorem Polled.exists_old {b : Attempt} (hb : b ∈ between.rows) : ∃ a ∈ first.rows, a.Becomes b := by
  obtain ⟨a, ha, hrecovers⟩ := h.exists_recovers hb
  exact ⟨a, ha, hrecovers.becomes⟩

end

section

variable {s : Scheduler} {S : Service} (hS : S.Steady) (hlimit : Store.limitFits s.batch = true)
  {clock : DateTime → Prop} (hmoments : ∀ t, S.moments t → clock t)

include hS hlimit hmoments

private theorem pollAt_alwaysEnds {asOf horizon : DateTime} (hhorizon : asOf.sub s.lease = .ok horizon) {w : World}
    (hw : w.Sane clock) :
    (s.pollAt asOf).AlwaysEnds S.Serves (fun x w' => ∃ between added, x = .ok added.length ∧ w'.Sane clock ∧
      s.Polled S clock w.now asOf horizon w.store between w'.store added) w := by
  simp only [pollAt, Task.bind_eq]
  refine Task.AlwaysEnds.bind ((recoverStale_alwaysEnds hS hlimit hhorizon (hw.mono rfl)).mono fun x w₁ hx => ?_)
  obtain ⟨rfl, hw₁, hrecovered⟩ := hx
  have htimely : clock w₁.now := by
    rw [hw₁.timely]
    exact hw.timely
  refine Task.AlwaysEnds.bind ((fireDue_alwaysEnds hS hlimit hmoments (hw₁.mono htimely)).mono fun x w₂ hx => ?_)
  obtain ⟨added, rfl, hw₂, hrows, hretried, hamong⟩ := hx
  refine Task.alwaysEnds_lift ((concludePoll_alwaysEnds hS hw₂).mono fun x w₃ hx => ?_)
  obtain ⟨rfl, hw₃, hstore⟩ := hx
  exact ⟨_, added, rfl, hw₃, hrecovered, hw₁.sequenced, hw₁.coherent, hstore ▸ hrows, hretried, hamong⟩

/-- In whatever order its programs take turns, whatever the gateway answers and the store refuses, a poll ends with the
number of the attempts it has added, and its effect is `Polled`. -/
theorem polling_alwaysEnds (asOf : Option DateTime) {w : World} {horizon : DateTime}
    (hhorizon : (asOf.getD w.now).sub s.lease = .ok horizon) (hw : w.Sane clock) :
    (s.polling asOf).AlwaysEnds S.Serves (fun x w' => ∃ between added, x = .ok added.length ∧ w'.Sane clock ∧
      s.Polled S clock w.now (asOf.getD w.now) horizon w.store between w'.store added) w := by
  cases asOf with
  | some t => exact pollAt_alwaysEnds hS hlimit hmoments hhorizon hw
  | none =>
    simp only [polling, Task.bind_eq]
    refine Task.AlwaysEnds.bind
      (Task.alwaysEnds_lift (Program.alwaysEnds_request.2 ⟨hS.exists_serves .., fun t w' ht => ?_⟩))
    obtain ⟨rfl, rfl⟩ := serves_now hw.toStill ht
    exact pollAt_alwaysEnds hS hlimit hmoments hhorizon hw

end

end Scheduler

end PaymentRetry
