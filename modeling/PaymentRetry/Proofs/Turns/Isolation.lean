import PaymentRetry.Proofs.Turns.Single
import PaymentRetry.Proofs.Workers.Joining

/-!
# Failures that stay with their payment

If the store fails in calls for some payments, a poll still ends with the number of the attempts it has made, and all
other payments are left as a poll without failures leaves them (`Reachable.isolated`).  This compares two runs of one
poll.  Both find the same attempts due: an attempt that a poll takes up first is to be retried later than now, so
whether it could be completed does not matter for what comes after it (`Scheduler.Polled.dueRetries_eq`).
-/

namespace PaymentRetry

open Simulation

/-! ### What is due does not change while attempts are taken up -/

namespace Store

variable {s s' : Store} {asOf : DateTime} {limit : Option Int}

theorem dueRetry?_eq_none {a : Attempt} (h : a.state = .retried → ∀ due, a.dueAt = some due → asOf < due) :
    s.dueRetry? asOf a = none := by
  unfold dueRetry?
  split
  · rename_i due hdue
    refine if_neg fun hasked => ?_
    simp only [Bool.and_eq_true, decide_eq_true_eq] at hasked
    have hlt := h hasked.1.1 due hdue
    have hle : due.micros ≤ asOf.micros := hasked.1.2
    have hlt : asOf.micros < due.micros := hlt
    omega
  · rfl

/-- Completing rows does not change which attempts have a later one. -/
theorem hasLater_eq_of_becomes (h : List.Forall₂ Attempt.Becomes s.rows s'.rows) {a b : Attempt} (hab : a.Becomes b) :
    s'.hasLater b = s.hasLater a := by
  unfold hasLater
  rw [hab.payment_eq, hab.number_eq]
  generalize s.rows = rows, s'.rows = rows' at h
  induction h with
  | nil => rfl
  | cons hcd _ ih => rw [List.any_cons, List.any_cons, ih, hcd.payment_eq, hcd.number_eq]

end Store

namespace Scheduler

variable {s : Scheduler} {S : Service} {clock : DateTime → Prop} {now asOf horizon : DateTime}
  {first between last : Store} {added : List Attempt}

/-- Every delay after a technical failure is positive. -/
def Defers (s : Scheduler) : Prop := ∀ index delay, s.policy.delay .plugin index = .ok (some delay) → 0 < delay.micros

theorem defers_of_pos (hdelay : 0 < s.policy.pluginDelay.micros) : s.Defers := by
  intro index delay h
  obtain ⟨-, -, rfl⟩ := RetryPolicy.delay_eq_some h
  exact hdelay

/-- With `Defers`, an attempt that the poll takes up is not due again at `asOf`. -/
theorem Recovers.dueRetry?_eq (hdelay : s.Defers) (hasOf : asOf ≤ now) (hfirst : first.Sequenced)
    (hrows : List.Forall₂ Attempt.Becomes first.rows between.rows) {a b : Attempt} (ha : a ∈ first.rows)
    (h : s.Recovers S now (first.stalePending horizon s.batch) a b) :
    between.dueRetry? asOf b = first.dueRetry? asOf a := by
  by_cases hstale : a ∈ first.stalePending horizon s.batch
  · have hpending := (Store.mem_stalePending_of_limit hstale).2.1
    have hsame : b = a → between.dueRetry? asOf b = none := by
      rintro rfl
      exact Store.dueRetry?_eq_none (by simp [hpending])
    rw [Store.dueRetry?_eq_none (a := a) (by simp [hpending])]
    rcases (h.1 hstale).eq_settle with hb | ⟨-, hb⟩
    · have hnumber := (Store.mem_numbersTo.1 (hfirst.number_mem ha)).1
      rcases s.policy.lapses_or_leavesPending now hnumber with hlapses | hleaves
      · rw [← hb, RetryPolicy.Lapses] at hlapses
        refine Store.dueRetry?_eq_none fun hretried due hdue => ?_
        split at hlapses
        · rename_i hmaximum
          obtain ⟨due', hadd, rfl⟩ := hlapses
          obtain rfl : due' = due := Option.some.inj hdue
          have hpos := hdelay _ _ ((RetryPolicy.delay_plugin hnumber).trans (by rw [if_pos hmaximum]))
          have hmicros := DateTime.micros_of_add hadd
          have hle : asOf.micros ≤ now.micros := hasOf
          show asOf.micros < due'.micros
          omega
        · rw [hlapses] at hretried
          cases hretried
      · exact hsame (hb.trans (RetryPolicy.settle_of_leavesPending hleaves))
    · exact hsame hb
  · rw [h.2 hstale]
    unfold Store.dueRetry?
    rw [Store.hasLater_eq_of_becomes hrows (.refl a)]

/-- With `Defers`, taking up stale attempts does not change what is due. -/
theorem Polled.dueRetries_eq (h : s.Polled S clock now asOf horizon first between last added)
    (hdelay : s.Defers) (hasOf : asOf ≤ now) (hfirst : first.Sequenced) (limit : Option Int) :
    between.dueRetries asOf limit = first.dueRetries asOf limit := by
  have hsame : List.Forall₂ (fun a b => between.dueRetry? asOf b = first.dueRetry? asOf a) first.rows between.rows :=
    ((List.forall₂_and_left ..).2 ⟨fun a ha => ha, h.recovered⟩).imp fun a b hab =>
      hab.2.dueRetry?_eq hdelay hasOf hfirst h.becomes hab.1
  have hlisted : List.Forall₂ Eq (first.rows.filterMap (first.dueRetry? asOf))
      (between.rows.filterMap (between.dueRetry? asOf)) := by
    refine List.rel_filterMap (fun a b hab => ?_) hsame
    rw [hab]
    cases first.dueRetry? asOf a with
    | none => exact .none
    | some d => exact .some rfl
  rw [List.forall₂_eq_eq_eq] at hlisted
  rw [Store.dueRetries, Store.dueRetries, hlisted]

/-! ### One payment after a poll -/

/-- What a retry of `a` adds if the clock stands at `now` and the gateway, without a circuit breaker, answers by `g`. -/
theorem Retries.cases_of_still {a : Attempt} {made : Bool} (h : s.Retries S (· = now) a made added)
    {g : Charge → Except Failure GatewayResult} (hanswers : ∀ c x, S.answers c x → x = g c)
    (hguarded : s.guarded = false) :
    (added = [] ∧ (Store.fits (a.number + 1) = false ∨ S.disturbed a.key ∨ S.barred a.key)) ∨
      Store.fits (a.number + 1) = true ∧ ∃ id, added = [s.retried g now id a] ∨
        S.disturbed a.key ∧ added = [a.retryAt now id] := by
  cases h with
  | unmade hmay => exact .inl ⟨rfl, hmay⟩
  | @made t id y b hfits _ ht hy hsettles =>
    subst ht
    have hheard : y = g a.charge := by
      rcases hy with hy | ⟨hguarded', -⟩
      · exact hanswers _ _ hy
      · rw [hguarded] at hguarded'
        cases hguarded'
    subst hheard
    refine .inr ⟨hfits, id, ?_⟩
    rcases hsettles.eq_settle with rfl | ⟨hdisturbed, rfl⟩
    · exact .inl rfl
    · exact .inr ⟨hdisturbed, rfl⟩

/-- The attempts of `key` after a poll: those in `first`, related by `Recovers`, and then those in `added`. -/
theorem Polled.attemptsOf_eq (h : s.Polled S clock now asOf horizon first between last added) (key : String) :
    last.attemptsOf key = between.attemptsOf key ++ added.filter (·.key = key) ∧
      List.Forall₂ (s.Recovers S now (first.stalePending horizon s.batch)) (first.attemptsOf key)
        (between.attemptsOf key) := by
  refine ⟨Store.attemptsOf_append h.rows_eq key, List.rel_filter (fun a b hab => ?_) h.recovered⟩
  simp only [hab.becomes.key_eq]

theorem Polled.filter_added_eq_nil (h : s.Polled S clock now asOf horizon first between last added) {key : String}
    (hkey : ∀ d ∈ between.dueRetries asOf s.batch, d.attempt.key ≠ key) : added.filter (·.key = key) = [] := by
  refine List.filter_eq_nil_iff.2 fun r hr hrkey => ?_
  obtain ⟨d, hd, hdkey⟩ := h.among r hr
  exact hkey d hd (hdkey.symm.trans (of_decide_eq_true hrkey))

section

variable {key : String} {prior rows : List Attempt}

private theorem rows_of_stale (hfirst : first.Sequenced) {a : Attempt}
    (ha : a ∈ first.stalePending horizon s.batch) (hprior : first.attemptsOf key = prior ++ [a])
    (h : List.Forall₂ (s.Recovers S now (first.stalePending horizon s.batch)) (prior ++ [a]) rows) :
    rows = prior ++ [s.policy.settle ⟨.pluginException, some leaseReason⟩ now a] ∨ rows = prior ++ [a] := by
  rw [← List.forall₂_reverse_iff, List.reverse_append, List.reverse_singleton, List.singleton_append,
    List.forall₂_cons_left_iff] at h
  obtain ⟨b, earlier, hb, hearlier, hrows⟩ := h
  obtain rfl : prior.reverse = earlier := by
    rw [← List.forall₂_eq_eq_eq]
    refine ((List.forall₂_and_left ..).2 ⟨fun c hc => hc, hearlier⟩).imp fun c c' hc => (hc.2.2 fun hc' => ?_).symm
    have hretried := hfirst.retried_of_prior hprior (List.mem_reverse.1 hc.1)
    rw [(Store.mem_stalePending_of_limit hc').2.1] at hretried
    cases hretried
  rw [← List.reverse_reverse rows, hrows, List.reverse_cons, List.reverse_reverse]
  exact (hb.1 ha).eq_settle.imp (fun hb => by rw [hb]) fun hb => by rw [hb.2]

private theorem rows_of_untouched {stale : List Attempt} (hstale : ∀ a ∈ stale, a.key ≠ key)
    (h : List.Forall₂ (s.Recovers S now stale) (first.attemptsOf key) rows) : rows = first.attemptsOf key := by
  rw [eq_comm, ← List.forall₂_eq_eq_eq]
  refine ((List.forall₂_and_left ..).2 ⟨fun a ha => ha, h⟩).imp fun a b hab => (hab.2.2 fun ha => ?_).symm
  exact hstale a ha (Store.mem_attemptsOf.1 hab.1).2

end

/-- `s.Leaves g now rows rows'`: what a poll with failing store calls may make of the attempts `rows` of one payment.
It leaves them, or completes the last one because its lease has expired, or retries the last one, and completes the
retry or not. -/
inductive Leaves (s : Scheduler) (g : Charge → Except Failure GatewayResult) (now : DateTime) :
    List Attempt → List Attempt → Prop
  | untouched {rows : List Attempt} : Leaves s g now rows rows
  | recovered {prior : List Attempt} {a : Attempt} : a.state = .pending → Leaves s g now (prior ++ [a])
      (prior ++ [s.policy.settle ⟨.pluginException, some leaseReason⟩ now a])
  | made {prior : List Attempt} {a : Attempt} {id : AttemptId} : a.state = .retried →
      Leaves s g now (prior ++ [a]) (prior ++ [a, a.retryAt now id])
  | carriedOut {prior : List Attempt} {a : Attempt} {id : AttemptId} : a.state = .retried →
      Leaves s g now (prior ++ [a]) (prior ++ [a, s.retried g now id a])

section

variable (h : s.Polled S (· = now) now asOf horizon first between last added) (hfirst : first.Sequenced)
  (hcoherent : first.Coherent) (hdelay : s.Defers) (hasOf : asOf ≤ now)
  (hguarded : s.guarded = false) {g : Charge → Except Failure GatewayResult} (hanswers : ∀ c x, S.answers c x → x = g c)

include h hfirst hcoherent hdelay hasOf hguarded hanswers

/-- Whatever store calls fail, a poll makes one of the four changes `Leaves` of each payment. -/
theorem Polled.leaves (key : String) : s.Leaves g now (first.attemptsOf key) (last.attemptsOf key) := by
  obtain ⟨hlast, hrecovers⟩ := h.attemptsOf_eq key
  rw [hlast]
  have hdue := h.dueRetries_eq hdelay hasOf hfirst s.batch
  have hlisted : ∀ d ∈ between.dueRetries asOf s.batch, d.attempt.state = .retried ∧
      ∃ prior, first.attemptsOf d.attempt.key = prior ++ [d.attempt] :=
    fun d hd => hcoherent.last_of_due hfirst (hdue ▸ hd)
  by_cases hstale : ∃ a ∈ first.stalePending horizon s.batch, a.key = key
  · -- the last attempt has been taken up, and no other has been made
    obtain ⟨a, ha, rfl⟩ := hstale
    have hpending := (Store.mem_stalePending_of_limit ha).2.1
    obtain ⟨prior, hprior⟩ := hfirst.last_of_stale ha
    have hnone : added.filter (·.key = a.key) = [] := by
      refine h.filter_added_eq_nil fun d hd hkey => ?_
      obtain ⟨hretried, prior', hprior'⟩ := hlisted d hd
      rw [hkey, hprior] at hprior'
      obtain ⟨-, hsame⟩ := List.append_inj' hprior' rfl
      rw [← List.singleton_inj.1 hsame, hpending] at hretried
      cases hretried
    rw [hprior] at hrecovers ⊢
    rw [hnone, List.append_nil]
    rcases rows_of_stale hfirst ha hprior hrecovers with hrows | hrows
    · rw [hrows]
      exact .recovered hpending
    · rw [hrows]
      exact .untouched
  · rw [rows_of_untouched (fun a ha hkey => hstale ⟨a, ha, hkey⟩) hrecovers]
    by_cases hlists : ∃ d ∈ between.dueRetries asOf s.batch, d.attempt.key = key
    · obtain ⟨d, hd, rfl⟩ := hlists
      obtain ⟨made, hretries⟩ := h.retried d hd
      obtain ⟨hretried, prior, hprior⟩ := hlisted d hd
      rw [hprior]
      rcases hretries.cases_of_still hanswers hguarded with ⟨hnone, -⟩ | ⟨-, id, hone | ⟨-, hone⟩⟩
      · rw [hnone, List.append_nil]
        exact .untouched
      · rw [hone, List.append_assoc]
        exact .carriedOut hretried
      · rw [hone, List.append_assoc]
        exact .made hretried
    · rw [h.filter_added_eq_nil fun d hd hkey => hlists ⟨d, hd, hkey⟩, List.append_nil]
      exact .untouched

end

theorem Polled.map_anonymiseNew (h : s.Polled S clock now asOf horizon first between last added) (hlast : last.Distinct)
    (key : String) : (last.attemptsOf key).map first.anonymiseNew =
      between.attemptsOf key ++ (added.filter (·.key = key)).map Attempt.anonymous := by
  rw [(h.attemptsOf_eq key).1, List.map_append]
  congr 1
  · refine (List.map_congr_left fun b hb => ?_).trans (List.map_id _)
    obtain ⟨a, ha, hbecomes⟩ := h.exists_old (Store.mem_attemptsOf.1 hb).1
    exact Store.anonymiseNew_of_mem ha hbecomes.id_eq
  · refine List.map_congr_left fun r hr => Store.anonymiseNew_of_fresh fun a ha hid => ?_
    have hgrows : first.Grows between := ⟨between.rows, [], (List.append_nil _).symm, h.becomes⟩
    obtain ⟨b, hb, hbecomes⟩ := hgrows.exists_becomes ha
    unfold Store.Distinct at hlast
    rw [h.rows_eq, List.map_append, List.nodup_append] at hlast
    exact hlast.2.2 _ (List.mem_map_of_mem hb) _ (List.mem_map_of_mem (List.mem_filter.1 hr).1)
      (hbecomes.id_eq.trans hid)

section

variable {S₁ S₂ : Service} {between₁ between₂ last₁ last₂ : Store} {added₁ added₂ : List Attempt}
  (h₁ : s.Polled S₁ (· = now) now asOf horizon first between₁ last₁ added₁)
  (h₂ : s.Polled S₂ (· = now) now asOf horizon first between₂ last₂ added₂) {key : String}
  (hfree₁ : ¬S₁.disturbed key ∧ ¬S₁.barred key) (hfree₂ : ¬S₂.disturbed key ∧ ¬S₂.barred key)

include h₁ h₂ hfree₁ hfree₂

/-- Two polls of `first` take up the same attempts of an undisturbed `key`, with the same result. -/
private theorem between_unique : between₁.attemptsOf key = between₂.attemptsOf key := by
  have hrecovers : ∀ {S : Service} {between last : Store} {added : List Attempt},
      s.Polled S (· = now) now asOf horizon first between last added → ¬S.disturbed key →
      List.Forall₂ (fun a b =>
        (a ∈ first.stalePending horizon s.batch → b = s.policy.settle ⟨.pluginException, some leaseReason⟩ now a) ∧
          (a ∉ first.stalePending horizon s.batch → b = a)) (first.attemptsOf key) (between.attemptsOf key) := by
    intro S between last added h hfree
    refine ((List.forall₂_and_left ..).2 ⟨fun a ha => ha, (h.attemptsOf_eq key).2⟩).imp fun a b hab => ?_
    refine ⟨fun hstale => (hab.2.1 hstale).eq_settle.resolve_right fun hdisturbed => hfree ?_, hab.2.2⟩
    exact (Store.mem_attemptsOf.1 hab.1).2 ▸ hdisturbed.1
  refine List.right_unique_forall₂' (fun a b c hb hc => ?_) (hrecovers h₁ hfree₁.1) (hrecovers h₂ hfree₂.1)
  by_cases hstale : a ∈ first.stalePending horizon s.batch
  · exact (hb.1 hstale).trans (hc.1 hstale).symm
  · exact (hb.2 hstale).trans (hc.2 hstale).symm

variable (hfirst : first.Sequenced) (hdelay : s.Defers) (hasOf : asOf ≤ now)
  (hguarded : s.guarded = false) {g : Charge → Except Failure GatewayResult}
  (hanswers₁ : ∀ c x, S₁.answers c x → x = g c) (hanswers₂ : ∀ c x, S₂.answers c x → x = g c)

include hfirst hdelay hasOf hguarded hanswers₁ hanswers₂

/-- Two polls of `first` add the same attempts of an undisturbed `key`, up to their identities. -/
private theorem added_unique : (added₁.filter (·.key = key)).map Attempt.anonymous =
    (added₂.filter (·.key = key)).map Attempt.anonymous := by
  have hdue₁ := h₁.dueRetries_eq hdelay hasOf hfirst s.batch
  have hdue₂ := h₂.dueRetries_eq hdelay hasOf hfirst s.batch
  by_cases hlists : ∃ d ∈ first.dueRetries asOf s.batch, d.attempt.key = key
  · obtain ⟨d, hd, rfl⟩ := hlists
    obtain ⟨made₁, hretries₁⟩ := h₁.retried d (hdue₁ ▸ hd)
    obtain ⟨made₂, hretries₂⟩ := h₂.retried d (hdue₂ ▸ hd)
    have hcases : ∀ {S : Service} {made : Bool} {added : List Attempt}, s.Retries S (· = now) d.attempt made added →
        (∀ c x, S.answers c x → x = g c) → ¬S.disturbed d.attempt.key ∧ ¬S.barred d.attempt.key →
        added.map Attempt.anonymous =
          if Store.fits (d.attempt.number + 1) then [s.retried g now (.named "") d.attempt] else [] := by
      intro S made added hretries hanswers hfree
      rcases hretries.cases_of_still hanswers hguarded with ⟨rfl, hwide | hdisturbed | hbarred⟩ | ⟨hfits, id, hmade⟩
      · rw [if_neg (by simp [hwide])]
        rfl
      · exact absurd hdisturbed hfree.1
      · exact absurd hbarred hfree.2
      · rw [if_pos hfits, hmade.resolve_right fun hdisturbed => hfree.1 hdisturbed.1, List.map_singleton,
          s.retried_anonymous]
    rw [hcases hretries₁ hanswers₁ hfree₁, hcases hretries₂ hanswers₂ hfree₂]
  · rw [h₁.filter_added_eq_nil fun d hd hkey => hlists ⟨d, hdue₁ ▸ hd, hkey⟩,
      h₂.filter_added_eq_nil fun d hd hkey => hlists ⟨d, hdue₂ ▸ hd, hkey⟩]

/-- Two polls of `first` leave the same attempts of an undisturbed `key`, up to identities. -/
theorem Polled.anonymised_unique (hlast₁ : last₁.Distinct) (hlast₂ : last₂.Distinct) :
    (last₁.attemptsOf key).map first.anonymiseNew = (last₂.attemptsOf key).map first.anonymiseNew := by
  rw [h₁.map_anonymiseNew hlast₁, h₂.map_anonymiseNew hlast₂, between_unique h₁ h₂ hfree₁ hfree₂,
    added_unique h₁ h₂ hfree₁ hfree₂ hfirst hdelay hasOf hguarded hanswers₁ hanswers₂]

end

end Scheduler

/-- Isolation of payments in a poll.  Any store call for a payment in `failing` may fail, the clock stands still
(`hstill`), the gateway answers by the function `g`, and delays after technical failures are positive (`hdelay`).  The
poll ends with the number `n` of the attempts it has added.  A payment outside `failing` has the attempts that a poll
without failures leaves, up to the identities of new ones, and every payment has one of the results `Leaves`. -/
theorem Reachable.isolated {w : World} {σ : System} (hw : w.Unused) (h : Reachable w σ) (hstill : σ.world.Still)
    (s : Scheduler) (asOf : Option DateTime) {horizon : DateTime} {g : Charge → Except Failure GatewayResult}
    (hcarriesOn : ∀ c e, g c = .error e → e.isCancellation = false) (hguarded : s.guarded = false)
    (hdelay : 0 < s.policy.pluginDelay.micros) (hlimit : Store.limitFits s.batch = true)
    (hasOf : asOf.getD σ.world.now ≤ σ.world.now) (hhorizon : (asOf.getD σ.world.now).sub s.lease = .ok horizon)
    (failing : String → Prop) :
    (s.polling asOf).AlwaysEnds (Service.Serves { answers := fun c x => x = g c, disturbed := failing })
      (fun x w₁ => (s.polling asOf).AlwaysEnds (Service.Serves { answers := fun c x => x = g c })
        (fun _ w₂ => ∃ n, x = .ok n ∧ w₁.store.rows.length = σ.world.store.rows.length + n ∧
          (∀ key, ¬failing key → (w₁.store.attemptsOf key).map σ.world.store.anonymiseNew =
            (w₂.store.attemptsOf key).map σ.world.store.anonymiseNew) ∧
          ∀ key, s.Leaves g σ.world.now (σ.world.store.attemptsOf key) (w₁.store.attemptsOf key))
        σ.world)
      σ.world := by
  have hsane : σ.world.Sane (· = σ.world.now) := h.sane hw hstill rfl
  have hpoll := fun disturbed : String → Prop =>
    Scheduler.polling_alwaysEnds (S := { answers := fun c x => x = g c, disturbed := disturbed })
      ⟨fun c => ⟨_, rfl⟩, fun c e he => hcarriesOn c e (Eq.symm he)⟩ hlimit (by rintro t ⟨⟩) asOf hhorizon hsane
  refine (hpoll failing).mono fun x w₁ hx => (hpoll fun _ => False).mono fun y w₂ hy => ?_
  obtain ⟨between₁, added₁, rfl, hw₁, hpolled₁⟩ := hx
  obtain ⟨between₂, added₂, -, hw₂, hpolled₂⟩ := hy
  refine ⟨added₁.length, rfl, ?_, fun key hkey => ?_, ?_⟩
  · rw [hpolled₁.rows_eq, List.length_append, hpolled₁.becomes.length_eq]
  · exact hpolled₁.anonymised_unique hpolled₂ ⟨hkey, id⟩ ⟨id, id⟩ hsane.sequenced (Scheduler.defers_of_pos hdelay) hasOf
      hguarded (fun _ _ => id) (fun _ _ => id) hw₁.sequenced.distinct hw₂.sequenced.distinct
  · exact hpolled₁.leaves hsane.sequenced hsane.coherent (Scheduler.defers_of_pos hdelay) hasOf hguarded fun _ _ => id

/-! ### Two payments that wait -/

namespace Sample

/-- A scheduler that retries a payment once, a day after its first failure of either kind. -/
def daily : Scheduler := { policy := ⟨[1], 1, ⟨Duration.day⟩⟩ }

def dayAfter : DateTime := ⟨25 * 3600 * Duration.second, by decide⟩

def dayEarlier : DateTime := ⟨24 * 3600 * Duration.second, by decide⟩

/-- The world after a submission under `key` that the gateway declines. -/
def submitting (key : String) (w : World) : World :=
  ((daily.task (.submit { submission with key := some key })).sequential.run
    (World.reply fun _ _ => .ok ⟨.businessFailure, none⟩) w).2

/-- The world a day after two payments have been declined. -/
def waiting : World := { submitting "second" (submitting "first" world) with now := dayAfter }

theorem reachable_waiting : ∃ σ, Reachable world σ ∧ σ.world = waiting := by
  obtain ⟨_, hfirst, -⟩ := Reachable.refl.alone (fun _ _ => .ok ⟨.businessFailure, none⟩) (w := world) (k := 0) rfl
    daily (.submit { submission with key := some "first" })
  obtain ⟨_, hsecond, -⟩ := hfirst.alone (fun _ _ => .ok ⟨.businessFailure, none⟩) (k := 1) rfl daily
    (.submit { submission with key := some "second" })
  exact ⟨_, hsecond.step (.clock dayAfter), by rw [waiting, submitting, submitting]⟩

end Sample

/-- Two payments are due and store calls fail for the first one. -/
theorem isolated_of_two_payments : ∃ σ, Reachable Sample.world σ ∧
    (σ.world.store.rows.filterMap (σ.world.store.dueRetry? σ.world.now)).map (·.attempt.key) = ["first", "second"] ∧
    (Sample.daily.polling none).AlwaysEnds
      (Service.Serves { answers := fun c x => x = Sample.accepts c, disturbed := (· = "first") })
      (fun x w₁ => (Sample.daily.polling none).AlwaysEnds
        (Service.Serves { answers := fun c x => x = Sample.accepts c })
        (fun _ w₂ => ∃ n, x = .ok n ∧ w₁.store.rows.length = 2 + n ∧
          (w₁.store.attemptsOf "second").map σ.world.store.anonymiseNew =
            (w₂.store.attemptsOf "second").map σ.world.store.anonymiseNew ∧
          Sample.daily.Leaves Sample.accepts σ.world.now (σ.world.store.attemptsOf "first")
            (w₁.store.attemptsOf "first"))
        σ.world)
      σ.world := by
  obtain ⟨σ, h, hworld⟩ := Sample.reachable_waiting
  have hstill : σ.world.Still := by
    rw [hworld]
    exact ⟨by decide +kernel, by decide +kernel⟩
  have hhorizon : σ.world.now.sub Sample.daily.lease = .ok Sample.dayEarlier := by
    rw [hworld]
    decide +kernel
  have hpoll := h.isolated ⟨rfl, rfl⟩ hstill Sample.daily none (g := Sample.accepts) (by rintro c e ⟨⟩) rfl (by decide)
    rfl (Nat.le_refl _) hhorizon (· = "first")
  refine ⟨σ, h, by rw [hworld]; decide +kernel, ?_⟩
  refine hpoll.mono fun x w₁ hx => hx.mono fun _ w₂ hy => ?_
  obtain ⟨n, rfl, hlength, hothers, hleaves⟩ := hy
  have htwo : σ.world.store.rows.length = 2 := by
    rw [hworld]
    decide +kernel
  exact ⟨n, rfl, htwo ▸ hlength, hothers "second" (by decide), hleaves "first"⟩

end PaymentRetry
