import PaymentRetry.Proofs.Workers.Charging
import PaymentRetry.Proofs.Workers.Ruling

/-!
# Requests that are granted

The answer to a request that is not refused is that of the store and the clock in the world in which it is made; so the
work is called off only if the gateway does so (`Exchange.Sound.allowed`).

Of a call that completes an attempt, all requests granted, one can tell from its last stage what has become of the
attempt: what it has moved is the row that the policy has ruled (`Recording.Concludes.moved_row`), and if it has moved
nothing, the row had been moved before, or there was no ruling that the store could take
(`Recording.Concludes.settled_or`).
-/

namespace PaymentRetry

open Simulation

/-! ### Answers -/

namespace Exchange.Sound

variable {s : Store} {before after : World}

theorem now_eq {t : DateTime} (h : Exchange.Sound ⟨.now, t, false, before, after⟩ s) : t = before.now := by
  have hx : before.answer .now = (t, after) := h.happens
  obtain ⟨later, hread⟩ := World.exists_readClock before
  rw [World.answer, hread, Prod.mk.injEq] at hx
  exact hx.1.symm

theorem get_eq {id : AttemptId} {x : Except Failure Attempt}
    (h : Exchange.Sound ⟨.get id, x, false, before, after⟩ s) :
    x = (before.store.find? id).elim (.error (.unknownAttempt id)) .ok := by
  have hx : before.answer (.get id) = (x, after) := h.happens
  rw [World.answer, World.get_of_undisturbed h.undisturbed, Prod.mk.injEq] at hx
  exact hx.1.symm

theorem listDue_eq {asOf : DateTime} {x : Except Failure (List DueRetry)}
    (h : Exchange.Sound ⟨.listDue asOf none, x, false, before, after⟩ s) :
    x = .ok (before.store.dueRetries asOf none) := by
  have hx : before.answer (.listDue asOf none) = (x, after) := h.happens
  rw [World.answer, World.list_of_undisturbed h.undisturbed, Prod.mk.injEq] at hx
  exact hx.1.symm

theorem listStale_eq {olderThan : DateTime} {x : Except Failure (List Attempt)}
    (h : Exchange.Sound ⟨.listStale olderThan none, x, false, before, after⟩ s) :
    x = .ok (before.store.stalePending olderThan none) := by
  have hx : before.answer (.listStale olderThan none) = (x, after) := h.happens
  rw [World.answer, World.list_of_undisturbed h.undisturbed, Prod.mk.injEq] at hx
  exact hx.1.symm

/-- A `create` that is not refused inserts the draft at the time of the world. -/
theorem create_eq {d : Draft} {x : Except Failure Attempt}
    (h : Exchange.Sound ⟨.create d, x, false, before, after⟩ s) :
    (∃ f, x = .error f ∧ before.store.insert d before.now = .error f) ∨
      ∃ a, x = .ok a ∧ before.store.insert d before.now = .ok (a, after.store) := by
  have hx : before.answer (.create d) = (x, after) := h.happens
  obtain ⟨later, hread⟩ := World.exists_readClock before
  rw [World.answer, World.create_of_undisturbed h.undisturbed, World.storeDraft] at hx
  simp only [hread] at hx
  cases hinsert : before.store.insert d before.now with
  | error f =>
    rw [hinsert, Prod.mk.injEq] at hx
    exact .inl ⟨f, hx.1.symm, rfl⟩
  | ok p =>
    rw [hinsert, Prod.mk.injEq] at hx
    exact .inr ⟨p.1, hx.1.symm, by rw [← hx.2]; rfl⟩

/-- A transition of a pending row that is not refused is carried out, unless the store refuses the reason. -/
theorem transition_eq {id : AttemptId} {target : AttemptState} {change : Change} {x : Except Failure Attempt}
    (h : Exchange.Sound ⟨.transition id .pending target change, x, false, before, after⟩ s) :
    (∃ f, Failure.ofTexts? change.message.join.toList = some f ∧ x = .error f) ∨
      Failure.ofTexts? change.message.join.toList = none ∧
        ((before.store.isPending id = false ∧ x = .error (.staleState id .pending)) ∨
          ∃ a ∈ before.store.rows, a.id = id ∧ a.state = .pending ∧
            x = .ok (change.apply { a with state := target, updated := before.now })) := by
  have hx : before.answer (.transition id .pending target change) = (x, after) := h.happens
  obtain ⟨later, hread⟩ := World.exists_readClock before
  rw [World.answer, World.transition_of_undisturbed h.undisturbed, World.move] at hx
  simp only [hread] at hx
  cases hmessage : Failure.ofTexts? change.message.join.toList with
  | some f =>
    rw [hmessage, Prod.mk.injEq] at hx
    exact .inl ⟨f, rfl, hx.1.symm⟩
  | none =>
    refine .inr ⟨rfl, ?_⟩
    rw [hmessage] at hx
    cases hmove : before.store.move? id .pending target change before.now with
    | none =>
      rw [hmove, Prod.mk.injEq] at hx
      refine .inl ⟨?_, hx.1.symm⟩
      by_contra hpending
      obtain ⟨a, ha, rfl, hstate⟩ := Store.isPending_iff.1 (by simpa using hpending)
      obtain ⟨store, hmoved⟩ := Store.exists_move? ha hstate target change before.now
      rw [hmove] at hmoved
      cases hmoved
    | some store =>
      obtain ⟨a, ha, hid, hstate, hfind⟩ := Store.find?_of_move? h.sequenced.distinct hmove
      have hfaults : ({ before with now := later, store := store } : World).faults = [] := h.undisturbed
      rw [hmove] at hx
      simp only [World.get_of_undisturbed hfaults, hfind, Prod.mk.injEq] at hx
      exact .inr ⟨a, ha, hid, hstate, hx.1.symm⟩

end Exchange.Sound

/-! ### Nobody calls the work off -/

/-- No failure is a cancellation, and the answers of the gateway satisfy `answers`. -/
def Manners.steady (answers : Charge → Except Failure GatewayResult → Prop) : Manners :=
  ⟨fun e => e.isCancellation = false, answers⟩

theorem Failure.ofTexts?_isCancellation {texts : List String} {f : Failure} (h : ofTexts? texts = some f) :
    f.isCancellation = false := by
  unfold ofTexts? at h
  obtain ⟨reason, -, rfl⟩ := Option.map_eq_some_iff.1 h
  rfl

private theorem Draft.unstorable?_isCancellation {d : Draft} {f : Failure} (h : d.unstorable? = some f) :
    f.isCancellation = false := by
  unfold unstorable? at h
  split at h
  · cases h
    rfl
  · cases hkeys : Failure.ofTexts? (d.key.toList ++ d.transaction.toList) with
    | some g =>
      rw [hkeys] at h
      obtain rfl : g = f := Option.some.inj h
      exact Failure.ofTexts?_isCancellation hkeys
    | none =>
      rw [hkeys] at h
      split at h
      · obtain rfl := Option.some.inj h
        rfl
      · exact Failure.ofTexts?_isCancellation h

theorem Store.insert_isCancellation {s : Store} {d : Draft} {now : DateTime} {f : Failure}
    (h : s.insert d now = .error f) : f.isCancellation = false := by
  unfold insert at h
  split at h
  · rename_i hunstorable
    obtain rfl := Except.error.inj h
    exact Draft.unstorable?_isCancellation hunstorable
  · split at h
    · cases h
      rfl
    · split at h
      · cases h
        rfl
      · cases h

theorem Exchange.Sound.allowed {e : Exchange} {s : Store} (h : e.Sound s) (hgranted : e.refused = false)
    {answers : Charge → Except Failure GatewayResult → Prop}
    (hcharge : ∀ c x refused before after, e = ⟨.charge c, x, refused, before, after⟩ → answers c x) :
    (Manners.steady answers).Allows e.request e.answer := by
  obtain ⟨r, x, refused, before, after⟩ := e
  simp only at hgranted
  subst hgranted
  cases r
  case charge c => exact hcharge c x false before after rfl
  case create d =>
    rintro e rfl
    rcases h.create_eq with ⟨f, hf, hinsert⟩ | ⟨a, ha, -⟩
    · obtain rfl := Except.error.inj hf
      exact Store.insert_isCancellation hinsert
    · cases ha
  case get id =>
    rintro e rfl
    have hx := h.get_eq
    cases hfind : before.store.find? id with
    | none =>
      rw [hfind] at hx
      cases hx
      rfl
    | some a =>
      rw [hfind] at hx
      cases hx
  case transition id source target change =>
    rintro e rfl
    obtain ⟨rfl, -⟩ := h.settles
    rcases h.transition_eq with ⟨f, hf, hx⟩ | ⟨-, ⟨-, hx⟩ | ⟨a, -, -, -, hx⟩⟩
    · cases hx
      exact Failure.ofTexts?_isCancellation hf
    · cases hx
      rfl
    · cases hx
  case publish c =>
    obtain ⟨-, hx⟩ : _ ∧ ∀ e, x = .error e → e.isCancellation = false := h.happens
    exact hx
  all_goals trivial

/-! ### What becomes of an attempt -/

/-- Rows of earlier stores with the same identity have the same key and number. -/
theorem Store.Grows.eq_of_id {s₁ s₂ s : Store} (h₁ : s₁.Grows s) (h₂ : s₂.Grows s) (hs : s.Distinct) {a b : Attempt}
    (ha : a ∈ s₁.rows) (hb : b ∈ s₂.rows) (hid : a.id = b.id) : a.key = b.key ∧ a.number = b.number := by
  obtain ⟨a', ha', hbecomes⟩ := h₁.exists_becomes ha
  obtain ⟨b', hb', hbecomes'⟩ := h₂.exists_becomes hb
  obtain rfl := hs.eq_of_id ha' hb' (hbecomes.id_eq.trans (hid.trans hbecomes'.id_eq.symm))
  exact ⟨hbecomes.key_eq.symm.trans hbecomes'.key_eq, hbecomes.number_eq.symm.trans hbecomes'.number_eq⟩

theorem Scheduler.Tells.exists_published {s : Scheduler} {a : Attempt} {target : AttemptState} {σ σ' : Stage}
    (h : s.Tells a target σ σ') : ∃ published, σ' = { σ with published := published } := by
  unfold Tells at h
  split at h
  · exact ⟨σ.published, h⟩
  · obtain ⟨x, rfl⟩ := h
    exact ⟨_, rfl⟩

theorem Recording.Concludes.keeps {call : Recording} {σ σ' : Stage} (h : call.Concludes σ σ') :
    σ'.attempt = σ.attempt ∧ σ'.asked = σ.asked := by
  cases h with
  | moved _ _ _ htells =>
    obtain ⟨published, rfl⟩ := htells.exists_published
    exact ⟨rfl, rfl⟩
  | unfound | foreign | completed | unruled | unmoved => exact ⟨rfl, rfl⟩

theorem Recording.Concludes.published_eq {call : Recording} {σ σ' : Stage} (h : call.Concludes σ σ')
    (hmoved : σ.moved = []) (hpublished : σ.published = none) {id : AttemptId} {target : AttemptState} {change : Change}
    {a : Attempt} (hmem : (id, target, change, .ok a) ∈ σ'.moved) :
    σ'.published.map (·.1) = call.scheduler.announced? a target := by
  cases h with
  | unfound | foreign | completed | unruled => simp [hmoved] at hmem
  | unmoved => simp [hmoved] at hmem
  | @moved b a' clock target' change' σ' _ _ _ htells =>
    obtain ⟨published, hstage⟩ := htells.exists_published
    simp only [hstage, hmoved, List.mem_singleton, Prod.mk.injEq, Except.ok.injEq] at hmem
    obtain ⟨-, rfl, -, rfl⟩ := hmem
    unfold Scheduler.Tells at htells
    split at htells
    · rename_i hannounced
      rw [htells, hannounced]
      simp [hpublished]
    · rename_i c hannounced
      obtain ⟨x, rfl⟩ := htells
      rw [hannounced]
      rfl

section

variable {log : Log} {w : World} {p : Place} {call : Recording} {σ : Stage} {target : AttemptState} {change : Change}

/-- A row that was looked up was in a store from which that of `w` has grown. -/
private theorem Log.Sound.looked (hlog : log.Sound w) {id : AttemptId} {b : Attempt}
    (hb : (log.stage p).looked = some (id, .ok b)) :
    ∃ s : Store, b ∈ s.rows ∧ b.id = id ∧ s.Grows w.store := by
  obtain ⟨refused, before, after, hmem⟩ := Stage.exists_get hb
  have hsound := hlog.exchanges p _ (Log.mem_past.1 hmem)
  obtain ⟨-, ⟨f, hf⟩ | ⟨c, hc, hfind⟩⟩ := hsound.effect
  · cases hf
  · obtain rfl := Except.ok.inj hc
    obtain ⟨hrow, hid⟩ := Store.find?_eq_some hfind
    exact ⟨before.store, hrow, hid, hsound.grows_before⟩

/-- A row that `recordOutcome` has moved holds the ruling of the policy. -/
theorem Recording.Concludes.moved_row (h : call.Concludes σ (log.stage p)) (hfirst : σ.moved = []) (hlog : log.Sound w)
    (hgranted : ∀ e, ⟨p, .act (.exchanged e)⟩ ∈ log → e.refused = false) {id : AttemptId} {source : AttemptState}
    {r : Attempt} {refused : Bool} {before after : World}
    (hmem : ⟨p, .act (.exchanged ⟨.transition id source target change, .ok r, refused, before, after⟩)⟩ ∈ log) :
    ∃ a ∈ before.store.rows, a.id = call.id ∧ a.state = .pending ∧
      call.scheduler.policy.Gives call.result a.number (log.stage p).clock (.ok (target, change)) ∧
      Failure.ofTexts? change.message.join.toList = none ∧
      r = change.apply { a with state := target, updated := before.now } := by
  have hmoved : (id, target, change, .ok r) ∈ (log.stage p).moved := Stage.mem_moved (Log.mem_past.2 hmem)
  have hlooked : ∀ {id : AttemptId} {b : Attempt}, (log.stage p).looked = some (id, .ok b) →
      ∃ s : Store, b ∈ s.rows ∧ b.id = id ∧ s.Grows w.store := hlog.looked
  have hsound := hlog.exchanges p _ hmem
  obtain rfl : refused = false := hgranted _ hmem
  obtain ⟨rfl, -⟩ := hsound.settles
  generalize log.stage p = σ' at h hmoved hlooked
  cases h with
  | unfound | foreign | completed | unruled => simp [hfirst] at hmoved
  | unmoved => simp [hfirst] at hmoved
  | @moved b a clock target' change' _ _ _ hgives htells =>
    obtain ⟨published, rfl⟩ := htells.exists_published
    simp only [hfirst, List.mem_singleton, Prod.mk.injEq] at hmoved
    obtain ⟨rfl, rfl, rfl, -⟩ := hmoved
    obtain ⟨_, hb, hbid, hgrows⟩ := hlooked rfl
    rcases hsound.transition_eq with ⟨f, -, hx⟩ | ⟨hmessage, ⟨-, hx⟩ | ⟨c, hc, hid, hpending, hx⟩⟩
    · cases hx
    · cases hx
    · have hnumber := (hgrows.eq_of_id hsound.grows_before hlog.sequenced.distinct hb hc hid.symm).2
      rw [hnumber] at hgives
      exact ⟨c, hc, hid.trans hbid, hpending, hgives, hmessage, Except.ok.inj hx⟩

/-- Whenever the program at `p` makes a request, except for `create`, there is a row with the identity `id` and the key
`key`. -/
def Log.Holds (log : Log) (p : Place) (id : AttemptId) (key : String) : Prop :=
  ∀ e, ⟨p, .act (.exchanged e)⟩ ∈ log → (∀ d, e.request ≠ .create d) →
    ∃ a ∈ e.before.store.rows, a.id = id ∧ a.key = key

private theorem Log.Sound.found (hlog : log.Sound w)
    (hgranted : ∀ e, ⟨p, .act (.exchanged e)⟩ ∈ log → e.refused = false) {id : AttemptId} {key : String}
    (hrow : log.Holds p id key) {x : Except Failure Attempt} (hx : (log.stage p).looked = some (id, x)) :
    ∃ before : World, ∃ a ∈ before.store.rows, x = .ok a ∧ a.id = id ∧ a.key = key ∧
      before.store.Grows w.store := by
  obtain ⟨refused, before, after, hmem⟩ := Stage.exists_get hx
  have hmem := Log.mem_past.1 hmem
  obtain rfl : refused = false := hgranted _ hmem
  obtain ⟨a, ha, hid, hkey⟩ := hrow _ hmem (by simp)
  have hsound := hlog.exchanges p _ hmem
  exact ⟨before, a, ha, hsound.get_ok ha hid, hid, hkey, hsound.grows_before⟩

private theorem Log.Sound.transitioned (hlog : log.Sound w)
    (hgranted : ∀ e, ⟨p, .act (.exchanged e)⟩ ∈ log → e.refused = false) {id : AttemptId} {x : Except Failure Attempt}
    (hx : (id, target, change, x) ∈ (log.stage p).moved) :
    ∃ before after, ⟨p, .act (.exchanged ⟨.transition id .pending target change, x, false, before, after⟩)⟩ ∈ log := by
  obtain ⟨source, refused, before, after, hmem⟩ := Stage.exists_transition hx
  have hmem := Log.mem_past.1 hmem
  obtain rfl : refused = false := hgranted _ hmem
  obtain ⟨rfl, -⟩ := (hlog.exchanges p _ hmem).settles
  exact ⟨before, after, hmem⟩

/-- The attempt of a call is settled, unless its policy has no ruling, or one that the store refuses. -/
theorem Recording.Concludes.settled_or (h : call.Concludes σ (log.stage p)) (hlog : log.Sound w)
    (hgranted : ∀ e, ⟨p, .act (.exchanged e)⟩ ∈ log → e.refused = false) (hrow : log.Holds p call.id call.key) :
    w.store.Settled call.id ∨ ∃ a ∈ w.store.rows, a.id = call.id ∧
      ((∃ e, call.scheduler.policy.Gives call.result a.number (log.stage p).clock (.error e)) ∨
        ∃ target change f before after,
          call.scheduler.policy.Gives call.result a.number (log.stage p).clock (.ok (target, change)) ∧
            Failure.ofTexts? change.message.join.toList = some f ∧
            ⟨p, .act (.exchanged ⟨.transition call.id .pending target change, .error f, false, before, after⟩)⟩ ∈
              log) := by
  have hget := fun {x} => hlog.found hgranted hrow (x := x)
  have htransition : ∀ {id : AttemptId} {target : AttemptState} {change : Change} {x : Except Failure Attempt},
      (id, target, change, x) ∈ (log.stage p).moved → ∃ before after,
        ⟨p, .act (.exchanged ⟨.transition id .pending target change, x, false, before, after⟩)⟩ ∈ log :=
    hlog.transitioned hgranted
  -- the row that was looked up has the number that it has in the end
  have hfinal : ∀ {s : Store} {b : Attempt}, s.Grows w.store → b ∈ s.rows → b.id = call.id →
      ∃ a ∈ w.store.rows, a.id = call.id ∧ a.number = b.number := by
    intro s b hgrows hb hid
    obtain ⟨a, ha, hbecomes⟩ := hgrows.exists_becomes hb
    exact ⟨a, ha, hbecomes.id_eq.trans hid, hbecomes.number_eq⟩
  generalize log.stage p = σ' at h hget htransition
  cases h with
  | unfound =>
    obtain ⟨_, a, -, hx, -⟩ := hget rfl
    cases hx
  | foreign hkey =>
    obtain ⟨_, a, -, hx, -, hkey', -⟩ := hget rfl
    obtain rfl := Except.ok.inj hx
    exact absurd hkey' hkey
  | completed hsettled =>
    obtain ⟨_, a, ha, hx, hid, -, hgrows⟩ := hget rfl
    obtain rfl := Except.ok.inj hx
    exact .inl ⟨_, hgrows.mem_of_settled ha hsettled, hid, hsettled⟩
  | @unruled b clock r _ _ hgives =>
    obtain ⟨_, a, ha, hx, hid, -, hgrows⟩ := hget rfl
    obtain rfl := Except.ok.inj hx
    obtain ⟨c, hc, hcid, hnumber⟩ := hfinal hgrows ha hid
    rw [← hnumber] at hgives
    exact .inr ⟨c, hc, hcid, .inl ⟨r, hgives⟩⟩
  | @unmoved b clock target change e _ _ hgives =>
    obtain ⟨_, a, ha, hx, hid, -, hgrows⟩ := hget rfl
    obtain rfl := Except.ok.inj hx
    obtain ⟨before, after, hmem⟩ := htransition List.mem_cons_self
    rw [hid] at hmem
    have hsound := hlog.exchanges p _ hmem
    rcases hsound.transition_eq with ⟨f, hf, hx⟩ | ⟨-, ⟨hpending, -⟩ | ⟨_, _, _, _, hx⟩⟩
    · obtain rfl := Except.error.inj hx
      obtain ⟨c, hc, hcid, hnumber⟩ := hfinal hgrows ha hid
      rw [← hnumber] at hgives
      exact .inr ⟨c, hc, hcid, .inr ⟨target, change, e, before, after, hgives, hf, hmem⟩⟩
    · -- the row is there, so it had been moved by another
      obtain ⟨c, hc, hcid, -⟩ := hrow _ hmem (by simp)
      have hsettled : c.state ≠ .pending := fun hstate =>
        Bool.false_ne_true (hpending.symm.trans (Store.isPending_iff.2 ⟨c, hc, hcid, hstate⟩))
      exact .inl ⟨c, hsound.grows_before.mem_of_settled hc hsettled, hcid, hsettled⟩
    · cases hx
  | moved _ _ _ htells =>
    obtain ⟨published, rfl⟩ := htells.exists_published
    obtain ⟨_, c, -, hx, hid, -⟩ := hget rfl
    obtain rfl := Except.ok.inj hx
    obtain ⟨before, after, hmem⟩ := htransition List.mem_cons_self
    have hsound := hlog.exchanges p _ hmem
    obtain ⟨-, -, hrid, hstate, htarget, -⟩ := hsound.transition_ok
    rw [← hstate] at htarget
    exact .inl ⟨_, hsound.mem_of_transition, hrid.trans hid, htarget⟩

end

end PaymentRetry
