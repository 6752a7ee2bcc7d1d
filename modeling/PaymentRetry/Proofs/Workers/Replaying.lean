import PaymentRetry.Proofs.Number.Cents
import PaymentRetry.Proofs.Store.Chronicle
import PaymentRetry.Proofs.Workers.Announcing
import PaymentRetry.Proofs.Workers.Asking
import PaymentRetry.Proofs.Workers.Writing

/-!
# Retries ask for what the payment asked for

A retry is made from the row of the attempt before it, and that row was made in the same way, down to the first, which
was made from what had been submitted.  The store keeps the values of the amounts that orders may have, so all rows of a
payment, all calls of the gateway for it, and the news of its end carry the values that were submitted
(`System.Onward.replayed`).
-/

namespace PaymentRetry

open Simulation

/-! ### The same request -/

/-- `a` and `b` agree in the fields that a retry copies. -/
structure Attempt.Alike (a b : Attempt) : Prop where
  payment : a.payment = b.payment
  transaction : a.transaction = b.transaction
  amount : a.amount = b.amount
  currency : a.currency = b.currency
  properties : a.properties = b.properties

/-- The charge `c` has the fields of `a`. -/
structure Charge.Replays (c : Charge) (a : Attempt) : Prop where
  payment : c.payment = a.payment
  transaction : c.transaction = a.transaction
  amount : c.amount.value? = a.amount.value?
  currency : c.currency = a.currency
  properties : some c.properties = a.properties

/-- The event `c` has the fields of `a`. -/
structure Completion.Replays (c : Completion) (a : Attempt) : Prop where
  payment : c.payment = a.payment
  transaction : c.transaction = a.transaction
  amount : c.amount.value? = a.amount.value?
  currency : c.currency = a.currency

/-- `a` has the fields of the submission `p`, and its amount has the same value. -/
structure Attempt.Carries (a : Attempt) (p : Submission) : Prop where
  key : p.key = some a.key
  payment : ∀ id, p.payment = some id → a.payment = id
  transaction : p.transaction = some a.transaction
  amount : a.amount.value? = p.amount.value?
  currency : p.currency = some a.currency
  properties : a.properties = some p.properties

/-- The amount and the properties of `p` are those of an order that is accepted. -/
def Submission.Admitted (p : Submission) : Prop :=
  ∃ j o, Api.Order.ofJson j = .ok o ∧ p.amount = o.amount ∧ p.properties = o.propertyMembers

theorem Attempt.Alike.refl (a : Attempt) : a.Alike a := ⟨rfl, rfl, rfl, rfl, rfl⟩

theorem Attempt.Alike.symm {a b : Attempt} (h : a.Alike b) : b.Alike a :=
  ⟨h.payment.symm, h.transaction.symm, h.amount.symm, h.currency.symm, h.properties.symm⟩

theorem Attempt.Alike.trans {a b c : Attempt} (h : a.Alike b) (h' : b.Alike c) : a.Alike c :=
  ⟨h.payment.trans h'.payment, h.transaction.trans h'.transaction, h.amount.trans h'.amount,
    h.currency.trans h'.currency, h.properties.trans h'.properties⟩

theorem Attempt.Carries.of_alike {a b : Attempt} {p : Submission} (h : b.Carries p) (halike : a.Alike b)
    (hkey : a.key = b.key) : a.Carries p :=
  ⟨hkey ▸ h.key, halike.payment ▸ h.payment, halike.transaction ▸ h.transaction, halike.amount ▸ h.amount,
    halike.currency ▸ h.currency, halike.properties ▸ h.properties⟩

theorem Attempt.CompletedAs.alike {a b : Attempt} (h : a.CompletedAs b) : b.Alike a := by
  rw [h.rest]
  exact ⟨rfl, rfl, rfl, rfl, rfl⟩

theorem Attempt.Becomes.alike {a b : Attempt} (h : a.Becomes b) : b.Alike a := by
  rcases h with rfl | h
  · exact .refl _
  · exact h.alike

/-- The store keeps the value of an admitted amount. -/
theorem Submission.Admitted.stored {p : Submission} (h : p.Admitted) :
    p.amount.stored.value? = p.amount.value? ∧ p.amount.stored.stored = p.amount.stored := by
  obtain ⟨j, o, horder, hamount, -⟩ := h
  obtain ⟨value, hchecked⟩ := Api.Order.amount_checked horder
  rw [hamount]
  exact Validation.stored_of_positiveDecimal hchecked

/-! ### Rows of one payment -/

/-- Each row of `key` carries a submission, and all rows of `key` are alike. -/
structure Store.Uniform (submitted : Submission → Prop) (key : String) (s : Store) : Prop where
  kept : ∀ a ∈ s.rows, a.key = key → a.amount.stored = a.amount
  carried : ∀ a ∈ s.rows, a.key = key → ∃ p, submitted p ∧ a.Carries p
  alike : ∀ a ∈ s.rows, ∀ b ∈ s.rows, a.key = key → b.key = key → a.Alike b

namespace Store.Uniform

variable {submitted : Submission → Prop} {key : String} {s s' : Store}

private theorem alike_of_next (h : s.Uniform submitted key) {t : Store} {a prior : Attempt} {now : DateTime}
    (hprior : prior ∈ s.rows) (hcomplete : t.complete? prior.next now = some a) (ha : a.key = key) :
    prior.key = key ∧ a.Alike prior := by
  obtain ⟨hkey, htransaction, -, hcurrency, -, hamount, hproperties, -, -, -, -, -, -, hpayment, -⟩ :=
    complete?_eq_some hcomplete
  have hkey : prior.key = key := (Option.some.inj hkey).trans ha
  obtain ⟨p, -, hcarries⟩ := h.carried prior hprior hkey
  refine ⟨hkey, hpayment, (Option.some.inj htransaction).symm, hamount, (Option.some.inj hcurrency).symm, ?_⟩
  rw [hproperties, Attempt.next, hcarries.properties]
  rfl

/-- A row created from a submission or as a retry carries a submission, and its amount keeps its value in the store. -/
theorem carries (h : s.Uniform submitted key) (hsubmitted : ∀ p, submitted p → p.key = some key → p.Admitted)
    {d : Draft} {now : DateTime} {t : Store} {a : Attempt} (hcomplete : t.complete? d now = some a)
    (hd : (∃ p, submitted p ∧ d = p.draft) ∨ ∃ prior ∈ s.rows, d = prior.next) (ha : a.key = key) :
    (∃ p, submitted p ∧ a.Carries p) ∧ a.amount.stored.value? = a.amount.value? ∧
      a.amount.stored.stored = a.amount.stored := by
  rcases hd with ⟨p, hp, rfl⟩ | ⟨prior, hprior, rfl⟩
  · obtain ⟨hkey, htransaction, -, hcurrency, -, hamount, hproperties, -, -, -, -, -, -, hpayment, -⟩ :=
      complete?_eq_some hcomplete
    have hamount : a.amount = p.amount := hamount
    have hstored := (hsubmitted p hp (ha ▸ hkey)).stored
    rw [← hamount] at hstored
    refine ⟨⟨p, hp, hkey, fun id hid => ?_, htransaction, congrArg _ hamount, hcurrency, hproperties⟩, hstored⟩
    rw [hpayment]
    simp [Submission.draft, hid]
  · obtain ⟨hkey, halike⟩ := h.alike_of_next hprior hcomplete ha
    obtain ⟨p, hp, hcarries⟩ := h.carried prior hprior hkey
    have hkept : a.amount.stored = prior.amount := by rw [halike.amount, h.kept prior hprior hkey]
    refine ⟨⟨p, hp, hcarries.of_alike halike (ha.trans hkey.symm)⟩, ?_, ?_⟩
    · rw [hkept, halike.amount]
    · rw [hkept, h.kept prior hprior hkey]

theorem insert (h : s.Uniform submitted key) (hsubmitted : ∀ p, submitted p → p.key = some key → p.Admitted)
    (hs : s.Sequenced) (hs' : s'.Sequenced) {d : Draft} {now : DateTime} {a : Attempt}
    (hinsert : s.insert d now = .ok (a, s'))
    (hd : (∃ p, submitted p ∧ d = p.draft) ∨ ∃ prior ∈ s.rows, d = prior.next) : s'.Uniform submitted key := by
  obtain ⟨hcomplete, -, -, hrows⟩ := insert_eq_ok hinsert
  have hmem : ∀ b ∈ s'.rows, b ∈ s.rows ∨ b = a.asStored := by simp [hrows]
  have hnumber : d.number = some 1 ∨ ∃ prior ∈ s.rows, d = prior.next ∧ d = prior.next := by
    rcases hd with ⟨p, -, rfl⟩ | ⟨prior, hprior, hnext⟩
    · exact .inl rfl
    · exact .inr ⟨prior, hprior, hnext, hnext⟩
  have halike : ∀ b ∈ s.rows, b.key = key → a.key = key → b.Alike a.asStored := by
    intro b hb hbkey hkey
    -- beside a row of the same payment only a retry can be stored
    obtain ⟨prior, hprior, rfl, hsame, -⟩ := hs.prior_of_insert hs' hinsert hnumber hb (hbkey.trans hkey.symm)
    obtain ⟨-, hnext⟩ := h.alike_of_next hprior hcomplete hkey
    have hstored : a.asStored.Alike a :=
      ⟨rfl, rfl, by rw [hnext.amount, ← h.kept prior hprior (hsame.trans hkey), ← hnext.amount]; rfl, rfl, rfl⟩
    exact (h.alike b hb prior hprior hbkey (hsame.trans hkey)).trans (hstored.trans hnext).symm
  refine ⟨fun b hb hbkey => ?_, fun b hb hbkey => ?_, fun b hb c hc hbkey hckey => ?_⟩
  · rcases hmem b hb with hb | rfl
    · exact h.kept b hb hbkey
    · exact (h.carries hsubmitted hcomplete hd hbkey).2.2
  · rcases hmem b hb with hb | rfl
    · exact h.carried b hb hbkey
    · obtain ⟨⟨p, hp, hcarries⟩, hvalue, -⟩ := h.carries hsubmitted hcomplete hd hbkey
      exact ⟨p, hp, { hcarries with amount := hvalue.trans hcarries.amount }⟩
  · rcases hmem b hb with hb | rfl
    · rcases hmem c hc with hc | rfl
      · exact h.alike b hb c hc hbkey hckey
      · exact halike b hb hbkey hckey
    · rcases hmem c hc with hc | rfl
      · exact (halike c hc hckey hbkey).symm
      · exact .refl _

theorem completed (h : s.Uniform submitted key) {first last : List Attempt} {c c' : Attempt}
    (hrows : s.rows = first ++ c :: last) (hrows' : s'.rows = first ++ c' :: last) (hcompleted : c.CompletedAs c') :
    s'.Uniform submitted key := by
  have hkey : c'.key = c.key := by rw [hcompleted.rest]
  -- every row stands for one that was there and asked for the same
  have hold : ∀ b ∈ s'.rows, b.key = key → ∃ b' ∈ s.rows, b.key = b'.key ∧ b'.key = key ∧ b.Alike b' := by
    intro b hb hbkey
    rw [hrows', List.mem_append, List.mem_cons] at hb
    rcases hb with hb | rfl | hb
    · exact ⟨b, by simp [hrows, hb], rfl, hbkey, .refl b⟩
    · exact ⟨c, by simp [hrows], hkey, hkey.symm.trans hbkey, hcompleted.alike⟩
    · exact ⟨b, by simp [hrows, hb], rfl, hbkey, .refl b⟩
  refine ⟨fun b hb hbkey => ?_, fun b hb hbkey => ?_, fun b hb d hd hbkey hdkey => ?_⟩
  · obtain ⟨b', hb', -, hbkey', halike⟩ := hold b hb hbkey
    rw [halike.amount]
    exact h.kept b' hb' hbkey'
  · obtain ⟨b', hb', hsame, hbkey', halike⟩ := hold b hb hbkey
    obtain ⟨p, hp, hcarries⟩ := h.carried b' hb' hbkey'
    exact ⟨p, hp, hcarries.of_alike halike hsame⟩
  · obtain ⟨b', hb', -, hbkey', halikeb⟩ := hold b hb hbkey
    obtain ⟨d', hd', -, hdkey', haliked⟩ := hold d hd hdkey
    exact halikeb.trans ((h.alike b' hb' d' hd' hbkey' hdkey').trans haliked.symm)

end Store.Uniform

/-! ### Runs -/

/-- Some worker may submit `p`. -/
def Permission.Submits (may : Permission) (p : Submission) : Prop := ∃ k s, may k s (.submit p)

namespace System.Onward

variable {may : Permission} {w : World} {σ σ' : System} {key : String}

/-- A created row is from a submission, or retries an earlier row. -/
theorem draft_of_step (hw : w.Unused) (h : Onward may { world := w } σ) (h' : Onward may { world := w } σ')
    {p : Place} {d : Draft} {x : Except Failure Attempt} {refused : Bool} {before after : World}
    (hlog : σ'.log = ⟨p, .act (.exchanged ⟨.create d, x, refused, before, after⟩)⟩ :: σ.log) :
    (∃ p, may.Submits p ∧ d = p.draft) ∨ ∃ prior ∈ σ.world.store.rows, d = prior.next := by
  have hknown : σ'.log.Known p.worker p.round = σ.log.Known p.worker p.round := by
    rw [hlog]
    exact Log.known_cons_of_le (fun _ => Nat.le_refl _) _
  rcases h'.created hw (p := p) (by rw [hlog]; exact List.mem_cons_self) with ⟨s, p', hp', hd⟩ | ⟨due, hlisted, hd⟩
  · exact .inl ⟨p', ⟨_, s, hp'⟩, hd⟩
  · rw [hknown] at hlisted
    exact .inr ⟨_, (((h.reachable .refl).log_sound hw).mem_of_listed hlisted).1, hd⟩

/-- A property `P` of the submitted amounts of `key` that storing preserves holds of the amounts of its rows. -/
theorem amounts (hw : w.Unused) {P : Decimal → Prop} (hmay : ∀ p, may.Submits p → p.key = some key → P p.amount)
    (hstored : ∀ x, P x → P x.stored) (h : Onward may { world := w } σ) :
    ∀ a ∈ σ.world.store.rows, a.key = key → P a.amount := by
  induction h with
  | refl => simp [hw.empty]
  | start _ _ _ ih => exact ih
  | @step σ σ' h hstep hidles hallowed ih =>
    have h' := h.step hstep hidles hallowed
    have hsound := (h'.reachable .refl).log_sound hw
    rcases hstep.exchange_or_quiet with ⟨p, e, hlog, -, hbefore, hafter⟩ | ⟨p, c, -, hworld⟩ | ⟨⟨t, hworld⟩, -⟩
    · have hexchange := hsound.exchanges p e (by rw [hlog]; exact List.mem_cons_self)
      rw [← hbefore] at ih
      rw [← hafter]
      cases hexchange.writes with
      | nothing hrows => exact hrows ▸ ih
      | @added d a refused before after hinsert =>
        obtain ⟨hcomplete, -, -, hrows⟩ := Store.insert_eq_ok hinsert
        obtain ⟨hkey, -, -, -, -, hamount, -⟩ := Store.complete?_eq_some hcomplete
        have hdraft : a.key = key → P a.amount := by
          intro ha
          rcases draft_of_step hw h h' hlog with ⟨sub, hsub, rfl⟩ | ⟨prior, hprior, rfl⟩
          · have hsame : a.amount = sub.amount := hamount
            rw [hsame]
            exact hmay sub hsub (ha ▸ hkey)
          · rw [← hbefore] at hprior
            have hsame : a.amount = prior.amount := hamount
            rw [hsame]
            exact ih prior hprior ((Option.some.inj hkey).trans ha)
        intro b hb hbkey
        rw [hrows, List.mem_append, List.mem_singleton] at hb
        rcases hb with hb | rfl
        · exact ih b hb hbkey
        · exact hstored _ (hdraft hbkey)
      | @completed target change a refused before after c first last htarget hpending hrows ha hrows' =>
        have halike := (ha ▸ change.completedAs_apply hpending htarget before.now : c.CompletedAs a)
        intro b hb hbkey
        rw [hrows', List.mem_append, List.mem_cons] at hb
        rcases hb with hb | rfl | hb
        · exact ih b (by simp [hrows, hb]) hbkey
        · rw [halike.alike.amount]
          exact ih c (by simp [hrows]) (by rw [← hbkey, halike.rest])
        · exact ih b (by simp [hrows, hb]) hbkey
    · rw [hworld]
      exact ih
    · rw [hworld]
      exact ih

/-- `Uniform` holds in every run. -/
theorem uniform (hw : w.Unused) (hmay : ∀ p, may.Submits p → p.key = some key → p.Admitted)
    (h : Onward may { world := w } σ) : σ.world.store.Uniform may.Submits key := by
  induction h with
  | refl => constructor <;> simp [hw.empty]
  | start _ _ _ ih => exact ih
  | @step σ σ' h hstep hidles hallowed ih =>
    have h' := h.step hstep hidles hallowed
    have hsound := (h'.reachable .refl).log_sound hw
    have hkeep : σ'.world.store = σ.world.store → σ'.world.store.Uniform may.Submits key := fun heq => heq ▸ ih
    rcases hstep.exchange_or_quiet with ⟨p, e, hlog, -, hbefore, hafter⟩ | ⟨p, c, -, hworld⟩ | ⟨⟨t, hworld⟩, -⟩
    · have hexchange := hsound.exchanges p e (by rw [hlog]; exact List.mem_cons_self)
      have hsequenced := hsound.sequenced
      have huniform : e.before.store.Uniform may.Submits key := hbefore ▸ ih
      rw [← hafter] at hsequenced ⊢
      cases hexchange.writes with
      | nothing hrows =>
        exact ⟨hrows ▸ huniform.kept, hrows ▸ huniform.carried, hrows ▸ huniform.alike⟩
      | @added d a refused before after hinsert =>
        have hdraft := draft_of_step hw h h' hlog
        rw [← hbefore] at hdraft
        exact huniform.insert hmay hexchange.sequenced hsequenced hinsert hdraft
      | @completed target change a refused before after c first last htarget hpending hrows ha hrows' =>
        exact huniform.completed hrows hrows' (ha ▸ change.completedAs_apply hpending htarget before.now)
    · exact hkeep (by rw [hworld]; rfl)
    · exact hkeep (by rw [hworld])

private theorem exists_row (hw : w.Unused) (hmay : ∀ p, may.Submits p → p.key = some key → p.Admitted)
    (h : Onward may { world := w } σ) {p : Place} {a : Attempt} (hmade : σ.log.made p = some a) (ha : a.key = key) :
    ∃ b ∈ σ.world.store.rows, b.key = key ∧ a.charge.Replays b := by
  have huniform := h.uniform hw hmay
  have hsound := (h.reachable .refl).log_sound hw
  obtain ⟨d, refused, before, after, hmem⟩ := Stage.exists_create hmade
  have hlogged := Log.mem_past.1 hmem
  have hdraft : (∃ p, may.Submits p ∧ d = p.draft) ∨ ∃ prior ∈ σ.world.store.rows, d = prior.next := by
    rcases h.created hw hlogged with ⟨s, sub, hsub, hd⟩ | ⟨due, hlisted, hd⟩
    · exact .inl ⟨sub, ⟨_, s, hsub⟩, hd⟩
    · exact .inr ⟨_, (hsound.mem_of_listed hlisted).1, hd⟩
  rcases (hsound.exchanges p _ hlogged).effect with ⟨f, hf, -⟩ | ⟨a', now, ha', hinsert⟩
  · cases hf
  obtain rfl : a = a' := Except.ok.inj ha'
  obtain ⟨hcomplete, -, -, hrows⟩ := Store.insert_eq_ok hinsert
  obtain ⟨⟨sub, -, hcarries⟩, hvalue, -⟩ := huniform.carries hmay hcomplete hdraft ha
  have hrow : a.asStored ∈ after.store.rows := by
    rw [hrows]
    exact List.mem_append_right _ (List.mem_singleton_self _)
  obtain ⟨b, hb, hbecomes⟩ := (hsound.exchanges p _ hlogged).grows.exists_becomes hrow
  have halike := hbecomes.alike
  refine ⟨b, hb, hbecomes.key_eq.trans ha, halike.payment.symm, halike.transaction.symm, ?_, halike.currency.symm, ?_⟩
  · rw [halike.amount]
    exact hvalue.symm
  · rw [halike.properties, Attempt.charge, show a.asStored.properties = a.properties from rfl, hcarries.properties]
    rfl

end System.Onward

/-- `first` is the attempt number `1` of `key`. -/
def Store.Begins (s : Store) (key : String) (first : Attempt) : Prop :=
  first ∈ s.rows ∧ first.key = key ∧ first.number = 1

theorem Store.Sequenced.exists_first {s : Store} (hs : s.Sequenced) {a : Attempt} (ha : a ∈ s.rows) :
    ∃ first, s.Begins a.key first := by
  have hle := mem_numbersTo.1 (hs.number_mem ha)
  have hone : (1 : Int) ∈ numbersTo (s.attemptsOf a.key).length := mem_numbersTo.2 ⟨by omega, by omega⟩
  rw [← hs.numbered a.key] at hone
  obtain ⟨first, hfirst, hnumber⟩ := List.mem_map.1 hone
  obtain ⟨hmem, hkey⟩ := mem_attemptsOf.1 hfirst
  exact ⟨first, hmem, hkey, hnumber⟩

/-- All attempts, calls and events of `key` have the values of its first attempt, which are those of a submission. -/
structure System.Replayed (submitted : Submission → Prop) (key : String) (σ : System) : Prop where
  /-- Each attempt carries a submission and is like the first attempt. -/
  attempts : ∀ a ∈ σ.world.store.rows, a.key = key →
    (∃ p, submitted p ∧ a.Carries p) ∧ ∃ first, σ.world.store.Begins key first ∧ a.Alike first
  /-- Each call of the gateway is for an attempt and has the values of the first one. -/
  calls : ∀ call ∈ σ.log.calls, ∃ a c, call = (some a, c) ∧
    (a.key = key → ∃ first, σ.world.store.Begins key first ∧ c.Replays first)
  /-- The event of the payment has the values of the first attempt. -/
  news : ∀ p (c : Completion) x refused (before after : World),
    ⟨p, .act (.exchanged ⟨.publish c, x, refused, before, after⟩)⟩ ∈ σ.log → c.key = key →
    ∃ first, σ.world.store.Begins key first ∧ c.Replays first

/-- Retries replay the request.  In every run, whatever calls fail and wherever workers stop, all attempts of `key`,
all calls of the gateway for them and the published event have the same values, those of a submission under `key`.  The
hypothesis `hmay` says that the amounts and properties submitted under `key` are those of accepted orders. -/
theorem System.Onward.replayed {may : Permission} {w : World} {σ : System} (hw : w.Unused) {key : String}
    (hmay : ∀ p, may.Submits p → p.key = some key → p.Admitted) (h : Onward may { world := w } σ) :
    σ.Replayed may.Submits key := by
  have huniform := h.uniform hw hmay
  have horderly := (h.reachable .refl).orderly Scheduler.conduct_observed
  have hsound := horderly.sound hw
  have hfirst : ∀ b ∈ σ.world.store.rows, b.key = key → ∃ first, σ.world.store.Begins key first ∧ b.Alike first := by
    intro b hb hkey
    obtain ⟨first, hmem, hfirst, hnumber⟩ := hsound.sequenced.exists_first hb
    exact ⟨first, ⟨hmem, hfirst.trans hkey, hnumber⟩, huniform.alike b hb first hmem hkey (hfirst.trans hkey)⟩
  refine ⟨fun a ha hkey => ⟨huniform.carried a ha hkey, hfirst a ha hkey⟩, ?_, ?_⟩
  · intro call hcall
    obtain ⟨p, a, rfl, hmade, -⟩ := horderly.calls_made call hcall
    refine ⟨a, a.charge, rfl, fun hkey => ?_⟩
    obtain ⟨b, hb, hbkey, hreplays⟩ := h.exists_row hw hmay hmade hkey
    obtain ⟨first, hbegins, halike⟩ := hfirst b hb hbkey
    exact ⟨first, hbegins, hreplays.payment.trans halike.payment, hreplays.transaction.trans halike.transaction,
      by rw [hreplays.amount, halike.amount], hreplays.currency.trans halike.currency,
      hreplays.properties.trans halike.properties⟩
  · intro p c x refused before after hmem hkey
    obtain ⟨-, earlier, -, hearlier, hasks⟩ := horderly.exists_earlier hmem (by simp)
    obtain ⟨a, ha, htells, hterminal, -⟩ := (hearlier.sound hw).announced (Log.Known p.worker p.round earlier) hasks
    have hrow := (hsound.exchanges p _ hmem).grows_before.mem_of_settled ha
      (by intro hpending; rw [hpending] at hterminal; cases hterminal)
    obtain ⟨first, hbegins, halike⟩ := hfirst a hrow (htells.key.symm.trans hkey)
    exact ⟨first, hbegins, htells.payment.trans halike.payment, htells.transaction.trans halike.transaction,
      by rw [htells.amount, halike.amount], htells.currency.trans halike.currency⟩

/-! ### A payment of one euro -/

namespace Sample

/-- The order of the sample payment. -/
def order : Json :=
  .object [("payment_external_key", .text "order"), ("transaction_external_key", .text "charge"),
    ("amount", .text "1.00"), ("currency", .text "EUR")]

theorem eq_of_submits {p : Submission} (h : submitsOrPolls.Submits p) : p = submission := by
  obtain ⟨-, -, -, heq | heq⟩ := h
  · exact Operation.submit.inj heq
  · cases heq

end Sample

/-- A payment of one euro that is retried is charged twice with the same values. -/
theorem replayed_of_retry : ∃ σ, System.Onward Sample.submitsOrPolls { world := Sample.world } σ ∧
    σ.world.charges.length = 2 ∧ σ.Replayed Sample.submitsOrPolls.Submits "order" := by
  obtain ⟨σ, h, hworld, -⟩ := Sample.onward_retried
  refine ⟨σ, h, ?_, h.replayed ⟨rfl, rfl⟩ fun p hp _ => ?_⟩
  · rw [hworld]
    decide +kernel
  · obtain rfl := Sample.eq_of_submits hp
    exact ⟨Sample.order, ⟨"order", "charge", .ofHundredths false 100, "EUR", []⟩, rfl, rfl, rfl⟩

end PaymentRetry
