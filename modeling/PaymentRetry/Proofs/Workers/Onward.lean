import PaymentRetry.Proofs.Workers.Precedence

/-!
# Going on from a system

From a system that has been reached, some workers may go on while all others rest.  `System.Onward` says what the
system may become then; a worker that rests has stopped for good, so whatever it was about has been abandoned.

What a step does to the world is said once, by `System.Step.exchange_or_quiet`.  It follows that every row is an old
one, or has been stored or completed by one of the workers that go on (`System.Onward.stems`), and so for the calls of
the gateway and for what has been announced (`System.Onward.exists_new`).
-/

namespace PaymentRetry

open Simulation

/-- The operations that each worker may begin, with their schedulers. -/
abbrev Permission := Nat → Scheduler → Operation → Prop

/-- Worker `k` may begin something. -/
def Permission.Allows (may : Permission) (k : Nat) : Prop := ∃ s op, may k s op

/-- The workers that may begin something are idle, and nothing is logged of them. -/
def Permission.Fresh (may : Permission) (σ₀ : System) : Prop :=
  ∀ k, may.Allows k → σ₀.workers k = .idle ∧ ∀ entry ∈ σ₀.log, entry.place.worker ≠ k

theorem Permission.fresh (may : Permission) (w : World) : may.Fresh { world := w } := fun _ _ => ⟨rfl, by simp⟩

/-- The runs from `σ₀` in which only workers that `may` allows move, and begin only what `may` permits. -/
inductive System.Onward (may : Permission) (σ₀ : System) : System → Prop
  | refl : Onward may σ₀ σ₀
  | start {σ : System} {k : Nat} {s : Scheduler} {op : Operation} :
      Onward may σ₀ σ → σ.workers k = .idle → may k s op →
      Onward may σ₀ { σ with workers := Function.update σ.workers k ((s.task op).begin 0) }
  | step {σ σ' : System} :
      Onward may σ₀ σ → σ.Step σ' → (∀ k, σ.workers k = .idle → σ'.workers k = .idle) →
      (∀ entry, σ'.log = entry :: σ.log → may.Allows entry.place.worker) → Onward may σ₀ σ'

/-! ### What a step does -/

/-- A step logs an exchange, asks the gateway, or changes nothing in the world but the clock. -/
theorem System.Step.exchange_or_quiet {σ σ' : System} (h : σ.Step σ') :
    (∃ p e, σ'.log = ⟨p, .act (.exchanged e)⟩ :: σ.log ∧ e.Happens ∧ e.before = σ.world ∧ e.after = σ'.world) ∨
      (∃ p c, σ'.log = ⟨p, .act (.asked c)⟩ :: σ.log ∧ σ'.world = σ.world.charged c) ∨
      (∃ t, σ'.world = { σ.world with now := t }) ∧
        (σ'.log = σ.log ∨ ∃ entry, σ'.log = entry :: σ.log ∧ ∀ a, entry.event ≠ .act a) := by
  cases h with
  | clock t => exact .inr (.inr ⟨⟨t, rfl⟩, .inl rfl⟩)
  | start s op hidle => exact .inr (.inr ⟨⟨_, rfl⟩, .inl rfl⟩)
  | advance hk hover => exact .inr (.inr ⟨⟨_, rfl⟩, .inl rfl⟩)
  | @act k number n β phases next i event φ w hk hstep =>
    generalize phases i = φ' at hstep
    cases hstep with
    | exchange hr he => exact .inl ⟨_, _, rfl, he, rfl, rfl⟩
    | record hr he => exact .inl ⟨_, _, rfl, he, rfl, rfl⟩
    | answer => exact .inl ⟨_, _, rfl, rfl, rfl, rfl⟩
    | ask => exact .inr (.inl ⟨_, _, rfl, rfl⟩)
    | enter => exact .inr (.inr ⟨⟨_, rfl⟩, .inr ⟨_, rfl, by simp⟩⟩)
    | leave => exact .inr (.inr ⟨⟨_, rfl⟩, .inr ⟨_, rfl, by simp⟩⟩)
    | finish => exact .inr (.inr ⟨⟨_, rfl⟩, .inr ⟨_, rfl, by simp⟩⟩)

theorem System.Step.log_subset {σ σ' : System} (h : σ.Step σ') : σ.log ⊆ σ'.log := by
  rcases h.exchange_or_quiet with ⟨p, e, hlog, -⟩ | ⟨p, c, hlog, -⟩ | ⟨-, hlog | ⟨entry, hlog, -⟩⟩
  all_goals simp [hlog]

/-- The worker is in the round `number`. -/
def Activity.InRound (number : Nat) : Activity → Prop
  | round number' _ _ => number' = number
  | _ => False

/-- An entry is logged in the current round of its worker. -/
theorem System.Step.in_round {σ σ' : System} (h : σ.Step σ') {entry : Entry} (hlog : σ'.log = entry :: σ.log) :
    (σ.workers entry.place.worker).InRound entry.place.round := by
  have hne : σ.log ≠ entry :: σ.log := fun heq => by simpa using congrArg List.length heq
  cases h with
  | clock t => exact absurd hlog hne
  | start s op hidle => exact absurd hlog hne
  | advance hk hover => exact absurd hlog hne
  | act hk hstep =>
    simp only [List.cons.injEq, and_true] at hlog
    subst hlog
    simp only [hk, Activity.InRound]

namespace System.Onward

variable {may : Permission} {w : World} {σ₀ σ : System}

theorem reachable (h : Onward may σ₀ σ) (h₀ : Reachable w σ₀) : Reachable w σ := by
  induction h with
  | refl => exact h₀
  | start _ hidle _ ih => exact ih.step (.start _ _ hidle)
  | step _ hstep _ _ ih => exact ih.step hstep

theorem trans {σ₁ : System} (h : Onward may σ₀ σ₁) (h' : Onward may σ₁ σ) : Onward may σ₀ σ := by
  induction h' with
  | refl => exact h
  | start _ hidle hmay ih => exact ih.start hidle hmay
  | step _ hstep hidles hallowed ih => exact ih.step hstep hidles hallowed

theorem mono {may' : Permission} (hmay : ∀ k s op, may k s op → may' k s op) (h : Onward may σ₀ σ) :
    Onward may' σ₀ σ := by
  induction h with
  | refl => exact .refl
  | start _ hidle hbegin ih => exact ih.start hidle (hmay _ _ _ hbegin)
  | step _ hstep hidles hallowed ih =>
    refine ih.step hstep hidles fun entry hentry => ?_
    obtain ⟨s, op, hbegin⟩ := hallowed entry hentry
    exact ⟨s, op, hmay _ _ _ hbegin⟩

theorem allows_of_busy (h : Onward may { world := w } σ) {k : Nat} (hk : σ.workers k ≠ .idle) : may.Allows k := by
  induction h with
  | refl => exact absurd rfl hk
  | @start σ j s op _ hidle hbegin ih =>
    by_cases hj : k = j
    · subst hj
      exact ⟨s, op, hbegin⟩
    · simp only [ne_eq, Function.update_of_ne hj] at hk
      exact ih hk
  | step _ _ hidle _ ih => exact ih fun hidle' => hk (hidle k hidle')

end System.Onward

theorem System.idle_update {workers : Nat → Activity} {k : Nat} (hk : workers k ≠ .idle) (a : Activity) (j : Nat)
    (hj : workers j = .idle) : Function.update workers k a j = .idle := by
  rwa [Function.update_of_ne]
  rintro rfl
  exact hk hj

/-- A worker that begins something in the step from `σ` to `σ'` begins what `may` permits. -/
def System.Begins (may : Permission) (σ σ' : System) : Prop :=
  ∀ k, σ.workers k = .idle → σ'.workers k = .idle ∨ ∃ s op, may k s op ∧ σ'.workers k = (s.task op).begin 0

/-- A step preserves `Onward` if workers begin only what `may` permits. -/
theorem System.Onward.next {may : Permission} {w : World} {σ σ' : System} (h : Onward may { world := w } σ)
    (hstep : σ.Step σ') (hbegins : σ.Begins may σ') : Onward may { world := w } σ' := by
  have hquiet : ∀ {log : Log}, ∀ entry, log = entry :: log → may.Allows entry.place.worker :=
    fun entry hentry => absurd (congrArg List.length hentry) (by simp)
  cases hstep with
  | clock t => exact h.step (.clock t) (fun _ hk => hk) hquiet
  | @start k s op hidle =>
    rcases hbegins k hidle with hidle' | ⟨s', op', hmay, hbegun⟩
    · simp only [Function.update_self] at hidle'
      exact absurd hidle' (Task.begin_ne_idle _ _)
    · simp only [Function.update_self] at hbegun
      rw [hbegun]
      exact h.start hidle hmay
  | @act k _ _ _ _ _ _ _ _ _ hk hphase =>
    have hbusy : σ.workers k ≠ .idle := by simp [hk]
    refine h.step (.act hk hphase) (System.idle_update hbusy _) ?_
    rintro entry ⟨⟩
    exact h.allows_of_busy hbusy
  | advance hk hover => exact h.step (.advance hk hover) (System.idle_update (by simp [hk]) _) hquiet

/-! ### One worker by itself -/

namespace System.Onward

variable {may : Permission} {σ₀ σ : System} {k : Nat}

theorem keptBy (hk : may.Allows k) : KeptBy (Onward may σ₀) k := by
  intro σ σ' h hstep hbusy hothers hbusy' hlogged _
  refine h.step hstep ?_ fun entry hentry => by rwa [hlogged entry hentry]
  intro j hj
  by_cases hjk : j = k
  · subst hjk
    exact absurd hj hbusy
  · rw [hothers j hjk]
    exact hj

theorem begin (h : Onward may σ₀ σ) (hk : σ.workers k = .idle) {s : Scheduler} {op : Operation} (hmay : may k s op)
    {logged : Log → Prop} (hlogged : logged []) : Solo (Onward may σ₀) logged σ k σ.world ((s.task op).begin 0) :=
  ⟨[], h.start hk hmay, hlogged⟩

/-- An idle worker may run an operation alone that `may` permits. -/
theorem alone (h : Onward may σ₀ σ) (hk : σ.workers k = .idle) {s : Scheduler} {op : Operation} (hmay : may k s op)
    (gateway : List Charge → Charge → Except Failure GatewayResult) :
    Solo (Onward may σ₀) (Log.All fun e => e.place.worker = k ∧ e.event.Ongoing) σ k
      ((s.task op).sequential.run (World.reply gateway) σ.world).2
      (.finished ((s.task op).sequential.run (World.reply gateway) σ.world).1) := by
  have hreplies : ∀ number piece, ∃ during,
      Replies gateway (Log.All fun e => e.place.worker = k ∧ e.event.Ongoing) during (fun _ => True)
        ⟨k, number, piece⟩ := fun _ _ => ⟨_, Replies.ongoing gateway (·.worker = k) rfl⟩
  exact (Solo.task (keptBy ⟨s, op, hmay⟩) hreplies (h.begin hk hmay .nil) trivial).1

end System.Onward

theorem System.rest_update {workers : Nat → Activity} (h : ∀ k, workers k = .idle ∨ ∃ x, workers k = .finished x)
    (j : Nat) (x : Report) (k : Nat) :
    Function.update workers j (.finished x) k = .idle ∨
      ∃ y, Function.update workers j (.finished x) k = .finished y := by
  by_cases hk : k = j
  · subst hk
    exact .inr ⟨x, Function.update_self ..⟩
  · rw [Function.update_of_ne hk]
    exact h k

namespace Sample

/-- Submitting the sample payment and polling. -/
def submitsOrPolls : Permission := fun _ s op => s = scheduler ∧ (op = .submit submission ∨ op = .poll none)

/-- One worker has submitted the payment to a gateway that declines the first charge, another one has retried it. -/
theorem onward_retried : ∃ σ, System.Onward submitsOrPolls { world := world } σ ∧ σ.world = retried ∧
    ∀ k, σ.workers k = .idle ∨ ∃ x, σ.workers k = .finished x := by
  have hfirst : System.Onward submitsOrPolls { world := world } { world := world } := .refl
  obtain ⟨_, hsubmitted, -⟩ := hfirst.alone (k := 0) rfl ⟨rfl, .inl rfl⟩ gateway
  obtain ⟨_, hretried, -⟩ := hsubmitted.alone (k := 1) rfl ⟨rfl, .inr rfl⟩ gateway
  exact ⟨_, hretried, rfl, System.rest_update (System.rest_update (fun _ => .inl rfl) 0 _) 1 _⟩

end Sample

/-! ### Calls and announcements -/

/-- The event that a request publishes. -/
def Request.announcements : Request → List Publication
  | .publish c => [.event c]
  | _ => []

/-- The published events, the latest first. -/
def Log.announcements : Log → List Publication
  | [] => []
  | ⟨_, .act (.exchanged e)⟩ :: log => e.request.announcements ++ announcements log
  | _ :: log => announcements log

/-- The charges that the gateway was asked for, the latest first. -/
def Log.charges : Log → List Charge
  | [] => []
  | ⟨_, .act (.asked c)⟩ :: log => c :: charges log
  | _ :: log => charges log

private theorem Log.announcements_quiet {entry : Entry} (h : ∀ a, entry.event ≠ .act a) (log : Log) :
    announcements (entry :: log) = announcements log := by
  obtain ⟨p, event⟩ := entry
  cases event
  case act a => exact absurd rfl (h a)
  all_goals rfl

private theorem Log.charges_quiet {entry : Entry} (h : ∀ a, entry.event ≠ .act a) (log : Log) :
    charges (entry :: log) = charges log := by
  obtain ⟨p, event⟩ := entry
  cases event
  case act a => exact absurd rfl (h a)
  all_goals rfl

/-- Only `charge`, `publish` and `count` change the charges, the events and the counters. -/
theorem Simulation.World.answer_frame {w : World} (hw : w.faults = []) {r : Request}
    (hcharge : ∀ c, r ≠ .charge c) (hpublish : ∀ c, r ≠ .publish c) :
    (w.answer r).2.charges = w.charges ∧ (w.answer r).2.published = w.published ∧
      ((∀ m, r ≠ .count m) → (w.answer r).2.counts = w.counts) := by
  cases r
  case charge c => exact absurd rfl (hcharge c)
  case publish c => exact absurd rfl (hpublish c)
  case count m => exact ⟨rfl, rfl, fun hcount => absurd rfl (hcount m)⟩
  case create d =>
    obtain ⟨t, hread⟩ := w.exists_readClock
    simp only [answer, create_of_undisturbed hw, storeDraft, hread]
    split <;> exact ⟨rfl, rfl, fun _ => rfl⟩
  case get id =>
    rw [answer, get_of_undisturbed hw]
    exact ⟨rfl, rfl, fun _ => rfl⟩
  case transition id source target change =>
    obtain ⟨t, hread⟩ := w.exists_readClock
    simp only [answer, transition_of_undisturbed hw, move, hread]
    split
    · exact ⟨rfl, rfl, fun _ => rfl⟩
    · split
      · exact ⟨rfl, rfl, fun _ => rfl⟩
      · rename_i store _
        rw [get_of_undisturbed (w := { w with now := t, store := store }) hw]
        exact ⟨rfl, rfl, fun _ => rfl⟩
  case listDue asOf limit =>
    rw [answer, list_of_undisturbed hw]
    exact ⟨rfl, rfl, fun _ => rfl⟩
  case listStale olderThan limit =>
    rw [answer, list_of_undisturbed hw]
    exact ⟨rfl, rfl, fun _ => rfl⟩
  case now =>
    obtain ⟨t, hread⟩ := w.exists_readClock
    rw [answer, hread]
    exact ⟨rfl, rfl, fun _ => rfl⟩
  case breakerAllows =>
    simp only [answer, observeBreaker]
    split <;> exact ⟨rfl, rfl, fun _ => rfl⟩
  case breakerFailed =>
    simp only [answer, failBreaker]
    split <;> exact ⟨rfl, rfl, fun _ => rfl⟩
  all_goals exact ⟨rfl, rfl, fun _ => rfl⟩

/-- An exchange leaves the charges alone and adds the events it publishes. -/
theorem Exchange.Happens.frame {e : Exchange} (h : e.Happens) (hw : e.before.faults = []) :
    e.after.charges = e.before.charges ∧ e.after.published = e.request.announcements ++ e.before.published := by
  obtain ⟨r, x, refused, before, after⟩ := e
  simp only [Exchange.Happens] at h hw ⊢
  cases refused with
  | true =>
    simp only [if_true] at h
    obtain ⟨rfl, f, hf⟩ := h
    cases r
    case publish c => cases hf
    all_goals exact ⟨rfl, rfl⟩
  | false =>
    simp only [Bool.false_eq_true, if_false] at h
    by_cases hcharge : ∃ c, r = .charge c
    · obtain ⟨c, rfl⟩ := hcharge
      obtain rfl : after = before := h
      exact ⟨rfl, rfl⟩
    by_cases hpublish : ∃ c, r = .publish c
    · obtain ⟨c, rfl⟩ := hpublish
      obtain ⟨rfl, -⟩ := h
      exact ⟨rfl, rfl⟩
    simp only [not_exists] at hcharge hpublish
    obtain ⟨hcharges, hpublished, -⟩ := World.answer_frame hw hcharge hpublish
    cases r
    case charge c => exact absurd rfl (hcharge c)
    case publish c => exact absurd rfl (hpublish c)
    all_goals
      rw [show before.answer _ = (x, after) from h] at hcharges hpublished
      exact ⟨hcharges, hpublished⟩

/-! ### Where rows come from -/

/-- The origin of a row: it is one of `old`, or was created, or moved, by a worker that `may` allows. -/
inductive Attempt.Stems (may : Permission) (old : List Attempt) (log : Log) (a : Attempt) : Prop
  | kept : a ∈ old → Stems may old log a
  | stored {p : Place} {d : Draft} {b : Attempt} {refused : Bool} {before after : World} :
      ⟨p, .act (.exchanged ⟨.create d, .ok b, refused, before, after⟩)⟩ ∈ log → may.Allows p.worker →
      a = b.asStored → Stems may old log a
  | completed {p : Place} {id : AttemptId} {target : AttemptState} {change : Change} {refused : Bool}
      {before after : World} :
      ⟨p, .act (.exchanged ⟨.transition id .pending target change, .ok a, refused, before, after⟩)⟩ ∈ log →
      may.Allows p.worker → Stems may old log a

theorem Attempt.Stems.mono {may : Permission} {old : List Attempt} {log log' : Log} {a : Attempt}
    (h : a.Stems may old log) (hlog : log ⊆ log') : a.Stems may old log' := by
  cases h with
  | kept h => exact .kept h
  | stored h hmay ha => exact .stored (hlog h) hmay ha
  | completed h hmay => exact .completed (hlog h) hmay

/-- A row after an exchange was there before, or has been created or moved by it. -/
theorem Exchange.Sound.mem_rows {e : Exchange} {s : Store} (h : e.Sound s) {a : Attempt}
    (ha : a ∈ e.after.store.rows) :
    a ∈ e.before.store.rows ∨
      (∃ d b refused before after, e = ⟨.create d, .ok b, refused, before, after⟩ ∧ a = b.asStored) ∨
      ∃ id target change refused before after,
        e = ⟨.transition id .pending target change, .ok a, refused, before, after⟩ := by
  have heffect := h.effect
  have hsettles := h.settles
  have hdistinct := h.sequenced.distinct
  obtain ⟨r, x, refused, before, after⟩ := e
  cases r
  case create d =>
    rcases heffect with ⟨f, -, heq⟩ | ⟨b, now, hx, hinsert⟩
    · exact .inl (heq ▸ ha)
    · simp only at hx
      subst hx
      rw [(Store.insert_eq_ok hinsert).2.2.2, List.mem_append, List.mem_singleton] at ha
      rcases ha with ha | ha
      · exact .inl ha
      · exact .inr (.inl ⟨d, b, refused, before, after, rfl, ha⟩)
  case transition id source target change =>
    obtain ⟨rfl, -⟩ := hsettles
    rcases heffect with ⟨f, -, heq⟩ | ⟨b, now, hx, hmove, hfind⟩
    · exact .inl (heq ▸ ha)
    · simp only at hx
      subst hx
      obtain ⟨first, c, last, hrows, hid, -, hrows'⟩ := Store.move?_eq_some hdistinct hmove
      obtain ⟨hb, hbid⟩ := Store.find?_eq_some hfind
      rw [hrows', List.mem_append, List.mem_cons] at ha
      rw [hrows, List.mem_append, List.mem_cons]
      rcases ha with ha | ha | ha
      · exact .inl (.inl ha)
      · -- the row that has been completed is the one that was read back
        have hmem : a ∈ after.store.rows := by
          rw [show after.store.rows = _ from hrows', ha]
          simp
        have haid : a.id = id := by rw [ha]; exact hid
        obtain rfl := (hdistinct.move hmove).eq_of_id hmem hb (haid.trans hbid.symm)
        exact .inr (.inr ⟨id, target, change, refused, before, after, rfl⟩)
      · exact .inl (.inr (.inr ha))
  case get id => exact .inl (heffect.1 ▸ ha)
  case listDue asOf limit => exact .inl (heffect.1 ▸ ha)
  all_goals exact .inl ((show after.store = before.store from heffect) ▸ ha)

/-- A row after an exchange was there before, as it is or pending, or has been created by it. -/
theorem Exchange.Sound.becomes_of_mem {e : Exchange} {s : Store} (h : e.Sound s) {a : Attempt}
    (ha : a ∈ e.after.store.rows) :
    (∃ b ∈ e.before.store.rows, b.Becomes a) ∨
      ∃ d b refused before after, e = ⟨.create d, .ok b, refused, before, after⟩ ∧ a = b.asStored := by
  have heffect := h.effect
  have hsettles := h.settles
  have hdistinct := h.sequenced.distinct
  obtain ⟨r, x, refused, before, after⟩ := e
  cases r
  case create d =>
    rcases heffect with ⟨f, -, heq⟩ | ⟨b, now, hx, hinsert⟩
    · exact .inl ⟨a, heq ▸ ha, .refl a⟩
    · simp only at hx
      subst hx
      rw [(Store.insert_eq_ok hinsert).2.2.2, List.mem_append, List.mem_singleton] at ha
      rcases ha with ha | ha
      · exact .inl ⟨a, ha, .refl a⟩
      · exact .inr ⟨d, b, refused, before, after, rfl, ha⟩
  case transition id source target change =>
    obtain ⟨rfl, htarget⟩ := hsettles
    rcases heffect with ⟨f, -, heq⟩ | ⟨b, now, hx, hmove, hfind⟩
    · exact .inl ⟨a, heq ▸ ha, .refl a⟩
    · obtain ⟨first, c, last, hrows, -, hpending, hrows'⟩ := Store.move?_eq_some hdistinct hmove
      rw [hrows', List.mem_append, List.mem_cons] at ha
      rw [hrows]
      rcases ha with ha | rfl | ha
      · exact .inl ⟨a, by simp [ha], .refl a⟩
      · exact .inl ⟨c, by simp, .inr (change.completedAs_apply hpending htarget now)⟩
      · exact .inl ⟨a, by simp [ha], .refl a⟩
  case get id => exact .inl ⟨a, heffect.1 ▸ ha, .refl a⟩
  case listDue asOf limit => exact .inl ⟨a, heffect.1 ▸ ha, .refl a⟩
  all_goals exact .inl ⟨a, (show after.store = before.store from heffect) ▸ ha, .refl a⟩

namespace System.Onward

variable {may : Permission} {w : World} {σ₀ σ : System}

/-- The new entries of a run are of workers that `may` allows, and its new charges and events are the logged ones. -/
theorem exists_new (hw : w.Unused) (h₀ : Reachable w σ₀) (h : Onward may σ₀ σ) :
    ∃ new, σ.log = new ++ σ₀.log ∧ (∀ entry ∈ new, may.Allows entry.place.worker) ∧
      σ.world.charges = Log.charges new ++ σ₀.world.charges ∧
      σ.world.published = Log.announcements new ++ σ₀.world.published := by
  induction h with
  | refl => exact ⟨[], rfl, by simp, rfl, rfl⟩
  | start _ _ _ ih => exact ih
  | @step σ σ' h hstep hidle hallowed ih =>
    obtain ⟨new, hnew, hmay, hcharges, hpublished⟩ := ih
    have hcons : ∀ entry, σ'.log = entry :: σ.log →
        σ'.log = (entry :: new) ++ σ₀.log ∧ ∀ e ∈ entry :: new, may.Allows e.place.worker := by
      intro entry hentry
      refine ⟨by rw [hentry, hnew]; rfl, ?_⟩
      rintro e (_ | ⟨_, he⟩)
      · exact hallowed entry hentry
      · exact hmay e he
    rcases hstep.exchange_or_quiet with ⟨p, e, hlog, he, hbefore, hafter⟩ | ⟨p, c, hlog, hworld⟩ |
      ⟨⟨t, hworld⟩, hlog | ⟨entry, hlog, hquiet⟩⟩
    · obtain ⟨hlog', hmay'⟩ := hcons _ hlog
      have hundisturbed := ((h.reachable h₀).log_sound hw).undisturbed
      rw [← hbefore] at hundisturbed
      obtain ⟨hframe, hframe'⟩ := he.frame hundisturbed
      rw [hbefore, hafter] at hframe hframe'
      refine ⟨_, hlog', hmay', hframe.trans hcharges, ?_⟩
      rw [hframe', hpublished, Log.announcements, List.append_assoc]
    · obtain ⟨hlog', hmay'⟩ := hcons _ hlog
      exact ⟨_, hlog', hmay', by rw [hworld, World.charged, hcharges]; rfl, by rw [hworld]; exact hpublished⟩
    · exact ⟨new, hlog.trans hnew, hmay, by rw [hworld]; exact hcharges, by rw [hworld]; exact hpublished⟩
    · obtain ⟨hlog', hmay'⟩ := hcons _ hlog
      refine ⟨_, hlog', hmay', ?_, ?_⟩
      · rw [hworld, Log.charges_quiet hquiet]
        exact hcharges
      · rw [hworld, Log.announcements_quiet hquiet]
        exact hpublished

theorem stems (hw : w.Unused) (h₀ : Reachable w σ₀) (h : Onward may σ₀ σ) :
    ∀ a ∈ σ.world.store.rows, a.Stems may σ₀.world.store.rows σ.log := by
  induction h with
  | refl => exact fun a ha => .kept ha
  | start _ _ _ ih => exact ih
  | @step σ σ' h hstep hidle hallowed ih =>
    have hsound := ((h.step hstep hidle hallowed).reachable h₀).log_sound hw
    intro a ha
    rcases hstep.exchange_or_quiet with ⟨p, e, hlog, -, hbefore, hafter⟩ | ⟨p, c, hlog, hworld⟩ | ⟨⟨t, hworld⟩, -⟩
    · have hmem : ⟨p, .act (.exchanged e)⟩ ∈ σ'.log := by simp [hlog]
      have hmay := hallowed _ hlog
      rw [← hafter] at ha
      rcases (hsound.exchanges p e hmem).mem_rows ha with ha | ⟨d, b, refused, before, after, rfl, rfl⟩ |
        ⟨id, target, change, refused, before, after, rfl⟩
      · rw [hbefore] at ha
        exact (ih a ha).mono hstep.log_subset
      · exact .stored hmem hmay rfl
      · exact .completed hmem hmay
    · rw [hworld] at ha
      exact (ih a ha).mono hstep.log_subset
    · rw [hworld] at ha
      exact (ih a ha).mono hstep.log_subset

/-- A row was in `σ₀`, as it is or pending, or has been created by a worker that `may` allows. -/
theorem origins (hw : w.Unused) (h₀ : Reachable w σ₀) (h : Onward may σ₀ σ) {a : Attempt}
    (ha : a ∈ σ.world.store.rows) :
    (∃ b ∈ σ₀.world.store.rows, b.Becomes a) ∨ ∃ p d b refused before after,
      ⟨p, .act (.exchanged ⟨.create d, .ok b, refused, before, after⟩)⟩ ∈ σ.log ∧ may.Allows p.worker ∧
        b.asStored.Becomes a := by
  induction h generalizing a with
  | refl => exact .inl ⟨a, ha, .refl a⟩
  | start _ _ _ ih => exact ih ha
  | @step σ σ' h hstep hidle hallowed ih =>
    have hsound := ((h.step hstep hidle hallowed).reachable h₀).log_sound hw
    have hearlier : ∀ {c : Attempt}, c ∈ σ.world.store.rows → c.Becomes a →
        (∃ b ∈ σ₀.world.store.rows, b.Becomes a) ∨ ∃ p d b refused before after,
          ⟨p, .act (.exchanged ⟨.create d, .ok b, refused, before, after⟩)⟩ ∈ σ'.log ∧ may.Allows p.worker ∧
            b.asStored.Becomes a := by
      intro c hc hca
      rcases ih hc with ⟨b, hb, hbc⟩ | ⟨p, d, b, refused, before, after, hmem, hp, hbc⟩
      · exact .inl ⟨b, hb, hbc.trans hca⟩
      · exact .inr ⟨p, d, b, refused, before, after, hstep.log_subset hmem, hp, hbc.trans hca⟩
    rcases hstep.exchange_or_quiet with ⟨p, e, hlog, -, hbefore, hafter⟩ | ⟨p, c, hlog, hworld⟩ | ⟨⟨t, hworld⟩, -⟩
    · have hmem : ⟨p, .act (.exchanged e)⟩ ∈ σ'.log := by simp [hlog]
      rw [← hafter] at ha
      rcases (hsound.exchanges p e hmem).becomes_of_mem ha with ⟨c, hc, hca⟩ | ⟨d, b, refused, before, after, rfl, rfl⟩
      · rw [hbefore] at hc
        exact hearlier hc hca
      · exact .inr ⟨p, d, b, refused, before, after, hmem, hallowed _ hlog, .refl _⟩
    · rw [hworld] at ha
      exact hearlier ha (.refl a)
    · rw [hworld] at ha
      exact hearlier ha (.refl a)

theorem grows (hw : w.Unused) (h₀ : Reachable w σ₀) (h : Onward may σ₀ σ) :
    σ₀.world.store.Grows σ.world.store := by
  induction h with
  | refl => exact .refl _
  | start _ _ _ ih => exact ih
  | @step σ σ' h hstep hidle hallowed ih =>
    have hsound := ((h.step hstep hidle hallowed).reachable h₀).log_sound hw
    rcases hstep.exchange_or_quiet with ⟨p, e, hlog, -, hbefore, hafter⟩ | ⟨p, c, hlog, hworld⟩ | ⟨⟨t, hworld⟩, -⟩
    · have hmem : ⟨p, .act (.exchanged e)⟩ ∈ σ'.log := by simp [hlog]
      rw [← hbefore] at ih
      rw [← hafter]
      exact ih.trans (hsound.exchanges p e hmem).moves.grows
    · rw [hworld]
      exact ih
    · rw [hworld]
      exact ih

/-- A new exchange took place in a system of the run, while its worker was in its round. -/
theorem at_exchange (h : Onward may σ₀ σ) {p : Place} {e : Exchange} (hnew : ⟨p, .act (.exchanged e)⟩ ∉ σ₀.log)
    (hmem : ⟨p, .act (.exchanged e)⟩ ∈ σ.log) : ∃ σ₁ later, Onward may σ₀ σ₁ ∧ σ₁.world = e.before ∧
      (σ₁.workers p.worker).InRound p.round ∧ σ.log = later ++ ⟨p, .act (.exchanged e)⟩ :: σ₁.log := by
  induction h with
  | refl => exact absurd hmem hnew
  | start _ _ _ ih => exact ih hmem
  | @step σ σ' h hstep _ _ ih =>
    have hcons : ∀ entry, σ'.log = entry :: σ.log → ⟨p, .act (.exchanged e)⟩ ∈ σ.log → ∃ σ₁ later,
        Onward may σ₀ σ₁ ∧ σ₁.world = e.before ∧ (σ₁.workers p.worker).InRound p.round ∧
          σ'.log = later ++ ⟨p, .act (.exchanged e)⟩ :: σ₁.log := by
      intro entry hentry hmem
      obtain ⟨σ₁, later, h₁, hworld, hround, hlog⟩ := ih hmem
      exact ⟨σ₁, entry :: later, h₁, hworld, hround, by rw [hentry, hlog]; rfl⟩
    rcases hstep.exchange_or_quiet with ⟨q, e', hlog, -, hbefore, -⟩ | ⟨q, c, hlog, -⟩ |
      ⟨-, hlog | ⟨entry, hlog, hquiet⟩⟩
    · rw [hlog, List.mem_cons] at hmem
      rcases hmem with heq | hmem
      · cases heq
        exact ⟨σ, [], h, hbefore.symm, hstep.in_round hlog, hlog⟩
      · exact hcons _ hlog hmem
    · rw [hlog, List.mem_cons] at hmem
      rcases hmem with heq | hmem
      · cases congrArg Entry.event heq
      · exact hcons _ hlog hmem
    · exact hlog ▸ ih (hlog ▸ hmem)
    · rw [hlog, List.mem_cons] at hmem
      rcases hmem with rfl | hmem
      · exact absurd rfl (hquiet _)
      · exact hcons _ hlog hmem

/-- The store before a new exchange has grown from that of `σ₀`. -/
theorem grows_before (hw : w.Unused) (h₀ : Reachable w σ₀) (h : Onward may σ₀ σ) {p : Place} {e : Exchange}
    (hnew : ⟨p, .act (.exchanged e)⟩ ∉ σ₀.log) (hmem : ⟨p, .act (.exchanged e)⟩ ∈ σ.log) :
    σ₀.world.store.Grows e.before.store := by
  obtain ⟨σ₁, _, h₁, hworld, -⟩ := h.at_exchange hnew hmem
  rw [← hworld]
  exact h₁.grows hw h₀

end System.Onward

end PaymentRetry
