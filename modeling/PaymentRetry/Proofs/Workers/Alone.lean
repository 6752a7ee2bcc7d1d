import PaymentRetry.Proofs.Workers.System

/-!
# A worker that is alone

A worker may go through its operation while all others rest, one program after the other (`Solo.task`).  So whatever
comes of an operation run by itself, as `Task.sequential` has it, is among the systems that can be reached
(`Reachable.alone`).
-/

namespace PaymentRetry

open Simulation

/-! ### One worker -/

/-- The steps of worker `k`, once it has begun, preserve `R`, and those that log nothing leave the world alone. -/
def KeptBy (R : System → Prop) (k : Nat) : Prop :=
  ∀ σ σ', R σ → σ.Step σ' → σ.workers k ≠ .idle → (∀ j, j ≠ k → σ'.workers j = σ.workers j) →
    σ'.workers k ≠ .idle → (∀ entry, σ'.log = entry :: σ.log → entry.place.worker = k) →
    (σ'.log = σ.log → σ'.world = σ.world) → R σ'

/-- All entries of the log satisfy `kind`. -/
abbrev Log.All (kind : Entry → Prop) (log : Log) : Prop := ∀ e ∈ log, kind e

theorem Log.All.nil {kind : Entry → Prop} : Log.All kind [] := List.forall_mem_nil _

theorem Log.All.cons {kind : Entry → Prop} {e : Entry} (he : kind e) {log : Log} (h : log.All kind) :
    Log.All kind (e :: log) := List.forall_mem_cons.2 ⟨he, h⟩

/-- `R` holds of `σ` with worker `k` in `activity`, the world `w'`, and new log entries that satisfy `logged`. -/
def Solo (R : System → Prop) (logged : Log → Prop) (σ : System) (k : Nat) (w' : World) (activity : Activity) :
    Prop :=
  ∃ new, R { world := w', workers := Function.update σ.workers k activity, log := new ++ σ.log } ∧ logged new

/-- A program at `p` that is answered by `World.reply` passes through worlds that satisfy `through`.  If `logged` holds
of the log when it begins, `during` holds until it ends, and `logged` afterwards. -/
structure Replies (gateway : List Charge → Charge → Except Failure GatewayResult) (logged during : Log → Prop)
    (through : World → Prop) (p : Place) : Prop where
  begun : ∀ log, logged log → during log
  exchanged : ∀ r w, (∀ c, r ≠ .charge c) → through w →
    (∀ log, during log → during
      (⟨p, .act (.exchanged ⟨r, (World.reply gateway r w).1, false, w, (World.reply gateway r w).2⟩)⟩ :: log)) ∧
      through (World.reply gateway r w).2
  charged : ∀ c w, through w →
    (∀ log, during log → during (⟨p, .act (.asked c)⟩ :: log)) ∧
      (∀ log, during log → during
        (⟨p, .act (.exchanged ⟨.charge c, gateway w.charges c, false, w.charged c, w.charged c⟩)⟩ :: log)) ∧
      through (w.charged c)
  ended : ∀ log, during log → logged (⟨p, .ended⟩ :: log)

namespace Solo

variable {R : System → Prop} {logged during : Log → Prop} {through : World → Prop} {w' : World} {σ : System}
  {k number n : Nat} {β : Type} {phases : Fin n → Phase β} {next : (Fin n → β) → Task Report}

/-- One step of program `i` preserves `Solo`. -/
theorem step (hR : KeptBy R k) {w'' : World} {i : Fin n} {φ φ' : Phase β} {event : Event}
    (h : Solo R logged σ k w' (.round number (Function.update phases i φ) next))
    (hstep : φ.Step w' event φ' w'') (hlogged : ∀ new, logged new → during (⟨⟨k, number, i⟩, event⟩ :: new)) :
    Solo R during σ k w'' (.round number (Function.update phases i φ') next) := by
  obtain ⟨new, h, hnew⟩ := h
  have hi : (Function.update phases i φ i).Step w' event φ' w'' := by
    rw [Function.update_self]
    exact hstep
  have h' := hR _ _ h (.act (Function.update_self ..) hi) (by simp) (fun j hj => by simp [hj]) (by simp) (by simp)
    (by simp)
  simp only [Function.update_idem] at h'
  exact ⟨⟨⟨k, number, i⟩, event⟩ :: new, h', hlogged new hnew⟩

theorem mono {activity : Activity} (h : Solo R logged σ k w' activity) (hlogged : ∀ new, logged new → during new) :
    Solo R during σ k w' activity := by
  obtain ⟨new, h, hnew⟩ := h
  exact ⟨new, h, hlogged new hnew⟩

variable {gateway : List Charge → Charge → Except Failure GatewayResult}

/-- Running program `i` to its end preserves `Solo`. -/
theorem program (hR : KeptBy R k) {i : Fin n} (hreplies : Replies gateway logged during through ⟨k, number, i⟩)
    {p : Program β} (h : Solo R logged σ k w' (.round number (Function.update phases i (.running p)) next))
    (hw : through w') :
    Solo R logged σ k (p.run (World.reply gateway) w').2
        (.round number (Function.update phases i (.finished (p.run (World.reply gateway) w').1)) next) ∧
      through (p.run (World.reply gateway) w').2 := by
  replace h := h.mono hreplies.begun
  induction p generalizing w' with
  | done b => exact ⟨h.step hR .finish hreplies.ended, hw⟩
  | ask r next' ih =>
    by_cases hr : ∃ c, r = .charge c
    · obtain ⟨c, rfl⟩ := hr
      obtain ⟨hasked, hanswered, hw'⟩ := hreplies.charged c w' hw
      have hanswer : (Phase.waiting c next').Step (w'.charged c) _ _ _ := .answer (x := gateway w'.charges c)
      exact ih _ hw' ((h.step hR .ask hasked).step hR hanswer hanswered)
    · simp only [not_exists] at hr
      obtain ⟨hexchanged, hw'⟩ := hreplies.exchanged r w' hr hw
      exact ih _ hw' (h.step hR (.exchange hr (World.reply_happens gateway r hr w')) hexchanged)

private theorem inOrder (hR : KeptBy R k)
    (hreplies : ∀ i : Fin n, ∃ during, Replies gateway logged during through ⟨k, number, i⟩)
    {m : Nat} (pick : Fin m → Fin n) (hpick : Function.Injective pick)
    {ps : Fin m → Program β} (hps : ∀ j, phases (pick j) = .running (ps j))
    (h : Solo R logged σ k w' (.round number phases next)) (hw : through w') :
    ∃ phases' : Fin n → Phase β,
      Solo R logged σ k ((Program.inOrder ps).run (World.reply gateway) w').2 (.round number phases' next) ∧
        through ((Program.inOrder ps).run (World.reply gateway) w').2 ∧
        (∀ j, phases' (pick j) = .finished (((Program.inOrder ps).run (World.reply gateway) w').1 j)) ∧
        ∀ i, (∀ j, pick j ≠ i) → phases' i = phases i := by
  induction m generalizing w' phases with
  | zero => exact ⟨phases, h, hw, fun j => j.elim0, fun _ _ => rfl⟩
  | succ m ih =>
    have hfirst : Solo R logged σ k w'
        (.round number (Function.update phases (pick 0) (.running (ps 0))) next) := by
      rw [← hps 0, Function.update_eq_self]
      exact h
    have hne : ∀ j : Fin m, pick j.succ ≠ pick 0 := fun j hj => Fin.succ_ne_zero j (hpick hj)
    have hrunning : ∀ (φ : Phase β) (j : Fin m),
        Function.update phases (pick 0) φ (pick j.succ) = .running (ps j.succ) := by
      intro φ j
      rw [Function.update_of_ne (hne j)]
      exact hps j.succ
    obtain ⟨during, hreplies₀⟩ := hreplies (pick 0)
    obtain ⟨hreached₁, hw₁⟩ := hfirst.program hR hreplies₀ hw
    obtain ⟨phases', hreached, hw₂, hover, hrest⟩ := ih (fun j => pick j.succ)
      (fun j j' hj => Fin.succ_inj.1 (hpick hj)) (hrunning _) hreached₁ hw₁
    simp only [Program.inOrder, Program.run_bind, Program.run_done]
    refine ⟨phases', hreached, hw₂, ?_, ?_⟩
    · intro j
      cases j using Fin.cases with
      | zero =>
        rw [hrest (pick 0) hne, Function.update_self]
        rfl
      | succ j => exact hover j
    · intro i hi
      rw [hrest i fun j => hi j.succ, Function.update_of_ne fun h => hi 0 h.symm]

/-- Running a task to its end, one program after the other, preserves `Solo`. -/
theorem task (hR : KeptBy R k)
    (hreplies : ∀ number piece, ∃ during, Replies gateway logged during through ⟨k, number, piece⟩)
    {t : Task Report} (h : Solo R logged σ k w' (t.begin number)) (hw : through w') :
    Solo R logged σ k (t.sequential.run (World.reply gateway) w').2
        (.finished (t.sequential.run (World.reply gateway) w').1) ∧
      through (t.sequential.run (World.reply gateway) w').2 := by
  induction t generalizing w' number with
  | done x => exact ⟨h, hw⟩
  | round pieces next ih =>
    obtain ⟨phases', ⟨new, hreached, hnew⟩, hw', hover, -⟩ :=
      inOrder hR (fun i => hreplies number i) id Function.injective_id (fun _ => rfl) h hw
    have h' := hR _ _ hreached (.advance (Function.update_self ..) hover) (by simp) (fun j hj => by simp [hj])
      (by simp only [Function.update_self]; exact Task.begin_ne_idle _ _)
      (fun entry hentry => by simpa using congrArg List.length hentry) (fun _ => rfl)
    simp only [Function.update_idem] at h'
    simp only [Task.sequential, Program.run_bind]
    exact ih _ ⟨new, h', hnew⟩ hw'

theorem single {s : Scheduler} {op : Operation} {p : Program β} {f : β → Report}
    (hop : s.task op = (Task.lift p).bind fun x => .done (f x)) (h : Solo R logged σ k w' ((s.task op).begin 0)) :
    Solo R logged σ k w'
      (.round 0 (Function.update (fun _ : Fin 1 => .running p) 0 (.running p)) fun bs => .done (f (bs 0))) := by
  rw [hop] at h
  rw [Function.update_eq_self_iff.2 rfl]
  exact h

end Solo

/-! ### What can be reached -/

/-- The event is neither the return of a call nor a refusal. -/
def Event.Ongoing : Event → Prop
  | .act (.exchanged e) => e.refused = false
  | .left .. => False
  | _ => True

/-- `w` reaches `σ` with worker `k` in some activity in another world, and only `Ongoing` events at `places` logged
since. -/
def ReachedAt (places : Place → Prop) (w : World) : System → Nat → World → Activity → Prop :=
  Solo (Reachable w) (Log.All fun e => places e.place ∧ e.event.Ongoing)

theorem Reachable.keptBy (w : World) (k : Nat) : KeptBy (Reachable w) k := fun _ _ h hstep _ _ _ _ _ => h.step hstep

theorem Replies.ongoing (gateway : List Charge → Charge → Except Failure GatewayResult) (places : Place → Prop)
    {p : Place} (hp : places p) :
    Replies gateway (Log.All fun e => places e.place ∧ e.event.Ongoing)
      (Log.All fun e => places e.place ∧ e.event.Ongoing) (fun _ => True) p where
  begun _ h := h
  exchanged _ _ _ _ := ⟨fun _ => .cons ⟨hp, rfl⟩, trivial⟩
  charged _ _ _ := ⟨fun _ => .cons ⟨hp, trivial⟩, fun _ => .cons ⟨hp, rfl⟩, trivial⟩
  ended _ := .cons ⟨hp, trivial⟩

/-- An idle worker may begin an operation. -/
theorem Reachable.begin {w : World} {σ : System} (h : Reachable w σ) {k : Nat} (hk : σ.workers k = .idle)
    (s : Scheduler) (op : Operation) (places : Place → Prop) :
    ReachedAt places w σ k σ.world ((s.task op).begin 0) :=
  ⟨[], h.step (.start s op hk), .nil⟩

theorem Reachable.beginProgram {w : World} {σ : System} (h : Reachable w σ) {k : Nat} (hk : σ.workers k = .idle)
    {s : Scheduler} (op : Operation) {β : Type} {p : Program β} {f : β → Report}
    (hop : s.task op = (Task.lift p).bind fun x => .done (f x)) (places : Place → Prop) :
    ReachedAt places w σ k σ.world
      (.round 0 (Function.update (fun _ : Fin 1 => .running p) 0 (.running p)) fun bs => .done (f (bs 0))) :=
  (h.begin hk s op places).single hop

section

variable {places : Place → Prop} {w w' : World} {σ : System} {k number n : Nat} {β : Type}
  {phases : Fin n → Phase β} {next : (Fin n → β) → Task Report}

theorem ReachedAt.step {w'' : World} {i : Fin n} {φ φ' : Phase β} {event : Event}
    (h : ReachedAt places w σ k w' (.round number (Function.update phases i φ) next))
    (hstep : φ.Step w' event φ' w'') (hplace : places ⟨k, number, i⟩) (hongoing : event.Ongoing) :
    ReachedAt places w σ k w'' (.round number (Function.update phases i φ') next) :=
  Solo.step (Reachable.keptBy w k) h hstep fun _ => .cons ⟨hplace, hongoing⟩

variable (gateway : List Charge → Charge → Except Failure GatewayResult)

theorem ReachedAt.program {i : Fin n} {p : Program β}
    (h : ReachedAt places w σ k w' (.round number (Function.update phases i (.running p)) next))
    (hplace : places ⟨k, number, i⟩) :
    ReachedAt places w σ k (p.run (World.reply gateway) w').2
      (.round number (Function.update phases i (.finished (p.run (World.reply gateway) w').1)) next) :=
  (Solo.program (Reachable.keptBy w k) (Replies.ongoing gateway places hplace) h trivial).1

/-- An idle worker may run an operation alone, while all others rest: what `Task.sequential` makes of the world is
reachable. -/
theorem Reachable.alone {w : World} {σ : System} (h : Reachable w σ) {k : Nat} (hk : σ.workers k = .idle)
    (s : Scheduler) (op : Operation) :
    ReachedAt (·.worker = k) w σ k ((s.task op).sequential.run (World.reply gateway) σ.world).2
      (.finished ((s.task op).sequential.run (World.reply gateway) σ.world).1) := by
  have hreplies : ∀ number piece, ∃ during,
      Replies gateway (Log.All fun e => e.place.worker = k ∧ e.event.Ongoing) during (fun _ => True)
        ⟨k, number, piece⟩ := fun _ _ => ⟨_, Replies.ongoing gateway (·.worker = k) rfl⟩
  exact (Solo.task (Reachable.keptBy w k) hreplies (h.begin hk s op (·.worker = k)) trivial).1

end

/-! ### A payment that is retried once -/

namespace Sample

def world : World := { now := ⟨3600 * Duration.second, by decide⟩ }

/-- A scheduler that retries a declined payment once, without delay. -/
def scheduler : Scheduler := { policy := ⟨[0], 0, ⟨0⟩⟩ }

/-- A scheduler that retries a declined payment once, after a day. -/
def patient : Scheduler := { policy := ⟨[1], 0, ⟨0⟩⟩ }

/-- A payment of one euro. -/
def submission : Submission where
  key := some "order"
  transaction := some "charge"
  amount := .ofHundredths false 100
  currency := some "EUR"

/-- A gateway that declines the first charge and accepts all others. -/
def gateway (called : List Charge) (_ : Charge) : Except Failure GatewayResult :=
  .ok ⟨if called.isEmpty then .businessFailure else .success, none⟩

/-- An exception whose text has a lone surrogate, which the store does not take. -/
def unwritable : Failure := .raised "RuntimeError" [.text (String.ofList [Text.ofHalf 0xd800])]

/-- The world after the payment has been submitted. -/
def submitted : World := ((scheduler.task (.submit submission)).sequential.run (World.reply gateway) world).2

/-- The world after the payment has been retried. -/
def retried : World := ((scheduler.task (.poll none)).sequential.run (World.reply gateway) submitted).2

/-- The world after the payment's first attempt has been created. -/
def created : World := (world.answer (.create submission.draft)).2

/-- A worker may stop right after it has created the first attempt of the payment. -/
theorem reachable_created : ∃ σ, Reachable world σ ∧ σ.world = created ∧ (∀ k, k ≠ 0 → σ.workers k = .idle) ∧
    ∀ e ∈ σ.log, e.event.Ongoing := by
  obtain ⟨next, hnext⟩ : ∃ next, scheduler.submit submission = .ask (.create submission.draft) next := ⟨_, rfl⟩
  have hbegin := Reachable.refl.beginProgram (w := world) (k := 0) rfl (.submit submission)
    (s := scheduler) (f := .submitted) rfl fun _ => True
  rw [hnext] at hbegin
  obtain ⟨new, hreached, hnew⟩ :=
    hbegin.step (.exchange (by simp) (World.reply_happens gateway _ (by simp) world)) trivial rfl
  refine ⟨_, hreached, rfl, fun k hk => Function.update_of_ne hk _ _, ?_⟩
  intro e he
  rw [List.append_nil] at he
  exact (hnew e he).2

theorem reachable_retried : ∃ σ, Reachable world σ ∧ σ.world = retried := by
  obtain ⟨_, hsubmitted, -⟩ := Reachable.refl.alone gateway (k := 0) rfl scheduler (.submit submission)
  obtain ⟨_, hretried, -⟩ := hsubmitted.alone gateway (k := 1) rfl scheduler (.poll none)
  exact ⟨_, hretried, rfl⟩

end Sample

end PaymentRetry
