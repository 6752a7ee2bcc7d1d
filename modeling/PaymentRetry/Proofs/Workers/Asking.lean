import PaymentRetry.Proofs.Workers.Transcript

/-!
# What operations ask

A submission asks to store the draft that it was given and no other; a poll asks to store nothing but what retries an
attempt that it has listed, and to list what is due as of the moment that it was given or has read off the clock.  No
other operation asks for either.  `Program.Uses` says of a program which requests it makes, whatever the answers; each
program of the scheduler is gone through once (`Scheduler.task_along`), and what is logged has been asked by one of them
(`System.Onward.created`, `System.Onward.listed`).
-/

namespace PaymentRetry

open Simulation

/-! ### Requests of programs -/

namespace Program

variable {α β : Type} {allowed allowed' : Request → Prop}

/-- All requests of the program satisfy `allowed`. -/
def Uses (allowed : Request → Prop) : Program α → Prop
  | done _ => True
  | ask r next => allowed r ∧ ∀ x, (next x).Uses allowed

theorem uses_bind {p : Program α} {f : α → Program β} (hp : p.Uses allowed) (hf : ∀ a, (f a).Uses allowed) :
    (p.bind f).Uses allowed := by
  induction p with
  | done a => exact hf a
  | ask r next ih => exact ⟨hp.1, fun x => ih x (hp.2 x)⟩

theorem uses_request {r : Request} (hr : allowed r) : (request r).Uses allowed := ⟨hr, fun _ => trivial⟩

theorem Uses.mono {p : Program α} (hp : p.Uses allowed) (h : ∀ r, allowed r → allowed' r) : p.Uses allowed' := by
  induction p with
  | done a => trivial
  | ask r next ih => exact ⟨h r hp.1, fun x => ih x (hp.2 x)⟩

/-- The requests exchanged on the way from `p` to `q` satisfy `allowed`, and so do those of `q`. -/
theorem Uses.of_leaves {p q : Program α} {h : List Act} (hp : p.Uses allowed) (hq : p.Leaves h q) :
    q.Uses allowed ∧ ∀ e, .exchanged e ∈ h → allowed e.request := by
  induction hq with
  | start => exact ⟨hp, by simp⟩
  | @answered h r next x refused before after _ ih =>
    obtain ⟨⟨hr, hnext⟩, hearlier⟩ := ih
    refine ⟨hnext x, fun e he => ?_⟩
    rcases List.mem_cons.1 he with heq | he
    · cases heq
      exact hr
    · rcases List.mem_append.1 he with he | he
      · cases r
        case charge c => simp [Request.opening] at he
        all_goals cases he
      · exact hearlier e he

end Program

/-! ### Requests of the scheduler's programs -/

/-- The request neither creates an attempt nor lists due ones. -/
def Request.Routine : Request → Prop
  | .create _ | .listDue .. => False
  | _ => True

/-- A routine request other than a charge. -/
def Request.Uncharged : Request → Prop
  | .create _ | .listDue .. | .charge _ => False
  | _ => True

theorem Request.Uncharged.routine {r : Request} (h : r.Uncharged) : r.Routine := by
  cases r
  case create d => exact h
  case listDue asOf limit => exact h
  all_goals trivial

/-- What a poll as of `t` may ask, given the exchanges `known` of earlier rounds: only retries of listed attempts are
created, and only what is due at `t` is listed. -/
def Request.PollsAt (known : Exchange → Prop) (t : DateTime) : Request → Prop
  | .create d => ∃ due, Listed known due ∧ d = due.attempt.next
  | .listDue asOf _ => asOf = t
  | _ => True

/-- `e` was exchanged in a round before `r` of the history `H`. -/
def Task.Known (H : Nat → Nat → List Act) (r : Nat) (e : Exchange) : Prop := ∃ r' < r, ∃ i, .exchanged e ∈ H r' i

/-- What an operation may ask in round `r`.  A poll without a given moment takes it from the clock in round 0. -/
def Operation.MayAsk (H : Nat → Nat → List Act) (r : Nat) : Operation → Request → Prop
  | .submit p, .create d => d = p.draft
  | .poll asOf, q => q = .now ∨ ∃ t, q.PollsAt (Task.Known H r) t ∧
    (asOf = some t ∨ 0 < r ∧ ∃ refused before after, .exchanged ⟨.now, t, refused, before, after⟩ ∈ H 0 0)
  | _, q => q.Routine

theorem Request.Routine.pollsAt {r : Request} (h : r.Routine) (known : Exchange → Prop) (t : DateTime) :
    r.PollsAt known t := by
  cases r
  case create d => exact h.elim
  case listDue asOf limit => exact h.elim
  all_goals trivial

namespace Scheduler

open Program

variable (s : Scheduler)

theorem announce_uncharged (d : Decision) : (s.announce d).Uses Request.Uncharged := by
  unfold announce
  split
  · split
    · trivial
    · refine uses_bind (uses_request trivial) fun x => ?_
      split
      · trivial
      · split
        · trivial
        · exact uses_bind (uses_request trivial) fun _ => trivial
  · trivial

private theorem Enacts.uncharged {a : Attempt} {y : Except RangeError (AttemptState × Change)}
    {q : Program (Except Failure Decision)} (h : Enacts a y q) : q.Uses Request.Uncharged := by
  cases h with
  | unruled => trivial
  | ruled =>
    refine uses_bind (uses_request trivial) fun x => ?_
    split
    · trivial
    · exact uses_bind (uses_request trivial) fun _ => trivial

theorem complete_uncharged (a : Attempt) (result : GatewayResult) : (s.complete a result).Uses Request.Uncharged := by
  rcases s.complete_enacts a result with ⟨-, y, -, h⟩ | ⟨rest, hrest, h⟩
  · exact h.uncharged
  · rw [hrest]
    exact uses_bind (uses_request trivial) fun t => (h t).uncharged

theorem recordOutcome_uncharged (key : String) (id : AttemptId) (result : GatewayResult) :
    (s.recordOutcome key id result).Uses Request.Uncharged := by
  unfold recordOutcome
  refine uses_bind (uses_request trivial) fun x => ?_
  split
  · trivial
  split
  · trivial
  split
  · trivial
  refine uses_bind (uses_request trivial) fun _ => uses_bind (s.complete_uncharged _ _) fun y => ?_
  split
  · split
    · exact uses_bind (uses_request trivial) fun _ => uses_bind (uses_request trivial) fun _ => trivial
    · trivial
  · refine uses_bind (uses_request trivial) fun _ => ?_
    split
    · refine uses_bind (s.announce_uncharged _) fun z => ?_
      split <;> trivial
    · trivial

theorem recordOutcome_uses (key : String) (id : AttemptId) (result : GatewayResult) :
    (s.recordOutcome key id result).Uses Request.Routine :=
  (s.recordOutcome_uncharged key id result).mono fun _ hr => hr.routine

private theorem uses_log (r : Log.Record) : (Program.log r).Uses Request.Routine := uses_request trivial

private theorem uses_count (m : Metric) : (Program.count m).Uses Request.Routine := uses_request trivial

theorem charge_uses (c : Charge) : (s.charge c).Uses Request.Routine := by
  unfold charge
  split
  · refine uses_bind (uses_request trivial) fun allowed => ?_
    split
    · refine uses_bind (uses_request trivial) fun x => uses_bind ?_ fun _ => trivial
      rcases Gateway.report_cases x with hreport | hreport | hreport
      · rw [hreport]
        trivial
      · rw [hreport]
        exact uses_request trivial
      · rw [hreport]
        exact uses_request trivial
    · exact uses_bind (uses_log _) fun _ => trivial
  · exact uses_request trivial

theorem execute_uses (a : Attempt) : (s.execute a).Uses Request.Routine := by
  unfold execute
  refine uses_bind (s.charge_uses _) fun x => ?_
  split
  · exact s.recordOutcome_uses _ _ _
  · split
    · trivial
    · exact uses_bind (uses_log _) fun _ => s.recordOutcome_uses _ _ _

theorem recover_uses (a : Attempt) : (s.recover a).Uses Request.Routine := by
  unfold recover
  refine uses_bind (uses_log _) fun _ => uses_bind (s.recordOutcome_uses _ _ _) fun x => ?_
  split
  · exact uses_bind (uses_count _) fun _ => trivial
  · trivial
  all_goals exact uses_bind (uses_count _) fun _ => uses_bind (uses_log _) fun _ => trivial

theorem carryOut_uses (d : DueRetry) (a : Attempt) : (s.carryOut d a).Uses Request.Routine := by
  unfold carryOut
  refine uses_bind (uses_log _) fun _ => uses_bind (s.execute_uses _) fun x => ?_
  split
  · exact uses_bind (uses_count _) fun _ => trivial
  · trivial
  · exact uses_bind (uses_log _) fun _ => uses_bind (uses_count _) fun _ => trivial
  · exact uses_bind (uses_log _) fun _ => uses_bind (uses_count _) fun _ => trivial
  · exact uses_bind (uses_count _) fun _ => uses_bind (uses_log _) fun _ => trivial

theorem submit_uses (H : Nat → Nat → List Act) (r : Nat) (p : Submission) :
    (s.submit p).Uses ((Operation.submit p).MayAsk H r) := by
  have hroutine : ∀ {α : Type} {q : Program α}, q.Uses Request.Routine → q.Uses ((Operation.submit p).MayAsk H r) := by
    refine fun hq => hq.mono fun req hreq => ?_
    cases req
    case create d => exact hreq.elim
    all_goals exact hreq
  unfold submit
  refine uses_bind (uses_request (show p.draft = p.draft from rfl)) fun x => ?_
  split
  · trivial
  · refine uses_bind (hroutine (uses_log _)) fun _ => uses_bind (hroutine (s.execute_uses _)) fun y => ?_
    split
    · trivial
    · split <;> trivial

theorem fire_uses {known : Exchange → Prop} {d : DueRetry} (hd : Listed known d) (t : DateTime) :
    (s.fire d).Uses (Request.PollsAt known t) := by
  have hroutine : ∀ {α : Type} {q : Program α}, q.Uses Request.Routine → q.Uses (Request.PollsAt known t) :=
    fun hq => hq.mono fun r hr => hr.pollsAt known t
  unfold fire
  refine uses_bind (uses_request ⟨d, hd, rfl⟩) fun x => ?_
  split
  · exact hroutine (s.carryOut_uses _ _)
  · trivial
  all_goals exact hroutine (uses_bind (uses_count _) fun _ => uses_bind (uses_log _) fun _ => trivial)

private theorem concludePoll_uses (t : DateTime) (recovered due fired : Nat) :
    (concludePoll t recovered due fired).Uses Request.Routine := by
  unfold concludePoll
  refine uses_bind (uses_count _) fun _ => ?_
  split
  · exact uses_bind (uses_log _) fun _ => trivial
  · trivial

private theorem recoverStale_all (t : DateTime) : (s.recoverStale t).All fun _ q => q.Uses Request.Routine := by
  unfold recoverStale
  split
  · trivial
  · refine Task.all_bind (Task.all_lift (uses_request trivial)) ?_
    rintro (e | stale)
    · trivial
    · refine Task.all_bind (Task.all_each fun a _ => s.recover_uses a) fun xs => ?_
      split <;> trivial

theorem pollAt_along {H : Nat → Nat → List Act} (t : DateTime) (r : Nat) :
    (s.pollAt t).Along H (fun r _ q => q.Uses (Request.PollsAt (Task.Known H r) t)) (fun _ _ => True) r := by
  have hroutine : ∀ {α : Type} {r : Nat} {q : Program α}, q.Uses Request.Routine →
      q.Uses (Request.PollsAt (Task.Known H r) t) := fun hq => hq.mono fun r hr => hr.pollsAt _ t
  refine Task.along_bind.2 ((s.recoverStale_all t).along (fun _ _ _ _ hq => hroutine hq) ?_)
  rintro r (e | recovered)
  · trivial
  refine Task.along_bind.2 (Task.along_bind.2 (Task.along_lift (uses_request rfl) ?_))
  rintro (e | due) hlisting
  · trivial
  obtain ⟨refused, before, after, hpast⟩ := hlisting.of_request
  have hlisted : ∀ d ∈ due, Listed (Task.Known H (r + 1)) d := fun d hd =>
    ⟨t, s.batch, due, refused, before, after, ⟨r, Nat.lt_succ_self r, 0, hpast ▸ List.mem_cons_self⟩, hd⟩
  refine Task.along_bind.2 (Task.along_each (fun d hd => s.fire_uses (hlisted d hd) t) fun xs => ?_)
  split
  · trivial
  · exact ⟨fun _ => hroutine (concludePoll_uses _ _ _ _), fun _ _ => trivial⟩

/-- Every program of an operation asks only what `Operation.MayAsk` says. -/
theorem task_along (H : Nat → Nat → List Act) (op : Operation) :
    (s.task op).Along H (fun r _ q => q.Uses (op.MayAsk H r)) (fun _ _ => True) 0 := by
  cases op with
  | submit p => exact Task.along_bind.2 (Task.along_lift (s.submit_uses H 0 p) fun _ _ => trivial)
  | record key id result =>
    exact Task.along_bind.2 (Task.along_lift (s.recordOutcome_uses key id result) fun _ _ => trivial)
  | poll asOf =>
    refine Task.along_bind.2 ?_
    cases asOf with
    | some t =>
      exact (s.pollAt_along t 0).mono (fun _ _ _ _ hq => hq.mono fun _ hreq => .inr ⟨t, hreq, .inl rfl⟩)
        fun _ _ _ => trivial
    | none =>
      refine Task.along_bind.2 (Task.along_lift (uses_request (.inl rfl)) fun t hread => ?_)
      obtain ⟨refused, before, after, hpast⟩ := hread.of_request
      refine (s.pollAt_along t 1).mono (fun r _ _ hr hq => hq.mono fun _ hreq => ?_) fun _ _ _ => trivial
      exact .inr ⟨t, hreq, .inr ⟨hr, refused, before, after, hpast ▸ List.mem_cons_self⟩⟩

end Scheduler

/-! ### What has been asked -/

theorem Log.known_of_pasts {k r : Nat} {log : Log} {e : Exchange} (h : Task.Known (log.pasts k) r e) :
    log.Known k r e := by
  obtain ⟨r', hr', i, hmem⟩ := h
  exact ⟨_, mem_past.1 hmem, rfl, hr', rfl⟩

theorem Listed.mono {known known' : Exchange → Prop} {due : DueRetry} (h : Listed known due)
    (hknown : ∀ e, known e → known' e) : Listed known' due := by
  obtain ⟨asOf, limit, listed, refused, before, after, hlisting, hdue⟩ := h
  exact ⟨asOf, limit, listed, refused, before, after, hknown _ hlisting, hdue⟩

namespace System.Onward

variable {may : Permission} {w : World} {σ : System} {p : Place}

theorem allows_of_logged (hw : w.Unused) (h : Onward may { world := w } σ) {entry : Entry} (hentry : entry ∈ σ.log) :
    may.Allows entry.place.worker := by
  obtain ⟨new, hnew, hallowed, -⟩ := h.exists_new hw .refl
  exact hallowed entry (by simpa [hnew] using hentry)

theorem asked (hw : w.Unused) (h : Onward may { world := w } σ) {e : Exchange}
    (hmem : ⟨p, .act (.exchanged e)⟩ ∈ σ.log) :
    ∃ s op, may p.worker s op ∧ op.MayAsk (σ.log.pasts p.worker) p.round e.request := by
  have hpast := Log.mem_past.2 hmem
  obtain ⟨s, β, q, q', h', huses, hleaves, hacts⟩ :=
    h.piece_along (may.fresh w) (h.allows_of_logged hw hmem) (List.ne_nil_of_mem hpast)
      (Q := fun _ r _ q => q.Uses fun req => ∃ s op, may p.worker s op ∧ op.MayAsk (σ.log.pasts p.worker) r req)
      fun s op hmay => (s.task_along _ op).mono (fun r _ q _ hq => hq.mono fun _ hreq => ⟨s, op, hmay, hreq⟩)
        fun _ _ _ => trivial
  have hmem' : .exchanged e ∈ h' := by
    rcases hacts with heq | ⟨c, heq⟩
    · exact heq ▸ hpast
    · rw [heq, List.mem_cons] at hpast
      rcases hpast with hasked | hpast
      · cases hasked
      · exact hpast
  exact (huses.of_leaves hleaves).2 e hmem'

/-- A draft to be created is that of a submission, or the successor of an attempt that was listed as due. -/
theorem created (hw : w.Unused) (h : Onward may { world := w } σ) {d : Draft} {x : Except Failure Attempt}
    {refused : Bool} {before after : World}
    (hmem : ⟨p, .act (.exchanged ⟨.create d, x, refused, before, after⟩)⟩ ∈ σ.log) :
    (∃ s sub, may p.worker s (.submit sub) ∧ d = sub.draft) ∨
      ∃ due, Listed (σ.log.Known p.worker p.round) due ∧ d = due.attempt.next := by
  obtain ⟨s, op, hmay, hasks⟩ := h.asked hw hmem
  cases op with
  | submit sub => exact .inl ⟨s, sub, hmay, hasks⟩
  | record key id result => exact hasks.elim
  | poll asOf =>
    obtain hnow | ⟨t, ⟨due, hlisted, hd⟩, -⟩ := hasks
    · cases hnow
    exact .inr ⟨due, hlisted.mono fun _ => Log.known_of_pasts, hd⟩

/-- Due attempts are listed as of a moment that the poll was given or read from the clock. -/
theorem listed (hw : w.Unused) (h : Onward may { world := w } σ) {asOf : DateTime} {limit : Option Int}
    {x : Except Failure (List DueRetry)} {refused : Bool} {before after : World}
    (hmem : ⟨p, .act (.exchanged ⟨.listDue asOf limit, x, refused, before, after⟩)⟩ ∈ σ.log) :
    (∃ s, may p.worker s (.poll (some asOf))) ∨ 0 < p.round ∧ ∃ refused' before' after',
      ⟨⟨p.worker, 0, 0⟩, .act (.exchanged ⟨.now, asOf, refused', before', after'⟩)⟩ ∈ σ.log := by
  obtain ⟨s, op, hmay, hasks⟩ := h.asked hw hmem
  cases op with
  | submit sub => exact hasks.elim
  | record key id result => exact hasks.elim
  | poll o =>
    obtain hnow | ⟨t, rfl, rfl | ⟨hround, refused', before', after', hread⟩⟩ := hasks
    · cases hnow
    · exact .inl ⟨s, hmay⟩
    · exact .inr ⟨hround, refused', before', after', Log.mem_past.1 hread⟩

end System.Onward

end PaymentRetry
