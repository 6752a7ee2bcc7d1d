import PaymentRetry.Proofs.Workers.Granted

/-!
# What a poll has done

A worker that has finished a poll has read the clock, listed the stale attempts, taken up each of them, listed the due
retries, made and carried out each of those, and reported how many it has made: `Log.Polled`, which says so of the
places of the worker.  That is read off the transcript of the poll, if no request was refused and nobody called the
work off (`System.Onward.polled`).
-/

namespace PaymentRetry

open Simulation

/-- How `fire d` ends: the successor could not be created, or it was created and carried out. -/
inductive Scheduler.Fires (s : Scheduler) (m : Manners) (d : DueRetry) (h : List Act) : Prop
  | unmade {f : Failure} {refused : Bool} {before after : World} :
      .exchanged ⟨.create d.attempt.next, .error f, refused, before, after⟩ ∈ h → Stage.ofActs h = {} → Fires s m d h
  | made {a : Attempt} {refused : Bool} {before after : World} {rest : List Act} :
      h = rest ++ [.exchanged ⟨.create d.attempt.next, .ok a, refused, before, after⟩] →
      s.Executes m a { attempt := some a } (Stage.ofActs h) → Fires s m d h

/-- How many of the programs `0` to `n - 1` of worker `k` have created an attempt in round `r`. -/
def Log.countMade (k r n : Nat) (log : Log) : Nat :=
  (List.ofFn fun i : Fin n => (log.made ⟨k, r, i⟩).isSome).count true

/-- The acts of worker `k` in a poll: it read the time `t`, recovered the attempts `stale`, and fired the retries
`due`. -/
structure Log.Polled (log : Log) (s : Scheduler) (m : Manners) (k : Nat) (t horizon : DateTime) (stale : List Attempt)
    (due : List DueRetry) : Prop where
  clock : ∃ refused before after, ⟨⟨k, 0, 0⟩, .act (.exchanged ⟨.now, t, refused, before, after⟩)⟩ ∈ log
  horizon_eq : t.sub s.lease = .ok horizon
  listed_stale : ∃ refused before after,
    ⟨⟨k, 1, 0⟩, .act (.exchanged ⟨.listStale horizon s.batch, .ok stale, refused, before, after⟩)⟩ ∈ log
  recovered : ∀ i : Fin stale.length,
    Recording.Concludes ⟨s, (stale.get i).key, (stale.get i).id, ⟨.pluginException, some Scheduler.leaseReason⟩⟩ {}
      (log.stage ⟨k, 2, i⟩)
  listed_due : ∃ refused before after,
    ⟨⟨k, 3, 0⟩, .act (.exchanged ⟨.listDue t s.batch, .ok due, refused, before, after⟩)⟩ ∈ log
  fired : ∀ i : Fin due.length, s.Fires m (due.get i) (log.past ⟨k, 4, i⟩)
  elsewhere : ∀ r i, ¬(r = 2 ∧ i < stale.length) → ¬(r = 4 ∧ i < due.length) →
    ∃ clock, log.stage ⟨k, r, i⟩ = { clock := clock }

namespace Scheduler

open Program

variable {s : Scheduler} {m : Manners} {h : List Act}

theorem fires_of_leaves (hm : m.CarryOn) {d : DueRetry} {x : Except Failure Bool}
    (hfire : (s.fire d).Leaves h (.done x)) (hmanners : ∀ e, .exchanged e ∈ h → m.Allows e.request e.answer) :
    s.Fires m d h ∧ x = .ok (Stage.ofActs h).attempt.isSome := by
  unfold fire at hfire
  simp only [bind_eq] at hfire
  obtain ⟨y, h₁, h₂, rfl, hcreate, hleaves⟩ := hfire.of_bind
  obtain ⟨refused, before, after, rfl⟩ := hcreate.of_request
  rw [show Request.opening (.create d.attempt.next) = [] from rfl] at hmanners ⊢
  have hrest : ∀ e, .exchanged e ∈ h₂ → m.Allows e.request e.answer := fun e he => hmanners e (by simp [he])
  rcases y with f | a
  · have hquiet : ∀ metric record, ((count metric).bind fun _ => (log record).bind fun _ =>
        done (.ok false : Except Failure Bool)).Obeys m s (fun σ x => σ = {} ∧ x = .ok false)
          (Stage.ofActs [.exchanged ⟨.create d.attempt.next, .error f, refused, before, after⟩]) := by
      intro metric record
      simp only [obeys_bind, obeys_count, obeys_log, obeys_done, and_true]
      rfl
    have hraises : m.raises f := hmanners ⟨.create d.attempt.next, .error f, refused, before, after⟩ (by simp) f rfl
    split at hleaves
    · rename_i heq
      cases heq
    · rename_i heq
      cases heq
      cases hm.raises _ hraises
    all_goals
      obtain ⟨hstage, rfl⟩ := (hquiet _ _).of_leaves hleaves hrest
      refine ⟨.unmade (List.mem_append_right _ List.mem_cons_self) hstage, ?_⟩
      rw [hstage]
      rfl
  · have hcarried : (s.carryOut d a).Obeys m s
        (fun σ x => s.Executes m a { attempt := some a } σ ∧ (m.CarryOn → x = .ok true))
        (Stage.ofActs [.exchanged ⟨.create d.attempt.next, .ok a, refused, before, after⟩]) := s.carryOut_obeys d a _
    obtain ⟨hexecutes, hx⟩ := hcarried.of_leaves hleaves hrest
    refine ⟨.made rfl hexecutes, ?_⟩
    rw [hx hm]
    have hsome := Stage.attempt_ne_none
      (h := h₂ ++ [.exchanged ⟨.create d.attempt.next, .ok a, refused, before, after⟩])
      (List.mem_append_right _ List.mem_cons_self)
    rw [Option.isSome_iff_ne_none.2 hsome]

theorem concludePoll_obeys (asOf : DateTime) (recovered due fired : Nat) :
    (concludePoll asOf recovered due fired).Obeys m s (fun σ x => σ = {} ∧ x = .ok fired) (Stage.ofActs []) := by
  unfold concludePoll
  simp only [bind_eq, obeys_bind, obeys_count]
  split
  · simp only [obeys_bind, obeys_log]
    exact ⟨rfl, rfl⟩
  · exact ⟨rfl, rfl⟩

theorem collect_ofFn_ok {α : Type} {n : Nat} {bs : Fin n → Except Failure α} {as : Fin n → α}
    (hbs : ∀ i, bs i = .ok (as i)) : collect (List.ofFn bs) = .ok (List.ofFn as) := by
  induction n with
  | zero => rfl
  | succ n ih =>
    rw [List.ofFn_succ, List.ofFn_succ, hbs 0, collect, ih fun i => hbs i.succ]
    rfl

section

variable {H : Nat → Nat → List Act} {r : Nat} (hm : m.CarryOn)
  (hmanners : ∀ r i e, .exchanged e ∈ H r i → m.Allows e.request e.answer)

include hm hmanners

private theorem recoverStale_runs {asOf horizon : DateTime} (hhorizon : asOf.sub s.lease = .ok horizon)
    {ends : Nat → Except Failure Nat → Prop} (hruns : (s.recoverStale asOf).Runs H ends r)
    (hlisted : ∀ x refused before after, .exchanged ⟨.listStale horizon s.batch, x, refused, before, after⟩ ∈ H r 0 →
      ∃ stale, x = .ok stale) :
    ∃ stale refused before after, H r 0 = [.exchanged ⟨.listStale horizon s.batch, .ok stale, refused, before, after⟩] ∧
      (∀ i, 1 ≤ i → H r i = []) ∧
      (∀ i : Fin stale.length,
        Recording.Concludes ⟨s, (stale.get i).key, (stale.get i).id, ⟨.pluginException, some leaseReason⟩⟩ {}
          (Stage.ofActs (H (r + 1) i))) ∧
      (∀ i, stale.length ≤ i → H (r + 1) i = []) ∧ ends (r + 2) (.ok stale.length) := by
  simp only [recoverStale, hhorizon, Task.bind_eq, Task.runs_bind, Task.runs_lift] at hruns
  obtain ⟨hrest, x, hlist, hruns⟩ := hruns
  obtain ⟨refused, before, after, hpast⟩ := hlist.of_request
  obtain ⟨stale, rfl⟩ := hlisted x refused before after (hpast ▸ List.mem_cons_self)
  simp only [Task.runs_bind, Task.runs_each] at hruns
  obtain ⟨hrest', bs, hpieces, hruns⟩ := hruns
  have hrecovers : ∀ i : Fin stale.length,
      Recording.Concludes ⟨s, (stale.get i).key, (stale.get i).id, ⟨.pluginException, some leaseReason⟩⟩ {}
        (Stage.ofActs (H (r + 1) i)) ∧ bs i = .ok () := by
    intro i
    have hobeys : (s.recover (stale.get i)).Obeys m s _ (Stage.ofActs []) := s.recover_obeys (stale.get i) {}
    have hends := hobeys.of_leaves (hpieces i) (hmanners _ _)
    rw [List.append_nil] at hends
    exact ⟨hends.1, hends.2 hm⟩
  rw [collect_ofFn_ok fun i => (hrecovers i).2] at hruns
  exact ⟨stale, refused, before, after, hpast, hrest, fun i => (hrecovers i).1, hrest', hruns⟩

private theorem fireDue_runs {asOf : DateTime} {ends : Nat → Except Failure (Nat × Nat) → Prop}
    (hruns : (s.fireDue asOf).Runs H ends r)
    (hlisted : ∀ x refused before after, .exchanged ⟨.listDue asOf s.batch, x, refused, before, after⟩ ∈ H r 0 →
      ∃ due, x = .ok due) :
    ∃ due refused before after, H r 0 = [.exchanged ⟨.listDue asOf s.batch, .ok due, refused, before, after⟩] ∧
      (∀ i, 1 ≤ i → H r i = []) ∧ (∀ i : Fin due.length, s.Fires m (due.get i) (H (r + 1) i)) ∧
      (∀ i, due.length ≤ i → H (r + 1) i = []) ∧
      ends (r + 2) (.ok (due.length,
        (List.ofFn fun i : Fin due.length => (Stage.ofActs (H (r + 1) i)).attempt.isSome).count true)) := by
  simp only [fireDue, Task.bind_eq, Task.runs_bind, Task.runs_lift] at hruns
  obtain ⟨hrest, x, hlist, hruns⟩ := hruns
  obtain ⟨refused, before, after, hpast⟩ := hlist.of_request
  obtain ⟨due, rfl⟩ := hlisted x refused before after (hpast ▸ List.mem_cons_self)
  simp only [Task.runs_bind, Task.runs_each] at hruns
  obtain ⟨hrest', bs, hpieces, hruns⟩ := hruns
  have hfires := fun i => fires_of_leaves hm (hpieces i) (hmanners _ _)
  rw [collect_ofFn_ok fun i => (hfires i).2] at hruns
  exact ⟨due, refused, before, after, hpast, hrest, fun i => (hfires i).1, hrest', hruns⟩

end

end Scheduler

/-! ### From the transcript -/

theorem Reachable.onward {w : World} {σ : System} (h : Reachable w σ) :
    System.Onward (fun _ _ _ => True) { world := w } σ := by
  induction h with
  | refl => exact .refl
  | @step σ σ' _ hstep ih =>
    have hallows : ∀ k, Permission.Allows (fun _ _ _ => True) k := fun k => ⟨default, .poll none, trivial⟩
    cases hstep with
    | start s op hidle => exact ih.start hidle trivial
    | clock t => exact ih.step (.clock t) (fun k hk => hk) fun _ _ => hallows _
    | @act k number n β phases next i event φ w hk hstep =>
      refine ih.step (.act hk hstep) (fun j hj => ?_) fun _ _ => hallows _
      rw [← hj]
      exact Function.update_of_ne (by rintro rfl; rw [hk] at hj; cases hj) _ _
    | @advance k number n β phases next bs hk hover =>
      refine ih.step (.advance hk hover) (fun j hj => ?_) fun _ _ => hallows _
      rw [← hj]
      exact Function.update_of_ne (by rintro rfl; rw [hk] at hj; cases hj) _ _

/-- Nothing is logged of an idle worker. -/
theorem Reachable.unlogged {w : World} {σ : System} (h : Reachable w σ) {k : Nat} (hk : σ.workers k = .idle) :
    ∀ entry ∈ σ.log, entry.place.worker ≠ k := by
  have htranscribed := h.onward.transcribed (Permission.fresh _ w) k ⟨default, .poll none, trivial⟩
  rw [hk] at htranscribed
  exact htranscribed

private theorem Log.stage_of_nothing {log : Log} {k r i : Nat} (h : log.pasts k r i = []) :
    ∃ clock, log.stage ⟨k, r, i⟩ = { clock := clock } :=
  ⟨none, by rw [Log.stage, show log.past ⟨k, r, i⟩ = [] from h]; rfl⟩

private theorem Log.stage_of_alone {log : Log} {k r : Nat} {clock : Option DateTime}
    (hfirst : Stage.ofActs (log.pasts k r 0) = { clock := clock }) (hrest : ∀ i, 1 ≤ i → log.pasts k r i = [])
    (i : Nat) : ∃ clock, log.stage ⟨k, r, i⟩ = { clock := clock } := by
  rcases Nat.eq_zero_or_pos i with rfl | hi
  · exact ⟨clock, hfirst⟩
  · exact stage_of_nothing (hrest i hi)

/-- The workers `ks` may poll, with `s`. -/
def Permission.polls (s : Scheduler) (ks : List Nat) : Permission := fun k s' op => k ∈ ks ∧ s' = s ∧ op = .poll none

section

variable {s : Scheduler} {m : Manners} {ks : List Nat} {w : World} {σ₀ σ : System}

theorem Permission.polls_fresh (h₀ : Reachable w σ₀) (hidle : ∀ k ∈ ks, σ₀.workers k = .idle) :
    (polls s ks).Fresh σ₀ := by
  rintro k ⟨_, _, hk, -⟩
  exact ⟨hidle k hk, h₀.unlogged (hidle k hk)⟩

/-- A worker that has finished a poll has done what `Log.Polled` says. -/
theorem System.Onward.polled (hw : w.Unused) (h₀ : Reachable w σ₀) (hidle : ∀ k ∈ ks, σ₀.workers k = .idle)
    (h : Onward (.polls s ks) σ₀ σ) (hbatch : s.batch = none) (hm : m.CarryOn) {k : Nat} (hk : k ∈ ks) {x : Report}
    (hx : σ.workers k = .finished x)
    (hgranted : ∀ p e, p.worker = k → ⟨p, .act (.exchanged e)⟩ ∈ σ.log → e.refused = false)
    (hmanners : ∀ p e, p.worker = k → ⟨p, .act (.exchanged e)⟩ ∈ σ.log → m.Allows e.request e.answer)
    (hrange : ∀ e, ⟨⟨k, 0, 0⟩, .act (.exchanged e)⟩ ∈ σ.log → ∃ horizon, e.before.now.sub s.lease = .ok horizon) :
    ∃ t horizon stale due, σ.log.Polled s m k t horizon stale due ∧
      x = .polled (.ok (σ.log.countMade k 4 due.length)) := by
  have hsound := (h.reachable h₀).log_sound hw
  obtain ⟨s', op, ⟨-, hs, rfl⟩, hruns⟩ := h.runs (Permission.polls_fresh h₀ hidle) ⟨_, _, hk, rfl, rfl⟩ hx
  subst s'
  have hlogged : ∀ r i e, .exchanged e ∈ σ.log.pasts k r i → ⟨⟨k, r, i⟩, .act (.exchanged e)⟩ ∈ σ.log :=
    fun _ _ _ => Log.mem_past.1
  have hmanners' : ∀ r i e, .exchanged e ∈ σ.log.pasts k r i → m.Allows e.request e.answer :=
    fun r i e he => hmanners _ e rfl (hlogged r i e he)
  -- the first round
  simp only [Scheduler.task, Scheduler.polling, Scheduler.pollAt, Task.bind_eq, Task.runs_bind, Task.runs_lift] at hruns
  obtain ⟨hrest₀, t, hnow, hruns⟩ := hruns
  obtain ⟨refused₀, before₀, after₀, hpast₀⟩ := hnow.of_request
  have hmem₀ := hlogged _ _ _ (hpast₀ ▸ List.mem_cons_self)
  obtain rfl : refused₀ = false := hgranted _ _ rfl hmem₀
  obtain ⟨horizon, hhorizon⟩ := hrange _ hmem₀
  rw [← (hsound.exchanges _ _ hmem₀).now_eq] at hhorizon
  -- the two rounds of recovery
  obtain ⟨stale, refused₁, before₁, after₁, hpast₁, hrest₁, hrecovered, hrest₂, hruns⟩ :=
    s.recoverStale_runs hm hmanners' hhorizon hruns (by
      intro x refused before after hmem
      have hmem := hlogged _ _ _ hmem
      obtain rfl : refused = false := hgranted _ _ rfl hmem
      have hlisted := hsound.exchanges _ _ hmem
      rw [hbatch] at hlisted
      exact ⟨_, hlisted.listStale_eq⟩)
  simp only [Task.runs_bind] at hruns
  -- the two rounds of firing
  obtain ⟨due, refused₃, before₃, after₃, hpast₃, hrest₃, hfired, hrest₄, hruns⟩ :=
    s.fireDue_runs hm hmanners' hruns (by
      intro x refused before after hmem
      have hmem := hlogged _ _ _ hmem
      obtain rfl : refused = false := hgranted _ _ rfl hmem
      have hlisted := hsound.exchanges _ _ hmem
      rw [hbatch] at hlisted
      exact ⟨_, hlisted.listDue_eq⟩)
  simp only [Task.runs_lift, Task.runs_done] at hruns
  obtain ⟨hrest₅, y, hconclude, rfl, hrest₆⟩ := hruns
  obtain ⟨hstage₅, rfl⟩ :=
    (Scheduler.concludePoll_obeys (s := s) t _ _ _).of_leaves hconclude (hmanners' _ _)
  rw [List.append_nil] at hstage₅
  refine ⟨t, horizon, stale, due, ⟨⟨_, _, _, hmem₀⟩, hhorizon, ⟨refused₁, before₁, after₁, ?_⟩, hrecovered,
    ⟨refused₃, before₃, after₃, ?_⟩, hfired, ?_⟩, rfl⟩
  · exact hlogged 1 0 _ (hpast₁ ▸ List.mem_cons_self)
  · exact hlogged 3 0 _ (hpast₃ ▸ List.mem_cons_self)
  · intro r i hrecovers hfires
    rcases r with _ | _ | _ | _ | _ | _ | r
    · exact Log.stage_of_alone (congrArg Stage.ofActs hpast₀) hrest₀ i
    · exact Log.stage_of_alone (congrArg Stage.ofActs hpast₁) hrest₁ i
    · exact Log.stage_of_nothing (hrest₂ i (by simpa using hrecovers))
    · exact Log.stage_of_alone (congrArg Stage.ofActs hpast₃) hrest₃ i
    · exact Log.stage_of_nothing (hrest₄ i (by simpa using hfires))
    · exact Log.stage_of_alone hstage₅ hrest₅ i
    · exact Log.stage_of_nothing (hrest₆ _ i (by omega))

/-- If the horizon cannot be computed, a worker has only read the clock in its poll. -/
theorem System.Onward.polled_out_of_range (hw : w.Unused) (h₀ : Reachable w σ₀)
    (hidle : ∀ k ∈ ks, σ₀.workers k = .idle) (h : Onward (.polls s ks) σ₀ σ) {k : Nat} (hk : k ∈ ks) {x : Report}
    (hx : σ.workers k = .finished x)
    (hgranted : ∀ p e, p.worker = k → ⟨p, .act (.exchanged e)⟩ ∈ σ.log → e.refused = false)
    {r : RangeError} (hrange : ∀ e, ⟨⟨k, 0, 0⟩, .act (.exchanged e)⟩ ∈ σ.log → e.before.now.sub s.lease = .error r) :
    x = .polled (.error (.range r)) ∧ ∀ p a, p.worker = k → ⟨p, .act a⟩ ∈ σ.log →
      ∃ t refused before after, a = .exchanged ⟨.now, t, refused, before, after⟩ := by
  have hsound := (h.reachable h₀).log_sound hw
  obtain ⟨s', op, ⟨-, hs, rfl⟩, hruns⟩ := h.runs (Permission.polls_fresh h₀ hidle) ⟨_, _, hk, rfl, rfl⟩ hx
  subst s'
  simp only [Scheduler.task, Scheduler.polling, Scheduler.pollAt, Task.bind_eq, Task.runs_bind, Task.runs_lift] at hruns
  obtain ⟨hrest₀, t, hnow, hruns⟩ := hruns
  obtain ⟨refused, before, after, hpast⟩ := hnow.of_request
  have hmem : ⟨⟨k, 0, 0⟩, .act (.exchanged ⟨.now, t, refused, before, after⟩)⟩ ∈ σ.log :=
    Log.mem_past.1 (show _ ∈ σ.log.pasts k 0 0 from hpast ▸ List.mem_cons_self)
  obtain rfl : refused = false := hgranted _ _ rfl hmem
  have hhorizon := hrange _ hmem
  rw [← (hsound.exchanges _ _ hmem).now_eq] at hhorizon
  simp only [Scheduler.recoverStale, hhorizon, Task.pure_eq, Task.runs_done] at hruns
  obtain ⟨rfl, hrest⟩ := hruns
  refine ⟨rfl, ?_⟩
  rintro ⟨k', r', i⟩ a hp hact
  obtain rfl : k' = k := hp
  have hact : a ∈ σ.log.pasts k' r' i := Log.mem_past.2 hact
  rcases Nat.eq_zero_or_pos r' with rfl | hr'
  · rcases Nat.eq_zero_or_pos i with rfl | hi
    · rw [hpast] at hact
      exact ⟨t, false, before, after, List.mem_singleton.1 hact⟩
    · rw [hrest₀ i hi] at hact
      cases hact
  · rw [hrest r' i hr'] at hact
    cases hact

end

end PaymentRetry
