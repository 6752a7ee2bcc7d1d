import Mathlib.Logic.Relation
import PaymentRetry.Trigger

/-!
# At most one loop

Any number of parties start and stop a trigger.  As long as nobody starts a loop while somebody who has stopped the
trigger has yet to go on, there is at most one loop, the trigger refers to it, and it can be stopped
(`Trigger.single_loop`).  A failed poll never ends it.

The condition cannot be left out.  Whoever goes on after a stop makes the trigger refer to no loop, also if the loop
that has ended is not the one that the trigger refers to by then (`Trigger.released_of_overlap`).  So a loop that is
started in between is lost, and the next start makes a second one (`Trigger.orphaned_loop`).
-/

namespace PaymentRetry.Trigger

open Relation

/-- A step at which no loop is started while somebody who awaits the end of one has yet to go on. -/
def OrderlyStep (t t' : Trigger) : Prop := Step t t' ∧ (t'.started ≠ t.started → t.awaited = [])

/-- Whether the trigger `t` refers to the loop that is alive, which is the only one, and whoever awaits the end of a
loop awaits the end of that one and has told it to stop. -/
structure Sound (t : Trigger) : Prop where
  refers : ∀ loop ∈ t.live, t.task = some loop
  single : t.live.length ≤ 1
  awaits : ∀ loop ∈ t.live, ∀ other ∈ t.awaited, other = loop ∧ t.stopping = true
  started : ∀ loop, loop ∈ t.live ∨ loop ∈ t.awaited ∨ t.task = some loop → loop < t.started

/-! ### Steps -/

theorem running_of_refers {t : Trigger} {loop : Nat} (hlive : loop ∈ t.live) (hrefers : t.task = some loop) :
    t.running = true := by
  simp [running, hrefers, hlive]

theorem start_of_running {t : Trigger} (h : t.running = true) : t.start = t := by
  unfold start
  rw [if_pos h]

theorem Sound.live_eq_nil {t : Trigger} (ht : t.Sound) (h : t.running = false) : t.live = [] := by
  refine List.eq_nil_iff_forall_not_mem.2 fun loop hloop => ?_
  rw [running_of_refers hloop (ht.refers loop hloop)] at h
  cases h

theorem Sound.start {t : Trigger} (ht : t.Sound) (horderly : t.start.started ≠ t.started → t.awaited = []) :
    t.start.Sound := by
  by_cases hrunning : t.running = true
  · rw [start_of_running hrunning]
    exact ht
  · have hlive := ht.live_eq_nil (Bool.not_eq_true _ ▸ hrunning)
    have hstart : t.start =
        { t with started := t.started + 1, task := some t.started, stopping := false, live := [t.started] } := by
      unfold Trigger.start
      rw [if_neg hrunning, hlive]
    have hawaited : t.awaited = [] := horderly (by rw [hstart]; exact Nat.succ_ne_self _)
    rw [hstart]
    refine ⟨?_, Nat.le_refl _, ?_, ?_⟩
    · intro loop hloop
      rw [List.mem_singleton.1 hloop]
    · intro loop hloop other hother
      dsimp only at hother
      rw [hawaited] at hother
      cases hother
    · rintro loop (hloop | hloop | hloop)
      · rw [List.mem_singleton.1 hloop]
        exact Nat.lt_succ_self _
      · dsimp only at hloop
        rw [hawaited] at hloop
        cases hloop
      · rw [← Option.some.inj hloop]
        exact Nat.lt_succ_self _

theorem requestStop_of_task {t : Trigger} {loop : Nat} (h : t.task = some loop) :
    t.requestStop = { t with stopping := true, awaited := loop :: t.awaited } := by
  unfold requestStop
  rw [h]

theorem Sound.requestStop {t : Trigger} (ht : t.Sound) : t.requestStop.Sound := by
  cases htask : t.task with
  | none =>
    unfold Trigger.requestStop
    rw [htask]
    exact ht
  | some loop =>
    rw [requestStop_of_task htask]
    refine ⟨ht.refers, ht.single, ?_, ?_⟩
    · intro l hl other hother
      have hsame : loop = l := Option.some.inj (htask.symm.trans (ht.refers l hl))
      rcases List.mem_cons.1 hother with rfl | hother
      · exact ⟨hsame, rfl⟩
      · exact ⟨(ht.awaits l hl other hother).1, rfl⟩
    · rintro l (hl | hl | hl)
      · exact ht.started l (.inl hl)
      · rcases List.mem_cons.1 hl with rfl | hl
        · exact ht.started l (.inr (.inr htask))
        · exact ht.started l (.inr (.inl hl))
      · exact ht.started l (.inr (.inr hl))

theorem Sound.finish {t : Trigger} (ht : t.Sound) (loop : Nat) : (t.finish loop).Sound := by
  have hsub : ∀ l ∈ (t.finish loop).live, l ∈ t.live := fun l hl => List.mem_of_mem_erase hl
  refine ⟨fun l hl => ht.refers l (hsub l hl), ?_, fun l hl => ht.awaits l (hsub l hl), ?_⟩
  · exact Nat.le_trans (List.length_erase_le ..) ht.single
  · rintro l (hl | hl)
    · exact ht.started l (.inl (hsub l hl))
    · exact ht.started l (.inr hl)

/-- Whoever goes on after a stop finds that there is no loop. -/
theorem Sound.release {t : Trigger} (ht : t.Sound) {loop : Nat} (hawaited : loop ∈ t.awaited) (hended : loop ∉ t.live) :
    (t.release loop).Sound := by
  have hlive : t.live = [] := by
    refine List.eq_nil_iff_forall_not_mem.2 fun l hl => ?_
    obtain ⟨rfl, -⟩ := ht.awaits l hl loop hawaited
    exact hended hl
  refine ⟨?_, ht.single, ?_, ?_⟩
  · intro l hl
    rw [show (t.release loop).live = t.live from rfl, hlive] at hl
    cases hl
  · intro l hl
    rw [show (t.release loop).live = t.live from rfl, hlive] at hl
    cases hl
  · rintro l (hl | hl | hl)
    · exact ht.started l (.inl hl)
    · exact ht.started l (.inr (.inl (List.mem_of_mem_erase hl)))
    · cases hl

theorem Sound.step {t t' : Trigger} (ht : t.Sound) (h : OrderlyStep t t') : t'.Sound := by
  obtain ⟨hstep, horderly⟩ := h
  cases hstep with
  | start => exact ht.start horderly
  | requestStop => exact ht.requestStop
  | finish loop _ _ => exact ht.finish loop
  | release loop hawaited hended => exact ht.release hawaited hended

theorem sound_of_reached {t t' : Trigger} (ht : t.Sound) (h : ReflTransGen OrderlyStep t t') : t'.Sound := by
  induction h with
  | refl => exact ht
  | tail _ hstep ih => exact ih.step hstep

theorem sound_initial : Sound {} where
  refers _ hloop := by cases hloop
  single := Nat.zero_le _
  awaits _ hloop := by cases hloop
  started _ hloop := by rcases hloop with hloop | hloop | hloop <;> cases hloop

/-- As long as `loop` is alive and awaited, it stays awaited. -/
theorem awaited_of_step {t t' : Trigger} {loop : Nat} (ht : t.Sound) (h : OrderlyStep t t')
    (hstarted : loop < t.started) (hawaited : loop ∈ t.live → loop ∈ t.awaited) :
    loop < t'.started ∧ (loop ∈ t'.live → loop ∈ t'.awaited) := by
  obtain ⟨hstep, -⟩ := h
  cases hstep with
  | start =>
    by_cases hrunning : t.running = true
    · rw [start_of_running hrunning]
      exact ⟨hstarted, hawaited⟩
    · unfold start
      rw [if_neg hrunning, ht.live_eq_nil (Bool.not_eq_true _ ▸ hrunning)]
      refine ⟨Nat.lt_succ_of_lt hstarted, fun hloop => ?_⟩
      rw [List.mem_singleton.1 hloop] at hstarted
      exact absurd hstarted (Nat.lt_irrefl _)
  | requestStop =>
    unfold requestStop
    split
    · exact ⟨hstarted, fun hloop => List.mem_cons_of_mem _ (hawaited hloop)⟩
    · exact ⟨hstarted, hawaited⟩
  | finish l _ _ => exact ⟨hstarted, fun hloop => hawaited (List.mem_of_mem_erase hloop)⟩
  | release l hl hended =>
    refine ⟨hstarted, fun hloop => ?_⟩
    have hother : loop ≠ l := by
      rintro rfl
      exact hended hloop
    exact (List.mem_erase_of_ne hother).2 (hawaited hloop)

/-- A loop that has been told to stop stays told until it has ended, and the trigger goes on referring to it. -/
theorem stays_stopped {t t' : Trigger} {loop : Nat} (ht : t.Sound) (h : ReflTransGen OrderlyStep t t')
    (hstarted : loop < t.started) (hawaited : loop ∈ t.awaited) (hlive : loop ∈ t'.live) :
    t'.task = some loop ∧ t'.stopping = true := by
  have hkept : t'.Sound ∧ loop < t'.started ∧ (loop ∈ t'.live → loop ∈ t'.awaited) := by
    clear hlive
    induction h with
    | refl => exact ⟨ht, hstarted, fun _ => hawaited⟩
    | tail _ hstep ih =>
      obtain ⟨hsound, hbefore, hstays⟩ := ih
      exact ⟨hsound.step hstep, awaited_of_step hsound hstep hbefore hstays⟩
  obtain ⟨hsound, -, hstays⟩ := hkept
  exact ⟨hsound.refers loop hlive, (hsound.awaits loop hlive loop (hstays hlive)).2⟩

/-- A cycle ends with an error only if it is called off. -/
theorem cycle_error {s : Scheduler} {σ : Type} {answer : Program.Answering σ} {w : σ} {e : Failure}
    (h : ((cycle s).run answer w).1 = .error e) : e.isCancellation = true := by
  unfold cycle at h
  rw [Program.bind_eq, Program.run_bind] at h
  split at h
  · cases h
  · cases h
    rfl
  · cases h

/-- Let no loop be started before all who have stopped the trigger have gone on.  Then at most one loop is alive; if
one is, the trigger refers to it and is running, another start does nothing, and once it is told to stop it stays told,
and may end, until it has ended.  A cycle ends with an error only if it is called off. -/
theorem single_loop {t : Trigger} (h : ReflTransGen OrderlyStep {} t) :
    t.live.length ≤ 1 ∧
    (∀ loop ∈ t.live, t.task = some loop ∧ t.running = true ∧ t.start = t ∧
      ∀ t', ReflTransGen OrderlyStep t.requestStop t' → loop ∈ t'.live →
        t'.task = some loop ∧ Step t' (t'.finish loop)) ∧
    ∀ (s : Scheduler) {σ : Type} (answer : Program.Answering σ) (w : σ) (e : Failure),
      ((cycle s).run answer w).1 = .error e → e.isCancellation = true := by
  have ht := sound_of_reached sound_initial h
  refine ⟨ht.single, fun loop hlive => ?_, fun _ _ _ _ _ herror => cycle_error herror⟩
  have hrefers := ht.refers loop hlive
  have hrunning := running_of_refers hlive hrefers
  refine ⟨hrefers, hrunning, start_of_running hrunning, fun t' hsteps hlive' => ?_⟩
  have hawaited : loop ∈ t.requestStop.awaited := by
    rw [requestStop_of_task hrefers]
    exact List.mem_cons_self
  have hstarted : loop < t.requestStop.started := ht.requestStop.started loop (.inr (.inl hawaited))
  obtain ⟨hrefers', hstopping⟩ := stays_stopped ht.requestStop hsteps hstarted hawaited hlive'
  exact ⟨hrefers', .finish t' loop hlive' hstopping⟩

/-- A trigger that has been started, stopped and started again has one loop, the second, which may end. -/
theorem single_loop_of_restart :
    let restarted := ((start {}).requestStop.finish 0 |>.release 0).start
    ReflTransGen OrderlyStep {} restarted ∧ restarted.live = [1] ∧ restarted.start = restarted ∧
      Step restarted.requestStop (restarted.requestStop.finish 1) := by
  intro restarted
  have hstarted : ReflTransGen OrderlyStep {} (start {}) := .single ⟨.start {}, fun _ => rfl⟩
  have hended := hstarted.tail ⟨.requestStop _, by decide⟩ |>.tail ⟨.finish _ 0 (by decide) rfl, by decide⟩
  have hstopped := hended.tail ⟨.release _ 0 (by decide) (by decide), by decide⟩
  have hsteps : ReflTransGen OrderlyStep {} restarted := hstopped.tail ⟨.start _, fun _ => rfl⟩
  obtain ⟨-, -, hsame, hends⟩ := (single_loop hsteps).2.1 1 (by decide)
  exact ⟨hsteps, rfl, hsame, (hends _ .refl (by decide)).2⟩

/-! ### A loop that is lost -/

/-- If a loop is started while somebody has yet to go on who awaits the end of an earlier one, then the trigger may
lose the new loop. -/
theorem released_of_overlap {t : Trigger} {loop : Nat} (hrunning : t.running = false) (hawaited : loop ∈ t.awaited)
    (hended : loop ∉ t.live) (hstarted : loop < t.started) :
    ∃ t', ReflTransGen Step t t' ∧ t.started ∈ t'.live ∧ t'.task = none := by
  have hstart : t.start =
      { t with started := t.started + 1, task := some t.started, stopping := false, live := t.started :: t.live } := by
    unfold start
    rw [hrunning]
    rfl
  refine ⟨t.start.release loop, .tail (.single (.start t)) (.release _ loop ?_ ?_), ?_, rfl⟩
  · rw [hstart]
    exact hawaited
  · rw [hstart]
    intro hloop
    rcases List.mem_cons.1 hloop with rfl | hloop
    · exact Nat.lt_irrefl _ hstarted
    · exact hended hloop
  · rw [show (t.start.release loop).live = t.start.live from rfl, hstart]
    exact List.mem_cons_self

/-- A loop is started, told to stop, and ends; another is started before whoever has stopped the first goes on.  Then
the trigger refers to no loop although the second is alive, a stop does nothing, and a start makes a third loop. -/
theorem orphaned_loop : ∃ t, ReflTransGen Step {} t ∧ t.live = [1] ∧ t.task = none ∧ t.running = false ∧
    t.requestStop = t ∧ t.start.live = [2, 1] := by
  have hstopped : ReflTransGen Step {} ((start {}).requestStop.finish 0) :=
    .tail (.tail (.single (.start {})) (.requestStop _)) (.finish _ 0 (by decide) rfl)
  have hrestarted : ReflTransGen Step {} ((start {}).requestStop.finish 0).start := .tail hstopped (.start _)
  exact ⟨_, .tail hrestarted (.release _ 0 (by decide) (by decide)), rfl, rfl, rfl, rfl, rfl⟩

end PaymentRetry.Trigger
