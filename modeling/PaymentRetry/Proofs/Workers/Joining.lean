import Mathlib.Algebra.GroupWithZero.Nat
import Mathlib.Data.List.FinRange
import PaymentRetry.Proofs.Workers.Announcing
import PaymentRetry.Proofs.Workers.Settling

/-!
# Polls that join

However several workers take turns that poll at one moment, together they do what one of them would have done by itself:
they leave the same rows, but for the identities of the new ones and their order, they ask the gateway for the same
charges and announce the same events, and what they report adds up (`System.JointPoll.joins`).

For what they do depends on the system before only.  What was due is retried once, by whichever worker comes first, so
the new rows, the calls of the gateway and the attempts that are reported all stand for the retries that were due
(`System.JointPoll.rows_perm`, `System.JointPoll.charges_perm`, `System.JointPoll.sum_counts`); and what is announced
can be read off the rows (`System.JointPoll.mem_announcements_iff`).
-/

namespace PaymentRetry

open Simulation

/-! ### What stands for what -/

/-- The key and the number of an attempt. -/
def Attempt.label (a : Attempt) : String × Int := (a.key, a.number)

/-- The key and the number of the successor. -/
def DueRetry.label (d : DueRetry) : String × Int := (d.attempt.key, d.attempt.number + 1)

theorem DueRetry.label_eq {d : DueRetry} {b : Attempt} {t : DateTime} {id : AttemptId}
    (h : b.asStored = d.attempt.retryAt t id) : b.label = d.label :=
  calc
    b.label = b.asStored.label := rfl
    _ = d.label := by rw [h]; rfl

/-- Lists whose labels, by `f` and `g`, are distinct and the same, and whose items with the same label have the same
image, by `e` and `e'`, have permuted images. -/
private theorem perm_of_labels {α β γ δ : Type} {xs : List α} {ys : List β} {f : α → γ} {g : β → γ} {e : α → δ}
    {e' : β → δ} (hxs : (xs.map f).Nodup) (hys : (ys.map g).Nodup)
    (hxy : ∀ x ∈ xs, ∃ y ∈ ys, g y = f x ∧ e' y = e x) (hyx : ∀ y ∈ ys, ∃ x ∈ xs, f x = g y) :
    (xs.map e).Perm (ys.map e') := by
  have hpairs : (xs.map fun x => (f x, e x)).Perm (ys.map fun y => (g y, e' y)) := by
    refine (List.perm_ext_iff_of_nodup ?_ ?_).2 ?_
    · exact .of_map Prod.fst (by simpa [Function.comp_def] using hxs)
    · exact .of_map Prod.fst (by simpa [Function.comp_def] using hys)
    rintro ⟨c, d⟩
    simp only [List.mem_map, Prod.mk.injEq]
    constructor
    · rintro ⟨x, hx, rfl, rfl⟩
      exact hxy x hx
    · rintro ⟨y, hy, rfl, rfl⟩
      obtain ⟨x, hx, hlabel⟩ := hyx y hy
      obtain ⟨y', hy', hlabel', he⟩ := hxy x hx
      obtain rfl := List.inj_on_of_nodup_map hys hy' hy (hlabel'.trans hlabel)
      exact ⟨x, hx, hlabel, he.symm⟩
  simpa [Function.comp_def] using hpairs.map Prod.snd

theorem Store.Sequenced.nodup_labels {s : Store} (hs : s.Sequenced) : (s.rows.map Attempt.label).Nodup := by
  refine List.Nodup.map_on (fun a ha b hb hlabel => ?_) (.of_map _ hs.distinct)
  obtain ⟨hkey, hnumber⟩ := Prod.mk.inj hlabel
  exact hs.eq_of_number ha hb hkey hnumber

theorem Store.Sequenced.nodup_retries {s : Store} (hs : s.Sequenced) (t : DateTime) :
    ((s.retries t).map DueRetry.label).Nodup := by
  have hdue := nodup_dueRetries hs.distinct t
  have hnodup : (s.dueRetries t none).Nodup := .of_map _ hdue
  refine List.Nodup.map_on (fun d hd d' hd' hlabel => ?_) (hnodup.filter _)
  have hd := (List.mem_filter.1 hd).1
  have hd' := (List.mem_filter.1 hd').1
  obtain ⟨hkey, hnumber⟩ := Prod.mk.inj hlabel
  have hsame := hs.eq_of_number (mem_dueRetries_iff.1 hd).1 (mem_dueRetries_iff.1 hd').1 hkey (by omega)
  exact List.inj_on_of_nodup_map hdue hd hd' (by rw [hsame])

private theorem Log.exists_calls (new old : Log) : ∃ calls', calls (new ++ old) = calls' ++ calls old ∧
    calls'.map (·.2) = charges new ∧
    ∀ call ∈ calls', ∃ p c log, ⟨p, .act (.asked c)⟩ ∈ new ∧ made p log = call.1 ∧ log ⊆ new ++ old := by
  induction new with
  | nil => exact ⟨[], rfl, rfl, by simp⟩
  | cons entry new ih =>
    obtain ⟨calls', hcalls, hnew, hasked⟩ := ih
    have hquiet : ∀ call ∈ calls', ∃ p c log, ⟨p, .act (.asked c)⟩ ∈ entry :: new ∧ made p log = call.1 ∧
        log ⊆ entry :: new ++ old := by
      intro call hcall
      obtain ⟨p, c, log, hmem, hmade, hsub⟩ := hasked call hcall
      exact ⟨p, c, log, List.mem_cons_of_mem _ hmem, hmade, List.subset_cons_of_subset _ hsub⟩
    obtain ⟨p, event⟩ := entry
    rcases event with (c | e) | _ | _ | _
    case act.asked =>
      refine ⟨(made p (new ++ old), c) :: calls', by rw [List.cons_append, calls, hcalls]; rfl,
        by rw [List.map_cons, hnew, charges], ?_⟩
      rintro call (_ | ⟨_, hcall⟩)
      · exact ⟨p, c, new ++ old, List.mem_cons_self, rfl, List.subset_cons_self _ _⟩
      · exact hquiet call hcall
    all_goals exact ⟨calls', hcalls, hnew, hquiet⟩

/-- The labels of the attempts that the programs of worker `k` have created in round `r`. -/
def Log.labelsMade (k r n : Nat) (log : Log) : List (String × Int) :=
  (List.finRange n).filterMap fun i : Fin n => (log.made ⟨k, r, i⟩).map Attempt.label

theorem Log.countMade_eq_length (k r n : Nat) (log : Log) : log.countMade k r n = (log.labelsMade k r n).length := by
  rw [countMade, labelsMade, List.length_filterMap_eq_countP, List.ofFn_eq_map, List.count, List.countP_map]
  congr 1
  funext i
  simp

theorem Log.mem_labelsMade {k r n : Nat} {log : Log} {l : String × Int} :
    l ∈ log.labelsMade k r n ↔ ∃ i : Fin n, (log.made ⟨k, r, i⟩).map Attempt.label = some l := by
  simp [labelsMade, List.mem_filterMap]

/-- No two programs have created attempts with the same label. -/
theorem Orderly.eq_of_label {w₀ w : World} {log : Log} (h : Orderly Scheduler.conduct w₀ log w) (hw₀ : w₀.Unused)
    {p q : Place} {l : String × Int} (hp : (log.made p).map Attempt.label = some l)
    (hq : (log.made q).map Attempt.label = some l) : p = q := by
  obtain ⟨a, ha, rfl⟩ := Option.map_eq_some_iff.1 hp
  obtain ⟨b, hb, hlabel⟩ := Option.map_eq_some_iff.1 hq
  obtain ⟨hkey, hnumber⟩ := Prod.mk.inj hlabel
  exact h.made_unique hw₀ ha hb hkey.symm hnumber.symm

theorem Orderly.nodup_labelsMade {w₀ w : World} {log : Log} (h : Orderly Scheduler.conduct w₀ log w)
    (hw₀ : w₀.Unused) (r : Nat) (n : Nat → Nat) {ks : List Nat} (hks : ks.Nodup) :
    (ks.flatMap fun k => log.labelsMade k r (n k)).Nodup := by
  refine List.nodup_flatMap.2 ⟨fun k _ => ?_, hks.imp ?_⟩
  · refine List.Nodup.filterMap (fun i j l hi hj => ?_) (List.nodup_finRange _)
    exact Fin.ext (congrArg Place.piece (h.eq_of_label hw₀ hi hj))
  · intro k j hkj l hk hj
    obtain ⟨i, hi⟩ := Log.mem_labelsMade.1 hk
    obtain ⟨i', hi'⟩ := Log.mem_labelsMade.1 hj
    exact hkj (congrArg Place.worker (h.eq_of_label hw₀ hi hi'))

/-! ### Rows without identities -/

/-- An attempt without its identity. -/
def Attempt.anonymous (a : Attempt) : Attempt := { a with id := .named "" }

/-- `a`, without its identity if no row of `s` has it. -/
def Store.anonymiseNew (s : Store) (a : Attempt) : Attempt := if s.rows.any (·.id = a.id) then a else a.anonymous

theorem Store.anonymiseNew_of_mem {s : Store} {a b : Attempt} (ha : a ∈ s.rows) (hid : b.id = a.id) :
    s.anonymiseNew b = b :=
  if_pos (List.any_eq_true.2 ⟨a, ha, by simp [hid]⟩)

theorem Store.anonymiseNew_of_fresh {s : Store} {b : Attempt} (hid : ∀ a ∈ s.rows, a.id ≠ b.id) :
    s.anonymiseNew b = b.anonymous := by
  refine if_neg fun hany => ?_
  obtain ⟨a, ha, heq⟩ := List.any_eq_true.1 hany
  exact hid a ha (by simpa using heq)

theorem Store.announced?_anonymiseNew (s : Store) (scheduler : Scheduler) (a : Attempt) :
    scheduler.announced? (s.anonymiseNew a) (s.anonymiseNew a).state = scheduler.announced? a a.state := by
  unfold anonymiseNew
  split <;> rfl

theorem Store.Minted.anonymiseNew_mem_iff {s : Store} (h : s.Minted) {a : Attempt} :
    s.anonymiseNew a ∈ s.rows ↔ a ∈ s.rows := by
  by_cases hany : ∃ b ∈ s.rows, b.id = a.id
  · obtain ⟨b, hb, hid⟩ := hany
    rw [anonymiseNew_of_mem hb hid.symm]
  · have hfresh : ∀ b ∈ s.rows, b.id ≠ a.id := fun b hb hid => hany ⟨b, hb, hid⟩
    rw [anonymiseNew_of_fresh hfresh]
    refine ⟨fun hmem => ?_, fun hmem => absurd rfl (hfresh a hmem)⟩
    obtain ⟨n, -, hid⟩ := h _ hmem
    cases hid

private theorem Scheduler.eq_of_announced? {s : Scheduler} {a : Attempt} {target : AttemptState} {c c' : Completion}
    (h : s.announced? a target = some c) (hc : Completion.ofDecision ⟨a, target, none⟩ = .ok c') : c = c' := by
  unfold announced? at h
  split at h
  · rw [hc] at h
    exact (Option.some.inj h).symm
  · cases h

section

variable (s : Scheduler) (g : Charge → Except Failure GatewayResult) (t : DateTime)

@[simp]
theorem Scheduler.recovered_id (horizon : DateTime) (a : Attempt) : (s.recovered t horizon a).id = a.id := by
  unfold recovered
  split
  · rw [RetryPolicy.settle_id]
  · rfl

theorem Scheduler.retried_label (id : AttemptId) (d : DueRetry) : (s.retried g t id d.attempt).label = d.label := by
  simp only [Attempt.label, DueRetry.label, retried, RetryPolicy.settle_key, RetryPolicy.settle_number]
  rfl

theorem Scheduler.retried_anonymous (id : AttemptId) (a : Attempt) :
    (s.retried g t id a).anonymous = s.retried g t (.named "") a :=
  (RetryPolicy.settle_with_id (.named "")).symm

end

namespace System.JointPoll

variable {s : Scheduler} {g : Charge → Except Failure GatewayResult} {ks : List Nat} {w : World} {σ₀ σ : System}
  (hw : w.Unused) (h₀ : Reachable w σ₀) (h : JointPoll s g ks σ₀ σ)
  {horizon : DateTime} (hhorizon : σ₀.world.now.sub s.lease = .ok horizon) (hks : ks ≠ [])

include hw h₀ h hhorizon hks

/-- The rows of `σ` are the recovered rows of `σ₀`, followed by rows with new identities. -/
private theorem exists_added : ∃ added,
    σ.world.store.rows = σ₀.world.store.rows.map (s.recovered σ₀.world.now horizon) ++ added ∧
      ∀ r ∈ σ.world.store.rows, r ∈ added ↔ ∀ a ∈ σ₀.world.store.rows, a.id ≠ r.id := by
  obtain ⟨added, hrows⟩ := (h.onward.grows hw h₀).exists_eq_map
    fun a ha r hr hbecomes => h.eq_recovered hw h₀ hhorizon hks ha hr hbecomes
  refine ⟨added, hrows, fun r hr => ?_⟩
  have hdistinct := (h.sound hw h₀).sequenced.distinct
  unfold Store.Distinct at hdistinct
  rw [hrows, List.map_append, List.nodup_append] at hdistinct
  constructor
  · intro hmem a ha hid
    have hlisted := List.mem_map_of_mem (f := (·.id)) (List.mem_map_of_mem (f := s.recovered σ₀.world.now horizon) ha)
    exact hdistinct.2.2 _ hlisted r.id (List.mem_map_of_mem hmem) ((s.recovered_id ..).trans hid)
  · intro hfresh
    rw [hrows, List.mem_append] at hr
    refine hr.resolve_left fun hmem => ?_
    obtain ⟨a, ha, rfl⟩ := List.mem_map.1 hmem
    exact hfresh a ha (s.recovered_id ..).symm

/-- Up to identities, the rows of `σ` are the recovered rows of `σ₀`, and one for each due retry. -/
theorem rows_perm : (σ.world.store.rows.map σ₀.world.store.anonymiseNew).Perm
    (σ₀.world.store.rows.map (s.recovered σ₀.world.now horizon) ++
      (σ₀.world.store.retries σ₀.world.now).map fun d => (s.retried g σ₀.world.now (.named "") d.attempt)) := by
  have hsound := h.sound hw h₀
  obtain ⟨added, hrows, hadded⟩ := h.exists_added hw h₀ hhorizon hks
  have hold : σ₀.world.store.rows.map (σ₀.world.store.anonymiseNew ∘ s.recovered σ₀.world.now horizon) =
      σ₀.world.store.rows.map (s.recovered σ₀.world.now horizon) :=
    List.map_congr_left fun a ha => Store.anonymiseNew_of_mem ha (s.recovered_id ..)
  rw [hrows, List.map_append, List.map_map, hold]
  refine List.Perm.append_left _ (perm_of_labels (f := Attempt.label) (g := DueRetry.label) ?_
    ((h₀.log_sound hw).sequenced.nodup_retries _) ?_ ?_)
  · have hlabels := hsound.sequenced.nodup_labels
    rw [hrows, List.map_append] at hlabels
    exact hlabels.of_append_right
  · intro r hmem
    have hr : r ∈ σ.world.store.rows := hrows ▸ List.mem_append_right _ hmem
    have hfresh := (hadded r hr).1 hmem
    rcases h.origins hw h₀ hhorizon hks hr with ⟨a, ha, rfl⟩ | ⟨due, hdue, id, -, rfl⟩
    · exact absurd (s.recovered_id ..).symm (hfresh a ha)
    · refine ⟨due, hdue, (s.retried_label ..).symm, ?_⟩
      rw [Store.anonymiseNew_of_fresh hfresh, s.retried_anonymous]
  · intro due hdue
    obtain ⟨p, d, b, refused, before, after, hp, hmem, hstored, -⟩ := h.exists_created hw h₀ hhorizon hks hdue
    obtain ⟨r, hr, hbecomes⟩ := (hsound.exchanges p _ hmem).grows.exists_becomes (h.mem_after hw h₀ hp hmem)
    refine ⟨r, (hadded r hr).2 fun a ha => ?_, ?_⟩
    · rw [hbecomes.id_eq]
      exact h.id_ne hw h₀ hp hmem ha
    · exact (Prod.ext hbecomes.key_eq hbecomes.number_eq).trans (DueRetry.label_eq hstored)

/-- The gateway has been called once for each due retry. -/
theorem charges_perm : ∃ new, σ.world.charges = new ++ σ₀.world.charges ∧
    new.Perm ((σ₀.world.store.retries σ₀.world.now).map (·.attempt.charge)) := by
  have horderly := h.orderly h₀
  obtain ⟨new, hlog, hallowed, hcharges, -⟩ := h.onward.exists_new hw h₀
  obtain ⟨calls, hcalls, hnew, hasked⟩ := Log.exists_calls new σ₀.log
  rw [← hlog] at hcalls hasked
  refine ⟨_, hcharges, ?_⟩
  rw [← hnew]
  refine perm_of_labels (f := fun call => call.1.map Attempt.label) (g := fun d => some d.label) ?_ ?_ ?_ ?_
  · have hlabels := horderly.nodup_calls hw
    rw [hcalls, List.map_append] at hlabels
    exact hlabels.of_append_left
  · have hlabels := ((h₀.log_sound hw).sequenced.nodup_retries σ₀.world.now).map (f := some) fun _ _ => Option.some.inj
    rwa [List.map_map] at hlabels
  · intro call hcall
    obtain ⟨q, a, rfl, -⟩ := horderly.calls_made call (hcalls ▸ List.mem_append_left _ hcall)
    obtain ⟨p, c, log, hmem, hmade, hsub⟩ := hasked _ hcall
    obtain ⟨_, _, hp, -⟩ := hallowed _ hmem
    -- the attempt was made by the program that has called
    obtain ⟨d, refused, before, after, hcreate⟩ := Stage.exists_create hmade
    have hcreate := hsub (Log.mem_past.1 hcreate)
    obtain ⟨due, hdue, hstored, hcharge⟩ := h.due_of_created hw h₀ hhorizon hks hp hcreate
    refine ⟨due, hdue, ?_, hcharge.symm⟩
    rw [Option.map_some, DueRetry.label_eq hstored]
  · intro due hdue
    obtain ⟨p, d, b, refused, before, after, hp, hmem, hstored, -⟩ := h.exists_created hw h₀ hhorizon hks hdue
    have hcarried := h.carriedOut hw h₀ hhorizon hp hmem
    obtain ⟨stage, ⟨-, rfl⟩ | ⟨hguarded, -⟩, hconcludes⟩ := hcarried.called
    · obtain ⟨a, ha, hcall⟩ := horderly.exists_call (p := p) hconcludes.keeps.2
      obtain rfl := Option.some.inj (ha.symm.trans hcarried.made_eq)
      rw [hcalls, List.mem_append] at hcall
      refine ⟨_, hcall.resolve_right fun hold => ?_, ?_⟩
      · -- its identity is fresh
        obtain ⟨q, a', heq, hmade, -⟩ := (h₀.orderly Scheduler.conduct_observed).calls_made _ hold
        obtain rfl := Option.some.inj (congrArg Prod.fst heq)
        obtain ⟨c, hc, hid, -⟩ := (h₀.log_sound hw).stored hmade
        exact h.id_ne hw h₀ hp hmem hc hid
      · rw [Option.map_some, DueRetry.label_eq hstored]
    · cases h.delays.unguarded.symm.trans hguarded

/-- The numbers that the workers report add up to that of the due retries. -/
theorem sum_counts (hnodup : ks.Nodup) : ∃ counts : Nat → Nat,
    (∀ k ∈ ks, σ.workers k = .finished (.polled (.ok (counts k)))) ∧
      (ks.map counts).sum = (σ₀.world.store.retries σ₀.world.now).length := by
  have horderly := h.orderly h₀
  have hviewed : ∀ k, ∃ n, k ∈ ks → (∃ first second third,
      σ.log.Viewed s (.steady fun c x => x = g c) k horizon first second third ∧
        (third.store.dueRetries first.now none).length = n) ∧
      σ.workers k = .finished (.polled (.ok (σ.log.countMade k 4 n))) := by
    intro k
    by_cases hk : k ∈ ks
    · obtain ⟨first, second, third, -, hviewed, hreport⟩ := h.viewed hw h₀ hhorizon hk
      exact ⟨_, fun _ => ⟨⟨first, second, third, hviewed, rfl⟩, hreport⟩⟩
    · exact ⟨0, fun hk' => absurd hk' hk⟩
  choose n hn using hviewed
  refine ⟨fun k => σ.log.countMade k 4 (n k), fun k hk => (hn k hk).2, ?_⟩
  -- the attempts that have been made, worker by worker
  have hsum : (ks.map fun k => σ.log.countMade k 4 (n k)).sum =
      (ks.flatMap fun k => σ.log.labelsMade k 4 (n k)).length := by
    rw [List.length_flatMap]
    exact congrArg List.sum (List.map_congr_left fun k _ => Log.countMade_eq_length k 4 (n k) σ.log)
  rw [hsum, ← List.length_map (f := DueRetry.label)]
  refine List.Perm.length_eq ((List.perm_ext_iff_of_nodup (horderly.nodup_labelsMade hw 4 n hnodup)
    ((h₀.log_sound hw).sequenced.nodup_retries _)).2 fun l => ?_)
  rw [List.mem_flatMap, List.mem_map]
  constructor
  · rintro ⟨k, hk, hl⟩
    obtain ⟨i, hi⟩ := Log.mem_labelsMade.1 hl
    obtain ⟨a, ha, rfl⟩ := Option.map_eq_some_iff.1 hi
    obtain ⟨d, refused, before, after, hmem⟩ := Stage.exists_create ha
    obtain ⟨due, hdue, hstored, -⟩ := h.due_of_created hw h₀ hhorizon hks (p := ⟨k, 4, i⟩) hk (Log.mem_past.1 hmem)
    exact ⟨due, hdue, (DueRetry.label_eq hstored).symm⟩
  · rintro ⟨due, hdue, rfl⟩
    obtain ⟨p, d, b, refused, before, after, hp, hmem, hstored, -⟩ := h.exists_created hw h₀ hhorizon hks hdue
    have hcarried := h.carriedOut hw h₀ hhorizon hp hmem
    obtain ⟨⟨first, second, third, hviewed, hlength⟩, -⟩ := hn p.worker hp
    obtain ⟨i, hplace, -⟩ := hviewed.polled.created horderly h.carryOn rfl hmem
    refine ⟨p.worker, hp, Log.mem_labelsMade.2 ⟨i.cast hlength, ?_⟩⟩
    rw [show (⟨p.worker, 4, i.cast hlength⟩ : Place) = p from hplace.symm, hcarried.made_eq, Option.map_some,
      DueRetry.label_eq hstored]

omit hks

/-- A program that has moved a row has published its event, if there is one. -/
private theorem published_eq {p : Place} (hp : p.worker ∈ ks) {id : AttemptId} {source target : AttemptState}
    {change : Change} {r : Attempt} {refused : Bool} {before after : World}
    (hmem : ⟨p, .act (.exchanged ⟨.transition id source target change, .ok r, refused, before, after⟩)⟩ ∈ σ.log) :
    (σ.log.stage p).published.map (·.1) = s.announced? r target := by
  obtain ⟨call, stage, hconcludes, rfl, hmoved, hpublished, -⟩ := h.concludes hw h₀ hhorizon hp hmem
  exact hconcludes.published_eq hmoved hpublished (Stage.mem_moved (Log.mem_past.2 hmem))

/-- The events published since are those of the rows that have reached a terminal state since. -/
theorem mem_announcements_iff {new : Log} (hlog : σ.log = new ++ σ₀.log)
    (hallowed : ∀ entry ∈ new, (Permission.polls s ks).Allows entry.place.worker) {c : Completion} :
    .event c ∈ new.announcements ↔
      ∃ r ∈ σ.world.store.rows, r ∉ σ₀.world.store.rows ∧ s.announced? r r.state = some c := by
  have hsound := h.sound hw h₀
  rw [Log.mem_announcements]
  constructor
  · rintro ⟨p, c', y, refused, before, after, hmem, heq⟩
    obtain rfl := Publication.event.inj heq
    obtain ⟨_, _, hp, -⟩ := hallowed _ hmem
    replace hmem := hlog ▸ List.mem_append_left σ₀.log hmem
    -- it had been completed before it was announced
    obtain ⟨later, earlier, hsplit, -, hasks⟩ := (h.orderly h₀).exists_earlier hmem (by simp)
    obtain ⟨-, id, target, change, r, hmoved, -, hc⟩ := hasks
    obtain ⟨source, refused', before', after', hmove⟩ :=
      Stage.exists_transition (by rw [hmoved]; exact List.mem_cons_self)
    have hmove := hsplit ▸ List.mem_append_right later (List.mem_cons_of_mem _ (Log.mem_past.1 hmove))
    have hexchange := hsound.exchanges p _ hmove
    obtain ⟨hcompletes, -, hid, hstate, hsettled, -⟩ := hexchange.transition_ok
    rw [← hstate] at hsettled
    refine ⟨r, hexchange.mem_of_transition, fun hold => ?_, ?_⟩
    · have hrow' := (h.onward.grows_before hw h₀ (h.not_mem h₀ hp) hmove).mem_of_settled hold hsettled
      have hpending := Store.Settled.not_isPending hexchange.sequenced.distinct ⟨r, hrow', hid, hsettled⟩
      simp [Exchange.completes, hpending] at hcompletes
    · have hpublished := h.published_eq hw h₀ hhorizon hp hmove
      obtain ⟨⟨c, y⟩, hstage⟩ :=
        Option.ne_none_iff_exists'.1 (Stage.published_ne_none (Log.mem_past.2 hmem))
      have hannounced : s.announced? r target = some c := by
        rw [← hpublished]
        exact congrArg (Option.map Prod.fst) hstage
      rw [hstate, hannounced, Scheduler.eq_of_announced? hannounced hc]
  · rintro ⟨r, hr, hnew, hc⟩
    have hsettled : r.state ≠ .pending := by
      intro hpending
      simp [Scheduler.announced?, hpending, AttemptState.isTerminal] at hc
    obtain ⟨p, id, target, change, refused, before, after, hp, hmem⟩ := h.exists_transition hw h₀ hr hsettled hnew
    obtain ⟨-, -, -, hstate, -⟩ := (hsound.exchanges p _ hmem).transition_ok
    have hpublished := h.published_eq hw h₀ hhorizon hp hmem
    rw [← hstate, hc] at hpublished
    obtain ⟨⟨c', y⟩, hstage, hc'⟩ := Option.map_eq_some_iff.1 hpublished
    obtain rfl : c' = c := hc'
    obtain ⟨refused', before', after', hpublish⟩ := Stage.exists_publish hstage
    have hpublish := Log.mem_past.1 hpublish
    rw [hlog, List.mem_append] at hpublish
    exact ⟨p, c', y, refused', before', after', hpublish.resolve_right (h.not_mem h₀ hp), rfl⟩

end System.JointPoll

/-! ### Polls that do nothing -/

private theorem Log.charges_eq_nil {log : Log} (h : ∀ p c, ⟨p, .act (.asked c)⟩ ∉ log) : log.charges = [] := by
  induction log with
  | nil => rfl
  | cons entry log ih =>
    have hrest := ih fun p c hmem => h p c (List.mem_cons_of_mem _ hmem)
    obtain ⟨p, event⟩ := entry
    rcases event with (c | e) | _ | _ | _
    case act.asked => exact absurd List.mem_cons_self (h p c)
    all_goals exact hrest

namespace System.JointPoll

variable {s : Scheduler} {g : Charge → Except Failure GatewayResult} {ks : List Nat} {w : World} {σ₀ σ : System}
  (hw : w.Unused) (h₀ : Reachable w σ₀) (h : JointPoll s g ks σ₀ σ)

include hw h₀ h

/-- If the horizon cannot be computed, all polls fail for that, and nothing is done. -/
theorem out_of_range {r : RangeError} (hrange : σ₀.world.now.sub s.lease = .error r) :
    (∀ k ∈ ks, σ.workers k = .finished (.polled (.error (.range r)))) ∧
      σ.world.store.rows = σ₀.world.store.rows ∧ σ.world.charges = σ₀.world.charges ∧
      σ.world.published = σ₀.world.published := by
  have hidled : ∀ k ∈ ks, σ.workers k = .finished (.polled (.error (.range r))) ∧ ∀ p a, p.worker = k →
      ⟨p, .act a⟩ ∈ σ.log → ∃ t refused before after, a = .exchanged ⟨.now, t, refused, before, after⟩ := by
    intro k hk
    obtain ⟨x, hx⟩ := h.finished k hk
    obtain ⟨rfl, hacts⟩ := h.onward.polled_out_of_range hw h₀ h.idle hk hx (fun p e hp => h.granted p e (hp ▸ hk))
      fun e hmem => h.at_once k hk e.before.now ⟨⟨k, 0, 0⟩, e, rfl, hmem, rfl⟩ ▸ hrange
    exact ⟨hx, hacts⟩
  have hacts : ∀ p a, p.worker ∈ ks → ⟨p, .act a⟩ ∈ σ.log →
      ∃ t refused before after, a = .exchanged ⟨.now, t, refused, before, after⟩ :=
    fun p a hp => (hidled _ hp).2 p a rfl
  refine ⟨fun k hk => (hidled k hk).1, ?_, ?_⟩
  · refine (h.onward.grows hw h₀).rows_eq (h₀.log_sound hw).sequenced.distinct (h.sound hw h₀).sequenced.distinct ?_
    intro a ha
    cases h.onward.stems hw h₀ a ha with
    | kept hold => exact hold
    | stored hmem hallows | completed hmem hallows =>
      obtain ⟨_, _, hp, -⟩ := hallows
      obtain ⟨_, _, _, _, heq⟩ := hacts _ _ hp hmem
      cases heq
  · obtain ⟨new, hlog, hallowed, hcharges, hpublished⟩ := h.onward.exists_new hw h₀
    have hnew : ∀ p a, ⟨p, .act a⟩ ∈ new →
        ∃ t refused before after, a = .exchanged ⟨.now, t, refused, before, after⟩ := by
      intro p a hmem
      obtain ⟨_, _, hp, -⟩ := hallowed _ hmem
      exact hacts p a hp (hlog ▸ List.mem_append_left _ hmem)
    constructor
    · rw [hcharges, Log.charges_eq_nil, List.nil_append]
      intro p c hmem
      obtain ⟨_, _, _, _, heq⟩ := hnew _ _ hmem
      cases heq
    · have hnone : new.announcements = [] := by
        refine List.eq_nil_iff_forall_not_mem.2 fun x hx => ?_
        obtain ⟨p, c, y, _, _, _, hmem, -⟩ := Log.mem_announcements.1 hx
        obtain ⟨_, _, _, _, heq⟩ := hnew _ _ hmem
        cases heq
      rw [hpublished, hnone, List.nil_append]

/-! ### Together and alone -/

private theorem nodup_announcements {new : Log} (hlog : σ.log = new ++ σ₀.log) : new.announcements.Nodup := by
  refine Log.nodup_announcements fun key => ?_
  have hle := (h.orderly h₀).countP_tells_le hw key
  rw [hlog, List.countP_append] at hle
  omega

/-- Workers that poll together do what a single poll does.  Let the idle workers `ks` poll at one moment, with steps in
any order (`JointPoll`).  Up to the identities and the order of new rows, they leave the rows that a single poll
leaves, with the same charges and events up to their order, and the numbers they report add up to that of the single
poll.  If the horizon cannot be computed, all of them fail as the single poll does. -/
theorem joins (hstill : σ₀.world.Still) (hks : ks ≠ []) (hnodup : ks.Nodup) :
    ∃ (x : Except Failure (Nat → Nat)) (single : World),
      (s.poll none).run (World.reply fun _ => g) σ₀.world = (x.map fun counts => (ks.map counts).sum, single) ∧
      (∀ k ∈ ks, σ.workers k = .finished (.polled (x.map fun counts => counts k))) ∧
      (σ.world.store.rows.map σ₀.world.store.anonymiseNew).Perm (single.store.rows.map σ₀.world.store.anonymiseNew) ∧
      σ.world.charges.Perm single.charges ∧ σ.world.published.Perm single.published := by
  cases hrange : σ₀.world.now.sub s.lease with
  | error r =>
    obtain ⟨hreports, hrows, hcharges, hpublished⟩ := h.out_of_range hw h₀ hrange
    refine ⟨.error (.range r), σ₀.world, ?_, hreports, by rw [hrows], by rw [hcharges], by rw [hpublished]⟩
    simp only [Scheduler.poll, Scheduler.polling, Scheduler.pollAt, Scheduler.recoverStale, Task.bind_eq, Task.pure_eq,
      Task.sequential_bind, Task.sequential_lift, Program.run_bind, Program.run_now, World.reply_now hstill, hrange,
      Task.sequential_done, Program.run_done]
    rfl
  | ok horizon =>
    obtain ⟨k, hk⟩ := List.exists_mem_of_ne_nil ks hks
    obtain ⟨σ', hpolled, hworld, hworkers, -, -, hat⟩ :=
      h₀.polledBy h.unlimited (fun c x => x = g c) h.steady (fun _ _ => rfl) hstill ⟨_, hrange⟩ (h.idle k hk)
    have h' : JointPoll s g [k] σ₀ σ' :=
      ⟨hpolled.toPolls, h.delays, fun j hj t ht => hat t (List.mem_singleton.1 hj ▸ ht)⟩
    have hk' : [k] ≠ [] := List.cons_ne_nil _ _
    obtain ⟨counts, hcounts, hsum⟩ := h.sum_counts hw h₀ hrange hks hnodup
    obtain ⟨counts', hcounts', hsum'⟩ := h'.sum_counts hw h₀ hrange hk' (List.nodup_singleton k)
    have hrows := (h.rows_perm hw h₀ hrange hks).trans (h'.rows_perm hw h₀ hrange hk').symm
    refine ⟨.ok counts, σ'.world, Prod.ext ?_ hworld.symm, hcounts, hrows, ?_, ?_⟩
    · have hreport := hcounts' k (List.mem_singleton_self k)
      rw [hworkers, Function.update_self] at hreport
      simp only [Activity.finished.injEq, Report.polled.injEq] at hreport
      rw [List.map_singleton, List.sum_singleton] at hsum'
      rw [hreport, hsum', ← hsum]
      rfl
    · obtain ⟨new, hcharges, hperm⟩ := h.charges_perm hw h₀ hrange hks
      obtain ⟨new', hcharges', hperm'⟩ := h'.charges_perm hw h₀ hrange hk'
      rw [hcharges, hcharges']
      exact (hperm.trans hperm'.symm).append_right _
    · obtain ⟨new, hlog, hallowed, -, hpublished⟩ := h.onward.exists_new hw h₀
      obtain ⟨new', hlog', hallowed', -, hpublished'⟩ := h'.onward.exists_new hw h₀
      rw [hpublished, hpublished']
      refine List.Perm.append_right _ ((List.perm_ext_iff_of_nodup (h.nodup_announcements hw h₀ hlog)
        (h'.nodup_announcements hw h₀ hlog')).2 fun x => ?_)
      have hanonymous : ∀ (c : Completion) (rows : List Attempt),
          (∃ r ∈ rows, r ∉ σ₀.world.store.rows ∧ s.announced? r r.state = some c) ↔
            ∃ r ∈ rows.map σ₀.world.store.anonymiseNew, r ∉ σ₀.world.store.rows ∧ s.announced? r r.state = some c := by
        intro c rows
        simp only [List.mem_map, exists_exists_and_eq_and, (h₀.coherent hw).minted.anonymiseNew_mem_iff,
          Store.announced?_anonymiseNew]
      rcases x with c | message
      · rw [h.mem_announcements_iff hw h₀ hrange hlog hallowed, h'.mem_announcements_iff hw h₀ hrange hlog' hallowed',
          hanonymous c σ.world.store.rows, hanonymous c σ'.world.store.rows]
        simp only [hrows.mem_iff]
      · simp [Log.mem_announcements]

end System.JointPoll

/-- A poll after a joint poll at the same moment joins it. -/
theorem System.JointPoll.next {s : Scheduler} {g : Charge → Except Failure GatewayResult} {ks : List Nat} {w : World}
    {σ₀ σ₁ σ₂ : System} {k : Nat} (hw : w.Unused) (h₀ : Reachable w σ₀) (h : System.JointPoll s g ks σ₀ σ₁)
    (h' : System.JointPoll s g [k] σ₁ σ₂) (hk : k ∉ ks) (hidle : σ₀.workers k = .idle)
    (hnow : σ₁.world.now = σ₀.world.now) (hothers : ∀ j, j ≠ k → σ₂.workers j = σ₁.workers j) :
    System.JointPoll s g (k :: ks) σ₀ σ₂ := by
  -- what the others have done, they have done before
  have hbefore : ∀ {p : Place} {event : Event}, p.worker ∈ ks → ⟨p, event⟩ ∈ σ₂.log → ⟨p, event⟩ ∈ σ₁.log := by
    intro p event hp hmem
    obtain ⟨new, hlog, hallowed, -⟩ := h'.onward.exists_new hw (h.onward.reachable h₀)
    rw [hlog, List.mem_append] at hmem
    refine hmem.resolve_left fun hnew => hk ?_
    obtain ⟨_, _, hp', -⟩ := hallowed _ hnew
    rwa [← List.mem_singleton.1 hp']
  have hcases : ∀ {j : Nat}, j ∈ k :: ks → j ∈ [k] ∨ j ∈ ks := fun hj => by simpa using hj
  refine ⟨⟨h.unlimited, h.steady, ?_, ?_, ?_, ?_, ?_⟩, h.delays, ?_⟩
  · rintro j (_ | ⟨_, hj⟩)
    · exact hidle
    · exact h.idle j hj
  · have hfirst : Onward (.polls s (k :: ks)) σ₀ σ₁ :=
      h.onward.mono fun j s' op hmay => ⟨List.mem_cons_of_mem _ hmay.1, hmay.2⟩
    refine hfirst.trans (h'.onward.mono fun j s' op hmay => ⟨?_, hmay.2⟩)
    rw [List.mem_singleton.1 hmay.1]
    exact List.mem_cons_self
  · rintro j (_ | ⟨_, hj⟩)
    · exact h'.finished k (List.mem_singleton_self k)
    · rw [hothers j fun heq => hk (heq ▸ hj)]
      exact h.finished j hj
  · intro p e hp hmem
    rcases hcases hp with hp | hp
    · exact h'.granted p e hp hmem
    · exact h.granted p e hp (hbefore hp hmem)
  · intro p c x refused before after hp hmem
    rcases hcases hp with hp | hp
    · exact h'.answered p c x refused before after hp hmem
    · exact h.answered p c x refused before after hp (hbefore hp hmem)
  · intro j hj t ht
    rcases hcases hj with hj | hj
    · exact (h'.at_once j hj t ht).trans hnow
    · obtain ⟨p, e, rfl, hmem, rfl⟩ := ht
      exact h.at_once _ hj _ ⟨p, e, rfl, hbefore hj hmem, rfl⟩

/-! ### Two workers and one retry -/

namespace Sample

/-- A gateway that accepts every charge. -/
def accepts (_ : Charge) : Except Failure GatewayResult := .ok ⟨.success, none⟩

/-- The world after a poll by the patient scheduler. -/
def accepted (w : World) : World := ((patient.poll none).run (World.reply fun _ => accepts) w).2

private theorem positiveDelays : patient.PositiveDelays := by
  refine ⟨by decide, ?_, rfl⟩
  intro type index delay hdelay
  obtain ⟨hnonneg, hlt, rfl⟩ := RetryPolicy.delay_eq_some hdelay
  cases type with
  | plugin =>
    have hnone : patient.policy.maxAttempts .plugin = 0 := rfl
    omega
  | business =>
    have hone : patient.policy.maxAttempts .business = 1 := rfl
    obtain rfl : index = 0 := by omega
    decide

private theorem jointPoll {σ₀ : System} (h₀ : Reachable world σ₀) (hstill : σ₀.world.Still)
    (hnow : σ₀.world.now = world.now) {k : Nat} (hk : σ₀.workers k = .idle) :
    ∃ σ, System.JointPoll patient accepts [k] σ₀ σ ∧ σ.world = accepted σ₀.world ∧ σ.world.Still ∧
      σ.world.now = world.now ∧ ∀ j, j ≠ k → σ.workers j = σ₀.workers j := by
  have hrange : ∃ horizon, σ₀.world.now.sub patient.lease = .ok horizon := by
    rw [hnow]
    exact ⟨⟨0, by decide⟩, by decide +kernel⟩
  obtain ⟨σ, hpolled, hworld, hworkers, hstill', hnow', hat⟩ :=
    h₀.polledBy (s := patient) rfl (fun c x => x = accepts c) (by rintro c e ⟨⟩) (fun _ _ => rfl) hstill hrange hk
  refine ⟨σ, ⟨hpolled.toPolls, positiveDelays, ?_⟩, hworld, hstill', hnow'.trans hnow, fun j hj => ?_⟩
  · intro j hj t ht
    exact hat t (List.mem_singleton.1 hj ▸ ht)
  · rw [hworkers]
    exact Function.update_of_ne hj _ _

end Sample

/-- Two workers poll, and the first of them retries the payment. -/
theorem joins_of_two_workers : ∃ σ₀ σ, Reachable Sample.world σ₀ ∧
    System.JointPoll Sample.patient Sample.accepts [2, 1] σ₀ σ ∧
    σ₀.world.store.rows.map (·.state) = [.retried] ∧ σ.world.store.rows.map (·.state) = [.retried, .success] ∧
    ∃ (x : Except Failure (Nat → Nat)) (single : World),
      (Sample.patient.poll none).run (World.reply fun _ => Sample.accepts) σ₀.world =
        (x.map fun counts => ([2, 1].map counts).sum, single) ∧
      (∀ k ∈ [2, 1], σ.workers k = .finished (.polled (x.map fun counts => counts k))) ∧
      (σ.world.store.rows.map σ₀.world.store.anonymiseNew).Perm (single.store.rows.map σ₀.world.store.anonymiseNew) ∧
      σ.world.charges.Perm single.charges ∧ σ.world.published.Perm single.published := by
  obtain ⟨σ₀, h₀, hworld, hidle⟩ : ∃ σ₀, Reachable Sample.world σ₀ ∧ σ₀.world = Sample.submitted ∧
      ∀ k, k ≠ 0 → σ₀.workers k = .idle := by
    obtain ⟨new, h, -⟩ := Reachable.refl.alone Sample.gateway (k := 0) rfl Sample.scheduler (.submit Sample.submission)
    exact ⟨_, h, rfl, fun k hk => Function.update_of_ne hk _ _⟩
  have hstill : σ₀.world.Still := by
    rw [hworld]
    exact ⟨by decide +kernel, by decide +kernel⟩
  obtain ⟨σ₁, hfirst, hworld₁, hstill₁, hnow₁, hothers₁⟩ :=
    Sample.jointPoll h₀ hstill (by rw [hworld]; decide +kernel) (hidle 1 (by simp))
  obtain ⟨σ₂, hsecond, hworld₂, -, -, hothers₂⟩ := Sample.jointPoll (hfirst.onward.reachable h₀) hstill₁ hnow₁ (k := 2)
    ((hothers₁ 2 (by simp)).trans (hidle 2 (by simp)))
  have hjoint := hfirst.next ⟨rfl, rfl⟩ h₀ hsecond (by simp) (hidle 2 (by simp))
    (hnow₁.trans (by rw [hworld]; decide +kernel)) hothers₂
  refine ⟨σ₀, σ₂, h₀, hjoint, by rw [hworld]; decide +kernel, ?_, ?_⟩
  · rw [hworld₂, hworld₁, hworld]
    decide +kernel
  · exact hjoint.joins ⟨rfl, rfl⟩ h₀ hstill (by simp) (by simp)

end PaymentRetry
