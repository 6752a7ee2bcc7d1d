import Mathlib.Data.List.Basic
import PaymentRetry.Proofs.Turns.Certainty
import PaymentRetry.Proofs.Workers.Settling

/-!
# Service

A `Service` says how the requests of a poll are served: what the gateway may answer and how it may move the clock, and
for which payments the calls of the store may fail.  All else is answered as the world has it.

A program that works on one payment asks for nothing but the attempts of that payment.  So it can be followed on these
attempts alone (`Program.Ensures`): what a request comes to is said once, by `Service.Ensures`, and a request that is
served leaves the attempts of all other payments as they are (`Service.Serves.ensures`).  Programs for different
payments may therefore take turns in any order: what each of them ensures by itself, it also ensures beside the others
(`Service.alwaysEnds_each`).
-/

namespace PaymentRetry

open Simulation

/-! ### How requests are served -/

/-- An environment of a poll: what the gateway may answer, how it may move the clock, and which store calls may fail. -/
structure Service where
  /-- The possible answers of the gateway to a charge. -/
  answers : Charge → Except Failure GatewayResult → Prop
  /-- The moments to which a call of the gateway may move the clock. -/
  moments : DateTime → Prop := fun _ => False
  /-- The keys of the payments for which any store call may fail. -/
  disturbed : String → Prop := fun _ => False
  /-- The keys of the payments for which storing a new attempt fails. -/
  barred : String → Prop := fun _ => False

/-- The key of the payment that a store call is about. -/
def Request.subject? (s : Store) : Request → Option String
  | .create d => d.key
  | .get id | .transition id .. => (s.find? id).map (·.key)
  | _ => none

namespace Service

/-- `S.Serves r w x w'`: the request `r` may get the answer `x` in `w` and leave `w'`.  A failing store call has no
effect, unless it is a transition that has been written and fails in reading the row back. -/
inductive Serves (S : Service) : Program.Serving World
  | answered {r : Request} {w : World} : (∀ c, r ≠ .charge c) → (∀ c, r ≠ .publish c) →
      (∀ d key, r = .create d → d.key = some key → ¬S.barred key) → Serves S r w (w.answer r).1 (w.answer r).2
  | charged {c : Charge} {x : Except Failure GatewayResult} {t : DateTime} {w : World} : S.answers c x →
      (t = w.now ∨ S.moments t) → Serves S (.charge c) w x { w.charged c with now := t }
  | published {c : Completion} {x : Except Failure Unit} {w : World} : (∀ e, x = .error e → e.isCancellation = false) →
      Serves S (.publish c) w x { w with published := .event c :: w.published }
  | refused {r : Request} {key : String} {f : Failure} {x : r.Answer} {w : World} : r.subject? w.store = some key →
      (S.disturbed key ∨ (∃ d, r = .create d) ∧ S.barred key) → f.isCancellation = false → r.refusal? f = some x →
      Serves S r w x w
  | unread {id : AttemptId} {source target : AttemptState} {change : Change} {a : Attempt} {f : Failure}
      {w w' : World} : w.answer (.transition id source target change) = (.ok a, w') → S.disturbed a.key →
      f.isCancellation = false → Serves S (.transition id source target change) w (.error f) w'

/-- The gateway has an answer to every charge and never cancels the work. -/
structure Steady (S : Service) : Prop where
  answered : ∀ c, ∃ x, S.answers c x
  carriesOn : ∀ c e, S.answers c (.error e) → e.isCancellation = false

theorem Steady.exists_serves {S : Service} (hS : S.Steady) (r : Request) (w : World) : ∃ x w', S.Serves r w x w' := by
  cases r
  case charge c =>
    obtain ⟨x, hx⟩ := hS.answered c
    exact ⟨x, _, .charged hx (.inl rfl)⟩
  case publish c => exact ⟨.ok (), _, .published (by rintro e ⟨⟩)⟩
  case create d =>
    by_cases hbarred : ∃ key, d.key = some key ∧ S.barred key
    · obtain ⟨key, hkey, hbarred⟩ := hbarred
      exact ⟨.error .unstorable, w, .refused (f := .unstorable) hkey (.inr ⟨⟨d, rfl⟩, hbarred⟩) rfl rfl⟩
    · refine ⟨_, _, .answered (by rintro c ⟨⟩) (by rintro c ⟨⟩) ?_⟩
      rintro d' key heq hkey hb
      obtain rfl := Request.create.inj heq
      exact hbarred ⟨key, hkey, hb⟩
  all_goals exact ⟨_, _, .answered (by rintro c ⟨⟩) (by rintro c ⟨⟩) (by rintro d key ⟨⟩)⟩

/-- Serving with a gateway function whose answers `S` allows is a case of `S.Serves`, if no payment is barred. -/
theorem serves_reply {S : Service} {gateway : List Charge → Charge → Except Failure GatewayResult}
    (hgateway : ∀ calls c, S.answers c (gateway calls c)) (hbarred : ∀ key, ¬S.barred key) (r : Request) (w : World) :
    S.Serves r w (World.reply gateway r w).1 (World.reply gateway r w).2 := by
  cases r
  case charge c => exact .charged (t := w.now) (hgateway w.charges c) (.inl rfl)
  case publish c => exact .published (by rintro e ⟨⟩)
  all_goals exact .answered (by rintro c ⟨⟩) (by rintro c ⟨⟩) fun _ key _ _ => hbarred key

end Service

/-! ### Worlds in good order -/

/-- The clock of `w` stands at a moment in `clock`, no calls are announced to fail, and the store is sequenced and
coherent. -/
structure Simulation.World.Sane (clock : DateTime → Prop) (w : World) : Prop extends w.Still where
  timely : clock w.now
  sequenced : w.store.Sequenced
  coherent : w.store.Coherent

theorem Simulation.World.Sane.mono {clock clock' : DateTime → Prop} {w : World} (hw : w.Sane clock)
    (h : clock' w.now) : w.Sane clock' :=
  ⟨hw.toStill, h, hw.sequenced, hw.coherent⟩

theorem Reachable.sane {w : World} {σ : System} (hw : w.Unused) (h : Reachable w σ) (hstill : σ.world.Still)
    {clock : DateTime → Prop} (hnow : clock σ.world.now) : σ.world.Sane clock :=
  ⟨hstill, hnow, (h.log_sound hw).sequenced, h.coherent hw⟩

/-! ### The attempts of one payment -/

namespace Store

theorem attemptsOf_append {s s' : Store} {added : List Attempt} (h : s'.rows = s.rows ++ added) (key : String) :
    s'.attemptsOf key = s.attemptsOf key ++ added.filter (·.key = key) := by
  simp only [attemptsOf, h, List.filter_append]

/-- Replacing the last attempt `a` of `key` by `b` changes no other attempt of any key. -/
theorem attemptsOf_replace {s s' : Store} (hs : s.Sequenced) {key : String} {prior before after : List Attempt}
    {a b : Attempt} (hlast : s.attemptsOf key = prior ++ [a]) (hrows : s.rows = before ++ a :: after)
    (hrows' : s'.rows = before ++ b :: after) (hb : b.key = a.key) :
    s'.attemptsOf key = prior ++ [b] ∧ ∀ other, other ≠ key → s'.attemptsOf other = s.attemptsOf other := by
  have hkey : a.key = key := (mem_attemptsOf.1 (by rw [hlast]; simp : a ∈ s.attemptsOf key)).2
  have hnodup := hs.nodup_attemptsOf key
  have hsplit : s.attemptsOf key = before.filter (·.key = key) ++ a :: after.filter (·.key = key) := by
    simp [attemptsOf, hrows, hkey]
  rw [hsplit] at hnodup
  have hnotin := List.nodup_middle.1 hnodup
  rw [List.nodup_cons, List.mem_append, not_or] at hnotin
  obtain ⟨hprior, -, hafter⟩ :=
    (List.append_cons_inj_of_notMem hnotin.1.1 hnotin.1.2).1 (hsplit.symm.trans hlast)
  refine ⟨?_, fun other hother => ?_⟩
  · simp only [attemptsOf, hrows', List.filter_append, List.filter_cons, hb, hkey, decide_true, if_true]
    rw [hprior, hafter]
  · have hne : a.key ≠ other := fun h => hother (h.symm.trans hkey)
    simp [attemptsOf, hrows, hrows', hb, hne]

/-- The number after that of the last attempt is free. -/
theorem Sequenced.free_of_last {s : Store} (hs : s.Sequenced) {key : String} {prior : List Attempt} {a : Attempt}
    (hlast : s.attemptsOf key = prior ++ [a]) : s.hasNumber a.key (a.number + 1) = false := by
  obtain ⟨-, hkey⟩ := mem_attemptsOf.1 (by rw [hlast]; simp : a ∈ s.attemptsOf key)
  obtain ⟨-, hnumber⟩ := hs.last?_eq_some_iff.1 (show s.last? key = some a by rw [last?, hlast]; simp)
  refine List.any_eq_false.2 fun b hb => ?_
  simp only [Bool.and_eq_true, decide_eq_true_eq, not_and]
  intro hbkey
  have hle := (mem_numbersTo.1 (hs.number_mem hb)).2
  rw [hbkey, hkey] at hle
  omega

theorem Sequenced.retried_of_prior {s : Store} (hs : s.Sequenced) {key : String} {prior : List Attempt} {a b : Attempt}
    (hlast : s.attemptsOf key = prior ++ [a]) (hb : b ∈ prior) : b.state = .retried := by
  by_contra hopen
  obtain ⟨hmem, rfl⟩ := mem_attemptsOf.1 (hlast ▸ List.mem_append_left _ hb : b ∈ s.attemptsOf key)
  have hnodup := hs.nodup_attemptsOf b.key
  have hsame := hs.last?_of_open hmem hopen
  rw [last?, hlast, List.getLast?_concat, Option.some.injEq] at hsame
  rw [hlast] at hnodup
  exact (List.nodup_append.1 hnodup).2.2 b hb a (by simp) hsame.symm

/-- `s'` is a store in good order that has grown out of `s` by changing the attempts of `key` to `rows` and no other
rows. -/
structure Worked (s : Store) (key : String) (rows : List Attempt) (s' : Store) : Prop where
  sequenced : s'.Sequenced
  coherent : s'.Coherent
  grows : s.Grows s'
  own : s'.attemptsOf key = rows
  others : ∀ other, other ≠ key → s'.attemptsOf other = s.attemptsOf other

variable {s s' : Store} (hs : s.Sequenced) (hc : s.Coherent) {key : String} {prior : List Attempt} {a : Attempt}
  (hlast : s.attemptsOf key = prior ++ [a]) {t : DateTime}

include hs hc

theorem Worked.refl (key : String) : s.Worked key (s.attemptsOf key) s := ⟨hs, hc, .refl s, rfl, fun _ _ => rfl⟩

include hlast

/-- `Worked` holds of inserting the retry of the last attempt. -/
theorem worked_of_insert (hretried : a.state = .retried) {b : Attempt} (h : s.insert a.next t = .ok (b, s')) :
    s.Worked key (s.attemptsOf key ++ [b.asStored]) s' := by
  obtain ⟨ha, hkey⟩ := mem_attemptsOf.1 (by rw [hlast]; simp : a ∈ s.attemptsOf key)
  have hrows := (insert_eq_ok h).2.2.2
  obtain ⟨hstored, -, -⟩ := retry_of_insert h
  have hbkey : b.asStored.key = key := by
    rw [hstored]
    exact hkey
  have hadmits : s.Admits a.next := ⟨rfl, .inr ⟨a, ha, hretried, rfl, rfl⟩⟩
  refine ⟨hs.insert hadmits h, hc.insert hs rfl (.inr ⟨a, ha, rfl⟩) h, (Moves.added _ hrows).grows, ?_, ?_⟩
  · rw [attemptsOf_append hrows]
    simp [hbkey]
  · intro other hother
    rw [attemptsOf_append hrows]
    simp [hbkey, Ne.symm hother]

/-- `Worked` holds of completing the last attempt. -/
theorem worked_of_move {target : AttemptState} {change : Change} (htarget : target ≠ .pending)
    (h : s.move? a.id .pending target change t = some s') :
    s.Worked key (prior ++ [change.apply { a with state := target, updated := t }]) s' := by
  obtain ⟨before, a', after, hrows, hid, hpending, hrows'⟩ := move?_eq_some hs.distinct h
  obtain ⟨ha, -⟩ := mem_attemptsOf.1 (by rw [hlast]; simp : a ∈ s.attemptsOf key)
  obtain rfl := hs.distinct.eq_of_id (a := a') (by simp [hrows]) ha hid
  obtain ⟨hown, hothers⟩ := attemptsOf_replace hs hlast hrows hrows' rfl
  exact ⟨hs.move h, hc.move hs.distinct h htarget,
    (Moves.completed _ _ _ _ hrows hrows' (change.completedAs_apply hpending htarget t)).grows, hown, hothers⟩

end Store

namespace Service

variable {S : Service} {clock : DateTime → Prop} {key : String}

/-- The weakest precondition of the request `r` made for the payment `key` with the postcondition `post` on the answer
and the attempts of `key`.  It is `False` for requests that a poll does not make for one payment. -/
def Ensures (S : Service) (clock : DateTime → Prop) (key : String) :
    (r : Request) → (r.Answer → List Attempt → Prop) → List Attempt → Prop
  | .now, post, rows => ∀ t, clock t → post t rows
  | .create d, post, rows => ∃ prior a, rows = prior ++ [a] ∧ a.state = .retried ∧ d = a.next ∧
      (Store.fits (a.number + 1) = true → ¬S.barred key → ∀ b t, clock t → b.asStored = a.retryAt t b.id →
        b.charge = a.charge → post (.ok b) (rows ++ [b.asStored])) ∧
      (Store.fits (a.number + 1) = false ∨ S.disturbed key ∨ S.barred key →
        ∀ f, f.isCancellation = false → post (.error f) rows)
  | .get id, post, rows => ∃ a ∈ rows, a.id = id ∧ post (.ok a) rows ∧
      (S.disturbed key → ∀ f, f.isCancellation = false → post (.error f) rows)
  | .transition id source target change, post, rows => ∃ prior a, rows = prior ++ [a] ∧ a.id = id ∧
      a.state = .pending ∧ source = .pending ∧ target ≠ .pending ∧
      (∀ f, Failure.ofTexts? change.message.join.toList = some f → post (.error f) rows) ∧
      (Failure.ofTexts? change.message.join.toList = none → ∀ t, clock t →
        post (.ok (change.apply { a with state := target, updated := t }))
          (prior ++ [change.apply { a with state := target, updated := t }]) ∧
        (S.disturbed key → ∀ f, f.isCancellation = false →
          post (.error f) (prior ++ [change.apply { a with state := target, updated := t }]))) ∧
      (S.disturbed key → ∀ f, f.isCancellation = false → post (.error f) rows)
  | .charge c, post, rows => (∀ t, S.moments t → clock t) ∧ ∀ x, S.answers c x → post x rows
  | .publish _, post, rows => ∀ x, (∀ e, x = .error e → e.isCancellation = false) → post x rows
  | .breakerAllows, post, rows => ∀ b, post b rows
  | .breakerFailed, post, rows | .breakerSucceeded, post, rows | .count _, post, rows | .log _, post, rows =>
    post () rows
  | .listDue .., _, _ | .listStale .., _, _ | .history _, _, _ => False

private theorem answer_still {w : World} (hw : w.Still) {r : Request} (hcharge : ∀ c, r ≠ .charge c)
    (hpublish : ∀ c, r ≠ .publish c) : (w.answer r).2.Still ∧ (w.answer r).2.now = w.now := by
  have h := hw.reply (fun _ _ => .error .unstorable) hcharge
  cases r
  case publish c => exact absurd rfl (hpublish c)
  case charge c => exact absurd rfl (hcharge c)
  all_goals exact h

private theorem breaker_store {w : World} (hw : w.Still) {r : Request} (hr : r = .breakerAllows ∨ r = .breakerFailed) :
    (w.answer r).2.store = w.store := by
  have heffect := fun hcharge =>
    ((World.reply_happens (fun _ _ => .error .unstorable) r hcharge w).effect hw.undisturbed).1
  rcases hr with rfl | rfl
  · exact heffect (by rintro c ⟨⟩)
  · exact heffect (by rintro c ⟨⟩)

private theorem create_answer {w : World} (hw : w.Still) (d : Draft) :
    (∃ f, w.store.insert d w.now = .error f ∧ w.answer (.create d) = (.error f, w)) ∨
      ∃ b w', w.store.insert d w.now = .ok (b, w'.store) ∧ w.answer (.create d) = (.ok b, w') := by
  simp only [World.answer, World.create_of_undisturbed hw.undisturbed, World.storeDraft, World.readClock_of_still hw]
  cases w.store.insert d w.now with
  | error f => exact .inl ⟨f, rfl, rfl⟩
  | ok y => exact .inr ⟨y.1, _, rfl, rfl⟩

private theorem transition_answer {w : World} (hw : w.Still) (hdistinct : w.store.Distinct) {a : Attempt}
    (ha : a ∈ w.store.rows) (hpending : a.state = .pending) (target : AttemptState) (change : Change) :
    (∃ f, Failure.ofTexts? change.message.join.toList = some f ∧
        w.answer (.transition a.id .pending target change) = (.error f, w)) ∨
      Failure.ofTexts? change.message.join.toList = none ∧ ∃ w',
        w.store.move? a.id .pending target change w.now = some w'.store ∧
        w.answer (.transition a.id .pending target change) =
          (.ok (change.apply { a with state := target, updated := w.now }), w') := by
  cases hmessage : Failure.ofTexts? change.message.join.toList with
  | some f =>
    refine .inl ⟨f, rfl, ?_⟩
    simp only [World.answer, World.transition_of_undisturbed hw.undisturbed, World.move, World.readClock_of_still hw,
      hmessage]
  | none =>
    obtain ⟨s', hmove⟩ := Store.exists_move? ha hpending target change w.now
    obtain ⟨a', ha', hid, -, hfind⟩ := Store.find?_of_move? hdistinct hmove
    obtain rfl := hdistinct.eq_of_id ha' ha hid
    exact .inr ⟨rfl, _, hmove, World.stream_transition hw (fun _ => .error .unstorable) hmessage hmove hfind⟩

private theorem ensures_of_same {w w' : World} {r : Request} {x : r.Answer} (hw : w.Sane clock) (hstill : w'.Still)
    (hnow : clock w'.now) (hstore : w'.store = w.store) {post : r.Answer → List Attempt → Prop}
    (hpost : post x (w.store.attemptsOf key)) :
    ∃ rows, post x rows ∧ w'.Sane clock ∧ w.store.Worked key rows w'.store := by
  refine ⟨_, hpost, ⟨hstill, hnow, ?_, ?_⟩, ?_⟩ <;> rw [hstore]
  · exact hw.sequenced
  · exact hw.coherent
  · exact .refl hw.sequenced hw.coherent key

private theorem mem_of_last {s : Store} {prior : List Attempt} {a : Attempt} (hlast : s.attemptsOf key = prior ++ [a]) :
    a ∈ s.rows ∧ a.key = key :=
  Store.mem_attemptsOf.1 (by rw [hlast]; simp)

private theorem answered_ensures {r : Request} {w : World} (hcharge : ∀ c, r ≠ .charge c)
    (hpublish : ∀ c, r ≠ .publish c) (hbarred : ∀ d key, r = .create d → d.key = some key → ¬S.barred key)
    (hw : w.Sane clock) {post : r.Answer → List Attempt → Prop}
    (hpost : S.Ensures clock key r post (w.store.attemptsOf key)) :
    ∃ rows, post (w.answer r).1 rows ∧ (w.answer r).2.Sane clock ∧ w.store.Worked key rows (w.answer r).2.store := by
  obtain ⟨hstill, hnow⟩ := answer_still hw.toStill hcharge hpublish
  have hclock : clock (w.answer r).2.now := by
    rw [hnow]
    exact hw.timely
  cases r with
  | charge c => exact absurd rfl (hcharge c)
  | publish c => exact absurd rfl (hpublish c)
  | create d =>
    obtain ⟨prior, a, hlast, hretried, rfl, hstored, hrefused⟩ := hpost
    rcases create_answer hw.toStill a.next with ⟨f, hinsert, hanswer⟩ | ⟨b, w', hinsert, hanswer⟩
    · rw [hanswer]
      refine ensures_of_same hw hw.toStill hw.timely rfl (hrefused (.inl ?_) f (Store.insert_isCancellation hinsert))
      by_contra hfits
      obtain ⟨b, s', hinserted⟩ := Store.exists_insert_next (hw.coherent.storable a (mem_of_last hlast).1)
        hw.coherent.minted (by simpa using hfits) (hw.sequenced.free_of_last hlast) w.now
      rw [hinsert] at hinserted
      cases hinserted
    · rw [hanswer] at hstill hclock ⊢
      obtain ⟨hb, hcharged, hfits⟩ := Store.retry_of_insert hinsert
      have hworked := Store.worked_of_insert hw.sequenced hw.coherent hlast hretried hinsert
      have hkey : a.next.key = some key := congrArg some (mem_of_last hlast).2
      exact ⟨_, hstored hfits (hbarred _ key rfl hkey) b _ hw.timely hb hcharged,
        ⟨hstill, hclock, hworked.sequenced, hworked.coherent⟩, hworked⟩
  | get id =>
    obtain ⟨a, ha, rfl, hfound, -⟩ := hpost
    have hanswer := World.stream_get hw.toStill (fun _ => .error .unstorable)
      (hw.sequenced.distinct.find?_of_mem (Store.mem_attemptsOf.1 ha).1)
    rw [show w.answer (.get a.id) = _ from hanswer]
    exact ensures_of_same hw hw.toStill hw.timely rfl hfound
  | transition id source target change =>
    obtain ⟨prior, a, hlast, rfl, hpending, rfl, htarget, hunstorable, hmoved, -⟩ := hpost
    rcases transition_answer hw.toStill hw.sequenced.distinct (mem_of_last hlast).1 hpending target change with
      ⟨f, hmessage, hanswer⟩ | ⟨hmessage, w', hmove, hanswer⟩
    · rw [hanswer]
      exact ensures_of_same hw hw.toStill hw.timely rfl (hunstorable f hmessage)
    · rw [hanswer] at hstill hclock ⊢
      have hworked := Store.worked_of_move hw.sequenced hw.coherent hlast htarget hmove
      exact ⟨_, (hmoved hmessage _ hw.timely).1, ⟨hstill, hclock, hworked.sequenced, hworked.coherent⟩, hworked⟩
  | now =>
    have hanswer : w.answer .now = (w.now, w) := World.readClock_of_still hw.toStill
    rw [hanswer]
    exact ensures_of_same hw hw.toStill hw.timely rfl (hpost _ hw.timely)
  | breakerAllows => exact ensures_of_same hw hstill hclock (breaker_store hw.toStill (.inl rfl)) (hpost _)
  | breakerFailed => exact ensures_of_same hw hstill hclock (breaker_store hw.toStill (.inr rfl)) hpost
  | breakerSucceeded => exact ensures_of_same hw hstill hclock rfl hpost
  | count m => exact ensures_of_same hw hstill hclock rfl hpost
  | log r => exact ensures_of_same hw hstill hclock rfl hpost
  | listDue asOf limit => exact hpost.elim
  | listStale olderThan limit => exact hpost.elim
  | history key => exact hpost.elim

/-- `Service.Ensures` is sound for `Serves`, and a request served for `key` changes no other payment. -/
theorem Serves.ensures {r : Request} {w w' : World} {x : r.Answer} (h : S.Serves r w x w') (hw : w.Sane clock)
    {post : r.Answer → List Attempt → Prop} (hpost : S.Ensures clock key r post (w.store.attemptsOf key)) :
    ∃ rows, post x rows ∧ w'.Sane clock ∧ w.store.Worked key rows w'.store := by
  cases h with
  | answered hcharge hpublish hbarred => exact answered_ensures hcharge hpublish hbarred hw hpost
  | @charged c x t _ hx ht =>
    have hstill : World.Still { w.charged c with now := t } := ⟨hw.undisturbed, hw.still⟩
    refine ensures_of_same (r := .charge c) hw hstill ?_ rfl (hpost.2 x hx)
    rcases ht with rfl | ht
    · exact hw.timely
    · exact hpost.1 _ ht
  | @published c x _ hx =>
    have hstill : World.Still { w with published := .event c :: w.published } := ⟨hw.undisturbed, hw.still⟩
    exact ensures_of_same (r := .publish c) hw hstill hw.timely rfl (hpost x hx)
  | @refused _ key' f _ _ hsubject hmay hf hx =>
    refine ensures_of_same hw hw.toStill hw.timely rfl ?_
    cases r <;> simp only [Request.refusal?, Option.some.injEq, reduceCtorEq] at hx <;> subst hx
    case create d =>
      obtain ⟨prior, a, hlast, -, rfl, -, hrefused⟩ := hpost
      obtain rfl : key = key' := (mem_of_last hlast).2.symm.trans (Option.some.inj hsubject)
      exact hrefused (.inr (hmay.imp_right And.right)) f hf
    case get id =>
      obtain ⟨a, ha, rfl, -, hfailed⟩ := hpost
      obtain ⟨ha, hkey⟩ := Store.mem_attemptsOf.1 ha
      obtain rfl : key = key' := by
        simpa [Request.subject?, hw.sequenced.distinct.find?_of_mem ha, hkey] using hsubject
      exact hfailed (hmay.resolve_right (by simp)) f hf
    case transition id source target change =>
      obtain ⟨prior, a, hlast, rfl, -, -, -, -, -, hfailed⟩ := hpost
      obtain ⟨ha, hkey⟩ := mem_of_last hlast
      obtain rfl : key = key' := by
        simpa [Request.subject?, hw.sequenced.distinct.find?_of_mem ha, hkey] using hsubject
      exact hfailed (hmay.resolve_right (by simp)) f hf
    all_goals exact hpost.elim
  | @unread id source target change b f _ _ hanswer hdisturbed hf =>
    obtain ⟨prior, a, hlast, rfl, hpending, rfl, htarget, -, hmoved, -⟩ := hpost
    obtain ⟨ha, hkey⟩ := mem_of_last hlast
    rcases transition_answer hw.toStill hw.sequenced.distinct ha hpending target change with
      ⟨f', -, hanswer'⟩ | ⟨hmessage, w₁, hmove, hanswer'⟩
    · rw [hanswer] at hanswer'
      cases hanswer'
    · obtain ⟨hstill, hnow⟩ := answer_still hw.toStill (r := .transition a.id .pending target change)
        (by rintro c ⟨⟩) (by rintro c ⟨⟩)
      rw [hanswer] at hanswer' hstill hnow
      obtain ⟨hb, rfl⟩ := Prod.mk.inj hanswer'
      obtain rfl := Except.ok.inj hb
      have hclock : clock w'.now := by
        rw [show w'.now = w.now from hnow]
        exact hw.timely
      have hworked := Store.worked_of_move hw.sequenced hw.coherent hlast htarget hmove
      have hdisturbed' : S.disturbed key := hkey ▸ hdisturbed
      exact ⟨_, (hmoved hmessage _ hw.timely).2 hdisturbed' f hf,
        ⟨hstill, hclock, hworked.sequenced, hworked.coherent⟩, hworked⟩

theorem Ensures.mono {r : Request} {post post' : r.Answer → List Attempt → Prop}
    (hpost : ∀ x rows, post x rows → post' x rows) {rows : List Attempt} (h : S.Ensures clock key r post rows) :
    S.Ensures clock key r post' rows := by
  cases r
  case create d =>
    obtain ⟨prior, a, hlast, hretried, hd, hstored, hrefused⟩ := h
    exact ⟨prior, a, hlast, hretried, hd, fun hfits hfree b t ht hb hc => hpost _ _ (hstored hfits hfree b t ht hb hc),
      fun hmay f hf => hpost _ _ (hrefused hmay f hf)⟩
  case get id =>
    obtain ⟨a, ha, hid, hfound, hfailed⟩ := h
    exact ⟨a, ha, hid, hpost _ _ hfound, fun hd f hf => hpost _ _ (hfailed hd f hf)⟩
  case transition id source target change =>
    obtain ⟨prior, a, hlast, hid, hpending, hsource, htarget, hunstorable, hmoved, hfailed⟩ := h
    exact ⟨prior, a, hlast, hid, hpending, hsource, htarget, fun f hf => hpost _ _ (hunstorable f hf),
      fun hmessage t ht => ⟨hpost _ _ (hmoved hmessage t ht).1,
        fun hd f hf => hpost _ _ ((hmoved hmessage t ht).2 hd f hf)⟩,
      fun hd f hf => hpost _ _ (hfailed hd f hf)⟩
  case now => exact fun t ht => hpost _ _ (h t ht)
  case charge c => exact ⟨h.1, fun x hx => hpost _ _ (h.2 x hx)⟩
  case publish c => exact fun x hx => hpost _ _ (h x hx)
  case breakerAllows => exact fun b => hpost _ _ (h b)
  case listDue => exact h.elim
  case listStale => exact h.elim
  case history => exact h.elim
  all_goals exact hpost _ _ h

end Service

/-! ### Programs for one payment -/

namespace Program

variable {S : Service} {clock : DateTime → Prop} {key : String} {α β : Type}

/-- The weakest precondition of a program for the payment `key` with the postcondition `ends` on its result and the
attempts of `key`. -/
def Ensures (S : Service) (clock : DateTime → Prop) (key : String) (ends : α → List Attempt → Prop) :
    Program α → List Attempt → Prop
  | done a, rows => ends a rows
  | ask r next, rows => S.Ensures clock key r (fun x rows => (next x).Ensures S clock key ends rows) rows

theorem Ensures.mono {ends ends' : α → List Attempt → Prop} (hends : ∀ a rows, ends a rows → ends' a rows)
    {p : Program α} {rows : List Attempt} (h : p.Ensures S clock key ends rows) : p.Ensures S clock key ends' rows := by
  induction p generalizing rows with
  | done a => exact hends a rows h
  | ask r next ih => exact Service.Ensures.mono (fun x rows hx => ih x hx) h

@[simp]
theorem ensures_bind {ends : β → List Attempt → Prop} {p : Program α} {f : α → Program β} {rows : List Attempt} :
    (p.bind f).Ensures S clock key ends rows ↔
      p.Ensures S clock key (fun a rows => (f a).Ensures S clock key ends rows) rows := by
  induction p generalizing rows with
  | done a => rfl
  | ask r next ih =>
    exact ⟨Service.Ensures.mono fun x rows hx => (ih x).1 hx, Service.Ensures.mono fun x rows hx => (ih x).2 hx⟩

section

variable {rows : List Attempt}

@[simp]
theorem ensures_log {r : Log.Record} {ends : Unit → List Attempt → Prop} :
    (log r).Ensures S clock key ends rows ↔ ends () rows := Iff.rfl

@[simp]
theorem ensures_count {m : Metric} {ends : Unit → List Attempt → Prop} :
    (count m).Ensures S clock key ends rows ↔ ends () rows := Iff.rfl

@[simp]
theorem ensures_breakerAllows {ends : Bool → List Attempt → Prop} :
    breakerAllows.Ensures S clock key ends rows ↔ ∀ b, ends b rows := Iff.rfl

@[simp]
theorem ensures_now {ends : DateTime → List Attempt → Prop} :
    now.Ensures S clock key ends rows ↔ ∀ t, clock t → ends t rows := Iff.rfl

@[simp]
theorem ensures_publish {c : Completion} {ends : Except Failure Unit → List Attempt → Prop} :
    (publish c).Ensures S clock key ends rows ↔ ∀ x, (∀ e, x = .error e → e.isCancellation = false) → ends x rows :=
  Iff.rfl

@[simp]
theorem ensures_charge {c : Charge} {ends : Except Failure GatewayResult → List Attempt → Prop} :
    (charge c).Ensures S clock key ends rows ↔ (∀ t, S.moments t → clock t) ∧ ∀ x, S.answers c x → ends x rows :=
  Iff.rfl

variable {prior : List Attempt} {a : Attempt} {ends : Except Failure Attempt → List Attempt → Prop}

theorem ensures_get (ha : a ∈ rows) (hfound : ends (.ok a) rows)
    (hfailed : S.disturbed key → ∀ f, f.isCancellation = false → ends (.error f) rows) :
    (get a.id).Ensures S clock key ends rows := ⟨a, ha, rfl, hfound, hfailed⟩

theorem ensures_create (hretried : a.state = .retried)
    (hstored : Store.fits (a.number + 1) = true → ¬S.barred key → ∀ b t, clock t → b.asStored = a.retryAt t b.id →
      b.charge = a.charge → ends (.ok b) (prior ++ [a] ++ [b.asStored]))
    (hrefused : Store.fits (a.number + 1) = false ∨ S.disturbed key ∨ S.barred key →
      ∀ f, f.isCancellation = false → ends (.error f) (prior ++ [a])) :
    (create a.next).Ensures S clock key ends (prior ++ [a]) := ⟨prior, a, rfl, hretried, rfl, hstored, hrefused⟩

end

end Program

/-! ### Programs for several payments -/

/-- Programs for different keys that run side by side all end as `ends` says of them alone, and no other payment
changes. -/
theorem Service.alwaysEnds_each {S : Service} (hS : S.Steady) {clock : DateTime → Prop} {ι α β : Type} {items : List ι}
    {f : ι → Program β} {keyOf : ι → String} (hkeys : (items.map keyOf).Nodup)
    (ends : Fin items.length → β → List Attempt → Prop) {next : List β → Task α} {goal : α → World → Prop} {w : World}
    (hw : w.Sane clock)
    (hpieces : ∀ i : Fin items.length,
      (f (items.get i)).Ensures S clock (keyOf (items.get i)) (ends i) (w.store.attemptsOf (keyOf (items.get i))))
    (hnext : ∀ (bs : Fin items.length → β) w', w'.Sane clock → w.store.Grows w'.store →
      (∀ i : Fin items.length, ends i (bs i) (w'.store.attemptsOf (keyOf (items.get i)))) →
      (∀ key, key ∉ items.map keyOf → w'.store.attemptsOf key = w.store.attemptsOf key) →
      (next (List.ofFn bs)).AlwaysEnds S.Serves goal w') :
    ((Task.each items f).bind next).AlwaysEnds S.Serves goal w := by
  refine Task.alwaysEnds_round (fun w' => w'.Sane clock ∧ w.store.Grows w'.store ∧
      ∀ key, key ∉ items.map keyOf → w'.store.attemptsOf key = w.store.attemptsOf key)
    (fun i p w' => p.Ensures S clock (keyOf (items.get i)) (ends i) (w'.store.attemptsOf (keyOf (items.get i))))
    ?_ ?_ ?_ ⟨hw, .refl _, fun _ _ => rfl⟩ hpieces
  · exact fun i r rest w' _ _ => hS.exists_serves r w'
  · rintro i r rest w₁ x w₂ ⟨hw₁, hgrows, hothers⟩ hown hx
    obtain ⟨rows, hrest, hw₂, hworked⟩ := hx.ensures hw₁ hown
    refine ⟨⟨hw₂, hgrows.trans hworked.grows, fun key hkey => ?_⟩, ?_, fun j p hj hown => ?_⟩
    · refine (hworked.others key fun heq => hkey ?_).trans (hothers key hkey)
      exact heq ▸ List.mem_map_of_mem (List.getElem_mem i.2)
    · rw [hworked.own]
      exact hrest
    · have hne : keyOf (items.get j) ≠ keyOf (items.get i) := by
        intro heq
        have hindex := @List.nodup_iff_injective_get.1 hkeys ⟨j, by simp⟩ ⟨i, by simp⟩ (by simpa using heq)
        exact hj (Fin.ext (Fin.mk.inj hindex))
      rw [hworked.others _ hne]
      exact hown
  · rintro bs w' ⟨hw', hgrows, hothers⟩ hends
    exact hnext bs w' hw' hgrows hends hothers

end PaymentRetry
