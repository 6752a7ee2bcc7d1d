import PaymentRetry.Proofs.Workers.System

/-!
# Conduct

A `Conduct` says what may be asked after what has been done, what must have been done when a program ends, and what a
call of `recordOutcome` has done by the time it returns.  Whether an operation keeps to a conduct is a property of its
programs alone, whatever the answers are (`Task.Conforms`).

The main statement is `Reachable.orderly`: if all operations keep to a conduct, then the log of every system is
orderly, that is, each entry is as the conduct has it, given the entries before it.  Whatever is to be shown of all
interleavings can so be shown by induction on orderly logs.
-/

namespace PaymentRetry

open Simulation

/-! ### Reading a log -/

namespace Log

/-- The acts of the program at `p`, the latest first. -/
def past (p : Place) : Log → List Act
  | [] => []
  | ⟨q, .act a⟩ :: log => if q = p then a :: past p log else past p log
  | _ :: log => past p log

/-- The call of `recordOutcome` that is running at `p`, if any, and the acts in it. -/
def openCall (p : Place) : Log → Option (Recording × List Act)
  | [] => none
  | ⟨q, event⟩ :: log =>
    if q = p then
      match event with
      | .act a => (openCall p log).map fun (call, own) => (call, a :: own)
      | .entered call => some (call, [])
      | .left .. | .ended => none
    else openCall p log

/-- The program at `p` waits for the gateway. -/
def Waits (p : Place) (log : Log) : Prop := ∃ c h, past p log = .asked c :: h

/-- The program at `p` has ended. -/
def Ended (p : Place) (log : Log) : Prop := ⟨p, .ended⟩ ∈ log

/-- `e` was exchanged by the worker in a round before `round`. -/
def Known (worker round : Nat) (log : Log) (e : Exchange) : Prop :=
  ∃ entry ∈ log, entry.place.worker = worker ∧ entry.place.round < round ∧ entry.event = .act (.exchanged e)

theorem past_cons_of_ne {p : Place} {entry : Entry} (h : entry.place ≠ p) (log : Log) :
    past p (entry :: log) = past p log := by
  obtain ⟨q, event⟩ := entry
  cases event
  case act a => exact if_neg h
  all_goals rfl

@[simp]
theorem past_cons_act (p : Place) (a : Act) (log : Log) : past p (⟨p, .act a⟩ :: log) = a :: past p log :=
  if_pos rfl

@[simp]
theorem past_cons_entered (p q : Place) (call : Recording) (log : Log) :
    past p (⟨q, .entered call⟩ :: log) = past p log := rfl

@[simp]
theorem past_cons_left (p q : Place) (call : Recording) (own : List Act) (x : Except Failure Decision) (log : Log) :
    past p (⟨q, .left call own x⟩ :: log) = past p log := rfl

@[simp]
theorem past_cons_ended (p q : Place) (log : Log) : past p (⟨q, .ended⟩ :: log) = past p log := rfl

theorem openCall_cons_of_ne {p : Place} {entry : Entry} (h : entry.place ≠ p) (log : Log) :
    openCall p (entry :: log) = openCall p log := if_neg h

theorem mem_past {p : Place} {a : Act} {log : Log} : a ∈ past p log ↔ ⟨p, .act a⟩ ∈ log := by
  induction log with
  | nil => simp [past]
  | cons entry log ih =>
    obtain ⟨q, event⟩ := entry
    by_cases hq : q = p
    · subst hq
      cases event <;> simp [ih]
    · rw [past_cons_of_ne hq, ih]
      constructor
      · exact List.mem_cons_of_mem _
      · intro h
        rcases List.mem_cons.1 h with h | h
        · exact absurd (congrArg Entry.place h).symm hq
        · exact h

theorem past_append (p : Place) (later earlier : Log) : past p (later ++ earlier) = past p later ++ past p earlier := by
  induction later with
  | nil => rfl
  | cons entry later ih =>
    by_cases hp : entry.place = p
    · subst hp
      obtain ⟨p, event⟩ := entry
      cases event with
      | act a => simp only [List.cons_append, past_cons_act, ih]
      | entered call => simpa only [List.cons_append, past_cons_entered] using ih
      | left call own x => simpa only [List.cons_append, past_cons_left] using ih
      | ended => simpa only [List.cons_append, past_cons_ended] using ih
    · rw [List.cons_append, past_cons_of_ne hp, past_cons_of_ne hp, ih]

theorem past_eq_nil {p : Place} {log : Log} (h : ∀ e ∈ log, e.place ≠ p) : past p log = [] := by
  rw [List.eq_nil_iff_forall_not_mem]
  intro a ha
  exact h _ (mem_past.1 ha) rfl

theorem ended_cons_of_ne {p : Place} {entry : Entry} (h : entry.place ≠ p) (log : Log) :
    Ended p (entry :: log) ↔ Ended p log := by
  unfold Ended
  rw [List.mem_cons, or_iff_right]
  intro heq
  exact h (by rw [← heq])

theorem waits_cons_of_ne {p : Place} {entry : Entry} (h : entry.place ≠ p) (log : Log) :
    Waits p (entry :: log) ↔ Waits p log := by
  rw [Waits, past_cons_of_ne h, Waits]

theorem known_zero (worker : Nat) (log : Log) : Known worker 0 log = fun _ => False := by
  funext e
  simp [Known]

theorem known_cons_of_le {worker round : Nat} {entry : Entry}
    (h : entry.place.worker = worker → round ≤ entry.place.round) (log : Log) :
    Known worker round (entry :: log) = Known worker round log := by
  funext e
  simp only [Known, List.mem_cons, eq_iff_iff]
  constructor
  · rintro ⟨entry', rfl | hmem, hw, hr, he⟩
    · have := h hw
      omega
    · exact ⟨entry', hmem, hw, hr, he⟩
  · rintro ⟨entry', hmem, h⟩
    exact ⟨entry', .inr hmem, h⟩

end Log

/-! ### Keeping to a conduct -/

/-- The acts of a program that makes a request, before it is answered. -/
def Request.opening : Request → List Act
  | .charge c => [.asked c]
  | _ => []

/-- A specification of programs: what they may ask, how they may end, and what their calls may return. -/
structure Conduct where
  /-- A request may be made, given the exchanges of earlier rounds and the acts of the program. -/
  asks : (Exchange → Prop) → List Act → Request → Prop
  /-- A program may end after its acts. -/
  ends : List Act → Prop
  /-- A call may return a result after its acts. -/
  returns : Recording → List Act → Except Failure Decision → Prop

namespace Program

variable {α β : Type} {asks asks' : List Act → Request → Prop}

/-- After the acts `h`, a program asks only what `asks` allows and ends only as `ends` allows. -/
def Conforms (asks : List Act → Request → Prop) (ends : List Act → α → Prop) : Program α → List Act → Prop
  | done a, h => ends h a
  | ask r next, h =>
    asks h r ∧ ∀ x refused before after,
      (next x).Conforms asks ends (.exchanged ⟨r, x, refused, before, after⟩ :: (r.opening ++ h))

theorem conforms_ask {ends : List Act → α → Prop} {r : Request} {next : r.Answer → Program α} {h : List Act} :
    (ask r next).Conforms asks ends h ↔ asks h r ∧ ∀ x refused before after,
      (next x).Conforms asks ends (.exchanged ⟨r, x, refused, before, after⟩ :: (r.opening ++ h)) := Iff.rfl

theorem conforms_bind {ends : List Act → β → Prop} {p : Program α} {f : α → Program β} {h : List Act} :
    (p.bind f).Conforms asks ends h ↔ p.Conforms asks (fun h a => (f a).Conforms asks ends h) h := by
  induction p generalizing h with
  | done a => rfl
  | ask r next ih =>
    simp only [bind, conforms_ask]
    exact and_congr_right fun _ => forall₄_congr fun x _ _ _ => ih x

theorem Conforms.mono {ends ends' : List Act → α → Prop} {p : Program α} {h : List Act}
    (hp : p.Conforms asks ends h) (hasks : ∀ h r, asks h r → asks' h r) (hends : ∀ h a, ends h a → ends' h a) :
    p.Conforms asks' ends' h := by
  induction p generalizing h with
  | done a => exact hends h a hp
  | ask r next ih => exact ⟨hasks h r hp.1, fun x refused before after => ih x (hp.2 x refused before after)⟩

end Program

/-- A task conforms to `C`, given the exchanges `known` of earlier rounds, which grow with every round. -/
def Task.Conforms {α : Type} (C : Conduct) (ends : (Exchange → Prop) → α → Prop) :
    Task α → (Exchange → Prop) → Prop
  | done a, known => ends known a
  | @round _ β n pieces next, known =>
    ∃ results : Fin n → List Act → β → Prop,
      (∀ i, (pieces i).Conforms (C.asks known) (fun h b => C.ends h ∧ results i h b) []) ∧
        ∀ (bs : Fin n → β) (pasts : Fin n → List Act) (known' : Exchange → Prop),
          (∀ i, results i (pasts i) (bs i)) → (∀ e, known e → known' e) →
          (∀ i e, .exchanged e ∈ pasts i → known' e) → (next bs).Conforms C ends known'

theorem Task.Conforms.bind {α β : Type} {C : Conduct} {ends : (Exchange → Prop) → β → Prop} {t : Task α}
    {f : α → Task β} {known : Exchange → Prop}
    (h : t.Conforms C (fun known a => (f a).Conforms C ends known) known) : (t.bind f).Conforms C ends known := by
  induction t generalizing known with
  | done a => exact h
  | round pieces next ih =>
    obtain ⟨results, hpieces, hnext⟩ := h
    exact ⟨results, hpieces, fun bs pasts known' hbs hknown hpasts => ih bs (hnext bs pasts known' hbs hknown hpasts)⟩

theorem Task.Conforms.mono {α : Type} {C : Conduct} {ends ends' : (Exchange → Prop) → α → Prop} {t : Task α}
    {known : Exchange → Prop} (h : t.Conforms C ends known) (hends : ∀ known a, ends known a → ends' known a) :
    t.Conforms C ends' known := by
  induction t generalizing known with
  | done a => exact hends known a h
  | round pieces next ih =>
    obtain ⟨results, hpieces, hnext⟩ := h
    exact ⟨results, hpieces, fun bs pasts known' hbs hknown hpasts => ih bs (hnext bs pasts known' hbs hknown hpasts)⟩

/-- All operations and all calls conform to `C`. -/
structure Conduct.Observed (C : Conduct) : Prop where
  operations : ∀ (s : Scheduler) (op : Operation), (s.task op).Conforms C (fun _ _ => True) fun _ => False
  recordings : ∀ call : Recording, call.program.Conforms (fun _ _ => True) (C.returns call) []

/-! ### Orderly logs -/

/-- The logs in which every entry conforms to `C`, given the entries before it, with the worlds they lead to. -/
inductive Orderly (C : Conduct) (w₀ : World) : Log → World → Prop
  | nil : Orderly C w₀ [] w₀
  | clock {log : Log} {w : World} (t : DateTime) : Orderly C w₀ log w → Orderly C w₀ log { w with now := t }
  | asked {log : Log} {w : World} {p : Place} {c : Charge} :
      Orderly C w₀ log w → ¬Log.Ended p log → ¬Log.Waits p log →
      C.asks (Log.Known p.worker p.round log) (Log.past p log) (.charge c) →
      Orderly C w₀ (⟨p, .act (.asked c)⟩ :: log) (w.charged c)
  | answered {log : Log} {w : World} {p : Place} {c : Charge} {h : List Act} {x : Except Failure GatewayResult} :
      Orderly C w₀ log w → ¬Log.Ended p log → Log.past p log = .asked c :: h →
      Orderly C w₀ (⟨p, .act (.exchanged ⟨.charge c, x, false, w, w⟩)⟩ :: log) w
  | exchanged {log : Log} {p : Place} {e : Exchange} :
      Orderly C w₀ log e.before → ¬Log.Ended p log → ¬Log.Waits p log → (∀ c, e.request ≠ .charge c) →
      C.asks (Log.Known p.worker p.round log) (Log.past p log) e.request → e.Happens →
      Orderly C w₀ (⟨p, .act (.exchanged e)⟩ :: log) e.after
  | entered {log : Log} {w : World} {p : Place} {call : Recording} :
      Orderly C w₀ log w → Orderly C w₀ (⟨p, .entered call⟩ :: log) w
  | left {log : Log} {w : World} {p : Place} {call : Recording} {own : List Act} {x : Except Failure Decision} :
      Orderly C w₀ log w → Log.openCall p log = some (call, own) → C.returns call own x →
      Orderly C w₀ (⟨p, .left call own x⟩ :: log) w
  | ended {log : Log} {w : World} {p : Place} :
      Orderly C w₀ log w → ¬Log.Waits p log → C.ends (Log.past p log) → Orderly C w₀ (⟨p, .ended⟩ :: log) w

/-! ### Systems have orderly logs -/

variable {C : Conduct}

/-- What holds of a program at `p` in a phase, if it conforms to `C`. -/
def Phase.Conforms {β : Type} (C : Conduct) (known : Exchange → Prop) (ends : List Act → β → Prop) (p : Place)
    (log : Log) : Phase β → Prop
  | running q =>
    ¬Log.Ended p log ∧ ¬Log.Waits p log ∧
      q.Conforms (C.asks known) (fun h b => C.ends h ∧ ends h b) (Log.past p log)
  | waiting c next =>
    ¬Log.Ended p log ∧ (∃ h, Log.past p log = .asked c :: h) ∧ ∀ x refused before after,
      (next x).Conforms (C.asks known) (fun h b => C.ends h ∧ ends h b)
        (.exchanged ⟨.charge c, x, refused, before, after⟩ :: Log.past p log)
  | recording call own body next =>
    ¬Log.Ended p log ∧ ¬Log.Waits p log ∧ Log.openCall p log = some (call, own) ∧
      (body.bind next).Conforms (C.asks known) (fun h b => C.ends h ∧ ends h b) (Log.past p log) ∧
      body.Conforms (fun _ _ => True) (C.returns call) own
  | finished b => ends (Log.past p log) b

/-- What holds of worker `k` in an activity, if it conforms to `C`. -/
def Activity.Conforms (C : Conduct) (k : Nat) (log : Log) : Activity → Prop
  | idle => ∀ entry ∈ log, entry.place.worker ≠ k
  | finished _ => True
  | @round β n number phases next =>
    (∀ entry ∈ log, entry.place.worker = k → entry.place.round ≤ number) ∧
      ∃ results : Fin n → List Act → β → Prop,
        (∀ i, (phases i).Conforms C (Log.Known k number log) (results i) ⟨k, number, i⟩ log) ∧
          ∀ (bs : Fin n → β) (pasts : Fin n → List Act) (known : Exchange → Prop),
            (∀ i, results i (pasts i) (bs i)) → (∀ e, Log.Known k number log e → known e) →
            (∀ i e, .exchanged e ∈ pasts i → known e) → (next bs).Conforms C (fun _ _ => True) known

private theorem Phase.Conforms.cons {β : Type} {known : Exchange → Prop} {ends : List Act → β → Prop} {p : Place}
    {log : Log} {φ : Phase β} (h : φ.Conforms C known ends p log) {entry : Entry} (hp : entry.place ≠ p) :
    φ.Conforms C known ends p (entry :: log) := by
  cases φ <;>
    simpa only [Phase.Conforms, Log.ended_cons_of_ne hp, Log.waits_cons_of_ne hp, Log.past_cons_of_ne hp,
      Log.openCall_cons_of_ne hp] using h

private theorem Activity.Conforms.cons {k : Nat} {log : Log} {activity : Activity}
    (h : activity.Conforms C k log) {entry : Entry} (hk : entry.place.worker ≠ k) :
    activity.Conforms C k (entry :: log) := by
  cases activity with
  | idle =>
    intro e he
    rcases List.mem_cons.1 he with rfl | he
    · exact hk
    · exact h e he
  | finished x => trivial
  | round number phases next =>
    obtain ⟨hrounds, results, hphases, hnext⟩ := h
    have hknown : Log.Known k number (entry :: log) = Log.Known k number log :=
      Log.known_cons_of_le (fun hw => absurd hw hk) log
    refine ⟨?_, results, ?_, ?_⟩
    · intro e he hw
      rcases List.mem_cons.1 he with rfl | he
      · exact absurd hw hk
      · exact hrounds e he hw
    · intro i
      rw [hknown]
      exact (hphases i).cons fun hp => hk (by rw [hp])
    · rw [hknown]
      exact hnext

private theorem Task.Conforms.begin {t : Task Report} {k number : Nat} {log : Log}
    (hrounds : ∀ entry ∈ log, entry.place.worker = k → entry.place.round < number)
    (h : t.Conforms C (fun _ _ => True) (Log.Known k number log)) :
    (t.begin number).Conforms C k log := by
  cases t with
  | done x => trivial
  | round pieces next =>
    obtain ⟨results, hpieces, hnext⟩ := h
    refine ⟨fun e he hw => Nat.le_of_lt (hrounds e he hw), results, ?_, hnext⟩
    intro i
    have hfree : ∀ e ∈ log, e.place ≠ ⟨k, number, i⟩ := by
      rintro e he hp
      have := hrounds e he (by rw [hp])
      rw [hp] at this
      exact Nat.lt_irrefl _ this
    have hpast := Log.past_eq_nil hfree
    refine ⟨fun he => hfree _ he rfl, ?_, ?_⟩
    · rintro ⟨c, h, hc⟩
      rw [hpast] at hc
      cases hc
    · rw [hpast]
      exact hpieces i

private theorem not_waits_of_past {p : Place} {log : Log} {e : Exchange} {h : List Act}
    (hp : Log.past p log = .exchanged e :: h) : ¬Log.Waits p log := by
  rintro ⟨c, h', hc⟩
  rw [hp] at hc
  cases hc

private theorem not_ended_cons {p : Place} {log : Log} {event : Event} (h : ¬Log.Ended p log)
    (he : event ≠ .ended) : ¬Log.Ended p (⟨p, event⟩ :: log) := by
  intro hmem
  rcases List.mem_cons.1 hmem with heq | hmem
  · exact he (congrArg Entry.event heq).symm
  · exact h hmem

theorem Request.opening_eq_nil {r : Request} (h : ∀ c, r ≠ .charge c) : r.opening = [] := by
  cases r
  case charge c => exact absurd rfl (h c)
  all_goals rfl

/-- A step of a program preserves `Orderly`, and leads to a phase that conforms. -/
private theorem Phase.Step.sound {β : Type} (hC : C.Observed) {w₀ w w' : World} {log : Log} {p : Place}
    {φ φ' : Phase β} {event : Event} {ends : List Act → β → Prop} (hlog : Orderly C w₀ log w)
    (h : φ.Conforms C (Log.Known p.worker p.round log) ends p log) (hstep : φ.Step w event φ' w') :
    Orderly C w₀ (⟨p, event⟩ :: log) w' ∧
      φ'.Conforms C (Log.Known p.worker p.round log) ends p (⟨p, event⟩ :: log) := by
  cases hstep with
  | exchange hr hx =>
    obtain ⟨hended, hwaits, hasks, hnext⟩ := h
    refine ⟨.exchanged (e := ⟨_, _, _, _, _⟩) hlog hended hwaits hr hasks hx, not_ended_cons hended (by simp),
      not_waits_of_past (Log.past_cons_act _ _ _), ?_⟩
    rw [Log.past_cons_act]
    simpa only [Request.opening_eq_nil hr, List.nil_append] using hnext _ _ _ _
  | ask =>
    obtain ⟨hended, hwaits, hasks, hnext⟩ := h
    exact ⟨.asked hlog hended hwaits hasks, not_ended_cons hended (by simp), ⟨_, Log.past_cons_act _ _ _⟩,
      by rw [Log.past_cons_act]; exact hnext⟩
  | answer =>
    obtain ⟨hended, ⟨h, hpast⟩, hnext⟩ := h
    refine ⟨.answered hlog hended hpast, not_ended_cons hended (by simp),
      not_waits_of_past (Log.past_cons_act _ _ _), ?_⟩
    rw [Log.past_cons_act]
    exact hnext _ _ _ _
  | enter =>
    obtain ⟨hended, hwaits, hq⟩ := h
    exact ⟨.entered hlog, not_ended_cons hended (by simp), hwaits, by simp [Log.openCall], hq, hC.recordings _⟩
  | record hr hx =>
    obtain ⟨hended, hwaits, hopen, ⟨hasks, hnext⟩, hbody⟩ := h
    refine ⟨.exchanged (e := ⟨_, _, _, _, _⟩) hlog hended hwaits hr hasks hx, not_ended_cons hended (by simp),
      not_waits_of_past (Log.past_cons_act _ _ _), by simp [Log.openCall, hopen], ?_, ?_⟩
    · rw [Log.past_cons_act]
      simpa only [Request.opening_eq_nil hr, List.nil_append] using hnext _ _ _ _
    · simpa only [Request.opening_eq_nil hr, List.nil_append] using hbody.2 _ _ _ _
  | leave =>
    obtain ⟨hended, hwaits, hopen, hq, hbody⟩ := h
    exact ⟨.left hlog hopen hbody, not_ended_cons hended (by simp), hwaits, hq⟩
  | finish =>
    obtain ⟨hended, hwaits, hends, hresult⟩ := h
    exact ⟨.ended hlog hwaits hends, hresult⟩

private theorem conforms_update {workers : Nat → Activity} {k : Nat} {log : Log} {activity : Activity}
    (hself : activity.Conforms C k log) (hothers : ∀ j, j ≠ k → (workers j).Conforms C j log) (j : Nat) :
    (Function.update workers k activity j).Conforms C j log := by
  by_cases hj : j = k
  · subst hj
    rw [Function.update_self]
    exact hself
  · rw [Function.update_of_ne hj]
    exact hothers j hj

section

variable {k number n : Nat} {β : Type} {log : Log} {phases : Fin n → Phase β} {next : (Fin n → β) → Task Report}
  (h : (Activity.round number phases next).Conforms C k log)

include h

private theorem Activity.Conforms.act {i : Fin n} {event : Event} {φ : Phase β}
    (hφ : ∀ ends, (phases i).Conforms C (Log.Known k number log) ends ⟨k, number, i⟩ log →
      φ.Conforms C (Log.Known k number log) ends ⟨k, number, i⟩ (⟨⟨k, number, i⟩, event⟩ :: log)) :
    (Activity.round number (Function.update phases i φ) next).Conforms C k (⟨⟨k, number, i⟩, event⟩ :: log) := by
  obtain ⟨hrounds, results, hphases, hnext⟩ := h
  have hknown : Log.Known k number (⟨⟨k, number, i⟩, event⟩ :: log) = Log.Known k number log :=
    Log.known_cons_of_le (fun _ => Nat.le_refl _) log
  refine ⟨?_, results, ?_, ?_⟩
  · intro e he hw
    rcases List.mem_cons.1 he with rfl | he
    · exact Nat.le_refl _
    · exact hrounds e he hw
  · intro j
    rw [hknown]
    by_cases hj : j = i
    · subst hj
      rw [Function.update_self]
      exact hφ _ (hphases j)
    · rw [Function.update_of_ne hj]
      refine (hphases j).cons fun hp => hj (Fin.ext ?_)
      simpa using (congrArg Place.piece hp).symm
  · rw [hknown]
    exact hnext

private theorem Activity.Conforms.advance {bs : Fin n → β} (hover : ∀ i, phases i = .finished (bs i)) :
    ((next bs).begin (number + 1)).Conforms C k log := by
  obtain ⟨hrounds, results, hphases, hnext⟩ := h
  refine Task.Conforms.begin (fun e he hw => Nat.lt_succ_of_le (hrounds e he hw)) ?_
  refine hnext bs (fun i => Log.past ⟨k, number, i⟩ log) _ ?_ ?_ ?_
  · intro i
    have hi := hphases i
    rw [hover i] at hi
    exact hi
  · rintro e ⟨entry, hmem, hw, hr, he⟩
    exact ⟨entry, hmem, hw, by omega, he⟩
  · intro i e he
    exact ⟨_, Log.mem_past.1 he, rfl, Nat.lt_succ_self _, rfl⟩

end

/-- If `C` is observed, every reachable system has an orderly log, and its workers conform. -/
private theorem Reachable.sound (hC : C.Observed) {w : World} {σ : System} (h : Reachable w σ) :
    Orderly C w σ.log σ.world ∧ ∀ k, (σ.workers k).Conforms C k σ.log := by
  induction h with
  | refl => exact ⟨.nil, fun k => by simp [Activity.Conforms]⟩
  | @step σ σ' _ hstep ih =>
    obtain ⟨hlog, hworkers⟩ := ih
    cases hstep with
    | clock t => exact ⟨.clock t hlog, hworkers⟩
    | @start k s op hidle =>
      refine ⟨hlog, conforms_update ?_ fun j _ => hworkers j⟩
      have hfree := hworkers k
      rw [hidle] at hfree
      refine Task.Conforms.begin (fun e he hw => absurd hw (hfree e he)) ?_
      rw [Log.known_zero]
      exact hC.operations s op
    | @act k number n β phases next i event φ w hk hstep =>
      have hconforms := hworkers k
      rw [hk] at hconforms
      have hact := hconforms.act fun _ h => (hstep.sound hC hlog h).2
      obtain ⟨-, results, hphases, -⟩ := hconforms
      obtain ⟨hlog', -⟩ := hstep.sound hC hlog (hphases i)
      exact ⟨hlog', conforms_update hact fun j hj => (hworkers j).cons fun h => hj h.symm⟩
    | @advance k number n β phases next bs hk hover =>
      have hconforms := hworkers k
      rw [hk] at hconforms
      exact ⟨hlog, conforms_update (hconforms.advance hover) fun j _ => hworkers j⟩

theorem Reachable.orderly (hC : C.Observed) {w : World} {σ : System} (h : Reachable w σ) :
    Orderly C w σ.log σ.world := (h.sound hC).1

end PaymentRetry
