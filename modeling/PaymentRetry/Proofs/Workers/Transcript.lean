import PaymentRetry.Proofs.Workers.Onward

/-!
# Transcripts

What is logged at a place is what one program has done there: `Program.Leaves` says what is left of a program after
acts.  `Task.Runs` says that the programs of a task, round by round, have done what is logged at the places of a
worker, and that the task has ended with a result.

The main statements: a worker that has finished has run through the task of an operation that it might begin
(`System.Onward.runs`), and whatever is logged at a place of a worker that goes on has been done by one of the programs
of such a task (`System.Onward.piece`).
-/

namespace PaymentRetry

open Simulation

/-! ### Programs -/

namespace Program

variable {α : Type}

/-- `p.Leaves h q`: after the acts `h`, the latest first, `q` is left of the program `p`. -/
inductive Leaves (p : Program α) : List Act → Program α → Prop
  | start : Leaves p [] p
  | answered {h : List Act} {r : Request} {next : r.Answer → Program α} (x : r.Answer) (refused : Bool)
      (before after : World) :
      Leaves p h (.ask r next) → Leaves p (.exchanged ⟨r, x, refused, before, after⟩ :: (r.opening ++ h)) (next x)

theorem Leaves.of_ask {r : Request} {next : r.Answer → Program α} {h : List Act} {q : Program α}
    (hq : (ask r next).Leaves h q) :
    h = [] ∧ q = ask r next ∨
      ∃ x refused before after h', h = h' ++ .exchanged ⟨r, x, refused, before, after⟩ :: r.opening ∧
        (next x).Leaves h' q := by
  induction hq with
  | start => exact .inl ⟨rfl, rfl⟩
  | answered y refused' before' after' _ ih =>
    rcases ih with ⟨rfl, heq⟩ | ⟨x, refused, before, after, h', rfl, hleaves⟩
    · cases heq
      exact .inr ⟨y, refused', before', after', [], by simp, .start⟩
    · exact .inr ⟨x, refused, before, after, _, by simp, hleaves.answered y refused' before' after'⟩

theorem Leaves.of_ask_done {r : Request} {next : r.Answer → Program α} {h : List Act} {a : α}
    (hq : (ask r next).Leaves h (done a)) :
    ∃ x refused before after h', h = h' ++ .exchanged ⟨r, x, refused, before, after⟩ :: r.opening ∧
      (next x).Leaves h' (done a) := by
  rcases hq.of_ask with ⟨-, heq⟩ | h
  · cases heq
  · exact h

theorem Leaves.of_done {a : α} {h : List Act} {q : Program α} (hq : (done a).Leaves h q) : h = [] ∧ q = done a := by
  induction hq with
  | start => exact ⟨rfl, rfl⟩
  | answered _ _ _ _ _ ih => cases ih.2

theorem Leaves.go_on {r : Request} {next : r.Answer → Program α} {x : r.Answer} {h : List Act} {q : Program α}
    (hq : (next x).Leaves h q) (refused : Bool) (before after : World) :
    (Program.ask r next).Leaves (h ++ .exchanged ⟨r, x, refused, before, after⟩ :: r.opening) q := by
  induction hq with
  | start =>
    have hstart := (Leaves.start (p := Program.ask r next)).answered x refused before after
    rwa [List.append_nil] at hstart
  | answered y refused' before' after' _ ih =>
    have hrest := ih.answered y refused' before' after'
    rwa [← List.append_assoc] at hrest

/-- The acts of a sequence of programs that has ended are those of the first and then those of the second. -/
theorem Leaves.of_bind {β : Type} {p : Program α} {f : α → Program β} {h : List Act} {b : β}
    (hq : (p.bind f).Leaves h (done b)) :
    ∃ a h₁ h₂, h = h₂ ++ h₁ ∧ p.Leaves h₁ (done a) ∧ (f a).Leaves h₂ (done b) := by
  induction p generalizing h with
  | done a => exact ⟨a, [], h, by simp, .start, hq⟩
  | ask r next ih =>
    obtain ⟨x, refused, before, after, h', rfl, hleaves⟩ := hq.of_ask_done
    obtain ⟨a, h₁, h₂, rfl, hfirst, hsecond⟩ := ih x hleaves
    exact ⟨a, _, h₂, by simp, hfirst.go_on refused before after, hsecond⟩

theorem Leaves.of_request {r : Request} {h : List Act} {x : r.Answer} (hq : (request r).Leaves h (done x)) :
    ∃ refused before after, h = .exchanged ⟨r, x, refused, before, after⟩ :: r.opening := by
  obtain ⟨y, refused, before, after, h', rfl, hleaves⟩ := hq.of_ask_done
  obtain ⟨rfl, heq⟩ := hleaves.of_done
  cases heq
  exact ⟨refused, before, after, rfl⟩

end Program

/-! ### Tasks -/

namespace Task

variable {α β : Type} (H : Nat → Nat → List Act)

/-- The acts `H r i` of program `i` in round `r` make the task run from round `r` to an end that satisfies `ends`. -/
def Runs (ends : Nat → α → Prop) : Task α → Nat → Prop
  | done a, r => ends r a
  | round (n := n) pieces next, r =>
    (∀ i, n ≤ i → H r i = []) ∧
      ∃ bs, (∀ i : Fin n, (pieces i).Leaves (H r i) (.done (bs i))) ∧ (next bs).Runs ends (r + 1)

/-- After its rounds before `r`, with the acts `H`, `t'` is left of the task `t`. -/
inductive Reaches (t : Task α) : Task α → Nat → Prop
  | start : Reaches t t 0
  | round {n r : Nat} {β : Type} {pieces : Fin n → Program β} {next : (Fin n → β) → Task α} {bs : Fin n → β} :
      Reaches t (.round pieces next) r → (∀ i, n ≤ i → H r i = []) →
      (∀ i : Fin n, (pieces i).Leaves (H r i) (.done (bs i))) → Reaches t (next bs) (r + 1)

variable {H}

@[simp]
theorem runs_done {ends : Nat → α → Prop} {a : α} {r : Nat} : (done a).Runs H ends r ↔ ends r a := Iff.rfl

@[simp]
theorem runs_bind {ends : Nat → β → Prop} {t : Task α} {f : α → Task β} {r : Nat} :
    (t.bind f).Runs H ends r ↔ t.Runs H (fun r a => (f a).Runs H ends r) r := by
  induction t generalizing r with
  | done a => rfl
  | round pieces next ih => exact and_congr_right fun _ => exists_congr fun bs => and_congr_right fun _ => ih bs

@[simp]
theorem runs_lift {ends : Nat → α → Prop} {p : Program α} {r : Nat} :
    (lift p).Runs H ends r ↔
      (∀ i, 1 ≤ i → H r i = []) ∧ ∃ a, p.Leaves (H r 0) (.done a) ∧ ends (r + 1) a := by
  refine and_congr_right fun _ => ⟨?_, ?_⟩
  · rintro ⟨bs, hbs, hends⟩
    exact ⟨bs 0, hbs 0, hends⟩
  · rintro ⟨a, ha, hends⟩
    refine ⟨fun _ => a, fun i => ?_, hends⟩
    rw [show i = 0 from Fin.fin_one_eq_zero i]
    exact ha

@[simp]
theorem runs_each {ι : Type} {ends : Nat → List α → Prop} {items : List ι} {f : ι → Program α} {r : Nat} :
    (each items f).Runs H ends r ↔
      (∀ i, items.length ≤ i → H r i = []) ∧
        ∃ bs : Fin items.length → α, (∀ i : Fin items.length, (f (items.get i)).Leaves (H r i) (.done (bs i))) ∧
          ends (r + 1) (List.ofFn bs) := Iff.rfl

theorem Reaches.congr {H' : Nat → Nat → List Act} {t t' : Task α} {r : Nat} (h : t.Reaches H t' r)
    (hH : ∀ r' i, r' < r → H' r' i = H r' i) : t.Reaches H' t' r := by
  induction h with
  | start => exact .start
  | @round n r β pieces next bs _ hrest hpieces ih =>
    refine .round (ih fun r' i hr => hH r' i (by omega)) ?_ ?_
    · intro i hi
      rw [hH r i (by omega)]
      exact hrest i hi
    · intro i
      rw [hH r i (by omega)]
      exact hpieces i

theorem Reaches.runs {ends : Nat → α → Prop} {t t' : Task α} {r : Nat} (h : t.Reaches H t' r)
    (h' : t'.Runs H ends r) : t.Runs H ends 0 := by
  induction h with
  | start => exact h'
  | round _ hrest hpieces ih => exact ih ⟨hrest, _, hpieces, h'⟩

/-- All programs of the task, whatever the earlier ones return, satisfy `Q`. -/
def All (Q : (β : Type) → Program β → Prop) : Task α → Prop
  | done _ => True
  | @round _ β _ pieces next => (∀ i, Q β (pieces i)) ∧ ∀ bs, (next bs).All Q

variable {Q : (β : Type) → Program β → Prop}

theorem all_bind {t : Task α} {f : α → Task β} (ht : t.All Q) (hf : ∀ a, (f a).All Q) : (t.bind f).All Q := by
  induction t with
  | done a => exact hf a
  | round pieces next ih => exact ⟨ht.1, fun bs => ih bs (ht.2 bs)⟩

theorem All.mono {Q' : (β : Type) → Program β → Prop} {t : Task α} (ht : t.All Q) (h : ∀ β p, Q β p → Q' β p) :
    t.All Q' := by
  induction t with
  | done a => trivial
  | round pieces next ih => exact ⟨fun i => h _ _ (ht.1 i), fun bs => ih bs (ht.2 bs)⟩

theorem all_lift {p : Program α} (hp : Q α p) : (lift p).All Q := ⟨fun _ => hp, fun _ => trivial⟩

theorem all_each {ι : Type} {items : List ι} {f : ι → Program α} (hf : ∀ i ∈ items, Q α (f i)) :
    (each items f).All Q := ⟨fun i => hf _ (List.getElem_mem i.isLt), fun _ => trivial⟩

/-- All programs of the task that the acts `H` can lead to satisfy `Q` of their round, and its results satisfy `ends`.
-/
def Along (H : Nat → Nat → List Act) (Q : Nat → (β : Type) → Program β → Prop) (ends : Nat → α → Prop) :
    Task α → Nat → Prop
  | done a, r => ends r a
  | @round _ β _ pieces next, r =>
    (∀ i, Q r β (pieces i)) ∧ ∀ bs, (∀ i, (pieces i).Leaves (H r i) (.done (bs i))) → (next bs).Along H Q ends (r + 1)

variable {Q' : Nat → (β : Type) → Program β → Prop}

theorem along_bind {ends : Nat → β → Prop} {t : Task α} {f : α → Task β} {r : Nat} :
    (t.bind f).Along H Q' ends r ↔ t.Along H Q' (fun r a => (f a).Along H Q' ends r) r := by
  induction t generalizing r with
  | done a => rfl
  | round pieces next ih => exact and_congr_right fun _ => forall_congr' fun bs => imp_congr_right fun _ => ih bs

theorem All.along {t : Task α} (ht : t.All Q) {ends : Nat → α → Prop} {r : Nat}
    (h : ∀ r' β p, r ≤ r' → Q β p → Q' r' β p) (hends : ∀ r a, ends r a) : t.Along H Q' ends r := by
  induction t generalizing r with
  | done a => exact hends r a
  | round pieces next ih =>
    exact ⟨fun i => h _ _ _ (Nat.le_refl r) (ht.1 i),
      fun bs _ => ih bs (ht.2 bs) fun r' β p hr => h r' β p (Nat.le_of_succ_le hr)⟩

theorem Along.mono {Q'' : Nat → (β : Type) → Program β → Prop} {ends ends' : Nat → α → Prop} {t : Task α} {r : Nat}
    (ht : t.Along H Q' ends r) (h : ∀ r' β p, r ≤ r' → Q' r' β p → Q'' r' β p) (hends : ∀ r a, ends r a → ends' r a) :
    t.Along H Q'' ends' r := by
  induction t generalizing r with
  | done a => exact hends r a ht
  | round pieces next ih =>
    exact ⟨fun i => h _ _ _ (Nat.le_refl r) (ht.1 i),
      fun bs hbs => ih bs (ht.2 bs hbs) fun r' β p hr => h r' β p (Nat.le_of_succ_le hr)⟩

theorem along_lift {ends : Nat → α → Prop} {p : Program α} {r : Nat} (hp : Q' r α p)
    (hends : ∀ a, p.Leaves (H r 0) (.done a) → ends (r + 1) a) : (lift p).Along H Q' ends r :=
  ⟨fun _ => hp, fun bs hbs => hends (bs 0) (hbs 0)⟩

theorem along_each {ι : Type} {ends : Nat → List α → Prop} {items : List ι} {f : ι → Program α} {r : Nat}
    (hf : ∀ i ∈ items, Q' r α (f i)) (hends : ∀ as, ends (r + 1) as) : (each items f).Along H Q' ends r :=
  ⟨fun i => hf _ (List.getElem_mem i.isLt), fun _ _ => hends _⟩

theorem Reaches.along {ends : Nat → α → Prop} {t t' : Task α} {r : Nat} (h : t.Reaches H t' r)
    (ht : t.Along H Q' ends 0) :
    t'.Along H Q' ends r ∧ ∀ r' i, r' < r → H r' i ≠ [] →
      ∃ β, ∃ (p : Program β) (b : β), Q' r' β p ∧ p.Leaves (H r' i) (.done b) := by
  induction h with
  | start => exact ⟨ht, by omega⟩
  | @round n r β pieces next bs _ hrest hpieces ih =>
    obtain ⟨⟨hQ, hnext⟩, hbefore⟩ := ih
    refine ⟨hnext bs hpieces, ?_⟩
    intro r' i hr' hne
    by_cases hr : r' < r
    · exact hbefore r' i hr hne
    · obtain rfl : r' = r := by omega
      have hi : i < n := by
        by_contra hle
        exact hne (hrest i (by omega))
      exact ⟨β, pieces ⟨i, hi⟩, bs ⟨i, hi⟩, hQ _, hpieces ⟨i, hi⟩⟩

theorem Runs.along {ends ends' : Nat → α → Prop} {t : Task α} {r : Nat} (h : t.Runs H ends r)
    (ht : t.Along H Q' ends' r) (hends : ∀ r a, ends r a → ∀ r' i, r ≤ r' → H r' i = []) (r' i : Nat) (hr : r ≤ r')
    (hne : H r' i ≠ []) : ∃ β, ∃ (p : Program β) (b : β), Q' r' β p ∧ p.Leaves (H r' i) (.done b) := by
  induction t generalizing r with
  | done a => exact absurd (hends r a h r' i hr) hne
  | @round β n pieces next ih =>
    obtain ⟨hrest, bs, hpieces, hnext⟩ := h
    by_cases hr' : r + 1 ≤ r'
    · exact ih bs hnext (ht.2 bs hpieces) hr'
    · obtain rfl : r' = r := by omega
      have hi : i < n := by
        by_contra hle
        exact hne (hrest i (by omega))
      exact ⟨β, pieces ⟨i, hi⟩, bs ⟨i, hi⟩, ht.1 _, hpieces ⟨i, hi⟩⟩

end Task

/-- A property of all programs that operations are made of is one of all programs of an operation. -/
theorem Scheduler.all_pieces (s : Scheduler) {Q : (β : Type) → Program β → Prop} (hsubmit : ∀ p, Q _ (s.submit p))
    (hrecord : ∀ key id result, Q _ (s.recordOutcome key id result)) (hnow : Q _ Program.now)
    (hstale : ∀ olderThan limit, Q _ (Program.listStale olderThan limit)) (hrecover : ∀ a, Q _ (s.recover a))
    (hdue : ∀ asOf limit, Q _ (Program.listDue asOf limit)) (hfire : ∀ d, Q _ (s.fire d))
    (hconclude : ∀ asOf recovered due fired, Q _ (Scheduler.concludePoll asOf recovered due fired)) (op : Operation) :
    (s.task op).All Q := by
  have hat : ∀ t, (s.pollAt t).All Q := by
    intro t
    refine Task.all_bind ?_ ?_
    · unfold recoverStale
      split
      · trivial
      · refine Task.all_bind (Task.all_lift (hstale _ _)) ?_
        rintro (e | stale)
        · trivial
        · refine Task.all_bind (Task.all_each fun a _ => hrecover a) fun xs => ?_
          split <;> trivial
    · rintro (e | recovered)
      · trivial
      · refine Task.all_bind ?_ ?_
        · refine Task.all_bind (Task.all_lift (hdue _ _)) ?_
          rintro (e | due)
          · trivial
          · refine Task.all_bind (Task.all_each fun d _ => hfire d) fun xs => ?_
            split <;> trivial
        · rintro (e | ⟨due, fired⟩)
          · trivial
          · exact Task.all_lift (hconclude _ _ _ _)
  cases op with
  | submit p => exact Task.all_bind (Task.all_lift (hsubmit p)) fun _ => trivial
  | record key id result => exact Task.all_bind (Task.all_lift (hrecord key id result)) fun _ => trivial
  | poll asOf =>
    refine Task.all_bind ?_ fun _ => trivial
    cases asOf with
    | some t => exact hat t
    | none => exact Task.all_bind (Task.all_lift hnow) hat

/-! ### Systems -/

/-- The acts at the places of worker `k`. -/
def Log.pasts (k : Nat) (log : Log) (r i : Nat) : List Act := log.past ⟨k, r, i⟩

/-- The program `p` has come to the phase by the acts `h`. -/
def Phase.Plays {β : Type} (p : Program β) (h : List Act) : Phase β → Prop
  | running q => p.Leaves h q
  | waiting c next => ∃ h', h = .asked c :: h' ∧ p.Leaves h' (.ask (.charge c) next)
  | recording _ _ body next => p.Leaves h (body.bind next)
  | finished b => p.Leaves h (.done b)

/-- The log of worker `k` is a transcript of an operation that `may` permits. -/
def Activity.Transcribed (may : Permission) (k : Nat) (log : Log) : Activity → Prop
  | idle => ∀ entry ∈ log, entry.place.worker ≠ k
  | finished x => ∃ s op, may k s op ∧
    (s.task op).Runs (log.pasts k) (fun r y => y = x ∧ ∀ r' i, r ≤ r' → log.pasts k r' i = []) 0
  | @round β n number phases next =>
    (∀ entry ∈ log, entry.place.worker = k → entry.place.round ≤ number) ∧
      ∃ s op, ∃ pieces : Fin n → Program β, may k s op ∧
        (s.task op).Reaches (log.pasts k) (.round pieces next) number ∧
        (∀ i : Fin n, (phases i).Plays (pieces i) (log.pasts k number i)) ∧ ∀ i, n ≤ i → log.pasts k number i = []

private theorem Phase.Step.plays {β : Type} {w w' : World} {φ φ' : Phase β} {event : Event} {p : Program β}
    {place : Place} {log : Log} (h : φ.Plays p (log.past place)) (hstep : φ.Step w event φ' w') :
    φ'.Plays p (Log.past place (⟨place, event⟩ :: log)) := by
  cases hstep with
  | @exchange r next x refused _ _ hr _ =>
    have hleaves := h.answered x refused w w'
    rw [Request.opening_eq_nil hr] at hleaves
    rw [Log.past_cons_act]
    exact hleaves
  | ask =>
    rw [Log.past_cons_act]
    exact ⟨_, rfl, h⟩
  | @answer c next x _ =>
    obtain ⟨h', hpast, hleaves⟩ := h
    rw [Log.past_cons_act, hpast]
    exact hleaves.answered x false w w
  | enter => exact h
  | @record call own r body next x refused _ _ hr _ =>
    have h' : p.Leaves (log.past place) (.ask r fun x => (body x).bind next) := h
    have hleaves := h'.answered x refused w w'
    rw [Request.opening_eq_nil hr] at hleaves
    rw [Log.past_cons_act]
    exact hleaves
  | leave => exact h
  | finish => exact h

private theorem Log.pasts_cons_of_ne {k : Nat} {entry : Entry} (h : entry.place.worker ≠ k) (log : Log) :
    Log.pasts k (entry :: log) = Log.pasts k log := by
  funext r i
  exact past_cons_of_ne (fun hp => h (by rw [hp])) log

private theorem Log.pasts_eq_nil {k r : Nat} {log : Log}
    (h : ∀ entry ∈ log, entry.place.worker = k → entry.place.round < r) (i : Nat) : log.pasts k r i = [] := by
  refine past_eq_nil fun e he hp => ?_
  have hlt := h e he (by rw [hp])
  rw [hp] at hlt
  exact Nat.lt_irrefl _ hlt

variable {may : Permission}

private theorem Activity.Transcribed.cons {k : Nat} {log : Log} {activity : Activity}
    (h : activity.Transcribed may k log) {entry : Entry} (hk : entry.place.worker ≠ k) :
    activity.Transcribed may k (entry :: log) := by
  cases activity with
  | idle =>
    rintro e (_ | ⟨_, he⟩)
    · exact hk
    · exact h e he
  | finished x =>
    simp only [Transcribed, Log.pasts_cons_of_ne hk]
    exact h
  | round number phases next =>
    obtain ⟨hrounds, hrest⟩ := h
    refine ⟨?_, ?_⟩
    · rintro e (_ | ⟨_, he⟩) hw
      · exact absurd hw hk
      · exact hrounds e he hw
    · rw [Log.pasts_cons_of_ne hk]
      exact hrest

private theorem Task.Reaches.transcribed {s : Scheduler} {op : Operation} {t : Task Report} {k number : Nat}
    {log : Log} (hmay : may k s op) (h : (s.task op).Reaches (log.pasts k) t number)
    (hrounds : ∀ entry ∈ log, entry.place.worker = k → entry.place.round < number) :
    (t.begin number).Transcribed may k log := by
  have hfree : ∀ r i, number ≤ r → log.pasts k r i = [] := fun r i hr =>
    Log.pasts_eq_nil (fun entry he hw => Nat.lt_of_lt_of_le (hrounds entry he hw) hr) i
  cases t with
  | done x => exact ⟨s, op, hmay, h.runs ⟨rfl, fun r i hr => hfree r i hr⟩⟩
  | round pieces next =>
    refine ⟨fun e he hw => Nat.le_of_lt (hrounds e he hw), s, op, pieces, hmay, h, ?_,
      fun i _ => hfree _ i (Nat.le_refl _)⟩
    intro i
    rw [hfree _ _ (Nat.le_refl _)]
    exact .start

private theorem Activity.Transcribed.act {k number n : Nat} {β : Type} {log : Log} {phases : Fin n → Phase β}
    {next : (Fin n → β) → Task Report} (h : (Activity.round number phases next).Transcribed may k log) {i : Fin n}
    {event : Event} {φ : Phase β} {w w' : World} (hstep : (phases i).Step w event φ w') :
    (Activity.round number (Function.update phases i φ) next).Transcribed may k (⟨⟨k, number, i⟩, event⟩ :: log) := by
  obtain ⟨hrounds, s, op, pieces, hmay, hreaches, hphases, hrest⟩ := h
  have hother : ∀ r j, ¬(r = number ∧ j = i.val) →
      Log.pasts k (⟨⟨k, number, i⟩, event⟩ :: log) r j = log.pasts k r j := by
    intro r j hne
    refine Log.past_cons_of_ne (fun hp => hne ?_) log
    simp only [Place.mk.injEq, true_and] at hp
    exact ⟨hp.1.symm, hp.2.symm⟩
  refine ⟨?_, s, op, pieces, hmay, hreaches.congr fun r j hr => hother r j (by omega), ?_, ?_⟩
  · rintro e (_ | ⟨_, he⟩) hw
    · exact Nat.le_refl _
    · exact hrounds e he hw
  · intro j
    by_cases hj : j = i
    · subst hj
      rw [Function.update_self]
      exact Phase.Step.plays (hphases j) hstep
    · rw [Function.update_of_ne hj, hother _ _ fun h => hj (Fin.ext h.2)]
      exact hphases j
  · intro j hj
    rw [hother _ _ (by omega)]
    exact hrest j hj

private theorem transcribed_update {workers : Nat → Activity} {k : Nat} {log : Log} {activity : Activity}
    (hself : may.Allows k → activity.Transcribed may k log)
    (hothers : ∀ j, j ≠ k → may.Allows j → (workers j).Transcribed may j log) (j : Nat) (hj : may.Allows j) :
    (Function.update workers k activity j).Transcribed may j log := by
  by_cases hjk : j = k
  · subst hjk
    rw [Function.update_self]
    exact hself hj
  · rw [Function.update_of_ne hjk]
    exact hothers j hjk hj

/-- The log of every worker is a transcript of an operation that it may begin. -/
theorem System.Onward.transcribed {σ₀ σ : System} (hfresh : may.Fresh σ₀) (h : Onward may σ₀ σ) :
    ∀ k, may.Allows k → (σ.workers k).Transcribed may k σ.log := by
  induction h with
  | refl =>
    intro k hk
    rw [(hfresh k hk).1]
    exact (hfresh k hk).2
  | @start σ k s op _ hidle hmay ih =>
    refine transcribed_update (fun hk => ?_) fun j _ => ih j
    have hfree := ih k hk
    rw [hidle] at hfree
    exact Task.Reaches.transcribed hmay .start fun e he hw => absurd hw (hfree e he)
  | @step σ σ' _ hstep hidles hallowed ih =>
    cases hstep with
    | clock t => exact ih
    | @start k s op hidle =>
      have hbegun := hidles k hidle
      simp only [Function.update_self] at hbegun
      exact absurd hbegun (Task.begin_ne_idle _ _)
    | @act k number n β phases next i event φ w hk hstep =>
      refine transcribed_update (fun hmay => ?_) fun j hj hmay => (ih j hmay).cons fun h => hj h.symm
      have htranscribed := ih k hmay
      rw [hk] at htranscribed
      exact htranscribed.act hstep
    | @advance k number n β phases next bs hk hover =>
      refine transcribed_update (fun hmay => ?_) fun j _ hmay => ih j hmay
      have htranscribed := ih k hmay
      rw [hk] at htranscribed
      obtain ⟨hrounds, s, op, pieces, hbegun, hreaches, hphases, hrest⟩ := htranscribed
      refine Task.Reaches.transcribed hbegun (hreaches.round hrest fun i => ?_)
        fun e he hw => Nat.lt_succ_of_le (hrounds e he hw)
      have hi := hphases i
      rw [hover i] at hi
      exact hi

/-- A worker that has finished has run an operation that it may begin. -/
theorem System.Onward.runs {σ₀ σ : System} (hfresh : may.Fresh σ₀) (h : Onward may σ₀ σ) {k : Nat}
    (hk : may.Allows k) {x : Report} (hx : σ.workers k = .finished x) :
    ∃ s op, may k s op ∧
      (s.task op).Runs (σ.log.pasts k) (fun r y => y = x ∧ ∀ r' i, r ≤ r' → σ.log.pasts k r' i = []) 0 := by
  have htranscribed := h.transcribed hfresh k hk
  rw [hx] at htranscribed
  exact htranscribed

/-- The acts at `p` are those of a program that an operation could lead to, which may be waiting for the gateway. -/
theorem System.Onward.piece_along {σ₀ σ : System} (hfresh : may.Fresh σ₀) (h : Onward may σ₀ σ) {p : Place}
    (hp : may.Allows p.worker) (hne : σ.log.past p ≠ []) {Q : Scheduler → Nat → (β : Type) → Program β → Prop}
    (hQ : ∀ s op, may p.worker s op → (s.task op).Along (σ.log.pasts p.worker) (Q s) (fun _ _ => True) 0) :
    ∃ s β, ∃ (q q' : Program β) (h' : List Act), Q s p.round β q ∧ q.Leaves h' q' ∧
      (σ.log.past p = h' ∨ ∃ c, σ.log.past p = .asked c :: h') := by
  obtain ⟨k, r, i⟩ := p
  have htranscribed := h.transcribed hfresh k hp
  cases hactivity : σ.workers k with
  | idle =>
    rw [hactivity] at htranscribed
    exact absurd (Log.past_eq_nil fun e he hplace => htranscribed e he (by rw [hplace])) hne
  | finished x =>
    rw [hactivity] at htranscribed
    obtain ⟨s, op, hmay, hruns⟩ := htranscribed
    obtain ⟨β, q, b, hq, hleaves⟩ := hruns.along (hQ s op hmay) (fun r a h => h.2) r i (Nat.zero_le r) hne
    exact ⟨s, β, q, _, _, hq, hleaves, .inl rfl⟩
  | @round β n number phases next =>
    rw [hactivity] at htranscribed
    obtain ⟨hrounds, s, op, pieces, hmay, hreaches, hphases, hrest⟩ := htranscribed
    obtain ⟨⟨hpieces, -⟩, hbefore⟩ := hreaches.along (hQ s op hmay)
    rcases Nat.lt_trichotomy r number with hr | rfl | hr
    · obtain ⟨β, q, b, hq, hleaves⟩ := hbefore r i hr hne
      exact ⟨s, β, q, _, _, hq, hleaves, .inl rfl⟩
    · have hi : i < n := by
        by_contra hle
        exact hne (hrest i (by omega))
      have hplays := hphases ⟨i, hi⟩
      refine ⟨s, β, pieces ⟨i, hi⟩, ?_⟩
      cases hphase : phases ⟨i, hi⟩ with
      | waiting c next' =>
        rw [hphase] at hplays
        obtain ⟨h', hpast, hleaves⟩ := hplays
        exact ⟨_, h', hpieces _, hleaves, .inr ⟨c, hpast⟩⟩
      | running | recording | finished =>
        rw [hphase] at hplays
        exact ⟨_, _, hpieces _, hplays, .inl rfl⟩
    · exact absurd (Log.pasts_eq_nil (fun e he hw => Nat.lt_of_le_of_lt (hrounds e he hw) hr) i) hne

/-- The acts at `p` are those of a program of an operation. -/
theorem System.Onward.piece {σ₀ σ : System} (hfresh : may.Fresh σ₀) (h : Onward may σ₀ σ) {p : Place}
    (hp : may.Allows p.worker) (hne : σ.log.past p ≠ []) {Q : Scheduler → (β : Type) → Program β → Prop}
    (hQ : ∀ s op, may p.worker s op → (s.task op).All (Q s)) :
    ∃ s β, ∃ (q q' : Program β) (h' : List Act), Q s β q ∧ q.Leaves h' q' ∧
      (σ.log.past p = h' ∨ ∃ c, σ.log.past p = .asked c :: h') :=
  h.piece_along hfresh hp hne (Q := fun s _ => Q s) fun s op hmay =>
    (hQ s op hmay).along (fun _ _ _ _ hq => hq) fun _ _ => trivial

/-! ### One round after the other -/

theorem System.Onward.rounds_le {σ₀ σ : System} (hfresh : may.Fresh σ₀) (h : Onward may σ₀ σ) {k number : Nat}
    (hk : may.Allows k) (hround : (σ.workers k).InRound number) :
    ∀ entry ∈ σ.log, entry.place.worker = k → entry.place.round ≤ number := by
  have htranscribed := h.transcribed hfresh k hk
  cases hactivity : σ.workers k with
  | idle | finished =>
    rw [hactivity] at hround
    exact hround.elim
  | round number' phases next =>
    rw [hactivity] at hround htranscribed
    obtain rfl : number' = number := hround
    exact htranscribed.1

/-- The stores that a worker sees in later rounds have grown from those of earlier ones. -/
theorem System.Onward.grows_rounds {w : World} {σ₀ σ : System} (hw : w.Unused) (h₀ : Reachable w σ₀)
    (hfresh : may.Fresh σ₀) (h : Onward may σ₀ σ) {p q : Place} {e e' : Exchange} (hp : may.Allows p.worker)
    (hpq : q.worker = p.worker) (hrounds : p.round < q.round) (he : ⟨p, .act (.exchanged e)⟩ ∈ σ.log)
    (he' : ⟨q, .act (.exchanged e')⟩ ∈ σ.log) : e.after.store.Grows e'.before.store := by
  have hnew : ∀ {p : Place} {e : Exchange}, may.Allows p.worker → ⟨p, .act (.exchanged e)⟩ ∉ σ₀.log :=
    fun hp hmem => (hfresh _ hp).2 _ hmem rfl
  obtain ⟨σ₁, later, h₁, -, hround, hlog⟩ := h.at_exchange (hnew hp) he
  obtain ⟨σ₂, later', h₂, hworld, -, hlog'⟩ := h.at_exchange (hnew (hpq ▸ hp)) he'
  -- nothing of the later round had been logged when the earlier exchange was had
  have hlater : ⟨q, .act (.exchanged e')⟩ ∉ σ₁.log := fun hmem => by
    have := h₁.rounds_le hfresh hp hround _ hmem hpq
    simp only at this
    omega
  have hmem : ⟨p, .act (.exchanged e)⟩ ∈ σ₂.log := by
    rw [hlog, List.append_eq_append_iff] at hlog'
    rcases hlog' with ⟨x, -, hx⟩ | ⟨x, -, hx⟩
    · rcases x with _ | ⟨y, x⟩
      · simp only [List.nil_append, List.cons.injEq, Entry.mk.injEq] at hx
        rw [hx.1.1] at hrounds
        exact absurd hrounds (Nat.lt_irrefl _)
      · simp only [List.cons_append, List.cons.injEq] at hx
        exact absurd (by simp [hx.2]) hlater
    · rcases x with _ | ⟨y, x⟩
      · simp only [List.nil_append, List.cons.injEq, Entry.mk.injEq] at hx
        rw [hx.1.1] at hrounds
        exact absurd hrounds (Nat.lt_irrefl _)
      · simp only [List.cons_append, List.cons.injEq] at hx
        rw [hx.2]
        exact List.mem_append_right _ List.mem_cons_self
  rw [← hworld]
  exact (((h₂.reachable h₀).log_sound hw).exchanges p e hmem).grows

end PaymentRetry
