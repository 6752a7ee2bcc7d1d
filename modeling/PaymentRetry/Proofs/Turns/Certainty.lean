import Mathlib.Data.DFinsupp.WellFounded
import PaymentRetry.Task

/-!
# What is certain of a task

The programs of a round take turns, one request at a time, in any order.  `Task.Turn` is one turn of a task whose
requests are served in some ways.  `Task.AlwaysEnds` says that, however turns are taken and requests are served, the
task comes to an end, and ends as required: it never gets stuck, and there is no run without an end.

For a round this is shown program by program (`Task.alwaysEnds_round`): each program has a condition that its own turns
keep up and that the turns of the others leave alone.  What holds of all runs of a task holds in particular if its
programs are run one after the other (`Task.AlwaysEnds.sequential`).
-/

namespace PaymentRetry

/-- Which answers may be given to a request in a state, each with the state afterwards. -/
abbrev Program.Serving (σ : Type) := (r : Request) → σ → r.Answer → σ → Prop

/-- The one way to serve requests that `answer` is. -/
def Program.servedBy {σ : Type} (answer : Program.Answering σ) : Program.Serving σ := fun r s x s' =>
  answer r s = (x, s')

/-! ### Programs -/

namespace Program

variable {σ α β : Type} {serving : Serving σ}

/-- Whether a program that runs by itself in a state is always answered, and `ends` holds of its result and the state
afterwards. -/
def AlwaysEnds (serving : Serving σ) (ends : α → σ → Prop) : Program α → σ → Prop
  | done a, s => ends a s
  | ask r next, s => (∃ x s', serving r s x s') ∧ ∀ x s', serving r s x s' → (next x).AlwaysEnds serving ends s'

theorem AlwaysEnds.mono {ends ends' : α → σ → Prop} (hends : ∀ a s, ends a s → ends' a s) {p : Program α} {s : σ}
    (h : p.AlwaysEnds serving ends s) : p.AlwaysEnds serving ends' s := by
  induction p generalizing s with
  | done a => exact hends a s h
  | ask r next ih => exact ⟨h.1, fun x s' hx => ih x (h.2 x s' hx)⟩

@[simp]
theorem alwaysEnds_done {ends : α → σ → Prop} {a : α} {s : σ} : (done a).AlwaysEnds serving ends s ↔ ends a s := Iff.rfl

@[simp]
theorem alwaysEnds_bind {ends : β → σ → Prop} {p : Program α} {f : α → Program β} {s : σ} :
    (p.bind f).AlwaysEnds serving ends s ↔ p.AlwaysEnds serving (fun a s => (f a).AlwaysEnds serving ends s) s := by
  induction p generalizing s with
  | done a => rfl
  | ask r next ih =>
    exact and_congr_right fun _ => forall_congr' fun x => forall_congr' fun s' => imp_congr_right fun _ => ih x

theorem alwaysEnds_request {r : Request} {ends : r.Answer → σ → Prop} {s : σ} :
    (request r).AlwaysEnds serving ends s ↔ (∃ x s', serving r s x s') ∧ ∀ x s', serving r s x s' → ends x s' := Iff.rfl

/-- Programs that run one after the other, each of which takes its item off what is still to be done. -/
theorem alwaysEnds_sequence {ι : Type} {f : ι → Program α} {a : α} (todo : List ι → σ → Prop)
    (hf : ∀ x xs s, todo (x :: xs) s → (f x).AlwaysEnds serving (fun b s' => b = a ∧ todo xs s') s) {items : List ι}
    {s : σ} (hs : todo items s) :
    (sequence (items.map f)).AlwaysEnds serving (fun bs s' => bs = List.replicate items.length a ∧ todo [] s') s := by
  induction items generalizing s with
  | nil => exact ⟨rfl, hs⟩
  | cons x xs ih =>
    simp only [List.map_cons, sequence, alwaysEnds_bind, alwaysEnds_done]
    refine (hf x xs s hs).mono fun b s' hb => (ih hb.2).mono fun bs s'' hbs => ⟨?_, hbs.2⟩
    rw [hb.1, hbs.1]
    rfl

theorem alwaysEnds_servedBy {answer : Answering σ} {ends : α → σ → Prop} {p : Program α} {s : σ} :
    p.AlwaysEnds (servedBy answer) ends s ↔ ends (p.run answer s).1 (p.run answer s).2 := by
  induction p generalizing s with
  | done a => rfl
  | ask r next ih =>
    refine Iff.trans ⟨fun h => h.2 _ _ rfl, fun h => ⟨⟨_, _, rfl⟩, fun x s' hx => ?_⟩⟩ (ih (answer r s).1)
    obtain ⟨rfl, rfl⟩ := Prod.mk.inj hx
    exact h

/-- Whether `q` is what `p` does after an answer. -/
private def Child (q p : Program α) : Prop := ∃ r next x, p = ask r next ∧ q = next x

private theorem wellFounded_child : WellFounded (Child (α := α)) := by
  refine ⟨fun p => ?_⟩
  induction p with
  | done a =>
    refine ⟨_, ?_⟩
    rintro q ⟨r, next, x, heq, -⟩
    cases heq
  | ask r next ih =>
    refine ⟨_, ?_⟩
    rintro q ⟨r', next', x, heq, rfl⟩
    cases heq
    exact ih x

/-- Programs that run side by side come to an end, since each turn leaves less of one of them. -/
private theorem induction_on_pieces {n : Nat} {motive : (Fin n → Program α) → Prop}
    (step : ∀ pieces : Fin n → Program α,
      (∀ i r (next : r.Answer → Program α) x, pieces i = ask r next → motive (Function.update pieces i (next x))) →
        motive pieces)
    (pieces : Fin n → Program α) : motive pieces := by
  have hwf : WellFounded (Pi.Lex (fun i j : Fin n => i < j) fun {_} => Child (α := α)) :=
    Pi.Lex.wellFounded _ fun _ => wellFounded_child
  induction pieces using hwf.induction with
  | _ pieces ih =>
    refine step pieces fun i r next x hi => ih _ ⟨i, fun j hj => ?_, ?_⟩
    · exact Function.update_of_ne (Fin.ne_of_lt hj) _ _
    · exact ⟨r, next, x, hi, Function.update_self ..⟩

end Program

/-! ### Tasks -/

namespace Task

variable {σ α β : Type} {serving : Program.Serving σ}

/-- One turn of a task: a request of one of the programs is answered, or all programs of the round have ended and the
next round begins. -/
inductive Turn (serving : Program.Serving σ) : Task α → σ → Task α → σ → Prop
  | act {β : Type} {n : Nat} {pieces : Fin n → Program β} {next : (Fin n → β) → Task α} {i : Fin n} {r : Request}
      {rest : r.Answer → Program β} {x : r.Answer} {s s' : σ} :
      pieces i = .ask r rest → serving r s x s' →
      Turn serving (round pieces next) s (round (Function.update pieces i (rest x)) next) s'
  | advance {β : Type} {n : Nat} {pieces : Fin n → Program β} {next : (Fin n → β) → Task α} {bs : Fin n → β} {s : σ} :
      (∀ i, pieces i = .done (bs i)) → Turn serving (round pieces next) s (next bs) s

/-- Whether a task in a state always comes to an end, however turns are taken, and `ends` holds of its result and the
state afterwards. -/
inductive AlwaysEnds (serving : Program.Serving σ) (ends : α → σ → Prop) : Task α → σ → Prop
  | done {a : α} {s : σ} : ends a s → AlwaysEnds serving ends (done a) s
  | turn {t : Task α} {s : σ} : (∃ t' s', t.Turn serving s t' s') →
      (∀ t' s', t.Turn serving s t' s' → AlwaysEnds serving ends t' s') → AlwaysEnds serving ends t s

theorem not_turn_done {a : α} {s s' : σ} {t : Task α} : ¬(Task.done a).Turn serving s t s' := fun h => by cases h

theorem AlwaysEnds.step {ends : α → σ → Prop} {t t' : Task α} {s s' : σ} (h : t.AlwaysEnds serving ends s)
    (hturn : t.Turn serving s t' s') : t'.AlwaysEnds serving ends s' := by
  cases h with
  | done _ => exact absurd hturn not_turn_done
  | turn _ hall => exact hall _ _ hturn

theorem alwaysEnds_done {ends : α → σ → Prop} {a : α} {s : σ} : (Task.done a).AlwaysEnds serving ends s ↔ ends a s := by
  refine ⟨fun h => ?_, .done⟩
  cases h with
  | done h => exact h
  | turn hsome _ =>
    obtain ⟨t', s', hturn⟩ := hsome
    exact absurd hturn not_turn_done

theorem AlwaysEnds.mono {ends ends' : α → σ → Prop} (hends : ∀ a s, ends a s → ends' a s) {t : Task α} {s : σ}
    (h : t.AlwaysEnds serving ends s) : t.AlwaysEnds serving ends' s := by
  induction h with
  | done h => exact .done (hends _ _ h)
  | turn hsome _ ih => exact .turn hsome ih

/-- A task that is not at its end goes on in the same way whatever comes after it. -/
private theorem turn_bind {f : α → Task β} {t : Task α} {u : Task β} {s s' : σ} (ht : ∀ a, t ≠ .done a)
    (h : (t.bind f).Turn serving s u s') : ∃ t', t.Turn serving s t' s' ∧ u = t'.bind f := by
  cases t with
  | done a => exact absurd rfl (ht a)
  | round pieces next =>
    cases h with
    | act hi hx => exact ⟨_, .act hi hx, rfl⟩
    | advance hbs => exact ⟨_, .advance hbs, rfl⟩

/-- A sequence of tasks ends as required if the second one does from wherever the first one ends. -/
theorem AlwaysEnds.bind {ends : β → σ → Prop} {t : Task α} {f : α → Task β} {s : σ}
    (h : t.AlwaysEnds serving (fun a s => (f a).AlwaysEnds serving ends s) s) :
    (t.bind f).AlwaysEnds serving ends s := by
  induction h with
  | done h => exact h
  | @turn t s hsome _ ih =>
    have ht : ∀ a, t ≠ .done a := by
      rintro a rfl
      obtain ⟨t', s', hturn⟩ := hsome
      exact not_turn_done hturn
    refine .turn ?_ ?_
    · obtain ⟨t', s', hturn⟩ := hsome
      cases hturn with
      | act hi hx => exact ⟨_, _, .act hi hx⟩
      | advance hbs => exact ⟨_, _, .advance hbs⟩
    · intro u s' hturn
      obtain ⟨t', hturn', rfl⟩ := turn_bind ht hturn
      exact ih _ _ hturn'

/-! ### Rounds -/

section

variable {n : Nat} {next : (Fin n → β) → Task α} {ends : α → σ → Prop}

/-- Each program of a round has a condition `own`, and all share the condition `common`.  A program for which both hold
is answered, and its turn keeps them up and leaves the conditions of the others alone. -/
theorem alwaysEnds_round (common : σ → Prop) (own : Fin n → Program β → σ → Prop)
    (hserved : ∀ i r rest s, common s → own i (.ask r rest) s → ∃ x s', serving r s x s')
    (hturn : ∀ i r (rest : r.Answer → Program β) s x s', common s → own i (.ask r rest) s → serving r s x s' →
      common s' ∧ own i (rest x) s' ∧ ∀ j p, j ≠ i → own j p s → own j p s')
    (hnext : ∀ bs s, common s → (∀ i, own i (.done (bs i)) s) → (next bs).AlwaysEnds serving ends s)
    {pieces : Fin n → Program β} {s : σ} (hcommon : common s) (hown : ∀ i, own i (pieces i) s) :
    (round pieces next).AlwaysEnds serving ends s := by
  induction pieces using Program.induction_on_pieces generalizing s with
  | step pieces ih =>
    by_cases hover : ∀ i, ∃ b, pieces i = .done b
    · -- all programs have ended
      choose bs hbs using hover
      refine .turn ⟨_, _, .advance hbs⟩ ?_
      intro t' s' hstep
      have hends : ∀ i, own i (.done (bs i)) s := fun i => hbs i ▸ hown i
      cases hstep with
      | act hi _ =>
        rw [hbs] at hi
        cases hi
      | @advance _ _ _ _ bs' _ hbs' =>
        have heq : bs' = bs := by
          funext i
          have h := (hbs' i).symm.trans (hbs i)
          exact Program.done.inj h
        rw [heq]
        exact hnext bs s hcommon hends
    · -- one of them goes on
      simp only [not_forall, not_exists] at hover
      obtain ⟨i, hi⟩ := hover
      obtain ⟨r, rest, hask⟩ : ∃ r rest, pieces i = .ask r rest := by
        cases hp : pieces i with
        | done b => exact absurd hp (hi b)
        | ask r rest => exact ⟨r, rest, rfl⟩
      obtain ⟨x, s', hx⟩ := hserved i r rest s hcommon (hask ▸ hown i)
      refine .turn ⟨_, _, .act hask hx⟩ ?_
      intro t' s' hstep
      cases hstep with
      | advance hbs => exact absurd (hbs i) (hi _)
      | @act _ _ _ _ j r rest x _ _ hj hx =>
        obtain ⟨hcommon', hself, hothers⟩ := hturn j r rest s x s' hcommon (hj ▸ hown j) hx
        refine ih j r rest x hj hcommon' fun k => ?_
        by_cases hk : k = j
        · subst hk
          rw [Function.update_self]
          exact hself
        · rw [Function.update_of_ne hk]
          exact hothers k _ hk (hown k)

end

theorem alwaysEnds_lift {p : Program α} {ends : α → σ → Prop} {s : σ} (h : p.AlwaysEnds serving ends s) :
    (lift p).AlwaysEnds serving ends s := by
  refine alwaysEnds_round (fun _ => True) (fun _ q s => q.AlwaysEnds serving ends s) ?_ ?_ ?_ trivial fun _ => h
  · exact fun _ _ _ _ _ hq => hq.1
  · intro i r rest s x s' _ hq hx
    exact ⟨trivial, hq.2 x s' hx, fun j _ hj => absurd (Subsingleton.elim j i) hj⟩
  · intro bs s _ hbs
    exact .done (hbs 0)

/-! ### One program after the other -/

section

variable {answer : Program.Answering σ} (hanswer : ∀ r s, serving r s (answer r s).1 (answer r s).2)

include hanswer

private theorem AlwaysEnds.program {n : Nat} {pieces : Fin n → Program β} {next : (Fin n → β) → Task α}
    {ends : α → σ → Prop} {i : Fin n} {p : Program β} {s : σ} (hp : pieces i = p)
    (h : (round pieces next).AlwaysEnds serving ends s) :
    (round (Function.update pieces i (.done (p.run answer s).1)) next).AlwaysEnds serving ends (p.run answer s).2 := by
  induction p generalizing pieces s with
  | done b =>
    rw [Program.run_done, Function.update_eq_self_iff.2 hp.symm]
    exact h
  | ask r rest ih =>
    have hstep := h.step (.act hp (hanswer r s))
    have hrest := ih (answer r s).1 (Function.update_self ..) hstep
    rw [Function.update_idem] at hrest
    exact hrest

/-- The programs of a round may go one after the other. -/
private theorem AlwaysEnds.inOrder {n m : Nat} {pieces : Fin n → Program β} {next : (Fin n → β) → Task α}
    {ends : α → σ → Prop} (pick : Fin m → Fin n) (hpick : Function.Injective pick) {ps : Fin m → Program β}
    (hps : ∀ j, pieces (pick j) = ps j) {s : σ} (h : (round pieces next).AlwaysEnds serving ends s) :
    ∃ pieces' : Fin n → Program β,
      (round pieces' next).AlwaysEnds serving ends ((Program.inOrder ps).run answer s).2 ∧
        (∀ j, pieces' (pick j) = .done (((Program.inOrder ps).run answer s).1 j)) ∧
        ∀ i, (∀ j, pick j ≠ i) → pieces' i = pieces i := by
  induction m generalizing pieces s with
  | zero => exact ⟨pieces, h, fun j => j.elim0, fun _ _ => rfl⟩
  | succ m ih =>
    have hne : ∀ j : Fin m, pick j.succ ≠ pick 0 := fun j hj => Fin.succ_ne_zero j (hpick hj)
    have hfirst := h.program hanswer (hps 0)
    have hothers : ∀ j : Fin m, Function.update pieces (pick 0) (.done ((ps 0).run answer s).1) (pick j.succ) =
        ps j.succ := fun j => (Function.update_of_ne (hne j) ..).trans (hps j.succ)
    obtain ⟨pieces', halways, hover, hrest⟩ :=
      ih (fun j => pick j.succ) (fun j j' hj => Fin.succ_inj.1 (hpick hj)) hothers hfirst
    simp only [Program.inOrder, Program.run_bind, Program.run_done]
    refine ⟨pieces', halways, ?_, ?_⟩
    · intro j
      cases j using Fin.cases with
      | zero =>
        rw [hrest (pick 0) hne, Function.update_self]
        rfl
      | succ j => exact hover j
    · intro i hi
      rw [hrest i fun j => hi j.succ, Function.update_of_ne fun h => hi 0 h.symm]

/-- A task ends as required if its programs are run one after the other, by answers that may be given. -/
theorem AlwaysEnds.sequential {ends : α → σ → Prop} {t : Task α} {s : σ} (h : t.AlwaysEnds serving ends s) :
    ends (t.sequential.run answer s).1 (t.sequential.run answer s).2 := by
  induction t generalizing s with
  | done a => exact alwaysEnds_done.1 h
  | round pieces next ih =>
    obtain ⟨pieces', halways, hover, -⟩ := h.inOrder hanswer id Function.injective_id fun _ => rfl
    have hnext := halways.step (.advance hover)
    simp only [Task.sequential, Program.run_bind]
    exact ih _ hnext

end

end Task

end PaymentRetry
