import PaymentRetry.Program

/-!
# Tasks

A task is work in rounds.  In each round several programs run side by side, and the next round is made from their
results once all of them have ended.  A program on its own is a round of one.

A task says which programs may run side by side, not how they take turns.  `Task.sequential` is the task with the
programs of each round one after the other; `sequential_bind` and `sequential_each` say what it makes of the ways in
which tasks are put together.
-/

namespace PaymentRetry

namespace Program

/-- The programs of a family in sequence. -/
def inOrder {β : Type} : {n : Nat} → (Fin n → Program β) → Program (Fin n → β)
  | 0, _ => done fun i => i.elim0
  | _ + 1, ps => (ps 0).bind fun b => (inOrder fun i => ps i.succ).bind fun bs => done fun i => i.cases b bs

theorem inOrder_ofFn {β : Type} {n : Nat} (ps : Fin n → Program β) :
    ((inOrder ps).bind fun bs => done (List.ofFn bs)) = sequence (List.ofFn ps) := by
  induction n with
  | zero => simp [inOrder, sequence, bind]
  | succ n ih =>
    rw [List.ofFn_succ, sequence, ← ih]
    simp only [inOrder, bind_assoc, bind]
    simp [List.ofFn_succ]

end Program

/-- Work in rounds of programs that run side by side. -/
inductive Task (α : Type) : Type 1 where
  | done (a : α)
  | round {β : Type} {n : Nat} (pieces : Fin n → Program β) (next : (Fin n → β) → Task α)

namespace Task

/-- The task `t`, followed by the task made from its result. -/
def bind {α β : Type} : Task α → (α → Task β) → Task β
  | done a, f => f a
  | round pieces next, f => round pieces fun bs => (next bs).bind f

instance : Monad Task where
  pure := done
  bind := bind

/-- The task of a single program. -/
def lift {α : Type} (p : Program α) : Task α := round (fun _ : Fin 1 => p) fun bs => done (bs 0)

/-- A program for each item of a list, side by side. -/
def each {ι α : Type} (items : List ι) (f : ι → Program α) : Task (List α) :=
  round (fun i : Fin items.length => f items[i]) fun bs => done (List.ofFn bs)

/-- The program that runs the programs of each round one after the other. -/
def sequential {α : Type} : Task α → Program α
  | done a => .done a
  | round pieces next => (Program.inOrder pieces).bind fun bs => (next bs).sequential

@[simp]
theorem bind_eq {α β : Type} (t : Task α) (f : α → Task β) : (t >>= f) = t.bind f := rfl

@[simp]
theorem pure_eq {α : Type} (a : α) : (pure a : Task α) = done a := rfl

@[simp]
theorem sequential_bind {α β : Type} (t : Task α) (f : α → Task β) :
    (t.bind f).sequential = t.sequential.bind fun a => (f a).sequential := by
  induction t with
  | done a => rfl
  | round pieces next ih =>
    simp only [bind, sequential, Program.bind_assoc]
    exact congrArg _ (funext ih)

@[simp]
theorem sequential_done {α : Type} (a : α) : (done a).sequential = .done a := rfl

@[simp]
theorem sequential_lift {α : Type} (p : Program α) : (lift p).sequential = p := by
  simp only [lift, sequential, Program.inOrder, Program.bind_assoc, Program.bind]
  exact Program.bind_done p

@[simp]
theorem sequential_each {ι α : Type} (items : List ι) (f : ι → Program α) :
    (each items f).sequential = Program.sequence (items.map f) := by
  have h := Program.inOrder_ofFn fun i : Fin items.length => f items[i]
  rw [show items.map f = List.ofFn fun i : Fin items.length => f items[i] by
    apply List.ext_getElem <;> simp]
  exact h

end Task

end PaymentRetry
