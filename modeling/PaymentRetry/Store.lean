import PaymentRetry.Program

/-!
# The store of attempts

The store holds every attempt ever made, in order of creation.  An attempt is added under a fresh identity and a
fresh pair of key and number; afterwards it only changes by a transition, which moves it from a state it is in to
another.  Nothing is ever removed.

The basic facts: adding an attempt appends one row (`rows_insert`), and a transition keeps the identities and their
order (`map_id_move`).
-/

namespace PaymentRetry

/-- The attempts, in order of creation, and how many identities the store has made. -/
structure Store where
  rows : List Attempt := []
  /-- The number of attempt identities that have been made. -/
  attemptsMinted : Nat := 0
  /-- The number of payment identities that have been made. -/
  paymentsMinted : Nat := 0

/-- The row `a` with the change `c` written into it. -/
def Change.apply (c : Change) (a : Attempt) : Attempt :=
  { a with
    failureType := c.failureType.getD a.failureType
    message := c.message.getD a.message
    dueAt := c.dueAt.getD a.dueAt }

/-- The integer fits a column of 64 bits. -/
def Store.fits (n : Int) : Bool := -Nat.pow 2 63 ≤ n && n < Nat.pow 2 63

/-- The failure to bind the values of `d`, if one of them cannot be bound.  The amount is converted before the others
are bound one by one. -/
def Draft.unstorable? (d : Draft) : Option Failure :=
  if d.amount = .nan true then some .unstorable
  else Failure.ofTexts? (d.key.toList ++ d.transaction.toList)
    <|> (if d.number.any (!Store.fits ·) then some .integerTooWide else none)
    <|> Failure.ofTexts? d.currency.toList

namespace Store

/-- The attempt with the identity `id`. -/
def find? (s : Store) (id : AttemptId) : Option Attempt := s.rows.find? (·.id = id)

/-- The payment `key` has an attempt `number`. -/
def hasNumber (s : Store) (key : String) (number : Int) : Bool :=
  s.rows.any fun a => a.key = key && a.number = number

/-- The attempt that `d` becomes at `now`, unless a required value is missing or the amount is not a number. -/
def complete? (s : Store) (d : Draft) (now : DateTime) : Option Attempt := do
  let key ← d.key
  let transaction ← d.transaction
  let number ← d.number
  let currency ← d.currency
  if d.amount = .nan false then none
  return {
    id := d.id.getD (.minted (s.attemptsMinted + 1))
    payment := d.payment.getD (.minted (s.paymentsMinted + 1))
    key := key
    transaction := transaction
    number := number
    state := d.state
    amount := d.amount
    currency := currency
    properties := d.properties
    failureType := none
    message := none
    dueAt := d.dueAt
    created := now
    updated := now }

/-- The store with the attempt `a`, made from `d`, in its stored form. -/
def append (s : Store) (d : Draft) (a : Attempt) : Store where
  rows := s.rows ++ [a.asStored]
  attemptsMinted := s.attemptsMinted + (if d.id.isNone then 1 else 0)
  paymentsMinted := s.paymentsMinted + (if d.payment.isNone then 1 else 0)

/-- Insert the attempt of `d`.  The result holds the amount as it was given, the row the amount as it will be read
back. -/
def insert (s : Store) (d : Draft) (now : DateTime) : Except Failure (Attempt × Store) :=
  match d.unstorable? with
  | some failure => .error failure
  | none =>
    match s.complete? d now with
    | none => .error (.duplicateKey d.key d.number)
    | some a =>
      if s.hasNumber a.key a.number || (s.find? a.id).isSome then .error (.duplicateKey d.key d.number)
      else .ok (a, s.append d a)

/-- Move the attempt `id` from `source` to `target`, if it is in `source`. -/
def move? (s : Store) (id : AttemptId) (source target : AttemptState) (change : Change) (now : DateTime) :
    Option Store :=
  if s.rows.any fun a => a.id = id && a.state = source then
    some { s with rows := s.rows.map fun a =>
      if a.id = id ∧ a.state = source then change.apply { a with state := target, updated := now } else a }
  else none

/-- The first items, up to `limit`; a negative limit is none. -/
def limited {α : Type} (limit : Option Int) (xs : List α) : List α :=
  match limit with
  | some n => if n < 0 then xs else xs.take n.toNat
  | none => xs

/-- The items in ascending order by `first` and then `second`; of equal items the earlier one comes first. -/
def ordered {α : Type} (first second : α → Int) (xs : List α) : List α :=
  xs.mergeSort fun a b => first a < first b || (first a = first b && second a ≤ second b)

/-- The attempts of a payment, the oldest first. -/
def history (s : Store) (key : String) : List Attempt :=
  ordered (·.created.micros) (·.number) (s.rows.filter (·.key = key))

/-- An attempt with the same payment id has a higher number. -/
def hasLater (s : Store) (a : Attempt) : Bool :=
  s.rows.any fun b => b.payment = a.payment && a.number < b.number

/-- The retry that `a` asks for at `asOf`: it is retried, due, and no attempt of its payment has a higher number. -/
def dueRetry? (s : Store) (asOf : DateTime) (a : Attempt) : Option DueRetry :=
  match a.dueAt with
  | some due =>
    if a.state = .retried && due ≤ asOf && !s.hasLater a then some ⟨a.payment, due, a⟩ else none
  | none => none

/-- The retries due at `asOf`, the longest due first. -/
def dueRetries (s : Store) (asOf : DateTime) (limit : Option Int) : List DueRetry :=
  limited limit (ordered (·.due.micros) (·.attempt.created.micros) (s.rows.filterMap (s.dueRetry? asOf)))

/-- The pending attempts that were last updated at `olderThan` or before, the oldest update first. -/
def stalePending (s : Store) (olderThan : DateTime) (limit : Option Int) : List Attempt :=
  limited limit (ordered (·.updated.micros) (·.number)
    (s.rows.filter fun a => a.state = .pending && a.updated ≤ olderThan))

/-- The limit, if there is one, fits the store. -/
def limitFits (limit : Option Int) : Bool := limit.all fits

/-! ### Basic facts -/

theorem rows_insert {s s' : Store} {d : Draft} {now : DateTime} {a : Attempt}
    (h : s.insert d now = .ok (a, s')) : s'.rows = s.rows ++ [a.asStored] := by
  unfold insert at h
  split at h
  · simp at h
  · split at h
    · simp at h
    · split at h
      · simp at h
      · simp only [Except.ok.injEq, Prod.mk.injEq] at h
        rw [← h.2, ← h.1]
        rfl

theorem map_id_move {s s' : Store} {id : AttemptId} {source target : AttemptState} {change : Change}
    {now : DateTime} (h : s.move? id source target change now = some s') :
    s'.rows.map (·.id) = s.rows.map (·.id) := by
  unfold move? at h
  split at h
  · simp only [Option.some.injEq] at h
    rw [← h]
    simp only [List.map_map]
    apply List.map_congr_left
    intro a _
    simp only [Function.comp]
    split <;> rfl
  · simp at h

end Store

end PaymentRetry
