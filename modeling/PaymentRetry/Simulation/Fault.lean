import PaymentRetry.Program

/-!
# Faults of the store

A fault waits for a call of the store and then gets in its way: it raises an error before the call takes effect, or
lets another worker act first.  Faults wait in a queue; the first one that fits a call and has nothing left to skip
acts.
-/

namespace PaymentRetry.Simulation

/-- The calls of the store that faults can wait for. -/
inductive StoreCall where
  | create
  | get
  | transition
  | listDue
  | listStale
  deriving DecidableEq, Repr

/-- What a fault does. -/
inductive FaultAction where
  /-- Raise a failure before the call takes effect. -/
  | raise (failure : Failure)
  /-- Let another worker store a copy of the attempt first. -/
  | duplicate
  /-- Let another worker move the attempt to a state first. -/
  | steal (state : AttemptState)

/-- A fault that waits for a call. -/
structure Fault where
  /-- The call it waits for. -/
  call : StoreCall
  /-- The payment it is about, if only one. -/
  key : Option String
  /-- How many fitting calls it lets pass. -/
  skip : Nat
  /-- What it does. -/
  action : FaultAction
  /-- How often it acts. -/
  times : Nat

namespace Fault

/-- Whether a fault waits for a call about a payment. -/
def fits (f : Fault) (call : StoreCall) (key : Option String) : Bool :=
  f.call = call && (f.key.isNone || f.key = key)

/-- What happens to a call, and the faults that wait afterwards.  Fitting faults that still skip a call count it and
let it pass on to the next ones. -/
def take (call : StoreCall) (key : Option String) : List Fault → Option FaultAction × List Fault
  | [] => (none, [])
  | f :: rest =>
    if f.fits call key then
      if 0 < f.skip then
        let (action, rest) := take call key rest
        (action, { f with skip := f.skip - 1 } :: rest)
      else (some f.action, if f.times ≤ 1 then rest else { f with times := f.times - 1 } :: rest)
    else
      let (action, rest) := take call key rest
      (action, f :: rest)

end Fault

end PaymentRetry.Simulation
