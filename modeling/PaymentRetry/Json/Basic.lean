import PaymentRetry.Number.Binary64

/-!
# Structured values

`Json` is the data exchanged with clients, brokers and log readers.  Integers and doubles are told apart, and the
members of an object keep the order in which they were written.
-/

namespace PaymentRetry

/-- A structured value. -/
inductive Json where
  | null
  | bool (value : Bool)
  | int (value : Int)
  | float (value : Binary64)
  | text (value : String)
  | list (items : List Json)
  | object (members : List (String × Json))
  deriving Inhabited

namespace Json

/-- The members of an object; other values have none. -/
def members : Json → List (String × Json)
  | object ms => ms
  | _ => []

/-- The value of a member of an object, if it has one. -/
def get? (j : Json) (key : String) : Option Json := (j.members.find? (·.1 == key)).map (·.2)

/-- The value of a member, unless it is missing or null. -/
def value? (j : Json) (key : String) : Option Json :=
  match j.get? key with
  | some .null => none
  | v => v

/-- Replace the value of a member where it stands, or add the member at the end. -/
def setMember (members : List (String × Json)) (key : String) (value : Json) : List (String × Json) :=
  if members.any (·.1 == key) then members.map fun m => if m.1 == key then (key, value) else m
  else members ++ [(key, value)]

/-- The value of a text. -/
def text? : Json → Option String
  | text s => some s
  | _ => none

/-- The value of an integer. -/
def int? : Json → Option Int
  | int n => some n
  | _ => none

/-- The value of a truth value. -/
def bool? : Json → Option Bool
  | bool b => some b
  | _ => none

/-- The items of a list. -/
def list? : Json → Option (List Json)
  | list xs => some xs
  | _ => none

mutual

/-- The texts and the keys in a value, in the order in which they are written. -/
def texts : Json → List String
  | text s => [s]
  | list items => textsOfItems items
  | object members => textsOfMembers members
  | _ => []

/-- The texts and the keys in items. -/
def textsOfItems : List Json → List String
  | [] => []
  | j :: rest => texts j ++ textsOfItems rest

/-- The texts and the keys in members. -/
def textsOfMembers : List (String × Json) → List String
  | [] => []
  | (key, j) :: rest => key :: texts j ++ textsOfMembers rest

end

/-- A text, or null. -/
def ofText? (s : Option String) : Json := s.elim null text

end Json

end PaymentRetry
