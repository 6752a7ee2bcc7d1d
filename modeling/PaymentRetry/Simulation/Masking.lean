import PaymentRetry.Api.Handler

/-!
# Masked identities

Identities are drawn at random, so a simulation must not show them.  Those it has given out bear labels; any other
text that has the form of an identity, a key of a payment for instance, is shown as one of which nothing is known.
-/

namespace PaymentRetry.Simulation

/-- The form of an identity: whether a digit stands at a place, or else a hyphen. -/
def identityForm : List Bool :=
  [false].intercalate ([8, 4, 4, 4, 12].map fun n => List.replicate n true)

/-- Whether a character is a digit of an identity. -/
private def isIdentityDigit (c : Char) : Bool := c.isDigit || ('a' ≤ c && c ≤ 'f')

/-- Whether characters begin with a form. -/
def beginsWithForm : List Bool → List Char → Bool
  | [], _ => true
  | digit :: form, c :: rest => (if digit then isIdentityDigit c else c = '-') && beginsWithForm form rest
  | _, [] => false

/-- The characters with a mark for each identity, after a number of characters that are left out. -/
private def maskFrom : Nat → List Char → List Char
  | _, [] => []
  | n + 1, _ :: rest => maskFrom n rest
  | 0, c :: rest =>
    if beginsWithForm identityForm (c :: rest) then
      Api.freshIdentity.toList ++ maskFrom (identityForm.length - 1) rest
    else c :: maskFrom 0 rest

/-- A text with a mark for each identity. -/
def mask (s : String) : String := String.ofList (maskFrom 0 s.toList)

mutual

/-- A value with a mark for each identity in its texts. -/
def maskJson : Json → Json
  | .text s => .text (mask s)
  | .list items => .list (maskItems items)
  | .object members => .object (maskMembers members)
  | j => j

/-- Items with a mark for each identity. -/
def maskItems : List Json → List Json
  | [] => []
  | j :: rest => maskJson j :: maskItems rest

/-- Members with a mark for each identity in their values. -/
def maskMembers : List (String × Json) → List (String × Json)
  | [] => []
  | (key, j) :: rest => (key, maskJson j) :: maskMembers rest

end

end PaymentRetry.Simulation
