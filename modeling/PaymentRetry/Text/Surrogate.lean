/-!
# Halves of surrogate pairs

A written value may name half of a UTF-16 surrogate pair without the other half.  No `Char` is such a half, so a text
keeps it as the private-use character that lies `0x100000` above it.  A text that holds one has no UTF-8 form.

The characters U+10D800 to U+10DFFF therefore stand for halves, and for nothing else: texts with these characters as
themselves, which have a UTF-8 form, lie outside the model.
-/

namespace PaymentRetry.Text

/-- How far above a half its place in a text lies. -/
private def halfOffset : Nat := 0x100000

/-- The character that keeps the place of half a surrogate pair. -/
def ofHalf (unit : Nat) : Char := Char.ofNat (halfOffset + unit)

/-- The half of a surrogate pair whose place a character keeps. -/
def half? (c : Char) : Option Nat :=
  if 0xd800 + halfOffset ≤ c.toNat && c.toNat < 0xe000 + halfOffset then some (c.toNat - halfOffset) else none

/-- Whether a text has a UTF-8 form. -/
def isWellFormed (s : String) : Bool := s.toList.all fun c => (half? c).isNone

/-- A text with U+FFFD for each of the three bytes that a half would have in UTF-8. -/
def withoutHalves (s : String) : String :=
  String.ofList (s.toList.flatMap fun c => if (half? c).isSome then List.replicate 3 '\ufffd' else [c])

end PaymentRetry.Text
