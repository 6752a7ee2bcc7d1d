import PaymentRetry.Text.Digit

/-!
# Directives in messages

A directive in a message is a percent sign and a letter.  Between the two may stand, in this order, the name of an
argument in parentheses, flags, a width, a point with a precision, and one letter of length, which counts for
nothing.  Width and precision may be left to arguments, by a star.  Two percent signs in a row stand for one.
`Piece.ofMessage?` cuts a message into its directives and the characters between them.
-/

namespace PaymentRetry.Log

/-- A width or a precision. -/
inductive Extent where
  | unset
  | given (n : Nat)
  /-- It is the next argument. -/
  | argument
  deriving DecidableEq, Repr

/-- The largest width and precision. -/
def maxExtent : Nat := Nat.pow 2 31 - 1

/-- A directive. -/
structure Directive where
  /-- The name of the argument, if it has one. -/
  name : Option String
  /-- The flags: any of `-`, `+`, space, `#` and `0`. -/
  flags : List Char
  /-- The least number of characters. -/
  width : Extent
  /-- The number of digits or of places, or the largest number of characters. -/
  precision : Extent
  /-- The letter that says how the argument is written. -/
  letter : Char
  deriving DecidableEq, Repr

/-- A piece of a message. -/
inductive Piece where
  | literal (c : Char)
  | directive (d : Directive)
  deriving DecidableEq, Repr

namespace Directive

/-- Whether the directive has a flag. -/
def has (d : Directive) (flag : Char) : Bool := d.flags.contains flag

/-- The characters before the parenthesis that closes `depth` open ones, and what follows it. -/
private def closing? : Nat → List Char → Option (List Char × List Char)
  | _, [] => none
  | depth, c :: rest =>
    if c = ')' then
      match depth with
      | 0 => some ([], rest)
      | depth + 1 => (closing? depth rest).map fun (inside, rest) => (c :: inside, rest)
    else (closing? (if c = '(' then depth + 1 else depth) rest).map fun (inside, rest) => (c :: inside, rest)

/-- The name at the head of a directive, and what follows; parentheses in a name come in pairs. -/
private def name? : List Char → Option (Option String × List Char)
  | '(' :: rest => (closing? 0 rest).map fun (inside, rest) => (some (String.ofList inside), rest)
  | cs => some (none, cs)

/-- Whether a character is a flag. -/
private def isFlag (c : Char) : Bool := c = '-' || c = '+' || c = ' ' || c = '#' || c = '0'

/-- A width or a precision at the head of the characters, and what follows. -/
private def extent? (cs : List Char) : Option (Extent × List Char) :=
  match cs with
  | '*' :: rest => some (.argument, rest)
  | cs =>
    let digits := cs.takeWhile Char.isDigit
    let n := Text.digitsValue digits
    if digits.isEmpty then some (.unset, cs)
    else if maxExtent < n then none
    else some (.given n, cs.dropWhile Char.isDigit)

/-- A precision at the head of the characters, and what follows.  A point alone stands for none at all. -/
private def precision? : List Char → Option (Extent × List Char)
  | '.' :: rest => (extent? rest).map fun (e, rest) => (if e = .unset then .given 0 else e, rest)
  | cs => some (.unset, cs)

/-- What follows a letter of length, if there is one. -/
private def skipLength : List Char → List Char
  | 'h' :: rest => rest
  | 'l' :: rest => rest
  | 'L' :: rest => rest
  | cs => cs

/-- The directive after a percent sign, and what follows it. -/
def read? (cs : List Char) : Option (Directive × List Char) := do
  let (name, cs) ← name? cs
  let (width, rest) ← extent? (cs.dropWhile isFlag)
  let (precision, rest) ← precision? rest
  let letter :: rest := skipLength rest | none
  return (⟨name, cs.takeWhile isFlag, width, precision, letter⟩, rest)

end Directive

/-- The pieces of a message.  `fuel` bounds their number. -/
private def pieces? : Nat → List Char → Option (List Piece)
  | 0, _ => none
  | _, [] => some []
  | fuel + 1, '%' :: '%' :: rest => (pieces? fuel rest).map (.literal '%' :: ·)
  | fuel + 1, '%' :: rest => do
    let (d, rest) ← Directive.read? rest
    return .directive d :: (← pieces? fuel rest)
  | fuel + 1, c :: rest => (pieces? fuel rest).map (.literal c :: ·)

/-- The pieces of a message, if its directives are complete. -/
def Piece.ofMessage? (message : String) : Option (List Piece) := pieces? (message.length + 1) message.toList

end PaymentRetry.Log
