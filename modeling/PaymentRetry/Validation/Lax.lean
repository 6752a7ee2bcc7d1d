import PaymentRetry.Json.Basic
import PaymentRetry.Number.Decimal
import PaymentRetry.Text.Surrogate
import PaymentRetry.Validation.Issue

/-!
# Forgiving conversions

An input value need not have exactly the kind that a field asks for: a text that reads as a number is accepted for a
number, a whole double for an integer, a yes-or-no word for a truth value.  A number is never accepted for a text.
A text that has no UTF-8 form is only accepted where a text of any length is asked for.
-/

namespace PaymentRetry.Validation

/-- A text. -/
def text : Json → Checked String
  | .text s => .ok s
  | _ => refuse .stringType

/-- What a text is read as, if it has a UTF-8 form. -/
def encodable {α : Type} (s : String) (c : Checked α) : Checked α :=
  if Text.isWellFormed s then c else refuse .stringUnicode

/-- A text with a bounded number of characters. -/
def boundedText (least most : Nat) (j : Json) : Checked String :=
  match text j with
  | .ok s =>
    encodable s <|
      if s.length < least then refuse (.stringTooShort least)
      else if most < s.length then refuse (.stringTooLong most)
      else .ok s
  | e => e

/-- A text, or null. -/
def optionalText : Json → Checked (Option String)
  | .null => .ok none
  | j => (text j).map some

/-! ### Numbers in texts -/

/-- Whether each underscore has other characters on both sides. -/
private def separated : List Char → Bool
  | [] => true
  | ['_'] => false
  | '_' :: '_' :: _ => false
  | _ :: rest => separated rest

/-- The characters without underscores, if each of these has other characters on both sides. -/
private def withoutUnderscores? (cs : List Char) : Option (List Char) :=
  if cs.head? != some '_' && separated cs then some (cs.filter (· != '_')) else none

/-- What follows the zeros at the head of a number, given the last of them.  Underscores may stand between them, and a
sign after them; one zero is kept before a point and at the end. -/
private def afterZeros? (last : Char) : List Char → Option (List Char)
  | [] => some [last]
  | c :: rest =>
    if c = '0' || c = '_' then afterZeros? c rest
    else if c.isDigit || c = '-' then some (c :: rest)
    else if c = '.' then some (last :: c :: rest)
    else none

/-- The characters of an integer without a point and zeros after them. -/
private def withoutPlaces (cs : List Char) : List Char :=
  let places := (cs.dropWhile (· != '.')).drop 1
  if !places.isEmpty && places.all (· = '0') then cs.takeWhile (· != '.') else cs

/-- The characters of an integer in its plain form: a sign only if it is a minus, and neither zeros before it, nor
underscores in it, nor a point with zeros after it. -/
private def plainInteger? (cs : List Char) : Option (List Char) := do
  let (negative, cs) := match cs with
    | '-' :: rest => (true, rest)
    | '+' :: rest => (false, rest)
    | cs => (false, cs)
  let cs ← match cs with
    | [] => none
    | c :: rest => if c = '0' then afterZeros? c rest else if c.isDigit then some (c :: rest) else none
  let cs := withoutPlaces cs
  let cs := (withoutUnderscores? cs).getD cs
  return if negative then '-' :: cs else cs

/-- The largest number of characters of an integer in its plain form. -/
def maxIntegerLength : Nat := 4300

/-- The integer that a text writes, or what is wrong with it. -/
def integerOfText (s : String) : Checked Int :=
  match plainInteger? (Text.trimBy Text.isWhiteSpace s.toList) with
  | none => refuse .integerParsing
  | some cs =>
    let (negative, digits) := match cs with
      | '-' :: rest => (true, rest)
      | cs => (false, cs)
    let sign := if negative then 1 else 0
    if digits.head? = some '0' && digits.length ≠ 1 then refuse .integerParsing
    else if maxIntegerLength < sign + (digits.takeWhile Char.isDigit).length then refuse .integerParsingSize
    else match Text.natOfDigits? digits with
      | some n => .ok (if negative then -(n : Int) else n)
      | none => refuse .integerParsing

/-- An integer. -/
def integer : Json → Checked Int
  | .int n => .ok n
  | .bool b => .ok (if b then 1 else 0)
  | .float x =>
    if !x.isFinite then refuse .finiteNumber
    else if !x.isWhole then refuse .integerFromFloat
    else match x.truncate? with
      | some n => if n < -Nat.pow 2 63 || Nat.pow 2 63 ≤ n then refuse .integerParsingSize else .ok n
      | none => refuse .finiteNumber
  | .text s => encodable s (integerOfText s)
  | _ => refuse .integerType

/-- Words for infinities and for what is not a number. -/
private def specialFloat? (cs : List Char) : Option Binary64 :=
  let (negative, cs) := match cs with
    | '-' :: rest => (true, rest)
    | '+' :: rest => (false, rest)
    | cs => (false, cs)
  let word := String.ofList (cs.map Char.toLower)
  if word = "inf" || word = "infinity" then some (.infinite negative)
  else if word = "nan" then some .nan
  else none

/-- The double nearest to the number that characters write. -/
private def floatOfChars? (cs : List Char) : Option Binary64 :=
  specialFloat? cs <|> (Decimal.ofNumeral? cs).map Decimal.toBinary64

/-- The double nearest to the number that a text writes.  White space around it is dropped, or else underscores in
it, but not both. -/
def floatOfText? (s : String) : Option Binary64 :=
  floatOfChars? (Text.trimBy Text.isWhiteSpace s.toList)
    <|> (if s.toList.contains '_' then withoutUnderscores? s.toList >>= floatOfChars? else none)

/-- A double. -/
def float : Json → Checked Binary64
  | .float x => .ok x
  | .int n => if (Binary64.ofInt n).isFinite then .ok (.ofInt n) else refuse .floatType
  | .bool b => .ok (.ofInt (if b then 1 else 0))
  | .text s =>
    encodable s <| match floatOfText? s with
      | some x => .ok x
      | none => refuse .floatParsing
  | _ => refuse .floatType

/-! ### Truth values -/

/-- Words for yes. -/
private def yesWords : List String := ["1", "on", "t", "true", "y", "yes"]

/-- Words for no. -/
private def noWords : List String := ["0", "off", "f", "false", "n", "no"]

/-- The truth value that an integer of 64 bits stands for. -/
private def boolOfInt (n : Int) : Checked Bool :=
  if n = 0 then .ok false
  else if n = 1 then .ok true
  else if -Nat.pow 2 63 ≤ n && n < Nat.pow 2 63 then refuse .boolParsing
  else refuse .boolType

/-- A truth value. -/
def bool : Json → Checked Bool
  | .bool b => .ok b
  | .int n => boolOfInt n
  | .float x => if x.isWhole then boolOfInt (x.truncate?.getD 2) else refuse .boolType
  | .text s =>
    let word := String.ofList (s.toList.map Char.toLower)
    if yesWords.contains word then .ok true
    else if noWords.contains word then .ok false
    else encodable s (refuse .boolParsing)
  | _ => refuse .boolType

/-- A list of values that each pass a check. -/
def listOf {α : Type} (check : Json → Checked α) : Json → Checked (List α)
  | .list items => each check 0 items
  | _ => refuse .listType

/-- The members of an object of texts. -/
def textMembers : List (String × Json) → Checked (List (String × String))
  | [] => .ok []
  | (key, value) :: rest =>
    both (fun s ms => (key, s) :: ms) (under (.field (Text.withoutHalves key)) (text value)) (textMembers rest)

/-- An object of texts. -/
def texts : Json → Checked (List (String × String))
  | .object members => textMembers members
  | _ => refuse .objectType

/-- A decimal of any kind, written as a number or as a text.  A double counts as its shortest text. -/
def anyDecimal : Json → Checked Decimal
  | .int n => .ok (.ofInt n)
  | .float x => .ok (.ofBinary64Shortest x)
  | .text s =>
    match Decimal.parse s with
    | .ok d => .ok d
    | .error _ => refuse .decimalParsing
  | _ => refuse .decimalType

/-- A finite decimal. -/
def finiteDecimal (j : Json) : Checked Decimal :=
  match anyDecimal j with
  | .ok d => if d.isFinite then .ok d else refuse .finiteNumber
  | e => e

/-- The digits and the decimal places of a coefficient with an exponent: trailing zeros of a whole number count as
digits, and so do the zeros after the point. -/
def digitCounts (coefficient : Nat) (exponent : Int) : Nat × Nat :=
  let digits := (toString coefficient).length
  if 0 ≤ exponent then (digits + exponent.toNat, 0)
  else (max digits exponent.natAbs, exponent.natAbs)

/-- Drop the zeros at the end of a coefficient.  `fuel` bounds their number. -/
def dropZeros : Nat → Nat → Int → Nat × Int
  | 0, n, e => (n, e)
  | fuel + 1, n, e => if n % 10 = 0 then dropZeros fuel (n / 10) (e + 1) else (n, e)

/-- The same value written without zeros at the end of its coefficient. -/
def normalized (coefficient : Nat) (exponent : Int) : Nat × Int :=
  if coefficient = 0 then (0, 0) else dropZeros (toString coefficient).length coefficient exponent

/-- A positive decimal with at most `digits` digits, `places` of them after the point.  A number that fits without
the zeros at its end fits. -/
def positiveDecimal (digits places : Nat) (j : Json) : Checked Decimal :=
  match finiteDecimal j with
  | .ok (.finite negative coefficient exponent) =>
    let (d, p) := digitCounts coefficient exponent
    let (d', p') := digitCounts (normalized coefficient exponent).1 (normalized coefficient exponent).2
    if digits < d && digits < d' then refuse (.decimalDigits digits)
    else if places < p && places < p' then refuse (.decimalPlaces places)
    else if digits - places < d - p && digits - places < d' - p' then
      refuse (.decimalWholeDigits (digits - places))
    else if negative || coefficient = 0 then refuse (.notGreater 0)
    else .ok (.finite negative coefficient exponent)
  | e => e

/-- A check and a further condition on the value that passes it. -/
def ensure {α : Type} (reason : String) (holds : α → Bool) (c : Checked α) : Checked α :=
  match c with
  | .ok a => if holds a then .ok a else refuse (.value reason)
  | e => e

/-- The value of a required member of an object. -/
def required {α : Type} (j : Json) (name : String) (check : Json → Checked α) : Checked α :=
  under (.field name) <| match j.get? name with
    | some value => check value
    | none => refuse .missing

/-- The value of a member of an object that has a default. -/
def optional {α : Type} (j : Json) (name : String) (default : α) (check : Json → Checked α) : Checked α :=
  match j.get? name with
  | some value => under (.field name) (check value)
  | none => .ok default

/-- A result, unless an object has members outside a list of names. -/
def closed {α : Type} (j : Json) (names : List String) (c : Checked α) : Checked α :=
  match (j.members.map (·.1)).filter (!names.contains ·) with
  | [] => c
  | extras =>
    let issues := extras.map fun name => ⟨[.field (Text.withoutHalves name)], .extraForbidden⟩
    both (fun a (_ : Unit) => a) c (.error issues)

end PaymentRetry.Validation
