import PaymentRetry.Number.Decimal
import PaymentRetry.Text.Surrogate

/-!
# The tokens of a written value

`Token.scan` cuts a text into tokens, each with the position of its first character.  It stops at the first
character that begins no token and at the first malformed string; the last token is `finish`, `unknown` or
`badText`.
-/

namespace PaymentRetry.Json

/-- A token of a written value. -/
inductive Token where
  | openList
  | closeList
  | openObject
  | closeObject
  | comma
  | colon
  | null
  | bool (value : Bool)
  | int (value : Int)
  /-- An integer with too many digits. -/
  | longInt
  | float (value : Binary64)
  | text (value : String)
  /-- A malformed string, and where it goes wrong. -/
  | badText (position : Nat)
  /-- A character that begins no token. -/
  | unknown
  /-- The end of the text. -/
  | finish

namespace Token

/-- The largest number of digits of an integer. -/
def maxIntegerDigits : Nat := 4300

/-- The value of a hexadecimal digit. -/
private def hexDigit? (c : Char) : Option Nat :=
  if c.isDigit then some (c.toNat - '0'.toNat)
  else if 'a' ≤ c && c ≤ 'f' then some (c.toNat - 'a'.toNat + 10)
  else if 'A' ≤ c && c ≤ 'F' then some (c.toNat - 'A'.toNat + 10)
  else none

/-- The number written by four hexadecimal digits, and what follows them; something has to follow. -/
private def hexUnit? : List Char → Option (Nat × List Char)
  | a :: b :: c :: d :: e :: rest => do
    let a ← hexDigit? a
    let b ← hexDigit? b
    let c ← hexDigit? c
    let d ← hexDigit? d
    return (((a * 16 + b) * 16 + c) * 16 + d, e :: rest)
  | _ => none

/-- The character of a one-letter escape. -/
private def simpleEscape? (c : Char) : Option Char :=
  if c = '"' || c = '\\' || c = '/' then some c
  else if c = 'b' then some (Char.ofNat 8)
  else if c = 'f' then some (Char.ofNat 12)
  else if c = 'n' then some '\n'
  else if c = 'r' then some '\r'
  else if c = 't' then some '\t'
  else none

/-- A scanned string: its characters in reverse and what follows it, or where it goes wrong. -/
private abbrev TextResult := Except Nat (List Char × List Char)

/-- The rest of a string whose opening quote stands at `opening`, from the position `here` on.  `fuel` is at least
the number of characters left. -/
private def scanText (opening : Nat) : Nat → Nat → List Char → List Char → TextResult
  | 0, _, _, _ => .error opening
  | fuel + 1, here, acc, cs =>
    match cs with
    | [] => .error opening
    | '"' :: rest => .ok (acc, rest)
    | '\\' :: 'u' :: rest =>
      match hexUnit? rest with
      | none => .error (here + 1)
      | some (unit, rest) =>
        if 0xd800 ≤ unit && unit < 0xdc00 then
          match rest with
          | '\\' :: 'u' :: more =>
            if more.length ≤ 4 then scanText opening fuel (here + 6) (Text.ofHalf unit :: acc) rest
            else match hexUnit? more with
              | none => .error (here + 7)
              | some (low, more) =>
                if 0xdc00 ≤ low && low < 0xe000 then
                  let joined := 0x10000 + (unit - 0xd800) * 0x400 + (low - 0xdc00)
                  scanText opening fuel (here + 12) (Char.ofNat joined :: acc) more
                else scanText opening fuel (here + 6) (Text.ofHalf unit :: acc) rest
          | rest => scanText opening fuel (here + 6) (Text.ofHalf unit :: acc) rest
        else if 0xdc00 ≤ unit && unit < 0xe000 then
          scanText opening fuel (here + 6) (Text.ofHalf unit :: acc) rest
        else scanText opening fuel (here + 6) (Char.ofNat unit :: acc) rest
    | '\\' :: c :: rest =>
      match simpleEscape? c with
      | some c => scanText opening fuel (here + 2) (c :: acc) rest
      | none => .error here
    | ['\\'] => .error opening
    | c :: rest =>
      if c.toNat < 0x20 then .error here else scanText opening fuel (here + 1) (c :: acc) rest

/-- The fraction of a number, if a point and a digit begin the characters. -/
private def splitFraction : List Char → Option (List Char) × List Char
  | '.' :: d :: rest =>
    if d.isDigit then (some (d :: rest.takeWhile Char.isDigit), rest.dropWhile Char.isDigit)
    else (none, '.' :: d :: rest)
  | cs => (none, cs)

/-- The exponent of a number, if a marker, perhaps a sign, and a digit begin the characters. -/
private def splitExponent (cs : List Char) : Option Int × List Char :=
  match cs with
  | [] => (none, cs)
  | marker :: rest =>
    if marker = 'e' || marker = 'E' then
      let (negative, rest) := match rest with
        | '-' :: rest => (true, rest)
        | '+' :: rest => (false, rest)
        | rest => (false, rest)
      match Text.natOfDigits? (rest.takeWhile Char.isDigit) with
      | some n => (some (if negative then -(n : Int) else n), rest.dropWhile Char.isDigit)
      | none => (none, cs)
    else (none, cs)

/-- A number at the head of the characters, and what follows it. -/
private def scanNumber? (cs : List Char) : Option (Token × List Char) :=
  let (negative, unsigned) := match cs with
    | '-' :: rest => (true, rest)
    | rest => (false, rest)
  let whole := match unsigned with
    | '0' :: _ => ['0']
    | cs => cs.takeWhile Char.isDigit
  if whole.isEmpty then none
  else
    let (fraction, rest) := splitFraction (unsigned.drop whole.length)
    let (exponent, rest) := splitExponent rest
    let token :=
      if fraction.isNone && exponent.isNone then
        if maxIntegerDigits < whole.length then longInt
        else
          let n : Nat := Text.digitsValue whole
          int (if negative then -(n : Int) else n)
      else
        let places := fraction.getD []
        let digits := Text.digitsValue (whole ++ places)
        float (Decimal.finite negative digits (exponent.getD 0 - places.length)).toBinary64
    some (token, rest)

/-- Words that stand for a value. -/
private def keywords : List (List Char × Token) :=
  [("null".toList, null), ("true".toList, bool true), ("false".toList, bool false),
   ("NaN".toList, float .nan), ("Infinity".toList, float (.infinite false)),
   ("-Infinity".toList, float (.infinite true))]

/-- A word or number at the head of the characters, and what follows it. -/
private def scanWord? (cs : List Char) : Option (Token × List Char) :=
  match keywords.find? fun (word, _) => word.isPrefixOf cs with
  | some (word, token) => some (token, cs.drop word.length)
  | none => scanNumber? cs

/-- The token of a mark. -/
private def mark? : Char → Option Token
  | '[' => some openList
  | ']' => some closeList
  | '\x7b' => some openObject
  | '\x7d' => some closeObject
  | ',' => some comma
  | ':' => some colon
  | _ => none

/-- The white space between tokens. -/
private def isGap (c : Char) : Bool := c = ' ' || c = '\t' || c = '\n' || c = '\r'

/-- The tokens from position `here` on.  `fuel` is more than the number of characters left. -/
private def scanFrom : Nat → Nat → List Char → List (Nat × Token)
  | 0, here, _ => [(here, unknown)]
  | fuel + 1, here, cs =>
    match cs with
    | [] => [(here, finish)]
    | c :: rest =>
      if isGap c then scanFrom fuel (here + 1) rest
      else if c = '"' then
        match scanText here cs.length (here + 1) [] rest with
        | .error position => [(here, badText position)]
        | .ok (acc, after) =>
          (here, text (String.ofList acc.reverse)) :: scanFrom fuel (here + (cs.length - after.length)) after
      else match mark? c with
        | some token => (here, token) :: scanFrom fuel (here + 1) rest
        | none =>
          match scanWord? cs with
          | some (token, after) => (here, token) :: scanFrom fuel (here + (cs.length - after.length)) after
          | none => [(here, unknown)]

/-- The tokens of a text, each with its position. -/
def scan (s : String) : List (Nat × Token) := scanFrom (s.length + 1) 0 s.toList

end Token

end PaymentRetry.Json
