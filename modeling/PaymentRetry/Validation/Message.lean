import PaymentRetry.Time.Timestamp
import PaymentRetry.Validation.Lax

/-!
# Identities and timestamps in messages

A universal identity is 32 hexadecimal digits, plain or in groups of 8, 4, 4, 4 and 12 with hyphens between them;
the grouped form may stand in braces or after `urn:uuid:`.  It is written in lower case with hyphens.
-/

namespace PaymentRetry.Validation

/-- Whether a character is a hexadecimal digit. -/
private def isHexDigit (c : Char) : Bool := c.isDigit || ('a' ≤ c && c ≤ 'f') || ('A' ≤ c && c ≤ 'F')

/-- The lengths of the groups of an identity. -/
private def groupLengths : List Nat := [8, 4, 4, 4, 12]

/-- Put 32 digits into groups. -/
private def grouped (cs : List Char) : String :=
  let groups := groupLengths.foldl (fun (done, rest) n => (done ++ [String.ofList (rest.take n)], rest.drop n))
    (([] : List String), cs)
  "-".intercalate groups.1

/-- The character that has the last byte of a character's number. -/
private def lastByte (c : Char) : Char := Char.ofNat (c.toNat % 0x100)

/-- Characters with the positions of their last bytes in UTF-8, given how many bytes are before them. -/
private def withPositions (before : Nat) : List Char → List (Nat × Char)
  | [] => []
  | c :: rest => (before + c.utf8Size - 1, c) :: withPositions (before + c.utf8Size) rest

/-- Where the groups of the written form begin. -/
private def groupStarts : List Nat := [0, 9, 14, 19, 24]

/-- The first group of a wrong length, given the positions of the four hyphens and the end: its index and the length
found. -/
private def wrongGroup (hyphens : List Nat) (stop : Nat) : Nat × Nat :=
  ((List.range 4).findSome? fun i =>
    let start := groupStarts.getD i 0
    let hyphen := hyphens.getD i 0
    if hyphen = start + groupLengths.getD i 0 then none else some (i, hyphen - start)).getD
    (4, stop - groupStarts.getD 4 0)

/-- Why a text writes no identity.  `inner` is what stands between the braces or after the marker, if there are any.
Of each character only the last byte of its number is judged. -/
private def identityProblem (s : String) (bare : Bool) (inner : List Char) : String :=
  let places := withPositions 0 inner
  match places.find? fun p => !(isHexDigit (lastByte p.2) || lastByte p.2 = '-') with
  | some (position, c) => "invalid character: found `" ++ c.toString ++ "` at " ++ toString position
  | none =>
    let hyphens := (places.filter (lastByte ·.2 = '-')).map (·.1)
    if bare && hyphens.isEmpty then
      "invalid length: found " ++ toString s.utf8ByteSize
    else if hyphens.length ≠ 4 then "invalid group count: expected 5, found " ++ toString (hyphens.length + 1)
    else
      let (group, found) := wrongGroup hyphens s.utf8ByteSize
      "invalid group length in group " ++ toString group ++ ": expected " ++ toString (groupLengths.getD group 0)
        ++ ", found " ++ toString found

/-- The identity that a text writes, or why it writes none. -/
def identityOfText (s : String) : Except String String :=
  let cs := s.toList
  let (inner, bare) :=
    if cs.head? = some '\x7b' && cs.getLast? = some '\x7d' && 2 ≤ cs.length then ((cs.drop 1).dropLast, false)
    else if "urn:uuid:".toList.isPrefixOf cs then (cs.drop 9, false)
    else (cs, true)
  let digits := inner.filter (· != '-')
  let written := grouped (digits.map Char.toLower)
  if digits.all isHexDigit && digits.length = 32
      && (String.ofList (inner.map Char.toLower) = written || (bare && inner.length = 32)) then .ok written
  else .error (identityProblem s bare inner)

/-- A universal identity. -/
def identity : Json → Checked String
  | .text s =>
    encodable s <| match identityOfText s with
      | .ok id => .ok id
      | .error reason => refuse (.uuidParsing reason)
  | _ => refuse .uuidType

/-- A timestamp, or why there is none. -/
private def checkedTimestamp (t : Except Timestamp.ParseError Timestamp) : Checked Timestamp :=
  match t with
  | .ok t => .ok t
  | .error (.notDate reason) => refuse (.datetimeFromDate reason)
  | .error e => refuse (.datetimeParsing e.reason)

/-- A timestamp.  An integer of more than 64 bits counts as the nearest double. -/
def timestamp : Json → Checked Timestamp
  | .text s => encodable s (checkedTimestamp (Timestamp.parse s))
  | .int n =>
    if -Nat.pow 2 63 ≤ n && n < Nat.pow 2 63 then checkedTimestamp (Timestamp.ofNumber n 0)
    else if (Binary64.ofInt n).isFinite then checkedTimestamp (Timestamp.ofDouble (.ofInt n))
    else refuse .datetimeType
  | .float x => checkedTimestamp (Timestamp.ofDouble x)
  | _ => refuse .datetimeType

end PaymentRetry.Validation
