import PaymentRetry.Json.Parser
import PaymentRetry.Text.Percent

/-!
# Written values as bytes

The bytes of a written value may be UTF-8, UTF-16 or UTF-32.  A value begins with ASCII characters, so the zeros among
its first bytes tell the three apart.  `Json.parseBytes` reads a value from its bytes.  In UTF-16 and UTF-32 half of
a surrogate pair may stand alone.
-/

namespace PaymentRetry.Json

/-- An encoding of text as bytes. -/
inductive Encoding where
  | utf8
  | utf16 (bigEndian : Bool)
  | utf32 (bigEndian : Bool)
  deriving DecidableEq, Repr

namespace Encoding

/-- The encoding of a written value. -/
def detect : List Nat → Encoding
  | a :: b :: c :: d :: _ =>
    if a = 0 then if b = 0 then utf32 true else utf16 true
    else if b = 0 then if c = 0 && d = 0 then utf32 false else utf16 false
    else utf8
  | [a, b] => if a = 0 then utf16 true else if b = 0 then utf16 false else utf8
  | _ => utf8

/-- The number that bytes write. -/
private def number (bigEndian : Bool) (bytes : List Nat) : Nat :=
  (if bigEndian then bytes else bytes.reverse).foldl (fun n b => n * 0x100 + b) 0

/-- The units of two bytes each; there must be no byte left over. -/
private def units16? (bigEndian : Bool) : List Nat → Option (List Nat)
  | [] => some []
  | a :: b :: rest => (units16? bigEndian rest).map (number bigEndian [a, b] :: ·)
  | _ => none

/-- The units of four bytes each; there must be no byte left over. -/
private def units32? (bigEndian : Bool) : List Nat → Option (List Nat)
  | [] => some []
  | a :: b :: c :: d :: rest => (units32? bigEndian rest).map (number bigEndian [a, b, c, d] :: ·)
  | _ => none

/-- The character with a number, or the place of half a surrogate pair. -/
private def character (n : Nat) : Char := if 0xd800 ≤ n && n < 0xe000 then Text.ofHalf n else Char.ofNat n

/-- The characters of UTF-16 units. -/
private def join16 : List Nat → List Char
  | a :: b :: rest =>
    if 0xd800 ≤ a && a < 0xdc00 && 0xdc00 ≤ b && b < 0xe000 then
      Char.ofNat (0x10000 + (a - 0xd800) * 0x400 + (b - 0xdc00)) :: join16 rest
    else character a :: join16 (b :: rest)
  | [a] => [character a]
  | [] => []

/-- The characters of UTF-32 units, which must lie in the range of characters. -/
private def join32? (units : List Nat) : Option (List Char) :=
  if units.all (· < 0x110000) then some (units.map character) else none

/-- The characters of bytes that are not UTF-8. -/
def wide? : Encoding → List Nat → Option (List Char)
  | utf8, _ => none
  | utf16 bigEndian, bytes => (units16? bigEndian bytes).map join16
  | utf32 bigEndian, bytes => units32? bigEndian bytes >>= join32?

end Encoding

/-- The value that the UTF-8 form of a text writes, which may be UTF-16 or UTF-32 at the same time; a byte-order mark
before it is dropped. -/
def parseBytes (s : String) : Except ParseError Json :=
  let bytes := s.toList.flatMap Text.utf8Bytes
  match Encoding.detect bytes with
  | .utf8 =>
    match s.toList with
    | '\ufeff' :: rest => parse (String.ofList rest)
    | _ => parse s
  | encoding =>
    match encoding.wide? bytes with
    | some cs => parse (String.ofList cs)
    | none => .error .undecodable

end PaymentRetry.Json
