import PaymentRetry.Number.Arithmetic
import PaymentRetry.Text.Percent
import PaymentRetry.Time.DateTime

/-!
# Timestamps of messages

A timestamp is a moment on the wall clock of some time zone, or of none.  `Timestamp.parse` reads the interchange
format (a date, a separator, a time with at least hours and minutes, and perhaps an offset), a date alone, or a
number of seconds since 1970; numbers beyond twenty thousand million count milliseconds.

Texts are read byte by byte: the characters of the lists below each stand for one byte of the UTF-8 form.
-/

namespace PaymentRetry

/-- A moment and the offset of its time zone in minutes, if it has one. -/
structure Timestamp where
  /-- The moment on the wall clock. -/
  wall : DateTime
  /-- How many minutes the wall clock is ahead of universal time. -/
  offset : Option Int
  deriving DecidableEq

namespace Timestamp

/-- The beginning of 1970. -/
def epochMicros : Int := 719162 * Duration.day

/-- The text of an offset. -/
private def offsetText (minutes : Int) : String :=
  if minutes = 0 then "Z"
  else (if minutes < 0 then "-" else "+") ++ DateTime.padded 2 (minutes.natAbs / 60) ++ ":"
    ++ DateTime.padded 2 (minutes.natAbs % 60)

/-- The text of a timestamp. -/
def text (t : Timestamp) : String :=
  t.wall.text ++ (match t.offset with | none => "" | some minutes => offsetText minutes)

/-- The number written by two digits. -/
private def pair? (a b : Char) : Option Nat := Text.natOfDigits? [a, b]

/-- The date at the head of the characters, and what follows it, or why there is none. -/
def datePart (cs : List Char) : Except String (Nat × Nat × Nat × List Char) :=
  match cs with
  | y1 :: y2 :: y3 :: y4 :: s1 :: m1 :: m2 :: s2 :: d1 :: d2 :: rest =>
    match Text.natOfDigits? [y1, y2, y3, y4] with
    | none => .error "invalid character in year"
    | some year =>
      if s1 ≠ '-' then .error "invalid date separator, expected `-`"
      else match pair? m1 m2 with
        | none => .error "invalid character in month"
        | some month =>
          if s2 ≠ '-' then .error "invalid date separator, expected `-`"
          else match pair? d1 d2 with
            | none => .error "invalid character in day"
            | some day =>
              if month < 1 || 12 < month then .error "month value is outside expected range of 1-12"
              else if day < 1 || (DateTime.monthLengths year).getD (month - 1) 0 < day then
                .error "day value is outside expected range"
              else .ok (year, month, day, rest)
  | _ => .error "input is too short"

/-- Whether a sign is a minus, and what follows it.  The minus sign U+2212 counts, which takes three bytes. -/
private def offsetSign? : List Char → Option (Bool × List Char)
  | '+' :: rest => some (false, rest)
  | '-' :: rest => some (true, rest)
  | '\xe2' :: '\x88' :: '\x92' :: rest => some (true, rest)
  | _ => none

/-- An offset at the end of a time. -/
private def offsetPart? : List Char → Option (Option Int)
  | [] => some none
  | ['Z'] | ['z'] => some (some 0)
  | cs => do
    let (negative, h1 :: h2 :: rest) ← offsetSign? cs | none
    let hours ← pair? h1 h2
    let minutes ← match rest with
      | [':', m1, m2] | [m1, m2] => pair? m1 m2
      | _ => none
    if 59 < minutes || 23 < hours then none
    let total : Int := hours * 60 + minutes
    return some (if negative then -total else total)

/-- A time of day: hour, minute, second, microsecond and offset. -/
private def timePart? (cs : List Char) : Option (Nat × Nat × Nat × Nat × Option Int) := do
  let h1 :: h2 :: ':' :: m1 :: m2 :: rest := cs | none
  let hour ← pair? h1 h2
  let minute ← pair? m1 m2
  if 23 < hour || 59 < minute then none
  let (second, micro, rest) ← match rest with
    | ':' :: s1 :: s2 :: rest => do
      let second ← pair? s1 s2
      if 59 < second then none
      match rest with
      | mark :: rest =>
        if mark = '.' || mark = ',' then
          let digits := rest.takeWhile Char.isDigit
          if digits.isEmpty then none
          let micro := Text.digitsValue ((digits ++ List.replicate 6 '0').take 6)
          some (second, micro, rest.dropWhile Char.isDigit)
        else some (second, 0, mark :: rest)
      | [] => some (second, 0, [])
    | rest => some (0, 0, rest)
  return (hour, minute, second, micro, ← offsetPart? rest)

/-- Why there is no timestamp. -/
inductive ParseError where
  /-- The text is not even a date. -/
  | notDate (reason : String)
  /-- The number counts to before the year 0. -/
  | tooEarly
  /-- The number counts to after the year 9999. -/
  | tooLate
  /-- The number is not a number. -/
  | notANumber
  /-- The fields of the moment are no moment of the calendar. -/
  | calendar (error : DateTime.ParseError)
  deriving DecidableEq, Repr

/-- The wording of a parse error. -/
def ParseError.reason : ParseError → String
  | notDate reason => reason
  | tooEarly => "dates before 0000 are not supported as unix timestamps"
  | tooLate => "dates after 9999 are not supported as unix timestamps"
  | notANumber => "NaN values not permitted"
  | calendar e => e.message

/-- The largest number that counts seconds. -/
def watershed : Nat := 20000000000

/-- The beginning of the year 0, in seconds since 1970. -/
def firstSecond : Int := -62167219200

/-- The end of the year 9999, in seconds since 1970. -/
def lastSecond : Int := 253402300799

/-- The timestamp that a number of 64 bits stands for, given microseconds to be added, in universal time. -/
def ofNumber (n : Int) (micros : Nat) : Except ParseError Timestamp :=
  let inMillis := watershed < n.natAbs
  let micros : Int := (if inMillis then n * 1000 else n * Duration.second) + micros
  let seconds := Int.fdiv micros Duration.second
  if seconds < firstSecond then .error .tooEarly
  else if lastSecond < seconds then .error .tooLate
  else match DateTime.ofMicros? (epochMicros + micros) with
    | some wall => .ok ⟨wall, some 0⟩
    | none => .error (.calendar (.yearOutOfRange 0))

/-- The timestamp that a double stands for: its integer part below and the microseconds nearest to the rest. -/
def ofDouble (x : Binary64) : Except ParseError Timestamp :=
  match x with
  | .nan => .error .notANumber
  | .infinite negative => .error (if negative then .tooEarly else .tooLate)
  | x =>
    let inMillis := (x.toUnits?.getD 0).natAbs > watershed * Binary64.unit
    let x := if inMillis then x.div (.ofInt 1000) else x
    let seconds := max (-(Nat.pow 2 63 : Int)) (min (Nat.pow 2 63 - 1 : Int) (x.floor?.getD 0))
    let micros := ((x.sub (.ofInt seconds)).mul (.ofInt Duration.second)).round?.getD 0
    ofNumber seconds (min micros.toNat (Nat.pow 2 32 - 1))

/-- The double that digits and decimal places write, found by adding one place after the other. -/
private def doubleOfPlaces (whole : Nat) (places : List Char) : Binary64 :=
  (places.foldl (fun (sum, power) c =>
    (sum.add ((Binary64.ofInt (c.toNat - '0'.toNat : Nat)).div power), power.mul (.ofInt 10)))
    (Binary64.ofInt whole, Binary64.ofInt 10)).1

/-- The timestamp that an optionally signed number in a text stands for; none if the text is no number. -/
private def ofNumberText? (cs : List Char) : Option (Except ParseError Timestamp) := do
  let (negative, cs) := match cs with
    | '-' :: rest => (true, rest)
    | '+' :: rest => (false, rest)
    | cs => (false, cs)
  let whole ← Text.natOfDigits? (cs.takeWhile Char.isDigit)
  if Nat.pow 2 63 ≤ whole then none
  match cs.dropWhile Char.isDigit with
  | [] => some (ofNumber (if negative then -(whole : Int) else whole) 0)
  | '.' :: places =>
    if places.all Char.isDigit then
      let x := doubleOfPlaces whole places
      some (ofDouble (if negative then x.neg else x))
    else none
  | _ => none

/-- A separator between a date and a time. -/
private def isSeparator (c : Char) : Bool := c = 'T' || c = 't' || c = ' ' || c = '_'

/-- The fields and the offset of a date with a time of day. -/
private def parseFull? (cs : List Char) : Option (DateTime.Fields × Option Int) := do
  let (year, month, day, separator :: time) ← (datePart cs).toOption | none
  if !isSeparator separator then none
  let (hour, minute, second, micro, offset) ← timePart? time
  return (⟨year, month, day, hour, minute, second, micro⟩, offset)

/-- The timestamp with these fields. -/
private def ofFields (f : DateTime.Fields) (offset : Option Int) : Except ParseError Timestamp :=
  match DateTime.ofFields f with
  | .ok wall => .ok ⟨wall, offset⟩
  | .error e => .error (.calendar e)

/-- Read a date, or say why the text is none. -/
private def parseDate (cs : List Char) : Except ParseError Timestamp :=
  match datePart cs with
  | .ok (year, month, day, []) => ofFields ⟨year, month, day, 0, 0, 0, 0⟩ none
  | .ok _ => .error (.notDate "unexpected extra characters at the end of the input")
  | .error reason => .error (.notDate reason)

/-- What becomes of a number in a text that counts to outside the calendar: the text is tried as a date, which may
be a whole number too. -/
private def retryAsDate (cs : List Char) (e : ParseError) : Except ParseError Timestamp :=
  match e with
  | .tooEarly | .tooLate => if cs.contains '.' then parseDate cs else .error (.notDate e.reason)
  | e => .error e

/-- Read a timestamp, or say why there is none. -/
def parse (s : String) : Except ParseError Timestamp :=
  let cs := (s.toList.flatMap Text.utf8Bytes).map Char.ofNat
  match parseFull? cs with
  | some (f, offset) => ofFields f offset
  | none =>
    match ofNumberText? cs with
    | some (.ok t) => .ok t
    | some (.error e) => retryAsDate cs e
    | none => parseDate cs

end Timestamp

end PaymentRetry
