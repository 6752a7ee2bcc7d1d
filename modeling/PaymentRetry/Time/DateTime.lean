import PaymentRetry.Time.Duration
import PaymentRetry.Text.Digit
import PaymentRetry.Text.Percent
import PaymentRetry.Text.Quoted

/-!
# Moments

A moment is a calendar date and a time of day without a time zone, from the first day of year 1 to the last
microsecond of year 9999.  It is held as the number of microseconds since its range begins, so that moments are
ordered and subtracted as numbers.
-/

namespace PaymentRetry

/-- The number of days of the calendar. -/
def calendarDays : Nat := 3652059

/-- A moment, counted in microseconds from the beginning of year 1. -/
structure DateTime where
  /-- The microseconds since the beginning of year 1. -/
  micros : Nat
  /-- The moment lies within the calendar. -/
  inCalendar : micros < calendarDays * Duration.day
  deriving DecidableEq

namespace DateTime

instance : Inhabited DateTime := ⟨⟨0, by decide⟩⟩

instance : LE DateTime := ⟨fun s t => s.micros ≤ t.micros⟩

instance : LT DateTime := ⟨fun s t => s.micros < t.micros⟩

instance (s t : DateTime) : Decidable (s ≤ t) := inferInstanceAs (Decidable (s.micros ≤ t.micros))

instance (s t : DateTime) : Decidable (s < t) := inferInstanceAs (Decidable (s.micros < t.micros))

/-- The moment of that many microseconds, if it lies within the calendar. -/
def ofMicros? (micros : Int) : Option DateTime :=
  if h : 0 ≤ micros ∧ micros < (calendarDays * Duration.day : Nat) then
    some ⟨micros.toNat, by omega⟩
  else none

/-- The moment a duration later. -/
def add (t : DateTime) (d : Duration) : Except RangeError DateTime :=
  match ofMicros? (t.micros + d.micros) with
  | some t => .ok t
  | none => .error .dateOutOfRange

/-- The moment a duration earlier. -/
def sub (t : DateTime) (d : Duration) : Except RangeError DateTime := t.add ⟨-d.micros⟩

/-- The time that passed since an earlier moment. -/
def since (t s : DateTime) : Duration := ⟨(t.micros : Int) - s.micros⟩

/-- Whether a year has a 29 February. -/
def isLeap (year : Nat) : Bool := year % 4 == 0 && (year % 100 != 0 || year % 400 == 0)

/-- The days of the calendar before a year. -/
def daysBeforeYear (year : Nat) : Nat :=
  let y := year - 1
  365 * y + y / 4 - y / 100 + y / 400

/-- The lengths of the months of a year. -/
def monthLengths (year : Nat) : List Nat :=
  [31, if isLeap year then 29 else 28, 31, 30, 31, 30, 31, 31, 30, 31, 30, 31]

/-- The month and the day of the month of a day of a year, counted from zero, given the months left and the number
of the first of them. -/
private def monthOf (day month : Nat) : List Nat → Nat × Nat
  | [] => (month, day + 1)
  | length :: rest => if day < length then (month, day + 1) else monthOf (day - length) (month + 1) rest

/-- The year that holds a day of the calendar.  The estimate by the mean length of a year is at most one too
large or too small. -/
def yearOf (day : Nat) : Nat :=
  let estimate := day * 400 / 146097 + 1
  if day < daysBeforeYear estimate then estimate - 1
  else if daysBeforeYear (estimate + 1) ≤ day then estimate + 1
  else estimate

/-- The year, month and day of the month of a day of the calendar, counted from zero. -/
def dateOfDay (day : Nat) : Nat × Nat × Nat :=
  let year := yearOf day
  let (month, dayOfMonth) := monthOf (day - daysBeforeYear year) 1 (monthLengths year)
  (year, month, dayOfMonth)

/-- The year, month and day of a moment. -/
def date (t : DateTime) : Nat × Nat × Nat := dateOfDay (t.micros / Duration.day)

/-- A number padded with zeros to a width. -/
def padded (width n : Nat) : String :=
  let digits := toString n
  String.ofList (List.replicate (width - digits.length) '0') ++ digits

/-- The text of a moment: date, `T` and time, with six places of the second only if it has a fraction. -/
def text (t : DateTime) : String :=
  let (year, month, day) := t.date
  let time := t.micros % Duration.day
  let fraction := time % Duration.second
  let seconds := time / Duration.second
  padded 4 year ++ "-" ++ padded 2 month ++ "-" ++ padded 2 day ++ "T" ++ padded 2 (seconds / 3600) ++ ":"
    ++ padded 2 (seconds / 60 % 60) ++ ":" ++ padded 2 (seconds % 60)
    ++ (if fraction = 0 then "" else "." ++ padded 6 fraction)

/-- Why a text is no moment. -/
inductive ParseError where
  | malformed (s : String)
  | yearOutOfRange (year : Nat)
  | monthOutOfRange
  | dayOutOfRange
  | hourOutOfRange
  | minuteOutOfRange
  | secondOutOfRange
  /-- The offset from universal time is a day or more. -/
  | offsetOutOfRange (offset : Duration)
  deriving DecidableEq, Repr

/-- The wording of a parse error. -/
def ParseError.message : ParseError → String
  | malformed s => "Invalid isoformat string: " ++ Text.quoted s
  | yearOutOfRange year => "year " ++ toString year ++ " is out of range"
  | monthOutOfRange => "month must be in 1..12"
  | dayOutOfRange => "day is out of range for month"
  | hourOutOfRange => "hour must be in 0..23"
  | minuteOutOfRange => "minute must be in 0..59"
  | secondOutOfRange => "second must be in 0..59"
  | offsetOutOfRange offset =>
    "offset must be a timedelta strictly between -timedelta(hours=24) and timedelta(hours=24), not " ++ offset.shown
      ++ "."

/-- The fields of a date and a time of day. -/
structure Fields where
  year : Nat
  /-- The month, from one. -/
  month : Nat
  /-- The day of the month, from one. -/
  day : Nat
  hour : Nat
  minute : Nat
  second : Nat
  micro : Nat
  deriving Repr

/-- The moment with these fields, if each is in its range. -/
def ofFields (f : Fields) : Except ParseError DateTime :=
  if f.year < 1 || 9999 < f.year then .error (.yearOutOfRange f.year)
  else if f.month < 1 || 12 < f.month then .error .monthOutOfRange
  else if f.day < 1 || (monthLengths f.year).getD (f.month - 1) 0 < f.day then .error .dayOutOfRange
  else if 23 < f.hour then .error .hourOutOfRange
  else if 59 < f.minute then .error .minuteOutOfRange
  else if 59 < f.second then .error .secondOutOfRange
  else
    let days := daysBeforeYear f.year + ((monthLengths f.year).take (f.month - 1)).foldl (· + ·) 0 + (f.day - 1)
    let micros := ((days * 24 + f.hour) * 60 + f.minute) * 60 + f.second
    match ofMicros? (micros * Duration.second + f.micro : Nat) with
    | some t => .ok t
    | none => .error (.yearOutOfRange f.year)

/-- A number of exactly `width` digits at the head of the characters, and what follows it. -/
private def fixedDigits? (width : Nat) (cs : List Char) : Option (Nat × List Char) :=
  let digits := cs.take width
  if digits.length = width then (Text.natOfDigits? digits).map (·, cs.drop width) else none

/-- The first day of the first week of a year: the Monday of the week that holds its first Thursday. -/
def firstMonday (year : Nat) : Int :=
  let first : Int := daysBeforeYear year
  let weekday := daysBeforeYear year % 7
  if 3 < weekday then first - weekday + 7 else first - weekday

/-- Whether a year has a week of this number: some years have 53 weeks, the others 52. -/
def hasWeek (year week : Nat) : Bool :=
  let weekday := daysBeforeYear year % 7
  1 ≤ week && (week ≤ 52 || (week = 53 && (weekday = 3 || (weekday = 2 && isLeap year))))

/-- The date of a day of a week, both counted from one.  The weeks of the year 0 have no months. -/
private def weekDate? (year week day : Nat) : Option (Nat × Nat × Nat) :=
  if !hasWeek year week || day < 1 || 7 < day then none
  else if year < 1 then some (1, 0, day)
  else some (dateOfDay (firstMonday year + (7 * (week - 1) + (day - 1) : Nat)).toNat)

/-- The characters after a hyphen, if there has to be one. -/
private def afterHyphen? (wanted : Bool) (cs : List Char) : Option (List Char) :=
  match wanted, cs with
  | false, cs => some cs
  | true, '-' :: rest => some rest
  | true, _ => none

/-- The day of a week, which may be missing and then is the first. -/
private def weekDay? (hyphens : Bool) (cs : List Char) : Option Nat :=
  if cs.isEmpty then some 1 else (afterHyphen? hyphens cs >>= fixedDigits? 1).map (·.1)

/-- A date by month and day or by week and day, with hyphens between its parts or with none. -/
private def parseDate? (cs : List Char) : Option (Nat × Nat × Nat) := do
  let (year, rest) ← fixedDigits? 4 cs
  let hyphens := rest.head? = some '-'
  let rest ← afterHyphen? hyphens rest
  match rest with
  | 'W' :: rest =>
    let (week, rest) ← fixedDigits? 2 rest
    weekDate? year week (← weekDay? hyphens rest)
  | rest =>
    let (month, rest) ← fixedDigits? 2 rest
    let (day, rest) ← fixedDigits? 2 (← afterHyphen? hyphens rest)
    if rest.isEmpty then return (year, month, day) else none

/-- How many characters the date takes up.  A hyphen after a week stands before a day of the week, unless two digits
follow it. -/
private def dateWidth (cs : List Char) : Nat :=
  if cs.length = 7 then 7
  else match cs.drop 4 with
    | '-' :: 'W' :: _ => if cs[8]? = some '-' && !(cs[10]?).any Char.isDigit then 10 else 8
    | '-' :: _ => 10
    | 'W' :: _ =>
      let width := 7 + ((cs.drop 7).takeWhile Char.isDigit).length
      if width < 9 then width else if width % 2 = 0 then 7 else 8
    | _ => 8

/-- What is read of a time of day: its fields, its microseconds, and whether something is left over. -/
private abbrev TimeParts := List Nat × Nat × Bool

/-- The end of a text and of a part of it. -/
private def endMark : Char := '\x00'

/-- The microseconds of the digits after a point: six of them count. -/
private def fraction? (next : Char) (cs : List Char) : Option TimeParts :=
  (Text.natOfDigits? (cs.take 6)).map fun _ =>
    let last := ((cs.drop 6).dropWhile Char.isDigit).headD next
    ([], Text.digitsValue ((cs ++ List.replicate 6 '0').take 6), last != endMark)

/-- The fields of a time of day and the microseconds after them, given the character that follows, the number of
fields that may still come, and whether colons stand between them; none if that is not known yet.  A fraction may
follow any field, and one more character the last one. -/
private def timeParts? (next : Char) (colons : Option Bool) : Nat → List Char → Option TimeParts
  | 0, cs => fraction? next cs
  | fields + 1, cs => do
    let (value, rest) ← fixedDigits? 2 cs
    let mark := rest.headD next
    let colons := colons.getD (mark = ':')
    match rest with
    | [] | [_] => return ([value], 0, mark != endMark)
    | _ :: after =>
      let (values, micro, leftOver) ←
        if colons && mark = ':' then timeParts? next (some colons) fields after
        else if mark = '.' || mark = ',' then fraction? next after
        else if colons then none
        else timeParts? next (some colons) fields rest
      return (value :: values, micro, leftOver)

/-- The microseconds of an offset from universal time, which must be all that is left. -/
private def offset? (negative : Bool) (cs : List Char) : Option Duration := do
  let (values, micro, leftOver) ← timeParts? endMark none 3 cs
  if leftOver then none
  let seconds := (values.getD 0 0 * 60 + values.getD 1 0) * 60 + values.getD 2 0
  let micros := seconds * Duration.second + micro
  return ⟨if negative then -(micros : Int) else micros⟩

/-- Whether an offset from universal time begins at a character. -/
private def beginsOffset (c : Char) : Bool := c = '+' || c = '-' || c = 'Z'

/-- A time of day, with colons between its parts or with none, and the offset after it; minutes and seconds may be
missing, and so may the offset, which then is zero. -/
private def parseTime? (cs : List Char) : Option (List Nat × Nat × Duration) := do
  let offset := cs.dropWhile (!beginsOffset ·)
  let (values, micro, leftOver) ← timeParts? (offset.headD endMark) none 3 (cs.takeWhile (!beginsOffset ·))
  match offset with
  | [] => if leftOver then none else some (values, micro, ⟨0⟩)
  | 'Z' :: rest => if rest.headD endMark = endMark then some (values, micro, ⟨0⟩) else none
  | sign :: rest => return (values, micro, ← offset? (sign = '-') rest)

/-- What follows the separator between a date and a time, which is one character of any kind. -/
private def afterSeparator : List Char → List Char
  | [] => []
  | c :: rest => rest.drop ((Text.leadByte? c.toNat).elim 0 fun (_, more, _, _) => more)

/-- Read a moment: a date, and perhaps one character of any kind and a time of day.  An offset from universal time
has to be less than a day, and is not kept. -/
def parse (s : String) : Except ParseError DateTime :=
  let cs := (s.toList.flatMap Text.utf8Bytes).map Char.ofNat
  match parseDate? (cs.take (dateWidth cs)) with
  | none => .error (.malformed s)
  | some (year, month, day) =>
    match cs.drop (dateWidth cs) with
    | [] => ofFields ⟨year, month, day, 0, 0, 0, 0⟩
    | rest =>
      match parseTime? (afterSeparator rest) with
      | none => .error (.malformed s)
      | some (values, micro, offset) =>
        if Duration.day ≤ offset.micros.natAbs then .error (.offsetOutOfRange offset)
        else ofFields ⟨year, month, day, values.getD 0 0, values.getD 1 0, values.getD 2 0, micro⟩

end DateTime

end PaymentRetry
