import PaymentRetry.Text.Blank

/-!
# Files of environment variables

A file of environment variables holds lines `NAME=value`.  A name may follow the word `export` and may stand in
single quotes; a value may stand in single or double quotes, and then may span lines and hold escapes; what follows
a `#` after a blank is a comment.  A line that has not this form is skipped.  Within a value, a name in braces after
a dollar sign stands for the value of that variable.
-/

namespace PaymentRetry.Settings.DotEnv

/-- A name, and its value if it has one. -/
abbrev Binding := String × Option String

/-- Whether a character ends a line. -/
private def isBreak (c : Char) : Bool := c = '\n'

/-- Whether a character is blank and does not end a line. -/
private def isSpace (c : Char) : Bool := Text.isBlank c && !isBreak c

/-- What follows the end of the current line. -/
private def nextLine (cs : List Char) : List Char := (cs.dropWhile (!isBreak ·)).drop 1

/-- What follows the word `export` and blanks, if they are there. -/
private def skipExport (cs : List Char) : List Char :=
  if "export".toList.isPrefixOf cs && ((cs.drop 6).head?.any isSpace) then (cs.drop 6).dropWhile isSpace else cs

/-- A name and what follows it; a comment has none. -/
private def readName? (cs : List Char) : Option (Option String × List Char) :=
  match cs with
  | '#' :: _ => some (none, cs)
  | '\'' :: rest =>
    let name := rest.takeWhile (· != '\'')
    match rest.dropWhile (· != '\'') with
    | _ :: rest => if name.isEmpty then none else some (some (String.ofList name), rest)
    | [] => none
  | _ =>
    let isNameChar (c : Char) : Bool := c != '=' && c != '#' && !Text.isBlank c
    let name := cs.takeWhile isNameChar
    if name.isEmpty then none else some (some (String.ofList name), cs.dropWhile isNameChar)

/-- The characters up to the closing mark, and what follows it.  An escaped mark does not close, unless no other
does. -/
private def readQuoted? (mark : Char) : List Char → Option (List Char × List Char)
  | [] => none
  | '\\' :: c :: rest =>
    if c = mark then
      match readQuoted? mark rest with
      | some (inside, rest) => some ('\\' :: c :: inside, rest)
      | none => some (['\\'], rest)
    else (readQuoted? mark (c :: rest)).map fun (inside, rest) => ('\\' :: inside, rest)
  | c :: rest =>
    if c = mark then some ([], rest)
    else (readQuoted? mark rest).map fun (inside, rest) => (c :: inside, rest)

/-- The character that an escape in double quotes stands for. -/
private def escaped? (c : Char) : Option Char :=
  match c with
  | '\\' | '\'' | '"' => some c
  | 'a' => some '\x07'
  | 'b' => some '\x08'
  | 'f' => some '\x0c'
  | 'n' => some '\n'
  | 'r' => some '\r'
  | 't' => some '\t'
  | 'v' => some '\x0b'
  | _ => none

/-- The character that an escape in single quotes stands for. -/
private def escapedPlain? (c : Char) : Option Char := if c = '\\' || c = '\'' then some c else none

/-- Replace the escapes. -/
private def unescape (escape? : Char → Option Char) : List Char → List Char
  | '\\' :: c :: rest =>
    match escape? c with
    | some d => d :: unescape escape? rest
    | none => '\\' :: unescape escape? (c :: rest)
  | c :: rest => c :: unescape escape? rest
  | [] => []

/-- A line without the comment that follows a blank.  `blank` tells whether the last character was one. -/
private def dropComment (blank : Bool) : List Char → List Char
  | [] => []
  | c :: rest => if blank && c = '#' then [] else c :: dropComment (Text.isBlank c) rest

/-- The characters without blanks at the end. -/
private def trimEnd (cs : List Char) : List Char := (cs.reverse.dropWhile Text.isBlank).reverse

/-- A value and what follows it. -/
private def readValue? (cs : List Char) : Option (List Char × List Char) :=
  match cs with
  | '\'' :: rest => (readQuoted? '\'' rest).map fun (inside, rest) => (unescape escapedPlain? inside, rest)
  | '"' :: rest => (readQuoted? '"' rest).map fun (inside, rest) => (unescape escaped? inside, rest)
  | _ =>
    let line := cs.takeWhile (!isBreak ·)
    some (trimEnd (dropComment false line), cs.dropWhile (!isBreak ·))

/-- What follows the end of the line, if only blanks and a comment stand before it. -/
private def finishLine? (cs : List Char) : Option (List Char) :=
  match cs.dropWhile isSpace with
  | [] => some []
  | c :: rest => if c = '#' || isBreak c then some (nextLine (c :: rest)) else none

/-- One binding at the head of the characters, and what follows it.  A comment binds nothing; where the form is
broken the rest of the line is skipped. -/
private def readBinding (cs : List Char) : Option Binding × List Char :=
  let start := skipExport cs
  match readName? start with
  | none => (none, nextLine start)
  | some (name, rest) =>
    match rest.dropWhile isSpace with
    | '=' :: rest =>
      let rest := rest.dropWhile isSpace
      match readValue? rest with
      | none => (none, nextLine rest)
      | some (value, rest) =>
        match finishLine? rest with
        | none => (none, nextLine rest)
        | some rest => (name.map (·, some (String.ofList value)), rest)
    | rest =>
      match finishLine? rest with
      | none => (none, nextLine rest)
      | some rest => (name.map (·, none), rest)

/-- All bindings.  `fuel` bounds their number. -/
private def readBindings : Nat → List Char → List Binding
  | 0, _ => []
  | fuel + 1, cs =>
    match cs.dropWhile Text.isBlank with
    | [] => []
    | c :: rest =>
      match readBinding (c :: rest) with
      | (some b, rest) => b :: readBindings fuel rest
      | (none, rest) => readBindings fuel rest

/-- The name in braces at the head of the characters, the value to be used if it has none, and what follows. -/
private def reference? (cs : List Char) : Option (String × String × List Char) :=
  let name := String.ofList (cs.takeWhile fun c => c != '\x7d' && c != ':')
  match cs.dropWhile fun c => c != '\x7d' && c != ':' with
  | ':' :: '-' :: rest =>
    match rest.dropWhile (· != '\x7d') with
    | _ :: after => some (name, String.ofList (rest.takeWhile (· != '\x7d')), after)
    | [] => none
  | '\x7d' :: rest => some (name, "", rest)
  | _ => none

/-- Replace the references in a value.  `fuel` bounds the length of the value. -/
private def expandAux (lookup : String → Option (Option String)) : Nat → List Char → List Char
  | 0, cs => cs
  | _, [] => []
  | fuel + 1, '$' :: '\x7b' :: rest =>
    match reference? rest with
    | some (name, fallback, rest) =>
      let value := match lookup name with
        | some v => v.getD ""
        | none => fallback
      value.toList ++ expandAux lookup fuel rest
    | none => '$' :: expandAux lookup fuel ('\x7b' :: rest)
  | fuel + 1, c :: rest => c :: expandAux lookup fuel rest

/-- Replace the references in a value. -/
private def expand (lookup : String → Option (Option String)) (value : String) : String :=
  String.ofList (expandAux lookup value.length value.toList)

/-- The characters of a file with one character for each end of a line. -/
private def unifyBreaks : List Char → List Char
  | '\r' :: '\n' :: rest => '\n' :: unifyBreaks rest
  | '\r' :: rest => '\n' :: unifyBreaks rest
  | c :: rest => c :: unifyBreaks rest
  | [] => []

/-- The variables of a file, given those of the environment.  References see the variables bound before them, and
then the environment; of two bindings of a name the later one counts. -/
def parse (environment : List (String × String)) (s : String) : List Binding :=
  (readBindings (s.length + 1) (unifyBreaks s.toList)).foldl (fun done (name, value) =>
    let lookup (n : String) : Option (Option String) :=
      match done.find? (·.1 == n) with
      | some (_, v) => some v
      | none => (environment.find? (·.1 == n)).map fun (_, v) => some v
    let bound := (name, value.map (expand lookup))
    if done.any (·.1 == name) then done.map fun b => if b.1 == name then bound else b else done ++ [bound]) []

end PaymentRetry.Settings.DotEnv
