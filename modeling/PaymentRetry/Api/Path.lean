import PaymentRetry.Text.Percent

/-!
# Paths of the interface

A request names a target: a percent-encoded path and perhaps a query.  `Target.ofText` takes it apart,
`Route.ofPath?` finds what a path names, and `normalise` replaces the external key in a path, so that paths can be
counted without telling keys apart.
-/

namespace PaymentRetry.Api

/-- What follows a head, if the characters begin with it. -/
def after? (head : String) (cs : List Char) : Option (List Char) :=
  if head.toList.isPrefixOf cs then some (cs.drop head.toList.length) else none

/-- Whether a path ends: nothing is left of it, or one line feed. -/
def atEnd (cs : List Char) : Bool := cs = [] || cs = ['\n']

/-- Split the characters before the first slash from the rest.  There must be at least one. -/
def segment? (cs : List Char) : Option (List Char × List Char) :=
  let key := cs.takeWhile (· != '/')
  if key.isEmpty then none else some (key, cs.dropWhile (· != '/'))

/-- The path of one payment, for any key. -/
def paymentPath : String := "/payments/\x7bpayment_external_key\x7d"

/-- The path of the attempts of one payment, for any key. -/
def attemptsPath : String := paymentPath ++ "/attempts"

/-- A path with the external key replaced.  A line feed after the path of the attempts is kept. -/
def normalise (path : String) : String :=
  match after? "/payments/" path.toList >>= segment? with
  | none => path
  | some (_, []) => paymentPath
  | some (_, rest) =>
    match after? "/attempts" rest with
    | some tail => if atEnd tail then attemptsPath ++ String.ofList tail else path
    | none => path

/-- A target without the parts that step to the same or to the upper level. -/
def dropDots (path : List Char) : List Char :=
  let parts := path.splitOn '/'
  if parts.contains ['.'] || parts.contains ['.', '.'] then
    let kept := parts.foldl (fun done part =>
      if part = ['.'] then done
      else if part = ['.', '.'] then (if done.length ≤ 1 && done.all List.isEmpty then done else done.dropLast)
      else done ++ [part]) []
    ['/'].intercalate kept
  else path

/-- What a request is addressed to. -/
structure Target where
  /-- The path, decoded. -/
  path : List Char
  /-- The query, as it was written. -/
  query : List Char := []

namespace Target

/-- What follows the host in a target: two slashes at its beginning announce a host, which is of no account. -/
def withoutHost : List Char → List Char
  | '/' :: '/' :: rest => rest.dropWhile fun c => !(c = '/' || c = '?')
  | cs => cs

/-- Take a target apart.  A fragment is dropped. -/
def ofText (s : String) : Target :=
  let cs := withoutHost (s.toList.takeWhile (· != '#'))
  let path := dropDots ('/' :: (cs.takeWhile (· != '?')).dropWhile (· == '/'))
  { path := if path.isEmpty then ['/'] else Text.percentDecode path
    query := (cs.dropWhile (· != '?')).drop 1 }

/-- The path with the slash at its end added, or the slashes there removed. -/
def otherSlash (t : Target) : Target :=
  { t with path :=
      if t.path.getLast? = some '/' then (t.path.reverse.dropWhile (· == '/')).reverse else t.path ++ ['/'] }

/-- A path with the characters encoded that would end it within an address. -/
private def pathInAddress (path : List Char) : List Char :=
  path.flatMap fun c => if c = '?' || c = '#' then Text.percentEncode [] [c] else [c]

/-- The path as an address shows it: line breaks and tabs are dropped. -/
def shownPath (t : Target) : String :=
  String.ofList ((pathInAddress t.path).filter fun c => !(c = '\n' || c = '\r' || c = '\t'))

/-- The address of a target on a host. -/
def address (host : String) (t : Target) : String :=
  let query := if t.query.isEmpty then [] else '?' :: t.query
  String.ofList (Text.percentEncode ":/%#?=@[]!$&'()*+,;".toList
    ("http://".toList ++ host.toList ++ pathInAddress t.path ++ query))

end Target

/-- What can be asked for. -/
inductive Route where
  | payments
  | payment (key : String)
  | attempts (key : String)
  /-- The counts, served as a whole. -/
  | metrics
  /-- Whether the service is up. -/
  | health
  /-- A page that describes the interface. -/
  | manual
  deriving DecidableEq, Repr

namespace Route

/-- The route to what lies below the payments. -/
def belowPayments? (cs : List Char) : Option Route :=
  match segment? cs with
  | none => none
  | some (key, []) => some (payment (String.ofList key))
  | some (key, rest) =>
    match after? "/attempts" rest with
    | some tail => if atEnd tail then some (attempts (String.ofList key)) else none
    | none => none

/-- The paths of the pages that describe the interface. -/
def manualPaths : List String := ["/openapi.json", "/docs", "/docs/oauth2-redirect", "/redoc"]

/-- Whether a path names a page that describes the interface. -/
private def isManual (path : List Char) : Bool := manualPaths.any fun page => (after? page path).any atEnd

/-- The route that a decoded path names. -/
def ofPath? (path : List Char) : Option Route :=
  match after? "/payments" path with
  | some rest =>
    if atEnd rest then some payments
    else match rest with
      | '/' :: below => belowPayments? below
      | _ => none
  | none =>
    match after? "/metrics/" path with
    | some rest => if atEnd (rest.dropWhile (· != '\n')) then some metrics else none
    | none =>
      match after? "/health" path with
      | some rest => if atEnd rest then some health else none
      | none => if isManual path then some manual else none

/-- The methods that a route is for, if not for all. -/
def methods : Route → Option (List String)
  | payments => some ["POST"]
  | payment _ | attempts _ | health => some ["GET"]
  | manual => some ["GET", "HEAD"]
  | metrics => none

end Route

end PaymentRetry.Api
