import PaymentRetry.Api.Order
import PaymentRetry.Api.Path
import PaymentRetry.Json.Encoding
import PaymentRetry.Scheduler

/-!
# The interface

Requests are answered one by one.  An order is submitted to the scheduler and answered with the payment as the store
holds it: created if the payment went through, accepted if it is to be retried, an error if it has failed for good
or exists already.  A payment and its attempts can be asked for by external key.  The pages that describe the
interface are answered too; what they say is made elsewhere.

Each answer carries the identity of its request, given by the caller or fresh, and is counted by method, path and
status.  Where an operation fails in any other way, the answer is an internal error that carries and counts nothing.
-/

namespace PaymentRetry.Api

/-- A request. -/
structure Request where
  /-- What is to be done. -/
  method : String
  /-- What it is to be done to. -/
  target : String
  headers : List (String × String) := []
  body : String := ""

/-- The body of an answer. -/
inductive Body where
  | json (value : Json)
  | text (value : String)
  /-- The counts, in a format of their own. -/
  | exposition
  /-- A page that describes the interface, in a format of its own. -/
  | page

/-- An answer. -/
structure Response where
  /-- How the request went. -/
  status : Nat
  headers : List (String × String) := []
  body : Body

/-- Whether two names of headers are the same but for the case of letters. -/
def sameName (a b : String) : Bool := a.toList.map Char.toLower == b.toList.map Char.toLower

/-- The value of a header. -/
def Request.header? (r : Request) (name : String) : Option String := (r.headers.find? (sameName name ·.1)).map (·.2)

/-- The header that carries the identity of a request. -/
def requestIdHeader : String := "x-request-id"

/-- The text of an identity of which nothing is known but that it is fresh. -/
def freshIdentity : String := "<uuid>"

/-- The identity of a request: the caller's, unless it is missing or empty. -/
def Request.identity (r : Request) : String :=
  match r.header? requestIdHeader with
  | some id => if id.isEmpty then freshIdentity else id
  | none => freshIdentity

/-- The host that a request is sent to. -/
def Request.host (r : Request) : String := (r.header? "host").getD "test"

/-! ### Answers -/

/-- An answer that says what is wrong. -/
def problem (status : Nat) (detail : String) : Response where
  status := status
  body := .json (.object [("detail", .text detail)])

/-- The answer to a request for something that does not exist. -/
def notFound : Response := problem 404 "Not Found"

/-- The answer to a request for a payment that does not exist. -/
def paymentNotFound : Response := problem 404 "Payment not found"

/-- The answer to a request with a method that its path does not have. -/
def methodNotAllowed (allowed : String) : Response :=
  { problem 405 "Method Not Allowed" with headers := [("allow", allowed)] }

/-- The answer to a request whose path lacks or has a slash at its end. -/
def redirect (host : String) (t : Target) : Response where
  status := 307
  headers := [("location", t.address host)]
  body := .text ""

/-- The answer when an operation fails. -/
def internalError : Response where
  status := 500
  body := .text "Internal Server Error"

/-- An attempt as it is shown. -/
def attemptJson (a : Attempt) : Json :=
  .object [("id", .text a.id.text), ("payment_id", .text a.payment.text), ("payment_external_key", .text a.key),
    ("transaction_external_key", .text a.transaction), ("attempt_number", .int a.number),
    ("state_name", .text a.state.text), ("amount", .text a.amount.text), ("currency", .text a.currency),
    ("failure_type", .ofText? (a.failureType.map FailureType.text)), ("error_message", .ofText? a.message),
    ("retry_due_at", .ofText? (a.dueAt.map DateTime.text)), ("created_date", .text a.created.text),
    ("updated_date", .text a.updated.text)]

/-- When the next attempt after an attempt is due. -/
def nextRetryAt (a : Attempt) : Option DateTime := if a.state = .retried then a.dueAt else none

/-- A payment as it is shown, given its latest attempt and all its attempts. -/
def paymentJson (latest : Attempt) (attempts : List Attempt) : Json :=
  .object [("payment_id", .text latest.payment.text), ("payment_external_key", .text latest.key),
    ("state", .text latest.state.text), ("next_retry_at", .ofText? ((nextRetryAt latest).map DateTime.text)),
    ("attempts", .list (attempts.map attemptJson))]

/-- Whether all attempts can be shown: an amount that is not finite cannot. -/
def showable (attempts : List Attempt) : Bool := attempts.all (·.amount.isFinite)

/-- The answer that shows a payment, given its attempts. -/
def showPayment (status : Nat) (attempts : List Attempt) : Response :=
  match attempts.getLast? with
  | none => internalError
  | some latest =>
    if showable attempts then { status := status, body := .json (paymentJson latest attempts) } else internalError

/-! ### Reading an order -/

/-- The value at the end of a way, if the way leads anywhere.  The names of the way hold no halves of surrogate
pairs. -/
private def valueAt? (j : Json) : List Validation.Place → Option Json
  | [] => some j
  | .field name :: rest =>
    ((j.members.find? fun m => Text.withoutHalves m.1 == name).map (·.2)).bind (valueAt? · rest)
  | .index n :: rest => (j.list?.bind (·[n]?)).bind (valueAt? · rest)

/-- The value that an issue is about: a missing member is an issue of the object that lacks it. -/
private def subject? (j : Json) (i : Validation.Issue) : Option Json :=
  valueAt? j (if i.complaint = .missing then i.location.dropLast else i.location)

mutual

/-- Whether a value can be written in an answer: neither a double that is not finite nor half of a surrogate pair
can. -/
def isWritable : Json → Bool
  | .float x => x.isFinite
  | .text s => Text.isWellFormed s
  | .list items => areWritable items
  | .object members => areMembersWritable members
  | _ => true

/-- Whether all items can be written in an answer. -/
def areWritable : List Json → Bool
  | [] => true
  | j :: rest => isWritable j && areWritable rest

/-- Whether all members can be written in an answer. -/
def areMembersWritable : List (String × Json) → Bool
  | [] => true
  | (key, j) :: rest => Text.isWellFormed key && isWritable j && areMembersWritable rest

end

/-- An issue as it is shown. -/
def issueJson (i : Validation.Issue) : Json :=
  .object [("type", .text i.complaint.type),
    ("loc", .list (i.location.map fun
      | .field name => .text name
      | .index n => .int n)),
    ("msg", .text i.complaint.message)]

/-- The answer that shows what is wrong with a body. -/
def unprocessable (issues : List Validation.Issue) : Response where
  status := 422
  body := .json (.object [("detail", .list (issues.map fun i => issueJson (i.within (.field "body"))))])

/-- The answer to a request whose body cannot be read at all. -/
def unreadable : Response := problem 400 "There was an error parsing the body"

/-- Whether the type of a body says that it is a structured value. -/
def isJsonType (contentType : String) : Bool :=
  let cs := (contentType.toList.takeWhile (· != ';')).map Char.toLower
  match (Text.trimBy Text.isBlank cs).splitOn '/' with
  | [main, sub] => main = "application".toList && (sub = "json".toList || "+json".toList.isSuffixOf sub)
  | _ => false

/-- The answer that refuses an order, given what is wrong with the value it was read from.  What is wrong is shown
with the values concerned, and not all of them can be. -/
def refuseOrder (j : Json) (issues : List Validation.Issue) : Response :=
  if issues.all fun i => (subject? j i).all isWritable then unprocessable issues else internalError

/-- The order in a body, or the answer that refuses it. -/
def readOrder (r : Request) : Except Response Order :=
  if r.body.isEmpty then .error (unprocessable [⟨[], .missing⟩])
  else if (r.header? "content-type").any isJsonType then
    match Json.parseBytes r.body with
    | .error (.malformed position) => .error (unprocessable [⟨[.index position], .syntaxError⟩])
    | .error _ => .error unreadable
    | .ok (.object members) => (Order.ofMembers (.object members)).mapError (refuseOrder (.object members))
    | .ok j => .error (refuseOrder j [⟨[], .modelAttributes⟩])
  else .error (unprocessable [⟨[], .modelAttributes⟩])

/-! ### Answering -/

/-- The record of an order that was received. -/
def receivedRecord (identity key : String) : Log.Record where
  logger := "app.routers.payments"
  level := .info
  message := "Received submit_payment request"
  extras := [("request_id", .text identity), ("payment_external_key", .text key)]

/-- What an order submits. -/
def Order.submission (o : Order) : Submission where
  key := some o.key
  transaction := some o.transaction
  amount := o.amount
  currency := some o.currency
  properties := o.propertyMembers

/-- The answer with the payment of a key. -/
def showByKey (status : Nat) (key : String) : Program Response := do
  match ← .history key with
  | .error _ => return internalError
  | .ok attempts => return showPayment status attempts

/-- Submit an order and answer with the payment. -/
def submitOrder (s : Scheduler) (identity : String) (o : Order) : Program Response := do
  .log (receivedRecord identity o.key)
  match ← s.submit o.submission with
  | .ok _ => showByKey 201 o.key
  | .error (.duplicateKey key number) => return problem 409 (Failure.duplicateKey key number).message
  | .error (.paymentFailed decision) =>
    if decision.state = .aborted then return problem 402 (Failure.paymentFailed decision).message
    else showByKey 202 o.key
  | .error _ => return internalError

/-- Answer with a payment. -/
def getPayment (key : String) : Program Response := do
  match ← .history key with
  | .error _ => return internalError
  | .ok [] => return paymentNotFound
  | .ok attempts => return showPayment 200 attempts

/-- Answer with the attempts of a payment. -/
def getAttempts (key : String) : Program Response := do
  match ← .history key with
  | .error _ => return internalError
  | .ok [] => return paymentNotFound
  | .ok attempts =>
    if showable attempts then return { status := 200, body := .json (.list (attempts.map attemptJson)) }
    else return internalError

/-- Answer a request along its route. -/
def follow (s : Scheduler) (r : Request) : Route → Program Response
  | .payments =>
    match readOrder r with
    | .error refusal => .done refusal
    | .ok order => submitOrder s r.identity order
  | .payment key => getPayment key
  | .attempts key => getAttempts key
  | .metrics => .done { status := 200, body := .exposition }
  | .health => .done { status := 200, body := .json (.object [("status", .text "ok")]) }
  | .manual => .done { status := 200, body := .page }

/-- Answer a request to a target. -/
def dispatch (s : Scheduler) (r : Request) (t : Target) : Program Response :=
  match Route.ofPath? t.path with
  | some route =>
    match route.methods with
    | none => follow s r route
    | some methods =>
      if methods.contains r.method then follow s r route
      else .done (methodNotAllowed (", ".intercalate methods))
  | none =>
    if t.path ≠ ['/'] && (Route.ofPath? t.otherSlash.path).isSome then .done (redirect r.host t.otherSlash)
    else .done notFound

/-- The paths that are not counted, but for slashes at their end. -/
def untracked : List String := ["/health", "/metrics"]

/-- Whether requests to a path are counted. -/
def isTracked (path : String) : Bool :=
  !untracked.contains (String.ofList (path.toList.reverse.dropWhile (· == '/')).reverse)

/-- Count an answer. -/
def countAnswer (method path : String) (status : Nat) : Program Unit := do
  .count (.request method path status)
  .count (.requestDuration method path)

/-- An answer as it goes out: it carries the identity of its request, and without its body if only the head was asked
for. -/
def sent (r : Request) (response : Response) : Response :=
  { response with
    headers := (requestIdHeader, r.identity) :: response.headers
    body := if r.method = "HEAD" then .text "" else response.body }

/-- Answer a request. -/
def handle (s : Scheduler) (r : Request) : Program Response := do
  let target := Target.ofText r.target
  let response ← dispatch s r target
  if response.status = 500 then return response
  if isTracked target.shownPath then countAnswer r.method (normalise target.shownPath) response.status
  return sent r response

end PaymentRetry.Api
