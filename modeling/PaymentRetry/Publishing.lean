import PaymentRetry.Event
import PaymentRetry.Log.Record

/-!
# Messages to the broker

A completion event goes out as a message: a topic, a key that keeps the messages of one payment in order, the text
of the event, and headers that carry the current trace on.  The headers follow the trace-context standard:
`traceparent` names the trace and the span, `tracestate` lists the entries of other systems.
-/

namespace PaymentRetry

/-- The span that is current when a message is sent. -/
structure TraceContext where
  /-- The number of the trace. -/
  trace : Nat
  /-- The number of the span. -/
  span : Nat
  /-- The flags of the trace. -/
  flags : Nat
  /-- The entries of other systems. -/
  state : List (String × String) := []
  deriving DecidableEq, Repr

namespace TraceContext

/-- The largest number of entries of other systems. -/
def maxEntries : Nat := 32

/-- Whether a character may stand in the key of an entry. -/
private def isKeyChar (c : Char) : Bool :=
  c.isLower || c.isDigit || c = '_' || c = '-' || c = '*' || c = '/'

/-- Whether a text is one part of a key. -/
private def isKeyPart (digitFirst : Bool) (most : Nat) (cs : List Char) : Bool :=
  match cs with
  | [] => false
  | c :: rest => (c.isLower || (digitFirst && c.isDigit)) && rest.all isKeyChar && rest.length < most

/-- Whether a text is the key of an entry: a name, or a tenant and a system with a sign between them. -/
def isKey (s : String) : Bool :=
  let cs := s.toList
  let first := cs.takeWhile (· != '@')
  match cs.dropWhile (· != '@') with
  | [] => isKeyPart false 256 first
  | _ :: second => isKeyPart true 241 first && isKeyPart false 14 second

/-- Whether a character may stand in the value of an entry. -/
private def isValueChar (c : Char) : Bool := 0x20 ≤ c.toNat && c.toNat ≤ 0x7e && c != ',' && c != '='

/-- Whether a text is the value of an entry: it does not end in a space. -/
def isValue (s : String) : Bool :=
  let cs := s.toList
  !cs.isEmpty && cs.length ≤ 256 && cs.all isValueChar && cs.getLast? != some ' '

/-- The entries that are well formed, each key once; there are none if too many are given. -/
def validState (t : TraceContext) : List (String × String) :=
  if maxEntries < t.state.length then []
  else t.state.foldl (fun done (key, value) =>
    if isKey key && isValue value && !done.any (·.1 == key) then done ++ [(key, value)] else done) []

/-- The headers that carry the trace on. -/
def headers (t : TraceContext) : List (String × String) :=
  let parent := "00-" ++ Text.hex 32 t.trace ++ "-" ++ Text.hex 16 t.span ++ "-" ++ Text.hex 2 t.flags
  let entries := t.validState
  ("traceparent", parent) :: (if entries.isEmpty then []
    else [("tracestate", ",".intercalate (entries.map fun (key, value) => key ++ "=" ++ value))])

end TraceContext

/-- A message to the broker. -/
structure BrokerMessage where
  topic : String
  /-- The key that orders messages. -/
  key : String
  event : EventMessage
  headers : List (String × String)

namespace BrokerMessage

/-- The name under which the publisher writes log records. -/
def logger : String := "retry_service.publisher"

/-- The message for an event. -/
def ofEvent (topic : String) (trace : Option TraceContext) (e : EventMessage) : BrokerMessage where
  topic := topic
  key := e.payment
  event := e
  headers := (trace.map TraceContext.headers).getD []

/-- The record of a message that was sent. -/
def sentRecord (m : BrokerMessage) : Log.Record where
  logger := logger
  level := .info
  message := "Published " ++ m.topic ++ " event"
  extras := [("payment_id", .text m.event.payment), ("correlation_id", .text m.event.correlation),
    ("final_state", .text m.event.finalState)]

end BrokerMessage

end PaymentRetry
