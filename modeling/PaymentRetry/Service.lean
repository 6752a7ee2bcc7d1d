import PaymentRetry.Api.Handler
import PaymentRetry.Settings.Scheduler
import PaymentRetry.Simulation.World
import PaymentRetry.Trigger

/-!
# The two services

Two services run over one store.  The worker polls: it makes the attempts that are due.  The interface takes orders
and shows payments.  Both announce completions through the broker, and both note in a journal what they do to the
outside world as they start, work and stop.
-/

namespace PaymentRetry

open Simulation (World Publication)

/-- What a service does to the outside world. -/
inductive JournalEntry where
  | logging (level service : String)
  | metricsServer (port : Int)
  | tracing (service endpoint : String)
  /-- Create the tables of the database. -/
  | tables
  /-- Let the database be traced. -/
  | databaseTracing
  /-- Make a client of the broker. -/
  | producer (servers : String)
  | trigger (interval : Binary64)
  /-- Start the client of the broker. -/
  | producerStarted
  /-- Publish something. -/
  | published (publication : Publication)
  /-- Stop the client of the broker. -/
  | producerStopped
  /-- Release the database. -/
  | databaseReleased
  /-- Stop tracing. -/
  | tracingStopped

/-- The name under which tracing tells of a service that has none. -/
def unknownService : String := "unknown_service"

/-- What tracing tells of a service: nothing without an endpoint, else its name and its namespace. -/
def tracedService (name endpoint : String) : Option (String × String) :=
  if endpoint.isEmpty then none else some (if name.isEmpty then unknownService else name, "payments")

namespace Service

/-- The end of tracing, if there was any. -/
def stopTracing (s : Settings) : List JournalEntry := if s.traceEndpoint.isEmpty then [] else [.tracingStopped]

/-- The world in which a service with these settings works, over a store. -/
def world (s : Settings) (now : DateTime) (store : Store) : World where
  now := now
  tick := 1
  store := store
  sandbox := s.sandbox
  breaker := s.breaker
  publisher := .broker s.completedTopic

/-- What has been published in a world, in order. -/
def publishedEntries (w : World) : List JournalEntry := w.published.reverse.map .published

/-- The store after attempts were added to it at a moment. -/
def stored (drafts : List Draft) (now : DateTime) : Except Failure Store :=
  drafts.foldlM (fun store d => (store.insert d now).map (·.2)) {}

/-! ### The worker -/

/-- The name of the worker. -/
def workerName : String := "retry-service"

/-- The journal of a worker that is stopped after one poll, and the store it leaves. -/
def runWorker (s : Settings) (now : DateTime) (store : Store) :
    Except Settings.BuildError (List JournalEntry × Store) :=
  match s.scheduler with
  | .error e => .error e
  | .ok scheduler =>
    let (_, w) := (Trigger.cycle scheduler).run World.answer (world s now store)
    .ok (
      [.logging s.logLevel workerName, .metricsServer s.metricsPort, .tracing workerName s.traceEndpoint,
       .producer s.brokerServers, .trigger s.pollInterval, .producerStarted]
        ++ publishedEntries w ++ .producerStopped :: stopTracing s,
      w.store)

/-! ### The interface -/

/-- The name of the interface. -/
def apiName : String := "payments-api"

/-- A request to the interface, and failures to be queued in the sandbox before it. -/
structure Visit where
  queued : List QueuedFailure := []
  request : Api.Request

/-- Answer visits one after the other. -/
def answerVisits (scheduler : Scheduler) : List Visit → World → List Api.Response × World
  | [], w => ([], w)
  | v :: rest, w =>
    let w := { w with sandbox := v.queued.foldl Sandbox.queue w.sandbox }
    let (response, w) := (Api.handle scheduler v.request).run World.answer w
    let (responses, w) := answerVisits scheduler rest w
    (response :: responses, w)

/-- The journal of the interface over some visits, its answers, and the store it leaves. -/
def runApi (s : Settings) (now : DateTime) (visits : List Visit) :
    Except Settings.BuildError (List JournalEntry × List Api.Response × Store) :=
  match s.scheduler with
  | .error e => .error e
  | .ok scheduler =>
    let (responses, w) := answerVisits scheduler visits (world s now {})
    .ok (
      [.logging s.logLevel apiName, .tracing apiName s.traceEndpoint, .tables, .databaseTracing,
       .producer s.brokerServers, .producerStarted]
        ++ publishedEntries w ++ .producerStopped :: .databaseReleased :: stopTracing s,
      responses, w.store)

end Service

end PaymentRetry
