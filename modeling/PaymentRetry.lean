import PaymentRetry.Log.Line
import PaymentRetry.Problem
import PaymentRetry.Proofs.Course.History
import PaymentRetry.Proofs.Workers.Announcing
import PaymentRetry.Proofs.Workers.Charging
import PaymentRetry.Proofs.Workers.Chronology
import PaymentRetry.Proofs.Workers.Draining
import PaymentRetry.Proofs.Workers.Governing
import PaymentRetry.Proofs.Workers.Joining
import PaymentRetry.Proofs.Workers.Listing
import PaymentRetry.Proofs.Workers.Muting
import PaymentRetry.Proofs.Workers.Reckoning
import PaymentRetry.Proofs.Workers.Replaying
import PaymentRetry.Service
import PaymentRetry.Simulation.Masking
import PaymentRetry.Simulation.Session
import PaymentRetry.Proofs.Course.Deciding
import PaymentRetry.Proofs.Course.Reporting
import PaymentRetry.Proofs.Breaker.Calls
import PaymentRetry.Proofs.Number.Storing
import PaymentRetry.Proofs.Trigger.Loops
import PaymentRetry.Proofs.Turns.Certainty
import PaymentRetry.Proofs.Turns.Service
import PaymentRetry.Proofs.Store.Batch
import PaymentRetry.Proofs.Turns.Batching
import PaymentRetry.Proofs.Turns.Answering
import PaymentRetry.Proofs.Api.Reading
import PaymentRetry.Proofs.Breaker.AnyClock
