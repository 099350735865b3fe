import LineProof.Lib.FinmapWeight
import LineProof.Lib.InsertionMap
import LineProof.Lib.Transactional
import LineProof.Lib.Decimals
import LineProof.Lib.Hex
import LineProof.Lib.Radix64
import LineProof.Lib.Tasks
import LineProof.Soroban.Contract
import LineProof.Soroban.Lifetimes
import LineProof.Queue.Fifo
import LineProof.Queue.Capacity
import LineProof.Queue.Positions
import LineProof.Queue.Lifecycle
import LineProof.Queue.SingleEnrollment
import LineProof.Queue.Custody
import LineProof.Queue.Replay
import LineProof.Queue.Accounting
import LineProof.Queue.Expiry
import LineProof.Escrow.Conservation
import LineProof.Escrow.Authority
import LineProof.Escrow.Terminality
import LineProof.Escrow.HoldPeriod
import LineProof.Escrow.Ttl
import LineProof.Escrow.Lifetimes
import LineProof.Escrow.Availability
import LineProof.Enrollment.Count
import LineProof.Enrollment.Waitlist
import LineProof.Enrollment.Finality
import LineProof.Enrollment.Replay
import LineProof.Enrollment.Proofs
import LineProof.Enrollment.Administration
import LineProof.Factory.Deploy
import LineProof.Factory.Registry
import LineProof.Factory.Governance
import LineProof.Identity.Bindings
import LineProof.Identity.Status
import LineProof.Sdk.RoundTrip
import LineProof.Sdk.Signatures
import LineProof.Sdk.Amounts
import LineProof.Sdk.Paging
import LineProof.Sdk.LateSends
import LineProof.Sdk.RetryPolicy
import LineProof.Sdk.SubmissionRetries
import LineProof.Sdk.Reservations
import LineProof.Sdk.Int128
import LineProof.Sdk.Cursors
import LineProof.Sdk.Deployment
import LineProof.Sdk.FactoryRuns
import LineProof.Sdk.Reads
import LineProof.Backend.Indexing
import LineProof.Backend.Atomicity
import LineProof.Backend.EnrollmentIndex
import LineProof.Backend.QueueStats
import LineProof.Backend.EnrollmentService
import LineProof.Backend.QueueService
import LineProof.Backend.QueueLifecycle
import LineProof.Backend.EscrowRoutes
import LineProof.Backend.RateLimiter
import LineProof.Backend.QueueRoutes
import LineProof.Backend.SlugGrammars
import LineProof.Backend.QueuePaging
import LineProof.Soroban.Agreement
import LineProof.Queue.Ttl
import LineProof.Queue.Lifetimes
import LineProof.Backend.EnrollmentContract
import LineProof.Backend.EscrowContract
import LineProof.Backend.Polling
import LineProof.Backend.ServiceEvents
import LineProof.Backend.Webhooks
import LineProof.Backend.WebhookDeliveries
import LineProof.Backend.SharedLimiters
import LineProof.Backend.Metrics
