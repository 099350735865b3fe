import Mathlib.Data.Rat.Floor
import LineProof.Backend.EnrollmentService
import LineProof.Backend.EscrowService

/-!
# The queue service

Reference: `backend/src/services/queueService.ts` and `backend/src/schemas/queueStatus.ts`, with the schema
of the public statistics, `backend/src/schemas/publicQueue.ts`.

A call throws before it changes anything. Counts are integers, and the listeners on the events of the
service only send webhooks.
-/

namespace LineProof.Backend

/-! ## Statuses -/

/-- The lifecycle of a queue, in its order. -/
inductive QueueStatus
  | draft
  | enrollmentOpen
  | enrollmentClosed
  | advancementActive
  | closed
deriving DecidableEq

/-- The texts of the source. -/
def QueueStatus.text : QueueStatus → String
  | .draft => "Draft"
  | .enrollmentOpen => "EnrollmentOpen"
  | .enrollmentClosed => "EnrollmentClosed"
  | .advancementActive => "AdvancementActive"
  | .closed => "Closed"

/-- `VALID_TRANSITIONS`. -/
def validTransitions : QueueStatus → List QueueStatus
  | .draft => [.enrollmentOpen, .closed]
  | .enrollmentOpen => [.enrollmentClosed, .closed]
  | .enrollmentClosed => [.advancementActive, .closed]
  | .advancementActive => [.closed]
  | .closed => []

/-- The message of the error is the failure. -/
def transitionQueueStatus (current next : QueueStatus) : Except String Unit :=
  if current = next then .ok ()
  else if next ∈ validTransitions current then .ok ()
  else .error ("Invalid status transition from " ++ current.text ++ " to " ++ next.text)

/-! ## Queues -/

/-- How positions are to be served; nothing here reads it. -/
inductive AdvancementRule
  | fifo
  | priority
  | verifiableRandomness
deriving DecidableEq

/-- What the service stores. -/
structure Queue where
  id : String
  name : String
  slug : String
  description : String
  maxPositions : ℤ
  enrolled : ℤ
  advanced : ℤ
  status : QueueStatus
  advancementRule : AdvancementRule
  escrowAsset : String
  escrowAmount : ℤ
  createdAt : String
deriving DecidableEq

/-- The adapter, with the namespace `queues` and those of the enrollment service. -/
structure ServiceState where
  queues : InsertionMap String Queue
  enrollments : EnrollmentStore

/-- `DEFAULT_FIXTURES`, the queues of a new service. -/
def defaultFixtures (H : Host) : List Queue :=
  [{ id := "sneaker-drop-001", name := "Sneaker Drop #001", slug := "sneaker-drop-001"
     description := "Limited-edition sneaker release with non-transferable queue positions and escrow hold."
     maxPositions := 250, enrolled := 187, advanced := 0, status := .enrollmentOpen
     advancementRule := .fifo, escrowAsset := "USDC", escrowAmount := 150
     createdAt := H.isoString (H.now - 86400000 * 3) },
   { id := "visa-appointment-001", name := "Visa Appointment Batch A", slug := "visa-appointment-001"
     description := "Deterministic FIFO queue for scheduled visa interviews."
     maxPositions := 120, enrolled := 120, advanced := 120, status := .closed
     advancementRule := .fifo, escrowAsset := "XLM", escrowAmount := 25
     createdAt := H.isoString (H.now - 86400000 * 14) }]

/-- The loop of `createQueueService` over its fixtures. -/
def createQueueService (fixtures : List Queue) (store : InsertionMap String Queue) :
    InsertionMap String Queue :=
  fixtures.foldl
    (fun store queue => if (store.get queue.id).isNone then store.set queue.id queue else store) store

/-- The state of a service that starts on an empty adapter. -/
def ServiceState.initial (H : Host) : ServiceState := ⟨createQueueService (defaultFixtures H) ∅, .empty⟩

/-- In the order of their first insertion. -/
def listQueues (s : ServiceState) : List Queue := s.queues.values

/-- The first queue whose id or slug is the given one. -/
def getQueueById (id : String) (s : ServiceState) : Option Queue :=
  (listQueues s).find? fun queue => queue.id = id ∨ queue.slug = id

/-- `store.set(NS, queue.id, queue)`. -/
def ServiceState.saveQueue (s : ServiceState) (queue : Queue) : ServiceState :=
  { s with queues := s.queues.set queue.id queue }

/-- Writes the status if the table allows it. -/
def persistTransition (queue : Queue) (next : QueueStatus) (s : ServiceState) :
    Except ServiceError (Queue × ServiceState) :=
  match transitionQueueStatus queue.status next with
  | .error message => .error (.status message 409)
  | .ok () =>
    let queue := { queue with status := next }
    .ok (queue, s.saveQueue queue)

/-- `closeQueue`, `openEnrollment` and `closeEnrollment` differ in the status they ask for. -/
def moveTo (next : QueueStatus) (id : String) (s : ServiceState) :
    Except ServiceError (Option Queue × ServiceState) :=
  match getQueueById id s with
  | none => .ok (none, s)
  | some queue => do
    let (queue, s) ← persistTransition queue next s
    return (some queue, s)

/-- A move along the table. -/
def closeQueue (id : String) (s : ServiceState) : Except ServiceError (Option Queue × ServiceState) :=
  moveTo .closed id s

/-- A move along the table. -/
def openEnrollment (id : String) (s : ServiceState) :
    Except ServiceError (Option Queue × ServiceState) :=
  moveTo .enrollmentOpen id s

/-- A move along the table. -/
def closeEnrollment (id : String) (s : ServiceState) :
    Except ServiceError (Option Queue × ServiceState) :=
  moveTo .enrollmentClosed id s

/-- A move along the table, then the counters of the batch. -/
def advanceQueue (id : String) (batchSize : ℤ) (s : ServiceState) :
    Except ServiceError (Option Queue × ServiceState) :=
  match getQueueById id s with
  | none => .ok (none, s)
  | some queue => do
    let (queue, s) ← persistTransition queue .advancementActive s
    let toAdvance := min batchSize (queue.enrolled - queue.advanced)
    let queue := { queue with advanced := queue.advanced + max 0 toAdvance }
    return (some queue, s.saveQueue queue)

/-- The payload of `createQueue`, which does not read `escrowRequired`. -/
structure CreatePayload where
  name : String
  slug : String
  maxPositions : ℤ
  advancementRule : Option AdvancementRule
  description : Option String

/-- Refuses an id or slug that is taken. -/
def createQueue (createdAt : String) (payload : CreatePayload) (s : ServiceState) :
    Except ServiceError (Queue × ServiceState) :=
  if (listQueues s).any fun q => q.slug = payload.slug ∨ q.id = payload.slug then
    .error (.status ("Queue with slug \"" ++ payload.slug ++ "\" already exists") 409)
  else
    let queue : Queue :=
      { id := payload.slug, name := payload.name, slug := payload.slug
        description := payload.description.getD "New queue", maxPositions := payload.maxPositions
        enrolled := 0, advanced := 0, status := .draft
        advancementRule := payload.advancementRule.getD .fifo
        escrowAsset := "XLM", escrowAmount := 0, createdAt }
    .ok (queue, s.saveQueue queue)

/-! ## Statistics -/

/-- The rounding of a rational to a double. -/
structure Doubles where
  round : ℚ → ℚ
  mono : Monotone round
  exact : ∀ n : ℕ, n ≤ 2 ^ 53 → round n = n

instance : Inhabited Doubles := ⟨id, monotone_id, fun _ _ => rfl⟩

/-- What the stats route answers with. -/
structure QueueStats where
  queueId : String
  total : ℤ
  advanced : ℤ
  remaining : ℤ
  percentAdvanced : ℤ
deriving DecidableEq

section Stats

variable (D : Doubles)

/-- `Math.round((a / b) * 100)`. -/
def percent (a b : ℤ) : ℤ := ⌊D.round (D.round (a / b) * 100) + 1 / 2⌋

/-- The total is the number of live enrollments, or the queue's own counter while there are none. -/
def getQueueStats (id : String) (s : ServiceState) : Option QueueStats :=
  match getQueueById id s with
  | none => none
  | some queue =>
    let activeEnrollments : ℤ := (getEnrollmentsByQueue queue.id s.enrollments).length
    let activeEnrolled := if 0 < activeEnrollments then activeEnrollments else queue.enrolled
    some
      { queueId := queue.id, total := activeEnrolled, advanced := queue.advanced
        remaining := activeEnrolled - queue.advanced
        percentAdvanced :=
          if 0 < activeEnrolled then percent D queue.advanced activeEnrolled else 0 }

end Stats

/-- `PublicQueueStatsSchema`, whose fields are all integers here. -/
structure PublicQueueStatsSchema (stats : QueueStats) : Prop where
  total : 0 ≤ stats.total
  advanced : 0 ≤ stats.advanced
  remaining : 0 ≤ stats.remaining
  percentAdvanced : 0 ≤ stats.percentAdvanced ∧ stats.percentAdvanced ≤ 100

/-! ## The calls -/

/-- The calls of the two services. -/
inductive ServiceCall
  | createQueue (createdAt : String) (payload : CreatePayload)
  | openEnrollment (id : String)
  | closeEnrollment (id : String)
  | advanceQueue (id : String) (batchSize : ℤ)
  | closeQueue (id : String)
  | enrollment (call : EnrollmentCall)

/-- What a call returns. -/
inductive ServiceOutput
  | queue (queue : Option Queue)
  | enrollment (out : EnrollmentOutput)

/-- Runs one call. -/
def ServiceCall.exec (s : ServiceState) : ServiceCall → Except ServiceError (ServiceOutput × ServiceState)
  | .createQueue createdAt payload => do
    let (queue, s) ← Backend.createQueue createdAt payload s
    return (.queue (some queue), s)
  | .openEnrollment id => do
    let (queue, s) ← Backend.openEnrollment id s
    return (.queue queue, s)
  | .closeEnrollment id => do
    let (queue, s) ← Backend.closeEnrollment id s
    return (.queue queue, s)
  | .advanceQueue id batchSize => do
    let (queue, s) ← Backend.advanceQueue id batchSize s
    return (.queue queue, s)
  | .closeQueue id => do
    let (queue, s) ← Backend.closeQueue id s
    return (.queue queue, s)
  | .enrollment call =>
    let out := call.exec s.enrollments
    .ok (.enrollment out.1, { s with enrollments := out.2 })

/-- The queue service with the enrollment service. -/
def services : Transactional ServiceState ServiceCall ServiceOutput ServiceError where
  exec call s := call.exec s

end LineProof.Backend
