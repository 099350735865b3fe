import LineProof.Lib.InsertionMap
import LineProof.Lib.Transactional

/-!
# The enrollment service

Reference: `backend/src/services/enrollmentService.ts`, over the `MemoryAdapter` of `backend/src/storage`.

The adapter hands out the stored arrays and sets themselves, so a change in place is a change of the
store. The listeners on the two events of the service only send webhooks, and their payloads are texts and
flags, so no call throws.
-/

namespace LineProof.Backend

/-- What the service stores, and what it answers with. -/
structure EnrollmentRecord where
  queueId : String
  identity : String
  enrolledAt : String
  conflict : Bool
  cancelled : Bool
deriving DecidableEq

/-- The test `item.queueId === queueId && !item.cancelled` of the service. -/
def EnrollmentRecord.liveIn (queueId : String) (record : EnrollmentRecord) : Bool :=
  record.queueId = queueId ∧ record.cancelled = false

/-- The two namespaces of the adapter. -/
structure EnrollmentStore where
  /-- `enrollments:byIdentity` -/
  nsByIdentity : InsertionMap String (List EnrollmentRecord)
  /-- `enrollments:queueIndex` -/
  nsQueueIndex : InsertionMap String (InsertionSet String)

/-- The store of an empty adapter. -/
def EnrollmentStore.empty : EnrollmentStore := ⟨∅, ∅⟩

/-- The array of an identity, empty if there is none. -/
def byIdentity (identity : String) (store : EnrollmentStore) : List EnrollmentRecord :=
  (store.nsByIdentity.get identity).getD []

/-- The members of a queue, if it has an index entry. -/
def queueSet (queueId : String) (store : EnrollmentStore) : Option (InsertionSet String) :=
  store.nsQueueIndex.get queueId

/-- `enrollIdentity`, where `now` is `new Date().toISOString()`. -/
def enrollIdentity (now queueId identity : String) (store : EnrollmentStore) :
    EnrollmentRecord × EnrollmentStore :=
  let existing := byIdentity identity store
  if existing.any (·.liveIn queueId) then
    ({ queueId, identity, enrolledAt := now, conflict := true, cancelled := false }, store)
  else
    let record : EnrollmentRecord :=
      { queueId, identity, enrolledAt := now, conflict := false, cancelled := false }
    let set := (queueSet queueId store).getD ∅
    (record,
      { nsByIdentity := store.nsByIdentity.set identity (existing ++ [record])
        nsQueueIndex := store.nsQueueIndex.set queueId (set.add identity) })

/-- The records after `record.cancelled = true` on the first live record of the queue, if there is one. -/
def cancelFirst (queueId : String) : List EnrollmentRecord → Option (List EnrollmentRecord)
  | [] => none
  | record :: rest =>
    if record.liveIn queueId then some ({ record with cancelled := true } :: rest)
    else (cancelFirst queueId rest).map (record :: ·)

/-- Answers whether there was something to cancel. -/
def cancelEnrollment (queueId identity : String) (store : EnrollmentStore) :
    Bool × EnrollmentStore :=
  -- an identity without an array has no record to find either
  match cancelFirst queueId (byIdentity identity store) with
  | none => (false, store)
  | some existing =>
    (true,
      { nsByIdentity := store.nsByIdentity.set identity existing
        nsQueueIndex :=
          match queueSet queueId store with
          | some set => store.nsQueueIndex.set queueId (set.delete identity)
          | none => store.nsQueueIndex })

/-- Cancelled records included. -/
def getEnrollmentsByIdentity (identity : String) (store : EnrollmentStore) : List EnrollmentRecord :=
  byIdentity identity store

/-- The live records of the queue's members. -/
def getEnrollmentsByQueue (queueId : String) (store : EnrollmentStore) : List EnrollmentRecord :=
  match queueSet queueId store with
  | none => []
  | some identities =>
    identities.elems.flatMap fun identity => (byIdentity identity store).filter (·.liveIn queueId)

/-- The calls that write. -/
inductive EnrollmentCall
  | enrollIdentity (now queueId identity : String)
  | cancelEnrollment (queueId identity : String)

/-- What a call returns. -/
inductive EnrollmentOutput
  | record (record : EnrollmentRecord)
  | flag (cancelled : Bool)

/-- Runs one call. -/
def EnrollmentCall.exec : EnrollmentCall → EnrollmentStore → EnrollmentOutput × EnrollmentStore
  | .enrollIdentity now queueId identity, store =>
    let out := Backend.enrollIdentity now queueId identity store
    (.record out.1, out.2)
  | .cancelEnrollment queueId identity, store =>
    let out := Backend.cancelEnrollment queueId identity store
    (.flag out.1, out.2)

/-- The service, none of whose calls throws. -/
def enrollmentService :
    Transactional EnrollmentStore EnrollmentCall EnrollmentOutput Empty where
  exec call store := .ok (call.exec store)

end LineProof.Backend
