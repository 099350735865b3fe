import LineProof.Backend.QueueService
import LineProof.Backend.Requests
import LineProof.Lib.Radix64
import LineProof.Sdk.Slugs

/-!
# The queue routes

Reference: `backend/src/routes/queues.ts`, with `backend/src/schemas/slug.ts`.

The routes that change a queue check the request and call the queue service. `GET /` lists the queues page
by page; its cursor is the slug of the last queue of a page, in base64.
-/

namespace LineProof.Backend

open Sdk

/-! ## Schemas -/

/-- `SLUG_PATTERN` of the routes, `/^[a-z0-9]+(?:-[a-z0-9]+)*$/`. -/
def slugPattern (slug : String) : Bool := isHyphenated slug.toList

/-- The field `slug` of `CreateQueueSchema`. -/
def isCreateSlug (slug : String) : Bool :=
  1 ≤ utf16Length slug ∧ utf16Length slug ≤ 64 ∧ slugPattern slug = true

/-- `z.enum(['FIFO', 'Priority', 'VerifiableRandomness'])`. -/
def asAdvancementRule : JsValue → Option AdvancementRule
  | .string "FIFO" => some .fifo
  | .string "Priority" => some .priority
  | .string "VerifiableRandomness" => some .verifiableRandomness
  | _ => none

/-- `CreateQueueSchema.safeParse`. -/
def CreateQueueSchema (body : JsonObject) : Option CreatePayload := do
  let name ← stringField "name" body
  let slug ← stringField "slug" body
  let maxPositions ← (body.get "maxPositions").bind asPositiveInt
  let advancementRule ← optionalField asAdvancementRule "advancementRule" body
  let _ ← optionalField asBoolean "escrowRequired" body
  let description ← optionalField asText "description" body
  guard (1 ≤ utf16Length name ∧ utf16Length name ≤ 120 ∧ isCreateSlug slug ∧
    (∀ text ∈ description, utf16Length text ≤ 500) ∧
    hasOnly ["name", "slug", "maxPositions", "advancementRule", "escrowRequired", "description"] body)
  return { name, slug, maxPositions, advancementRule, description }

/-- `AdvanceSchema.safeParse`, the value of `batchSize`. -/
def AdvanceSchema (body : JsonObject) : Option (Option ℤ) := do
  let batchSize ← optionalField asPositiveInt "batchSize" body
  guard ((∀ n ∈ batchSize, n ≤ 1000) ∧ hasOnly ["batchSize"] body)
  return batchSize

/-- `SlugSchema.safeParse` accepts the id. -/
def SlugSchema (id : String) : Bool :=
  1 ≤ utf16Length id ∧ utf16Length id ≤ 120 ∧ id.toList.all fun c => isWordChar c ∨ c = '-'

/-- `QueueStatus` of a text. -/
def asQueueStatus : JsValue → Option QueueStatus
  | .string "Draft" => some .draft
  | .string "EnrollmentOpen" => some .enrollmentOpen
  | .string "EnrollmentClosed" => some .enrollmentClosed
  | .string "AdvancementActive" => some .advancementActive
  | .string "Closed" => some .closed
  | _ => none

/-- The data of a query for `GET /`. -/
structure GetQueuesQuery where
  status : Option QueueStatus
  limit : ℕ
  cursor : Option String
  limit_pos : 1 ≤ limit
  limit_le : limit ≤ 100

/-- `Number(val)` and the decoder of `toString('utf8')`. -/
structure QueryRuntime where
  number : JsValue → JsNumber
  decodeUtf8 : List UInt8 → String
  /-- UTF-8 is decoded to the text it encodes -/
  decode_encode : ∀ s : String, decodeUtf8 s.toUTF8.data.toList = s

instance : Inhabited QueryRuntime where
  default :=
    { number := fun _ => .nan
      decodeUtf8 := fun bytes => (String.fromUTF8? ⟨bytes.toArray⟩).getD "\uFFFD"
      decode_encode := by
        intro s
        simp only [String.fromUTF8?, String.toUTF8_eq_toByteArray, dif_pos s.isValidUTF8]
        rfl }

section Routes

variable (R : QueryRuntime)

/-- The field `limit`, with its default. -/
def limitField (query : JsonObject) : Option {n : ℕ // 1 ≤ n ∧ n ≤ 100} :=
  match query.get "limit" with
  | none | some .undefined => some ⟨20, by decide⟩
  | some value =>
    match R.number value with
    | .finite q =>
      if h : q.den = 1 ∧ 1 ≤ q.num.toNat ∧ q.num.toNat ≤ 100 then some ⟨q.num.toNat, h.2⟩ else none
    | _ => none

/-- `GetQueuesQuerySchema.safeParse`. -/
def GetQueuesQuerySchema (query : JsonObject) : Option GetQueuesQuery := do
  let status ← optionalField asQueueStatus "status" query
  let limit ← limitField R query
  let cursor ← optionalField asText "cursor" query
  guard (hasOnly ["status", "limit", "cursor"] query)
  return { status, limit := limit.1, cursor, limit_pos := limit.2.1, limit_le := limit.2.2 }

/-! ## Routes -/

/-- `Buffer.from(text).toString('base64')`. -/
def toBase64 (text : String) : String := String.ofList (Radix64.encode text.toUTF8.data.toList)

/-- `Buffer.from(text, 'base64').toString('utf8')`, which throws on no text. -/
def fromBase64 (text : String) : String := R.decodeUtf8 (Radix64.lenient text.toList)

/-- What `GET /api/queues` answers with. -/
structure QueuePage where
  items : List Queue
  nextCursor : Option String
  total : ℕ

/-- The queues of the requested status. -/
def filterQueues (status : Option QueueStatus) (queues : List Queue) : List Queue :=
  match status with
  | some status => queues.filter fun q => q.status = status
  | none => queues

/-- Where the page after a cursor starts. -/
def startIndex (cursor : Option String) (filtered : List Queue) : Except ServiceError ℕ :=
  match cursor with
  | none | some "" => .ok 0
  | some cursor =>
    match filtered.findIdx? fun q => q.slug = fromBase64 R cursor with
    | none => .error (.status "Invalid cursor: slug not found" 400)
    | some index => .ok (index + 1)

/-- `GET /`. -/
def getQueues (query : JsonObject) (s : ServiceState) : Except ServiceError QueuePage :=
  match GetQueuesQuerySchema R query with
  | none => .error (.status "Invalid query parameters" 400)
  | some data => do
    let filtered := filterQueues data.status (listQueues s)
    let total := filtered.length
    let start ← startIndex R data.cursor filtered
    let paginated := (filtered.drop start).take data.limit
    let nextCursor :=
      match paginated.getLast? with
      | none => none
      | some lastItem =>
        let lastIndex := filtered.findIdx fun q => q.slug = lastItem.slug
        if lastIndex + 1 < total then some (toBase64 lastItem.slug) else none
    return { items := paginated, nextCursor, total }

end Routes

/-- A request that may change a queue. -/
inductive QueueRequest
  | create (body : JsonObject)
  | advance (id : String) (body : JsonObject)
  | close (id : String)
  | openEnrollment (id : String)
  | closeEnrollment (id : String)

/-- A service call that may find no queue. -/
def answerQueue (out : Except ServiceError (Option Queue × ServiceState)) :
    Except ServiceError (Queue × ServiceState) :=
  match out with
  | .ok (some queue, s) => .ok (queue, s)
  | .ok (none, _) => .error (.status "Queue not found" 404)
  | .error e => .error e

/-- `/:id/close`, `/:id/open-enrollment` and `/:id/close-enrollment` differ in the call of the service. -/
def postTransition (action : String → ServiceState → Except ServiceError (Option Queue × ServiceState))
    (id : String) (s : ServiceState) : Except ServiceError (Queue × ServiceState) :=
  if SlugSchema id then answerQueue (action id s)
  else .error (.status "Invalid queue ID format" 400)

/-- The routes, at a time with the text `now`. -/
def QueueRequest.exec (now : String) (s : ServiceState) :
    QueueRequest → Except ServiceError (Queue × ServiceState)
  | .create body =>
    match CreateQueueSchema body with
    | none => .error (.status "Invalid request" 400)
    | some payload => createQueue now payload s
  | .advance id body =>
    if SlugSchema id then
      match AdvanceSchema body with
      | none => .error (.status "Invalid request" 400)
      | some batchSize => answerQueue (advanceQueue id (batchSize.getD 10) s)
    else .error (.status "Invalid queue ID format" 400)
  | .close id => postTransition closeQueue id s
  | .openEnrollment id => postTransition Backend.openEnrollment id s
  | .closeEnrollment id => postTransition Backend.closeEnrollment id s

/-- The router. A request comes with the text of its time. -/
def queueRouter : Transactional ServiceState (String × QueueRequest) Queue ServiceError where
  exec request s := request.2.exec request.1 s

end LineProof.Backend
