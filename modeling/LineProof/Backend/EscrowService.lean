import LineProof.Lib.InsertionMap
import LineProof.Sdk.Js

/-!
# The escrow service and its webhooks

Reference: `backend/src/services/escrowService.ts` and `backend/src/services/webhookDispatcher.ts`, over
the `MemoryAdapter` of `backend/src/storage`.

A call returns or throws, and leaves a store in both cases. The emitter runs its listeners inside the call.
The only listeners on its events are those of `startWebhookDispatcher`, which run when the application is
created.
-/

namespace LineProof.Backend

open Sdk

/-! ## The host -/

/-- What a call takes from the runtime. -/
structure Host where
  /-- `Date.now()`, in milliseconds -/
  now : ℤ
  /-- `toISOString` of a valid time -/
  isoString : ℤ → String
  /-- `new Date(text).getTime()`, `none` for `Invalid Date` -/
  parseDate : String → Option ℤ
  randomUUID : String
  /-- a string literal of JSON -/
  quote : String → String
  /-- the hexadecimal digest of an HMAC with SHA-256 -/
  hmacSha256 : (secret body : String) → String

/-- The largest time of a `Date`. -/
def maxTime : ℚ := 8640000000000000

/-- The time value of `new Date(x)`, which is truncated to milliseconds. -/
def timeClip : JsNumber → Option ℤ
  | .finite q => if -maxTime ≤ q ∧ q ≤ maxTime then some (q.num.tdiv q.den) else none
  | _ => none

/-- A value that is made into JSON. -/
inductive JsonValue
  | string (s : String)
  | bigint (z : ℤ)
  | object (fields : List (String × JsonValue))

/-- What a call may throw. -/
inductive ServiceError
  /-- an `Error` with a `status` -/
  | status (message : String) (status : ℕ)
  | js (error : JsError)

variable (H : Host)

mutual

/-- `JSON.stringify`. -/
def stringify : JsonValue → Except JsError String
  | .string s => .ok (H.quote s)
  | .bigint _ => .error .typeError
  | .object fields => do return "\x7b" ++ (← stringifyFields fields) ++ "\x7d"

/-- The members of an object. -/
def stringifyFields : List (String × JsonValue) → Except JsError String
  | [] => .ok ""
  | [(key, value)] => do return H.quote key ++ ":" ++ (← stringify value)
  | (key, value) :: rest => do
    let member ← stringify value
    return H.quote key ++ ":" ++ member ++ "," ++ (← stringifyFields rest)

end

/-! ## Records -/

/-- The status of a record, one of four texts. -/
inductive EscrowStatus
  | active
  | released
  | refunded
  | expired
deriving DecidableEq

/-- The texts of the source. -/
def EscrowStatus.text : EscrowStatus → String
  | .active => "Active"
  | .released => "Released"
  | .refunded => "Refunded"
  | .expired => "Expired"

/-- What the service stores. -/
structure EscrowRecord where
  id : String
  queueId : String
  identity : String
  amount : ℤ
  asset : String
  status : EscrowStatus
  createdAt : String
  expiresAt : String
  releasedAt : Option String
deriving DecidableEq

/-- The record as `JSON.stringify` sees it. -/
def EscrowRecord.json (record : EscrowRecord) : JsonValue :=
  .object <|
    [("id", .string record.id), ("queueId", .string record.queueId),
      ("identity", .string record.identity), ("amount", .bigint record.amount),
      ("asset", .string record.asset), ("status", .string record.status.text),
      ("createdAt", .string record.createdAt), ("expiresAt", .string record.expiresAt)] ++
    (record.releasedAt.map fun t => ("releasedAt", JsonValue.string t)).toList

/-- The namespace `escrow` of the adapter. -/
abbrev EscrowStore := InsertionMap String EscrowRecord

/-! ## Webhooks -/

/-- A registered webhook. What `WebhookConfigSchema` asks of it plays no part in a dispatch. -/
structure WebhookConfig where
  id : String
  url : String
  secret : String
  events : List String
  createdAt : String

/-- The filter of the dispatcher. -/
def WebhookConfig.Matches (wh : WebhookConfig) (type : String) : Prop :=
  type ∈ wh.events ∨ "*" ∈ wh.events

instance (wh : WebhookConfig) (type : String) : Decidable (wh.Matches type) :=
  inferInstanceAs (Decidable (_ ∨ _))

/-- The arguments of `sendWithRetry`, which runs after the call. -/
structure Delivery where
  url : String
  bodyStr : String
  signature : String

/-- The events `startWebhookDispatcher` listens to. -/
def eventTypes : List String :=
  ["queue.created", "queue.status_changed", "queue.advanced", "enrollment.created",
    "enrollment.cancelled", "escrow.deposited", "escrow.released", "escrow.refunded", "escrow.expired"]

/-- One turn of the loop of a listener. -/
def deliver (type : String) (payload : JsonValue) (wh : WebhookConfig) : Except JsError Delivery := do
  let webhookPayload := JsonValue.object
    [("id", .string H.randomUUID), ("event", .string type), ("created", .string (H.isoString H.now)),
      ("data", payload)]
  let bodyStr ← stringify H webhookPayload
  return { url := wh.url, bodyStr, signature := "sha256=" ++ H.hmacSha256 wh.secret bodyStr }

/-- `serviceEmitter.emit(type, payload)`, with the deliveries it starts. -/
def emit (webhooks : List WebhookConfig) (type : String) (payload : JsonValue) :
    Except JsError (List Delivery) :=
  if type ∈ eventTypes then (webhooks.filter (·.Matches type)).mapM (deliver H type payload) else .ok []

/-! ## The service -/

/-- The store a call leaves and what it returns or throws. -/
structure Outcome (α : Type) where
  store : EscrowStore
  result : Except ServiceError α

/-- Write a record, emit its event and return it. -/
def saveAndEmit (webhooks : List WebhookConfig) (store : EscrowStore) (id type : String)
    (record : EscrowRecord) : Outcome EscrowRecord where
  store := store.set id record
  result :=
    match emit H webhooks type record.json with
    | .ok _ => .ok record
    | .error e => .error (.js e)

/-- What `depositEscrow` is given. -/
structure DepositPayload where
  queueId : String
  identity : String
  amount : ℤ
  asset : String
  holdDays : Option JsNumber

/-- The id joins the queue and the identity by a colon. -/
def DepositPayload.id (payload : DepositPayload) : String := payload.queueId ++ ":" ++ payload.identity

/-- `createdAt.getTime() + holdDays * 86400_000`, exact for whole days. -/
def expiryTime (holdDays : Option JsNumber) : JsNumber :=
  match holdDays.getD (.ofNat 30) with
  | .finite q => .finite (H.now + q * 86400000)
  | x => x

variable (webhooks : List WebhookConfig)

/-- Refuses a second record under the same id. -/
def depositEscrow (payload : DepositPayload) (store : EscrowStore) : Outcome EscrowRecord :=
  if (store.get payload.id).isSome then
    ⟨store, .error (.status "Duplicate escrow record" 409)⟩
  else
    match timeClip (expiryTime H payload.holdDays) with
    -- `toISOString` of an invalid date
    | none => ⟨store, .error (.js .rangeError)⟩
    | some expiresAt =>
      saveAndEmit H webhooks store payload.id "escrow.deposited"
        { id := payload.id, queueId := payload.queueId, identity := payload.identity
          amount := payload.amount, asset := payload.asset, status := .active
          createdAt := H.isoString H.now, expiresAt := H.isoString expiresAt, releasedAt := none }

/-- The word for a transition in its error. -/
def EscrowStatus.verb : EscrowStatus → String
  | .released => "release"
  | .refunded => "refund"
  | _ => "expire"

/-- The common part of the three ends: look up, check, write, emit. -/
def transition (escrowId : String) (next : EscrowStatus) (event : String)
    (guard : EscrowRecord → Except ServiceError Unit) (store : EscrowStore) :
    Outcome (Option EscrowRecord) :=
  match store.get escrowId with
  | none => ⟨store, .ok none⟩
  | some record =>
    if record.status ≠ .active then
      ⟨store, .error (.status
        ("Cannot " ++ next.verb ++ " escrow in status: " ++ record.status.text) 409)⟩
    else
      match guard record with
      | .error e => ⟨store, .error e⟩
      | .ok () =>
        -- the record is changed in place, so the store has changed before `set`
        let out := saveAndEmit H webhooks store escrowId event
          { record with status := next, releasedAt := some (H.isoString H.now) }
        ⟨out.store, out.result.map some⟩

/-- Needs no more than an active record. -/
def releaseEscrow (escrowId : String) (store : EscrowStore) : Outcome (Option EscrowRecord) :=
  transition H webhooks escrowId .released "escrow.released" (fun _ => .ok ()) store

/-- Needs no more than an active record. -/
def refundEscrow (escrowId : String) (store : EscrowStore) : Outcome (Option EscrowRecord) :=
  transition H webhooks escrowId .refunded "escrow.refunded" (fun _ => .ok ()) store

/-- `new Date() < new Date(record.expiresAt)`, which is false for an invalid date. -/
def EscrowRecord.notYetExpired (record : EscrowRecord) : Bool :=
  match H.parseDate record.expiresAt with
  | some expiresAt => H.now < expiresAt
  | none => false

/-- Also needs the record's date to be over. -/
def expireEscrow (escrowId : String) (store : EscrowStore) : Outcome (Option EscrowRecord) :=
  transition H webhooks escrowId .expired "escrow.expired"
    (fun record =>
      if record.notYetExpired H then .error (.status "Escrow has not yet expired" 422) else .ok ())
    store

/-- A call of the service. -/
inductive EscrowCall
  | depositEscrow (payload : DepositPayload)
  | releaseEscrow (escrowId : String)
  | refundEscrow (escrowId : String)
  | expireEscrow (escrowId : String)

/-- Runs one call. -/
def EscrowCall.exec (store : EscrowStore) : EscrowCall → Outcome (Option EscrowRecord)
  | .depositEscrow payload =>
    let out := Backend.depositEscrow H webhooks payload store
    ⟨out.store, out.result.map some⟩
  | .releaseEscrow escrowId => Backend.releaseEscrow H webhooks escrowId store
  | .refundEscrow escrowId => Backend.refundEscrow H webhooks escrowId store
  | .expireEscrow escrowId => Backend.expireEscrow H webhooks escrowId store

end LineProof.Backend
