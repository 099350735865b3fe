import LineProof.Backend.EscrowService
import LineProof.Backend.Requests
import LineProof.Sdk.Amounts

/-!
# The escrow routes

Reference: `backend/src/routes/escrow.ts`, with `backend/src/middleware/validateStellarAddress.ts`. The
amount of a deposit is read by `toStroops` of the SDK.

The id of a record joins its queue and its identity with a colon, and the routes that close it take an id
with exactly one colon. So a record can be closed exactly if there is no colon in the id of its queue
(`addressable_iff`).

A request has a body that is a JSON object; the schemas refuse any other body. Of an error a response
keeps the message and the status.
-/

namespace LineProof.Backend

open Sdk

/-! ## Requests -/

/-- `/[A-Z2-7]/`. -/
def isBase32 (c : Char) : Bool := ('A' ≤ c ∧ c ≤ 'Z') ∨ ('2' ≤ c ∧ c ≤ '7')

/-- `/^G[A-Z2-7]{55}$/`. -/
def isStellarAddress (s : String) : Bool :=
  match s.toList with
  | 'G' :: cs => cs.length = 55 ∧ cs.all isBase32
  | _ => false

/-- `/^\d+(?:\.\d{1,7})?$/`. -/
def isAmount (s : String) : Bool :=
  match s.toList.span Char.isDigit with
  | (whole, []) => whole ≠ []
  | (whole, '.' :: frac) => whole ≠ [] ∧ frac ≠ [] ∧ frac.length ≤ 7 ∧ frac.all Char.isDigit
  | _ => false

/-- `z.number().int().positive().optional()`, `none` if the field is not of this kind. -/
def holdDaysField (body : JsonObject) : Option (Option JsNumber) :=
  match body.get "holdDays" with
  | none | some .undefined => some none
  | some (.number (.finite q)) => if q.den = 1 ∧ 0 < q then some (some (.finite q)) else none
  | some _ => none

/-- The body of a deposit, as the schema leaves it. -/
structure DepositInput where
  queueId : String
  identity : String
  amount : String
  asset : String
  holdDays : Option JsNumber

/-- `DepositSchema.safeParse`. -/
def DepositSchema (body : JsonObject) : Option DepositInput := do
  let queueId ← stringField "queueId" body
  let identity ← stringField "identity" body
  let amount ← stringField "amount" body
  let asset ← stringField "asset" body
  let holdDays ← holdDaysField body
  guard (queueId ≠ "" ∧ isStellarAddress identity ∧ isAmount amount ∧ asset ≠ "" ∧
    hasOnly ["queueId", "identity", "amount", "asset", "holdDays"] body)
  return { queueId, identity, amount, asset, holdDays }

/-- The refinement of `escrowId`. -/
def isEscrowId (value : String) : Bool :=
  match value.toList.splitOn ':' with
  | [_, identity] => isStellarAddress (String.ofList identity)
  | _ => false

/-- `EscrowActionSchema.safeParse`. -/
def EscrowActionSchema (body : JsonObject) : Option String := do
  let escrowId ← stringField "escrowId" body
  guard (escrowId ≠ "" ∧ isEscrowId escrowId ∧ hasOnly ["escrowId"] body)
  return escrowId

/-! ## Routes -/

section Routes

variable (J : Conversions) (H : Host) (webhooks : List WebhookConfig)

/-- The middleware `validateStellarAddress`: the field that it refuses. -/
def validateStellarAddress (fields : List String) (body : JsonObject) : Option String :=
  fields.find? fun field =>
    match body.get field with
    | none | some .undefined => false
    | some (.string s) => !isStellarAddress s
    | some _ => true

/-- An answer of status 400 that touches nothing. -/
def validationError (message : String) (store : EscrowStore) : Outcome EscrowRecord :=
  ⟨store, .error (.status message 400)⟩

/-- `POST /deposit`: the address middleware, the schema, then the service. -/
def postDeposit (body : JsonObject) (store : EscrowStore) : Outcome EscrowRecord :=
  match validateStellarAddress ["identity"] body with
  | some field =>
    validationError ("Invalid Stellar address for field \"" ++ field ++
      "\". Must be a 56-character G-prefixed key.") store
  | none =>
    match DepositSchema body with
    | none => validationError "Invalid request" store
    | some data =>
      match toStroops J (.string data.amount) with
      | .error _ => validationError "Invalid amount format or value" store
      | .ok amount =>
        if amount = 0 ∨ 2 ^ 127 - 1 < amount then
          validationError "Amount is outside the positive i128 range" store
        else
          depositEscrow H webhooks
            { queueId := data.queueId, identity := data.identity, amount, asset := data.asset
              holdDays := data.holdDays } store

/-- What a route answers to the outcome of its call of the service. -/
def answer (out : Outcome (Option EscrowRecord)) : Outcome EscrowRecord where
  store := out.store
  result :=
    match out.result with
    | .ok (some updated) => .ok updated
    | .ok none => .error (.status "Escrow not found" 404)
    | .error e => .error e

/-- `/release`, `/refund` and `/expire` differ in the call of the service. -/
def postAction (action : String → EscrowStore → Outcome (Option EscrowRecord)) (body : JsonObject)
    (store : EscrowStore) : Outcome EscrowRecord :=
  match EscrowActionSchema body with
  | none => validationError "Invalid request" store
  | some escrowId => answer (action escrowId store)

/-- `POST /release`. -/
def postRelease (body : JsonObject) (store : EscrowStore) : Outcome EscrowRecord :=
  postAction (releaseEscrow H webhooks) body store

/-- `POST /refund`. -/
def postRefund (body : JsonObject) (store : EscrowStore) : Outcome EscrowRecord :=
  postAction (refundEscrow H webhooks) body store

/-- `POST /expire`. -/
def postExpire (body : JsonObject) (store : EscrowStore) : Outcome EscrowRecord :=
  postAction (expireEscrow H webhooks) body store

end Routes

/-! ## Addressing a record -/

/-- The body that asks for the escrow `id`. -/
def actionBody (id : String) : JsonObject := (∅ : JsonObject).set "escrowId" (.string id)

/-- The routes that close an escrow take the id of the record, and it selects this record. -/
structure Addressable (H : Host) (webhooks : List WebhookConfig) (store : EscrowStore)
    (record : EscrowRecord) : Prop where
  selects : store.get record.id = some record
  release : postRelease H webhooks (actionBody record.id) store =
    answer (releaseEscrow H webhooks record.id store)
  refund : postRefund H webhooks (actionBody record.id) store =
    answer (refundEscrow H webhooks record.id store)
  expire : postExpire H webhooks (actionBody record.id) store =
    answer (expireEscrow H webhooks record.id store)

/-- The deposit leaves a new record. -/
structure Creates (J : Conversions) (H : Host) (webhooks : List WebhookConfig) (body : JsonObject)
    (store : EscrowStore) (record : EscrowRecord) : Prop where
  new : store.get record.id = none
  stored : (postDeposit J H webhooks body store).store.get record.id = some record

variable {J : Conversions} {H : Host} {webhooks : List WebhookConfig} {body : JsonObject}
  {store : EscrowStore} {record : EscrowRecord} {id : String}

/-! ### Ids -/

/-- An address has no colon. -/
theorem notMem_of_isStellarAddress {s : String} (h : isStellarAddress s = true) : ':' ∉ s.toList := by
  unfold isStellarAddress at h
  split at h
  · case _ cs heq =>
    obtain ⟨-, hall⟩ : cs.length = 55 ∧ cs.all isBase32 = true := by simpa using h
    rw [heq, List.mem_cons, not_or]
    refine ⟨by decide, fun hmem => ?_⟩
    have hcolon := List.all_eq_true.mp hall ':' hmem
    exact absurd hcolon (by decide)
  · contradiction

/-- An address has 56 characters. -/
theorem length_of_isStellarAddress {s : String} (h : isStellarAddress s = true) :
    s.toList.length = 56 := by
  unfold isStellarAddress at h
  split at h
  · case _ cs heq =>
    obtain ⟨hlength, -⟩ : cs.length = 55 ∧ cs.all isBase32 = true := by simpa using h
    rw [heq, List.length_cons, hlength]
  · contradiction

/-- The parts of a text are one more than its separators. -/
theorem splitOn_eq_singleton_iff (c : Char) (cs : List Char) :
    (∃ part, cs.splitOn c = [part]) ↔ c ∉ cs := by
  constructor
  · rintro ⟨part, hpart⟩ hmem
    obtain ⟨before, after, rfl⟩ := List.append_of_mem hmem
    rw [List.splitOn_append_cons_self] at hpart
    have hlength := congrArg List.length hpart
    have hbefore := List.length_pos_iff.mpr (List.splitOn_ne_nil c before)
    have hafter := List.length_pos_iff.mpr (List.splitOn_ne_nil c after)
    rw [List.length_append, List.length_singleton] at hlength
    omega
  · intro hnot
    exact ⟨cs, List.splitOn_eq_singleton hnot⟩

/-- The id of an identity in a queue is accepted exactly if the queue has no colon. -/
theorem isEscrowId_iff {queueId identity : String} (h : isStellarAddress identity = true) :
    isEscrowId (queueId ++ ":" ++ identity) = true ↔ ':' ∉ queueId.toList := by
  have hsplit : (queueId ++ ":" ++ identity).toList.splitOn ':' =
      queueId.toList.splitOn ':' ++ [identity.toList] := by
    have hcolon : (":" : String).toList = [':'] := rfl
    rw [String.toList_append, String.toList_append, hcolon, List.append_assoc, List.singleton_append,
      List.splitOn_append_cons_self, List.splitOn_eq_singleton (notMem_of_isStellarAddress h)]
  rw [isEscrowId, hsplit, ← splitOn_eq_singleton_iff]
  rcases hparts : queueId.toList.splitOn ':' with _ | ⟨part, _ | ⟨part', parts⟩⟩
  · exact absurd hparts (List.splitOn_ne_nil _ _)
  · simp [h]
  · cases parts <;> simp

/-! ### Deposits -/

/-- The schema lets only addresses through. -/
theorem isStellarAddress_of_depositSchema {data : DepositInput} (h : DepositSchema body = some data) :
    isStellarAddress data.identity = true := by
  simp only [DepositSchema, Option.bind_eq_bind, Option.bind_eq_some_iff] at h
  obtain ⟨queueId, -, identity, -, amount, -, asset, -, holdDays, -, _, hguard, hdata⟩ := h
  obtain rfl := Option.some.inj hdata
  by_contra hnot
  simp [guard, hnot] at hguard

/-- The record a deposit of `data` leaves. -/
structure Deposited (data : DepositInput) (record : EscrowRecord) : Prop where
  queueId : record.queueId = data.queueId
  identity : record.identity = data.identity
  id : record.id = data.queueId ++ ":" ++ data.identity
  active : record.status = .active

/-- A deposit fails and leaves the store alone, or it saves a new record and emits its event. -/
theorem postDeposit_cases (J : Conversions) (H : Host) (webhooks : List WebhookConfig)
    (body : JsonObject) (store : EscrowStore) :
    (∃ e, postDeposit J H webhooks body store = ⟨store, .error e⟩) ∨
      ∃ data record, DepositSchema body = some data ∧ Deposited data record ∧
        store.get record.id = none ∧ postDeposit J H webhooks body store =
          saveAndEmit H webhooks store record.id "escrow.deposited" record := by
  unfold postDeposit
  split
  · exact .inl ⟨_, rfl⟩
  split
  · exact .inl ⟨_, rfl⟩
  case _ data hdata =>
  split
  · exact .inl ⟨_, rfl⟩
  case _ amount _ =>
  split
  · exact .inl ⟨_, rfl⟩
  unfold depositEscrow
  split
  · exact .inl ⟨_, rfl⟩
  case _ hnew =>
  split
  · exact .inl ⟨_, rfl⟩
  case _ expiresAt _ =>
  let record : EscrowRecord :=
    { id := data.queueId ++ ":" ++ data.identity, queueId := data.queueId, identity := data.identity
      amount, asset := data.asset, status := .active, createdAt := H.isoString H.now
      expiresAt := H.isoString expiresAt, releasedAt := none }
  exact .inr ⟨data, record, hdata, ⟨rfl, rfl, rfl, rfl⟩, Option.not_isSome_iff_eq_none.mp hnew, rfl⟩

/-- A deposit that is accepted creates the record it returns. -/
theorem creates_of_ok (h : (postDeposit J H webhooks body store).result = .ok record) :
    Creates J H webhooks body store record := by
  rcases postDeposit_cases J H webhooks body store with ⟨e, hfails⟩ |
    ⟨data, record', -, -, hnew, hsaves⟩
  · rw [hfails] at h
    cases h
  · have hrecord : record' = record := by
      rw [hsaves, saveAndEmit] at h
      split at h
      · exact Except.ok.inj h
      · cases h
    subst hrecord
    refine ⟨hnew, ?_⟩
    rw [hsaves, saveAndEmit, InsertionMap.get_set_self]

/-- A created record has the fields of the request. -/
theorem Creates.deposited (h : Creates J H webhooks body store record) :
    ∃ data, DepositSchema body = some data ∧ Deposited data record := by
  have hstored := h.stored
  rcases postDeposit_cases J H webhooks body store with ⟨e, hfails⟩ |
    ⟨data, record', hdata, hrecord', -, hsaves⟩
  · rw [hfails, h.new] at hstored
    cases hstored
  · rw [hsaves, saveAndEmit] at hstored
    by_cases hid : record.id = record'.id
    · rw [hid, InsertionMap.get_set_self, Option.some.injEq] at hstored
      subst hstored
      exact ⟨data, hdata, hrecord'⟩
    · rw [InsertionMap.get_set_of_ne hid, h.new] at hstored
      cases hstored

/-! ### Actions -/

/-- The schema of the three actions, on a body that has an id only. -/
theorem escrowActionSchema_actionBody (id : String) :
    EscrowActionSchema (actionBody id) = if id ≠ "" ∧ isEscrowId id = true then some id else none := by
  have hfield : stringField "escrowId" (actionBody id) = some id := by
    rw [stringField, actionBody, InsertionMap.get_set_self]
  have hkeys : hasOnly ["escrowId"] (actionBody id) = true := rfl
  rw [EscrowActionSchema, hfield, hkeys]
  by_cases h : id ≠ "" ∧ isEscrowId id = true <;> simp [guard, h]

/-- An accepted id reaches the service. -/
theorem postAction_accepted {action : String → EscrowStore → Outcome (Option EscrowRecord)}
    (hne : id ≠ "") (h : isEscrowId id = true) :
    postAction action (actionBody id) store = answer (action id store) := by
  rw [postAction, escrowActionSchema_actionBody, if_pos ⟨hne, h⟩]

/-- A refused id changes nothing. -/
theorem postAction_refused {action : String → EscrowStore → Outcome (Option EscrowRecord)}
    (h : isEscrowId id = false) :
    postAction action (actionBody id) store = validationError "Invalid request" store := by
  rw [postAction, escrowActionSchema_actionBody, if_neg (by simp [h])]

/-- The service releases an active escrow, also when a webhook makes it throw. -/
theorem releaseEscrow_get (hget : store.get id = some record) (hactive : record.status = .active) :
    (releaseEscrow H webhooks id store).store.get id =
      some { record with status := .released, releasedAt := some (H.isoString H.now) } := by
  simp only [releaseEscrow, transition, hget, hactive, ne_eq, not_true_eq_false, if_false, saveAndEmit,
    InsertionMap.get_set_self]

/-- An active record can be reached by the routes where the schema accepts its id. -/
theorem addressable_of (hget : store.get record.id = some record) (hactive : record.status = .active)
    (hne : record.id ≠ "") : Addressable H webhooks store record ↔ isEscrowId record.id = true := by
  constructor
  · intro h
    by_contra hrefused
    have hsame : validationError "Invalid request" store =
        answer (releaseEscrow H webhooks record.id store) := by
      rw [← h.release, postRelease, postAction_refused (Bool.eq_false_iff.mpr hrefused)]
    have hstore : (releaseEscrow H webhooks record.id store).store = store :=
      (congrArg Outcome.store hsame).symm
    have hrelease : (releaseEscrow H webhooks record.id store).store.get record.id =
        some { record with status := .released, releasedAt := some (H.isoString H.now) } :=
      releaseEscrow_get hget hactive
    rw [hstore, hget, Option.some.injEq] at hrelease
    have hstatus := congrArg EscrowRecord.status hrelease
    rw [hactive] at hstatus
    cases hstatus
  · intro h
    exact ⟨hget, postAction_accepted hne h, postAction_accepted hne h, postAction_accepted hne h⟩

/-! ## Every deposit -/

/-- Two texts that end in the same address after a colon are equal. -/
theorem id_injective {q q' u u' : String} (hu : isStellarAddress u = true)
    (hu' : isStellarAddress u' = true) (h : q ++ ":" ++ u = q' ++ ":" ++ u') : q = q' ∧ u = u' := by
  have hlist := congrArg String.toList h
  simp only [String.toList_append] at hlist
  have hlength : u.toList.length = u'.toList.length := by
    rw [length_of_isStellarAddress hu, length_of_isStellarAddress hu']
  obtain ⟨hfront, hback⟩ := List.append_inj' hlist hlength
  exact ⟨String.toList_inj.mp (List.append_inj' hfront rfl).1, String.toList_inj.mp hback⟩

/-- A deposit can be addressed by its id exactly if there is no colon in the id of its queue, and deposits
with the same id are for the same queue and identity. -/
theorem addressable_iff (J : Conversions) (H : Host) (webhooks : List WebhookConfig)
    (body : JsonObject) (store : EscrowStore) (record : EscrowRecord)
    (h : Creates J H webhooks body store record) :
    (Addressable H webhooks (postDeposit J H webhooks body store).store record ↔
      ':' ∉ record.queueId.toList) ∧
    ∀ J' H' webhooks' body' store' record', Creates J' H' webhooks' body' store' record' →
      record'.id = record.id → record'.queueId = record.queueId ∧ record'.identity = record.identity := by
  obtain ⟨data, hdata, hrecord⟩ := h.deposited
  have haddress := isStellarAddress_of_depositSchema hdata
  constructor
  · have hne : record.id ≠ "" := by
      rw [hrecord.id]
      intro hempty
      have hlength := congrArg (fun s : String => s.toList.length) hempty
      simp at hlength
    rw [addressable_of h.stored hrecord.active hne, hrecord.id, isEscrowId_iff haddress, hrecord.queueId]
  · intro J' H' webhooks' body' store' record' h' hid
    obtain ⟨data', hdata', hrecord'⟩ := h'.deposited
    rw [hrecord.id, hrecord'.id] at hid
    rw [hrecord.queueId, hrecord.identity, hrecord'.queueId, hrecord'.identity]
    exact id_injective (isStellarAddress_of_depositSchema hdata') haddress hid

/-- A host whose texts are all empty, on which nothing depends. -/
def plainHost : Host := ⟨0, fun _ => "", fun _ => none, "", fun text => text, fun _ body => body⟩

/-- A request to deposit 10 XLM. -/
def depositBody (queueId : String) : JsonObject :=
  (((((∅ : JsonObject).set "queueId" (.string queueId)).set "identity"
    (.string "GAAAAAAAAAAAAAAAAAAAAAAAAAAAAAAAAAAAAAAAAAAAAAAAAAAAAWHF")).set "amount"
    (.string "10")).set "asset" (.string "XLM"))

/-- The record it leaves in a new store. -/
def depositRecord (queueId : String) : EscrowRecord where
  id := queueId ++ ":GAAAAAAAAAAAAAAAAAAAAAAAAAAAAAAAAAAAAAAAAAAAAAAAAAAAAWHF"
  queueId := queueId
  identity := "GAAAAAAAAAAAAAAAAAAAAAAAAAAAAAAAAAAAAAAAAAAAAAAAAAAAAWHF"
  amount := 100000000
  asset := "XLM"
  status := .active
  createdAt := ""
  expiresAt := ""
  releasedAt := none

/-- A result read as an option has a value exactly if it is a success. -/
theorem toOption_eq_some_iff {ε α : Type} {x : Except ε α} {a : α} :
    x.toOption = some a ↔ x = .ok a := by
  cases x <;> simp [Except.toOption]

/-- Whatever the route answers with was created by it. -/
theorem creates_of_toOption
    (h : (postDeposit J H webhooks body store).result.toOption = some record) :
    Creates J H webhooks body store record :=
  creates_of_ok (toOption_eq_some_iff.mp h)

/-- The deposit into queue `demo` can be reached. -/
theorem addressable_iff_demo :
    Addressable plainHost [] (postDeposit default plainHost [] (depositBody "demo") ∅).store
      (depositRecord "demo") ↔ ':' ∉ (depositRecord "demo").queueId.toList :=
  (addressable_iff default plainHost [] (depositBody "demo") ∅ (depositRecord "demo")
    (creates_of_toOption (by decide +kernel))).1

/-- A queue with a colon in its id. -/
theorem colon_deposit : Creates default plainHost [] (depositBody "a:b") ∅ (depositRecord "a:b") ∧
    ¬ Addressable plainHost [] (postDeposit default plainHost [] (depositBody "a:b") ∅).store
      (depositRecord "a:b") := by
  have hcreates : Creates default plainHost [] (depositBody "a:b") ∅ (depositRecord "a:b") :=
    creates_of_toOption (by decide +kernel)
  refine ⟨hcreates, ?_⟩
  rw [addressable_of hcreates.stored rfl (by decide +kernel)]
  decide +kernel

end LineProof.Backend
