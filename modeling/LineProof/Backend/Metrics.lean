import LineProof.Backend.Atomicity
import LineProof.Backend.EnrollmentService
import LineProof.Backend.EscrowRoutes
import LineProof.Lib.Transactional

/-!
# Metrics of the routes

Reference: `backend/src/metrics/registry.ts`, as `backend/src/routes/escrow.ts` and
`backend/src/routes/enrollments.ts` use it.

A route counts a record when the service has returned it. A call of the escrow service that throws has
written its record all the same, if a webhook wants its event. So the escrow metrics agree with the records
all along a run exactly if no webhook wants the event of a call that writes (`escrow_metrics_iff`). The
enrollment service does not throw, and its metric always agrees (`enrollment_metrics`).
-/

namespace LineProof.Backend

open Sdk

/-! ## The registry -/

/-- The two metrics of the escrow routes. -/
structure EscrowMetrics where
  /-- `escrow_deposit_total`, by the label `asset` -/
  escrowDepositTotal : String → ℕ
  escrowActiveGauge : ℤ

/-- Both start at 0. -/
def EscrowMetrics.initial : EscrowMetrics := ⟨fun _ => 0, 0⟩

/-- Counts the deposit and the record that it opens. -/
def recordEscrowDeposit (asset : String) (metrics : EscrowMetrics) : EscrowMetrics where
  escrowDepositTotal label := metrics.escrowDepositTotal label + if label = asset then 1 else 0
  escrowActiveGauge := metrics.escrowActiveGauge + 1

/-- One record less is active. -/
def recordEscrowClosed (metrics : EscrowMetrics) : EscrowMetrics :=
  { metrics with escrowActiveGauge := metrics.escrowActiveGauge - 1 }

/-! ## The routes -/

/-- The service's store beside the metrics. -/
structure EscrowServer where
  store : EscrowStore
  metrics : EscrowMetrics

/-- No record and no count. -/
def EscrowServer.initial : EscrowServer := ⟨∅, .initial⟩

/-- The routes that call the service to change something. -/
inductive EscrowRoute
  | deposit
  | release
  | refund
  | expire
deriving DecidableEq

/-- A POST, with the host and the webhooks it finds. -/
structure EscrowRequest where
  route : EscrowRoute
  body : JsonObject
  host : Host
  webhooks : List WebhookConfig

variable (J : Conversions)

/-- The record that a route responds with. -/
def EscrowRequest.handle (req : EscrowRequest) (store : EscrowStore) : Outcome EscrowRecord :=
  match req.route with
  | .deposit => postDeposit J req.host req.webhooks req.body store
  | .release => postRelease req.host req.webhooks req.body store
  | .refund => postRefund req.host req.webhooks req.body store
  | .expire => postExpire req.host req.webhooks req.body store

/-- What a route records before it responds. -/
def EscrowRoute.recordMetrics (route : EscrowRoute) (record : EscrowRecord) (metrics : EscrowMetrics) :
    EscrowMetrics :=
  match route with
  | .deposit => recordEscrowDeposit record.asset metrics
  | .release | .refund | .expire => recordEscrowClosed metrics

/-- Every request is answered, so no request is refused as a whole. -/
def escrowServer :
    Transactional EscrowServer EscrowRequest (Except ServiceError EscrowRecord) Empty where
  exec req server :=
    let out := req.handle J server.store
    let metrics :=
      match out.result with
      | .ok record => req.route.recordMetrics record server.metrics
      | .error _ => server.metrics
    .ok (out.result, ⟨out.store, metrics⟩)

/-! ## What the metrics should say -/

/-- "Number of escrow records currently in the Active state." -/
def activeCount (store : EscrowStore) : ℕ := store.values.countP (·.status = .active)

/-- "Total escrow deposits created." -/
def depositCount (asset : String) (store : EscrowStore) : ℕ := store.values.countP (·.asset = asset)

/-- The metrics say what the store holds. -/
structure Accurate (server : EscrowServer) : Prop where
  active : server.metrics.escrowActiveGauge = activeCount server.store
  deposits : ∀ asset, server.metrics.escrowDepositTotal asset = depositCount asset server.store

/-- The call of the service that a request leads to, if it is valid. -/
def EscrowRequest.call? (req : EscrowRequest) : Option EscrowCall :=
  match req.route with
  | .deposit =>
    match validateStellarAddress ["identity"] req.body with
    | some _ => none
    | none => do
      let data ← DepositSchema req.body
      let amount ← (toStroops J (.string data.amount)).toOption
      guard (¬ (amount = 0 ∨ 2 ^ 127 - 1 < amount))
      return .depositEscrow
        { queueId := data.queueId, identity := data.identity, amount, asset := data.asset
          holdDays := data.holdDays }
  | .release => (EscrowActionSchema req.body).map .releaseEscrow
  | .refund => (EscrowActionSchema req.body).map .refundEscrow
  | .expire => (EscrowActionSchema req.body).map .expireEscrow

/-- The request writes a record, and a webhook wants its event. -/
def Uncounted (server : EscrowServer) (req : EscrowRequest) : Prop :=
  ∃ call, req.call? J = some call ∧ call.Passes req.host server.store ∧
    Wanted req.webhooks call.event

variable {J} {H : Host} {webhooks : List WebhookConfig} {store : EscrowStore} {req : EscrowRequest}
  {server : EscrowServer}

/-! ### Requests and calls -/

/-- A route answers with the record it is handed. -/
theorem answer_map_some (out : Outcome EscrowRecord) :
    answer ⟨out.store, out.result.map some⟩ = out := by
  obtain ⟨store, result⟩ := out
  cases result <;> rfl

variable (store) in
/-- A request that passes its schema is answered by its call. -/
theorem handle_of_call {call : EscrowCall} (h : req.call? J = some call) :
    req.handle J store = answer (call.exec req.host req.webhooks store) := by
  obtain ⟨route, body, host, webhooks⟩ := req
  cases route with
  | deposit =>
    simp only [EscrowRequest.call?] at h
    split at h
    · cases h
    case _ haddress =>
    simp only [Option.bind_eq_bind, Option.bind_eq_some_iff] at h
    obtain ⟨data, hdata, amount, htext, _, hguard, hcall⟩ := h
    have hamount := toOption_eq_some_iff.mp htext
    obtain rfl := Option.some.inj hcall
    have hrange : ¬ (amount = 0 ∨ 2 ^ 127 - 1 < amount) := by
      by_contra hout
      simp [guard] at hguard
      omega
    simp only [EscrowRequest.handle, postDeposit, haddress, hdata, hamount]
    rw [if_neg hrange]
    exact (answer_map_some _).symm
  | release =>
    obtain ⟨escrowId, hid, rfl⟩ := Option.map_eq_some_iff.mp h
    simp only [EscrowRequest.handle, postRelease, postAction, hid]
    rfl
  | refund =>
    obtain ⟨escrowId, hid, rfl⟩ := Option.map_eq_some_iff.mp h
    simp only [EscrowRequest.handle, postRefund, postAction, hid]
    rfl
  | expire =>
    obtain ⟨escrowId, hid, rfl⟩ := Option.map_eq_some_iff.mp h
    simp only [EscrowRequest.handle, postExpire, postAction, hid]
    rfl

variable (store) in
/-- A request that its schema refuses touches nothing. -/
theorem handle_of_invalid (h : req.call? J = none) : ∃ e, req.handle J store = ⟨store, .error e⟩ := by
  obtain ⟨route, body, host, webhooks⟩ := req
  cases route with
  | deposit =>
    show ∃ e, postDeposit J host webhooks body store = ⟨store, .error e⟩
    cases haddress : validateStellarAddress ["identity"] body with
    | some field => exact ⟨_, by simp only [postDeposit, haddress]; rfl⟩
    | none =>
      cases hdata : DepositSchema body with
      | none => exact ⟨_, by simp only [postDeposit, haddress, hdata]; rfl⟩
      | some data =>
        cases hamount : toStroops J (.string data.amount) with
        | error e => exact ⟨_, by simp only [postDeposit, haddress, hdata, hamount]; rfl⟩
        | ok amount =>
          have hrange : amount = 0 ∨ 2 ^ 127 - 1 < amount := by
            by_contra hin
            simp [EscrowRequest.call?, haddress, hdata, hamount, Except.toOption, guard] at h
            omega
          exact ⟨_, by simp only [postDeposit, haddress, hdata, hamount, if_pos hrange]; rfl⟩
  | release =>
    have hid := Option.map_eq_none_iff.mp h
    exact ⟨_, by simp only [EscrowRequest.handle, postRelease, postAction, hid]; rfl⟩
  | refund =>
    have hid := Option.map_eq_none_iff.mp h
    exact ⟨_, by simp only [EscrowRequest.handle, postRefund, postAction, hid]; rfl⟩
  | expire =>
    have hid := Option.map_eq_none_iff.mp h
    exact ⟨_, by simp only [EscrowRequest.handle, postExpire, postAction, hid]; rfl⟩

/-! ### Calls and records -/

/-- A refused transition touches nothing. -/
theorem answer_transition_refused {escrowId event : String} {next : EscrowStatus}
    {guard : EscrowRecord → Except ServiceError Unit}
    (h : ∀ record, store.get escrowId = some record → record.status = .active →
      guard record ≠ .ok ()) :
    ∃ e, answer (transition H webhooks escrowId next event guard store) = ⟨store, .error e⟩ := by
  cases hget : store.get escrowId with
  | none => exact ⟨_, by simp only [transition, hget]; rfl⟩
  | some record =>
    by_cases hactive : record.status = .active
    · cases hguard : guard record with
      | error e =>
        exact ⟨e, by simp only [transition, hget, hactive, hguard, ne_eq, not_true_eq_false, if_false]; rfl⟩
      | ok => exact absurd hguard (h record hget hactive)
    · exact ⟨_, by simp only [transition, hget, if_pos hactive]; rfl⟩

/-- A call that is refused leaves the store, and its route answers with an error. -/
theorem answer_of_refused (webhooks : List WebhookConfig) {call : EscrowCall} (h : ¬ call.Passes H store) :
    ∃ e, answer (call.exec H webhooks store) = ⟨store, .error e⟩ := by
  cases call with
  | depositEscrow payload =>
    have hexec : (EscrowCall.depositEscrow payload).exec H webhooks store =
        ⟨(depositEscrow H webhooks payload store).store,
          (depositEscrow H webhooks payload store).result.map some⟩ := rfl
    rw [hexec, answer_map_some, depositEscrow]
    split
    · exact ⟨_, rfl⟩
    · case _ hnew =>
      split
      · exact ⟨_, rfl⟩
      · case _ expiresAt hexpires =>
        exact absurd ⟨by simpa using hnew, by simp [hexpires]⟩ h
  | releaseEscrow escrowId =>
    exact answer_transition_refused fun record hget hactive => absurd ⟨record, hget, hactive⟩ h
  | refundEscrow escrowId =>
    exact answer_transition_refused fun record hget hactive => absurd ⟨record, hget, hactive⟩ h
  | expireEscrow escrowId =>
    apply answer_transition_refused
    intro record hget hactive hok
    refine absurd ⟨record, hget, hactive, ?_⟩ h
    by_contra hnot
    simp [hnot] at hok

/-- What a call writes under `id`: a new Active record, or the end of an Active one. -/
inductive Change (store : EscrowStore) (id : String) (record : EscrowRecord) : EscrowRoute → Prop
  | deposit (new : store.get id = none) (active : record.status = .active) :
    Change store id record .deposit
  | close {route : EscrowRoute} {old : EscrowRecord} (route_ne : route ≠ .deposit)
      (stored : store.get id = some old) (active : old.status = .active)
      (ended : record.status ≠ .active) (asset : record.asset = old.asset) :
    Change store id record route

/-- The route that makes the call. -/
def EscrowCall.route : EscrowCall → EscrowRoute
  | .depositEscrow _ => .deposit
  | .releaseEscrow _ => .release
  | .refundEscrow _ => .refund
  | .expireEscrow _ => .expire

/-- A transition that passes is the write and the event. -/
theorem answer_transition {escrowId event : String} {next : EscrowStatus} {route : EscrowRoute}
    (webhooks : List WebhookConfig) (guard : EscrowRecord → Except ServiceError Unit)
    (hroute : route ≠ .deposit) (hnext : next ≠ .active) {old : EscrowRecord}
    (hget : store.get escrowId = some old) (hactive : old.status = .active)
    (hguard : guard old = .ok ()) :
    ∃ id record, Change store id record route ∧
      answer (transition H webhooks escrowId next event guard store) =
        saveAndEmit H webhooks store id event record := by
  refine ⟨escrowId, { old with status := next, releasedAt := some (H.isoString H.now) },
    .close hroute hget hactive hnext rfl, ?_⟩
  simp only [transition, hget, hactive, hguard, ne_eq, not_true_eq_false, if_false]
  exact answer_map_some _

/-- A call that passes its checks is the write of one changed record and its event. -/
theorem answer_of_passes (webhooks : List WebhookConfig) {call : EscrowCall} (h : call.Passes H store) :
    ∃ id record, Change store id record call.route ∧
      answer (call.exec H webhooks store) = saveAndEmit H webhooks store id call.event record := by
  cases call with
  | depositEscrow payload =>
    obtain ⟨hnone, hclip⟩ := h
    obtain ⟨expiresAt, hexpires⟩ := Option.ne_none_iff_exists'.mp hclip
    let record : EscrowRecord :=
      { id := payload.id, queueId := payload.queueId, identity := payload.identity
        amount := payload.amount, asset := payload.asset, status := .active
        createdAt := H.isoString H.now, expiresAt := H.isoString expiresAt, releasedAt := none }
    refine ⟨payload.id, record, .deposit hnone rfl, ?_⟩
    have hexec : (EscrowCall.depositEscrow payload).exec H webhooks store =
        ⟨(depositEscrow H webhooks payload store).store,
          (depositEscrow H webhooks payload store).result.map some⟩ := rfl
    rw [hexec, answer_map_some]
    simp only [depositEscrow, hnone, Option.isSome_none, Bool.false_eq_true, if_false, hexpires]
    rfl
  | releaseEscrow escrowId =>
    obtain ⟨record, hget, hactive⟩ := h
    have hroute : EscrowRoute.release ≠ .deposit := by decide
    exact answer_transition webhooks _ hroute (by decide) hget hactive rfl
  | refundEscrow escrowId =>
    obtain ⟨record, hget, hactive⟩ := h
    have hroute : EscrowRoute.refund ≠ .deposit := by decide
    exact answer_transition webhooks _ hroute (by decide) hget hactive rfl
  | expireEscrow escrowId =>
    obtain ⟨record, hget, hactive, hexpired⟩ := h
    have hroute : EscrowRoute.expire ≠ .deposit := by decide
    exact answer_transition webhooks _ hroute (by decide) hget hactive (by simp [hexpired])

/-! ### One request -/

/-- A request makes a call of its own route. -/
theorem route_of_call {call : EscrowCall} (h : req.call? J = some call) : req.route = call.route := by
  obtain ⟨route, body, host, webhooks⟩ := req
  cases route with
  | deposit =>
    simp only [EscrowRequest.call?] at h
    split at h
    · cases h
    simp only [Option.bind_eq_bind, Option.bind_eq_some_iff] at h
    obtain ⟨data, -, amount, -, _, -, hcall⟩ := h
    obtain rfl := Option.some.inj hcall
    rfl
  | release =>
    obtain ⟨escrowId, -, rfl⟩ := Option.map_eq_some_iff.mp h
    rfl
  | refund =>
    obtain ⟨escrowId, -, rfl⟩ := Option.map_eq_some_iff.mp h
    rfl
  | expire =>
    obtain ⟨escrowId, -, rfl⟩ := Option.map_eq_some_iff.mp h
    rfl

/-- A request that is answered with an error counts for nothing. -/
theorem next_of_error {e : ServiceError} {store' : EscrowStore}
    (h : req.handle J server.store = ⟨store', .error e⟩) :
    (escrowServer J).next server req = ⟨store', server.metrics⟩ := by
  simp only [Transactional.next, escrowServer, h]

/-- A request that is answered with a record counts for its route. -/
theorem next_of_ok {record : EscrowRecord} {store' : EscrowStore}
    (h : req.handle J server.store = ⟨store', .ok record⟩) :
    (escrowServer J).next server req = ⟨store', req.route.recordMetrics record server.metrics⟩ := by
  simp only [Transactional.next, escrowServer, h]

/-- A write changes the number of active records by what it replaces and what it stores. -/
theorem activeCount_set (store : EscrowStore) (id : String) (record : EscrowRecord) :
    activeCount (store.set id record) +
        (store.get id).elim 0 (fun old => if old.status = .active then 1 else 0) =
      activeCount store + if record.status = .active then 1 else 0 := by
  rw [activeCount, activeCount]
  simpa only [decide_eq_true_eq] using
    InsertionMap.countP_values_set (fun record : EscrowRecord => record.status = .active) store id record

/-- A write changes the number of an asset's records by what it replaces and what it stores. -/
theorem depositCount_set (asset : String) (store : EscrowStore) (id : String) (record : EscrowRecord) :
    depositCount asset (store.set id record) +
        (store.get id).elim 0 (fun old => if old.asset = asset then 1 else 0) =
      depositCount asset store + if record.asset = asset then 1 else 0 := by
  rw [depositCount, depositCount]
  simpa only [decide_eq_true_eq] using
    InsertionMap.countP_values_set (fun record : EscrowRecord => record.asset = asset) store id record

/-- How a change moves the number of Active records. -/
theorem Change.activeCount {id : String} {record : EscrowRecord} {route : EscrowRoute}
    (h : Change store id record route) :
    (Backend.activeCount (store.set id record) : ℤ) =
      Backend.activeCount store + if route = .deposit then 1 else -1 := by
  have hcount := activeCount_set store id record
  cases h with
  | deposit new active =>
    rw [new, Option.elim_none, if_pos active] at hcount
    rw [if_pos rfl]
    omega
  | close route_ne stored active ended asset =>
    rw [stored, Option.elim_some, if_pos active, if_neg ended] at hcount
    rw [if_neg route_ne]
    omega

/-- Only a deposit adds to the records of an asset. -/
theorem Change.depositCount {id : String} {record : EscrowRecord} {route : EscrowRoute}
    (h : Change store id record route) (asset : String) :
    Backend.depositCount asset (store.set id record) = Backend.depositCount asset store +
      if route = .deposit ∧ asset = record.asset then 1 else 0 := by
  have hcount := depositCount_set asset store id record
  cases h with
  | deposit new active =>
    rw [new, Option.elim_none, Nat.add_zero] at hcount
    rw [hcount]
    simp only [true_and, eq_comm]
  | close route_ne stored active ended hasset =>
    rw [stored, Option.elim_some, hasset] at hcount
    rw [if_neg fun h => route_ne h.1]
    omega

/-- What a route records about its change. -/
theorem recordMetrics_active (route : EscrowRoute) (record : EscrowRecord) (metrics : EscrowMetrics) :
    (route.recordMetrics record metrics).escrowActiveGauge =
      metrics.escrowActiveGauge + if route = .deposit then 1 else -1 := by
  cases route <;> rfl

/-- Only deposits count as deposits. -/
theorem recordMetrics_deposits (route : EscrowRoute) (record : EscrowRecord) (metrics : EscrowMetrics)
    (asset : String) :
    (route.recordMetrics record metrics).escrowDepositTotal asset =
      metrics.escrowDepositTotal asset + if route = .deposit ∧ asset = record.asset then 1 else 0 := by
  cases route <;> simp [EscrowRoute.recordMetrics, recordEscrowDeposit, recordEscrowClosed]

/-- A change that is recorded keeps the metrics accurate. -/
theorem Change.accurate {id : String} {record : EscrowRecord} {route : EscrowRoute}
    {metrics : EscrowMetrics} (h : Change store id record route) (haccurate : Accurate ⟨store, metrics⟩) :
    Accurate ⟨store.set id record, route.recordMetrics record metrics⟩ := by
  constructor
  · rw [recordMetrics_active, h.activeCount, haccurate.active]
  · intro asset
    rw [recordMetrics_deposits, h.depositCount, haccurate.deposits]

/-- A change that is not recorded makes the gauge wrong. -/
theorem Change.not_accurate {id : String} {record : EscrowRecord} {route : EscrowRoute}
    {metrics : EscrowMetrics} (h : Change store id record route) (haccurate : Accurate ⟨store, metrics⟩) :
    ¬ Accurate ⟨store.set id record, metrics⟩ := by
  intro hafter
  have hbefore := haccurate.active
  have hsame := hafter.active
  rw [h.activeCount] at hsame
  simp only at hbefore hsame
  split at hsame <;> omega

/-- The metrics stay accurate over a request exactly if the record it writes is counted. -/
theorem accurate_next (h : Accurate server) :
    Accurate ((escrowServer J).next server req) ↔ ¬ Uncounted J server req := by
  cases hcall : req.call? J with
  | none =>
    obtain ⟨e, he⟩ := handle_of_invalid server.store hcall
    rw [next_of_error he]
    refine iff_of_true h ?_
    rintro ⟨call, hsome, -⟩
    rw [hcall] at hsome
    cases hsome
  | some call =>
    have hhandle := handle_of_call server.store hcall
    by_cases hpasses : call.Passes req.host server.store
    · obtain ⟨id, record, hchange, hsaves⟩ := answer_of_passes req.webhooks hpasses
      rw [hsaves, saveAndEmit] at hhandle
      obtain ⟨hthrow, hok⟩ := emit_record req.host req.webhooks call.event_mem record
      by_cases hwanted : Wanted req.webhooks call.event
      · rw [hthrow hwanted] at hhandle
        rw [next_of_error hhandle]
        exact iff_of_false (hchange.not_accurate h) (fun hcounted => hcounted ⟨call, hcall, hpasses, hwanted⟩)
      · rw [hok hwanted] at hhandle
        rw [next_of_ok hhandle, route_of_call hcall]
        refine iff_of_true (hchange.accurate h) ?_
        rintro ⟨call', hcall', -, hwanted'⟩
        obtain rfl := Option.some.inj (hcall.symm.trans hcall')
        exact hwanted hwanted'
    · obtain ⟨e, he⟩ := answer_of_refused req.webhooks hpasses
      rw [next_of_error (hhandle.trans he)]
      refine iff_of_true h ?_
      rintro ⟨call', hcall', hpasses', -⟩
      obtain rfl := Option.some.inj (hcall.symm.trans hcall')
      exact hpasses hpasses'

/-- The metrics are right at the start. -/
theorem accurate_initial : Accurate .initial := ⟨rfl, fun _ => rfl⟩

/-- The metrics stay right exactly while no request writes and is then answered with an error. -/
theorem escrow_metrics_iff (J : Conversions) (requests : List EscrowRequest) :
    (escrowServer J).Always Accurate .initial requests ↔
      (escrowServer J).Along (fun server req => ¬ Uncounted J server req) .initial requests :=
  Transactional.always_iff_along (I := fun _ => True) (fun _ _ => trivial)
    (fun _ _ _ h => accurate_next h) trivial accurate_initial requests

/-! ## Enrollments -/

/-- The routes of enrollments, with `queue_enrollment_total` by the label `queue_id`. -/
structure EnrollmentServer where
  store : EnrollmentStore
  queueEnrollmentTotal : String → ℕ

/-- No record and no count. -/
def EnrollmentServer.initial : EnrollmentServer := ⟨.empty, fun _ => 0⟩

/-- Counts one enrollment of the queue. -/
def recordEnrollment (queueId : String) (server : EnrollmentServer) : EnrollmentServer :=
  { server with
    queueEnrollmentTotal := fun label =>
      server.queueEnrollmentTotal label + if label = queueId then 1 else 0 }

/-- The body of both requests, as the schemas leave it. -/
structure EnrollInput where
  queueId : String
  identity : String

/-- `EnrollSchema.safeParse`. -/
def EnrollSchema (body : JsonObject) : Option EnrollInput := do
  let queueId ← stringField "queueId" body
  let identity ← stringField "identity" body
  guard (queueId ≠ "" ∧ isStellarAddress identity ∧ hasOnly ["queueId", "identity"] body)
  return { queueId, identity }

/-- `CancelSchema.safeParse`, the same schema. -/
def CancelSchema (body : JsonObject) : Option EnrollInput := EnrollSchema body

/-- The requests that reach the service. -/
inductive EnrollmentRequest
  /-- `POST /enroll`, with `new Date().toISOString()` -/
  | enroll (now : String) (body : JsonObject)
  /-- `POST /cancel` -/
  | cancel (body : JsonObject)

/-- What the routes answer with. -/
inductive EnrollmentReply
  | created (record : EnrollmentRecord)
  | cancelled (message : String)

/-- What both routes check before they call the service. -/
def enrollInput (schema : JsonObject → Option EnrollInput) (body : JsonObject) :
    Except ServiceError EnrollInput :=
  match validateStellarAddress ["identity"] body with
  | some field =>
    .error (.status ("Invalid Stellar address for field \"" ++ field ++
      "\". Must be a 56-character G-prefixed key.") 400)
  | none =>
    match schema body with
    | none => .error (.status "Invalid request" 400)
    | some data => .ok data

/-- The two handlers, with the metric counted between the service and the answer. -/
def EnrollmentRequest.handle (server : EnrollmentServer) :
    EnrollmentRequest → Except ServiceError EnrollmentReply × EnrollmentServer
  | .enroll now body =>
    match enrollInput EnrollSchema body with
    | .error e => (.error e, server)
    | .ok data =>
      let (result, store) := enrollIdentity now data.queueId data.identity server.store
      if result.conflict then (.error (.status "Duplicate enrollment blocked" 409), { server with store })
      else (.ok (.created result), recordEnrollment result.queueId { server with store })
  | .cancel body =>
    match enrollInput CancelSchema body with
    | .error e => (.error e, server)
    | .ok data =>
      let (ok, store) := cancelEnrollment data.queueId data.identity server.store
      if ok then (.ok (.cancelled "Enrollment cancelled"), { server with store })
      else (.error (.status "Enrollment not found" 404), { server with store })

/-- Every request is answered, so no request is refused as a whole. -/
def enrollmentServer :
    Transactional EnrollmentServer EnrollmentRequest (Except ServiceError EnrollmentReply) Empty where
  exec req server := .ok (req.handle server)

/-- The records of a queue, cancelled or not. -/
def recordCount (queueId : String) (store : EnrollmentStore) : ℕ :=
  store.nsByIdentity.weight fun _ records => records.countP (·.queueId = queueId)

/-- A reply with status 201 for the queue. -/
def createsIn (queueId : String) : Except ServiceError EnrollmentReply → Bool
  | .ok (.created record) => record.queueId = queueId
  | _ => false

section Enrollments

variable {server : EnrollmentServer} {q : String} {records records' : List EnrollmentRecord}

/-- A cancelled record stays a record of its queue. -/
theorem countP_cancelFirst {queueId : String} (h : cancelFirst queueId records = some records') :
    records'.countP (·.queueId = q) = records.countP (·.queueId = q) := by
  induction records generalizing records' with
  | nil => cases h
  | cons record rest ih =>
    rw [cancelFirst] at h
    split at h
    · obtain rfl := Option.some.inj h
      rw [List.countP_cons, List.countP_cons]
    · obtain ⟨rest', hrest, rfl⟩ := Option.map_eq_some_iff.mp h
      rw [List.countP_cons, List.countP_cons, ih hrest]

/-- The records after those of `u` have been written. -/
theorem recordCount_set (store : EnrollmentStore) (u p : String) (records : List EnrollmentRecord)
    (index : InsertionMap String (InsertionSet String)) :
    recordCount p ⟨store.nsByIdentity.set u records, index⟩ +
        (byIdentity u store).countP (·.queueId = p) =
      recordCount p store + records.countP (·.queueId = p) := by
  have hset := InsertionMap.weight_set
    (fun (_ : String) (records : List EnrollmentRecord) => records.countP (·.queueId = p))
    store.nsByIdentity u records
  rw [byIdentity]
  cases hget : store.nsByIdentity.get u with
  | none =>
    rw [hget] at hset
    exact hset
  | some old =>
    rw [hget] at hset
    exact hset

/-- The answer names the queue of the request. -/
theorem queueId_enrollIdentity (now q u : String) (store : EnrollmentStore) :
    (enrollIdentity now q u store).1.queueId = q := by
  by_cases hlive : (byIdentity u store).any (·.liveIn q) = true
  · rw [enrollIdentity, if_pos hlive]
  · rw [enrollIdentity, if_neg hlive]

/-- An enrollment without conflict adds a record of its queue. -/
theorem recordCount_enrollIdentity (now q u p : String) (store : EnrollmentStore) :
    recordCount p (enrollIdentity now q u store).2 = recordCount p store +
      if (enrollIdentity now q u store).1.conflict = false ∧ p = q then 1 else 0 := by
  by_cases hlive : (byIdentity u store).any (·.liveIn q) = true
  · rw [enrollIdentity, if_pos hlive, if_neg (by simp), Nat.add_zero]
  · rw [enrollIdentity, if_neg hlive]
    have hset := recordCount_set store u p (byIdentity u store ++ [⟨q, u, now, false, false⟩])
      (store.nsQueueIndex.set q (((queueSet q store).getD ∅).add u))
    rw [List.countP_append, List.countP_singleton] at hset
    simp only [decide_eq_true_eq, eq_comm (a := q)] at hset
    simp only [true_and]
    omega

/-- A cancellation keeps the number of records. -/
theorem recordCount_cancelEnrollment (q u p : String) (store : EnrollmentStore) :
    recordCount p (cancelEnrollment q u store).2 = recordCount p store := by
  cases hcancel : cancelFirst q (byIdentity u store) with
  | none => simp only [cancelEnrollment, hcancel]
  | some existing =>
    simp only [cancelEnrollment, hcancel]
    have hcount := countP_cancelFirst (q := p) hcancel
    refine Nat.add_right_cancel ((recordCount_set store u p existing _).trans ?_)
    rw [hcount]

/-- A request adds to both counts of a queue what its reply says. -/
theorem handle_counts (req : EnrollmentRequest) (server : EnrollmentServer) (q : String) :
    let added := if createsIn q (req.handle server).1 = true then 1 else 0
    (req.handle server).2.queueEnrollmentTotal q = server.queueEnrollmentTotal q + added ∧
      recordCount q (req.handle server).2.store = recordCount q server.store + added := by
  cases req with
  | enroll now body =>
    cases hinput : enrollInput EnrollSchema body with
    | error e =>
      simp only [EnrollmentRequest.handle, hinput]
      exact ⟨rfl, rfl⟩
    | ok data =>
      have hcount := recordCount_enrollIdentity now data.queueId data.identity q server.store
      have hqueue := queueId_enrollIdentity now data.queueId data.identity server.store
      cases hconflict : (enrollIdentity now data.queueId data.identity server.store).1.conflict with
      | true =>
        rw [hconflict, if_neg (by simp)] at hcount
        simp only [EnrollmentRequest.handle, hinput, hconflict, if_true]
        exact ⟨rfl, hcount⟩
      | false =>
        rw [hconflict] at hcount
        simp only [EnrollmentRequest.handle, hinput, hconflict, createsIn, recordEnrollment, hqueue,
          decide_eq_true_eq, Bool.false_eq_true, if_false]
        simp only [true_and, eq_comm (a := q)] at hcount ⊢
        exact hcount
  | cancel body =>
    cases hinput : enrollInput CancelSchema body with
    | error e =>
      simp only [EnrollmentRequest.handle, hinput]
      exact ⟨rfl, rfl⟩
    | ok data =>
      have hcount := recordCount_cancelEnrollment data.queueId data.identity q server.store
      simp only [EnrollmentRequest.handle, hinput]
      split
      · exact ⟨rfl, hcount⟩
      · exact ⟨rfl, hcount⟩

/-- In every reachable state the metric of a queue is the number of records ever stored for it. -/
theorem enrollment_metrics (requests : List EnrollmentRequest) (q : String) :
    let server := enrollmentServer.run .initial requests
    server.queueEnrollmentTotal q = recordCount q server.store ∧
      server.queueEnrollmentTotal q =
        (enrollmentServer.history .initial requests).countP fun c => createsIn q c.out := by
  refine Transactional.history_invariant (M := enrollmentServer)
    (P := fun past server => server.queueEnrollmentTotal q = recordCount q server.store ∧
      server.queueEnrollmentTotal q = past.countP fun c => createsIn q c.out) ?_ ⟨rfl, rfl⟩ requests
  intro past c h
  have hhandle : c.call.handle c.pre = (c.out, c.post) := Except.ok.inj c.ok
  obtain ⟨htotal, hcount⟩ := handle_counts c.call c.pre q
  rw [hhandle] at htotal hcount
  refine ⟨by rw [htotal, hcount, h.1], ?_⟩
  rw [htotal, h.2, List.countP_append, List.countP_singleton]

end Enrollments

end LineProof.Backend
