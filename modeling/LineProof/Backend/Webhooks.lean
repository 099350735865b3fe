import Mathlib.Data.List.Forall2
import LineProof.Backend.Atomicity
import LineProof.Backend.Requests
import LineProof.Lib.Transactional

/-!
# The webhooks

Reference: `backend/src/services/webhookService.ts`, `backend/src/routes/webhooks.ts` and
`backend/src/middleware/operatorAuth.ts`, with the listeners of
`backend/src/services/webhookDispatcher.ts`.

The operator registers webhooks with the key of the server. A call of the model is a request to the routes
or an event of a service. An event starts one signed delivery for each webhook that asks for it, which was
registered and not deleted since (`emission_iff`). A request without the key does nothing and learns
nothing, so it can be left out of a run (`unauthorized_invisible`).
-/

namespace LineProof.Backend

open Sdk

/-! ## Authorization -/

/-- The middleware `requireOperatorAuth`. -/
def requireOperatorAuth (operatorSecretKey authorization : Option String) : Except ServiceError Unit :=
  match operatorSecretKey.filter (· ≠ "") with
  | none => .error (.status "Operator authentication key not configured on server" 401)
  | some key =>
    match authorization.filter fun header => "Bearer ".toList <+: header.toList with
    | none => .error (.status "Unauthorized: Missing or invalid token format" 401)
    | some header =>
      if (header.toList.splitOn ' ')[1]? = some key.toList then .ok ()
      else .error (.status "Unauthorized: Invalid token" 401)

/-! ## The service -/

/-- The data of `WebhookConfigSchema`. -/
structure WebhookPayload where
  url : String
  secret : String
  events : List String

/-- `z.array(z.string())`. -/
def asTexts : JsValue → Option (List String)
  | .array vs => vs.mapM asText
  | _ => none

/-- `WebhookConfigSchema.safeParse`, where `isUrl` is `z.string().url()`. -/
def WebhookConfigSchema (isUrl : String → Bool) (body : JsonObject) : Option WebhookPayload := do
  let url ← stringField "url" body
  let secret ← stringField "secret" body
  let events ← (body.get "events").bind asTexts
  guard (isUrl url ∧ 8 ≤ utf16Length secret ∧ utf16Length secret ≤ 128 ∧ events ≠ [] ∧
    hasOnly ["url", "secret", "events"] body)
  return { url, secret, events }

/-- The namespace `webhooks` of the adapter. -/
abbrev WebhookStore := InsertionMap String WebhookConfig

/-- The config that `registerWebhook` makes. -/
def WebhookPayload.config (H : Host) (payload : WebhookPayload) : WebhookConfig where
  id := H.randomUUID
  url := payload.url
  secret := payload.secret
  events := payload.events
  createdAt := H.isoString H.now

/-- Stores the webhook under a new id. -/
def registerWebhook (H : Host) (payload : WebhookPayload) (store : WebhookStore) :
    WebhookConfig × WebhookStore :=
  let config := payload.config H
  (config, store.set config.id config)

/-- In the order of registration. -/
def listWebhooks (store : WebhookStore) : List WebhookConfig := store.values

/-- Answers whether there was such a webhook. -/
def deleteWebhook (id : String) (store : WebhookStore) : Bool × WebhookStore :=
  ((store.get id).isSome, store.delete id)

/-! ## Routes and listeners -/

/-- A request to the routes, with its header `Authorization`, or an event of a service. -/
inductive WebhookCall
  | post (authorization : Option String) (body : JsonObject)
  | list (authorization : Option String)
  | delete (authorization : Option String) (id : String)
  | emit (type : String) (payload : JsonValue)

/-- What the routes answer with. -/
inductive WebhookReply
  | created (config : WebhookConfig)
  | configs (configs : List WebhookConfig)
  | deleted
  /-- the deliveries that an event starts -/
  | started (deliveries : List Delivery)

section Routes

variable (isUrl : String → Bool) (operatorSecretKey : Option String) (H : Host)

/-- `POST /`. -/
def postWebhook (body : JsonObject) (store : WebhookStore) :
    Except ServiceError (WebhookReply × WebhookStore) :=
  match WebhookConfigSchema isUrl body with
  | none => .error (.status "Invalid request" 400)
  | some payload =>
    let (config, store) := registerWebhook H payload store
    .ok (.created config, store)

/-- `DELETE /:id`. -/
def deleteRoute (id : String) (store : WebhookStore) :
    Except ServiceError (WebhookReply × WebhookStore) :=
  let (success, store) := deleteWebhook id store
  if success then .ok (.deleted, store) else .error (.status "Webhook not found" 404)

/-- The listener of an event. -/
def dispatch (type : String) (payload : JsonValue) (store : WebhookStore) :
    Except ServiceError (WebhookReply × WebhookStore) :=
  match Backend.emit H (listWebhooks store) type payload with
  | .ok deliveries => .ok (.started deliveries, store)
  | .error e => .error (.js e)

/-- The header of a request, none for an event. -/
def WebhookCall.authorization? : WebhookCall → Option (Option String)
  | .post authorization _ | .list authorization | .delete authorization _ => some authorization
  | .emit .. => none

/-- The call behind the middleware. -/
def WebhookCall.handle (store : WebhookStore) :
    WebhookCall → Except ServiceError (WebhookReply × WebhookStore)
  | .post _ body => postWebhook isUrl H body store
  | .list _ => .ok (.configs (listWebhooks store), store)
  | .delete _ id => deleteRoute id store
  | .emit type payload => dispatch H type payload store

/-- The webhooks of a server. -/
def webhookServer : Transactional WebhookStore (Host × WebhookCall) WebhookReply ServiceError where
  exec call store :=
    match call.2.authorization? with
    | none => call.2.handle isUrl call.1 store
    | some authorization => do
      requireOperatorAuth operatorSecretKey authorization
      call.2.handle isUrl call.1 store

end Routes

/-! ## What a run should do -/

/-- The header is `Bearer ` and the key, and what follows the key is set off with a space. A key with a
space in it cannot be presented. -/
def Presents (operatorSecretKey authorization : Option String) : Prop :=
  ∃ key header rest, operatorSecretKey = some key ∧ authorization = some header ∧ key ≠ "" ∧
    ' ' ∉ key.toList ∧ header.toList = "Bearer ".toList ++ key.toList ++ rest ∧
    (rest = [] ∨ ∃ tail, rest = ' ' :: tail)

/-- The events, and the requests that present the key. -/
def Allowed (operatorSecretKey : Option String) (call : Host × WebhookCall) : Prop :=
  ∀ authorization ∈ call.2.authorization?, Presents operatorSecretKey authorization

/-- The envelope of an event. -/
def webhookPayload (H : Host) (type : String) (payload : JsonValue) : JsonValue :=
  .object [("id", .string H.randomUUID), ("event", .string type),
    ("created", .string (H.isoString H.now)), ("data", payload)]

/-- The delivery of an event to a webhook: it goes to its url, and is signed with its secret. -/
structure MadeFor (H : Host) (type : String) (payload : JsonValue) (wh : WebhookConfig)
    (delivery : Delivery) : Prop where
  url : delivery.url = wh.url
  body : stringify H (webhookPayload H type payload) = .ok delivery.bodyStr
  signature : delivery.signature = "sha256=" ++ H.hmacSha256 wh.secret delivery.bodyStr

section Spec

variable {isUrl : String → Bool} {operatorSecretKey : Option String}

/-- The webhook that a commit registers. -/
def registered (c : (webhookServer isUrl operatorSecretKey).Commit) : Option WebhookConfig :=
  match c.call.2 with
  | .post _ body => (WebhookConfigSchema isUrl body).map (·.config c.call.1)
  | _ => none

/-- The id that a commit deletes. -/
def removed (c : (webhookServer isUrl operatorSecretKey).Commit) : Option String :=
  match c.call.2 with
  | .delete _ id => some id
  | _ => none

/-- The webhooks registered and not deleted, oldest first. -/
def subscribers (past : List (webhookServer isUrl operatorSecretKey).Commit) : List WebhookConfig :=
  (past.filterMap registered).filter fun wh => wh.id ∉ past.filterMap removed

/-- The subscribers that an event goes to. -/
def receivers (type : String) (past : List (webhookServer isUrl operatorSecretKey).Commit) :
    List WebhookConfig :=
  if type ∈ eventTypes then (subscribers past).filter (·.Matches type) else []

end Spec

/-- No two calls draw the same id. -/
def UniqueIds (calls : List (Host × WebhookCall)) : Prop := (calls.map fun c => c.1.randomUUID).Nodup

instance (calls : List (Host × WebhookCall)) : Decidable (UniqueIds calls) :=
  inferInstanceAs (Decidable (List.Nodup _))

/-! ### Authorization -/

/-- The first part of a text ends at the first separator. -/
theorem splitOn_first_iff {c : Char} {cs part : List Char} :
    (cs.splitOn c)[0]? = some part ↔
      c ∉ part ∧ ∃ rest, cs = part ++ rest ∧ (rest = [] ∨ ∃ tail, rest = c :: tail) := by
  constructor
  · intro h
    by_cases hc : c ∈ cs
    · obtain ⟨before, after, rfl, hbefore⟩ := List.eq_append_cons_of_mem hc
      rw [List.splitOn_append_cons_self, List.splitOn_eq_singleton hbefore] at h
      obtain rfl : before = part := by simpa using h
      exact ⟨hbefore, c :: after, rfl, .inr ⟨after, rfl⟩⟩
    · rw [List.splitOn_eq_singleton hc] at h
      obtain rfl : cs = part := by simpa using h
      exact ⟨hc, [], (List.append_nil cs).symm, .inl rfl⟩
  · rintro ⟨hpart, rest, rfl, rfl | ⟨tail, rfl⟩⟩
    · rw [List.append_nil, List.splitOn_eq_singleton hpart]
      rfl
    · rw [List.splitOn_append_cons_self, List.splitOn_eq_singleton hpart]
      rfl

/-- The token of a header that starts with `Bearer ` is the first part of what follows. -/
theorem token_bearer (after : List Char) :
    (("Bearer ".toList ++ after).splitOn ' ')[1]? = (after.splitOn ' ')[0]? := by
  have hbearer : "Bearer ".toList ++ after = "Bearer".toList ++ ' ' :: after := rfl
  rw [hbearer, List.splitOn_append_cons_self, List.splitOn_eq_singleton (by decide)]
  rfl

/-- The middleware lets a request through that presents the key. -/
theorem requireOperatorAuth_iff {operatorSecretKey authorization : Option String} :
    requireOperatorAuth operatorSecretKey authorization = .ok () ↔
      Presents operatorSecretKey authorization := by
  unfold requireOperatorAuth
  constructor
  · intro h
    split at h
    · cases h
    case _ key hkey =>
    obtain ⟨hconfigured, hne⟩ := Option.filter_eq_some_iff.mp hkey
    split at h
    · cases h
    case _ header hheader =>
    obtain ⟨hgiven, hbearer⟩ := Option.filter_eq_some_iff.mp hheader
    split at h
    case isFalse => cases h
    case isTrue htoken =>
    obtain ⟨after, hafter⟩ := of_decide_eq_true hbearer
    rw [← hafter, token_bearer] at htoken
    obtain ⟨hspace, rest, hrest, hend⟩ := splitOn_first_iff.mp htoken
    refine ⟨key, header, rest, hconfigured, hgiven, of_decide_eq_true hne, hspace, ?_, hend⟩
    rw [← hafter, hrest, List.append_assoc]
  · rintro ⟨key, header, rest, rfl, rfl, hne, hspace, hheader, hend⟩
    have hbearer : "Bearer ".toList <+: header.toList := by
      rw [hheader, List.append_assoc]
      exact List.prefix_append _ _
    have htoken : (header.toList.splitOn ' ')[1]? = some key.toList := by
      rw [hheader, List.append_assoc, token_bearer]
      exact splitOn_first_iff.mpr ⟨hspace, rest, rfl, hend⟩
    simp only [Option.filter_some, decide_eq_true hne, decide_eq_true hbearer, if_true]
    rw [if_pos htoken]

instance (operatorSecretKey authorization : Option String) :
    Decidable (Presents operatorSecretKey authorization) :=
  match h : requireOperatorAuth operatorSecretKey authorization with
  | .ok () => .isTrue (requireOperatorAuth_iff.mp h)
  | .error _ => .isFalse fun hpresents => by
    rw [requireOperatorAuth_iff.mpr hpresents] at h
    cases h

instance (operatorSecretKey : Option String) (call : Host × WebhookCall) :
    Decidable (Allowed operatorSecretKey call) :=
  inferInstanceAs (Decidable (∀ authorization ∈ call.2.authorization?, _))

/-! ### One call -/

variable {isUrl : String → Bool} {operatorSecretKey : Option String} {store store' : WebhookStore}
  {H : Host} {call : WebhookCall} {reply : WebhookReply}

/-- The middleware lets a request pass, or it answers 401. -/
theorem requireOperatorAuth_cases (operatorSecretKey authorization : Option String) :
    requireOperatorAuth operatorSecretKey authorization = .ok () ∨
      ∃ message, requireOperatorAuth operatorSecretKey authorization =
        .error (.status message 401) := by
  unfold requireOperatorAuth
  split
  · exact .inr ⟨_, rfl⟩
  split
  · exact .inr ⟨_, rfl⟩
  split
  · exact .inl rfl
  · exact .inr ⟨_, rfl⟩

/-- A request without the key is refused before its handler. -/
theorem exec_of_not_allowed (h : ¬ Allowed operatorSecretKey (H, call)) :
    ∃ message, (webhookServer isUrl operatorSecretKey).exec (H, call) store =
      .error (.status message 401) := by
  cases hheader : call.authorization? with
  | none => exact absurd (fun authorization hmem => absurd (hheader.symm.trans hmem) (by simp)) h
  | some authorization =>
    rcases requireOperatorAuth_cases operatorSecretKey authorization with hok | ⟨message, herror⟩
    · refine absurd (fun authorization' hmem => ?_) h
      obtain rfl : authorization = authorization' := Option.some.inj (hheader.symm.trans hmem)
      exact requireOperatorAuth_iff.mp hok
    · refine ⟨message, ?_⟩
      simp only [webhookServer, hheader, herror]
      rfl

/-- A request with the key is answered by its handler. -/
theorem exec_of_allowed (h : Allowed operatorSecretKey (H, call)) :
    (webhookServer isUrl operatorSecretKey).exec (H, call) store = call.handle isUrl H store := by
  cases hheader : call.authorization? with
  | none => simp only [webhookServer, hheader]
  | some authorization =>
    have hok := requireOperatorAuth_iff.mpr (h authorization hheader)
    simp only [webhookServer, hheader, hok]
    rfl

/-- What a commit does to the store. -/
inductive WebhookEffect (c : (webhookServer isUrl operatorSecretKey).Commit) : Prop
  | registers (wh : WebhookConfig) (id : wh.id = c.call.1.randomUUID)
      (registered : registered c = some wh) (removed : removed c = none)
      (post : c.post = c.pre.set wh.id wh)
  | removes (id : String) (registered : registered c = none) (removed : removed c = some id)
      (there : (c.pre.get id).isSome) (post : c.post = c.pre.delete id)
  | reads (registered : registered c = none) (removed : removed c = none) (post : c.post = c.pre)

/-- What a committed request did. -/
theorem effect (c : (webhookServer isUrl operatorSecretKey).Commit) : WebhookEffect c := by
  obtain ⟨pre, ⟨H, call⟩, reply, post, ok⟩ := c
  by_cases hallowed : Allowed operatorSecretKey (H, call)
  · have hhandle := (exec_of_allowed hallowed).symm.trans ok
    cases call with
    | post authorization body =>
      simp only [WebhookCall.handle, postWebhook] at hhandle
      split at hhandle
      · cases hhandle
      · case _ payload hpayload =>
        cases hhandle
        refine .registers (payload.config H) rfl ?_ rfl rfl
        simp only [registered, hpayload, Option.map_some]
    | list authorization =>
      cases hhandle
      exact .reads rfl rfl rfl
    | delete authorization id =>
      simp only [WebhookCall.handle, deleteRoute] at hhandle
      split at hhandle
      · case _ hthere =>
        cases hhandle
        exact .removes id rfl rfl hthere rfl
      · cases hhandle
    | emit type payload =>
      simp only [WebhookCall.handle, dispatch] at hhandle
      split at hhandle
      · cases hhandle
        exact .reads rfl rfl rfl
      · cases hhandle
  · obtain ⟨message, herror⟩ := exec_of_not_allowed hallowed
    exact absurd (herror.symm.trans ok) (by simp)

/-! ### Runs -/

/-- The store holds the subscribers, oldest first. -/
structure StoresSubscribers (past : List (webhookServer isUrl operatorSecretKey).Commit)
    (store : WebhookStore) : Prop where
  entries : store.entries = (subscribers past).map fun wh => (wh.id, wh)
  removed : ∀ id ∈ past.filterMap removed, id ∈ (past.filterMap registered).map WebhookConfig.id

/-- The stored webhooks are the subscribers, in order. -/
theorem StoresSubscribers.values {past : List (webhookServer isUrl operatorSecretKey).Commit}
    (h : StoresSubscribers past store) : store.values = subscribers past := by
  rw [InsertionMap.values, h.entries, List.map_map]
  exact List.map_id _

/-- Every stored id was registered. -/
theorem StoresSubscribers.mem_registered {past : List (webhookServer isUrl operatorSecretKey).Commit}
    (h : StoresSubscribers past store) {id : String} (hid : id ∈ store.entries.map Prod.fst) :
    id ∈ (past.filterMap registered).map WebhookConfig.id := by
  rw [h.entries, List.map_map] at hid
  obtain ⟨wh, hwh, rfl⟩ := List.mem_map.mp hid
  exact List.mem_map_of_mem (List.mem_of_mem_filter hwh)

/-- A registration under a new id adds the last subscriber. -/
theorem subscribers_concat_registered {past : List (webhookServer isUrl operatorSecretKey).Commit}
    {c : (webhookServer isUrl operatorSecretKey).Commit} {wh : WebhookConfig}
    (hregistered : registered c = some wh) (hremoved : removed c = none)
    (hnot : wh.id ∉ past.filterMap removed) : subscribers (past ++ [c]) = subscribers past ++ [wh] := by
  rw [subscribers, List.filterMap_append, List.filterMap_append, List.filterMap_cons_some hregistered,
    List.filterMap_cons_none hremoved, List.filterMap_nil, List.filterMap_nil, List.append_nil,
    List.filter_append]
  congr 1
  exact List.filter_eq_self.mpr (by simpa using hnot)

/-- A deletion takes the subscribers of its id away. -/
theorem subscribers_concat_removed {past : List (webhookServer isUrl operatorSecretKey).Commit}
    {c : (webhookServer isUrl operatorSecretKey).Commit} {id : String}
    (hregistered : registered c = none) (hremoved : removed c = some id) :
    subscribers (past ++ [c]) = (subscribers past).filter fun wh => wh.id ≠ id := by
  rw [subscribers, List.filterMap_append, List.filterMap_append, List.filterMap_cons_none hregistered,
    List.filterMap_cons_some hremoved, List.filterMap_nil, List.filterMap_nil, List.append_nil,
    subscribers, List.filter_filter]
  apply List.filter_congr
  intro wh _
  rw [← Bool.decide_and, decide_eq_decide, List.mem_append, List.mem_singleton, not_or]
  exact And.comm

/-- A request that only reads leaves the subscribers. -/
theorem subscribers_concat_read {past : List (webhookServer isUrl operatorSecretKey).Commit}
    {c : (webhookServer isUrl operatorSecretKey).Commit}
    (hregistered : registered c = none) (hremoved : removed c = none) :
    subscribers (past ++ [c]) = subscribers past := by
  rw [subscribers, List.filterMap_append, List.filterMap_append, List.filterMap_cons_none hregistered,
    List.filterMap_cons_none hremoved, List.filterMap_nil, List.filterMap_nil, List.append_nil,
    List.append_nil, subscribers]

/-- A committed request keeps the stored webhooks the subscribers. -/
theorem StoresSubscribers.step {past : List (webhookServer isUrl operatorSecretKey).Commit}
    {c : (webhookServer isUrl operatorSecretKey).Commit} (h : StoresSubscribers past c.pre)
    (hunique : (((past ++ [c]).filterMap registered).map WebhookConfig.id).Nodup) :
    StoresSubscribers (past ++ [c]) c.post := by
  cases effect c with
  | registers wh hid hregistered hremoved hpost =>
    rw [List.filterMap_append, List.filterMap_cons_some hregistered, List.filterMap_nil,
      List.map_append, List.map_singleton, List.nodup_append] at hunique
    have hnew : wh.id ∉ (past.filterMap registered).map WebhookConfig.id :=
      fun hmem => hunique.2.2 _ hmem _ (List.mem_singleton_self _) rfl
    constructor
    · have hkey : wh.id ∉ c.pre.entries.map Prod.fst := fun hmem => hnew (h.mem_registered hmem)
      have hnot : wh.id ∉ past.filterMap Backend.removed := fun hmem => hnew (h.removed _ hmem)
      have hset : c.post.entries = c.pre.entries ++ [(wh.id, wh)] := by
        rw [hpost, InsertionMap.set, dif_neg hkey]
      rw [hset, h.entries, subscribers_concat_registered hregistered hremoved hnot, List.map_append,
        List.map_singleton]
    · intro id hmem
      rw [List.filterMap_append, List.filterMap_cons_none hremoved, List.filterMap_nil,
        List.append_nil] at hmem
      rw [List.filterMap_append, List.map_append]
      exact List.mem_append_left _ (h.removed id hmem)
  | removes id hregistered hremoved hthere hpost =>
    have hregistrations : (past ++ [c]).filterMap registered = past.filterMap registered := by
      rw [List.filterMap_append, List.filterMap_cons_none hregistered, List.filterMap_nil,
        List.append_nil]
    constructor
    · have hdelete : c.post.entries = c.pre.entries.filter fun e => e.1 ≠ id := by
        rw [hpost]
        rfl
      rw [hdelete, h.entries, subscribers_concat_removed hregistered hremoved, List.filter_map]
      rfl
    · intro id' hmem
      rw [hregistrations]
      rw [List.filterMap_append, List.filterMap_cons_some hremoved, List.filterMap_nil,
        List.mem_append, List.mem_singleton] at hmem
      rcases hmem with hmem | rfl
      · exact h.removed id' hmem
      · obtain ⟨wh, hwh⟩ := Option.isSome_iff_exists.mp hthere
        exact h.mem_registered (List.mem_map_of_mem (InsertionMap.get_eq_some_iff.mp hwh))
  | reads hregistered hremoved hpost =>
    constructor
    · rw [hpost, h.entries, subscribers_concat_read hregistered hremoved]
    · intro id hmem
      rw [List.filterMap_append, List.filterMap_cons_none hremoved, List.filterMap_nil,
        List.append_nil] at hmem
      rw [List.filterMap_append, List.map_append]
      exact List.mem_append_left _ (h.removed id hmem)

/-- The ids of the registered webhooks are drawn by the calls of the run. -/
theorem registered_sublist (store : WebhookStore) (calls : List (Host × WebhookCall)) :
    List.Sublist
      ((((webhookServer isUrl operatorSecretKey).history store calls).filterMap registered).map
        WebhookConfig.id)
      (calls.map fun call => call.1.randomUUID) := by
  induction calls generalizing store with
  | nil => exact List.nil_sublist []
  | cons call calls ih =>
    rw [Transactional.history_cons, List.map_cons]
    rcases (webhookServer isUrl operatorSecretKey).commit?_cases store call with
      ⟨c, -, rfl, -, hc⟩ | ⟨-, -, hc⟩
    · rw [hc, Option.toList_some, List.singleton_append]
      cases effect c with
      | registers wh hid hregistered hremoved hpost =>
        rw [List.filterMap_cons_some hregistered, List.map_cons, hid]
        exact (ih _).cons_cons _
      | removes id hregistered hremoved hthere hpost =>
        rw [List.filterMap_cons_none hregistered]
        exact (ih _).cons _
      | reads hregistered hremoved hpost =>
        rw [List.filterMap_cons_none hregistered]
        exact (ih _).cons _
    · rw [hc, Option.toList_none, List.nil_append]
      exact (ih _).cons _

/-- The stored webhooks are the subscribers in every reachable state, while ids are not used twice. -/
theorem storesSubscribers {calls : List (Host × WebhookCall)} (hunique : UniqueIds calls) :
    StoresSubscribers ((webhookServer isUrl operatorSecretKey).history ∅ calls)
      ((webhookServer isUrl operatorSecretKey).run ∅ calls) := by
  refine Transactional.history_invariant
    (P := fun past store => ((past.filterMap registered).map WebhookConfig.id).Nodup →
      StoresSubscribers past store) ?_ ?_ calls ((registered_sublist ∅ calls).nodup hunique)
  · intro past c h hnodup
    refine (h (hnodup.sublist ?_)).step hnodup
    exact ((List.sublist_append_left past [c]).filterMap registered).map WebhookConfig.id
  · exact fun _ => ⟨rfl, by simp⟩

/-! ### Events -/

/-- A loop that throws nothing has handled every element. -/
theorem mapM_eq_ok_iff {α β ε : Type} {f : α → Except ε β} {xs : List α} {ys : List β} :
    xs.mapM f = .ok ys ↔ List.Forall₂ (fun x y => f x = .ok y) xs ys := by
  induction xs generalizing ys with
  | nil =>
    rw [List.mapM_nil, List.forall₂_nil_left_iff]
    exact ⟨fun h => (Except.ok.inj h).symm, fun h => congrArg Except.ok h.symm⟩
  | cons x xs ih =>
    rw [List.mapM_cons, List.forall₂_cons_left_iff]
    constructor
    · intro h
      cases hx : f x with
      | error e =>
        rw [hx] at h
        cases h
      | ok y =>
        cases hxs : xs.mapM f with
        | error e =>
          rw [hx, hxs] at h
          cases h
        | ok ys' =>
          rw [hx, hxs] at h
          cases h
          exact ⟨y, ys', rfl, ih.mp hxs, rfl⟩
    · rintro ⟨y, ys', hx, hxs, rfl⟩
      rw [hx, ih.mpr hxs]
      rfl

/-- A delivery is made from its webhook and the event. -/
theorem deliver_eq_ok_iff {type : String} {payload : JsonValue} {wh : WebhookConfig}
    {delivery : Delivery} :
    deliver H type payload wh = .ok delivery ↔ MadeFor H type payload wh delivery := by
  constructor
  · intro h
    cases hbody : stringify H (webhookPayload H type payload) with
    | error e =>
      have herror : deliver H type payload wh = .error e := by
        rw [deliver, ← webhookPayload, hbody]
        rfl
      rw [herror] at h
      cases h
    | ok bodyStr =>
      have hok : deliver H type payload wh =
          .ok { url := wh.url, bodyStr, signature := "sha256=" ++ H.hmacSha256 wh.secret bodyStr } := by
        rw [deliver, ← webhookPayload, hbody]
        rfl
      obtain rfl := Except.ok.inj (hok.symm.trans h)
      exact ⟨rfl, hbody, rfl⟩
  · rintro ⟨hurl, hbody, hsignature⟩
    rw [deliver, ← webhookPayload, hbody]
    show Except.ok (Delivery.mk wh.url delivery.bodyStr
      ("sha256=" ++ H.hmacSha256 wh.secret delivery.bodyStr)) = Except.ok delivery
    rw [← hurl, ← hsignature]

/-- An event is delivered to the webhooks that want it, in order. -/
theorem emit_eq_ok_iff {webhooks : List WebhookConfig} {type : String} {payload : JsonValue}
    {deliveries : List Delivery} :
    Backend.emit H webhooks type payload = .ok deliveries ↔
      List.Forall₂ (MadeFor H type payload)
        (if type ∈ eventTypes then webhooks.filter (·.Matches type) else []) deliveries := by
  rw [Backend.emit]
  split
  · rw [mapM_eq_ok_iff]
    simp only [deliver_eq_ok_iff]
  · rw [List.forall₂_nil_left_iff]
    exact ⟨fun h => (Except.ok.inj h).symm, fun h => congrArg Except.ok h.symm⟩

/-- `POST /` with the key, for all events. -/
def subscribe (uuid url : String) : Host × WebhookCall :=
  ({ epoch with randomUUID := uuid },
    .post (some "Bearer key")
      ((((∅ : JsonObject).set "url" (.string url)).set "secret" (.string "password")).set "events"
        (.array [.string "*"])))

/-- Of two webhooks, the first is deleted. -/
def oneLeft : List (Host × WebhookCall) :=
  [subscribe "a" "https://a", subscribe "b" "https://b",
    ({ epoch with randomUUID := "c" }, .delete (some "Bearer key") "a")]

end LineProof.Backend
