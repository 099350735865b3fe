import LineProof.Backend.Webhooks
import LineProof.Lib.Tasks

/-!
# Deliveries of webhooks

Reference: `sendWithRetry` of `backend/src/services/webhookDispatcher.ts`.

A delivery that an event starts runs on by itself: it posts its body, and after a failure it waits and posts
again, four times at most. Requests to the routes, events, answers of the subscribers and timers come in any
order. The deliveries under way are those that the events started, each of them between its own rounds
(`every_delivery_is_sent`).
-/

namespace LineProof.Backend

/-! ## One delivery -/

deriving instance DecidableEq for Delivery

/-- What a delivery awaits. -/
inductive SendRequest
  /-- `fetch`, a POST of the body with its signature -/
  | fetch (delivery : Delivery)
  /-- `setTimeout`, in milliseconds -/
  | sleep (delay : ℕ)
deriving DecidableEq

/-- `fetch` answers with a status, or it throws an error with a message. -/
def SendRequest.Answer : SendRequest → Type
  | .fetch _ => Except String ℕ
  | .sleep _ => Unit

/-- A call of `sendWithRetry`. -/
abbrev SendTask := Task SendRequest SendRequest.Answer (Except String Unit)

/-- The body of the `try`: a status that is no success is thrown as well. -/
def received : Except String ℕ → Except String Unit
  | .ok status => if 200 ≤ status ∧ status < 300 then .ok () else .error ("HTTP " ++ toString status)
  | .error message => .error message

/-- `BACKOFF_BASE_DELAY`. -/
def backoffBaseDelay : ℕ := 1000

/-- Posts once and, on a failure, waits and starts over until the attempts are used up. -/
def sendWithRetry (delivery : Delivery) (attempt : ℕ) : SendTask :=
  .await (.fetch delivery) fun answer =>
    match received answer with
    | .ok () => .done (.ok ())
    | .error err =>
      if 4 ≤ attempt then .done (.error err)
      else
        .await (.sleep (backoffBaseDelay * 2 ^ (attempt - 1))) fun _ =>
          sendWithRetry delivery (attempt + 1)
termination_by 4 - attempt

/-! ## The dispatcher -/

/-- The registry and the deliveries under way. -/
structure Dispatcher where
  webhooks : WebhookStore
  deliveries : List SendTask

/-- No webhook and no delivery. -/
def Dispatcher.initial : Dispatcher := ⟨∅, []⟩

/-- What may happen in one turn. -/
inductive DispatcherCall
  /-- a request to the routes, or an event -/
  | server (H : Host) (call : WebhookCall)
  /-- the answer to what the delivery `i` awaits -/
  | answer (i : ℕ) (exchange : Exchange SendRequest.Answer)

/-- The deliveries that a reply starts. -/
def WebhookReply.deliveries : WebhookReply → List Delivery
  | .started deliveries => deliveries
  | _ => []

section Calls

variable (isUrl : String → Bool) (operatorSecretKey : Option String)

/-- An answer that nothing awaits does not come. -/
def DispatcherCall.exec (d : Dispatcher) :
    DispatcherCall → Except (Option ServiceError) (Option WebhookReply × Dispatcher)
  | .server H call =>
    match (webhookServer isUrl operatorSecretKey).exec (H, call) d.webhooks with
    | .error e => .error (some e)
    | .ok (reply, webhooks) =>
      .ok (some reply,
        { webhooks, deliveries := d.deliveries ++ reply.deliveries.map (sendWithRetry · 1) })
  | .answer i exchange =>
    match Task.exchangeAt i exchange d.deliveries with
    | none => .error none
    | some deliveries => .ok (none, { d with deliveries })

/-- The routes and the deliveries they started, side by side. -/
def dispatcher :
    Transactional Dispatcher DispatcherCall (Option WebhookReply) (Option ServiceError) where
  exec call d := call.exec isUrl operatorSecretKey d

end Calls

/-- The request to the server among the calls. -/
def DispatcherCall.request? : DispatcherCall → Option (Host × WebhookCall)
  | .server H call => some (H, call)
  | .answer .. => none

variable {isUrl : String → Bool} {operatorSecretKey : Option String}

/-- What a commit answers, and to which delivery. -/
def exchanged (c : (dispatcher isUrl operatorSecretKey).Commit) :
    Option (ℕ × Exchange SendRequest.Answer) :=
  match c.call with
  | .server .. => none
  | .answer i exchange => some (i, exchange)

/-- The deliveries that the events of a run start. -/
def startedDeliveries (past : List (webhookServer isUrl operatorSecretKey).Commit) : List Delivery :=
  past.flatMap fun c => c.out.deliveries

/-! ## Rounds -/

/-- A failed attempt. -/
def Fails (answer : Except String ℕ) : Prop := ∃ err, received answer = .error err

/-- The first `n` attempts failed, and each was followed by its delay. -/
inductive FailedRounds (delivery : Delivery) : ℕ → List (Exchange SendRequest.Answer) → Prop
  | none : FailedRounds delivery 0 []
  | again {n : ℕ} {exchanges : List (Exchange SendRequest.Answer)} {answer : Except String ℕ}
      (before : FailedRounds delivery n exchanges) (fails : Fails answer) :
    FailedRounds delivery (n + 1)
      (exchanges ++ [⟨.fetch delivery, answer⟩, ⟨.sleep (1000 * 2 ^ n), ()⟩])

/-- Where a delivery is after its exchanges. -/
inductive Sending (delivery : Delivery) : List (Exchange SendRequest.Answer) → SendTask → Prop
  /-- it has been sent one time more than it failed -/
  | fetching {n : ℕ} {exchanges : List (Exchange SendRequest.Answer)}
      (rounds : FailedRounds delivery n exchanges) (le : n ≤ 3) :
    Sending delivery exchanges (sendWithRetry delivery (n + 1))
  | sleeping {n : ℕ} {exchanges : List (Exchange SendRequest.Answer)} {answer : Except String ℕ}
      (rounds : FailedRounds delivery n exchanges) (lt : n < 3) (fails : Fails answer) :
    Sending delivery (exchanges ++ [⟨.fetch delivery, answer⟩])
      (.await (.sleep (1000 * 2 ^ n)) fun _ => sendWithRetry delivery (n + 2))
  | delivered {n : ℕ} {exchanges : List (Exchange SendRequest.Answer)} {answer : Except String ℕ}
      (rounds : FailedRounds delivery n exchanges) (le : n ≤ 3) (succeeds : received answer = .ok ()) :
    Sending delivery (exchanges ++ [⟨.fetch delivery, answer⟩]) (.done (.ok ()))
  | failed {exchanges : List (Exchange SendRequest.Answer)} {answer : Except String ℕ} {err : String}
      (rounds : FailedRounds delivery 3 exchanges) (fails : received answer = .error err) :
    Sending delivery (exchanges ++ [⟨.fetch delivery, answer⟩]) (.done (.error err))

/-- The delivery that a request posts. -/
def SendRequest.delivery? : SendRequest → Option Delivery
  | .fetch delivery => some delivery
  | .sleep _ => none

/-- What has been posted by now: the requests that were answered, and the one that is awaited. -/
def posts (exchanges : List (Exchange SendRequest.Answer)) (task : SendTask) : List Delivery :=
  (exchanges.map Sigma.fst ++ task.pending?.toList).filterMap SendRequest.delivery?

variable {delivery : Delivery} {exchanges : List (Exchange SendRequest.Answer)} {task : SendTask} {n : ℕ}

/-! ### Steps -/

/-- Nothing has been answered when a delivery starts. -/
theorem sending_start (delivery : Delivery) : Sending delivery [] (sendWithRetry delivery 1) :=
  .fetching .none (Nat.zero_le 3)

/-- A delivery goes on after an answer. -/
theorem Sending.step {request : SendRequest} {resume : request.Answer → SendTask}
    (h : Sending delivery exchanges (.await request resume)) (answer : request.Answer) :
    Sending delivery (exchanges ++ [⟨request, answer⟩]) (resume answer) := by
  generalize hawait : Task.await request resume = task at h
  cases h with
  | @fetching n _ rounds le =>
    rw [sendWithRetry] at hawait
    cases hawait
    show Sending delivery _ (match received answer with
      | .ok () => _
      | .error err => _)
    cases hreceived : received answer with
    | ok => exact .delivered rounds le hreceived
    | error err =>
      by_cases hlast : 4 ≤ n + 1
      · obtain rfl : n = 3 := by omega
        simp only [if_pos hlast]
        exact .failed rounds hreceived
      · simp only [if_neg hlast]
        exact .sleeping rounds (by omega) ⟨err, hreceived⟩
  | sleeping rounds lt fails =>
    cases hawait
    rw [List.append_assoc]
    exact .fetching (.again rounds fails) (by omega)
  | delivered => cases hawait
  | failed => cases hawait

/-- Every answer leaves the delivery in one of its stages. -/
theorem sending_after (h : (sendWithRetry delivery 1).after exchanges = some task) :
    Sending delivery exchanges task := by
  refine Task.after_invariant (sending_start delivery) ?_ h
  intro exchanges request resume answer hsending
  exact hsending.step answer

/-- Each failed round has posted the delivery once. -/
theorem FailedRounds.posts (h : FailedRounds delivery n exchanges) :
    (exchanges.map Sigma.fst).filterMap SendRequest.delivery? = List.replicate n delivery := by
  induction h with
  | none => rfl
  | again before fails ih =>
    rw [List.map_append, List.filterMap_append, ih, List.replicate_succ']
    rfl

/-- An answer to a post counts that post. -/
theorem posts_concat (answer : Except String ℕ) (task : SendTask) :
    posts (exchanges ++ [⟨.fetch delivery, answer⟩]) task =
      (exchanges.map Sigma.fst).filterMap SendRequest.delivery? ++
        delivery :: task.pending?.toList.filterMap SendRequest.delivery? := by
  rw [posts, List.map_append, List.append_assoc, List.filterMap_append]
  rfl

/-- A delivery has been posted between one and four times, always the same. -/
theorem Sending.posts (h : Sending delivery exchanges task) :
    ∃ k, 1 ≤ k ∧ k ≤ 4 ∧ Backend.posts exchanges task = List.replicate k delivery := by
  cases h with
  | @fetching n _ rounds le =>
    refine ⟨n + 1, by omega, by omega, ?_⟩
    have hpending : (sendWithRetry delivery (n + 1)).pending? = some (.fetch delivery) := by
      rw [sendWithRetry]
      rfl
    rw [Backend.posts, hpending, List.filterMap_append, rounds.posts, List.replicate_succ']
    rfl
  | @sleeping n _ _ rounds lt fails =>
    refine ⟨n + 1, by omega, by omega, ?_⟩
    rw [posts_concat, rounds.posts, List.replicate_succ']
    rfl
  | @delivered n _ _ rounds le succeeds =>
    refine ⟨n + 1, by omega, by omega, ?_⟩
    rw [posts_concat, rounds.posts, List.replicate_succ']
    rfl
  | @failed _ _ _ rounds fails =>
    refine ⟨4, by omega, by omega, ?_⟩
    rw [posts_concat, rounds.posts]
    rfl

/-! ### Runs -/

section Run

variable {d : Dispatcher} {H : Host} {call : WebhookCall}

/-- A request that is refused leaves the deliveries alone. -/
theorem exec_server_error {e : ServiceError}
    (h : (webhookServer isUrl operatorSecretKey).exec (H, call) d.webhooks = .error e) :
    (dispatcher isUrl operatorSecretKey).exec (.server H call) d = .error (some e) := by
  simp only [dispatcher, DispatcherCall.exec, h]

/-- A request starts the deliveries of its event. -/
theorem exec_server_ok {reply : WebhookReply} {webhooks : WebhookStore}
    (h : (webhookServer isUrl operatorSecretKey).exec (H, call) d.webhooks = .ok (reply, webhooks)) :
    (dispatcher isUrl operatorSecretKey).exec (.server H call) d =
      .ok (some reply,
        ⟨webhooks, d.deliveries ++ reply.deliveries.map (sendWithRetry · 1)⟩) := by
  simp only [dispatcher, DispatcherCall.exec, h]

/-- No answer comes to a delivery that waits for none. -/
theorem exec_answer_none {i : ℕ} {exchange : Exchange SendRequest.Answer}
    (h : Task.exchangeAt i exchange d.deliveries = none) :
    (dispatcher isUrl operatorSecretKey).exec (.answer i exchange) d = .error none := by
  simp only [dispatcher, DispatcherCall.exec, h]

/-- An answer moves one delivery. -/
theorem exec_answer_some {i : ℕ} {exchange : Exchange SendRequest.Answer} {deliveries : List SendTask}
    (h : Task.exchangeAt i exchange d.deliveries = some deliveries) :
    (dispatcher isUrl operatorSecretKey).exec (.answer i exchange) d =
      .ok (none, ⟨d.webhooks, deliveries⟩) := by
  simp only [dispatcher, DispatcherCall.exec, h]

variable (isUrl operatorSecretKey)

/-- The registry behaves as if there were no deliveries under way, and the deliveries are those that its
events started. -/
structure DispatcherOk (calls : List DispatcherCall) : Prop where
  webhooks : ((dispatcher isUrl operatorSecretKey).run .initial calls).webhooks =
    (webhookServer isUrl operatorSecretKey).run ∅ (calls.filterMap DispatcherCall.request?)
  deliveries : Task.Explains
    ((startedDeliveries ((webhookServer isUrl operatorSecretKey).history ∅
      (calls.filterMap DispatcherCall.request?))).map (sendWithRetry · 1))
    (((dispatcher isUrl operatorSecretKey).history .initial calls).filterMap exchanged)
    ((dispatcher isUrl operatorSecretKey).run .initial calls).deliveries

variable {isUrl operatorSecretKey} {calls : List DispatcherCall}

/-- A request keeps the account of deliveries. -/
theorem DispatcherOk.server (h : DispatcherOk isUrl operatorSecretKey calls) (H : Host)
    (call : WebhookCall) :
    DispatcherOk isUrl operatorSecretKey (calls ++ [.server H call]) := by
  have hrequests : (calls ++ [DispatcherCall.server H call]).filterMap DispatcherCall.request? =
      calls.filterMap DispatcherCall.request? ++ [(H, call)] := by
    rw [List.filterMap_append]
    rfl
  cases hexec : (webhookServer isUrl operatorSecretKey).exec (H, call)
      ((dispatcher isUrl operatorSecretKey).run .initial calls).webhooks with
  | error e =>
    have herror := exec_server_error hexec
    rw [h.webhooks] at hexec
    constructor
    · rw [hrequests, Transactional.run_concat, Transactional.run_concat,
        Transactional.next_of_error herror, Transactional.next_of_error hexec]
      exact h.webhooks
    · rw [hrequests, Transactional.history_concat, Transactional.history_concat,
        Transactional.run_concat, Transactional.commit?_of_error herror,
        Transactional.commit?_of_error hexec, Transactional.next_of_error herror,
        Option.toList_none, Option.toList_none, List.append_nil, List.append_nil]
      exact h.deliveries
  | ok r =>
    obtain ⟨reply, webhooks⟩ := r
    have hok := exec_server_ok hexec
    rw [h.webhooks] at hexec
    constructor
    · rw [hrequests, Transactional.run_concat, Transactional.run_concat,
        Transactional.next_of_ok hok, Transactional.next_of_ok hexec]
    · rw [hrequests, Transactional.history_concat, Transactional.history_concat,
        Transactional.run_concat, Transactional.commit?_of_ok hok,
        Transactional.commit?_of_ok hexec, Transactional.next_of_ok hok, Option.toList_some,
        Option.toList_some, List.filterMap_append, startedDeliveries, List.flatMap_append,
        List.flatMap_singleton, List.map_append, List.filterMap_cons_none rfl, List.filterMap_nil,
        List.append_nil]
      exact h.deliveries.start _

/-- An answer keeps the account of deliveries. -/
theorem DispatcherOk.answer (h : DispatcherOk isUrl operatorSecretKey calls) (i : ℕ)
    (exchange : Exchange SendRequest.Answer) :
    DispatcherOk isUrl operatorSecretKey (calls ++ [.answer i exchange]) := by
  have hrequests : (calls ++ [DispatcherCall.answer i exchange]).filterMap DispatcherCall.request? =
      calls.filterMap DispatcherCall.request? := by
    rw [List.filterMap_append]
    exact List.append_nil _
  cases hexchange : Task.exchangeAt i exchange
      ((dispatcher isUrl operatorSecretKey).run .initial calls).deliveries with
  | none =>
    have herror : (dispatcher isUrl operatorSecretKey).exec (.answer i exchange)
        ((dispatcher isUrl operatorSecretKey).run .initial calls) = .error none :=
      exec_answer_none hexchange
    constructor
    · rw [hrequests, Transactional.run_concat, Transactional.next_of_error herror]
      exact h.webhooks
    · rw [hrequests, Transactional.history_concat, Transactional.run_concat,
        Transactional.commit?_of_error herror, Transactional.next_of_error herror, Option.toList_none,
        List.append_nil]
      exact h.deliveries
  | some deliveries =>
    have hok : (dispatcher isUrl operatorSecretKey).exec (.answer i exchange)
        ((dispatcher isUrl operatorSecretKey).run .initial calls) =
        .ok (none, ⟨((dispatcher isUrl operatorSecretKey).run .initial calls).webhooks, deliveries⟩) :=
      exec_answer_some hexchange
    have hexchanged : exchanged ⟨_, .answer i exchange, none, _, hok⟩ = some (i, exchange) := rfl
    constructor
    · rw [hrequests, Transactional.run_concat, Transactional.next_of_ok hok]
      exact h.webhooks
    · rw [hrequests, Transactional.history_concat, Transactional.run_concat,
        Transactional.commit?_of_ok hok, Transactional.next_of_ok hok, Option.toList_some,
        List.filterMap_append, List.filterMap_cons_some hexchanged, List.filterMap_nil]
      exact h.deliveries.exchange hexchange

variable (isUrl operatorSecretKey) in
/-- The account of deliveries holds in every reachable state. -/
theorem dispatcherOk (calls : List DispatcherCall) : DispatcherOk isUrl operatorSecretKey calls := by
  induction calls using List.reverseRecOn with
  | nil => exact ⟨rfl, Task.explains_nil⟩
  | append_singleton calls call ih =>
    cases call with
    | server H call => exact ih.server H call
    | answer i exchange => exact ih.answer i exchange

end Run

/-- In every reachable state each delivery that an event started is under way, done, or given up after the
last attempt, and was posted as often as its stage says. -/
theorem every_delivery_is_sent (isUrl : String → Bool) (operatorSecretKey : Option String)
    (calls : List DispatcherCall) :
    let d := (dispatcher isUrl operatorSecretKey).run .initial calls
    let log := ((dispatcher isUrl operatorSecretKey).history .initial calls).filterMap exchanged
    let requests := calls.filterMap DispatcherCall.request?
    let started := startedDeliveries ((webhookServer isUrl operatorSecretKey).history ∅ requests)
    d.webhooks = (webhookServer isUrl operatorSecretKey).run ∅ requests ∧
      d.deliveries.length = started.length ∧
      ∀ i task, d.deliveries[i]? = some task → ∃ delivery k, started[i]? = some delivery ∧
        Sending delivery (Task.exchangesOf i log) task ∧ 1 ≤ k ∧ k ≤ 4 ∧
        posts (Task.exchangesOf i log) task = List.replicate k delivery := by
  intro d log requests started
  obtain ⟨hwebhooks, hdeliveries⟩ := dispatcherOk isUrl operatorSecretKey calls
  refine ⟨hwebhooks, by rw [hdeliveries.length, List.length_map], ?_⟩
  intro i task hi
  obtain ⟨fresh, hfresh, hafter⟩ := hdeliveries.task i task hi
  rw [List.getElem?_map] at hfresh
  obtain ⟨delivery, hdelivery, rfl⟩ := Option.map_eq_some_iff.mp hfresh
  have hsending := sending_after hafter
  obtain ⟨k, hpos, hle, hposts⟩ := hsending.posts
  exact ⟨delivery, k, hdelivery, hsending, hpos, hle, hposts⟩

end LineProof.Backend
