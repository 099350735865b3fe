import Mathlib.Data.PNat.Basic
import LineProof.Backend.QueueStats
import LineProof.Queue.Lifecycle

/-!
# The two lifecycles of a queue

The queue service and the queue contract move the status of a queue through the same calls. The service
takes a call for the status the queue already has as done, where the contract refuses it, and starts the
advancement also when nobody waits, where the contract does not. Otherwise the same calls are accepted and
lead to the same status (`lifecycles_agree`).
-/

namespace LineProof.Backend

open Soroban

/-- The calls that move the status. -/
inductive LifecycleCall
  | openEnrollment
  | closeEnrollment
  | advance (batchSize : ℕ+)
  | close

/-- The call of the service. -/
def LifecycleCall.service (id : String) : LifecycleCall → ServiceCall
  | .openEnrollment => .openEnrollment id
  | .closeEnrollment => .closeEnrollment id
  | .advance batchSize => .advanceQueue id (batchSize : ℕ)
  | .close => .closeQueue id

/-- The call of the contract. -/
def LifecycleCall.entrypoint (admin : Address) : LifecycleCall → Queue.Entrypoint
  | .openEnrollment => .openEnrollment admin
  | .closeEnrollment => .closeEnrollment admin
  | .advance batchSize => .advance admin batchSize
  | .close => .close admin

/-- A participant enrolls, or the administrator makes a lifecycle call. -/
inductive LifecycleStep
  | enroll (timestamp : ℕ) (now : String) (identity : Address)
  | call (timestamp : ℕ) (call : LifecycleCall)

/-- What the step asks of the service. -/
def LifecycleStep.service (id : String) : LifecycleStep → ServiceCall
  | .enroll _ now identity => .enrollment (.enrollIdentity now id identity.strkey)
  | .call _ c => c.service id

/-- What the step asks of the contract, signed by who may ask it. -/
def LifecycleStep.invocation (admin contract : Address) : LifecycleStep → Invocation Queue.Entrypoint
  | .enroll timestamp _ identity => ⟨⟨timestamp, [identity], contract⟩, .enrollPosition identity⟩
  | .call timestamp c => ⟨⟨timestamp, [admin], contract⟩, c.entrypoint admin⟩

/-- The service after the steps. -/
def serviceAfter (s : ServiceState) (id : String) (steps : List LifecycleStep) : ServiceState :=
  services.run s (steps.map (·.service id))

/-- The contract after the steps. -/
def contractAfter (d : Queue.Deployment) (steps : List LifecycleStep) : Ledger Queue.Store :=
  Queue.queue.run d.start (steps.map (·.invocation d.admin d.env.currentContract))

/-- The service does not throw. -/
def ServiceAccepts (s : ServiceState) (id : String) (call : LifecycleCall) : Prop :=
  ∃ r, (call.service id).exec s = .ok r

/-- The contract does not panic. -/
def ContractAccepts (d : Queue.Deployment) (l : Ledger Queue.Store) (timestamp : ℕ)
    (call : LifecycleCall) : Prop :=
  Succeeds (Queue.exec (call.entrypoint d.admin)) ⟨timestamp, [d.admin], d.env.currentContract⟩ l

/-- The status of the queue in the service. -/
def queueStatus (id : String) (s : ServiceState) : Option QueueStatus :=
  (getQueueById id s).map (·.status)

/-- The status of the contract under the same name. -/
def QueueStatus.onChain : QueueStatus → Queue.QueueStatus
  | .draft => .draft
  | .enrollmentOpen => .enrollmentOpen
  | .enrollmentClosed => .enrollmentClosed
  | .advancementActive => .advancementActive
  | .closed => .closed

/-- The status `persistTransition` is asked for. -/
def LifecycleCall.target : LifecycleCall → QueueStatus
  | .openEnrollment => .enrollmentOpen
  | .closeEnrollment => .enrollmentClosed
  | .advance _ => .advancementActive
  | .close => .closed

/-- The call asks for the status the queue of the service has, and is no `advance`. -/
def Repeats (s : ServiceState) (id : String) (call : LifecycleCall) : Prop :=
  queueStatus id s = some call.target ∧ call.target ≠ .advancementActive

/-- What the two lifecycles share after these steps. -/
structure LifecyclesAgree (d : Queue.Deployment) (s : ServiceState) (id : String)
    (steps : List LifecycleStep) : Prop where
  /-- Both accept the next call, unless it repeats the last one. -/
  accepts : ∀ timestamp call,
    ServiceAccepts (serviceAfter s id steps) id call ↔
      ContractAccepts d (contractAfter d steps) timestamp call ∨
        Repeats (serviceAfter s id steps) id call
  /-- A repeated call changes nothing: the service does nothing, and the contract refuses it. -/
  repeated : ∀ timestamp call, Repeats (serviceAfter s id steps) id call →
    services.next (serviceAfter s id steps) (call.service id) = serviceAfter s id steps ∧
      ¬ ContractAccepts d (contractAfter d steps) timestamp call
  /-- Both are in the same status, except that the contract does not start to advance when there is
  nobody. -/
  status : ∃ a b, queueStatus id (serviceAfter s id steps) = some a ∧
    (contractAfter d steps).store.status = some b ∧
    if a = .advancementActive ∧ (contractAfter d steps).store.totalEnrolled = 0 then
      b = .enrollmentClosed
    else b = a.onChain

/-! ## The statuses alone -/

/-- The status the service moves to, if it accepts the call. -/
def LifecycleCall.serviceNext (call : LifecycleCall) (status : QueueStatus) : Option QueueStatus :=
  if status = call.target ∨ call.target ∈ validTransitions status then some call.target else none

/-- The status the contract moves to with `n` participants, if it accepts the call. -/
def LifecycleCall.contractNext (n : ℕ) : LifecycleCall → Queue.QueueStatus → Option Queue.QueueStatus
  | .openEnrollment, .draft => some .enrollmentOpen
  | .closeEnrollment, .enrollmentOpen => some .enrollmentClosed
  | .advance _, .enrollmentClosed => some (if n = 0 then .enrollmentClosed else .advancementActive)
  | .advance _, .advancementActive => some .advancementActive
  | .close, .draft | .close, .enrollmentOpen | .close, .enrollmentClosed
  | .close, .advancementActive => some .closed
  | _, _ => none

/-- The status of the contract where the service has `status` and there are `n` participants. -/
def QueueStatus.withParticipants (n : ℕ) (status : QueueStatus) : Queue.QueueStatus :=
  if status = .advancementActive ∧ n = 0 then .enrollmentClosed else status.onChain

/-- What the service refuses the contract refuses, and they move alike but for a repeated status. -/
theorem next_agrees (n : ℕ) (status : QueueStatus) (call : LifecycleCall) :
    (call.serviceNext status = none → call.contractNext n (status.withParticipants n) = none) ∧
      ∀ next, call.serviceNext status = some next →
        if status = call.target ∧ call.target ≠ .advancementActive then
          next = status ∧ call.contractNext n (status.withParticipants n) = none
        else call.contractNext n (status.withParticipants n) = some (next.withParticipants n) := by
  have hn : n = 0 ∨ n ≠ 0 := eq_or_ne n 0
  rcases hn with hn | hn <;> cases status <;> cases call <;>
    simp [LifecycleCall.serviceNext, LifecycleCall.contractNext, LifecycleCall.target, validTransitions,
      QueueStatus.withParticipants, QueueStatus.onChain, hn]

/-! ## The service -/

/-- A transition is allowed to the same status or along an edge of the table. -/
theorem transitionQueueStatus_eq_ok {current next : QueueStatus} :
    transitionQueueStatus current next = .ok () ↔
      current = next ∨ next ∈ validTransitions current := by
  unfold transitionQueueStatus
  split
  · case _ heq => simp [heq]
  · case _ hne =>
    split
    · case _ hvalid => simp [hvalid]
    · case _ hinvalid => simp [hne, hinvalid]

variable {s : ServiceState} {id : String} {queue : Queue} {status next : QueueStatus}
  {call : LifecycleCall}

/-- The service moves to the call's target where the table allows it. -/
theorem serviceNext_eq_some :
    call.serviceNext status = some next ↔
      transitionQueueStatus status call.target = .ok () ∧ next = call.target := by
  rw [LifecycleCall.serviceNext, transitionQueueStatus_eq_ok]
  split
  · case _ h => simp [h, eq_comm]
  · case _ h => simp [h]

/-- The service refuses where the table does. -/
theorem serviceNext_eq_none :
    call.serviceNext status = none ↔ transitionQueueStatus status call.target ≠ .ok () := by
  rw [LifecycleCall.serviceNext, Ne, transitionQueueStatus_eq_ok]
  split
  · case _ h => simp [h]
  · case _ h => simp [h]

/-- A saved queue has the saved status. -/
theorem queueStatus_saveQueue (h : ServiceOk s) (hok : QueueOk queue) :
    queueStatus queue.id (s.saveQueue queue) = some queue.status := by
  rw [queueStatus, (h.saveQueue hok).getQueueById_eq, ServiceState.saveQueue,
    InsertionMap.get_set_self, Option.map_some]

/-- How the service answers a lifecycle call on a queue with this status. -/
structure ServiceAnswers (s : ServiceState) (id : String) (call : LifecycleCall) : Prop where
  refused : ∀ status, queueStatus id s = some status → call.serviceNext status = none →
    ¬ ServiceAccepts s id call ∧ services.next s (call.service id) = s
  accepted : ∀ status next, queueStatus id s = some status → call.serviceNext status = some next →
    ServiceAccepts s id call ∧ queueStatus id (services.next s (call.service id)) = some next

/-- The answer follows from what the function of the call returns. -/
theorem serviceAnswers_of {x : Except ServiceError (Option Queue × ServiceState)}
    (hexec : (call.service id).exec s = (x >>= fun r => pure (.queue r.1, r.2)))
    (refused : ∀ queue, getQueueById id s = some queue →
      transitionQueueStatus queue.status call.target ≠ .ok () → ∃ e, x = .error e)
    (accepted : ∀ queue, getQueueById id s = some queue →
      transitionQueueStatus queue.status call.target = .ok () →
      ∃ queue' s', x = .ok (queue', s') ∧ queueStatus id s' = some call.target) :
    ServiceAnswers s id call where
  refused status hstatus hnext := by
    obtain ⟨queue, stored, rfl⟩ := Option.map_eq_some_iff.mp hstatus
    obtain ⟨e, he⟩ := refused queue stored (serviceNext_eq_none.mp hnext)
    rw [next_eq hexec, he]
    refine ⟨?_, rfl⟩
    rintro ⟨r, hr⟩
    rw [hexec, he] at hr
    cases hr
  accepted status next hstatus hnext := by
    obtain ⟨queue, stored, rfl⟩ := Option.map_eq_some_iff.mp hstatus
    obtain ⟨allowed, rfl⟩ := serviceNext_eq_some.mp hnext
    obtain ⟨queue', s', hx, hstatus'⟩ := accepted queue stored allowed
    rw [next_eq hexec, hx]
    refine ⟨⟨(.queue queue', s'), ?_⟩, hstatus'⟩
    rw [hexec, hx]
    rfl

/-- A call that only moves the queue answers by the table. -/
theorem moveTo_answers (h : ServiceOk s)
    (hexec : (call.service id).exec s =
      (moveTo call.target id s >>= fun r => pure (.queue r.1, r.2))) : ServiceAnswers s id call := by
  refine serviceAnswers_of hexec (fun queue stored => moveTo_error stored) ?_
  intro queue stored allowed
  obtain ⟨rfl, hok⟩ := h.ok stored
  exact ⟨_, _, moveTo_ok stored allowed, queueStatus_saveQueue h (hok.withStatus call.target)⟩

/-- Each of the four calls answers by the table. -/
theorem service_answers (h : ServiceOk s) (id : String) (call : LifecycleCall) :
    ServiceAnswers s id call := by
  cases call with
  | openEnrollment => exact moveTo_answers h rfl
  | closeEnrollment => exact moveTo_answers h rfl
  | close => exact moveTo_answers h rfl
  | advance batchSize =>
    refine serviceAnswers_of (x := advanceQueue id (batchSize : ℕ) s) rfl
      (fun queue stored => advanceQueue_error stored) ?_
    intro queue stored allowed
    obtain ⟨rfl, hok⟩ := h.ok stored
    exact ⟨_, _, advanceQueue_ok stored allowed,
      queueStatus_saveQueue (h.saveQueue (hok.withStatus .advancementActive)) (hok.advance _)⟩

/-- A repeated call leaves the service as it is. -/
theorem next_of_repeats (h : ServiceOk s) (hrepeats : Repeats s id call) :
    services.next s (call.service id) = s := by
  obtain ⟨hstatus, htarget⟩ := hrepeats
  obtain ⟨queue, stored, hqueue⟩ := Option.map_eq_some_iff.mp hstatus
  obtain ⟨rfl, -⟩ := h.ok stored
  have hmove : stateAfter s (moveTo call.target queue.id s) = s := by
    have allowed : transitionQueueStatus queue.status call.target = .ok () :=
      transitionQueueStatus_eq_ok.mpr (.inl hqueue)
    have hget : s.queues.get queue.id = some queue := by rw [← h.getQueueById_eq, stored]
    rw [moveTo_ok stored allowed, ← hqueue]
    show { s with queues := s.queues.set queue.id queue } = s
    rw [InsertionMap.set_of_get hget]
  cases call with
  | openEnrollment => exact (next_eq (f := .queue) rfl).trans hmove
  | closeEnrollment => exact (next_eq (f := .queue) rfl).trans hmove
  | close => exact (next_eq (f := .queue) rfl).trans hmove
  | advance => exact absurd rfl htarget

/-! ## The contract -/

variable {admin : Address} {st : Queue.QueueStatus} {store : Queue.Store} {env : Env}

/-- A FIFO queue of `admin` in status `st`. Nobody has been served before the advancement starts. -/
structure OnChain (admin : Address) (st : Queue.QueueStatus) (store : Queue.Store) : Prop where
  wellFormed : Queue.WellFormed store
  config : ∃ c, store.config = some c ∧ c.admin = admin ∧ c.advancementRule = .fifo ∧ c.status = st
  waiting : st ≠ .advancementActive → st ≠ .closed →
    store.idx.getD 0 = 0 ∧ ∀ i p, store.positions.lookup i = some p → p.status = .pending

/-- Before the first batch nobody has been served. -/
theorem OnChain.unserved (h : OnChain admin .enrollmentClosed store) :
    store.idx.getD 0 = 0 ∧ ∀ i p, store.positions.lookup i = some p → p.status = .pending :=
  h.waiting nofun nofun

/-- The first batch scans from the beginning. -/
theorem OnChain.scanLength_eq (h : OnChain admin .enrollmentClosed store) (batchSize : ℕ+) :
    Queue.scanLength store.positions store.totalCreated batchSize (store.idx.getD 0) =
      min (batchSize : ℕ) store.totalEnrolled := by
  rw [h.wellFormed.scanLength_eq, h.unserved.1, Queue.totalEnrolled_eq]
  rfl

/-- The first batch serves somebody, if there is anybody. -/
theorem OnChain.served_iff (h : OnChain admin .enrollmentClosed store) (batchSize : ℕ+) :
    store.servedBy batchSize = [] ↔ store.totalEnrolled = 0 := by
  obtain ⟨hidx, hpending⟩ := h.unserved
  have hlength := h.scanLength_eq batchSize
  constructor
  · intro hnil
    by_contra hne
    have hone := h.wellFormed.one_le_nextId
    have htotal := Queue.totalEnrolled_eq store
    have hbatch := batchSize.pos
    obtain ⟨p, hp⟩ := (h.wellFormed.dense 1).mpr ⟨le_rfl, by omega⟩
    -- the position of the first participant is in the batch
    have hmem : 1 ∈ store.servedBy batchSize := by
      refine List.mem_filter.mpr ⟨?_, ?_⟩
      · rw [Queue.Store.scannedBy, Queue.scanned, hlength, List.mem_range'_1]
        omega
      · exact decide_eq_true (Queue.statusAt_eq_some.mpr ⟨p, hp, hpending 1 p hp⟩)
    rw [hnil] at hmem
    exact List.not_mem_nil hmem
  · intro hzero
    rw [Queue.Store.servedBy, Queue.Store.scannedBy, Queue.scanned, hlength, hzero, Nat.min_zero]
    rfl

/-- The stored config has the tracked status. -/
theorem OnChain.status_eq (h : OnChain admin st store) {c : Queue.QueueConfig}
    (hc : store.config = some c) : c.status = st := by
  obtain ⟨c', hc', -, -, hst⟩ := h.config
  obtain rfl := Option.some.inj (hc.symm.trans hc')
  exact hst

/-- A call that only moves the status. -/
theorem OnChain.lifecycle (h : OnChain admin st store) {e : Queue.Entrypoint} {admin' : Address}
    {c : Queue.QueueConfig} {next : Queue.QueueStatus} (hc : store.config = some c)
    (edge : Queue.LifecycleCall e admin' c.status next)
    (wellFormed : Queue.WellFormed { store with config := some { c with status := next } }) :
    OnChain admin next { store with config := some { c with status := next } } where
  wellFormed := wellFormed
  config := by
    obtain ⟨c', hc', hadmin, hrule, -⟩ := h.config
    obtain rfl := Option.some.inj (hc.symm.trans hc')
    exact ⟨_, rfl, hadmin, hrule, rfl⟩
  waiting _ hclosed := by
    obtain rfl := h.status_eq hc
    generalize c.status = st at edge h
    cases edge with
    | openEnrollment => exact h.waiting nofun nofun
    | closeEnrollment => exact h.waiting nofun nofun
    | close => exact absurd rfl hclosed

/-- A batch on a queue that is past its enrollment. -/
theorem OnChain.advance (h : OnChain admin st store) {c : Queue.QueueConfig} {batchSize : ℕ+} {now : ℕ}
    (hc : store.config = some c) (hst : st = .enrollmentClosed ∨ st = .advancementActive)
    (wellFormed : Queue.WellFormed (store.afterAdvance c batchSize now)) :
    ∃ next, (LifecycleCall.advance batchSize).contractNext store.totalEnrolled st = some next ∧
      OnChain admin next (store.afterAdvance c batchSize now) := by
  obtain ⟨c', hc', hadmin, hrule, hstatus⟩ := h.config
  obtain rfl := Option.some.inj (hc.symm.trans hc')
  rcases hst with rfl | rfl
  · have hserved := h.served_iff batchSize
    by_cases hzero : store.totalEnrolled = 0
    · -- an empty batch leaves the status, the cursor and the positions
      refine ⟨_, rfl, wellFormed, ?_, fun _ _ => ?_⟩
      · rw [if_pos hzero]
        refine ⟨_, rfl, ?_⟩
        rw [Queue.QueueConfig.activate, hserved.mpr hzero, if_neg (by simp)]
        exact ⟨hadmin, hrule, hstatus⟩
      · obtain ⟨hidx, hpending⟩ := h.unserved
        dsimp only [Queue.Store.afterAdvance, Queue.Store.scannedBy, Queue.scanned]
        rw [h.scanLength_eq, hzero, Nat.min_zero, hidx]
        exact ⟨rfl, hpending⟩
    · refine ⟨_, rfl, wellFormed, ?_, fun hactive => ?_⟩
      · rw [if_neg hzero]
        refine ⟨_, rfl, ?_⟩
        rw [Queue.QueueConfig.activate, if_pos ⟨mt hserved.mp hzero, hstatus⟩]
        exact ⟨hadmin, hrule, rfl⟩
      · rw [if_neg hzero] at hactive
        exact absurd rfl hactive
  · refine ⟨_, rfl, wellFormed, ?_, fun hactive => absurd rfl hactive⟩
    refine ⟨_, rfl, ?_⟩
    rw [Queue.QueueConfig.activate, if_neg (by simp [hstatus])]
    exact ⟨hadmin, hrule, hstatus⟩

/-- What an accepted lifecycle call does to the contract. -/
theorem OnChain.effect (h : OnChain admin st store) {o : Queue.Output} {store' : Queue.Store}
    {published : List Event}
    (eff : Queue.Effect env store (call.entrypoint admin) o store' published) :
    ∃ next, call.contractNext store.totalEnrolled st = some next ∧ OnChain admin next store' ∧
      store'.totalEnrolled = store.totalEnrolled := by
  have hwellFormed := h.wellFormed.effect eff
  cases call with
  | advance batchSize =>
    cases eff with
    | read reader => exact reader.elim
    | expire expiry => cases expiry
    | lifecycle edge => cases edge
    | advance adminCall batch status =>
      rw [h.status_eq adminCall.config] at status
      obtain ⟨next, hnext, honChain⟩ := h.advance adminCall.config status hwellFormed
      exact ⟨next, hnext, honChain, rfl⟩
  | openEnrollment | closeEnrollment | close =>
    cases eff with
    | read reader => exact reader.elim
    | expire expiry => cases expiry
    | @lifecycle _ _ c next edge adminCall =>
      have honChain := h.lifecycle adminCall.config edge hwellFormed
      refine ⟨next, ?_, honChain, rfl⟩
      obtain rfl := h.status_eq adminCall.config
      generalize c.status = st at edge
      cases edge
      first | rfl | (cases st <;> first | rfl | contradiction)

/-- The contract accepts the calls that have a next status. -/
theorem OnChain.succeeds (h : OnChain admin st store) {l : Ledger Queue.Store} (hl : l.store = store)
    (auth : admin ∈ env.authorizers) {next : Queue.QueueStatus}
    (hnext : call.contractNext store.totalEnrolled st = some next) :
    Succeeds (Queue.exec (call.entrypoint admin)) env l := by
  subst hl
  obtain ⟨c, hc, hadmin, hrule, rfl⟩ := h.config
  have adminCall : Queue.AdminCall l.store env admin c := ⟨hc, hadmin, auth⟩
  cases call with
  | openEnrollment =>
    refine (succeeds_bind_pure _).mpr ⟨_, Queue.openEnrollment_eq_ok.mpr ⟨c, adminCall, ?_, rfl⟩⟩
    cases hst : c.status <;> simp [hst, LifecycleCall.contractNext] at hnext ⊢
  | closeEnrollment =>
    refine (succeeds_bind_pure _).mpr ⟨_, Queue.closeEnrollment_eq_ok.mpr ⟨c, adminCall, ?_, rfl⟩⟩
    cases hst : c.status <;> simp [hst, LifecycleCall.contractNext] at hnext ⊢
  | close =>
    refine (succeeds_bind_pure _).mpr ⟨_, Queue.close_eq_ok.mpr ⟨c, adminCall, ?_, rfl⟩⟩
    cases hst : c.status <;> simp [hst, LifecycleCall.contractNext] at hnext ⊢
  | advance batchSize =>
    refine (succeeds_bind_pure _).mpr ⟨_, (Queue.advance_eq_ok h.wellFormed.totalCreated_le).mpr
      ⟨c, adminCall, batchSize.ne_zero, ?_, hrule, rfl⟩⟩
    cases hst : c.status <;> simp [hst, LifecycleCall.contractNext] at hnext ⊢

/-- An enrollment keeps the tracked status, which is open. -/
theorem OnChain.enroll (h : OnChain admin st store) {u : Address} {o : Queue.Output}
    {store' : Queue.Store} {published : List Event}
    (eff : Queue.Effect env store (.enrollPosition u) o store' published) :
    OnChain admin st store' ∧ st = .enrollmentOpen := by
  have hwellFormed := h.wellFormed.effect eff
  cases eff with
  | read reader => exact reader.elim
  | expire expiry => cases expiry
  | lifecycle edge => cases edge
  | enroll config auth status =>
    obtain rfl := h.status_eq config
    refine ⟨⟨hwellFormed, h.config, fun hactive hclosed => ?_⟩, status⟩
    obtain ⟨hidx, hpending⟩ := h.waiting hactive hclosed
    refine ⟨hidx, fun i p hp => ?_⟩
    by_cases hi : i = store.nextId.getD 1
    · rw [Queue.Store.afterEnroll, hi, Finmap.lookup_insert] at hp
      rw [← Option.some.inj hp]
      rfl
    · rw [Queue.Store.afterEnroll, Finmap.lookup_insert_of_ne _ hi] at hp
      exact hpending i p hp

/-! ## Both together -/

variable {d : Queue.Deployment} {l : Ledger Queue.Store} {timestamp : ℕ}

/-- The service has the queue in `status`, and the contract in the status that goes with it. -/
structure Together (d : Queue.Deployment) (s : ServiceState) (id : String) (l : Ledger Queue.Store)
    (status : QueueStatus) : Prop where
  service : ServiceOk s
  queue : queueStatus id s = some status
  onChain : OnChain d.admin (status.withParticipants l.store.totalEnrolled) l.store

/-- The service's acceptance can be read off the common status. -/
theorem Together.serviceAccepts_iff (h : Together d s id l status) :
    ServiceAccepts s id call ↔ ∃ next, call.serviceNext status = some next := by
  have hanswers := service_answers h.service id call
  cases hnext : call.serviceNext status with
  | none => simp [(hanswers.refused status h.queue hnext).1]
  | some next => simp [(hanswers.accepted status next h.queue hnext).1]

/-- The contract's acceptance can be read off the common status. -/
theorem Together.contractAccepts_iff (h : Together d s id l status) :
    ContractAccepts d l timestamp call ↔ ∃ next, call.contractNext l.store.totalEnrolled
      (status.withParticipants l.store.totalEnrolled) = some next := by
  constructor
  · rintro ⟨⟨o, l'⟩, hexec⟩
    obtain ⟨_, -, eff⟩ := Queue.effect_of_exec h.onChain.wellFormed.totalCreated_le hexec
    obtain ⟨next, hnext, -⟩ := h.onChain.effect eff
    exact ⟨next, hnext⟩
  · rintro ⟨next, hnext⟩
    exact h.onChain.succeeds rfl (List.mem_singleton_self d.admin) hnext

/-- Whether a call repeats the status can be read off the common status. -/
theorem Together.repeats_iff (h : Together d s id l status) :
    Repeats s id call ↔ status = call.target ∧ call.target ≠ .advancementActive := by
  rw [Repeats, h.queue, Option.some.injEq]

/-- A call of the contract fails and leaves it alone, or it has one of the effects. -/
theorem next_contract (h : Queue.WellFormed l.store) (i : Invocation Queue.Entrypoint) :
    (¬ Succeeds (Queue.exec i.entry) i.env l ∧ Queue.queue.next l i = l) ∨
      ∃ o published,
        Queue.Effect i.env l.store i.entry o (Queue.queue.next l i).store published := by
  rcases Queue.queue.commit?_cases l i with ⟨c, rfl, rfl, hnext, -⟩ | ⟨⟨e, he⟩, hnext, -⟩
  · obtain ⟨published, -, eff⟩ := h.commit c
    exact .inr ⟨c.out, published, hnext ▸ eff⟩
  · exact .inl ⟨fun hsucceeds => hsucceeds.ne_error e he, hnext⟩

/-- A lifecycle call that both sides get leaves them together. -/
theorem Together.lifecycleCall (h : Together d s id l status) (timestamp : ℕ) (call : LifecycleCall) :
    ∃ next, Together d (services.next s (call.service id)) id
      (Queue.queue.next l ⟨⟨timestamp, [d.admin], d.env.currentContract⟩, call.entrypoint d.admin⟩)
      next := by
  have hanswers := service_answers h.service id call
  have hservice := serviceOk_next h.service (call.service id)
  obtain ⟨hrefused, haccepted⟩ := next_agrees l.store.totalEnrolled status call
  rcases next_contract h.onChain.wellFormed
    ⟨⟨timestamp, [d.admin], d.env.currentContract⟩, call.entrypoint d.admin⟩ with
    ⟨hfails, hsame⟩ | ⟨_, _, eff⟩
  · -- the contract refuses the call, so the service refuses it too or repeats its status
    have hnone : call.contractNext l.store.totalEnrolled
        (status.withParticipants l.store.totalEnrolled) = none := by
      by_contra hne
      exact hfails (h.contractAccepts_iff.mpr (Option.ne_none_iff_exists'.mp hne))
    rw [hsame]
    cases hnext : call.serviceNext status with
    | none =>
      rw [(hanswers.refused status h.queue hnext).2]
      exact ⟨status, h⟩
    | some next =>
      have hrepeats := haccepted next hnext
      split at hrepeats
      · obtain ⟨rfl, -⟩ := hrepeats
        exact ⟨next, hservice, (hanswers.accepted next next h.queue hnext).2, h.onChain⟩
      · rw [hnone] at hrepeats
        exact absurd hrepeats nofun
  · obtain ⟨next', hnext', honChain, htotal⟩ := h.onChain.effect eff
    cases hnext : call.serviceNext status with
    | none =>
      rw [hrefused hnext] at hnext'
      exact absurd hnext' nofun
    | some next =>
      have hcontract := haccepted next hnext
      split at hcontract
      · rw [hcontract.2] at hnext'
        exact absurd hnext' nofun
      · obtain rfl := Option.some.inj (hcontract.symm.trans hnext')
        refine ⟨next, hservice, (hanswers.accepted status next h.queue hnext).2, ?_⟩
        rw [htotal]
        exact honChain

/-- An enrollment that both sides get leaves them together. -/
theorem Together.enroll (h : Together d s id l status) (timestamp : ℕ) (now : String) (u : Address) :
    Together d (services.next s (.enrollment (.enrollIdentity now id u.strkey))) id
      (Queue.queue.next l ⟨⟨timestamp, [u], d.env.currentContract⟩, .enrollPosition u⟩) status := by
  refine ⟨serviceOk_next h.service _, h.queue, ?_⟩
  rcases next_contract h.onChain.wellFormed
    ⟨⟨timestamp, [u], d.env.currentContract⟩, .enrollPosition u⟩ with ⟨-, hsame⟩ | ⟨_, _, eff⟩
  · rw [hsame]
    exact h.onChain
  · -- while the enrollment is open, the number of participants does not matter
    obtain ⟨honChain, hopen⟩ := h.onChain.enroll eff
    have hstatus : status = .enrollmentOpen := by
      unfold QueueStatus.withParticipants QueueStatus.onChain at hopen
      cases status <;> split at hopen <;> simp_all
    subst hstatus
    exact honChain

/-- The two sides are together after every run of steps. -/
theorem together_run (h : Together d s id d.start status) (steps : List LifecycleStep) :
    ∃ status, Together d (serviceAfter s id steps) id (contractAfter d steps) status := by
  induction steps using List.reverseRecOn with
  | nil => exact ⟨status, h⟩
  | append_singleton steps step ih =>
    obtain ⟨status, ih⟩ := ih
    rw [serviceAfter, contractAfter, List.map_append, List.map_append, List.map_singleton,
      List.map_singleton, Transactional.run_concat, Transactional.run_concat]
    cases step with
    | enroll timestamp now u => exact ⟨status, ih.enroll timestamp now u⟩
    | call timestamp c => exact ih.lifecycleCall timestamp c

/-- Two sides that are together agree on every next call. -/
theorem Together.lifecyclesAgree {steps : List LifecycleStep}
    (h : Together d (serviceAfter s id steps) id (contractAfter d steps) status) :
    LifecyclesAgree d s id steps where
  accepts timestamp call := by
    rw [h.serviceAccepts_iff, h.contractAccepts_iff, h.repeats_iff]
    obtain ⟨hrefused, haccepted⟩ :=
      next_agrees (contractAfter d steps).store.totalEnrolled status call
    cases hnext : call.serviceNext status with
    | none =>
      rw [hrefused hnext]
      have hnot : ¬ status = call.target := by
        rintro rfl
        exact serviceNext_eq_none.mp hnext (transitionQueueStatus_eq_ok.mpr (.inl rfl))
      simp [hnot]
    | some next =>
      refine iff_of_true ⟨next, rfl⟩ ?_
      have hcontract := haccepted next hnext
      split at hcontract
      · case _ hrepeats => exact .inr hrepeats
      · exact .inl ⟨_, hcontract⟩
  repeated timestamp call hrepeats := by
    refine ⟨next_of_repeats h.service hrepeats, ?_⟩
    rw [h.contractAccepts_iff]
    have hrepeats' := h.repeats_iff.mp hrepeats
    have hnext : call.serviceNext status = some call.target :=
      serviceNext_eq_some.mpr ⟨transitionQueueStatus_eq_ok.mpr (.inl hrepeats'.1), rfl⟩
    have hcontract :=
      (next_agrees (contractAfter d steps).store.totalEnrolled status call).2 _ hnext
    rw [if_pos hrepeats'] at hcontract
    simp [hcontract.2]
  status := by
    obtain ⟨c, hc, -, -, hstatus⟩ := h.onChain.config
    refine ⟨status, status.withParticipants (contractAfter d steps).store.totalEnrolled, h.queue, ?_, ?_⟩
    · rw [Queue.Store.status, hc, Option.map_some, hstatus]
    · unfold QueueStatus.withParticipants
      split
      · rfl
      · rfl

/-! ## Every run -/

/-- A draft queue starts together on both sides. -/
theorem together_start (hdraft : d.config.status = .draft) (hfifo : d.config.advancementRule = .fifo)
    (h : ServiceOk s) (hqueue : queueStatus id s = some .draft) :
    Together d s id d.start .draft where
  service := h
  queue := hqueue
  onChain := by
    obtain ⟨-, hadmin, -⟩ := Queue.initializeQueue_eq_ok.mp d.ok
    have hwellFormed := d.wellFormed
    rw [d.start_eq] at hwellFormed ⊢
    exact ⟨hwellFormed, ⟨d.config, rfl, hadmin, hfifo, hdraft⟩, fun _ _ => ⟨rfl, by simp⟩⟩

/-- On a FIFO queue that is a draft in a reachable state of the service and in a new contract, the two
lifecycles agree after every sequence of steps. -/
theorem lifecycles_agree (H : Host) (calls : List ServiceCall) (id : String) (d : Queue.Deployment)
    (hqueue : queueStatus id (services.run (.initial H) calls) = some .draft)
    (hdraft : d.config.status = .draft) (hfifo : d.config.advancementRule = .fifo)
    (steps : List LifecycleStep) :
    LifecyclesAgree d (services.run (.initial H) calls) id steps := by
  have h := Transactional.run_invariant serviceOk_commit (serviceOk_initial H) calls
  obtain ⟨_, htogether⟩ := together_run (together_start hdraft hfifo h hqueue) steps
  exact htogether.lifecyclesAgree

/-- A service with a new queue. -/
def demoService : ServiceState :=
  services.run (.initial ⟨0, fun _ => "", fun _ => none, "", fun text => text, fun _ body => body⟩)
    [.createQueue "2026-01-01T00:00:00.000Z" ⟨"Demo", "demo", 10, none, none⟩]

/-- A new contract for it. -/
def demoContract : Queue.Deployment :=
  Queue.deploy ⟨1, [⟨"GADMIN"⟩], ⟨"CQUEUE"⟩⟩
    ⟨⟨"demo"⟩, ⟨"Demo"⟩, ⟨"GADMIN"⟩, 10, 0, 100, .draft, 1, .fifo⟩ (List.mem_singleton_self _)

/-- The demo queue is a draft. -/
theorem queueStatus_demoService : queueStatus "demo" demoService = some .draft := by
  decide +kernel

/-- The demo service is well formed. -/
theorem serviceOk_demoService : ServiceOk demoService :=
  Transactional.run_invariant serviceOk_commit (serviceOk_initial _) _

/-- Alice enrolls and is served. -/
theorem lifecycles_agree_demo : LifecyclesAgree demoContract demoService "demo"
    [.call 2 .openEnrollment, .enroll 3 "2026-01-02T00:00:00.000Z" ⟨"GALICE"⟩, .call 4 .closeEnrollment,
      .call 5 (.advance 1)] :=
  lifecycles_agree _ _ "demo" demoContract queueStatus_demoService rfl rfl _

/-- The enrollment is opened a second time, and a batch is advanced with nobody enrolled. -/
theorem opened_again_and_empty_batch :
    let opened : List LifecycleStep := [.call 2 .openEnrollment]
    let advanced : List LifecycleStep := opened ++ [.call 3 .closeEnrollment, .call 4 (.advance 1)]
    ¬ (ServiceAccepts (serviceAfter demoService "demo" opened) "demo" .openEnrollment ↔
        ContractAccepts demoContract (contractAfter demoContract opened) 3 .openEnrollment) ∧
      queueStatus "demo" (serviceAfter demoService "demo" advanced) = some .advancementActive ∧
      (contractAfter demoContract advanced).store.status = some .enrollmentClosed := by
  intro opened advanced
  have hstart : Together demoContract demoService "demo" demoContract.start .draft :=
    together_start rfl rfl serviceOk_demoService queueStatus_demoService
  constructor
  · obtain ⟨_, htogether⟩ := together_run hstart opened
    have hagree := htogether.lifecyclesAgree
    have hanswers := service_answers serviceOk_demoService "demo" .openEnrollment
    have hrepeats : Repeats (serviceAfter demoService "demo" opened) "demo" .openEnrollment :=
      ⟨(hanswers.accepted .draft .enrollmentOpen queueStatus_demoService rfl).2, nofun⟩
    intro hiff
    have haccepts := (hagree.accepts 3 .openEnrollment).mpr (.inr hrepeats)
    exact (hagree.repeated 3 .openEnrollment hrepeats).2 (hiff.mp haccepts)
  · have hservice : queueStatus "demo" (serviceAfter demoService "demo" advanced) =
        some .advancementActive := by decide +kernel
    have hnobody : (contractAfter demoContract advanced).store.totalEnrolled = 0 := by decide +kernel
    obtain ⟨_, htogether⟩ := together_run hstart advanced
    obtain ⟨a, b, ha, hb, hstatus⟩ := htogether.lifecyclesAgree.status
    obtain rfl := Option.some.inj (hservice.symm.trans ha)
    rw [if_pos ⟨rfl, hnobody⟩] at hstatus
    exact ⟨hservice, hstatus ▸ hb⟩

end LineProof.Backend
