import LineProof.Backend.QueueStats

/-!
# The events of the services

Reference: `backend/src/services/queueService.ts` and `backend/src/services/enrollmentService.ts`.

The services announce what they change through `serviceEmitter`. `EventStep` says what an event means to
somebody who has followed all events before it: where it is legal, and what it changes. The events of every
run are legal one after the other, and lead from the first state to the last, with nothing but the small
fields of their payloads (`events_tell`).
-/

namespace LineProof.Backend

/-- The events of the two services, with their payloads. -/
inductive ServiceEvent
  /-- `queue.created` -/
  | queueCreated (queue : Queue)
  /-- `queue.status_changed` -/
  | queueStatusChanged (queueId : String) (status : QueueStatus) (queue : Queue)
  /-- `queue.advanced` -/
  | queueAdvanced (queueId : String) (advanced : ℤ) (queue : Queue)
  /-- `enrollment.created` -/
  | enrollmentCreated (record : EnrollmentRecord)
  /-- `enrollment.cancelled` -/
  | enrollmentCancelled (queueId identity : String)

/-! ## What the calls emit -/

/-- `persistTransition` emits only if the status is another one. -/
def transitionEvents (queue : Queue) (next : QueueStatus) : List ServiceEvent :=
  if queue.status = next then []
  else [.queueStatusChanged queue.id next { queue with status := next }]

/-- The events of `moveTo`. -/
def moveEvents (next : QueueStatus) (id : String) (s : ServiceState) : List ServiceEvent :=
  match getQueueById id s with
  | none => []
  | some queue =>
    match transitionQueueStatus queue.status next with
    | .error _ => []
    | .ok () => transitionEvents queue next

/-- The events of `advanceQueue`. -/
def advanceEvents (id : String) (batchSize : ℤ) (s : ServiceState) : List ServiceEvent :=
  match getQueueById id s with
  | none => []
  | some queue =>
    match transitionQueueStatus queue.status .advancementActive with
    | .error _ => []
    | .ok () =>
      let toAdvance := min batchSize (queue.enrolled - queue.advanced)
      let advanced := queue.advanced + max 0 toAdvance
      transitionEvents queue .advancementActive ++
        [.queueAdvanced queue.id advanced { queue with status := .advancementActive, advanced }]

/-- The events of a call, in the order in which they are emitted. -/
def ServiceCall.events (s : ServiceState) : ServiceCall → List ServiceEvent
  | .createQueue createdAt payload =>
    match Backend.createQueue createdAt payload s with
    | .error _ => []
    | .ok (queue, _) => [.queueCreated queue]
  | .openEnrollment id => moveEvents .enrollmentOpen id s
  | .closeEnrollment id => moveEvents .enrollmentClosed id s
  | .advanceQueue id batchSize => advanceEvents id batchSize s
  | .closeQueue id => moveEvents .closed id s
  | .enrollment (.enrollIdentity now queueId identity) =>
    let record := (enrollIdentity now queueId identity s.enrollments).1
    if record.conflict then [] else [.enrollmentCreated record]
  | .enrollment (.cancelEnrollment queueId identity) =>
    if (cancelEnrollment queueId identity s.enrollments).1 then [.enrollmentCancelled queueId identity]
    else []

/-- The events of a run. -/
def emitted : ServiceState → List ServiceCall → List ServiceEvent
  | _, [] => []
  | s, call :: calls => call.events s ++ emitted (services.next s call) calls

/-! ## What the events mean -/

/-- The queue `id` with a change. -/
def ServiceState.updateQueue (s : ServiceState) (id : String) (f : Queue → Queue) : ServiceState :=
  match s.queues.get id with
  | some queue => { s with queues := s.queues.set id (f queue) }
  | none => s

/-- The store with one more record. -/
def EnrollmentStore.add (s : EnrollmentStore) (record : EnrollmentRecord) : EnrollmentStore where
  nsByIdentity := s.nsByIdentity.set record.identity (byIdentity record.identity s ++ [record])
  nsQueueIndex := s.nsQueueIndex.set record.queueId ((members record.queueId s).add record.identity)

/-- What somebody learns from an event, without the queue in its payload. -/
def ServiceState.learn (s : ServiceState) : ServiceEvent → ServiceState
  | .queueCreated queue => s.saveQueue queue
  | .queueStatusChanged id status _ => s.updateQueue id fun queue => { queue with status }
  | .queueAdvanced id advanced _ => s.updateQueue id fun queue => { queue with advanced }
  | .enrollmentCreated record => { s with enrollments := s.enrollments.add record }
  | .enrollmentCancelled queueId identity =>
    { s with enrollments := (cancelEnrollment queueId identity s.enrollments).2 }

/-- An event is legal after the events that led to the state, and its payload is what it leads to. -/
inductive LegalEvent (s : ServiceState) : ServiceEvent → Prop
  | created {queue : Queue} (new : ∀ q ∈ listQueues s, q.slug ≠ queue.id ∧ q.id ≠ queue.id)
      (draft : queue.status = .draft) (none : queue.advanced = 0) :
    LegalEvent s (.queueCreated queue)
  | statusChanged {queue : Queue} {status : QueueStatus} (stored : s.queues.get queue.id = some queue)
      (valid : status ∈ validTransitions queue.status) :
    LegalEvent s (.queueStatusChanged queue.id status { queue with status })
  /-- Batches advance in the order of the queue and never beyond the enrolled. -/
  | advanced {queue : Queue} {advanced : ℤ} (stored : s.queues.get queue.id = some queue)
      (active : queue.status = .advancementActive) (more : queue.advanced ≤ advanced)
      (le : advanced ≤ queue.enrolled) :
    LegalEvent s (.queueAdvanced queue.id advanced { queue with advanced })
  | enrolled {record : EnrollmentRecord} (open_ : record.conflict = false ∧ record.cancelled = false)
      (new : ¬ s.enrollments.Live record.queueId record.identity) :
    LegalEvent s (.enrollmentCreated record)
  | cancelled {queueId identity : String} (live : s.enrollments.Live queueId identity) :
    LegalEvent s (.enrollmentCancelled queueId identity)

/-- The events lead from one state to another, each of them legal where it stands. -/
inductive Tells : ServiceState → List ServiceEvent → ServiceState → Prop
  | nil (s : ServiceState) : Tells s [] s
  | cons {s s' : ServiceState} {event : ServiceEvent} {events : List ServiceEvent}
      (legal : LegalEvent s event) (rest : Tells (s.learn event) events s') : Tells s (event :: events) s'

variable {s s' s'' : ServiceState} {event : ServiceEvent} {events events' : List ServiceEvent} {queue : Queue}
  {id : String}

/-- Two stretches of events tell the way through the state between them. -/
theorem Tells.append (h : Tells s events s') (h' : Tells s' events' s'') : Tells s (events ++ events') s'' := by
  induction h with
  | nil => exact h'
  | cons legal _ ih => exact .cons legal (ih h')

/-- One event tells one step. -/
theorem Tells.single (legal : LegalEvent s event) (hlearn : s.learn event = s') : Tells s [event] s' := by
  subst hlearn
  exact .cons legal (.nil _)

/-- The state at the end is what the events taught. -/
theorem Tells.learnt (h : Tells s events s') : events.foldl ServiceState.learn s = s' := by
  induction h with
  | nil => rfl
  | cons _ _ ih => exact ih

/-- Every event is legal after those before it. -/
theorem Tells.legal (h : Tells s events s') {before after : List ServiceEvent}
    (hsplit : events = before ++ event :: after) : LegalEvent (before.foldl ServiceState.learn s) event := by
  induction h generalizing before with
  | nil => simp at hsplit
  | @cons s s' first rest legal _ ih =>
    cases before with
    | nil =>
      obtain ⟨rfl, -⟩ := List.cons_eq_cons.mp hsplit
      exact legal
    | cons head before =>
      obtain ⟨rfl, hrest⟩ := List.cons_eq_cons.mp hsplit
      exact ih hrest

/-! ## One call -/

/-- Saving what is stored changes nothing. -/
theorem saveQueue_of_get (h : s.queues.get queue.id = some queue) : s.saveQueue queue = s := by
  rw [ServiceState.saveQueue, InsertionMap.set_of_get h]

/-- To update a stored queue is to save its new value. -/
theorem updateQueue_of_get (h : s.queues.get queue.id = some queue) (f : Queue → Queue)
    (hid : (f queue).id = queue.id) : s.updateQueue queue.id f = s.saveQueue (f queue) := by
  rw [ServiceState.updateQueue, h, ServiceState.saveQueue, hid]

/-- A new status is announced, and the old one again is no change. -/
theorem tells_transition {next : QueueStatus} (stored : s.queues.get queue.id = some queue)
    (allowed : transitionQueueStatus queue.status next = .ok ()) :
    Tells s (transitionEvents queue next) (s.saveQueue { queue with status := next }) := by
  unfold transitionEvents
  split
  · case _ hsame =>
    subst hsame
    rw [show ({ queue with status := queue.status } : Queue) = queue from rfl, saveQueue_of_get stored]
    exact .nil s
  · case _ hnew =>
    have hvalid : next ∈ validTransitions queue.status := by
      by_contra hinvalid
      rw [transitionQueueStatus, if_neg hnew, if_neg hinvalid] at allowed
      contradiction
    exact .single (.statusChanged stored hvalid) (updateQueue_of_get stored _ rfl)

/-- The events of a move tell what it did. -/
theorem tells_moveTo (h : ServiceOk s) (next : QueueStatus) (id : String) :
    Tells s (moveEvents next id s) (stateAfter s (moveTo next id s)) := by
  cases stored : getQueueById id s with
  | none =>
    simp only [moveEvents, moveTo, stored]
    exact .nil s
  | some queue =>
    cases allowed : transitionQueueStatus queue.status next with
    | error message =>
      have hrefused : transitionQueueStatus queue.status next ≠ .ok () := by simp [allowed]
      obtain ⟨e, he⟩ := moveTo_error stored hrefused
      simp only [moveEvents, stored, allowed, he]
      exact .nil s
    | ok =>
      obtain ⟨hid, -⟩ := h.ok stored
      rw [moveTo_ok stored allowed]
      simp only [moveEvents, stored, allowed]
      rw [h.getQueueById_eq, ← hid] at stored
      exact tells_transition stored allowed

/-- The events of an advance tell what it did. -/
theorem tells_advanceQueue (h : ServiceOk s) (id : String) (batchSize : ℤ) :
    Tells s (advanceEvents id batchSize s) (stateAfter s (advanceQueue id batchSize s)) := by
  cases stored : getQueueById id s with
  | none =>
    simp only [advanceEvents, advanceQueue, stored]
    exact .nil s
  | some queue =>
    cases allowed : transitionQueueStatus queue.status .advancementActive with
    | error message =>
      obtain ⟨e, he⟩ : ∃ e, advanceQueue id batchSize s = .error e :=
        advanceQueue_error stored (by simp [allowed])
      simp only [advanceEvents, stored, allowed, he]
      exact .nil s
    | ok =>
      obtain ⟨hid, hok⟩ := h.ok stored
      rw [advanceQueue_ok stored allowed]
      simp only [advanceEvents, stored, allowed]
      rw [h.getQueueById_eq, ← hid] at stored
      refine (tells_transition stored allowed).append ?_
      -- the batch is announced after the status has been saved
      let active : Queue := { queue with status := .advancementActive }
      have hactive : (s.saveQueue active).queues.get active.id = some active := InsertionMap.get_set_self
      have hadvanced := (hok.advance batchSize).enrolled
      refine .single (s := s.saveQueue active)
        (@LegalEvent.advanced _ active _ hactive rfl ?_ hadvanced) (updateQueue_of_get hactive _ rfl)
      show queue.advanced ≤ queue.advanced + max 0 _
      omega

/-- The events of a call tell what it did. -/
theorem tells_next (h : ServiceOk s) (call : ServiceCall) : Tells s (call.events s) (services.next s call) := by
  cases call with
  | createQueue createdAt payload =>
    rw [next_eq (x := createQueue createdAt payload s) (f := fun queue => .queue (some queue)) rfl]
    cases hcreate : createQueue createdAt payload s with
    | error e =>
      simp only [ServiceCall.events, hcreate, stateAfter]
      exact .nil s
    | ok r =>
      simp only [ServiceCall.events, hcreate, stateAfter]
      unfold createQueue at hcreate
      split at hcreate
      · contradiction
      · case _ hnew =>
        cases hcreate
        refine .single (.created ?_ rfl rfl) rfl
        intro q hq
        simp only [List.any_eq_true, decide_eq_true_eq, not_exists, not_and, not_or] at hnew
        exact hnew q hq
  | openEnrollment id =>
    rw [next_eq (x := openEnrollment id s) (f := .queue) rfl]
    exact tells_moveTo h _ id
  | closeEnrollment id =>
    rw [next_eq (x := closeEnrollment id s) (f := .queue) rfl]
    exact tells_moveTo h _ id
  | closeQueue id =>
    rw [next_eq (x := closeQueue id s) (f := .queue) rfl]
    exact tells_moveTo h _ id
  | advanceQueue id batchSize =>
    rw [next_eq (x := advanceQueue id batchSize s) (f := .queue) rfl]
    exact tells_advanceQueue h id batchSize
  | enrollment call =>
    cases call with
    | enrollIdentity now q u =>
      show Tells s _ { s with enrollments := (enrollIdentity now q u s.enrollments).2 }
      by_cases hlive : s.enrollments.Live q u
      · have hqueues := h.agree.live_iff.mp hlive
        obtain ⟨hconflict, hsame⟩ :
            (enrollIdentity now q u s.enrollments).1.conflict = true ∧
              (enrollIdentity now q u s.enrollments).2 = s.enrollments :=
          enrollIdentity_conflict hqueues
        rw [hsame]
        simp only [ServiceCall.events, hconflict, if_true]
        exact .nil s
      · have hqueues := mt h.agree.live_iff.mpr hlive
        have henroll : enrollIdentity now q u s.enrollments =
            (newRecord now q u, s.enrollments.add (newRecord now q u)) := by
          rw [enrollIdentity, if_neg (mt any_liveIn.mp hqueues)]
          rfl
        simp only [ServiceCall.events, henroll]
        exact .single (.enrolled ⟨rfl, rfl⟩ hlive) rfl
    | cancelEnrollment q u =>
      show Tells s _ { s with enrollments := (cancelEnrollment q u s.enrollments).2 }
      by_cases hlive : s.enrollments.Live q u
      · simp only [ServiceCall.events, (h.agree.cancel_iff q u).mpr hlive, if_true]
        exact .single (.cancelled hlive) rfl
      · rw [ServiceCall.events, cancelEnrollment_none (mt h.agree.live_iff.mpr hlive)]
        exact .nil s

/-! ## Every run -/

/-- The events of a run tell what it did. -/
theorem tells_run (h : ServiceOk s) (calls : List ServiceCall) :
    Tells s (emitted s calls) (services.run s calls) := by
  induction calls generalizing s with
  | nil => exact .nil s
  | cons call calls ih => exact (tells_next h call).append (ih (serviceOk_next h call))

end LineProof.Backend
