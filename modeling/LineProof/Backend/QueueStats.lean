import LineProof.Backend.EnrollmentIndex
import LineProof.Backend.QueueService

/-!
# Public statistics

`getQueueStats` takes the number of live enrollments as the total as soon as there is one, while `advanced`
goes up to the stored figure `enrolled`. The statistics of a queue are well formed exactly when it has no
live enrollment, or at least as many as it has advanced; they stay so in exactly the runs none of whose
calls leaves a queue with fewer (`stats_wellFormed_iff`).
-/

namespace LineProof.Backend

/-- The number of live enrollments of a queue. -/
def liveCount (q : String) (s : EnrollmentStore) : ℕ := (getEnrollmentsByQueue q s).length

/-- The queue that `id` finds has statistics, and they satisfy their schema. -/
def StatsOk (D : Doubles) (id : String) (s : ServiceState) : Prop :=
  ∃ stats, getQueueStats D id s = some stats ∧ PublicQueueStatsSchema stats ∧
    stats.remaining = stats.total - stats.advanced

/-- The statistics of every queue are well formed. -/
def AllStatsOk (D : Doubles) (s : ServiceState) : Prop :=
  ∀ id queue, getQueueById id s = some queue → StatsOk D id s

/-- The call leaves a queue with live enrollments, but fewer than it has advanced. -/
inductive Uncovers (s : ServiceState) : ServiceCall → Prop
  | enroll (now q u : String) (queue : Queue) (stored : getQueueById q s = some queue)
    (new : ¬ s.enrollments.Live q u) (short : liveCount q s.enrollments + 1 < queue.advanced) :
    Uncovers s (.enrollment (.enrollIdentity now q u))
  | cancel (q u : String) (queue : Queue) (stored : getQueueById q s = some queue)
    (live : s.enrollments.Live q u) (left : 1 < liveCount q s.enrollments)
    (short : liveCount q s.enrollments - 1 < queue.advanced) :
    Uncovers s (.enrollment (.cancelEnrollment q u))
  | advance (id : String) (batchSize : ℤ) (queue : Queue) (stored : getQueueById id s = some queue)
    (allowed : transitionQueueStatus queue.status .advancementActive = .ok ())
    (live : 0 < liveCount id s.enrollments)
    (short : liveCount id s.enrollments <
      queue.advanced + max 0 (min batchSize (queue.enrolled - queue.advanced))) :
    Uncovers s (.advanceQueue id batchSize)

variable {D : Doubles} {s s' : ServiceState} {id q u now : String} {queue queue' : Queue}

/-! ## Counting live enrollments -/

/-- The live enrollments of a queue are the members of its index. -/
theorem Agree.liveCount_eq {s : EnrollmentStore} (h : Agree s) (q : String) :
    liveCount q s = (members q s).size := by
  rw [liveCount, ← List.length_map, h.map_identity_byQueue, InsertionSet.size]

/-- An enrollment counts for its own queue. -/
theorem liveCount_enroll {s : EnrollmentStore} (h : Agree s) (hnew : ¬ s.Live q u) (p : String) :
    liveCount p (enrollIdentity now q u s).2 = liveCount p s + if p = q then 1 else 0 := by
  have hwrote := (enrollIdentity_new now (mt h.live_iff.mpr hnew)).2
  rw [(h.enroll now q u).liveCount_eq, hwrote.members, h.liveCount_eq]
  split
  · case _ hp =>
    rw [hp, InsertionSet.size_add]
    rwa [h.index, ← h.live_iff]
  · rfl

/-- A cancellation counts for its own queue. -/
theorem liveCount_cancel {s : EnrollmentStore} (h : Agree s) (hlive : s.Live q u) (p : String) :
    liveCount p (cancelEnrollment q u s).2 = liveCount p s - if p = q then 1 else 0 := by
  obtain ⟨_, -, -, hwrote⟩ := cancelEnrollment_live (h.live_iff.mp hlive)
  rw [(h.cancel q u).liveCount_eq, hwrote.members, h.liveCount_eq]
  split
  · case _ hp =>
    rw [hp, InsertionSet.size_delete]
    rwa [h.index, ← h.live_iff]
  · rfl

/-- A live enrollment counts. -/
theorem liveCount_pos {s : EnrollmentStore} (h : Agree s) (hlive : s.Live q u) :
    0 < liveCount q s := by
  rw [h.liveCount_eq]
  exact List.length_pos_of_mem ((h.index q u).mpr (h.live_iff.mp hlive))

/-! ## The invariant -/

/-- The queue is found under its id, and no more are advanced than enrolled. -/
structure QueueOk (queue : Queue) : Prop where
  slug : queue.slug = queue.id
  advanced : 0 ≤ queue.advanced
  enrolled : queue.advanced ≤ queue.enrolled

/-- Every queue is stored under its id. -/
def QueuesOk (queues : InsertionMap String Queue) : Prop :=
  ∀ id queue, queues.get id = some queue → queue.id = id ∧ QueueOk queue

/-- What every reachable state keeps to: well-formed queues, and indexes that agree. -/
structure ServiceOk (s : ServiceState) : Prop where
  queues : QueuesOk s.queues
  agree : Agree s.enrollments

/-- Saving a well-formed queue keeps the table well formed. -/
theorem QueuesOk.set {queues : InsertionMap String Queue} (h : QueuesOk queues) (hok : QueueOk queue) :
    QueuesOk (queues.set queue.id queue) := by
  intro id queue' hget
  by_cases hid : id = queue.id
  · subst hid
    rw [InsertionMap.get_set_self] at hget
    obtain rfl := Option.some.inj hget
    exact ⟨rfl, hok⟩
  · rw [InsertionMap.get_set_of_ne hid] at hget
    exact h id queue' hget

/-- Saving a well-formed queue keeps the state well formed. -/
theorem ServiceOk.saveQueue (h : ServiceOk s) (hok : QueueOk queue) : ServiceOk (s.saveQueue queue) :=
  ⟨h.queues.set hok, h.agree⟩

/-- Well-formed fixtures make a well-formed table. -/
theorem queuesOk_createQueueService (fixtures : List Queue) (hok : ∀ queue ∈ fixtures, QueueOk queue)
    {store : InsertionMap String Queue} (h : QueuesOk store) :
    QueuesOk (createQueueService fixtures store) := by
  induction fixtures generalizing store with
  | nil => exact h
  | cons queue fixtures ih =>
    obtain ⟨hfirst, hrest⟩ := List.forall_mem_cons.mp hok
    apply ih hrest
    dsimp only
    split
    · exact h.set hfirst
    · exact h

/-- A new service is well formed. -/
theorem serviceOk_initial (H : Host) : ServiceOk (.initial H) where
  queues := by
    refine queuesOk_createQueueService _ ?_ (fun id queue hget => by simp at hget)
    intro queue hqueue
    simp only [defaultFixtures, List.mem_cons, List.not_mem_nil, or_false] at hqueue
    rcases hqueue with rfl | rfl <;> exact ⟨rfl, by norm_num, by norm_num⟩
  agree := agree_run []

namespace ServiceOk

/-- A queue is found by its id. -/
theorem getQueueById_eq (h : ServiceOk s) (id : String) : getQueueById id s = s.queues.get id := by
  have hfound {queue : Queue} (hqueue : getQueueById id s = some queue) :
      s.queues.get id = some queue := by
    obtain ⟨k, hk⟩ := InsertionMap.mem_values_iff.mp (List.mem_of_find?_eq_some hqueue)
    obtain ⟨rfl, hok⟩ := h.queues k queue hk
    have hid : queue.id = id ∨ queue.slug = id := by simpa using List.find?_some hqueue
    rw [hok.slug, or_self] at hid
    rwa [hid] at hk
  cases hget : getQueueById id s with
  | some queue => exact (hfound hget).symm
  | none =>
    by_contra hne
    obtain ⟨queue, hqueue⟩ := Option.ne_none_iff_exists'.mp (Ne.symm hne)
    have hmem : queue ∈ listQueues s := InsertionMap.mem_values_iff.mpr ⟨id, hqueue⟩
    have hnot := List.find?_eq_none.mp hget queue hmem
    simp [(h.queues id queue hqueue).1] at hnot

/-- The queue that is found is stored under its id and well formed. -/
theorem ok (h : ServiceOk s) (hqueue : getQueueById id s = some queue) :
    queue.id = id ∧ QueueOk queue :=
  h.queues id queue (by rwa [h.getQueueById_eq] at hqueue)

end ServiceOk

/-! ## The statistics of one queue -/

/-- There is no live enrollment, or one for everybody advanced. -/
def Covered (queue : Queue) (n : ℕ) : Prop := n = 0 ∨ queue.advanced ≤ n

/-- Rounding to doubles moves no share out of its bounds. -/
theorem percent_bounds (D : Doubles) {a b : ℤ} (ha : 0 ≤ a) (hab : a ≤ b) (hb : 0 < b) :
    0 ≤ percent D a b ∧ percent D a b ≤ 100 := by
  have hb' : (0 : ℚ) < b := Int.cast_pos.mpr hb
  have hzero : D.round 0 = 0 := by simpa using D.exact 0 (by norm_num)
  have hone : D.round 1 = 1 := by simpa using D.exact 1 (by norm_num)
  have hhundred : D.round 100 = 100 := by simpa using D.exact 100 (by norm_num)
  have hshare : 0 ≤ D.round (a / b) ∧ D.round (a / b) ≤ 1 := by
    constructor
    · rw [← hzero]
      exact D.mono (div_nonneg (Int.cast_nonneg ha) hb'.le)
    · rw [← hone]
      exact D.mono ((div_le_one hb').mpr (Int.cast_le.mpr hab))
  have hpercent : 0 ≤ D.round (D.round (a / b) * 100) ∧ D.round (D.round (a / b) * 100) ≤ 100 := by
    constructor
    · calc (0 : ℚ) = D.round 0 := hzero.symm
        _ ≤ _ := D.mono (by linarith [hshare.1])
    · calc D.round (D.round (a / b) * 100) ≤ D.round 100 := D.mono (by linarith [hshare.2])
        _ = 100 := hhundred
  constructor
  · exact Int.floor_nonneg.mpr (by linarith [hpercent.1])
  · rw [percent, ← Int.lt_add_one_iff, Int.floor_lt]
    push_cast
    linarith [hpercent.2]

/-- The stats of a queue are right exactly when the enrollments cover what it has advanced. -/
theorem statsOk_iff (h : ServiceOk s) (stored : getQueueById id s = some queue) :
    StatsOk D id s ↔ Covered queue (liveCount id s.enrollments) := by
  obtain ⟨rfl, hok⟩ := h.ok stored
  have hnonneg := hok.advanced
  have hle := hok.enrolled
  simp only [StatsOk, getQueueStats, stored, Option.some.injEq, Covered, liveCount]
  generalize (getEnrollmentsByQueue queue.id s.enrollments).length = n
  constructor
  · rintro ⟨stats, rfl, hschema, -⟩
    have hremaining := hschema.remaining
    dsimp only at hremaining
    split at hremaining
    · exact .inr (by omega)
    · exact .inl (by omega)
  · intro hcovered
    -- the total is no less than what is advanced, whichever figure it is
    obtain ⟨total, htotal, hadvanced⟩ : ∃ total : ℤ,
        (if 0 < (n : ℤ) then (n : ℤ) else queue.enrolled) = total ∧ queue.advanced ≤ total := by
      refine ⟨_, rfl, ?_⟩
      split <;> omega
    rw [htotal]
    refine ⟨_, rfl, ⟨hnonneg.trans hadvanced, hnonneg, sub_nonneg.mpr hadvanced, ?_⟩, rfl⟩
    dsimp only
    split
    · case _ hpos => exact percent_bounds D hnonneg hadvanced hpos
    · exact ⟨le_rfl, by norm_num⟩

/-- Every queue is covered. -/
def AllCovered (s : ServiceState) : Prop :=
  ∀ id queue, s.queues.get id = some queue → Covered queue (liveCount id s.enrollments)

/-- All stats are right exactly when every queue is covered. -/
theorem allStatsOk_iff (h : ServiceOk s) : AllStatsOk D s ↔ AllCovered s := by
  constructor
  · intro hall id queue hget
    have stored : getQueueById id s = some queue := by rw [h.getQueueById_eq, hget]
    exact (statsOk_iff h stored).mp (hall id queue stored)
  · intro hall id queue stored
    refine (statsOk_iff h stored).mpr (hall id queue ?_)
    rwa [← h.getQueueById_eq]

/-! ## One call -/

/-- The state a call leaves. -/
def stateAfter {α : Type} (s : ServiceState) : Except ServiceError (α × ServiceState) → ServiceState
  | .ok r => r.2
  | .error _ => s

/-- A call leaves the state that its function returns, or nothing changed. -/
theorem next_eq {α : Type} {call : ServiceCall} {x : Except ServiceError (α × ServiceState)}
    {f : α → ServiceOutput}
    (hexec : call.exec s = (x >>= fun r => pure (f r.1, r.2))) :
    services.next s call = stateAfter s x := by
  have hnext : services.exec call s = (x >>= fun r => pure (f r.1, r.2)) := hexec
  rw [Transactional.next, hnext]
  cases x <;> rfl

/-- A move that the table refuses is an error. -/
theorem persistTransition_error {next : QueueStatus}
    (hrefused : transitionQueueStatus queue.status next ≠ .ok ()) :
    ∃ e, persistTransition queue next s = .error e := by
  unfold persistTransition
  cases htransition : transitionQueueStatus queue.status next with
  | error message => exact ⟨_, rfl⟩
  | ok => exact absurd htransition hrefused

/-- A move that the table allows writes the status. -/
theorem moveTo_ok {next : QueueStatus} (stored : getQueueById id s = some queue)
    (allowed : transitionQueueStatus queue.status next = .ok ()) :
    moveTo next id s =
      .ok (some { queue with status := next }, s.saveQueue { queue with status := next }) := by
  simp only [moveTo, stored, persistTransition, allowed]
  rfl

/-- A move that the table refuses writes nothing. -/
theorem moveTo_error {next : QueueStatus} (stored : getQueueById id s = some queue)
    (hrefused : transitionQueueStatus queue.status next ≠ .ok ()) :
    ∃ e, moveTo next id s = .error e := by
  obtain ⟨e, he⟩ := persistTransition_error (s := s) hrefused
  simp only [moveTo, stored, he]
  exact ⟨e, rfl⟩

/-- The number of the advanced after a batch. -/
def Queue.advancedBy (queue : Queue) (batchSize : ℤ) : ℤ :=
  queue.advanced + max 0 (min batchSize (queue.enrolled - queue.advanced))

/-- The queue after a batch. -/
def Queue.advance (queue : Queue) (batchSize : ℤ) : Queue :=
  { queue with status := .advancementActive, advanced := queue.advancedBy batchSize }

/-- The status is of no matter to the counters. -/
theorem QueueOk.withStatus (h : QueueOk queue) (status : QueueStatus) :
    QueueOk { queue with status := status } :=
  ⟨h.slug, h.advanced, h.enrolled⟩

/-- A batch advances no more than the queue has enrolled. -/
theorem QueueOk.advance (h : QueueOk queue) (batchSize : ℤ) : QueueOk (queue.advance batchSize) := by
  have hadvanced := h.advanced
  have henrolled := h.enrolled
  refine ⟨h.slug, ?_, ?_⟩
  · dsimp only [Queue.advance, Queue.advancedBy]
    omega
  · dsimp only [Queue.advance, Queue.advancedBy]
    omega

/-- An advance that the table allows writes the status and the counters. -/
theorem advanceQueue_ok {batchSize : ℤ} (stored : getQueueById id s = some queue)
    (allowed : transitionQueueStatus queue.status .advancementActive = .ok ()) :
    advanceQueue id batchSize s = .ok (some (queue.advance batchSize),
      (s.saveQueue { queue with status := .advancementActive }).saveQueue
        (queue.advance batchSize)) := by
  simp only [advanceQueue, stored, persistTransition, allowed, Queue.advance, Queue.advancedBy]
  rfl

/-- An advance that the table refuses writes nothing. -/
theorem advanceQueue_error {batchSize : ℤ} (stored : getQueueById id s = some queue)
    (hrefused : transitionQueueStatus queue.status .advancementActive ≠ .ok ()) :
    ∃ e, advanceQueue id batchSize s = .error e := by
  obtain ⟨e, he⟩ := persistTransition_error (s := s) hrefused
  simp only [advanceQueue, stored, he]
  exact ⟨e, rfl⟩

/-- What a move can do: nothing, or a new status. -/
theorem stateAfter_moveTo (next : QueueStatus) (id : String) (s : ServiceState) :
    stateAfter s (moveTo next id s) = s ∨
      ∃ queue, getQueueById id s = some queue ∧
        stateAfter s (moveTo next id s) = s.saveQueue { queue with status := next } := by
  cases stored : getQueueById id s with
  | none =>
    simp only [moveTo, stored]
    exact .inl rfl
  | some queue =>
    by_cases allowed : transitionQueueStatus queue.status next = .ok ()
    · exact .inr ⟨queue, rfl, by rw [moveTo_ok stored allowed, stateAfter]⟩
    · obtain ⟨e, he⟩ := moveTo_error stored allowed
      exact .inl (by rw [he, stateAfter])

/-- What an advance can do: nothing, or a new status and new counters. -/
theorem stateAfter_advanceQueue (id : String) (batchSize : ℤ) (s : ServiceState) :
    (stateAfter s (advanceQueue id batchSize s) = s ∧ ∀ queue, getQueueById id s = some queue →
        transitionQueueStatus queue.status .advancementActive ≠ .ok ()) ∨
      ∃ queue, getQueueById id s = some queue ∧
        transitionQueueStatus queue.status .advancementActive = .ok () ∧
        stateAfter s (advanceQueue id batchSize s) =
          (s.saveQueue { queue with status := .advancementActive }).saveQueue
            (queue.advance batchSize) := by
  cases stored : getQueueById id s with
  | none =>
    simp only [advanceQueue, stored]
    refine .inl ⟨rfl, ?_⟩
    intro queue hqueue
    cases hqueue
  | some queue =>
    by_cases allowed : transitionQueueStatus queue.status .advancementActive = .ok ()
    · exact .inr ⟨queue, rfl, allowed, by rw [advanceQueue_ok stored allowed, stateAfter]⟩
    · obtain ⟨e, he⟩ : ∃ e, advanceQueue id batchSize s = .error e := advanceQueue_error stored allowed
      refine .inl ⟨by rw [he, stateAfter], ?_⟩
      rintro _ ⟨⟩
      exact allowed

/-- Saving a queue covers all queues exactly if it is covered. -/
theorem allCovered_saveQueue (hall : AllCovered s) (queue : Queue) :
    AllCovered (s.saveQueue queue) ↔ Covered queue (liveCount queue.id s.enrollments) := by
  constructor
  · intro h
    exact h queue.id queue InsertionMap.get_set_self
  · intro hcovered id queue' hget
    by_cases hid : id = queue.id
    · subst hid
      obtain rfl := Option.some.inj (InsertionMap.get_set_self.symm.trans hget)
      exact hcovered
    · exact hall id queue' ((InsertionMap.get_set_of_ne hid).symm.trans hget)

section Step

variable (h : ServiceOk s) (hall : AllCovered s)
include h

/-- A move keeps the state well formed. -/
theorem serviceOk_moveTo (next : QueueStatus) (id : String) :
    ServiceOk (stateAfter s (moveTo next id s)) := by
  rcases stateAfter_moveTo next id s with hsame | ⟨queue, stored, hsaved⟩
  · rwa [hsame]
  · obtain ⟨-, hok⟩ := h.ok stored
    rw [hsaved]
    exact h.saveQueue (hok.withStatus next)

/-- An advance keeps the state well formed. -/
theorem serviceOk_advanceQueue (id : String) (batchSize : ℤ) :
    ServiceOk (stateAfter s (advanceQueue id batchSize s)) := by
  rcases stateAfter_advanceQueue id batchSize s with ⟨hsame, -⟩ | ⟨queue, stored, -, hsaved⟩
  · rwa [hsame]
  · obtain ⟨-, hok⟩ := h.ok stored
    rw [hsaved]
    exact (h.saveQueue (hok.withStatus .advancementActive)).saveQueue (hok.advance batchSize)

/-- Every call keeps the state well formed. -/
theorem serviceOk_next (call : ServiceCall) : ServiceOk (services.next s call) := by
  cases call with
  | createQueue createdAt payload =>
    rw [next_eq (x := createQueue createdAt payload s) (f := fun queue => .queue (some queue)) rfl]
    unfold createQueue
    split
    · exact h
    · exact h.saveQueue ⟨rfl, le_rfl, le_rfl⟩
  | openEnrollment id =>
    rw [next_eq (x := openEnrollment id s) (f := .queue) rfl]
    exact serviceOk_moveTo h _ id
  | closeEnrollment id =>
    rw [next_eq (x := closeEnrollment id s) (f := .queue) rfl]
    exact serviceOk_moveTo h _ id
  | closeQueue id =>
    rw [next_eq (x := closeQueue id s) (f := .queue) rfl]
    exact serviceOk_moveTo h _ id
  | advanceQueue id batchSize =>
    rw [next_eq (x := advanceQueue id batchSize s) (f := .queue) rfl]
    exact serviceOk_advanceQueue h id batchSize
  | enrollment call =>
    cases call with
    | enrollIdentity now q u => exact ⟨h.queues, h.agree.enroll now q u⟩
    | cancelEnrollment q u => exact ⟨h.queues, h.agree.cancel q u⟩

include hall

/-- A move uncovers no queue. -/
theorem allCovered_moveTo (next : QueueStatus) (id : String) :
    AllCovered (stateAfter s (moveTo next id s)) := by
  rcases stateAfter_moveTo next id s with hsame | ⟨queue, stored, hsaved⟩
  · rwa [hsame]
  · obtain ⟨rfl, -⟩ := h.ok stored
    rw [hsaved, allCovered_saveQueue hall]
    exact hall queue.id queue (by rwa [← h.getQueueById_eq])

/-- An advance uncovers a queue when it goes beyond the enrollments. -/
theorem allCovered_advanceQueue (id : String) (batchSize : ℤ) :
    AllCovered (stateAfter s (advanceQueue id batchSize s)) ↔
      ¬ Uncovers s (.advanceQueue id batchSize) := by
  rcases stateAfter_advanceQueue id batchSize s with ⟨hsame, hrefused⟩ |
    ⟨queue, stored, allowed, hsaved⟩
  · rw [hsame]
    refine iff_of_true hall fun huncovers => ?_
    cases huncovers with
    | advance _ _ queue stored allowed => exact hrefused queue stored allowed
  · obtain ⟨rfl, -⟩ := h.ok stored
    have hfirst : AllCovered (s.saveQueue { queue with status := .advancementActive }) := by
      rw [allCovered_saveQueue hall]
      exact hall queue.id queue (by rwa [← h.getQueueById_eq])
    rw [hsaved, allCovered_saveQueue hfirst]
    constructor
    · intro hcovered huncovers
      cases huncovers with
      | advance _ _ queue' stored' _ live short =>
        obtain rfl := Option.some.inj (stored.symm.trans stored')
        rcases hcovered with hnone | hle
        · exact live.ne' hnone
        · exact absurd short (not_lt.mpr hle)
    · intro hnot
      by_contra hcovered
      obtain ⟨hlive, hshort⟩ := not_or.mp hcovered
      exact hnot (.advance queue.id batchSize queue stored allowed (Nat.pos_of_ne_zero hlive)
        (not_le.mp hshort))

/-- A first enrollment may uncover the queue that it joins. -/
theorem allCovered_enrollIdentity (now q u : String) :
    AllCovered { s with enrollments := (enrollIdentity now q u s.enrollments).2 } ↔
      ¬ Uncovers s (.enrollment (.enrollIdentity now q u)) := by
  by_cases hlive : s.enrollments.Live q u
  · rw [(enrollIdentity_conflict (h.agree.live_iff.mp hlive)).2]
    refine iff_of_true hall fun huncovers => ?_
    cases huncovers with
    | enroll _ _ _ _ _ new => exact new hlive
  · constructor
    · intro hcovered huncovers
      cases huncovers with
      | enroll _ _ _ queue stored _ short =>
        rw [h.getQueueById_eq] at stored
        have hqueue := hcovered q queue stored
        rw [Covered, liveCount_enroll h.agree hlive, if_pos rfl] at hqueue
        omega
    · intro hnot id queue hget
      rw [liveCount_enroll h.agree hlive]
      split
      · case _ hid =>
        subst hid
        by_contra hcovered
        obtain ⟨-, hshort⟩ := not_or.mp hcovered
        push_cast at hshort
        exact hnot (.enroll now id u queue (by rw [h.getQueueById_eq]; exact hget) hlive
          (not_le.mp hshort))
      · exact hall id queue hget

/-- A cancellation may uncover the queue that it leaves. -/
theorem allCovered_cancelEnrollment (q u : String) :
    AllCovered { s with enrollments := (cancelEnrollment q u s.enrollments).2 } ↔
      ¬ Uncovers s (.enrollment (.cancelEnrollment q u)) := by
  by_cases hlive : s.enrollments.Live q u
  · have hpos := liveCount_pos h.agree hlive
    constructor
    · intro hcovered huncovers
      cases huncovers with
      | cancel _ _ queue stored _ left short =>
        rw [h.getQueueById_eq] at stored
        have hqueue := hcovered q queue stored
        rw [Covered, liveCount_cancel h.agree hlive, if_pos rfl] at hqueue
        omega
    · intro hnot id queue hget
      rw [liveCount_cancel h.agree hlive]
      split
      · case _ hid =>
        subst hid
        by_contra hcovered
        obtain ⟨hleft, hshort⟩ := not_or.mp hcovered
        exact hnot (.cancel id u queue (by rw [h.getQueueById_eq]; exact hget) hlive (by omega)
          (by omega))
      · exact hall id queue hget
  · rw [cancelEnrollment_none (mt h.agree.live_iff.mpr hlive)]
    refine iff_of_true hall fun huncovers => ?_
    cases huncovers with
    | cancel _ _ _ _ live => exact hlive live

/-- From a state whose queues are covered, a call keeps them so exactly if it uncovers none. -/
theorem allCovered_next (call : ServiceCall) :
    AllCovered (services.next s call) ↔ ¬ Uncovers s call := by
  cases call with
  | createQueue createdAt payload =>
    refine iff_of_true ?_ (fun huncovers => by cases huncovers)
    rw [next_eq (x := createQueue createdAt payload s) (f := fun queue => .queue (some queue)) rfl]
    unfold createQueue
    split
    · exact hall
    · exact (allCovered_saveQueue hall _).mpr (.inr (Int.natCast_nonneg _))
  | openEnrollment id =>
    refine iff_of_true ?_ (fun huncovers => by cases huncovers)
    rw [next_eq (x := openEnrollment id s) (f := .queue) rfl]
    exact allCovered_moveTo h hall _ id
  | closeEnrollment id =>
    refine iff_of_true ?_ (fun huncovers => by cases huncovers)
    rw [next_eq (x := closeEnrollment id s) (f := .queue) rfl]
    exact allCovered_moveTo h hall _ id
  | closeQueue id =>
    refine iff_of_true ?_ (fun huncovers => by cases huncovers)
    rw [next_eq (x := closeQueue id s) (f := .queue) rfl]
    exact allCovered_moveTo h hall _ id
  | advanceQueue id batchSize =>
    rw [next_eq (x := advanceQueue id batchSize s) (f := .queue) rfl]
    exact allCovered_advanceQueue h hall id batchSize
  | enrollment call =>
    cases call with
    | enrollIdentity now q u => exact allCovered_enrollIdentity h hall now q u
    | cancelEnrollment q u => exact allCovered_cancelEnrollment h hall q u

end Step

/-! ## Every run -/

/-- A committed call keeps the state well formed. -/
theorem serviceOk_commit (c : services.Commit) (h : ServiceOk c.pre) : ServiceOk c.post := by
  rw [← Transactional.next_of_ok c.ok]
  exact serviceOk_next h c.call

/-- No queue of a new service has advanced anybody. -/
theorem allCovered_initial (H : Host) : AllCovered (.initial H) := fun _ _ _ => .inl rfl

/-- After every run the statistics of a queue are well formed exactly if it is covered, and along a run all
statistics stay so exactly if no call uncovers a queue. -/
theorem stats_wellFormed_iff (D : Doubles) (H : Host) (calls : List ServiceCall) :
    (∀ id queue, getQueueById id (services.run (.initial H) calls) = some queue →
      (StatsOk D id (services.run (.initial H) calls) ↔
        Covered queue (liveCount id (services.run (.initial H) calls).enrollments))) ∧
    (services.Always (AllStatsOk D) (.initial H) calls ↔
      services.Along (fun s call => ¬ Uncovers s call) (.initial H) calls) := by
  constructor
  · intro id queue stored
    exact statsOk_iff (Transactional.run_invariant serviceOk_commit (serviceOk_initial H) calls) stored
  · refine Transactional.always_iff_along serviceOk_commit ?_ (serviceOk_initial H)
      ((allStatsOk_iff (serviceOk_initial H)).mpr (allCovered_initial H)) calls
    intro s call h hall
    rw [allStatsOk_iff (serviceOk_next h call)]
    exact allCovered_next h ((allStatsOk_iff h).mp hall) call

/-- Somebody enrolls in the closed queue of the fixtures, which has advanced 120. -/
theorem one_of_120 : ¬ ∃ D H, AllStatsOk D (services.run (.initial H)
    [.enrollment (.enrollIdentity "2026-01-01T00:00:00.000Z" "visa-appointment-001"
      "GAAAAAAAAAAAAAAAAAAAAAAAAAAAAAAAAAAAAAAAAAAAAAAAAAAAAWHF")]) := by
  rintro ⟨D, H, hall⟩
  have h := serviceOk_initial H
  have hcovered : AllCovered (services.next (.initial H) (.enrollment (.enrollIdentity _ _ _))) :=
    (allStatsOk_iff (serviceOk_next h _)).mp hall
  have hne : "visa-appointment-001" ≠ "sneaker-drop-001" := by decide
  refine (allCovered_next h (allCovered_initial H) _).mp hcovered ?_
  refine .enroll _ _ _ ((defaultFixtures H).getLast (by simp [defaultFixtures])) ?_ ?_ ?_
  · rw [h.getQueueById_eq]
    simp [ServiceState.initial, createQueueService, defaultFixtures, InsertionMap.get_set_of_ne hne]
  · rintro ⟨record, hrecord, -⟩
    obtain ⟨u, hu⟩ := mem_records.mp hrecord
    simp [ServiceState.initial, EnrollmentStore.empty, byIdentity] at hu
  · have hcount : liveCount "visa-appointment-001" (ServiceState.initial H).enrollments = 0 := rfl
    rw [hcount]
    simp [defaultFixtures]

end LineProof.Backend
