import LineProof.Queue.Fifo

/-!
# The lifecycle of a queue

The status moves along the edges of `StatusEdge` only. A set of statuses closed under these edges is
therefore never left again (`status_run`), which gives the two freezes: no new participant once
enrollment is over, and nothing but expiries once the queue is closed.
-/

namespace LineProof.Queue

open Soroban

/-- The value of `get_config().status`. -/
def Store.status (s : Store) : Option QueueStatus := s.config.map (·.status)

/-- The moves of the status, with the call that makes each of them and what it returns. -/
inductive StatusEdge : Entrypoint → Output → QueueStatus → QueueStatus → Prop
  | openEnrollment (admin : Address) :
    StatusEdge (.openEnrollment admin) .unit .draft .enrollmentOpen
  | closeEnrollment (admin : Address) :
    StatusEdge (.closeEnrollment admin) .unit .enrollmentOpen .enrollmentClosed
  | activate (admin : Address) (batchSize : ℕ) {ids : List ℕ} (nonempty : ids ≠ []) :
    StatusEdge (.advance admin batchSize) (.ids ids) .enrollmentClosed .advancementActive
  | close (admin : Address) {status : QueueStatus} (notClosed : status ≠ .closed) :
    StatusEdge (.close admin) .unit status .closed

/-- The storages `s` and `t` have the same participants. -/
structure SameParticipants (s t : Store) : Prop where
  total : t.totalEnrolled = s.totalEnrolled
  ids : ∀ id, (∃ p, t.positions.lookup id = some p) ↔ ∃ p, s.positions.lookup id = some p

/-- What a closed queue in storage `s` still shares with a later storage `t`. -/
structure ClosedSince (s t : Store) : Prop where
  status : t.status = some .closed
  cursor : t.currentPositionIndex = s.currentPositionIndex
  total : t.totalEnrolled = s.totalEnrolled
  advanced : ∀ id, statusAt t.positions id = some .advanced ↔
    statusAt s.positions id = some .advanced

/-- The lifecycle of one run of a queue. -/
structure QueueLifecycle (start : Ledger Store) (calls : List (Invocation Entrypoint)) : Prop where
  edges : ∀ c ∈ queue.history start calls, ∃ a b, c.pre.store.status = some a ∧
    c.post.store.status = some b ∧ (b = a ∨ StatusEdge c.call.entry c.out a b)
  /-- Once the status has left `EnrollmentOpen`, no position is created any more. -/
  frozen : ∀ before between after, calls = before ++ between ++ after →
    (queue.run start before).store.status = some .enrollmentOpen →
    (queue.run start (before ++ between)).store.status ≠ some .enrollmentOpen →
    SameParticipants (queue.run start (before ++ between)).store (queue.run start calls).store
  closed : ∀ before after, calls = before ++ after →
    (queue.run start before).store.status = some .closed →
    ClosedSince (queue.run start before).store (queue.run start calls).store

variable {s s' : Store} {env : Env} {e : Entrypoint} {o : Output} {published : List Event}

/-! ## One call -/

/-- The calls of the lifecycle follow its edges. -/
theorem LifecycleCall.statusEdge {admin : Address} {a b : QueueStatus}
    (edge : LifecycleCall e admin a b) : StatusEdge e .unit a b := by
  cases edge with
  | openEnrollment => exact .openEnrollment admin
  | closeEnrollment => exact .closeEnrollment admin
  | close _ notClosed => exact .close admin notClosed

/-- A call keeps the status, or follows an edge. -/
theorem Effect.statusEdge (eff : Effect env s e o s' published) {a : QueueStatus}
    (ha : s.status = some a) :
    ∃ b, s'.status = some b ∧ (b = a ∨ StatusEdge e o a b) := by
  obtain ⟨c, hc, rfl⟩ := Option.map_eq_some_iff.mp ha
  cases eff with
  | read | upgrade | propose | migrate | enroll | cancel | expire => exact ⟨_, ha, .inl rfl⟩
  | @accept p d config =>
    obtain rfl := Option.some.inj (hc.symm.trans config)
    exact ⟨_, rfl, .inl rfl⟩
  | @lifecycle _ _ d status edge call =>
    obtain rfl := Option.some.inj (hc.symm.trans call.config)
    exact ⟨status, rfl, .inr edge.statusEdge⟩
  | @advance admin batchSize d call =>
    obtain rfl := Option.some.inj (hc.symm.trans call.config)
    by_cases hact : s.servedBy batchSize ≠ [] ∧ c.status = .enrollmentClosed
    · refine ⟨.advancementActive, ?_, .inr ?_⟩
      · simp [Store.status, Store.afterAdvance, QueueConfig.activate, hact]
      · rw [hact.2]
        exact .activate admin batchSize hact.1
    · refine ⟨c.status, ?_, .inl rfl⟩
      simp only [Store.status, Store.afterAdvance, QueueConfig.activate, if_neg hact,
        Option.map_some]

/-- Only an enrollment hands out an id. -/
theorem Effect.nextId_eq (eff : Effect env s e o s' published)
    (hst : s.status ≠ some .enrollmentOpen) : s'.nextId = s.nextId := by
  cases eff with
  | @enroll u c config _ status =>
    refine absurd ?_ hst
    rw [Store.status, config, Option.map_some, status]
  | _ => rfl

/-- On a closed queue the cursor stands still, and nobody is served. -/
theorem Effect.of_closed (eff : Effect env s e o s' published) (hst : s.status = some .closed) :
    s'.idx = s.idx ∧ servedOf e o = [] := by
  cases eff with
  | @advance admin batchSize c call _ status =>
    rw [Store.status, call.config, Option.map_some, Option.some.injEq] at hst
    rcases status with h | h <;> rw [h] at hst <;> contradiction
  | read reader => exact ⟨rfl, servedOf_reader reader _⟩
  | enroll => exact ⟨rfl, rfl⟩
  | _ => exact ⟨rfl, servedOf_unit _⟩

/-- A closed queue is closed. -/
theorem ClosedSince.refl (h : s.status = some .closed) : ClosedSince s s :=
  ⟨h, rfl, rfl, fun _ => Iff.rfl⟩

/-- What is closed stays closed. -/
theorem ClosedSince.trans {t u : Store} (h₁ : ClosedSince s t) (h₂ : ClosedSince t u) :
    ClosedSince s u :=
  ⟨h₂.status, h₂.cursor.trans h₁.cursor, h₂.total.trans h₁.total,
    fun id => (h₂.advanced id).trans (h₁.advanced id)⟩

/-- `Closed` has no way out. -/
theorem Effect.closedSince (h : WellFormed s) (eff : Effect env s e o s' published)
    (hst : s.status = some .closed) : ClosedSince s s' := by
  obtain ⟨hcursor, hserved⟩ := eff.of_closed hst
  constructor
  · obtain ⟨b, hb, rfl | edge⟩ := eff.statusEdge hst
    · exact hb
    · cases edge with
      | close _ notClosed => exact absurd rfl notClosed
  · rw [Store.currentPositionIndex, hcursor, Store.currentPositionIndex]
  · rw [totalEnrolled_eq, totalEnrolled_eq, eff.nextId_eq (by simp [hst])]
  · intro id
    simp [advanced_iff h eff, hserved]

/-! ## Every run -/

section Run

variable {l : Ledger Store} {U : QueueStatus → Prop}

/-- A call keeps a set of statuses that no edge leaves. -/
theorem status_commit (stable : ∀ e o a b, StatusEdge e o a b → U a → U b) (c : queue.Commit)
    (h : WellFormed c.pre.store) (hU : ∃ a, c.pre.store.status = some a ∧ U a) :
    ∃ b, c.post.store.status = some b ∧ U b := by
  obtain ⟨_, -, eff⟩ := h.commit c
  obtain ⟨a, ha, hUa⟩ := hU
  obtain ⟨b, hb, rfl | edge⟩ := eff.statusEdge ha
  · exact ⟨b, hb, hUa⟩
  · exact ⟨b, hb, stable _ _ _ _ edge hUa⟩

/-- A set of statuses that no edge leaves is never left. -/
theorem status_run (stable : ∀ e o a b, StatusEdge e o a b → U a → U b) (h : WellFormed l.store)
    (hU : ∃ a, l.store.status = some a ∧ U a) (calls : List (Invocation Entrypoint)) :
    ∃ a, (queue.run l calls).store.status = some a ∧ U a :=
  (Transactional.run_invariant (M := queue)
    (I := fun l => WellFormed l.store ∧ ∃ a, l.store.status = some a ∧ U a)
    (fun c hc => ⟨WellFormed.commit_post c hc.1, status_commit stable c hc.1 hc.2⟩)
    ⟨h, hU⟩ calls).2

/-- Enrollment is over. -/
def QueueStatus.PastEnrollment (a : QueueStatus) : Prop := a ≠ .draft ∧ a ≠ .enrollmentOpen

/-- No edge leads back to an open enrollment. -/
theorem pastEnrollment_stable (e : Entrypoint) (o : Output) (a b : QueueStatus)
    (edge : StatusEdge e o a b) (ha : a.PastEnrollment) : b.PastEnrollment := by
  cases edge with
  | openEnrollment => exact absurd rfl ha.1
  | closeEnrollment => exact ⟨nofun, nofun⟩
  | activate => exact ⟨nofun, nofun⟩
  | close => exact ⟨nofun, nofun⟩

/-- Once enrollment is over, the id counter stands still. -/
theorem nextId_run (h : WellFormed l.store)
    (hst : ∃ a, l.store.status = some a ∧ a.PastEnrollment) (calls : List (Invocation Entrypoint)) :
    (queue.run l calls).store.nextId = l.store.nextId := by
  refine Transactional.run_relation (M := queue)
    (I := fun l => WellFormed l.store ∧ ∃ a, l.store.status = some a ∧ a.PastEnrollment)
    (R := fun l l' => l'.store.nextId = l.store.nextId) (fun _ => rfl)
    (fun h₁ h₂ => h₂.trans h₁) ?_ ?_ ⟨h, hst⟩ calls
  · exact fun c hc => ⟨WellFormed.commit_post c hc.1, status_commit pastEnrollment_stable c hc.1 hc.2⟩
  · rintro c ⟨h, a, ha, -, hopen⟩
    obtain ⟨_, -, eff⟩ := h.commit c
    apply eff.nextId_eq
    rw [ha]
    simpa using hopen

/-- With the same id counter there are the same participants. -/
theorem WellFormed.sameParticipants {t : Store} (hs : WellFormed s) (ht : WellFormed t)
    (hnext : t.nextId = s.nextId) : SameParticipants s t := by
  constructor
  · rw [totalEnrolled_eq, totalEnrolled_eq, hnext]
  · intro id
    rw [ht.dense, hs.dense, hnext]

/-- After enrollment was open and is so no more, it is over. -/
theorem pastEnrollment_of_left (h : WellFormed l.store) {calls : List (Invocation Entrypoint)}
    (hopen : l.store.status = some .enrollmentOpen)
    (hleft : (queue.run l calls).store.status ≠ some .enrollmentOpen) :
    ∃ a, (queue.run l calls).store.status = some a ∧ a.PastEnrollment := by
  -- no edge leads back to `Draft`, so what is not `EnrollmentOpen` now lies past it
  have notDraft : ∀ e o a b, StatusEdge e o a b → a ≠ .draft → b ≠ .draft := by
    rintro _ _ _ _ ⟨⟩ _ <;> nofun
  obtain ⟨a, ha, hdraft⟩ := status_run notDraft h ⟨_, hopen, nofun⟩ calls
  exact ⟨a, ha, hdraft, fun heq => hleft (ha.trans (congrArg some heq))⟩

/-- A run leaves a closed queue closed, with all that is frozen. -/
theorem closedSince_run (h : WellFormed l.store) (hst : l.store.status = some .closed)
    (calls : List (Invocation Entrypoint)) : ClosedSince l.store (queue.run l calls).store := by
  refine Transactional.run_relation (M := queue) (I := fun l => WellFormed l.store)
    (R := fun l l' => l.store.status = some .closed → ClosedSince l.store l'.store)
    (fun _ hst => .refl hst) (fun h₁ h₂ hst => (h₁ hst).trans (h₂ (h₁ hst).status))
    WellFormed.commit_post ?_ h calls hst
  intro c h hst
  obtain ⟨_, -, eff⟩ := h.commit c
  exact eff.closedSince h hst

end Run

/-- Every run of a deployed queue follows the lifecycle. -/
theorem queue_lifecycle (d : Deployment) (calls : List (Invocation Entrypoint)) :
    QueueLifecycle d.start calls := by
  constructor
  · intro c hc
    have h := d.wellFormed_pre hc
    obtain ⟨_, -, eff⟩ := h.commit c
    obtain ⟨cfg, hcfg⟩ := h.configured
    have ha : c.pre.store.status = some cfg.status := by rw [Store.status, hcfg, Option.map_some]
    obtain ⟨b, hb, edge⟩ := eff.statusEdge ha
    exact ⟨_, b, ha, hb, edge⟩
  · rintro before between after rfl hopen hleft
    have h := d.wellFormed_run (before ++ between)
    rw [Transactional.run_append] at hleft
    have hpast := pastEnrollment_of_left (d.wellFormed_run before) hopen hleft
    rw [← Transactional.run_append] at hpast
    rw [Transactional.run_append d.start (before ++ between)]
    exact h.sameParticipants (wellFormed_run h after) (nextId_run h hpast after)
  · rintro before after rfl hst
    rw [Transactional.run_append]
    exact closedSince_run (d.wellFormed_run before) hst after

end LineProof.Queue
