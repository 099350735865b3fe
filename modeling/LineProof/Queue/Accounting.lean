import LineProof.Queue.Advance

/-!
# The events of the cursor

A batch announces every position it passes, except the expired ones: these had an event of their own when
they expired, and `Skipped` is for cancelled positions. So the cursor is the number of `Advanced` and
`Skipped` events, and of the expired positions behind it (`cursor_accounted`).
-/

namespace LineProof.Queue

open Soroban

/-- The event is `Advanced` or `Skipped`. -/
def announcesPassed : Event → Bool
  | ⟨[_, .symbol kind, _], _⟩ => kind.str == "Advanced" || kind.str == "Skipped"
  | _ => false

/-- The ids the cursor passes between two storages. -/
def passedIds (s s' : Store) : List ℕ :=
  List.range' (s.currentPositionIndex + 1) (s'.currentPositionIndex - s.currentPositionIndex)

/-- The expired positions the cursor has passed. -/
def Store.expiredBehind (s : Store) : ℕ :=
  (withStatus .expired s.positions (List.range' 1 s.currentPositionIndex)).length

/-- A successful `advance` of `admin` passes positions that are pending, cancelled or expired, and
publishes one event for each of the first two kinds and no others. -/
structure AnnouncesPassed (admin : Address) (now : ℕ) (s s' : Store) (events : List Event) : Prop where
  forward : s.currentPositionIndex ≤ s'.currentPositionIndex
  status : ∀ id ∈ passedIds s s', statusAt s.positions id = some .pending ∨
    statusAt s.positions id = some .cancelled ∨ statusAt s.positions id = some .expired
  events : events =
    (withStatus .cancelled s.positions (passedIds s s')).map (event "Skipped" · admin now) ++
      (withStatus .pending s.positions (passedIds s s')).map (event "Advanced" · admin now)

/-- The cursor of a queue is accounted for by its events and by the expired positions. -/
structure CursorAccounted (start : Ledger Store) (calls : List (Invocation Entrypoint)) : Prop where
  batches : ∀ c ∈ queue.history start calls, ∀ admin b, c.call.entry = .advance admin b →
    AnnouncesPassed admin c.call.env.timestamp c.pre.store c.post.store (published c)
  cursor : (queue.run start calls).store.currentPositionIndex =
    (queue.run start calls).events.countP announcesPassed + (queue.run start calls).store.expiredBehind

variable {s s' : Store} {env : Env} {e : Entrypoint} {o : Output} {events : List Event}
  {l : Ledger Store} {admin : Address} {c : QueueConfig} {b now : ℕ}

/-! ## One batch -/

/-- The ids that an advance passes are those it scans. -/
theorem passedIds_afterAdvance : passedIds s (s.afterAdvance c b now) = s.scannedBy b := by
  rw [passedIds, Store.scannedBy, scanned, Store.currentPositionIndex, Store.currentPositionIndex,
    Store.afterAdvance, Option.getD_some, Nat.add_sub_cancel_left]

/-- A position ahead of the cursor is pending, cancelled or expired. -/
theorem WellFormed.status_scannedBy (h : WellFormed s) {id : ℕ} (hid : id ∈ s.scannedBy b) :
    statusAt s.positions id = some .pending ∨ statusAt s.positions id = some .cancelled ∨
      statusAt s.positions id = some .expired := by
  have hcursor := h.cursor_le
  have hone := h.one_le_nextId
  rw [h.scannedBy_eq, List.mem_range'_1, Store.batchLength, Store.totalCreated] at hid
  obtain ⟨p, hp⟩ := (h.dense id).mpr (by omega)
  have hstatus : statusAt s.positions id = some p.status := statusAt_eq_some.mpr ⟨p, hp, rfl⟩
  have hahead := h.ahead id (by omega)
  rw [hstatus] at hahead ⊢
  cases hkind : p.status with
  | pending => exact .inl rfl
  | cancelled => exact .inr (.inl rfl)
  | expired => exact .inr (.inr rfl)
  | advanced => exact absurd (congrArg some hkind) hahead

/-- An advance announces every id it passes, once and with its outcome. -/
theorem Effect.announces (h : WellFormed s)
    (eff : Effect env s (.advance admin b) o s' events) :
    AnnouncesPassed admin env.timestamp s s' events := by
  cases eff with
  | read reader => exact reader.elim
  | lifecycle edge => cases edge
  | expire expiry => cases expiry
  | @advance _ _ c =>
    constructor
    · rw [Store.currentPositionIndex, Store.currentPositionIndex, Store.afterAdvance, Option.getD_some]
      omega
    · rw [passedIds_afterAdvance]
      exact fun id hid => h.status_scannedBy hid
    · rw [passedIds_afterAdvance, Store.servedBy]

/-! ## Counting -/

/-- Ids of three statuses, counted by status. -/
theorem length_by_status {m : Positions} {ids : List ℕ}
    (h : ∀ id ∈ ids, statusAt m id = some .pending ∨ statusAt m id = some .cancelled ∨
      statusAt m id = some .expired) :
    ids.length = (withStatus .cancelled m ids).length + (withStatus .pending m ids).length +
      (withStatus .expired m ids).length := by
  induction ids with
  | nil => rfl
  | cons id ids ih =>
    obtain ⟨hid, hids⟩ := List.forall_mem_cons.mp h
    have hrest := ih hids
    rw [withStatus_cons, withStatus_cons, withStatus_cons, List.length_cons]
    rcases hid with hid | hid | hid
    · simp [hid]
      omega
    · simp [hid]
      omega
    · simp [hid]
      omega

/-- The events of the lifecycle announce no position. -/
theorem announcesPassed_lifecycle (e : Entrypoint) (who : Address) (now : ℕ) :
    announcesPassed (event (LifecycleCall.kind e) 0 who now) = false := by
  cases e <;> rfl

/-- Events of one kind. -/
theorem countP_announcesPassed (kind : String) (who : Address) (now : ℕ) (ids : List ℕ) :
    (ids.map (event kind · who now)).countP announcesPassed =
      if kind == "Advanced" || kind == "Skipped" then ids.length else 0 := by
  rw [List.countP_map]
  split
  · case _ hkind =>
    rw [List.countP_eq_length]
    exact fun id _ => hkind
  · case _ hkind =>
    rw [List.countP_eq_zero]
    exact fun id _ => hkind

/-- The positions behind the cursor do not change. -/
theorem Effect.lookup_behind (h : WellFormed s) (eff : Effect env s e o s' events) {id : ℕ}
    (hid : id ≤ s.currentPositionIndex) : s'.positions.lookup id = s.positions.lookup id := by
  have hpassed := h.passed id hid
  have hcursor := h.cursor_le
  have hone := h.one_le_nextId
  have change := eff.positionChange id
  unfold Store.currentPositionIndex at hid
  generalize hold : s.positions.lookup id = old at change
  generalize s'.positions.lookup id = new at change
  cases change with
  | keep => rfl
  | enrolled _ next => omega
  | cancelled pending | advanced pending | expired pending =>
    exact absurd (statusAt_eq_some.mpr ⟨_, hold, pending⟩) hpassed

/-- Which ids have a status depends on these ids only. -/
theorem withStatus_congr {m m' : Positions} {ids : List ℕ} (st : PositionStatus)
    (h : ∀ id ∈ ids, m'.lookup id = m.lookup id) : withStatus st m' ids = withStatus st m ids := by
  apply List.filter_congr
  intro id hid
  rw [statusAt, statusAt, h id hid]

/-- Where the cursor stays, so do the expired positions behind it. -/
theorem Effect.expiredBehind_eq (h : WellFormed s) (eff : Effect env s e o s' events)
    (hidx : s'.idx = s.idx) : s'.expiredBehind = s.expiredBehind := by
  have hcursor : s'.currentPositionIndex = s.currentPositionIndex := by
    rw [Store.currentPositionIndex, hidx, Store.currentPositionIndex]
  rw [Store.expiredBehind, hcursor, Store.expiredBehind]
  refine congrArg List.length (withStatus_congr _ ?_)
  intro id hid
  have hrange := List.mem_range'_1.mp hid
  exact eff.lookup_behind h (by omega)

/-- A batch leaves the expired positions it passes behind the cursor. -/
theorem WellFormed.expiredBehind_afterAdvance (h : WellFormed s)
    (eff : Effect env s e o (s.afterAdvance c b now) events) :
    (s.afterAdvance c b now).expiredBehind =
      s.expiredBehind + (withStatus .expired s.positions (s.scannedBy b)).length := by
  have hrange : List.range' 1 (s.afterAdvance c b now).currentPositionIndex =
      List.range' 1 s.currentPositionIndex ++ s.scannedBy b := by
    rw [h.scannedBy_eq, Store.currentPositionIndex, h.idx_afterAdvance, Option.getD_some,
      Store.currentPositionIndex, Nat.add_comm (s.idx.getD 0) 1, List.range'_append_1]
  have hexpired : withStatus .expired (s.afterAdvance c b now).positions (s.scannedBy b) =
      withStatus .expired s.positions (s.scannedBy b) := by
    apply List.filter_congr
    intro id _
    rw [Store.afterAdvance, statusAt_serveAll]
    split <;> simp_all
  rw [Store.expiredBehind, hrange, withStatus, List.filter_append, List.length_append,
    Store.expiredBehind]
  refine congrArg₂ (· + ·) (congrArg List.length (withStatus_congr _ ?_)) (congrArg List.length hexpired)
  intro id hid
  have hbound := List.mem_range'_1.mp hid
  exact eff.lookup_behind h (by omega)

/-- One call moves the cursor by the positions it announces and the expired ones it passes. -/
theorem Effect.cursor_moves (h : WellFormed s) (eff : Effect env s e o s' events) :
    s'.currentPositionIndex + s.expiredBehind =
      s.currentPositionIndex + events.countP announcesPassed + s'.expiredBehind := by
  have hstay (hidx : s'.idx = s.idx) (hcount : events.countP announcesPassed = 0) :
      s'.currentPositionIndex + s.expiredBehind =
        s.currentPositionIndex + events.countP announcesPassed + s'.expiredBehind := by
    rw [eff.expiredBehind_eq h hidx, hcount, Store.currentPositionIndex, hidx,
      Store.currentPositionIndex, Nat.add_zero]
  cases id eff with
  | read | propose | accept => exact hstay rfl rfl
  | upgrade | migrate | enroll | cancel => exact hstay rfl rfl
  | @lifecycle e admin =>
    refine hstay rfl ?_
    rw [List.countP_singleton, announcesPassed_lifecycle]
    rfl
  | @expire _ _ ids =>
    refine hstay rfl ?_
    rw [countP_announcesPassed]
    rfl
  | @advance admin b c =>
    have hlength := length_by_status fun id hid => h.status_scannedBy (b := b) hid
    rw [h.expiredBehind_afterAdvance eff, List.countP_append, countP_announcesPassed,
      countP_announcesPassed, Store.currentPositionIndex, h.idx_afterAdvance, Option.getD_some,
      Store.currentPositionIndex, Store.servedBy]
    rw [h.scannedBy_eq, List.length_range'] at hlength
    rw [h.scannedBy_eq]
    simp only [beq_self_eq_true, Bool.true_or, Bool.or_true, if_true]
    omega

/-! ## Every run -/

/-- In every reachable state the cursor is accounted for. -/
theorem cursor_accounted (d : Deployment) (calls : List (Invocation Entrypoint)) :
    CursorAccounted d.start calls := by
  constructor
  · intro c hc admin b hentry
    have h := d.wellFormed_pre hc
    obtain ⟨events, hevents, eff⟩ := h.commit c
    rw [hentry] at eff
    rw [published_of_append hevents]
    exact eff.announces h
  · have hrun := Transactional.run_invariant (M := queue)
      (I := fun l => WellFormed l.store ∧ l.store.currentPositionIndex =
        l.events.countP announcesPassed + l.store.expiredBehind) ?_ ⟨d.wellFormed, ?_⟩ calls
    · exact hrun.2
    · intro c hc
      obtain ⟨h, hcursor⟩ := hc
      obtain ⟨events, hevents, eff⟩ := h.commit c
      have hstep := eff.cursor_moves h
      refine ⟨h.effect eff, ?_⟩
      rw [hevents, List.countP_append]
      omega
    · rw [d.start_eq]
      rfl

/-- The morning of the clinic day, and an afternoon in which one patient is served and the other one
expires. -/
def clinicAfternoon : List (Invocation Entrypoint) :=
  clinicMorning ++ [⟨⟨4, [⟨"GADMIN"⟩], ⟨"CQUEUE"⟩⟩, .advance ⟨"GADMIN"⟩ 1⟩,
    ⟨⟨5, [⟨"GADMIN"⟩], ⟨"CQUEUE"⟩⟩, .expirePosition ⟨"GADMIN"⟩ 2⟩,
    ⟨⟨6, [⟨"GADMIN"⟩], ⟨"CQUEUE"⟩⟩, .advance ⟨"GADMIN"⟩ 1⟩]

/-- The last batch passes the expired position without an event. -/
theorem expired_passed_silently :
    ¬ ∀ (d : Deployment) (calls : List (Invocation Entrypoint)),
      (queue.run d.start calls).store.currentPositionIndex =
        (queue.run d.start calls).events.countP announcesPassed := by
  intro h
  exact absurd (h clinicDay clinicAfternoon) (by decide +kernel)

end LineProof.Queue
