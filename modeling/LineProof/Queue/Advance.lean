import LineProof.Queue.Replay

/-!
# Advancing in batches

On a queue without gaps in its ids, `advance` has a closed form: a batch moves the cursor by its size, or
to the last id, and serves the pending positions it passes (`AdvancesTo`). Two batches in a row are one
batch of their joint size, down to the storage they leave (`afterAdvance_add`).
-/

namespace LineProof.Queue

open Soroban

/-- What an `advance` of size `b` at time `now` makes of a ledger: `ids` are served. -/
structure AdvancesTo (c : QueueConfig) (b now : ℕ) (l : Ledger Store) (ids : List ℕ)
    (l' : Ledger Store) : Prop where
  cursor : l'.store.currentPositionIndex =
    min (l.store.currentPositionIndex + b) l.store.totalEnrolled
  ascending : ids.Pairwise (· < ·)
  served : ∀ id, id ∈ ids ↔ l.store.currentPositionIndex < id ∧
    id ≤ l'.store.currentPositionIndex ∧ statusAt l.store.positions id = some .pending
  advanced : ∀ id ∈ ids, ∃ p, l.store.positions.lookup id = some p ∧
    l'.store.positions.lookup id = some { p with status := .advanced, advancedAt := some now }
  others : ∀ id, id ∉ ids → l'.store.positions.lookup id = l.store.positions.lookup id
  activates : l'.store.status = some .advancementActive ↔
    l.store.status = some .advancementActive ∨ ids ≠ []
  /-- No field of the configuration changes but the status, and that only to `AdvancementActive`. -/
  config : ∃ status, l'.store.config = some { c with status } ∧
    (status = c.status ∨ status = .advancementActive)
  counters : l'.store.nextId = l.store.nextId ∧ l'.store.activeCount = l.store.activeCount ∧
    l'.store.version = l.store.version ∧ l'.store.pendingAdmin = l.store.pendingAdmin

variable {s s' : Store} {env : Env} {e : Entrypoint} {o : Output} {published : List Event}
  {l : Ledger Store} {admin : Address} {c : QueueConfig} {a b now : ℕ}

/-! ## The advancement rule -/

/-- No entrypoint changes the advancement rule. -/
theorem Effect.advancementRule (eff : Effect env s e o s' published) (hc : s.config = some c) :
    ∃ c', s'.config = some c' ∧ c'.advancementRule = c.advancementRule := by
  cases eff with
  | read | upgrade | propose | migrate | enroll | cancel | expire => exact ⟨c, hc, rfl⟩
  | @accept p d config =>
    obtain rfl := Option.some.inj (hc.symm.trans config)
    exact ⟨_, rfl, rfl⟩
  | @lifecycle _ _ d _ _ call =>
    obtain rfl := Option.some.inj (hc.symm.trans call.config)
    exact ⟨_, rfl, rfl⟩
  | @advance admin batchSize d call =>
    obtain rfl := Option.some.inj (hc.symm.trans call.config)
    refine ⟨_, rfl, ?_⟩
    unfold QueueConfig.activate
    split <;> rfl

/-- The rule a queue was initialized with is its rule in every reachable state. -/
theorem Deployment.advancementRule (d : Deployment) (calls : List (Invocation Entrypoint)) :
    ∃ c, (queue.run d.start calls).store.config = some c ∧
      c.advancementRule = d.config.advancementRule := by
  have hstart : d.start.store.config = some d.config := by rw [d.start_eq]
  refine Transactional.run_keeps (M := queue) (I := fun l => WellFormed l.store)
    (fun l => l.store.config) (K := fun c c' => c'.advancementRule = c.advancementRule)
    (fun _ => rfl) (fun h₁ h₂ => h₂.trans h₁) WellFormed.commit_post ?_ d.wellFormed calls hstart
  intro commit h c hc
  obtain ⟨_, -, eff⟩ := h.commit commit
  exact eff.advancementRule hc

/-! ## One batch -/

/-- The cursor after a batch. -/
theorem WellFormed.cursor_afterAdvance (h : WellFormed s) (c : QueueConfig) (b now : ℕ) :
    (s.afterAdvance c b now).currentPositionIndex =
      min (s.currentPositionIndex + b) s.totalEnrolled := by
  have hlength := h.scanLength_eq b (s.idx.getD 0)
  have hcursor := h.cursor_le
  rw [totalEnrolled_eq, Store.currentPositionIndex, Store.afterAdvance, Option.getD_some, hlength,
    Store.totalCreated, Store.currentPositionIndex]
  omega

variable (c now) in
/-- A batch scans the ids between the old cursor and the new one. -/
theorem mem_scannedBy {id : ℕ} : id ∈ s.scannedBy b ↔
    s.currentPositionIndex < id ∧ id ≤ (s.afterAdvance c b now).currentPositionIndex := by
  rw [Store.scannedBy, scanned, List.mem_range'_1]
  simp only [Store.currentPositionIndex, Store.afterAdvance, Option.getD_some]
  omega

variable (c now) in
/-- A batch serves the ids it scans that are pending. -/
theorem mem_servedBy {id : ℕ} : id ∈ s.servedBy b ↔
    s.currentPositionIndex < id ∧ id ≤ (s.afterAdvance c b now).currentPositionIndex ∧
      statusAt s.positions id = some .pending := by
  rw [Store.servedBy, withStatus, List.mem_filter, decide_eq_true_eq,
    (mem_scannedBy c now), and_assoc]

/-- A batch serves the pending positions it passes and leaves the others. -/
theorem lookup_afterAdvance (id : ℕ) : (s.afterAdvance c b now).positions.lookup id =
    if id ∈ s.servedBy b then (s.positions.lookup id).map fun p =>
      { p with status := .advanced, advancedAt := some now }
    else s.positions.lookup id := by
  rw [Store.afterAdvance, lookup_serveAll, Store.servedBy, withStatus]
  cases hp : s.positions.lookup id with
  | none => simp
  | some p =>
    have hstatus : statusAt s.positions id = some p.status := statusAt_eq_some.mpr ⟨p, hp, rfl⟩
    by_cases hid : id ∈ s.scannedBy b <;> by_cases hpend : p.status = .pending <;>
      simp [List.mem_filter, hid, hstatus, hpend, Position.serve]

/-- A queue is active after an advance if it was, or if somebody was served. -/
theorem status_activate (ids : List ℕ)
    (hstatus : c.status = .enrollmentClosed ∨ c.status = .advancementActive) :
    (c.activate ids).status = .advancementActive ↔ c.status = .advancementActive ∨ ids ≠ [] := by
  unfold QueueConfig.activate
  rcases hstatus with hclosed | hactive
  · by_cases hids : ids = [] <;> simp [hids, hclosed]
  · simp [hactive]

/-- An advance changes nothing of the configuration but the status. -/
theorem activate_eq (c : QueueConfig) (ids : List ℕ) :
    ∃ status, c.activate ids = { c with status } ∧
      (status = c.status ∨ status = .advancementActive) := by
  unfold QueueConfig.activate
  split
  · exact ⟨_, rfl, .inr rfl⟩
  · exact ⟨_, rfl, .inl rfl⟩

/-- The closed form of a batch. -/
theorem WellFormed.advancesTo (h : WellFormed l.store) (hc : l.store.config = some c)
    (hstatus : c.status = .enrollmentClosed ∨ c.status = .advancementActive) (events : List Event) :
    AdvancesTo c b now l (l.store.servedBy b) ⟨l.store.afterAdvance c b now, events⟩ where
  cursor := h.cursor_afterAdvance c b now
  ascending := servedBy_increasing l.store b
  served _ := mem_servedBy c now
  advanced id hid := by
    have hpend := (mem_servedBy c now).mp hid
    obtain ⟨p, hp, -⟩ := statusAt_eq_some.mp hpend.2.2
    refine ⟨p, hp, ?_⟩
    rw [lookup_afterAdvance, if_pos hid, hp, Option.map_some]
  others id hid := by rw [lookup_afterAdvance, if_neg hid]
  activates := by
    rw [Store.status, Store.status, hc, Option.map_some, Option.some.injEq]
    exact Option.some_inj.trans (status_activate _ hstatus)
  config := by
    obtain ⟨status, hconfig, hstatus⟩ := activate_eq c (l.store.servedBy b)
    exact ⟨status, congrArg some hconfig, hstatus⟩
  counters := ⟨rfl, rfl, rfl, rfl⟩

/-- An `advance` of the administrator goes through. -/
theorem WellFormed.exec_advance (h : WellFormed l.store) (call : AdminCall l.store env admin c)
    (hstatus : c.status = .enrollmentClosed ∨ c.status = .advancementActive)
    (hrule : c.advancementRule = .fifo) (hb : b ≠ 0) :
    ∃ events, exec (.advance admin b) env l =
      .ok (.ids (l.store.servedBy b), ⟨l.store.afterAdvance c b env.timestamp, events⟩) :=
  ⟨_, bind_eq_ok.mpr ⟨_, _,
    (advance_eq_ok h.totalCreated_le).mpr ⟨c, call, hb, hstatus, hrule, rfl⟩, rfl⟩⟩

/-! ## Two batches -/

/-- A batch passes so many ids. -/
def Store.batchLength (s : Store) (b : ℕ) : ℕ := min b (s.totalCreated - s.idx.getD 0)

/-- The scanned ids are consecutive. -/
theorem WellFormed.scannedBy_eq (h : WellFormed s) (b : ℕ) :
    s.scannedBy b = List.range' (s.idx.getD 0 + 1) (s.batchLength b) := by
  rw [Store.scannedBy, scanned, h.scanLength_eq, Store.batchLength]

/-- The cursor moves by the length of the batch. -/
theorem WellFormed.idx_afterAdvance (h : WellFormed s) (c : QueueConfig) (b now : ℕ) :
    (s.afterAdvance c b now).idx = some (s.idx.getD 0 + s.batchLength b) := by
  rw [Store.afterAdvance, h.scanLength_eq, Store.batchLength]

/-- A batch of two sizes is as long as the two batches in a row. -/
theorem batchLength_add (h : WellFormed s) (c : QueueConfig) (a b now : ℕ) :
    s.batchLength (a + b) = s.batchLength a + (s.afterAdvance c a now).batchLength b := by
  have htotal : (s.afterAdvance c a now).totalCreated = s.totalCreated := rfl
  rw [Store.batchLength, Store.batchLength, Store.batchLength, htotal, h.idx_afterAdvance,
    Option.getD_some, Store.batchLength]
  omega

/-- The second batch starts where the first one ended. -/
theorem scannedBy_add (h : WellFormed s) (h' : WellFormed (s.afterAdvance c a now)) (b : ℕ) :
    s.scannedBy (a + b) = s.scannedBy a ++ (s.afterAdvance c a now).scannedBy b := by
  rw [h.scannedBy_eq, h.scannedBy_eq, h'.scannedBy_eq, h.idx_afterAdvance, Option.getD_some,
    batchLength_add h c a b now, Nat.add_right_comm, List.range'_append_1]

/-- What the second batch finds pending was pending before the first. -/
theorem servedBy_add (h : WellFormed s) (h' : WellFormed (s.afterAdvance c a now)) (b : ℕ) :
    s.servedBy (a + b) = s.servedBy a ++ (s.afterAdvance c a now).servedBy b := by
  have hsecond : (s.afterAdvance c a now).servedBy b =
      withStatus .pending s.positions ((s.afterAdvance c a now).scannedBy b) := by
    apply List.filter_congr
    intro id hid
    have hlt := (mem_scannedBy c now).mp hid
    have hnot : id ∉ s.scannedBy a := by
      rw [(mem_scannedBy c now)]
      omega
    rw [Store.afterAdvance, statusAt_serveAll, if_neg (fun hboth => hnot hboth.1)]
  rw [hsecond, Store.servedBy, Store.servedBy, scannedBy_add h h', withStatus, withStatus, withStatus,
    List.filter_append]

/-- Two advances in a row activate the queue as one that serves both lists does. -/
theorem activate_activate (c : QueueConfig) (xs ys : List ℕ) :
    (c.activate xs).activate ys = c.activate (xs ++ ys) := by
  unfold QueueConfig.activate
  by_cases hxs : xs = []
  · subst hxs
    simp
  · by_cases hclosed : c.status = .enrollmentClosed
    · simp [hxs, hclosed]
    · simp [hclosed]

/-- Two batches leave the storage their joint batch leaves. -/
theorem afterAdvance_add (h : WellFormed s) (h' : WellFormed (s.afterAdvance c a now)) (b : ℕ) :
    (s.afterAdvance c a now).afterAdvance (c.activate (s.servedBy a)) b now =
      s.afterAdvance c (a + b) now := by
  have hconfig : (c.activate (s.servedBy a)).activate ((s.afterAdvance c a now).servedBy b) =
      c.activate (s.servedBy (a + b)) := by
    rw [activate_activate, servedBy_add h h']
  have hcursor := h'.idx_afterAdvance (c.activate (s.servedBy a)) b now
  rw [h.idx_afterAdvance, Option.getD_some, Nat.add_assoc, ← batchLength_add h,
    ← h.idx_afterAdvance c _ now] at hcursor
  have hpositions : serveAll now (serveAll now s.positions (s.scannedBy a))
      ((s.afterAdvance c a now).scannedBy b) = serveAll now s.positions (s.scannedBy (a + b)) := by
    rw [scannedBy_add h h', serveAll, serveAll, serveAll, List.foldl_append]
  rw [Store.afterAdvance, Store.mk.injEq]
  exact ⟨congrArg some hconfig, rfl, rfl, hcursor, rfl, rfl, hpositions⟩

/-! ## Every run -/

/-- In a FIFO queue an `advance` of the administrator goes through, with its closed form, and two batches
in one ledger leave what their joint batch leaves and return what it returns. -/
theorem advance_batches (d : Deployment) (hfifo : d.config.advancementRule = .fifo)
    (calls : List (Invocation Entrypoint)) {env : Env} {admin : Address} {c : QueueConfig}
    (call : AdminCall (queue.run d.start calls).store env admin c)
    (hstatus : c.status = .enrollmentClosed ∨ c.status = .advancementActive) :
    (∀ b, 1 ≤ b → ∃ ids l', exec (.advance admin b) env (queue.run d.start calls) = .ok (.ids ids, l') ∧
      AdvancesTo c b env.timestamp (queue.run d.start calls) ids l') ∧
    ∀ a b, 1 ≤ a → 1 ≤ b → ∃ ids₁ ids₂ l₁ l₂ l',
      exec (.advance admin a) env (queue.run d.start calls) = .ok (.ids ids₁, l₁) ∧
      exec (.advance admin b) env l₁ = .ok (.ids ids₂, l₂) ∧
      exec (.advance admin (a + b)) env (queue.run d.start calls) = .ok (.ids (ids₁ ++ ids₂), l') ∧
      l₂.store = l'.store := by
  have h := d.wellFormed_run calls
  obtain ⟨c', hc', hrule⟩ := d.advancementRule calls
  obtain rfl := Option.some.inj (call.config.symm.trans hc')
  rw [hfifo] at hrule
  constructor
  · intro b hb
    obtain ⟨events, hexec⟩ := h.exec_advance call hstatus hrule (Nat.ne_of_gt hb)
    exact ⟨_, _, hexec, h.advancesTo call.config hstatus events⟩
  · intro a b ha hb
    obtain ⟨events₁, hfirst⟩ := h.exec_advance call hstatus hrule (Nat.ne_of_gt ha)
    obtain ⟨events, hjoint⟩ := h.exec_advance call hstatus hrule (b := a + b) (by omega)
    -- the first batch leaves the administrator, the rule and a status to advance from
    obtain ⟨_, -, eff⟩ := effect_of_exec h.totalCreated_le hfirst
    have h' := h.effect eff
    obtain ⟨status, hconfig, hstatus'⟩ := activate_eq c ((queue.run d.start calls).store.servedBy a)
    have call' : AdminCall ((queue.run d.start calls).store.afterAdvance c a env.timestamp) env admin
        { c with status } := ⟨congrArg some hconfig, call.isAdmin, call.auth⟩
    have hopen : status = .enrollmentClosed ∨ status = .advancementActive := by
      rcases hstatus' with rfl | hactive
      · exact hstatus
      · exact .inr hactive
    obtain ⟨events₂, hsecond⟩ := @WellFormed.exec_advance env ⟨_, events₁⟩ admin _ b h' call' hopen hrule
      (Nat.ne_of_gt hb)
    rw [servedBy_add h h'] at hjoint
    refine ⟨_, _, _, _, _, hfirst, hsecond, hjoint, ?_⟩
    rw [← hconfig]
    exact afterAdvance_add h h' b

/-- The afternoon of the clinic day. -/
theorem advance_batches_clinicDay : ∃ ids l',
    exec (.advance ⟨"GADMIN"⟩ 2) ⟨4, [⟨"GADMIN"⟩], ⟨"CQUEUE"⟩⟩ (queue.run clinicDay.start clinicMorning) =
      .ok (.ids ids, l') ∧
    AdvancesTo { clinicDay.config with status := .enrollmentClosed } 2 4
      (queue.run clinicDay.start clinicMorning) ids l' :=
  (@advance_batches clinicDay rfl clinicMorning ⟨4, [⟨"GADMIN"⟩], ⟨"CQUEUE"⟩⟩ ⟨"GADMIN"⟩ _
    ⟨rfl, rfl, by decide⟩ (.inl rfl)).1 2 (by decide)

end LineProof.Queue
