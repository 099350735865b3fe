import Mathlib.Order.Interval.Finset.Nat
import LineProof.Queue.Steps

/-!
# The invariant of the queue contract

`WellFormed` ties the id counter, the cursor and the active count to the table of positions. It holds
right after `initialize` and every entrypoint keeps it, so it holds in every reachable state.
-/

namespace LineProof.Queue

open Soroban

/-- The ids handed out whose position is not cancelled. -/
def Store.occupiedIds (s : Store) : Finset ℕ :=
  (Finset.Icc 1 s.totalEnrolled).filter fun id => statusAt s.positions id ≠ some .cancelled

/-- The number of places taken. -/
def Store.occupied (s : Store) : ℕ := s.occupiedIds.card

/-- What holds of the storage of a queue in every reachable state. -/
structure WellFormed (s : Store) : Prop where
  configured : ∃ c, s.config = some c
  one_le_nextId : 1 ≤ s.nextId.getD 1
  nextId_le : s.nextId.getD 1 ≤ u32Max
  /-- The ids with a position are those handed out. -/
  dense : ∀ id, (∃ p, s.positions.lookup id = some p) ↔ 1 ≤ id ∧ id < s.nextId.getD 1
  ownId : ∀ id p, s.positions.lookup id = some p → p.positionId = id
  advancedAt : ∀ id p, s.positions.lookup id = some p →
    (p.advancedAt.isSome ↔ p.status = .advanced)
  cursor_le : s.idx.getD 0 ≤ s.nextId.getD 1 - 1
  /-- Nobody waits behind the cursor. -/
  passed : ∀ id, id ≤ s.idx.getD 0 → statusAt s.positions id ≠ some .pending
  /-- Nobody is served ahead of the cursor. -/
  ahead : ∀ id, s.idx.getD 0 < id → statusAt s.positions id ≠ some .advanced
  active_eq : s.activeCount.getD 0 = s.occupied
  capacity : ∀ c, s.config = some c → s.activeCount.getD 0 ≤ c.maxPositions

/-- The id counter is one ahead of the positions. -/
theorem totalEnrolled_eq (s : Store) : s.totalEnrolled = s.nextId.getD 1 - 1 := by
  dsimp only [Store.totalEnrolled]
  split
  · case _ h => rw [h]
  · rfl

/-- An id is occupied if it was given out and not cancelled. -/
theorem mem_occupiedIds {s : Store} {id : ℕ} :
    id ∈ s.occupiedIds ↔
      (1 ≤ id ∧ id ≤ s.nextId.getD 1 - 1) ∧ statusAt s.positions id ≠ some .cancelled := by
  rw [Store.occupiedIds, Finset.mem_filter, Finset.mem_Icc, totalEnrolled_eq]

/-! ## Statuses after a batch -/

/-- Serving makes the pending ids of the list advanced. -/
theorem statusAt_serveAll (now : ℕ) (m : Positions) (ids : List ℕ) (id : ℕ) :
    statusAt (serveAll now m ids) id =
      if id ∈ ids ∧ statusAt m id = some .pending then some .advanced else statusAt m id := by
  rw [statusAt, lookup_serveAll]
  cases h : m.lookup id with
  | none => simp [statusAt, h]
  | some p =>
    by_cases hid : id ∈ ids <;> by_cases hst : p.status = .pending <;>
      simp [statusAt, h, hid, hst, Position.serve]

/-- Expiring makes every id of the list expired. -/
theorem statusAt_expireAll (m : Positions) (ids : List ℕ) (id : ℕ) :
    statusAt (expireAll m ids) id =
      if id ∈ ids then (statusAt m id).map fun _ => .expired else statusAt m id := by
  rw [statusAt, lookup_expireAll]
  cases h : m.lookup id with
  | none => simp [statusAt, h]
  | some p =>
    by_cases hid : id ∈ ids <;> simp [statusAt, h, hid, Position.expire]

/-- On a table without gaps the scan stops only at the batch size or at the last id. -/
theorem scanLength_eq {m : Positions} {totalCreated : ℕ}
    (dense : ∀ id, 1 ≤ id → id ≤ totalCreated → ∃ p, m.lookup id = some p) (n idx : ℕ) :
    scanLength m totalCreated n idx = min n (totalCreated - idx) := by
  induction n generalizing idx with
  | zero => simp [scanLength]
  | succ n ih =>
    by_cases hidx : totalCreated ≤ idx
    · rw [scanLength, if_pos (Or.inl hidx)]
      omega
    · obtain ⟨p, hp⟩ := dense (idx + 1) (by omega) (by omega)
      rw [scanLength_succ hidx hp, ih]
      omega

variable {s s' : Store} {env : Env} {e : Entrypoint} {o : Output} {published : List Event}

namespace WellFormed

/-- The number of positions fits its type. -/
theorem totalCreated_le (h : WellFormed s) : s.totalCreated ≤ u32Max := by
  have := h.nextId_le
  unfold Store.totalCreated
  omega

theorem scanLength_eq (h : WellFormed s) (n idx : ℕ) :
    scanLength s.positions s.totalCreated n idx = min n (s.totalCreated - idx) := by
  refine Queue.scanLength_eq (fun id h1 h2 => (h.dense id).mpr ⟨h1, ?_⟩) n idx
  have := h.one_le_nextId
  unfold Store.totalCreated at h2
  omega

/-- A pending position lies ahead of the cursor. -/
theorem lt_of_pending (h : WellFormed s) {id : ℕ}
    (hp : statusAt s.positions id = some .pending) : s.idx.getD 0 < id := by
  by_contra hle
  exact h.passed id (by omega) hp

/-- No position is stored under the next id. -/
theorem lookup_nextId (h : WellFormed s) : s.positions.lookup (s.nextId.getD 1) = none := by
  by_contra hne
  -- a position under the next id would be one of those handed out
  obtain ⟨p, hp⟩ := Option.ne_none_iff_exists'.mp hne
  have := ((h.dense _).mp ⟨p, hp⟩).2
  omega

/-- A call keeps every position under its own id. -/
theorem ownId_effect (h : WellFormed s) (eff : Effect env s e o s' published) (id : ℕ) :
    ∀ p, s'.positions.lookup id = some p → p.positionId = id := by
  refine (eff.positionChange id).invariant (fun _ => rfl) ?_ (h.ownId id)
  rintro p _ - hp ⟨⟩ <;> exact hp

/-- A call writes `advanced_at` together with the status. -/
theorem advancedAt_effect (h : WellFormed s) (eff : Effect env s e o s' published) (id : ℕ) :
    ∀ p, s'.positions.lookup id = some p → (p.advancedAt.isSome ↔ p.status = .advanced) := by
  refine (eff.positionChange id).invariant (by simp [newPosition]) ?_ (h.advancedAt id)
  rintro p _ pending hp ⟨⟩ <;> simp_all

/-! ### The active count -/

/-- The places taken are among the ids handed out. -/
theorem active_le_nextId (h : WellFormed s) : s.activeCount.getD 0 ≤ s.nextId.getD 1 - 1 := by
  have hcard := Finset.card_filter_le (Finset.Icc 1 s.totalEnrolled) fun id =>
    statusAt s.positions id ≠ some .cancelled
  rw [Nat.card_Icc, totalEnrolled_eq] at hcard
  rw [h.active_eq]
  simpa [Store.occupied, Store.occupiedIds, totalEnrolled_eq] using hcard

/-- An enrollment occupies one more id. -/
theorem occupied_enroll (h : WellFormed s) (u : Address) (now : ℕ) :
    (s.afterEnroll u now).occupied = s.occupied + 1 := by
  have hone := h.one_le_nextId
  -- the new id joins the ids handed out, and its position is pending
  have hset : (s.afterEnroll u now).occupiedIds = insert (s.nextId.getD 1) s.occupiedIds := by
    ext id
    rw [Finset.mem_insert, mem_occupiedIds, mem_occupiedIds, Store.afterEnroll, Option.getD_some]
    by_cases hi : id = s.nextId.getD 1
    · simp [hi, newPosition, hone]
    · rw [statusAt_insert_of_ne _ _ hi]
      constructor
      · rintro ⟨hid, hst⟩
        exact .inr ⟨by omega, hst⟩
      · rintro (hid | ⟨hid, hst⟩)
        · exact absurd hid hi
        · exact ⟨by omega, hst⟩
  rw [Store.occupied, hset, Finset.card_insert_of_notMem, Store.occupied]
  rw [mem_occupiedIds]
  omega

/-- A cancellation frees one id. -/
theorem occupied_cancel (h : WellFormed s) {id : ℕ} {p : Position}
    (hp : s.positions.lookup id = some p) (hst : p.status = .pending) :
    (s.afterCancel id p).occupied + 1 = s.occupied := by
  have hid := (h.dense id).mp ⟨p, hp⟩
  have hmem : id ∈ s.occupiedIds := by
    rw [mem_occupiedIds, statusAt, hp]
    exact ⟨by omega, by simp [hst]⟩
  have hset : (s.afterCancel id p).occupiedIds = s.occupiedIds.erase id := by
    ext i
    rw [Finset.mem_erase, mem_occupiedIds, mem_occupiedIds, Store.afterCancel]
    by_cases hi : i = id
    · simp [hi]
    · rw [statusAt_insert_of_ne _ _ hi]
      exact ⟨fun hmem => ⟨hi, hmem⟩, fun hmem => hmem.2⟩
  rw [Store.occupied, hset, Finset.card_erase_add_one hmem, Store.occupied]

/-- A change that cancels nobody and hands out no id keeps the count. -/
theorem occupied_congr {t : Store} (hnext : t.nextId = s.nextId)
    (hst : ∀ id, statusAt t.positions id = some .cancelled ↔
      statusAt s.positions id = some .cancelled) : t.occupied = s.occupied := by
  refine congrArg Finset.card (Finset.ext fun id => ?_)
  rw [mem_occupiedIds, mem_occupiedIds, hnext, Ne, hst]

/-! ### One entrypoint at a time -/

/-- An enrollment keeps the invariant. -/
theorem enroll (h : WellFormed s) {u : Address} {c : QueueConfig} (hc : s.config = some c)
    (room : s.activeCount.getD 0 < c.maxPositions) (hid : s.nextId.getD 1 + 1 ≤ u32Max)
    (eff : Effect env s e o (s.afterEnroll u env.timestamp) published) :
    WellFormed (s.afterEnroll u env.timestamp) where
  configured := h.configured
  one_le_nextId := by simp [Store.afterEnroll]
  nextId_le := hid
  dense id := by
    simp only [Store.afterEnroll, Option.getD_some]
    by_cases hi : id = s.nextId.getD 1
    · have := h.one_le_nextId
      subst hi
      simp [this]
    · rw [Finmap.lookup_insert_of_ne _ hi, h.dense]
      omega
  ownId := h.ownId_effect eff
  advancedAt := h.advancedAt_effect eff
  cursor_le := by
    have := h.cursor_le
    simp only [Store.afterEnroll, Option.getD_some]
    omega
  passed id hle := by
    have := h.cursor_le
    have := h.one_le_nextId
    have hi : id ≠ s.nextId.getD 1 := by
      simp only [Store.afterEnroll] at hle
      omega
    rw [Store.afterEnroll, statusAt_insert_of_ne _ _ hi]
    exact h.passed id hle
  ahead id hlt := by
    rw [Store.afterEnroll]
    by_cases hi : id = s.nextId.getD 1
    · rw [hi, statusAt_insert_self]
      simp [newPosition]
    · rw [statusAt_insert_of_ne _ _ hi]
      exact h.ahead id hlt
  active_eq := by
    rw [h.occupied_enroll, ← h.active_eq]
    rfl
  capacity d hd := by
    obtain rfl := Option.some.inj (hc.symm.trans hd)
    exact room

/-- A cancellation keeps the invariant. -/
theorem cancel (h : WellFormed s) {id : ℕ} {p : Position} (hp : s.positions.lookup id = some p)
    (pending : p.status = .pending) (eff : Effect env s e o (s.afterCancel id p) published) :
    WellFormed (s.afterCancel id p) where
  configured := h.configured
  one_le_nextId := h.one_le_nextId
  nextId_le := h.nextId_le
  dense i := by
    simp only [Store.afterCancel]
    by_cases hi : i = id
    · subst hi
      simp [← h.dense, hp]
    · rw [Finmap.lookup_insert_of_ne _ hi, h.dense]
  ownId := h.ownId_effect eff
  advancedAt := h.advancedAt_effect eff
  cursor_le := h.cursor_le
  passed i hle := by
    rw [Store.afterCancel]
    by_cases hi : i = id
    · simp [hi]
    · rw [statusAt_insert_of_ne _ _ hi]
      exact h.passed i hle
  ahead i hlt := by
    rw [Store.afterCancel]
    by_cases hi : i = id
    · simp [hi]
    · rw [statusAt_insert_of_ne _ _ hi]
      exact h.ahead i hlt
  active_eq := by
    have := h.occupied_cancel hp pending
    have := h.active_eq
    simp only [Store.afterCancel, Option.getD_some] at *
    omega
  capacity c hc := by
    have := h.capacity c hc
    simp only [Store.afterCancel, Option.getD_some]
    omega

/-- An advance keeps the invariant. -/
theorem advance (h : WellFormed s) {c : QueueConfig} (hc : s.config = some c) {batchSize : ℕ}
    (eff : Effect env s e o (s.afterAdvance c batchSize env.timestamp) published) :
    WellFormed (s.afterAdvance c batchSize env.timestamp) where
  configured := ⟨_, rfl⟩
  one_le_nextId := h.one_le_nextId
  nextId_le := h.nextId_le
  dense id := by
    simp only [Store.afterAdvance, lookup_serveAll, ← h.dense]
    split <;> simp
  ownId := h.ownId_effect eff
  advancedAt := h.advancedAt_effect eff
  cursor_le := by
    have := h.cursor_le
    have hlen := h.scanLength_eq batchSize (s.idx.getD 0)
    simp only [Store.afterAdvance, Option.getD_some, Store.totalCreated] at hlen ⊢
    omega
  passed id hle := by
    simp only [Store.afterAdvance, Option.getD_some] at hle
    rw [Store.afterAdvance, statusAt_serveAll]
    split
    · simp
    · case _ hid =>
      -- a pending position up to the new cursor would have been in the batch
      intro hpend
      have hlt := h.lt_of_pending hpend
      refine hid ⟨?_, hpend⟩
      rw [Store.scannedBy, scanned, List.mem_range'_1]
      omega
  ahead id hlt := by
    simp only [Store.afterAdvance, Option.getD_some] at hlt
    rw [Store.afterAdvance, statusAt_serveAll, if_neg]
    · exact h.ahead id (by omega)
    · rintro ⟨hid, -⟩
      rw [Store.scannedBy, scanned, List.mem_range'_1] at hid
      omega
  active_eq := by
    have hocc : (s.afterAdvance c batchSize env.timestamp).occupied = s.occupied := by
      refine occupied_congr rfl fun id => ?_
      rw [Store.afterAdvance, statusAt_serveAll]
      split <;> simp_all
    exact h.active_eq.trans hocc.symm
  capacity d hd := by
    have hmax : d.maxPositions = c.maxPositions := by
      rw [← Option.some.inj hd, QueueConfig.activate]
      split <;> rfl
    rw [hmax]
    exact h.capacity c hc

/-- An expiry keeps the invariant. -/
theorem expire (h : WellFormed s) {ids : List ℕ}
    (pending : ∀ i ∈ ids, statusAt s.positions i = some .pending)
    (eff : Effect env s e o (s.afterExpire ids) published) : WellFormed (s.afterExpire ids) where
  configured := h.configured
  one_le_nextId := h.one_le_nextId
  nextId_le := h.nextId_le
  dense id := by
    simp only [Store.afterExpire, lookup_expireAll, ← h.dense]
    split <;> simp
  ownId := h.ownId_effect eff
  advancedAt := h.advancedAt_effect eff
  cursor_le := h.cursor_le
  passed id hle := by
    have := h.passed id hle
    rw [Store.afterExpire, statusAt_expireAll]
    split <;> simp_all
  ahead id hlt := by
    have := h.ahead id hlt
    rw [Store.afterExpire, statusAt_expireAll]
    split <;> simp_all
  active_eq := by
    have hocc : (s.afterExpire ids).occupied = s.occupied := by
      refine occupied_congr rfl fun id => ?_
      have := pending id
      rw [Store.afterExpire, statusAt_expireAll]
      split <;> simp_all
    exact h.active_eq.trans hocc.symm
  capacity := h.capacity

/-- Every entrypoint keeps the invariant. -/
theorem effect (h : WellFormed s) (eff : Effect env s e o s' published) : WellFormed s' := by
  -- `id` keeps `eff` itself for the lemmas about one entrypoint
  cases id eff with
  | read | upgrade => exact h
  | propose | migrate => exact { h with }
  | @accept p c config =>
    refine { h with configured := ⟨_, rfl⟩, capacity := ?_ }
    rintro _ ⟨⟩
    exact h.capacity c config
  | @lifecycle _ _ c _ _ call =>
    refine { h with configured := ⟨_, rfl⟩, capacity := ?_ }
    rintro _ ⟨⟩
    exact h.capacity c call.config
  | enroll config _ _ room next => exact h.enroll config room next eff
  | cancel position _ pending => exact h.cancel position pending eff
  | advance call => exact h.advance call.config eff
  | expire _ _ _ _ pending => exact h.expire pending eff

end WellFormed

/-! ## Every reachable state -/

/-- The deployment whose administrator signs the call. -/
def deploy (env : Env) (config : QueueConfig) (auth : config.admin ∈ env.authorizers) :
    Deployment where
  env := env
  admin := config.admin
  config := config
  start := ⟨⟨some config, some 1, some 0, some 0, some currentVersion, none, ∅⟩,
    [event "Initialized" 0 config.admin 0]⟩
  ok := initializeQueue_eq_ok.mpr ⟨auth, rfl, rfl⟩

/-- What `initialize` leaves on a fresh contract. -/
theorem Deployment.start_eq (d : Deployment) :
    d.start = ⟨⟨some d.config, some 1, some 0, some 0, some currentVersion, none, ∅⟩,
      [event "Initialized" 0 d.admin 0]⟩ :=
  (Prod.mk.inj (initializeQueue_eq_ok.mp d.ok).2.2).2

/-- The first `initialize` establishes the invariant. -/
theorem Deployment.wellFormed (d : Deployment) : WellFormed d.start.store := by
  rw [d.start_eq]
  exact {
    configured := ⟨_, rfl⟩
    one_le_nextId := le_refl 1
    nextId_le := show 1 ≤ u32Max by decide
    dense := fun id => by simp; omega
    ownId := fun id p h => by simp at h
    advancedAt := fun id p h => by simp at h
    cursor_le := le_refl 0
    passed := fun id _ => by simp [statusAt]
    ahead := fun id _ => by simp [statusAt]
    active_eq := by simp [Store.occupied, Store.occupiedIds, Store.totalEnrolled]
    capacity := fun c _ => Nat.zero_le _ }

/-- A commit from a well-formed state has one of the effects. -/
theorem WellFormed.commit (c : queue.Commit) (h : WellFormed c.pre.store) :
    ∃ published, c.post.events = c.pre.events ++ published ∧
      Effect c.call.env c.pre.store c.call.entry c.out c.post.store published :=
  effect_of_exec h.totalCreated_le c.ok

/-- A commit keeps the invariant. -/
theorem WellFormed.commit_post (c : queue.Commit) (h : WellFormed c.pre.store) :
    WellFormed c.post.store := by
  obtain ⟨_, -, eff⟩ := h.commit c
  exact h.effect eff

/-- A run keeps the invariant. -/
theorem wellFormed_run {l : Ledger Store} (h : WellFormed l.store)
    (calls : List (Invocation Entrypoint)) : WellFormed (queue.run l calls).store :=
  Transactional.run_invariant (I := fun l => WellFormed l.store) (fun c => WellFormed.commit_post c)
    h calls

/-- Every state reachable from a deployment is well formed. -/
theorem Deployment.wellFormed_run (d : Deployment) (calls : List (Invocation Entrypoint)) :
    WellFormed (queue.run d.start calls).store :=
  Queue.wellFormed_run d.wellFormed calls

/-- Every commit of a deployed queue finds a well-formed state. -/
theorem Deployment.wellFormed_pre (d : Deployment) {calls : List (Invocation Entrypoint)}
    {c : queue.Commit} (hc : c ∈ queue.history d.start calls) : WellFormed c.pre.store := by
  obtain ⟨before, _, -, hpre⟩ := Transactional.mem_history hc
  rw [← hpre]
  exact d.wellFormed_run before

end LineProof.Queue
