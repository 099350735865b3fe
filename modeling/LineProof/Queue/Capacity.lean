import LineProof.Queue.Invariant

/-!
# Capacity accounting

The id counter, the active count and the table of positions agree in every reachable state, so the
guards of `enroll_position` can be read as conditions on the table.
-/

namespace LineProof.Queue

open Soroban

/-- What the counters of a queue say about its positions, and when an enrollment goes through. -/
structure CapacityAccounting (l : Ledger Store) : Prop where
  /-- The ids with a position are `1..next_id - 1`. -/
  stored_iff : ∀ id, (∃ p, l.store.positions.lookup id = some p) ↔
    1 ≤ id ∧ id ≤ l.store.nextId.getD 1 - 1
  ownId : ∀ id p, l.store.positions.lookup id = some p → p.positionId = id
  /-- `active_enrolled` counts the ids that are not cancelled. -/
  active_eq : l.store.activeEnrolled = ((Finset.Icc 1 l.store.totalEnrolled).filter fun id =>
    statusAt l.store.positions id ≠ some .cancelled).card
  active_le : ∀ c, l.store.config = some c → l.store.activeEnrolled ≤ c.maxPositions
  /-- The `saturating_sub` of a cancellation is a plain subtraction. -/
  cancel_exact : ∀ env u id l', cancelPosition u id env l = .ok ((), l') →
    l'.store.activeEnrolled + 1 = l.store.activeEnrolled
  enroll_iff : ∀ env u, u ∈ env.authorizers → (Succeeds (enrollPosition u) env l ↔
    ∃ c, l.store.config = some c ∧ c.status = .enrollmentOpen ∧
      ((Finset.Icc 1 l.store.totalEnrolled).filter fun id =>
        statusAt l.store.positions id ≠ some .cancelled).card < c.maxPositions ∧
      l.store.nextId.getD 1 < 2 ^ 32 - 1)
  enroll_id : ∀ env u id l', enrollPosition u env l = .ok (id, l') →
    id = l.store.totalEnrolled + 1 ∧ l.store.positions.lookup id = none
  /-- The new position is pending under its id, both counters grow by one, and nothing else changes. -/
  enrolled : ∀ env u id l', enrollPosition u env l = .ok (id, l') →
    l'.store = { l.store with
      positions := l.store.positions.insert id (newPosition id env.timestamp u)
      nextId := some (id + 1)
      activeCount := some (l.store.activeEnrolled + 1) }

namespace WellFormed

variable {l l' : Ledger Store} {env : Env} {u : Address}

/-- Only a pending position is cancelled, and it has been counted. -/
theorem cancel_exact (h : WellFormed l.store) {id : ℕ}
    (hok : cancelPosition u id env l = .ok ((), l')) :
    l'.store.activeEnrolled + 1 = l.store.activeEnrolled := by
  obtain ⟨p, hp, -, -, pending, ⟨⟩⟩ := cancelPosition_eq_ok.mp hok
  have hocc := h.occupied_cancel hp pending
  have hactive := h.active_eq
  simp only [Store.activeEnrolled, Option.getD_some]
  omega

/-- The guards of `enroll_position`. The increment of the active count cannot overflow, because the
count stays below the next id. -/
theorem enroll_iff (h : WellFormed l.store) (auth : u ∈ env.authorizers) :
    Succeeds (enrollPosition u) env l ↔
      ∃ c, l.store.config = some c ∧ c.status = .enrollmentOpen ∧
        l.store.occupied < c.maxPositions ∧ l.store.nextId.getD 1 < 2 ^ 32 - 1 := by
  have hactive := h.active_eq
  have hle := h.active_le_nextId
  have hone := h.one_le_nextId
  constructor
  · intro hsucceeds
    rcases hsucceeds with ⟨r, hr⟩
    obtain ⟨c, hc, -, hst, hroom, hid, -, -⟩ := enrollPosition_eq_ok.mp hr
    exact ⟨c, hc, hst, hactive ▸ hroom, hid⟩
  · intro hchecks
    rcases hchecks with ⟨c, hc, hst, hroom, hid⟩
    have hid' : l.store.nextId.getD 1 + 1 ≤ u32Max := hid
    exact ⟨_, enrollPosition_eq_ok.mpr
      ⟨c, hc, auth, hst, hactive ▸ hroom, hid', by omega, rfl⟩⟩

/-- The id of an enrollment is the next one, which is free. -/
theorem enroll_id (h : WellFormed l.store) {id : ℕ}
    (hok : enrollPosition u env l = .ok (id, l')) :
    id = l.store.totalEnrolled + 1 ∧ l.store.positions.lookup id = none := by
  obtain ⟨c, -, -, -, -, -, -, heq⟩ := enrollPosition_eq_ok.mp hok
  obtain ⟨rfl, -⟩ := Prod.mk.inj heq
  have hone := h.one_le_nextId
  refine ⟨?_, h.lookup_nextId⟩
  rw [totalEnrolled_eq]
  omega

end WellFormed

/-- What an enrollment stores. -/
theorem store_of_enrollPosition {l l' : Ledger Store} {env : Env} {u : Address} {id : ℕ}
    (hok : enrollPosition u env l = .ok (id, l')) :
    l'.store = { l.store with
      positions := l.store.positions.insert id (newPosition id env.timestamp u)
      nextId := some (id + 1)
      activeCount := some (l.store.activeEnrolled + 1) } := by
  obtain ⟨c, -, -, -, -, -, -, heq⟩ := enrollPosition_eq_ok.mp hok
  obtain ⟨rfl, rfl⟩ := Prod.mk.inj heq
  rfl

/-- Capacity accounting holds in every reachable state of a queue. -/
theorem capacity_accounting (d : Deployment) (calls : List (Invocation Entrypoint)) :
    CapacityAccounting (queue.run d.start calls) := by
  have h := d.wellFormed_run calls
  constructor
  · intro id
    have hone := h.one_le_nextId
    rw [h.dense]
    omega
  · exact h.ownId
  · exact h.active_eq
  · exact h.capacity
  · exact fun _ _ _ _ hok => h.cancel_exact hok
  · exact fun _ _ auth => h.enroll_iff auth
  · exact fun _ _ _ _ hok => h.enroll_id hok
  · exact fun _ _ _ _ hok => store_of_enrollPosition hok

end LineProof.Queue
