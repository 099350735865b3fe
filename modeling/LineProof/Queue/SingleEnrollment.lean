import LineProof.Queue.Invariant

/-!
# Pending positions of one identity

`enroll_position` never looks at the positions its caller already has. So an identity gets a second
pending position whenever it enrolls again, and this is the only way to break `OnePending`: a run
keeps it exactly when none of its accepted enrollments is by a holder of a pending position.
-/

namespace LineProof.Queue

open Soroban

/-- No two different pending positions have the same identity. -/
def OnePending (s : Store) : Prop :=
  ∀ i j p q, s.positions.lookup i = some p → s.positions.lookup j = some q →
    p.status = .pending → q.status = .pending → p.identity = q.identity → i = j

/-- `u` holds a pending position. -/
def HoldsPending (s : Store) (u : Address) : Prop :=
  ∃ id p, s.positions.lookup id = some p ∧ p.status = .pending ∧ p.identity = u

/-- The conditions under which `enroll_position` accepts `u`. -/
structure EnrollChecks (s : Store) (env : Env) (u : Address) : Prop where
  auth : u ∈ env.authorizers
  room : ∃ c, s.config = some c ∧ c.status = .enrollmentOpen ∧ s.activeEnrolled < c.maxPositions
  nextId_lt : s.nextId.getD 1 < u32Max

/-- The call is no accepted enrollment by a holder of a pending position. -/
def NoSecondEnrollment (l : Ledger Store) (i : Invocation Entrypoint) : Prop :=
  ∀ u, i.entry = .enrollPosition u → EnrollChecks l.store i.env u → ¬ HoldsPending l.store u

variable {s s' : Store} {env : Env} {e : Entrypoint} {o : Output} {published : List Event}
  {l : Ledger Store} {u : Address}

/-- An accepted enrollment goes through: the active count is below the next id. -/
theorem WellFormed.enroll_succeeds (h : WellFormed l.store) (checks : EnrollChecks l.store env u) :
    Succeeds (enrollPosition u) env l := by
  obtain ⟨c, hc, hst, hroom⟩ := checks.room
  have hid := checks.nextId_lt
  have hone := h.one_le_nextId
  have hactive : l.store.activeCount.getD 0 + 1 ≤ u32Max := by
    have hle := h.active_le_nextId
    omega
  exact ⟨_, enrollPosition_eq_ok.mpr ⟨c, hc, checks.auth, hst, hroom, hid, hactive, rfl⟩⟩

/-- An enrollment keeps `OnePending` exactly when its caller held no pending position. -/
theorem WellFormed.onePending_enroll (h : WellFormed s) (hone : OnePending s) (now : ℕ) :
    OnePending (s.afterEnroll u now) ↔ ¬ HoldsPending s u := by
  have hnew : (s.afterEnroll u now).positions.lookup (s.nextId.getD 1) =
      some (newPosition (s.nextId.getD 1) now u) := Finmap.lookup_insert _
  have hold : ∀ id, id ≠ s.nextId.getD 1 →
      (s.afterEnroll u now).positions.lookup id = s.positions.lookup id :=
    fun id hid => Finmap.lookup_insert_of_ne _ hid
  constructor
  · rintro hafter ⟨id, p, hp, hst, hu⟩
    have hne : id ≠ s.nextId.getD 1 := by
      rintro rfl
      rw [h.lookup_nextId] at hp
      contradiction
    exact hne (hafter id _ p _ ((hold id hne).trans hp) hnew hst rfl hu)
  · intro hfree i j p q hp hq hpst hqst hpq
    -- the new position clashes with nobody, and the old ones did not clash before
    by_cases hi : i = s.nextId.getD 1 <;> by_cases hj : j = s.nextId.getD 1
    · rw [hi, hj]
    · rw [hi, hnew, Option.some.injEq] at hp
      rw [hold j hj] at hq
      exact absurd ⟨j, q, hq, hqst, by rw [← hpq, ← hp]; rfl⟩ hfree
    · rw [hj, hnew, Option.some.injEq] at hq
      rw [hold i hi] at hp
      exact absurd ⟨i, p, hp, hpst, by rw [hpq, ← hq]; rfl⟩ hfree
    · exact hone i j p q (hold i hi ▸ hp) (hold j hj ▸ hq) hpst hqst hpq

/-- What a successful enrollment has checked and done. -/
theorem Effect.of_enroll (eff : Effect env s (.enrollPosition u) o s' published) :
    EnrollChecks s env u ∧ s' = s.afterEnroll u env.timestamp := by
  cases eff with
  | read reader => exact reader.elim
  | lifecycle edge => cases edge
  | expire expiry => exact absurd expiry nofun
  | enroll config auth status room id => exact ⟨⟨auth, ⟨_, config, status, room⟩, id⟩, rfl⟩

/-- The other entrypoints create no pending position. -/
theorem Effect.pending_of_pending (eff : Effect env s e o s' published)
    (hentry : ∀ u, e ≠ .enrollPosition u) {id : ℕ} {p : Position}
    (hp : s'.positions.lookup id = some p) (hst : p.status = .pending) :
    s.positions.lookup id = some p := by
  have change := eff.positionChange id
  rw [hp] at change
  generalize s.positions.lookup id = old at change
  cases change with
  | keep => rfl
  | enrolled entry => exact absurd entry (hentry _)
  | cancelled | advanced | expired => exact absurd hst nofun

/-- One call keeps `OnePending` exactly when it is no second enrollment. -/
theorem onePending_next (l : Ledger Store) (i : Invocation Entrypoint) (h : WellFormed l.store)
    (hone : OnePending l.store) :
    OnePending (queue.next l i).store ↔ NoSecondEnrollment l i := by
  rcases queue.commit?_cases l i with ⟨c, rfl, rfl, hpost, -⟩ | ⟨⟨_, hfail⟩, hpost, -⟩
  · obtain ⟨_, -, eff⟩ := h.commit c
    rw [hpost]
    by_cases hentry : ∃ u, c.call.entry = .enrollPosition u
    · obtain ⟨u, hu⟩ := hentry
      rw [hu] at eff
      obtain ⟨checks, hafter⟩ := eff.of_enroll
      rw [hafter, h.onePending_enroll hone]
      constructor
      · intro hfree v hv _
        obtain rfl : u = v := Entrypoint.enrollPosition.inj (hu.symm.trans hv)
        exact hfree
      · exact fun hcond => hcond u hu checks
    · have hother : ∀ u, c.call.entry ≠ .enrollPosition u := fun u hu => hentry ⟨u, hu⟩
      refine iff_of_true ?_ fun u hu => absurd hu (hother u)
      intro i j p q hp hq hpst hqst
      exact hone i j p q (eff.pending_of_pending hother hp hpst)
        (eff.pending_of_pending hother hq hqst) hpst hqst
  · rw [hpost]
    refine iff_of_true hone fun u hu checks => ?_
    -- an accepted enrollment would have gone through
    have hexec : Succeeds (exec i.entry) i.env l := by
      rw [hu]
      exact (succeeds_bind_pure _).mpr (h.enroll_succeeds checks)
    exact absurd hfail (hexec.ne_error _)

/-- `OnePending` holds all along a run exactly when no accepted enrollment of the run is by a holder
of a pending position. -/
theorem onePending_iff (d : Deployment) (calls : List (Invocation Entrypoint)) :
    queue.Always (fun l => OnePending l.store) d.start calls ↔
      queue.Along NoSecondEnrollment d.start calls := by
  refine Transactional.always_iff_along (I := fun l => WellFormed l.store)
    WellFormed.commit_post onePending_next d.wellFormed ?_ calls
  intro i j p q hp
  simp [d.start_eq] at hp

/-- Two enrollments of one identity give it the positions 1 and 2, both pending. -/
theorem second_enrollment_accepted :
    ¬ ∀ (d : Deployment) (calls : List (Invocation Entrypoint)),
      OnePending (queue.run d.start calls).store := by
  intro h
  let admin : Address := ⟨"GADMIN"⟩
  let alice : Address := ⟨"GALICE"⟩
  let config : QueueConfig :=
    ⟨⟨"clinic"⟩, ⟨"clinic"⟩, admin, 10, 0, 100, .draft, 1, .fifo⟩
  let contract : Address := ⟨"CQUEUE"⟩
  have hone := h (deploy ⟨0, [admin], contract⟩ config (by decide))
    [⟨⟨1, [admin], contract⟩, .openEnrollment admin⟩,
      ⟨⟨2, [alice], contract⟩, .enrollPosition alice⟩,
      ⟨⟨3, [alice], contract⟩, .enrollPosition alice⟩]
  exact absurd (hone 1 2 _ _ rfl rfl rfl rfl rfl) (by decide)

end LineProof.Queue
