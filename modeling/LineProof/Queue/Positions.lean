import LineProof.Queue.Invariant

/-!
# Positions over a run

`Kept` relates a position to the same position later: who holds it and since when never changes, and
a position that is no longer pending does not change at all. Every call keeps it, so every run does.
The change itself carries its authority (`Settled`): the holder for a cancellation, the stored
administrator for the other two outcomes.
-/

namespace LineProof.Queue

open Soroban

/-- `q` is the position `p` at the same or a later time. -/
structure Kept (p q : Position) : Prop where
  positionId : q.positionId = p.positionId
  identity : q.identity = p.identity
  enrolledAt : q.enrolledAt = p.enrolledAt
  settled : p.status ≠ .pending → q = p

/-- The administrator stored in `s` authorized the call. -/
def AuthorizedByAdmin (s : Store) (env : Env) : Prop :=
  ∃ c, s.config = some c ∧ c.admin ∈ env.authorizers

/-- The way a call took position `p` under `id` out of the line, and who authorized it. -/
inductive Settled (env : Env) (s : Store) (p : Position) : PositionStatus → Prop
  | cancelled (byHolder : p.identity ∈ env.authorizers) : Settled env s p .cancelled
  | advanced (byAdmin : AuthorizedByAdmin s env) : Settled env s p .advanced
  | expired (byAdmin : AuthorizedByAdmin s env) : Settled env s p .expired

/-- The commit is an `advance` that takes position `id` from `Pending` to `Advanced`. -/
structure Advances (c : queue.Commit) (id : ℕ) : Prop where
  entry : ∃ admin batchSize, c.call.entry = .advance admin batchSize
  before : statusAt c.pre.store.positions id = some .pending
  after : statusAt c.post.store.positions id = some .advanced

/-- What holds of the positions over one run of a queue. -/
structure PositionsFixed (start : Ledger Store) (calls : List (Invocation Entrypoint)) : Prop where
  kept : ∀ before after, calls = before ++ after → ∀ id p,
    (queue.run start before).store.positions.lookup id = some p →
    ∃ q, (queue.run start calls).store.positions.lookup id = some q ∧ Kept p q
  settled : ∀ c ∈ queue.history start calls, ∀ id p q,
    c.pre.store.positions.lookup id = some p → c.post.store.positions.lookup id = some q →
    q.status ≠ p.status → p.status = .pending ∧ Settled c.call.env c.pre.store p q.status
  advancedAt_iff : ∀ id p, (queue.run start calls).store.positions.lookup id = some p →
    (p.advancedAt.isSome ↔ p.status = .advanced)
  /-- `advanced_at` is the time of the `advance` that served the position. -/
  advancedAt_eq : ∀ id p, (queue.run start calls).store.positions.lookup id = some p →
    p.status = .advanced →
    ∃ c ∈ queue.history start calls, Advances c id ∧ p.advancedAt = some c.call.env.timestamp

theorem Kept.refl (p : Position) : Kept p p := ⟨rfl, rfl, rfl, fun _ => rfl⟩

/-- What is kept twice is kept. -/
theorem Kept.trans {p q r : Position} (h₁ : Kept p q) (h₂ : Kept q r) : Kept p r := by
  refine ⟨h₂.positionId.trans h₁.positionId, h₂.identity.trans h₁.identity,
    h₂.enrolledAt.trans h₁.enrolledAt, fun hp => ?_⟩
  obtain rfl := h₁.settled hp
  exact h₂.settled hp

variable {s s' : Store} {env : Env} {e : Entrypoint} {o : Output} {published : List Event}
  {id : ℕ} {p q : Position}

/-! ## One call -/

/-- The stored administrator has authorized the call. -/
theorem AdminCall.authorizedByAdmin {admin : Address} {c : QueueConfig}
    (h : AdminCall s env admin c) : AuthorizedByAdmin s env :=
  ⟨c, h.config, h.isAdmin ▸ h.auth⟩

/-- A call keeps every stored position. The new position of an enrollment lies under an id that was
free. -/
theorem kept_effect (h : WellFormed s) (eff : Effect env s e o s' published)
    (hp : s.positions.lookup id = some p) :
    ∃ q, s'.positions.lookup id = some q ∧ Kept p q := by
  have change := eff.positionChange id
  rw [hp] at change
  generalize s'.positions.lookup id = new at change
  cases change with
  | keep => exact ⟨p, rfl, .refl p⟩
  | enrolled _ next => exact absurd (next ▸ hp) (by simp [h.lookup_nextId])
  | cancelled pending => exact ⟨_, rfl, rfl, rfl, rfl, fun hne => absurd pending hne⟩
  | advanced pending => exact ⟨_, rfl, rfl, rfl, rfl, fun hne => absurd pending hne⟩
  | expired pending => exact ⟨_, rfl, rfl, rfl, rfl, fun hne => absurd pending hne⟩

/-- A status changes only out of `Pending`, with the authority that the new status requires. -/
theorem settled_effect (h : WellFormed s) (eff : Effect env s e o s' published)
    (hp : s.positions.lookup id = some p) (hq : s'.positions.lookup id = some q)
    (hne : q.status ≠ p.status) : p.status = .pending ∧ Settled env s p q.status := by
  have change := eff.positionChange id
  rw [hp, hq] at change
  cases change with
  | keep => exact absurd rfl hne
  | enrolled _ next => exact absurd (next ▸ hp) (by simp [h.lookup_nextId])
  | cancelled pending _ auth => exact ⟨pending, .cancelled auth⟩
  | advanced pending _ call => exact ⟨pending, .advanced call.authorizedByAdmin⟩
  | expired pending _ call => exact ⟨pending, .expired call.authorizedByAdmin⟩

/-- An advanced position was so before the call, or the call is the `advance` that served it. -/
theorem advances_effect (c : queue.Commit)
    (eff : Effect c.call.env c.pre.store c.call.entry c.out c.post.store published)
    (hq : c.post.store.positions.lookup id = some q) (hst : q.status = .advanced) :
    c.pre.store.positions.lookup id = some q ∨
      Advances c id ∧ q.advancedAt = some c.call.env.timestamp := by
  have hpost : statusAt c.post.store.positions id = some .advanced := statusAt_eq_some.mpr ⟨q, hq, hst⟩
  have change := eff.positionChange id
  rw [hq] at change
  generalize hold : c.pre.store.positions.lookup id = old at change
  cases change with
  | keep => exact .inl rfl
  | enrolled => exact absurd hst nofun
  | cancelled => exact absurd hst nofun
  | expired => exact absurd hst nofun
  | @advanced p admin batchSize _ pending entry =>
    exact .inr ⟨⟨⟨admin, batchSize, entry⟩, statusAt_eq_some.mpr ⟨p, hold, pending⟩, hpost⟩, rfl⟩

/-! ## Every run -/

/-- A run keeps every position, up to its status and its time. -/
theorem kept_run {l : Ledger Store} (h : WellFormed l.store) (calls : List (Invocation Entrypoint))
    (hp : l.store.positions.lookup id = some p) :
    ∃ q, (queue.run l calls).store.positions.lookup id = some q ∧ Kept p q := by
  refine Transactional.run_keeps (M := queue) (I := fun l => WellFormed l.store)
    (fun l => l.store.positions.lookup id) Kept.refl Kept.trans WellFormed.commit_post ?_ h calls hp
  intro c h p hp
  obtain ⟨_, -, eff⟩ := h.commit c
  exact kept_effect h eff hp

/-- Every advanced position carries the time of the commit that served it. -/
structure ServiceTimes (past : List queue.Commit) (s : Store) : Prop where
  wellFormed : WellFormed s
  time : ∀ id p, s.positions.lookup id = some p → p.status = .advanced →
    ∃ c ∈ past, Advances c id ∧ p.advancedAt = some c.call.env.timestamp

/-- A commit writes its own time into what it serves, and no other time changes. -/
theorem ServiceTimes.commit (past : List queue.Commit) (c : queue.Commit)
    (h : ServiceTimes past c.pre.store) : ServiceTimes (past ++ [c]) c.post.store := by
  obtain ⟨_, -, eff⟩ := h.wellFormed.commit c
  refine ⟨h.wellFormed.effect eff, fun id q hq hst => ?_⟩
  rcases advances_effect c eff hq hst with hpre | hadv
  · obtain ⟨d, hd, hadv⟩ := h.time id q hpre hst
    exact ⟨d, List.mem_append_left _ hd, hadv⟩
  · exact ⟨c, List.mem_append_right _ (List.mem_singleton_self c), hadv⟩

/-- In every run `advanced_at` is the time of the commit that served the position. -/
theorem Deployment.serviceTimes (d : Deployment) (calls : List (Invocation Entrypoint)) :
    ServiceTimes (queue.history d.start calls) (queue.run d.start calls).store := by
  refine Transactional.history_invariant (P := fun past l => ServiceTimes past l.store)
    ServiceTimes.commit ⟨d.wellFormed, fun id p hp => ?_⟩ calls
  simp [d.start_eq] at hp

/-- Positions are not transferable, and their outcome is final. -/
theorem positions_fixed (d : Deployment) (calls : List (Invocation Entrypoint)) :
    PositionsFixed d.start calls := by
  constructor
  · rintro before after rfl id p hp
    rw [Transactional.run_append]
    exact kept_run (d.wellFormed_run before) after hp
  · intro c hc id p q hp hq hne
    have h := d.wellFormed_pre hc
    obtain ⟨_, -, eff⟩ := h.commit c
    exact settled_effect h eff hp hq hne
  · exact (d.wellFormed_run calls).advancedAt
  · exact (d.serviceTimes calls).time

end LineProof.Queue
