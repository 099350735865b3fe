import LineProof.Queue.Lifecycle

/-!
# Replaying a queue from its events

`View` is what an observer wants to know of a queue, and `applyEvent` is how an observer who sees only
the events follows it. Every call moves the view exactly as its events say (`view_effect`), those of a
batch in any of its sizes, and a call that publishes nothing does not move it. The view after a run is
therefore the replay of the events of the run (`view_run`).
-/

namespace LineProof.Queue

open Soroban

/-- The part of the storage that the events account for. -/
structure View where
  /-- the position table -/
  positions : Positions
  /-- `total_enrolled` -/
  total : ℕ
  /-- `active_enrolled` -/
  active : ℕ
  /-- `get_config().status` -/
  status : Option QueueStatus
  /-- `get_config().admin` -/
  admin : Option Address
  /-- the stored version -/
  version : Option ℕ
deriving DecidableEq

/-- What an observer of the events can know of the storage. -/
def Store.view (s : Store) : View where
  positions := s.positions
  total := s.totalEnrolled
  active := s.activeEnrolled
  status := s.status
  admin := s.config.map (·.admin)
  version := s.version

/-- The view of a queue that has just been initialized. -/
def View.initial (config : QueueConfig) : View where
  positions := ∅
  total := 0
  active := 0
  status := some config.status
  admin := some config.admin
  version := some currentVersion

/-- The positions with `f` applied to the one under `id`. -/
def update (f : Position → Position) (m : Positions) (id : ℕ) : Positions :=
  match m.lookup id with
  | some p => m.insert id (f p)
  | none => m

/-- The status after somebody has been advanced. -/
def activated (status : Option QueueStatus) : Option QueueStatus :=
  if status = some .enrollmentClosed then some .advancementActive else status

/-- What an observer learns from an event of `emit`. -/
def applyEmitted (v : View) (kind : String) (id : ℕ) (who : Address) (time : ℕ) : View :=
  match kind with
  | "EnrollmentOpened" => { v with status := some .enrollmentOpen }
  | "EnrollmentClosed" => { v with status := some .enrollmentClosed }
  | "QueueClosed" => { v with status := some .closed }
  -- the new version stands where the other events have their time
  | "Migrated" => { v with version := some time }
  | "Enrolled" =>
    { v with
      positions := v.positions.insert id (newPosition id time who)
      total := id
      active := v.active + 1 }
  | "Cancelled" =>
    { v with
      positions := update (fun p => { p with status := .cancelled }) v.positions id
      active := v.active - 1 }
  -- the first one to be advanced activates the queue, without an event of its own
  | "Advanced" =>
    { v with
      positions := update (Position.serve time) v.positions id
      status := activated v.status }
  | "Expired" => { v with positions := update Position.expire v.positions id }
  -- `Initialized`, `Upgraded` and `Skipped` change nothing
  | _ => v

/-- What an observer learns from an event. -/
def applyEvent (v : View) : Event → View
  | ⟨[.symbol _, .symbol kind, .u32 id], .tuple [.address who, .u64 time]⟩ =>
    applyEmitted v kind.str id who time
  | ⟨[.string _, .symbol _, .address _, .address p], .void⟩ => { v with admin := some p }
  | _ => v

/-- The view an observer has after the events. -/
def replay (v : View) (events : List Event) : View := events.foldl applyEvent v

variable {s s' : Store} {env : Env} {e : Entrypoint} {o : Output} {published : List Event}
  {admin : Address}

/-- Events can be replayed in two parts. -/
theorem replay_append (v : View) (xs ys : List Event) :
    replay v (xs ++ ys) = replay (replay v xs) ys := List.foldl_append

/-! ## Batches -/

/-- Skipped ids change nothing. -/
theorem replay_skipped (v : View) (ids : List ℕ) (now : ℕ) :
    replay v (ids.map (event "Skipped" · admin now)) = v := by
  induction ids with
  | nil => rfl
  | cons id ids ih => exact ih

/-- The events of a batch expiry expire its ids. -/
theorem replay_expired (v : View) (ids : List ℕ) (now : ℕ) :
    replay v (ids.map (event "Expired" · admin now)) =
      { v with positions := expireAll v.positions ids } := by
  induction ids generalizing v with
  | nil => rfl
  | cons id ids ih => exact ih (applyEmitted v "Expired" id admin now)

/-- Of a batch, the first advanced position activates the queue and the others find it active. -/
theorem replay_advanced (v : View) (ids : List ℕ) (now : ℕ) :
    replay v (ids.map (event "Advanced" · admin now)) =
      { v with
        positions := serveAll now v.positions ids
        status := if ids = [] then v.status else activated v.status } := by
  induction ids generalizing v with
  | nil => rfl
  | cons id ids ih =>
    have hactive : (if ids = [] then activated v.status else activated (activated v.status)) =
        activated v.status := by
      unfold activated
      split_ifs <;> simp_all
    refine (ih (applyEmitted v "Advanced" id admin now)).trans ?_
    rw [if_neg (List.cons_ne_nil id ids), ← hactive]
    rfl

/-- The scan serves those it finds pending and leaves the others as they are. -/
theorem serveAll_pending (now : ℕ) (m : Positions) (ids : List ℕ) :
    serveAll now m (withStatus .pending m ids) = serveAll now m ids := by
  apply Finmap.ext_lookup
  intro i
  rw [lookup_serveAll, lookup_serveAll]
  have hmem : i ∈ withStatus .pending m ids ↔ i ∈ ids ∧ statusAt m i = some .pending := by
    simp [withStatus]
  by_cases hi : i ∈ ids
  · by_cases hpend : statusAt m i = some .pending
    · rw [if_pos (hmem.mpr ⟨hi, hpend⟩), if_pos hi]
    · rw [if_neg fun h => hpend (hmem.mp h).2, if_pos hi]
      cases hp : m.lookup i with
      | none => rfl
      | some p =>
        have hne : p.status ≠ .pending := fun h => hpend (statusAt_eq_some.mpr ⟨p, hp, h⟩)
        rw [Option.map_some, Position.serve, if_neg hne]
  · rw [if_neg fun h => hi (hmem.mp h).1, if_neg hi]

/-! ## One call -/

/-- The event of an enrollment tells all it changes. -/
theorem view_afterEnroll (u : Address) (now : ℕ) :
    (s.afterEnroll u now).view = applyEmitted s.view "Enrolled" (s.nextId.getD 1) u now := by
  have htotal : (s.afterEnroll u now).totalEnrolled = s.nextId.getD 1 := by
    rw [totalEnrolled_eq]
    rfl
  show View.mk _ (s.afterEnroll u now).totalEnrolled _ _ _ _ = _
  rw [htotal]
  rfl

/-- The event of a cancellation tells all it changes. -/
theorem view_afterCancel {id : ℕ} {p : Position} (position : s.positions.lookup id = some p)
    (u : Address) (now : ℕ) :
    (s.afterCancel id p).view = applyEmitted s.view "Cancelled" id u now := by
  have hupdate : update (fun p => { p with status := .cancelled }) s.positions id =
      s.positions.insert id { p with status := .cancelled } := by
    rw [update, position]
  show _ = View.mk (update _ s.positions id) _ _ _ _ _
  rw [hupdate]
  rfl

/-- An advance changes what its events tell: who was served, and the cursor. -/
theorem view_afterAdvance {c : QueueConfig} (config : s.config = some c) (batchSize now : ℕ) :
    (s.afterAdvance c batchSize now).view =
      { s.view with
        positions := serveAll now s.positions (s.servedBy batchSize)
        status := if s.servedBy batchSize = [] then s.status else activated s.status } := by
  have hconfig : (s.afterAdvance c batchSize now).view =
      { s.view with
        positions := serveAll now s.positions (s.scannedBy batchSize)
        status := some (c.activate (s.servedBy batchSize)).status
        admin := some (c.activate (s.servedBy batchSize)).admin } := rfl
  have hadmin : (c.activate (s.servedBy batchSize)).admin = c.admin := by
    unfold QueueConfig.activate
    split <;> rfl
  have hstatus : some (c.activate (s.servedBy batchSize)).status =
      if s.servedBy batchSize = [] then s.status else activated s.status := by
    rw [Store.status, config, Option.map_some]
    unfold QueueConfig.activate activated
    split_ifs <;> simp_all
  rw [hconfig, hstatus, hadmin, Store.servedBy, serveAll_pending]
  simp only [Store.view, config, Option.map_some]

/-- A call moves the view as its events say. -/
theorem view_effect (eff : Effect env s e o s' published) : s'.view = replay s.view published := by
  cases eff with
  | read | upgrade | propose | migrate => rfl
  | @accept p c config =>
    have hstatus : s.status = some c.status := by
      rw [Store.status, config]
      rfl
    show View.mk s.positions s.totalEnrolled s.activeEnrolled (some c.status) (some p) s.version = _
    rw [← hstatus]
    rfl
  | @lifecycle e admin c status edge call =>
    have hadmin : s.config.map (·.admin) = some c.admin := by
      rw [call.config]
      rfl
    show View.mk s.positions s.totalEnrolled s.activeEnrolled (some status) (some c.admin) s.version = _
    rw [← hadmin]
    generalize c.status = previous at edge
    cases edge <;> rfl
  | enroll => exact view_afterEnroll _ _
  | @cancel id p position => exact view_afterCancel position p.identity env.timestamp
  | advance call =>
    rw [replay_append, replay_skipped, replay_advanced]
    exact view_afterAdvance call.config _ _
  | expire => exact (replay_expired s.view _ _).symm

/-! ## Every run -/

/-- What an observer of the events knows is what the queue stores. -/
theorem view_run (d : Deployment) (calls : List (Invocation Entrypoint)) :
    (queue.run d.start calls).store.view =
      replay (.initial d.config) (queue.run d.start calls).events := by
  have hrun := Transactional.run_invariant (M := queue)
    (I := fun l => WellFormed l.store ∧ l.store.view = replay (.initial d.config) l.events)
    ?_ ⟨d.wellFormed, by rw [d.start_eq]; rfl⟩ calls
  · exact hrun.2
  · intro c hc
    obtain ⟨published, hevents, eff⟩ := hc.1.commit c
    refine ⟨hc.1.effect eff, ?_⟩
    rw [view_effect eff, hc.2, hevents, replay_append]

/-- Two queues initialized alike that have published the same events agree on everything an observer
wants to know. -/
theorem view_of_events (d₁ d₂ : Deployment) (calls₁ calls₂ : List (Invocation Entrypoint))
    (hconfig : d₁.config = d₂.config)
    (hevents : (queue.run d₁.start calls₁).events = (queue.run d₂.start calls₂).events) :
    (queue.run d₁.start calls₁).store.view = (queue.run d₂.start calls₂).store.view := by
  rw [view_run, view_run, hconfig, hevents]

/-- A queue that opens with its initialization. -/
def clinicDay : Deployment where
  env := ⟨0, [⟨"GADMIN"⟩], ⟨"CQUEUE"⟩⟩
  admin := ⟨"GADMIN"⟩
  config :=
    { slug := ⟨"clinic"⟩, name := ⟨"clinic"⟩, admin := ⟨"GADMIN"⟩, maxPositions := 2,
      enrollmentOpen := 0, enrollmentClose := 9, status := .enrollmentOpen, version := 1,
      advancementRule := .fifo }
  start := _
  ok := rfl

/-- Two enrollments, and the end of enrollment. -/
def clinicMorning : List (Invocation Entrypoint) :=
  [⟨⟨1, [⟨"GALICE"⟩], ⟨"CQUEUE"⟩⟩, .enrollPosition ⟨"GALICE"⟩⟩,
    ⟨⟨2, [⟨"GBOB"⟩], ⟨"CQUEUE"⟩⟩, .enrollPosition ⟨"GBOB"⟩⟩,
    ⟨⟨3, [⟨"GADMIN"⟩], ⟨"CQUEUE"⟩⟩, .closeEnrollment ⟨"GADMIN"⟩⟩]

/-- A batch of two cannot be told from two batches of one, with a proposal in between that publishes
nothing. -/
theorem view_of_events_clinicDay :
    (queue.run clinicDay.start (clinicMorning ++
      [⟨⟨4, [⟨"GADMIN"⟩], ⟨"CQUEUE"⟩⟩, .advance ⟨"GADMIN"⟩ 2⟩])).store.view =
    (queue.run clinicDay.start (clinicMorning ++
      [⟨⟨4, [⟨"GADMIN"⟩], ⟨"CQUEUE"⟩⟩, .advance ⟨"GADMIN"⟩ 1⟩,
        ⟨⟨4, [⟨"GADMIN"⟩], ⟨"CQUEUE"⟩⟩, .proposeAdmin ⟨"GADMIN"⟩ ⟨"GBOB"⟩⟩,
        ⟨⟨4, [⟨"GADMIN"⟩], ⟨"CQUEUE"⟩⟩, .advance ⟨"GADMIN"⟩ 1⟩])).store.view :=
  view_of_events clinicDay clinicDay _ _ rfl (by decide +kernel)

end LineProof.Queue
