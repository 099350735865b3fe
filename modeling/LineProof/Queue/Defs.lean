import Mathlib.Data.Finmap
import LineProof.Soroban.Contract

/-!
# The queue contract

Reference: `contracts/lineproof-queue/src/lib.rs`.

Every persistent key of the contract is a field of `Store`, absent until the first write, and the
entries under `("pos", id)` are the finite map `positions`. Each function below follows its source line
by line, panics included.
-/

namespace LineProof.Queue

open Soroban

/-- `CURRENT_VERSION`. -/
def currentVersion : ℕ := 1

/-- Only the first rule is implemented by `advance`. -/
inductive AdvancementRule
  | fifo
  | priorityTier
  | verifiableRandomness
deriving DecidableEq

/-- The lifecycle of a queue, in its order. -/
inductive QueueStatus
  | draft
  | enrollmentOpen
  | enrollmentClosed
  | advancementActive
  | closed
deriving DecidableEq

/-- What the administrator sets up, and the status. -/
structure QueueConfig where
  slug : Symbol
  name : Symbol
  admin : Address
  maxPositions : ℕ
  enrollmentOpen : ℕ
  enrollmentClose : ℕ
  status : QueueStatus
  version : ℕ
  advancementRule : AdvancementRule
deriving DecidableEq

/-- A position is pending until one of the other three, which are final. -/
inductive PositionStatus
  | pending
  | advanced
  | expired
  | cancelled
deriving DecidableEq

/-- What is stored under the id of a position. -/
structure Position where
  positionId : ℕ
  enrolledAt : ℕ
  identity : Address
  status : PositionStatus
  advancedAt : Option ℕ
  priorityWeight : Option ℕ
deriving DecidableEq

/-- The entries under `("pos", id)`. -/
abbrev Positions := Finmap fun _ : ℕ => Position

/-- The status of position `id`, if it exists. -/
def statusAt (m : Positions) (id : ℕ) : Option PositionStatus := (m.lookup id).map (·.status)

@[simp] theorem statusAt_insert_self (m : Positions) (id : ℕ) (p : Position) :
    statusAt (m.insert id p) id = some p.status := by
  simp [statusAt]

/-- A write leaves the status of every other position. -/
theorem statusAt_insert_of_ne (m : Positions) {id i : ℕ} (p : Position) (h : i ≠ id) :
    statusAt (m.insert id p) i = statusAt m i := by
  rw [statusAt, Finmap.lookup_insert_of_ne m h, statusAt]

/-- The status under an id is that of the stored position. -/
theorem statusAt_eq_some {m : Positions} {id : ℕ} {st : PositionStatus} :
    statusAt m id = some st ↔ ∃ p, m.lookup id = some p ∧ p.status = st := by
  rw [statusAt, Option.map_eq_some_iff]

/-- The persistent storage: one field for each key. -/
structure Store where
  /-- `"config"` -/
  config : Option QueueConfig
  /-- `"next_id"` -/
  nextId : Option ℕ
  /-- `"active_count"` -/
  activeCount : Option ℕ
  /-- `"idx"` -/
  idx : Option ℕ
  /-- `"version"` -/
  version : Option ℕ
  /-- `"pending_admin"` -/
  pendingAdmin : Option Address
  /-- `("pos", id)` -/
  positions : Positions

/-- The ledger of a contract that has just been deployed. -/
def fresh : Ledger Store where
  store := ⟨none, none, none, none, none, none, ∅⟩
  events := []

/-! ## Internal functions -/

/-- The topics and the data `emit` publishes. -/
def event (kind : String) (positionId : ℕ) (identity : Address) (timestamp : ℕ) : Event where
  topics := [.symbol ⟨"lineproof_queue"⟩, .symbol ⟨kind⟩, .u32 positionId]
  data := .tuple [.address identity, .u64 timestamp]

/-- Publish an event of a position, or of the queue with the id 0. -/
def emit (kind : String) (positionId : ℕ) (identity : Address) (timestamp : ℕ) :
    Contract Store Unit :=
  publish (event kind positionId identity timestamp).topics
    (event kind positionId identity timestamp).data

/-- The stored administrator has authorized the call. -/
def requireAdmin (config : QueueConfig) (admin : Address) : Contract Store Unit := do
  require (config.admin = admin) "not_admin"
  requireAuth admin

/-- Read `"config"`, which `initialize` writes. -/
def getConfigInternal : Contract Store QueueConfig := do
  expect (← load (·.config)) "queue not initialized"

/-- Read the position under an id. -/
def loadPosition (id : ℕ) : Contract Store Position := do
  expect (← load (·.positions.lookup id)) "position not found"

/-- Write a position under its key `("pos", id)`. -/
def savePosition (id : ℕ) (pos : Position) : Contract Store Unit :=
  save fun s => { s with positions := s.positions.insert id pos }

/-- Write the configuration under `"config"`. -/
def saveConfig (config : QueueConfig) : Contract Store Unit :=
  save fun s => { s with config := some config }

/-! ## Administration -/

/-- `initialize`, whose name is a keyword here. -/
def initializeQueue (admin : Address) (config : QueueConfig) : Contract Store Unit := do
  requireAuth admin
  require (config.admin = admin) "not_admin"
  saveConfig config
  save fun s => { s with nextId := some 1 }
  save fun s => { s with activeCount := some 0 }
  save fun s => { s with idx := some 0 }
  save fun s => { s with version := some currentVersion }
  emit "Initialized" 0 admin 0

/-- The administrator names a successor. -/
def proposeAdmin (currentAdmin proposedAdmin : Address) : Contract Store Unit := do
  let config ← getConfigInternal
  requireAdmin config currentAdmin
  save fun s => { s with pendingAdmin := some proposedAdmin }

/-- The named successor takes over. -/
def acceptAdmin (proposedAdmin : Address) : Contract Store Unit := do
  requireAuth proposedAdmin
  let pending ← expect (← load (·.pendingAdmin)) "not_pending_admin"
  require (pending = proposedAdmin) "not_pending_admin"
  let config ← getConfigInternal
  let previousAdmin := config.admin
  saveConfig { config with admin := proposedAdmin }
  save fun s => { s with pendingAdmin := none }
  publish [.string "lineproof.queue", .symbol ⟨"OwnershipTransferred"⟩, .address previousAdmin,
    .address proposedAdmin] .void

/-! ## Lifecycle -/

/-- From Draft to EnrollmentOpen. -/
def openEnrollment (admin : Address) : Contract Store Unit := do
  let config ← getConfigInternal
  requireAdmin config admin
  require (config.status = .draft) "enrollment can only be opened from draft state"
  saveConfig { config with status := .enrollmentOpen }
  emit "EnrollmentOpened" 0 admin (← timestamp)

/-- From EnrollmentOpen to EnrollmentClosed. -/
def closeEnrollment (admin : Address) : Contract Store Unit := do
  let config ← getConfigInternal
  requireAdmin config admin
  require (config.status = .enrollmentOpen)
    "enrollment can only be closed from enrollment_open state"
  saveConfig { config with status := .enrollmentClosed }
  emit "EnrollmentClosed" 0 admin (← timestamp)

/-- From any other status to Closed. -/
def close (admin : Address) : Contract Store Unit := do
  let config ← getConfigInternal
  requireAdmin config admin
  require (config.status ≠ .closed) "queue is closed"
  saveConfig { config with status := .closed }
  emit "QueueClosed" 0 admin (← timestamp)

/-- The code is not replaced, only announced. -/
def upgrade (admin : Address) (_newWasmHash : Bytes32) : Contract Store Unit := do
  requireAuth admin
  let config ← getConfigInternal
  require (config.admin = admin) "unauthorized: only queue admin can upgrade"
  -- the factory replaces the code; here the call is only authorized and announced
  emit "Upgraded" 0 admin (← timestamp)

/-- Raise the stored version, from the one that is expected. -/
def migrate (admin : Address) (fromVersion toVersion : ℕ) : Contract Store Unit := do
  requireAuth admin
  let config ← getConfigInternal
  require (config.admin = admin) "unauthorized: only queue admin can migrate"
  let storedVersion ← load fun s => s.version.getD currentVersion
  require (storedVersion = fromVersion)
    "version mismatch: stored version does not match from_version"
  require (fromVersion < toVersion) "to_version must be greater than from_version"
  -- the `match` on the two versions is still a skeleton without a migration
  save fun s => { s with version := some toVersion }
  emit "Migrated" fromVersion admin toVersion

/-! ## Positions -/

/-- A new pending position for the caller, while enrollment is open and there is room. -/
def enrollPosition (identity : Address) : Contract Store ℕ := do
  requireAuth identity
  let config ← getConfigInternal
  require (config.status = .enrollmentOpen) "enrollment is not open"
  let nextId ← load fun s => s.nextId.getD 1
  let activeCount ← load fun s => s.activeCount.getD 0
  -- capacity bounds the active count, so ids may exceed `max_positions` (`lib.rs:217-220`)
  require (activeCount < config.maxPositions) "queue is full"
  let now ← timestamp
  savePosition nextId
    { positionId := nextId, enrolledAt := now, identity, status := .pending, advancedAt := none,
      priorityWeight := none }
  let nextId' ← u32 (nextId + 1)
  save fun s => { s with nextId := some nextId' }
  let activeCount' ← u32 (activeCount + 1)
  save fun s => { s with activeCount := some activeCount' }
  emit "Enrolled" nextId identity now
  return nextId

/-- The holder gives up a pending position. -/
def cancelPosition (identity : Address) (positionId : ℕ) : Contract Store Unit := do
  requireAuth identity
  let pos ← loadPosition positionId
  require (pos.identity = identity) "not your position"
  require (pos.status = .pending) "only pending positions can be cancelled"
  savePosition positionId { pos with status := .cancelled }
  -- `saturating_sub` is the subtraction of `ℕ`
  save fun s => { s with activeCount := some (s.activeCount.getD 0 - 1) }
  emit "Cancelled" positionId identity (← timestamp)

/-- The loop body of `expire_positions_batch`, which `expire_position` runs once. -/
def expirePending (admin : Address) (positionId : ℕ) : Contract Store Unit := do
  let pos ← loadPosition positionId
  require (pos.status = .pending) "only pending positions can be expired"
  savePosition positionId { pos with status := .expired }
  emit "Expired" positionId admin (← timestamp)

/-- The administrator expires one pending position. -/
def expirePosition (admin : Address) (positionId : ℕ) : Contract Store Unit := do
  let config ← getConfigInternal
  requireAdmin config admin
  require (config.status = .advancementActive ∨ config.status = .closed)
    "queue must be in advancement or closed state"
  expirePending admin positionId

/-- The loop of `expire_positions_batch`. -/
def expireEach (admin : Address) : List ℕ → Contract Store Unit
  | [] => pure ()
  | positionId :: positionIds => do
    expirePending admin positionId
    expireEach admin positionIds

/-- The administrator expires a list of pending positions, all of them or none. -/
def expirePositionsBatch (admin : Address) (positionIds : List ℕ) : Contract Store Unit := do
  let config ← getConfigInternal
  requireAdmin config admin
  require (config.status = .advancementActive ∨ config.status = .closed)
    "queue must be in advancement or closed state"
  expireEach admin positionIds

/-! ## Readers -/

/-- No position has the id 0. -/
def getPosition (positionId : ℕ) : Contract Store (Option Position) :=
  if positionId = 0 then pure none else load (·.positions.lookup positionId)

/-- The cursor: the last id that was passed. -/
def Store.currentPositionIndex (s : Store) : ℕ := s.idx.getD 0

/-- The positions that were ever created. -/
def Store.totalEnrolled (s : Store) : ℕ :=
  let nextId := s.nextId.getD 1
  if nextId = 0 then 0 else nextId - 1

/-- The stored count of the positions that are not cancelled. -/
def Store.activeEnrolled (s : Store) : ℕ := s.activeCount.getD 0

/-! ## Advancement -/

/-- The local variables of the scan in `advance`. -/
structure Scan where
  idx : ℕ
  advanced : List ℕ
  skipped : List ℕ

/-- `for _ in 0..batch_size`, with `n` iterations left. -/
def advanceScan (admin : Address) (totalCreated : ℕ) : ℕ → Scan → Contract Store Scan
  | 0, scan => pure scan
  | n + 1, scan =>
    if totalCreated ≤ scan.idx then pure scan
    else do
      let id ← u32 (scan.idx + 1)
      match ← getPosition id with
      | none => pure scan -- a gap ends the scan
      | some pos =>
        let now ← timestamp
        if pos.status = .pending then
          savePosition id { pos with status := .advanced, advancedAt := some now }
          advanceScan admin totalCreated n
            { scan with idx := id, advanced := scan.advanced ++ [id] }
        else if pos.status = .cancelled then
          emit "Skipped" id admin now
          advanceScan admin totalCreated n { scan with idx := id, skipped := scan.skipped ++ [id] }
        else
          -- an expired or advanced position is passed without an event
          advanceScan admin totalCreated n { scan with idx := id }

/-- `for id in advanced.iter()`. -/
def emitAdvanced (admin : Address) : List ℕ → Contract Store Unit
  | [] => pure ()
  | id :: ids => do
    emit "Advanced" id admin (← timestamp)
    emitAdvanced admin ids

/-- The `AdvancementRule::Fifo` branch of `advance`. -/
def advanceFifo (admin : Address) (config : QueueConfig) (batchSize : ℕ) :
    Contract Store (List ℕ) := do
  let idx ← load (·.idx.getD 0)
  let nextId ← load (·.nextId.getD 1)
  -- the scan is bounded by the ids ever handed out, not by `max_positions`
  let scan ← advanceScan admin (nextId - 1) batchSize ⟨idx, [], []⟩
  save fun s => { s with idx := some scan.idx }
  -- a batch that serves nobody leaves the status alone
  if scan.advanced ≠ [] ∧ config.status = .enrollmentClosed then
    saveConfig { config with status := .advancementActive }
  emitAdvanced admin scan.advanced
  return scan.advanced

/-- The administrator passes the next ids and serves those that are pending. -/
def advance (admin : Address) (batchSize : ℕ) : Contract Store (List ℕ) := do
  require (batchSize ≠ 0) "batch_size_must_be_positive"
  let config ← getConfigInternal
  requireAdmin config admin
  require (config.status ≠ .closed) "queue is closed"
  require (config.status = .enrollmentClosed ∨ config.status = .advancementActive)
    "enrollment must be closed before advancing"
  match config.advancementRule with
  | .fifo => advanceFifo admin config batchSize
  | .priorityTier => abort "priority_tier_not_implemented"
  | .verifiableRandomness => abort "vrf_not_implemented"

/-! ## The contract -/

/-- The entrypoints of a queue that has been initialized. -/
inductive Entrypoint
  | proposeAdmin (currentAdmin proposedAdmin : Address)
  | acceptAdmin (proposedAdmin : Address)
  | openEnrollment (admin : Address)
  | closeEnrollment (admin : Address)
  | enrollPosition (identity : Address)
  | cancelPosition (identity : Address) (positionId : ℕ)
  | advance (admin : Address) (batchSize : ℕ)
  | getPosition (positionId : ℕ)
  | getConfig
  | currentPositionIndex
  | totalEnrolled
  | activeEnrolled
  | expirePosition (admin : Address) (positionId : ℕ)
  | expirePositionsBatch (admin : Address) (positionIds : List ℕ)
  | close (admin : Address)
  | upgrade (admin : Address) (newWasmHash : Bytes32)
  | migrate (admin : Address) (fromVersion toVersion : ℕ)

/-- What an entrypoint returns. -/
inductive Output
  | unit
  | number (n : ℕ)
  | ids (ids : List ℕ)
  | position (pos : Option Position)
  | config (config : QueueConfig)

/-- A call of an entrypoint other than `initialize`. -/
def exec : Entrypoint → Contract Store Output
  | .proposeAdmin currentAdmin proposedAdmin => do
    proposeAdmin currentAdmin proposedAdmin; return .unit
  | .acceptAdmin proposedAdmin => do acceptAdmin proposedAdmin; return .unit
  | .openEnrollment admin => do openEnrollment admin; return .unit
  | .closeEnrollment admin => do closeEnrollment admin; return .unit
  | .enrollPosition identity => do return .number (← enrollPosition identity)
  | .cancelPosition identity positionId => do cancelPosition identity positionId; return .unit
  | .advance admin batchSize => do return .ids (← advance admin batchSize)
  | .getPosition positionId => do return .position (← getPosition positionId)
  | .getConfig => do return .config (← getConfigInternal)
  | .currentPositionIndex => do return .number (← load (·.currentPositionIndex))
  | .totalEnrolled => do return .number (← load (·.totalEnrolled))
  | .activeEnrolled => do return .number (← load (·.activeEnrolled))
  | .expirePosition admin positionId => do expirePosition admin positionId; return .unit
  | .expirePositionsBatch admin positionIds => do
    expirePositionsBatch admin positionIds; return .unit
  | .close admin => do close admin; return .unit
  | .upgrade admin newWasmHash => do upgrade admin newWasmHash; return .unit
  | .migrate admin fromVersion toVersion => do migrate admin fromVersion toVersion; return .unit

/-- An entrypoint, or `initialize`. -/
inductive Call
  | initializeQueue (admin : Address) (config : QueueConfig)
  | entry (e : Entrypoint)

/-- A call of any entrypoint. -/
def execCall : Call → Contract Store Output
  | .initializeQueue admin config => do initializeQueue admin config; return .unit
  | .entry e => exec e

/-- The contract without further calls of `initialize`. -/
def queue : Transactional (Ledger Store) (Invocation Entrypoint) Output Panic := machine exec

/-- The contract with every entrypoint. -/
def openQueue : Transactional (Ledger Store) (Invocation Call) Output Panic := machine execCall

/-- A deployed queue right after its first successful `initialize`, with any configuration. -/
structure Deployment where
  env : Env
  admin : Address
  config : QueueConfig
  start : Ledger Store
  ok : initializeQueue admin config env fresh = .ok ((), start)

end LineProof.Queue
