import LineProof.Queue.Defs
import LineProof.Soroban.Agreement

/-!
# The queue contract with the lifetimes of its entries

Reference: `contracts/lineproof-queue/src/lib.rs`.

The entrypoints again, on one persistent storage, with the `extend_ttl` calls of the source. What they do
on the contents is what the queue contract does (`mirrors_execCall`): always where they succeed, and to the
same end while the entries live.
-/

namespace LineProof.Queue.Ttl

open Soroban

/-- `TTL_THRESHOLD`, in ledgers. -/
def ttlThreshold : ℕ := 10000

/-- `TTL_EXTEND_TO`, a year of ledgers. -/
def ttlExtendTo : ℕ := 6307200

/-- The keys of the contract, with the entry of the contract itself. -/
inductive Key
  /-- the instance of the contract -/
  | contractInstance
  | config
  | nextId
  | activeCount
  | idx
  | version
  | pendingAdmin
  /-- `position_key` -/
  | position (id : ℕ)
deriving DecidableEq

/-- What is stored under a key. -/
abbrev Key.Value : Key → Type
  | .contractInstance => Unit
  | .config => QueueConfig
  | .nextId | .activeCount | .idx | .version => ℕ
  | .pendingAdmin => Address
  | .position _ => Position

/-- The entries of the contract, each with the ledger it lives until. -/
abbrev Storage := Persistent Key.Value

/-- The ledger of a contract that has just been deployed, with the lifetime of its instance. -/
def deployed (liveUntil : ℕ) : Ledger Storage := ⟨Finmap.singleton .contractInstance ⟨(), liveUntil⟩, []⟩

section Entrypoints

variable (li : LedgerInfo)

/-- Every call of `extend_ttl` has the same bounds. -/
def renew (key : Key) : Contract Storage Unit := extendTtl li key ttlThreshold ttlExtendTo

/-- A `set` of the source, which an `extend_ttl` of the same key follows everywhere. -/
def write (key : Key) (value : key.Value) : Contract Storage Unit := do
  put li key value
  renew li key

/-- `get(key).unwrap_or(default)`. -/
def getOr (key : Key) (default : key.Value) : Contract Storage key.Value := do
  return (← get li key).getD default

def emit (kind : String) (positionId : ℕ) (identity : Address) (timestamp : ℕ) : Contract Storage Unit :=
  publish (event kind positionId identity timestamp).topics (event kind positionId identity timestamp).data

/-- `require_admin`: compares with the stored admin before it asks for the signature. -/
def requireAdmin (config : QueueConfig) (admin : Address) : Contract Storage Unit := do
  require (config.admin = admin) "not_admin"
  requireAuth admin

/-- `get_config_internal`: a read of the config renews its entry. -/
def getConfigInternal : Contract Storage QueueConfig := do
  let config ← expect (← get li .config) "queue not initialized"
  renew li .config
  return config

/-- Every read of a position renews its entry. -/
def loadPosition (id : ℕ) : Contract Storage Position := do
  let pos ← expect (← get li (.position id)) "position not found"
  renew li (.position id)
  return pos

def initializeQueue (admin : Address) (config : QueueConfig) : Contract Storage Unit := do
  requireAuth admin
  require (config.admin = admin) "not_admin"
  write li .config config
  write li .nextId (1 : ℕ)
  write li .activeCount (0 : ℕ)
  write li .idx (0 : ℕ)
  write li .version currentVersion
  renew li .contractInstance
  emit "Initialized" 0 admin 0

def proposeAdmin (currentAdmin proposedAdmin : Address) : Contract Storage Unit := do
  let config ← getConfigInternal li
  requireAdmin config currentAdmin
  write li .pendingAdmin proposedAdmin

def acceptAdmin (proposedAdmin : Address) : Contract Storage Unit := do
  requireAuth proposedAdmin
  let pending : Address ← expect (← get li .pendingAdmin) "not_pending_admin"
  require (pending = proposedAdmin) "not_pending_admin"
  let config ← getConfigInternal li
  let previousAdmin := config.admin
  write li .config { config with admin := proposedAdmin }
  remove li .pendingAdmin
  publish [.string "lineproof.queue", .symbol ⟨"OwnershipTransferred"⟩, .address previousAdmin,
    .address proposedAdmin] .void

def openEnrollment (admin : Address) : Contract Storage Unit := do
  let config ← getConfigInternal li
  requireAdmin config admin
  require (config.status = .draft) "enrollment can only be opened from draft state"
  write li .config { config with status := .enrollmentOpen }
  emit "EnrollmentOpened" 0 admin (← timestamp)

def closeEnrollment (admin : Address) : Contract Storage Unit := do
  let config ← getConfigInternal li
  requireAdmin config admin
  require (config.status = .enrollmentOpen)
    "enrollment can only be closed from enrollment_open state"
  write li .config { config with status := .enrollmentClosed }
  emit "EnrollmentClosed" 0 admin (← timestamp)

def close (admin : Address) : Contract Storage Unit := do
  let config ← getConfigInternal li
  requireAdmin config admin
  require (config.status ≠ .closed) "queue is closed"
  write li .config { config with status := .closed }
  emit "QueueClosed" 0 admin (← timestamp)

def upgrade (admin : Address) (_newWasmHash : Bytes32) : Contract Storage Unit := do
  requireAuth admin
  let config ← getConfigInternal li
  require (config.admin = admin) "unauthorized: only queue admin can upgrade"
  emit "Upgraded" 0 admin (← timestamp)

def migrate (admin : Address) (fromVersion toVersion : ℕ) : Contract Storage Unit := do
  requireAuth admin
  let config ← getConfigInternal li
  require (config.admin = admin) "unauthorized: only queue admin can migrate"
  let storedVersion : ℕ ← getOr li .version currentVersion
  require (storedVersion = fromVersion)
    "version mismatch: stored version does not match from_version"
  require (fromVersion < toVersion) "to_version must be greater than from_version"
  write li .version toVersion
  emit "Migrated" fromVersion admin toVersion

/-- Renews the three entries it writes; the refusals come in the order of the source. -/
def enrollPosition (identity : Address) : Contract Storage ℕ := do
  requireAuth identity
  let config ← getConfigInternal li
  require (config.status = .enrollmentOpen) "enrollment is not open"
  let nextId : ℕ ← getOr li .nextId (1 : ℕ)
  let activeCount : ℕ ← getOr li .activeCount (0 : ℕ)
  require (activeCount < config.maxPositions) "queue is full"
  let now ← timestamp
  write li (.position nextId)
    { positionId := nextId, enrolledAt := now, identity, status := .pending, advancedAt := none,
      priorityWeight := none }
  let nextId' ← u32 (nextId + 1)
  write li .nextId nextId'
  let activeCount' ← u32 (activeCount + 1)
  write li .activeCount activeCount'
  emit "Enrolled" nextId identity now
  return nextId

/-- The position is renewed by the read, and once more by the write. -/
def cancelPosition (identity : Address) (positionId : ℕ) : Contract Storage Unit := do
  requireAuth identity
  let pos ← loadPosition li positionId
  require (pos.identity = identity) "not your position"
  require (pos.status = .pending) "only pending positions can be cancelled"
  write li (.position positionId) { pos with status := .cancelled }
  let activeCount : ℕ ← getOr li .activeCount (0 : ℕ)
  write li .activeCount (activeCount - 1)
  emit "Cancelled" positionId identity (← timestamp)

/-- The loop body of `expire_positions_batch`, which `expire_position` runs once. -/
def expirePending (admin : Address) (positionId : ℕ) : Contract Storage Unit := do
  let pos ← loadPosition li positionId
  require (pos.status = .pending) "only pending positions can be expired"
  write li (.position positionId) { pos with status := .expired }
  emit "Expired" positionId admin (← timestamp)

def expirePosition (admin : Address) (positionId : ℕ) : Contract Storage Unit := do
  let config ← getConfigInternal li
  requireAdmin config admin
  require (config.status = .advancementActive ∨ config.status = .closed)
    "queue must be in advancement or closed state"
  expirePending li admin positionId

/-- The loop over `position_ids`; the first refusal ends it. -/
def expireEach (admin : Address) : List ℕ → Contract Storage Unit
  | [] => pure ()
  | positionId :: positionIds => do
    expirePending li admin positionId
    expireEach admin positionIds

def expirePositionsBatch (admin : Address) (positionIds : List ℕ) : Contract Storage Unit := do
  let config ← getConfigInternal li
  requireAdmin config admin
  require (config.status = .advancementActive ∨ config.status = .closed)
    "queue must be in advancement or closed state"
  expireEach li admin positionIds

/-- A position that is found is extended. -/
def getPosition (positionId : ℕ) : Contract Storage (Option Position) :=
  if positionId = 0 then pure none
  else do
    let pos ← get li (.position positionId)
    if pos.isSome = true then renew li (.position positionId)
    return pos

def currentPositionIndex : Contract Storage ℕ := getOr li .idx (0 : ℕ)

def totalEnrolled : Contract Storage ℕ := do
  let nextId : ℕ ← getOr li .nextId (1 : ℕ)
  return if nextId = 0 then 0 else nextId - 1

def activeEnrolled : Contract Storage ℕ := getOr li .activeCount (0 : ℕ)

/-- `for _ in 0..batch_size`, with `n` iterations left. -/
def advanceScan (admin : Address) (totalCreated : ℕ) : ℕ → Scan → Contract Storage Scan
  | 0, scan => pure scan
  | n + 1, scan =>
    if totalCreated ≤ scan.idx then pure scan
    else do
      let id ← u32 (scan.idx + 1)
      match ← getPosition li id with
      | none => pure scan
      | some pos =>
        let now ← timestamp
        if pos.status = .pending then
          write li (.position id) { pos with status := .advanced, advancedAt := some now }
          advanceScan admin totalCreated n
            { scan with idx := id, advanced := scan.advanced ++ [id] }
        else if pos.status = .cancelled then
          emit "Skipped" id admin now
          advanceScan admin totalCreated n { scan with idx := id, skipped := scan.skipped ++ [id] }
        else
          advanceScan admin totalCreated n { scan with idx := id }

/-- `for id in advanced.iter()`. -/
def emitAdvanced (admin : Address) : List ℕ → Contract Storage Unit
  | [] => pure ()
  | id :: ids => do
    emit "Advanced" id admin (← timestamp)
    emitAdvanced admin ids

/-- The `AdvancementRule::Fifo` branch of `advance`. -/
def advanceFifo (admin : Address) (config : QueueConfig) (batchSize : ℕ) : Contract Storage (List ℕ) := do
  let idx : ℕ ← getOr li .idx (0 : ℕ)
  let nextId : ℕ ← getOr li .nextId (1 : ℕ)
  let scan ← advanceScan li admin (nextId - 1) batchSize ⟨idx, [], []⟩
  write li .idx scan.idx
  if scan.advanced ≠ [] ∧ config.status = .enrollmentClosed then
    write li .config { config with status := .advancementActive }
  emitAdvanced admin scan.advanced
  return scan.advanced

/-- Checks the batch before it reads the config. -/
def advance (admin : Address) (batchSize : ℕ) : Contract Storage (List ℕ) := do
  require (batchSize ≠ 0) "batch_size_must_be_positive"
  let config ← getConfigInternal li
  requireAdmin config admin
  require (config.status ≠ .closed) "queue is closed"
  require (config.status = .enrollmentClosed ∨ config.status = .advancementActive)
    "enrollment must be closed before advancing"
  match config.advancementRule with
  | .fifo => advanceFifo li admin config batchSize
  | .priorityTier => abort "priority_tier_not_implemented"
  | .verifiableRandomness => abort "vrf_not_implemented"

/-- Every entrypoint but `initialize_queue`. -/
def exec : Entrypoint → Contract Storage Output
  | .proposeAdmin currentAdmin proposedAdmin => do
    proposeAdmin li currentAdmin proposedAdmin; return .unit
  | .acceptAdmin proposedAdmin => do acceptAdmin li proposedAdmin; return .unit
  | .openEnrollment admin => do openEnrollment li admin; return .unit
  | .closeEnrollment admin => do closeEnrollment li admin; return .unit
  | .enrollPosition identity => do return .number (← enrollPosition li identity)
  | .cancelPosition identity positionId => do cancelPosition li identity positionId; return .unit
  | .advance admin batchSize => do return .ids (← advance li admin batchSize)
  | .getPosition positionId => do return .position (← getPosition li positionId)
  | .getConfig => do return .config (← getConfigInternal li)
  | .currentPositionIndex => do return .number (← currentPositionIndex li)
  | .totalEnrolled => do return .number (← totalEnrolled li)
  | .activeEnrolled => do return .number (← activeEnrolled li)
  | .expirePosition admin positionId => do expirePosition li admin positionId; return .unit
  | .expirePositionsBatch admin positionIds => do
    expirePositionsBatch li admin positionIds; return .unit
  | .close admin => do close li admin; return .unit
  | .upgrade admin newWasmHash => do upgrade li admin newWasmHash; return .unit
  | .migrate admin fromVersion toVersion => do migrate li admin fromVersion toVersion; return .unit

/-- The host loads the instance of a contract that is called. -/
def loadInstance : Contract Storage Unit := do
  let _ ← expect (← get li .contractInstance) "contract instance not found"

/-- A call first loads the contract's instance and code. -/
def execCall (call : Queue.Call) : Contract Storage Output := do
  loadInstance li
  match call with
  | .initializeQueue admin config => do initializeQueue li admin config; return .unit
  | .entry e => exec li e

end Entrypoints

/-- A call comes with the ledger it is made in. -/
abbrev Call := LedgerInfo × Queue.Call

/-- The queue contract with lifetimes. -/
def openQueue : Transactional (Ledger Storage) (Invocation Call) Output Panic :=
  machine fun call => execCall call.1 call.2

/-! ## The same contents -/

/-- What the queue contract has under a key. -/
def view (t : Store) : (key : Key) → Option key.Value
  | .contractInstance => some ()
  | .config => t.config
  | .nextId => t.nextId
  | .activeCount => t.activeCount
  | .idx => t.idx
  | .version => t.version
  | .pendingAdmin => t.pendingAdmin
  | .position id => t.positions.lookup id

section Mirrors

variable {li : LedgerInfo}

/-- `x` mirrors `y` on the contents of the queue contract. -/
abbrev MirrorsQueue (li : LedgerInfo) {α : Type} (x : Contract Storage α) (y : Contract Store α) : Prop :=
  Mirrors ttlThreshold ttlExtendTo li (Contents view) Eq x y

/-- A write under one key updates the field that the key stands for. -/
theorem mirrors_saveConfig (config : QueueConfig) :
    MirrorsQueue li (write li .config config) (saveConfig config) := by
  refine .write (fun _ => rfl) ?_
  rintro t (_ | _ | _ | _ | _ | _ | _ | id) hkey <;> first | rfl | exact absurd rfl hkey

theorem mirrors_saveNextId (n : ℕ) :
    MirrorsQueue li (write li .nextId n) (save fun s => { s with nextId := some n }) := by
  refine .write (fun _ => rfl) ?_
  rintro t (_ | _ | _ | _ | _ | _ | _ | id) hkey <;> first | rfl | exact absurd rfl hkey

theorem mirrors_saveActiveCount (n : ℕ) :
    MirrorsQueue li (write li .activeCount n) (save fun s => { s with activeCount := some n }) := by
  refine .write (fun _ => rfl) ?_
  rintro t (_ | _ | _ | _ | _ | _ | _ | id) hkey <;> first | rfl | exact absurd rfl hkey

theorem mirrors_saveIdx (n : ℕ) :
    MirrorsQueue li (write li .idx n) (save fun s => { s with idx := some n }) := by
  refine .write (fun _ => rfl) ?_
  rintro t (_ | _ | _ | _ | _ | _ | _ | id) hkey <;> first | rfl | exact absurd rfl hkey

theorem mirrors_saveVersion (n : ℕ) :
    MirrorsQueue li (write li .version n) (save fun s => { s with version := some n }) := by
  refine .write (fun _ => rfl) ?_
  rintro t (_ | _ | _ | _ | _ | _ | _ | id) hkey <;> first | rfl | exact absurd rfl hkey

theorem mirrors_savePendingAdmin (who : Address) :
    MirrorsQueue li (write li .pendingAdmin who) (save fun s => { s with pendingAdmin := some who }) := by
  refine .write (fun _ => rfl) ?_
  rintro t (_ | _ | _ | _ | _ | _ | _ | id) hkey <;> first | rfl | exact absurd rfl hkey

theorem mirrors_removePendingAdmin :
    MirrorsQueue li (remove li .pendingAdmin) (save fun s => { s with pendingAdmin := none }) := by
  refine .remove (fun _ => rfl) ?_
  rintro t (_ | _ | _ | _ | _ | _ | _ | id) hkey <;> first | rfl | exact absurd rfl hkey

/-- A write of a position updates the table of positions at its id. -/
theorem mirrors_savePosition (id : ℕ) (pos : Position) :
    MirrorsQueue li (write li (.position id) pos) (savePosition id pos) := by
  refine .write (fun _ => Finmap.lookup_insert _) ?_
  rintro t (_ | _ | _ | _ | _ | _ | _ | id') hkey <;> try rfl
  exact Finmap.lookup_insert_of_ne _ fun heq => hkey (congrArg _ heq)

/-- The renewal that comes with a read of the config is not seen in the contents. -/
theorem mirrors_getConfigInternal : MirrorsQueue li (getConfigInternal li) Queue.getConfigInternal :=
  .expectRenewed view .config

/-- A read with a default reads the field, or its default. -/
theorem mirrors_getOr (key : Key) (default : key.Value) :
    MirrorsQueue li (getOr li key default) (load fun t => (view t key).getD default) :=
  .andThen (.get view key) fun _ => .pure rfl

/-- The renewal that comes with a read of a position is not seen in the contents. -/
theorem mirrors_loadPosition (id : ℕ) : MirrorsQueue li (loadPosition li id) (Queue.loadPosition id) :=
  .expectRenewed view (.position id)

theorem mirrors_requireAdmin (config : QueueConfig) (admin : Address) :
    MirrorsQueue li (requireAdmin config admin) (Queue.requireAdmin config admin) :=
  .andThen (.require Iff.rfl) fun _ => .requireAuth admin

theorem mirrors_emit (kind : String) (id : ℕ) (who : Address) (time : ℕ) :
    MirrorsQueue li (emit kind id who time) (Queue.emit kind id who time) :=
  .publish _ _

/-- `emit` with the time of the ledger. -/
theorem mirrors_emitNow (kind : String) (id : ℕ) (who : Address) :
    MirrorsQueue li (do emit kind id who (← timestamp)) (do Queue.emit kind id who (← timestamp)) :=
  .andThen .timestamp (mirrors_emit kind id who)

/-- A call of the administrator, which loads the configuration and checks who calls. -/
theorem mirrors_asAdmin {α : Type} (admin : Address) {x : QueueConfig → Contract Storage α}
    {y : QueueConfig → Contract Store α} (h : ∀ config, MirrorsQueue li (x config) (y config)) :
    MirrorsQueue li
      (do let config ← getConfigInternal li
          requireAdmin config admin
          x config)
      (do let config ← Queue.getConfigInternal
          Queue.requireAdmin config admin
          y config) :=
  .andThen mirrors_getConfigInternal fun config =>
    .andThen (mirrors_requireAdmin config admin) fun _ => h config

/-- The three calls that only set the status share one argument. -/
theorem mirrors_setStatus (p : QueueConfig → Prop) [DecidablePred p] (msg : String) (status : QueueStatus)
    (kind : String) (admin : Address) (config : QueueConfig) :
    MirrorsQueue li
      (do require (p config) msg
          write li .config { config with status }
          emit kind 0 admin (← timestamp))
      (do require (p config) msg
          saveConfig { config with status }
          Queue.emit kind 0 admin (← timestamp)) :=
  .andThen (.require Iff.rfl) fun _ => .andThen (mirrors_saveConfig _) fun _ => mirrors_emitNow kind 0 admin

theorem mirrors_openEnrollment (admin : Address) :
    MirrorsQueue li (openEnrollment li admin) (Queue.openEnrollment admin) :=
  mirrors_asAdmin admin (mirrors_setStatus (·.status = .draft) _ _ _ admin)

theorem mirrors_closeEnrollment (admin : Address) :
    MirrorsQueue li (closeEnrollment li admin) (Queue.closeEnrollment admin) :=
  mirrors_asAdmin admin (mirrors_setStatus (·.status = .enrollmentOpen) _ _ _ admin)

theorem mirrors_close (admin : Address) : MirrorsQueue li (close li admin) (Queue.close admin) :=
  mirrors_asAdmin admin (mirrors_setStatus (·.status ≠ .closed) _ _ _ admin)

theorem mirrors_initializeQueue (admin : Address) (config : QueueConfig) :
    MirrorsQueue li (initializeQueue li admin config) (Queue.initializeQueue admin config) := by
  refine .andThen (.requireAuth admin) fun _ => .andThen (.require Iff.rfl) fun _ => ?_
  refine .andThen (mirrors_saveConfig config) fun _ => .andThen (mirrors_saveNextId 1) fun _ => ?_
  refine .andThen (mirrors_saveActiveCount 0) fun _ => .andThen (mirrors_saveIdx 0) fun _ => ?_
  refine .andThen (mirrors_saveVersion currentVersion) fun _ => ?_
  exact .skip (.extendTtl fun _ => rfl) (mirrors_emit _ _ _ _)

theorem mirrors_proposeAdmin (currentAdmin proposedAdmin : Address) :
    MirrorsQueue li (proposeAdmin li currentAdmin proposedAdmin)
      (Queue.proposeAdmin currentAdmin proposedAdmin) :=
  mirrors_asAdmin currentAdmin fun _ => mirrors_savePendingAdmin proposedAdmin

theorem mirrors_acceptAdmin (proposedAdmin : Address) :
    MirrorsQueue li (acceptAdmin li proposedAdmin) (Queue.acceptAdmin proposedAdmin) := by
  refine .andThen (.requireAuth proposedAdmin) fun _ => .andThen (.get view .pendingAdmin) fun stored => ?_
  refine .andThen (.expect stored) fun pending => .andThen (.require Iff.rfl) fun _ => ?_
  refine .andThen mirrors_getConfigInternal fun config => .andThen (mirrors_saveConfig _) fun _ => ?_
  exact .andThen mirrors_removePendingAdmin fun _ => .publish _ _

/-- `upgrade` and `migrate` ask for the signature first. -/
theorem mirrors_signed {α : Type} (admin : Address) (msg : String) {x : Contract Storage α}
    {y : Contract Store α} (h : MirrorsQueue li x y) :
    MirrorsQueue li
      (do requireAuth admin
          let config ← getConfigInternal li
          require (config.admin = admin) msg
          x)
      (do requireAuth admin
          let config ← Queue.getConfigInternal
          require (config.admin = admin) msg
          y) :=
  .andThen (.requireAuth admin) fun _ => .andThen mirrors_getConfigInternal fun _ =>
    .andThen (.require Iff.rfl) fun _ => h

theorem mirrors_upgrade (admin : Address) (newWasmHash : Bytes32) :
    MirrorsQueue li (upgrade li admin newWasmHash) (Queue.upgrade admin newWasmHash) :=
  mirrors_signed admin _ (mirrors_emitNow _ _ admin)

theorem mirrors_migrate (admin : Address) (fromVersion toVersion : ℕ) :
    MirrorsQueue li (migrate li admin fromVersion toVersion)
      (Queue.migrate admin fromVersion toVersion) := by
  refine mirrors_signed admin _ ?_
  refine .andThen (mirrors_getOr .version currentVersion) fun stored => .andThen (.require Iff.rfl) fun _ => ?_
  refine .andThen (.require Iff.rfl) fun _ => .andThen (mirrors_saveVersion toVersion) fun _ => ?_
  exact mirrors_emit _ _ _ _

theorem mirrors_enrollPosition (identity : Address) :
    MirrorsQueue li (enrollPosition li identity) (Queue.enrollPosition identity) := by
  refine .andThen (.requireAuth identity) fun _ => .andThen mirrors_getConfigInternal fun config => ?_
  refine .andThen (.require Iff.rfl) fun _ => ?_
  refine .andThen (mirrors_getOr .nextId (1 : ℕ)) fun nextId => ?_
  refine .andThen (mirrors_getOr .activeCount (0 : ℕ)) fun activeCount => ?_
  refine .andThen (.require Iff.rfl) fun _ => .andThen .timestamp fun now => ?_
  refine .andThen (mirrors_savePosition _ _) fun _ => .andThen (.u32 _) fun nextId' => ?_
  refine .andThen (mirrors_saveNextId nextId') fun _ => .andThen (.u32 _) fun activeCount' => ?_
  refine .andThen (mirrors_saveActiveCount activeCount') fun _ => ?_
  exact .andThen (mirrors_emit _ _ _ _) fun _ => .pure rfl

theorem mirrors_cancelPosition (identity : Address) (positionId : ℕ) :
    MirrorsQueue li (cancelPosition li identity positionId)
      (Queue.cancelPosition identity positionId) := by
  refine .andThen (.requireAuth identity) fun _ => .andThen (mirrors_loadPosition _) fun pos => ?_
  refine .andThen (.require Iff.rfl) fun _ => .andThen (.require Iff.rfl) fun _ => ?_
  refine .andThen (mirrors_savePosition _ _) fun _ => ?_
  -- the plain contract reads and writes the count in one step
  show MirrorsQueue li _ (do
    let activeCount ← load fun t => t.activeCount.getD 0
    save fun s => { s with activeCount := some (activeCount - 1) }
    Queue.emit "Cancelled" positionId identity (← timestamp))
  refine .andThen (mirrors_getOr .activeCount (0 : ℕ)) fun n => ?_
  exact .andThen (mirrors_saveActiveCount (n - 1)) fun _ => mirrors_emitNow _ _ identity

theorem mirrors_expirePending (admin : Address) (positionId : ℕ) :
    MirrorsQueue li (expirePending li admin positionId) (Queue.expirePending admin positionId) :=
  .andThen (mirrors_loadPosition positionId) fun _ => .andThen (.require Iff.rfl) fun _ =>
    .andThen (mirrors_savePosition _ _) fun _ => mirrors_emitNow _ _ admin

/-- The head of `expire_position` and `expire_positions_batch`. -/
theorem mirrors_asExpirer (admin : Address) {x : Contract Storage Unit} {y : Contract Store Unit}
    (h : MirrorsQueue li x y) :
    MirrorsQueue li
      (do let config ← getConfigInternal li
          requireAdmin config admin
          require (config.status = .advancementActive ∨ config.status = .closed)
            "queue must be in advancement or closed state"
          x)
      (do let config ← Queue.getConfigInternal
          Queue.requireAdmin config admin
          require (config.status = .advancementActive ∨ config.status = .closed)
            "queue must be in advancement or closed state"
          y) :=
  mirrors_asAdmin admin fun _ => .andThen (.require Iff.rfl) fun _ => h

/-- By induction on the ids. -/
theorem mirrors_expireEach (admin : Address) (positionIds : List ℕ) :
    MirrorsQueue li (expireEach li admin positionIds) (Queue.expireEach admin positionIds) := by
  induction positionIds with
  | nil => exact .pure rfl
  | cons id ids ih => exact .andThen (mirrors_expirePending admin id) fun _ => ih

theorem mirrors_getPosition (id : ℕ) :
    MirrorsQueue li (getPosition li id) (Queue.getPosition id) := by
  by_cases hid : id = 0
  · simp only [getPosition, Queue.getPosition, if_pos hid]
    exact .pure rfl
  · simp only [getPosition, Queue.getPosition, if_neg hid]
    exact .getRenewed view (.position id)

/-- By induction on the length of the scan. -/
theorem mirrors_advanceScan (admin : Address) (totalCreated n : ℕ) (scan : Scan) :
    MirrorsQueue li (advanceScan li admin totalCreated n scan)
      (Queue.advanceScan admin totalCreated n scan) := by
  induction n generalizing scan with
  | zero => exact .pure rfl
  | succ n ih =>
    by_cases hend : totalCreated ≤ scan.idx
    · simp only [advanceScan, Queue.advanceScan, if_pos hend]
      exact .pure rfl
    · simp only [advanceScan, Queue.advanceScan, if_neg hend]
      refine .andThen (.u32 _) fun id => .andThen (mirrors_getPosition id) fun stored => ?_
      cases stored with
      | none => exact .pure rfl
      | some pos =>
        refine .andThen .timestamp fun now => ?_
        by_cases hpending : pos.status = .pending
        · simp only [if_pos hpending]
          exact .andThen (mirrors_savePosition _ _) fun _ => ih _
        · by_cases hcancelled : pos.status = .cancelled
          · simp only [if_neg hpending, if_pos hcancelled]
            exact .andThen (mirrors_emit _ _ _ _) fun _ => ih _
          · simp only [if_neg hpending, if_neg hcancelled]
            exact ih _

/-- By induction on the served ids. -/
theorem mirrors_emitAdvanced (admin : Address) (ids : List ℕ) :
    MirrorsQueue li (emitAdvanced admin ids) (Queue.emitAdvanced admin ids) := by
  induction ids with
  | nil => exact .pure rfl
  | cons id ids ih =>
    exact .andThen .timestamp fun _ => .andThen (mirrors_emit _ _ _ _) fun _ => ih

theorem mirrors_advanceFifo (admin : Address) (config : QueueConfig) (batchSize : ℕ) :
    MirrorsQueue li (advanceFifo li admin config batchSize)
      (Queue.advanceFifo admin config batchSize) := by
  refine .andThen (mirrors_getOr .idx (0 : ℕ)) fun idx => ?_
  refine .andThen (mirrors_getOr .nextId (1 : ℕ)) fun nextId => ?_
  refine .andThen (mirrors_advanceScan admin _ _ _) fun scan => .andThen (mirrors_saveIdx _) fun _ => ?_
  have hlast : MirrorsQueue li (do emitAdvanced admin scan.advanced; return scan.advanced)
      (do Queue.emitAdvanced admin scan.advanced; return scan.advanced) :=
    .andThen (mirrors_emitAdvanced admin _) fun _ => .pure rfl
  by_cases hactive : scan.advanced ≠ [] ∧ config.status = .enrollmentClosed
  · simp only [if_pos hactive]
    exact .andThen (mirrors_saveConfig _) fun _ => hlast
  · simp only [if_neg hactive]
    exact hlast

/-- The branches of `advance` are the two models' own, checked one after the other. -/
theorem mirrors_advance (admin : Address) (batchSize : ℕ) :
    MirrorsQueue li (advance li admin batchSize) (Queue.advance admin batchSize) := by
  refine .andThen (.require Iff.rfl) fun _ => mirrors_asAdmin admin fun config => ?_
  refine .andThen (.require Iff.rfl) fun _ => .andThen (.require Iff.rfl) fun _ => ?_
  cases config.advancementRule with
  | fifo => exact mirrors_advanceFifo admin config batchSize
  | priorityTier => exact .abort
  | verifiableRandomness => exact .abort

/-- Every entrypoint does on the contents what the queue contract does. -/
theorem mirrors_exec (e : Entrypoint) : MirrorsQueue li (exec li e) (Queue.exec e) := by
  cases e with
  | proposeAdmin currentAdmin proposedAdmin => exact .map _ (mirrors_proposeAdmin _ _)
  | acceptAdmin proposedAdmin => exact .map _ (mirrors_acceptAdmin _)
  | openEnrollment admin => exact .map _ (mirrors_openEnrollment _)
  | closeEnrollment admin => exact .map _ (mirrors_closeEnrollment _)
  | enrollPosition identity => exact .map _ (mirrors_enrollPosition _)
  | cancelPosition identity positionId => exact .map _ (mirrors_cancelPosition _ _)
  | advance admin batchSize => exact .map _ (mirrors_advance _ _)
  | getPosition positionId => exact .map _ (mirrors_getPosition _)
  | getConfig => exact .map _ mirrors_getConfigInternal
  | currentPositionIndex => exact .map _ (mirrors_getOr .idx (0 : ℕ))
  | totalEnrolled => exact .map _ (.map _ (mirrors_getOr .nextId (1 : ℕ)))
  | activeEnrolled => exact .map _ (mirrors_getOr .activeCount (0 : ℕ))
  | expirePosition admin positionId => exact .map _ (mirrors_asExpirer _ (mirrors_expirePending _ _))
  | expirePositionsBatch admin positionIds => exact .map _ (mirrors_asExpirer _ (mirrors_expireEach _ _))
  | close admin => exact .map _ (mirrors_close _)
  | upgrade admin newWasmHash => exact .map _ (mirrors_upgrade _ _)
  | migrate admin fromVersion toVersion => exact .map _ (mirrors_migrate _ _ _)

/-- Every call of the model with lifetimes mirrors the call of the model without. -/
theorem mirrors_execCall (call : Queue.Call) :
    MirrorsQueue li (execCall li call) (Queue.execCall call) := by
  have hinstance : ∀ t, (view t .contractInstance).isSome = true := fun _ => rfl
  refine .skip (.access hinstance) ?_
  cases call with
  | initializeQueue admin config => exact .map _ (mirrors_initializeQueue admin config)
  | entry e => exact mirrors_exec e

end Mirrors

end LineProof.Queue.Ttl
