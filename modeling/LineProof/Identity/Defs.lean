import Mathlib.Data.Finmap
import LineProof.Soroban.Contract

/-!
# The identity contract

Reference: `contracts/lineproof-identity/src/lib.rs`.
-/

namespace LineProof.Identity

open Soroban

/-- `MAX_QUEUES_PER_IDENTITY`. -/
def maxQueuesPerIdentity : ℕ := 100

/-- The status of an identity. -/
inductive BindingStatus
  | unbound
  | bound
  | revoked
deriving DecidableEq

/-- What is stored for an identity. -/
structure IdentityRecord where
  identity : Address
  boundAt : ℕ
  queues : List Symbol
  status : BindingStatus
deriving DecidableEq

/-- What `record_transfer_attempt` stores. -/
structure TransferAttempt where
  from_ : Address
  to_ : Address
  timestamp : ℕ
  reverted : Bool
deriving DecidableEq

/-- The persistent storage: one field for each key. -/
structure Store where
  /-- `"admin"` -/
  admin : Option Address
  /-- `"transfer_allow"` -/
  transferAllow : Option Bool
  /-- `("identity", identity)` -/
  records : Finmap fun _ : Address => IdentityRecord
  /-- `("attempt", from, to, queue_id)` -/
  attempts : Finmap fun _ : Address × Address × Symbol => TransferAttempt

/-- The ledger of a contract that has just been deployed. -/
def fresh : Ledger Store where
  store := ⟨none, none, ∅, ∅⟩
  events := []

/-! ## Internal functions -/

/-- The topics and the data `emit` publishes. -/
def event (kind : String) (queueId : Symbol) (identity : Address) (timestamp : ℕ) : Event where
  topics := [.symbol ⟨"lineproof_identity"⟩, .symbol ⟨kind⟩, .symbol queueId]
  data := .tuple [.address identity, .u64 timestamp]

/-- Publishes one event under the contract's topics. -/
def emit (kind : String) (queueId : Symbol) (identity : Address) (timestamp : ℕ) :
    Contract Store Unit :=
  publish (event kind queueId identity timestamp).topics
    (event kind queueId identity timestamp).data

/-- `get_record_internal`: an identity without a record is unbound. -/
def Store.getRecordInternal (s : Store) (identity : Address) : IdentityRecord :=
  (s.records.lookup identity).getD { identity, boundAt := 0, queues := [], status := .unbound }

/-- Write a record under `record_key`. -/
def saveRecord (identity : Address) (record : IdentityRecord) : Contract Store Unit :=
  save fun s => { s with records := s.records.insert identity record }

/-- The administrator check of `revoke` and `set_transfer_allowed`. -/
def requireAdmin (admin : Address) : Contract Store Unit := do
  requireAuth admin
  let storedAdmin ← expect (← load (·.admin)) "not initialized"
  require (admin = storedAdmin) "unauthorized"

/-! ## Entrypoints -/

/-- Appends the queue to the identity's list. -/
def bind (identity : Address) (queueId : Symbol) : Contract Store Unit := do
  requireAuth identity
  let record ← load (·.getRecordInternal identity)
  require (record.status ≠ .revoked) "identity revoked"
  require (queueId ∉ record.queues) "already_bound"
  require (record.queues.length < maxQueuesPerIdentity) "max_queues_reached"
  let now ← timestamp
  -- an identity bound at ledger time zero gets a new date with its next binding
  saveRecord identity
    { record with
      queues := record.queues ++ [queueId]
      boundAt := if record.boundAt = 0 then now else record.boundAt
      status := .bound }
  emit "Bound" queueId identity now

/-- A queue that is not bound is no error. -/
def unbind (identity : Address) (queueId : Symbol) : Contract Store Unit := do
  requireAuth identity
  let record ← load (·.getRecordInternal identity)
  if queueId ∈ record.queues then
    -- the status stays as it is, also when no queue is left
    saveRecord identity { record with queues := record.queues.filter (· ≠ queueId) }
    emit "Unbound" queueId identity (← timestamp)
  else
    pure ()

/-- The status only; the queues stay in the record. -/
def revoke (admin identity : Address) : Contract Store Unit := do
  requireAdmin admin
  let record ← load (·.getRecordInternal identity)
  saveRecord identity { record with status := .revoked }
  emit "Revoked" ⟨""⟩ identity (← timestamp)

/-- One flag for all identities. -/
def setTransferAllowed (admin : Address) (allowed : Bool) : Contract Store Unit := do
  requireAdmin admin
  save fun s => { s with transferAllow := some allowed }

/-- Anybody may call it, and the attempt is always recorded as reverted. -/
def recordTransferAttempt (from_ to_ : Address) (queueId : Symbol) : Contract Store Unit := do
  let now ← timestamp
  save fun s => { s with
    attempts := s.attempts.insert (from_, to_, queueId)
      { from_, to_, timestamp := now, reverted := true } }
  emit "TransferReverted" queueId from_ now

/-- `initialize`, whose name is a keyword here. -/
def initializeIdentity (admin : Address) : Contract Store Unit := do
  requireAuth admin
  require ((← load (·.admin)) = none) "already initialized"
  save fun s => { s with admin := some admin }

/-! ## Readers -/

/-- Also true of a revoked identity. -/
def Store.isBound (s : Store) (identity : Address) (queueId : Symbol) : Bool :=
  (s.getRecordInternal identity).queues.contains queueId

/-- To oneself everything can be transferred. -/
def Store.canTransfer (s : Store) (from_ to_ : Address) (queueId : Symbol) : Bool :=
  if from_ = to_ then true
  else if (s.getRecordInternal from_).status = .revoked then false
  else if !s.isBound from_ queueId then false
  else s.transferAllow.getD false

/-- `get_record`, whose default record of `get_record_internal` is out of reach. -/
def Store.getRecord (s : Store) (identity : Address) : Option IdentityRecord :=
  s.records.lookup identity

/-! ## The contract -/

/-- The calls of the contract, with their arguments. -/
inductive Entrypoint
  | bind (identity : Address) (queueId : Symbol)
  | unbind (identity : Address) (queueId : Symbol)
  | revoke (admin identity : Address)
  | isBound (identity : Address) (queueId : Symbol)
  | canTransfer (from_ to_ : Address) (queueId : Symbol)
  | recordTransferAttempt (from_ to_ : Address) (queueId : Symbol)
  | getRecord (identity : Address)
  | getAdmin
  | initializeIdentity (admin : Address)
  | setTransferAllowed (admin : Address) (allowed : Bool)

/-- What an entrypoint returns. -/
inductive Output
  | unit
  | flag (b : Bool)
  | record (record : Option IdentityRecord)
  | admin (admin : Option Address)

/-- Runs one entrypoint. -/
def exec : Entrypoint → Contract Store Output
  | .bind identity queueId => do bind identity queueId; return .unit
  | .unbind identity queueId => do unbind identity queueId; return .unit
  | .revoke admin identity => do revoke admin identity; return .unit
  | .isBound identity queueId => do return .flag (← load (·.isBound identity queueId))
  | .canTransfer from_ to_ queueId => do return .flag (← load (·.canTransfer from_ to_ queueId))
  | .recordTransferAttempt from_ to_ queueId => do
    recordTransferAttempt from_ to_ queueId; return .unit
  | .getRecord identity => do return .record (← load (·.getRecord identity))
  | .getAdmin => do return .admin (← load (·.admin))
  | .initializeIdentity admin => do initializeIdentity admin; return .unit
  | .setTransferAllowed admin allowed => do setTransferAllowed admin allowed; return .unit

/-- The identity contract. -/
def identity : Transactional (Ledger Store) (Invocation Entrypoint) Output Panic := machine exec

end LineProof.Identity
