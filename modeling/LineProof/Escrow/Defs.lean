import Mathlib.Data.Finmap
import LineProof.Soroban.Contract

/-!
# The escrow contract

Reference: `contracts/lineproof-escrow/src/lib.rs`.

The three families of persistent keys are three finite maps: `("escrow", queue_id, identity)` for the
records, `("escrow_config", queue_id)` for the configurations and `("escrow_total", queue_id)` for the
running totals.
-/

namespace LineProof.Escrow

open Soroban

/-- A record is active until one of the three others. -/
inductive EscrowStatus
  | active
  | released
  | refunded
  | expired
deriving DecidableEq

/-- What is stored for a deposit. -/
structure EscrowRecord where
  queueId : Symbol
  identity : Address
  amount : ℤ
  asset : Address
  status : EscrowStatus
  createdAt : ℕ
  expiresAt : ℕ
  releasedAt : Option ℕ
deriving DecidableEq

/-- The bounds and the hold period that `set_config` stores for a queue. -/
structure EscrowConfig where
  queueId : Symbol
  minDeposit : ℤ
  maxDeposit : ℤ
  holdPeriodDays : ℕ
  admin : Address
deriving DecidableEq

/-- The key of a record: `record_key` without its constant tag. -/
abbrev RecordKey := Symbol × Address

/-- The contract's persistent entries, a table for each kind of key. -/
structure Store where
  /-- `("escrow", queue_id, identity)` -/
  records : Finmap fun _ : RecordKey => EscrowRecord
  /-- `("escrow_config", queue_id)` -/
  configs : Finmap fun _ : Symbol => EscrowConfig
  /-- `("escrow_total", queue_id)` -/
  totals : Finmap fun _ : Symbol => ℤ

/-- The ledger of a contract that has just been deployed. -/
def fresh : Ledger Store where
  store := ⟨∅, ∅, ∅⟩
  events := []

/-- What `get_total_held` reads. -/
def Store.totalHeld (s : Store) (queueId : Symbol) : ℤ := (s.totals.lookup queueId).getD 0

/-! ## Internal functions -/

/-- The topics and the data `emit` publishes. -/
def event (kind : String) (queueId : Symbol) (identity : Address) (amount : ℤ) : Event where
  topics := [.symbol ⟨"lineproof_escrow"⟩, .symbol ⟨kind⟩, .symbol queueId]
  data := .tuple [.address identity, .i128 amount]

/-- Publishes one event under the contract's topics. -/
def emit (kind : String) (queueId : Symbol) (identity : Address) (amount : ℤ) :
    Contract Store Unit :=
  publish (event kind queueId identity amount).topics (event kind queueId identity amount).data

/-- `unwrap` of the stored record, as an error. -/
def loadRecord (identity : Address) (queueId : Symbol) : Contract Store EscrowRecord := do
  expect (← load (·.records.lookup (queueId, identity))) "escrow record not found"

/-- Write a record under `record_key`. -/
def saveRecord (identity : Address) (queueId : Symbol) (record : EscrowRecord) :
    Contract Store Unit :=
  save fun s => { s with records := s.records.insert (queueId, identity) record }

/-- Write a running total under `total_key`. -/
def saveTotal (queueId : Symbol) (total : ℤ) : Contract Store Unit :=
  save fun s => { s with totals := s.totals.insert queueId total }

/-- The subtraction is checked: below the range of `i128` it panics. -/
def decrementTotal (queueId : Symbol) (amount : ℤ) : Contract Store Unit := do
  let current ← load (·.totalHeld queueId)
  saveTotal queueId (← i128 (current - amount))

/-! ## Deposits -/

/-- Refuses a queue without config, an amount outside its bounds and a second record of the caller. -/
def deposit (caller : Address) (queueId : Symbol) (amount : ℤ) (asset : Address) :
    Contract Store Unit := do
  requireAuth caller
  require (¬ amount ≤ 0) "amount must be positive"
  require ((← load (·.records.lookup (queueId, caller))) = none) "existing escrow record"
  let createdAt ← timestamp
  let config ← expect (← load (·.configs.lookup queueId)) "escrow_not_configured"
  require (¬ (amount < config.minDeposit ∨ config.maxDeposit < amount))
    "amount outside configured bounds"
  -- `created_at + (config.hold_period_days * 86400)`
  let hold ← u64 (config.holdPeriodDays * 86400)
  let expiresAt ← u64 (createdAt + hold)
  saveRecord caller queueId
    { queueId, identity := caller, amount, asset, status := .active, createdAt, expiresAt,
      releasedAt := none }
  let current ← load (·.totalHeld queueId)
  saveTotal queueId (← i128 (current + amount))
  emit "Deposited" queueId caller amount

/-! ## The ends of a deposit -/

/-- The common end of `release`, `refund` and `expire`. -/
def settle (outcome : EscrowStatus) (kind : String) (identity : Address) (queueId : Symbol)
    (record : EscrowRecord) : Contract Store Unit := do
  require (record.status = .active) "escrow not active"
  let now ← timestamp
  saveRecord identity queueId { record with status := outcome, releasedAt := some now }
  decrementTotal queueId record.amount
  emit kind queueId identity record.amount

/-- Asks for the signature of the `admin` it is given and compares it with nothing. -/
def release (admin identity : Address) (queueId : Symbol) : Contract Store Unit := do
  requireAuth admin
  settle .released "Released" identity queueId (← loadRecord identity queueId)

/-- As `release`, and it compares its `admin` with nothing either. -/
def refund (admin identity : Address) (queueId : Symbol) : Contract Store Unit := do
  requireAuth admin
  settle .refunded "Refunded" identity queueId (← loadRecord identity queueId)

/-- Anybody may call it, from `expires_at` on. -/
def expire (identity : Address) (queueId : Symbol) : Contract Store Unit := do
  let record ← loadRecord identity queueId
  require (¬ (← timestamp) < record.expiresAt) "not expired"
  settle .expired "Expired" identity queueId record

/-! ## Configuration -/

/-- Also here the caller is compared with no stored admin. -/
def setConfig (admin : Address) (config : EscrowConfig) : Contract Store Unit := do
  requireAuth admin
  require (¬ config.maxDeposit < config.minDeposit) "min_deposit_exceeds_max"
  require (config.holdPeriodDays ≠ 0) "hold_period_must_be_positive"
  save fun s => { s with configs := s.configs.insert config.queueId config }

/-- The stored config of a queue, or a default. -/
def getConfig (queueId : Symbol) : Contract Store EscrowConfig := do
  -- an unconfigured queue reports a default that `deposit` does not accept
  let admin ← currentContractAddress
  let stored ← load (·.configs.lookup queueId)
  return stored.getD { queueId, minDeposit := 0, maxDeposit := i128Max, holdPeriodDays := 30, admin }

/-! ## The contract -/

/-- The calls of the contract, with their arguments. -/
inductive Entrypoint
  | deposit (caller : Address) (queueId : Symbol) (amount : ℤ) (asset : Address)
  | release (admin identity : Address) (queueId : Symbol)
  | refund (admin identity : Address) (queueId : Symbol)
  | expire (identity : Address) (queueId : Symbol)
  | getRecord (identity : Address) (queueId : Symbol)
  | getConfig (queueId : Symbol)
  | setConfig (admin : Address) (config : EscrowConfig)
  | getTotalHeld (queueId : Symbol)

/-- What an entrypoint returns. -/
inductive Output
  | unit
  | record (record : Option EscrowRecord)
  | config (config : EscrowConfig)
  | amount (amount : ℤ)

/-- Runs one entrypoint. -/
def exec : Entrypoint → Contract Store Output
  | .deposit caller queueId amount asset => do deposit caller queueId amount asset; return .unit
  | .release admin identity queueId => do release admin identity queueId; return .unit
  | .refund admin identity queueId => do refund admin identity queueId; return .unit
  | .expire identity queueId => do expire identity queueId; return .unit
  | .getRecord identity queueId => do return .record (← load (·.records.lookup (queueId, identity)))
  | .getConfig queueId => do return .config (← getConfig queueId)
  | .setConfig admin config => do setConfig admin config; return .unit
  | .getTotalHeld queueId => do return .amount (← load (·.totalHeld queueId))

/-- The escrow contract. -/
def escrow : Transactional (Ledger Store) (Invocation Entrypoint) Output Panic := machine exec

end LineProof.Escrow
