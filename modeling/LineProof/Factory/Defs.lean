import Mathlib.Data.Finmap
import LineProof.Soroban.Contract

/-!
# The queue factory

Reference: `contracts/lineproof-queue-factory/src/lib.rs`.

Deploying a queue is a request to the host, which derives the address of the new contract from the
address of the deploying contract and a salt, and refuses an address that is taken
(`.patched/soroban-env-host/src/host/lifecycle.rs`). So a call of the factory runs on a `World`: its own
storage, and what the host knows of contracts and uploaded code.
-/

namespace LineProof.Factory

open Soroban

/-- What the registry has about a queue. -/
structure QueueMetadata where
  slug : Symbol
  name : Symbol
  owner : Address
  contractId : Address
  version : ℕ
  deployedAt : ℕ
  active : Bool
deriving DecidableEq

/-- The administrator and the range of versions. -/
structure FactoryConfig where
  admin : Address
  minVersion : ℕ
  maxVersion : ℕ
deriving DecidableEq

/-- The persistent storage: one field for each key. -/
structure Store where
  /-- `"config"` -/
  config : Option FactoryConfig
  /-- `"slug_idx"` -/
  slugIdx : Option (List Symbol)
  /-- `"approvals"` -/
  approvals : Option Bool
  /-- `("approved", version)` -/
  approved : Finmap fun _ : ℕ => Bytes32
  /-- `("queue", slug)` -/
  registry : Finmap fun _ : Symbol => QueueMetadata

/-- The storage of the factory, and the contracts and the code the host has. -/
structure World where
  storage : Store
  contracts : Finset Address
  uploaded : Finset Bytes32

/-- The ledger of a factory that has just been deployed, before it has deployed anything. -/
def fresh : Ledger World where
  store := ⟨⟨none, none, none, ∅, ∅⟩, ∅, ∅⟩
  events := []

/-! ## The host -/

/-- How the host derives the address of a new contract: `get_contract_id_hash`, a hash of the network,
the deploying address and the salt, without collisions. -/
structure Deployer where
  contractAddress : Address → Bytes32 → Address
  injective : ∀ deployer deployer' salt salt',
    contractAddress deployer salt = contractAddress deployer' salt' →
      deployer = deployer' ∧ salt = salt'

variable (host : Deployer)

/-- `create_contract_with_id`: first the address must be free, then the code must have been uploaded. What
the host does next with the new contract, `call_constructor`, is not part of it and is left out. -/
def createContract (contractId : Address) (wasmHash : Bytes32) : Contract World Unit := do
  require (contractId ∉ (← load (·.contracts))) "contract already exists"
  require (wasmHash ∈ (← load (·.uploaded))) "Wasm does not exist"
  save fun w => { w with contracts := insert contractId w.contracts }

/-- `env.deployer().with_current_contract(salt).deploy(wasm_hash)`, up to the constructor of the code: the
host's `call_constructor` (`lifecycle.rs:58-116`) is left out. It does nothing for code without a
constructor, as that of the queue contract; another constructor could make the deployment fail. -/
def deploy (salt wasmHash : Bytes32) : Contract World Address := do
  let contractId := host.contractAddress (← currentContractAddress) salt
  createContract contractId wasmHash
  return contractId

/-! ## Internal functions -/

/-- The topics and the data `emit` publishes. -/
def event (kind : String) (slug : Symbol) (contractId : Address) (version : ℕ) : Event where
  topics := [.symbol ⟨"lineproof_factory"⟩, .symbol ⟨kind⟩, .symbol slug]
  data := .tuple [.address contractId, .u32 version]

/-- Publishes one event; the timestamp is not part of it. -/
def emit (kind : String) (slug : Symbol) (contractId : Address) (version _timestamp : ℕ) :
    Contract World Unit :=
  publish (event kind slug contractId version).topics (event kind slug contractId version).data

/-- `require_admin`: the signature first, then the comparison with the stored admin. -/
def requireAdmin (admin : Address) : Contract World Unit := do
  requireAuth admin
  let config ← expect (← load (·.storage.config)) "not initialized"
  require (config.admin = admin) "unauthorized"

/-- `env.storage().persistent().get(&config_key).unwrap()`. -/
def unwrapConfig : Contract World FactoryConfig := do
  expect (← load (·.storage.config)) "called Option::unwrap() on a None value"

/-- Does the hash pass `validate_approved_hash`: the version has no approved hash, or this one. -/
def Store.validatesHash (s : Store) (version : ℕ) (wasmHash : Bytes32) : Bool :=
  match s.approved.lookup version with
  | some approvedHash => approvedHash = wasmHash
  | none => true

/-- The first of the two checks of a hash. -/
def validateApprovedHash (version : ℕ) (wasmHash : Bytes32) : Contract World Unit := do
  require ((← load (·.storage.validatesHash version wasmHash)) = true) "wasm hash not approved"

/-- Does the hash pass `require_approved_hash`: there are no approvals yet, or it is the approved one. -/
def Store.approvesHash (s : Store) (version : ℕ) (wasmHash : Bytes32) : Bool :=
  if s.approvals.getD false then s.approved.lookup version = some wasmHash else true

/-- The second of the two checks, which asks for an approval once there has been one. -/
def requireApprovedHash (version : ℕ) (wasmHash : Bytes32) : Contract World Unit := do
  require ((← load (·.storage.approvesHash version wasmHash)) = true) "WASM hash not approved"

/-- `unwrap` of the registry's entry, as an error. -/
def getQueueMeta (slug : Symbol) : Contract World QueueMetadata := do
  expect (← load (·.storage.registry.lookup slug)) "queue not found"

/-- Write an entry under `queue_registry_key`. -/
def saveQueue (slug : Symbol) (metadata : QueueMetadata) : Contract World Unit :=
  save fun w => { w with storage := { w.storage with
    registry := w.storage.registry.insert slug metadata } }

/-- Remove the entry under `queue_registry_key`. -/
def eraseQueue (slug : Symbol) : Contract World Unit :=
  save fun w => { w with storage := { w.storage with registry := w.storage.registry.erase slug } }

/-- Write the configuration under `"config"`. -/
def saveConfig (config : FactoryConfig) : Contract World Unit :=
  save fun w => { w with storage := { w.storage with config := some config } }

/-- Write the index under `"slug_idx"`. -/
def saveSlugs (slugs : List Symbol) : Contract World Unit :=
  save fun w => { w with storage := { w.storage with slugIdx := some slugs } }

/-- A missing index reads as empty. -/
def Store.listQueues (s : Store) : List Symbol := s.slugIdx.getD []

/-- Read, append, write back. -/
def appendSlug (slug : Symbol) : Contract World Unit := do
  saveSlugs ((← load (·.storage.listQueues)) ++ [slug])

/-- Keeps every other slug, in the same order. -/
def removeSlug (slug : Symbol) : Contract World Unit := do
  saveSlugs ((← load (·.storage.listQueues)).filter (· ≠ slug))

/-! ## Entrypoints -/

/-- `initialize`, whose name is a keyword here. -/
def initializeFactory (admin : Address) : Contract World Unit := do
  requireAuth admin
  require ((← load (·.storage.config)) = none) "already initialized"
  saveConfig { admin, minVersion := 1, maxVersion := 1 }
  saveSlugs []
  emit "Init" ⟨""⟩ (← currentContractAddress) 0 0

/-- Anybody may deploy; the version, the hash and the slug are checked before the host is asked. -/
def deployQueue (deployer : Address) (slug name : Symbol) (version : ℕ) (wasmHash : Bytes32) :
    Contract World Address := do
  requireAuth deployer
  let config ← unwrapConfig
  require (config.minVersion ≤ version ∧ version ≤ config.maxVersion) "version out of bounds"
  validateApprovedHash version wasmHash
  requireApprovedHash version wasmHash
  require ((← load (·.storage.registry.lookup slug)) = none) "queue with this slug already exists"
  -- the salt is the hash of the code once more (`lib.rs:118-121`)
  let contractId ← deploy host wasmHash wasmHash
  let deployedAt ← timestamp
  saveQueue slug { slug, name, owner := deployer, contractId, version, deployedAt, active := true }
  appendSlug slug
  emit "Deployed" slug contractId version deployedAt
  return contractId

/-- Enters a contract that somebody else deployed. -/
def registerQueue (admin : Address) (slug : Symbol) (contractId : Address) (version : ℕ) :
    Contract World Unit := do
  requireAdmin admin
  require ((← load (·.storage.registry.lookup slug)) = none) "queue already registered"
  let deployedAt ← timestamp
  saveQueue slug
    { slug, name := ⟨"imported"⟩, owner := admin, contractId, version, deployedAt, active := true }
  appendSlug slug
  emit "Registered" slug contractId version deployedAt

/-- Replaces the version's hash and puts the approvals in force. -/
def registerApprovedHash (admin : Address) (version : ℕ) (wasmHash : Bytes32) :
    Contract World Unit := do
  requireAdmin admin
  save fun w => { w with storage := { w.storage with
    approved := w.storage.approved.insert version wasmHash } }
  save fun w => { w with storage := { w.storage with approvals := some true } }

/-- `deactivate_queue` and `reactivate_queue`, which write the flag and name it in their event. -/
def setActive (admin : Address) (slug : Symbol) (active : Bool) (kind : String) :
    Contract World Unit := do
  requireAdmin admin
  let metadata ← getQueueMeta slug
  saveQueue slug { metadata with active }
  emit kind slug metadata.contractId metadata.version (← timestamp)

/-- Marks the queue, which stays in the registry. -/
def deactivateQueue (admin : Address) (slug : Symbol) : Contract World Unit :=
  setActive admin slug false "Deactivated"

/-- Takes the mark off again. -/
def reactivateQueue (admin : Address) (slug : Symbol) : Contract World Unit :=
  setActive admin slug true "Reactivated"

/-- Takes the queue out of the registry; its contract stays. -/
def destroyQueue (admin : Address) (slug : Symbol) : Contract World Unit := do
  requireAdmin admin
  let metadata ← getQueueMeta slug
  eraseQueue slug
  removeSlug slug
  emit "Destroyed" slug metadata.contractId metadata.version (← timestamp)

/-- Sets the range of versions and keeps the administrator. -/
def setConfig (admin : Address) (minVersion maxVersion : ℕ) : Contract World Unit := do
  requireAdmin admin
  let config ← unwrapConfig
  saveConfig { config with minVersion, maxVersion }

/-- Only the registry learns of the new version. -/
def upgradeQueue (admin : Address) (slug : Symbol) (newVersion : ℕ) (newWasmHash : Bytes32) :
    Contract World Unit := do
  requireAdmin admin
  let config ← unwrapConfig
  require (config.minVersion ≤ newVersion ∧ newVersion ≤ config.maxVersion) "version out of bounds"
  let metadata ← getQueueMeta slug
  require (metadata.version < newVersion) "version must increase"
  validateApprovedHash newVersion newWasmHash
  requireApprovedHash newVersion newWasmHash
  -- the queue replaces its own code; the factory only records the version
  saveQueue slug { metadata with version := newVersion }
  emit "Upgraded" slug metadata.contractId newVersion (← timestamp)

/-! ## Readers -/

/-- A queue that is registered and active. -/
def Store.verifyQueue (s : Store) (slug : Symbol) : Bool :=
  match s.registry.lookup slug with
  | some metadata => metadata.active
  | none => false

/-- The length of the index. -/
def Store.queueCount (s : Store) : ℕ := s.listQueues.length

/-! ## The contract -/

/-- The calls of the contract, with their arguments. -/
inductive Entrypoint
  | initializeFactory (admin : Address)
  | deployQueue (deployer : Address) (slug name : Symbol) (version : ℕ) (wasmHash : Bytes32)
  | registerQueue (admin : Address) (slug : Symbol) (contractId : Address) (version : ℕ)
  | registerApprovedHash (admin : Address) (version : ℕ) (wasmHash : Bytes32)
  | deactivateQueue (admin : Address) (slug : Symbol)
  | reactivateQueue (admin : Address) (slug : Symbol)
  | destroyQueue (admin : Address) (slug : Symbol)
  | setConfig (admin : Address) (minVersion maxVersion : ℕ)
  | getQueue (slug : Symbol)
  | listQueues
  | verifyQueue (slug : Symbol)
  | upgradeQueue (admin : Address) (slug : Symbol) (newVersion : ℕ) (newWasmHash : Bytes32)
  | queueCount

/-- What an entrypoint returns. -/
inductive Output
  | unit
  | address (a : Address)
  | queue (metadata : Option QueueMetadata)
  | slugs (slugs : List Symbol)
  | flag (b : Bool)
  | number (n : ℕ)

/-- Runs one entrypoint. -/
def exec : Entrypoint → Contract World Output
  | .initializeFactory admin => do initializeFactory admin; return .unit
  | .deployQueue deployer slug name version wasmHash => do
    return .address (← deployQueue host deployer slug name version wasmHash)
  | .registerQueue admin slug contractId version => do
    registerQueue admin slug contractId version; return .unit
  | .registerApprovedHash admin version wasmHash => do
    registerApprovedHash admin version wasmHash; return .unit
  | .deactivateQueue admin slug => do deactivateQueue admin slug; return .unit
  | .reactivateQueue admin slug => do reactivateQueue admin slug; return .unit
  | .destroyQueue admin slug => do destroyQueue admin slug; return .unit
  | .setConfig admin minVersion maxVersion => do setConfig admin minVersion maxVersion; return .unit
  | .getQueue slug => do return .queue (← load (·.storage.registry.lookup slug))
  | .listQueues => do return .slugs (← load (·.storage.listQueues))
  | .verifyQueue slug => do return .flag (← load (·.storage.verifyQueue slug))
  | .upgradeQueue admin slug newVersion newWasmHash => do
    upgradeQueue admin slug newVersion newWasmHash; return .unit
  | .queueCount => do return .number (← load (·.storage.queueCount))

/-- A transaction that concerns the factory: a call of it, an upload of code, or the creation of a
contract from another address. -/
inductive Step
  | invoke (timestamp : ℕ) (authorizers : List Address) (e : Entrypoint)
  | upload (wasmHash : Bytes32)
  | create (deployer : Address) (salt wasmHash : Bytes32)

/-- The environment of a call of the factory at the address `factoryId`. -/
abbrev envOf (factoryId : Address) (timestamp : ℕ) (authorizers : List Address) : Env :=
  ⟨timestamp, authorizers, factoryId⟩

/-- A call of the factory, or one of the two other things that happen to the world it sees. -/
def execStep (factoryId : Address) : Step → Ledger World → Except Panic (Output × Ledger World)
  | .invoke timestamp authorizers e, l => exec host e (envOf factoryId timestamp authorizers) l
  | .upload wasmHash, l =>
    .ok (.unit, { l with store := { l.store with uploaded := insert wasmHash l.store.uploaded } })
  | .create deployer salt wasmHash, l =>
    -- only the factory itself deploys from its own address
    if deployer = factoryId then .error (.unauthorized factoryId)
    else (do createContract (host.contractAddress deployer salt) wasmHash; return .unit
      : Contract World Output) (envOf deployer 0 []) l

/-- The factory at the address `factoryId`, among the other contracts of the network. -/
def factory (factoryId : Address) : Transactional (Ledger World) Step Output Panic where
  exec := execStep host factoryId

end LineProof.Factory
