import LineProof.Factory.Defs

/-!
# What each entrypoint of the factory does

One equivalence for each entrypoint, and `Effect` with `effect_of_exec` as for the other contracts.
-/

namespace LineProof.Factory

open Soroban

/-- `admin` is the stored administrator and authorized the call. -/
structure AdminCall (w : World) (env : Env) (admin : Address) (c : FactoryConfig) : Prop where
  config : w.storage.config = some c
  isAdmin : c.admin = admin
  auth : admin ∈ env.authorizers

/-- The version and the hash pass the bounds and the approvals. -/
structure Gate (w : World) (c : FactoryConfig) (version : ℕ) (wasmHash : Bytes32) : Prop where
  min_le : c.minVersion ≤ version
  le_max : version ≤ c.maxVersion
  validates : w.storage.validatesHash version wasmHash = true
  approves : w.storage.approvesHash version wasmHash = true

variable {host : Deployer} {env : Env} {l : Ledger World} {w : World} {admin : Address}
  {slug name : Symbol} {version : ℕ} {wasmHash : Bytes32} {c : FactoryConfig}

@[simp] theorem emit_eq_ok {kind : String} {contractId : Address} {now : ℕ} {r : Unit × Ledger World} :
    emit kind slug contractId version now env l = .ok r ↔
      ((), { l with events := l.events ++ [event kind slug contractId version] }) = r :=
  publish_eq_ok

/-- The administrator signs and is the one that the config names. -/
theorem adminCall_iff : AdminCall w env admin c ↔
    w.storage.config = some c ∧ c.admin = admin ∧ admin ∈ env.authorizers :=
  ⟨fun h => ⟨h.config, h.isAdmin, h.auth⟩, fun h => ⟨h.1, h.2.1, h.2.2⟩⟩

/-- The version is in range and both checks of the hash pass. -/
theorem gate_iff : Gate w c version wasmHash ↔
    (c.minVersion ≤ version ∧ version ≤ c.maxVersion) ∧
      w.storage.validatesHash version wasmHash = true ∧
      w.storage.approvesHash version wasmHash = true :=
  ⟨fun h => ⟨⟨h.min_le, h.le_max⟩, h.validates, h.approves⟩, fun h => ⟨h.1.1, h.1.2, h.2.1, h.2.2⟩⟩

/-- The check passes for the stored administrator, and changes nothing. -/
@[simp] theorem requireAdmin_eq_ok {r : Unit × Ledger World} :
    requireAdmin admin env l = .ok r ↔ (∃ c, AdminCall l.store env admin c) ∧ ((), l) = r := by
  simp [requireAdmin, adminCall_iff]
  grind

@[simp] theorem unwrapConfig_eq_ok {r : FactoryConfig × Ledger World} :
    unwrapConfig env l = .ok r ↔ ∃ c, l.store.storage.config = some c ∧ (c, l) = r := by
  simp [unwrapConfig]

@[simp] theorem getQueueMeta_eq_ok {r : QueueMetadata × Ledger World} :
    getQueueMeta slug env l = .ok r ↔
      ∃ metadata, l.store.storage.registry.lookup slug = some metadata ∧ (metadata, l) = r := by
  simp [getQueueMeta]

@[simp] theorem validateApprovedHash_eq_ok {r : Unit × Ledger World} :
    validateApprovedHash version wasmHash env l = .ok r ↔
      l.store.storage.validatesHash version wasmHash = true ∧ ((), l) = r := by
  simp [validateApprovedHash]

@[simp] theorem requireApprovedHash_eq_ok {r : Unit × Ledger World} :
    requireApprovedHash version wasmHash env l = .ok r ↔
      l.store.storage.approvesHash version wasmHash = true ∧ ((), l) = r := by
  simp [requireApprovedHash]

/-! ## Storage updates -/

/-- The world with a new entry of the registry. -/
def World.setQueue (w : World) (slug : Symbol) (metadata : QueueMetadata) : World :=
  { w with storage := { w.storage with registry := w.storage.registry.insert slug metadata } }

/-- The world without an entry of the registry. -/
def World.eraseQueue (w : World) (slug : Symbol) : World :=
  { w with storage := { w.storage with registry := w.storage.registry.erase slug } }

/-- The world with a new slug index. -/
def World.setSlugs (w : World) (slugs : List Symbol) : World :=
  { w with storage := { w.storage with slugIdx := some slugs } }

/-- The world with a new configuration. -/
def World.setConfig (w : World) (c : FactoryConfig) : World :=
  { w with storage := { w.storage with config := some c } }

/-- The world with another contract. -/
def World.addContract (w : World) (contractId : Address) : World :=
  { w with contracts := insert contractId w.contracts }

/-- The world with an approved hash. -/
def World.approve (w : World) (version : ℕ) (wasmHash : Bytes32) : World :=
  { w with storage := { w.storage with
    approved := w.storage.approved.insert version wasmHash
    approvals := some true } }

@[simp] theorem setQueue_listQueues (w : World) (slug : Symbol) (metadata : QueueMetadata) :
    (w.setQueue slug metadata).storage.listQueues = w.storage.listQueues := rfl

@[simp] theorem eraseQueue_listQueues (w : World) (slug : Symbol) :
    (w.eraseQueue slug).storage.listQueues = w.storage.listQueues := rfl

@[simp] theorem addContract_listQueues (w : World) (contractId : Address) :
    (w.addContract contractId).storage.listQueues = w.storage.listQueues := rfl

@[simp] theorem saveQueue_eq_ok {metadata : QueueMetadata} {r : Unit × Ledger World} :
    saveQueue slug metadata env l = .ok r ↔ ((), ⟨l.store.setQueue slug metadata, l.events⟩) = r :=
  save_eq_ok

@[simp] theorem eraseQueue_eq_ok {r : Unit × Ledger World} :
    eraseQueue slug env l = .ok r ↔ ((), ⟨l.store.eraseQueue slug, l.events⟩) = r :=
  save_eq_ok

@[simp] theorem saveConfig_eq_ok {r : Unit × Ledger World} :
    saveConfig c env l = .ok r ↔ ((), ⟨l.store.setConfig c, l.events⟩) = r :=
  save_eq_ok

@[simp] theorem saveSlugs_eq_ok {slugs : List Symbol} {r : Unit × Ledger World} :
    saveSlugs slugs env l = .ok r ↔ ((), ⟨l.store.setSlugs slugs, l.events⟩) = r :=
  save_eq_ok

@[simp] theorem appendSlug_eq_ok {r : Unit × Ledger World} :
    appendSlug slug env l = .ok r ↔
      ((), ⟨l.store.setSlugs (l.store.storage.listQueues ++ [slug]), l.events⟩) = r := by
  simp [appendSlug]

@[simp] theorem removeSlug_eq_ok {r : Unit × Ledger World} :
    removeSlug slug env l = .ok r ↔
      ((), ⟨l.store.setSlugs (l.store.storage.listQueues.filter (· ≠ slug)), l.events⟩) = r := by
  simp [removeSlug]

/-- A contract is created at a free address, of code that was uploaded. -/
@[simp] theorem createContract_eq_ok {contractId : Address} {r : Unit × Ledger World} :
    createContract contractId wasmHash env l = .ok r ↔
      contractId ∉ l.store.contracts ∧ wasmHash ∈ l.store.uploaded ∧
        ((), ⟨l.store.addContract contractId, l.events⟩) = r := by
  simp [createContract, World.addContract]

/-- A deployment creates a contract at the address that the salt determines. -/
@[simp] theorem deploy_eq_ok {salt : Bytes32} {r : Address × Ledger World} :
    deploy host salt wasmHash env l = .ok r ↔
      host.contractAddress env.currentContract salt ∉ l.store.contracts ∧
        wasmHash ∈ l.store.uploaded ∧
        (host.contractAddress env.currentContract salt,
          ⟨l.store.addContract (host.contractAddress env.currentContract salt), l.events⟩) = r := by
  simp [deploy, and_assoc]

/-! ## Entrypoints -/

/-- The world with a new queue: registered, and at the end of the index. -/
def World.addQueue (w : World) (metadata : QueueMetadata) : World :=
  (w.setQueue metadata.slug metadata).setSlugs (w.storage.listQueues ++ [metadata.slug])

/-- The world without the queue `slug`. -/
def World.removeQueue (w : World) (slug : Symbol) : World :=
  (w.eraseQueue slug).setSlugs (w.storage.listQueues.filter (· ≠ slug))

/-- Whoever initializes first becomes the administrator. -/
theorem initializeFactory_eq_ok {r : Unit × Ledger World} :
    initializeFactory admin env l = .ok r ↔
      admin ∈ env.authorizers ∧ l.store.storage.config = none ∧
        r = ((), ⟨(l.store.setConfig ⟨admin, 1, 1⟩).setSlugs [],
          l.events ++ [event "Init" ⟨""⟩ env.currentContract 0]⟩) := by
  simp [initializeFactory, eq_comm (a := r)]

/-- The entry of a queue deployed by `owner`. -/
def deployedQueue (owner : Address) (slug name : Symbol) (contractId : Address) (version now : ℕ) :
    QueueMetadata where
  slug := slug
  name := name
  owner := owner
  contractId := contractId
  version := version
  deployedAt := now
  active := true

/-- A deployment passes the gate with a free slug, and enters the new contract. -/
theorem deployQueue_eq_ok {deployer : Address} {r : Address × Ledger World} :
    deployQueue host deployer slug name version wasmHash env l = .ok r ↔
      deployer ∈ env.authorizers ∧ ∃ c, l.store.storage.config = some c ∧
      Gate l.store c version wasmHash ∧ l.store.storage.registry.lookup slug = none ∧
      host.contractAddress env.currentContract wasmHash ∉ l.store.contracts ∧
      wasmHash ∈ l.store.uploaded ∧
      r = (host.contractAddress env.currentContract wasmHash,
        ⟨(l.store.addContract (host.contractAddress env.currentContract wasmHash)).addQueue
            (deployedQueue deployer slug name
              (host.contractAddress env.currentContract wasmHash) version env.timestamp),
          l.events ++ [event "Deployed" slug
            (host.contractAddress env.currentContract wasmHash) version]⟩) := by
  simp [deployQueue, gate_iff, World.addQueue, deployedQueue, eq_comm (a := r), and_assoc]

/-- The administrator enters a contract under a free slug. -/
theorem registerQueue_eq_ok {contractId : Address} {r : Unit × Ledger World} :
    registerQueue admin slug contractId version env l = .ok r ↔
      (∃ c, AdminCall l.store env admin c) ∧ l.store.storage.registry.lookup slug = none ∧
        r = ((), ⟨l.store.addQueue
            (deployedQueue admin slug ⟨"imported"⟩ contractId version env.timestamp),
          l.events ++ [event "Registered" slug contractId version]⟩) := by
  simp [registerQueue, World.addQueue, deployedQueue, eq_comm (a := r)]

/-- The administrator approves a hash for a version. -/
theorem registerApprovedHash_eq_ok {r : Unit × Ledger World} :
    registerApprovedHash admin version wasmHash env l = .ok r ↔
      (∃ c, AdminCall l.store env admin c) ∧
        r = ((), ⟨l.store.approve version wasmHash, l.events⟩) := by
  simp [registerApprovedHash, World.approve, eq_comm (a := r)]

/-- The administrator marks a registered queue. -/
theorem setActive_eq_ok {active : Bool} {kind : String} {r : Unit × Ledger World} :
    setActive admin slug active kind env l = .ok r ↔
      (∃ c, AdminCall l.store env admin c) ∧
        ∃ metadata, l.store.storage.registry.lookup slug = some metadata ∧
          r = ((), ⟨l.store.setQueue slug { metadata with active },
            l.events ++ [event kind slug metadata.contractId metadata.version]⟩) := by
  simp [setActive, eq_comm (a := r)]

/-- The administrator takes a registered queue out. -/
theorem destroyQueue_eq_ok {r : Unit × Ledger World} :
    destroyQueue admin slug env l = .ok r ↔
      (∃ c, AdminCall l.store env admin c) ∧
        ∃ metadata, l.store.storage.registry.lookup slug = some metadata ∧
          r = ((), ⟨l.store.removeQueue slug,
            l.events ++ [event "Destroyed" slug metadata.contractId metadata.version]⟩) := by
  simp [destroyQueue, World.removeQueue, eq_comm (a := r)]

/-- The administrator sets the range of versions. -/
theorem setConfig_eq_ok {minVersion maxVersion : ℕ} {r : Unit × Ledger World} :
    setConfig admin minVersion maxVersion env l = .ok r ↔
      ∃ c, AdminCall l.store env admin c ∧
        r = ((), ⟨l.store.setConfig { c with minVersion, maxVersion }, l.events⟩) := by
  simp [setConfig, eq_comm (a := r), adminCall_iff]
  grind

/-- The administrator records a version that passes the gate. -/
theorem upgradeQueue_eq_ok {newVersion : ℕ} {newWasmHash : Bytes32} {r : Unit × Ledger World} :
    upgradeQueue admin slug newVersion newWasmHash env l = .ok r ↔
      ∃ c, AdminCall l.store env admin c ∧ Gate l.store c newVersion newWasmHash ∧
        ∃ metadata, l.store.storage.registry.lookup slug = some metadata ∧
          metadata.version < newVersion ∧
          r = ((), ⟨l.store.setQueue slug { metadata with version := newVersion },
            l.events ++ [event "Upgraded" slug metadata.contractId newVersion]⟩) := by
  simp [upgradeQueue, adminCall_iff, gate_iff, eq_comm (a := r)]
  grind

/-! ## The kinds of change -/

/-- The entrypoints that only read. -/
def Entrypoint.IsReader : Entrypoint → Prop
  | .getQueue _ | .listQueues | .verifyQueue _ | .queueCount => True
  | _ => False

/-- What a successful call of an entrypoint returns, leaves behind and publishes. -/
inductive Effect (host : Deployer) (env : Env) (w : World) :
    Entrypoint → Output → World → List Event → Prop
  | read {e : Entrypoint} {o : Output} (reader : e.IsReader) : Effect host env w e o w []
  | init {admin : Address} (auth : admin ∈ env.authorizers) (new : w.storage.config = none) :
    Effect host env w (.initializeFactory admin) .unit ((w.setConfig ⟨admin, 1, 1⟩).setSlugs [])
      [event "Init" ⟨""⟩ env.currentContract 0]
  | deploy {deployer : Address} {slug name : Symbol} {version : ℕ} {wasmHash : Bytes32}
      {contractId : Address} {c : FactoryConfig} (auth : deployer ∈ env.authorizers)
      (config : w.storage.config = some c) (gate : Gate w c version wasmHash)
      (absent : w.storage.registry.lookup slug = none)
      (address : contractId = host.contractAddress env.currentContract wasmHash)
      (free : contractId ∉ w.contracts) (uploaded : wasmHash ∈ w.uploaded) :
    Effect host env w (.deployQueue deployer slug name version wasmHash) (.address contractId)
      ((w.addContract contractId).addQueue
        (deployedQueue deployer slug name contractId version env.timestamp))
      [event "Deployed" slug contractId version]
  | register {admin : Address} {slug : Symbol} {contractId : Address} {version : ℕ}
      {c : FactoryConfig} (call : AdminCall w env admin c)
      (absent : w.storage.registry.lookup slug = none) :
    Effect host env w (.registerQueue admin slug contractId version) .unit
      (w.addQueue (deployedQueue admin slug ⟨"imported"⟩ contractId version env.timestamp))
      [event "Registered" slug contractId version]
  | approve {admin : Address} {version : ℕ} {wasmHash : Bytes32} {c : FactoryConfig}
      (call : AdminCall w env admin c) :
    Effect host env w (.registerApprovedHash admin version wasmHash) .unit
      (w.approve version wasmHash) []
  | deactivate {admin : Address} {slug : Symbol} {metadata : QueueMetadata} {c : FactoryConfig}
      (call : AdminCall w env admin c) (stored : w.storage.registry.lookup slug = some metadata) :
    Effect host env w (.deactivateQueue admin slug) .unit
      (w.setQueue slug { metadata with active := false })
      [event "Deactivated" slug metadata.contractId metadata.version]
  | reactivate {admin : Address} {slug : Symbol} {metadata : QueueMetadata} {c : FactoryConfig}
      (call : AdminCall w env admin c) (stored : w.storage.registry.lookup slug = some metadata) :
    Effect host env w (.reactivateQueue admin slug) .unit
      (w.setQueue slug { metadata with active := true })
      [event "Reactivated" slug metadata.contractId metadata.version]
  | destroy {admin : Address} {slug : Symbol} {metadata : QueueMetadata} {c : FactoryConfig}
      (call : AdminCall w env admin c) (stored : w.storage.registry.lookup slug = some metadata) :
    Effect host env w (.destroyQueue admin slug) .unit (w.removeQueue slug)
      [event "Destroyed" slug metadata.contractId metadata.version]
  | config {admin : Address} {minVersion maxVersion : ℕ} {c : FactoryConfig}
      (call : AdminCall w env admin c) :
    Effect host env w (.setConfig admin minVersion maxVersion) .unit
      (w.setConfig { c with minVersion, maxVersion }) []
  | upgrade {admin : Address} {slug : Symbol} {newVersion : ℕ} {newWasmHash : Bytes32}
      {metadata : QueueMetadata} {c : FactoryConfig} (call : AdminCall w env admin c)
      (gate : Gate w c newVersion newWasmHash)
      (stored : w.storage.registry.lookup slug = some metadata) (lt : metadata.version < newVersion) :
    Effect host env w (.upgradeQueue admin slug newVersion newWasmHash) .unit
      (w.setQueue slug { metadata with version := newVersion })
      [event "Upgraded" slug metadata.contractId newVersion]

/-- Every successful call has one of the effects above. -/
theorem effect_of_exec {e : Entrypoint} {o : Output} {l' : Ledger World}
    (h : exec host e env l = .ok (o, l')) :
    ∃ published, l'.events = l.events ++ published ∧
      Effect host env l.store e o l'.store published := by
  cases e with
  | initializeFactory admin =>
    simp only [exec, bind_eq_ok, initializeFactory_eq_ok, pure_eq_ok] at h
    obtain ⟨_, _, ⟨auth, new, ⟨⟩⟩, ⟨⟩⟩ := h
    exact ⟨_, rfl, .init auth new⟩
  | deployQueue deployer slug name version wasmHash =>
    simp only [exec, bind_eq_ok, deployQueue_eq_ok, pure_eq_ok] at h
    obtain ⟨_, _, ⟨auth, c, hc, gate, absent, free, uploaded, ⟨⟩⟩, ⟨⟩⟩ := h
    exact ⟨_, rfl, .deploy auth hc gate absent rfl free uploaded⟩
  | registerQueue admin slug contractId version =>
    simp only [exec, bind_eq_ok, registerQueue_eq_ok, pure_eq_ok] at h
    obtain ⟨_, _, ⟨⟨c, hc⟩, absent, ⟨⟩⟩, ⟨⟩⟩ := h
    exact ⟨_, rfl, .register hc absent⟩
  | registerApprovedHash admin version wasmHash =>
    simp only [exec, bind_eq_ok, registerApprovedHash_eq_ok, pure_eq_ok] at h
    obtain ⟨_, _, ⟨⟨c, hc⟩, ⟨⟩⟩, ⟨⟩⟩ := h
    exact ⟨[], (List.append_nil _).symm, .approve hc⟩
  | deactivateQueue admin slug =>
    simp only [exec, deactivateQueue, bind_eq_ok, setActive_eq_ok, pure_eq_ok] at h
    obtain ⟨_, _, ⟨⟨c, hc⟩, metadata, stored, ⟨⟩⟩, ⟨⟩⟩ := h
    exact ⟨_, rfl, .deactivate hc stored⟩
  | reactivateQueue admin slug =>
    simp only [exec, reactivateQueue, bind_eq_ok, setActive_eq_ok, pure_eq_ok] at h
    obtain ⟨_, _, ⟨⟨c, hc⟩, metadata, stored, ⟨⟩⟩, ⟨⟩⟩ := h
    exact ⟨_, rfl, .reactivate hc stored⟩
  | destroyQueue admin slug =>
    simp only [exec, bind_eq_ok, destroyQueue_eq_ok, pure_eq_ok] at h
    obtain ⟨_, _, ⟨⟨c, hc⟩, metadata, stored, ⟨⟩⟩, ⟨⟩⟩ := h
    exact ⟨_, rfl, .destroy hc stored⟩
  | setConfig admin minVersion maxVersion =>
    simp only [exec, bind_eq_ok, setConfig_eq_ok, pure_eq_ok] at h
    obtain ⟨_, _, ⟨c, hc, ⟨⟩⟩, ⟨⟩⟩ := h
    exact ⟨[], (List.append_nil _).symm, .config hc⟩
  | upgradeQueue admin slug newVersion newWasmHash =>
    simp only [exec, bind_eq_ok, upgradeQueue_eq_ok, pure_eq_ok] at h
    obtain ⟨_, _, ⟨c, hc, gate, metadata, stored, lt, ⟨⟩⟩, ⟨⟩⟩ := h
    exact ⟨_, rfl, .upgrade hc gate stored lt⟩
  | getQueue | listQueues | verifyQueue | queueCount =>
    simp only [exec, bind_eq_ok, load_eq_ok, pure_eq_ok] at h
    obtain ⟨_, _, ⟨⟩, ⟨⟩⟩ := h
    exact ⟨[], (List.append_nil _).symm, .read trivial⟩

/-- Who creates a contract outside the factory has another address, and leaves the factory alone. -/
theorem of_create {factoryId deployer : Address} {salt : Bytes32} {o : Output} {l' : Ledger World}
    (h : execStep host factoryId (.create deployer salt wasmHash) l = .ok (o, l')) :
    deployer ≠ factoryId ∧ l'.store.storage = l.store.storage ∧
      l'.store.contracts = insert (host.contractAddress deployer salt) l.store.contracts ∧
      l'.events = l.events := by
  rw [execStep] at h
  split at h
  · contradiction
  · case _ hforeign =>
    obtain ⟨_, hcreate, -⟩ := bind_pure_eq_ok.mp h
    obtain ⟨-, -, hpost⟩ := createContract_eq_ok.mp hcreate
    obtain ⟨-, rfl⟩ := Prod.mk.inj hpost
    exact ⟨hforeign, rfl, rfl, rfl⟩

/-- A commit is a call of the factory, or leaves its storage and its events alone. -/
theorem effect_of_commit {factoryId : Address} (c : (factory host factoryId).Commit) :
    (∃ timestamp authorizers e published, c.call = .invoke timestamp authorizers e ∧
      c.post.events = c.pre.events ++ published ∧
      Effect host (envOf factoryId timestamp authorizers) c.pre.store e c.out c.post.store published) ∨
    ((∀ timestamp authorizers e, c.call ≠ .invoke timestamp authorizers e) ∧
      c.post.store.storage = c.pre.store.storage ∧ c.post.events = c.pre.events) := by
  obtain ⟨pre, call, out, post, ok⟩ := c
  cases call with
  | invoke timestamp authorizers e =>
    obtain ⟨published, hevents, eff⟩ := effect_of_exec ok
    exact .inl ⟨timestamp, authorizers, e, published, rfl, hevents, eff⟩
  | upload wasmHash =>
    obtain ⟨-, rfl⟩ := Prod.mk.inj (Except.ok.inj ok)
    exact .inr ⟨nofun, rfl, rfl⟩
  | create deployer salt wasmHash =>
    obtain ⟨-, hstore, -, hevents⟩ := of_create ok
    exact .inr ⟨nofun, hstore, hevents⟩

end LineProof.Factory
