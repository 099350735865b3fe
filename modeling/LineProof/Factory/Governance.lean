import LineProof.Factory.Registry

/-!
# The rules of the factory

Two helpers check the code of a queue, and a flag turns the second of them on. Together they are one rule
about the past: once any hash has been approved, a version takes only the hash approved for it last
(`Approved.gate`). An entry keeps what it was created with until it is destroyed, upgrades raise its version
(`kept_run`), and whatever else happens to the registry is signed by the administrator of the first
`initialize` (`Effect.registryChange`). `factory_governance` states all of this of every run.
-/

namespace LineProof.Factory

open Soroban

/-! ## Reading a step -/

/-- The version and the hash a step approves. -/
def Step.approval : Step → Option (ℕ × Bytes32)
  | .invoke _ _ (.registerApprovedHash _ version wasmHash) => some (version, wasmHash)
  | _ => none

/-- The hash a step approves for a version. -/
def Step.approvedFor (version : ℕ) (step : Step) : Option Bytes32 :=
  match step.approval with
  | some a => if a.1 = version then some a.2 else none
  | none => none

/-- The version and the hash a step deploys, or upgrades to. -/
def Step.installation : Step → Option (ℕ × Bytes32)
  | .invoke _ _ (.deployQueue _ _ _ version wasmHash) => some (version, wasmHash)
  | .invoke _ _ (.upgradeQueue _ _ newVersion newWasmHash) => some (newVersion, newWasmHash)
  | _ => none

/-- The administrator a step initializes the factory with. -/
def Step.initializer : Step → Option Address
  | .invoke _ _ (.initializeFactory admin) => some admin
  | _ => none

/-- The queue a step upgrades. -/
def Step.upgraded : Step → Option Symbol
  | .invoke _ _ (.upgradeQueue _ slug _ _) => some slug
  | _ => none

/-- The queue a step destroys. -/
def Step.destroyed : Step → Option Symbol
  | .invoke _ _ (.destroyQueue _ slug) => some slug
  | _ => none

/-- Who signs the step. -/
def Step.authorizers : Step → List Address
  | .invoke _ authorizers _ => authorizers
  | _ => []

variable {host : Deployer} {factoryId : Address}

/-! ## Reading the past -/

/-- The approvals so far. -/
def approvals (past : List (factory host factoryId).Commit) : List (ℕ × Bytes32) :=
  past.filterMap fun c => c.call.approval

/-- The hash approved last for a version. -/
def lastApproved (past : List (factory host factoryId).Commit) (version : ℕ) : Option Bytes32 :=
  Transactional.latest (fun c => c.call.approvedFor version) past

/-- The administrator of the first `initialize`. -/
def founder (past : List (factory host factoryId).Commit) : Option Address :=
  (past.filterMap fun c => c.call.initializer).head?

/-- The number of upgrades of a queue. -/
def upgrades (slug : Symbol) (past : List (factory host factoryId).Commit) : ℕ :=
  past.countP fun c => c.call.upgraded = some slug

/-! ## The rules -/

/-- The version is within the stored bounds, and if anything has been approved, then for this version it
was this hash last. -/
structure InstallsApproved (past : List (factory host factoryId).Commit) (s : Store) (version : ℕ)
    (wasmHash : Bytes32) : Prop where
  bounds : ∃ config, s.config = some config ∧ config.minVersion ≤ version ∧
    version ≤ config.maxVersion
  approved : approvals past ≠ [] → lastApproved past version = some wasmHash

/-- `new` is what `old` has become after `n` upgrades. -/
structure SameQueue (old new : QueueMetadata) (n : ℕ) : Prop where
  contractId : new.contractId = old.contractId
  owner : new.owner = old.owner
  name : new.name = old.name
  deployedAt : new.deployedAt = old.deployedAt
  version_le : old.version + n ≤ new.version
  version_eq : n = 0 → new.version = old.version

/-- How a step changes the registry: not at all, by a new active queue of its deployer, or with the signature
of `admin`. -/
inductive RegistryChange (admin : Option Address) (c : (factory host factoryId).Commit) : Prop
  | none (same : c.post.store.storage.registry = c.pre.store.storage.registry)
  | deployed (timestamp : ℕ) (authorizers : List Address) (deployer : Address) (slug name : Symbol)
    (version : ℕ) (wasmHash : Bytes32) (metadata : QueueMetadata)
    (call : c.call = .invoke timestamp authorizers (.deployQueue deployer slug name version wasmHash))
    (auth : deployer ∈ authorizers) (owner : metadata.owner = deployer)
    (active : metadata.active = true)
    (absent : c.pre.store.storage.registry.lookup slug = Option.none)
    (added : c.post.store.storage.registry = c.pre.store.storage.registry.insert slug metadata)
  | admin (a : Address) (stored : admin = some a) (auth : a ∈ c.call.authorizers)

variable (host factoryId) in
/-- The rules of the factory in a run. -/
structure Governed (steps : List Step) : Prop where
  /-- Deployments and upgrades install approved code. -/
  gate : ∀ past c future, (factory host factoryId).history fresh steps = past ++ c :: future →
    ∀ version wasmHash, c.call.installation = some (version, wasmHash) →
      InstallsApproved past c.pre.store.storage version wasmHash
  /-- As long as nothing has been approved, any hash passes. -/
  ungated : approvals ((factory host factoryId).history fresh steps) = [] → ∀ version wasmHash env,
    Succeeds (validateApprovedHash version wasmHash) env ((factory host factoryId).run fresh steps) ∧
      Succeeds (requireApprovedHash version wasmHash) env ((factory host factoryId).run fresh steps)
  /-- Then a deployment needs of its hash only that such code was uploaded. -/
  ungatedDeploy : approvals ((factory host factoryId).history fresh steps) = [] →
    ∀ env deployer slug name version wasmHash,
      let w := ((factory host factoryId).run fresh steps).store
      Succeeds (deployQueue host deployer slug name version wasmHash) env
          ((factory host factoryId).run fresh steps) ↔
        deployer ∈ env.authorizers ∧
          (∃ config, w.storage.config = some config ∧ config.minVersion ≤ version ∧
            version ≤ config.maxVersion) ∧
          w.storage.registry.lookup slug = none ∧
          host.contractAddress env.currentContract wasmHash ∉ w.contracts ∧ wasmHash ∈ w.uploaded
  /-- Then an upgrade needs nothing of its hash. -/
  ungatedUpgrade : approvals ((factory host factoryId).history fresh steps) = [] →
    ∀ env admin slug newVersion newWasmHash,
      let w := ((factory host factoryId).run fresh steps).store
      Succeeds (upgradeQueue admin slug newVersion newWasmHash) env
          ((factory host factoryId).run fresh steps) ↔
        (∃ config, AdminCall w env admin config ∧ config.minVersion ≤ newVersion ∧
          newVersion ≤ config.maxVersion) ∧
          ∃ metadata, w.storage.registry.lookup slug = some metadata ∧ metadata.version < newVersion
  /-- A queue that is not destroyed keeps its entry up to its version. -/
  entry : ∀ before after, steps = before ++ after → ∀ slug old,
    ((factory host factoryId).run fresh before).store.storage.registry.lookup slug = some old →
    (∀ c ∈ (factory host factoryId).history ((factory host factoryId).run fresh before) after,
      c.call.destroyed ≠ some slug) →
    ∃ new, ((factory host factoryId).run fresh steps).store.storage.registry.lookup slug = some new ∧
      SameQueue old new
        (upgrades slug ((factory host factoryId).history ((factory host factoryId).run fresh before) after))
  /-- The administrator signs what is not a deployment. -/
  registry : ∀ past c future, (factory host factoryId).history fresh steps = past ++ c :: future →
    RegistryChange (founder past) c
  /-- The administrator is the one of the first `initialize`. -/
  admin : ((factory host factoryId).run fresh steps).store.storage.config.map (·.admin) =
    founder ((factory host factoryId).history fresh steps)

variable {env : Env} {w w' : World} {e : Entrypoint} {o : Output} {events : List Event}
  {past : List (factory host factoryId).Commit} {c : (factory host factoryId).Commit} {s : Store}

/-! ## The gate -/

/-- A commit appends its approval, if it is one. -/
theorem approvals_concat (past : List (factory host factoryId).Commit)
    (c : (factory host factoryId).Commit) :
    approvals (past ++ [c]) = approvals past ++ c.call.approval.toList := by
  rw [approvals, List.filterMap_append, approvals]
  cases h : c.call.approval <;> simp [h]

/-- The storage knows the approvals so far. -/
structure Approved (past : List (factory host factoryId).Commit) (s : Store) : Prop where
  lookup : ∀ version, s.approved.lookup version = lastApproved past version
  enabled : s.approvals.getD false = true ↔ approvals past ≠ []

/-- Only an approval changes what is approved. -/
theorem Effect.approval (eff : Effect host env w e o w' events) (timestamp : ℕ)
    (authorizers : List Address) :
    (Step.approval (.invoke timestamp authorizers e) = none ∧
      w'.storage.approved = w.storage.approved ∧ w'.storage.approvals = w.storage.approvals) ∨
    ∃ version wasmHash,
      Step.approval (.invoke timestamp authorizers e) = some (version, wasmHash) ∧
      w'.storage.approved = w.storage.approved.insert version wasmHash ∧
      w'.storage.approvals = some true := by
  cases eff with
  | read reader =>
    refine .inl ⟨?_, rfl, rfl⟩
    cases e <;> first | exact reader.elim | rfl
  | approve => exact .inr ⟨_, _, rfl, rfl, rfl⟩
  | _ => exact .inl ⟨rfl, rfl, rfl⟩

namespace Approved

/-- A step without an approval keeps the account of approvals. -/
theorem of_same {s' : Store} (h : Approved past s) (hnone : c.call.approval = none)
    (approved : s'.approved = s.approved) (enabled : s'.approvals = s.approvals) :
    Approved (past ++ [c]) s' := by
  constructor
  · intro version
    rw [approved, lastApproved, Transactional.latest_concat, Step.approvedFor, hnone]
    exact h.lookup version
  · rw [enabled, approvals_concat, hnone, Option.toList_none, List.append_nil]
    exact h.enabled

/-- An approval replaces the hash of its version and leaves the others. -/
theorem of_approval {s' : Store} {version : ℕ} {wasmHash : Bytes32} (h : Approved past s)
    (hsome : c.call.approval = some (version, wasmHash))
    (approved : s'.approved = s.approved.insert version wasmHash)
    (enabled : s'.approvals = some true) : Approved (past ++ [c]) s' := by
  constructor
  · intro version'
    rw [approved, lastApproved, Transactional.latest_concat, Step.approvedFor, hsome]
    by_cases hversion : version = version'
    · subst hversion
      simp
    · rw [Finmap.lookup_insert_of_ne _ (Ne.symm hversion), h.lookup]
      simp [hversion, lastApproved]
  · rw [enabled, approvals_concat, hsome]
    simp

/-- A committed step keeps the account of approvals. -/
theorem commit (past : List (factory host factoryId).Commit) (c : (factory host factoryId).Commit)
    (h : Approved past c.pre.store.storage) : Approved (past ++ [c]) c.post.store.storage := by
  rcases effect_of_commit c with ⟨timestamp, authorizers, e, _, hcall, -, eff⟩ | ⟨hcall, hsame, -⟩
  · rcases eff.approval timestamp authorizers with ⟨hnone, happroved, henabled⟩ |
      ⟨version, wasmHash, hsome, happroved, henabled⟩
    · exact h.of_same (hcall ▸ hnone) happroved henabled
    · exact h.of_approval (hcall ▸ hsome) happroved henabled
  · have hnone : c.call.approval = none := by
      cases hstep : c.call with
      | invoke timestamp authorizers e => exact absurd hstep (hcall timestamp authorizers e)
      | upload | create => rfl
    exact h.of_same hnone (by rw [hsame]) (by rw [hsame])

/-- Whoever passes the gate installs what was approved last. -/
theorem gate (h : Approved past w.storage) {config : FactoryConfig} {version : ℕ}
    {wasmHash : Bytes32} (stored : w.storage.config = some config)
    (gate : Gate w config version wasmHash) : InstallsApproved past w.storage version wasmHash := by
  refine ⟨⟨config, stored, gate.min_le, gate.le_max⟩, fun hany => ?_⟩
  have happroves := gate.approves
  rw [Store.approvesHash, if_pos (h.enabled.mpr hany), h.lookup] at happroves
  exact of_decide_eq_true happroves

/-- Without approvals both checks let every hash through. -/
theorem passes (h : Approved past s) (hnone : approvals past = []) (version : ℕ) (wasmHash : Bytes32) :
    s.validatesHash version wasmHash = true ∧ s.approvesHash version wasmHash = true := by
  have hlookup : s.approved.lookup version = none := by
    rw [h.lookup, lastApproved, Transactional.latest, List.findSome?_eq_none_iff]
    intro c hc
    have hcall := List.filterMap_eq_nil_iff.mp hnone c (List.mem_reverse.mp hc)
    rw [Step.approvedFor, hcall]
  have henabled : ¬ s.approvals.getD false = true := fun henabled => h.enabled.mp henabled hnone
  constructor
  · rw [Store.validatesHash, hlookup]
  · rw [Store.approvesHash, if_neg henabled]

variable {l : Ledger World}

/-- Until the first approval both checks pass with any hash. -/
theorem ungated (h : Approved past l.store.storage) (hnone : approvals past = []) (version : ℕ)
    (wasmHash : Bytes32) (env : Env) :
    Succeeds (validateApprovedHash version wasmHash) env l ∧
      Succeeds (requireApprovedHash version wasmHash) env l := by
  obtain ⟨hvalidates, happroves⟩ := h.passes hnone version wasmHash
  exact ⟨⟨_, validateApprovedHash_eq_ok.mpr ⟨hvalidates, rfl⟩⟩,
    ⟨_, requireApprovedHash_eq_ok.mpr ⟨happroves, rfl⟩⟩⟩

/-- Without approvals the gate is the bounds. -/
theorem gate_iff_of_none (h : Approved past w.storage) (hnone : approvals past = []) (config : FactoryConfig)
    (version : ℕ) (wasmHash : Bytes32) :
    Gate w config version wasmHash ↔ config.minVersion ≤ version ∧ version ≤ config.maxVersion :=
  gate_iff.trans (and_iff_left (h.passes hnone version wasmHash))

/-- Until the first approval a deployment needs no particular hash. -/
theorem ungatedDeploy (h : Approved past l.store.storage) (hnone : approvals past = []) (deployer : Address)
    (slug name : Symbol) (version : ℕ) (wasmHash : Bytes32) :
    Succeeds (deployQueue host deployer slug name version wasmHash) env l ↔
      deployer ∈ env.authorizers ∧
        (∃ config, l.store.storage.config = some config ∧ config.minVersion ≤ version ∧
          version ≤ config.maxVersion) ∧
        l.store.storage.registry.lookup slug = none ∧
        host.contractAddress env.currentContract wasmHash ∉ l.store.contracts ∧
        wasmHash ∈ l.store.uploaded := by
  constructor
  · rintro ⟨r, hr⟩
    obtain ⟨auth, config, stored, gate, absent, free, uploaded, -⟩ := deployQueue_eq_ok.mp hr
    exact ⟨auth, ⟨config, stored, gate.min_le, gate.le_max⟩, absent, free, uploaded⟩
  · rintro ⟨auth, ⟨config, stored, bounds⟩, absent, free, uploaded⟩
    have gate := (h.gate_iff_of_none hnone config version wasmHash).mpr bounds
    exact ⟨_, deployQueue_eq_ok.mpr ⟨auth, config, stored, gate, absent, free, uploaded, rfl⟩⟩

/-- Until the first approval an upgrade needs no particular hash. -/
theorem ungatedUpgrade (h : Approved past l.store.storage) (hnone : approvals past = []) (admin : Address)
    (slug : Symbol) (newVersion : ℕ) (newWasmHash : Bytes32) :
    Succeeds (upgradeQueue admin slug newVersion newWasmHash) env l ↔
      (∃ config, AdminCall l.store env admin config ∧ config.minVersion ≤ newVersion ∧
        newVersion ≤ config.maxVersion) ∧
        ∃ metadata, l.store.storage.registry.lookup slug = some metadata ∧
          metadata.version < newVersion := by
  constructor
  · rintro ⟨r, hr⟩
    obtain ⟨config, call, gate, metadata, stored, lt, -⟩ := upgradeQueue_eq_ok.mp hr
    exact ⟨⟨config, call, gate.min_le, gate.le_max⟩, metadata, stored, lt⟩
  · rintro ⟨⟨config, call, bounds⟩, metadata, stored, lt⟩
    have gate := (h.gate_iff_of_none hnone config newVersion newWasmHash).mpr bounds
    exact ⟨_, upgradeQueue_eq_ok.mpr ⟨config, call, gate, metadata, stored, lt, rfl⟩⟩

end Approved

/-- The stored hashes are the last approvals in every reachable state. -/
theorem approved_run (host : Deployer) (factoryId : Address) (steps : List Step) :
    Approved ((factory host factoryId).history fresh steps)
      ((factory host factoryId).run fresh steps).store.storage := by
  refine Transactional.history_invariant
    (P := fun past (l : Ledger World) => Approved past l.store.storage) Approved.commit ?_ steps
  exact ⟨fun version => rfl, by simp [fresh, approvals]⟩

/-- A call that installs code has passed the gate. -/
theorem Effect.installs (eff : Effect host env w e o w' events) {timestamp version : ℕ}
    {authorizers : List Address} {wasmHash : Bytes32}
    (h : Step.installation (.invoke timestamp authorizers e) = some (version, wasmHash)) :
    ∃ config, w.storage.config = some config ∧ Gate w config version wasmHash := by
  cases eff with
  | read reader => cases e <;> first | exact reader.elim | contradiction
  | deploy _ config gate =>
    obtain ⟨rfl, rfl⟩ := Prod.mk.inj (Option.some.inj h)
    exact ⟨_, config, gate⟩
  | upgrade call gate =>
    obtain ⟨rfl, rfl⟩ := Prod.mk.inj (Option.some.inj h)
    exact ⟨_, call.config, gate⟩
  | _ => contradiction

/-! ## The life of an entry -/

/-- No upgrade changes nothing. -/
theorem SameQueue.refl (m : QueueMetadata) : SameQueue m m 0 :=
  ⟨rfl, rfl, rfl, rfl, le_rfl, fun _ => rfl⟩

/-- The upgrades of two steps add up. -/
theorem SameQueue.trans {m₁ m₂ m₃ : QueueMetadata} {n k : ℕ} (h : SameQueue m₁ m₂ n)
    (h' : SameQueue m₂ m₃ k) : SameQueue m₁ m₃ (n + k) where
  contractId := h'.contractId.trans h.contractId
  owner := h'.owner.trans h.owner
  name := h'.name.trans h.name
  deployedAt := h'.deployedAt.trans h.deployedAt
  version_le := by
    have h₁ := h.version_le
    have h₂ := h'.version_le
    omega
  version_eq hsum := by
    rw [h'.version_eq (by omega), h.version_eq (by omega)]

/-- The number of upgrades of `slug` a step makes. -/
def Step.upgradeCount (slug : Symbol) (step : Step) : ℕ := if step.upgraded = some slug then 1 else 0

/-- A new entry is not under the slug of a queue. -/
theorem sameQueue_addQueue {w : World} {slug : Symbol} {old metadata : QueueMetadata}
    (stored : w.storage.registry.lookup slug = some old)
    (absent : w.storage.registry.lookup metadata.slug = none) :
    ∃ new, (w.addQueue metadata).storage.registry.lookup slug = some new ∧ SameQueue old new 0 := by
  have hslug : slug ≠ metadata.slug := by
    rintro rfl
    rw [absent] at stored
    contradiction
  rw [addQueue_lookup, if_neg hslug]
  exact ⟨old, stored, .refl old⟩

/-- An entry that is changed in another field than these. -/
theorem sameQueue_setQueue {w : World} {slug slug' : Symbol} {old metadata changed : QueueMetadata}
    (stored : w.storage.registry.lookup slug = some old)
    (hmetadata : w.storage.registry.lookup slug' = some metadata)
    (hchanged : SameQueue metadata changed 0) :
    ∃ new, (w.setQueue slug' changed).storage.registry.lookup slug = some new ∧
      SameQueue old new 0 := by
  rw [setQueue_lookup]
  split
  · case _ heq =>
    subst heq
    obtain rfl := Option.some.inj (hmetadata.symm.trans stored)
    exact ⟨changed, rfl, hchanged⟩
  · exact ⟨old, stored, .refl old⟩

/-- A call that does not destroy a queue keeps its entry, up to an upgrade. -/
theorem Effect.sameQueue (eff : Effect host env w e o w' events) (timestamp : ℕ)
    (authorizers : List Address) {slug : Symbol} {old : QueueMetadata}
    (stored : w.storage.registry.lookup slug = some old)
    (hkeep : Step.destroyed (.invoke timestamp authorizers e) ≠ some slug) :
    ∃ new, w'.storage.registry.lookup slug = some new ∧
      SameQueue old new (Step.upgradeCount slug (.invoke timestamp authorizers e)) := by
  have hsame : ∃ new, w.storage.registry.lookup slug = some new ∧ SameQueue old new 0 :=
    ⟨old, stored, .refl old⟩
  cases eff with
  | read reader =>
    have hnone : Step.upgradeCount slug (.invoke timestamp authorizers e) = 0 := by
      cases e <;> first | exact reader.elim | rfl
    rw [hnone]
    exact hsame
  | init | approve | config => exact hsame
  | deploy _ _ _ absent => exact sameQueue_addQueue stored absent
  | register _ absent => exact sameQueue_addQueue stored absent
  | deactivate _ stored' | reactivate _ stored' =>
    exact sameQueue_setQueue stored stored' ⟨rfl, rfl, rfl, rfl, le_rfl, fun _ => rfl⟩
  | @destroy admin slug' metadata =>
    have hslug : slug ≠ slug' := by
      rintro rfl
      exact hkeep rfl
    rw [removeQueue_lookup, if_neg hslug]
    exact hsame
  | @upgrade admin slug' newVersion newWasmHash metadata _ _ _ stored' lt =>
    rw [setQueue_lookup]
    by_cases hslug : slug = slug'
    · subst hslug
      obtain rfl := Option.some.inj (stored'.symm.trans stored)
      have hone : Step.upgradeCount slug
          (.invoke timestamp authorizers (.upgradeQueue admin slug newVersion newWasmHash)) = 1 :=
        if_pos rfl
      rw [if_pos rfl, hone]
      exact ⟨_, rfl, rfl, rfl, rfl, rfl, lt, nofun⟩
    · have hzero : Step.upgradeCount slug
          (.invoke timestamp authorizers (.upgradeQueue admin slug' newVersion newWasmHash)) = 0 :=
        if_neg fun heq => hslug (Option.some.inj heq).symm
      rw [if_neg hslug, hzero]
      exact hsame

/-- One step from a state with the queue. -/
theorem sameQueue_commit (c : (factory host factoryId).Commit) {slug : Symbol} {old : QueueMetadata}
    (stored : c.pre.store.storage.registry.lookup slug = some old)
    (hkeep : c.call.destroyed ≠ some slug) :
    ∃ new, c.post.store.storage.registry.lookup slug = some new ∧
      SameQueue old new (c.call.upgradeCount slug) := by
  rcases effect_of_commit c with ⟨timestamp, authorizers, e, _, hcall, -, eff⟩ | ⟨hcall, hsame, -⟩
  · rw [hcall] at hkeep ⊢
    exact eff.sameQueue timestamp authorizers stored hkeep
  · have hnone : c.call.upgradeCount slug = 0 := by
      cases hstep : c.call with
      | invoke timestamp authorizers e => exact absurd hstep (hcall timestamp authorizers e)
      | upload | create => rfl
    rw [hsame, hnone]
    exact ⟨old, stored, .refl old⟩

/-- A commit counts as one upgrade of its own slug, or as none. -/
theorem upgrades_concat (slug : Symbol) (past : List (factory host factoryId).Commit)
    (c : (factory host factoryId).Commit) :
    upgrades slug (past ++ [c]) = upgrades slug past + c.call.upgradeCount slug := by
  rw [upgrades, List.countP_append, upgrades, List.countP_singleton]
  simp [Step.upgradeCount]

/-- A queue that no call destroys keeps its entry, up to its upgrades. -/
theorem sameQueue_run {l : Ledger World} {slug : Symbol} {old : QueueMetadata}
    (stored : l.store.storage.registry.lookup slug = some old) (after : List Step)
    (hkeep : ∀ c ∈ (factory host factoryId).history l after, c.call.destroyed ≠ some slug) :
    ∃ new, ((factory host factoryId).run l after).store.storage.registry.lookup slug = some new ∧
      SameQueue old new (upgrades slug ((factory host factoryId).history l after)) := by
  induction after using List.reverseRecOn with
  | nil => exact ⟨old, stored, .refl old⟩
  | append_singleton after step ih =>
    rw [Transactional.history_concat] at hkeep ⊢
    rw [Transactional.run_concat]
    obtain ⟨m, hm, hsofar⟩ := ih fun c hc => hkeep c (List.mem_append_left _ hc)
    rcases (factory host factoryId).commit?_cases ((factory host factoryId).run l after) step with
      ⟨c, hpre, -, hpost, hc⟩ | ⟨-, hpost, hc⟩
    · rw [hc, Option.toList_some] at hkeep ⊢
      obtain ⟨new, hnew, hstep⟩ := sameQueue_commit c (hpre ▸ hm) (hkeep c (by simp))
      rw [hpost, upgrades_concat]
      exact ⟨new, hnew, hsofar.trans hstep⟩
    · rw [hpost, hc, Option.toList_none, List.append_nil]
      exact ⟨m, hm, hsofar⟩

/-! ## The administrator -/

/-- The founder is the first who initialized. -/
theorem founder_concat (past : List (factory host factoryId).Commit)
    (c : (factory host factoryId).Commit) :
    founder (past ++ [c]) = (founder past).or c.call.initializer := by
  rw [founder, List.filterMap_append, List.head?_append, ← founder]
  cases h : c.call.initializer <;> simp [h]

/-- Only `initialize` names an administrator, and only where there is none. -/
theorem Effect.admin (eff : Effect host env w e o w' events) (timestamp : ℕ)
    (authorizers : List Address) :
    w'.storage.config.map (·.admin) = (w.storage.config.map (·.admin)).or
      (Step.initializer (.invoke timestamp authorizers e)) := by
  cases eff with
  | read reader =>
    have hnone : Step.initializer (.invoke timestamp authorizers e) = none := by
      cases e <;> first | exact reader.elim | rfl
    rw [hnone, Option.or_none]
  | init _ new =>
    rw [new]
    rfl
  | config call =>
    rw [call.config]
    rfl
  | _ => exact (Option.or_none).symm

/-- A committed step keeps the founder as the administrator. -/
theorem admin_commit (past : List (factory host factoryId).Commit)
    (c : (factory host factoryId).Commit)
    (h : c.pre.store.storage.config.map (·.admin) = founder past) :
    c.post.store.storage.config.map (·.admin) = founder (past ++ [c]) := by
  rw [founder_concat, ← h]
  rcases effect_of_commit c with ⟨timestamp, authorizers, e, _, hcall, -, eff⟩ | ⟨hcall, hsame, -⟩
  · rw [hcall]
    exact eff.admin timestamp authorizers
  · have hnone : c.call.initializer = none := by
      cases hstep : c.call with
      | invoke timestamp authorizers e => exact absurd hstep (hcall timestamp authorizers e)
      | upload | create => rfl
    rw [hnone, Option.or_none, hsame]

/-- The administrator is the founder in every reachable state. -/
theorem admin_run (host : Deployer) (factoryId : Address) (steps : List Step) :
    ((factory host factoryId).run fresh steps).store.storage.config.map (·.admin) =
      founder ((factory host factoryId).history fresh steps) :=
  Transactional.history_invariant
    (P := fun past (l : Ledger World) => l.store.storage.config.map (·.admin) = founder past)
    admin_commit rfl steps

/-- A change of the registry is a deployment, or signed by the administrator. -/
theorem registryChange_commit (c : (factory host factoryId).Commit) {admin : Option Address}
    (h : c.pre.store.storage.config.map (·.admin) = admin) : RegistryChange admin c := by
  rcases effect_of_commit c with ⟨timestamp, authorizers, e, _, hcall, -, eff⟩ | ⟨-, hsame, -⟩
  · have hadmin {a : Address} {config : FactoryConfig}
        (call : AdminCall c.pre.store (envOf factoryId timestamp authorizers) a config) :
        RegistryChange admin c := by
      refine .admin a ?_ ?_
      · rw [← h, call.config, Option.map_some, call.isAdmin]
      · rw [hcall]
        exact call.auth
    obtain ⟨⟨pre, _⟩, call, out, ⟨post, events⟩, ok⟩ := c
    dsimp only at eff
    cases eff with
    | read | init => exact .none rfl
    | @deploy deployer slug name version wasmHash contractId _ auth _ _ absent =>
      exact .deployed timestamp authorizers deployer slug name version wasmHash
        (deployedQueue deployer slug name contractId version timestamp) hcall auth rfl rfl absent rfl
    | register call | approve call | deactivate call | reactivate call | destroy call
    | config call | upgrade call => exact hadmin call
  · exact .none (by rw [hsame])

/-! ## Every run -/

/-- The rules of the factory hold in every run. -/
theorem factory_governance (host : Deployer) (factoryId : Address) (steps : List Step) :
    Governed host factoryId steps where
  gate past c future hsplit version wasmHash hinstall := by
    obtain ⟨before, _, -, rfl, hpre⟩ := Transactional.history_split hsplit
    have happroved := approved_run host factoryId before
    rw [hpre] at happroved
    rcases effect_of_commit c with ⟨timestamp, authorizers, e, _, hcall, -, eff⟩ | ⟨hcall, -, -⟩
    · rw [hcall] at hinstall
      obtain ⟨config, stored, gate⟩ := eff.installs hinstall
      exact happroved.gate stored gate
    · cases hstep : c.call with
      | invoke timestamp authorizers e => exact absurd hstep (hcall timestamp authorizers e)
      | upload | create =>
        rw [hstep] at hinstall
        contradiction
  ungated hnone version wasmHash env :=
    (approved_run host factoryId steps).ungated hnone version wasmHash env
  ungatedDeploy hnone _ deployer slug name version wasmHash :=
    (approved_run host factoryId steps).ungatedDeploy hnone deployer slug name version wasmHash
  ungatedUpgrade hnone _ admin slug newVersion newWasmHash :=
    (approved_run host factoryId steps).ungatedUpgrade hnone admin slug newVersion newWasmHash
  entry before after hsplit slug old stored hkeep := by
    rw [hsplit, Transactional.run_append]
    exact sameQueue_run stored after hkeep
  registry past c future hsplit := by
    obtain ⟨before, _, -, rfl, hpre⟩ := Transactional.history_split hsplit
    have hadmin := admin_run host factoryId before
    rw [hpre] at hadmin
    exact registryChange_commit c hadmin
  admin := admin_run host factoryId steps

end LineProof.Factory
