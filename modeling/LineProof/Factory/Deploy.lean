import LineProof.Factory.Steps

/-!
# Deploying queues

The factory passes the hash of the code as the salt of the deployment. A deployed queue therefore takes
the only address its code can have, and no other queue is ever deployed from the same code
(`deploysFresh_iff`).
-/

namespace LineProof.Factory

open Soroban

/-- The code and the address of the queue a step deployed through the factory. -/
def deployment : Step → Output → Option (Bytes32 × Address)
  | .invoke _ _ (.deployQueue _ _ _ _ wasmHash), .address contractId => some (wasmHash, contractId)
  | _, _ => none

variable (host : Deployer) (factoryId : Address)

/-- The queues the factory has deployed so far. -/
def deployments (past : List (factory host factoryId).Commit) : List (Bytes32 × Address) :=
  past.filterMap fun c => deployment c.call c.out

/-- An authorized `deploy_queue` that meets the demands of the factory: a new slug, a version within the
bounds, and uploaded code that passes the approvals. -/
structure Request (l : Ledger World) where
  timestamp : ℕ
  authorizers : List Address
  deployer : Address
  slug : Symbol
  name : Symbol
  version : ℕ
  wasmHash : Bytes32
  config : FactoryConfig
  auth : deployer ∈ authorizers
  initialized : l.store.storage.config = some config
  gate : Gate l.store config version wasmHash
  absent : l.store.storage.registry.lookup slug = none
  uploaded : wasmHash ∈ l.store.uploaded

variable {l : Ledger World}

/-- The call that the request makes. -/
def Request.entry (r : Request l) : Entrypoint :=
  .deployQueue r.deployer r.slug r.name r.version r.wasmHash

/-- The request succeeds, and the address it stores is not that of a queue deployed before. -/
def Request.DeploysFresh (r : Request l) (past : List (factory host factoryId).Commit) : Prop :=
  ∃ contractId l' metadata,
    exec host r.entry (envOf factoryId r.timestamp r.authorizers) l = .ok (.address contractId, l') ∧
      l'.store.storage.registry.lookup r.slug = some metadata ∧ metadata.contractId = contractId ∧
      ∀ d ∈ deployments host factoryId past, d.2 ≠ contractId

/-- The addresses taken below the factory are those of the queues it has deployed, each at the address
of its code. -/
structure AddressesTaken (past : List (factory host factoryId).Commit) (w : World) : Prop where
  mem_iff : ∀ salt, host.contractAddress factoryId salt ∈ w.contracts ↔
    ∃ d ∈ deployments host factoryId past, d.1 = salt
  address : ∀ d ∈ deployments host factoryId past, d.2 = host.contractAddress factoryId d.1

variable {host factoryId} {env : Env} {w w' : World} {e : Entrypoint} {o : Output}
  {events : List Event}

/-! ## One step -/

/-- A call takes an address only if it deploys, and then the one of its code. -/
theorem Effect.contracts (eff : Effect host env w e o w' events) (timestamp : ℕ)
    (authorizers : List Address) :
    (deployment (.invoke timestamp authorizers e) o = none ∧ w'.contracts = w.contracts) ∨
      ∃ wasmHash, deployment (.invoke timestamp authorizers e) o =
          some (wasmHash, host.contractAddress env.currentContract wasmHash) ∧
        w'.contracts = insert (host.contractAddress env.currentContract wasmHash) w.contracts := by
  cases eff with
  | @deploy deployer slug name version wasmHash contractId c auth config gate absent address =>
    subst address
    exact .inr ⟨wasmHash, rfl, rfl⟩
  | read reader =>
    refine .inl ⟨?_, rfl⟩
    cases e <;> first | exact reader.elim | rfl
  | _ => exact .inl ⟨rfl, rfl⟩

/-- A commit appends its deployment, if it is one. -/
theorem deployments_concat (past : List (factory host factoryId).Commit) (c : (factory host factoryId).Commit) :
    deployments host factoryId (past ++ [c]) =
      deployments host factoryId past ++ (deployment c.call c.out).toList := by
  rw [deployments, List.filterMap_append, deployments]
  cases h : deployment c.call c.out <;> simp [h]

/-- An address that does not belong to the factory says nothing about its deployments. -/
theorem AddressesTaken.of_foreign {past : List (factory host factoryId).Commit}
    {c : (factory host factoryId).Commit} (h : AddressesTaken host factoryId past w)
    (none : deployment c.call c.out = none)
    (contracts : ∀ salt, host.contractAddress factoryId salt ∈ w'.contracts ↔
      host.contractAddress factoryId salt ∈ w.contracts) :
    AddressesTaken host factoryId (past ++ [c]) w' := by
  have hsame : deployments host factoryId (past ++ [c]) = deployments host factoryId past := by
    rw [deployments_concat, none, Option.toList_none, List.append_nil]
  constructor
  · intro salt
    rw [contracts, hsame, h.mem_iff]
  · rw [hsame]
    exact h.address

/-- A deployment takes the address of its code. -/
theorem AddressesTaken.of_deploy {past : List (factory host factoryId).Commit}
    {c : (factory host factoryId).Commit} {wasmHash : Bytes32} (h : AddressesTaken host factoryId past w)
    (some : deployment c.call c.out = some (wasmHash, host.contractAddress factoryId wasmHash))
    (contracts : w'.contracts = insert (host.contractAddress factoryId wasmHash) w.contracts) :
    AddressesTaken host factoryId (past ++ [c]) w' := by
  have hnew : deployments host factoryId (past ++ [c]) =
      deployments host factoryId past ++ [(wasmHash, host.contractAddress factoryId wasmHash)] := by
    rw [deployments_concat, some, Option.toList_some]
  constructor
  · intro salt
    rw [contracts, Finset.mem_insert, h.mem_iff, hnew]
    constructor
    · intro hmem
      rcases hmem with heq | ⟨d, hd, hsalt⟩
      · obtain ⟨-, rfl⟩ := host.injective _ _ _ _ heq
        exact ⟨_, List.mem_append_right _ List.mem_cons_self, rfl⟩
      · exact ⟨d, List.mem_append_left _ hd, hsalt⟩
    · intro hmem
      rcases hmem with ⟨d, hd, rfl⟩
      rcases List.mem_append.mp hd with hold | hlast
      · exact .inr ⟨d, hold, rfl⟩
      · rw [List.mem_singleton.mp hlast]
        exact .inl rfl
  · intro d hd
    rw [hnew] at hd
    rcases List.mem_append.mp hd with hold | hlast
    · exact h.address d hold
    · rw [List.mem_singleton.mp hlast]

/-- A committed step takes at most the address it deploys to. -/
theorem AddressesTaken.commit (past : List (factory host factoryId).Commit)
    (c : (factory host factoryId).Commit) (h : AddressesTaken host factoryId past c.pre.store) :
    AddressesTaken host factoryId (past ++ [c]) c.post.store := by
  have hok := c.ok
  cases hcall : c.call with
  | invoke timestamp authorizers e =>
    rw [hcall] at hok
    obtain ⟨_, -, eff⟩ := effect_of_exec hok
    rcases eff.contracts timestamp authorizers with ⟨hnone, hsame⟩ | ⟨wasmHash, hsome, hinsert⟩
    · exact h.of_foreign (hcall ▸ hnone) fun salt => by rw [hsame]
    · exact h.of_deploy (hcall ▸ hsome) hinsert
  | upload wasmHash =>
    rw [hcall] at hok
    obtain ⟨-, hpost⟩ := Prod.mk.inj (Except.ok.inj hok)
    refine h.of_foreign (hcall ▸ rfl) fun salt => ?_
    rw [← hpost]
  | create deployer salt wasmHash =>
    rw [hcall] at hok
    obtain ⟨hforeign, -, hcontracts, -⟩ := of_create hok
    refine h.of_foreign (hcall ▸ rfl) fun salt' => ?_
    rw [hcontracts, Finset.mem_insert]
    exact or_iff_right fun heq => hforeign (host.injective _ _ _ _ heq).1.symm

/-! ## Every run -/

/-- Every deployed address is taken in every reachable state. -/
theorem addressesTaken_run (host : Deployer) (factoryId : Address) (steps : List Step) :
    AddressesTaken host factoryId ((factory host factoryId).history fresh steps)
      ((factory host factoryId).run fresh steps).store := by
  refine Transactional.history_invariant (P := fun past l => AddressesTaken host factoryId past l.store)
    AddressesTaken.commit ?_ steps
  constructor
  · intro salt
    simp [fresh, deployments]
  · intro d hd
    simp [deployments] at hd

/-- A request in order deploys a fresh queue exactly when the factory has not deployed its code
before. -/
theorem deploysFresh_iff (host : Deployer) (factoryId : Address) (steps : List Step)
    (r : Request ((factory host factoryId).run fresh steps)) :
    r.DeploysFresh host factoryId ((factory host factoryId).history fresh steps) ↔
      ∀ d ∈ deployments host factoryId ((factory host factoryId).history fresh steps), d.1 ≠ r.wasmHash := by
  have htaken := addressesTaken_run host factoryId steps
  constructor
  · intro hfresh
    rcases hfresh with ⟨contractId, l', _, hexec, -, -, -⟩
    obtain ⟨_, _, hdeploy, -⟩ := bind_eq_ok.mp hexec
    obtain ⟨-, _, -, -, -, hfree, -⟩ := deployQueue_eq_ok.mp hdeploy
    intro d hd heq
    -- the host refuses the address, which the earlier queue has
    exact hfree ((htaken.mem_iff r.wasmHash).mpr ⟨d, hd, heq⟩)
  · intro hnew
    have hfree : host.contractAddress factoryId r.wasmHash ∉
        ((factory host factoryId).run fresh steps).store.contracts := by
      intro hmem
      obtain ⟨d, hd, heq⟩ := (htaken.mem_iff r.wasmHash).mp hmem
      exact hnew d hd heq
    have hdeploy : deployQueue host r.deployer r.slug r.name r.version r.wasmHash
        (envOf factoryId r.timestamp r.authorizers) _ = .ok _ :=
      deployQueue_eq_ok.mpr
        ⟨r.auth, r.config, r.initialized, r.gate, r.absent, hfree, r.uploaded, rfl⟩
    refine ⟨_, _, _, bind_eq_ok.mpr ⟨_, _, hdeploy, rfl⟩, Finmap.lookup_insert _, rfl, ?_⟩
    intro d hd heq
    rw [htaken.address d hd] at heq
    exact hnew d hd (host.injective _ _ _ _ heq).2

/-- The address of a host that appends the bytes of the salt to the deploying address. -/
def appendSalt (deployer : Address) (salt : Bytes32) : Address where
  strkey := deployer.strkey ++ String.ofList (salt.toList.map Char.ofUInt8)

/-- The deployer and the salt can be read back from the bytes. -/
theorem appendSalt_injective {deployer deployer' : Address} {salt salt' : Bytes32}
    (h : appendSalt deployer salt = appendSalt deployer' salt') :
    deployer = deployer' ∧ salt = salt' := by
  have hchars := congrArg String.toList (Address.mk.inj h)
  rw [String.toList_append, String.toList_append, String.toList_ofList, String.toList_ofList] at hchars
  -- every salt has 32 bytes, so the two parts of the strkey are apart
  have hlength : (salt.toList.map Char.ofUInt8).length = (salt'.toList.map Char.ofUInt8).length := by
    rw [List.length_map, List.length_map, Vector.length_toList, Vector.length_toList]
  obtain ⟨hdeployer, hsalt⟩ := List.append_inj' hchars hlength
  have hbyte : Function.Injective Char.ofUInt8 := by
    intro a b hab
    exact UInt8.toUInt32_inj.mp (congrArg Char.val hab)
  constructor
  · obtain ⟨strkey⟩ := deployer
    obtain ⟨strkey'⟩ := deployer'
    exact congrArg Address.mk (String.toList_injective hdeployer)
  · exact Vector.toList_inj.mp (List.map_injective_iff.mpr hbyte hsalt)

instance : Inhabited Deployer where
  default := ⟨appendSalt, fun _ _ _ _ => appendSalt_injective⟩

/-- Of two queues with different slugs and the same code, the second cannot be deployed. -/
theorem second_deploy_refused :
    ¬ ∃ host : Deployer, ∀ factoryId steps (r : Request ((factory host factoryId).run fresh steps)),
      r.DeploysFresh host factoryId ((factory host factoryId).history fresh steps) := by
  intro h
  rcases h with ⟨host, h⟩
  let admin : Address := ⟨"GADMIN"⟩
  let factoryId : Address := ⟨"CFACTORY"⟩
  let wasmHash : Bytes32 := Vector.replicate 32 7
  let steps : List Step := [.upload wasmHash, .invoke 1 [admin] (.initializeFactory admin),
    .invoke 2 [admin] (.deployQueue admin ⟨"clinic"⟩ ⟨"clinic"⟩ 1 wasmHash)]
  let r : Request ((factory host factoryId).run fresh steps) :=
    { timestamp := 3, authorizers := [admin], deployer := admin, slug := ⟨"pharmacy"⟩,
      name := ⟨"pharmacy"⟩, version := 1, wasmHash, config := ⟨admin, 1, 1⟩
      auth := List.mem_cons_self
      initialized := rfl
      gate := ⟨le_refl 1, le_refl 1, rfl, rfl⟩
      absent := rfl
      uploaded := Finset.mem_insert_self _ _ }
  obtain ⟨_, _, _, hexec, -⟩ := h factoryId steps r
  obtain ⟨_, _, hdeploy, -⟩ := bind_eq_ok.mp hexec
  obtain ⟨-, _, -, -, -, hfree, -⟩ := deployQueue_eq_ok.mp hdeploy
  exact hfree (Finset.mem_insert_self _ _)

end LineProof.Factory
