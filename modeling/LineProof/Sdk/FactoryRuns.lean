import LineProof.Sdk.Deployment

/-!
# The factory of a client

Reference: `factoryContractId` of `sdk/src/client.ts`.

Any number of deployments may be under way on one client, which remembers the factory of the last one to come
that far. However their exchanges with the network are mixed, a contract is created only after its code was
confirmed, only a confirmed contract becomes the factory, and a call returns a contract exactly when it was
confirmed and assigned (`factory_is_installed`).
-/

namespace LineProof.Sdk

/-! ## Calls -/

namespace ClientCall

variable {R : ClientRuntime} {sourceSecret : Option String} {call : ClientCall}
  {wasm wasmHash : List UInt8} {contractId publicKey hexHash : String}
  {exchanges : List ClientExchange} {asked : ClientRequest}

variable (R sourceSecret) in
/-- What was exchanged before a contract with the code of the hash is created. -/
def Prepared (wasmHash : List UInt8) (exchanges : List ClientExchange) : ClientCall → Prop
  | .uploadWasm _ => False
  | .installContract hexHash =>
    exchanges = [] ∧ hexHash ≠ "" ∧ wasmHash = Hex.toBytes hexHash.toList
  | .deployFactory wasmBytes =>
    Uploads R sourceSecret wasmBytes exchanges ∧ wasmHash = R.sha256 wasmBytes

variable (R sourceSecret) in
/-- The contract of the call is on the ledger. -/
def Installed (contractId : String) (exchanges : List ClientExchange) (call : ClientCall) : Prop :=
  ∃ first rest wasmHash, exchanges = first ++ rest ∧ call.Prepared R sourceSecret wasmHash first ∧
    Installs R sourceSecret wasmHash contractId rest

/-- How often the call assigns the factory, if it succeeds. -/
def assignments : ClientCall → ℕ
  | .uploadWasm _ => 0
  | .installContract _ => 1
  | .deployFactory _ => 2

variable (R sourceSecret) in
/-- What was exchanged when the call returns. -/
def Completes (result : String) (exchanges : List ClientExchange) : ClientCall → Prop
  | .uploadWasm wasmBytes => Uploads R sourceSecret wasmBytes exchanges ∧ result = wasmHashOf R wasmBytes
  | call => ∃ first, exchanges = first ++ List.replicate call.assignments ⟨.assign result, ()⟩ ∧
    call.Installed R sourceSecret result first

/-- The code that the call uploads. -/
def wasm? : ClientCall → Option (List UInt8)
  | .uploadWasm wasmBytes | .deployFactory wasmBytes => some wasmBytes
  | .installContract _ => none

variable (R sourceSecret) in
/-- What was exchanged before the call asks for something. -/
def Justifies (exchanges : List ClientExchange) (call : ClientCall) : ClientRequest → Prop
  | .submit (.uploadContractWasm wasmBytes) => exchanges = [] ∧ call.wasm? = some wasmBytes
  | .submit (.createCustomContract publicKey wasmHash) =>
    requireKeypair R sourceSecret = .ok publicKey ∧ call.Prepared R sourceSecret wasmHash exchanges
  | .getTransaction hash => ∃ operation, ⟨.submit operation, .ok hash⟩ ∈ exchanges
  | .sleep delay => delay = 2000
  | .assign contractId => ∃ first n, n < call.assignments ∧
    exchanges = first ++ List.replicate n ⟨.assign contractId, ()⟩ ∧
    call.Installed R sourceSecret contractId first

/-- A contract that a call has installed has a valid id. -/
theorem Installed.valid (h : call.Installed R sourceSecret contractId exchanges) :
    R.strKey.isValidContract contractId = true := by
  obtain ⟨first, rest, wasmHash, -, -, hinstalls⟩ := h
  exact hinstalls.valid

/-- What `uploadWasm` asks for, the call's own code justifies. -/
theorem justifies_uploadWasm (hwasm : call.wasm? = some wasm)
    (h : (Sdk.uploadWasm R sourceSecret wasm).Asks exchanges asked) :
    call.Justifies R sourceSecret exchanges asked := by
  obtain ⟨-, -, hconfirm⟩ := asks_uploadWasm_iff.mp h
  rcases asks_confirm hconfirm with ⟨rfl, rfl⟩ | ⟨hash, hmem, rfl | rfl⟩
  · exact ⟨rfl, hwasm⟩
  · exact ⟨_, hmem⟩
  · exact Eq.refl 2000

/-- An installation that follows `first` asks for nothing before its time. -/
theorem justifies_installContract {first : List ClientExchange}
    (hprepared : call.Prepared R sourceSecret (Hex.toBytes hexHash.toList) first)
    (hassignments : 0 < call.assignments)
    (h : (Sdk.installContract R sourceSecret hexHash).Asks exchanges asked) :
    call.Justifies R sourceSecret (first ++ exchanges) asked := by
  obtain ⟨-, publicKey, hkey, -, hconfirm | ⟨contractId, hinstalls, rfl⟩⟩ :=
    asks_installContract_iff.mp h
  · rcases asks_confirm hconfirm with ⟨rfl, rfl⟩ | ⟨hash, hmem, rfl | rfl⟩
    · rw [List.append_nil]
      exact ⟨hkey, hprepared⟩
    · exact ⟨_, List.mem_append_right first hmem⟩
    · exact Eq.refl 2000
  · refine ⟨first ++ exchanges, 0, hassignments, (List.append_nil _).symm, ?_⟩
    exact ⟨first, exchanges, _, rfl, hprepared, hinstalls⟩

/-- A call asks for nothing before its time. -/
theorem justifies (h : (call.task R sourceSecret).Asks exchanges asked) :
    call.Justifies R sourceSecret exchanges asked := by
  cases call with
  | uploadWasm wasm => exact justifies_uploadWasm rfl h
  | installContract hexHash =>
    have hempty := (asks_installContract_iff.mp h).1
    have hprepared : (installContract hexHash).Prepared R sourceSecret (Hex.toBytes hexHash.toList) [] :=
      ⟨rfl, hempty, rfl⟩
    exact justifies_installContract hprepared Nat.zero_lt_one h
  | deployFactory wasm =>
    rcases asks_deployFactory_iff.mp h with
      hupload | ⟨first, rest, rfl, huploads, hinstall | ⟨contractId, installed, rfl, hinstalls, rfl⟩⟩
    · exact justifies_uploadWasm rfl hupload
    · exact justifies_installContract ⟨huploads, toBytes_wasmHashOf R wasm⟩ Nat.zero_lt_two hinstall
    · refine ⟨first ++ installed, 1, Nat.one_lt_two, (List.append_assoc _ _ _).symm, ?_⟩
      exact ⟨first, installed, _, rfl, ⟨huploads, rfl⟩, hinstalls⟩

/-- A call returns what it completes. -/
theorem returns_iff {result : String} :
    (call.task R sourceSecret).Returns exchanges (.ok result) ↔
      call.Completes R sourceSecret result exchanges := by
  cases call with
  | uploadWasm wasm => exact returns_uploadWasm_iff
  | installContract hexHash =>
    rw [task, returns_installContract_iff]
    constructor
    · rintro ⟨hempty, installed, rfl, hinstalls⟩
      exact ⟨installed, rfl, [], installed, _, rfl, ⟨rfl, hempty, rfl⟩, hinstalls⟩
    · rintro ⟨installed, rfl, first, rest, wasmHash, rfl, ⟨rfl, hempty, rfl⟩, hinstalls⟩
      exact ⟨hempty, rest, rfl, hinstalls⟩
  | deployFactory wasm =>
    rw [task, returns_deployFactory_iff]
    constructor
    · rintro ⟨first, installed, rfl, huploads, hinstalls⟩
      refine ⟨first ++ installed, ?_, first, installed, _, rfl, ⟨huploads, rfl⟩, hinstalls⟩
      rw [List.append_assoc, List.append_assoc]
      rfl
    · rintro ⟨installed, rfl, first, rest, wasmHash, rfl, ⟨huploads, rfl⟩, hinstalls⟩
      refine ⟨first, rest, ?_, huploads, hinstalls⟩
      rw [List.append_assoc, List.append_assoc]
      rfl

end ClientCall

/-! ## Runs -/

section Run

variable {R : ClientRuntime} {sourceSecret : Option String} {events : List ClientEvent}

/-- The call that starts. -/
def ClientEvent.started? : ClientEvent → Option ClientCall
  | .started call => some call
  | .answered .. => none

/-- The answer that comes, and to which call. -/
def ClientEvent.answered? : ClientEvent → Option (ℕ × ClientExchange)
  | .started _ => none
  | .answered i exchange => some (i, exchange)

variable (R sourceSecret) in
/-- The exchanges of a run. -/
def clientLog (events : List ClientEvent) : List (ℕ × ClientExchange) :=
  ((deployClient R sourceSecret).history .initial events).filterMap fun c => c.call.answered?

/-- The factory that was assigned last. -/
def lastAssigned (log : List (ℕ × ClientExchange)) : Option String :=
  (log.filterMap fun entry => assigned? entry.2.1).getLast?

/-- An assignment is the last until the next one. -/
theorem lastAssigned_concat (log : List (ℕ × ClientExchange)) (i : ℕ) (exchange : ClientExchange) :
    lastAssigned (log ++ [(i, exchange)]) = (assigned? exchange.1).or (lastAssigned log) := by
  have hlast : [(i, exchange)].filterMap (fun entry : ℕ × ClientExchange => assigned? entry.2.1) =
      (assigned? exchange.1).toList := by
    cases h : assigned? exchange.1 <;> simp [h]
  rw [lastAssigned, List.filterMap_append, hlast]
  cases assigned? exchange.1 with
  | none => rw [Option.toList_none, List.append_nil, Option.none_or, lastAssigned]
  | some contractId => rw [Option.toList_some, List.getLast?_concat, Option.some_or]

/-- What was assigned last was assigned by some call. -/
theorem mem_of_lastAssigned {log : List (ℕ × ClientExchange)} {contractId : String}
    (h : lastAssigned log = some contractId) : ∃ i, (i, ⟨.assign contractId, ()⟩) ∈ log := by
  obtain ⟨⟨i, request, answer⟩, hmem, hassigned⟩ := List.mem_filterMap.mp (List.mem_of_getLast? h)
  cases request with
  | assign assigned =>
    obtain rfl := Option.some.inj hassigned
    exact ⟨i, hmem⟩
  | submit => cases hassigned
  | getTransaction => cases hassigned
  | sleep => cases hassigned

/-- The calls under way are those that were made, and the client has the factory that was assigned last. -/
structure ClientOk (R : ClientRuntime) (sourceSecret : Option String) (events : List ClientEvent) :
    Prop where
  calls : Task.Explains ((events.filterMap ClientEvent.started?).map (ClientCall.task R sourceSecret))
    (clientLog R sourceSecret events) ((deployClient R sourceSecret).run .initial events).calls
  factory : ((deployClient R sourceSecret).run .initial events).factoryContractId =
    lastAssigned (clientLog R sourceSecret events)

/-- A call that starts keeps the account of the calls. -/
theorem ClientOk.start (h : ClientOk R sourceSecret events) (call : ClientCall) :
    ClientOk R sourceSecret (events ++ [.started call]) := by
  have hok : (deployClient R sourceSecret).exec (.started call)
      ((deployClient R sourceSecret).run .initial events) = .ok ((), _) := rfl
  have hlog : clientLog R sourceSecret (events ++ [.started call]) = clientLog R sourceSecret events := by
    rw [clientLog, Transactional.history_concat, Transactional.commit?_of_ok hok, Option.toList_some,
      List.filterMap_append]
    exact List.append_nil _
  constructor
  · rw [hlog, Transactional.run_concat, Transactional.next_of_ok hok, List.filterMap_append,
      List.map_append]
    exact h.calls.start _
  · rw [hlog, Transactional.run_concat, Transactional.next_of_ok hok]
    exact h.factory

/-- An answer keeps the account of the calls. -/
theorem ClientOk.answer (h : ClientOk R sourceSecret events) (i : ℕ) (exchange : ClientExchange) :
    ClientOk R sourceSecret (events ++ [.answered i exchange]) := by
  have hmade : (events ++ [ClientEvent.answered i exchange]).filterMap ClientEvent.started? =
      events.filterMap ClientEvent.started? := by
    rw [List.filterMap_append]
    exact List.append_nil _
  cases hexchange : Task.exchangeAt i exchange
      ((deployClient R sourceSecret).run .initial events).calls with
  | none =>
    have herror : (deployClient R sourceSecret).exec (.answered i exchange)
        ((deployClient R sourceSecret).run .initial events) = .error () := by
      simp only [deployClient, ClientEvent.exec] at hexchange ⊢
      rw [hexchange]
    have hlog : clientLog R sourceSecret (events ++ [.answered i exchange]) =
        clientLog R sourceSecret events := by
      rw [clientLog, Transactional.history_concat, Transactional.commit?_of_error herror,
        Option.toList_none, List.append_nil]
      rfl
    constructor
    · rw [hmade, hlog, Transactional.run_concat, Transactional.next_of_error herror]
      exact h.calls
    · rw [hlog, Transactional.run_concat, Transactional.next_of_error herror]
      exact h.factory
  | some calls =>
    have hok : (deployClient R sourceSecret).exec (.answered i exchange)
        ((deployClient R sourceSecret).run .initial events) =
        .ok ((), ⟨(assigned? exchange.1).or
          ((deployClient R sourceSecret).run .initial events).factoryContractId, calls⟩) := by
      simp only [deployClient, ClientEvent.exec] at hexchange ⊢
      rw [hexchange]
    have hlog : clientLog R sourceSecret (events ++ [.answered i exchange]) =
        clientLog R sourceSecret events ++ [(i, exchange)] := by
      rw [clientLog, Transactional.history_concat, Transactional.commit?_of_ok hok, Option.toList_some,
        List.filterMap_append]
      rfl
    constructor
    · rw [hmade, hlog, Transactional.run_concat, Transactional.next_of_ok hok]
      exact h.calls.exchange hexchange
    · rw [hlog, Transactional.run_concat, Transactional.next_of_ok hok, lastAssigned_concat, ← h.factory]

variable (R sourceSecret) in
/-- The account of the calls holds in every reachable state. -/
theorem clientOk (events : List ClientEvent) : ClientOk R sourceSecret events := by
  induction events using List.reverseRecOn with
  | nil => exact ⟨Task.explains_nil, rfl⟩
  | append_singleton events event ih =>
    cases event with
    | started call => exact ih.start call
    | answered i exchange => exact ih.answer i exchange

/-- Every call under way was started, and is where its answers have brought it. -/
theorem ClientOk.started (h : ClientOk R sourceSecret events) {i : ℕ} {task : ClientTask String}
    (hi : (((deployClient R sourceSecret).run .initial events).calls)[i]? = some task) :
    ∃ call, (events.filterMap ClientEvent.started?)[i]? = some call ∧
      (call.task R sourceSecret).after (Task.exchangesOf i (clientLog R sourceSecret events)) =
        some task := by
  obtain ⟨fresh, hfresh, hafter⟩ := h.calls.task i task hi
  rw [List.getElem?_map] at hfresh
  obtain ⟨call, hcall, rfl⟩ := Option.map_eq_some_iff.mp hfresh
  exact ⟨call, hcall, hafter⟩

/-- What is in the log had been asked for. -/
theorem ClientOk.justified (h : ClientOk R sourceSecret events) {before rest : List (ℕ × ClientExchange)}
    {i : ℕ} {exchange : ClientExchange}
    (hlog : clientLog R sourceSecret events = before ++ (i, exchange) :: rest) :
    ∃ call, (events.filterMap ClientEvent.started?)[i]? = some call ∧
      call.Justifies R sourceSecret (Task.exchangesOf i before) exchange.1 := by
  have hknown := h.calls.known (i, exchange) (by simp [hlog])
  have hlt : i < ((deployClient R sourceSecret).run .initial events).calls.length := by
    rw [h.calls.length]
    exact hknown
  obtain ⟨call, hcall, hafter⟩ := h.started (List.getElem?_eq_getElem hlt)
  refine ⟨call, hcall, ClientCall.justifies ?_⟩
  rw [hlog, Task.exchangesOf_append_cons_self] at hafter
  exact Task.asks_of_after hafter

/-- The factory of a client can be called. -/
theorem ClientOk.valid (h : ClientOk R sourceSecret events) {contractId : String}
    (hfactory : ((deployClient R sourceSecret).run .initial events).factoryContractId = some contractId) :
    R.strKey.isValidContract contractId = true := by
  rw [h.factory] at hfactory
  obtain ⟨i, hmem⟩ := mem_of_lastAssigned hfactory
  obtain ⟨before, rest, hlog⟩ := List.append_of_mem hmem
  obtain ⟨call, -, first, n, -, -, hinstalled⟩ := h.justified hlog
  exact hinstalled.valid

/-- While only valid ids are assigned, the client resolves to the one that is set. -/
theorem resolveFactory_of_valid {c : DeployClient}
    (h : ∀ contractId, c.factoryContractId = some contractId → R.strKey.isValidContract contractId = true)
    (contractId : String) :
    c.resolveFactory R = .ok contractId ↔ c.factoryContractId = some contractId := by
  rw [DeployClient.resolveFactory]
  cases hfactory : c.factoryContractId with
  | none => simp
  | some factory =>
    have hvalid := h factory hfactory
    have hne : factory ≠ "" := by
      rintro rfl
      cases R.strKey.contract_length "" hvalid
    have hfilter : (some factory).filter (· ≠ "") = some factory :=
      Option.filter_eq_some_iff.mpr ⟨rfl, decide_eq_true hne⟩
    rw [hfilter]
    show (checkContractId R factory).map (fun _ => factory) = .ok contractId ↔ _
    rw [checkContractId_of_valid hvalid, Option.some_inj]
    constructor
    · exact Except.ok.inj
    · exact congrArg Except.ok

end Run

/-- However the calls are mixed, each asks for things in its order, the client has the factory that was
assigned last, and a call returns its result exactly when it has completed. -/
theorem factory_is_installed (R : ClientRuntime) (sourceSecret : Option String)
    (events : List ClientEvent) :
    let c := (deployClient R sourceSecret).run .initial events
    let log := clientLog R sourceSecret events
    let made := events.filterMap ClientEvent.started?
    c.factoryContractId = lastAssigned log ∧
      (∀ contractId, c.resolveFactory R = .ok contractId ↔ c.factoryContractId = some contractId) ∧
      (∀ before i exchange rest, log = before ++ (i, exchange) :: rest →
        ∃ call, made[i]? = some call ∧
          call.Justifies R sourceSecret (Task.exchangesOf i before) exchange.1) ∧
      c.calls.length = made.length ∧
      ∀ (i : ℕ) (task : ClientTask String), c.calls[i]? = some task →
        ∃ call, made[i]? = some call ∧ ∀ result, task = .done (.ok result) ↔
          call.Completes R sourceSecret result (Task.exchangesOf i log) := by
  intro c log made
  have hok := clientOk R sourceSecret events
  refine ⟨hok.factory, resolveFactory_of_valid fun contractId => hok.valid, ?_, ?_, ?_⟩
  · intro before i exchange rest hlog
    exact hok.justified hlog
  · rw [hok.calls.length, List.length_map]
  · intro i task hi
    obtain ⟨call, hcall, hafter⟩ := hok.started hi
    refine ⟨call, hcall, fun result => ?_⟩
    rw [← ClientCall.returns_iff, Task.Returns, hafter]
    exact Option.some_inj.symm

end LineProof.Sdk
