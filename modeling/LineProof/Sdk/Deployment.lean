import LineProof.Lib.Hex
import LineProof.Lib.Tasks
import LineProof.Lib.Transactional
import LineProof.Sdk.Calls

/-!
# Deploying the factory

Reference: `uploadWasm`, `installContract`, `deployFactory`, `awaitTransaction` and `resolveFactory` of
`sdk/src/client.ts`.

A deployment submits two transactions and polls for each until it is on the ledger. What a call has
exchanged with the network when it asks for something, and when it returns, is worked out for one function
after the other.

A submission is one exchange here. What it does by itself is the subject of `LineProof.Sdk.Submission`.
-/

namespace LineProof.Sdk

open Soroban

/-- The operations of a deployment. `createCustomContract` draws a salt in addition. -/
inductive HostOperation
  | uploadContractWasm (wasm : List UInt8)
  | createCustomContract (address : String) (wasmHash : List UInt8)
deriving DecidableEq

/-- What a call awaits. An assignment is a step of its own. -/
inductive ClientRequest
  /-- `submitSorobanOperation` -/
  | submit (operation : HostOperation)
  | getTransaction (hash : String)
  /-- `setTimeout`, in milliseconds -/
  | sleep (delay : ℕ)
  /-- `this.factoryContractId = contractId` -/
  | assign (contractId : String)
deriving DecidableEq

/-- A response of `getTransaction`, by its status. -/
inductive TransactionResponse
  | success (returnValue : Option EventData)
  | failed
  | notFound

/-- What a method may reject with. -/
structure ClientError where
  /-- `none` for an error that is no `SDKError` -/
  code : Option String
  message : String
  /-- `details.cause` -/
  cause : Option String

def ClientError.sdk (code message : String) : ClientError := ⟨some code, message, none⟩

/-- What each request is answered with. -/
def ClientRequest.Answer : ClientRequest → Type
  | .submit _ => Except ClientError String
  | .getTransaction _ => Except ClientError TransactionResponse
  | .sleep _ | .assign _ => Unit

/-- A method under way. -/
abbrev ClientTask (β : Type) := Task ClientRequest ClientRequest.Answer (Except ClientError β)

/-- A request with its answer. -/
abbrev ClientExchange := Exchange ClientRequest.Answer

/-- What the client takes from the Stellar SDK and from `crypto`. -/
structure ClientRuntime where
  strKey : StrKey
  /-- `Keypair.fromSecret(secret).publicKey()` -/
  publicKey : String → Except ClientError String
  /-- `createHash('sha256')` -/
  sha256 : List UInt8 → List UInt8
  sha256_length : ∀ bytes, (sha256 bytes).length = 32
  /-- what `Operation.createCustomContract` throws for a wasm hash, if it does -/
  refusal : List UInt8 → Option ClientError
  /-- `Address.fromScVal(value).toString()` -/
  fromScVal : EventData → Except String String

/-! ## The client -/

section Source

variable (R : ClientRuntime) (sourceSecret : Option String)

/-- The public key of the keypair. -/
def requireKeypair : Except ClientError String :=
  match sourceSecret.filter (· ≠ "") with
  | none => .error (.sdk "MISSING_CREDENTIALS" ("privateKey is required for this operation. " ++
      "Use LineProofClient.readOnly() for read-only access or provide a privateKey in the config."))
  | some secret => R.publicKey secret

/-- One request; what it signs and sends is not looked into. -/
def submitSorobanOperation (operation : HostOperation) : ClientTask String :=
  .await (.submit operation) .done

/-- Polls up to 15 times, two seconds apart. -/
def awaitTransaction (hash : String) (retries : ℕ) : ClientTask EventData :=
  if retries < 15 then
    .await (.getTransaction hash) fun
      | .error error => .done (.error error)
      | .ok (.success none) =>
        .done (.error (.sdk "TRANSACTION_FAILED" "Transaction succeeded but no return value found"))
      | .ok (.success (some returnValue)) => .done (.ok returnValue)
      | .ok .failed => .done (.error (.sdk "TRANSACTION_FAILED" "Transaction failed on ledger"))
      | .ok .notFound => .await (.sleep 2000) fun _ => awaitTransaction hash (retries + 1)
  else .done (.error (.sdk "TIMEOUT" "Transaction confirmation timeout"))
termination_by 15 - retries

/-- The common end of `uploadWasm` and `installContract`. -/
def confirm (operation : HostOperation) : ClientTask EventData :=
  (submitSorobanOperation operation).andThen fun txHash => awaitTransaction txHash 0

/-- `wasmHash`, in hexadecimal. -/
def wasmHashOf (wasmBytes : List UInt8) : String := String.ofList (Hex.ofBytes (R.sha256 wasmBytes))

/-- Answers with the hash of the code, not with what the ledger returned. -/
def uploadWasm (wasmBytes : List UInt8) : ClientTask String :=
  if wasmBytes = [] then
    .done (.error (.sdk "INVALID_INPUT" "wasmBytes must be a non-empty Uint8Array"))
  else
    (Task.done (requireKeypair R sourceSecret)).andThen fun _ =>
    (confirm (.uploadContractWasm wasmBytes)).andThen fun _ =>
    .done (.ok (wasmHashOf R wasmBytes))

/-- The operation, unless the library refuses the hash. -/
def createCustomContract (address : String) (wasmHash : List UInt8) : Except ClientError HostOperation :=
  match R.refusal wasmHash with
  | some error => .error error
  | none => .ok (.createCustomContract address wasmHash)

/-- `validateContractId`, as an error of the client. -/
def checkContractId (contractId : String) : Except ClientError Unit :=
  (validateContractId R.strKey contractId).mapError fun error => .sdk error.code error.message

/-- The id of the contract that a transaction returns. -/
def returnedContract (returnVal : EventData) : Except ClientError String :=
  match R.fromScVal returnVal with
  | .error cause => .error ⟨some "INVALID_RESPONSE",
      "createCustomContract did not return a contract address", some cause⟩
  | .ok contractId => (checkContractId R contractId).map fun _ => contractId

/-- `this.factoryContractId = …`. -/
def assignFactory (contractId : String) : ClientTask Unit := .await (.assign contractId) fun _ => .done (.ok ())

/-- Sets the factory's id for whatever contract it has created. -/
def installContract (wasmHash : String) : ClientTask String :=
  if wasmHash = "" then .done (.error (.sdk "INVALID_INPUT" "wasmHash must be a valid hex string"))
  else
    (Task.done (requireKeypair R sourceSecret)).andThen fun publicKey =>
    (Task.done (createCustomContract R publicKey (Hex.toBytes wasmHash.toList))).andThen fun operation =>
    (confirm operation).andThen fun returnVal =>
    (Task.done (returnedContract R returnVal)).andThen fun contractId =>
    (assignFactory contractId).andThen fun _ =>
    .done (.ok contractId)

/-- Without an argument the bytes are empty. -/
def deployFactory (wasmBytes : List UInt8) : ClientTask String :=
  (Task.done (requireKeypair R sourceSecret)).andThen fun _ =>
  if wasmBytes = [] then
    .done (.error (.sdk "INVALID_INPUT" "factory WASM bytes are required for deployment"))
  else
    (uploadWasm R sourceSecret wasmBytes).andThen fun wasmHash =>
    (installContract R sourceSecret wasmHash).andThen fun contractId =>
    -- `installContract` has checked and assigned the id already
    (Task.done (checkContractId R contractId)).andThen fun _ =>
    (assignFactory contractId).andThen fun _ =>
    .done (.ok contractId)

/-- The methods that deploy. -/
inductive ClientCall
  | uploadWasm (wasmBytes : List UInt8)
  | installContract (wasmHash : String)
  | deployFactory (wasmBytes : List UInt8)

/-- What a call runs. -/
def ClientCall.task : ClientCall → ClientTask String
  | .uploadWasm wasmBytes => Sdk.uploadWasm R sourceSecret wasmBytes
  | .installContract wasmHash => Sdk.installContract R sourceSecret wasmHash
  | .deployFactory wasmBytes => Sdk.deployFactory R sourceSecret wasmBytes

/-- A client, with the calls made on it. -/
structure DeployClient where
  factoryContractId : Option String
  calls : List (ClientTask String)

/-- No factory and no call. -/
def DeployClient.initial : DeployClient := ⟨none, []⟩

/-- What may happen in one turn. -/
inductive ClientEvent
  | started (call : ClientCall)
  /-- the answer to what the call `i` awaits -/
  | answered (i : ℕ) (exchange : ClientExchange)

/-- The factory that an exchange assigns. -/
def assigned? : ClientRequest → Option String
  | .assign contractId => some contractId
  | _ => none

/-- An answer that nothing awaits does not come. -/
def ClientEvent.exec (c : DeployClient) : ClientEvent → Except Unit (Unit × DeployClient)
  | .started call => .ok ((), { c with calls := c.calls ++ [call.task R sourceSecret] })
  | .answered i exchange =>
    match Task.exchangeAt i exchange c.calls with
    | none => .error ()
    | some calls => .ok ((), ⟨(assigned? exchange.1).or c.factoryContractId, calls⟩)

/-- The calls of one client, side by side. -/
def deployClient : Transactional DeployClient ClientEvent Unit Unit where
  exec event c := event.exec R sourceSecret c

/-- The id that is set, once more checked. -/
def DeployClient.resolveFactory (c : DeployClient) : Except ClientError String :=
  match c.factoryContractId.filter (· ≠ "") with
  | none =>
    .error (.sdk "FACTORY_NOT_DEPLOYED" "deployFactory() must be called before using this client")
  | some contractId => (checkContractId R contractId).map fun _ => contractId

end Source

/-! ## Transactions -/

/-- How polling for a transaction ends, if it may poll `k` times. -/
inductive Settles (hash : String) : ℕ → List ClientExchange → Except ClientError EventData → Prop
  | confirmed {k : ℕ} (value : EventData) :
    Settles hash (k + 1) [⟨.getTransaction hash, .ok (.success (some value))⟩] (.ok value)
  | noValue {k : ℕ} :
    Settles hash (k + 1) [⟨.getTransaction hash, .ok (.success none)⟩]
      (.error (.sdk "TRANSACTION_FAILED" "Transaction succeeded but no return value found"))
  | failed {k : ℕ} :
    Settles hash (k + 1) [⟨.getTransaction hash, .ok .failed⟩]
      (.error (.sdk "TRANSACTION_FAILED" "Transaction failed on ledger"))
  | unanswered {k : ℕ} (error : ClientError) :
    Settles hash (k + 1) [⟨.getTransaction hash, .error error⟩] (.error error)
  | again {k : ℕ} {rest : List ClientExchange} {result : Except ClientError EventData}
      (settles : Settles hash k rest result) :
    Settles hash (k + 1) (⟨.getTransaction hash, .ok .notFound⟩ :: ⟨.sleep 2000, ()⟩ :: rest) result
  | timeout :
    Settles hash 0 [] (.error (.sdk "TIMEOUT" "Transaction confirmation timeout"))

/-- The operation was sent, and its transaction was found on the ledger with the value. -/
def Confirmed (operation : HostOperation) (value : EventData) (exchanges : List ClientExchange) : Prop :=
  ∃ hash rest, exchanges = ⟨.submit operation, .ok hash⟩ :: rest ∧ Settles hash 15 rest (.ok value)

variable {hash : String} {retries k : ℕ} {exchanges : List ClientExchange} {value : EventData}
  {asked : ClientRequest} {operation : HostOperation}

/-- Polling returns as the answers settle it. -/
theorem returns_awaitTransaction_iff (hk : retries + k = 15) {result : Except ClientError EventData} :
    (awaitTransaction hash retries).Returns exchanges result ↔ Settles hash k exchanges result := by
  induction k generalizing retries exchanges with
  | zero =>
    rw [awaitTransaction, if_neg (by omega), Task.returns_done_iff]
    constructor
    · rintro ⟨rfl, rfl⟩
      exact .timeout
    · intro h
      cases h
      exact ⟨rfl, rfl⟩
  | succ k ih =>
    rw [awaitTransaction, if_pos (by omega), Task.returns_await_iff]
    constructor
    · rintro ⟨answer, rest, rfl, h⟩
      match answer, h with
      | .error error, h =>
        obtain ⟨rfl, rfl⟩ := Task.returns_done_iff.mp h
        exact .unanswered error
      | .ok (.success none), h =>
        obtain ⟨rfl, rfl⟩ := Task.returns_done_iff.mp h
        exact .noValue
      | .ok (.success (some value)), h =>
        obtain ⟨rfl, rfl⟩ := Task.returns_done_iff.mp h
        exact .confirmed value
      | .ok .failed, h =>
        obtain ⟨rfl, rfl⟩ := Task.returns_done_iff.mp h
        exact .failed
      | .ok .notFound, h =>
        obtain ⟨answer, rest, rfl, h⟩ := Task.returns_await_iff.mp h
        exact .again ((ih (by omega)).mp h)
    · intro h
      cases h with
      | confirmed value => exact ⟨_, [], rfl, Task.returns_done_iff.mpr ⟨rfl, rfl⟩⟩
      | noValue => exact ⟨_, [], rfl, Task.returns_done_iff.mpr ⟨rfl, rfl⟩⟩
      | failed => exact ⟨_, [], rfl, Task.returns_done_iff.mpr ⟨rfl, rfl⟩⟩
      | unanswered error => exact ⟨_, [], rfl, Task.returns_done_iff.mpr ⟨rfl, rfl⟩⟩
      | again settles =>
        exact ⟨_, _, rfl, Task.returns_await_iff.mpr ⟨(), _, rfl, (ih (by omega)).mpr settles⟩⟩

/-- Polling asks for nothing but the transaction and the next poll. -/
theorem asks_awaitTransaction (hk : retries + k = 15)
    (h : (awaitTransaction hash retries).Asks exchanges asked) :
    asked = .getTransaction hash ∨ asked = .sleep 2000 := by
  induction k generalizing retries exchanges with
  | zero =>
    rw [awaitTransaction, if_neg (by omega)] at h
    exact absurd h (Task.not_asks_done _)
  | succ k ih =>
    rw [awaitTransaction, if_pos (by omega), Task.asks_await_iff] at h
    rcases h with ⟨-, rfl⟩ | ⟨answer, rest, rfl, h⟩
    · exact .inl rfl
    · match answer, h with
      | .error error, h => exact absurd h (Task.not_asks_done _)
      | .ok (.success none), h => exact absurd h (Task.not_asks_done _)
      | .ok (.success (some value)), h => exact absurd h (Task.not_asks_done _)
      | .ok .failed, h => exact absurd h (Task.not_asks_done _)
      | .ok .notFound, h =>
        rcases Task.asks_await_iff.mp h with ⟨-, rfl⟩ | ⟨answer, rest, rfl, h⟩
        · exact .inr rfl
        · exact ih (by omega) h

/-- A confirmed operation was sent and its transaction found. -/
theorem returns_confirm_iff :
    (confirm operation).Returns exchanges (.ok value) ↔ Confirmed operation value exchanges := by
  rw [confirm, Task.returns_andThen_ok_iff]
  constructor
  · rintro ⟨hash, first, rest, rfl, hsubmit, hawait⟩
    obtain ⟨answer, first, rfl, hanswer⟩ := Task.returns_await_iff.mp hsubmit
    obtain ⟨rfl, rfl⟩ := Task.returns_done_iff.mp hanswer
    exact ⟨hash, rest, rfl, (returns_awaitTransaction_iff rfl).mp hawait⟩
  · rintro ⟨hash, rest, rfl, hsettles⟩
    refine ⟨hash, [_], rest, rfl, ?_, (returns_awaitTransaction_iff rfl).mpr hsettles⟩
    exact Task.returns_await_iff.mpr ⟨.ok hash, [], rfl, Task.returns_done_iff.mpr ⟨rfl, rfl⟩⟩

/-- A confirmation sends its operation first, and polls for the transaction then. -/
theorem asks_confirm (h : (confirm operation).Asks exchanges asked) :
    (exchanges = [] ∧ asked = .submit operation) ∨
      ∃ hash, ⟨.submit operation, .ok hash⟩ ∈ exchanges ∧
        (asked = .getTransaction hash ∨ asked = .sleep 2000) := by
  rw [confirm, Task.asks_andThen_iff] at h
  rcases h with h | ⟨hash, first, rest, rfl, hsubmit, h⟩
  · rcases Task.asks_await_iff.mp h with ⟨rfl, rfl⟩ | ⟨answer, rest, rfl, hdone⟩
    · exact .inl ⟨rfl, rfl⟩
    · exact absurd hdone (Task.not_asks_done _)
  · obtain ⟨answer, first, rfl, hanswer⟩ := Task.returns_await_iff.mp hsubmit
    obtain ⟨rfl, rfl⟩ := Task.returns_done_iff.mp hanswer
    exact .inr ⟨hash, List.mem_cons_self, asks_awaitTransaction (Nat.zero_add 15) h⟩

/-! ## Calls -/

section Calls

variable {R : ClientRuntime} {sourceSecret : Option String} {wasm wasmHash : List UInt8}
  {contractId publicKey : String}

variable (R sourceSecret) in
/-- The code was uploaded. -/
def Uploads (wasm : List UInt8) (exchanges : List ClientExchange) : Prop :=
  wasm ≠ [] ∧ (∃ publicKey, requireKeypair R sourceSecret = .ok publicKey) ∧
    ∃ value, Confirmed (.uploadContractWasm wasm) value exchanges

variable (R sourceSecret) in
/-- A contract was created from the code with the hash, under the client's own address. -/
def Installs (wasmHash : List UInt8) (contractId : String) (exchanges : List ClientExchange) : Prop :=
  ∃ publicKey value, requireKeypair R sourceSecret = .ok publicKey ∧ R.refusal wasmHash = none ∧
    Confirmed (.createCustomContract publicKey wasmHash) value exchanges ∧
    R.fromScVal value = .ok contractId ∧ R.strKey.isValidContract contractId = true

/-- The operation is built where the hash is not refused. -/
theorem createCustomContract_ok_iff :
    createCustomContract R publicKey wasmHash = .ok operation ↔
      R.refusal wasmHash = none ∧ operation = .createCustomContract publicKey wasmHash := by
  rw [createCustomContract]
  cases R.refusal wasmHash with
  | none => simp [eq_comm]
  | some error => simp

/-- A valid id passes. -/
theorem checkContractId_of_valid (h : R.strKey.isValidContract contractId = true) :
    checkContractId R contractId = .ok () := by
  rw [checkContractId, validateContractId, if_pos h]
  rfl

/-- An invalid id is an error. -/
theorem checkContractId_of_invalid (h : ¬R.strKey.isValidContract contractId = true) :
    ∃ error, checkContractId R contractId = .error error := by
  rw [checkContractId, validateContractId, if_neg h]
  exact ⟨_, rfl⟩

/-- A returned contract id was decoded and checked. -/
theorem returnedContract_ok_iff :
    returnedContract R value = .ok contractId ↔
      R.fromScVal value = .ok contractId ∧ R.strKey.isValidContract contractId = true := by
  rw [returnedContract]
  cases R.fromScVal value with
  | error cause => simp
  | ok returned =>
    by_cases hvalid : R.strKey.isValidContract returned = true
    · simp only [checkContractId_of_valid hvalid]
      constructor
      · rintro ⟨rfl⟩
        exact ⟨rfl, hvalid⟩
      · rintro ⟨⟨rfl⟩, -⟩
        rfl
    · obtain ⟨error, herror⟩ := checkContractId_of_invalid hvalid
      simp only [herror]
      constructor
      · rintro ⟨⟩
      · rintro ⟨⟨rfl⟩, h⟩
        exact absurd h hvalid

/-- The assignment is all that happens. -/
theorem returns_assignFactory_iff :
    (assignFactory contractId).Returns exchanges (.ok ()) ↔ exchanges = [⟨.assign contractId, ()⟩] := by
  rw [assignFactory, Task.returns_await_iff]
  constructor
  · rintro ⟨answer, rest, rfl, h⟩
    rw [(Task.returns_done_iff.mp h).1]
    rfl
  · rintro rfl
    exact ⟨(), [], rfl, Task.returns_done_iff.mpr ⟨rfl, rfl⟩⟩

/-- The assignment is the only request. -/
theorem asks_assignFactory_iff :
    (assignFactory contractId).Asks exchanges asked ↔ exchanges = [] ∧ .assign contractId = asked := by
  rw [assignFactory, Task.asks_await_iff]
  constructor
  · rintro (h | ⟨answer, rest, -, h⟩)
    · exact h
    · exact absurd h (Task.not_asks_done _)
  · exact .inl

/-! ### `uploadWasm` -/

/-- `uploadWasm` returns the hash of code that was uploaded. -/
theorem returns_uploadWasm_iff {result : String} :
    (uploadWasm R sourceSecret wasm).Returns exchanges (.ok result) ↔
      Uploads R sourceSecret wasm exchanges ∧ result = wasmHashOf R wasm := by
  rw [uploadWasm]
  by_cases hempty : wasm = []
  · rw [if_pos hempty, Task.returns_done_iff, Uploads]
    simp [hempty]
  · rw [if_neg hempty, Task.returns_done_andThen_ok_iff]
    constructor
    · rintro ⟨publicKey, hkey, h⟩
      obtain ⟨value, first, rest, rfl, hconfirm, hdone⟩ := Task.returns_andThen_ok_iff.mp h
      obtain ⟨rfl, heq⟩ := Task.returns_done_iff.mp hdone
      rw [List.append_nil]
      exact ⟨⟨hempty, ⟨publicKey, hkey⟩, value, returns_confirm_iff.mp hconfirm⟩,
        (Except.ok.inj heq).symm⟩
    · rintro ⟨⟨-, ⟨publicKey, hkey⟩, value, hconfirm⟩, rfl⟩
      refine ⟨publicKey, hkey, Task.returns_andThen_ok_iff.mpr ⟨value, exchanges, [], ?_, ?_, ?_⟩⟩
      · exact (List.append_nil exchanges).symm
      · exact returns_confirm_iff.mpr hconfirm
      · exact Task.returns_done_iff.mpr ⟨rfl, rfl⟩

/-- An upload confirms its code, and asks for nothing else. -/
theorem asks_uploadWasm_iff :
    (uploadWasm R sourceSecret wasm).Asks exchanges asked ↔
      wasm ≠ [] ∧ (∃ publicKey, requireKeypair R sourceSecret = .ok publicKey) ∧
        (confirm (.uploadContractWasm wasm)).Asks exchanges asked := by
  rw [uploadWasm]
  by_cases hempty : wasm = []
  · rw [if_pos hempty]
    constructor
    · intro h
      exact absurd h (Task.not_asks_done _)
    · intro h
      exact absurd hempty h.1
  · rw [if_neg hempty, Task.asks_done_andThen_iff]
    constructor
    · rintro ⟨publicKey, hkey, h⟩
      rcases Task.asks_andThen_iff.mp h with hconfirm | ⟨value, first, rest, -, -, hdone⟩
      · exact ⟨hempty, ⟨publicKey, hkey⟩, hconfirm⟩
      · exact absurd hdone (Task.not_asks_done _)
    · rintro ⟨-, ⟨publicKey, hkey⟩, hconfirm⟩
      exact ⟨publicKey, hkey, Task.asks_andThen_iff.mpr (.inl hconfirm)⟩

/-! ### `installContract` -/

variable {hexHash : String}

/-- The code of `installContract`, one exchange of transactions after the other. -/
theorem asks_installContract_iff :
    (installContract R sourceSecret hexHash).Asks exchanges asked ↔
      hexHash ≠ "" ∧ ∃ publicKey, requireKeypair R sourceSecret = .ok publicKey ∧
        R.refusal (Hex.toBytes hexHash.toList) = none ∧
        ((confirm (.createCustomContract publicKey (Hex.toBytes hexHash.toList))).Asks exchanges asked ∨
          ∃ contractId, Installs R sourceSecret (Hex.toBytes hexHash.toList) contractId exchanges ∧
            .assign contractId = asked) := by
  rw [installContract]
  by_cases hempty : hexHash = ""
  · rw [if_pos hempty]
    constructor
    · intro h
      exact absurd h (Task.not_asks_done _)
    · intro h
      exact absurd hempty h.1
  · rw [if_neg hempty, Task.asks_done_andThen_iff]
    constructor
    · rintro ⟨publicKey, hkey, h⟩
      obtain ⟨operation, hcreate, hasks⟩ := Task.asks_done_andThen_iff.mp h
      obtain ⟨haccepted, rfl⟩ := createCustomContract_ok_iff.mp hcreate
      refine ⟨hempty, publicKey, hkey, haccepted, ?_⟩
      rcases Task.asks_andThen_iff.mp hasks with hconfirm | ⟨value, first, rest, rfl, hconfirm, hrest⟩
      · exact .inl hconfirm
      · obtain ⟨contractId, hreturned, hassign⟩ := Task.asks_done_andThen_iff.mp hrest
        obtain ⟨hvalue, hvalid⟩ := returnedContract_ok_iff.mp hreturned
        rcases Task.asks_andThen_iff.mp hassign with hassign | ⟨done, first, rest, -, -, hdone⟩
        · obtain ⟨rfl, rfl⟩ := asks_assignFactory_iff.mp hassign
          rw [List.append_nil]
          exact .inr ⟨contractId,
            ⟨publicKey, value, hkey, haccepted, returns_confirm_iff.mp hconfirm, hvalue, hvalid⟩, rfl⟩
        · exact absurd hdone (Task.not_asks_done _)
    · rintro ⟨-, publicKey, hkey, haccepted, h⟩
      refine ⟨publicKey, hkey, Task.asks_done_andThen_iff.mpr
        ⟨_, createCustomContract_ok_iff.mpr ⟨haccepted, rfl⟩, Task.asks_andThen_iff.mpr ?_⟩⟩
      rcases h with hconfirm | ⟨contractId, ⟨publicKey', value, hkey', -, hconfirm, hvalue, hvalid⟩, rfl⟩
      · exact .inl hconfirm
      · obtain rfl : publicKey = publicKey' := Except.ok.inj (hkey.symm.trans hkey')
        refine .inr ⟨value, exchanges, [], (List.append_nil exchanges).symm,
          returns_confirm_iff.mpr hconfirm, Task.asks_done_andThen_iff.mpr
          ⟨contractId, returnedContract_ok_iff.mpr ⟨hvalue, hvalid⟩, Task.asks_andThen_iff.mpr ?_⟩⟩
        exact .inl (asks_assignFactory_iff.mpr ⟨rfl, rfl⟩)

/-- `installContract` returns the contract it created, with the id assigned last. -/
theorem returns_installContract_iff :
    (installContract R sourceSecret hexHash).Returns exchanges (.ok contractId) ↔
      hexHash ≠ "" ∧ ∃ first, exchanges = first ++ [⟨.assign contractId, ()⟩] ∧
        Installs R sourceSecret (Hex.toBytes hexHash.toList) contractId first := by
  rw [installContract]
  by_cases hempty : hexHash = ""
  · rw [if_pos hempty, Task.returns_done_iff]
    simp [hempty]
  · rw [if_neg hempty, Task.returns_done_andThen_ok_iff]
    constructor
    · rintro ⟨publicKey, hkey, h⟩
      obtain ⟨operation, hcreate, hreturns⟩ := Task.returns_done_andThen_ok_iff.mp h
      obtain ⟨haccepted, rfl⟩ := createCustomContract_ok_iff.mp hcreate
      obtain ⟨value, first, rest, rfl, hconfirm, hrest⟩ := Task.returns_andThen_ok_iff.mp hreturns
      obtain ⟨returned, hreturned, hassign⟩ := Task.returns_done_andThen_ok_iff.mp hrest
      obtain ⟨hvalue, hvalid⟩ := returnedContract_ok_iff.mp hreturned
      obtain ⟨done, assignment, last, rfl, hassigned, hdone⟩ := Task.returns_andThen_ok_iff.mp hassign
      obtain ⟨rfl, heq⟩ := Task.returns_done_iff.mp hdone
      obtain rfl := Except.ok.inj heq
      rw [returns_assignFactory_iff.mp hassigned, List.append_nil]
      exact ⟨hempty, first, rfl,
        publicKey, value, hkey, haccepted, returns_confirm_iff.mp hconfirm, hvalue, hvalid⟩
    · rintro ⟨-, first, rfl, publicKey, value, hkey, haccepted, hconfirm, hvalue, hvalid⟩
      refine ⟨publicKey, hkey, Task.returns_done_andThen_ok_iff.mpr
        ⟨_, createCustomContract_ok_iff.mpr ⟨haccepted, rfl⟩, Task.returns_andThen_ok_iff.mpr
        ⟨value, first, _, rfl, returns_confirm_iff.mpr hconfirm, Task.returns_done_andThen_ok_iff.mpr
        ⟨contractId, returnedContract_ok_iff.mpr ⟨hvalue, hvalid⟩, Task.returns_andThen_ok_iff.mpr
        ⟨(), _, [], (List.append_nil _).symm, returns_assignFactory_iff.mpr rfl, ?_⟩⟩⟩⟩⟩
      exact Task.returns_done_iff.mpr ⟨rfl, rfl⟩

/-! ### `deployFactory` -/

variable (R) in
/-- The printed hash is read back as its bytes. -/
theorem toBytes_wasmHashOf (wasm : List UInt8) : Hex.toBytes (wasmHashOf R wasm).toList = R.sha256 wasm := by
  rw [wasmHashOf, String.toList_ofList, Hex.toBytes_ofBytes]

variable (R) in
/-- A printed hash is not empty. -/
theorem wasmHashOf_ne_empty (wasm : List UInt8) : wasmHashOf R wasm ≠ "" := by
  intro h
  have hbytes := toBytes_wasmHashOf R wasm
  rw [h] at hbytes
  have hlength := R.sha256_length wasm
  rw [← hbytes] at hlength
  cases hlength

/-- A contract that was created has a valid id. -/
theorem Installs.valid (h : Installs R sourceSecret wasmHash contractId exchanges) :
    R.strKey.isValidContract contractId = true := by
  obtain ⟨publicKey, value, -, -, -, -, hvalid⟩ := h
  exact hvalid

/-- `deployFactory` asks what the upload asks, and after it what the creation asks. -/
theorem asks_deployFactory_iff :
    (deployFactory R sourceSecret wasm).Asks exchanges asked ↔
      (uploadWasm R sourceSecret wasm).Asks exchanges asked ∨
        ∃ first rest, exchanges = first ++ rest ∧ Uploads R sourceSecret wasm first ∧
          ((installContract R sourceSecret (wasmHashOf R wasm)).Asks rest asked ∨
            ∃ contractId installed, rest = installed ++ [⟨.assign contractId, ()⟩] ∧
              Installs R sourceSecret (R.sha256 wasm) contractId installed ∧
              .assign contractId = asked) := by
  rw [deployFactory, Task.asks_done_andThen_iff]
  constructor
  · rintro ⟨publicKey, hkey, h⟩
    by_cases hempty : wasm = []
    · rw [if_pos hempty] at h
      exact absurd h (Task.not_asks_done _)
    · rw [if_neg hempty] at h
      rcases Task.asks_andThen_iff.mp h with hupload | ⟨hexHash, first, rest, rfl, hupload, hrest⟩
      · exact .inl hupload
      · obtain ⟨huploads, rfl⟩ := returns_uploadWasm_iff.mp hupload
        refine .inr ⟨first, rest, rfl, huploads, ?_⟩
        rcases Task.asks_andThen_iff.mp hrest with
          hinstall | ⟨contractId, installed, last, rfl, hinstall, hlast⟩
        · exact .inl hinstall
        · obtain ⟨-, installed, rfl, hinstalls⟩ := returns_installContract_iff.mp hinstall
          rw [checkContractId_of_valid hinstalls.valid, Task.done_ok_andThen] at hlast
          rcases Task.asks_andThen_iff.mp hlast with hassign | ⟨done, before, after, -, -, hdone⟩
          · obtain ⟨rfl, rfl⟩ := asks_assignFactory_iff.mp hassign
            rw [toBytes_wasmHashOf] at hinstalls
            rw [List.append_nil]
            exact .inr ⟨contractId, installed, rfl, hinstalls, rfl⟩
          · exact absurd hdone (Task.not_asks_done _)
  · intro h
    have hstart : wasm ≠ [] ∧ ∃ publicKey, requireKeypair R sourceSecret = .ok publicKey := by
      rcases h with hupload | ⟨first, rest, rfl, hupload, -⟩
      · obtain ⟨hempty, hkey, -⟩ := asks_uploadWasm_iff.mp hupload
        exact ⟨hempty, hkey⟩
      · exact ⟨hupload.1, hupload.2.1⟩
    obtain ⟨hempty, publicKey, hkey⟩ := hstart
    refine ⟨publicKey, hkey, ?_⟩
    rw [if_neg hempty, Task.asks_andThen_iff]
    rcases h with hupload | ⟨first, rest, rfl, hupload, hrest⟩
    · exact .inl hupload
    · refine .inr ⟨_, first, rest, rfl, returns_uploadWasm_iff.mpr ⟨hupload, rfl⟩, ?_⟩
      rw [Task.asks_andThen_iff]
      rcases hrest with hinstall | ⟨contractId, installed, rfl, hinstalls, rfl⟩
      · exact .inl hinstall
      · refine .inr ⟨contractId, _, [], (List.append_nil _).symm, ?_, ?_⟩
        · rw [returns_installContract_iff, toBytes_wasmHashOf]
          exact ⟨wasmHashOf_ne_empty R wasm, installed, rfl, hinstalls⟩
        · rw [checkContractId_of_valid hinstalls.valid, Task.done_ok_andThen]
          exact Task.asks_andThen_iff.mpr (.inl (asks_assignFactory_iff.mpr ⟨rfl, rfl⟩))

/-- `deployFactory` returns the contract created from the uploaded code, and assigns its id twice. -/
theorem returns_deployFactory_iff :
    (deployFactory R sourceSecret wasm).Returns exchanges (.ok contractId) ↔
      ∃ first installed, exchanges =
          first ++ (installed ++ [⟨.assign contractId, ()⟩] ++ [⟨.assign contractId, ()⟩]) ∧
        Uploads R sourceSecret wasm first ∧
        Installs R sourceSecret (R.sha256 wasm) contractId installed := by
  rw [deployFactory, Task.returns_done_andThen_ok_iff]
  constructor
  · rintro ⟨publicKey, hkey, h⟩
    by_cases hempty : wasm = []
    · rw [if_pos hempty, Task.returns_done_iff] at h
      obtain ⟨-, heq⟩ := h
      cases heq
    · rw [if_neg hempty] at h
      obtain ⟨hexHash, first, rest, rfl, hupload, hrest⟩ := Task.returns_andThen_ok_iff.mp h
      obtain ⟨huploads, rfl⟩ := returns_uploadWasm_iff.mp hupload
      obtain ⟨returned, before, last, rfl, hinstall, hlast⟩ := Task.returns_andThen_ok_iff.mp hrest
      obtain ⟨-, installed, rfl, hinstalls⟩ := returns_installContract_iff.mp hinstall
      rw [checkContractId_of_valid hinstalls.valid, Task.done_ok_andThen] at hlast
      obtain ⟨done, assignment, final, rfl, hassign, hdone⟩ := Task.returns_andThen_ok_iff.mp hlast
      obtain ⟨rfl, heq⟩ := Task.returns_done_iff.mp hdone
      obtain rfl := Except.ok.inj heq
      rw [toBytes_wasmHashOf] at hinstalls
      rw [returns_assignFactory_iff.mp hassign, List.append_nil]
      exact ⟨first, installed, rfl, huploads, hinstalls⟩
  · rintro ⟨first, installed, rfl, hupload, hinstalls⟩
    obtain ⟨publicKey, hkey⟩ := hupload.2.1
    refine ⟨publicKey, hkey, ?_⟩
    rw [if_neg hupload.1, Task.returns_andThen_ok_iff]
    refine ⟨_, first, _, rfl, returns_uploadWasm_iff.mpr ⟨hupload, rfl⟩, ?_⟩
    rw [Task.returns_andThen_ok_iff]
    refine ⟨contractId, _, _, rfl, ?_, ?_⟩
    · rw [returns_installContract_iff, toBytes_wasmHashOf]
      exact ⟨wasmHashOf_ne_empty R wasm, installed, rfl, hinstalls⟩
    · rw [checkContractId_of_valid hinstalls.valid, Task.done_ok_andThen, Task.returns_andThen_ok_iff]
      refine ⟨(), _, [], (List.append_nil _).symm, returns_assignFactory_iff.mpr rfl, ?_⟩
      exact Task.returns_done_iff.mpr ⟨rfl, rfl⟩

end Calls

end LineProof.Sdk
