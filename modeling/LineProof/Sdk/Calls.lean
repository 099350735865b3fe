import LineProof.Escrow.Defs
import LineProof.Enrollment.Defs
import LineProof.Identity.Defs
import LineProof.Queue.Defs
import LineProof.Sdk.Js

/-!
# Contract calls of the SDK

Reference: `sdk/src/escrow.ts`, `sdk/src/enrollment.ts`, `sdk/src/identity.ts`, `sdk/src/queue.ts`, with
the encoders of `sdk/src/utils.ts`.

A write method checks its arguments and builds an operation for `submitSorobanOperation`. It accepts an
input if it gets that far. The strkey checks belong to the Stellar SDK and are the parameter `StrKey`.
-/

namespace LineProof.Sdk

open Soroban

/-- The checks of `StrKey`. -/
structure StrKey where
  isValidEd25519PublicKey : String → Bool
  isValidContract : String → Bool
  /-- a contract strkey is the base32 text of 35 bytes -/
  contract_length : ∀ s, isValidContract s = true → s.length = 56

/-- The SDK's own error. -/
structure SDKError where
  code : String
  message : String
  /-- `details.value` -/
  details : Option Native

/-- `Operation.invokeContractFunction`. -/
structure Operation where
  contract : String
  function : String
  args : List EventData

variable (K : StrKey)

/-! ## Checks and encoders -/

/-- The address library decides. -/
def validateContractId (contractId : String) : Except SDKError Unit :=
  if K.isValidContract contractId then .ok ()
  else .error ⟨"INVALID_CONTRACT_ID", "Invalid Stellar contract ID: " ++ contractId, none⟩

/-- The address library decides. -/
def assertValidAddress (address fieldName : String) : Except SDKError Unit :=
  if K.isValidEd25519PublicKey address then .ok ()
  else .error ⟨"INVALID_ADDRESS", fieldName ++ " must be a valid Stellar public key",
    some (.string address)⟩

/-- An address is checked before it is encoded. -/
def encodeScAddress (address : String) : Except SDKError EventData := do
  assertValidAddress K address "address"
  return .val (.address ⟨address⟩)

/-- Refuses what is no integer in range. -/
def encodeScU32 : JsNumber → Except SDKError EventData
  | .finite q =>
    if q.den ≠ 1 ∨ q < 0 ∨ 4294967295 < q then
      .error ⟨"INVALID_INPUT", "Value must be a 32-bit unsigned integer", some (.number (.finite q))⟩
    else .ok (.val (.u32 q.num.toNat))
  | value =>
    .error ⟨"INVALID_INPUT", "Value must be a 32-bit unsigned integer", some (.number value)⟩

/-- `encodeScU64` of a bigint. -/
def encodeScU64 (value : ℤ) : Except SDKError EventData :=
  if value < 0 ∨ 18446744073709551615 < value then
    .error ⟨"INVALID_INPUT", "Value must be a 64-bit unsigned integer", some (.bigint value)⟩
  else .ok (.val (.u64 value.toNat))

/-- Refuses the empty text only; the characters are not looked at. -/
def encodeScSymbol (symbol : String) : Except SDKError EventData :=
  if symbol = "" then
    .error ⟨"INVALID_INPUT", "Symbol must be a non-empty string", some (.string symbol)⟩
  else .ok (.val (.symbol ⟨symbol⟩))

/-! ## Clients -/

/-- An `EscrowClient`, `EnrollmentClient` or `IdentityClient`. The constructor checks the id it is given. -/
structure ContractClient where
  contractId : Option String
  valid : ∀ id ∈ contractId, K.isValidContract id = true

/-- A client of one queue contract, whose id was checked when it was built. -/
structure QueueClient where
  queueContractId : String
  valid : K.isValidContract queueContractId = true

variable {K}

/-- `argument || this.contractId || ""`. -/
def ContractClient.targetId (client : ContractClient K) (argument : String) : String :=
  if argument ≠ "" then argument else client.contractId.getD ""

variable (client : ContractClient K)

/-! ### `EscrowClient` -/

/-- The amount is checked first. -/
def deposit (escrowContractId caller queueId : String) (amount : ℤ) (asset : String) :
    Except SDKError Operation := do
  if amount ≤ 0 then
    throw ⟨"INVALID_INPUT", "deposit amount must be positive", none⟩
  let targetId := client.targetId escrowContractId
  validateContractId K targetId
  assertValidAddress K caller "caller"
  return {
    contract := targetId
    function := "deposit"
    args := [← encodeScAddress K caller, ← encodeScSymbol queueId, ← encodeScU64 amount,
      ← encodeScSymbol asset] }

/-- The common body of `release` and `refund`. -/
def settle (function : String) (escrowContractId identity queueId : String) :
    Except SDKError Operation := do
  let targetId := client.targetId escrowContractId
  validateContractId K targetId
  assertValidAddress K identity "identity"
  return { contract := targetId, function
           args := [← encodeScAddress K identity, ← encodeScSymbol queueId] }

/-- The common body, under its own function name. -/
def release (escrowContractId identity queueId : String) : Except SDKError Operation :=
  settle client "release" escrowContractId identity queueId

/-- The common body, under its own function name. -/
def refund (escrowContractId identity queueId : String) : Except SDKError Operation :=
  settle client "refund" escrowContractId identity queueId

/-- The identity is passed on as it comes. -/
def expire (escrowContractId identity : String) : Except SDKError Operation := do
  let targetId := client.targetId escrowContractId
  validateContractId K targetId
  -- the only method that does not look at the address
  return { contract := targetId, function := "expire", args := [.val (.string identity)] }

/-! ### `EnrollmentClient` -/

/-- The common body of `enroll` and `cancel`. -/
def callAsCaller (function : String) (queueId caller : String) : Except SDKError Operation := do
  let targetId := client.targetId queueId
  validateContractId K targetId
  assertValidAddress K caller "caller"
  return { contract := targetId, function, args := [← encodeScAddress K caller] }

/-- The common body, under its own function name. -/
def enroll (queueId caller : String) : Except SDKError Operation :=
  callAsCaller client "enroll" queueId caller

/-- The common body, under its own function name. -/
def cancel (queueId caller : String) : Except SDKError Operation :=
  callAsCaller client "cancel" queueId caller

/-! ### `IdentityClient` -/

/-- Also needs a queue id that is not empty. -/
def bindIdentity (queueId identity : String) : Except SDKError Operation := do
  let targetId := client.targetId queueId
  validateContractId K targetId
  assertValidAddress K identity "identity"
  return { contract := targetId, function := "bind"
           args := [← encodeScAddress K identity, ← encodeScSymbol targetId] }

/-! ### `QueueClient` -/

variable (queue : QueueClient K)

/-- The batch size is encoded as a `u32`. -/
def advance (admin : String) (batchSize : JsNumber) : Except SDKError Operation := do
  assertValidAddress K admin "admin"
  return { contract := queue.queueContractId, function := "advance"
           args := [← encodeScAddress K admin, ← encodeScU32 batchSize] }

/-- Only the administrator is checked. -/
def close (admin : String) : Except SDKError Operation := do
  assertValidAddress K admin "admin"
  return { contract := queue.queueContractId, function := "close", args := [← encodeScAddress K admin] }

variable (K) in
/-- A call of a write method. -/
inductive WriteCall
  | deposit (client : ContractClient K) (escrowContractId caller queueId : String) (amount : ℤ)
      (asset : String)
  | release (client : ContractClient K) (escrowContractId identity queueId : String)
  | refund (client : ContractClient K) (escrowContractId identity queueId : String)
  | expire (client : ContractClient K) (escrowContractId identity : String)
  | enroll (client : ContractClient K) (queueId caller : String)
  | cancel (client : ContractClient K) (queueId caller : String)
  | bindIdentity (client : ContractClient K) (queueId identity : String)
  | advance (client : QueueClient K) (admin : String) (batchSize : JsNumber)
  | close (client : QueueClient K) (admin : String)

/-- The operation a call submits. -/
def WriteCall.build : WriteCall K → Except SDKError Operation
  | .deposit client escrowContractId caller queueId amount asset =>
    Sdk.deposit client escrowContractId caller queueId amount asset
  | .release client escrowContractId identity queueId =>
    Sdk.release client escrowContractId identity queueId
  | .refund client escrowContractId identity queueId =>
    Sdk.refund client escrowContractId identity queueId
  | .expire client escrowContractId identity => Sdk.expire client escrowContractId identity
  | .enroll client queueId caller => Sdk.enroll client queueId caller
  | .cancel client queueId caller => Sdk.cancel client queueId caller
  | .bindIdentity client queueId identity => Sdk.bindIdentity client queueId identity
  | .advance client admin batchSize => Sdk.advance client admin batchSize
  | .close client admin => Sdk.close client admin

/-! ## What the contracts make of an argument vector

The host refuses a call whose arity or argument types differ from the signature. A symbol has at most 32
characters, of `[a-zA-Z0-9_]`.
-/

/-- The host's conversion of an argument of type `Address`. -/
def decodeAddress : EventData → Option Address
  | .val (.address a) => some a
  | _ => none

/-- The host's rule: up to 32 letters, digits and underscores. -/
def isSymbol (s : Symbol) : Bool :=
  s.str.length ≤ 32 ∧ s.str.toList.all fun c => c.isAlphanum ∨ c = '_'

/-- The host's conversion of an argument of type `Symbol`. -/
def decodeSymbol : EventData → Option Symbol
  | .val (.symbol s) => if isSymbol s then some s else none
  | _ => none

/-- The host's conversion of an argument of type `i128`. -/
def decodeI128 : EventData → Option ℤ
  | .val (.i128 z) => if i128Min ≤ z ∧ z ≤ i128Max then some z else none
  | _ => none

/-- The host's conversion of an argument of type `u32`. -/
def decodeU32 : EventData → Option ℕ
  | .val (.u32 n) => if n ≤ u32Max then some n else none
  | _ => none

/-- `Option<u64>`. -/
def decodeOptionU64 : EventData → Option (Option ℕ)
  | .void => some none
  | .val (.u64 n) => if n ≤ u64Max then some (some n) else none
  | _ => none

/-- `trait Escrow`, for the functions the SDK names. -/
def decodeEscrow : String → List EventData → Option Escrow.Entrypoint
  | "deposit", [caller, queueId, amount, asset] => do
    return .deposit (← decodeAddress caller) (← decodeSymbol queueId) (← decodeI128 amount)
      (← decodeAddress asset)
  | "release", [admin, identity, queueId] => do
    return .release (← decodeAddress admin) (← decodeAddress identity) (← decodeSymbol queueId)
  | "refund", [admin, identity, queueId] => do
    return .refund (← decodeAddress admin) (← decodeAddress identity) (← decodeSymbol queueId)
  | "expire", [identity, queueId] => do
    return .expire (← decodeAddress identity) (← decodeSymbol queueId)
  | _, _ => none

/-- `trait Enrollment`, for the functions the SDK names. -/
def decodeEnrollment : String → List EventData → Option Enrollment.Entrypoint
  | "enroll", [caller, queueId, expiresAt] => do
    return .enroll (← decodeAddress caller) (← decodeSymbol queueId) (← decodeOptionU64 expiresAt)
  | "cancel", [caller, queueId] => do
    return .cancel (← decodeAddress caller) (← decodeSymbol queueId)
  | _, _ => none

/-- `trait Identity`, for the function the SDK names. -/
def decodeIdentity : String → List EventData → Option Identity.Entrypoint
  | "bind", [identity, queueId] => do
    return .bind (← decodeAddress identity) (← decodeSymbol queueId)
  | _, _ => none

/-- `trait Queue`, for the functions the SDK names. -/
def decodeQueue : String → List EventData → Option Queue.Entrypoint
  | "advance", [admin, batchSize] => do
    return .advance (← decodeAddress admin) (← decodeU32 batchSize)
  | "close", [admin] => do return .close (← decodeAddress admin)
  | _, _ => none

/-- The contract accepts the operation and reads the values of the caller from it. What the contract asks
for and the caller does not give may be anything. -/
def WriteCall.Decodes (op : Operation) : WriteCall K → Prop
  | .deposit _ _ caller queueId amount asset =>
    decodeEscrow op.function op.args = some (.deposit ⟨caller⟩ ⟨queueId⟩ amount ⟨asset⟩)
  | .release _ _ identity queueId =>
    ∃ admin, decodeEscrow op.function op.args = some (.release admin ⟨identity⟩ ⟨queueId⟩)
  | .refund _ _ identity queueId =>
    ∃ admin, decodeEscrow op.function op.args = some (.refund admin ⟨identity⟩ ⟨queueId⟩)
  | .expire _ _ identity =>
    ∃ queueId, decodeEscrow op.function op.args = some (.expire ⟨identity⟩ queueId)
  | .enroll _ _ caller =>
    ∃ queueId expiresAt,
      decodeEnrollment op.function op.args = some (.enroll ⟨caller⟩ queueId expiresAt)
  | .cancel _ _ caller =>
    ∃ queueId, decodeEnrollment op.function op.args = some (.cancel ⟨caller⟩ queueId)
  | .bindIdentity client queueId identity =>
    decodeIdentity op.function op.args = some (.bind ⟨identity⟩ ⟨client.targetId queueId⟩)
  | .advance _ admin batchSize =>
    ∃ n, batchSize = .ofNat n ∧ decodeQueue op.function op.args = some (.advance ⟨admin⟩ n)
  | .close _ admin => decodeQueue op.function op.args = some (.close ⟨admin⟩)

/-- The arguments of a call are what its contract can be asked. -/
def WriteCall.WellFormed : WriteCall K → Prop
  | .deposit client escrowContractId caller queueId amount asset =>
    (0 < amount ∧ amount ≤ i128Max) ∧ K.isValidContract (client.targetId escrowContractId) = true ∧
      K.isValidEd25519PublicKey caller = true ∧ queueId ≠ "" ∧ asset ≠ ""
  | .release client escrowContractId identity queueId
  | .refund client escrowContractId identity queueId =>
    K.isValidContract (client.targetId escrowContractId) = true ∧
      K.isValidEd25519PublicKey identity = true ∧ queueId ≠ ""
  | .expire client escrowContractId _ =>
    K.isValidContract (client.targetId escrowContractId) = true
  | .enroll client queueId caller | .cancel client queueId caller =>
    K.isValidContract (client.targetId queueId) = true ∧ K.isValidEd25519PublicKey caller = true
  | .bindIdentity client queueId identity =>
    K.isValidContract (client.targetId queueId) = true ∧ K.isValidEd25519PublicKey identity = true
  | .advance _ admin batchSize =>
    K.isValidEd25519PublicKey admin = true ∧ ∃ n ≤ u32Max, batchSize = .ofNat n
  | .close _ admin => K.isValidEd25519PublicKey admin = true

/-- The one method whose arguments are not those the contract declares. -/
def WriteCall.IsDeposit : WriteCall K → Prop
  | .deposit .. => True
  | _ => False

/-- `advance` or `close`. -/
def WriteCall.IsQueueCall : WriteCall K → Prop
  | .advance .. | .close .. => True
  | _ => False

/-- What is built decodes to what was asked, and every positive `i128` can be deposited. -/
def WriteCall.Faithful (call : WriteCall K) : Prop :=
  (∀ op, call.build = .ok op → call.Decodes op) ∧
    (call.IsDeposit → call.WellFormed → ∃ op, call.build = .ok op)

end LineProof.Sdk
