import LineProof.Sdk.Js

/-!
# Typed events

Reference: `sdk/src/events.ts`.

`scValToNative` and the base64 decoding of an `xdr.ScVal` belong to the Stellar SDK. They are the
parameter `StellarSdk`, with what this file relies on as fields.
-/

namespace LineProof.Sdk

open Soroban

/-- The five contracts. -/
inductive EventNamespace
  | queue
  | enrollment
  | escrow
  | identity
  | factory
deriving DecidableEq

/-- The names that the SDK expects as the first topic. -/
def EventNamespace.name : EventNamespace → String
  | .queue => "lineproof.queue"
  | .enrollment => "lineproof.enrollment"
  | .escrow => "lineproof.escrow"
  | .identity => "lineproof.identity"
  | .factory => "lineproof.factory"

/-- `EVENT_NAMESPACES`. -/
def eventNamespaces : List EventNamespace := [.queue, .enrollment, .escrow, .identity, .factory]

/-- `isEventNamespace`, with the namespace it finds. -/
def isEventNamespace (value : String) : Option EventNamespace :=
  eventNamespaces.find? fun ns => ns.name = value

/-- The `data` of a typed event. -/
structure EventPayload where
  topics : List Native
  value : Option Native

/-- What all events have. -/
structure LineProofRawEvent where
  namespace_ : EventNamespace
  kind : String
  ledger : ℕ
  ledgerClosedAt : String
  contractId : String
  data : EventPayload

/-- What a member of `AnyLineProofEvent` has beside the fields of `LineProofRawEvent`. -/
inductive TypedFields
  | plain
  | position (positionId : JsNumber)
  | ownership (previousAdmin newAdmin : String)
  | identity (identity : String)
  | proof (identity proofHash : String)
  | amount (identity : String) (amount : ℤ)
  | transfer (from_ to_ : String)
  | deployed (slug contractId : String) (version : JsNumber)
  | slug (slug : String)

/-- An event with the fields of its kind. -/
structure AnyLineProofEvent where
  base : LineProofRawEvent
  fields : TypedFields

/-- One topic or value segment: an `xdr.ScVal`, or its base64 text. -/
inductive Segment
  | scVal (v : EventData)
  | text (s : String)

/-- What the RPC delivers. -/
structure RawContractEventLike where
  ledger : ℕ
  ledgerClosedAt : String
  contractId : Option String
  id : String
  /-- `none` if it is not an array -/
  topic : Option (List Segment)
  value : Option Segment

/-- The functions of the Stellar SDK, which are `none` where they throw. -/
structure StellarSdk where
  /-- `xdr.ScVal.fromXDR(s, 'base64')` -/
  fromXDR : String → Option EventData
  scValToNative : EventData → Option Native
  symbol : ∀ s, scValToNative (.val (.symbol s)) = some (.string s.str)
  string : ∀ s, scValToNative (.val (.string s)) = some (.string s)
  address : ∀ a, scValToNative (.val (.address a)) = some (.string a.strkey)
  u32 : ∀ n, scValToNative (.val (.u32 n)) = some (.number (.ofNat n))
  i128 : ∀ z, scValToNative (.val (.i128 z)) = some (.bigint z)

/-- The native value of one host value. -/
def nativeOf : ScVal → Native
  | .symbol s => .string s.str
  | .string s => .string s
  | .address a => .string a.strkey
  | .u32 n => .number (.ofNat n)
  | .u64 n => .bigint n
  | .i128 z => .bigint z
  | .bytes b => .bytes b

instance : Inhabited StellarSdk where
  default :=
    { fromXDR := fun _ => none
      scValToNative := fun
        | .void => some .null
        | .val v => some (nativeOf v)
        | .tuple vs => some (.array (vs.map nativeOf))
      symbol := fun _ => rfl
      string := fun _ => rfl
      address := fun _ => rfl
      u32 := fun _ => rfl
      i128 := fun _ => rfl }

variable (J : Conversions) (S : StellarSdk)

/-- A topic that cannot be decoded stands for itself. -/
def decodeTopicSegment : Segment → Native
  | .text s => ((S.fromXDR s).bind S.scValToNative).getD (.string s)
  | .scVal v => (S.scValToNative v).getD (.scVal v)

/-- The fields of each kind, read off the topics after the second. -/
def attachTypedFields (base : LineProofRawEvent) (extraTopics : List Native) :
    Except JsError (Option AnyLineProofEvent) :=
  let ok (fields : TypedFields) : Except JsError (Option AnyLineProofEvent) := .ok (some ⟨base, fields⟩)
  match base.namespace_, base.kind with
  | .queue, "Initialized" => ok .plain
  | .queue, "EnrollmentOpened" => ok .plain
  | .queue, "EnrollmentClosed" => ok .plain
  | .queue, "Advanced" => ok (.position (asNumber J extraTopics[0]?))
  | .queue, "QueueClosed" => ok .plain
  | .queue, "OwnershipTransferred" =>
    ok (.ownership (asString J extraTopics[0]?) (asString J extraTopics[1]?))
  | .enrollment, "Enrolled" => ok (.proof (asString J extraTopics[0]?) (asString J extraTopics[1]?))
  | .enrollment, "Cancelled" => ok (.identity (asString J extraTopics[0]?))
  | .enrollment, "Finalized" => ok (.identity (asString J extraTopics[0]?))
  | .escrow, "Deposited" | .escrow, "Released" | .escrow, "Refunded" | .escrow, "Expired" => do
    ok (.amount (asString J extraTopics[0]?) (← asBigInt extraTopics[1]?))
  | .identity, "Bound" => ok (.identity (asString J extraTopics[0]?))
  | .identity, "Unbound" => ok (.identity (asString J extraTopics[0]?))
  | .identity, "TransferReverted" =>
    ok (.transfer (asString J extraTopics[0]?) (asString J extraTopics[1]?))
  | .factory, "Deployed" =>
    let contractId := asString J extraTopics[1]?
    ok (.deployed (asString J extraTopics[0]?) (if contractId = "" then base.contractId else contractId)
      (asNumber J extraTopics[2]?))
  | .factory, "Registered" => ok (.slug (asString J extraTopics[0]?))
  -- also `Expired` of a queue, which has a member but no case
  | _, _ => .ok none

/-- The namespace and the kind come from the first two topics. -/
def deserializeContractEvent (raw : RawContractEventLike) :
    Except JsError (Option AnyLineProofEvent) :=
  match raw.topic with
  | some (topic₀ :: topic₁ :: rest) =>
    match decodeTopicSegment S topic₀, decodeTopicSegment S topic₁ with
    | .string ns, .string kind =>
      match isEventNamespace ns with
      | some namespace_ =>
        let extraTopics := rest.map (decodeTopicSegment S)
        attachTypedFields J
          { namespace_, kind, ledger := raw.ledger, ledgerClosedAt := raw.ledgerClosedAt
            contractId := raw.contractId.getD ""
            data := ⟨extraTopics, raw.value.map (decodeTopicSegment S)⟩ }
          extraTopics
      | none => .ok none
    | _, _ => .ok none
  | _ => .ok none

end LineProof.Sdk
