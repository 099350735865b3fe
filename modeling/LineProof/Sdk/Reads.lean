import LineProof.Queue.Positions
import LineProof.Queue.Replay
import LineProof.Sdk.Deployment
import LineProof.Sdk.Signatures

/-!
# Reads of the SDK

Reference: `getPosition` of `sdk/src/queue.ts`, `isEnrolled` of `sdk/src/enrollment.ts`, `isBound` of
`sdk/src/identity.ts`, with `simulateContractCall` of `sdk/src/client.ts`.

A read is a simulated call. `getPosition` finds every position of the contract, and only those, with their
holder and their time. The status it reports is `pending` whatever the contract says, because a variant of a
contract enumeration arrives as an array (`getPosition_iff`). `isEnrolled` and `isBound` send their contract
id as a symbol, which is too long for one, and never get an answer.
-/

namespace LineProof.Sdk

open Soroban

/-! ## Values -/

/-- The host values that the functions of the contracts take and return. -/
inductive HostValue
  | void
  | bool (b : Bool)
  | u32 (n : ℕ)
  | u64 (n : ℕ)
  | symbol (s : Symbol)
  | address (a : Address)
  | vec (vs : List HostValue)
  | map (entries : List (Symbol × HostValue))

/-- What `scValToNative` makes of them. -/
inductive JsData
  | null
  | bool (b : Bool)
  | number (x : JsNumber)
  | bigint (z : ℤ)
  | string (s : String)
  | array (vs : List JsData)
  | object (entries : List (String × JsData))

/-- Is a value taken for true in a condition. -/
def JsData.truthy : JsData → Bool
  | .null => false
  | .bool b => b
  | .number x => x ≠ .finite 0 ∧ x ≠ .nan
  | .bigint z => z ≠ 0
  | .string s => s ≠ ""
  | .array _ | .object _ => true

/-- `value.name`, where `none` is `undefined`. Only objects have fields of the names that are read. -/
def JsData.field (name : String) : JsData → Option JsData
  | .object entries => entries.lookup name
  | _ => none

/-- `value || fallback`, where the value may be `undefined`. -/
def orElse (value : Option JsData) (fallback : JsData) : JsData := (value.filter JsData.truthy).getD fallback

/-- An `Option` of a contract. -/
def optionValue {α : Type} (encode : α → HostValue) : Option α → HostValue
  | none => .void
  | some a => encode a

/-- A variant without fields. -/
def variantValue (name : String) : HostValue := .vec [.symbol ⟨name⟩]

/-- A status is a vector with its name. -/
def positionStatusValue : Queue.PositionStatus → HostValue
  | .pending => variantValue "Pending"
  | .advanced => variantValue "Advanced"
  | .expired => variantValue "Expired"
  | .cancelled => variantValue "Cancelled"

/-- A structure is a map by the names of its fields, in their order. -/
def positionValue (p : Queue.Position) : HostValue :=
  .map [(⟨"advanced_at"⟩, optionValue .u64 p.advancedAt), (⟨"enrolled_at"⟩, .u64 p.enrolledAt),
    (⟨"identity"⟩, .address p.identity), (⟨"position_id"⟩, .u32 p.positionId),
    (⟨"priority_weight"⟩, optionValue .u32 p.priorityWeight),
    (⟨"status"⟩, positionStatusValue p.status)]

/-- What the reads take from the Stellar SDK and from the language. -/
structure ReadRuntime where
  strKey : StrKey
  /-- what writing an argument throws, if it does -/
  writeError : HostValue → Option ClientError
  /-- `new Address(address).toScVal()` -/
  addressValue : String → Except ClientError HostValue
  scValToNative : HostValue → JsData
  /-- `value.toString()` -/
  toText : JsData → String
  /-- `Number(value)` -/
  toNumber : JsData → JsNumber
  /-- `BigInt(text)` -/
  parseBigInt : String → Except ClientError ℤ
  /-- `text.toLowerCase()` -/
  toLowerCase : String → String
  writeError_u32 : ∀ n, (writeError (.u32 n)).isSome ↔ u32Max < n
  writeError_symbol : ∀ s, 32 < s.str.length → (writeError (.symbol s)).isSome
  native_void : scValToNative .void = .null
  native_u32 : ∀ n, scValToNative (.u32 n) = .number (.ofNat n)
  native_u64 : ∀ n, scValToNative (.u64 n) = .bigint n
  native_symbol : ∀ s, scValToNative (.symbol s) = .string s.str
  native_address : ∀ a, scValToNative (.address a) = .string a.strkey
  native_vec : ∀ vs, scValToNative (.vec vs) = .array (vs.map scValToNative)
  native_map : ∀ entries,
    scValToNative (.map entries) = .object (entries.map fun e => (e.1.str, scValToNative e.2))
  toText_number : ∀ n ≤ u32Max, toText (.number (.ofNat n)) = toString n
  parseBigInt_toString : ∀ n : ℕ, parseBigInt (toString n) = .ok n
  toNumber_number : ∀ x, toNumber (.number x) = x
  /-- up to there every integer is a double -/
  toNumber_bigint : ∀ n : ℕ, n ≤ 2 ^ 53 → toNumber (.bigint n) = .ofNat n

/-! ## Simulated calls -/

/-- `Operation.invokeContractFunction`. -/
structure ContractRead where
  contract : String
  function : String
  args : List HostValue

/-- What simulating a call gives: its value, unless the simulation fails or has no result. What building the
transaction throws counts as an answer. -/
abbrev Network := ContractRead → Except ClientError (Option HostValue)

/-- The SDK's error, as an error of the client. -/
def ClientError.ofSdk (error : SDKError) : ClientError := .sdk error.code error.message

section Source

variable (R : ReadRuntime) (network : Network)

/-- The arguments are written when the transaction is sent. -/
def writeArgs (args : List HostValue) : Except ClientError Unit :=
  match args.findSome? R.writeError with
  | some error => .error error
  | none => .ok ()

/-- The contract id and the arguments are checked before the network is asked. -/
def simulateContractCall (contractId functionName : String) (args : List HostValue) :
    Except ClientError HostValue := do
  (validateContractId R.strKey contractId).mapError .ofSdk
  writeArgs R args
  match ← network ⟨contractId, functionName, args⟩ with
  | some retval => return retval
  | none => throw (.sdk "SIMULATION_FAILED" "Contract simulation returned no result")

/-! ### `QueueClient` -/

/-- `Position` of the SDK. -/
structure SdkPosition where
  positionId : ℤ
  enrolledAt : JsNumber
  identity : JsData
  status : String

/-- A positive integer. -/
def positiveInteger? : JsNumber → Option ℕ
  | .finite q => if q.den = 1 ∧ 0 < q then some q.num.toNat else none
  | _ => none

/-- `text.toLowerCase()` of a value that should be a text. -/
def lowerCase : JsData → Except ClientError String
  | .string s => .ok (R.toLowerCase s)
  | _ => .error ⟨none, "parsed.status.tag.toLowerCase is not a function", none⟩

/-- The text is lowered; a missing one reads as pending. -/
def positionStatus (parsed : JsData) : Except ClientError String :=
  match (parsed.field "status").filter JsData.truthy with
  | none => .ok "pending"
  | some (.string s) => .ok (R.toLowerCase s)
  | some status =>
    match (status.field "tag").filter JsData.truthy with
    | none => .ok "pending"
    | some tag => lowerCase R tag

/-- `BigInt(parsed.position_id?.toString() || positionId)`. -/
def parsedPositionId (parsed : JsData) (positionId : ℕ) : Except ClientError ℤ :=
  match parsed.field "position_id" with
  | none | some .null => .ok positionId
  | some value => if R.toText value = "" then .ok positionId else R.parseBigInt (R.toText value)

/-- The end of `getPosition`. -/
def parsePosition (parsed : JsData) (positionId : ℕ) : Except ClientError SdkPosition :=
  if parsed.truthy then do
    let status ← positionStatus R parsed
    return {
      positionId := ← parsedPositionId R parsed positionId
      enrolledAt := R.toNumber (orElse (parsed.field "enrolled_at") (.number (.finite 0)))
      identity := orElse (parsed.field "identity") (.string "")
      status }
  else throw (.sdk "INVALID_RESPONSE" "Failed to parse Position from contract")

/-- The id is checked before the network is asked. -/
def getPosition (queue : QueueClient R.strKey) (positionId : JsNumber) :
    Except ClientError SdkPosition :=
  match positiveInteger? positionId with
  | none => throw (.sdk "INVALID_INPUT" "positionId must be a positive integer")
  | some id => do
    match ← simulateContractCall R network queue.queueContractId "get_position" [.u32 id] with
    | .void => throw (.sdk "NOT_FOUND" "Position not found")
    | resultXdr => parsePosition R (R.scValToNative resultXdr) id

/-! ### `EnrollmentClient` and `IdentityClient` -/

/-- The common body of `isEnrolled` and `isBound`. -/
def isMember (function : String) (client : ContractClient R.strKey) (queueId identity : String) :
    Except ClientError Bool := do
  let targetId := client.targetId queueId
  (validateContractId R.strKey targetId).mapError .ofSdk
  let address ← R.addressValue identity
  match ← simulateContractCall R network targetId function [address, .symbol ⟨targetId⟩] with
  | .bool b => return b
  | _ => throw (.sdk "INVALID_RESPONSE" "Expected Bool response from contract")

/-- The common body, under its own function name. -/
def isEnrolled (client : ContractClient R.strKey) (queueId identity : String) :
    Except ClientError Bool :=
  isMember R network "is_enrolled" client queueId identity

/-- The common body, under its own function name. -/
def isBound (client : ContractClient R.strKey) (queueId identity : String) :
    Except ClientError Bool :=
  isMember R network "is_bound" client queueId identity

end Source

/-! ## What a read finds -/

variable {R : ReadRuntime} {network : Network} {queue : QueueClient R.strKey} {n : ℕ}

variable (R) in
/-- What is reported of a position. -/
def reported (p : Queue.Position) : SdkPosition where
  positionId := p.positionId
  enrolledAt := R.toNumber (.bigint p.enrolledAt)
  identity := .string p.identity.strkey
  status := "pending"

/-- The network simulates calls of the queue contract on its ledger. -/
def SimulatesQueue (network : Ledger Queue.Store → Network) (contractId : String) : Prop :=
  ∀ l n, n ≤ u32Max → ∃ env pos l', Queue.getPosition n env l = .ok (pos, l') ∧
    network l ⟨contractId, "get_position", [.u32 n]⟩ = .ok (some (optionValue positionValue pos))

/-- The check lets the positive integers through. -/
theorem positiveInteger?_eq_some_iff {x : JsNumber} :
    positiveInteger? x = some n ↔ x = .ofNat n ∧ 0 < n := by
  cases x with
  | finite q =>
    rw [positiveInteger?, JsNumber.ofNat]
    split
    · case _ h =>
      obtain ⟨hden, hpos⟩ := h
      have hnum : 0 < q.num := Rat.num_pos.mpr hpos
      have hq : q = (q.num : ℚ) := (Rat.coe_int_num_of_den_eq_one hden).symm
      constructor
      · intro heq
        obtain rfl := Option.some.inj heq
        refine ⟨?_, by omega⟩
        have hcast : ((q.num.toNat : ℤ) : ℚ) = q.num := by rw [Int.toNat_of_nonneg hnum.le]
        rw [hq]
        exact congrArg JsNumber.finite hcast.symm
      · rintro ⟨heq, -⟩
        cases heq
        simp
    · case _ h =>
      constructor
      · intro heq
        cases heq
      · rintro ⟨heq, hpos⟩
        cases heq
        exact absurd ⟨Rat.den_natCast n, Nat.cast_pos.mpr hpos⟩ h
  | infinite negative => simp [positiveInteger?, JsNumber.ofNat]
  | nan => simp [positiveInteger?, JsNumber.ofNat]

/-! ### Positions -/

/-- A position is parsed into an object with its six fields. -/
theorem parsed_positionValue (p : Queue.Position) :
    R.scValToNative (positionValue p) = .object
      [("advanced_at", R.scValToNative (optionValue .u64 p.advancedAt)), ("enrolled_at", .bigint p.enrolledAt),
        ("identity", .string p.identity.strkey), ("position_id", .number (.ofNat p.positionId)),
        ("priority_weight", R.scValToNative (optionValue .u32 p.priorityWeight)),
        ("status", R.scValToNative (positionStatusValue p.status))] := by
  rw [positionValue, R.native_map]
  simp only [List.map_cons, List.map_nil, R.native_u64, R.native_address, R.native_u32]

/-- A status is parsed into an array with its name. -/
theorem native_positionStatusValue (status : Queue.PositionStatus) :
    ∃ name, R.scValToNative (positionStatusValue status) = .array [.string name] := by
  cases status <;>
    exact ⟨_, by rw [positionStatusValue, variantValue, R.native_vec, List.map_singleton, R.native_symbol]⟩

/-- An array has no `tag`. -/
theorem positionStatus_positionValue (p : Queue.Position) :
    positionStatus R (R.scValToNative (positionValue p)) = .ok "pending" := by
  obtain ⟨name, hname⟩ := native_positionStatusValue (R := R) p.status
  rw [parsed_positionValue, hname]
  rfl

/-- The id is the one that was asked for. -/
theorem parsedPositionId_positionValue {p : Queue.Position} (hid : p.positionId = n) (hn : n ≤ u32Max) :
    parsedPositionId R (R.scValToNative (positionValue p)) n = .ok n := by
  rw [parsed_positionValue, hid]
  show (if R.toText (.number (.ofNat n)) = "" then .ok (n : ℤ)
    else R.parseBigInt (R.toText (.number (.ofNat n)))) = .ok (n : ℤ)
  rw [R.toText_number n hn, R.parseBigInt_toString, ite_self]

/-- The time is read, also when it is 0. -/
theorem orElse_enrolledAt (p : Queue.Position) :
    R.toNumber (orElse ((R.scValToNative (positionValue p)).field "enrolled_at") (.number (.finite 0))) =
      R.toNumber (.bigint p.enrolledAt) := by
  rw [parsed_positionValue]
  show R.toNumber (orElse (some (.bigint p.enrolledAt)) (.number (.finite 0))) = _
  by_cases hzero : p.enrolledAt = 0
  · rw [hzero, R.toNumber_bigint 0 (Nat.zero_le _)]
    exact R.toNumber_number _
  · have htruthy : (JsData.bigint p.enrolledAt).truthy = true := by simp [JsData.truthy, hzero]
    rw [orElse, Option.filter_some, if_pos htruthy, Option.getD_some]

/-- The identity is read, also when it is empty. -/
theorem orElse_identity (p : Queue.Position) :
    orElse ((R.scValToNative (positionValue p)).field "identity") (.string "") =
      .string p.identity.strkey := by
  rw [parsed_positionValue]
  show orElse (some (.string p.identity.strkey)) (.string "") = _
  by_cases hempty : p.identity.strkey = ""
  · rw [hempty]
    rfl
  · have htruthy : (JsData.string p.identity.strkey).truthy = true := by simp [JsData.truthy, hempty]
    rw [orElse, Option.filter_some, if_pos htruthy, Option.getD_some]

/-- A position that the contract returns is parsed. -/
theorem parsePosition_positionValue {p : Queue.Position} (hid : p.positionId = n) (hn : n ≤ u32Max) :
    parsePosition R (R.scValToNative (positionValue p)) n = .ok (reported R p) := by
  have htruthy : (R.scValToNative (positionValue p)).truthy = true := by
    rw [parsed_positionValue]
    rfl
  rw [parsePosition, if_pos htruthy, positionStatus_positionValue, parsedPositionId_positionValue hid hn,
    orElse_enrolledAt, orElse_identity, reported, hid]
  rfl

/-! ### Calls -/

/-- A `u32` can be written. -/
theorem writeArgs_u32 (hn : n ≤ u32Max) : writeArgs R [.u32 n] = .ok () := by
  have hnone : R.writeError (.u32 n) = none := by
    rw [← Option.not_isSome_iff_eq_none, R.writeError_u32]
    omega
  simp [writeArgs, List.findSome?, hnone]

/-- What is no `u32` cannot. -/
theorem writeArgs_u32_of_lt (hn : u32Max < n) : ∃ error, writeArgs R [.u32 n] = .error error := by
  obtain ⟨error, herror⟩ := Option.isSome_iff_exists.mp ((R.writeError_u32 n).mpr hn)
  exact ⟨error, by simp [writeArgs, List.findSome?, herror]⟩

/-- A call that the network answers returns the answer. -/
theorem simulateContractCall_of_some {contractId functionName : String} {args : List HostValue}
    {retval : HostValue} (hvalid : R.strKey.isValidContract contractId = true)
    (hwrite : writeArgs R args = .ok ())
    (hnetwork : network ⟨contractId, functionName, args⟩ = .ok (some retval)) :
    simulateContractCall R network contractId functionName args = .ok retval := by
  rw [simulateContractCall, validateContractId, if_pos hvalid, hwrite, hnetwork]
  rfl

/-- Arguments that cannot be written are an error, whatever the network is. -/
theorem simulateContractCall_of_writeError (network : Network) (contractId functionName : String)
    {args : List HostValue} {error : ClientError} (hwrite : writeArgs R args = .error error) :
    ∃ error', simulateContractCall R network contractId functionName args = .error error' := by
  rw [simulateContractCall, hwrite]
  cases (validateContractId R.strKey contractId).mapError ClientError.ofSdk with
  | error invalid => exact ⟨invalid, rfl⟩
  | ok _ => exact ⟨error, rfl⟩

/-- A contract id does not fit into a symbol. -/
theorem isMember_error (network : Network) (function : String) (client : ContractClient R.strKey)
    (queueId identity : String) :
    ∃ error, isMember R network function client queueId identity = .error error := by
  rw [isMember]
  by_cases hvalid : R.strKey.isValidContract (client.targetId queueId) = true
  · cases haddress : R.addressValue identity with
    | error error =>
      refine ⟨error, ?_⟩
      rw [validateContractId, if_pos hvalid]
      rfl
    | ok address =>
      have hlong : 32 < (Symbol.mk (client.targetId queueId)).str.length := by
        rw [R.strKey.contract_length _ hvalid]
        omega
      obtain ⟨symbolError, hsymbol⟩ := Option.isSome_iff_exists.mp (R.writeError_symbol _ hlong)
      have hwrite : ∃ error, writeArgs R [address, .symbol ⟨client.targetId queueId⟩] = .error error := by
        cases hwriteAddress : R.writeError address with
        | none => exact ⟨symbolError, by simp [writeArgs, hwriteAddress, hsymbol]⟩
        | some error => exact ⟨error, by simp [writeArgs, hwriteAddress]⟩
      obtain ⟨writeError, hwrite⟩ := hwrite
      obtain ⟨error, herror⟩ :=
        simulateContractCall_of_writeError network (client.targetId queueId) function hwrite
      refine ⟨error, ?_⟩
      rw [validateContractId, if_pos hvalid]
      simp only [bind, Except.bind, Except.mapError, herror]
  · rw [validateContractId, if_neg hvalid]
    exact ⟨_, rfl⟩

/-- Whatever the network answers, and whichever contract and identity are asked for, the SDK never learns
whether an identity is enrolled or bound. -/
theorem membership_unread (R : ReadRuntime) (network : Network) (client : ContractClient R.strKey)
    (queueId identity : String) :
    (∃ error, isEnrolled R network client queueId identity = .error error) ∧
      ∃ error, isBound R network client queueId identity = .error error :=
  ⟨isMember_error network "is_enrolled" client queueId identity,
    isMember_error network "is_bound" client queueId identity⟩

section Queue

variable {network : Ledger Queue.Store → Network} {l : Ledger Queue.Store}

/-- The contract reads a positive id in its table. -/
theorem queueGetPosition_eq_ok {env : Env} {pos : Option Queue.Position} {l' : Ledger Queue.Store}
    (hpos : 0 < n) (h : Queue.getPosition n env l = .ok (pos, l')) : pos = l.store.positions.lookup n := by
  rw [Queue.getPosition, if_neg (by omega), load_eq_ok] at h
  exact (Prod.mk.inj h).1.symm

/-- The network answers with the stored position. -/
theorem simulate_getPosition (hnetwork : SimulatesQueue network queue.queueContractId) (hpos : 0 < n)
    (hn : n ≤ u32Max) :
    simulateContractCall R (network l) queue.queueContractId "get_position" [.u32 n] =
      .ok (optionValue positionValue (l.store.positions.lookup n)) := by
  obtain ⟨env, pos, l', hget, hanswer⟩ := hnetwork l n hn
  rw [← queueGetPosition_eq_ok hpos hget]
  exact simulateContractCall_of_some queue.valid (writeArgs_u32 hn) hanswer

/-- A stored position is reported. -/
theorem getPosition_of_lookup (hnetwork : SimulatesQueue network queue.queueContractId) (hpos : 0 < n)
    (hn : n ≤ u32Max) {p : Queue.Position} (hp : l.store.positions.lookup n = some p)
    (hid : p.positionId = n) :
    getPosition R (network l) queue (.ofNat n) = .ok (reported R p) := by
  have hsimulate := simulate_getPosition (R := R) (l := l) hnetwork hpos hn
  rw [hp] at hsimulate
  rw [getPosition, positiveInteger?_eq_some_iff.mpr ⟨rfl, hpos⟩]
  simp only [hsimulate]
  exact parsePosition_positionValue hid hn

/-- A missing position is reported as not found. -/
theorem getPosition_of_lookup_none (hnetwork : SimulatesQueue network queue.queueContractId) (hpos : 0 < n)
    (hn : n ≤ u32Max) (hp : l.store.positions.lookup n = none) :
    getPosition R (network l) queue (.ofNat n) = .error (.sdk "NOT_FOUND" "Position not found") := by
  have hsimulate := simulate_getPosition (R := R) (l := l) hnetwork hpos hn
  rw [hp] at hsimulate
  rw [getPosition, positiveInteger?_eq_some_iff.mpr ⟨rfl, hpos⟩]
  simp only [hsimulate]
  rfl

variable (queue) in
/-- An id that is no `u32` is an error. -/
theorem getPosition_of_lt (network : Network) (hn : u32Max < n) :
    ∃ error, getPosition R network queue (.ofNat n) = .error error := by
  obtain ⟨writeError, hwrite⟩ := writeArgs_u32_of_lt (R := R) hn
  obtain ⟨error, herror⟩ :=
    simulateContractCall_of_writeError network queue.queueContractId "get_position" hwrite
  refine ⟨error, ?_⟩
  rw [getPosition, positiveInteger?_eq_some_iff.mpr ⟨rfl, by omega⟩]
  simp only [herror]
  rfl

/-- A read finds what is stored. -/
theorem getPosition_eq_ok_iff (hnetwork : SimulatesQueue network queue.queueContractId)
    (h : Queue.WellFormed l.store) (positionId : JsNumber) (r : SdkPosition) :
    getPosition R (network l) queue positionId = .ok r ↔
      ∃ n p, positionId = .ofNat n ∧ l.store.positions.lookup n = some p ∧ r = reported R p := by
  constructor
  · intro hread
    cases hid : positiveInteger? positionId with
    | none =>
      rw [getPosition, hid] at hread
      cases hread
    | some n =>
      obtain ⟨rfl, hpos⟩ := positiveInteger?_eq_some_iff.mp hid
      by_cases hn : n ≤ u32Max
      · cases hp : l.store.positions.lookup n with
        | none =>
          rw [getPosition_of_lookup_none hnetwork hpos hn hp] at hread
          cases hread
        | some p =>
          rw [getPosition_of_lookup hnetwork hpos hn hp (h.ownId n p hp)] at hread
          exact ⟨n, p, rfl, hp, (Except.ok.inj hread).symm⟩
      · obtain ⟨error, herror⟩ := getPosition_of_lt queue (network l) (Nat.lt_of_not_le hn)
        rw [herror] at hread
        cases hread
  · rintro ⟨n, p, rfl, hp, rfl⟩
    obtain ⟨hpos, hlt⟩ := (h.dense n).mp ⟨p, hp⟩
    have hmax := h.nextId_le
    exact getPosition_of_lookup hnetwork hpos (by omega) hp (h.ownId n p hp)

/-- What does not change in a position is all that is reported. -/
theorem reported_of_kept {p q : Queue.Position} (h : Queue.Kept p q) : reported R q = reported R p := by
  rw [reported, reported, h.positionId, h.enrolledAt, h.identity]

end Queue

/-- A read finds the positions of the contract and reports them as pending. Its answer is the same for
ever after. -/
theorem getPosition_iff (R : ReadRuntime) (queue : QueueClient R.strKey)
    (network : Ledger Queue.Store → Network) (hnetwork : SimulatesQueue network queue.queueContractId)
    (d : Queue.Deployment) (before after : List (Invocation Queue.Entrypoint)) (positionId : JsNumber)
    (r : SdkPosition) :
    let read (calls : List (Invocation Queue.Entrypoint)) :=
      getPosition R (network (Queue.queue.run d.start calls)) queue positionId
    (read before = .ok r ↔ ∃ n p, positionId = .ofNat n ∧
      (Queue.queue.run d.start before).store.positions.lookup n = some p ∧ r = reported R p) ∧
      (read before = .ok r → read (before ++ after) = .ok r) := by
  intro read
  have hfound := getPosition_eq_ok_iff (R := R) hnetwork (d.wellFormed_run before) positionId r
  refine ⟨hfound, fun hread => ?_⟩
  obtain ⟨n, p, hid, hp, rfl⟩ := hfound.mp hread
  obtain ⟨q, hq, hkept⟩ := Queue.kept_run (d.wellFormed_run before) after hp
  rw [← Transactional.run_append] at hq
  exact (getPosition_eq_ok_iff hnetwork (d.wellFormed_run (before ++ after)) positionId _).mpr
    ⟨n, q, hid, hq, (reported_of_kept hkept).symm⟩

/-! ### A queue that is read -/

mutual

/-- `scValToNative`. -/
def nativeValue : HostValue → JsData
  | .void => .null
  | .bool b => .bool b
  | .u32 n => .number (.ofNat n)
  | .u64 n => .bigint n
  | .symbol s => .string s.str
  | .address a => .string a.strkey
  | .vec vs => .array (nativeValues vs)
  | .map entries => .object (nativeEntries entries)

/-- `scValToNative` on the elements of a vector. -/
def nativeValues : List HostValue → List JsData
  | [] => []
  | v :: vs => nativeValue v :: nativeValues vs

/-- `scValToNative` on the entries of a map. -/
def nativeEntries : List (Symbol × HostValue) → List (String × JsData)
  | [] => []
  | (name, v) :: entries => (name.str, nativeValue v) :: nativeEntries entries

end

/-- The elements are converted one by one. -/
theorem nativeValues_eq_map (vs : List HostValue) : nativeValues vs = vs.map nativeValue := by
  induction vs with
  | nil => rfl
  | cons v vs ih => rw [nativeValues, ih, List.map_cons]

/-- The entries are converted one by one. -/
theorem nativeEntries_eq_map (entries : List (Symbol × HostValue)) :
    nativeEntries entries = entries.map fun e => (e.1.str, nativeValue e.2) := by
  induction entries with
  | nil => rfl
  | cons entry entries ih =>
    obtain ⟨name, v⟩ := entry
    rw [nativeEntries, ih, List.map_cons]

/-- Printed digits are read back. -/
theorem digits?_toDigits (n : ℕ) : digits? (Nat.toDigits 10 n) = some n := by
  have hdigits := Decimals.isDigits_toDigits n
  have hne : Nat.toDigits 10 n ≠ [] := Nat.toDigits_ne_nil
  rw [digits?, if_pos ⟨hne, List.all_eq_true.mpr hdigits⟩]
  exact congrArg some (Decimals.numeral_toDigits n)

/-- A printed number has no sign. -/
theorem decimal?_toString (n : ℕ) : decimal? (toString n) = some (n : ℤ) := by
  have htext : (toString n).toList = Nat.toDigits 10 n := by
    show (Nat.repr n).toList = _
    rw [Nat.repr_eq_ofList_toDigits, String.toList_ofList]
  rw [decimal?, htext]
  split
  · case _ cs hsign =>
    have hdigit := Decimals.isDigits_toDigits n '-' (by simp [hsign])
    cases hdigit
  · rw [digits?_toDigits]
    rfl

/-- What the Stellar SDK and the language do with the values of a queue. -/
def plainReads : ReadRuntime where
  strKey := sampleStrKey
  writeError
    | .u32 n => if u32Max < n then some ⟨none, "XDR Write Error: invalid u32 value", none⟩ else none
    | .symbol s => if 32 < s.str.length then some ⟨none, "XDR Write Error: max allowed is 32", none⟩ else none
    | _ => none
  addressValue address := .ok (.address ⟨address⟩)
  scValToNative := nativeValue
  toText
    | .number (.finite q) => toString q.num.toNat
    | .string s => s
    | _ => ""
  toNumber
    | .number x => x
    | .bigint z => .finite z
    | _ => .nan
  parseBigInt text :=
    match decimal? text with
    | some z => .ok z
    | none => .error ⟨none, "Cannot convert " ++ text ++ " to a BigInt", none⟩
  toLowerCase := String.toLower
  writeError_u32 n := by simp
  writeError_symbol s h := by simp [h]
  native_void := by rw [nativeValue]
  native_u32 n := by rw [nativeValue]
  native_u64 n := by rw [nativeValue]
  native_symbol s := by rw [nativeValue]
  native_address a := by rw [nativeValue]
  native_vec vs := by rw [nativeValue, nativeValues_eq_map]
  native_map entries := by rw [nativeValue, nativeEntries_eq_map]
  toText_number n hn := rfl
  parseBigInt_toString n := by rw [decimal?_toString]
  toNumber_number x := rfl
  toNumber_bigint n hn := rfl

/-- A client of the clinic's queue. -/
def clinicQueue : QueueClient sampleStrKey :=
  ⟨"CAAAAAAAAAAAAAAAAAAAAAAAAAAAAAAAAAAAAAAAAAAAAAAAAAAABSC4", rfl⟩

/-- A network with the queue of the clinic. -/
def clinicNetwork (l : Ledger Queue.Store) : Network := fun read =>
  match read.args with
  | [.u32 n] =>
    if read.contract = clinicQueue.queueContractId ∧ read.function = "get_position" then
      .ok (some (optionValue positionValue (if n = 0 then none else l.store.positions.lookup n)))
    else .ok none
  | _ => .ok none

/-- The clinic's network simulates the queue contract. -/
theorem simulatesQueue_clinic : SimulatesQueue clinicNetwork clinicQueue.queueContractId := by
  intro l n hn
  refine ⟨⟨0, [], ⟨"CQUEUE"⟩⟩, if n = 0 then none else l.store.positions.lookup n, l, ?_, rfl⟩
  rw [Queue.getPosition]
  split
  · rfl
  · rfl

/-- Two enrollments, and Alice is served. -/
def clinicNoon : List (Invocation Queue.Entrypoint) :=
  Queue.clinicMorning ++ [⟨⟨4, [⟨"GADMIN"⟩], ⟨"CQUEUE"⟩⟩, .advance ⟨"GADMIN"⟩ 1⟩]

/-- The first position of the clinic's day, after it was served. -/
def alicePosition : Queue.Position := ⟨1, 1, ⟨"GALICE"⟩, .advanced, some 4, none⟩

/-- At noon the contract has that position. -/
theorem lookup_alice :
    (Queue.queue.run Queue.clinicDay.start clinicNoon).store.positions.lookup 1 =
      some alicePosition := by
  decide +kernel

/-- Alice has been served, and is still reported as pending. -/
theorem getPosition_iff_served :
    getPosition plainReads (clinicNetwork (Queue.queue.run Queue.clinicDay.start clinicNoon))
      clinicQueue (.ofNat 1) = .ok (reported plainReads alicePosition) := by
  have h := getPosition_iff plainReads clinicQueue clinicNetwork simulatesQueue_clinic Queue.clinicDay
    clinicNoon [] (.ofNat 1) (reported plainReads alicePosition)
  exact h.1.mpr ⟨1, alicePosition, rfl, lookup_alice, rfl⟩

end LineProof.Sdk
