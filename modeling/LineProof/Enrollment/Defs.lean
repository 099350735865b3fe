import Mathlib.Data.Finmap
import LineProof.Soroban.Contract

/-!
# The enrollment contract

Reference: `contracts/lineproof-enrollment/src/lib.rs`.

`compute_proof_hash` is the SHA-256 of an XDR preimage, both computed by the host. It is a parameter of
the model: a function of the identity, the queue and the time.
-/

namespace LineProof.Enrollment

open Soroban

/-- What `enroll` returns; `hash` commits to the other fields. -/
structure EnrollmentProof where
  queueId : Symbol
  identity : Address
  enrolledAt : ℕ
  proofHash : Bytes32
  expiresAt : Option ℕ
deriving DecidableEq

/-- What a second enrollment of a live identity does. -/
inductive DuplicateBehavior
  | reject
  | grantWaitingList
  | overrideExpired
deriving DecidableEq

/-- What is stored for an identity in a queue. -/
structure EnrollmentRecord where
  identity : Address
  queueId : Symbol
  enrolledAt : ℕ
  proofHash : Bytes32
  duplicateCount : ℕ
  finalized : Bool
  expiresAt : Option ℕ
  cancelled : Bool
deriving DecidableEq

/-- The key of a record: `record_key` without its constant tag. -/
abbrev RecordKey := Symbol × Address

/-- The contract's entries, a table for each kind of key. -/
structure Store where
  /-- `"dup_behavior"` -/
  dupBehavior : Option DuplicateBehavior
  /-- `("enrollment", queue_id, identity)` -/
  records : Finmap fun _ : RecordKey => EnrollmentRecord
  /-- `("enroll_cnt", queue_id)` -/
  counts : Finmap fun _ : Symbol => ℕ
  /-- `("waitlist", queue_id)` -/
  waitlists : Finmap fun _ : Symbol => List Address

/-- The ledger of a contract that has just been deployed. -/
def fresh : Ledger Store where
  store := ⟨none, ∅, ∅, ∅⟩
  events := []

/-! ## Readers -/

/-- A record that is there and not cancelled. -/
def Store.isEnrolledInternal (s : Store) (identity : Address) (queueId : Symbol) : Bool :=
  match s.records.lookup (queueId, identity) with
  | some record => !record.cancelled
  | none => false

/-- A missing counter reads as 0. -/
def Store.enrollmentCount (s : Store) (queueId : Symbol) : ℕ := (s.counts.lookup queueId).getD 0

/-- A missing waitlist reads as empty. -/
def Store.getWaitlist (s : Store) (queueId : Symbol) : List Address :=
  (s.waitlists.lookup queueId).getD []

/-- Looks through the stored waitlist. -/
def Store.isOnWaitlist (s : Store) (identity : Address) (queueId : Symbol) : Bool :=
  match s.waitlists.lookup queueId with
  | some waitlist => waitlist.contains identity
  | none => false

/-- Counted from 0. -/
def Store.waitlistPosition (s : Store) (identity : Address) (queueId : Symbol) : Option ℕ :=
  (s.getWaitlist queueId).idxOf? identity

/-- All three are; the check refuses nothing. -/
def isBehaviorSupported : DuplicateBehavior → Bool
  | .reject => true
  | .grantWaitingList => true
  | .overrideExpired => true

/-- `if let Some(exp) = record.expires_at { now > exp } else { false }`. -/
def EnrollmentRecord.isExpired (record : EnrollmentRecord) (now : ℕ) : Bool :=
  match record.expiresAt with
  | some exp => exp < now
  | none => false

/-! ## Internal functions -/

/-- The topics and the data `emit` publishes. -/
def event (kind : String) (queueId : Symbol) (identity : Address) (timestamp : ℕ) (hash : Bytes32) :
    Event where
  topics := [.symbol ⟨"lineproof_enrollment"⟩, .symbol ⟨kind⟩, .symbol queueId]
  data := .tuple [.address identity, .u64 timestamp, .bytes hash]

/-- Publishes one event under the contract's topics. -/
def emit (kind : String) (queueId : Symbol) (identity : Address) (timestamp : ℕ) (hash : Bytes32) :
    Contract Store Unit :=
  publish (event kind queueId identity timestamp hash).topics
    (event kind queueId identity timestamp hash).data

/-- The host value of a behavior: a unit variant is the vector of its name. -/
def DuplicateBehavior.data : DuplicateBehavior → EventData
  | .reject => .tuple [.symbol ⟨"Reject"⟩]
  | .grantWaitingList => .tuple [.symbol ⟨"GrantWaitingList"⟩]
  | .overrideExpired => .tuple [.symbol ⟨"OverrideExpired"⟩]

/-- `BytesN::from_array(&[0u8; 32])`, the hash of a waitlist proof. -/
def zeroHash : Bytes32 := Vector.replicate 32 0

/-- `unwrap` of the stored record, as an error. -/
def loadRecord (identity : Address) (queueId : Symbol) : Contract Store EnrollmentRecord := do
  expect (← load (·.records.lookup (queueId, identity))) "record missing"

/-- Write a record under `record_key`. -/
def saveRecord (identity : Address) (queueId : Symbol) (record : EnrollmentRecord) :
    Contract Store Unit :=
  save fun s => { s with records := s.records.insert (queueId, identity) record }

/-- Write a count under `count_key`. -/
def saveCount (queueId : Symbol) (count : ℕ) : Contract Store Unit :=
  save fun s => { s with counts := s.counts.insert queueId count }

/-- Write a list under `waitlist_key`. -/
def saveWaitlist (queueId : Symbol) (waitlist : List Address) : Contract Store Unit :=
  save fun s => { s with waitlists := s.waitlists.insert queueId waitlist }

/-- `count + 1`, read from and written to `count_key`. -/
def incrementCount (queueId : Symbol) : Contract Store Unit := do
  let count ← load (·.enrollmentCount queueId)
  saveCount queueId (← u32 (count + 1))

/-! ## Enrollment -/

section ProofHash

variable (computeProofHash : Address → Symbol → ℕ → Bytes32)

/-- The `DuplicateBehavior::GrantWaitingList` branch of `enroll`. -/
def joinWaitlist (caller : Address) (queueId : Symbol) : Contract Store EnrollmentProof := do
  require ((← load (·.isOnWaitlist caller queueId)) = false) "already waitlisted"
  let waitlist ← load (·.getWaitlist queueId)
  -- the record stays as it is, and the count too
  saveWaitlist queueId (waitlist ++ [caller])
  let now ← timestamp
  emit "WaitlistAdded" queueId caller now zeroHash
  return { queueId, identity := caller, enrolledAt := now, proofHash := zeroHash, expiresAt := none }

/-- The `DuplicateBehavior::OverrideExpired` branch of `enroll`. -/
def overrideRecord (caller : Address) (queueId : Symbol) (expiresAt : Option ℕ) :
    Contract Store EnrollmentProof := do
  let record ← loadRecord caller queueId
  let enrolledAt ← timestamp
  require (record.isExpired enrolledAt = true) "duplicate enrollment"
  let proofHash := computeProofHash caller queueId enrolledAt
  let duplicateCount ← u32 (record.duplicateCount + 1)
  saveRecord caller queueId
    { identity := caller, queueId, enrolledAt, proofHash, duplicateCount, finalized := false,
      expiresAt, cancelled := false }
  emit "Enrolled" queueId caller enrolledAt proofHash
  return { queueId, identity := caller, enrolledAt, proofHash, expiresAt }

/-- The rest of `enroll`, for a caller without a live record. -/
def enrollNew (caller : Address) (queueId : Symbol) (expiresAt : Option ℕ) :
    Contract Store EnrollmentProof := do
  -- a record that is already there has been cancelled, and is replaced
  let duplicateCount ← match ← load (·.records.lookup (queueId, caller)) with
    | some existingRecord => u32 (existingRecord.duplicateCount + 1)
    | none => pure 0
  let enrolledAt ← timestamp
  let proofHash := computeProofHash caller queueId enrolledAt
  saveRecord caller queueId
    { identity := caller, queueId, enrolledAt, proofHash, duplicateCount, finalized := false,
      expiresAt, cancelled := false }
  incrementCount queueId
  emit "Enrolled" queueId caller enrolledAt proofHash
  return { queueId, identity := caller, enrolledAt, proofHash, expiresAt }

/-- A live record is handled by the stored duplicate behavior, any other identity is new. -/
def enroll (caller : Address) (queueId : Symbol) (expiresAt : Option ℕ) :
    Contract Store EnrollmentProof := do
  requireAuth caller
  if ← load (·.isEnrolledInternal caller queueId) then
    match ← load (·.dupBehavior.getD .reject) with
    | .reject => abort "duplicate enrollment"
    | .grantWaitingList => joinWaitlist caller queueId
    | .overrideExpired => overrideRecord computeProofHash caller queueId expiresAt
  else
    enrollNew computeProofHash caller queueId expiresAt

/-- Lowers the counter, but never below 0. -/
def cancel (caller : Address) (queueId : Symbol) : Contract Store Unit := do
  requireAuth caller
  let record ← expect (← load (·.records.lookup (queueId, caller))) "not enrolled"
  require (record.cancelled = false) "not enrolled"
  saveRecord caller queueId { record with cancelled := true }
  let count ← load (·.enrollmentCount queueId)
  if 0 < count then
    saveCount queueId (count - 1)
  emit "Cancelled" queueId caller (← timestamp) record.proofHash

/-! ## Administration -/

/-- Any address that signs may set it. -/
def setDuplicateBehavior (admin : Address) (behavior : DuplicateBehavior) :
    Contract Store Unit := do
  requireAuth admin
  require (isBehaviorSupported behavior = true) "behavior_not_supported"
  save fun s => { s with dupBehavior := some behavior }
  publish [.symbol ⟨"lineproof_enrollment"⟩, .symbol ⟨"DuplicateBehaviorChanged"⟩] behavior.data

/-- Any address that signs may finalize a live record, once. -/
def finalizeEnrollment (admin identity : Address) (queueId : Symbol) : Contract Store Unit := do
  requireAuth admin
  let record ← loadRecord identity queueId
  require (record.cancelled = false) "not enrolled"
  require (record.finalized = false) "already finalized"
  saveRecord identity queueId { record with finalized := true }
  emit "Finalized" queueId identity record.enrolledAt record.proofHash

/-- The loop body of `promote_from_waitlist`. -/
def promote (queueId : Symbol) (identity : Address) : Contract Store Unit := do
  let enrolledAt ← timestamp
  let proofHash := computeProofHash identity queueId enrolledAt
  saveRecord identity queueId
    { identity, queueId, enrolledAt, proofHash, duplicateCount := 0, finalized := false,
      expiresAt := none, cancelled := false }
  incrementCount queueId
  emit "Enrolled" queueId identity enrolledAt proofHash

/-- `for _ in 0..to_promote`, with `n` iterations left. -/
def promoteLoop (queueId : Symbol) : ℕ → List Address → Contract Store (List Address)
  | 0, waitlist => pure waitlist
  -- out of reach: the loop runs at most `waitlist.len()` times
  | _ + 1, [] => abort "called Option::unwrap() on a None value"
  | n + 1, identity :: waitlist => do
    promote computeProofHash queueId identity
    promoteLoop queueId n waitlist

/-- Any address that signs may promote the first `count` identities. -/
def promoteFromWaitlist (admin : Address) (queueId : Symbol) (count : ℕ) :
    Contract Store Unit := do
  requireAuth admin
  let waitlist ← load (·.getWaitlist queueId)
  let toPromote := min count waitlist.length
  saveWaitlist queueId (← promoteLoop computeProofHash queueId toPromote waitlist)

end ProofHash

/-! ## The contract -/

/-- The calls of the contract, with their arguments. -/
inductive Entrypoint
  | enroll (caller : Address) (queueId : Symbol) (expiresAt : Option ℕ)
  | cancel (caller : Address) (queueId : Symbol)
  | isEnrolled (identity : Address) (queueId : Symbol)
  | enrollmentRecord (identity : Address) (queueId : Symbol)
  | setDuplicateBehavior (admin : Address) (behavior : DuplicateBehavior)
  | finalizeEnrollment (admin identity : Address) (queueId : Symbol)
  | enrollmentCount (queueId : Symbol)
  | isBehaviorSupported (behavior : DuplicateBehavior)
  | getWaitlist (queueId : Symbol)
  | waitlistPosition (identity : Address) (queueId : Symbol)
  | promoteFromWaitlist (admin : Address) (queueId : Symbol) (count : ℕ)

/-- What an entrypoint returns. -/
inductive Output
  | unit
  | proof (proof : EnrollmentProof)
  | flag (b : Bool)
  | record (record : Option EnrollmentRecord)
  | number (n : ℕ)
  | waitlist (waitlist : List Address)
  | position (position : Option ℕ)

/-- Runs one entrypoint. -/
def exec (computeProofHash : Address → Symbol → ℕ → Bytes32) :
    Entrypoint → Contract Store Output
  | .enroll caller queueId expiresAt => do
    return .proof (← enroll computeProofHash caller queueId expiresAt)
  | .cancel caller queueId => do cancel caller queueId; return .unit
  | .isEnrolled identity queueId => do
    return .flag (← load (·.isEnrolledInternal identity queueId))
  | .enrollmentRecord identity queueId => do
    return .record (← load (·.records.lookup (queueId, identity)))
  | .setDuplicateBehavior admin behavior => do setDuplicateBehavior admin behavior; return .unit
  | .finalizeEnrollment admin identity queueId => do
    finalizeEnrollment admin identity queueId; return .unit
  | .enrollmentCount queueId => do return .number (← load (·.enrollmentCount queueId))
  | .isBehaviorSupported behavior => do return .flag (isBehaviorSupported behavior)
  | .getWaitlist queueId => do return .waitlist (← load (·.getWaitlist queueId))
  | .waitlistPosition identity queueId => do
    return .position (← load (·.waitlistPosition identity queueId))
  | .promoteFromWaitlist admin queueId count => do
    promoteFromWaitlist computeProofHash admin queueId count; return .unit

/-- The enrollment contract. -/
def enrollment (computeProofHash : Address → Symbol → ℕ → Bytes32) :
    Transactional (Ledger Store) (Invocation Entrypoint) Output Panic :=
  machine (exec computeProofHash)

end LineProof.Enrollment
