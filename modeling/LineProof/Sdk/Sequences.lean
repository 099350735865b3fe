import LineProof.Lib.InsertionMap
import LineProof.Sdk.Retry

/-!
# Reserving account sequences

Reference: `fetchAccountSequence` and `reserveSourceAccount` of `sdk/src/client.ts`.

A client is a machine that reacts to what the event loop runs next: a call starts, a `getAccount` request
ends and its `.then` runs, its `.finally` runs, or a waiting call goes on after its `await`. These come in any
order. What a call does between two `await`s is one step.

A sequence is the number that its text stands for.
-/

namespace LineProof.Sdk

/-- `Account`. -/
structure Account where
  accountId : String
  sequence : ℤ
deriving DecidableEq

/-- A `getAccount` request, with the promise made of it. -/
structure AccountFetch where
  publicKey : String
  /-- how it ended, once `.then` has run -/
  result : Option (Except Failure ℤ)
  /-- `.finally` has run, and the promise is settled -/
  finished : Bool
deriving DecidableEq

/-- A call of `reserveSourceAccount`. -/
structure Reservation where
  publicKey : String
  /-- the fetch whose promise it waits for, unless the sequence was cached -/
  pending : Option ℕ
  outcome : Option (Except Failure Account)
deriving DecidableEq

/-- What `BigInt(undefined)` throws. No rule of `classifyError` applies to it. -/
def undefinedError : Failure := ⟨"Cannot convert undefined to a BigInt", .unknown⟩

/-- The sequences of a client. -/
structure Sequences where
  sequenceCache : InsertionMap String ℤ
  /-- the fetches by their numbers -/
  sequenceFetches : InsertionMap String ℕ
  getAccounts : List AccountFetch
  reservations : List Reservation
  /-- the calls that got an account, in the order in which they went on -/
  reserved : List (ℕ × Account)

/-- What the event loop runs. -/
inductive SequenceEvent
  /-- a call of `reserveSourceAccount` -/
  | called (publicKey : String)
  /-- a forced refresh -/
  | refreshed (publicKey : String)
  /-- a request has ended, and `.then` runs -/
  | answered (fetch : ℕ) (result : Except Failure ℤ)
  /-- `.finally` runs -/
  | finished (fetch : ℕ)
  /-- a call goes on after its `await` -/
  | resumed (call : ℕ)

/-- A forced refresh, which forgets the cached sequence. -/
def SequenceEvent.isRefresh : SequenceEvent → Bool
  | .refreshed _ => true
  | _ => false

namespace Sequences

variable (s : Sequences)

/-- Up to its `await`, with the fetch whose promise is returned if the sequence is not cached. -/
def fetchAccountSequence (publicKey : String) (force : Bool) : Sequences × Option ℕ :=
  let s :=
    if force then
      { s with
        sequenceCache := s.sequenceCache.delete publicKey
        sequenceFetches := s.sequenceFetches.delete publicKey }
    else s
  match s.sequenceCache.get publicKey with
  | some _ => (s, none)
  | none =>
    match s.sequenceFetches.get publicKey with
    | some pending => (s, some pending)
    | none =>
      let pending := s.getAccounts.length
      ({ s with
          getAccounts := s.getAccounts ++ [⟨publicKey, none, false⟩]
          sequenceFetches := s.sequenceFetches.set publicKey pending },
        some pending)

/-- A call ends. -/
def conclude (c : ℕ) (call : Reservation) (outcome : Except Failure Account) : Sequences :=
  { s with reservations := s.reservations.set c { call with outcome := some outcome } }

/-- `reserveSourceAccount` after its `await`. -/
def reserve (c : ℕ) (call : Reservation) : Sequences :=
  match s.sequenceCache.get call.publicKey with
  | some sequence =>
    { s.conclude c call (.ok ⟨call.publicKey, sequence⟩) with
      sequenceCache := s.sequenceCache.set call.publicKey (sequence + 1)
      reserved := s.reserved ++ [(c, ⟨call.publicKey, sequence⟩)] }
  | none => s.conclude c call (.error undefinedError)

/-- What the promise that a call waits for has settled to. -/
def awaited : Option ℕ → Option (Except Failure Unit)
  | none => some (.ok ())
  | some f =>
    match s.getAccounts[f]? with
    | some ⟨_, some (.ok _), true⟩ => some (.ok ())
    | some ⟨_, some (.error error), true⟩ => some (.error error)
    | _ => none

/-- One step. What is not due changes nothing. -/
def step : SequenceEvent → Sequences
  | .called publicKey =>
    let (s, pending) := s.fetchAccountSequence publicKey false
    { s with reservations := s.reservations ++ [⟨publicKey, pending, none⟩] }
  | .refreshed publicKey => (s.fetchAccountSequence publicKey true).1
  | .answered f result =>
    match s.getAccounts[f]? with
    | some ⟨publicKey, none, finished⟩ =>
      { s with
        getAccounts := s.getAccounts.set f ⟨publicKey, some result, finished⟩
        sequenceCache :=
          match result with
          | .ok sequence => s.sequenceCache.set publicKey sequence
          | .error _ => s.sequenceCache }
    | _ => s
  | .finished f =>
    match s.getAccounts[f]? with
    | some ⟨publicKey, some result, false⟩ =>
      { s with
        getAccounts := s.getAccounts.set f ⟨publicKey, some result, true⟩
        sequenceFetches := s.sequenceFetches.delete publicKey }
    | _ => s
  | .resumed c =>
    match s.reservations[c]? with
    | some ⟨publicKey, pending, none⟩ =>
      match s.awaited pending with
      | some (.ok ()) => s.reserve c ⟨publicKey, pending, none⟩
      | some (.error error) => s.conclude c ⟨publicKey, pending, none⟩ (.error error)
      | none => s
    | _ => s

/-- A client that has just been made. -/
def fresh : Sequences := ⟨∅, ∅, [], [], []⟩

/-- From an empty cache on. -/
def run (events : List SequenceEvent) : Sequences := events.foldl step fresh

end Sequences

end LineProof.Sdk
