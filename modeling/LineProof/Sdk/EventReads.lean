import LineProof.Sdk.Events
import LineProof.Sdk.Pagination

/-!
# Reading events

Reference: `getEvents` and `streamEvents` in `sdk/src/client.ts`.

A page keeps each event together with the raw event it was made from, which tells two events with the
same fields apart. The RPC answers from a log, with the first events from a ledger on.
-/

namespace LineProof.Sdk

/-- The contract events of a network in ledger order. Every event has its own id. -/
structure EventLog where
  entries : List RawContractEventLike
  sorted : entries.Pairwise fun a b => a.ledger ≤ b.ledger
  nodup : (entries.map (·.id)).Nodup

/-- What a caller may ask for. -/
structure EventFilter where
  contractIds : Option (List String)
  namespaces : Option (List EventNamespace)
  startLedger : Option ℤ
  cursor : Option String
  limit : Option ℕ

/-- The number of events asked for, `Math.min(filter.limit ?? 50, 200)`. -/
def EventFilter.pageLimit (filter : EventFilter) : ℕ := min (filter.limit.getD 50) 200

/-- An event as it is delivered, with its source. -/
structure Delivered where
  raw : RawContractEventLike
  event : AnyLineProofEvent

/-- The contract filter of the RPC. A filter without ids lets every contract through. -/
def ofContracts (contractIds : Option (List String)) (raw : RawContractEventLike) : Bool :=
  match contractIds, raw.contractId with
  | none, _ | some [], _ => true
  | some ids, some id => ids.contains id
  | some _, none => false

/-- The events of the log from a ledger on. -/
def EventLog.since (log : EventLog) (startLedger : ℤ) (contractIds : Option (List String)) :
    List RawContractEventLike :=
  log.entries.filter fun raw => startLedger ≤ raw.ledger ∧ ofContracts contractIds raw = true

/-- `sorobanServer.getEvents`. -/
def EventLog.getEvents (log : EventLog) (startLedger : ℤ) (contractIds : Option (List String))
    (limit : ℕ) : List RawContractEventLike :=
  (log.since startLedger contractIds).take limit

/-- What a read may reject with. -/
inductive ReadError
  | error (message : String)
  | js (error : JsError)
  /-- the RPC refuses the request -/
  | rpc

variable (B : Base64) (J : Conversions) (S : StellarSdk)

/-- Is the namespace among those asked for. -/
def EventFilter.wants (filter : EventFilter) (event : AnyLineProofEvent) : Bool :=
  match filter.namespaces with
  | none => true
  | some namespaces => namespaces.contains event.base.namespace_

/-- The ledger to read from: the cursor's, or the one asked for. -/
def EventFilter.start (filter : EventFilter) : Except ReadError ℤ :=
  match filter.cursor with
  -- the index of the cursor is not used
  | some cursor =>
    if cursor = "" then .ok (filter.startLedger.getD 0)
    else
      match decodeCursor B cursor with
      | some ⟨.finite ledger, _⟩ => .ok ledger
      -- JSON has no infinity
      | some ⟨.infinite _, _⟩ => .error .rpc
      | none => .error (.error ("Invalid cursor: \"" ++ cursor ++ "\""))
  | none => .ok (filter.startLedger.getD 0)

/-- Deserialize every raw event, which fails if one of them throws, and drop what is not recognised. -/
def deserializeAll : List RawContractEventLike → Except ReadError (List Delivered)
  | [] => .ok []
  | raw :: rest =>
    match deserializeContractEvent J S raw with
    | .error e => .error (.js e)
    | .ok none => deserializeAll rest
    | .ok (some event) =>
      match deserializeAll rest with
      | .error e => .error e
      | .ok events => .ok (⟨raw, event⟩ :: events)

/-- One request, filtered here, as a page. -/
def getEvents (log : EventLog) (filter : EventFilter) : Except ReadError (Page Delivered) :=
  match filter.start B with
  | .error e => .error e
  | .ok startLedger =>
    match deserializeAll J S (log.getEvents startLedger filter.contractIds filter.pageLimit) with
    | .error e => .error e
    | .ok deserialized =>
      let events := deserialized.filter fun d => filter.wants d.event
      .ok (paginate B events (some filter.pageLimit) fun d index =>
        ⟨.finite d.event.base.ledger, .finite index⟩)

/-- What `streamEvents` keeps between polls, and the events it has called back with. -/
structure Stream where
  cursor : Option String
  delivered : List Delivered

/-- One `poll`. A failed one is swallowed. -/
def poll (filter : EventFilter) (log : EventLog) (stream : Stream) : Stream :=
  let page := getEvents B J S log <|
    match stream.cursor with
    | some cursor => if cursor = "" then filter else { filter with cursor := some cursor }
    | none => filter
  match page with
  | .error _ => stream
  | .ok page =>
    { delivered := stream.delivered ++ page.items
      cursor :=
        match page.nextCursor with
        | some cursor => if cursor = "" then stream.cursor else some cursor
        | none => stream.cursor }

/-- `streamEvents` after its first polls, the `n`-th of which sees the `n`-th log. -/
def streamEvents (filter : EventFilter) (logs : ℕ → EventLog) : ℕ → Stream
  | 0 => ⟨filter.cursor, []⟩
  | n + 1 => poll B J S filter (logs n) (streamEvents filter logs n)

/-- The events delivered by following `nextCursor` until it is absent. -/
inductive Walk (log : EventLog) : EventFilter → List Delivered → Prop
  | last {filter : EventFilter} {page : Page Delivered} (hpage : getEvents B J S log filter = .ok page)
      (hlast : page.nextCursor = none) : Walk log filter page.items
  | next {filter : EventFilter} {page : Page Delivered} {cursor : String} {rest : List Delivered}
      (hpage : getEvents B J S log filter = .ok page) (hnext : page.nextCursor = some cursor)
      (hrest : Walk log { filter with cursor := some cursor } rest) :
      Walk log filter (page.items ++ rest)

end LineProof.Sdk
