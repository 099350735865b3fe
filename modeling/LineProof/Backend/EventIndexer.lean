import LineProof.Lib.InsertionMap
import LineProof.Sdk.Events

/-!
# The event indexer

Reference: `backend/src/services/eventIndexer.ts`, over the `MemoryAdapter` of `backend/src/storage`.

`fetchRawEvents` is a stub that a deployment replaces. A poll is modelled with the batch it returns.
-/

namespace LineProof.Backend

open Sdk

/-- A raw item, or a part of one. An object is given by its properties, `undefined` where it has none. -/
inductive JsValue
  | undefined
  | null
  | boolean (b : Bool)
  | number (x : JsNumber)
  | bigint (z : ℤ)
  | string (s : String)
  | array (vs : List JsValue)
  | object (property : String → JsValue)

/-- The text of a value in a template literal. -/
structure TemplateText where
  /-- `none` if the conversion throws -/
  text : JsValue → Option String
  string : ∀ s, text (.string s) = some s
  /-- from `10 ^ 21` on a number is written with an exponent -/
  ofNat : ∀ n < 10 ^ 21, text (.number (.ofNat n)) = some (toString n)

/-- `CONTRACT_TOPICS`. -/
def contractTopics : List EventNamespace := [.queue, .enrollment, .escrow, .identity, .factory]

/-- An object that `deserialize` accepts. -/
structure AnyLineProofEvent where
  property : String → JsValue
  namespace_ : EventNamespace
  kind : String
  ledger : JsNumber
  namespace_eq : property "namespace" = .string namespace_.name
  kind_eq : property "kind" = .string kind
  ledger_eq : property "ledger" = .number ledger

/-- Whatever the property is, also if it is missing. -/
def AnyLineProofEvent.contractId (event : AnyLineProofEvent) : JsValue := event.property "contractId"

/-- The topic that is found has the name that was looked for. -/
theorem name_of_find {ns : String} {topic : EventNamespace}
    (h : (contractTopics.find? fun topic => topic.name = ns) = some topic) : topic.name = ns := by
  simpa using List.find?_some h

/-- `deserializeContractEvent`: a known namespace, a kind that is a string and a numeric ledger. -/
def deserialize : JsValue → Option AnyLineProofEvent
  | .object candidate =>
    match hns : candidate "namespace", hkind : candidate "kind", hledger : candidate "ledger" with
    | .string ns, .string kind, .number ledger =>
      match htopic : contractTopics.find? fun topic => topic.name = ns with
      | some topic =>
        some
          { property := candidate, namespace_ := topic, kind, ledger
            namespace_eq := by rw [hns, name_of_find htopic]
            kind_eq := hkind
            ledger_eq := hledger }
      | none => none
    | _, _, _ => none
  -- a value of another type is falsy or has no namespace
  | _ => none

/-- The namespaces `events` and `events:cursor` of the adapter. -/
structure IndexStore where
  events : InsertionMap String AnyLineProofEvent
  lastLedger : Option JsNumber

/-- The store of a first start. -/
def IndexStore.empty : IndexStore := ⟨∅, none⟩

/-- In the order of the keys' first insertion. -/
def getIndexedEvents (store : IndexStore) : List AnyLineProofEvent := store.events.values

section Indexer

variable (T : TemplateText) (startLedger : JsNumber)

/-- The ledger of the last event, or where the indexer starts. -/
def cursor (store : IndexStore) : JsNumber := store.lastLedger.getD startLedger

/-- The storage key of `persist`, `none` if its template literal throws. -/
def persistKey (event : AnyLineProofEvent) : Option String := do
  let ledger ← T.text (.number event.ledger)
  let contractId ← T.text event.contractId
  return ledger ++ ":" ++ event.namespace_.name ++ ":" ++ event.kind ++ ":" ++ contractId

/-- Writes the event under its key, unless the key throws. -/
def persist (event : AnyLineProofEvent) (store : IndexStore) : Option IndexStore := do
  return { store with events := store.events.set (← persistKey T event) event }

/-- The loop of `poll`, with the store it leaves. The result, `events` and `maxLedger`, is `none` if
`persist` throws. -/
def indexLoop (store : IndexStore) (maxLedger : JsNumber) (events : List AnyLineProofEvent) :
    List JsValue → IndexStore × Option (List AnyLineProofEvent × JsNumber)
  | [] => (store, some (events, maxLedger))
  | item :: raw =>
    match deserialize item with
    | none => indexLoop store maxLedger events raw
    | some event =>
      match persist T event store with
      | none => (store, none)
      | some store' =>
        indexLoop store' (if maxLedger.lt event.ledger then event.ledger else maxLedger)
          (events ++ [event]) raw

/-- `poll`, whose promise is rejected where the result is `none`. -/
def poll (raw : List JsValue) (store : IndexStore) :
    IndexStore × Option (List AnyLineProofEvent) :=
  let from_ := cursor startLedger store
  match indexLoop T store from_ [] raw with
  | (store', some (events, maxLedger)) =>
    if from_.lt maxLedger then ({ store' with lastLedger := some maxLedger }, some events)
    else (store', some events)
  | (store', none) => (store', none)

/-- The store after polls that get these batches. -/
def polls (batches : List (List JsValue)) : IndexStore :=
  batches.foldl (fun store raw => (poll T startLedger raw store).1) .empty

end Indexer

end LineProof.Backend
