import LineProof.Enrollment.Steps
import LineProof.Escrow.Steps
import LineProof.Factory.Steps
import LineProof.Identity.Steps
import LineProof.Lib.Hex
import LineProof.Queue.Custody
import LineProof.Sdk.Events

/-!
# From contract events to typed events

The contracts publish under a symbol with an underscore, `lineproof_queue`, and the SDK knows the
namespace with a point, `lineproof.queue`. The one event under the name the SDK expects is the transfer
of the ownership of a queue, and it is the one event that comes through (`roundTrips_iff`).
-/

namespace LineProof.Sdk

open Soroban

/-! ## What an event carries -/

/-- The values in the data of an event. -/
def dataValues : EventData → List ScVal
  | .void => []
  | .val v => [v]
  | .tuple vs => vs

/-- The kind in the topics of an event. -/
def kindOf (ev : Event) : Option String :=
  match ev.topics with
  | _ :: .symbol kind :: _ => some kind.str
  | _ => none

/-- The identity in the data of an event. -/
def emittedIdentity (ev : Event) : Option String :=
  (dataValues ev.data).findSome? fun
    | .address a => some a.strkey
    | _ => none

/-- The amount in the data of an event. -/
def emittedAmount (ev : Event) : Option ℤ :=
  (dataValues ev.data).findSome? fun
    | .i128 z => some z
    | _ => none

/-- The position id in the topics of an event. -/
def emittedPositionId (ev : Event) : Option JsNumber :=
  ev.topics.findSome? fun
    | .u32 n => some (.ofNat n)
    | _ => none

/-- The proof hash in the data of an event, in hex. -/
def emittedProofHash (ev : Event) : Option String :=
  (dataValues ev.data).findSome? fun
    | .bytes b => some (String.ofList (Hex.ofBytes b.toList))
    | _ => none

/-- The slug in the topics of an event. -/
def emittedSlug (ev : Event) : Option String :=
  (ev.topics.drop 2).findSome? fun
    | .symbol s => some s.str
    | _ => none

/-- The version in the data of an event. -/
def emittedVersion (ev : Event) : Option JsNumber :=
  (dataValues ev.data).findSome? fun
    | .u32 n => some (.ofNat n)
    | _ => none

/-- The fields of a typed event have the values the contract emitted. -/
inductive Agrees (ev : Event) : TypedFields → Prop
  | plain : Agrees ev .plain
  | position {x : JsNumber} (h : emittedPositionId ev = some x) : Agrees ev (.position x)
  | ownership {a b : Address} (h : ev.topics.drop 2 = [.address a, .address b]) :
    Agrees ev (.ownership a.strkey b.strkey)
  | identity {u : String} (h : emittedIdentity ev = some u) : Agrees ev (.identity u)
  | proof {u hash : String} (h : emittedIdentity ev = some u) (hhash : emittedProofHash ev = some hash) :
    Agrees ev (.proof u hash)
  | amount {u : String} {z : ℤ} (h : emittedIdentity ev = some u) (hz : emittedAmount ev = some z) :
    Agrees ev (.amount u z)
  | transfer {u v : String} (h : emittedIdentity ev = some u) : Agrees ev (.transfer u v)
  | deployed {s c : String} {x : JsNumber} (h : emittedSlug ev = some s)
    (hversion : emittedVersion ev = some x) : Agrees ev (.deployed s c x)
  | slug {s : String} (h : emittedSlug ev = some s) : Agrees ev (.slug s)

/-! ## Events on their way to the SDK -/

/-- The event is published in some run of the contract of the namespace. -/
inductive PublishedBy : EventNamespace → Event → Prop
  | queue {ev : Event} (calls : List (Invocation Queue.Call))
    (mem : ev ∈ (Queue.openQueue.run Queue.fresh calls).events) : PublishedBy .queue ev
  | enrollment {ev : Event} (computeProofHash : Address → Symbol → ℕ → Bytes32)
    (calls : List (Invocation Enrollment.Entrypoint))
    (mem : ev ∈ ((Enrollment.enrollment computeProofHash).run Enrollment.fresh calls).events) :
    PublishedBy .enrollment ev
  | escrow {ev : Event} (calls : List (Invocation Escrow.Entrypoint))
    (mem : ev ∈ (Escrow.escrow.run Escrow.fresh calls).events) : PublishedBy .escrow ev
  | identity {ev : Event} (calls : List (Invocation Identity.Entrypoint))
    (mem : ev ∈ (Identity.identity.run Identity.fresh calls).events) : PublishedBy .identity ev
  | factory {ev : Event} (host : Factory.Deployer) (factoryId : Address) (steps : List Factory.Step)
    (mem : ev ∈ ((Factory.factory host factoryId).run Factory.fresh steps).events) :
    PublishedBy .factory ev

/-- The host value a segment stands for. -/
def StellarSdk.parse (S : StellarSdk) : Segment → Option EventData
  | .scVal v => some v
  | .text s => S.fromXDR s

/-- A published event as the SDK receives it: every segment parsed, or in base64. -/
structure Delivery (S : StellarSdk) where
  source : EventNamespace
  event : Event
  published : PublishedBy source event
  raw : RawContractEventLike
  segments : List Segment
  topic : raw.topic = some segments
  parse : segments.map S.parse = event.topics.map fun v => some (.val v)
  value : raw.value.map S.parse = some (some event.data)

/-- The event arrives with its namespace, its kind and its values. -/
def Delivery.RoundTrips (J : Conversions) {S : StellarSdk} (d : Delivery S) : Prop :=
  ∃ typed, deserializeContractEvent J S d.raw = .ok (some typed) ∧
    typed.base.namespace_ = d.source ∧ kindOf d.event = some typed.base.kind ∧
    Agrees d.event typed.fields

/-- The event announces a new administrator of a queue. -/
def TransfersOwnership (ev : Event) : Prop :=
  ∃ previous next, ev = ⟨[.string "lineproof.queue", .symbol ⟨"OwnershipTransferred"⟩,
    .address previous, .address next], .void⟩

/-! ## What the contracts publish -/

/-- The first topic of the events of `emit`. -/
def OfContract (name : String) (ev : Event) : Prop := ∃ rest, ev.topics = .symbol ⟨name⟩ :: rest

/-- The queue publishes under its own name, or a change of ownership. -/
theorem queue_effect_published {env : Env} {s s' : Queue.Store} {e : Queue.Entrypoint}
    {o : Queue.Output} {events : List Event} (eff : Queue.Effect env s e o s' events) :
    ∀ ev ∈ events, OfContract "lineproof_queue" ev ∨ TransfersOwnership ev := by
  intro ev hev
  cases eff with
  | read | propose => simp at hev
  | accept => exact .inr ⟨_, _, List.mem_singleton.mp hev⟩
  | upgrade | lifecycle | migrate | enroll | cancel =>
    rw [List.mem_singleton.mp hev]
    exact .inl ⟨_, rfl⟩
  | advance =>
    rcases List.mem_append.mp hev with h | h
    · obtain ⟨id, -, rfl⟩ := List.mem_map.mp h
      exact .inl ⟨_, rfl⟩
    · obtain ⟨id, -, rfl⟩ := List.mem_map.mp h
      exact .inl ⟨_, rfl⟩
  | expire =>
    obtain ⟨id, -, rfl⟩ := List.mem_map.mp hev
    exact .inl ⟨_, rfl⟩

/-- A call of the queue keeps the next id in range and publishes under the name of the contract, apart
from a transfer of ownership. -/
theorem queue_commit_published (c : Queue.openQueue.Commit)
    (h : c.pre.store.nextId.getD 1 ≤ u32Max) :
    c.post.store.nextId.getD 1 ≤ u32Max ∧
      ∃ events, c.post.events = c.pre.events ++ events ∧
        ∀ ev ∈ events, OfContract "lineproof_queue" ev ∨ TransfersOwnership ev := by
  have hok := c.ok
  cases hentry : c.call.entry with
  | entry e =>
    simp only [Queue.openQueue, machine, hentry, Queue.execCall] at hok
    obtain ⟨events, hevents, eff⟩ := Queue.effect_of_exec ((Nat.sub_le _ _).trans h) hok
    exact ⟨eff.nextId_le h, events, hevents, queue_effect_published eff⟩
  | initializeQueue admin config =>
    simp only [Queue.openQueue, machine, hentry, Queue.execCall, bind_eq_ok, pure_eq_ok,
      Queue.initializeQueue_eq_ok] at hok
    obtain ⟨_, _, ⟨-, -, hinit⟩, hpost⟩ := hok
    obtain ⟨-, rfl⟩ := Prod.mk.inj hinit
    obtain ⟨-, hpost⟩ := Prod.mk.inj hpost
    rw [← hpost]
    refine ⟨show 1 ≤ u32Max by decide, _, rfl, fun ev hev => ?_⟩
    rw [List.mem_singleton.mp hev]
    exact .inl ⟨_, rfl⟩

/-- The enrollment contract publishes under its own name. -/
theorem enrollment_effect_published {computeProofHash : Address → Symbol → ℕ → Bytes32} {env : Env}
    {s s' : Enrollment.Store} {e : Enrollment.Entrypoint} {o : Enrollment.Output}
    {events : List Event} (eff : Enrollment.Effect computeProofHash env s e o s' events) :
    ∀ ev ∈ events, OfContract "lineproof_enrollment" ev := by
  intro ev hev
  cases eff with
  | read => simp at hev
  | behavior | waitlist | override | enroll | cancel | finalize =>
    rw [List.mem_singleton.mp hev]
    exact ⟨_, rfl⟩
  | promote =>
    obtain ⟨u, -, rfl⟩ := List.mem_map.mp hev
    exact ⟨_, rfl⟩

/-- The escrow publishes under its own name. -/
theorem escrow_effect_published {env : Env} {s s' : Escrow.Store} {e : Escrow.Entrypoint}
    {o : Escrow.Output} {events : List Event} (eff : Escrow.Effect env s e o s' events) :
    ∀ ev ∈ events, OfContract "lineproof_escrow" ev := by
  intro ev hev
  cases eff with
  | read | setConfig => simp at hev
  | deposit | settle =>
    rw [List.mem_singleton.mp hev]
    exact ⟨_, rfl⟩

/-- The identity contract publishes under its own name. -/
theorem identity_effect_published {env : Env} {s s' : Identity.Store} {e : Identity.Entrypoint}
    {o : Identity.Output} {events : List Event} (eff : Identity.Effect env s e o s' events) :
    ∀ ev ∈ events, OfContract "lineproof_identity" ev := by
  intro ev hev
  cases eff with
  | read | unbindNone | allow | init => simp at hev
  | bind | unbind | revoke | attempt =>
    rw [List.mem_singleton.mp hev]
    exact ⟨_, rfl⟩

/-- The factory publishes under its own name. -/
theorem factory_effect_published {host : Factory.Deployer} {env : Env} {w w' : Factory.World}
    {e : Factory.Entrypoint} {o : Factory.Output} {events : List Event}
    (eff : Factory.Effect host env w e o w' events) :
    ∀ ev ∈ events, OfContract "lineproof_factory" ev := by
  intro ev hev
  cases eff with
  | read | approve | config => simp at hev
  | init | deploy | register | deactivate | reactivate | destroy | upgrade =>
    rw [List.mem_singleton.mp hev]
    exact ⟨_, rfl⟩

/-- A call of the factory publishes under its name, and other transactions publish nothing of it. -/
theorem factory_commit_published {host : Factory.Deployer} {factoryId : Address}
    (c : (Factory.factory host factoryId).Commit) :
    ∃ events, c.post.events = c.pre.events ++ events ∧
      ∀ ev ∈ events, OfContract "lineproof_factory" ev := by
  rcases Factory.effect_of_commit c with ⟨_, _, _, events, -, hevents, eff⟩ | ⟨-, -, hevents⟩
  · exact ⟨events, hevents, factory_effect_published eff⟩
  · exact ⟨[], by rw [hevents, List.append_nil], by simp⟩

/-- Every published event is under a contract symbol or transfers the ownership of a queue. -/
theorem PublishedBy.shape {ns : EventNamespace} {ev : Event} (h : PublishedBy ns ev) :
    (∃ name, OfContract name ev ∧ isEventNamespace name = none) ∨
      ns = .queue ∧ TransfersOwnership ev := by
  have unknown {name : String} (hname : isEventNamespace name = none)
      (hev : OfContract name ev) :
      (∃ name, OfContract name ev ∧ isEventNamespace name = none) ∨
        ns = .queue ∧ TransfersOwnership ev := .inl ⟨name, hev, hname⟩
  cases h with
  | queue calls mem =>
    have hshape := events_run (M := Queue.openQueue)
      (I := fun l => l.store.nextId.getD 1 ≤ u32Max) (l := Queue.fresh)
      (P := fun ev => OfContract "lineproof_queue" ev ∨ TransfersOwnership ev)
      (fun c hc => (queue_commit_published c hc).1) (fun c hc => (queue_commit_published c hc).2)
      (show 1 ≤ u32Max by decide) (fun _ h => absurd h List.not_mem_nil) calls ev mem
    rcases hshape with hqueue | htransfer
    · exact unknown (by decide) hqueue
    · exact .inr ⟨rfl, htransfer⟩
  | enrollment computeProofHash calls mem =>
    refine unknown (by decide) (events_run (M := Enrollment.enrollment computeProofHash)
      (I := fun _ => True) (P := OfContract "lineproof_enrollment") (fun _ _ => trivial) ?_ trivial
      (fun _ h => absurd h List.not_mem_nil) calls ev mem)
    intro c _
    obtain ⟨events, hevents, eff⟩ := Enrollment.effect_of_exec c.ok
    exact ⟨events, hevents, enrollment_effect_published eff⟩
  | escrow calls mem =>
    refine unknown (by decide) (events_run (M := Escrow.escrow)
      (I := fun _ => True) (P := OfContract "lineproof_escrow") (fun _ _ => trivial) ?_ trivial
      (fun _ h => absurd h List.not_mem_nil) calls ev mem)
    intro c _
    obtain ⟨events, hevents, eff⟩ := Escrow.effect_of_exec c.ok
    exact ⟨events, hevents, escrow_effect_published eff⟩
  | identity calls mem =>
    refine unknown (by decide) (events_run (M := Identity.identity)
      (I := fun _ => True) (P := OfContract "lineproof_identity") (fun _ _ => trivial) ?_ trivial
      (fun _ h => absurd h List.not_mem_nil) calls ev mem)
    intro c _
    obtain ⟨events, hevents, eff⟩ := Identity.effect_of_exec c.ok
    exact ⟨events, hevents, identity_effect_published eff⟩
  | factory host factoryId steps mem =>
    exact unknown (by decide) (events_run (M := Factory.factory host factoryId)
      (I := fun _ => True) (P := OfContract "lineproof_factory") (fun _ _ => trivial)
      (fun c _ => factory_commit_published c) trivial (fun _ h => absurd h List.not_mem_nil) steps ev
      mem)

/-! ## What the SDK makes of them -/

variable {J : Conversions} {S : StellarSdk}

/-- A topic that parses is decoded to its native value. -/
theorem decodeTopicSegment_of_parse {segment : Segment} {v : EventData} {n : Native}
    (hparse : S.parse segment = some v) (hnative : S.scValToNative v = some n) :
    decodeTopicSegment S segment = n := by
  cases segment with
  | scVal v' =>
    obtain rfl := Option.some.inj hparse
    rw [decodeTopicSegment, hnative, Option.getD_some]
  | text s =>
    have hxdr : S.fromXDR s = some v := hparse
    rw [decodeTopicSegment, hxdr, Option.bind_some, hnative, Option.getD_some]

/-- An event under a name the SDK does not know is not recognized. -/
theorem deserialize_of_unknown (d : Delivery S) {name : String} (hev : OfContract name d.event)
    (hname : isEventNamespace name = none) : deserializeContractEvent J S d.raw = .ok none := by
  obtain ⟨rest, hrest⟩ := hev
  have hparse := d.parse
  rw [hrest] at hparse
  unfold deserializeContractEvent
  rw [d.topic]
  cases hsegments : d.segments with
  | nil => rfl
  | cons topic₀ segments =>
    rw [hsegments, List.map_cons, List.map_cons] at hparse
    have hname₀ : decodeTopicSegment S topic₀ = .string name :=
      decodeTopicSegment_of_parse (List.cons_eq_cons.mp hparse).1 (S.symbol _)
    cases segments with
    | nil => rfl
    | cons topic₁ segments =>
      simp only [hname₀]
      cases decodeTopicSegment S topic₁ <;> first | rfl | simp only [hname]

/-- A transfer of ownership arrives with both administrators. -/
theorem deserialize_of_transfer (d : Delivery S) {previous next : Address}
    (hev : d.event = ⟨[.string "lineproof.queue", .symbol ⟨"OwnershipTransferred"⟩,
      .address previous, .address next], .void⟩) :
    ∃ typed, deserializeContractEvent J S d.raw = .ok (some typed) ∧
      typed.base.namespace_ = .queue ∧ typed.base.kind = "OwnershipTransferred" ∧
      typed.fields = .ownership previous.strkey next.strkey := by
  have hparse := d.parse
  rw [hev] at hparse
  obtain ⟨topic₀, rest, hsegments, h₀, hparse⟩ := List.map_eq_cons_iff.mp hparse
  obtain ⟨topic₁, rest, rfl, h₁, hparse⟩ := List.map_eq_cons_iff.mp hparse
  obtain ⟨topic₂, rest, rfl, h₂, hparse⟩ := List.map_eq_cons_iff.mp hparse
  obtain ⟨topic₃, rest, rfl, h₃, hparse⟩ := List.map_eq_cons_iff.mp hparse
  obtain rfl := List.map_eq_nil_iff.mp hparse
  have hname := decodeTopicSegment_of_parse h₀ (S.string _)
  have hkind := decodeTopicSegment_of_parse h₁ (S.symbol _)
  have hprevious := decodeTopicSegment_of_parse h₂ (S.address _)
  have hnext := decodeTopicSegment_of_parse h₃ (S.address _)
  have hqueue : isEventNamespace "lineproof.queue" = some .queue := by decide
  unfold deserializeContractEvent
  rw [d.topic, hsegments]
  simp only [hname, hkind, hqueue, List.map_cons, List.map_nil, hprevious, hnext]
  exact ⟨_, rfl, rfl, rfl, rfl⟩

/-- The typed event of a delivery has the namespace, the kind and the values the contract published
exactly when the event is a transfer of the ownership of a queue. -/
theorem roundTrips_iff (J : Conversions) (S : StellarSdk) (d : Delivery S) :
    d.RoundTrips J ↔ TransfersOwnership d.event := by
  constructor
  · intro hround
    rcases hround with ⟨typed, htyped, -⟩
    rcases d.published.shape with ⟨name, hev, hname⟩ | ⟨-, htransfer⟩
    · rw [deserialize_of_unknown d hev hname] at htyped
      simp at htyped
    · exact htransfer
  · intro htransfer
    rcases htransfer with ⟨previous, next, hev⟩
    obtain ⟨typed, htyped, hns, hkind, hfields⟩ := deserialize_of_transfer (J := J) d hev
    refine ⟨typed, htyped, ?_, ?_, ?_⟩
    · rcases d.published.shape with ⟨name, ⟨rest, hrest⟩, -⟩ | ⟨hsource, -⟩
      · rw [hev] at hrest
        exact absurd (List.cons_eq_cons.mp hrest).1 (by simp)
      · rw [hns, hsource]
    · rw [hev, hkind]
      rfl
    · rw [hfields]
      exact .ownership (by rw [hev]; rfl)

/-- The members of `AnyLineProofEvent`. -/
def members : List (EventNamespace × String) :=
  [(.queue, "Initialized"), (.queue, "EnrollmentOpened"), (.queue, "EnrollmentClosed"),
    (.queue, "Advanced"), (.queue, "Expired"), (.queue, "QueueClosed"),
    (.queue, "OwnershipTransferred"), (.enrollment, "Enrolled"), (.enrollment, "Cancelled"),
    (.enrollment, "Finalized"), (.escrow, "Deposited"), (.escrow, "Released"), (.escrow, "Refunded"),
    (.escrow, "Expired"), (.identity, "Bound"), (.identity, "Unbound"),
    (.identity, "TransferReverted"), (.factory, "Deployed"), (.factory, "Registered")]

/-- The binding of an identity is an event with a member, and does not come through. -/
theorem binding_lost :
    ¬ ∃ (J : Conversions) (S : StellarSdk), ∀ d : Delivery S,
      (∃ kind, kindOf d.event = some kind ∧ (d.source, kind) ∈ members) → d.RoundTrips J := by
  intro h
  rcases h with ⟨J, S, h⟩
  let alice : Address := ⟨"GALICE"⟩
  let clinic : Symbol := ⟨"clinic"⟩
  let bound := Identity.event "Bound" clinic alice 1
  let segments : List Segment := bound.topics.map fun v => .scVal (.val v)
  let d : Delivery S :=
    { source := .identity
      event := bound
      published := .identity [⟨⟨1, [alice], ⟨"CIDENTITY"⟩⟩, .bind alice clinic⟩] List.mem_cons_self
      raw := ⟨7, "", some "CIDENTITY", "7-1", some segments, some (.scVal bound.data)⟩
      segments := segments
      topic := rfl
      parse := rfl
      value := rfl }
  have hmember : (EventNamespace.identity, "Bound") ∈ members := by decide
  obtain ⟨typed, htyped, -⟩ := h d ⟨"Bound", rfl, hmember⟩
  rw [deserialize_of_unknown d ⟨_, rfl⟩ (by decide)] at htyped
  simp at htyped

end LineProof.Sdk
