import LineProof.Backend.EscrowService

/-!
# Escrow operations and webhook dispatch

An escrow record carries its amount as a bigint, and a webhook body is made with `JSON.stringify`, which
refuses bigints. A call that changes the store therefore throws as soon as a webhook wants its event.
-/

namespace LineProof.Backend

open Sdk

variable {H : Host} {webhooks : List WebhookConfig} {store : EscrowStore}

/-! ## Dispatch of an escrow event -/

/-- No delivery of an escrow record gets past its amount, which is a `bigint`. -/
theorem deliver_record (type : String) (record : EscrowRecord) (wh : WebhookConfig) :
    deliver H type record.json wh = .error .typeError := by
  rfl

/-- Some webhook asks for the event. -/
def Wanted (webhooks : List WebhookConfig) (type : String) : Prop := ∃ wh ∈ webhooks, wh.Matches type

variable (H webhooks) in
/-- An event about a record throws where a webhook wants it, and is silent elsewhere. -/
theorem emit_record {type : String} (htype : type ∈ eventTypes) (record : EscrowRecord) :
    (Wanted webhooks type → emit H webhooks type record.json = .error .typeError) ∧
    (¬ Wanted webhooks type → emit H webhooks type record.json = .ok []) := by
  rw [emit, if_pos htype]
  cases hmatching : webhooks.filter (·.Matches type) with
  | nil =>
    have hnone : ¬ Wanted webhooks type := by
      intro hwanted
      obtain ⟨wh, hwh, hmatch⟩ := hwanted
      have hmem : wh ∈ webhooks.filter (·.Matches type) := by simp [hwh, hmatch]
      rw [hmatching] at hmem
      simp at hmem
    exact ⟨fun hwanted => absurd hwanted hnone, fun _ => rfl⟩
  | cons wh rest =>
    have hwanted : Wanted webhooks type := by
      have hmem : wh ∈ webhooks.filter (·.Matches type) := by simp [hmatching]
      obtain ⟨hwh, hmatch⟩ := List.mem_filter.mp hmem
      exact ⟨wh, hwh, by simpa using hmatch⟩
    refine ⟨fun _ => ?_, fun hnot => absurd hwanted hnot⟩
    rw [List.mapM_cons, deliver_record]
    rfl

/-- The service throws after its write where a webhook wants the event. -/
theorem saveAndEmit_throws_iff {type : String} (htype : type ∈ eventTypes) {id : String}
    {record : EscrowRecord} :
    (∃ e, (saveAndEmit H webhooks store id type record).result = .error e) ↔ Wanted webhooks type := by
  obtain ⟨hthrow, hok⟩ := emit_record H webhooks htype record
  by_cases hwanted : Wanted webhooks type
  · simp [saveAndEmit, hthrow hwanted, hwanted]
  · simp [saveAndEmit, hok hwanted, hwanted]

/-! ## Which calls write -/

/-- The event of a call. -/
def EscrowCall.event : EscrowCall → String
  | .depositEscrow _ => "escrow.deposited"
  | .releaseEscrow _ => "escrow.released"
  | .refundEscrow _ => "escrow.refunded"
  | .expireEscrow _ => "escrow.expired"

/-- Every call emits one of the listed events. -/
theorem EscrowCall.event_mem (call : EscrowCall) : call.event ∈ eventTypes := by
  cases call <;> simp [event, eventTypes]

variable (H store) in
/-- The call finds its record and passes its checks. -/
def EscrowCall.Passes : EscrowCall → Prop
  | .depositEscrow payload =>
    store.get payload.id = none ∧ timeClip (expiryTime H payload.holdDays) ≠ none
  | .releaseEscrow escrowId | .refundEscrow escrowId =>
    ∃ record, store.get escrowId = some record ∧ record.status = .active
  | .expireEscrow escrowId =>
    ∃ record, store.get escrowId = some record ∧ record.status = .active ∧
      record.notYetExpired H = false

/-- The call writes one record, and throws if a webhook wants its event. -/
structure Writes (webhooks : List WebhookConfig) (store : EscrowStore) (type : String)
    {α : Type} (out : Outcome α) : Prop where
  store_eq : ∃ id record, store.get id ≠ some record ∧ out.store = store.set id record
  throws_iff : (∃ e, out.result = .error e) ↔ Wanted webhooks type

/-- What a call returns does not matter to what it writes. -/
theorem Writes.map {type : String} {α β : Type} {out : Outcome α} (f : α → β)
    (h : Writes webhooks store type out) :
    Writes webhooks store type (⟨out.store, out.result.map f⟩ : Outcome β) := by
  refine ⟨h.store_eq, ?_⟩
  rw [← h.throws_iff]
  cases out.result with
  | error e => simp [Except.map]
  | ok a => simp [Except.map]

/-- A call that gets to its write has written, whether it then throws or not. -/
theorem saveAndEmit_writes {id type : String} {record : EscrowRecord} (htype : type ∈ eventTypes)
    (hnew : store.get id ≠ some record) :
    Writes webhooks store type (saveAndEmit H webhooks store id type record) :=
  ⟨⟨id, record, hnew, rfl⟩, saveAndEmit_throws_iff htype⟩

/-- A deposit of a new record writes. -/
theorem depositEscrow_writes {payload : DepositPayload}
    (h : (EscrowCall.depositEscrow payload).Passes H store) :
    Writes webhooks store "escrow.deposited" (depositEscrow H webhooks payload store) := by
  obtain ⟨hnone, hclip⟩ := h
  obtain ⟨expiresAt, hexpires⟩ := Option.ne_none_iff_exists'.mp hclip
  simp only [depositEscrow, hnone, Option.isSome_none, Bool.false_eq_true, if_false, hexpires]
  exact saveAndEmit_writes (EscrowCall.event_mem (.depositEscrow payload)) (by simp [hnone])

/-- A deposit that is refused writes nothing. -/
theorem depositEscrow_store {payload : DepositPayload}
    (h : ¬ (EscrowCall.depositEscrow payload).Passes H store) :
    (depositEscrow H webhooks payload store).store = store := by
  unfold depositEscrow
  split
  · rfl
  · case _ hsome =>
    split
    · rfl
    · case _ expiresAt hexpires =>
      exact absurd ⟨by simpa using hsome, by simp [hexpires]⟩ h

section Transition

variable {escrowId type : String} {next : EscrowStatus}
  {guard : EscrowRecord → Except ServiceError Unit}

variable (guard) in
/-- A transition of an active record writes. -/
theorem transition_writes (htype : type ∈ eventTypes) (hnext : next ≠ .active) {record : EscrowRecord}
    (hget : store.get escrowId = some record) (hactive : record.status = .active)
    (hguard : guard record = .ok ()) :
    Writes webhooks store type (transition H webhooks escrowId next type guard store) := by
  simp only [transition, hget, hactive, ne_eq, not_true_eq_false, if_false, hguard]
  apply Writes.map
  apply saveAndEmit_writes htype
  intro hsame
  -- the record leaves `Active`
  have hstatus := congrArg EscrowRecord.status (Option.some.inj (hget.symm.trans hsame))
  exact hnext (hstatus.symm.trans hactive)

/-- A transition that is refused writes nothing. -/
theorem transition_store
    (h : ∀ record, store.get escrowId = some record → record.status = .active →
      guard record ≠ .ok ()) :
    (transition H webhooks escrowId next type guard store).store = store := by
  unfold transition
  split
  · rfl
  · case _ record hget =>
    split
    · rfl
    · case _ hactive =>
      split
      · rfl
      · case _ hok => exact absurd hok (h record hget (by simpa using hactive))

end Transition

variable (webhooks) in
/-- A call that passes its checks writes a record. -/
theorem EscrowCall.exec_writes {call : EscrowCall} (h : call.Passes H store) :
    Writes webhooks store call.event (call.exec H webhooks store) := by
  cases call with
  | depositEscrow payload => exact (depositEscrow_writes h).map some
  | releaseEscrow escrowId =>
    obtain ⟨record, hget, hactive⟩ := h
    have hnext : EscrowStatus.released ≠ .active := by decide
    exact transition_writes (fun _ => .ok ()) (event_mem (.releaseEscrow escrowId)) hnext hget hactive rfl
  | refundEscrow escrowId =>
    obtain ⟨record, hget, hactive⟩ := h
    have hnext : EscrowStatus.refunded ≠ .active := by decide
    exact transition_writes (fun _ => .ok ()) (event_mem (.refundEscrow escrowId)) hnext hget hactive rfl
  | expireEscrow escrowId =>
    obtain ⟨record, hget, hactive, hexpired⟩ := h
    have hnext : EscrowStatus.expired ≠ .active := by decide
    exact transition_writes _ (event_mem (.expireEscrow escrowId)) hnext hget hactive (by simp [hexpired])

/-- A call that is refused leaves the store as it is. -/
theorem EscrowCall.exec_store {call : EscrowCall} (h : ¬ call.Passes H store) :
    (call.exec H webhooks store).store = store := by
  cases call with
  | depositEscrow payload => exact depositEscrow_store h
  | releaseEscrow escrowId =>
    apply transition_store
    intro record hget hactive
    exact absurd ⟨record, hget, hactive⟩ h
  | refundEscrow escrowId =>
    apply transition_store
    intro record hget hactive
    exact absurd ⟨record, hget, hactive⟩ h
  | expireEscrow escrowId =>
    apply transition_store
    intro record hget hactive hok
    refine absurd ⟨record, hget, hactive, ?_⟩ h
    by_contra hnot
    simp [hnot] at hok

/-! ## Atomicity -/

variable (H webhooks store) in
/-- If the call throws, every record is as before. -/
def EscrowCall.Atomic (call : EscrowCall) : Prop :=
  ∀ e, (call.exec H webhooks store).result = .error e →
    ∀ id, (call.exec H webhooks store).store.get id = store.get id

/-- A call that writes and then throws is not atomic. -/
theorem EscrowCall.not_atomic {call : EscrowCall} (hpasses : call.Passes H store)
    (hwanted : Wanted webhooks call.event) : ¬ call.Atomic H webhooks store := by
  intro hatomic
  have hwrites := exec_writes webhooks hpasses
  obtain ⟨e, he⟩ := hwrites.throws_iff.mpr hwanted
  obtain ⟨id, record, hnew, hstore⟩ := hwrites.store_eq
  have hsame := hatomic e he id
  rw [hstore, InsertionMap.get_set_self] at hsame
  exact hnew hsame.symm

/-- A call leaves the store alone when it fails, except where it gets to its write and a webhook wants its
event. -/
theorem atomic_iff (H : Host) (webhooks : List WebhookConfig) (store : EscrowStore) (call : EscrowCall) :
    call.Atomic H webhooks store ↔ ¬ (call.Passes H store ∧ Wanted webhooks call.event) := by
  constructor
  · intro hatomic hboth
    exact EscrowCall.not_atomic hboth.1 hboth.2 hatomic
  · intro hnot e he id
    by_cases hpasses : call.Passes H store
    · have hwrites := EscrowCall.exec_writes webhooks hpasses
      exact absurd ⟨hpasses, hwrites.throws_iff.mp ⟨e, he⟩⟩ hnot
    · rw [EscrowCall.exec_store hpasses]

/-- The start of 1970. -/
def epoch : Host where
  now := 0
  isoString t := if t = 0 then "1970-01-01T00:00:00.000Z" else "1970-01-31T00:00:00.000Z"
  parseDate _ := none
  randomUUID := "36b8f84d-df4e-4d49-b662-bcde71a8764f"
  quote s := "\"" ++ s ++ "\""
  hmacSha256 _ _ := ""

/-- A webhook for all events. -/
def allEvents : WebhookConfig :=
  ⟨"1", "https://example.com/hook", "supersecret", ["*"], "1970-01-01T00:00:00.000Z"⟩

/-- The deposit of alice for the queue of the clinic. -/
def aliceDeposit : EscrowCall := .depositEscrow ⟨"clinic", "alice", 100, "XLM", none⟩

/-- A first deposit fails with a webhook for all events, and its record stays. -/
theorem deposit_not_atomic : ¬ aliceDeposit.Atomic epoch [allEvents] ∅ := by
  have hpasses : aliceDeposit.Passes epoch ∅ := ⟨rfl, by decide +kernel⟩
  have hwanted : Wanted [allEvents] "escrow.deposited" :=
    ⟨allEvents, by simp, .inr (by simp [allEvents])⟩
  exact EscrowCall.not_atomic hpasses hwanted

end LineProof.Backend
