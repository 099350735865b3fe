import LineProof.Identity.Defs

/-!
# What each entrypoint of the identity contract does

One equivalence for each entrypoint, and `Effect` with `effect_of_exec` as for the other contracts.
-/

namespace LineProof.Identity

open Soroban

/-- `admin` is the stored administrator and authorized the call. -/
structure AdminCall (s : Store) (env : Env) (admin : Address) : Prop where
  stored : s.admin = some admin
  auth : admin ∈ env.authorizers

/-- The storage with a new record of `u`. -/
def Store.setRecord (s : Store) (u : Address) (record : IdentityRecord) : Store :=
  { s with records := s.records.insert u record }

/-- The record `bind` writes. -/
def IdentityRecord.bound (record : IdentityRecord) (q : Symbol) (now : ℕ) : IdentityRecord :=
  { record with
    queues := record.queues ++ [q]
    boundAt := if record.boundAt = 0 then now else record.boundAt
    status := .bound }

/-- The record `unbind` writes. -/
def IdentityRecord.unbound (record : IdentityRecord) (q : Symbol) : IdentityRecord :=
  { record with queues := record.queues.filter (· ≠ q) }

/-- The record `revoke` writes. -/
def IdentityRecord.revoked (record : IdentityRecord) : IdentityRecord :=
  { record with status := .revoked }

/-- The storage with an attempt to transfer. -/
def Store.addAttempt (s : Store) (u v : Address) (q : Symbol) (now : ℕ) : Store :=
  { s with attempts := s.attempts.insert (u, v, q) ⟨u, v, now, true⟩ }

variable {env : Env} {l : Ledger Store} {s : Store} {admin u v : Address} {q : Symbol}

@[simp] theorem emit_eq_ok {kind : String} {now : ℕ} {r : Unit × Ledger Store} :
    emit kind q u now env l = .ok r ↔
      ((), { l with events := l.events ++ [event kind q u now] }) = r :=
  publish_eq_ok

@[simp] theorem saveRecord_eq_ok {record : IdentityRecord} {r : Unit × Ledger Store} :
    saveRecord u record env l = .ok r ↔ ((), ⟨l.store.setRecord u record, l.events⟩) = r :=
  save_eq_ok

/-- The check passes for the stored administrator, and changes nothing. -/
@[simp] theorem requireAdmin_eq_ok {r : Unit × Ledger Store} :
    requireAdmin admin env l = .ok r ↔ AdminCall l.store env admin ∧ ((), l) = r := by
  have hcall : AdminCall l.store env admin ↔
      admin ∈ env.authorizers ∧ l.store.admin = some admin :=
    ⟨fun h => ⟨h.auth, h.stored⟩, fun h => ⟨h.2, h.1⟩⟩
  simp [requireAdmin, hcall, and_assoc]

/-! ## Entrypoints -/

/-- A binding passes four checks, stores the bound record and publishes one event. -/
theorem bindIdentity_eq_ok {r : Unit × Ledger Store} :
    bind u q env l = .ok r ↔
      u ∈ env.authorizers ∧ (l.store.getRecordInternal u).status ≠ .revoked ∧
        q ∉ (l.store.getRecordInternal u).queues ∧
        (l.store.getRecordInternal u).queues.length < maxQueuesPerIdentity ∧
        r = ((), ⟨l.store.setRecord u ((l.store.getRecordInternal u).bound q env.timestamp),
          l.events ++ [event "Bound" q u env.timestamp]⟩) := by
  simp [bind, IdentityRecord.bound, eq_comm (a := r)]

/-- An unbinding stores and publishes only when the queue was bound. -/
theorem unbind_eq_ok {r : Unit × Ledger Store} :
    unbind u q env l = .ok r ↔
      u ∈ env.authorizers ∧
        r = if q ∈ (l.store.getRecordInternal u).queues then
          ((), ⟨l.store.setRecord u ((l.store.getRecordInternal u).unbound q),
            l.events ++ [event "Unbound" q u env.timestamp]⟩)
        else ((), l) := by
  by_cases hq : q ∈ (l.store.getRecordInternal u).queues
  · simp [unbind, hq, IdentityRecord.unbound, eq_comm (a := r)]
  · simp [unbind, hq, eq_comm (a := r)]

/-- The administrator revokes whatever the record was. -/
theorem revoke_eq_ok {r : Unit × Ledger Store} :
    revoke admin u env l = .ok r ↔
      AdminCall l.store env admin ∧
        r = ((), ⟨l.store.setRecord u (l.store.getRecordInternal u).revoked,
          l.events ++ [event "Revoked" ⟨""⟩ u env.timestamp]⟩) := by
  simp [revoke, IdentityRecord.revoked, eq_comm (a := r)]

/-- The administrator sets the flag, and there is no event. -/
theorem setTransferAllowed_eq_ok {allowed : Bool} {r : Unit × Ledger Store} :
    setTransferAllowed admin allowed env l = .ok r ↔
      AdminCall l.store env admin ∧
        r = ((), ⟨{ l.store with transferAllow := some allowed }, l.events⟩) := by
  simp [setTransferAllowed, eq_comm (a := r)]

/-- An attempt is recorded without a check. -/
theorem recordTransferAttempt_eq_ok {r : Unit × Ledger Store} :
    recordTransferAttempt u v q env l = .ok r ↔
      r = ((), ⟨l.store.addAttempt u v q env.timestamp,
        l.events ++ [event "TransferReverted" q u env.timestamp]⟩) := by
  simp [recordTransferAttempt, Store.addAttempt, eq_comm (a := r)]

/-- Whoever initializes first becomes the administrator. -/
theorem initializeIdentity_eq_ok {r : Unit × Ledger Store} :
    initializeIdentity admin env l = .ok r ↔
      admin ∈ env.authorizers ∧ l.store.admin = none ∧
        r = ((), ⟨{ l.store with admin := some admin }, l.events⟩) := by
  simp [initializeIdentity, eq_comm (a := r)]

/-! ## The kinds of change -/

/-- The entrypoints that only read. -/
def Entrypoint.IsReader : Entrypoint → Prop
  | .isBound _ _ | .canTransfer _ _ _ | .getRecord _ | .getAdmin => True
  | _ => False

/-- What a successful call of an entrypoint returns, leaves in storage and publishes. -/
inductive Effect (env : Env) (s : Store) : Entrypoint → Output → Store → List Event → Prop
  | read {e : Entrypoint} {o : Output} (reader : e.IsReader) : Effect env s e o s []
  | bind {u : Address} {q : Symbol} (auth : u ∈ env.authorizers)
      (active : (s.getRecordInternal u).status ≠ .revoked)
      (new : q ∉ (s.getRecordInternal u).queues)
      (room : (s.getRecordInternal u).queues.length < maxQueuesPerIdentity) :
    Effect env s (.bind u q) .unit
      (s.setRecord u ((s.getRecordInternal u).bound q env.timestamp))
      [event "Bound" q u env.timestamp]
  | unbind {u : Address} {q : Symbol} (auth : u ∈ env.authorizers)
      (bound : q ∈ (s.getRecordInternal u).queues) :
    Effect env s (.unbind u q) .unit (s.setRecord u ((s.getRecordInternal u).unbound q))
      [event "Unbound" q u env.timestamp]
  | unbindNone {u : Address} {q : Symbol} (auth : u ∈ env.authorizers)
      (notBound : q ∉ (s.getRecordInternal u).queues) : Effect env s (.unbind u q) .unit s []
  | revoke {admin u : Address} (call : AdminCall s env admin) :
    Effect env s (.revoke admin u) .unit (s.setRecord u (s.getRecordInternal u).revoked)
      [event "Revoked" ⟨""⟩ u env.timestamp]
  | allow {admin : Address} {allowed : Bool} (call : AdminCall s env admin) :
    Effect env s (.setTransferAllowed admin allowed) .unit
      { s with transferAllow := some allowed } []
  | attempt {u v : Address} {q : Symbol} :
    Effect env s (.recordTransferAttempt u v q) .unit (s.addAttempt u v q env.timestamp)
      [event "TransferReverted" q u env.timestamp]
  | init {admin : Address} (auth : admin ∈ env.authorizers) (new : s.admin = none) :
    Effect env s (.initializeIdentity admin) .unit { s with admin := some admin } []

/-- Every successful call has one of the effects above. -/
theorem effect_of_exec {e : Entrypoint} {o : Output} {l' : Ledger Store}
    (h : exec e env l = .ok (o, l')) :
    ∃ published, l'.events = l.events ++ published ∧ Effect env l.store e o l'.store published := by
  cases e with
  | bind u q =>
    simp only [exec, bind_eq_ok, bindIdentity_eq_ok, pure_eq_ok] at h
    obtain ⟨_, _, ⟨auth, active, new, room, ⟨⟩⟩, ⟨⟩⟩ := h
    exact ⟨_, rfl, .bind auth active new room⟩
  | unbind u q =>
    simp only [exec, bind_eq_ok, unbind_eq_ok, pure_eq_ok] at h
    obtain ⟨_, _, ⟨auth, hpair⟩, ⟨⟩⟩ := h
    split at hpair
    · case _ bound =>
      obtain ⟨⟩ := hpair
      exact ⟨_, rfl, .unbind auth bound⟩
    · case _ notBound =>
      obtain ⟨⟩ := hpair
      exact ⟨[], (List.append_nil _).symm, .unbindNone auth notBound⟩
  | revoke admin u =>
    simp only [exec, bind_eq_ok, revoke_eq_ok, pure_eq_ok] at h
    obtain ⟨_, _, ⟨call, ⟨⟩⟩, ⟨⟩⟩ := h
    exact ⟨_, rfl, .revoke call⟩
  | setTransferAllowed admin allowed =>
    simp only [exec, bind_eq_ok, setTransferAllowed_eq_ok, pure_eq_ok] at h
    obtain ⟨_, _, ⟨call, ⟨⟩⟩, ⟨⟩⟩ := h
    exact ⟨[], (List.append_nil _).symm, .allow call⟩
  | recordTransferAttempt u v q =>
    simp only [exec, bind_eq_ok, recordTransferAttempt_eq_ok, pure_eq_ok] at h
    obtain ⟨_, _, ⟨⟩, ⟨⟩⟩ := h
    exact ⟨_, rfl, .attempt⟩
  | initializeIdentity admin =>
    simp only [exec, bind_eq_ok, initializeIdentity_eq_ok, pure_eq_ok] at h
    obtain ⟨_, _, ⟨auth, new, ⟨⟩⟩, ⟨⟩⟩ := h
    exact ⟨[], (List.append_nil _).symm, .init auth new⟩
  | isBound | canTransfer | getRecord | getAdmin =>
    simp only [exec, bind_eq_ok, load_eq_ok, pure_eq_ok] at h
    obtain ⟨_, _, ⟨⟩, ⟨⟩⟩ := h
    exact ⟨[], (List.append_nil _).symm, .read trivial⟩

end LineProof.Identity
