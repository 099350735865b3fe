import LineProof.Identity.Steps

/-!
# Bindings, revocation and transfers

The record of an identity follows the calls about that identity: its queues are those of the last binding,
its status is that of the last revocation, and a revoked identity is not bound again. A transfer is allowed
from exactly the identities that are bound and not revoked, while the administrator's switch is on
(`bindings_follow_calls`).
-/

namespace LineProof.Identity

open Soroban

/-- Whether the call binds `u` to `q`, or unbinds them. -/
def Entrypoint.binding (u : Address) (q : Symbol) : Entrypoint → Option Bool
  | .bind u' q' => if u' = u ∧ q' = q then some true else none
  | .unbind u' q' => if u' = u ∧ q' = q then some false else none
  | _ => none

/-- What the call sets the switch for transfers to. -/
def Entrypoint.switch : Entrypoint → Option Bool
  | .setTransferAllowed _ allowed => some allowed
  | _ => none

/-- What the last call on `u` and `q` was: binding or unbinding. -/
def lastBinding (u : Address) (q : Symbol) (past : List identity.Commit) : Option Bool :=
  Transactional.latest (fun c => c.call.entry.binding u q) past

/-- What the switch for transfers was last set to. -/
def lastSwitch (past : List identity.Commit) : Option Bool :=
  Transactional.latest (fun c => c.call.entry.switch) past

/-- `u` has been revoked. -/
def Revoked (u : Address) (past : List identity.Commit) : Prop :=
  ∃ c ∈ past, ∃ admin, c.call.entry = .revoke admin u

/-- The queues `u` is bound to. -/
def Store.queuesOf (s : Store) (u : Address) : List Symbol := (s.getRecordInternal u).queues

/-- The rules of the contract, over the run of `calls`. -/
structure FollowsCalls (calls : List (Invocation Entrypoint)) : Prop where
  /-- No list of queues repeats a queue or is too long. -/
  queues : ∀ u record, (identity.run fresh calls).store.getRecord u = some record →
    record.queues.Nodup ∧ record.queues.length ≤ maxQueuesPerIdentity
  /-- An identity is bound to a queue when the last call about the two was a binding. -/
  isBound : ∀ u q, (identity.run fresh calls).store.isBound u q = true ↔
    lastBinding u q (identity.history fresh calls) = some true
  /-- Only the administrator revokes. After that no binding succeeds, and queues are only taken away. -/
  revocation : ∀ past c future, identity.history fresh calls = past ++ c :: future →
    ∀ admin u, c.call.entry = .revoke admin u →
      AdminCall c.pre.store c.call.env admin ∧
        ∀ d ∈ future, (∀ q, d.call.entry ≠ .bind u q) ∧
          (d.post.store.queuesOf u).Sublist (d.pre.store.queuesOf u)
  /-- Only the administrator sets the switch. -/
  switch : ∀ c ∈ identity.history fresh calls, ∀ admin allowed,
    c.call.entry = .setTransferAllowed admin allowed → AdminCall c.pre.store c.call.env admin
  /-- The queue of a bound identity passes to another one while it is not revoked and the switch is on. -/
  canTransfer : ∀ u v q, u ≠ v → ((identity.run fresh calls).store.canTransfer u v q = true ↔
    (identity.run fresh calls).store.isBound u q = true ∧
      ¬ Revoked u (identity.history fresh calls) ∧
      lastSwitch (identity.history fresh calls) = some true)

variable {env : Env} {s s' : Store} {e : Entrypoint} {o : Output} {published : List Event}
  {u v : Address} {q : Symbol} {past : List identity.Commit}

/-! ## The record of one identity -/

/-- A write changes one record. -/
theorem getRecordInternal_setRecord (s : Store) (u v : Address) (record : IdentityRecord) :
    (s.setRecord u record).getRecordInternal v =
      if v = u then record else s.getRecordInternal v := by
  by_cases h : v = u
  · subst h
    simp [Store.getRecordInternal, Store.setRecord]
  · simp [Store.getRecordInternal, Store.setRecord, h]

/-- The call `e` turns the record of `u` into another one. -/
inductive RecordChange (u : Address) (e : Entrypoint) (old : IdentityRecord) : IdentityRecord → Prop
  | same (binding : ∀ q, e.binding u q = none) (revoke : ∀ admin, e ≠ .revoke admin u) :
    RecordChange u e old old
  | bind (q : Symbol) (now : ℕ) (entry : e = .bind u q) (active : old.status ≠ .revoked)
      (new : q ∉ old.queues) (room : old.queues.length < maxQueuesPerIdentity) :
    RecordChange u e old (old.bound q now)
  | unbind (q : Symbol) (entry : e = .unbind u q) : RecordChange u e old (old.unbound q)
  | revoke (admin : Address) (entry : e = .revoke admin u) : RecordChange u e old old.revoked

/-- To unbind a queue that is not bound changes nothing. -/
theorem unbound_of_notMem {record : IdentityRecord} (h : q ∉ record.queues) :
    record.unbound q = record := by
  have hfilter : record.queues.filter (· ≠ q) = record.queues := by
    rw [List.filter_eq_self]
    intro q' hq'
    exact decide_eq_true fun heq => h (heq ▸ hq')
  rw [IdentityRecord.unbound, hfilter]

/-- What a call does to one record: nothing, or its binding, unbinding or revocation. -/
theorem Effect.recordChange (eff : Effect env s e o s' published) (u : Address) :
    RecordChange u e (s.getRecordInternal u) (s'.getRecordInternal u) := by
  cases eff with
  | read reader => cases e <;> first | exact reader.elim | exact .same (fun _ => rfl) nofun
  | @bind u' q auth active new room =>
    rw [getRecordInternal_setRecord]
    split
    · case _ heq =>
      subst heq
      exact .bind q _ rfl active new room
    · case _ hne => exact .same (fun _ => if_neg fun h => hne h.1.symm) nofun
  | @unbind u' q auth bound =>
    rw [getRecordInternal_setRecord]
    split
    · case _ heq =>
      subst heq
      exact .unbind q rfl
    · case _ hne => exact .same (fun _ => if_neg fun h => hne h.1.symm) nofun
  | @unbindNone u' q auth notBound =>
    by_cases heq : u = u'
    · subst heq
      have hchange : RecordChange u (.unbind u q) (s.getRecordInternal u) _ := .unbind q rfl
      rwa [unbound_of_notMem notBound] at hchange
    · exact .same (fun _ => if_neg fun h => heq h.1.symm) nofun
  | @revoke admin u' call =>
    rw [getRecordInternal_setRecord]
    split
    · case _ heq =>
      subst heq
      exact .revoke admin rfl
    · case _ hne =>
      refine .same (fun _ => rfl) fun admin' h => hne ?_
      injection h with _ hu
      exact hu.symm
  | allow | attempt | init => exact .same (fun _ => rfl) nofun

/-- A committed call changes each record as its entrypoint says. -/
theorem recordChange_commit (c : identity.Commit) (u : Address) :
    RecordChange u c.call.entry (c.pre.store.getRecordInternal u)
      (c.post.store.getRecordInternal u) := by
  obtain ⟨_, -, eff⟩ := effect_of_exec c.ok
  exact eff.recordChange u

/-- Only the administrator revokes. -/
theorem Effect.revoke_adminCall {admin : Address}
    (eff : Effect env s (.revoke admin u) o s' published) : AdminCall s env admin := by
  cases eff with
  | read reader => exact reader.elim
  | revoke call => exact call

/-- Only the administrator sets the transfer flag. -/
theorem Effect.switch_adminCall {admin : Address} {allowed : Bool}
    (eff : Effect env s (.setTransferAllowed admin allowed) o s' published) :
    AdminCall s env admin := by
  cases eff with
  | read reader => exact reader.elim
  | allow call => exact call

namespace RecordChange

variable {old new : IdentityRecord}

/-- No call binds a queue twice. -/
theorem nodup (h : RecordChange u e old new) (hnodup : old.queues.Nodup) : new.queues.Nodup := by
  cases h with
  | same | revoke => exact hnodup
  | bind q _ _ _ hnew =>
    rw [IdentityRecord.bound, ← List.concat_eq_append]
    exact hnodup.concat hnew
  | unbind => exact hnodup.filter _

/-- No call binds more queues than the limit. -/
theorem length_le (h : RecordChange u e old new)
    (hlength : old.queues.length ≤ maxQueuesPerIdentity) :
    new.queues.length ≤ maxQueuesPerIdentity := by
  cases h with
  | same | revoke => exact hlength
  | bind q _ _ _ _ room =>
    rw [IdentityRecord.bound, List.length_append]
    exact room
  | unbind => exact (List.length_filter_le _ _).trans hlength

/-- The call's own word on a queue decides, and otherwise the queue stays as it was. -/
theorem mem_queues (h : RecordChange u e old new) (q : Symbol) :
    q ∈ new.queues ↔ (e.binding u q).getD (decide (q ∈ old.queues)) = true := by
  cases h with
  | same binding => simp [binding q]
  | bind q' _ entry =>
    subst entry
    by_cases hq : q' = q
    · simp [Entrypoint.binding, IdentityRecord.bound, hq]
    · simp [Entrypoint.binding, IdentityRecord.bound, hq, Ne.symm hq]
  | unbind q' entry =>
    subst entry
    by_cases hq : q' = q
    · simp [Entrypoint.binding, IdentityRecord.unbound, hq]
    · simp [Entrypoint.binding, IdentityRecord.unbound, hq, Ne.symm hq]
  | revoke admin entry =>
    subst entry
    simp [Entrypoint.binding, IdentityRecord.revoked]

/-- Revocation is by its own call only, and for good. -/
theorem revoked_iff (h : RecordChange u e old new) :
    new.status = .revoked ↔ old.status = .revoked ∨ ∃ admin, e = .revoke admin u := by
  cases h with
  | same _ hrevoke => exact ⟨.inl, fun h => h.resolve_right fun ⟨admin, he⟩ => hrevoke admin he⟩
  | bind _ _ entry active =>
    subst entry
    simpa [IdentityRecord.bound] using active
  | unbind _ entry =>
    subst entry
    simp [IdentityRecord.unbound]
  | revoke admin entry => exact iff_of_true rfl (.inr ⟨admin, entry⟩)

/-- A revoked identity is not bound again. -/
theorem after_revoked (h : RecordChange u e old new) (hrevoked : old.status = .revoked) :
    (∀ q, e ≠ .bind u q) ∧ new.queues.Sublist old.queues := by
  cases h with
  | same binding =>
    refine ⟨fun q he => ?_, .refl _⟩
    have hnone := binding q
    simp [he, Entrypoint.binding] at hnone
  | bind _ _ _ active => exact absurd hrevoked active
  | unbind _ entry => exact ⟨fun q => by simp [entry], List.filter_sublist⟩
  | revoke _ entry => exact ⟨fun q => by simp [entry], .refl _⟩

end RecordChange

/-! ## The records and the calls so far -/

/-- The storage is what the calls so far say. -/
structure Recorded (past : List identity.Commit) (s : Store) : Prop where
  nodup : ∀ u, (s.queuesOf u).Nodup
  length_le : ∀ u, (s.queuesOf u).length ≤ maxQueuesPerIdentity
  mem_iff : ∀ u q, q ∈ s.queuesOf u ↔ lastBinding u q past = some true
  revoked_iff : ∀ u, (s.getRecordInternal u).status = .revoked ↔ Revoked u past
  allowed : s.transferAllow = lastSwitch past

/-- A commit revokes an identity if it is the call that does. -/
theorem revoked_concat (u : Address) (past : List identity.Commit) (c : identity.Commit) :
    Revoked u (past ++ [c]) ↔ Revoked u past ∨ ∃ admin, c.call.entry = .revoke admin u := by
  simp [Revoked, or_and_right, exists_or]

/-- The transfer flag is what the last call that sets it has set. -/
theorem Effect.transferAllow (eff : Effect env s e o s' published) :
    s'.transferAllow = e.switch.or s.transferAllow := by
  cases eff with
  | read reader => cases e <;> first | exact reader.elim | rfl
  | _ => rfl

/-- A committed call keeps the records in step with the calls. -/
theorem Recorded.commit (past : List identity.Commit) (c : identity.Commit)
    (h : Recorded past c.pre.store) : Recorded (past ++ [c]) c.post.store where
  nodup u := (recordChange_commit c u).nodup (h.nodup u)
  length_le u := (recordChange_commit c u).length_le (h.length_le u)
  mem_iff u q := by
    rw [Store.queuesOf, (recordChange_commit c u).mem_queues q, lastBinding,
      Transactional.latest_concat, ← lastBinding]
    cases c.call.entry.binding u q with
    | none =>
      rw [Option.getD_none, Option.none_or, decide_eq_true_iff]
      exact h.mem_iff u q
    | some b => simp
  revoked_iff u := by
    rw [(recordChange_commit c u).revoked_iff, h.revoked_iff u, revoked_concat]
  allowed := by
    obtain ⟨_, -, eff⟩ := effect_of_exec c.ok
    rw [eff.transferAllow, h.allowed, lastSwitch, lastSwitch, Transactional.latest_concat]

/-- The records are in step with the calls in every reachable state. -/
theorem recorded_run (calls : List (Invocation Entrypoint)) :
    Recorded (identity.history fresh calls) (identity.run fresh calls).store := by
  refine Transactional.history_invariant (P := fun past (l : Ledger Store) => Recorded past l.store)
    Recorded.commit ?_ calls
  have hrecord : ∀ u, Store.getRecordInternal fresh.store u = ⟨u, 0, [], .unbound⟩ := fun u => rfl
  constructor
  · intro u
    exact List.nodup_nil
  · intro u
    exact Nat.zero_le _
  · intro u q
    simp [Store.queuesOf, hrecord, lastBinding]
  · intro u
    simp [hrecord, Revoked]
  · rfl

/-- `is_bound` looks the queue up in the record's list. -/
theorem isBound_iff (s : Store) (u : Address) (q : Symbol) :
    s.isBound u q = true ↔ q ∈ s.queuesOf u := by
  rw [Store.isBound, List.contains_iff_mem, Store.queuesOf]

/-- Between two identities a transfer needs a bound queue, no revocation and the flag. -/
theorem canTransfer_iff (s : Store) (h : u ≠ v) (q : Symbol) :
    s.canTransfer u v q = true ↔
      s.isBound u q = true ∧ (s.getRecordInternal u).status ≠ .revoked ∧
        s.transferAllow = some true := by
  rw [Store.canTransfer, if_neg h]
  by_cases hrevoked : (s.getRecordInternal u).status = .revoked
  · simp [hrevoked]
  · cases s.isBound u q <;> cases s.transferAllow <;> simp [hrevoked]

/-- Once revoked, an identity stays revoked, is not bound again, and only loses queues. -/
theorem after_revoke {past : List identity.Commit} {c : identity.Commit}
    {calls : List (Invocation Entrypoint)} {future : List identity.Commit}
    (hsplit : identity.history fresh calls = past ++ c :: future) {admin : Address}
    (hentry : c.call.entry = .revoke admin u) {d : identity.Commit} (hd : d ∈ future) :
    (∀ q, d.call.entry ≠ .bind u q) ∧
      (d.post.store.queuesOf u).Sublist (d.pre.store.queuesOf u) := by
  obtain ⟨mid, rest, rfl⟩ := List.append_of_mem hd
  have hsplit' : identity.history fresh calls = (past ++ c :: mid) ++ d :: rest := by
    rw [hsplit, List.append_assoc, List.cons_append]
  obtain ⟨before, _, -, hpast, hpre⟩ := Transactional.history_split hsplit'
  have hrecorded := recorded_run before
  rw [hpast, hpre] at hrecorded
  refine (recordChange_commit d u).after_revoked ((hrecorded.revoked_iff u).mpr ?_)
  exact ⟨c, by simp, admin, hentry⟩

/-! ## Every run -/

/-- In every reachable state the bindings are what the calls so far say: a queue is bound while the last
of its calls was `bind`, a revocation is for good, and `can_transfer` follows. -/
theorem bindings_follow_calls (calls : List (Invocation Entrypoint)) : FollowsCalls calls where
  queues u record hrecord := by
    have hqueues : (identity.run fresh calls).store.queuesOf u = record.queues := by
      rw [Store.getRecord] at hrecord
      rw [Store.queuesOf, Store.getRecordInternal, hrecord, Option.getD_some]
    rw [← hqueues]
    exact ⟨(recorded_run calls).nodup u, (recorded_run calls).length_le u⟩
  isBound u q := (isBound_iff _ u q).trans ((recorded_run calls).mem_iff u q)
  revocation past c future hsplit admin u hentry := by
    refine ⟨?_, fun d hd => after_revoke hsplit hentry hd⟩
    obtain ⟨_, -, eff⟩ := effect_of_exec c.ok
    exact (hentry ▸ eff).revoke_adminCall
  switch c _ admin allowed hentry := by
    obtain ⟨_, -, eff⟩ := effect_of_exec c.ok
    exact (hentry ▸ eff).switch_adminCall
  canTransfer u v q hne := by
    have hrecorded := recorded_run calls
    rw [canTransfer_iff _ hne, Ne, hrecorded.revoked_iff u, hrecorded.allowed]

end LineProof.Identity
