import LineProof.Identity.Bindings

/-!
# The status of a binding

A record keeps its status beside its queues. `bind` sets it with every queue it adds, but `unbind` never
sets it back: whoever gives up the last queue stays `Bound` to none. The status agrees with the queues
exactly through the runs in which nobody does (`status_iff`).
-/

namespace LineProof.Identity

open Soroban

/-- The status says whether there are queues. -/
structure IdentityRecord.StatusAgrees (record : IdentityRecord) : Prop where
  bound : record.status = .bound ↔ record.queues ≠ []
  unbound : record.queues = [] → record.status = .unbound

/-- The status of every stored record agrees with its queues, unless the record is revoked. -/
def StatusesAgree (s : Store) : Prop :=
  ∀ u record, s.getRecord u = some record → record.status ≠ .revoked → record.StatusAgrees

/-- The call is an accepted `unbind` of the only queue of an identity that is not revoked. -/
def UnbindsLast (l : Ledger Store) (i : Invocation Entrypoint) : Prop :=
  ∃ u q, i.entry = .unbind u q ∧ u ∈ i.env.authorizers ∧ l.store.queuesOf u = [q] ∧
    (l.store.getRecordInternal u).status ≠ .revoked

variable {s : Store} {e : Entrypoint} {u : Address} {q : Symbol} {old new record : IdentityRecord}

/-! ## One record -/

/-- The record of an identity without one agrees, so the stored records can be read with it. -/
theorem statusesAgree_iff : StatusesAgree s ↔
    ∀ u, (s.getRecordInternal u).status ≠ .revoked → (s.getRecordInternal u).StatusAgrees := by
  constructor
  · intro h u hactive
    cases hrecord : s.records.lookup u with
    | none =>
      rw [Store.getRecordInternal, hrecord, Option.getD_none]
      exact ⟨by simp, fun _ => rfl⟩
    | some record =>
      rw [Store.getRecordInternal, hrecord, Option.getD_some] at hactive ⊢
      exact h u record hrecord hactive
  · intro h u record hrecord
    have hinternal : s.getRecordInternal u = record := by
      rw [Store.getRecordInternal, show s.records.lookup u = some record from hrecord, Option.getD_some]
    rw [← hinternal]
    exact h u

/-- A binding sets both the list and the status. -/
theorem statusAgrees_bound (q : Symbol) (now : ℕ) : (record.bound q now).StatusAgrees :=
  ⟨iff_of_true rfl (by simp [IdentityRecord.bound]), by simp [IdentityRecord.bound]⟩

/-- Taking the only queue away leaves none. -/
theorem unbound_queues_eq_nil (hnodup : record.queues.Nodup) (hq : q ∈ record.queues) :
    (record.unbound q).queues = [] ↔ record.queues = [q] := by
  rw [IdentityRecord.unbound, List.filter_eq_nil_iff]
  constructor
  · intro h
    have hall : ∀ q' ∈ record.queues, q' = q := fun q' hq' => by simpa using h q' hq'
    -- a list without repetition whose elements are all equal has one
    have hreplicate := List.eq_replicate_of_mem hall
    have hlength : record.queues.length ≤ 1 := by
      rw [hreplicate, List.nodup_replicate] at hnodup
      exact hnodup
    have hpos := List.length_pos_of_mem hq
    rw [hreplicate, show record.queues.length = 1 by omega, List.replicate_one]
  · intro h q' hq'
    rw [h] at hq'
    simpa using hq'

/-- An `unbind` keeps the status in agreement unless it takes the only queue. -/
theorem statusAgrees_unbound (h : record.StatusAgrees) (hnodup : record.queues.Nodup) (q : Symbol) :
    (record.unbound q).StatusAgrees ↔ record.queues ≠ [q] := by
  by_cases hq : q ∈ record.queues
  · have hbound : record.status = .bound := h.bound.mpr (List.ne_nil_of_mem hq)
    refine Iff.trans ?_ (not_congr (unbound_queues_eq_nil hnodup hq))
    constructor
    · exact fun hagrees => hagrees.bound.mp hbound
    · exact fun hsome => ⟨iff_of_true hbound hsome, fun hnil => absurd hnil hsome⟩
  · rw [unbound_of_notMem hq]
    refine iff_of_true h ?_
    intro heq
    rw [heq] at hq
    exact hq List.mem_cons_self

/-- A call keeps the status of one identity in agreement unless it unbinds its only queue. -/
theorem RecordChange.agrees_iff (change : RecordChange u e old new) (hnodup : old.queues.Nodup)
    (h : old.status ≠ .revoked → old.StatusAgrees) :
    (new.status ≠ .revoked → new.StatusAgrees) ↔
      ¬ ∃ q, e = .unbind u q ∧ old.queues = [q] ∧ old.status ≠ .revoked := by
  cases change with
  | same binding =>
    refine iff_of_true h ?_
    intro hunbinds
    rcases hunbinds with ⟨q, rfl, -⟩
    exact absurd (binding q) (by simp [Entrypoint.binding])
  | bind q now entry =>
    refine iff_of_true (fun _ => statusAgrees_bound q now) ?_
    intro hunbinds
    rcases hunbinds with ⟨q', hentry, -⟩
    rw [entry] at hentry
    contradiction
  | revoke admin entry =>
    refine iff_of_true (fun hactive => absurd rfl hactive) ?_
    intro hunbinds
    rcases hunbinds with ⟨q', hentry, -⟩
    rw [entry] at hentry
    contradiction
  | unbind q entry =>
    have hentry (q' : Symbol) : e = .unbind u q' ↔ q = q' := by
      rw [entry, Entrypoint.unbind.injEq, and_iff_right rfl]
    simp only [hentry, exists_eq_left']
    show (old.status ≠ .revoked → _) ↔ _
    by_cases hactive : old.status = .revoked
    · exact iff_of_true (fun hnot => absurd hactive hnot) (fun hlast => hlast.2 hactive)
    · have hagrees := statusAgrees_unbound (h hactive) hnodup q
      simp only [hactive, not_false_eq_true, forall_true_left, and_true, ne_eq] at hagrees ⊢
      exact hagrees

/-! ## Every run -/

/-- Nobody is bound to a queue twice. -/
def QueuesNodup (l : Ledger Store) : Prop := ∀ u, (l.store.queuesOf u).Nodup

/-- A committed call binds no queue twice. -/
theorem queuesNodup_commit (c : identity.Commit) (h : QueuesNodup c.pre) : QueuesNodup c.post :=
  fun u => (recordChange_commit c u).nodup (h u)

/-- `unbind` succeeds for every identity that signs. -/
theorem succeeds_unbind {env : Env} {l : Ledger Store} (auth : u ∈ env.authorizers) :
    Succeeds (exec (.unbind u q)) env l :=
  (succeeds_bind_pure _).mpr ⟨_, unbind_eq_ok.mpr ⟨auth, rfl⟩⟩

/-- Who unbinds has signed. -/
theorem Effect.unbind_auth {env : Env} {s' : Store} {o : Output} {published : List Event}
    (eff : Effect env s (.unbind u q) o s' published) : u ∈ env.authorizers := by
  cases eff with
  | read reader => exact reader.elim
  | unbind auth => exact auth
  | unbindNone auth => exact auth

/-- One call keeps the statuses in agreement exactly when it unbinds nobody's only queue. -/
theorem statusesAgree_next (l : Ledger Store) (i : Invocation Entrypoint) (hnodup : QueuesNodup l)
    (h : StatusesAgree l.store) :
    StatusesAgree (identity.next l i).store ↔ ¬ UnbindsLast l i := by
  rcases identity.commit?_cases l i with ⟨c, rfl, rfl, hpost, -⟩ | ⟨⟨_, hfail⟩, hpost, -⟩
  · rw [hpost, statusesAgree_iff]
    have hstep (u : Address) := (recordChange_commit c u).agrees_iff (hnodup u) (statusesAgree_iff.mp h u)
    simp only [hstep]
    constructor
    · intro hnot hunbinds
      rcases hunbinds with ⟨u, q, hentry, -, hlast, hactive⟩
      exact hnot u ⟨q, hentry, hlast, hactive⟩
    · intro hnot u hunbinds
      rcases hunbinds with ⟨q, hentry, hlast, hactive⟩
      obtain ⟨_, -, eff⟩ := effect_of_exec c.ok
      rw [hentry] at eff
      exact hnot ⟨u, q, hentry, eff.unbind_auth, hlast, hactive⟩
  · rw [hpost]
    refine iff_of_true h ?_
    intro hunbinds
    rcases hunbinds with ⟨u, q, hentry, auth, -⟩
    have hexec : Succeeds (exec i.entry) i.env l := by
      rw [hentry]
      exact succeeds_unbind auth
    exact absurd hfail (hexec.ne_error _)

/-- The statuses agree with the queues all along a run exactly when no call of the run unbinds the only
queue of an identity that is not revoked. -/
theorem status_iff (calls : List (Invocation Entrypoint)) :
    identity.Always (fun l => StatusesAgree l.store) fresh calls ↔
      identity.Along (fun l i => ¬ UnbindsLast l i) fresh calls := by
  refine Transactional.always_iff_along queuesNodup_commit statusesAgree_next ?_ ?_ calls
  · intro u
    exact List.nodup_nil
  · intro u record hrecord
    rw [show fresh.store.getRecord u = none from rfl] at hrecord
    contradiction

/-- Whoever binds and unbinds one queue stays `Bound`. -/
theorem unbind_stays_bound :
    ¬ ∀ calls : List (Invocation Entrypoint), StatusesAgree (identity.run fresh calls).store := by
  intro h
  let alice : Address := ⟨"GALICE"⟩
  let clinic : Symbol := ⟨"clinic"⟩
  have hagrees := h [⟨⟨1, [alice], ⟨"CIDENTITY"⟩⟩, .bind alice clinic⟩,
    ⟨⟨2, [alice], ⟨"CIDENTITY"⟩⟩, .unbind alice clinic⟩] alice _ rfl (by decide)
  have hsome := hagrees.bound.mp (by decide)
  exact absurd (show ([] : List Symbol) = [] from rfl) hsome

end LineProof.Identity
