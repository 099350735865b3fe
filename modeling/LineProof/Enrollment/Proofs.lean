import LineProof.Enrollment.Reenrollment

/-!
# Enrollment proofs

Whoever writes a record computes the proof hash anew, and a cancellation or a finalization copies it from
the record. So a stored hash is always the hash of the record's own identity, queue and date, and it is the
one announced last: by the latest `Enrolled` event of its identity and queue (`RecordVerifies`).
-/

namespace LineProof.Enrollment

open Soroban

/-- The record of `u` in `q` can be verified, and was the last to be announced. -/
structure RecordVerifies (computeProofHash : Address → Symbol → ℕ → Bytes32) (q : Symbol) (u : Address)
    (events : List Event) (record : EnrollmentRecord) : Prop where
  identity : record.identity = u
  queueId : record.queueId = q
  hash : record.proofHash = computeProofHash u q record.enrolledAt
  latest : (enrollments q u events).getLast? = some (record.enrolledAt, record.proofHash)

/-- An `Enrolled` event is among the events. -/
def AnnouncesEnrollment (events : List Event) : Prop :=
  ∃ q u now hash, event "Enrolled" q u now hash ∈ events

/-- Every `Cancelled` and every `Finalized` event repeats the hash of the latest `Enrolled` event before it
of the same identity and queue. -/
def RepeatsHashes (events : List Event) : Prop :=
  ∀ before after kind q u now hash, kind = "Cancelled" ∨ kind = "Finalized" →
    events = before ++ event kind q u now hash :: after →
    ∃ enrolledAt, (enrollments q u before).getLast? = some (enrolledAt, hash)

/-- The proofs of a run: in storage, as returned by `enroll`, and in the events. -/
structure ProofsVerify (computeProofHash : Address → Symbol → ℕ → Bytes32)
    (calls : List (Invocation Entrypoint)) : Prop where
  stored : ∀ q u record,
    ((enrollment computeProofHash).run fresh calls).store.records.lookup (q, u) = some record →
    record.identity = u ∧ record.queueId = q ∧
      record.proofHash = computeProofHash u q record.enrolledAt
  returned : ∀ c ∈ (enrollment computeProofHash).history fresh calls, ∀ u q exp proof,
    c.call.entry = .enroll u q exp → c.out = .proof proof → AnnouncesEnrollment (published c) →
    ∃ record, c.post.store.records.lookup (q, u) = some record ∧ proof.identity = record.identity ∧
      proof.queueId = record.queueId ∧ proof.enrolledAt = record.enrolledAt ∧
      proof.proofHash = record.proofHash ∧ proof.expiresAt = record.expiresAt
  repeated : RepeatsHashes ((enrollment computeProofHash).run fresh calls).events

variable {s s' : Store} {env : Env} {e : Entrypoint} {o : Output} {events : List Event}
  {l : Ledger Store} {q q' : Symbol} {u u' : Address} {kind kind' : String} {now now' : ℕ}
  {hash hash' : Bytes32} {computeProofHash : Address → Symbol → ℕ → Bytes32}

/-! ## Storage -/

/-- All stored records can be verified. -/
def StoredVerify (computeProofHash : Address → Symbol → ℕ → Bytes32) (l : Ledger Store) : Prop :=
  ∀ q u record, l.store.records.lookup (q, u) = some record →
    RecordVerifies computeProofHash q u l.events record

/-- A committed call stores only hashes that verify. -/
theorem StoredVerify.commit (c : (enrollment computeProofHash).Commit)
    (hnodup : WaitlistsNodup c.pre.store) (h : StoredVerify computeProofHash c.pre) :
    StoredVerify computeProofHash c.post := by
  obtain ⟨events, hevents, eff⟩ := effect_of_exec c.ok
  intro q u record stored
  rw [hevents]
  have change := eff.recordChange hnodup q u
  have happend := enrollments_append q u c.pre.events events
  generalize enrollments q u events = announced at change happend
  cases change with
  | kept same =>
    obtain ⟨identity, queueId, hash, latest⟩ := h q u record (same.symm.trans stored)
    exact ⟨identity, queueId, hash, by rw [happend, List.append_nil, latest]⟩
  | marked _ _ old stored' =>
    obtain rfl := Option.some.inj (stored'.symm.trans stored)
    obtain ⟨identity, queueId, hash, latest⟩ := h q u _ old
    exact ⟨identity, queueId, hash, by rw [happend, List.append_nil, latest]⟩
  | enrolled _ stored' | promoted _ _ stored' =>
    obtain rfl := Option.some.inj (stored'.symm.trans stored)
    exact ⟨rfl, rfl, rfl, by rw [happend, List.getLast?_concat]; rfl⟩

/-! ## Events -/

/-- An event determines all it was made from but the time. -/
theorem event_inj (h : event kind q u now hash = event kind' q' u' now' hash') :
    kind = kind' ∧ q = q' ∧ u = u' ∧ hash = hash' := by
  simp only [event, Event.mk.injEq, List.cons.injEq, ScVal.symbol.injEq, Symbol.mk.injEq,
    EventData.tuple.injEq, ScVal.address.injEq, ScVal.bytes.injEq, and_true, true_and] at h
  exact ⟨h.1.1, h.1.2, h.2.1, h.2.2.2⟩

/-- A `Cancelled` or `Finalized` event is the only one of its call, and has the hash of the record. -/
theorem Effect.marked_event (eff : Effect computeProofHash env s e o s' events)
    (hkind : kind = "Cancelled" ∨ kind = "Finalized") (hev : event kind q u now hash ∈ events) :
    events = [event kind q u now hash] ∧
      ∃ record, s.records.lookup (q, u) = some record ∧ hash = record.proofHash := by
  have hother (kind' : String) (hkind' : kind' ≠ "Cancelled" ∧ kind' ≠ "Finalized") :
      kind ≠ kind' := by
    rintro rfl
    exact hkind.elim hkind'.1 hkind'.2
  cases eff with
  | read => exact absurd hev List.not_mem_nil
  | behavior => exact absurd (congrArg Event.topics (List.mem_singleton.mp hev)) (by simp [event])
  | waitlist => exact absurd (event_inj (List.mem_singleton.mp hev)).1 (hother _ (by decide))
  | override => exact absurd (event_inj (List.mem_singleton.mp hev)).1 (hother _ (by decide))
  | enroll => exact absurd (event_inj (List.mem_singleton.mp hev)).1 (hother _ (by decide))
  | cancel _ stored | finalize _ stored =>
    have heq := List.mem_singleton.mp hev
    obtain ⟨-, rfl, rfl, rfl⟩ := event_inj heq
    exact ⟨by rw [heq], _, stored, rfl⟩
  | promote =>
    obtain ⟨v, -, heq⟩ := List.mem_map.mp hev
    exact absurd (event_inj heq.symm).1 (hother _ (by decide))

/-- A committed call keeps the account of repeated hashes. -/
theorem RepeatsHashes.commit (c : (enrollment computeProofHash).Commit)
    (hstored : StoredVerify computeProofHash c.pre) (h : RepeatsHashes c.pre.events) :
    RepeatsHashes c.post.events := by
  obtain ⟨events, hevents, eff⟩ := effect_of_exec c.ok
  rw [hevents]
  intro before after kind q u now hash hkind hsplit
  rcases List.append_eq_append_iff.mp hsplit with ⟨new, hbefore, hnew⟩ | ⟨old, hold, hafter⟩
  · -- an event of this call: it is the only one, and `before` is what was there
    obtain ⟨hone, record, stored, rfl⟩ := eff.marked_event hkind (hnew ▸ List.mem_append_right new
      List.mem_cons_self)
    have hnil : new = [] := by
      have hlength := congrArg List.length (hnew.symm.trans hone)
      rw [List.length_append, List.length_cons, List.length_singleton] at hlength
      exact List.eq_nil_of_length_eq_zero (by omega)
    rw [hbefore, hnil, List.append_nil]
    exact ⟨_, (hstored q u record stored).latest⟩
  · cases old with
    | nil =>
      obtain ⟨hone, record, stored, rfl⟩ := eff.marked_event hkind (hafter ▸ List.mem_cons_self)
      rw [← List.append_nil before, ← hold]
      exact ⟨_, (hstored q u record stored).latest⟩
    | cons ev old =>
      obtain ⟨rfl, -⟩ := List.cons_eq_cons.mp hafter
      exact h before old kind q u now hash hkind hold

/-! ## Every run -/

/-- A call of `enroll` that announces an enrollment returns the proof of the record it stores. -/
theorem Effect.returned {exp : Option ℕ} {proof : EnrollmentProof}
    (eff : Effect computeProofHash env s (.enroll u q exp) (.proof proof) s' events)
    (h : AnnouncesEnrollment events) :
    ∃ record, s'.records.lookup (q, u) = some record ∧ proof = record.proof := by
  cases eff with
  | read reader => exact reader.elim
  | waitlist =>
    obtain ⟨_, _, _, _, hev⟩ := h
    exact absurd (event_inj (List.mem_singleton.mp hev)).1 (by decide)
  | @override _ _ _ _ new => exact ⟨new, by rw [setRecord_lookup, if_pos rfl], rfl⟩
  | @enroll _ _ _ new =>
    exact ⟨new, by rw [setCount_records, setRecord_lookup, if_pos rfl], rfl⟩

/-- Stored proofs verify, `enroll` returns what it stores, and the events repeat the announced hash. -/
theorem proofs_verify (computeProofHash : Address → Symbol → ℕ → Bytes32)
    (calls : List (Invocation Entrypoint)) : ProofsVerify computeProofHash calls := by
  have hrun := Transactional.run_invariant (M := enrollment computeProofHash)
    (I := fun l => WaitlistsNodup l.store ∧ StoredVerify computeProofHash l ∧ RepeatsHashes l.events)
    ?_ (s := fresh) ?_ calls
  · obtain ⟨-, hstored, hrepeats⟩ := hrun
    refine ⟨?_, ?_, hrepeats⟩
    · intro q u record stored
      obtain ⟨identity, queueId, hash, -⟩ := hstored q u record stored
      exact ⟨identity, queueId, hash⟩
    · intro c _ u q exp proof hentry hout hannounces
      obtain ⟨events, hevents, eff⟩ := effect_of_exec c.ok
      rw [published_of_append hevents] at hannounces
      rw [hentry, hout] at eff
      obtain ⟨record, stored, rfl⟩ := eff.returned hannounces
      exact ⟨record, stored, rfl, rfl, rfl, rfl, rfl⟩
  · intro c hc
    obtain ⟨hnodup, hstored, hrepeats⟩ := hc
    exact ⟨waitlistsNodup_commit c hnodup, hstored.commit c hnodup, hrepeats.commit c hstored⟩
  · refine ⟨fun _ => List.nodup_nil, ?_, ?_⟩
    · intro q u record stored
      rw [show fresh.store.records.lookup (q, u) = none from rfl] at stored
      contradiction
    · intro before after _ _ _ _ _ _ hsplit
      exact absurd (congrArg List.length hsplit) (by simp [fresh])

end LineProof.Enrollment
