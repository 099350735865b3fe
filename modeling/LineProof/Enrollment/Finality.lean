import LineProof.Enrollment.Waitlist

/-!
# Finalization

`finalize_enrollment` locks a record, but no writer of whole records looks at the lock. Enrolling again
after a cancellation, overriding an expired record and promotion each put an open record in the place
of a finalized one. A record stays final exactly through the calls that do none of this
(`finalization_iff`).
-/

namespace LineProof.Enrollment

open Soroban

/-- An accepted `finalize_enrollment`, with the calls before it and the state it leaves. -/
structure Finalization (computeProofHash : Address → Symbol → ℕ → Bytes32) (q : Symbol)
    (u : Address) where
  before : List (Invocation Entrypoint)
  env : Env
  admin : Address
  state : Ledger Store
  ok : exec computeProofHash (.finalizeEnrollment admin u q) env
    ((enrollment computeProofHash).run fresh before) = .ok (.unit, state)

/-- The record of `u` in `q` is finalized, with the date and the proof hash of `record`. -/
def StaysFinal (q : Symbol) (u : Address) (record : EnrollmentRecord) (l : Ledger Store) : Prop :=
  ∃ record', l.store.records.lookup (q, u) = some record' ∧ record'.finalized = true ∧
    record'.enrolledAt = record.enrolledAt ∧ record'.proofHash = record.proofHash

/-- The call is accepted and writes a new record for `u` in `q`. -/
inductive Rewrites (q : Symbol) (u : Address) (l : Ledger Store) (i : Invocation Entrypoint) : Prop
  | enroll (exp : Option ℕ) (entry : i.entry = .enroll u q exp) (auth : u ∈ i.env.authorizers)
    (notEnrolled : l.store.isEnrolledInternal u q = false)
    (room : l.store.nextDuplicateCount q u ≤ u32Max)
    (countRoom : l.store.enrollmentCount q + 1 ≤ u32Max)
  | override (exp : Option ℕ) (old : EnrollmentRecord) (entry : i.entry = .enroll u q exp)
    (auth : u ∈ i.env.authorizers) (behavior : l.store.dupBehavior.getD .reject = .overrideExpired)
    (stored : l.store.records.lookup (q, u) = some old) (live : old.cancelled = false)
    (expired : old.isExpired i.env.timestamp = true) (room : old.duplicateCount + 1 ≤ u32Max)
  | promote (admin : Address) (count : ℕ) (entry : i.entry = .promoteFromWaitlist admin q count)
    (auth : admin ∈ i.env.authorizers)
    (room : l.store.enrollmentCount q + (l.store.promotees q count).length ≤ u32Max)
    (reached : u ∈ l.store.promotees q count)

variable {s s' : Store} {env : Env} {e : Entrypoint} {o : Output} {published : List Event}
  {l : Ledger Store} {q : Symbol} {u : Address} {record : EnrollmentRecord}
  {computeProofHash : Address → Symbol → ℕ → Bytes32}

/-! ## One call -/

/-- A write changes one record. -/
theorem setRecord_lookup (s : Store) (q : Symbol) (u : Address) (record : EnrollmentRecord)
    (k : RecordKey) : (s.setRecord q u record).records.lookup k =
      if k = (q, u) then some record else s.records.lookup k := by
  rw [setRecord_records]
  split
  · case _ h => rw [h, Finmap.lookup_insert]
  · case _ h => rw [Finmap.lookup_insert_of_ne _ h]

/-- A cancellation changes one record. -/
theorem afterCancel_lookup (k : RecordKey) :
    (s.afterCancel q u record).records.lookup k =
      if k = (q, u) then some { record with cancelled := true } else s.records.lookup k := by
  rw [← setRecord_lookup]
  unfold Store.afterCancel
  split <;> rfl

/-- A promotion replaces the records of the promoted, whatever they were. -/
theorem afterPromote_lookup (count now : ℕ) (k : RecordKey) :
    (s.afterPromote computeProofHash q count now).records.lookup k =
      if k.1 = q ∧ k.2 ∈ s.promotees q count then some (promotedRecord computeProofHash q now k.2)
      else s.records.lookup k :=
  promoteAll_lookup s now (s.promotees q count) k

/-- A call writes a new record, or the record keeps its date, its proof hash and its lock. -/
theorem Effect.rewrites_or_kept {i : Invocation Entrypoint}
    (eff : Effect computeProofHash i.env l.store i.entry o s' published)
    (stored : l.store.records.lookup (q, u) = some record) :
    Rewrites q u l i ∨ ∃ record', s'.records.lookup (q, u) = some record' ∧
      (record.finalized = true → record'.finalized = true) ∧
      record'.enrolledAt = record.enrolledAt ∧ record'.proofHash = record.proofHash := by
  obtain ⟨env, e⟩ := i
  cases eff with
  | read | behavior | waitlist => exact .inr ⟨record, stored, id, rfl, rfl⟩
  | @override u' q' exp old new auth behavior stored' live expired room =>
    by_cases hk : (q, u) = (q', u')
    · obtain ⟨rfl, rfl⟩ := Prod.mk.inj hk
      exact .inl (.override exp old rfl auth behavior stored' live expired room)
    · exact .inr ⟨record, by rw [setRecord_lookup, if_neg hk, stored], id, rfl, rfl⟩
  | @enroll u' q' exp new auth notEnrolled room countRoom =>
    by_cases hk : (q, u) = (q', u')
    · obtain ⟨rfl, rfl⟩ := Prod.mk.inj hk
      exact .inl (.enroll exp rfl auth notEnrolled room countRoom)
    · refine .inr ⟨record, ?_, id, rfl, rfl⟩
      rw [setCount_records, setRecord_lookup, if_neg hk, stored]
  | @cancel u' q' old auth stored' live =>
    refine .inr ?_
    rw [afterCancel_lookup]
    by_cases hk : (q, u) = (q', u')
    · obtain ⟨rfl, rfl⟩ := Prod.mk.inj hk
      obtain rfl := Option.some.inj (stored.symm.trans stored')
      exact ⟨_, if_pos rfl, id, rfl, rfl⟩
    · exact ⟨record, by rw [if_neg hk, stored], id, rfl, rfl⟩
  | @finalize admin u' q' old auth stored' live hopen =>
    refine .inr ?_
    rw [setRecord_lookup]
    by_cases hk : (q, u) = (q', u')
    · obtain ⟨rfl, rfl⟩ := Prod.mk.inj hk
      obtain rfl := Option.some.inj (stored.symm.trans stored')
      exact ⟨_, if_pos rfl, fun _ => rfl, rfl, rfl⟩
    · exact ⟨record, by rw [if_neg hk, stored], id, rfl, rfl⟩
  | @promote admin q' count auth room =>
    by_cases hk : q = q' ∧ u ∈ l.store.promotees q' count
    · obtain ⟨rfl, reached⟩ := hk
      exact .inl (.promote admin count rfl auth (room (List.ne_nil_of_mem reached)) reached)
    · exact .inr ⟨record, by rw [afterPromote_lookup, if_neg hk, stored], id, rfl, rfl⟩

/-- `enroll` for a caller without a live record. -/
theorem enroll_new {exp : Option ℕ} {r : EnrollmentProof × Ledger Store}
    (auth : u ∈ env.authorizers) (notEnrolled : l.store.isEnrolledInternal u q = false)
    (h : enrollNew computeProofHash u q exp env l = .ok r) :
    enroll computeProofHash u q exp env l = .ok r := by
  refine bind_eq_ok.mpr ⟨(), l, requireAuth_eq_ok.mpr ⟨auth, rfl⟩, ?_⟩
  refine bind_eq_ok.mpr ⟨false, l, load_eq_ok.mpr (by rw [notEnrolled]), ?_⟩
  rw [if_neg Bool.false_ne_true]
  exact h

/-- `enroll` for a caller with a live record, where expired records may be overridden. -/
theorem enroll_override {exp : Option ℕ} {r : EnrollmentProof × Ledger Store}
    (auth : u ∈ env.authorizers) (enrolled : l.store.isEnrolledInternal u q = true)
    (behavior : l.store.dupBehavior.getD .reject = .overrideExpired)
    (h : overrideRecord computeProofHash u q exp env l = .ok r) :
    enroll computeProofHash u q exp env l = .ok r := by
  refine bind_eq_ok.mpr ⟨(), l, requireAuth_eq_ok.mpr ⟨auth, rfl⟩, ?_⟩
  refine bind_eq_ok.mpr ⟨true, l, load_eq_ok.mpr (by rw [enrolled]), ?_⟩
  rw [if_pos rfl]
  refine bind_eq_ok.mpr ⟨.overrideExpired, l, load_eq_ok.mpr (by rw [behavior]), ?_⟩
  exact h

variable (computeProofHash) in
/-- A rewriting `enroll` writes an open record, and leaves the waitlists alone. -/
theorem Rewrites.next_enroll {exp : Option ℕ} (h : Rewrites q u l ⟨env, .enroll u q exp⟩) :
    ∃ store record, (enrollment computeProofHash).next l ⟨env, .enroll u q exp⟩ =
        ⟨store, l.events ++
          [event "Enrolled" q u env.timestamp (computeProofHash u q env.timestamp)]⟩ ∧
      store.records.lookup (q, u) = some record ∧ record.finalized = false ∧
      store.getWaitlist q = l.store.getWaitlist q := by
  cases h with
  | enroll _ _ auth notEnrolled room countRoom =>
    have hexec : Enrollment.enroll computeProofHash u q exp env l = .ok _ :=
      enroll_new auth notEnrolled (enrollNew_eq_ok.mpr ⟨room, countRoom, rfl⟩)
    exact ⟨_, _, Transactional.next_of_ok (bind_eq_ok.mpr ⟨_, _, hexec, rfl⟩),
      (setRecord_lookup _ _ _ _ _).trans (if_pos rfl), rfl, rfl⟩
  | override _ old _ auth behavior stored live expired room =>
    have enrolled := isEnrolledInternal_eq_true.mpr ⟨old, stored, live⟩
    have hexec : Enrollment.enroll computeProofHash u q exp env l = .ok _ :=
      enroll_override auth enrolled behavior
        (overrideRecord_eq_ok.mpr ⟨old, stored, expired, room, rfl⟩)
    exact ⟨_, _, Transactional.next_of_ok (bind_eq_ok.mpr ⟨_, _, hexec, rfl⟩),
      (setRecord_lookup _ _ _ _ _).trans (if_pos rfl), rfl, rfl⟩
  | promote _ _ entry => cases entry

variable (computeProofHash) in
/-- A promotion that is signed and fits the counter succeeds. -/
theorem next_promote {admin : Address} {count : ℕ} (auth : admin ∈ env.authorizers)
    (room : l.store.promotees q count ≠ [] →
      l.store.enrollmentCount q + (l.store.promotees q count).length ≤ u32Max) :
    (enrollment computeProofHash).next l ⟨env, .promoteFromWaitlist admin q count⟩ =
      ⟨l.store.afterPromote computeProofHash q count env.timestamp,
        l.events ++ (l.store.promotees q count).map
          (promotedEvent computeProofHash q env.timestamp)⟩ := by
  have hexec : promoteFromWaitlist computeProofHash admin q count env l = .ok _ :=
    promoteFromWaitlist_eq_ok.mpr ⟨auth, room, rfl⟩
  exact Transactional.next_of_ok (bind_eq_ok.mpr ⟨_, _, hexec, rfl⟩)

/-- The new record of a rewriting call is open. -/
theorem rewrites_unlocks {i : Invocation Entrypoint} (h : Rewrites q u l i) :
    ∃ record, ((enrollment computeProofHash).next l i).store.records.lookup (q, u) = some record ∧
      record.finalized = false := by
  obtain ⟨env, e⟩ := i
  have henroll {exp : Option ℕ} (h : Rewrites q u l ⟨env, .enroll u q exp⟩) :
      ∃ record, ((enrollment computeProofHash).next l ⟨env, .enroll u q exp⟩).store.records.lookup
        (q, u) = some record ∧ record.finalized = false := by
    obtain ⟨store, record, hnext, hrecord, hopen, -⟩ := h.next_enroll computeProofHash
    rw [hnext]
    exact ⟨record, hrecord, hopen⟩
  cases h with
  | enroll exp entry auth notEnrolled room countRoom =>
    obtain rfl : e = _ := entry
    exact henroll (.enroll exp rfl auth notEnrolled room countRoom)
  | override exp old entry auth behavior stored live expired room =>
    obtain rfl : e = _ := entry
    exact henroll (.override exp old rfl auth behavior stored live expired room)
  | promote admin count entry auth room reached =>
    obtain rfl : e = _ := entry
    rw [next_promote computeProofHash auth fun _ => room]
    exact ⟨_, (afterPromote_lookup count env.timestamp (q, u)).trans (if_pos ⟨rfl, reached⟩), rfl⟩

/-! ## Every run -/

/-- One call leaves a finalized record final exactly when it does not rewrite it. -/
theorem staysFinal_next (l : Ledger Store) (i : Invocation Entrypoint)
    (h : StaysFinal q u record l) :
    StaysFinal q u record ((enrollment computeProofHash).next l i) ↔ ¬ Rewrites q u l i := by
  constructor
  · intro hnext hrewrites
    rcases hnext with ⟨record', hrecord', hfinal, -⟩
    obtain ⟨new, hnew, hopen⟩ := @rewrites_unlocks _ _ _ computeProofHash _ hrewrites
    obtain rfl := Option.some.inj (hrecord'.symm.trans hnew)
    rw [hfinal] at hopen
    contradiction
  · intro hnot
    rcases (enrollment computeProofHash).commit?_cases l i with
      ⟨c, rfl, rfl, hpost, -⟩ | ⟨-, hpost, -⟩
    · obtain ⟨_, -, eff⟩ := effect_of_exec c.ok
      obtain ⟨record', stored, hfinal, hdate, hhash⟩ := h
      obtain ⟨new, hnew, hlock, hdate', hhash'⟩ :=
        (eff.rewrites_or_kept stored).resolve_left hnot
      rw [hpost]
      exact ⟨new, hnew, hlock hfinal, hdate'.trans hdate, hhash'.trans hhash⟩
    · rw [hpost]
      exact h

/-- After a finalization the record is there, finalized, and stays so, with its date and proof hash, all
along a run exactly when no call of the run rewrites it. -/
theorem finalization_iff (computeProofHash : Address → Symbol → ℕ → Bytes32) (q : Symbol)
    (u : Address) (f : Finalization computeProofHash q u) (later : List (Invocation Entrypoint)) :
    ∃ record, f.state.store.records.lookup (q, u) = some record ∧ record.finalized = true ∧
      ((enrollment computeProofHash).Always (StaysFinal q u record) f.state later ↔
        (enrollment computeProofHash).Along (fun l i => ¬ Rewrites q u l i) f.state later) := by
  obtain ⟨_, hfinalize, -⟩ := bind_pure_eq_ok.mp f.ok
  obtain ⟨-, record, -, -, -, hpair⟩ := finalizeEnrollment_eq_ok.mp hfinalize
  obtain ⟨-, hstate⟩ := Prod.mk.inj hpair
  have stored := setRecord_lookup
    ((enrollment computeProofHash).run fresh f.before).store q u
    { record with finalized := true } (q, u)
  rw [if_pos rfl] at stored
  rw [hstate]
  refine ⟨_, stored, rfl, ?_⟩
  exact Transactional.always_iff_along (I := fun _ => True) (fun _ _ => trivial)
    (fun l i _ => staysFinal_next l i) trivial ⟨_, stored, rfl, rfl, rfl⟩ later

/-- Whoever cancels after the finalization and enrols again has an open record with a new date. -/
theorem cancellation_unlocks :
    ¬ ∃ computeProofHash, ∀ q u (f : Finalization computeProofHash q u) later record,
      f.state.store.records.lookup (q, u) = some record →
      (enrollment computeProofHash).Always (StaysFinal q u record) f.state later := by
  intro h
  rcases h with ⟨computeProofHash, h⟩
  let admin : Address := ⟨"GADMIN"⟩
  let alice : Address := ⟨"GALICE"⟩
  let contract : Address := ⟨"CENROLLMENT"⟩
  let clinic : Symbol := ⟨"clinic"⟩
  let f : Finalization computeProofHash clinic alice :=
    { before := [⟨⟨1, [alice], contract⟩, .enroll alice clinic none⟩]
      env := ⟨2, [admin], contract⟩
      admin := admin
      state := _
      ok := rfl }
  have hfinal := h clinic alice f [⟨⟨3, [alice], contract⟩, .cancel alice clinic⟩,
    ⟨⟨4, [alice], contract⟩, .enroll alice clinic none⟩] _ rfl _ List.prefix_rfl
  obtain ⟨record, hrecord, hlocked, -⟩ := hfinal
  obtain rfl := Option.some.inj hrecord
  exact absurd hlocked Bool.false_ne_true

end LineProof.Enrollment
