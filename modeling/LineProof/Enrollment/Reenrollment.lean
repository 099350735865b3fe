import LineProof.Enrollment.Finality

/-!
# Re-enrollment

`duplicate_count` is to say how often an identity has come back to a queue. `enroll` carries it from the
record it replaces to the new one, after a cancellation as well as over an expired record. Promotion does
not: it writes a zero, although whoever waits has a record (`WaitingStored`). So the counts and the
`Enrolled` events agree exactly through the runs that promote nobody (`reenrollments_iff`).
-/

namespace LineProof.Enrollment

open Soroban

/-- The time and the proof hash of an `Enrolled` event of `u` for `q`. -/
def enrolledAs (q : Symbol) (u : Address) : Event → Option (ℕ × Bytes32)
  | ⟨[_, .symbol kind, .symbol queueId], .tuple [.address identity, .u64 timestamp, .bytes hash]⟩ =>
    if kind.str = "Enrolled" ∧ queueId = q ∧ identity = u then some (timestamp, hash) else none
  | _ => none

/-- The enrollments of `u` for `q` that the events announce, oldest first. -/
def enrollments (q : Symbol) (u : Address) (events : List Event) : List (ℕ × Bytes32) :=
  events.filterMap (enrolledAs q u)

/-- Every stored record counts the `Enrolled` events of its identity for its queue, except the first. -/
def CountsEnrollments (l : Ledger Store) : Prop :=
  ∀ q u record, l.store.records.lookup (q, u) = some record →
    record.duplicateCount + 1 = (enrollments q u l.events).length

/-- All along a run the duplicate counts follow the events, and they never decrease. -/
structure KeepsReenrollments (computeProofHash : Address → Symbol → ℕ → Bytes32)
    (calls : List (Invocation Entrypoint)) : Prop where
  counted : (enrollment computeProofHash).Always CountsEnrollments fresh calls
  monotone : ∀ before later, before ++ later <+: calls → ∀ q u record,
    ((enrollment computeProofHash).run fresh before).store.records.lookup (q, u) = some record →
    ∃ record', ((enrollment computeProofHash).run fresh (before ++ later)).store.records.lookup
      (q, u) = some record' ∧ record.duplicateCount ≤ record'.duplicateCount

/-- The call is an accepted promotion that reaches somebody. -/
def PromotesSomebody (l : Ledger Store) (i : Invocation Entrypoint) : Prop :=
  ∃ admin q count, i.entry = .promoteFromWaitlist admin q count ∧ admin ∈ i.env.authorizers ∧
    l.store.enrollmentCount q + (l.store.promotees q count).length ≤ u32Max ∧
    l.store.promotees q count ≠ []

/-- What a call at time `now` does to the record of `u` in `q`, and the enrollments it announces. -/
inductive RecordChange (computeProofHash : Address → Symbol → ℕ → Bytes32) (e : Entrypoint) (now : ℕ)
    (s s' : Store) (q : Symbol) (u : Address) : List (ℕ × Bytes32) → Prop
  | kept (same : s'.records.lookup (q, u) = s.records.lookup (q, u)) :
    RecordChange computeProofHash e now s s' q u []
  /-- A cancellation or a finalization. -/
  | marked {record : EnrollmentRecord} (cancelled finalized : Bool)
      (stored : s.records.lookup (q, u) = some record)
      (stored' : s'.records.lookup (q, u) = some { record with cancelled, finalized }) :
    RecordChange computeProofHash e now s s' q u []
  | enrolled (exp : Option ℕ) (stored' : s'.records.lookup (q, u) =
      some (newRecord (computeProofHash u q now) q u now (s.nextDuplicateCount q u) exp)) :
    RecordChange computeProofHash e now s s' q u [(now, computeProofHash u q now)]
  | promoted {admin : Address} {count : ℕ} (entry : e = .promoteFromWaitlist admin q count)
      (reached : u ∈ s.promotees q count)
      (stored' : s'.records.lookup (q, u) = some (promotedRecord computeProofHash q now u)) :
    RecordChange computeProofHash e now s s' q u [(now, computeProofHash u q now)]

variable {s s' : Store} {env : Env} {e : Entrypoint} {o : Output} {events : List Event}
  {l : Ledger Store} {q q' : Symbol} {u u' : Address} {record : EnrollmentRecord} {now : ℕ}
  {announced : List (ℕ × Bytes32)} {computeProofHash : Address → Symbol → ℕ → Bytes32}

/-! ## Reading the events -/

@[simp] theorem enrolledAs_event (kind : String) (now : ℕ) (hash : Bytes32) :
    enrolledAs q u (event kind q' u' now hash) =
      if kind = "Enrolled" ∧ q' = q ∧ u' = u then some (now, hash) else none := rfl

/-- The enrollments of two event lists follow each other. -/
theorem enrollments_append (q : Symbol) (u : Address) (xs ys : List Event) :
    enrollments q u (xs ++ ys) = enrollments q u xs ++ enrollments q u ys :=
  List.filterMap_append

@[simp] theorem enrollments_nil : enrollments q u [] = [] := rfl

/-- One event is an enrollment of its own identity in its own queue, or none. -/
theorem enrollments_singleton (kind : String) (now : ℕ) (hash : Bytes32) :
    enrollments q u [event kind q' u' now hash] =
      if kind = "Enrolled" ∧ q' = q ∧ u' = u then [(now, hash)] else [] := by
  rw [enrollments, List.filterMap_cons, enrolledAs_event, List.filterMap_nil]
  split_ifs <;> rfl

/-- An event of another kind announces no enrollment. -/
theorem enrollments_other {kind : String} (h : kind ≠ "Enrolled") (now : ℕ) (hash : Bytes32) :
    enrollments q u [event kind q' u' now hash] = [] := by
  rw [enrollments_singleton, if_neg]
  exact fun hkind => h hkind.1

/-- A promotion announces each of its identities once. -/
theorem enrollments_promoted {us : List Address} (hnodup : us.Nodup) :
    enrollments q u (us.map (promotedEvent computeProofHash q' now)) =
      if q = q' ∧ u ∈ us then [(now, computeProofHash u q' now)] else [] := by
  induction us with
  | nil => simp
  | cons v us ih =>
    obtain ⟨hv, hnodup⟩ := List.nodup_cons.mp hnodup
    have hsplit : enrollments q u ((v :: us).map (promotedEvent computeProofHash q' now)) =
        enrollments q u [event "Enrolled" q' v now (computeProofHash v q' now)] ++
          enrollments q u (us.map (promotedEvent computeProofHash q' now)) :=
      enrollments_append q u [_] _
    rw [hsplit, enrollments_singleton, ih hnodup]
    by_cases hq : q = q'
    · subst hq
      by_cases hu : v = u
      · subst hu
        simp [hv]
      · simp [hu, Ne.symm hu]
    · simp [hq, Ne.symm hq]

/-! ## One call -/

/-- What a call does to one record, in four cases. -/
theorem Effect.recordChange (eff : Effect computeProofHash env s e o s' events)
    (hnodup : WaitlistsNodup s) (q : Symbol) (u : Address) :
    RecordChange computeProofHash e env.timestamp s s' q u (enrollments q u events) := by
  cases eff with
  | read | behavior => exact .kept rfl
  | waitlist =>
    rw [enrollments_other (by decide)]
    exact .kept rfl
  | @override u' q' exp old new _ _ stored _ _ _ new_eq =>
    rw [enrollments_singleton]
    by_cases hk : (q, u) = (q', u')
    · obtain ⟨rfl, rfl⟩ := Prod.mk.inj hk
      rw [if_pos ⟨rfl, rfl, rfl⟩]
      refine .enrolled exp ?_
      rw [setRecord_lookup, if_pos rfl, new_eq, Store.nextDuplicateCount, stored]
    · rw [if_neg (fun h => hk (Prod.ext h.2.1.symm h.2.2.symm))]
      exact .kept (by rw [setRecord_lookup, if_neg hk])
  | @enroll u' q' exp new _ _ _ _ new_eq =>
    rw [enrollments_singleton]
    by_cases hk : (q, u) = (q', u')
    · obtain ⟨rfl, rfl⟩ := Prod.mk.inj hk
      rw [if_pos ⟨rfl, rfl, rfl⟩]
      refine .enrolled exp ?_
      rw [setCount_records, setRecord_lookup, if_pos rfl, new_eq]
    · rw [if_neg (fun h => hk (Prod.ext h.2.1.symm h.2.2.symm))]
      exact .kept (by rw [setCount_records, setRecord_lookup, if_neg hk])
  | @cancel u' q' old _ stored =>
    rw [enrollments_other (by decide)]
    by_cases hk : (q, u) = (q', u')
    · obtain ⟨rfl, rfl⟩ := Prod.mk.inj hk
      exact .marked true old.finalized stored (by rw [afterCancel_lookup, if_pos rfl])
    · exact .kept (by rw [afterCancel_lookup, if_neg hk])
  | @finalize admin u' q' old _ stored =>
    rw [enrollments_other (by decide)]
    by_cases hk : (q, u) = (q', u')
    · obtain ⟨rfl, rfl⟩ := Prod.mk.inj hk
      exact .marked old.cancelled true stored (by rw [setRecord_lookup, if_pos rfl])
    · exact .kept (by rw [setRecord_lookup, if_neg hk])
  | @promote admin q' count =>
    have hus : (s.promotees q' count).Nodup := (hnodup q').sublist (List.take_sublist count _)
    rw [enrollments_promoted hus]
    by_cases hk : q = q' ∧ u ∈ s.promotees q' count
    · rw [if_pos hk]
      obtain ⟨rfl, reached⟩ := hk
      exact .promoted rfl reached (by rw [afterPromote_lookup, if_pos ⟨rfl, reached⟩])
    · rw [if_neg hk]
      exact .kept (by rw [afterPromote_lookup, if_neg hk])

/-- Records are never deleted. -/
theorem RecordChange.stored
    (change : RecordChange computeProofHash e now s s' q u announced)
    (h : s.records.lookup (q, u) = some record) :
    ∃ record', s'.records.lookup (q, u) = some record' := by
  cases change with
  | kept same => exact ⟨record, same.trans h⟩
  | marked _ _ _ stored' | enrolled _ stored' | promoted _ _ stored' => exact ⟨_, stored'⟩

/-- Whoever waits has a record. -/
def WaitingStored (s : Store) : Prop :=
  ∀ q, ∀ u ∈ s.getWaitlist q, ∃ record, s.records.lookup (q, u) = some record

/-- Whoever has no record was never announced as enrolled. -/
def AnnouncedStored (l : Ledger Store) : Prop :=
  ∀ q u, l.store.records.lookup (q, u) = none → enrollments q u l.events = []

/-- What every run keeps, whatever it promotes. -/
structure Recorded (l : Ledger Store) : Prop where
  nodup : WaitlistsNodup l.store
  waiting : WaitingStored l.store
  announced : AnnouncedStored l

/-- Only an enrolled identity joins a waitlist. -/
theorem Effect.mem_waitlist (eff : Effect computeProofHash env s e o s' events)
    (hu : u ∈ s'.getWaitlist q) :
    u ∈ s.getWaitlist q ∨ ∃ record, s.records.lookup (q, u) = some record := by
  cases eff with
  | read | behavior | override | enroll | finalize => exact .inl hu
  | @waitlist u' q' _ _ enrolled =>
    rw [setWaitlist_getWaitlist] at hu
    split at hu
    · case _ hq =>
      subst hq
      rcases List.mem_append.mp hu with hold | hnew
      · exact .inl hold
      · obtain rfl := List.mem_singleton.mp hnew
        obtain ⟨record, stored, -⟩ := isEnrolledInternal_eq_true.mp enrolled
        exact .inr ⟨record, stored⟩
    · exact .inl hu
  | cancel =>
    rw [afterCancel_getWaitlist] at hu
    exact .inl hu
  | @promote _ q' count =>
    rw [afterPromote_getWaitlist] at hu
    split at hu
    · case _ hq =>
      subst hq
      exact .inl (List.mem_of_mem_drop hu)
    · exact .inl hu

/-- A committed call keeps the records in step with the events. -/
theorem Recorded.commit (c : (enrollment computeProofHash).Commit) (h : Recorded c.pre) :
    Recorded c.post := by
  obtain ⟨events, hevents, eff⟩ := effect_of_exec c.ok
  refine ⟨eff.waitlistsNodup h.nodup, ?_, ?_⟩
  · intro q u hu
    rcases eff.mem_waitlist hu with hwait | ⟨record, stored⟩
    · obtain ⟨record, stored⟩ := h.waiting q u hwait
      exact (eff.recordChange h.nodup q u).stored stored
    · exact (eff.recordChange h.nodup q u).stored stored
  · intro q u absent
    rw [hevents, enrollments_append]
    generalize hannounced : enrollments q u events = announced
    have change := eff.recordChange h.nodup q u
    rw [hannounced] at change
    cases change with
    | kept same => rw [h.announced q u (same.symm.trans absent), List.append_nil]
    | marked _ _ _ stored' | enrolled _ stored' | promoted _ _ stored' =>
      rw [absent] at stored'
      contradiction

/-- Nothing is recorded at the start. -/
theorem recorded_fresh : Recorded fresh where
  nodup _ := List.nodup_nil
  waiting _ _ hu := absurd hu List.not_mem_nil
  announced _ _ _ := rfl

variable (computeProofHash) in
/-- The records are in step with the events in every reachable state. -/
theorem recorded_run (calls : List (Invocation Entrypoint)) :
    Recorded ((enrollment computeProofHash).run fresh calls) :=
  Transactional.run_invariant Recorded.commit recorded_fresh calls

/-- An enrollment that is no promotion carries the count on. -/
theorem nextDuplicateCount_eq (hannounced : AnnouncedStored l) (h : CountsEnrollments l) (q : Symbol)
    (u : Address) : l.store.nextDuplicateCount q u = (enrollments q u l.events).length := by
  unfold Store.nextDuplicateCount
  cases hrecord : l.store.records.lookup (q, u) with
  | none => rw [hannounced q u hrecord, List.length_nil]
  | some record => exact h q u record hrecord

/-- A call that promotes nobody keeps the counts. -/
theorem CountsEnrollments.commit (c : (enrollment computeProofHash).Commit) (hI : Recorded c.pre)
    (h : CountsEnrollments c.pre)
    (hnobody : ∀ admin q count u, c.call.entry = .promoteFromWaitlist admin q count →
      u ∉ c.pre.store.promotees q count) : CountsEnrollments c.post := by
  obtain ⟨events, hevents, eff⟩ := effect_of_exec c.ok
  intro q u record stored
  rw [hevents, enrollments_append, List.length_append]
  generalize hannounced : enrollments q u events = announced
  have change := eff.recordChange hI.nodup q u
  rw [hannounced] at change
  cases change with
  | kept same => exact h q u record (same.symm.trans stored)
  | marked _ _ old stored' =>
    obtain rfl := Option.some.inj (stored'.symm.trans stored)
    have hold := h q u _ old
    exact hold
  | enrolled _ stored' =>
    obtain rfl := Option.some.inj (stored'.symm.trans stored)
    show c.pre.store.nextDuplicateCount q u + 1 = _
    rw [nextDuplicateCount_eq hI.announced h, List.length_singleton]
  | promoted entry reached => exact absurd reached (hnobody _ _ _ _ entry)

/-- A promotion writes a first enrollment for everybody it reaches, and announces it. -/
theorem Effect.promoted {admin : Address} {count : ℕ}
    (eff : Effect computeProofHash env s (.promoteFromWaitlist admin q count) o s' events)
    (hnodup : WaitlistsNodup s) (reached : u ∈ s.promotees q count) :
    s'.records.lookup (q, u) = some (promotedRecord computeProofHash q env.timestamp u) ∧
      enrollments q u events = [(env.timestamp, computeProofHash u q env.timestamp)] := by
  cases eff with
  | read reader => exact reader.elim
  | promote =>
    have hus : (s.promotees q count).Nodup := (hnodup q).sublist (List.take_sublist count _)
    rw [afterPromote_lookup, if_pos ⟨rfl, reached⟩, enrollments_promoted hus, if_pos ⟨rfl, reached⟩]
    exact ⟨rfl, rfl⟩

/-- A call keeps the counts exactly when it promotes nobody: who is promoted has been announced before. -/
theorem countsEnrollments_next (l : Ledger Store) (i : Invocation Entrypoint) (hI : Recorded l)
    (h : CountsEnrollments l) :
    CountsEnrollments ((enrollment computeProofHash).next l i) ↔ ¬ PromotesSomebody l i := by
  rcases (enrollment computeProofHash).commit?_cases l i with
    ⟨c, rfl, rfl, hpost, -⟩ | ⟨⟨_, hfail⟩, hpost, -⟩
  · rw [hpost]
    constructor
    · intro hafter hpromotes
      rcases hpromotes with ⟨admin, q, count, hentry, -, -, hsome⟩
      obtain ⟨events, hevents, eff⟩ := effect_of_exec c.ok
      rw [hentry] at eff
      obtain ⟨u, reached⟩ := List.exists_mem_of_ne_nil _ hsome
      obtain ⟨record, stored⟩ := hI.waiting q u (List.mem_of_mem_take reached)
      obtain ⟨stored', hannounced⟩ := eff.promoted hI.nodup reached
      have hbefore := h q u record stored
      have hcount : 0 + 1 = (enrollments q u c.post.events).length := hafter q u _ stored'
      rw [hevents, enrollments_append, hannounced, List.length_append, List.length_singleton] at hcount
      omega
    · intro hnot
      refine h.commit c hI ?_
      intro admin q count u hentry reached
      obtain ⟨_, -, eff⟩ := effect_of_exec c.ok
      rw [hentry] at eff
      obtain ⟨auth, room, -⟩ := eff.of_promote
      have hsome := List.ne_nil_of_mem reached
      exact hnot ⟨admin, q, count, hentry, auth, room hsome, hsome⟩
  · rw [hpost]
    refine iff_of_true h ?_
    intro hpromotes
    rcases hpromotes with ⟨admin, q, count, hentry, auth, room, -⟩
    have hexec := succeeds_promote computeProofHash auth fun _ => room
    rw [← hentry] at hexec
    exact absurd hfail (hexec.ne_error _)

/-! ## Every run -/

variable (computeProofHash) in
/-- Along a run records stay and the events grow. -/
theorem recorded_later (calls : List (Invocation Entrypoint)) (hl : Recorded l) :
    (∀ q u record, l.store.records.lookup (q, u) = some record → ∃ record',
      ((enrollment computeProofHash).run l calls).store.records.lookup (q, u) = some record') ∧
    l.events <+: ((enrollment computeProofHash).run l calls).events := by
  refine Transactional.run_relation (I := Recorded)
    (R := fun l l' : Ledger Store => (∀ q u record, l.store.records.lookup (q, u) = some record →
      ∃ record', l'.store.records.lookup (q, u) = some record') ∧ l.events <+: l'.events)
    (fun l => ⟨fun _ _ record h => ⟨record, h⟩, List.prefix_rfl⟩) ?_ Recorded.commit ?_ hl calls
  · intro l l' l'' hfirst hsecond
    refine ⟨?_, hfirst.2.trans hsecond.2⟩
    intro q u record stored
    obtain ⟨record', stored'⟩ := hfirst.1 q u record stored
    exact hsecond.1 q u record' stored'
  · intro c hc
    obtain ⟨events, hevents, eff⟩ := effect_of_exec c.ok
    refine ⟨fun q u record stored => (eff.recordChange hc.nodup q u).stored stored, ?_⟩
    exact ⟨events, hevents.symm⟩

/-- Where the counts follow the events, they never decrease. -/
theorem duplicateCount_le (calls : List (Invocation Entrypoint)) (hl : Recorded l)
    (h : CountsEnrollments l) (h' : CountsEnrollments ((enrollment computeProofHash).run l calls))
    (stored : l.store.records.lookup (q, u) = some record) :
    ∃ record', ((enrollment computeProofHash).run l calls).store.records.lookup (q, u) =
      some record' ∧ record.duplicateCount ≤ record'.duplicateCount := by
  obtain ⟨hstored, more, hevents⟩ := recorded_later computeProofHash calls hl
  obtain ⟨record', stored'⟩ := hstored q u record stored
  refine ⟨record', stored', ?_⟩
  have hbefore := h q u record stored
  have hafter := h' q u record' stored'
  rw [← hevents, enrollments_append, List.length_append] at hafter
  omega

/-- The duplicate counts follow the `Enrolled` events all along a run, and never decrease, exactly when no
call of the run promotes anybody. -/
theorem reenrollments_iff (computeProofHash : Address → Symbol → ℕ → Bytes32)
    (calls : List (Invocation Entrypoint)) :
    KeepsReenrollments computeProofHash calls ↔
      (enrollment computeProofHash).Along (fun l i => ¬ PromotesSomebody l i) fresh calls := by
  have hcounted : (enrollment computeProofHash).Always CountsEnrollments fresh calls ↔
      (enrollment computeProofHash).Along (fun l i => ¬ PromotesSomebody l i) fresh calls := by
    refine Transactional.always_iff_along Recorded.commit countsEnrollments_next recorded_fresh ?_ calls
    intro q u record stored
    exact absurd stored (by rw [show fresh.store.records.lookup (q, u) = none from rfl]; nofun)
  rw [← hcounted]
  constructor
  · exact fun h => h.counted
  · intro h
    refine ⟨h, ?_⟩
    intro before later hbefore q u record stored
    rw [Transactional.run_append]
    refine duplicateCount_le later (recorded_run computeProofHash before)
      (h before ((List.prefix_append before later).trans hbefore)) ?_ stored
    rw [← Transactional.run_append]
    exact h (before ++ later) hbefore

/-- An identity that is promoted has been enrolled twice and has the count of a first enrollment. -/
theorem promotion_restarts_count :
    ¬ ∃ computeProofHash, ∀ calls, KeepsReenrollments computeProofHash calls := by
  intro h
  rcases h with ⟨computeProofHash, h⟩
  let admin : Address := ⟨"GADMIN"⟩
  let alice : Address := ⟨"GALICE"⟩
  let contract : Address := ⟨"CENROLLMENT"⟩
  let clinic : Symbol := ⟨"clinic"⟩
  have hcounted := (h [⟨⟨1, [alice], contract⟩, .enroll alice clinic none⟩,
    ⟨⟨2, [admin], contract⟩, .setDuplicateBehavior admin .grantWaitingList⟩,
    ⟨⟨3, [alice], contract⟩, .enroll alice clinic none⟩,
    ⟨⟨4, [admin], contract⟩, .promoteFromWaitlist admin clinic 1⟩]).counted _ List.prefix_rfl
  have hcount := hcounted clinic alice _ rfl
  exact absurd (show 0 + 1 = 2 from hcount) (by decide)

end LineProof.Enrollment
