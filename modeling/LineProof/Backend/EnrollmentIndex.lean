import LineProof.Backend.EnrollmentService

/-!
# The two indexes of the enrollment service

The records are stored by identity, and beside them the identities by queue. What the service reads off a
list of records are the queues with a live record in it (`liveQueues`). A call writes one list and one set,
and both agree on these queues after every run (`indexes_agree`).
-/

namespace LineProof.Backend

/-- Every record the adapter stores. -/
def EnrollmentStore.records (s : EnrollmentStore) : List EnrollmentRecord := s.nsByIdentity.values.flatten

/-- The identities the index lists for a queue. -/
def members (q : String) (s : EnrollmentStore) : InsertionSet String := (queueSet q s).getD ∅

/-- Some stored record of `u` for `q` is not cancelled. -/
def EnrollmentStore.Live (s : EnrollmentStore) (q u : String) : Prop :=
  ∃ record ∈ s.records, record.queueId = q ∧ record.identity = u ∧ record.cancelled = false

/-- The record of a new enrollment. -/
def newRecord (now q u : String) : EnrollmentRecord where
  queueId := q
  identity := u
  enrolledAt := now
  conflict := false
  cancelled := false

/-- A call has written the list of `u` and the set of `q`. -/
structure Wrote (s s' : EnrollmentStore) (u : String) (records : List EnrollmentRecord) (q : String)
    (set : InsertionSet String) : Prop where
  byIdentity : ∀ v, byIdentity v s' = if v = u then records else Backend.byIdentity v s
  members : ∀ p, members p s' = if p = q then set else Backend.members p s

/-- The second list is the first with its first live record for `q` cancelled. -/
def CancelsFirst (q : String) (records records' : List EnrollmentRecord) : Prop :=
  ∃ before record after, records = before ++ record :: after ∧ record.liveIn q = true ∧
    (∀ r ∈ before, r.liveIn q = false) ∧ records' = before ++ { record with cancelled := true } :: after

/-- What the service reads and answers in the store `s` is the same in both indexes. -/
structure IndexesAgree (s : EnrollmentStore) : Prop where
  /-- No two records that are not cancelled are for the same queue and identity. -/
  oneLive : ((s.records.filter (!·.cancelled)).map fun r => (r.queueId, r.identity)).Nodup
  index : ∀ q u, u ∈ members q s ↔ s.Live q u
  byQueue : ∀ q record, record ∈ getEnrollmentsByQueue q s ↔
    record ∈ s.records ∧ record.queueId = q ∧ record.cancelled = false
  onePerIdentity : ∀ q, ((getEnrollmentsByQueue q s).map (·.identity)).Nodup
  enroll : ∀ now q u,
    (enrollIdentity now q u s).1.conflict = true ∧ (enrollIdentity now q u s).2 = s ↔ s.Live q u
  conflict : ∀ now q u, (enrollIdentity now q u s).1.conflict = true ↔ s.Live q u
  /-- An enrollment without conflict returns its record, and appends it to the history of the identity. -/
  enrolled : ∀ now q u, ¬ s.Live q u →
    (enrollIdentity now q u s).1 = newRecord now q u ∧
      Wrote s (enrollIdentity now q u s).2 u (getEnrollmentsByIdentity u s ++ [newRecord now q u]) q
        ((members q s).add u)
  cancel : ∀ q u, (cancelEnrollment q u s).1 = true ↔ s.Live q u
  /-- A cancellation marks the live record, and takes the identity from the queue. -/
  cancelled : ∀ q u, s.Live q u →
    ∃ records, CancelsFirst q (getEnrollmentsByIdentity u s) records ∧
      Wrote s (cancelEnrollment q u s).2 u records q ((members q s).delete u)
  /-- Without a live record there is nothing to cancel. -/
  notCancelled : ∀ q u, ¬ s.Live q u → (cancelEnrollment q u s).2 = s

/-- `new` is the record `old`, which may have been cancelled in between. -/
structure Kept (old new : EnrollmentRecord) : Prop where
  same : new = { old with cancelled := new.cancelled }
  cancelled : old.cancelled = true → new.cancelled = true

/-- Every record of the history `old` is at its place in `new`. -/
def HistoryKept (old new : List EnrollmentRecord) : Prop :=
  ∀ (i : ℕ) record, old[i]? = some record → ∃ record', new[i]? = some record' ∧ Kept record record'

/-! ## One list of records -/

/-- The queues of the records that are not cancelled. -/
def liveQueues (records : List EnrollmentRecord) : List String :=
  (records.filter (!·.cancelled)).map (·.queueId)

variable {q q' u v now : String} {records records' : List EnrollmentRecord} {s s' : EnrollmentStore}

/-- A queue is live in an array that has a live record of it. -/
theorem mem_liveQueues :
    q ∈ liveQueues records ↔ ∃ r ∈ records, r.queueId = q ∧ r.cancelled = false := by
  rw [liveQueues, List.mem_map]
  constructor
  · rintro ⟨r, hr, rfl⟩
    obtain ⟨hmem, hlive⟩ := List.mem_filter.mp hr
    exact ⟨r, hmem, rfl, by simpa using hlive⟩
  · rintro ⟨r, hmem, rfl, hlive⟩
    exact ⟨r, List.mem_filter.mpr ⟨hmem, by simp [hlive]⟩, rfl⟩

/-- The search of `enrollIdentity` finds a live queue. -/
theorem any_liveIn : records.any (·.liveIn q) = true ↔ q ∈ liveQueues records := by
  simp [mem_liveQueues, EnrollmentRecord.liveIn]

/-- An array's first record adds its queue if it is live. -/
theorem liveQueues_cons (record : EnrollmentRecord) (records : List EnrollmentRecord) :
    liveQueues (record :: records) =
      if record.cancelled = false then record.queueId :: liveQueues records
      else liveQueues records := by
  cases h : record.cancelled <;> simp [liveQueues, h]

/-- There is nothing to cancel where the queue is not live. -/
theorem cancelFirst_eq_none : cancelFirst q records = none ↔ q ∉ liveQueues records := by
  induction records with
  | nil => simp [cancelFirst, liveQueues]
  | cons record rest ih =>
    by_cases h : record.liveIn q = true
    · have hlive : record.queueId = q ∧ record.cancelled = false := by
        simpa [EnrollmentRecord.liveIn] using h
      simp [cancelFirst, h, liveQueues_cons, hlive]
    · have hdead : record.cancelled = false → q ≠ record.queueId := by
        intro hlive hq
        exact h (by simp [EnrollmentRecord.liveIn, hlive, hq])
      rw [cancelFirst, if_neg h, Option.map_eq_none_iff, ih, liveQueues_cons]
      split
      · case _ hlive => simp [hdead hlive]
      · rfl

/-- `cancelFirst` cancels the first live record of the queue and nothing else. -/
theorem cancelsFirst_of_cancelFirst (h : cancelFirst q records = some records') :
    CancelsFirst q records records' := by
  induction records generalizing records' with
  | nil => simp [cancelFirst] at h
  | cons record rest ih =>
    rw [cancelFirst] at h
    split at h
    · case _ hlive =>
      obtain rfl := Option.some.inj h
      exact ⟨[], record, rest, rfl, hlive, by simp, rfl⟩
    · case _ hdead =>
      obtain ⟨rest', hrest, rfl⟩ := Option.map_eq_some_iff.mp h
      obtain ⟨before, found, after, rfl, hlive, hbefore, rfl⟩ := ih hrest
      refine ⟨record :: before, found, after, rfl, hlive, ?_, rfl⟩
      exact List.forall_mem_cons.mpr ⟨Bool.eq_false_iff.mpr hdead, hbefore⟩

/-- A cancellation takes the queue off once. -/
theorem liveQueues_cancelFirst (h : cancelFirst q records = some records') :
    liveQueues records' = (liveQueues records).erase q := by
  induction records generalizing records' with
  | nil => simp [cancelFirst] at h
  | cons record rest ih =>
    rw [cancelFirst] at h
    by_cases hlive : record.liveIn q = true
    · rw [if_pos hlive, Option.some.injEq] at h
      subst h
      have hlive' : record.queueId = q ∧ record.cancelled = false := by
        simpa [EnrollmentRecord.liveIn] using hlive
      simp [liveQueues_cons, hlive']
    · rw [if_neg hlive, Option.map_eq_some_iff] at h
      obtain ⟨rest', hrest, rfl⟩ := h
      rw [liveQueues_cons, liveQueues_cons, ih hrest]
      split
      · case _ hopen =>
        have hne : record.queueId ≠ q := by
          intro hq
          exact hlive (by simp [EnrollmentRecord.liveIn, hq, hopen])
        rw [List.erase_cons_tail (by simpa using hne)]
      · rfl

/-- A record keeps itself. -/
theorem Kept.refl (record : EnrollmentRecord) : Kept record record := ⟨rfl, id⟩

/-- What two steps keep is kept by both together. -/
theorem Kept.trans {a b c : EnrollmentRecord} (h : Kept a b) (h' : Kept b c) : Kept a c where
  same := by
    rw [h'.same, h.same]
  cancelled := h'.cancelled ∘ h.cancelled

/-- An array keeps its own history. -/
theorem HistoryKept.refl (records : List EnrollmentRecord) : HistoryKept records records :=
  fun _ record h => ⟨record, h, .refl record⟩

/-- The history that two steps keep is kept by both together. -/
theorem HistoryKept.trans {a b c : List EnrollmentRecord} (h : HistoryKept a b)
    (h' : HistoryKept b c) : HistoryKept a c := by
  intro i record hi
  obtain ⟨record', hi', hkept⟩ := h i record hi
  obtain ⟨record'', hi'', hkept'⟩ := h' i record' hi'
  exact ⟨record'', hi'', hkept.trans hkept'⟩

/-- A new record goes to the end of the history. -/
theorem historyKept_append (records : List EnrollmentRecord) (record : EnrollmentRecord) :
    HistoryKept records (records ++ [record]) := by
  intro i record' hi
  have hlt : i < records.length := (List.getElem?_eq_some_iff.mp hi).1
  exact ⟨record', by rw [List.getElem?_append_left hlt, hi], .refl record'⟩

/-- A cancellation only marks a record of the history. -/
theorem historyKept_cancelFirst (h : cancelFirst q records = some records') :
    HistoryKept records records' := by
  induction records generalizing records' with
  | nil => simp [cancelFirst] at h
  | cons record rest ih =>
    rw [cancelFirst] at h
    intro i old hi
    split at h
    · obtain rfl := Option.some.inj h
      cases i with
      | zero =>
        obtain rfl := Option.some.inj hi
        exact ⟨_, rfl, rfl, fun _ => rfl⟩
      | succ i => exact ⟨old, hi, .refl old⟩
    · obtain ⟨rest', hrest, rfl⟩ := Option.map_eq_some_iff.mp h
      cases i with
      | zero => exact ⟨old, hi, .refl old⟩
      | succ i => exact ih hrest i old hi

/-- Cancelling a record changes no identity. -/
theorem identity_cancelFirst (h : cancelFirst q records = some records')
    (hown : ∀ r ∈ records, r.identity = u) : ∀ r ∈ records', r.identity = u := by
  induction records generalizing records' with
  | nil => simp [cancelFirst] at h
  | cons record rest ih =>
    obtain ⟨hfirst, hrest⟩ := List.forall_mem_cons.mp hown
    rw [cancelFirst] at h
    split at h
    · obtain rfl := Option.some.inj h
      exact List.forall_mem_cons.mpr ⟨hfirst, hrest⟩
    · obtain ⟨rest', heq, rfl⟩ := Option.map_eq_some_iff.mp h
      exact List.forall_mem_cons.mpr ⟨hfirst, ih heq hrest⟩

/-- A list without two live records for one queue has exactly one for each of its live queues. -/
theorem filter_liveIn_eq_singleton (hnodup : (liveQueues records).Nodup)
    (hq : q ∈ liveQueues records) : ∃ record, records.filter (·.liveIn q) = [record] := by
  rw [← List.length_eq_one_iff, ← List.count_eq_one_of_mem hnodup hq, liveQueues, List.count,
    List.countP_map, List.countP_filter, ← List.countP_eq_length_filter]
  apply List.countP_congr
  intro record _
  simp [EnrollmentRecord.liveIn]

/-! ## One call -/

/-- A write to a map is seen at its own key only. -/
theorem getD_get_set {α : Type} (m : InsertionMap String α) (key key' : String) (value default : α) :
    ((m.set key value).get key').getD default =
      if key' = key then value else (m.get key').getD default := by
  split
  · case _ h => rw [h, InsertionMap.get_set_self, Option.getD_some]
  · case _ h => rw [InsertionMap.get_set_of_ne h]

/-- A live identity is answered with a conflict and nothing is stored. -/
theorem enrollIdentity_conflict (h : q ∈ liveQueues (byIdentity u s)) :
    (enrollIdentity now q u s).1.conflict = true ∧ (enrollIdentity now q u s).2 = s := by
  rw [enrollIdentity, if_pos (any_liveIn.mpr h)]
  exact ⟨rfl, rfl⟩

variable (now) in
/-- Any other identity gets a new record, in its array and in the queue's index. -/
theorem enrollIdentity_new (h : q ∉ liveQueues (byIdentity u s)) :
    (enrollIdentity now q u s).1 = newRecord now q u ∧
      Wrote s (enrollIdentity now q u s).2 u (byIdentity u s ++ [newRecord now q u]) q
        ((members q s).add u) := by
  rw [enrollIdentity, if_neg (mt any_liveIn.mp h)]
  exact ⟨rfl, fun v => getD_get_set _ _ _ _ _, fun p => getD_get_set _ _ _ _ _⟩

/-- Without a live record the answer is `false` and nothing is stored. -/
theorem cancelEnrollment_none (h : q ∉ liveQueues (byIdentity u s)) :
    cancelEnrollment q u s = (false, s) := by
  rw [cancelEnrollment, cancelFirst_eq_none.mpr h]

/-- The first live record is cancelled and the identity leaves the queue's index. -/
theorem cancelEnrollment_live (h : q ∈ liveQueues (byIdentity u s)) :
    ∃ records, cancelFirst q (byIdentity u s) = some records ∧
      (cancelEnrollment q u s).1 = true ∧
      Wrote s (cancelEnrollment q u s).2 u records q ((members q s).delete u) := by
  obtain ⟨records, hrecords⟩ :=
    Option.ne_none_iff_exists'.mp fun hnone => cancelFirst_eq_none.mp hnone h
  refine ⟨records, hrecords, ?_⟩
  simp only [cancelEnrollment, hrecords]
  refine ⟨trivial, fun v => getD_get_set _ _ _ _ _, fun p => ?_⟩
  simp only [members, queueSet]
  cases hset : s.nsQueueIndex.get q with
  | some set =>
    rw [Option.getD_some]
    exact getD_get_set _ _ _ _ _
  | none =>
    -- a queue without a set keeps none, and deleting from the empty set is idle
    by_cases hp : p = q
    · rw [if_pos hp, hp, hset]
      rfl
    · rw [if_neg hp]

/-! ## The invariant -/

/-- The lists by identity and the sets by queue agree. -/
structure Agree (s : EnrollmentStore) : Prop where
  own : ∀ u, ∀ r ∈ byIdentity u s, r.identity = u
  nodup : ∀ u, (liveQueues (byIdentity u s)).Nodup
  index : ∀ q u, u ∈ members q s ↔ q ∈ liveQueues (byIdentity u s)

/-- A write that changes the live queues of `u` at `q` only, and the set of `q` at `u` only. -/
theorem Agree.wrote (h : Agree s) {set : InsertionSet String} (hwrote : Wrote s s' u records q set)
    (own : ∀ r ∈ records, r.identity = u) (nodup : (liveQueues records).Nodup)
    (others : ∀ p, p ≠ q → (p ∈ liveQueues records ↔ p ∈ liveQueues (byIdentity u s)))
    (self : u ∈ set ↔ q ∈ liveQueues records) (rest : ∀ v, v ≠ u → (v ∈ set ↔ v ∈ members q s)) :
    Agree s' where
  own v := by
    rw [hwrote.byIdentity]
    split
    · case _ hv =>
      subst hv
      exact own
    · exact h.own v
  nodup v := by
    rw [hwrote.byIdentity]
    split
    · exact nodup
    · exact h.nodup v
  index p v := by
    rw [hwrote.byIdentity, hwrote.members]
    by_cases hp : p = q <;> by_cases hv : v = u
    · rw [if_pos hp, if_pos hv, hp, hv, self]
    · rw [if_pos hp, if_neg hv, hp, rest v hv, h.index]
    · rw [if_neg hp, if_pos hv, hv, others p hp, h.index]
    · rw [if_neg hp, if_neg hv, h.index]

/-- A new record is live. -/
theorem liveQueues_new (records : List EnrollmentRecord) (now q u : String) :
    liveQueues (records ++ [newRecord now q u]) = liveQueues records ++ [q] := by
  simp [liveQueues, newRecord]

/-- An enrollment keeps the two indexes in agreement. -/
theorem Agree.enroll (h : Agree s) (now q u : String) : Agree (enrollIdentity now q u s).2 := by
  by_cases hlive : q ∈ liveQueues (byIdentity u s)
  · rw [(enrollIdentity_conflict hlive).2]
    exact h
  · refine h.wrote (enrollIdentity_new now hlive).2 ?_ ?_ ?_ ?_ ?_
    · intro r hr
      rcases List.mem_append.mp hr with hr | hr
      · exact h.own u r hr
      · rw [List.mem_singleton.mp hr]
        rfl
    · rw [liveQueues_new]
      exact (h.nodup u).append (List.nodup_singleton q) (List.disjoint_singleton.mpr hlive)
    · intro p hp
      simp [liveQueues_new, hp]
    · simp [liveQueues_new]
    · intro v hv
      simp [hv]

/-- A cancellation keeps the two indexes in agreement. -/
theorem Agree.cancel (h : Agree s) (q u : String) : Agree (cancelEnrollment q u s).2 := by
  by_cases hlive : q ∈ liveQueues (byIdentity u s)
  · obtain ⟨records, hrecords, -, hwrote⟩ := cancelEnrollment_live hlive
    have hqueues : liveQueues records = (liveQueues (byIdentity u s)).erase q :=
      liveQueues_cancelFirst hrecords
    refine h.wrote hwrote (identity_cancelFirst hrecords (h.own u)) ?_ ?_ ?_ ?_
    · rw [hqueues]
      exact (h.nodup u).erase q
    · intro p hp
      rw [hqueues, (h.nodup u).mem_erase_iff]
      exact and_iff_right hp
    · rw [hqueues, (h.nodup u).mem_erase_iff]
      simp
    · intro v hv
      simp [hv]
  · rw [cancelEnrollment_none hlive]
    exact h

/-- The two indexes agree in every reachable state. -/
theorem agree_run (calls : List EnrollmentCall) :
    Agree (enrollmentService.run .empty calls) := by
  refine Transactional.run_invariant (I := Agree) ?_ ⟨by simp [byIdentity, EnrollmentStore.empty],
    by simp [byIdentity, EnrollmentStore.empty, liveQueues],
    by simp [byIdentity, EnrollmentStore.empty, liveQueues, members, queueSet]⟩ calls
  rintro ⟨pre, call, out, post, ok⟩ h
  obtain rfl : (call.exec pre).2 = post := congrArg Prod.snd (Except.ok.inj ok)
  cases call with
  | enrollIdentity now q u => exact h.enroll now q u
  | cancelEnrollment q u => exact h.cancel q u

/-! ## What the service reads -/

/-- The stored records are those of the arrays. -/
theorem mem_records {record : EnrollmentRecord} : record ∈ s.records ↔ ∃ u, record ∈ byIdentity u s := by
  rw [EnrollmentStore.records, List.mem_flatten]
  constructor
  · rintro ⟨records, hrecords, hmem⟩
    obtain ⟨u, hu⟩ := InsertionMap.mem_values_iff.mp hrecords
    exact ⟨u, by rwa [byIdentity, hu, Option.getD_some]⟩
  · rintro ⟨u, hmem⟩
    rw [byIdentity] at hmem
    cases hu : s.nsByIdentity.get u with
    | none => simp [hu] at hmem
    | some records =>
      rw [hu, Option.getD_some] at hmem
      exact ⟨records, InsertionMap.mem_values_iff.mpr ⟨u, hu⟩, hmem⟩

/-- The records of a queue are gathered from the arrays of its members. -/
theorem getEnrollmentsByQueue_eq (q : String) (s : EnrollmentStore) :
    getEnrollmentsByQueue q s =
      (members q s).elems.flatMap fun u => (byIdentity u s).filter (·.liveIn q) := by
  unfold getEnrollmentsByQueue members
  cases queueSet q s <;> rfl

namespace Agree

/-- Whether an identity is enrolled can be read off its array. -/
theorem live_iff (h : Agree s) : s.Live q u ↔ q ∈ liveQueues (byIdentity u s) := by
  rw [mem_liveQueues]
  constructor
  · rintro ⟨record, hrecord, hq, hu, hlive⟩
    obtain ⟨v, hv⟩ := mem_records.mp hrecord
    obtain rfl : v = u := (h.own v record hv).symm.trans hu
    exact ⟨record, hv, hq, hlive⟩
  · rintro ⟨record, hrecord, hq, hlive⟩
    exact ⟨record, mem_records.mpr ⟨u, hrecord⟩, hq, h.own u record hrecord, hlive⟩

/-- The identities of a queue's live records are those of its set, in the same order. -/
theorem map_identity_byQueue (h : Agree s) (q : String) :
    (getEnrollmentsByQueue q s).map (·.identity) = (members q s).elems := by
  have hone : ∀ u ∈ (members q s).elems,
      ((byIdentity u s).filter (·.liveIn q)).map (·.identity) = [u] := by
    intro u hu
    obtain ⟨record, hrecord⟩ := filter_liveIn_eq_singleton (h.nodup u) ((h.index q u).mp hu)
    have hmem : record ∈ (byIdentity u s).filter (·.liveIn q) := by simp [hrecord]
    rw [hrecord, List.map_singleton, h.own u record (List.mem_filter.mp hmem).1]
  rw [getEnrollmentsByQueue_eq, List.map_flatMap, List.flatMap_congr hone, List.flatMap_singleton']

/-- A queue is answered with its live records. -/
theorem mem_byQueue (h : Agree s) {record : EnrollmentRecord} :
    record ∈ getEnrollmentsByQueue q s ↔
      record ∈ s.records ∧ record.queueId = q ∧ record.cancelled = false := by
  rw [getEnrollmentsByQueue_eq, List.mem_flatMap]
  constructor
  · rintro ⟨u, -, hmem⟩
    obtain ⟨hrecord, hlive⟩ := List.mem_filter.mp hmem
    exact ⟨mem_records.mpr ⟨u, hrecord⟩, by simpa [EnrollmentRecord.liveIn] using hlive⟩
  · rintro ⟨hrecord, hq, hlive⟩
    obtain ⟨u, hu⟩ := mem_records.mp hrecord
    refine ⟨u, (h.index q u).mpr (mem_liveQueues.mpr ⟨record, hu, hq, hlive⟩), ?_⟩
    exact List.mem_filter.mpr ⟨hu, by simp [EnrollmentRecord.liveIn, hq, hlive]⟩

/-- No identity has two live records of one queue. -/
theorem oneLive (h : Agree s) :
    ((s.records.filter (!·.cancelled)).map fun r => (r.queueId, r.identity)).Nodup := by
  rw [List.Nodup, List.pairwise_map, List.pairwise_filter, EnrollmentStore.records,
    List.pairwise_flatten]
  have hentry : ∀ e ∈ s.nsByIdentity.entries, byIdentity e.1 s = e.2 := by
    intro e he
    rw [byIdentity, InsertionMap.get_eq_some_iff.mpr he, Option.getD_some]
  constructor
  · -- within one list the queues are distinct
    intro records hrecords
    obtain ⟨e, he, rfl⟩ := List.mem_map.mp hrecords
    have hnodup := h.nodup e.1
    rw [hentry e he, liveQueues, List.Nodup, List.pairwise_map, List.pairwise_filter] at hnodup
    refine hnodup.imp ?_
    intro a b hne ha hb heq
    exact hne ha hb (Prod.mk.inj heq).1
  · -- between two lists the identities are
    rw [InsertionMap.values, List.pairwise_map]
    have hkeys := s.nsByIdentity.nodup
    rw [List.Nodup, List.pairwise_map] at hkeys
    refine hkeys.imp_of_mem ?_
    intro d e hd he hne a ha b hb _ _ heq
    apply hne
    rw [← h.own d.1 a (by rw [hentry d hd]; exact ha), ← h.own e.1 b (by rw [hentry e he]; exact hb)]
    exact (Prod.mk.inj heq).2

/-- The answer is a conflict exactly for an enrolled identity. -/
theorem conflict_iff (h : Agree s) (now q u : String) :
    (enrollIdentity now q u s).1.conflict = true ↔ s.Live q u := by
  rw [h.live_iff]
  by_cases hlive : q ∈ liveQueues (byIdentity u s)
  · exact iff_of_true (enrollIdentity_conflict hlive).1 hlive
  · simp [(enrollIdentity_new now hlive).1, newRecord, hlive]

/-- A cancellation finds something exactly for an enrolled identity. -/
theorem cancel_iff (h : Agree s) (q u : String) :
    (cancelEnrollment q u s).1 = true ↔ s.Live q u := by
  rw [h.live_iff]
  by_cases hlive : q ∈ liveQueues (byIdentity u s)
  · obtain ⟨_, -, htrue, -⟩ := cancelEnrollment_live hlive
    exact iff_of_true htrue hlive
  · simp [cancelEnrollment_none hlive, hlive]

/-- Agreement of the indexes says all that is asked of them. -/
theorem indexesAgree (h : Agree s) : IndexesAgree s where
  oneLive := h.oneLive
  index q u := (h.index q u).trans h.live_iff.symm
  byQueue q record := h.mem_byQueue
  onePerIdentity q := by
    rw [h.map_identity_byQueue q]
    exact (members q s).nodup
  enroll now q u := by
    rw [h.conflict_iff now q u]
    exact and_iff_left_of_imp fun hlive => (enrollIdentity_conflict (h.live_iff.mp hlive)).2
  conflict := h.conflict_iff
  enrolled now q u hnew := enrollIdentity_new now (mt h.live_iff.mpr hnew)
  cancel := h.cancel_iff
  cancelled q u hlive := by
    obtain ⟨records, hrecords, -, hwrote⟩ := cancelEnrollment_live (h.live_iff.mp hlive)
    exact ⟨records, cancelsFirst_of_cancelFirst hrecords, hwrote⟩
  notCancelled q u hnone := congrArg Prod.snd (cancelEnrollment_none (mt h.live_iff.mpr hnone))

end Agree

/-! ## Every run -/

/-- No call takes a record away from a history or takes a cancellation back. -/
theorem historyKept_commit (c : enrollmentService.Commit) (v : String) :
    HistoryKept (getEnrollmentsByIdentity v c.pre) (getEnrollmentsByIdentity v c.post) := by
  obtain ⟨pre, call, out, post, ok⟩ := c
  obtain rfl : (call.exec pre).2 = post := congrArg Prod.snd (Except.ok.inj ok)
  have hwrote {records : List EnrollmentRecord} {u q : String} {set : InsertionSet String}
      {s' : EnrollmentStore} (h : Wrote pre s' u records q set)
      (hkept : HistoryKept (byIdentity u pre) records) :
      HistoryKept (byIdentity v pre) (byIdentity v s') := by
    rw [h.byIdentity]
    split
    · case _ hv =>
      rw [hv]
      exact hkept
    · exact .refl _
  cases call with
  | enrollIdentity now q u =>
    by_cases hlive : q ∈ liveQueues (byIdentity u pre)
    · show HistoryKept _ (byIdentity v (enrollIdentity now q u pre).2)
      rw [(enrollIdentity_conflict hlive).2]
      exact .refl _
    · exact hwrote (enrollIdentity_new now hlive).2 (historyKept_append _ _)
  | cancelEnrollment q u =>
    by_cases hlive : q ∈ liveQueues (byIdentity u pre)
    · obtain ⟨records, hrecords, -, h⟩ := cancelEnrollment_live hlive
      exact hwrote h (historyKept_cancelFirst hrecords)
    · show HistoryKept _ (byIdentity v (cancelEnrollment q u pre).2)
      rw [cancelEnrollment_none hlive]
      exact .refl _

/-- From an empty adapter the two indexes agree after every run, and histories only grow. -/
theorem indexes_agree (before after : List EnrollmentCall) :
    let s := enrollmentService.run .empty before
    IndexesAgree s ∧ ∀ u, HistoryKept (getEnrollmentsByIdentity u s)
      (getEnrollmentsByIdentity u (enrollmentService.run s after)) := by
  refine ⟨(agree_run before).indexesAgree, fun u => ?_⟩
  exact Transactional.run_relation (M := enrollmentService) (I := fun _ => True)
    (R := fun s t => HistoryKept (getEnrollmentsByIdentity u s) (getEnrollmentsByIdentity u t))
    (fun _ => .refl _) .trans (fun _ => id) (fun c _ => historyKept_commit c u) trivial after

end LineProof.Backend
