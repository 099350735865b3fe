import LineProof.Backend.EnrollmentIndex
import LineProof.Enrollment.Replay

/-!
# The enrollment service and the enrollment contract

The service keeps a list of records for each identity and appends to it, the contract keeps one record for
each queue and identity and replaces it. Fed with the same enrollments and cancellations, while nobody
changes what the contract does with a duplicate, both accept the same calls, enroll the same identities and
count them alike, and the duplicate count of the contract is the number of records of the service
(`enrollments_agree`).
-/

namespace LineProof.Backend

open Soroban

/-- The entrypoints of the contract that the service has no call for, without the one that changes what a
duplicate does. -/
def AdministersOnly : Enrollment.Entrypoint → Prop
  | .enroll _ _ _ | .cancel _ _ | .setDuplicateBehavior _ _ => False
  | _ => True

/-- An identity enrolls or cancels on both sides, or somebody calls the contract alone. -/
inductive EnrollmentStep
  | enroll (timestamp : ℕ) (now : String) (identity : Address) (queueId : Symbol) (expiresAt : Option ℕ)
  | cancel (timestamp : ℕ) (identity : Address) (queueId : Symbol)
  | contract (env : Env) (entry : Enrollment.Entrypoint) (outside : AdministersOnly entry)

/-- What the step asks of the service. -/
def EnrollmentStep.service : EnrollmentStep → List EnrollmentCall
  | .enroll _ now identity queueId _ => [.enrollIdentity now queueId.str identity.strkey]
  | .cancel _ identity queueId => [.cancelEnrollment queueId.str identity.strkey]
  | .contract _ _ _ => []

/-- What the step asks of the contract. -/
def EnrollmentStep.invocation (contract : Address) : EnrollmentStep → Invocation Enrollment.Entrypoint
  | .enroll timestamp _ identity queueId expiresAt =>
    ⟨⟨timestamp, [identity], contract⟩, .enroll identity queueId expiresAt⟩
  | .cancel timestamp identity queueId =>
    ⟨⟨timestamp, [identity], contract⟩, .cancel identity queueId⟩
  | .contract env entry _ => ⟨env, entry⟩

section

variable (computeProofHash : Address → Symbol → ℕ → Bytes32)

/-- What the two sides share in the states `s` and `l`. -/
structure EnrollmentsAgree (s : EnrollmentStore) (l : Ledger Enrollment.Store) : Prop where
  /-- The service reports a conflict exactly where the contract panics. -/
  enroll : ∀ (env : Env) now q (u : Address) exp, u ∈ env.authorizers →
    ((enrollIdentity now q.str u.strkey s).1.conflict = false ↔
      Succeeds (Enrollment.exec computeProofHash (.enroll u q exp)) env l)
  cancel : ∀ (env : Env) q (u : Address), u ∈ env.authorizers →
    ((cancelEnrollment q.str u.strkey s).1 = true ↔
      Succeeds (Enrollment.exec computeProofHash (.cancel u q)) env l)
  live : ∀ q u, s.Live q.str u.strkey ↔ l.store.isEnrolledInternal u q = true
  count : ∀ q, (getEnrollmentsByQueue q.str s).length = l.store.enrollmentCount q
  /-- A record of the contract counts the records of the service, except the first. -/
  duplicates : ∀ q u,
    ((getEnrollmentsByIdentity u.strkey s).filter (·.queueId = q.str)).length =
      l.store.nextDuplicateCount q u

end

variable {computeProofHash : Address → Symbol → ℕ → Bytes32} {s s' : EnrollmentStore}
  {l : Ledger Enrollment.Store} {t t' : Enrollment.Store} {env : Env} {u : Address} {q : Symbol} {n : ℕ}

/-! ## The records of one queue -/

/-- The number of records for `q`, cancelled or not. -/
def countFor (q : String) (records : List EnrollmentRecord) : ℕ :=
  (records.filter (·.queueId = q)).length

/-- The records of a queue are counted by their queue ids. -/
theorem countFor_eq (q : String) (records : List EnrollmentRecord) :
    countFor q records = (records.map (·.queueId)).count q := by
  rw [countFor, List.count, List.countP_map, List.countP_eq_length_filter]
  congr 1

/-- A new record counts for its own queue. -/
theorem countFor_new (records : List EnrollmentRecord) (now p q u : String) :
    countFor p (records ++ [newRecord now q u]) = countFor p records + if p = q then 1 else 0 := by
  rw [countFor_eq, countFor_eq, List.map_append, List.count_append, List.map_singleton,
    List.count_singleton]
  by_cases hp : p = q
  · simp [newRecord, hp]
  · simp [newRecord, hp, Ne.symm hp]

/-- Cancelling a record changes no queue. -/
theorem countFor_cancelFirst {q : String} {records records' : List EnrollmentRecord}
    (h : cancelFirst q records = some records') (p : String) :
    countFor p records' = countFor p records := by
  have hqueues : records'.map (·.queueId) = records.map (·.queueId) := by
    induction records generalizing records' with
    | nil => simp [cancelFirst] at h
    | cons record rest ih =>
      rw [cancelFirst] at h
      split at h
      · obtain rfl := Option.some.inj h
        rfl
      · obtain ⟨rest', hrest, rfl⟩ := Option.map_eq_some_iff.mp h
        rw [List.map_cons, List.map_cons, ih hrest]
  rw [countFor_eq, countFor_eq, hqueues]

/-! ## The invariant -/

/-- The two sides after `n` steps. -/
structure InStep (n : ℕ) (s : EnrollmentStore) (t : Enrollment.Store) : Prop where
  agree : Agree s
  live : ∀ q u, q.str ∈ liveQueues (byIdentity u.strkey s) ↔ t.isEnrolledInternal u q = true
  count : ∀ q, (members q.str s).size = t.enrollmentCount q
  duplicates : ∀ q u, countFor q.str (byIdentity u.strkey s) = t.nextDuplicateCount q u
  rejects : t.dupBehavior.getD .reject = .reject
  /-- Nobody waits, since no duplicate has been granted a place. -/
  waitlist : ∀ q, t.getWaitlist q = []
  room : (∀ q, t.enrollmentCount q ≤ n) ∧ ∀ q u, t.nextDuplicateCount q u ≤ n

/-- Nobody is enrolled on either side at the start. -/
theorem inStep_start : InStep 0 .empty Enrollment.fresh.store where
  agree := agree_run []
  live _ _ := by simp [byIdentity, EnrollmentStore.empty, liveQueues, Enrollment.fresh,
    Enrollment.Store.isEnrolledInternal]
  count _ := rfl
  duplicates _ _ := rfl
  rejects := rfl
  waitlist _ := rfl
  room := ⟨fun _ => le_rfl, fun _ _ => le_rfl⟩

/-- The bound on the number of steps may be raised. -/
theorem InStep.later (h : InStep n s t) : InStep (n + 1) s t :=
  { h with room := ⟨fun q => (h.room.1 q).trans n.le_succ, fun q u => (h.room.2 q u).trans n.le_succ⟩ }

/-- Who is enrolled depends on one record of the contract only. -/
theorem isEnrolledInternal_congr (h : t'.records.lookup (q, u) = t.records.lookup (q, u)) :
    t'.isEnrolledInternal u q = t.isEnrolledInternal u q := by
  rw [Enrollment.Store.isEnrolledInternal, h, Enrollment.Store.isEnrolledInternal]

/-- The next duplicate count depends on one record of the contract only. -/
theorem nextDuplicateCount_congr (h : t'.records.lookup (q, u) = t.records.lookup (q, u)) :
    t'.nextDuplicateCount q u = t.nextDuplicateCount q u := by
  rw [Enrollment.Store.nextDuplicateCount, h, Enrollment.Store.nextDuplicateCount]

/-- A stored record is live unless it is cancelled. -/
theorem isEnrolledInternal_of_lookup {record : Enrollment.EnrollmentRecord}
    (h : t.records.lookup (q, u) = some record) : t.isEnrolledInternal u q = !record.cancelled := by
  rw [Enrollment.Store.isEnrolledInternal, h]

/-- A stored record counts as one duplicate more. -/
theorem nextDuplicateCount_of_lookup {record : Enrollment.EnrollmentRecord}
    (h : t.records.lookup (q, u) = some record) :
    t.nextDuplicateCount q u = record.duplicateCount + 1 := by
  rw [Enrollment.Store.nextDuplicateCount, h]

/-- What a step writes on the side of the contract. -/
structure WroteRecord (t t' : Enrollment.Store) (q : Symbol) (u : Address)
    (record : Enrollment.EnrollmentRecord) (count : ℕ) : Prop where
  lookup : ∀ k, t'.records.lookup k = if k = (q, u) then some record else t.records.lookup k
  count : ∀ p, t'.enrollmentCount p = if p = q then count else t.enrollmentCount p
  waitlist : ∀ p, t'.getWaitlist p = t.getWaitlist p
  dupBehavior : t'.dupBehavior = t.dupBehavior

/-- A write of the records of `u` and the set of `q` goes with the write of the record of both. -/
theorem InStep.wrote (h : InStep n s t) (agree : Agree s') {records : List EnrollmentRecord}
    {set : InsertionSet String} {record : Enrollment.EnrollmentRecord}
    (hservice : Wrote s s' u.strkey records q.str set) (hcontract : WroteRecord t t' q u record set.size)
    (live : q.str ∈ liveQueues records ↔ record.cancelled = false)
    (others : ∀ p, p ≠ q.str → (p ∈ liveQueues records ↔ p ∈ liveQueues (byIdentity u.strkey s)))
    (count : countFor q.str records = record.duplicateCount + 1)
    (counts : ∀ p, p ≠ q.str → countFor p records = countFor p (byIdentity u.strkey s))
    (room : set.size ≤ n + 1) (room' : record.duplicateCount ≤ n) : InStep (n + 1) s' t' where
  agree := agree
  live p v := by
    rw [hservice.byIdentity]
    by_cases hv : v = u
    · subst hv
      rw [if_pos rfl]
      by_cases hp : p = q
      · subst hp
        rw [live, isEnrolledInternal_of_lookup ((hcontract.lookup _).trans (if_pos rfl)), Bool.not_eq_true']
      · rw [others _ (mt Symbol.str_inj hp), h.live,
          isEnrolledInternal_congr ((hcontract.lookup _).trans (if_neg (by simp [hp])))]
    · rw [if_neg (mt Address.strkey_inj hv), h.live,
        isEnrolledInternal_congr ((hcontract.lookup _).trans (if_neg (by simp [hv])))]
  count p := by
    rw [hservice.members, hcontract.count]
    by_cases hp : p = q
    · rw [hp, if_pos rfl, if_pos rfl]
    · rw [if_neg (mt Symbol.str_inj hp), if_neg hp, h.count]
  duplicates p v := by
    rw [hservice.byIdentity]
    by_cases hv : v = u
    · subst hv
      rw [if_pos rfl]
      by_cases hp : p = q
      · subst hp
        rw [count, nextDuplicateCount_of_lookup ((hcontract.lookup _).trans (if_pos rfl))]
      · rw [counts _ (mt Symbol.str_inj hp), h.duplicates,
          nextDuplicateCount_congr ((hcontract.lookup _).trans (if_neg (by simp [hp])))]
    · rw [if_neg (mt Address.strkey_inj hv), h.duplicates,
        nextDuplicateCount_congr ((hcontract.lookup _).trans (if_neg (by simp [hv])))]
  rejects := by
    rw [hcontract.dupBehavior]
    exact h.rejects
  waitlist p := (hcontract.waitlist p).trans (h.waitlist p)
  room := by
    constructor
    · intro p
      rw [hcontract.count]
      have hp := h.room.1 p
      split <;> omega
    · intro p v
      by_cases hk : (p, v) = (q, u)
      · rw [nextDuplicateCount_of_lookup ((hcontract.lookup _).trans (if_pos hk))]
        omega
      · rw [nextDuplicateCount_congr ((hcontract.lookup _).trans (if_neg hk))]
        exact (h.room.2 p v).trans n.le_succ

/-! ## One step -/

/-- The service's index of a queue has whom the contract has enrolled. -/
theorem InStep.mem_members (h : InStep n s t) :
    u.strkey ∈ members q.str s ↔ t.isEnrolledInternal u q = true :=
  (h.agree.index _ _).trans (h.live q u)

variable (computeProofHash) in
/-- A new enrollment of the contract. -/
theorem enroll_of_new (auth : u ∈ env.authorizers) (new : l.store.isEnrolledInternal u q = false)
    (room : l.store.nextDuplicateCount q u ≤ u32Max) (room' : l.store.enrollmentCount q + 1 ≤ u32Max)
    (exp : Option ℕ) :
    ∃ o l', Enrollment.exec computeProofHash (.enroll u q exp) env l = .ok (o, l') ∧
      WroteRecord l.store l'.store q u (Enrollment.newRecord (computeProofHash u q env.timestamp) q u
        env.timestamp (l.store.nextDuplicateCount q u) exp) (l.store.enrollmentCount q + 1) := by
  have henroll : Enrollment.enrollNew computeProofHash u q exp env l = .ok _ :=
    Enrollment.enrollNew_eq_ok.mpr ⟨room, room', rfl⟩
  have hexec {r : Enrollment.EnrollmentProof × Ledger Enrollment.Store}
      (hr : Enrollment.enrollNew computeProofHash u q exp env l = .ok r) :
      Enrollment.enroll computeProofHash u q exp env l = .ok r := by
    refine bind_eq_ok.mpr ⟨(), l, requireAuth_eq_ok.mpr ⟨auth, rfl⟩,
      bind_eq_ok.mpr ⟨_, l, load_eq_ok.mpr rfl, ?_⟩⟩
    rw [new, if_neg Bool.false_ne_true]
    exact hr
  refine ⟨_, _, bind_pure_eq_ok.mpr ⟨_, hexec henroll, rfl⟩, ?_, ?_, fun _ => rfl, rfl⟩
  · intro k
    exact Enrollment.setRecord_lookup _ _ _ _ k
  · intro p
    rw [Enrollment.setCount_enrollmentCount, Enrollment.setRecord_enrollmentCount]

variable (computeProofHash) in
/-- A cancellation of the contract. -/
theorem cancel_of_stored {record : Enrollment.EnrollmentRecord} (auth : u ∈ env.authorizers)
    (stored : l.store.records.lookup (q, u) = some record) (live : record.cancelled = false) :
    ∃ o l', Enrollment.exec computeProofHash (.cancel u q) env l = .ok (o, l') ∧
      WroteRecord l.store l'.store q u { record with cancelled := true }
        (l.store.enrollmentCount q - 1) := by
  have hcancel : Enrollment.cancel u q env l = .ok _ :=
    Enrollment.cancel_eq_ok.mpr ⟨auth, record, stored, live, rfl⟩
  refine ⟨_, _, bind_pure_eq_ok.mpr ⟨_, hcancel, rfl⟩, ?_⟩
  show WroteRecord l.store (l.store.afterCancel q u record) q u _ _
  refine ⟨Enrollment.afterCancel_lookup, fun p => ?_, fun p => Enrollment.afterCancel_getWaitlist record, ?_⟩
  · rw [Enrollment.enrollmentCount_afterCancel, Function.update_apply]
  · unfold Enrollment.Store.afterCancel
    split <;> rfl

section

variable (computeProofHash env)

/-- The contract rejects a second enrollment while it is set to reject. -/
theorem not_succeeds_enroll (rejects : l.store.dupBehavior.getD .reject = .reject)
    (enrolled : l.store.isEnrolledInternal u q = true) (exp : Option ℕ) :
    ¬ Succeeds (Enrollment.exec computeProofHash (.enroll u q exp)) env l := by
  rintro ⟨⟨o, l'⟩, hexec⟩
  obtain ⟨_, -, eff⟩ := Enrollment.effect_of_exec hexec
  generalize l'.store = t' at eff
  cases eff with
  | read reader => exact reader
  | waitlist _ _ behavior => exact absurd (rejects.symm.trans behavior) nofun
  | override _ behavior => exact absurd (rejects.symm.trans behavior) nofun
  | enroll _ new => exact absurd (new.symm.trans enrolled) nofun

/-- The contract rejects the cancellation of an identity that is not enrolled. -/
theorem not_succeeds_cancel (new : l.store.isEnrolledInternal u q = false) :
    ¬ Succeeds (Enrollment.exec computeProofHash (.cancel u q)) env l := by
  rintro ⟨⟨o, l'⟩, hexec⟩
  obtain ⟨_, -, eff⟩ := Enrollment.effect_of_exec hexec
  generalize l'.store = t' at eff
  cases eff with
  | read reader => exact reader
  | cancel _ stored live =>
    have enrolled := Enrollment.isEnrolledInternal_eq_true.mpr ⟨_, stored, live⟩
    exact absurd (new.symm.trans enrolled) nofun

end

/-- A call that panics leaves the contract alone. -/
theorem next_of_not_succeeds {i : Invocation Enrollment.Entrypoint}
    (h : ¬ Succeeds (Enrollment.exec computeProofHash i.entry) i.env l) :
    (Enrollment.enrollment computeProofHash).next l i = l := by
  rcases (Enrollment.enrollment computeProofHash).commit?_cases l i with ⟨c, rfl, rfl, -, -⟩ | ⟨-, hnext, -⟩
  · exact absurd ⟨_, c.ok⟩ h
  · exact hnext

/-- An enrollment on both sides keeps them in step. -/
theorem InStep.enroll (h : InStep n s l.store) (hn : n < u32Max) (auth : u ∈ env.authorizers)
    (now : String) (exp : Option ℕ) :
    InStep (n + 1) (enrollmentService.next s (.enrollIdentity now q.str u.strkey))
      ((Enrollment.enrollment computeProofHash).next l ⟨env, .enroll u q exp⟩).store := by
  show InStep (n + 1) (enrollIdentity now q.str u.strkey s).2 _
  by_cases hlive : q.str ∈ liveQueues (byIdentity u.strkey s)
  · have hfails := not_succeeds_enroll computeProofHash env h.rejects ((h.live q u).mp hlive) exp
    rw [(enrollIdentity_conflict hlive).2, next_of_not_succeeds hfails]
    exact h.later
  · have hnew : l.store.isEnrolledInternal u q = false := Bool.eq_false_iff.mpr (mt (h.live q u).mpr hlive)
    have hcount : l.store.enrollmentCount q ≤ n := h.room.1 q
    have hduplicates : l.store.nextDuplicateCount q u ≤ n := h.room.2 q u
    obtain ⟨o, l', hexec, hcontract⟩ :=
      enroll_of_new computeProofHash auth hnew (by omega) (by omega) exp
    have hnext : (Enrollment.enrollment computeProofHash).next l ⟨env, .enroll u q exp⟩ = l' :=
      Transactional.next_of_ok hexec
    have hsize : ((members q.str s).add u.strkey).size = l.store.enrollmentCount q + 1 := by
      rw [InsertionSet.size_add (mt h.mem_members.mp (by simp [hnew])), h.count]
    rw [hnext]
    refine h.wrote (h.agree.enroll now q.str u.strkey) (enrollIdentity_new now hlive).2
      (hsize ▸ hcontract) ?_ ?_ ?_ ?_ (by omega) hduplicates
    · simp [liveQueues_new, Enrollment.newRecord]
    · intro p hp
      simp [liveQueues_new, hp]
    · rw [countFor_new, if_pos rfl, h.duplicates]
      rfl
    · intro p hp
      rw [countFor_new, if_neg hp, add_zero]

/-- A cancellation on both sides keeps them in step. -/
theorem InStep.cancel (h : InStep n s l.store) (auth : u ∈ env.authorizers) :
    InStep (n + 1) (enrollmentService.next s (.cancelEnrollment q.str u.strkey))
      ((Enrollment.enrollment computeProofHash).next l ⟨env, .cancel u q⟩).store := by
  show InStep (n + 1) (cancelEnrollment q.str u.strkey s).2 _
  by_cases hlive : q.str ∈ liveQueues (byIdentity u.strkey s)
  · obtain ⟨records, hrecords, -, hservice⟩ := cancelEnrollment_live hlive
    obtain ⟨record, hstored, hcancelled⟩ :=
      Enrollment.isEnrolledInternal_eq_true.mp ((h.live q u).mp hlive)
    obtain ⟨o, l', hexec, hcontract⟩ := cancel_of_stored computeProofHash auth hstored hcancelled
    have hnext : (Enrollment.enrollment computeProofHash).next l ⟨env, .cancel u q⟩ = l' :=
      Transactional.next_of_ok hexec
    have hsize : ((members q.str s).delete u.strkey).size = l.store.enrollmentCount q - 1 := by
      rw [InsertionSet.size_delete (h.mem_members.mpr ((h.live q u).mp hlive)), h.count]
    have hqueues := liveQueues_cancelFirst hrecords
    have hnodup := h.agree.nodup u.strkey
    have hcount : l.store.enrollmentCount q ≤ n := h.room.1 q
    have hduplicates : record.duplicateCount + 1 ≤ n := by
      rw [← nextDuplicateCount_of_lookup hstored]
      exact h.room.2 q u
    rw [← hsize] at hcontract
    rw [hnext]
    refine h.wrote (h.agree.cancel q.str u.strkey) hservice hcontract ?_ ?_ ?_ ?_ (by omega)
      (show record.duplicateCount ≤ n by omega)
    · simp [hqueues, hnodup.mem_erase_iff]
    · intro p hp
      rw [hqueues, hnodup.mem_erase_iff]
      exact and_iff_right hp
    · rw [countFor_cancelFirst hrecords, h.duplicates, nextDuplicateCount_of_lookup hstored]
    · intro p _
      exact countFor_cancelFirst hrecords p
  · have hnew : l.store.isEnrolledInternal u q = false := Bool.eq_false_iff.mpr (mt (h.live q u).mpr hlive)
    have hfails := not_succeeds_cancel computeProofHash env hnew
    rw [cancelEnrollment_none hlive, next_of_not_succeeds hfails]
    exact h.later

/-- A call outside the service keeps everything the two sides are compared by. -/
theorem InStep.contract (h : InStep n s l.store) {entry : Enrollment.Entrypoint}
    (outside : AdministersOnly entry) (env : Env) :
    InStep (n + 1) s ((Enrollment.enrollment computeProofHash).next l ⟨env, entry⟩).store := by
  rcases (Enrollment.enrollment computeProofHash).commit?_cases l ⟨env, entry⟩ with
    ⟨c, hpre, hcall, hnext, -⟩ | ⟨-, hnext, -⟩
  · rw [hnext]
    obtain ⟨_, -, eff⟩ := Enrollment.effect_of_exec c.ok
    rw [hcall, hpre] at eff
    generalize c.post.store = t' at eff ⊢
    generalize c.out = o at eff
    have hsame := h.later
    cases eff with
    | read => exact hsame
    | behavior | waitlist | override | enroll | cancel => exact outside.elim
    | @finalize _ v p record _ stored =>
      -- the record changes its lock only
      have hlookup (k : Enrollment.RecordKey) :=
        Enrollment.setRecord_lookup l.store p v { record with finalized := true } k
      exact
        { hsame with
          live := by
            intro q u
            rw [hsame.live]
            by_cases hk : (q, u) = (p, v)
            · cases hk
              rw [isEnrolledInternal_of_lookup stored,
                isEnrolledInternal_of_lookup ((hlookup _).trans (if_pos rfl))]
            · rw [isEnrolledInternal_congr ((hlookup _).trans (if_neg hk))]
          duplicates := by
            intro q u
            rw [hsame.duplicates]
            by_cases hk : (q, u) = (p, v)
            · cases hk
              rw [nextDuplicateCount_of_lookup stored,
                nextDuplicateCount_of_lookup ((hlookup _).trans (if_pos rfl))]
            · rw [nextDuplicateCount_congr ((hlookup _).trans (if_neg hk))]
          room := by
            refine ⟨hsame.room.1, fun q u => ?_⟩
            by_cases hk : (q, u) = (p, v)
            · cases hk
              rw [nextDuplicateCount_of_lookup ((hlookup _).trans (if_pos rfl)),
                ← nextDuplicateCount_of_lookup stored]
              exact hsame.room.2 p v
            · rw [nextDuplicateCount_congr ((hlookup _).trans (if_neg hk))]
              exact hsame.room.2 q u }
    | @promote _ p count =>
      -- nobody waits, so the promotion reaches nobody
      have hnobody : l.store.promotees p count = [] := by
        rw [Enrollment.Store.promotees, h.waitlist, List.take_nil]
      have hafter : l.store.afterPromote computeProofHash p count env.timestamp =
          l.store.setWaitlist p [] := by
        rw [Enrollment.Store.afterPromote, hnobody, h.waitlist, List.drop_nil]
        rfl
      rw [hafter]
      refine { hsame with waitlist := fun q => ?_ }
      rw [Enrollment.setWaitlist_getWaitlist]
      split
      · rfl
      · exact h.waitlist q
  · rw [hnext]
    exact h.later

/-! ## Every run -/

/-- The service after the steps. -/
def enrolledBy (steps : List EnrollmentStep) : EnrollmentStore :=
  enrollmentService.run .empty (steps.flatMap (·.service))

/-- The contract after the steps. -/
def enrolledOnChain (computeProofHash : Address → Symbol → ℕ → Bytes32) (contract : Address)
    (steps : List EnrollmentStep) : Ledger Enrollment.Store :=
  (Enrollment.enrollment computeProofHash).run Enrollment.fresh (steps.map (·.invocation contract))

/-- The two sides are in step after every run. -/
theorem inStep_run (contract : Address) {steps : List EnrollmentStep} (hlength : steps.length < u32Max) :
    InStep steps.length (enrolledBy steps) (enrolledOnChain computeProofHash contract steps).store := by
  induction steps using List.reverseRecOn with
  | nil => exact inStep_start
  | append_singleton steps step ih =>
    rw [List.length_append, List.length_singleton] at hlength ⊢
    have hbefore := ih (by omega)
    rw [enrolledBy, enrolledOnChain, List.flatMap_append, List.map_append, List.flatMap_singleton,
      List.map_singleton, Transactional.run_append, Transactional.run_concat]
    cases step with
    | enroll timestamp now u q exp =>
      exact hbefore.enroll (by omega) (List.mem_singleton_self u) now exp
    | cancel timestamp u q => exact hbefore.cancel (List.mem_singleton_self u)
    | contract env entry outside => exact hbefore.contract outside env

/-- Two sides that are in step answer the same. -/
theorem InStep.enrollmentsAgree (h : InStep n s l.store) (hn : n < u32Max) :
    EnrollmentsAgree computeProofHash s l where
  enroll env now q u exp auth := by
    have hconflict := h.agree.conflict_iff now q.str u.strkey
    rw [h.agree.live_iff, h.live] at hconflict
    constructor
    · intro hnone
      have hnew : l.store.isEnrolledInternal u q = false := by
        rw [Bool.eq_false_iff, Ne, ← hconflict, hnone]
        exact Bool.false_ne_true
      have hcount : l.store.enrollmentCount q ≤ n := h.room.1 q
      have hduplicates : l.store.nextDuplicateCount q u ≤ n := h.room.2 q u
      obtain ⟨o, l', hexec, -⟩ := enroll_of_new computeProofHash auth hnew (by omega) (by omega) exp
      exact ⟨_, hexec⟩
    · intro hsucceeds
      rw [Bool.eq_false_iff, Ne, hconflict]
      intro enrolled
      exact not_succeeds_enroll computeProofHash env h.rejects enrolled exp hsucceeds
  cancel env q u auth := by
    rw [h.agree.cancel_iff, h.agree.live_iff, h.live]
    constructor
    · intro enrolled
      obtain ⟨record, hstored, hlive⟩ := Enrollment.isEnrolledInternal_eq_true.mp enrolled
      obtain ⟨o, l', hexec, -⟩ := cancel_of_stored computeProofHash auth hstored hlive
      exact ⟨_, hexec⟩
    · intro hsucceeds
      by_contra hnew
      exact not_succeeds_cancel computeProofHash env (Bool.eq_false_iff.mpr hnew) hsucceeds
  live q u := h.agree.live_iff.trans (h.live q u)
  count q := by
    rw [← h.count, ← List.length_map (·.identity), h.agree.map_identity_byQueue]
    rfl
  duplicates := h.duplicates

/-- After every sequence of fewer than `u32::MAX` steps the service and the contract agree. -/
theorem enrollments_agree (computeProofHash : Address → Symbol → ℕ → Bytes32) (contract : Address)
    (steps : List EnrollmentStep) (hlength : steps.length < u32Max) :
    EnrollmentsAgree computeProofHash (enrolledBy steps)
      (enrolledOnChain computeProofHash contract steps) :=
  (inStep_run contract hlength).enrollmentsAgree hlength

/-- Alice enrolls, tries it again, cancels and comes back. -/
theorem enrollments_agree_return :
    let steps : List EnrollmentStep :=
      [.enroll 1 "2026-01-01T00:00:00.000Z" ⟨"GALICE"⟩ ⟨"clinic"⟩ none,
        .enroll 2 "2026-01-02T00:00:00.000Z" ⟨"GALICE"⟩ ⟨"clinic"⟩ none,
        .cancel 3 ⟨"GALICE"⟩ ⟨"clinic"⟩,
        .enroll 4 "2026-01-03T00:00:00.000Z" ⟨"GALICE"⟩ ⟨"clinic"⟩ none]
    EnrollmentsAgree (fun _ _ _ => Enrollment.zeroHash) (enrolledBy steps)
      (enrolledOnChain (fun _ _ _ => Enrollment.zeroHash) ⟨"CENROLLMENT"⟩ steps) :=
  enrollments_agree _ _ _ (by decide)

end LineProof.Backend
