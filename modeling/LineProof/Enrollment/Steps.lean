import LineProof.Enrollment.Defs

/-!
# What each enrollment entrypoint does

One equivalence for each entrypoint, the closed form of the promotion loop (`promoteLoop_eq_ok`), and
`Effect` with `effect_of_exec` as for the other contracts.
-/

namespace LineProof.Enrollment

open Soroban

variable {env : Env} {l : Ledger Store} {admin u : Address} {q : Symbol} {exp : Option ℕ}
  {computeProofHash : Address → Symbol → ℕ → Bytes32}

@[simp] theorem emit_eq_ok {kind : String} {now : ℕ} {hash : Bytes32} {r : Unit × Ledger Store} :
    emit kind q u now hash env l = .ok r ↔
      ((), { l with events := l.events ++ [event kind q u now hash] }) = r :=
  publish_eq_ok

/-- A record that is loaded is the stored one. -/
@[simp] theorem loadRecord_eq_ok {r : EnrollmentRecord × Ledger Store} :
    loadRecord u q env l = .ok r ↔
      ∃ record, l.store.records.lookup (q, u) = some record ∧ (record, l) = r := by
  simp [loadRecord]

/-- An identity is enrolled with a record that is not cancelled. -/
theorem isEnrolledInternal_eq_true {s : Store} :
    s.isEnrolledInternal u q = true ↔
      ∃ record, s.records.lookup (q, u) = some record ∧ record.cancelled = false := by
  unfold Store.isEnrolledInternal
  cases s.records.lookup (q, u) <;> simp

/-- A missing waitlist has nobody on it. -/
theorem isOnWaitlist_eq (s : Store) (u : Address) (q : Symbol) :
    s.isOnWaitlist u q = (s.getWaitlist q).contains u := by
  unfold Store.isOnWaitlist Store.getWaitlist
  cases s.waitlists.lookup q <;> rfl

/-! ## Storage updates -/

/-- The storage with a new record under `(q, u)`. -/
def Store.setRecord (s : Store) (q : Symbol) (u : Address) (record : EnrollmentRecord) : Store :=
  { s with records := s.records.insert (q, u) record }

/-- The storage with a new count for `q`. -/
def Store.setCount (s : Store) (q : Symbol) (count : ℕ) : Store :=
  { s with counts := s.counts.insert q count }

/-- The storage with a new waitlist for `q`. -/
def Store.setWaitlist (s : Store) (q : Symbol) (waitlist : List Address) : Store :=
  { s with waitlists := s.waitlists.insert q waitlist }

variable (s : Store) (q q' : Symbol) (u : Address)

@[simp] theorem setRecord_records (record : EnrollmentRecord) :
    (s.setRecord q u record).records = s.records.insert (q, u) record := rfl

@[simp] theorem setRecord_enrollmentCount (record : EnrollmentRecord) :
    (s.setRecord q u record).enrollmentCount q' = s.enrollmentCount q' := rfl

@[simp] theorem setRecord_getWaitlist (record : EnrollmentRecord) :
    (s.setRecord q u record).getWaitlist q' = s.getWaitlist q' := rfl

@[simp] theorem setCount_records (count : ℕ) : (s.setCount q count).records = s.records := rfl

@[simp] theorem setCount_getWaitlist (count : ℕ) :
    (s.setCount q count).getWaitlist q' = s.getWaitlist q' := rfl

@[simp] theorem setWaitlist_enrollmentCount (waitlist : List Address) :
    (s.setWaitlist q waitlist).enrollmentCount q' = s.enrollmentCount q' := rfl

/-- A write of a counter is seen at its own queue only. -/
theorem setCount_enrollmentCount (count : ℕ) :
    (s.setCount q count).enrollmentCount q' = if q' = q then count else s.enrollmentCount q' := by
  unfold Store.setCount Store.enrollmentCount
  split
  · case _ h => rw [h, Finmap.lookup_insert, Option.getD_some]
  · case _ h => rw [Finmap.lookup_insert_of_ne _ h]

/-- A write of a waitlist is seen at its own queue only. -/
theorem setWaitlist_getWaitlist (waitlist : List Address) :
    (s.setWaitlist q waitlist).getWaitlist q' = if q' = q then waitlist else s.getWaitlist q' := by
  unfold Store.setWaitlist Store.getWaitlist
  split
  · case _ h => rw [h, Finmap.lookup_insert, Option.getD_some]
  · case _ h => rw [Finmap.lookup_insert_of_ne _ h]

variable {s q q' u}

@[simp] theorem saveRecord_eq_ok {record : EnrollmentRecord} {r : Unit × Ledger Store} :
    saveRecord u q record env l = .ok r ↔ ((), ⟨l.store.setRecord q u record, l.events⟩) = r :=
  save_eq_ok

@[simp] theorem saveCount_eq_ok {count : ℕ} {r : Unit × Ledger Store} :
    saveCount q count env l = .ok r ↔ ((), ⟨l.store.setCount q count, l.events⟩) = r :=
  save_eq_ok

@[simp] theorem saveWaitlist_eq_ok {waitlist : List Address} {r : Unit × Ledger Store} :
    saveWaitlist q waitlist env l = .ok r ↔ ((), ⟨l.store.setWaitlist q waitlist, l.events⟩) = r :=
  save_eq_ok

/-- The counter goes up by one while it fits `u32`. -/
theorem incrementCount_eq_ok {r : Unit × Ledger Store} :
    incrementCount q env l = .ok r ↔
      l.store.enrollmentCount q + 1 ≤ u32Max ∧
        r = ((), ⟨l.store.setCount q (l.store.enrollmentCount q + 1), l.events⟩) := by
  simp [incrementCount, eq_comm (a := r)]

/-! ## Enrollment -/

/-- The record `enroll` and `promote_from_waitlist` write. -/
def newRecord (hash : Bytes32) (q : Symbol) (u : Address) (now duplicateCount : ℕ)
    (expiresAt : Option ℕ) : EnrollmentRecord where
  identity := u
  queueId := q
  enrolledAt := now
  proofHash := hash
  duplicateCount := duplicateCount
  finalized := false
  expiresAt := expiresAt
  cancelled := false

/-- The proof `enroll` returns with a record. -/
def EnrollmentRecord.proof (record : EnrollmentRecord) : EnrollmentProof where
  queueId := record.queueId
  identity := record.identity
  enrolledAt := record.enrolledAt
  proofHash := record.proofHash
  expiresAt := record.expiresAt

/-- The proof `enroll` returns for a place on the waitlist. -/
def waitlistProof (q : Symbol) (u : Address) (now : ℕ) : EnrollmentProof where
  queueId := q
  identity := u
  enrolledAt := now
  proofHash := zeroHash
  expiresAt := none

/-- The duplicate count of a new enrollment: one more than that of the record it replaces. -/
def Store.nextDuplicateCount (s : Store) (q : Symbol) (u : Address) : ℕ :=
  match s.records.lookup (q, u) with
  | some record => record.duplicateCount + 1
  | none => 0

/-- Whoever is not on the waitlist joins it at its end. -/
theorem joinWaitlist_eq_ok {r : EnrollmentProof × Ledger Store} :
    joinWaitlist u q env l = .ok r ↔
      u ∉ l.store.getWaitlist q ∧
        r = (waitlistProof q u env.timestamp,
          ⟨l.store.setWaitlist q (l.store.getWaitlist q ++ [u]),
            l.events ++ [event "WaitlistAdded" q u env.timestamp zeroHash]⟩) := by
  simp [joinWaitlist, isOnWaitlist_eq, waitlistProof, eq_comm (a := r)]

/-- An override replaces an expired record by a new one and counts the duplicate. -/
theorem overrideRecord_eq_ok {r : EnrollmentProof × Ledger Store} :
    overrideRecord computeProofHash u q exp env l = .ok r ↔
      ∃ record, l.store.records.lookup (q, u) = some record ∧
        record.isExpired env.timestamp = true ∧ record.duplicateCount + 1 ≤ u32Max ∧
        r = ((newRecord (computeProofHash u q env.timestamp) q u env.timestamp
            (record.duplicateCount + 1) exp).proof,
          ⟨l.store.setRecord q u (newRecord (computeProofHash u q env.timestamp) q u env.timestamp
              (record.duplicateCount + 1) exp),
            l.events ++ [event "Enrolled" q u env.timestamp
              (computeProofHash u q env.timestamp)]⟩) := by
  simp [overrideRecord, newRecord, EnrollmentRecord.proof, eq_comm (a := r)]

/-- A new enrollment stores its record, raises the counter and publishes one event. -/
theorem enrollNew_eq_ok {r : EnrollmentProof × Ledger Store} :
    enrollNew computeProofHash u q exp env l = .ok r ↔
      l.store.nextDuplicateCount q u ≤ u32Max ∧ l.store.enrollmentCount q + 1 ≤ u32Max ∧
        r = ((newRecord (computeProofHash u q env.timestamp) q u env.timestamp
            (l.store.nextDuplicateCount q u) exp).proof,
          ⟨(l.store.setRecord q u (newRecord (computeProofHash u q env.timestamp) q u env.timestamp
              (l.store.nextDuplicateCount q u) exp)).setCount q (l.store.enrollmentCount q + 1),
            l.events ++ [event "Enrolled" q u env.timestamp
              (computeProofHash u q env.timestamp)]⟩) := by
  unfold Store.nextDuplicateCount
  cases h : l.store.records.lookup (q, u) with
  | none =>
    simp [enrollNew, h, newRecord, EnrollmentRecord.proof, incrementCount_eq_ok, eq_comm (a := r)]
  | some record =>
    simp [enrollNew, h, newRecord, EnrollmentRecord.proof, incrementCount_eq_ok, eq_comm (a := r)]

/-- A cancellation marks the caller's live record and lowers the counter if it can. -/
theorem cancel_eq_ok {r : Unit × Ledger Store} :
    cancel u q env l = .ok r ↔
      u ∈ env.authorizers ∧ ∃ record, l.store.records.lookup (q, u) = some record ∧
        record.cancelled = false ∧
        r = ((), ⟨(if 0 < l.store.enrollmentCount q then
              (l.store.setRecord q u { record with cancelled := true }).setCount q
                (l.store.enrollmentCount q - 1)
            else l.store.setRecord q u { record with cancelled := true }),
          l.events ++ [event "Cancelled" q u env.timestamp record.proofHash]⟩) := by
  by_cases hcount : 0 < l.store.enrollmentCount q
  · simp [cancel, hcount, eq_comm (a := r)]
  · simp [cancel, hcount, eq_comm (a := r)]

/-! ## Administration -/

/-- Whoever signs sets the duplicate behavior. -/
theorem setDuplicateBehavior_eq_ok {behavior : DuplicateBehavior} {r : Unit × Ledger Store} :
    setDuplicateBehavior admin behavior env l = .ok r ↔
      admin ∈ env.authorizers ∧
        r = ((), ⟨{ l.store with dupBehavior := some behavior },
          l.events ++ [⟨[.symbol ⟨"lineproof_enrollment"⟩, .symbol ⟨"DuplicateBehaviorChanged"⟩],
            behavior.data⟩]⟩) := by
  have hsupported : isBehaviorSupported behavior = true := by cases behavior <;> rfl
  simp [setDuplicateBehavior, hsupported, eq_comm (a := r)]

/-- Whoever signs makes a live record final that is not. -/
theorem finalizeEnrollment_eq_ok {r : Unit × Ledger Store} :
    finalizeEnrollment admin u q env l = .ok r ↔
      admin ∈ env.authorizers ∧ ∃ record, l.store.records.lookup (q, u) = some record ∧
        record.cancelled = false ∧ record.finalized = false ∧
        r = ((), ⟨l.store.setRecord q u { record with finalized := true },
          l.events ++ [event "Finalized" q u record.enrolledAt record.proofHash]⟩) := by
  simp [finalizeEnrollment, eq_comm (a := r)]

/-! ## Promotion -/

/-- The record of a promoted identity. -/
def promotedRecord (computeProofHash : Address → Symbol → ℕ → Bytes32) (q : Symbol) (now : ℕ)
    (u : Address) : EnrollmentRecord :=
  newRecord (computeProofHash u q now) q u now 0 none

/-- The storage after promoting one identity. -/
def Store.promoteOne (computeProofHash : Address → Symbol → ℕ → Bytes32) (q : Symbol) (now : ℕ)
    (s : Store) (u : Address) : Store :=
  (s.setRecord q u (promotedRecord computeProofHash q now u)).setCount q (s.enrollmentCount q + 1)

/-- The storage after promoting each of `us`. -/
def Store.promoteAll (computeProofHash : Address → Symbol → ℕ → Bytes32) (q : Symbol) (now : ℕ)
    (s : Store) (us : List Address) : Store :=
  us.foldl (Store.promoteOne computeProofHash q now) s

/-- The event of a promotion. -/
def promotedEvent (computeProofHash : Address → Symbol → ℕ → Bytes32) (q : Symbol) (now : ℕ)
    (u : Address) : Event :=
  event "Enrolled" q u now (computeProofHash u q now)

/-- One promotion stores a new record over whatever was there. -/
theorem promote_eq_ok {r : Unit × Ledger Store} :
    promote computeProofHash q u env l = .ok r ↔
      l.store.enrollmentCount q + 1 ≤ u32Max ∧
        r = ((), ⟨l.store.promoteOne computeProofHash q env.timestamp u,
          l.events ++ [promotedEvent computeProofHash q env.timestamp u]⟩) := by
  simp [promote, incrementCount_eq_ok, Store.promoteOne, promotedRecord, newRecord, promotedEvent,
    eq_comm (a := r)]

/-- The loop promotes the first `n` of the waitlist. Its only possible panic is the overflow of the
count. -/
theorem promoteLoop_eq_ok {n : ℕ} {waitlist : List Address} (hn : n ≤ waitlist.length)
    {r : List Address × Ledger Store} :
    promoteLoop computeProofHash q n waitlist env l = .ok r ↔
      (0 < n → l.store.enrollmentCount q + n ≤ u32Max) ∧
        r = (waitlist.drop n,
          ⟨l.store.promoteAll computeProofHash q env.timestamp (waitlist.take n),
            l.events ++ (waitlist.take n).map
              (promotedEvent computeProofHash q env.timestamp)⟩) := by
  induction n generalizing waitlist l with
  | zero => simp [promoteLoop, Store.promoteAll, eq_comm (a := r)]
  | succ n ih =>
    cases waitlist with
    | nil => simp at hn
    | cons u waitlist =>
      have hlen : n ≤ waitlist.length := by simpa using hn
      have hcount : (l.store.promoteOne computeProofHash q env.timestamp u).enrollmentCount q =
          l.store.enrollmentCount q + 1 := by
        rw [Store.promoteOne, setCount_enrollmentCount, if_pos rfl]
      rw [promoteLoop, bind_eq_ok]
      simp only [promote_eq_ok]
      constructor
      · intro h
        rcases h with ⟨_, l', ⟨hone, hl'⟩, hrest⟩
        obtain ⟨-, rfl⟩ := Prod.mk.inj hl'
        obtain ⟨hn, rfl⟩ := (ih hlen).mp hrest
        refine ⟨fun _ => by simp only [hcount] at hn; omega, ?_⟩
        simp [Store.promoteAll]
      · intro h
        rcases h with ⟨hroom, rfl⟩
        have hroom := hroom (Nat.succ_pos n)
        refine ⟨(), _, ⟨by omega, rfl⟩, (ih hlen).mpr ⟨fun _ => ?_, ?_⟩⟩
        · simp only [hcount]
          omega
        · simp [Store.promoteAll]

/-- The identities a promotion of `count` reaches. -/
def Store.promotees (s : Store) (q : Symbol) (count : ℕ) : List Address :=
  (s.getWaitlist q).take count

/-- Promotions leave the waitlists to the caller. -/
theorem promoteAll_getWaitlist (s : Store) (now : ℕ) (us : List Address) (q' : Symbol) :
    (s.promoteAll computeProofHash q now us).getWaitlist q' = s.getWaitlist q' := by
  induction us generalizing s with
  | nil => rfl
  | cons u us ih =>
    rw [Store.promoteAll, List.foldl_cons, ← Store.promoteAll, ih, Store.promoteOne,
      setCount_getWaitlist, setRecord_getWaitlist]

/-- A promotion takes the first `count` identities off the waitlist and enrolls each. -/
theorem promoteFromWaitlist_eq_ok {count : ℕ} {r : Unit × Ledger Store} :
    promoteFromWaitlist computeProofHash admin q count env l = .ok r ↔
      admin ∈ env.authorizers ∧
        (l.store.promotees q count ≠ [] →
          l.store.enrollmentCount q + (l.store.promotees q count).length ≤ u32Max) ∧
        r = ((), ⟨(l.store.promoteAll computeProofHash q env.timestamp
            (l.store.promotees q count)).setWaitlist q ((l.store.getWaitlist q).drop count),
          l.events ++ (l.store.promotees q count).map
            (promotedEvent computeProofHash q env.timestamp)⟩) := by
  have hle : min count (l.store.getWaitlist q).length ≤ (l.store.getWaitlist q).length :=
    Nat.min_le_right _ _
  have htake : (l.store.getWaitlist q).take (min count (l.store.getWaitlist q).length) =
      l.store.promotees q count := List.take_eq_take_min.symm
  have hdrop : (l.store.getWaitlist q).drop (min count (l.store.getWaitlist q).length) =
      (l.store.getWaitlist q).drop count := List.drop_eq_drop_min.symm
  have hlength : (l.store.promotees q count).length = min count (l.store.getWaitlist q).length :=
    List.length_take
  have hloop (r : List Address × Ledger Store) :
      promoteLoop computeProofHash q (min count (l.store.getWaitlist q).length)
        (l.store.getWaitlist q) env l = .ok r ↔ _ := promoteLoop_eq_ok hle
  rw [← List.length_pos_iff, hlength]
  simp only [htake, hdrop] at hloop
  simp [promoteFromWaitlist, hloop, eq_comm (a := r)]

/-! ## The kinds of change -/

/-- The entrypoints that only read. -/
def Entrypoint.IsReader : Entrypoint → Prop
  | .isEnrolled _ _ | .enrollmentRecord _ _ | .enrollmentCount _ | .isBehaviorSupported _
  | .getWaitlist _ | .waitlistPosition _ _ => True
  | _ => False

/-- The storage `cancel` leaves. -/
def Store.afterCancel (s : Store) (q : Symbol) (u : Address) (record : EnrollmentRecord) : Store :=
  if 0 < s.enrollmentCount q then
    (s.setRecord q u { record with cancelled := true }).setCount q (s.enrollmentCount q - 1)
  else s.setRecord q u { record with cancelled := true }

/-- The storage `promote_from_waitlist` leaves. -/
def Store.afterPromote (computeProofHash : Address → Symbol → ℕ → Bytes32) (s : Store) (q : Symbol)
    (count now : ℕ) : Store :=
  (s.promoteAll computeProofHash q now (s.promotees q count)).setWaitlist q
    ((s.getWaitlist q).drop count)

section Effect

variable (computeProofHash : Address → Symbol → ℕ → Bytes32) (env : Env) (s : Store)

/-- What a successful call of an entrypoint returns, leaves in storage and publishes. -/
inductive Effect : Entrypoint → Output → Store → List Event → Prop
  | read {e : Entrypoint} {o : Output} (reader : e.IsReader) : Effect e o s []
  | behavior {admin : Address} {behavior : DuplicateBehavior} (auth : admin ∈ env.authorizers) :
    Effect (.setDuplicateBehavior admin behavior) .unit { s with dupBehavior := some behavior }
      [⟨[.symbol ⟨"lineproof_enrollment"⟩, .symbol ⟨"DuplicateBehaviorChanged"⟩], behavior.data⟩]
  | waitlist {u : Address} {q : Symbol} {exp : Option ℕ} (auth : u ∈ env.authorizers)
      (enrolled : s.isEnrolledInternal u q = true)
      (behavior : s.dupBehavior.getD .reject = .grantWaitingList) (absent : u ∉ s.getWaitlist q) :
    Effect (.enroll u q exp) (.proof (waitlistProof q u env.timestamp))
      (s.setWaitlist q (s.getWaitlist q ++ [u])) [event "WaitlistAdded" q u env.timestamp zeroHash]
  | override {u : Address} {q : Symbol} {exp : Option ℕ} {old new : EnrollmentRecord}
      (auth : u ∈ env.authorizers) (behavior : s.dupBehavior.getD .reject = .overrideExpired)
      (stored : s.records.lookup (q, u) = some old) (live : old.cancelled = false)
      (expired : old.isExpired env.timestamp = true) (room : old.duplicateCount + 1 ≤ u32Max)
      (new_eq : new = newRecord (computeProofHash u q env.timestamp) q u env.timestamp
        (old.duplicateCount + 1) exp) :
    Effect (.enroll u q exp) (.proof new.proof) (s.setRecord q u new)
      [event "Enrolled" q u env.timestamp (computeProofHash u q env.timestamp)]
  | enroll {u : Address} {q : Symbol} {exp : Option ℕ} {new : EnrollmentRecord}
      (auth : u ∈ env.authorizers) (notEnrolled : s.isEnrolledInternal u q = false)
      (room : s.nextDuplicateCount q u ≤ u32Max) (countRoom : s.enrollmentCount q + 1 ≤ u32Max)
      (new_eq : new = newRecord (computeProofHash u q env.timestamp) q u env.timestamp
        (s.nextDuplicateCount q u) exp) :
    Effect (.enroll u q exp) (.proof new.proof)
      ((s.setRecord q u new).setCount q (s.enrollmentCount q + 1))
      [event "Enrolled" q u env.timestamp (computeProofHash u q env.timestamp)]
  | cancel {u : Address} {q : Symbol} {record : EnrollmentRecord} (auth : u ∈ env.authorizers)
      (stored : s.records.lookup (q, u) = some record) (live : record.cancelled = false) :
    Effect (.cancel u q) .unit (s.afterCancel q u record)
      [event "Cancelled" q u env.timestamp record.proofHash]
  | finalize {admin u : Address} {q : Symbol} {record : EnrollmentRecord}
      (auth : admin ∈ env.authorizers) (stored : s.records.lookup (q, u) = some record)
      (live : record.cancelled = false) (open_ : record.finalized = false) :
    Effect (.finalizeEnrollment admin u q) .unit
      (s.setRecord q u { record with finalized := true })
      [event "Finalized" q u record.enrolledAt record.proofHash]
  | promote {admin : Address} {q : Symbol} {count : ℕ} (auth : admin ∈ env.authorizers)
      (room : s.promotees q count ≠ [] →
        s.enrollmentCount q + (s.promotees q count).length ≤ u32Max) :
    Effect (.promoteFromWaitlist admin q count) .unit
      (s.afterPromote computeProofHash q count env.timestamp)
      ((s.promotees q count).map (promotedEvent computeProofHash q env.timestamp))

end Effect

/-- Every successful `enroll` is one of the effects: new, joined or overridden. -/
theorem effect_of_enroll {r : EnrollmentProof × Ledger Store}
    (h : enroll computeProofHash u q exp env l = .ok r) :
    ∃ published, r.2.events = l.events ++ published ∧
      Effect computeProofHash env l.store (.enroll u q exp) (.proof r.1) r.2.store published := by
  rw [enroll, bind_eq_ok] at h
  obtain ⟨_, _, hauth, h⟩ := h
  obtain ⟨auth, ⟨⟩⟩ := requireAuth_eq_ok.mp hauth
  obtain ⟨enrolled, _, hload, h⟩ := bind_eq_ok.mp h
  obtain ⟨rfl, rfl⟩ := Prod.mk.inj (load_eq_ok.mp hload)
  by_cases henrolled : l.store.isEnrolledInternal u q = true
  · rw [if_pos henrolled] at h
    obtain ⟨behavior, _, hload, h⟩ := bind_eq_ok.mp h
    obtain ⟨rfl, rfl⟩ := Prod.mk.inj (load_eq_ok.mp hload)
    cases hbehavior : l.store.dupBehavior.getD .reject with
    | reject =>
      rw [hbehavior] at h
      exact (abort_eq_ok.mp h).elim
    | grantWaitingList =>
      rw [hbehavior] at h
      obtain ⟨absent, rfl⟩ := joinWaitlist_eq_ok.mp h
      exact ⟨_, rfl, .waitlist auth henrolled hbehavior absent⟩
    | overrideExpired =>
      rw [hbehavior] at h
      obtain ⟨old, stored, expired, room, rfl⟩ := overrideRecord_eq_ok.mp h
      obtain ⟨old', stored', live⟩ := isEnrolledInternal_eq_true.mp henrolled
      obtain rfl := Option.some.inj (stored.symm.trans stored')
      exact ⟨_, rfl, .override auth hbehavior stored live expired room rfl⟩
  · rw [if_neg henrolled] at h
    obtain ⟨room, countRoom, rfl⟩ := enrollNew_eq_ok.mp h
    exact ⟨_, rfl, .enroll auth (by simpa using henrolled) room countRoom rfl⟩

/-- Every successful call has one of the effects above. -/
theorem effect_of_exec {e : Entrypoint} {o : Output} {l' : Ledger Store}
    (h : exec computeProofHash e env l = .ok (o, l')) :
    ∃ published, l'.events = l.events ++ published ∧
      Effect computeProofHash env l.store e o l'.store published := by
  cases e with
  | enroll u q exp =>
    simp only [exec, bind_eq_ok, pure_eq_ok] at h
    obtain ⟨_, _, henroll, ⟨⟩⟩ := h
    exact effect_of_enroll henroll
  | cancel u q =>
    simp only [exec, bind_eq_ok, cancel_eq_ok, pure_eq_ok] at h
    obtain ⟨_, _, ⟨auth, record, stored, live, ⟨⟩⟩, ⟨⟩⟩ := h
    exact ⟨_, rfl, .cancel auth stored live⟩
  | setDuplicateBehavior admin behavior =>
    simp only [exec, bind_eq_ok, setDuplicateBehavior_eq_ok, pure_eq_ok] at h
    obtain ⟨_, _, ⟨auth, ⟨⟩⟩, ⟨⟩⟩ := h
    exact ⟨_, rfl, .behavior auth⟩
  | finalizeEnrollment admin u q =>
    simp only [exec, bind_eq_ok, finalizeEnrollment_eq_ok, pure_eq_ok] at h
    obtain ⟨_, _, ⟨auth, record, stored, live, hfinal, ⟨⟩⟩, ⟨⟩⟩ := h
    exact ⟨_, rfl, .finalize auth stored live hfinal⟩
  | promoteFromWaitlist admin q count =>
    simp only [exec, bind_eq_ok, promoteFromWaitlist_eq_ok, pure_eq_ok] at h
    obtain ⟨_, _, ⟨auth, room, ⟨⟩⟩, ⟨⟩⟩ := h
    exact ⟨_, rfl, .promote auth room⟩
  | isEnrolled | enrollmentRecord | enrollmentCount | getWaitlist | waitlistPosition =>
    simp only [exec, bind_eq_ok, load_eq_ok, pure_eq_ok] at h
    obtain ⟨_, _, ⟨⟩, ⟨⟩⟩ := h
    exact ⟨[], (List.append_nil _).symm, .read trivial⟩
  | isBehaviorSupported =>
    obtain ⟨⟩ := pure_eq_ok.mp h
    exact ⟨[], (List.append_nil _).symm, .read trivial⟩

end LineProof.Enrollment
