import Mathlib.Algebra.BigOperators.Group.Finset.Piecewise
import LineProof.Lib.FinmapWeight
import LineProof.Enrollment.Steps

/-!
# The enrollment count

`enrollment_count` is kept beside the records and follows them through enrolling, cancelling and
overriding. Promotion adds one for every entry of the waitlist it takes, but an entry joins the waitlist
while it is enrolled, and usually still is when it is promoted. The count is exact all along a run
exactly when no promotion of the run reaches such an entry (`countExact_iff`).
-/

namespace LineProof.Enrollment

open Soroban

/-- The number of identities whose record for `q` exists and is not cancelled. -/
def Store.liveCount (s : Store) (q : Symbol) : ℕ :=
  (s.records.keys.filter fun k => k.1 = q ∧ s.isEnrolledInternal k.2 k.1 = true).card

/-- Every count is the number of live records. -/
def CountExact (s : Store) : Prop := ∀ q, s.enrollmentCount q = s.liveCount q

/-- The call is an accepted promotion that reaches an identity with a live record. -/
def PromotesEnrolled (l : Ledger Store) (i : Invocation Entrypoint) : Prop :=
  ∃ admin q count, i.entry = .promoteFromWaitlist admin q count ∧ admin ∈ i.env.authorizers ∧
    l.store.enrollmentCount q + (l.store.promotees q count).length ≤ u32Max ∧
    ∃ u ∈ l.store.promotees q count, l.store.isEnrolledInternal u q = true

variable {s s' : Store} {env : Env} {e : Entrypoint} {o : Output} {published : List Event}
  {l : Ledger Store} {q q' : Symbol} {u : Address}
  {computeProofHash : Address → Symbol → ℕ → Bytes32}

/-! ## Counting live records -/

/-- What a record counts towards the live records of `q`. -/
def liveWeight (q : Symbol) (key : RecordKey) (record : EnrollmentRecord) : ℕ :=
  if key.1 = q ∧ record.cancelled = false then 1 else 0

/-- The live records of a queue are a weight of the table of records. -/
theorem liveCount_eq_weight (s : Store) (q : Symbol) :
    s.liveCount q = s.records.weight (liveWeight q) := by
  rw [Store.liveCount, Finset.card_filter, Finmap.weight_eq_sum_keys]
  apply Finset.sum_congr rfl
  intro k hk
  obtain ⟨record, hrecord⟩ := Finmap.mem_iff.mp (Finmap.mem_keys.mp hk)
  rw [hrecord, Option.toFinset_some, Finset.sum_singleton]
  simp [hrecord, liveWeight, Store.isEnrolledInternal]

/-- Writing a record exchanges its contribution to the count. -/
theorem liveCount_setRecord (s : Store) (q : Symbol) (u : Address) (record : EnrollmentRecord)
    (q' : Symbol) :
    (s.setRecord q u record).liveCount q' +
        (if q = q' ∧ s.isEnrolledInternal u q = true then 1 else 0) =
      s.liveCount q' + if q = q' ∧ record.cancelled = false then 1 else 0 := by
  have hold : (s.records.lookup (q, u)).elim 0 (liveWeight q' (q, u)) =
      if q = q' ∧ s.isEnrolledInternal u q = true then 1 else 0 := by
    unfold Store.isEnrolledInternal
    cases s.records.lookup (q, u) <;> simp [liveWeight]
  rw [liveCount_eq_weight, liveCount_eq_weight, setRecord_records, ← hold]
  exact Finmap.weight_insert (liveWeight q') s.records (q, u) record

/-- A live record in the place of none or of a cancelled one adds one. -/
theorem liveCount_enter (new : s.isEnrolledInternal u q = false) {record : EnrollmentRecord}
    (live : record.cancelled = false) (q' : Symbol) :
    (s.setRecord q u record).liveCount q' = s.liveCount q' + if q = q' then 1 else 0 := by
  simpa [new, live] using liveCount_setRecord s q u record q'

/-- A live record in the place of a live one changes nothing. -/
theorem liveCount_replace (enrolled : s.isEnrolledInternal u q = true) {record : EnrollmentRecord}
    (live : record.cancelled = false) (q' : Symbol) :
    (s.setRecord q u record).liveCount q' = s.liveCount q' := by
  simpa [enrolled, live] using liveCount_setRecord s q u record q'

/-- A cancelled record in the place of a live one takes one away. -/
theorem liveCount_leave (enrolled : s.isEnrolledInternal u q = true) {record : EnrollmentRecord}
    (cancelled : record.cancelled = true) (q' : Symbol) :
    (s.setRecord q u record).liveCount q' + (if q = q' then 1 else 0) = s.liveCount q' := by
  simpa [enrolled, cancelled] using liveCount_setRecord s q u record q'

@[simp] theorem liveCount_setCount (s : Store) (q q' : Symbol) (count : ℕ) :
    (s.setCount q count).liveCount q' = s.liveCount q' := rfl

@[simp] theorem liveCount_setWaitlist (s : Store) (q q' : Symbol) (waitlist : List Address) :
    (s.setWaitlist q waitlist).liveCount q' = s.liveCount q' := rfl

/-! ## One call -/

/-- A cancellation takes its record out of the count, which is then positive. -/
theorem CountExact.cancel (h : CountExact s) {record : EnrollmentRecord}
    (enrolled : s.isEnrolledInternal u q = true) : CountExact (s.afterCancel q u record) := by
  have hleave (q' : Symbol) : (s.setRecord q u { record with cancelled := true }).liveCount q' +
      (if q = q' then 1 else 0) = s.liveCount q' := liveCount_leave enrolled rfl q'
  -- the cancelled record itself was counted
  have hpos : 0 < s.enrollmentCount q := by
    have hq := hleave q
    rw [if_pos rfl] at hq
    rw [h q]
    omega
  intro q'
  have hq' := hleave q'
  rw [Store.afterCancel, if_pos hpos, setCount_enrollmentCount, liveCount_setCount,
    setRecord_enrollmentCount]
  rw [← h q'] at hq'
  by_cases hq : q' = q
  · subst hq
    rw [if_pos rfl] at hq' ⊢
    omega
  · rw [if_neg (Ne.symm hq)] at hq'
    rw [if_neg hq]
    exact hq'.symm

/-- A new enrollment enters the count. -/
theorem CountExact.enroll (h : CountExact s) {record : EnrollmentRecord}
    (new : s.isEnrolledInternal u q = false) (live : record.cancelled = false) :
    CountExact ((s.setRecord q u record).setCount q (s.enrollmentCount q + 1)) := by
  intro q'
  rw [setCount_enrollmentCount, liveCount_setCount, setRecord_enrollmentCount,
    liveCount_enter new live, ← h q']
  by_cases hq : q' = q
  · subst hq
    rw [if_pos rfl, if_pos rfl]
  · rw [if_neg hq, if_neg (Ne.symm hq), add_zero]

/-- The entrypoints other than promotion keep the count exact. -/
theorem Effect.countExact (eff : Effect computeProofHash env s e o s' published)
    (hentry : ∀ admin q count, e ≠ .promoteFromWaitlist admin q count) (h : CountExact s) :
    CountExact s' := by
  cases eff with
  | read | behavior | waitlist => exact h
  | promote => exact absurd rfl (hentry _ _ _)
  | override _ _ stored live _ _ new_eq =>
    intro q'
    have hnew := congrArg EnrollmentRecord.cancelled new_eq
    have enrolled := isEnrolledInternal_eq_true.mpr ⟨_, stored, live⟩
    rw [setRecord_enrollmentCount, liveCount_replace enrolled hnew, h q']
  | enroll _ notEnrolled _ _ new_eq =>
    exact h.enroll notEnrolled (congrArg EnrollmentRecord.cancelled new_eq)
  | cancel _ stored live => exact h.cancel (isEnrolledInternal_eq_true.mpr ⟨_, stored, live⟩)
  | finalize _ stored live =>
    intro q'
    have enrolled := isEnrolledInternal_eq_true.mpr ⟨_, stored, live⟩
    refine (h q').trans (liveCount_replace enrolled ?_ q').symm
    exact live

/-! ## Promotion -/

/-- Promoting a list promotes its first identity, then the rest. -/
theorem promoteAll_cons (s : Store) (q : Symbol) (now : ℕ) (u : Address) (us : List Address) :
    s.promoteAll computeProofHash q now (u :: us) =
      (s.promoteOne computeProofHash q now u).promoteAll computeProofHash q now us := rfl

/-- Promotion adds one to the count for every identity. -/
theorem promoteAll_enrollmentCount (s : Store) (q : Symbol) (now : ℕ) (us : List Address)
    (q' : Symbol) :
    (s.promoteAll computeProofHash q now us).enrollmentCount q' =
      s.enrollmentCount q' + if q' = q then us.length else 0 := by
  induction us generalizing s with
  | nil => simp [Store.promoteAll]
  | cons u us ih =>
    rw [promoteAll_cons, ih, Store.promoteOne, setCount_enrollmentCount, setRecord_enrollmentCount]
    by_cases hq : q' = q
    · subst hq
      simp only [if_true, List.length_cons]
      omega
    · simp only [if_neg hq]

/-- A promotion enrolls nobody but the promoted identity. -/
theorem isEnrolledInternal_promoteOne {u v : Address} (now : ℕ) (h : v ≠ u) :
    (s.promoteOne computeProofHash q now u).isEnrolledInternal v q = s.isEnrolledInternal v q := by
  have hkey : (q, v) ≠ (q, u) := fun heq => h (Prod.mk.inj heq).2
  unfold Store.isEnrolledInternal
  rw [Store.promoteOne, setCount_records, setRecord_records, Finmap.lookup_insert_of_ne _ hkey]

/-- Promotion adds one live record for every identity that had none. -/
theorem promoteAll_liveCount (s : Store) (q : Symbol) (now : ℕ) {us : List Address}
    (hnodup : us.Nodup) (q' : Symbol) :
    (s.promoteAll computeProofHash q now us).liveCount q' +
        (if q = q' then us.countP fun u => s.isEnrolledInternal u q else 0) =
      s.liveCount q' + if q = q' then us.length else 0 := by
  induction us generalizing s with
  | nil => simp [Store.promoteAll]
  | cons u us ih =>
    obtain ⟨hu, hnodup⟩ := List.nodup_cons.mp hnodup
    have hone := liveCount_setRecord s q u (promotedRecord computeProofHash q now u) q'
    rw [show (promotedRecord computeProofHash q now u).cancelled = false from rfl] at hone
    have hrest := ih (s.promoteOne computeProofHash q now u) hnodup
    -- promoting `u` does not enrol the others
    have hothers : (us.countP fun v =>
        (s.promoteOne computeProofHash q now u).isEnrolledInternal v q) =
        us.countP fun v => s.isEnrolledInternal v q := by
      apply List.countP_congr
      intro v hv
      have hne : v ≠ u := fun heq => hu (heq ▸ hv)
      rw [isEnrolledInternal_promoteOne now hne]
    rw [hothers, Store.promoteOne, liveCount_setCount] at hrest
    rw [promoteAll_cons, Store.promoteOne, List.countP_cons, List.length_cons]
    by_cases hq : q = q'
    · subst hq
      simp only [true_and, if_true] at hone hrest ⊢
      omega
    · simp only [hq, false_and, if_false] at hone hrest ⊢
      omega

/-- The counter goes up by one for each promoted identity. -/
theorem afterPromote_enrollmentCount (s : Store) (q : Symbol) (count now : ℕ) (q' : Symbol) :
    (s.afterPromote computeProofHash q count now).enrollmentCount q' =
      s.enrollmentCount q' + if q' = q then (s.promotees q count).length else 0 := by
  rw [Store.afterPromote, setWaitlist_enrollmentCount, promoteAll_enrollmentCount]

/-- The live records go up by one for each promoted identity that had none. -/
theorem afterPromote_liveCount (hnodup : (s.getWaitlist q).Nodup) (count now : ℕ) (q' : Symbol) :
    (s.afterPromote computeProofHash q count now).liveCount q' +
        (if q = q' then (s.promotees q count).countP fun u => s.isEnrolledInternal u q else 0) =
      s.liveCount q' + if q = q' then (s.promotees q count).length else 0 := by
  rw [Store.afterPromote, liveCount_setWaitlist]
  exact promoteAll_liveCount s q now (hnodup.sublist (List.take_sublist count _)) q'

/-- A promotion keeps the count exact exactly when none of the promoted was enrolled. -/
theorem CountExact.promote_iff (h : CountExact s) (hnodup : (s.getWaitlist q).Nodup)
    (count now : ℕ) :
    CountExact (s.afterPromote computeProofHash q count now) ↔
      ¬ ∃ u ∈ s.promotees q count, s.isEnrolledInternal u q = true := by
  have hzero : ((s.promotees q count).countP fun u => s.isEnrolledInternal u q) = 0 ↔
      ¬ ∃ u ∈ s.promotees q count, s.isEnrolledInternal u q = true := by
    simp
  rw [← hzero]
  constructor
  · intro hafter
    have hq := hafter q
    have hlive := @afterPromote_liveCount s q computeProofHash hnodup count now q
    rw [afterPromote_enrollmentCount, h q] at hq
    simp only [if_true] at hq hlive
    omega
  · intro hnone q'
    have hlive := @afterPromote_liveCount s q computeProofHash hnodup count now q'
    rw [afterPromote_enrollmentCount, h q']
    simp only [hnone, ite_self, eq_comm (a := q)] at hlive
    omega

/-- What a promotion did, by inversion of its effect. -/
theorem Effect.of_promote {admin : Address} {count : ℕ}
    (eff : Effect computeProofHash env s (.promoteFromWaitlist admin q count) o s' published) :
    admin ∈ env.authorizers ∧
      (s.promotees q count ≠ [] → s.enrollmentCount q + (s.promotees q count).length ≤ u32Max) ∧
      s' = s.afterPromote computeProofHash q count env.timestamp := by
  cases eff with
  | read reader => exact reader.elim
  | promote auth room => exact ⟨auth, room, rfl⟩

/-- A promotion that is signed and has room goes through. -/
theorem succeeds_promote (computeProofHash : Address → Symbol → ℕ → Bytes32) {admin : Address}
    {count : ℕ} (auth : admin ∈ env.authorizers)
    (room : l.store.promotees q count ≠ [] →
      l.store.enrollmentCount q + (l.store.promotees q count).length ≤ u32Max) :
    Succeeds (exec computeProofHash (.promoteFromWaitlist admin q count)) env l :=
  (succeeds_bind_pure _).mpr ⟨_, promoteFromWaitlist_eq_ok.mpr ⟨auth, room, rfl⟩⟩

/-! ## Every run -/

/-- No waitlist holds an address twice. -/
def WaitlistsNodup (s : Store) : Prop := ∀ q, (s.getWaitlist q).Nodup

/-- No call puts an identity on a waitlist twice. -/
theorem Effect.waitlistsNodup (eff : Effect computeProofHash env s e o s' published)
    (h : WaitlistsNodup s) : WaitlistsNodup s' := by
  intro q'
  cases eff with
  | read | behavior | override | enroll | finalize => exact h q'
  | @waitlist u q _ _ _ _ absent =>
    rw [setWaitlist_getWaitlist]
    split
    · rw [← List.concat_eq_append]
      exact (h q).concat absent
    · exact h q'
  | @cancel u q record =>
    unfold Store.afterCancel
    split <;> exact h q'
  | @promote _ q count =>
    rw [Store.afterPromote, setWaitlist_getWaitlist, promoteAll_getWaitlist]
    split
    · exact (h q).sublist (List.drop_sublist count _)
    · exact h q'

/-- One call keeps the count exact exactly when it promotes nobody who is enrolled. -/
theorem countExact_next (l : Ledger Store) (i : Invocation Entrypoint)
    (hnodup : WaitlistsNodup l.store) (h : CountExact l.store) :
    CountExact ((enrollment computeProofHash).next l i).store ↔ ¬ PromotesEnrolled l i := by
  rcases (enrollment computeProofHash).commit?_cases l i with
    ⟨c, rfl, rfl, hpost, -⟩ | ⟨⟨_, hfail⟩, hpost, -⟩
  · obtain ⟨_, -, eff⟩ := effect_of_exec c.ok
    rw [hpost]
    by_cases hentry : ∃ admin q count, c.call.entry = .promoteFromWaitlist admin q count
    · obtain ⟨admin, q, count, hentry⟩ := hentry
      rw [hentry] at eff
      obtain ⟨auth, room, hafter⟩ := eff.of_promote
      rw [hafter, h.promote_iff (hnodup q), not_iff_not]
      constructor
      · intro hlive
        rcases hlive with ⟨u, hu, enrolled⟩
        exact ⟨admin, q, count, hentry, auth, room (List.ne_nil_of_mem hu), u, hu, enrolled⟩
      · intro hpromotes
        rcases hpromotes with ⟨_, _, _, heq, -, -, henrolled⟩
        obtain ⟨-, rfl, rfl⟩ := Entrypoint.promoteFromWaitlist.inj (hentry.symm.trans heq)
        exact henrolled
    · have hother : ∀ admin q count, c.call.entry ≠ .promoteFromWaitlist admin q count :=
        fun admin q count heq => hentry ⟨admin, q, count, heq⟩
      refine iff_of_true (eff.countExact hother h) ?_
      intro hpromotes
      rcases hpromotes with ⟨admin, q, count, heq, -⟩
      exact hother admin q count heq
  · rw [hpost]
    refine iff_of_true h ?_
    intro hpromotes
    rcases hpromotes with ⟨admin, q, count, hentry, auth, room, -⟩
    -- an accepted promotion would have gone through
    have hexec := succeeds_promote computeProofHash auth fun _ => room
    rw [← hentry] at hexec
    exact absurd hfail (hexec.ne_error _)

/-- A committed call keeps the waitlists free of repetitions. -/
theorem waitlistsNodup_commit (c : (enrollment computeProofHash).Commit)
    (h : WaitlistsNodup c.pre.store) : WaitlistsNodup c.post.store := by
  obtain ⟨_, -, eff⟩ := effect_of_exec c.ok
  exact eff.waitlistsNodup h

/-- The enrollment counts are exact all along a run exactly when none of its promotions reaches an
identity with a live record. -/
theorem countExact_iff (computeProofHash : Address → Symbol → ℕ → Bytes32)
    (calls : List (Invocation Entrypoint)) :
    (enrollment computeProofHash).Always (fun l => CountExact l.store) fresh calls ↔
      (enrollment computeProofHash).Along (fun l i => ¬ PromotesEnrolled l i) fresh calls := by
  refine Transactional.always_iff_along (I := fun l : Ledger Store => WaitlistsNodup l.store)
    waitlistsNodup_commit countExact_next ?_ ?_ calls
  · intro q
    exact List.nodup_nil
  · intro q
    rfl

/-- An identity that is promoted while enrolled counts twice. -/
theorem promotion_counts_twice :
    ¬ ∃ computeProofHash, ∀ calls : List (Invocation Entrypoint),
      CountExact ((enrollment computeProofHash).run fresh calls).store := by
  intro h
  rcases h with ⟨computeProofHash, h⟩
  let admin : Address := ⟨"GADMIN"⟩
  let alice : Address := ⟨"GALICE"⟩
  let contract : Address := ⟨"CENROLLMENT"⟩
  let clinic : Symbol := ⟨"clinic"⟩
  have hcount := h [⟨⟨1, [alice], contract⟩, .enroll alice clinic none⟩,
    ⟨⟨2, [admin], contract⟩, .setDuplicateBehavior admin .grantWaitingList⟩,
    ⟨⟨3, [alice], contract⟩, .enroll alice clinic none⟩,
    ⟨⟨4, [admin], contract⟩, .promoteFromWaitlist admin clinic 1⟩] clinic
  exact absurd (show 2 = 1 from hcount) (by decide)

end LineProof.Enrollment
