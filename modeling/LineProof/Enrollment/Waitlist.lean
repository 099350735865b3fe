import LineProof.Enrollment.Count

/-!
# The waitlist

A waitlist is first in, first out. Joining appends the caller, and promotion takes a prefix: so the
identities promoted so far, followed by those still waiting, are the identities announced by
`WaitlistAdded`, in order (`history_effect` for one call, `waitlist_fifo` for every run).
-/

namespace LineProof.Enrollment

open Soroban

/-- The identity of an event of the given kind for `q`. -/
def subject (kind : String) (q : Symbol) : Event → Option Address
  | ⟨[_, .symbol k, .symbol queueId], .tuple (.address u :: _)⟩ =>
    if k.str = kind ∧ queueId = q then some u else none
  | _ => none

/-- The identities announced for the waitlist of `q`. -/
def waitlisted (q : Symbol) (events : List Event) : List Address :=
  events.filterMap (subject "WaitlistAdded" q)

/-- The identities a call promotes from the waitlist of `q`: those its `Enrolled` events name. -/
def promotedBy (q : Symbol) (e : Entrypoint) (events : List Event) : List Address :=
  match e with
  | .promoteFromWaitlist _ queueId _ =>
    if queueId = q then events.filterMap (subject "Enrolled" q) else []
  | _ => []

variable (computeProofHash : Address → Symbol → ℕ → Bytes32)

/-- The identities promoted from the waitlist of `q` so far. -/
def promoted (q : Symbol) (past : List (enrollment computeProofHash).Commit) : List Address :=
  past.flatMap fun c => promotedBy q c.call.entry (published c)

/-- What a promotion of `count` entries of `q` does: it removes and enrols `us`, the first
`min(count, length)` of the waitlist, and touches no other record and no other waitlist. -/
structure PromotesFirst (q : Symbol) (count : ℕ) (us : List Address) (now : ℕ) (s t : Store) :
    Prop where
  first : us = (s.getWaitlist q).take (min count (s.getWaitlist q).length)
  removed : t.getWaitlist q = (s.getWaitlist q).drop (min count (s.getWaitlist q).length)
  enrolled : ∀ u ∈ us, t.isEnrolledInternal u q = true ∧
    t.records.lookup (q, u) = some (promotedRecord computeProofHash q now u)
  others : ∀ q' u, ¬ (q' = q ∧ u ∈ us) → t.records.lookup (q', u) = s.records.lookup (q', u)
  elsewhere : ∀ q', q' ≠ q → t.getWaitlist q' = s.getWaitlist q'

/-- An enrollment of `u` has to wait: there is a record already, and duplicates go to the waitlist. -/
def Store.Waits (s : Store) (u : Address) (q : Symbol) : Prop :=
  s.isEnrolledInternal u q = true ∧ s.dupBehavior.getD .reject = .grantWaitingList

/-- The waitlist of `q` after the calls: no repetition, positions as `waitlist_position` reports them,
and a history without loss or duplication. -/
structure WaitlistFifo (q : Symbol) (past : List (enrollment computeProofHash).Commit)
    (l : Ledger Store) : Prop where
  nodup : (l.store.getWaitlist q).Nodup
  position : ∀ u i, l.store.waitlistPosition u q = some i ↔ (l.store.getWaitlist q)[i]? = some u
  history : promoted computeProofHash q past ++ l.store.getWaitlist q = waitlisted q l.events
  promotion : ∀ c ∈ past, ∀ admin count, c.call.entry = .promoteFromWaitlist admin q count →
    PromotesFirst computeProofHash q count (promotedBy q c.call.entry (published c))
      c.call.env.timestamp c.pre.store c.post.store
  /-- An enrollment that has to wait puts its caller last, and no other enrollment changes a waitlist. -/
  joined : ∀ c ∈ past, ∀ u q' exp, c.call.entry = .enroll u q' exp →
    (q' = q → c.pre.store.Waits u q →
      c.post.store.getWaitlist q = c.pre.store.getWaitlist q ++ [u]) ∧
    (q' ≠ q ∨ ¬ c.pre.store.Waits u q' →
      c.post.store.getWaitlist q = c.pre.store.getWaitlist q)

variable {computeProofHash} {s s' : Store} {env : Env} {e : Entrypoint} {o : Output}
  {events : List Event} {q q' : Symbol} {u : Address}

/-! ## Reading the events -/

@[simp] theorem subject_event (kind kind' : String) (now : ℕ) (hash : Bytes32) :
    subject kind q (event kind' q' u now hash) =
      if kind' = kind ∧ q' = q then some u else none := rfl

theorem subject_promotedEvent (kind : String) (now : ℕ) :
    subject kind q (promotedEvent computeProofHash q' now u) =
      if "Enrolled" = kind ∧ q' = q then some u else none := rfl

/-- A promotion announces its identities as enrolled. -/
theorem filterMap_promotedEvent (now : ℕ) (us : List Address) :
    (us.map (promotedEvent computeProofHash q now)).filterMap (subject "Enrolled" q) = us := by
  have hsubject : subject "Enrolled" q ∘ promotedEvent computeProofHash q now = some := by
    funext u
    rw [Function.comp_apply, subject_promotedEvent, if_pos ⟨rfl, rfl⟩]
  rw [List.filterMap_map, hsubject, List.filterMap_some]

/-- A promotion announces nobody for a waitlist. -/
theorem waitlisted_promotedEvent (now : ℕ) (us : List Address) :
    waitlisted q (us.map (promotedEvent computeProofHash q' now)) = [] := by
  rw [waitlisted, List.filterMap_map, List.filterMap_eq_nil_iff]
  intro u _
  rw [Function.comp_apply, subject_promotedEvent, if_neg]
  exact fun h => absurd h.1 (by decide)

/-! ## One call -/

/-- A cancellation leaves the waitlists alone. -/
theorem afterCancel_getWaitlist (record : EnrollmentRecord) :
    (s.afterCancel q u record).getWaitlist q' = s.getWaitlist q' := by
  unfold Store.afterCancel
  split <;> rfl

/-- A promotion drops the first identities of its own queue's waitlist. -/
theorem afterPromote_getWaitlist (count now : ℕ) :
    (s.afterPromote computeProofHash q count now).getWaitlist q' =
      if q' = q then (s.getWaitlist q).drop count else s.getWaitlist q' := by
  rw [Store.afterPromote, setWaitlist_getWaitlist, promoteAll_getWaitlist]

/-- Who leaves a waitlist in a call and who stays on it are who was on it and who joined it. -/
theorem history_effect (eff : Effect computeProofHash env s e o s' events) (q : Symbol) :
    promotedBy q e events ++ s'.getWaitlist q = s.getWaitlist q ++ waitlisted q events := by
  cases eff with
  | @read e o reader =>
    have hnobody : promotedBy q e [] = [] := by
      cases e <;> simp [promotedBy]
    rw [hnobody, waitlisted, List.filterMap_nil, List.append_nil, List.nil_append]
  | behavior => exact (List.append_nil _).symm
  | @waitlist u q₀ =>
    show (s.setWaitlist q₀ _).getWaitlist q = _
    rw [setWaitlist_getWaitlist]
    by_cases hq : q = q₀
    · subst hq
      simp [waitlisted]
    · simp [waitlisted, hq, Ne.symm hq]
  | override | enroll | finalize => exact (List.append_nil _).symm
  | cancel =>
    show (Store.afterCancel _ _ _ _).getWaitlist q = _
    rw [afterCancel_getWaitlist]
    exact (List.append_nil _).symm
  | @promote admin q₀ count =>
    rw [waitlisted_promotedEvent, List.append_nil, afterPromote_getWaitlist]
    by_cases hq : q = q₀
    · subst hq
      rw [promotedBy, if_pos rfl, filterMap_promotedEvent, if_pos rfl]
      exact List.take_append_drop count _
    · rw [promotedBy, if_neg (Ne.symm hq), if_neg hq, List.nil_append]

/-- What an enrollment does to the waitlists. -/
theorem waitlist_of_enroll {exp : Option ℕ}
    (eff : Effect computeProofHash env s (.enroll u q' exp) o s' events) (q : Symbol) :
    (q' = q → s.Waits u q → s'.getWaitlist q = s.getWaitlist q ++ [u]) ∧
      (q' ≠ q ∨ ¬ s.Waits u q' → s'.getWaitlist q = s.getWaitlist q) := by
  cases eff with
  | read reader => exact reader.elim
  | waitlist auth enrolled behavior =>
    rw [setWaitlist_getWaitlist]
    constructor
    · rintro rfl -
      exact if_pos rfl
    · rintro (hq | hwaits)
      · exact if_neg (Ne.symm hq)
      · exact absurd ⟨enrolled, behavior⟩ hwaits
  | override auth behavior =>
    refine ⟨?_, fun _ => rfl⟩
    rintro rfl ⟨-, hbehavior⟩
    exact absurd (behavior.symm.trans hbehavior) (by decide)
  | enroll auth notEnrolled =>
    refine ⟨?_, fun _ => rfl⟩
    rintro rfl ⟨enrolled, -⟩
    exact absurd enrolled (Bool.eq_false_iff.mp notEnrolled)

/-- Promotion writes the records of `us` and no others. -/
theorem promoteAll_lookup (s : Store) (now : ℕ) (us : List Address) (k : RecordKey) :
    (s.promoteAll computeProofHash q now us).records.lookup k =
      if k.1 = q ∧ k.2 ∈ us then some (promotedRecord computeProofHash q now k.2)
      else s.records.lookup k := by
  induction us generalizing s with
  | nil => simp [Store.promoteAll]
  | cons u us ih =>
    rw [promoteAll_cons, ih, Store.promoteOne, setCount_records, setRecord_records]
    by_cases hmem : k.1 = q ∧ k.2 ∈ us
    · rw [if_pos hmem, if_pos ⟨hmem.1, List.mem_cons_of_mem u hmem.2⟩]
    · rw [if_neg hmem]
      by_cases hk : k = (q, u)
      · rw [hk, Finmap.lookup_insert, if_pos ⟨rfl, List.mem_cons_self⟩]
      · -- an identity other than `u` is among the promoted only if it is in the rest
        rw [Finmap.lookup_insert_of_ne _ hk, if_neg]
        intro h
        rcases List.mem_cons.mp h.2 with hu | hu
        · exact hk (Prod.ext h.1 hu)
        · exact hmem ⟨h.1, hu⟩

/-- Every successful promotion serves the first in line. -/
theorem promotesFirst_effect {admin : Address} {count : ℕ}
    (eff : Effect computeProofHash env s (.promoteFromWaitlist admin q count) o s' events) :
    PromotesFirst computeProofHash q count
      (promotedBy q (.promoteFromWaitlist admin q count) events) env.timestamp s s' := by
  cases eff with
  | read reader => exact reader.elim
  | promote =>
    have hus : promotedBy q (.promoteFromWaitlist admin q count)
        ((s.promotees q count).map (promotedEvent computeProofHash q env.timestamp)) =
        s.promotees q count := by
      rw [promotedBy, if_pos rfl, filterMap_promotedEvent]
    have hlookup (k : RecordKey) :
        (s.afterPromote computeProofHash q count env.timestamp).records.lookup k = _ :=
      promoteAll_lookup s env.timestamp (s.promotees q count) k
    rw [hus]
    constructor
    · exact List.take_eq_take_min
    · rw [afterPromote_getWaitlist, if_pos rfl]
      exact List.drop_eq_drop_min
    · intro u hu
      have hrecord := hlookup (q, u)
      rw [if_pos ⟨rfl, hu⟩] at hrecord
      exact ⟨isEnrolledInternal_eq_true.mpr ⟨_, hrecord, rfl⟩, hrecord⟩
    · intro q' u hu
      rw [hlookup, if_neg hu]
    · intro q' hq
      rw [afterPromote_getWaitlist, if_neg hq]

/-! ## Every run -/

/-- On a waitlist without repetitions the position is where the identity stands. -/
theorem Store.waitlistPosition_eq_some {i : ℕ} (h : (s.getWaitlist q).Nodup) :
    s.waitlistPosition u q = some i ↔ (s.getWaitlist q)[i]? = some u := by
  unfold Store.waitlistPosition
  rw [List.idxOf?_eq_some_iff, List.getElem?_eq_some_iff]
  refine exists_congr fun hi => and_iff_left_of_imp ?_
  -- an earlier entry is a different one
  rintro rfl j hj heq
  have hj' : j < (s.getWaitlist q).length := by omega
  have hsame : j = i := (@List.Nodup.getElem_inj_iff _ _ h j hj' i hi).mp heq
  omega

/-- A commit appends the identities it promotes. -/
theorem promoted_concat (past : List (enrollment computeProofHash).Commit)
    (c : (enrollment computeProofHash).Commit) (q : Symbol) :
    promoted computeProofHash q (past ++ [c]) =
      promoted computeProofHash q past ++ promotedBy q c.call.entry (published c) := by
  rw [promoted, List.flatMap_append, List.flatMap_singleton, promoted]

variable (computeProofHash) in
/-- No identity is on a waitlist twice in a reachable state. -/
theorem waitlistsNodup_run (calls : List (Invocation Entrypoint)) :
    WaitlistsNodup ((enrollment computeProofHash).run fresh calls).store := by
  refine Transactional.run_invariant (I := fun l : Ledger Store => WaitlistsNodup l.store)
    waitlistsNodup_commit ?_ calls
  intro q
  exact List.nodup_nil

/-- The history of a waitlist, extended by one commit. -/
theorem history_commit (q : Symbol) (past : List (enrollment computeProofHash).Commit)
    (c : (enrollment computeProofHash).Commit)
    (h : promoted computeProofHash q past ++ c.pre.store.getWaitlist q =
      waitlisted q c.pre.events) :
    promoted computeProofHash q (past ++ [c]) ++ c.post.store.getWaitlist q =
      waitlisted q c.post.events := by
  obtain ⟨events, hevents, eff⟩ := effect_of_exec c.ok
  have hstep := history_effect eff q
  calc promoted computeProofHash q (past ++ [c]) ++ c.post.store.getWaitlist q
      = promoted computeProofHash q past ++
          (promotedBy q c.call.entry events ++ c.post.store.getWaitlist q) := by
        rw [promoted_concat, published_of_append hevents, List.append_assoc]
    _ = promoted computeProofHash q past ++ c.pre.store.getWaitlist q ++ waitlisted q events := by
        rw [hstep, List.append_assoc]
    _ = waitlisted q c.post.events := by
        rw [h, hevents, waitlisted, waitlisted, waitlisted, List.filterMap_append]

/-- The waitlist of every queue is first in, first out, without loss or duplication. -/
theorem waitlist_fifo (computeProofHash : Address → Symbol → ℕ → Bytes32)
    (calls : List (Invocation Entrypoint)) (q : Symbol) :
    WaitlistFifo computeProofHash q ((enrollment computeProofHash).history fresh calls)
      ((enrollment computeProofHash).run fresh calls) := by
  have hnodup := waitlistsNodup_run computeProofHash calls q
  refine ⟨hnodup, fun u i => Store.waitlistPosition_eq_some hnodup, ?_, ?_, ?_⟩
  · exact Transactional.history_invariant
      (P := fun past l => promoted computeProofHash q past ++ l.store.getWaitlist q =
        waitlisted q l.events) (history_commit q) rfl calls
  · intro c _ admin count hentry
    obtain ⟨events, hevents, eff⟩ := effect_of_exec c.ok
    rw [published_of_append hevents, hentry]
    rw [hentry] at eff
    exact promotesFirst_effect eff
  · intro c _ u q' exp hentry
    obtain ⟨_, -, eff⟩ := effect_of_exec c.ok
    rw [hentry] at eff
    exact waitlist_of_enroll eff q

end LineProof.Enrollment
