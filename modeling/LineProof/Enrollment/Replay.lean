import LineProof.Enrollment.Finality

/-!
# Replaying enrollment from its events

`View` is what an observer wants to know of the contract, and `applyEvent` is how an observer who sees only
the events follows it. Who is enrolled, and finalized, follows from the events of every run
(`live_run`). The waitlists do not: an identity that is first in line and enrols by itself, after a
cancellation or over an expired record, publishes what its promotion would have published, and stays on
the waitlist. Without such calls the waitlists follow from the events too, and each such call takes a run
into a state that its events do not determine (`replays_iff`).
-/

namespace LineProof.Enrollment

open Soroban

/-! ## The observer -/

/-- The part of the storage that the events are to account for. -/
@[ext] structure View where
  /-- the `finalized` flags of the records that are not cancelled -/
  live : RecordKey → Option Bool
  waitlist : Symbol → List Address
  count : Symbol → ℕ

/-- What a reader of the events knows of a record: `none` once it is cancelled. -/
def EnrollmentRecord.live (record : EnrollmentRecord) : Option Bool :=
  if record.cancelled then none else some record.finalized

/-- The records as a reader of the events knows them. -/
def Store.live (s : Store) (key : RecordKey) : Option Bool :=
  (s.records.lookup key).bind EnrollmentRecord.live

/-- The part of the store that the events determine. -/
def Store.view (s : Store) : View where
  live := s.live
  waitlist := s.getWaitlist
  count := s.enrollmentCount

/-- Who is first in line counts as promoted. Another identity has overridden its record if it has a live
one, and enrolled otherwise. -/
def View.enroll (v : View) (q : Symbol) (u : Address) : View :=
  let live := Function.update v.live (q, u) (some false)
  if (v.waitlist q).head? = some u ∧ v.count q + 1 ≤ u32Max then
    { live
      waitlist := Function.update v.waitlist q (v.waitlist q).tail
      count := Function.update v.count q (v.count q + 1) }
  else if (v.live (q, u)).isSome then { v with live }
  else { v with live, count := Function.update v.count q (v.count q + 1) }

/-- What an observer learns from an event of `emit`. -/
def applyEmitted (v : View) (kind : String) (q : Symbol) (u : Address) : View :=
  match kind with
  | "Enrolled" => v.enroll q u
  | "WaitlistAdded" =>
    { v with waitlist := Function.update v.waitlist q (v.waitlist q ++ [u]) }
  | "Cancelled" =>
    { v with
      live := Function.update v.live (q, u) none
      count := Function.update v.count q (v.count q - 1) }
  | "Finalized" => { v with live := Function.update v.live (q, u) (some true) }
  | _ => v

/-- What an observer learns from an event. -/
def applyEvent (v : View) : Event → View
  | ⟨[_, .symbol kind, .symbol q], .tuple (.address u :: _)⟩ => applyEmitted v kind.str q u
  | _ => v

/-- The view an observer has after the events. -/
def replay (v : View) (events : List Event) : View := events.foldl applyEvent v

/-! ## Agreement -/

/-- The call is an accepted `enroll` that writes a record for the identity that is first in line, and that
could be promoted. -/
def EnrollsFirstInLine (l : Ledger Store) (i : Invocation Entrypoint) : Prop :=
  ∃ q u exp, i.entry = .enroll u q exp ∧ Rewrites q u l i ∧
    (l.store.getWaitlist q).head? = some u ∧ l.store.enrollmentCount q + 1 ≤ u32Max

/-- The storages agree on who is enrolled in `q`, and on the finalized flags of these. -/
structure LiveAgree (q : Symbol) (s t : Store) : Prop where
  enrolled : ∀ u, s.isEnrolledInternal u q = t.isEnrolledInternal u q
  finalized : ∀ u record record', s.records.lookup (q, u) = some record →
    t.records.lookup (q, u) = some record' → record.cancelled = false →
    record'.cancelled = false → record.finalized = record'.finalized

/-- The storages agree on the enrolled identities of `q`, their finalized flags and the waitlist. -/
structure Agree (q : Symbol) (s t : Store) : Prop extends LiveAgree q s t where
  waitlist : s.getWaitlist q = t.getWaitlist q

variable {s s' t : Store} {env : Env} {e : Entrypoint} {o : Output} {events : List Event}
  {l : Ledger Store} {q : Symbol} {u : Address} {record : EnrollmentRecord} {v : View}
  {computeProofHash : Address → Symbol → ℕ → Bytes32}

/-- Who is enrolled can be read off the live records. -/
theorem isEnrolledInternal_eq_live : s.isEnrolledInternal u q = (s.live (q, u)).isSome := by
  unfold Store.isEnrolledInternal Store.live
  cases s.records.lookup (q, u) with
  | none => rfl
  | some record => cases h : record.cancelled <;> simp [EnrollmentRecord.live, h]

/-- A stored record is live as itself. -/
theorem live_of_lookup (stored : s.records.lookup (q, u) = some record) :
    s.live (q, u) = record.live := by
  rw [Store.live, stored, Option.bind_some]

/-- Stores with the same live records agree on them. -/
theorem liveAgree_of_live (h : s.live = t.live) (q : Symbol) : LiveAgree q s t where
  enrolled u := by rw [isEnrolledInternal_eq_live, isEnrolledInternal_eq_live, h]
  finalized u record record' stored stored' notCancelled notCancelled' := by
    have hlive : record.live = record'.live := by
      rw [← live_of_lookup stored, ← live_of_lookup stored', h]
    simpa [EnrollmentRecord.live, notCancelled, notCancelled'] using hlive

/-- Stores with the same view agree. -/
theorem agree_of_view (h : s.view = t.view) (q : Symbol) : Agree q s t where
  toLiveAgree := liveAgree_of_live (congrArg View.live h) q
  waitlist := congrFun (congrArg View.waitlist h) q

/-- Events are replayed one list after the other. -/
theorem replay_append (v : View) (xs ys : List Event) :
    replay v (xs ++ ys) = replay (replay v xs) ys := List.foldl_append

/-! ## Live records -/

/-- A write of a record updates one place of the view. -/
theorem live_setRecord (s : Store) (q : Symbol) (u : Address) (record : EnrollmentRecord) :
    (s.setRecord q u record).live = Function.update s.live (q, u) record.live := by
  funext key
  rw [Function.update_apply, Store.live, setRecord_lookup]
  split <;> rfl

theorem live_setCount (count : ℕ) : (s.setCount q count).live = s.live := rfl

theorem live_setWaitlist (waitlist : List Address) : (s.setWaitlist q waitlist).live = s.live := rfl

/-- A cancellation empties one place of the view. -/
theorem live_afterCancel :
    (s.afterCancel q u record).live = Function.update s.live (q, u) none := by
  have hlive := live_setRecord s q u { record with cancelled := true }
  unfold Store.afterCancel
  split
  · rw [live_setCount, hlive]
    rfl
  · rw [hlive]
    rfl

/-- An enrollment fills one place of the view. -/
theorem live_enroll : (v.enroll q u).live = Function.update v.live (q, u) (some false) := by
  unfold View.enroll
  dsimp only
  split_ifs <;> rfl

/-- Replaying promotions makes the records live that the promotions store. -/
theorem live_promoteAll (now : ℕ) (us : List Address) (h : v.live = s.live) :
    (replay v (us.map (promotedEvent computeProofHash q now))).live =
      (s.promoteAll computeProofHash q now us).live := by
  induction us generalizing v s with
  | nil => exact h
  | cons u us ih =>
    apply ih
    show (v.enroll q u).live = _
    rw [live_enroll, h, Store.promoteOne, live_setCount, live_setRecord]
    rfl

/-- A call moves the live records as its events say. -/
theorem live_effect (eff : Effect computeProofHash env s e o s' events) (h : v.live = s.live) :
    (replay v events).live = s'.live := by
  cases eff with
  | read | behavior | waitlist => exact h
  | @override u q exp old new _ _ _ _ _ _ new_eq =>
    show (v.enroll q u).live = _
    rw [live_enroll, live_setRecord, h, new_eq]
    rfl
  | @enroll u q exp new _ _ _ _ new_eq =>
    show (v.enroll q u).live = _
    rw [live_enroll, live_setCount, live_setRecord, h, new_eq]
    rfl
  | @cancel u q =>
    show Function.update v.live (q, u) none = _
    rw [live_afterCancel, h]
  | @finalize admin u q record _ _ live =>
    show Function.update v.live (q, u) (some true) = _
    rw [live_setRecord, h]
    simp [EnrollmentRecord.live, live]
  | promote =>
    rw [Store.afterPromote, live_setWaitlist]
    exact live_promoteAll _ _ h

/-! ## Waitlists and counts -/

/-- The enrollment of the first in line, read from its event alone, drops it from the line. -/
theorem waitlist_enroll_first {us : List Address} (hline : v.waitlist q = u :: us)
    (hroom : v.count q + 1 ≤ u32Max) :
    (v.enroll q u).waitlist = Function.update v.waitlist q us := by
  rw [View.enroll, if_pos ⟨by rw [hline]; rfl, hroom⟩, hline, List.tail_cons]

/-- The enrollment of the first in line, read from its event alone, counts one more. -/
theorem count_enroll_first {us : List Address} (hline : v.waitlist q = u :: us)
    (hroom : v.count q + 1 ≤ u32Max) :
    (v.enroll q u).count = Function.update v.count q (v.count q + 1) := by
  rw [View.enroll, if_pos ⟨by rw [hline]; rfl, hroom⟩]

/-- Who is not first in line, or could not be promoted, leaves the waitlists alone. -/
theorem enroll_not_first (h : ¬ ((v.waitlist q).head? = some u ∧ v.count q + 1 ≤ u32Max)) :
    (v.enroll q u).waitlist = v.waitlist ∧
      (v.enroll q u).count =
        if (v.live (q, u)).isSome then v.count else Function.update v.count q (v.count q + 1) := by
  rw [View.enroll, if_neg h]
  split_ifs <;> exact ⟨rfl, rfl⟩

/-- A write of a waitlist updates one place of the view. -/
theorem getWaitlist_setWaitlist (waitlist : List Address) :
    (s.setWaitlist q waitlist).getWaitlist = Function.update s.getWaitlist q waitlist := by
  funext q'
  rw [setWaitlist_getWaitlist, Function.update_apply]

/-- A write of a counter updates one place of the view. -/
theorem enrollmentCount_setCount (count : ℕ) :
    (s.setCount q count).enrollmentCount = Function.update s.enrollmentCount q count := by
  funext q'
  rw [setCount_enrollmentCount, Function.update_apply]

/-- A cancellation lowers one counter, down to 0 at most. -/
theorem enrollmentCount_afterCancel :
    (s.afterCancel q u record).enrollmentCount =
      Function.update s.enrollmentCount q (s.enrollmentCount q - 1) := by
  unfold Store.afterCancel
  split
  · rw [enrollmentCount_setCount]
    rfl
  · case _ hzero =>
    have hsame : s.enrollmentCount q - 1 = s.enrollmentCount q := by omega
    rw [hsame, Function.update_eq_self]
    rfl

/-- A promotion drops the first identities of one waitlist. -/
theorem getWaitlist_afterPromote (count now : ℕ) :
    (s.afterPromote computeProofHash q count now).getWaitlist =
      Function.update s.getWaitlist q ((s.getWaitlist q).drop count) := by
  funext q'
  rw [Function.update_apply, afterPromote_getWaitlist]

/-- A promotion raises one counter by as many as it promotes. -/
theorem enrollmentCount_afterPromote (count now : ℕ) :
    (s.afterPromote computeProofHash q count now).enrollmentCount =
      Function.update s.enrollmentCount q (s.enrollmentCount q + (s.promotees q count).length) := by
  funext q'
  rw [Function.update_apply, afterPromote_enrollmentCount]
  split
  · case _ hq => rw [hq]
  · rfl

/-- Those in front of the line are promoted, one event after the other. -/
theorem replay_promoted (now : ℕ) {us rest : List Address} (hline : v.waitlist q = us ++ rest)
    (hroom : us ≠ [] → v.count q + us.length ≤ u32Max) :
    (replay v (us.map (promotedEvent computeProofHash q now))).waitlist =
        Function.update v.waitlist q rest ∧
      (replay v (us.map (promotedEvent computeProofHash q now))).count =
        Function.update v.count q (v.count q + us.length) := by
  induction us generalizing v with
  | nil =>
    rw [List.nil_append] at hline
    rw [← hline, List.length_nil, Nat.add_zero, Function.update_eq_self, Function.update_eq_self]
    exact ⟨rfl, rfl⟩
  | cons u us ih =>
    have hroom := hroom (List.cons_ne_nil u us)
    rw [List.length_cons] at hroom ⊢
    have hwaitlist := waitlist_enroll_first hline (by omega)
    have hcount := count_enroll_first hline (by omega)
    have hline' : (v.enroll q u).waitlist q = us ++ rest := by
      rw [hwaitlist, Function.update_self]
      rfl
    have hroom' : us ≠ [] → (v.enroll q u).count q + us.length ≤ u32Max := by
      intro _
      rw [hcount, Function.update_self]
      omega
    obtain ⟨hrest, hrest'⟩ := ih hline' hroom'
    refine ⟨hrest.trans ?_, hrest'.trans ?_⟩
    · rw [hwaitlist, Function.update_idem]
    · rw [hcount, Function.update_idem, Function.update_self, Nat.add_right_comm, Nat.add_assoc]

/-- A call moves the waitlists and the counts as its events say, unless it enrolls who is first in line. -/
theorem queues_effect {i : Invocation Entrypoint}
    (eff : Effect computeProofHash i.env l.store i.entry o s' events)
    (h : ¬ EnrollsFirstInLine l i) :
    (replay l.store.view events).waitlist = s'.getWaitlist ∧
      (replay l.store.view events).count = s'.enrollmentCount := by
  obtain ⟨env, e⟩ := i
  cases eff with
  | read | behavior | finalize => exact ⟨rfl, rfl⟩
  | @waitlist u q =>
    refine ⟨?_, rfl⟩
    rw [getWaitlist_setWaitlist]
    rfl
  | @override u q exp old new auth behavior stored live expired room =>
    have hrewrites : Rewrites q u l ⟨env, .enroll u q exp⟩ :=
      .override exp old rfl auth behavior stored live expired room
    have hother := enroll_not_first (v := l.store.view)
      fun hfirst => h ⟨q, u, exp, rfl, hrewrites, hfirst⟩
    have hlive : (l.store.view.live (q, u)).isSome = true :=
      isEnrolledInternal_eq_live.symm.trans (isEnrolledInternal_eq_true.mpr ⟨old, stored, live⟩)
    rw [hlive, if_pos rfl] at hother
    exact hother
  | @enroll u q exp new auth notEnrolled room countRoom =>
    have hrewrites : Rewrites q u l ⟨env, .enroll u q exp⟩ :=
      .enroll exp rfl auth notEnrolled room countRoom
    have hother := enroll_not_first (v := l.store.view)
      fun hfirst => h ⟨q, u, exp, rfl, hrewrites, hfirst⟩
    have hlive : (l.store.view.live (q, u)).isSome = false :=
      isEnrolledInternal_eq_live.symm.trans notEnrolled
    rw [hlive, if_neg Bool.false_ne_true] at hother
    refine ⟨hother.1, hother.2.trans ?_⟩
    rw [enrollmentCount_setCount]
    rfl
  | @cancel u q record =>
    rw [enrollmentCount_afterCancel]
    refine ⟨?_, rfl⟩
    funext q'
    exact afterCancel_getWaitlist record |>.symm
  | @promote admin q count auth room =>
    have hline : l.store.view.waitlist q =
        l.store.promotees q count ++ (l.store.getWaitlist q).drop count :=
      (List.take_append_drop count _).symm
    rw [getWaitlist_afterPromote, enrollmentCount_afterPromote]
    exact replay_promoted env.timestamp hline room

/-- A call moves the view as its events say, unless it enrolls who is first in line. -/
theorem view_effect {i : Invocation Entrypoint}
    (eff : Effect computeProofHash i.env l.store i.entry o s' events)
    (h : ¬ EnrollsFirstInLine l i) : replay l.store.view events = s'.view := by
  obtain ⟨hwaitlist, hcount⟩ := queues_effect eff h
  exact View.ext (live_effect eff rfl) hwaitlist hcount

/-! ## Every run -/

/-- What an observer knows of a contract that has just been deployed. -/
def View.initial : View := ⟨fun _ => none, fun _ => [], fun _ => 0⟩

/-- The live records follow from the events. -/
theorem live_run (computeProofHash : Address → Symbol → ℕ → Bytes32)
    (calls : List (Invocation Entrypoint)) :
    ((enrollment computeProofHash).run fresh calls).store.live =
      (replay .initial ((enrollment computeProofHash).run fresh calls).events).live := by
  refine Transactional.run_invariant (M := enrollment computeProofHash)
    (I := fun l => l.store.live = (replay .initial l.events).live) ?_ rfl calls
  intro c hc
  obtain ⟨published, hevents, eff⟩ := effect_of_exec c.ok
  rw [hevents, replay_append]
  exact (live_effect eff hc.symm).symm

/-- Without an enrollment of who is first in line, the view follows from the events. -/
theorem view_run {calls : List (Invocation Entrypoint)}
    (h : (enrollment computeProofHash).Along (fun l i => ¬ EnrollsFirstInLine l i) fresh calls) :
    ((enrollment computeProofHash).run fresh calls).store.view =
      replay .initial ((enrollment computeProofHash).run fresh calls).events := by
  refine Transactional.run_invariant_along (M := enrollment computeProofHash)
    (I := fun l => l.store.view = replay .initial l.events) ?_ rfl h
  intro c hcond hc
  obtain ⟨published, hevents, eff⟩ := effect_of_exec c.ok
  rw [hevents, replay_append, ← hc]
  exact (view_effect eff hcond).symm

variable (computeProofHash) in
/-- Who is first in line can be promoted in place of enrolling. The events are the same, and only the
promotion shortens the waitlist. -/
theorem EnrollsFirstInLine.as_promotion {i : Invocation Entrypoint} (h : EnrollsFirstInLine l i) :
    ∃ q j, ¬ EnrollsFirstInLine l j ∧
      ((enrollment computeProofHash).next l i).events =
        ((enrollment computeProofHash).next l j).events ∧
      ((enrollment computeProofHash).next l i).store.getWaitlist q ≠
        ((enrollment computeProofHash).next l j).store.getWaitlist q := by
  obtain ⟨env, e⟩ := i
  obtain ⟨q, u, exp, rfl, hrewrites, hfirst, hroom⟩ := h
  obtain ⟨us, hline⟩ := List.head?_eq_some_iff.mp hfirst
  have hpromotees : l.store.promotees q 1 = [u] := by
    rw [Store.promotees, hline]
    rfl
  have auth : u ∈ env.authorizers := by
    cases hrewrites with
    | enroll _ _ auth | override _ _ _ auth => exact auth
    | promote _ _ entry => cases entry
  have room : l.store.promotees q 1 ≠ [] →
      l.store.enrollmentCount q + (l.store.promotees q 1).length ≤ u32Max := by
    intro _
    rw [hpromotees]
    exact hroom
  have hpromote := next_promote computeProofHash auth room
  obtain ⟨store, _, henroll, -, -, hwaitlist⟩ := hrewrites.next_enroll computeProofHash
  refine ⟨q, ⟨env, .promoteFromWaitlist u q 1⟩, ?_, ?_, ?_⟩
  · rintro ⟨_, _, _, hentry, -⟩
    cases hentry
  · rw [henroll, hpromote, hpromotees]
    rfl
  · rw [henroll, hpromote, hwaitlist, afterPromote_getWaitlist, if_pos rfl, hline]
    exact List.cons_ne_self u us

variable (computeProofHash)

/-- No call of the run enrolls who is first in line. -/
def NoneFirstInLine (calls : List (Invocation Entrypoint)) : Prop :=
  (enrollment computeProofHash).Along (fun l i => ¬ EnrollsFirstInLine l i) fresh calls

/-- The runs that have published the same events. -/
def SameEvents (calls calls' : List (Invocation Entrypoint)) : Prop :=
  ((enrollment computeProofHash).run fresh calls).events =
    ((enrollment computeProofHash).run fresh calls').events

/-- After the two runs the storages agree on every queue. -/
def RunsAgree (calls calls' : List (Invocation Entrypoint)) : Prop :=
  ∀ q, Agree q ((enrollment computeProofHash).run fresh calls).store
    ((enrollment computeProofHash).run fresh calls').store

/-- Who is enrolled, and finalized, follows from the events of every run. -/
theorem live_of_events {calls calls' : List (Invocation Entrypoint)}
    (h : SameEvents computeProofHash calls calls') (q : Symbol) :
    LiveAgree q ((enrollment computeProofHash).run fresh calls).store
      ((enrollment computeProofHash).run fresh calls').store := by
  apply liveAgree_of_live
  rw [live_run, live_run, h]

variable {computeProofHash}

/-- Runs in which nobody enrolls while first in line agree whenever their events do. -/
theorem runsAgree_of_none {calls calls' : List (Invocation Entrypoint)}
    (h : NoneFirstInLine computeProofHash calls) (h' : NoneFirstInLine computeProofHash calls')
    (hevents : SameEvents computeProofHash calls calls') : RunsAgree computeProofHash calls calls' := by
  intro q
  apply agree_of_view
  rw [view_run h, view_run h', hevents]

/-- A run in which nobody enrolls who is first in line passes through states that agree with those of every
such run with the same events. A run with such an enrollment does not. -/
theorem replays_iff (computeProofHash : Address → Symbol → ℕ → Bytes32)
    (calls : List (Invocation Entrypoint)) :
    (∀ before, before <+: calls → ∀ calls', NoneFirstInLine computeProofHash calls' →
      SameEvents computeProofHash before calls' → RunsAgree computeProofHash before calls') ↔
      NoneFirstInLine computeProofHash calls := by
  constructor
  · intro h
    induction calls using List.reverseRecOn with
    | nil => trivial
    | append_singleton calls i ih =>
      have hcalls : NoneFirstInLine computeProofHash calls :=
        ih fun before hb => h before (hb.trans (List.prefix_append calls [i]))
      refine Transactional.along_concat.mpr ⟨hcalls, fun hfirst => ?_⟩
      obtain ⟨q, j, hj, hevents, hne⟩ := hfirst.as_promotion computeProofHash
      have hagree := h (calls ++ [i]) List.prefix_rfl (calls ++ [j])
        (Transactional.along_concat.mpr ⟨hcalls, hj⟩)
        (by rw [SameEvents, Transactional.run_concat, Transactional.run_concat, hevents])
      have hwaitlist := (hagree q).waitlist
      rw [Transactional.run_concat, Transactional.run_concat] at hwaitlist
      exact hne hwaitlist
  · rintro h before ⟨after, rfl⟩ calls' h' hevents
    exact runsAgree_of_none (Transactional.along_append.mp h).1 h' hevents

/-- Whoever has cancelled on the waitlist can enroll again or be promoted. The events are the same. -/
theorem enrolled_or_promoted :
    ¬ ∃ computeProofHash, ∀ calls calls', SameEvents computeProofHash calls calls' →
      RunsAgree computeProofHash calls calls' := by
  rintro ⟨computeProofHash, h⟩
  let admin : Address := ⟨"GADMIN"⟩
  let alice : Address := ⟨"GALICE"⟩
  let contract : Address := ⟨"CENROLLMENT"⟩
  let clinic : Symbol := ⟨"clinic"⟩
  let before : List (Invocation Entrypoint) :=
    [⟨⟨1, [alice], contract⟩, .enroll alice clinic none⟩,
      ⟨⟨2, [admin], contract⟩, .setDuplicateBehavior admin .grantWaitingList⟩,
      ⟨⟨3, [alice], contract⟩, .enroll alice clinic none⟩,
      ⟨⟨4, [alice], contract⟩, .cancel alice clinic⟩]
  let enrolled := before ++ [⟨⟨5, [alice], contract⟩, .enroll alice clinic none⟩]
  let promoted := before ++ [⟨⟨5, [admin], contract⟩, .promoteFromWaitlist admin clinic 1⟩]
  have hevents : SameEvents computeProofHash enrolled promoted := rfl
  have hwaitlist : [alice] = [] := (h enrolled promoted hevents clinic).waitlist
  exact absurd hwaitlist (List.cons_ne_nil alice [])

end LineProof.Enrollment
