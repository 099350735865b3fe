import LineProof.Enrollment.Finality

/-!
# Who administers the enrollment contract

`set_duplicate_behavior`, `finalize_enrollment` and `promote_from_waitlist` ask for the signature of their
`admin` argument, and the contract stores no administrator to compare it with. So everybody administers
the contract, and it is left alone in exactly the runs without an administrative call that takes effect
(`administered_by_anybody`).
-/

namespace LineProof.Enrollment

open Soroban

/-- The `admin` argument of the calls that administer the contract. -/
def Entrypoint.administrator : Entrypoint → Option Address
  | .setDuplicateBehavior admin _ => some admin
  | .finalizeEnrollment admin _ _ => some admin
  | .promoteFromWaitlist admin _ _ => some admin
  | _ => none

variable (computeProofHash : Address → Symbol → ℕ → Bytes32)

/-- Some administrative call with this `admin` argument would succeed. -/
def Administers (l : Ledger Store) (admin : Address) : Prop :=
  ∃ env e, Entrypoint.administrator e = some admin ∧ Succeeds (exec computeProofHash e) env l

/-- At most one address administers the contract. -/
def OneAdministrator (l : Ledger Store) : Prop :=
  ∀ a b, Administers computeProofHash l a → Administers computeProofHash l b → a = b

variable {computeProofHash}

/-- The call `e`, which published `events`, does not change the duplicate behavior, and finalizes and promotes
nobody. -/
structure LeavesAlone (s s' : Store) (e : Entrypoint) (events : List Event) : Prop where
  behavior : s'.dupBehavior.getD .reject = s.dupBehavior.getD .reject
  finalized : ∀ k record, s'.records.lookup k = some record → record.finalized = true →
    ∃ record', s.records.lookup k = some record' ∧ record'.finalized = true
  promoted : ∀ q, promotedBy q e events = []

/-- The commit leaves the contract alone. -/
def LeftAlone (c : (enrollment computeProofHash).Commit) : Prop :=
  LeavesAlone c.pre.store c.post.store c.call.entry (published c)

variable (computeProofHash) in
/-- While `a` signs nothing, the contract is left alone. -/
def SilenceProtects (l : Ledger Store) (a : Address) : Prop :=
  ∀ after : List (Invocation Entrypoint), (∀ i ∈ after, a ∉ i.env.authorizers) →
    ∀ c ∈ (enrollment computeProofHash).history l after, LeftAlone c

/-- The call is an administrative one that is accepted and takes effect. -/
inductive Disturbs (l : Ledger Store) (i : Invocation Entrypoint) : Prop
  | behavior (admin : Address) (behavior : DuplicateBehavior)
    (entry : i.entry = .setDuplicateBehavior admin behavior) (auth : admin ∈ i.env.authorizers)
    (new : behavior ≠ l.store.dupBehavior.getD .reject)
  | finalize (admin u : Address) (q : Symbol) (record : EnrollmentRecord)
    (entry : i.entry = .finalizeEnrollment admin u q) (auth : admin ∈ i.env.authorizers)
    (stored : l.store.records.lookup (q, u) = some record) (live : record.cancelled = false)
    (open_ : record.finalized = false)
  | promote (admin : Address) (q : Symbol) (count : ℕ)
    (entry : i.entry = .promoteFromWaitlist admin q count) (auth : admin ∈ i.env.authorizers)
    (room : l.store.enrollmentCount q + (l.store.promotees q count).length ≤ u32Max)
    (reached : l.store.promotees q count ≠ [])

variable {s s' : Store} {env : Env} {e : Entrypoint} {o : Output} {events : List Event}
  {l : Ledger Store} {i : Invocation Entrypoint} {q : Symbol}

/-! ## One call -/

/-- A call that publishes nothing promotes nobody. -/
theorem promotedBy_nil (q : Symbol) (e : Entrypoint) : promotedBy q e [] = [] := by
  cases e <;> simp [promotedBy]

/-- Whoever signs for `admin` sets the duplicate behavior. -/
theorem administers (l : Ledger Store) (admin : Address) : Administers computeProofHash l admin := by
  refine ⟨⟨0, [admin], admin⟩, .setDuplicateBehavior admin .reject, rfl, ?_⟩
  exact (succeeds_bind_pure _).mpr
    ⟨_, setDuplicateBehavior_eq_ok.mpr ⟨List.mem_singleton_self admin, rfl⟩⟩

variable (computeProofHash) in
/-- A call that disturbs the contract goes through. -/
theorem Disturbs.succeeds (h : Disturbs l i) : Succeeds (exec computeProofHash i.entry) i.env l := by
  cases h with
  | behavior admin behavior entry auth =>
    rw [entry]
    exact (succeeds_bind_pure _).mpr ⟨_, setDuplicateBehavior_eq_ok.mpr ⟨auth, rfl⟩⟩
  | finalize admin u q record entry auth stored live hopen =>
    rw [entry]
    exact (succeeds_bind_pure _).mpr
      ⟨_, finalizeEnrollment_eq_ok.mpr ⟨auth, record, stored, live, hopen, rfl⟩⟩
  | promote admin q count entry auth room =>
    rw [entry]
    exact (succeeds_bind_pure _).mpr ⟨_, promoteFromWaitlist_eq_ok.mpr ⟨auth, fun _ => room, rfl⟩⟩

/-- Every final record of `t` was one before, in `s`. -/
def FinalBefore (s t : Store) : Prop :=
  ∀ k record, t.records.lookup k = some record → record.finalized = true →
    ∃ record', s.records.lookup k = some record' ∧ record'.finalized = true

/-- Nothing becomes final in a step that keeps the store. -/
theorem FinalBefore.refl (s : Store) : FinalBefore s s :=
  fun _ record hk hfinal => ⟨record, hk, hfinal⟩

/-- A new record is final only if the one in its place was. -/
theorem FinalBefore.setRecord {s : Store} {q : Symbol} {u : Address} {new : EnrollmentRecord}
    (hnew : new.finalized = true →
      ∃ old, s.records.lookup (q, u) = some old ∧ old.finalized = true) :
    FinalBefore s (s.setRecord q u new) := by
  intro k record hk hfinal
  rw [setRecord_lookup] at hk
  split at hk
  · case _ hkey =>
    rw [← Option.some.inj hk] at hfinal
    rw [hkey]
    exact hnew hfinal
  · exact ⟨record, hk, hfinal⟩

/-- Storing a record that is not final makes no record final. -/
theorem FinalBefore.setOpen {s : Store} {q : Symbol} {u : Address} {new : EnrollmentRecord}
    (hnew : new.finalized = false) : FinalBefore s (s.setRecord q u new) := by
  refine .setRecord fun hfinal => ?_
  rw [hnew] at hfinal
  contradiction

/-- A call that does not disturb the contract leaves it alone. -/
theorem Effect.leavesAlone (eff : Effect computeProofHash i.env l.store i.entry o s' events)
    (h : ¬ Disturbs l i) : LeavesAlone l.store s' i.entry events := by
  obtain ⟨env, e⟩ := i
  cases eff with
  | read => exact ⟨rfl, FinalBefore.refl l.store, fun q => promotedBy_nil q _⟩
  | @behavior admin behavior auth =>
    refine ⟨?_, FinalBefore.refl l.store, fun q => rfl⟩
    by_contra hne
    exact h (.behavior admin behavior rfl auth hne)
  | waitlist => exact ⟨rfl, FinalBefore.refl l.store, fun q => rfl⟩
  | override _ _ _ _ _ _ new_eq =>
    exact ⟨rfl, FinalBefore.setOpen (congrArg EnrollmentRecord.finalized new_eq), fun q => rfl⟩
  | enroll _ _ _ _ new_eq =>
    exact ⟨rfl, FinalBefore.setOpen (congrArg EnrollmentRecord.finalized new_eq), fun q => rfl⟩
  | @cancel u q record auth stored live =>
    refine ⟨?_, ?_, fun q => rfl⟩
    · unfold Store.afterCancel
      split <;> rfl
    · intro k
      rw [afterCancel_lookup, ← setRecord_lookup]
      have hcancel : FinalBefore l.store (l.store.setRecord q u { record with cancelled := true }) :=
        .setRecord fun hfinal => ⟨record, stored, hfinal⟩
      exact hcancel k
  | @finalize admin u q record auth stored live hopen =>
    exact absurd (.finalize admin u q record rfl auth stored live hopen) h
  | @promote admin q count auth room =>
    have hnobody : l.store.promotees q count = [] := by
      by_contra hreached
      exact h (.promote admin q count rfl auth (room hreached) hreached)
    rw [Store.afterPromote, hnobody]
    exact ⟨rfl, FinalBefore.refl l.store, fun q => promotedBy_nil q _⟩

/-- A call that disturbs the contract does not leave it alone. -/
theorem Effect.not_leavesAlone
    (eff : Effect computeProofHash i.env l.store i.entry o s' events) (h : Disturbs l i) :
    ¬ LeavesAlone l.store s' i.entry events := by
  obtain ⟨env, e⟩ := i
  intro halone
  cases h with
  | behavior admin behavior entry auth new =>
    obtain rfl : e = _ := entry
    cases eff with
    | read reader => exact reader.elim
    | behavior => exact new halone.behavior
  | finalize admin u q record entry auth stored live hopen =>
    obtain rfl : e = _ := entry
    cases eff with
    | read reader => exact reader.elim
    | @finalize _ _ _ record' _ stored' _ _ =>
      obtain rfl := Option.some.inj (stored.symm.trans stored')
      have hnew := setRecord_lookup l.store q u { record with finalized := true } (q, u)
      rw [if_pos rfl] at hnew
      obtain ⟨old, hold, hfinal⟩ := halone.finalized (q, u) _ hnew rfl
      obtain rfl := Option.some.inj (stored.symm.trans hold)
      rw [hopen] at hfinal
      exact Bool.false_ne_true hfinal
  | promote admin q count entry auth room reached =>
    obtain rfl : e = _ := entry
    have hnone := halone.promoted q
    rw [(promotesFirst_effect eff).first] at hnone
    exact reached (List.take_eq_take_min.trans hnone)

/-- A commit leaves the contract alone exactly when its call does not disturb it. -/
theorem leftAlone_iff (c : (enrollment computeProofHash).Commit) :
    LeftAlone c ↔ ¬ Disturbs c.pre c.call := by
  obtain ⟨events, hevents, eff⟩ := effect_of_exec c.ok
  rw [LeftAlone, published_of_append hevents]
  exact ⟨fun halone hdisturbs => eff.not_leavesAlone hdisturbs halone, eff.leavesAlone⟩

/-- One call that sets another duplicate behavior, with the signature of somebody else than `a`. -/
theorem not_silenceProtects (l : Ledger Store) (a : Address) :
    ¬ SilenceProtects computeProofHash l a := by
  intro h
  let admin : Address := ⟨a.strkey ++ "!"⟩
  have hadmin : a ≠ admin := by
    intro heq
    have hlength := congrArg (fun x : Address => x.strkey.length) heq
    simp [admin] at hlength
  obtain ⟨behavior, hnew⟩ : ∃ behavior, behavior ≠ l.store.dupBehavior.getD .reject := by
    cases l.store.dupBehavior.getD .reject with
    | reject => exact ⟨.overrideExpired, by decide⟩
    | grantWaitingList => exact ⟨.reject, by decide⟩
    | overrideExpired => exact ⟨.reject, by decide⟩
  let i : Invocation Entrypoint := ⟨⟨0, [admin], admin⟩, .setDuplicateBehavior admin behavior⟩
  have hdisturbs : Disturbs l i := .behavior admin behavior rfl List.mem_cons_self hnew
  obtain ⟨r, hr⟩ := hdisturbs.succeeds computeProofHash
  let c : (enrollment computeProofHash).Commit := ⟨l, i, r.1, r.2, hr⟩
  have halone := h [i] (by simpa [i] using hadmin) c (c.mem_history [] rfl [])
  exact (leftAlone_iff c).mp halone hdisturbs

/-! ## Every run -/

/-- In every reachable state everybody administers the contract, so nobody's silence protects it. A run
leaves it alone exactly when no call of the run disturbs it. -/
theorem administered_by_anybody (computeProofHash : Address → Symbol → ℕ → Bytes32)
    (before : List (Invocation Entrypoint)) :
    let l := (enrollment computeProofHash).run fresh before
    ¬ OneAdministrator computeProofHash l ∧
      (∀ a, ¬ SilenceProtects computeProofHash l a) ∧
      ∀ after, (∀ c ∈ (enrollment computeProofHash).history l after, LeftAlone c) ↔
        (enrollment computeProofHash).Along (fun l i => ¬ Disturbs l i) l after := by
  refine ⟨?_, fun a => not_silenceProtects _ a, fun after => ?_⟩
  · intro h
    have heq := h ⟨"GADMIN"⟩ ⟨"GMALLORY"⟩ (administers _ _) (administers _ _)
    exact absurd heq (by decide)
  · refine Transactional.history_iff_along leftAlone_iff ?_ after
    intro l i p hfail hdisturbs
    exact (hdisturbs.succeeds computeProofHash).ne_error p hfail

/-- After one address has set the duplicate behavior, so may another one. -/
theorem second_administrator : ¬ ∃ computeProofHash,
    OneAdministrator computeProofHash ((enrollment computeProofHash).run fresh
      [⟨⟨1, [⟨"GADMIN"⟩], ⟨"CENROLLMENT"⟩⟩, .setDuplicateBehavior ⟨"GADMIN"⟩ .grantWaitingList⟩]) := by
  intro h
  obtain ⟨computeProofHash, h⟩ := h
  have heq := h ⟨"GADMIN"⟩ ⟨"GMALLORY"⟩ (administers _ _) (administers _ _)
  exact absurd heq (by decide)

end LineProof.Enrollment
