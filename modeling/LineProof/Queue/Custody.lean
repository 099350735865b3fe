import LineProof.Queue.Invariant

/-!
# Custody of the administrator

`accept_admin` is meant to be the only way to a new administrator, on a proposal of the current one.
`initialize` has no guard against a second call, so a signed one defeats this at any time
(`reinitialize_takes_over`). Without such a call the handover is as intended: `adminCustody_iff`.
-/

namespace LineProof.Queue

open Soroban

/-- The stored administrator. -/
def Store.admin (s : Store) : Option Address := s.config.map (·.admin)

/-- The commit changes the stored administrator. -/
def ChangesAdmin (c : openQueue.Commit) : Prop := c.post.store.admin ≠ c.pre.store.admin

instance : DecidablePred ChangesAdmin := fun _ => inferInstanceAs (Decidable (_ ≠ _))

/-- The address a `propose_admin` names; nothing for the other calls. -/
def proposed : Call → Option Address
  | .entry (.proposeAdmin _ proposedAdmin) => some proposedAdmin
  | _ => none

/-- The last successful `propose_admin` since the last change of the administrator. -/
def lastProposal (past : List openQueue.Commit) : Option openQueue.Commit :=
  ((past.rtakeWhile fun c => ¬ ChangesAdmin c).filter fun c =>
    (proposed c.call.entry).isSome).getLast?

/-- The commit is a proposal of `p`, authorized by `admin`, who was the administrator then. -/
structure Proposes (c : openQueue.Commit) (admin p : Address) : Prop where
  named : proposed c.call.entry = some p
  isAdmin : c.pre.store.admin = some admin
  auth : admin ∈ c.call.env.authorizers

/-- The administrator is handed over by proposal and acceptance only. -/
structure AdminCustody (start : Ledger Store) (calls : List (Invocation Call)) : Prop where
  changes : ∀ past c future, openQueue.history start calls = past ++ c :: future →
    ChangesAdmin c → ∃ admin p d, c.call.entry = .entry (.acceptAdmin p) ∧
      c.post.store.admin = some p ∧ c.pre.store.admin = some admin ∧
      lastProposal past = some d ∧ Proposes d admin p
  initializedOnce : ∀ c ∈ openQueue.history start calls, ∀ admin config,
    c.call.entry ≠ .initializeQueue admin config

/-- The call is an `initialize` that passes both checks of `initialize`. -/
def Reinitializes (i : Invocation Call) : Prop :=
  ∃ admin config, i.entry = .initializeQueue admin config ∧ admin ∈ i.env.authorizers ∧
    config.admin = admin

variable {s s' : Store} {env : Env} {e : Entrypoint} {o : Output} {published : List Event}

/-! ## One call -/

/-- What a call does to the administrator and to the pending proposal. -/
inductive AdminStep (env : Env) (s s' : Store) : Entrypoint → Prop
  | accept (p : Address) (pending : s.pendingAdmin = some p) (admin : s'.admin = some p)
    (cleared : s'.pendingAdmin = none) : AdminStep env s s' (.acceptAdmin p)
  | propose (cur p : Address) (isAdmin : s.admin = some cur) (auth : cur ∈ env.authorizers)
    (same : s'.admin = s.admin) (pending : s'.pendingAdmin = some p) :
    AdminStep env s s' (.proposeAdmin cur p)
  | other (e : Entrypoint) (notProposal : proposed (.entry e) = none) (same : s'.admin = s.admin)
    (pending : s'.pendingAdmin = s.pendingAdmin) : AdminStep env s s' e

/-- The caller is the stored administrator. -/
theorem AdminCall.admin_eq {admin : Address} {c : QueueConfig} (h : AdminCall s env admin c) :
    s.admin = some admin := by
  rw [Store.admin, h.config, Option.map_some, h.isAdmin]

/-- A call of the lifecycle proposes nobody. -/
theorem LifecycleCall.not_proposal {admin : Address} {a b : QueueStatus}
    (edge : LifecycleCall e admin a b) : proposed (.entry e) = none := by
  cases edge <;> rfl

/-- A call keeps the administrator, or accepts the proposed one. -/
theorem Effect.adminStep (eff : Effect env s e o s' published) : AdminStep env s s' e := by
  cases eff with
  | read reader =>
    refine .other e ?_ rfl rfl
    cases e <;> first | rfl | exact reader.elim
  | upgrade | migrate | enroll | cancel => exact .other _ rfl rfl rfl
  | @propose cur p _ call => exact .propose cur p call.admin_eq call.auth rfl rfl
  | @accept p _ _ pending => exact .accept p pending rfl rfl
  | @lifecycle _ _ c _ edge call =>
    refine .other e edge.not_proposal ?_ rfl
    rw [Store.admin, Store.admin, call.config, Option.map_some, Option.map_some]
  | @advance _ _ c call =>
    refine .other _ rfl ?_ rfl
    rw [Store.admin, Store.admin, call.config, Store.afterAdvance, Option.map_some,
      Option.map_some, QueueConfig.activate]
    split <;> rfl
  | @expire _ _ ids _ expiry =>
    refine .other e ?_ rfl rfl
    cases e <;> first | rfl | cases expiry

/-- The id counter stays in range. -/
theorem Effect.nextId_le (eff : Effect env s e o s' published) (h : s.nextId.getD 1 ≤ u32Max) :
    s'.nextId.getD 1 ≤ u32Max := by
  cases eff with
  | enroll _ _ _ _ id => exact id
  | _ => exact h

/-! ## The last proposal -/

/-- A commit that keeps the administrator either proposes somebody or leaves the last proposal. -/
theorem lastProposal_concat (past : List openQueue.Commit) {c : openQueue.Commit}
    (hsame : ¬ ChangesAdmin c) :
    lastProposal (past ++ [c]) =
      if (proposed c.call.entry).isSome then some c else lastProposal past := by
  rw [lastProposal, List.rtakeWhile_concat_pos _ past c (by simpa using hsame), List.filter_append]
  split
  · case _ hprop => simp [hprop]
  · case _ hprop => simp [hprop, lastProposal]

/-- A pending proposal is the last proposal, and its author is still the administrator. -/
structure Pending (past : List openQueue.Commit) (s : Store) : Prop where
  nextId_le : s.nextId.getD 1 ≤ u32Max
  proposal : ∀ p, s.pendingAdmin = some p →
    ∃ admin d, s.admin = some admin ∧ lastProposal past = some d ∧ Proposes d admin p

/-- The pending administrator is the one proposed last, and an acceptance is of that one. -/
theorem Pending.commit {past : List openQueue.Commit} {c : openQueue.Commit} {e : Entrypoint}
    (he : c.call.entry = .entry e) (h : Pending past c.pre.store) :
    Pending (past ++ [c]) c.post.store ∧
      (ChangesAdmin c → ∃ p, e = .acceptAdmin p ∧ c.pre.store.pendingAdmin = some p ∧
        c.post.store.admin = some p) := by
  have hok := c.ok
  simp only [openQueue, machine, he, execCall] at hok
  have htotal : c.pre.store.totalCreated ≤ u32Max := (Nat.sub_le _ _).trans h.nextId_le
  obtain ⟨_, -, eff⟩ := effect_of_exec htotal hok
  have hnext := eff.nextId_le h.nextId_le
  generalize hs : c.post.store = s' at eff hnext
  cases eff.adminStep with
  | accept p pending admin cleared =>
    refine ⟨⟨hnext, fun q hq => ?_⟩, fun _ => ⟨p, rfl, pending, admin⟩⟩
    rw [cleared] at hq
    contradiction
  | propose cur p isAdmin auth same pending =>
    -- the proposal replaces whatever was pending, and is the last one now
    have hsame : ¬ ChangesAdmin c := fun hne => hne (hs ▸ same)
    refine ⟨⟨hnext, fun q hq => ?_⟩, fun hne => absurd hne hsame⟩
    obtain rfl := Option.some.inj (pending.symm.trans hq)
    refine ⟨cur, c, same.trans isAdmin, ?_, ⟨?_, isAdmin, auth⟩⟩
    · rw [lastProposal_concat past hsame, he]; rfl
    · rw [he]; rfl
  | other _ notProposal same pending =>
    have hsame : ¬ ChangesAdmin c := fun hne => hne (hs ▸ same)
    refine ⟨⟨hnext, fun q hq => ?_⟩, fun hne => absurd hne hsame⟩
    obtain ⟨admin, d, hadmin, hlast, hd⟩ := h.proposal q (pending ▸ hq)
    refine ⟨admin, d, same.trans hadmin, ?_, hd⟩
    rw [lastProposal_concat past hsame, he, notProposal]
    exact hlast

/-! ## Every run -/

/-- A commit is another `initialize`, or a call of one of the other entrypoints. -/
theorem reinitializes_or_entry (c : openQueue.Commit) :
    Reinitializes c.call ∨ ∃ e, c.call.entry = .entry e := by
  cases hentry : c.call.entry with
  | entry e => exact .inr ⟨e, rfl⟩
  | initializeQueue admin config =>
    have hok := c.ok
    simp only [openQueue, machine, hentry, execCall, bind_eq_ok, initializeQueue_eq_ok] at hok
    obtain ⟨_, _, ⟨auth, hadmin, -⟩, -⟩ := hok
    exact .inl ⟨admin, config, hentry, auth, hadmin⟩

/-- In a run without another `initialize` every commit is one of the other entrypoints. -/
theorem entry_of_mem_history {l : Ledger Store} {calls : List (Invocation Call)}
    (h : ∀ i ∈ calls, ¬ Reinitializes i) :
    ∀ c ∈ openQueue.history l calls, ∃ e, c.call.entry = .entry e := by
  intro c hc
  obtain ⟨before, after, rfl, -⟩ := Transactional.mem_history hc
  exact (reinitializes_or_entry c).resolve_left (h c.call (by simp))

/-- Until somebody initializes again, the pending administrator is the one proposed last. -/
theorem Deployment.pending (d : Deployment) {calls : List (Invocation Call)}
    (h : ∀ i ∈ calls, ¬ Reinitializes i) :
    Pending (openQueue.history d.start calls) (openQueue.run d.start calls).store := by
  refine Transactional.history_invariant (M := openQueue)
    (P := fun past l => (∀ c ∈ past, ∃ e, c.call.entry = .entry e) → Pending past l.store)
    ?_ ?_ calls (entry_of_mem_history h)
  · intro past c ih hentry
    obtain ⟨e, he⟩ := hentry c (by simp)
    exact ((ih fun d hd => hentry d (by simp [hd])).commit he).1
  · intro _
    refine ⟨d.wellFormed.nextId_le, fun p hp => ?_⟩
    simp [d.start_eq] at hp

/-- A signed `initialize` goes through in every state. -/
theorem initialize_succeeds (l : Ledger Store) {admin : Address} {config : QueueConfig}
    (auth : admin ∈ env.authorizers) (hadmin : config.admin = admin) :
    ∃ l', openQueue.exec ⟨env, .initializeQueue admin config⟩ l = .ok (.unit, l') := by
  obtain ⟨r, hinit⟩ : Succeeds (initializeQueue admin config) env l :=
    ⟨_, initializeQueue_eq_ok.mpr ⟨auth, hadmin, rfl⟩⟩
  refine ⟨r.2, ?_⟩
  simp only [openQueue, machine, execCall, bind_eq_ok, pure_eq_ok]
  exact ⟨(), r.2, hinit, rfl⟩

/-- Custody of the administrator holds in exactly the runs that contain no further `initialize` signed
by the administrator it names. -/
theorem adminCustody_iff (d : Deployment) (calls : List (Invocation Call)) :
    AdminCustody d.start calls ↔ ∀ i ∈ calls, ¬ Reinitializes i := by
  constructor
  · -- wherever the second `initialize` stands in the run, it goes through
    rintro h ⟨env, _⟩ hi ⟨admin, config, rfl, auth, hadmin⟩
    obtain ⟨before, after, rfl⟩ := List.append_of_mem hi
    obtain ⟨_, hok⟩ := initialize_succeeds (openQueue.run d.start before) auth hadmin
    let c : openQueue.Commit := ⟨_, _, _, _, hok⟩
    exact h.initializedOnce c (c.mem_history before rfl after) admin config rfl
  · intro h
    constructor
    · intro past c future hsplit hchange
      obtain ⟨before, after, rfl, rfl, hpre⟩ := Transactional.history_split hsplit
      obtain ⟨e, he⟩ := (reinitializes_or_entry c).resolve_left (h c.call (by simp))
      have hbefore : ∀ i ∈ before, ¬ Reinitializes i := fun i hi => h i (by simp [hi])
      have hpending := d.pending hbefore
      rw [hpre] at hpending
      obtain ⟨p, rfl, hp, hpost⟩ := (hpending.commit he).2 hchange
      obtain ⟨admin, proposal, hadmin, hlast, hproposes⟩ := hpending.proposal p hp
      exact ⟨admin, p, proposal, he, hpost, hadmin, hlast, hproposes⟩
    · intro c hc admin config hinit
      obtain ⟨e, he⟩ := entry_of_mem_history h c hc
      exact absurd (hinit.symm.trans he) nofun

/-- Somebody who was never proposed takes over a deployed queue by signing a second `initialize`. -/
theorem reinitialize_takes_over :
    ¬ ∀ (d : Deployment) (calls : List (Invocation Call)), AdminCustody d.start calls := by
  intro h
  let admin : Address := ⟨"GADMIN"⟩
  let mallory : Address := ⟨"GMALLORY"⟩
  let config : QueueConfig :=
    ⟨⟨"clinic"⟩, ⟨"clinic"⟩, admin, 10, 0, 100, .draft, 1, .fifo⟩
  let contract : Address := ⟨"CQUEUE"⟩
  let d := deploy ⟨0, [admin], contract⟩ config (by decide)
  let takeover : Invocation Call :=
    ⟨⟨1, [mallory], contract⟩, .initializeQueue mallory { config with admin := mallory }⟩
  have hok : openQueue.exec takeover d.start = .ok (.unit, _) := rfl
  let c : openQueue.Commit := ⟨d.start, takeover, .unit, _, hok⟩
  obtain ⟨past, future, hsplit⟩ := List.append_of_mem (c.mem_history [] rfl [])
  have hchange : some mallory ≠ some admin := by decide
  obtain ⟨_, _, _, hentry, -⟩ := (h d [takeover]).changes past c future hsplit hchange
  exact absurd hentry nofun

end LineProof.Queue
