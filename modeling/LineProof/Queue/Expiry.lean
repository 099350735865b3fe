import LineProof.Queue.Invariant

/-!
# Expiring in batches

`expire_positions_batch` has a loop of its own. It does what a call of `expire_position` for each id does
(`expirePositionsBatch_cons`), all of them or none: an id that an earlier one of the same batch has expired
fails the batch like any other that is not pending.
-/

namespace LineProof.Queue

open Soroban

/-- One `expire_position` call for each id. -/
def expireSingly (env : Env) (admin : Address) (ids : List ℕ) : List (Invocation Entrypoint) :=
  ids.map fun id => ⟨env, .expirePosition admin id⟩

/-- A batch expiry against the single ones. -/
structure BatchExpiry (l : Ledger Store) (env : Env) (admin : Address) (ids : List ℕ) : Prop where
  succeeds_iff : Succeeds (exec (.expirePositionsBatch admin ids)) env l ↔
    ∃ c, AdminCall l.store env admin c ∧ (c.status = .advancementActive ∨ c.status = .closed) ∧
      ids.Nodup ∧ ∀ i ∈ ids, statusAt l.store.positions i = some .pending
  /-- A batch that succeeds leaves what the single calls leave, and each of these goes through. -/
  iterated : ∀ o l', exec (.expirePositionsBatch admin ids) env l = .ok (o, l') →
    l' = queue.run l (expireSingly env admin ids) ∧
      (queue.history l (expireSingly env admin ids)).map (·.call) = expireSingly env admin ids
  rollback : ¬ Succeeds (exec (.expirePositionsBatch admin ids)) env l →
    queue.next l ⟨env, .expirePositionsBatch admin ids⟩ = l

variable {env : Env} {l l' : Ledger Store} {admin : Address} {id : ℕ} {ids : List ℕ}

/-- A batch expiry as a call of the contract. -/
theorem exec_expirePositionsBatch {o : Output} :
    exec (.expirePositionsBatch admin ids) env l = .ok (o, l') ↔
      expirePositionsBatch admin ids env l = .ok ((), l') ∧ o = .unit := by
  constructor
  · intro h
    obtain ⟨⟨⟩, hbatch, hout⟩ := bind_pure_eq_ok.mp h
    exact ⟨hbatch, hout⟩
  · intro h
    rcases h with ⟨hbatch, hout⟩
    exact bind_pure_eq_ok.mpr ⟨(), hbatch, hout⟩

/-- A batch is its first expiry and the batch of the others. -/
theorem expirePositionsBatch_cons :
    expirePositionsBatch admin (id :: ids) env l = .ok ((), l') ↔
      ∃ l₁, expirePosition admin id env l = .ok ((), l₁) ∧
        expirePositionsBatch admin ids env l₁ = .ok ((), l') := by
  simp only [expirePosition_eq_ok, expirePositionsBatch_eq_ok, List.nodup_cons, List.forall_mem_cons,
    List.nodup_nil, Prod.mk.injEq, true_and]
  constructor
  · intro h
    rcases h with ⟨c, call, hstatus, ⟨hid, hnodup⟩, ⟨hfirst, hpend⟩, rfl⟩
    obtain ⟨p, hp, -⟩ := statusAt_eq_some.mp hfirst
    refine ⟨_, ⟨c, call, hstatus, ⟨List.not_mem_nil, trivial⟩, ⟨hfirst, nofun⟩, rfl⟩, c,
      ⟨call.config, call.isAdmin, call.auth⟩, hstatus, hnodup, ?_, ?_⟩
    · intro i hi
      have hne : i ≠ id := fun heq => hid (heq ▸ hi)
      rw [statusAt_expireAll, if_neg (by simpa using hne)]
      exact hpend i hi
    · rw [expireAll_cons hp, expireAll_cons hp, List.map_cons, List.append_assoc]
      rfl
  · intro h
    rcases h with ⟨_, ⟨c, call, hstatus, -, ⟨hfirst, -⟩, rfl⟩, _, -, -, hnodup, hpend, rfl⟩
    obtain ⟨p, hp, -⟩ := statusAt_eq_some.mp hfirst
    have hid : id ∉ ids := by
      intro hmem
      -- the first expiry would have left the second one nothing pending
      have hagain := hpend id hmem
      rw [statusAt_expireAll, if_pos List.mem_cons_self, hfirst] at hagain
      contradiction
    refine ⟨c, call, hstatus, ⟨hid, hnodup⟩, ⟨hfirst, ?_⟩, ?_⟩
    · intro i hi
      have hne : i ≠ id := fun heq => hid (heq ▸ hi)
      have hkept := hpend i hi
      rw [statusAt_expireAll, if_neg (by simpa using hne)] at hkept
      exact hkept
    · rw [expireAll_cons hp, expireAll_cons hp, List.map_cons, List.append_assoc]
      rfl

/-- A batch that succeeds runs through its single expiries. -/
theorem expireSingly_run (h : expirePositionsBatch admin ids env l = .ok ((), l')) :
    l' = queue.run l (expireSingly env admin ids) ∧
      (queue.history l (expireSingly env admin ids)).map (·.call) = expireSingly env admin ids := by
  induction ids generalizing l with
  | nil =>
    obtain ⟨_, -, -, -, -, hl'⟩ := expirePositionsBatch_eq_ok.mp h
    obtain ⟨-, rfl⟩ := Prod.mk.inj hl'
    refine ⟨?_, rfl⟩
    rw [List.map_nil, List.append_nil]
    rfl
  | cons id ids ih =>
    obtain ⟨l₁, hfirst, hrest⟩ := expirePositionsBatch_cons.mp h
    have hexec : exec (.expirePosition admin id) env l = .ok (.unit, l₁) :=
      bind_eq_ok.mpr ⟨_, _, hfirst, rfl⟩
    obtain ⟨hrun, hcalls⟩ := ih hrest
    have hnext : queue.next l ⟨env, .expirePosition admin id⟩ = l₁ := Transactional.next_of_ok hexec
    have hcommit : queue.commit? l ⟨env, .expirePosition admin id⟩ = some _ :=
      Transactional.commit?_of_ok hexec
    rw [expireSingly, List.map_cons, Transactional.run_cons, hnext, Transactional.history_cons, hcommit,
      hnext]
    refine ⟨hrun, ?_⟩
    rw [Option.toList_some, List.singleton_append, List.map_cons]
    exact congrArg (List.cons _) hcalls

/-- In every reachable state a batch expiry is the iterated single one, or does nothing. -/
theorem batch_expiry (d : Deployment) (calls : List (Invocation Entrypoint)) (env : Env)
    (admin : Address) (ids : List ℕ) : BatchExpiry (queue.run d.start calls) env admin ids := by
  constructor
  · constructor
    · intro h
      rcases h with ⟨⟨o, l'⟩, hexec⟩
      obtain ⟨hbatch, -⟩ := exec_expirePositionsBatch.mp hexec
      obtain ⟨c, call, hstatus, hnodup, hpend, -⟩ := expirePositionsBatch_eq_ok.mp hbatch
      exact ⟨c, call, hstatus, hnodup, hpend⟩
    · intro h
      rcases h with ⟨c, call, hstatus, hnodup, hpend⟩
      exact ⟨_, exec_expirePositionsBatch.mpr
        ⟨expirePositionsBatch_eq_ok.mpr ⟨c, call, hstatus, hnodup, hpend, rfl⟩, rfl⟩⟩
  · intro o l' h
    obtain ⟨hbatch, -⟩ := exec_expirePositionsBatch.mp h
    exact expireSingly_run hbatch
  · intro hfail
    rcases queue.commit?_cases (queue.run d.start calls) ⟨env, .expirePositionsBatch admin ids⟩ with
      ⟨c, hpre, hcall, -, -⟩ | ⟨-, hnext, -⟩
    · have hok := c.ok
      rw [hpre, hcall] at hok
      exact absurd ⟨(c.out, c.post), hok⟩ hfail
    · exact hnext

end LineProof.Queue
