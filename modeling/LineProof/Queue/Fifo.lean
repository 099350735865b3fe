import LineProof.Queue.Invariant

/-!
# FIFO fairness

The lists that the successive `advance` calls return join to a strictly increasing list of ids, and
that list holds exactly the positions whose status is `Advanced`. With the cursor invariant this gives
the order of service: everybody before a served position has left the line.
-/

namespace LineProof.Queue

open Soroban

/-- The list an `advance` returned; empty for the other entrypoints. -/
def servedOf : Entrypoint → Output → List ℕ
  | .advance _ _, .ids ids => ids
  | _, _ => []

/-- The lists returned by the successful `advance` calls of a history, joined in order. -/
def served (past : List queue.Commit) : List ℕ :=
  past.flatMap fun c => servedOf c.call.entry c.out

/-- The order of service in a storage, when `ids` are the ids that were served. -/
structure FifoFair (s : Store) (ids : List ℕ) : Prop where
  cursor_le : s.idx.getD 0 ≤ s.nextId.getD 1 - 1
  passed : ∀ id, 1 ≤ id → id ≤ s.idx.getD 0 →
    ∃ st, statusAt s.positions id = some st ∧ st ≠ .pending
  ahead : ∀ id, s.idx.getD 0 < id → statusAt s.positions id ≠ some .advanced
  increasing : ids.Pairwise (· < ·)
  mem_iff : ∀ id, id ∈ ids ↔ statusAt s.positions id = some .advanced
  /-- Everybody before a served position has been served, cancelled or expired. -/
  order : ∀ j, statusAt s.positions j = some .advanced → ∀ i, 1 ≤ i → i < j →
    statusAt s.positions i = some .advanced ∨ statusAt s.positions i = some .cancelled ∨
      statusAt s.positions i = some .expired
  once : ids.Nodup

variable {s s' : Store} {env : Env} {e : Entrypoint} {o : Output} {published : List Event}

/-- A call without an answer has served nobody. -/
@[simp] theorem servedOf_unit (e : Entrypoint) : servedOf e .unit = [] := by
  cases e <;> rfl

/-- A call that only reads has served nobody. -/
theorem servedOf_reader (reader : e.IsReader) (o : Output) : servedOf e o = [] := by
  cases e <;> first | rfl | exact reader.elim

/-- What was served in two parts of a history. -/
@[simp] theorem served_append (past more : List queue.Commit) :
    served (past ++ more) = served past ++ served more :=
  List.flatMap_append

/-- What was served in one commit. -/
theorem served_singleton (c : queue.Commit) : served [c] = servedOf c.call.entry c.out := by
  simp [served]

/-! ## One call -/

/-- A batch serves increasing ids. -/
theorem servedBy_increasing (s : Store) (batchSize : ℕ) :
    (s.servedBy batchSize).Pairwise (· < ·) :=
  (List.pairwise_lt_range' 1).filter _

/-- A batch is served in the order of the ids. -/
theorem servedOf_increasing (eff : Effect env s e o s' published) :
    (servedOf e o).Pairwise (· < ·) := by
  cases eff with
  | read reader => rw [servedOf_reader reader]; exact .nil
  | enroll => exact .nil
  | advance => exact servedBy_increasing s _
  | upgrade | propose | accept | lifecycle | migrate | cancel | expire =>
    rw [servedOf_unit]
    exact .nil

/-- A batch serves ids ahead of the cursor. -/
theorem lt_of_mem_servedOf (eff : Effect env s e o s' published) {id : ℕ}
    (hid : id ∈ servedOf e o) : s.idx.getD 0 < id := by
  cases eff with
  | read reader => simp [servedOf_reader reader] at hid
  | enroll => simp [servedOf] at hid
  | advance =>
    have hscan := List.mem_of_mem_filter hid
    rw [Store.scannedBy, scanned, List.mem_range'_1] at hscan
    omega
  | upgrade | propose | accept | lifecycle | migrate | cancel | expire => simp at hid

/-- After a call, the advanced positions are those from before and those the call served. -/
theorem advanced_iff (h : WellFormed s) (eff : Effect env s e o s' published) (id : ℕ) :
    statusAt s'.positions id = some .advanced ↔
      statusAt s.positions id = some .advanced ∨ id ∈ servedOf e o := by
  cases eff with
  | read reader => simp [servedOf_reader reader]
  | upgrade | propose | accept | lifecycle | migrate => simp
  | @enroll u =>
    rw [Store.afterEnroll]
    by_cases hid : id = s.nextId.getD 1
    · subst hid
      simp [newPosition, servedOf, statusAt, h.lookup_nextId]
    · simp [statusAt_insert_of_ne _ _ hid, servedOf]
  | @cancel i p position _ pending =>
    rw [Store.afterCancel]
    by_cases hid : id = i
    · subst hid
      simp [statusAt, position, pending]
    · simp [statusAt_insert_of_ne _ _ hid]
  | @advance admin batchSize =>
    rw [Store.afterAdvance, statusAt_serveAll, servedOf, Store.servedBy, withStatus,
      List.mem_filter, decide_eq_true_eq]
    split
    · case _ hserved => simp [hserved]
    · case _ hkept => simp [hkept]
  | @expire _ _ ids _ _ _ _ _ pending =>
    rw [Store.afterExpire, statusAt_expireAll, servedOf_unit]
    by_cases hid : id ∈ ids
    · simp [hid, pending id hid]
    · simp [hid]

/-! ## Every run -/

/-- The served ids are increasing and are the advanced positions. -/
structure ServedExactly (past : List queue.Commit) (s : Store) : Prop where
  wellFormed : WellFormed s
  increasing : (served past).Pairwise (· < ·)
  mem_iff : ∀ id, id ∈ served past ↔ statusAt s.positions id = some .advanced

/-- One commit: the ids served by it come after all that were served before. -/
theorem ServedExactly.commit (past : List queue.Commit) (c : queue.Commit)
    (h : ServedExactly past c.pre.store) : ServedExactly (past ++ [c]) c.post.store := by
  obtain ⟨_, -, eff⟩ := h.wellFormed.commit c
  constructor
  · exact h.wellFormed.effect eff
  · -- the ids served before lie behind the cursor, those of this call ahead of it
    rw [served_append, served_singleton, List.pairwise_append]
    refine ⟨h.increasing, servedOf_increasing eff, fun i hi j hj => ?_⟩
    have hlt := lt_of_mem_servedOf eff hj
    have hle : i ≤ c.pre.store.idx.getD 0 := by
      by_contra hgt
      exact h.wellFormed.ahead i (by omega) ((h.mem_iff i).mp hi)
    omega
  · intro id
    rw [served_append, served_singleton, List.mem_append, h.mem_iff,
      advanced_iff h.wellFormed eff]

/-- In every run exactly the advanced ids were served, in their order. -/
theorem Deployment.servedExactly (d : Deployment) (calls : List (Invocation Entrypoint)) :
    ServedExactly (queue.history d.start calls) (queue.run d.start calls).store := by
  refine Transactional.history_invariant (P := fun past l => ServedExactly past l.store)
    ServedExactly.commit ⟨d.wellFormed, .nil, fun id => ?_⟩ calls
  simp [served, d.start_eq, statusAt]

/-- Behind the cursor every position exists and has left the line. -/
theorem WellFormed.left_line (h : WellFormed s) {id : ℕ} (hone : 1 ≤ id)
    (hle : id ≤ s.idx.getD 0) : ∃ st, statusAt s.positions id = some st ∧ st ≠ .pending := by
  have hcursor := h.cursor_le
  have hnext := h.one_le_nextId
  obtain ⟨p, hp⟩ := (h.dense id).mpr ⟨hone, by omega⟩
  have hst : statusAt s.positions id = some p.status := statusAt_eq_some.mpr ⟨p, hp, rfl⟩
  exact ⟨p.status, hst, fun hpend => h.passed id hle (hst.trans (congrArg some hpend))⟩

/-- A queue is first in, first out: in every reachable state the cursor separates those who have left
the line from those who still wait, and the served ids are strictly increasing. -/
theorem fifo_fair (d : Deployment) (calls : List (Invocation Entrypoint)) :
    FifoFair (queue.run d.start calls).store (served (queue.history d.start calls)) := by
  have hserved := d.servedExactly calls
  have h := hserved.wellFormed
  refine ⟨h.cursor_le, fun id => h.left_line, h.ahead, hserved.increasing, hserved.mem_iff, ?_,
    hserved.increasing.imp fun hlt => Nat.ne_of_lt hlt⟩
  intro j hj i hone hlt
  -- `j` was served, so the cursor has passed it, and `i` before it
  have hcursor : j ≤ (queue.run d.start calls).store.idx.getD 0 := by
    by_contra hgt
    exact h.ahead j (by omega) hj
  obtain ⟨st, hst, hne⟩ := h.left_line hone (by omega : i ≤ _)
  cases st with
  | pending => exact absurd rfl hne
  | advanced => exact .inl hst
  | cancelled => exact .inr (.inl hst)
  | expired => exact .inr (.inr hst)

end LineProof.Queue
