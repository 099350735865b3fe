import LineProof.Escrow.Conservation

/-!
# One deposit, one outcome

A record is written by one deposit and ended at most once. Recovery rests on the running totals: an
active record past its expiry can always be expired, because subtracting its amount stays in range.
-/

namespace LineProof.Escrow

open Soroban

/-- `record'` is the record `record` at the same or a later time. -/
structure Kept (record record' : EscrowRecord) : Prop where
  identity : record'.identity = record.identity
  queueId : record'.queueId = record.queueId
  amount : record'.amount = record.amount
  asset : record'.asset = record.asset
  createdAt : record'.createdAt = record.createdAt
  expiresAt : record'.expiresAt = record.expiresAt
  terminal : record.status ≠ .active → record' = record

/-- The call is a deposit of `u` for `q`. -/
def depositsFor (q : Symbol) (u : Address) : Entrypoint → Bool
  | .deposit caller queueId _ _ => caller = u ∧ queueId = q
  | _ => false

/-- The active record of `u` for `q` has ended, with an outcome and at a time; nothing else has changed in
it, and no other record has. -/
def Settles (s s' : Store) (q : Symbol) (u : Address) (outcome : EscrowStatus) (now : ℕ) : Prop :=
  ∃ record, s.records.lookup (q, u) = some record ∧ record.status = .active ∧
    s'.records.lookup (q, u) = some { record with status := outcome, releasedAt := some now } ∧
    ∀ k, k ≠ (q, u) → s'.records.lookup k = s.records.lookup k

/-- What holds of the records over one run of the escrow contract. -/
structure RecordsFinal (calls : List (Invocation Entrypoint)) : Prop where
  /-- At most one deposit goes through for each identity and queue. -/
  once : ∀ q u, ((escrow.history fresh calls).countP fun c => depositsFor q u c.call.entry) ≤ 1
  kept : ∀ before after, calls = before ++ after → ∀ k record,
    (escrow.run fresh before).store.records.lookup k = some record →
    ∃ record', (escrow.run fresh calls).store.records.lookup k = some record' ∧ Kept record record'
  releasedAt_iff : ∀ k record, (escrow.run fresh calls).store.records.lookup k = some record →
    (record.releasedAt.isSome ↔ record.status ≠ .active)
  /-- Expiry needs nothing but an active record and the time. -/
  expire_iff : ∀ env q u, Succeeds (expire u q) env (escrow.run fresh calls) ↔
    ∃ record, (escrow.run fresh calls).store.records.lookup (q, u) = some record ∧
      record.status = .active ∧ record.expiresAt ≤ env.timestamp
  /-- Each of the three ends writes its own outcome. -/
  release : ∀ env admin q u l', release admin u q env (escrow.run fresh calls) = .ok ((), l') →
    Settles (escrow.run fresh calls).store l'.store q u .released env.timestamp
  refund : ∀ env admin q u l', refund admin u q env (escrow.run fresh calls) = .ok ((), l') →
    Settles (escrow.run fresh calls).store l'.store q u .refunded env.timestamp
  expire : ∀ env q u l', expire u q env (escrow.run fresh calls) = .ok ((), l') →
    Settles (escrow.run fresh calls).store l'.store q u .expired env.timestamp

/-- A record keeps its own fields. -/
theorem Kept.refl (record : EscrowRecord) : Kept record record :=
  ⟨rfl, rfl, rfl, rfl, rfl, rfl, fun _ => rfl⟩

/-- Fields that two steps keep are kept by both together. -/
theorem Kept.trans {r₁ r₂ r₃ : EscrowRecord} (h₁ : Kept r₁ r₂) (h₂ : Kept r₂ r₃) : Kept r₁ r₃ := by
  refine ⟨h₂.identity.trans h₁.identity, h₂.queueId.trans h₁.queueId, h₂.amount.trans h₁.amount,
    h₂.asset.trans h₁.asset, h₂.createdAt.trans h₁.createdAt, h₂.expiresAt.trans h₁.expiresAt, ?_⟩
  intro hterminal
  obtain rfl := h₁.terminal hterminal
  exact h₂.terminal hterminal

variable {s s' : Store} {env : Env} {e : Entrypoint} {o : Output} {published : List Event}
  {l : Ledger Store} {q : Symbol} {u : Address} {k : RecordKey}

/-! ## One call -/

/-- A call keeps every stored record. -/
theorem Effect.kept (eff : Effect env s e o s' published) {record : EscrowRecord}
    (h : s.records.lookup k = some record) :
    ∃ record', s'.records.lookup k = some record' ∧ Kept record record' := by
  have change := eff.recordChange k.1 k.2
  rw [Prod.mk.eta, h] at change
  generalize s'.records.lookup k = new at change
  cases change with
  | keep => exact ⟨record, rfl, .refl record⟩
  | ended _ active =>
    exact ⟨_, rfl, rfl, rfl, rfl, rfl, rfl, rfl, fun hterminal => absurd active hterminal⟩

/-- `released_at` is written together with the outcome. -/
theorem Effect.releasedAt (eff : Effect env s e o s' published)
    (h : ∀ record, s.records.lookup k = some record →
      (record.releasedAt.isSome ↔ record.status ≠ .active)) :
    ∀ record, s'.records.lookup k = some record →
      (record.releasedAt.isSome ↔ record.status ≠ .active) := by
  have change := eff.recordChange k.1 k.2
  rw [Prod.mk.eta] at change
  generalize s.records.lookup k = old, s'.records.lookup k = new at h change
  cases change with
  | keep => exact h
  | opened => rintro _ ⟨⟩; simp [newRecord]
  | ended settlement => rintro _ ⟨⟩; simp [EscrowRecord.settle, settlement.not_active]

/-- A successful deposit finds no record, and leaves one. -/
theorem Effect.of_deposit (eff : Effect env s e o s' published) (h : depositsFor q u e = true) :
    s.records.lookup (q, u) = none ∧ s'.records.lookup (q, u) ≠ none := by
  cases eff with
  | read reader => cases e <;> first | exact reader.elim | contradiction
  | setConfig => contradiction
  | settle settlement => cases settlement <;> contradiction
  | deposit checks =>
    obtain ⟨rfl, rfl⟩ := of_decide_eq_true h
    refine ⟨checks.free, ?_⟩
    rw [Store.afterDeposit, newRecord, Finmap.lookup_insert]
    exact Option.some_ne_none _

/-- Ending a deposit writes its record, and no other. -/
theorem settles_of_settle {l' : Ledger Store} {record : EscrowRecord} {outcome : EscrowStatus}
    {kind : String} (stored : l.store.records.lookup (q, u) = some record)
    (h : settle outcome kind u q record env l = .ok ((), l')) :
    Settles l.store l'.store q u outcome env.timestamp := by
  obtain ⟨active, -, heq⟩ := settle_eq_ok.mp h
  obtain ⟨-, rfl⟩ := Prod.mk.inj heq
  exact ⟨record, stored, active, Finmap.lookup_insert _,
    fun k hk => Finmap.lookup_insert_of_ne _ hk⟩

/-! ## Every run -/

/-- At most one deposit so far, and none without a record. -/
structure DepositedOnce (q : Symbol) (u : Address) (past : List escrow.Commit) (s : Store) : Prop where
  le_one : (past.countP fun c => depositsFor q u c.call.entry) ≤ 1
  none : s.records.lookup (q, u) = none → (past.countP fun c => depositsFor q u c.call.entry) = 0

/-- A commit extends the account of deposits by at most one. -/
theorem DepositedOnce.commit (past : List escrow.Commit) (c : escrow.Commit)
    (h : DepositedOnce q u past c.pre.store) : DepositedOnce q u (past ++ [c]) c.post.store := by
  obtain ⟨_, -, eff⟩ := effect_of_exec c.ok
  have hcount : ((past ++ [c]).countP fun c => depositsFor q u c.call.entry) =
      (past.countP fun c => depositsFor q u c.call.entry) +
        if depositsFor q u c.call.entry then 1 else 0 := by
    rw [List.countP_append, List.countP_singleton]
  by_cases hdep : depositsFor q u c.call.entry = true
  · rw [if_pos hdep] at hcount
    obtain ⟨hold, hnew⟩ := eff.of_deposit hdep
    have hzero := h.none hold
    exact ⟨by omega, fun hnone => absurd hnone hnew⟩
  · rw [if_neg hdep, add_zero] at hcount
    refine ⟨hcount ▸ h.le_one, fun hnew => ?_⟩
    rw [hcount]
    -- a record from before the call would still be there
    apply h.none
    cases hold : c.pre.store.records.lookup (q, u) with
    | none => rfl
    | some record =>
      obtain ⟨record', hkept, -⟩ := eff.kept hold
      rw [hnew] at hkept
      contradiction

/-- A record once stored is there after every run, with its fields kept. -/
theorem kept_run (calls : List (Invocation Entrypoint)) {record : EscrowRecord}
    (h : l.store.records.lookup k = some record) :
    ∃ record', (escrow.run l calls).store.records.lookup k = some record' ∧ Kept record record' := by
  refine Transactional.run_keeps (M := escrow) (I := fun _ => True)
    (fun l : Ledger Store => l.store.records.lookup k) Kept.refl Kept.trans (fun _ _ => trivial) ?_
    trivial calls h
  intro c _ record h
  obtain ⟨_, -, eff⟩ := effect_of_exec c.ok
  exact eff.kept h

/-- An active record expires exactly from its `expires_at` on. -/
theorem Balanced.expire_iff (h : Balanced l.store) :
    Succeeds (expire u q) env l ↔ ∃ record, l.store.records.lookup (q, u) = some record ∧
      record.status = .active ∧ record.expiresAt ≤ env.timestamp := by
  constructor
  · intro hsucceeds
    rcases hsucceeds with ⟨r, hr⟩
    obtain ⟨record, stored, due, hsettle⟩ := expire_eq_ok.mp hr
    exact ⟨record, stored, (settle_eq_ok.mp hsettle).1, due⟩
  · intro hrecord
    rcases hrecord with ⟨record, stored, active, due⟩
    obtain ⟨r, hsettle⟩ := h.settle_succeeds stored active .expired "Expired" env
    exact ⟨r, expire_eq_ok.mpr ⟨record, stored, due, hsettle⟩⟩

/-- Escrow records are final: in every run there is one deposit, with at most one outcome, and a way out
from its expiry on. -/
theorem records_final (calls : List (Invocation Entrypoint)) : RecordsFinal calls := by
  constructor
  · intro q u
    refine (Transactional.history_invariant (M := escrow)
      (P := fun past l => DepositedOnce q u past l.store) DepositedOnce.commit ?_ calls).le_one
    exact ⟨Nat.zero_le _, fun _ => rfl⟩
  · rintro before after rfl k record h
    rw [Transactional.run_append]
    exact kept_run after h
  · intro k
    refine Transactional.run_invariant (M := escrow)
      (I := fun l : Ledger Store => ∀ record, l.store.records.lookup k = some record →
        (record.releasedAt.isSome ↔ record.status ≠ .active)) ?_ ?_ calls
    · intro c h
      obtain ⟨_, -, eff⟩ := effect_of_exec c.ok
      exact eff.releasedAt h
    · intro record h
      simp [fresh] at h
  · intro env q u
    exact (balanced_run calls).expire_iff
  · intro env admin q u l' h
    obtain ⟨-, record, stored, hsettle⟩ := release_eq_ok.mp h
    exact settles_of_settle stored hsettle
  · intro env admin q u l' h
    obtain ⟨-, record, stored, hsettle⟩ := refund_eq_ok.mp h
    exact settles_of_settle stored hsettle
  · intro env q u l' h
    obtain ⟨record, stored, -, hsettle⟩ := expire_eq_ok.mp h
    exact settles_of_settle stored hsettle

end LineProof.Escrow
