import LineProof.Escrow.Defs

/-!
# What each escrow entrypoint does

One equivalence for each entrypoint, and `Effect` with `effect_of_exec` as for the queue: a successful
call reads, configures a queue, opens a deposit or ends one.
-/

namespace LineProof.Escrow

open Soroban

variable {env : Env} {l : Ledger Store} {admin u : Address} {q : Symbol}

@[simp] theorem emit_eq_ok {kind : String} {amount : ℤ} {r : Unit × Ledger Store} :
    emit kind q u amount env l = .ok r ↔
      ((), { l with events := l.events ++ [event kind q u amount] }) = r :=
  publish_eq_ok

/-- A record that is loaded is the stored one. -/
@[simp] theorem loadRecord_eq_ok {r : EscrowRecord × Ledger Store} :
    loadRecord u q env l = .ok r ↔
      ∃ record, l.store.records.lookup (q, u) = some record ∧ (record, l) = r := by
  simp [loadRecord]

@[simp] theorem saveRecord_eq_ok {record : EscrowRecord} {r : Unit × Ledger Store} :
    saveRecord u q record env l = .ok r ↔
      ((), ⟨{ l.store with records := l.store.records.insert (q, u) record }, l.events⟩) = r :=
  save_eq_ok

@[simp] theorem saveTotal_eq_ok {total : ℤ} {r : Unit × Ledger Store} :
    saveTotal q total env l = .ok r ↔
      ((), ⟨{ l.store with totals := l.store.totals.insert q total }, l.events⟩) = r :=
  save_eq_ok

/-- Writing a record leaves the running totals alone. -/
theorem totalHeld_records (s : Store) (records : Finmap fun _ : RecordKey => EscrowRecord)
    (q : Symbol) : Store.totalHeld { s with records } q = s.totalHeld q := rfl

/-- `amount` is an `i128`. -/
def InI128 (amount : ℤ) : Prop := i128Min ≤ amount ∧ amount ≤ i128Max

/-! ## Deposits -/

/-- The record `deposit` creates. -/
def newRecord (q : Symbol) (u : Address) (amount : ℤ) (asset : Address) (now holdPeriodDays : ℕ) :
    EscrowRecord where
  queueId := q
  identity := u
  amount := amount
  asset := asset
  status := .active
  createdAt := now
  expiresAt := now + holdPeriodDays * 86400
  releasedAt := none

/-- The storage `deposit` leaves. -/
def Store.afterDeposit (s : Store) (record : EscrowRecord) : Store :=
  { s with
    records := s.records.insert (record.queueId, record.identity) record
    totals := s.totals.insert record.queueId (s.totalHeld record.queueId + record.amount) }

/-- The checks of `deposit`, overflow included. -/
structure DepositChecks (env : Env) (s : Store) (q : Symbol) (u : Address) (amount : ℤ)
    (c : EscrowConfig) : Prop where
  auth : u ∈ env.authorizers
  positive : 0 < amount
  free : s.records.lookup (q, u) = none
  config : s.configs.lookup q = some c
  bounds : c.minDeposit ≤ amount ∧ amount ≤ c.maxDeposit
  expiry : env.timestamp + c.holdPeriodDays * 86400 ≤ u64Max
  total : InI128 (s.totalHeld q + amount)

/-- A deposit passes its checks, stores a new record, raises the total and publishes one event. -/
theorem deposit_eq_ok {amount : ℤ} {asset : Address} {r : Unit × Ledger Store} :
    deposit u q amount asset env l = .ok r ↔
      ∃ c, DepositChecks env l.store q u amount c ∧
        r = ((), ⟨l.store.afterDeposit
            (newRecord q u amount asset env.timestamp c.holdPeriodDays),
          l.events ++ [event "Deposited" q u amount]⟩) := by
  constructor
  · intro h
    simp [deposit, totalHeld_records] at h
    obtain ⟨auth, positive, free, c, config, ⟨hmin, hmax⟩, -, expiry, total, rfl⟩ := h
    exact ⟨c, ⟨auth, positive, free, config, ⟨hmin, hmax⟩, expiry, total⟩, rfl⟩
  · intro h
    rcases h with ⟨c, ⟨auth, positive, free, config, ⟨hmin, hmax⟩, expiry, total⟩, rfl⟩
    simp [deposit, totalHeld_records]
    have hold : c.holdPeriodDays * 86400 ≤ u64Max := by omega
    exact ⟨auth, positive, free, c, config, ⟨hmin, hmax⟩, hold, expiry, total, rfl⟩

/-! ## The ends of a deposit -/

/-- The record after a deposit has ended. -/
def EscrowRecord.settle (record : EscrowRecord) (outcome : EscrowStatus) (now : ℕ) : EscrowRecord :=
  { record with status := outcome, releasedAt := some now }

/-- The storage `settle` leaves. -/
def Store.afterSettle (s : Store) (q : Symbol) (u : Address) (record : EscrowRecord)
    (outcome : EscrowStatus) (now : ℕ) : Store :=
  { s with
    records := s.records.insert (q, u) (record.settle outcome now)
    totals := s.totals.insert q (s.totalHeld q - record.amount) }

/-- A settlement ends an active record, lowers the total and publishes one event. -/
theorem settle_eq_ok {outcome : EscrowStatus} {kind : String} {record : EscrowRecord}
    {r : Unit × Ledger Store} :
    settle outcome kind u q record env l = .ok r ↔
      record.status = .active ∧ InI128 (l.store.totalHeld q - record.amount) ∧
        r = ((), ⟨l.store.afterSettle q u record outcome env.timestamp,
          l.events ++ [event kind q u record.amount]⟩) := by
  simp [settle, decrementTotal, totalHeld_records, InI128, Store.afterSettle,
    EscrowRecord.settle, eq_comm (a := r)]

/-- A release is a settlement that somebody signed. -/
theorem release_eq_ok {r : Unit × Ledger Store} :
    release admin u q env l = .ok r ↔
      admin ∈ env.authorizers ∧ ∃ record, l.store.records.lookup (q, u) = some record ∧
        settle .released "Released" u q record env l = .ok r := by
  simp [release]

/-- A refund is a settlement that somebody signed. -/
theorem refund_eq_ok {r : Unit × Ledger Store} :
    refund admin u q env l = .ok r ↔
      admin ∈ env.authorizers ∧ ∃ record, l.store.records.lookup (q, u) = some record ∧
        settle .refunded "Refunded" u q record env l = .ok r := by
  simp [refund]

/-- An expiry is a settlement that nobody signs, from `expires_at` on. -/
theorem expire_eq_ok {r : Unit × Ledger Store} :
    expire u q env l = .ok r ↔
      ∃ record, l.store.records.lookup (q, u) = some record ∧
        record.expiresAt ≤ env.timestamp ∧
        settle .expired "Expired" u q record env l = .ok r := by
  simp [expire]

/-! ## Configuration -/

/-- The checks of `set_config` on the configuration. -/
structure ValidConfig (config : EscrowConfig) : Prop where
  bounds : config.minDeposit ≤ config.maxDeposit
  hold : config.holdPeriodDays ≠ 0

/-- A valid config replaces the queue's config, and there is no event. -/
theorem setConfig_eq_ok {config : EscrowConfig} {r : Unit × Ledger Store} :
    setConfig admin config env l = .ok r ↔
      admin ∈ env.authorizers ∧ ValidConfig config ∧
        r = ((), ⟨{ l.store with configs := l.store.configs.insert config.queueId config },
          l.events⟩) := by
  constructor
  · intro h
    simp [setConfig] at h
    obtain ⟨auth, bounds, hold, rfl⟩ := h
    exact ⟨auth, ⟨bounds, hold⟩, rfl⟩
  · intro h
    rcases h with ⟨auth, ⟨bounds, hold⟩, rfl⟩
    simp [setConfig, auth, bounds, hold]

/-! ## The kinds of change -/

/-- The three entrypoints that end a deposit, with what they demand of the call. -/
inductive Settlement (env : Env) (record : EscrowRecord) (q : Symbol) (u : Address) :
    Entrypoint → EscrowStatus → String → Prop
  | release {admin : Address} (auth : admin ∈ env.authorizers) :
    Settlement env record q u (.release admin u q) .released "Released"
  | refund {admin : Address} (auth : admin ∈ env.authorizers) :
    Settlement env record q u (.refund admin u q) .refunded "Refunded"
  | expire (due : record.expiresAt ≤ env.timestamp) :
    Settlement env record q u (.expire u q) .expired "Expired"

/-- The entrypoints that only read. -/
def Entrypoint.IsReader : Entrypoint → Prop
  | .getRecord _ _ | .getConfig _ | .getTotalHeld _ => True
  | _ => False

/-- What a successful call of an entrypoint returns, leaves in storage and publishes. -/
inductive Effect (env : Env) (s : Store) : Entrypoint → Output → Store → List Event → Prop
  | read {e : Entrypoint} {o : Output} (reader : e.IsReader) : Effect env s e o s []
  | setConfig {admin : Address} {config : EscrowConfig} (auth : admin ∈ env.authorizers)
      (valid : ValidConfig config) :
    Effect env s (.setConfig admin config) .unit
      { s with configs := s.configs.insert config.queueId config } []
  | deposit {q : Symbol} {u : Address} {amount : ℤ} {asset : Address} {c : EscrowConfig}
      (checks : DepositChecks env s q u amount c) :
    Effect env s (.deposit u q amount asset) .unit
      (s.afterDeposit (newRecord q u amount asset env.timestamp c.holdPeriodDays))
      [event "Deposited" q u amount]
  | settle {e : Entrypoint} {q : Symbol} {u : Address} {record : EscrowRecord}
      {outcome : EscrowStatus} {kind : String} (settlement : Settlement env record q u e outcome kind)
      (stored : s.records.lookup (q, u) = some record) (active : record.status = .active)
      (total : InI128 (s.totalHeld q - record.amount)) :
    Effect env s e .unit (s.afterSettle q u record outcome env.timestamp)
      [event kind q u record.amount]

/-- Every successful call has one of the effects above. -/
theorem effect_of_exec {e : Entrypoint} {o : Output} {l' : Ledger Store}
    (h : exec e env l = .ok (o, l')) :
    ∃ published, l'.events = l.events ++ published ∧ Effect env l.store e o l'.store published := by
  cases e with
  | deposit u q amount asset =>
    simp only [exec, bind_eq_ok, deposit_eq_ok, pure_eq_ok] at h
    obtain ⟨_, _, ⟨c, checks, ⟨⟩⟩, ⟨⟩⟩ := h
    exact ⟨_, rfl, .deposit checks⟩
  | release admin u q =>
    simp only [exec, bind_eq_ok, release_eq_ok, settle_eq_ok, pure_eq_ok] at h
    obtain ⟨_, _, ⟨auth, record, stored, active, total, ⟨⟩⟩, ⟨⟩⟩ := h
    exact ⟨_, rfl, .settle (.release auth) stored active total⟩
  | refund admin u q =>
    simp only [exec, bind_eq_ok, refund_eq_ok, settle_eq_ok, pure_eq_ok] at h
    obtain ⟨_, _, ⟨auth, record, stored, active, total, ⟨⟩⟩, ⟨⟩⟩ := h
    exact ⟨_, rfl, .settle (.refund auth) stored active total⟩
  | expire u q =>
    simp only [exec, bind_eq_ok, expire_eq_ok, settle_eq_ok, pure_eq_ok] at h
    obtain ⟨_, _, ⟨record, stored, due, active, total, ⟨⟩⟩, ⟨⟩⟩ := h
    exact ⟨_, rfl, .settle (.expire due) stored active total⟩
  | setConfig admin config =>
    simp only [exec, bind_eq_ok, setConfig_eq_ok, pure_eq_ok] at h
    obtain ⟨_, _, ⟨auth, valid, ⟨⟩⟩, ⟨⟩⟩ := h
    exact ⟨[], (List.append_nil _).symm, .setConfig auth valid⟩
  | getRecord u q =>
    simp only [exec, bind_eq_ok, load_eq_ok, pure_eq_ok] at h
    obtain ⟨_, _, ⟨⟩, ⟨⟩⟩ := h
    exact ⟨[], (List.append_nil _).symm, .read trivial⟩
  | getConfig q =>
    simp only [exec, getConfig, bind_eq_ok, currentContractAddress_eq_ok, load_eq_ok,
      pure_eq_ok] at h
    obtain ⟨_, _, ⟨_, _, ⟨⟩, _, _, ⟨⟩, ⟨⟩⟩, ⟨⟩⟩ := h
    exact ⟨[], (List.append_nil _).symm, .read trivial⟩
  | getTotalHeld q =>
    simp only [exec, bind_eq_ok, load_eq_ok, pure_eq_ok] at h
    obtain ⟨_, _, ⟨⟩, ⟨⟩⟩ := h
    exact ⟨[], (List.append_nil _).symm, .read trivial⟩

/-! ## What a call does to one record -/

/-- The change a successful call makes to the record under `(q, u)`. -/
inductive RecordChange (env : Env) (e : Entrypoint) (q : Symbol) (u : Address) :
    Option EscrowRecord → Option EscrowRecord → Prop
  | keep (old : Option EscrowRecord) : RecordChange env e q u old old
  | opened {amount : ℤ} {asset : Address} {days : ℕ} (positive : 0 < amount)
      (entry : e = .deposit u q amount asset) :
    RecordChange env e q u none (some (newRecord q u amount asset env.timestamp days))
  | ended {record : EscrowRecord} {outcome : EscrowStatus} {kind : String}
      (settlement : Settlement env record q u e outcome kind) (active : record.status = .active) :
    RecordChange env e q u (some record) (some (record.settle outcome env.timestamp))

variable {s s' : Store} {e : Entrypoint} {o : Output} {published : List Event}

/-- What a call does to one record: nothing, or its deposit, or its end. -/
theorem Effect.recordChange (eff : Effect env s e o s' published) (q : Symbol) (u : Address) :
    RecordChange env e q u (s.records.lookup (q, u)) (s'.records.lookup (q, u)) := by
  cases eff with
  | read | setConfig => exact .keep _
  | @deposit q' u' amount asset c checks =>
    by_cases hkey : (q, u) = (q', u')
    · obtain ⟨rfl, rfl⟩ := Prod.mk.inj hkey
      rw [checks.free, Store.afterDeposit, newRecord, Finmap.lookup_insert]
      exact .opened checks.positive rfl
    · rw [Store.afterDeposit, newRecord, Finmap.lookup_insert_of_ne _ hkey]
      exact .keep _
  | @settle _ q' u' record outcome _ settlement stored active =>
    by_cases hkey : (q, u) = (q', u')
    · obtain ⟨rfl, rfl⟩ := Prod.mk.inj hkey
      rw [stored, Store.afterSettle, Finmap.lookup_insert]
      exact .ended settlement active
    · rw [Store.afterSettle, Finmap.lookup_insert_of_ne _ hkey]
      exact .keep _

end LineProof.Escrow
