import LineProof.Escrow.Steps
import LineProof.Soroban.Lifetimes

/-!
# The escrow contract with the lifetimes of its entries

Reference: `contracts/lineproof-escrow/src/lib.rs`.

The entrypoints again, on one persistent storage, with the `extend_ttl` calls of the source. Where they
succeed they do on the contents what the escrow contract does (`simulates_exec`), so what holds of its runs
holds of the contents here (`contents_run`).
-/

namespace LineProof.Escrow.Ttl

open Soroban

/-- `TTL_THRESHOLD`, in ledgers. -/
def ttlThreshold : ℕ := 10000

/-- `TTL_EXTEND_TO`, a year of ledgers. -/
def ttlExtendTo : ℕ := 6307200

/-- `ESCROW_TTL_BUFFER`, five days of ledgers. No entrypoint uses it. -/
def escrowTtlBuffer : ℕ := 86400

/-- The keys of the contract. -/
inductive Key
  /-- `record_key` -/
  | record (queueId : Symbol) (identity : Address)
  /-- `config_key` -/
  | config (queueId : Symbol)
  /-- `total_key` -/
  | total (queueId : Symbol)
deriving DecidableEq

/-- What is stored under a key. -/
abbrev Key.Value : Key → Type
  | .record _ _ => EscrowRecord
  | .config _ => EscrowConfig
  | .total _ => ℤ

/-- The entries of the contract, each with the ledger it lives until. -/
abbrev Storage := Persistent Key.Value

/-- The ledger of a contract that has just been deployed. -/
def fresh : Ledger Storage := ⟨∅, []⟩

section Entrypoints

variable (li : LedgerInfo)

/-- Every call of `extend_ttl` has the same bounds. -/
def renew (key : Key) : Contract Storage Unit := extendTtl li key ttlThreshold ttlExtendTo

/-- A `set` of the source, which an `extend_ttl` of the same key follows everywhere. -/
def write (key : Key) (value : key.Value) : Contract Storage Unit := do
  put li key value
  renew li key

def emit (kind : String) (queueId : Symbol) (identity : Address) (amount : ℤ) :
    Contract Storage Unit :=
  publish (event kind queueId identity amount).topics (event kind queueId identity amount).data

/-- A read of a record renews its entry. -/
def loadRecord (identity : Address) (queueId : Symbol) : Contract Storage EscrowRecord := do
  let record ← expect (← get li (.record queueId identity)) "escrow record not found"
  renew li (.record queueId identity)
  return record

/-- A read of the total renews nothing. -/
def getTotalHeld (queueId : Symbol) : Contract Storage ℤ := do
  return (← get li (.total queueId)).getD (0 : ℤ)

/-- Lowers the total and renews its entry by the write. -/
def decrementTotal (queueId : Symbol) (amount : ℤ) : Contract Storage Unit := do
  let current ← getTotalHeld li queueId
  let total ← i128 (current - amount)
  write li (.total queueId) total

/-- Renews the record and the total by writing them, by the same fixed extension as every write. -/
def deposit (caller : Address) (queueId : Symbol) (amount : ℤ) (asset : Address) :
    Contract Storage Unit := do
  requireAuth caller
  require (¬ amount ≤ 0) "amount must be positive"
  require ((← has li (.record queueId caller)) = false) "existing escrow record"
  let createdAt ← timestamp
  let config : EscrowConfig ← expect (← get li (.config queueId)) "escrow_not_configured"
  require (¬ (amount < config.minDeposit ∨ config.maxDeposit < amount))
    "amount outside configured bounds"
  let hold ← u64 (config.holdPeriodDays * 86400)
  let expiresAt ← u64 (createdAt + hold)
  write li (Key.record queueId caller)
    { queueId, identity := caller, amount, asset, status := .active, createdAt, expiresAt,
      releasedAt := none }
  let current ← getTotalHeld li queueId
  let total ← i128 (current + amount)
  write li (.total queueId) total
  emit "Deposited" queueId caller amount

/-- The common end of `release`, `refund` and `expire`. -/
def settle (outcome : EscrowStatus) (kind : String) (identity : Address) (queueId : Symbol)
    (record : EscrowRecord) : Contract Storage Unit := do
  require (record.status = .active) "escrow not active"
  let now ← timestamp
  write li (.record queueId identity) { record with status := outcome, releasedAt := some now }
  decrementTotal li queueId record.amount
  emit kind queueId identity record.amount

/-- As in the model without lifetimes, with the entries renewed on the way. -/
def release (admin identity : Address) (queueId : Symbol) : Contract Storage Unit := do
  requireAuth admin
  settle li .released "Released" identity queueId (← loadRecord li identity queueId)

/-- As in the model without lifetimes, with the entries renewed on the way. -/
def refund (admin identity : Address) (queueId : Symbol) : Contract Storage Unit := do
  requireAuth admin
  settle li .refunded "Refunded" identity queueId (← loadRecord li identity queueId)

/-- The record is renewed by the read, before its date is checked. -/
def expire (identity : Address) (queueId : Symbol) : Contract Storage Unit := do
  let record ← loadRecord li identity queueId
  require (¬ (← timestamp) < record.expiresAt) "not expired"
  settle li .expired "Expired" identity queueId record

/-- Asks first whether the entry is there, then reads and renews it. -/
def getRecord (identity : Address) (queueId : Symbol) : Contract Storage (Option EscrowRecord) := do
  if (← has li (.record queueId identity)) = true then
    return some (← loadRecord li identity queueId)
  else
    return none

/-- Renews nothing. -/
def getConfig (queueId : Symbol) : Contract Storage EscrowConfig := do
  let admin ← currentContractAddress
  let stored ← get li (Key.config queueId)
  return stored.getD { queueId, minDeposit := 0, maxDeposit := i128Max, holdPeriodDays := 30, admin }

/-- Renews the config's entry by the write. -/
def setConfig (admin : Address) (config : EscrowConfig) : Contract Storage Unit := do
  requireAuth admin
  require (¬ config.maxDeposit < config.minDeposit) "min_deposit_exceeds_max"
  require (config.holdPeriodDays ≠ 0) "hold_period_must_be_positive"
  write li (.config config.queueId) config

/-- Runs one entrypoint. -/
def exec : Entrypoint → Contract Storage Output
  | .deposit caller queueId amount asset => do deposit li caller queueId amount asset; return .unit
  | .release admin identity queueId => do release li admin identity queueId; return .unit
  | .refund admin identity queueId => do refund li admin identity queueId; return .unit
  | .expire identity queueId => do expire li identity queueId; return .unit
  | .getRecord identity queueId => do return .record (← getRecord li identity queueId)
  | .getConfig queueId => do return .config (← getConfig li queueId)
  | .setConfig admin config => do setConfig li admin config; return .unit
  | .getTotalHeld queueId => do return .amount (← getTotalHeld li queueId)

end Entrypoints

/-- A call comes with the ledger it is made in. -/
abbrev Call := LedgerInfo × Entrypoint

/-- The escrow contract with lifetimes. -/
def escrow : Transactional (Ledger Storage) (Invocation Call) Output Panic :=
  machine fun call => exec call.1 call.2

/-! ## The same contents -/

/-- The entries of the storage without their lifetimes. -/
structure Contents (s : Storage) (t : Store) : Prop where
  records : ∀ q u, (s.lookup (.record q u)).map (·.value) = t.records.lookup (q, u)
  configs : ∀ q, (s.lookup (.config q)).map (·.value) = t.configs.lookup q
  totals : ∀ q, (s.lookup (.total q)).map (·.value) = t.totals.lookup q

section Contents

variable {s : Storage} {t : Store} {q : Symbol} {u : Address} {li : LedgerInfo}

/-- Two empty storages have the same contents. -/
theorem Contents.fresh : Matches Contents fresh Escrow.fresh := by
  refine ⟨⟨?_, ?_, ?_⟩, rfl⟩ <;> intros <;> rfl

/-- A key without an entry stands for no record. -/
theorem Contents.free (h : Contents s t) (hnone : (s.lookup (.record q u)).isSome = false) :
    t.records.lookup (q, u) = none := by
  rw [← h.records, Option.map_eq_none_iff, ← Option.isNone_iff_eq_none]
  exact Option.isSome_eq_false_iff.mp hnone

/-- A write of a record updates the table of records. -/
theorem Contents.saveRecord (h : Contents s t) (record : EscrowRecord) (liveUntil : ℕ) :
    Contents (s.insert (.record q u) ⟨record, liveUntil⟩)
      { t with records := t.records.insert (q, u) record } where
  records q' u' := by
    by_cases hkey : (q', u') = (q, u)
    · obtain ⟨rfl, rfl⟩ := Prod.mk.inj hkey
      rw [Finmap.lookup_insert, Finmap.lookup_insert, Option.map_some]
    · rw [Finmap.lookup_insert_of_ne _ fun heq => hkey (by cases heq; rfl),
        Finmap.lookup_insert_of_ne _ hkey, h.records]
  configs q' := by rw [Finmap.lookup_insert_of_ne _ (by nofun), h.configs]
  totals q' := by rw [Finmap.lookup_insert_of_ne _ (by nofun), h.totals]

/-- A write of a config updates the table of configs. -/
theorem Contents.saveConfig (h : Contents s t) (config : EscrowConfig) (liveUntil : ℕ) :
    Contents (s.insert (.config q) ⟨config, liveUntil⟩)
      { t with configs := t.configs.insert q config } where
  records q' u' := by rw [Finmap.lookup_insert_of_ne _ (by nofun), h.records]
  configs q' := by
    by_cases hkey : q' = q
    · subst hkey
      rw [Finmap.lookup_insert, Finmap.lookup_insert, Option.map_some]
    · rw [Finmap.lookup_insert_of_ne _ fun heq => hkey (Key.config.inj heq),
        Finmap.lookup_insert_of_ne _ hkey, h.configs]
  totals q' := by rw [Finmap.lookup_insert_of_ne _ (by nofun), h.totals]

/-- A write of a total updates the table of totals. -/
theorem Contents.saveTotal (h : Contents s t) (total : ℤ) (liveUntil : ℕ) :
    Contents (s.insert (.total q) ⟨total, liveUntil⟩)
      { t with totals := t.totals.insert q total } where
  records q' u' := by rw [Finmap.lookup_insert_of_ne _ (by nofun), h.records]
  configs q' := by rw [Finmap.lookup_insert_of_ne _ (by nofun), h.configs]
  totals q' := by
    by_cases hkey : q' = q
    · subst hkey
      rw [Finmap.lookup_insert, Finmap.lookup_insert, Option.map_some]
    · rw [Finmap.lookup_insert_of_ne _ fun heq => hkey (Key.total.inj heq),
        Finmap.lookup_insert_of_ne _ hkey, h.totals]

/-- Another lifetime for an entry. -/
theorem Contents.renew (h : Contents s t) {key : Key} {e : EntryWithLiveUntil key.Value}
    (hentry : s.lookup key = some e) (liveUntil : ℕ) :
    Contents (s.insert key ⟨e.value, liveUntil⟩) t := by
  have hsame : ∀ key' : Key, ((s.insert key ⟨e.value, liveUntil⟩).lookup key').map (·.value) =
      (s.lookup key').map (·.value) := by
    intro key'
    by_cases hkey : key' = key
    · subst hkey
      rw [Finmap.lookup_insert, hentry, Option.map_some, Option.map_some]
    · rw [Finmap.lookup_insert_of_ne _ hkey]
  constructor
  · exact fun q u => (hsame _).trans (h.records q u)
  · exact fun q => (hsame _).trans (h.configs q)
  · exact fun q => (hsame _).trans (h.totals q)

/-! ## The same calls -/

/-- An extension changes no contents. -/
theorem simulates_renew (key : Key) :
    Simulates Contents (fun _ _ => True) (renew li key) (pure () : Contract Store Unit) :=
  .extendTtl li fun _ _ _ _ hentry h => h.renew hentry _

/-- A missing total reads as 0 in both models. -/
theorem simulates_getTotalHeld (q : Symbol) :
    Simulates Contents Eq (getTotalHeld li q) (load (·.totalHeld q)) := by
  intro env l m hm a l' hx
  obtain ⟨_, hget, rfl⟩ := bind_pure_eq_ok.mp hx
  obtain ⟨-, hr⟩ := get_eq_ok.mp hget
  obtain ⟨rfl, rfl⟩ := Prod.mk.inj hr
  refine ⟨_, m, rfl, ?_, hm⟩
  rw [hm.store.totals q]
  rfl

/-- The renewal that comes with a read of a record is not seen in the contents. -/
theorem simulates_loadRecord (u : Address) (q : Symbol) :
    Simulates Contents Eq (loadRecord li u q) (Escrow.loadRecord u q) := by
  intro env l m hm a l' hx
  simp only [loadRecord, bind_eq_ok, get_eq_ok, expect_eq_ok, pure_eq_ok] at hx
  obtain ⟨_, _, ⟨-, hget⟩, record, _, ⟨_, hsome, hexpect⟩, _, _, hrenew, hret⟩ := hx
  cases hget
  cases hexpect
  obtain ⟨rfl, rfl⟩ := Prod.mk.inj hret
  obtain ⟨_, m', hskip, -, hm'⟩ := simulates_renew _ env l m hm _ _ hrenew
  obtain ⟨-, rfl⟩ := Prod.mk.inj (pure_eq_ok.mp hskip)
  exact ⟨record, m, loadRecord_eq_ok.mpr ⟨record, (hm.store.records q u).symm.trans hsome, rfl⟩, rfl, hm'⟩

theorem simulates_saveRecord (u : Address) (q : Symbol) (record : EscrowRecord) :
    Simulates Contents Eq (write li (.record q u) record) (saveRecord u q record) :=
  .skipLast (.put li fun _ _ liveUntil h => h.saveRecord record liveUntil) fun _ => simulates_renew _

theorem simulates_saveTotal (q : Symbol) (total : ℤ) :
    Simulates Contents Eq (write li (.total q) total) (saveTotal q total) :=
  .skipLast (.put li fun _ _ liveUntil h => h.saveTotal total liveUntil) fun _ => simulates_renew _

theorem simulates_decrementTotal (q : Symbol) (amount : ℤ) :
    Simulates Contents Eq (decrementTotal li q amount) (Escrow.decrementTotal q amount) := by
  refine .bind (simulates_getTotalHeld q) ?_
  rintro current _ rfl
  refine .bind (.i128 _) ?_
  rintro total _ rfl
  exact simulates_saveTotal q total

/-- The three ends of a record share one argument. -/
theorem simulates_settle (outcome : EscrowStatus) (kind : String) (u : Address) (q : Symbol)
    (record : EscrowRecord) :
    Simulates Contents Eq (settle li outcome kind u q record)
      (Escrow.settle outcome kind u q record) := by
  refine .bind (.require id) fun _ _ _ => .bind .timestamp ?_
  rintro now _ rfl
  refine .bind (simulates_saveRecord u q _) fun _ _ _ => ?_
  refine .bind (simulates_decrementTotal q _) fun _ _ _ => ?_
  exact .publish _ _

/-- A deposit does the same to the contents whatever the lifetimes are. -/
theorem simulates_deposit (u : Address) (q : Symbol) (amount : ℤ) (asset : Address) :
    Simulates Contents Eq (deposit li u q amount asset) (Escrow.deposit u q amount asset) := by
  refine .bind (.requireAuth u) fun _ _ _ => .bind (.require id) fun _ _ _ => ?_
  have hfree : Simulates Contents (fun a b => a = false → b = none) (has li (.record q u))
      (load (·.records.lookup (q, u))) :=
    .has li fun s t h hnone => h.free hnone
  refine .bind hfree fun _ _ hnone => .bind (.require hnone) fun _ _ _ => .bind .timestamp ?_
  rintro createdAt _ rfl
  have hconfig : Simulates Contents Eq (get li (.config q)) (load (·.configs.lookup q)) :=
    .get li fun s t h => h.configs q
  refine .bind hconfig ?_
  rintro stored _ rfl
  refine .bind (.expect fun config hsome => ⟨config, hsome, rfl⟩) ?_
  rintro config _ rfl
  refine .bind (.require id) fun _ _ _ => .bind (.u64 _) ?_
  rintro hold _ rfl
  refine .bind (.u64 _) ?_
  rintro expiresAt _ rfl
  refine .bind (simulates_saveRecord u q _) fun _ _ _ => ?_
  refine .bind (simulates_getTotalHeld q) ?_
  rintro current _ rfl
  refine .bind (.i128 _) ?_
  rintro total _ rfl
  exact .bind (simulates_saveTotal q total) fun _ _ _ => .publish _ _

theorem simulates_expire (u : Address) (q : Symbol) :
    Simulates Contents Eq (expire li u q) (Escrow.expire u q) := by
  refine .bind (simulates_loadRecord u q) ?_
  rintro record _ rfl
  refine .bind .timestamp ?_
  rintro now _ rfl
  exact .bind (.require id) fun _ _ _ => simulates_settle _ _ u q record

theorem simulates_setConfig (admin : Address) (config : EscrowConfig) :
    Simulates Contents Eq (setConfig li admin config) (Escrow.setConfig admin config) := by
  refine .bind (.requireAuth admin) fun _ _ _ => .bind (.require id) fun _ _ _ => ?_
  refine .bind (.require id) fun _ _ _ => .skipLast (.put li ?_) fun _ => simulates_renew _
  exact fun _ _ liveUntil h => h.saveConfig config liveUntil

theorem simulates_getConfig (q : Symbol) :
    Simulates Contents Eq (getConfig li q) (Escrow.getConfig q) := by
  refine .bind .currentContractAddress ?_
  rintro admin _ rfl
  have hconfig : Simulates Contents Eq (get li (.config q)) (load (·.configs.lookup q)) :=
    .get li fun s t h => h.configs q
  refine .bind hconfig ?_
  rintro stored _ rfl
  exact .pure rfl

theorem simulates_getRecord (u : Address) (q : Symbol) :
    Simulates Contents Eq (getRecord li u q) (load (·.records.lookup (q, u))) := by
  intro env l m hm a l' hx
  simp only [getRecord, bind_eq_ok, has_eq_ok] at hx
  obtain ⟨stored, _, ⟨-, hhas⟩, hx⟩ := hx
  obtain ⟨rfl, rfl⟩ := Prod.mk.inj hhas
  split at hx
  case isTrue hsome =>
    obtain ⟨record, hrecord, rfl⟩ := bind_pure_eq_ok.mp hx
    obtain ⟨_, m', hload, rfl, hm'⟩ := simulates_loadRecord u q env l m hm record l' hrecord
    obtain ⟨_, hlookup, hr⟩ := loadRecord_eq_ok.mp hload
    obtain ⟨rfl, rfl⟩ := Prod.mk.inj hr
    exact ⟨_, m, rfl, hlookup.symm, hm'⟩
  case isFalse hnone =>
    obtain ⟨rfl, rfl⟩ := Prod.mk.inj (pure_eq_ok.mp hx)
    exact ⟨_, m, rfl, (hm.store.free (Bool.eq_false_of_not_eq_true hnone)).symm, hm⟩

/-- The result of a call, wrapped up. -/
theorem simulates_map {α β : Type} (f : α → β) {x : Contract Storage α} {y : Contract Store α}
    (h : Simulates Contents Eq x y) :
    Simulates Contents Eq (do return f (← x)) (do return f (← y)) := by
  refine .bind h ?_
  rintro a _ rfl
  exact .pure rfl

/-- Every entrypoint does on the contents what the escrow contract does. -/
theorem simulates_exec (li : LedgerInfo) (entry : Entrypoint) :
    Simulates Contents Eq (exec li entry) (Escrow.exec entry) := by
  cases entry with
  | deposit u q amount asset => exact simulates_map _ (simulates_deposit u q amount asset)
  | release admin u q =>
    refine simulates_map _ (.bind (.requireAuth admin) fun _ _ _ => .bind (simulates_loadRecord u q) ?_)
    rintro record _ rfl
    exact simulates_settle _ _ u q record
  | refund admin u q =>
    refine simulates_map _ (.bind (.requireAuth admin) fun _ _ _ => .bind (simulates_loadRecord u q) ?_)
    rintro record _ rfl
    exact simulates_settle _ _ u q record
  | expire u q => exact simulates_map _ (simulates_expire u q)
  | getRecord u q => exact simulates_map _ (simulates_getRecord u q)
  | getConfig q => exact simulates_map _ (simulates_getConfig q)
  | setConfig admin config => exact simulates_map _ (simulates_setConfig admin config)
  | getTotalHeld q => exact simulates_map _ (simulates_getTotalHeld q)

/-- The contents after a run are those of a run of the escrow contract. -/
theorem contents_run (calls : List (Invocation Call)) :
    ∃ calls', calls'.Sublist (calls.map (Invocation.map Prod.snd)) ∧
      Matches Contents (escrow.run fresh calls) (Escrow.escrow.run Escrow.fresh calls') := by
  have hexec : ∀ call : Call, Simulates Contents Eq ((fun call : Call => exec call.1 call.2) call)
      (Escrow.exec (Prod.snd call)) := fun call => simulates_exec call.1 call.2
  exact simulates_run hexec calls Contents.fresh

end Contents

end LineProof.Escrow.Ttl
