import LineProof.Escrow.Ttl

/-!
# The lifetime of a record

`deposit` extends the entry of its record with the same two constants whatever the hold period is. The
extension happens only where the network gives new entries at most `TTL_THRESHOLD` ledgers, and then it
lasts a year; otherwise the record keeps the lifetime of a new entry. `ESCROW_TTL_BUFFER`, meant for long
hold periods, is in no computation. So which hold periods a record outlives depends on the network
(`outlivesHold_iff`).
-/

namespace LineProof.Escrow.Ttl

open Soroban

variable {env : Env} {li : LedgerInfo} {l l' : Ledger Storage} {u asset : Address} {q : Symbol}
  {amount : ℤ} {key : Key} {value : key.Value}

/-- The last ledger of an entry after an extension. -/
def renewedUntil (li : LedgerInfo) (liveUntil : ℕ) : ℕ := li.extended ttlThreshold ttlExtendTo liveUntil

/-- The ledger numbers that a write under the key computes are `u32`. -/
structure Writable (li : LedgerInfo) (key : Key) (s : Storage) : Prop where
  accessible : Accessible li key s
  created : s.lookup key = none → li.minLiveUntil ≤ u32Max
  requested : li.sequenceNumber + ttlExtendTo ≤ u32Max
  max : li.maxLiveUntil ≤ u32Max

/-- Whether a key can be written depends on its own entry only. -/
theorem Writable.congr {s s' : Storage} (h : Writable li key s) (hsame : s.lookup key = s'.lookup key) :
    Writable li key s' where
  accessible := fun e he => h.accessible e (hsame.trans he)
  created := fun hnone => h.created (hsame.trans hnone)
  requested := h.requested
  max := h.max

/-- The storage after a write. -/
def written (li : LedgerInfo) (key : Key) (value : key.Value) (s : Storage) : Storage :=
  s.insert key ⟨value, renewedUntil li (liveUntilOnPut li (s.lookup key))⟩

/-- An entry is accessible once it has been written. -/
theorem Accessible.of_put {key : Key} {value : key.Value} {s : Storage} (h : Accessible li key s) :
    Accessible li key (s.insert key ⟨value, liveUntilOnPut li (s.lookup key)⟩) := by
  intro e he
  obtain rfl := Option.some.inj ((Finmap.lookup_insert s).symm.trans he)
  cases hentry : s.lookup key with
  | none => exact Nat.le_add_right _ _
  | some old => exact h old hentry

/-- A write succeeds on a writable key, and the entry is renewed with it. -/
theorem write_eq_ok {r : Unit × Ledger Storage} :
    write li key value env l = .ok r ↔
      Writable li key l.store ∧ ((), { l with store := written li key value l.store }) = r := by
  have hbounds : ttlThreshold ≤ ttlExtendTo := by decide
  simp only [write, renew, bind_eq_ok, put_eq_ok, extendTtl_eq_ok]
  constructor
  · rintro ⟨_, _, ⟨haccess, hcreated, hput⟩, -, -, e, hentry, hrequested, hmax, hr⟩
    cases hput
    obtain rfl := Option.some.inj ((Finmap.lookup_insert l.store).symm.trans hentry)
    refine ⟨⟨haccess, hcreated, hrequested, hmax⟩, ?_⟩
    rw [← hr, Finmap.insert_insert]
    rfl
  · rintro ⟨⟨haccess, hcreated, hrequested, hmax⟩, hr⟩
    refine ⟨(), _, ⟨haccess, hcreated, rfl⟩, hbounds, Accessible.of_put haccess, _, Finmap.lookup_insert _,
      hrequested, hmax, ?_⟩
    rw [← hr, Finmap.insert_insert]
    rfl

/-- A write leaves the other keys alone. -/
theorem lookup_written {key' : Key} {s : Storage} (hkey : key' ≠ key) :
    (written li key value s).lookup key' = s.lookup key' := Finmap.lookup_insert_of_ne _ hkey

/-- The written entry has the new value and the renewed lifetime. -/
theorem lookup_written_self {s : Storage} : (written li key value s).lookup key =
    some ⟨value, renewedUntil li (liveUntilOnPut li (s.lookup key))⟩ := Finmap.lookup_insert _

/-- What `get_total_held` reads. -/
def totalHeld (q : Symbol) (s : Storage) : ℤ := ((s.lookup (.total q)).map (·.value)).getD 0

/-- The total is read where its entry is accessible, and not renewed. -/
@[simp] theorem getTotalHeld_eq_ok {r : ℤ × Ledger Storage} :
    getTotalHeld li q env l = .ok r ↔
      Accessible li (.total q) l.store ∧ (totalHeld q l.store, l) = r := by
  simp [getTotalHeld, totalHeld]

/-! ## A deposit -/

/-- The checks of `deposit`, those of the storage included. -/
structure DepositChecks (li : LedgerInfo) (env : Env) (s : Storage) (q : Symbol) (u : Address) (amount : ℤ)
    (c : EscrowConfig) : Prop where
  auth : u ∈ env.authorizers
  positive : ¬ amount ≤ 0
  free : s.lookup (.record q u) = none
  live : Accessible li (.config q) s
  config : (s.lookup (.config q)).map (·.value) = some c
  bounds : ¬ (amount < c.minDeposit ∨ c.maxDeposit < amount)
  expiry : env.timestamp + c.holdPeriodDays * 86400 ≤ u64Max
  record : Writable li (.record q u) s
  sum : InI128 (totalHeld q s + amount)
  total : Writable li (.total q) s

/-- The writes of `deposit`, and its event. -/
theorem writes_eq_ok {record : EscrowRecord} {r : Unit × Ledger Storage} :
    (do
      write li (.record q u) record
      let current ← getTotalHeld li q
      let total ← i128 (current + amount)
      write li (.total q) total
      emit "Deposited" q u amount : Contract Storage Unit) env l = .ok r ↔
      Writable li (.record q u) l.store ∧ InI128 (totalHeld q l.store + amount) ∧
        Writable li (.total q) l.store ∧
        ((), ⟨written li (.total q) (totalHeld q l.store + amount) (written li (.record q u) record l.store),
          l.events ++ [event "Deposited" q u amount]⟩) = r := by
  have htotal : (written li (.record q u) record l.store).lookup (.total q) = l.store.lookup (.total q) :=
    lookup_written (by simp)
  have hheld : totalHeld q (written li (.record q u) record l.store) = totalHeld q l.store := by
    rw [totalHeld, htotal, totalHeld]
  simp only [bind_eq_ok, write_eq_ok, getTotalHeld_eq_ok, i128_eq_ok, emit, publish_eq_ok]
  constructor
  · rintro ⟨_, _, ⟨hrecord, hwrite⟩, _, _, ⟨-, hcurrent⟩, _, _, ⟨hsum, hnew⟩, _, _, ⟨hwritable, hwrite'⟩,
      hemit⟩
    cases hwrite
    cases hcurrent
    cases hnew
    cases hwrite'
    simp only [hheld] at hsum hemit
    exact ⟨hrecord, hsum, hwritable.congr htotal, hemit⟩
  · rintro ⟨hrecord, hsum, hwritable, hr⟩
    have hafter := hwritable.congr htotal.symm
    refine ⟨(), _, ⟨hrecord, rfl⟩, _, _, ⟨hafter.accessible, rfl⟩, _, _, ⟨?_, rfl⟩, (), _, ⟨hafter, rfl⟩, ?_⟩
    · rwa [hheld]
    · rw [← hr, hheld]

/-- What a successful deposit checked, and the two entries it wrote. -/
theorem deposit_eq_ok {r : Unit × Ledger Storage} :
    deposit li u q amount asset env l = .ok r ↔
      ∃ c, DepositChecks li env l.store q u amount c ∧
        ((), ⟨written li (.total q) (totalHeld q l.store + amount)
            (written li (.record q u) (newRecord q u amount asset env.timestamp c.holdPeriodDays) l.store),
          l.events ++ [event "Deposited" q u amount]⟩) = r := by
  constructor
  · intro h
    -- the checks leave the ledger as it is, and `writes_eq_ok` has the rest
    rw [deposit] at h
    obtain ⟨_, _, hauth, h⟩ := bind_eq_ok.mp h
    obtain ⟨auth, ⟨⟩⟩ := requireAuth_eq_ok.mp hauth
    obtain ⟨_, _, hpositive, h⟩ := bind_eq_ok.mp h
    obtain ⟨positive, ⟨⟩⟩ := require_eq_ok.mp hpositive
    obtain ⟨_, _, hhas, h⟩ := bind_eq_ok.mp h
    obtain ⟨-, hr⟩ := has_eq_ok.mp hhas
    obtain ⟨rfl, rfl⟩ := Prod.mk.inj hr
    obtain ⟨_, _, hnone, h⟩ := bind_eq_ok.mp h
    obtain ⟨hfree, ⟨⟩⟩ := require_eq_ok.mp hnone
    obtain ⟨_, _, htime, h⟩ := bind_eq_ok.mp h
    obtain ⟨⟩ := timestamp_eq_ok.mp htime
    obtain ⟨_, _, hget, h⟩ := bind_eq_ok.mp h
    obtain ⟨live, hr⟩ := get_eq_ok.mp hget
    obtain ⟨rfl, rfl⟩ := Prod.mk.inj hr
    obtain ⟨c, _, hexpect, h⟩ := bind_eq_ok.mp h
    obtain ⟨_, config, ⟨⟩⟩ := expect_eq_ok.mp hexpect
    obtain ⟨_, _, hbounds, h⟩ := bind_eq_ok.mp h
    obtain ⟨bounds, ⟨⟩⟩ := require_eq_ok.mp hbounds
    obtain ⟨_, _, hhold, h⟩ := bind_eq_ok.mp h
    obtain ⟨-, hr⟩ := u64_eq_ok.mp hhold
    obtain ⟨rfl, rfl⟩ := Prod.mk.inj hr
    obtain ⟨_, _, hexpires, h⟩ := bind_eq_ok.mp h
    obtain ⟨expiry, hr⟩ := u64_eq_ok.mp hexpires
    obtain ⟨rfl, rfl⟩ := Prod.mk.inj hr
    obtain ⟨record, sum, total, hr⟩ := writes_eq_ok.mp h
    have free := Option.not_isSome_iff_eq_none.mp (ne_true_of_eq_false hfree)
    exact ⟨c, ⟨auth, positive, free, live, config, bounds, expiry, record, sum, total⟩, hr⟩
  · rintro ⟨c, ⟨auth, positive, free, live, config, bounds, expiry, record, sum, total⟩, hr⟩
    have hold : c.holdPeriodDays * 86400 ≤ u64Max := (Nat.le_add_left _ _).trans expiry
    rw [deposit]
    refine bind_eq_ok.mpr ⟨(), l, requireAuth_eq_ok.mpr ⟨auth, rfl⟩, ?_⟩
    refine bind_eq_ok.mpr ⟨(), l, require_eq_ok.mpr ⟨positive, rfl⟩, ?_⟩
    refine bind_eq_ok.mpr ⟨false, l, has_eq_ok.mpr ⟨record.accessible, by rw [free]; rfl⟩, ?_⟩
    refine bind_eq_ok.mpr ⟨(), l, require_eq_ok.mpr ⟨rfl, rfl⟩, ?_⟩
    refine bind_eq_ok.mpr ⟨env.timestamp, l, timestamp_eq_ok.mpr rfl, ?_⟩
    refine bind_eq_ok.mpr ⟨some c, l, get_eq_ok.mpr ⟨live, by rw [config]⟩, ?_⟩
    refine bind_eq_ok.mpr ⟨c, l, expect_eq_ok.mpr ⟨c, rfl, rfl⟩, ?_⟩
    refine bind_eq_ok.mpr ⟨(), l, require_eq_ok.mpr ⟨bounds, rfl⟩, ?_⟩
    refine bind_eq_ok.mpr ⟨_, l, u64_eq_ok.mpr ⟨hold, rfl⟩, ?_⟩
    refine bind_eq_ok.mpr ⟨_, l, u64_eq_ok.mpr ⟨expiry, rfl⟩, ?_⟩
    exact writes_eq_ok.mpr ⟨record, sum, total, hr⟩

/-! ## Configurations -/

/-- Every stored configuration passes the checks of `set_config`. -/
def ConfigsValid (s : Store) : Prop := ∀ q config, s.configs.lookup q = some config → ValidConfig config

/-- No call stores a config that `set_config` would refuse. -/
theorem ConfigsValid.effect {s s' : Store} {entry : Entrypoint} {o : Output} {events : List Event}
    (h : ConfigsValid s) (eff : Effect env s entry o s' events) : ConfigsValid s' := by
  cases eff with
  | read => exact h
  | deposit => exact h
  | settle => exact h
  | @setConfig _ stored auth valid =>
    intro q config hconfig
    by_cases hq : q = stored.queueId
    · rw [hq, Finmap.lookup_insert] at hconfig
      exact Option.some.inj hconfig ▸ valid
    · rw [Finmap.lookup_insert_of_ne _ hq] at hconfig
      exact h q config hconfig

/-- In every reachable state the stored configs passed the checks of `set_config`. -/
theorem configsValid_run (calls : List (Invocation Entrypoint)) :
    ConfigsValid (Escrow.escrow.run Escrow.fresh calls).store := by
  have hfresh : ConfigsValid Escrow.fresh.store := fun q config hconfig =>
    absurd ((Finmap.lookup_empty q).symm.trans hconfig) nofun
  refine Transactional.run_invariant (M := Escrow.escrow) (I := fun l => ConfigsValid l.store) ?_ hfresh
    calls
  intro c h
  obtain ⟨_, -, eff⟩ := effect_of_exec c.ok
  exact h.effect eff

/-! ## Deposits -/

/-- A deposit that goes through, in any ledger after any calls, and the configuration it reads. -/
structure Deposited where
  before : List (Invocation Call)
  li : LedgerInfo
  env : Env
  caller : Address
  queueId : Symbol
  amount : ℤ
  asset : Address
  config : EscrowConfig
  state : Ledger Storage
  inForce : ((escrow.run fresh before).store.lookup (.config queueId)).map (·.value) = some config
  ok : exec li (.deposit caller queueId amount asset) env (escrow.run fresh before) = .ok (.unit, state)

namespace Deposited

variable (d : Deposited)

/-- The hold period in ledgers of five seconds, with the buffer. -/
def neededLifetime : ℕ := d.config.holdPeriodDays * 17280 + escrowTtlBuffer

/-- The time of a later ledger, when ledgers close every five seconds. -/
def timeAt (sequenceNumber : ℕ) : ℕ := d.env.timestamp + 5 * (sequenceNumber - d.li.sequenceNumber)

/-- The first ledger in which `expire` accepts the date of the record. -/
structure FirstExpirable (record : EscrowRecord) (sequenceNumber : ℕ) : Prop where
  later : d.li.sequenceNumber ≤ sequenceNumber
  expired : record.expiresAt ≤ d.timeAt sequenceNumber
  first : ∀ n, d.li.sequenceNumber ≤ n → n < sequenceNumber → d.timeAt n < record.expiresAt

/-- The entry of the record lives through the hold period and the buffer, and untouched until `expire`
becomes possible. -/
def OutlivesHold : Prop :=
  ∃ e, d.state.store.lookup (.record d.queueId d.caller) = some e ∧
    d.neededLifetime ≤ e.lifetime d.li ∧
    ∀ n, d.FirstExpirable e.value n → n ≤ e.liveUntil

/-- The network gives new entries a lifetime that is extended, and the hold period fits a year; or one
that is not, and the hold period fits it. -/
def CoversHold : Prop :=
  if d.li.minLifetime ≤ ttlThreshold then d.config.holdPeriodDays ≤ 360
  else d.neededLifetime ≤ d.li.minLifetime

instance : Decidable d.CoversHold :=
  inferInstanceAs (Decidable (if d.li.minLifetime ≤ ttlThreshold then d.config.holdPeriodDays ≤ 360
    else d.neededLifetime ≤ d.li.minLifetime))

variable {d}

/-- The configuration was accepted by `set_config`. -/
theorem accepted : ValidConfig d.config := by
  obtain ⟨calls, -, hmatches⟩ := contents_run d.before
  have hconfig := (hmatches.store.configs d.queueId).symm.trans d.inForce
  exact configsValid_run calls _ _ hconfig

/-- Right after the deposit the record is there, with the lifetime of a renewed entry. -/
theorem stored : d.state.store.lookup (.record d.queueId d.caller) =
    some ⟨newRecord d.queueId d.caller d.amount d.asset d.env.timestamp d.config.holdPeriodDays,
      renewedUntil d.li d.li.minLiveUntil⟩ := by
  obtain ⟨_, hdeposit, -⟩ := bind_pure_eq_ok.mp d.ok
  obtain ⟨c, checks, hstate⟩ := deposit_eq_ok.mp hdeposit
  obtain rfl := Option.some.inj (checks.config.symm.trans d.inForce)
  rw [← (Prod.mk.inj hstate).2, lookup_written (by simp), lookup_written_self, checks.free]
  rfl

/-- `expire` becomes possible when the hold period has passed in ledgers. -/
theorem firstExpirable_iff {n : ℕ} :
    d.FirstExpirable (newRecord d.queueId d.caller d.amount d.asset d.env.timestamp
      d.config.holdPeriodDays) n ↔ n = d.li.sequenceNumber + d.config.holdPeriodDays * 17280 := by
  have hexpires : (newRecord d.queueId d.caller d.amount d.asset d.env.timestamp
      d.config.holdPeriodDays).expiresAt = d.env.timestamp + d.config.holdPeriodDays * 86400 := rfl
  constructor
  · intro h
    have hlater := h.later
    have hexpired := h.expired
    have hfirst := h.first (d.li.sequenceNumber + d.config.holdPeriodDays * 17280) (by omega)
    simp only [timeAt, hexpires] at hexpired hfirst
    omega
  · rintro rfl
    refine ⟨by omega, ?_, fun n hlater hn => ?_⟩ <;> simp only [timeAt, hexpires] <;> omega

/-- A renewed entry outlives the hold exactly where the network's settings cover it. -/
theorem neededLifetime_le_iff (hmax : d.neededLifetime ≤ d.li.maxLifetime) :
    d.neededLifetime ≤
      renewedUntil d.li d.li.minLiveUntil - d.li.sequenceNumber ↔ d.CoversHold := by
  rw [renewedUntil, LedgerInfo.extended_minLiveUntil, CoversHold]
  split
  case isTrue hlow =>
    simp only [neededLifetime, ttlThreshold, ttlExtendTo, escrowTtlBuffer] at *
    omega
  case isFalse => exact Iff.rfl

/-- The record is live until `expire` becomes possible whenever its lifetime is long enough. -/
theorem outlivesHold_iff_needed : d.OutlivesHold ↔
    d.neededLifetime ≤ renewedUntil d.li d.li.minLiveUntil - d.li.sequenceNumber := by
  constructor
  · intro h
    obtain ⟨e, hentry, hneeded, -⟩ := h
    obtain rfl := Option.some.inj (d.stored.symm.trans hentry)
    exact hneeded
  · intro hneeded
    refine ⟨_, d.stored, hneeded, fun n hn => ?_⟩
    rw [firstExpirable_iff] at hn
    simp only [neededLifetime, escrowTtlBuffer] at hneeded
    show n ≤ renewedUntil d.li d.li.minLiveUntil
    omega

/-- A record that is archived before its hold period is over is out of the reach of `expire`, as long as
nothing touches it. -/
theorem expire_archived {li' : LedgerInfo} {env' : Env} {l' : Ledger Storage}
    (huntouched : l'.store.lookup (.record d.queueId d.caller) =
      d.state.store.lookup (.record d.queueId d.caller))
    (hshort : renewedUntil d.li d.li.minLiveUntil <
      d.li.sequenceNumber + d.config.holdPeriodDays * 17280)
    (hlater : d.li.sequenceNumber + d.config.holdPeriodDays * 17280 ≤ li'.sequenceNumber) :
    expire li' d.caller d.queueId env' l' = .error (.message "accessing no-longer-live entry") := by
  have harchived : get li' (.record d.queueId d.caller) env' l' =
      .error (.message "accessing no-longer-live entry") :=
    get_archived (huntouched.trans d.stored) (hshort.trans_le hlater)
  exact bind_eq_error.mpr (.inl (bind_eq_error.mpr (.inl harchived)))

end Deposited

/-! ## Which hold periods a record outlives -/

/-- A network whose ledger numbers are `u32`. -/
structure Configured (li : LedgerInfo) : Prop where
  extended : li.sequenceNumber + ttlExtendTo ≤ u32Max
  max : li.maxLiveUntil ≤ u32Max
  min : li.minLiveUntil ≤ u32Max

/-- On a configured network a key without an entry can be written. -/
theorem Configured.writable {s : Storage} (h : Configured li) (hfree : s.lookup key = none) :
    Writable li key s where
  accessible := fun _ he => absurd (hfree.symm.trans he) nofun
  created := fun _ => h.min
  requested := h.extended
  max := h.max

/-- An administrator and a depositor sign at time 5. -/
def demoEnv : Env := ⟨5, [⟨"GADMIN"⟩, ⟨"GALICE"⟩], ⟨"CESCROW"⟩⟩

/-- A config of queue `clinic` with the given hold period. -/
def demoConfig (days : ℕ) : EscrowConfig where
  queueId := ⟨"clinic"⟩
  minDeposit := 100
  maxDeposit := 1000
  holdPeriodDays := days
  admin := ⟨"GADMIN"⟩

/-- The storage of a fresh contract after one `set_config`. -/
def demoStorage (li : LedgerInfo) (days : ℕ) : Storage :=
  written li (.config ⟨"clinic"⟩) (demoConfig days) ∅

/-- The first call of the scenario stores the config. -/
theorem setConfig_demo {li : LedgerInfo} (hli : Configured li) {days : ℕ} (hdays : days ≠ 0) :
    exec li (.setConfig ⟨"GADMIN"⟩ (demoConfig days)) demoEnv fresh =
      .ok (.unit, ⟨demoStorage li days, []⟩) := by
  refine bind_eq_ok.mpr ⟨(), ⟨demoStorage li days, []⟩, ?_, rfl⟩
  refine bind_eq_ok.mpr ⟨(), fresh, requireAuth_eq_ok.mpr ⟨List.mem_cons_self, rfl⟩, ?_⟩
  refine bind_eq_ok.mpr ⟨(), fresh, require_eq_ok.mpr ⟨?_, rfl⟩, ?_⟩
  · show ¬ (1000 : ℤ) < 100
    omega
  refine bind_eq_ok.mpr ⟨(), fresh, require_eq_ok.mpr ⟨hdays, rfl⟩, ?_⟩
  exact write_eq_ok.mpr ⟨hli.writable (Finmap.lookup_empty _), rfl⟩

/-- The ledger after a deposit of 150 for that configuration. -/
def demoLedger (li : LedgerInfo) (days : ℕ) : Ledger Storage where
  store := written li (.total ⟨"clinic"⟩) (150 : ℤ)
    (written li (.record ⟨"clinic"⟩ ⟨"GALICE"⟩)
      (newRecord ⟨"clinic"⟩ ⟨"GALICE"⟩ 150 ⟨"CXLM"⟩ 5 days) (demoStorage li days))
  events := [event "Deposited" ⟨"clinic"⟩ ⟨"GALICE"⟩ 150]

/-- The second call of the scenario stores the record and the total. -/
theorem deposit_demo {li : LedgerInfo} (hli : Configured li) {days : ℕ}
    (hdate : 5 + days * 86400 ≤ u64Max) :
    exec li (.deposit ⟨"GALICE"⟩ ⟨"clinic"⟩ 150 ⟨"CXLM"⟩) demoEnv ⟨demoStorage li days, []⟩ =
      .ok (.unit, demoLedger li days) := by
  have hfree : (demoStorage li days).lookup (.record ⟨"clinic"⟩ ⟨"GALICE"⟩) = none :=
    lookup_written (by simp)
  have htotal : (demoStorage li days).lookup (.total ⟨"clinic"⟩) = none := lookup_written (by simp)
  have hconfig : (demoStorage li days).lookup (.config ⟨"clinic"⟩) =
      some ⟨demoConfig days, renewedUntil li li.minLiveUntil⟩ := lookup_written_self
  have hheld : totalHeld ⟨"clinic"⟩ (demoStorage li days) = 0 := by rw [totalHeld, htotal]; rfl
  have checks : DepositChecks li demoEnv (demoStorage li days) ⟨"clinic"⟩ ⟨"GALICE"⟩ 150
      (demoConfig days) :=
    { auth := .tail _ (.head _)
      positive := by omega
      free := hfree
      live := by
        intro e he
        obtain rfl := Option.some.inj (hconfig.symm.trans he)
        exact (Nat.le_add_right _ _).trans (li.le_extended _ _ _)
      config := by rw [hconfig]; rfl
      bounds := show ¬ ((150 : ℤ) < 100 ∨ (1000 : ℤ) < 150) by omega
      expiry := hdate
      record := hli.writable hfree
      sum := by rw [hheld]; exact (by decide : i128Min ≤ 150 ∧ 150 ≤ i128Max)
      total := hli.writable htotal }
  refine bind_pure_eq_ok.mpr ⟨(), deposit_eq_ok.mpr ⟨_, checks, ?_⟩, rfl⟩
  rw [hheld]
  rfl

/-- A deposit of 150 right after the configuration of a hold period, in any network. -/
def demo (li : LedgerInfo) (hli : Configured li) (days : ℕ) (hdays : days ≠ 0)
    (hdate : 5 + days * 86400 ≤ u64Max) : Deposited where
  before := [⟨demoEnv, (li, .setConfig ⟨"GADMIN"⟩ (demoConfig days))⟩]
  li := li
  env := demoEnv
  caller := ⟨"GALICE"⟩
  queueId := ⟨"clinic"⟩
  amount := 150
  asset := ⟨"CXLM"⟩
  config := demoConfig days
  state := demoLedger li days
  inForce := by
    rw [Transactional.run_cons, Transactional.next_of_ok (setConfig_demo hli hdays)]
    show ((demoStorage li days).lookup (.config ⟨"clinic"⟩)).map (·.value) = _
    rw [demoStorage, written, Finmap.lookup_insert]
    rfl
  ok := by
    rw [Transactional.run_cons, Transactional.next_of_ok (setConfig_demo hli hdays)]
    exact deposit_demo hli hdate

/-- The record of a deposit outlives its hold period exactly when the least lifetime of the network and the
constants of `extend_ttl` cover it. -/
theorem outlivesHold_iff (d : Deposited) (hmax : d.neededLifetime ≤ d.li.maxLifetime) :
    d.OutlivesHold ↔ d.CoversHold :=
  d.outlivesHold_iff_needed.trans (d.neededLifetime_le_iff hmax)

/-- Thirty days in a network that gives a new entry 4096 ledgers. -/
theorem outlivesHold_thirty :
    (demo ⟨1, 4096, 6312000⟩ ⟨by decide, by decide, by decide⟩ 30 (by decide) (by decide)).OutlivesHold :=
  (outlivesHold_iff _ (by decide)).mpr (by decide)

/-- In a network that gives a new entry 120 days, nothing is extended, and a hold period of 120 days has no
buffer. -/
theorem no_buffer_after_120 :
    ¬ ∀ d : Deposited, d.neededLifetime ≤ d.li.maxLifetime → d.OutlivesHold := by
  intro h
  have hlong := h (demo ⟨1, 2073600, 3110400⟩ ⟨by decide, by decide, by decide⟩ 120 (by decide)
    (by decide)) (by decide)
  rw [Deposited.outlivesHold_iff_needed] at hlong
  exact absurd hlong (by decide)

end LineProof.Escrow.Ttl
