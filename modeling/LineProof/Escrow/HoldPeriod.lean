import LineProof.Escrow.Conservation

/-!
# The hold period

`set_config` refuses a hold period of zero days and no other. `deposit` turns the days into a date in `u64`,
and traps where the date does not fit: a configuration with a longer hold period than that is accepted and
lets nobody deposit. Up to there every deposit in range goes through, with its exact date
(`deposit_succeeds_iff`).
-/

namespace LineProof.Escrow

open Soroban

/-- An accepted `set_config`, with the calls before it and the state it leaves. -/
structure AcceptedConfig where
  before : List (Invocation Entrypoint)
  env : Env
  admin : Address
  config : EscrowConfig
  state : Ledger Store
  ok : exec (.setConfig admin config) env (escrow.run fresh before) = .ok (.unit, state)

/-- A deposit within the configuration `c`, by a caller without a record. -/
structure DepositInRange (env : Env) (s : Store) (c : EscrowConfig) (u : Address) (amount : ℤ) :
    Prop where
  config : s.configs.lookup c.queueId = some c
  auth : u ∈ env.authorizers
  time : env.timestamp < 2 ^ 40
  free : s.records.lookup (c.queueId, u) = none
  positive : 0 < amount
  bounds : c.minDeposit ≤ amount ∧ amount ≤ c.maxDeposit
  total : s.totalHeld c.queueId + amount ≤ i128Max

/-- The deposit goes through, and its record expires exactly after the hold period. -/
def DepositSucceeds (env : Env) (l : Ledger Store) (c : EscrowConfig) (u : Address) (amount : ℤ)
    (asset : Address) : Prop :=
  ∃ l' record, exec (.deposit u c.queueId amount asset) env l = .ok (.unit, l') ∧
    l'.store.records.lookup (c.queueId, u) = some record ∧
    record.expiresAt = env.timestamp + 86400 * c.holdPeriodDays

variable {env : Env} {l : Ledger Store} {c : EscrowConfig} {u asset : Address} {amount : ℤ}

/-- On a deposit in range only the date can fail. -/
theorem DepositInRange.checks (h : DepositInRange env l.store c u amount) (hbal : Balanced l.store)
    (expiry : env.timestamp + c.holdPeriodDays * 86400 ≤ u64Max) :
    DepositChecks env l.store c.queueId u amount c := by
  refine ⟨h.auth, h.positive, h.free, h.config, h.bounds, expiry, ?_, h.total⟩
  have hnonneg := hbal.totalHeld_nonneg c.queueId
  have hpositive := h.positive
  have hmin : i128Min ≤ 0 := by decide
  omega

/-- The entrypoint returns what `deposit` does. -/
theorem exec_deposit {l' : Ledger Store} {q : Symbol} :
    exec (.deposit u q amount asset) env l = .ok (.unit, l') ↔
      deposit u q amount asset env l = .ok ((), l') := by
  constructor
  · intro h
    obtain ⟨⟨⟩, hdeposit, -⟩ := bind_pure_eq_ok.mp h
    exact hdeposit
  · intro h
    exact bind_pure_eq_ok.mpr ⟨(), h, rfl⟩

/-- Within the bounds, a deposit fails only when its `expires_at` overflows. -/
theorem DepositInRange.succeeds_iff (h : DepositInRange env l.store c u amount)
    (hbal : Balanced l.store) : DepositSucceeds env l c u amount asset ↔
      env.timestamp + 86400 * c.holdPeriodDays ≤ u64Max := by
  constructor
  · intro hsucceeds
    rcases hsucceeds with ⟨l', record, hexec, -⟩
    obtain ⟨c', checks, -⟩ := deposit_eq_ok.mp (exec_deposit.mp hexec)
    obtain rfl := Option.some.inj (h.config.symm.trans checks.config)
    have hexpiry := checks.expiry
    omega
  · intro hdate
    have checks := h.checks hbal (by omega)
    refine ⟨_, newRecord c.queueId u amount asset env.timestamp c.holdPeriodDays,
      exec_deposit.mpr (deposit_eq_ok.mpr ⟨c, checks, rfl⟩), ?_, ?_⟩
    · exact Finmap.lookup_insert _
    · show env.timestamp + c.holdPeriodDays * 86400 = _
      rw [Nat.mul_comm]

/-- Whenever an accepted configuration is the one of its queue, a deposit in range goes through, with its
exact date, exactly when the date is a `u64`. -/
theorem deposit_succeeds_iff (a : AcceptedConfig) (later : List (Invocation Entrypoint)) (env : Env)
    (u asset : Address) (amount : ℤ)
    (h : DepositInRange env (escrow.run a.state later).store a.config u amount) :
    DepositSucceeds env (escrow.run a.state later) a.config u amount asset ↔
      env.timestamp + 86400 * a.config.holdPeriodDays ≤ u64Max := by
  obtain ⟨_, -, eff⟩ := effect_of_exec a.ok
  have hstart : Balanced a.state.store := (balanced_run a.before).effect eff
  exact h.succeeds_iff (Transactional.run_invariant (M := escrow)
    (I := fun l : Ledger Store => Balanced l.store) Balanced.commit_post hstart later)

/-- A configuration of so many days, accepted by a fresh contract. -/
def holdFor (days : ℕ) (hdays : days ≠ 0) : AcceptedConfig where
  before := []
  env := ⟨0, [⟨"GADMIN"⟩], ⟨"CESCROW"⟩⟩
  admin := ⟨"GADMIN"⟩
  config := { queueId := ⟨"clinic"⟩, minDeposit := 100, maxDeposit := 1000, holdPeriodDays := days,
              admin := ⟨"GADMIN"⟩ }
  state := _
  ok := bind_eq_ok.mpr ⟨_, _, setConfig_eq_ok.mpr
    ⟨List.mem_cons_self, ⟨show (100 : ℤ) ≤ 1000 by omega, hdays⟩, rfl⟩, rfl⟩

/-- Right after the configuration a deposit of 150 is in range, whatever the hold period. -/
theorem inRange_holdFor (days : ℕ) (hdays : days ≠ 0) :
    DepositInRange ⟨5, [⟨"GALICE"⟩], ⟨"CESCROW"⟩⟩ (holdFor days hdays).state.store
      (holdFor days hdays).config ⟨"GALICE"⟩ 150 where
  config := rfl
  auth := List.mem_cons_self
  time := show 5 < 2 ^ 40 by omega
  free := rfl
  positive := by omega
  bounds := show (100 : ℤ) ≤ 150 ∧ (150 : ℤ) ≤ 1000 by omega
  total := show (0 : ℤ) + 150 ≤ i128Max by decide

/-- A deposit for thirty days. -/
theorem deposit_succeeds_iff_thirty :
    DepositSucceeds ⟨5, [⟨"GALICE"⟩], ⟨"CESCROW"⟩⟩ (escrow.run (holdFor 30 (by decide)).state [])
      (holdFor 30 (by decide)).config ⟨"GALICE"⟩ 150 ⟨"CXLM"⟩ ↔ 5 + 86400 * 30 ≤ u64Max :=
  deposit_succeeds_iff (holdFor 30 (by decide)) [] ⟨5, [⟨"GALICE"⟩], ⟨"CESCROW"⟩⟩ ⟨"GALICE"⟩ ⟨"CXLM"⟩ 150
    (inRange_holdFor 30 (by decide))

/-- With the longest hold period that `set_config` accepts, nobody can deposit. -/
theorem longest_hold_blocks :
    ¬ ∀ (a : AcceptedConfig) (env : Env) (u asset : Address) (amount : ℤ),
      DepositInRange env a.state.store a.config u amount →
      DepositSucceeds env a.state a.config u amount asset := by
  intro h
  have hlongest : u64Max ≠ 0 := by decide
  have hrange := inRange_holdFor u64Max hlongest
  obtain ⟨_, _, hexec, -⟩ := h _ _ _ ⟨"CXLM"⟩ _ hrange
  obtain ⟨c, checks, -⟩ := deposit_eq_ok.mp (exec_deposit.mp hexec)
  obtain rfl := Option.some.inj (hrange.config.symm.trans checks.config)
  have hexpiry : 5 + u64Max * 86400 ≤ u64Max := checks.expiry
  exact absurd hexpiry (by decide)

end LineProof.Escrow
