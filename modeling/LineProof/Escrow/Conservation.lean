import LineProof.Lib.FinmapWeight
import LineProof.Escrow.Steps

/-!
# Conservation

The running total of a queue is the sum of its active deposits, and also what its events add up to. The
first is the invariant `Balanced`, a sum over all records; from it follows that the subtraction in
`decrement_total` stays in range.
-/

namespace LineProof.Escrow

open Soroban

/-- What a record counts towards the funds held for `q`. -/
def activeAmount (q : Symbol) (key : RecordKey) (record : EscrowRecord) : ℤ :=
  if key.1 = q ∧ record.status = .active then record.amount else 0

/-- The sum of the active amounts of `q` over all records. -/
def Store.activeSum (s : Store) (q : Symbol) : ℤ := s.records.weight (activeAmount q)

/-- The amount in an event of this kind and queue, `0` for any other event. -/
def eventAmount (kind : String) (q : Symbol) (e : Event) : ℤ :=
  match e.topics, e.data with
  | [.symbol contract, .symbol k, .symbol queueId], .tuple [.address _, .i128 amount] =>
    if contract = ⟨"lineproof_escrow"⟩ ∧ k = ⟨kind⟩ ∧ queueId = q then amount else 0
  | _, _ => 0

/-- The sum of the amounts of the events of this kind and queue. -/
def eventSum (kind : String) (q : Symbol) (events : List Event) : ℤ :=
  (events.map (eventAmount kind q)).sum

/-- What was deposited for `q` and has not been given out again, by the events. -/
def netDeposited (q : Symbol) (events : List Event) : ℤ :=
  eventSum "Deposited" q events -
    (eventSum "Released" q events + eventSum "Refunded" q events + eventSum "Expired" q events)

/-- The running total of `q` is exact. -/
structure Conservation (l : Ledger Store) (q : Symbol) : Prop where
  eq_active : l.store.totalHeld q = l.store.activeSum q
  eq_events : l.store.totalHeld q = eventSum "Deposited" q l.events -
    (eventSum "Released" q l.events + eventSum "Refunded" q l.events +
      eventSum "Expired" q l.events)
  nonneg : 0 ≤ l.store.totalHeld q
  /-- No call that ends a deposit traps on its subtraction. -/
  no_underflow : ∀ env admin u, ∀ e ∈ [Entrypoint.release admin u q, .refund admin u q, .expire u q],
    exec e env l ≠ .error .overflow

variable {s s' : Store} {env : Env} {e : Entrypoint} {o : Output} {published : List Event}
  {l : Ledger Store} {q : Symbol} {u : Address}

/-! ## Events -/

/-- An event counts for its own kind and queue only. -/
theorem eventAmount_event (kind kind' : String) (q q' : Symbol) (u : Address) (amount : ℤ) :
    eventAmount kind q (event kind' q' u amount) = if kind' = kind ∧ q' = q then amount else 0 := by
  simp [eventAmount, event]

/-- The amounts of two event lists add up. -/
theorem eventSum_append (kind : String) (q : Symbol) (events more : List Event) :
    eventSum kind q (events ++ more) = eventSum kind q events + eventSum kind q more := by
  rw [eventSum, List.map_append, List.sum_append, eventSum, eventSum]

/-- The net deposits of two event lists add up. -/
theorem netDeposited_append (q : Symbol) (events more : List Event) :
    netDeposited q (events ++ more) = netDeposited q events + netDeposited q more := by
  simp only [netDeposited, eventSum_append]
  omega

/-- A `Deposited` event adds its amount, to its own queue. -/
theorem netDeposited_deposited (q q' : Symbol) (u : Address) (amount : ℤ) :
    netDeposited q [event "Deposited" q' u amount] = if q' = q then amount else 0 := by
  simp [netDeposited, eventSum, eventAmount_event]

/-- Each of the three ends of a record takes its amount out of its own queue. -/
theorem Settlement.netDeposited {record : EscrowRecord} {outcome : EscrowStatus} {kind : String}
    (settlement : Settlement env record q u e outcome kind) (q' : Symbol) (amount : ℤ) :
    netDeposited q' [event kind q u amount] = if q = q' then -amount else 0 := by
  cases settlement <;> simp [Escrow.netDeposited, eventSum, eventAmount_event] <;> split <;> simp

/-! ## The invariant -/

/-- The running totals are the sums of the active amounts, and fit an `i128`. -/
structure Balanced (s : Store) : Prop where
  positive : ∀ k record, s.records.lookup k = some record → 0 < record.amount
  total_eq : ∀ q, s.totalHeld q = s.activeSum q
  total_le : ∀ q, s.totalHeld q ≤ i128Max

/-- No call makes the amount of a record zero or negative. -/
theorem RecordChange.positive {old new : Option EscrowRecord} (change : RecordChange env e q u old new)
    (h : ∀ record, old = some record → 0 < record.amount) :
    ∀ record, new = some record → 0 < record.amount := by
  cases change with
  | keep => exact h
  | opened positive => rintro _ ⟨⟩; exact positive
  | @ended record => rintro _ ⟨⟩; exact h record rfl

/-- A deposit raises the total of its own queue. -/
theorem totalHeld_afterDeposit (s : Store) (record : EscrowRecord) (q : Symbol) :
    (s.afterDeposit record).totalHeld q =
      s.totalHeld q + if record.queueId = q then record.amount else 0 := by
  unfold Store.afterDeposit Store.totalHeld
  by_cases hq : record.queueId = q
  · subst hq
    simp
  · rw [Finmap.lookup_insert_of_ne _ (Ne.symm hq), if_neg hq, add_zero]

/-- A settlement lowers the total of its own queue. -/
theorem totalHeld_afterSettle (s : Store) (q : Symbol) (u : Address) (record : EscrowRecord)
    (outcome : EscrowStatus) (now : ℕ) (q' : Symbol) :
    (s.afterSettle q u record outcome now).totalHeld q' =
      s.totalHeld q' - if q = q' then record.amount else 0 := by
  unfold Store.afterSettle Store.totalHeld
  by_cases hq : q = q'
  · subst hq
    simp
  · rw [Finmap.lookup_insert_of_ne _ (Ne.symm hq), if_neg hq, sub_zero]

/-- A deposit adds an active record to its own queue. -/
theorem activeSum_afterDeposit {record : EscrowRecord} (q : Symbol)
    (free : s.records.lookup (record.queueId, record.identity) = none)
    (active : record.status = .active) :
    (s.afterDeposit record).activeSum q =
      s.activeSum q + if record.queueId = q then record.amount else 0 := by
  rw [Store.activeSum, Store.afterDeposit, Finmap.weight_insert_fresh free, add_comm, activeAmount,
    Store.activeSum]
  simp [active]

/-- A settled record is active no more. -/
theorem Settlement.not_active {record : EscrowRecord} {outcome : EscrowStatus} {kind : String}
    (settlement : Settlement env record q u e outcome kind) : outcome ≠ .active := by
  cases settlement <;> nofun

/-- A settlement takes an active record out of its own queue. -/
theorem activeSum_afterSettle {record : EscrowRecord} {outcome : EscrowStatus} (now : ℕ)
    (q' : Symbol) (stored : s.records.lookup (q, u) = some record) (active : record.status = .active)
    (ended : outcome ≠ .active) :
    (s.afterSettle q u record outcome now).activeSum q' =
      s.activeSum q' - if q = q' then record.amount else 0 := by
  have hw := Finmap.weight_insert (activeAmount q') s.records (q, u) (record.settle outcome now)
  rw [stored, Option.elim_some] at hw
  rw [Store.activeSum, Store.afterSettle, Store.activeSum]
  simp only [activeAmount, EscrowRecord.settle, ended, active, and_false, and_true, if_false] at hw ⊢
  omega

/-- A call changes the running total as its events say. -/
theorem Effect.totalHeld (eff : Effect env s e o s' published) (q : Symbol) :
    s'.totalHeld q = s.totalHeld q + netDeposited q published := by
  cases eff with
  | read | setConfig => simp [netDeposited, eventSum, Store.totalHeld]
  | deposit => rw [totalHeld_afterDeposit, netDeposited_deposited]; rfl
  | settle settlement =>
    rw [totalHeld_afterSettle, settlement.netDeposited]
    split <;> omega

/-- A call changes the sum of the active amounts as its events say. -/
theorem Effect.activeSum (eff : Effect env s e o s' published) (q : Symbol) :
    s'.activeSum q = s.activeSum q + netDeposited q published := by
  cases eff with
  | read | setConfig => simp [netDeposited, eventSum, Store.activeSum]
  | deposit checks =>
    rw [activeSum_afterDeposit q checks.free rfl, netDeposited_deposited]
    rfl
  | settle settlement stored active =>
    rw [activeSum_afterSettle _ q stored active settlement.not_active, settlement.netDeposited]
    split <;> omega

namespace Balanced

/-- The active amounts are positive, so their sum is not negative. -/
theorem activeAmount_nonneg (h : Balanced s) (q : Symbol) (k : RecordKey) (record : EscrowRecord)
    (stored : s.records.lookup k = some record) : 0 ≤ activeAmount q k record := by
  unfold activeAmount
  split
  · exact (h.positive k record stored).le
  · exact le_refl 0

/-- Totals are sums of positive amounts. -/
theorem totalHeld_nonneg (h : Balanced s) (q : Symbol) : 0 ≤ s.totalHeld q := by
  rw [h.total_eq]
  exact Finmap.weight_nonneg (h.activeAmount_nonneg q)

/-- An active deposit is part of the running total, so subtracting it stays in range. -/
theorem inI128_sub (h : Balanced s) {record : EscrowRecord}
    (stored : s.records.lookup (q, u) = some record) (active : record.status = .active) :
    InI128 (s.totalHeld q - record.amount) := by
  have hle : activeAmount q (q, u) record ≤ s.activeSum q :=
    Finmap.le_weight (h.activeAmount_nonneg q) stored
  have hamount : activeAmount q (q, u) record = record.amount := if_pos ⟨rfl, active⟩
  have hpos := h.positive _ _ stored
  have hmax := h.total_le q
  have htotal := h.total_eq q
  constructor
  · show -2 ^ 127 ≤ _
    omega
  · omega

/-- Ending an active deposit cannot fail. -/
theorem settle_succeeds (h : Balanced l.store) {record : EscrowRecord}
    (stored : l.store.records.lookup (q, u) = some record) (active : record.status = .active)
    (outcome : EscrowStatus) (kind : String) (env : Env) :
    Succeeds (settle outcome kind u q record) env l :=
  ⟨_, settle_eq_ok.mpr ⟨active, h.inI128_sub stored active, rfl⟩⟩

/-- No call unbalances the totals. -/
theorem effect (h : Balanced s) (eff : Effect env s e o s' published) : Balanced s' := by
  constructor
  · rintro ⟨q, u⟩
    exact (eff.recordChange q u).positive (h.positive (q, u))
  · intro q
    -- both sides move by the net amount of the events
    rw [eff.totalHeld, eff.activeSum, h.total_eq]
  · intro q
    have hmax := h.total_le q
    cases eff with
    | read | setConfig => exact hmax
    | @deposit q' _ _ _ _ checks =>
      rw [totalHeld_afterDeposit]
      have htotal := checks.total.2
      by_cases hq : q' = q
      · subst hq
        simpa [newRecord] using htotal
      · simpa [newRecord, hq] using hmax
    | @settle _ q' u record _ _ _ stored =>
      rw [totalHeld_afterSettle]
      have hpos := h.positive _ _ stored
      split <;> omega

end Balanced

/-! ## Every run -/

/-- Nothing is held at the start. -/
theorem balanced_fresh : Balanced fresh.store := by
  constructor
  · intro k record hr
    simp [fresh] at hr
  · intro q
    rfl
  · intro q
    show (0 : ℤ) ≤ i128Max
    decide

/-- A committed call keeps the totals balanced. -/
theorem Balanced.commit_post (c : escrow.Commit) (h : Balanced c.pre.store) :
    Balanced c.post.store := by
  obtain ⟨_, -, eff⟩ := effect_of_exec c.ok
  exact h.effect eff

/-- The totals match the active records in every reachable state. -/
theorem balanced_run (calls : List (Invocation Entrypoint)) :
    Balanced (escrow.run fresh calls).store :=
  Transactional.run_invariant (I := fun l : Ledger Store => Balanced l.store) Balanced.commit_post
    balanced_fresh calls

/-- The events account for the running totals. -/
theorem totalHeld_eq_netDeposited (calls : List (Invocation Entrypoint)) (q : Symbol) :
    (escrow.run fresh calls).store.totalHeld q = netDeposited q (escrow.run fresh calls).events := by
  refine Transactional.run_invariant (M := escrow)
    (I := fun l : Ledger Store => l.store.totalHeld q = netDeposited q l.events) ?_ rfl calls
  intro c h
  obtain ⟨published, hevents, eff⟩ := effect_of_exec c.ok
  rw [eff.totalHeld, h, hevents, netDeposited_append]

/-- Ending a deposit overflows only if the subtraction leaves the range of `i128`. -/
theorem settle_eq_overflow {outcome : EscrowStatus} {kind : String} {record : EscrowRecord} :
    settle outcome kind u q record env l = .error .overflow ↔
      record.status = .active ∧ ¬ InI128 (l.store.totalHeld q - record.amount) := by
  simp [settle, saveRecord, decrementTotal, saveTotal, emit, InI128, totalHeld_records]

/-- No settlement of a stored record underflows the total. -/
theorem Balanced.settle_ne_overflow (h : Balanced l.store) {outcome : EscrowStatus} {kind : String}
    {record : EscrowRecord} (stored : l.store.records.lookup (q, u) = some record) :
    settle outcome kind u q record env l ≠ .error .overflow := by
  intro hoverflow
  obtain ⟨active, hrange⟩ := settle_eq_overflow.mp hoverflow
  exact hrange (h.inI128_sub stored active)

/-- None of the three entrypoints that settle underflows. -/
theorem Balanced.no_underflow (h : Balanced l.store) (env : Env) (admin u : Address) :
    ∀ e ∈ [Entrypoint.release admin u q, .refund admin u q, .expire u q],
      exec e env l ≠ .error .overflow := by
  intro e he hoverflow
  simp only [List.mem_cons, List.not_mem_nil, or_false] at he
  rcases he with rfl | rfl | rfl
  · simp [exec, release, loadRecord] at hoverflow
    obtain ⟨-, record, stored, hoverflow⟩ := hoverflow
    exact h.settle_ne_overflow stored hoverflow
  · simp [exec, refund, loadRecord] at hoverflow
    obtain ⟨-, record, stored, hoverflow⟩ := hoverflow
    exact h.settle_ne_overflow stored hoverflow
  · simp [exec, expire, loadRecord] at hoverflow
    obtain ⟨record, stored, -, hoverflow⟩ := hoverflow
    exact h.settle_ne_overflow stored hoverflow

/-- Every queue's running total is exact in every reachable state. -/
theorem escrow_conservation (calls : List (Invocation Entrypoint)) (q : Symbol) :
    Conservation (escrow.run fresh calls) q := by
  have h := balanced_run calls
  constructor
  · exact h.total_eq q
  · exact totalHeld_eq_netDeposited calls q
  · exact h.totalHeld_nonneg q
  · exact h.no_underflow

end LineProof.Escrow
