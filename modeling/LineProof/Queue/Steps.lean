import Mathlib.Data.List.Range
import LineProof.Queue.Defs

/-!
# What each queue entrypoint does

One equivalence for each entrypoint: its guards, and the ledger it leaves. The scan of `advance` has a
closed form (`advanceScan_eq`), and a batch expiry succeeds exactly on distinct pending positions
(`expireEach_eq_ok`).

`Effect` collects the entrypoints by the change they make to the storage, so that an invariant needs
one case for each kind of change; `effect_of_exec` says that every successful call is one of them.
-/

namespace LineProof.Queue

open Soroban

variable {env : Env} {l : Ledger Store} {admin : Address}

/-- `admin` is the stored administrator `c.admin` and authorized the call. -/
structure AdminCall (s : Store) (env : Env) (admin : Address) (c : QueueConfig) : Prop where
  config : s.config = some c
  isAdmin : c.admin = admin
  auth : admin ∈ env.authorizers

/-- An event is appended. -/
@[simp] theorem emit_eq_ok {kind : String} {id now : ℕ} {who : Address} {r : Unit × Ledger Store} :
    emit kind id who now env l = .ok r ↔
      ((), { l with events := l.events ++ [event kind id who now] }) = r :=
  publish_eq_ok

/-- The configuration is read if there is one. -/
@[simp] theorem getConfigInternal_eq_ok {r : QueueConfig × Ledger Store} :
    getConfigInternal env l = .ok r ↔ ∃ c, l.store.config = some c ∧ (c, l) = r := by
  simp [getConfigInternal]

/-- The check of the administrator changes nothing. -/
@[simp] theorem requireAdmin_eq_ok {c : QueueConfig} {r : Unit × Ledger Store} :
    requireAdmin c admin env l = .ok r ↔
      c.admin = admin ∧ admin ∈ env.authorizers ∧ ((), l) = r := by
  simp [requireAdmin]

/-- A position is read if there is one. -/
@[simp] theorem loadPosition_eq_ok {id : ℕ} {r : Position × Ledger Store} :
    loadPosition id env l = .ok r ↔ ∃ p, l.store.positions.lookup id = some p ∧ (p, l) = r := by
  simp [loadPosition]

/-- A position is written under its id. -/
@[simp] theorem savePosition_eq_ok {id : ℕ} {p : Position} {r : Unit × Ledger Store} :
    savePosition id p env l = .ok r ↔
      ((), ⟨{ l.store with positions := l.store.positions.insert id p }, l.events⟩) = r :=
  save_eq_ok

/-- The configuration is written. -/
@[simp] theorem saveConfig_eq_ok {c : QueueConfig} {r : Unit × Ledger Store} :
    saveConfig c env l = .ok r ↔
      ((), ⟨{ l.store with config := some c }, l.events⟩) = r :=
  save_eq_ok

theorem adminCall_iff {s : Store} {c : QueueConfig} :
    AdminCall s env admin c ↔ s.config = some c ∧ c.admin = admin ∧ admin ∈ env.authorizers :=
  ⟨fun h => ⟨h.config, h.isAdmin, h.auth⟩, fun ⟨h₁, h₂, h₃⟩ => ⟨h₁, h₂, h₃⟩⟩

/-! ## Administration -/

/-- `initialize` asks for no more than the signature of the administrator it stores. -/
theorem initializeQueue_eq_ok {config : QueueConfig} {r : Unit × Ledger Store} :
    initializeQueue admin config env l = .ok r ↔
      admin ∈ env.authorizers ∧ config.admin = admin ∧
        r = ((), ⟨{ l.store with config := some config, nextId := some 1, activeCount := some 0,
                                 idx := some 0, version := some currentVersion },
          l.events ++ [event "Initialized" 0 admin 0]⟩) := by
  simp [initializeQueue]
  grind

/-- The administrator writes the pending one. -/
theorem proposeAdmin_eq_ok {p : Address} {r : Unit × Ledger Store} :
    proposeAdmin admin p env l = .ok r ↔
      (∃ c, AdminCall l.store env admin c) ∧
        r = ((), ⟨{ l.store with pendingAdmin := some p }, l.events⟩) := by
  simp [proposeAdmin, adminCall_iff]
  grind

/-- The pending administrator, and nobody else, takes over. -/
theorem acceptAdmin_eq_ok {p : Address} {r : Unit × Ledger Store} :
    acceptAdmin p env l = .ok r ↔
      ∃ c, l.store.config = some c ∧ l.store.pendingAdmin = some p ∧ p ∈ env.authorizers ∧
        r = ((), ⟨{ l.store with config := some { c with admin := p }, pendingAdmin := none },
          l.events ++ [⟨[.string "lineproof.queue", .symbol ⟨"OwnershipTransferred"⟩,
            .address c.admin, .address p], .void⟩]⟩) := by
  simp [acceptAdmin]
  grind

/-- An upgrade publishes its event and changes nothing. -/
theorem upgrade_eq_ok {hash : Bytes32} {r : Unit × Ledger Store} :
    upgrade admin hash env l = .ok r ↔
      (∃ c, AdminCall l.store env admin c) ∧
        r = ((), ⟨l.store, l.events ++ [event "Upgraded" 0 admin env.timestamp]⟩) := by
  simp [upgrade, adminCall_iff]
  grind

/-- A migration raises the version from the one it expects. -/
theorem migrate_eq_ok {fromVersion toVersion : ℕ} {r : Unit × Ledger Store} :
    migrate admin fromVersion toVersion env l = .ok r ↔
      (∃ c, AdminCall l.store env admin c) ∧ l.store.version.getD currentVersion = fromVersion ∧
        fromVersion < toVersion ∧
        r = ((), ⟨{ l.store with version := some toVersion },
          l.events ++ [event "Migrated" fromVersion admin toVersion]⟩) := by
  simp [migrate, adminCall_iff]
  grind

/-! ## Lifecycle -/

/-- Enrollment is opened from Draft. -/
theorem openEnrollment_eq_ok {r : Unit × Ledger Store} :
    openEnrollment admin env l = .ok r ↔
      ∃ c, AdminCall l.store env admin c ∧ c.status = .draft ∧
        r = ((), ⟨{ l.store with config := some { c with status := .enrollmentOpen } },
          l.events ++ [event "EnrollmentOpened" 0 admin env.timestamp]⟩) := by
  simp [openEnrollment, adminCall_iff]
  grind

/-- Enrollment is closed from EnrollmentOpen. -/
theorem closeEnrollment_eq_ok {r : Unit × Ledger Store} :
    closeEnrollment admin env l = .ok r ↔
      ∃ c, AdminCall l.store env admin c ∧ c.status = .enrollmentOpen ∧
        r = ((), ⟨{ l.store with config := some { c with status := .enrollmentClosed } },
          l.events ++ [event "EnrollmentClosed" 0 admin env.timestamp]⟩) := by
  simp [closeEnrollment, adminCall_iff]
  grind

/-- A queue is closed from any other status. -/
theorem close_eq_ok {r : Unit × Ledger Store} :
    close admin env l = .ok r ↔
      ∃ c, AdminCall l.store env admin c ∧ c.status ≠ .closed ∧
        r = ((), ⟨{ l.store with config := some { c with status := .closed } },
          l.events ++ [event "QueueClosed" 0 admin env.timestamp]⟩) := by
  simp [close, adminCall_iff]
  grind

/-! ## Enrollment and cancellation -/

/-- The position `enroll_position` creates. -/
def newPosition (id now : ℕ) (identity : Address) : Position where
  positionId := id
  enrolledAt := now
  identity := identity
  status := .pending
  advancedAt := none
  priorityWeight := none

/-- An enrollment needs an open queue with room, and creates the next position. -/
theorem enrollPosition_eq_ok {u : Address} {r : ℕ × Ledger Store} :
    enrollPosition u env l = .ok r ↔
      ∃ c, l.store.config = some c ∧ u ∈ env.authorizers ∧ c.status = .enrollmentOpen ∧
        l.store.activeCount.getD 0 < c.maxPositions ∧ l.store.nextId.getD 1 + 1 ≤ u32Max ∧
        l.store.activeCount.getD 0 + 1 ≤ u32Max ∧
        r = (l.store.nextId.getD 1,
          ⟨{ l.store with
              positions := l.store.positions.insert (l.store.nextId.getD 1)
                (newPosition (l.store.nextId.getD 1) env.timestamp u)
              nextId := some (l.store.nextId.getD 1 + 1)
              activeCount := some (l.store.activeCount.getD 0 + 1) },
            l.events ++ [event "Enrolled" (l.store.nextId.getD 1) u env.timestamp]⟩) := by
  simp [enrollPosition, newPosition]
  grind

/-- A cancellation needs the holder and a pending position. -/
theorem cancelPosition_eq_ok {u : Address} {id : ℕ} {r : Unit × Ledger Store} :
    cancelPosition u id env l = .ok r ↔
      ∃ p, l.store.positions.lookup id = some p ∧ u ∈ env.authorizers ∧ p.identity = u ∧
        p.status = .pending ∧
        r = ((), ⟨{ l.store with
            positions := l.store.positions.insert id { p with status := .cancelled }
            activeCount := some (l.store.activeCount.getD 0 - 1) },
          l.events ++ [event "Cancelled" id u env.timestamp]⟩) := by
  simp [cancelPosition]
  grind

/-! ## Expiry -/

/-- Updating the positions under `ids` one after the other updates each of them once, if a second
update changes nothing. -/
theorem lookup_foldl_update (f : Position → Position) (idem : ∀ p, f (f p) = f p) (m : Positions)
    (ids : List ℕ) (i : ℕ) :
    (ids.foldl (fun m id => match m.lookup id with
      | some p => m.insert id (f p)
      | none => m) m).lookup i = if i ∈ ids then (m.lookup i).map f else m.lookup i := by
  induction ids generalizing m with
  | nil => simp
  | cons id ids ih =>
    rw [List.foldl_cons, ih]
    by_cases hi : i = id
    · subst hi
      cases h : m.lookup i with
      | none => simp [h]
      | some p => simp [idem]
    · cases h : m.lookup id with
      | none => simp [hi]
      | some p => simp [Finmap.lookup_insert_of_ne _ hi, hi]

/-- `p` with the status `expire_position` writes. -/
def Position.expire (p : Position) : Position := { p with status := .expired }

/-- The positions after expiring each of `ids`. -/
def expireAll (m : Positions) (ids : List ℕ) : Positions :=
  ids.foldl (fun m id => match m.lookup id with
    | some p => m.insert id p.expire
    | none => m) m

/-- Expiring a list begins with its first id. -/
theorem expireAll_cons {m : Positions} {id : ℕ} {p : Position} (h : m.lookup id = some p)
    (ids : List ℕ) : expireAll m (id :: ids) = expireAll (m.insert id p.expire) ids := by
  rw [expireAll, List.foldl_cons, h]; rfl

/-- Expiring a list expires its ids and no others. -/
theorem lookup_expireAll (m : Positions) (ids : List ℕ) (i : ℕ) :
    (expireAll m ids).lookup i =
      if i ∈ ids then (m.lookup i).map Position.expire else m.lookup i :=
  lookup_foldl_update Position.expire (fun _ => rfl) m ids i

/-- A pending position is expired and announced. -/
theorem expirePending_eq_ok {id : ℕ} {r : Unit × Ledger Store} :
    expirePending admin id env l = .ok r ↔
      ∃ p, l.store.positions.lookup id = some p ∧ p.status = .pending ∧
        r = ((), ⟨{ l.store with positions := l.store.positions.insert id p.expire },
          l.events ++ [event "Expired" id admin env.timestamp]⟩) := by
  simp [expirePending, Position.expire]
  grind

/-- After expiring `id`, the pending positions are those pending before, except `id`. -/
theorem pending_insert_expire {m : Positions} {id i : ℕ} {p : Position} :
    statusAt (m.insert id p.expire) i = some .pending ↔
      i ≠ id ∧ statusAt m i = some .pending := by
  by_cases hi : i = id
  · subst hi
    simp [Position.expire]
  · simp [statusAt_insert_of_ne _ _ hi, hi]

/-- The loop goes through if the ids are pending, each of them once. -/
theorem expireEach_eq_ok {ids : List ℕ} {r : Unit × Ledger Store} :
    expireEach admin ids env l = .ok r ↔
      ids.Nodup ∧ (∀ i ∈ ids, statusAt l.store.positions i = some .pending) ∧
        r = ((), ⟨{ l.store with positions := expireAll l.store.positions ids },
          l.events ++ ids.map (event "Expired" · admin env.timestamp)⟩) := by
  induction ids generalizing l with
  | nil => simp [expireEach, expireAll, eq_comm]
  | cons id ids ih =>
    rw [expireEach, bind_eq_ok]
    simp only [expirePending_eq_ok, ih, List.nodup_cons, List.forall_mem_cons]
    constructor
    · intro h
      rcases h with ⟨_, l', ⟨p, hp, hst, hl'⟩, hnd, hpend, rfl⟩
      obtain ⟨-, rfl⟩ := Prod.mk.inj hl'
      simp only [pending_insert_expire] at hpend
      refine ⟨⟨fun h => (hpend id h).1 rfl, hnd⟩,
        ⟨statusAt_eq_some.mpr ⟨p, hp, hst⟩, fun i hi => (hpend i hi).2⟩, ?_⟩
      rw [expireAll_cons hp, List.map_cons, List.append_assoc, List.singleton_append]
    · intro h
      rcases h with ⟨⟨hid, hnd⟩, ⟨hst, hpend⟩, rfl⟩
      obtain ⟨p, hp, hst⟩ := statusAt_eq_some.mp hst
      refine ⟨(), _, ⟨p, hp, hst, rfl⟩, hnd, ?_, ?_⟩
      · intro i hi
        exact pending_insert_expire.mpr ⟨fun h => hid (h ▸ hi), hpend i hi⟩
      · rw [expireAll_cons hp, List.map_cons, List.append_assoc, List.singleton_append]

/-- A batch expiry needs the administrator and a list of distinct pending ids. -/
theorem expirePositionsBatch_eq_ok {ids : List ℕ} {r : Unit × Ledger Store} :
    expirePositionsBatch admin ids env l = .ok r ↔
      ∃ c, AdminCall l.store env admin c ∧
        (c.status = .advancementActive ∨ c.status = .closed) ∧ ids.Nodup ∧
        (∀ i ∈ ids, statusAt l.store.positions i = some .pending) ∧
        r = ((), ⟨{ l.store with positions := expireAll l.store.positions ids },
          l.events ++ ids.map (event "Expired" · admin env.timestamp)⟩) := by
  simp [expirePositionsBatch, adminCall_iff, expireEach_eq_ok]
  grind

/-- `expire_position` is a batch of one. -/
theorem expirePosition_eq_ok {id : ℕ} {r : Unit × Ledger Store} :
    expirePosition admin id env l = .ok r ↔ expirePositionsBatch admin [id] env l = .ok r := by
  obtain ⟨⟨⟩, l'⟩ := r
  simp [expirePosition, expirePositionsBatch, expireEach, Unique.exists_iff]

/-! ## Advancement -/

/-- `p` as the scan leaves it: served if it was pending. -/
def Position.serve (now : ℕ) (p : Position) : Position :=
  if p.status = .pending then { p with status := .advanced, advancedAt := some now } else p

/-- The positions after the scan has passed each of `ids`. -/
def serveAll (now : ℕ) (m : Positions) (ids : List ℕ) : Positions :=
  ids.foldl (fun m id => match m.lookup id with
    | some p => m.insert id (p.serve now)
    | none => m) m

/-- Serving a list begins with its first id. -/
theorem serveAll_cons {now : ℕ} {m : Positions} {id : ℕ} {p : Position} (h : m.lookup id = some p)
    (ids : List ℕ) : serveAll now m (id :: ids) = serveAll now (m.insert id (p.serve now)) ids := by
  rw [serveAll, List.foldl_cons, h]; rfl

/-- A position is served once. -/
theorem Position.serve_serve (now : ℕ) (p : Position) :
    Position.serve now (Position.serve now p) = Position.serve now p := by
  unfold Position.serve
  split <;> simp_all

/-- Serving a list serves its ids and no others. -/
theorem lookup_serveAll (now : ℕ) (m : Positions) (ids : List ℕ) (i : ℕ) :
    (serveAll now m ids).lookup i =
      if i ∈ ids then (m.lookup i).map (Position.serve now) else m.lookup i :=
  lookup_foldl_update (Position.serve now) (Position.serve_serve now) m ids i

/-- Inserting the entry a key already has changes nothing. -/
theorem insert_lookup_self {m : Positions} {id : ℕ} {p : Position} (h : m.lookup id = some p) :
    m.insert id p = m := by
  apply Finmap.ext_lookup
  intro i
  by_cases hi : i = id
  · subst hi
    rw [Finmap.lookup_insert, h]
  · rw [Finmap.lookup_insert_of_ne m hi]

/-- How many positions a scan of at most `n` passes when the cursor is at `idx`. -/
def scanLength (m : Positions) (totalCreated : ℕ) : ℕ → ℕ → ℕ
  | 0, _ => 0
  | n + 1, idx =>
    if totalCreated ≤ idx ∨ m.lookup (idx + 1) = none then 0
    else scanLength m totalCreated n (idx + 1) + 1

/-- The ids a scan passes. -/
def scanned (m : Positions) (totalCreated n idx : ℕ) : List ℕ :=
  List.range' (idx + 1) (scanLength m totalCreated n idx)

/-- The ids among `ids` with status `st`. -/
def withStatus (st : PositionStatus) (m : Positions) (ids : List ℕ) : List ℕ :=
  ids.filter fun id => statusAt m id = some st

/-- The ids with a status, of a list with a first id. -/
theorem withStatus_cons (st : PositionStatus) (m : Positions) (id : ℕ) (ids : List ℕ) :
    withStatus st m (id :: ids) =
      if statusAt m id = some st then id :: withStatus st m ids else withStatus st m ids := by
  simp [withStatus, List.filter_cons]

/-- A write outside the list changes nothing of it. -/
theorem withStatus_insert {st : PositionStatus} {m : Positions} {p : Position} {id : ℕ}
    {ids : List ℕ} (h : id ∉ ids) : withStatus st (m.insert id p) ids = withStatus st m ids := by
  apply List.filter_congr
  intro i hi
  have hne : i ≠ id := fun hi' => h (hi' ▸ hi)
  rw [statusAt_insert_of_ne m p hne]

/-- A scan that finds a position is one longer than the scan from there. -/
theorem scanLength_succ {m : Positions} {p : Position} {totalCreated idx : ℕ}
    (hidx : ¬ totalCreated ≤ idx) (hp : m.lookup (idx + 1) = some p) (n : ℕ) :
    scanLength m totalCreated (n + 1) idx = scanLength m totalCreated n (idx + 1) + 1 := by
  rw [scanLength, if_neg (by simp [hidx, hp])]

/-- A scan that finds a position begins with it. -/
theorem scanned_succ {m : Positions} {p : Position} {totalCreated idx : ℕ}
    (hidx : ¬ totalCreated ≤ idx) (hp : m.lookup (idx + 1) = some p) (n : ℕ) :
    scanned m totalCreated (n + 1) idx = (idx + 1) :: scanned m totalCreated n (idx + 1) := by
  rw [scanned, scanLength_succ hidx hp, List.range'_succ, scanned]

/-- A scan does not look back. -/
theorem notMem_scanned {m : Positions} {totalCreated n idx id : ℕ} (h : id ≤ idx) :
    id ∉ scanned m totalCreated n idx := by
  rw [scanned, List.mem_range'_1]
  omega

/-- Serving `id` changes nothing that a scan starting after `id` reads. -/
theorem scanLength_insert {m : Positions} {p : Position} {id idx : ℕ} (h : id ≤ idx)
    (totalCreated n : ℕ) :
    scanLength (m.insert id p) totalCreated n idx = scanLength m totalCreated n idx := by
  induction n generalizing idx with
  | zero => rfl
  | succ n ih =>
    rw [scanLength, scanLength, Finmap.lookup_insert_of_ne m (by omega), ih (by omega)]

/-- A write behind the cursor does not change what is scanned. -/
theorem scanned_insert {m : Positions} {p : Position} {id idx : ℕ} (h : id ≤ idx)
    (totalCreated n : ℕ) :
    scanned (m.insert id p) totalCreated n idx = scanned m totalCreated n idx := by
  rw [scanned, scanLength_insert h, scanned]

/-- The local variables of the scan after it has passed one position of status `st`. -/
def Scan.pass (scan : Scan) (st : PositionStatus) : Scan where
  idx := scan.idx + 1
  advanced := if st = .pending then scan.advanced ++ [scan.idx + 1] else scan.advanced
  skipped := if st = .cancelled then scan.skipped ++ [scan.idx + 1] else scan.skipped

/-- One iteration of the scan, on a position that exists. -/
theorem advanceScan_succ {totalCreated : ℕ} {scan : Scan} {p : Position} {r : Scan × Ledger Store}
    (hidx : ¬ totalCreated ≤ scan.idx) (hid : scan.idx + 1 ≤ u32Max)
    (hp : l.store.positions.lookup (scan.idx + 1) = some p) (n : ℕ) :
    advanceScan admin totalCreated (n + 1) scan env l = .ok r ↔
      advanceScan admin totalCreated n (scan.pass p.status) env
        ⟨{ l.store with
            positions := l.store.positions.insert (scan.idx + 1) (p.serve env.timestamp) },
          l.events ++ if p.status = .cancelled then
            [event "Skipped" (scan.idx + 1) admin env.timestamp] else []⟩ = .ok r := by
  by_cases hpend : p.status = .pending
  · simp [advanceScan, getPosition, hidx, hid, hp, hpend, Position.serve, Scan.pass]
  · -- a position that is not pending stays as it is
    have hserve : l.store.positions.insert (scan.idx + 1) (p.serve env.timestamp) =
        l.store.positions := by
      rw [Position.serve, if_neg hpend, insert_lookup_self hp]
    rw [hserve]
    by_cases hcanc : p.status = .cancelled
    · simp [advanceScan, getPosition, hidx, hid, hp, hcanc, Scan.pass]
    · simp [advanceScan, getPosition, hidx, hid, hp, hpend, hcanc, Scan.pass]

/-- The closed form of the scan. The bound on `totalCreated`, a `u32`, keeps `idx + 1` in range. -/
theorem advanceScan_eq_ok {totalCreated : ℕ} (htotal : totalCreated ≤ u32Max) {n : ℕ} {scan : Scan}
    {r : Scan × Ledger Store} :
    advanceScan admin totalCreated n scan env l = .ok r ↔
      r = (let ids := scanned l.store.positions totalCreated n scan.idx
        (⟨scan.idx + scanLength l.store.positions totalCreated n scan.idx,
          scan.advanced ++ withStatus .pending l.store.positions ids,
          scan.skipped ++ withStatus .cancelled l.store.positions ids⟩,
        ⟨{ l.store with positions := serveAll env.timestamp l.store.positions ids },
          l.events ++ (withStatus .cancelled l.store.positions ids).map
            (event "Skipped" · admin env.timestamp)⟩)) := by
  induction n generalizing scan l with
  | zero => simp [advanceScan, scanned, scanLength, withStatus, serveAll, eq_comm (a := r)]
  | succ n ih =>
    by_cases hidx : totalCreated ≤ scan.idx
    · simp [advanceScan, scanned, scanLength, withStatus, serveAll, hidx, eq_comm (a := r)]
    have hid : scan.idx + 1 ≤ u32Max := by omega
    cases hp : l.store.positions.lookup (scan.idx + 1) with
    | none =>
      simp [advanceScan, getPosition, scanned, scanLength, withStatus, serveAll, hidx, hp, hid,
        eq_comm (a := r)]
    | some p =>
      have hst : statusAt l.store.positions (scan.idx + 1) = some p.status :=
        statusAt_eq_some.mpr ⟨p, hp, rfl⟩
      -- the ids still to scan lie after the position just passed
      have hrest : scan.idx + 1 ∉ scanned l.store.positions totalCreated n (scan.idx + 1) :=
        notMem_scanned (le_refl _)
      have hlen : scan.idx + 1 + scanLength l.store.positions totalCreated n (scan.idx + 1) =
          scan.idx + scanLength l.store.positions totalCreated (n + 1) scan.idx := by
        rw [scanLength_succ hidx hp]
        omega
      rw [advanceScan_succ hidx hid hp, ih]
      simp only [Scan.pass, scanned_insert (le_refl _), scanLength_insert (le_refl _),
        withStatus_insert hrest, hlen, scanned_succ hidx hp, serveAll_cons hp, withStatus_cons, hst,
        Option.some.injEq]
      cases p.status <;> simp

/-- One event for each id that was served. -/
theorem emitAdvanced_eq_ok {ids : List ℕ} {r : Unit × Ledger Store} :
    emitAdvanced admin ids env l = .ok r ↔
      r = ((), { l with events := l.events ++ ids.map (event "Advanced" · admin env.timestamp) }) := by
  induction ids generalizing l with
  | nil => simp [emitAdvanced, eq_comm]
  | cons id ids ih => simp [emitAdvanced, ih]

/-- The number of ids handed out, as `advance` computes it. -/
def Store.totalCreated (s : Store) : ℕ := s.nextId.getD 1 - 1

/-- The ids an `advance` of this batch size passes. -/
def Store.scannedBy (s : Store) (batchSize : ℕ) : List ℕ :=
  scanned s.positions s.totalCreated batchSize (s.idx.getD 0)

/-- The ids an `advance` of this batch size serves. -/
def Store.servedBy (s : Store) (batchSize : ℕ) : List ℕ :=
  withStatus .pending s.positions (s.scannedBy batchSize)

/-- The configuration `advance` leaves: activated by the first batch that serves somebody. -/
def QueueConfig.activate (c : QueueConfig) (served : List ℕ) : QueueConfig :=
  if served ≠ [] ∧ c.status = .enrollmentClosed then { c with status := .advancementActive } else c

/-- The storage `advance` leaves. -/
def Store.afterAdvance (s : Store) (c : QueueConfig) (batchSize now : ℕ) : Store :=
  { s with
    config := some (c.activate (s.servedBy batchSize))
    idx := some (s.idx.getD 0 +
      scanLength s.positions s.totalCreated batchSize (s.idx.getD 0))
    positions := serveAll now s.positions (s.scannedBy batchSize) }

/-- The loop of `advance`: what it serves, writes and announces. -/
theorem advanceFifo_eq_ok {c : QueueConfig} {batchSize : ℕ} {r : List ℕ × Ledger Store}
    (hc : l.store.config = some c) (htotal : l.store.totalCreated ≤ u32Max) :
    advanceFifo admin c batchSize env l = .ok r ↔
      r = (l.store.servedBy batchSize,
        ⟨l.store.afterAdvance c batchSize env.timestamp,
          l.events ++
            (withStatus .cancelled l.store.positions (l.store.scannedBy batchSize)).map
              (event "Skipped" · admin env.timestamp) ++
            (l.store.servedBy batchSize).map (event "Advanced" · admin env.timestamp)⟩) := by
  have hscan := @advanceScan_eq_ok env l admin _ htotal batchSize ⟨l.store.idx.getD 0, [], []⟩
  by_cases hact : l.store.servedBy batchSize ≠ [] ∧ c.status = .enrollmentClosed
  · have hconf : c.activate (l.store.servedBy batchSize) =
        { c with status := .advancementActive } := if_pos hact
    simp only [Store.servedBy, Store.scannedBy, Store.totalCreated] at hscan hact hconf ⊢
    simp [advanceFifo, hscan, hact, hconf, emitAdvanced_eq_ok, Store.afterAdvance,
      Store.servedBy, Store.scannedBy, Store.totalCreated, eq_comm (a := r)]
  · have hconf : c.activate (l.store.servedBy batchSize) = c := if_neg hact
    simp only [Store.servedBy, Store.scannedBy, Store.totalCreated] at hscan hact hconf ⊢
    simp [advanceFifo, hscan, hact, hconf, hc, emitAdvanced_eq_ok, Store.afterAdvance,
      Store.servedBy, Store.scannedBy, Store.totalCreated, eq_comm (a := r)]

/-- An advance needs the administrator, a size, a status that allows it and the first rule. -/
theorem advance_eq_ok {batchSize : ℕ} {r : List ℕ × Ledger Store}
    (htotal : l.store.totalCreated ≤ u32Max) :
    advance admin batchSize env l = .ok r ↔
      ∃ c, AdminCall l.store env admin c ∧ batchSize ≠ 0 ∧
        (c.status = .enrollmentClosed ∨ c.status = .advancementActive) ∧
        c.advancementRule = .fifo ∧
        r = (l.store.servedBy batchSize,
          ⟨l.store.afterAdvance c batchSize env.timestamp,
            l.events ++
              (withStatus .cancelled l.store.positions (l.store.scannedBy batchSize)).map
                (event "Skipped" · admin env.timestamp) ++
              (l.store.servedBy batchSize).map (event "Advanced" · admin env.timestamp)⟩) := by
  simp only [advance, bind_eq_ok, require_eq_ok, getConfigInternal_eq_ok, requireAdmin_eq_ok]
  constructor
  · rintro ⟨_, _, ⟨hb, ⟨⟩⟩, c, _, ⟨_, hc, ⟨⟩⟩, _, _, ⟨hadmin, hauth, ⟨⟩⟩, _, _, ⟨-, ⟨⟩⟩, _, _,
      ⟨hst, ⟨⟩⟩, h⟩
    cases hrule : c.advancementRule with
    | fifo =>
      rw [hrule] at h
      exact ⟨c, ⟨hc, hadmin, hauth⟩, hb, hst, hrule, (advanceFifo_eq_ok hc htotal).mp h⟩
    | priorityTier =>
      rw [hrule] at h
      exact (abort_eq_ok.mp h).elim
    | verifiableRandomness =>
      rw [hrule] at h
      exact (abort_eq_ok.mp h).elim
  · intro h
    rcases h with ⟨c, ⟨hc, hadmin, hauth⟩, hb, hst, hrule, rfl⟩
    have hopen : c.status ≠ .closed := by
      rcases hst with h | h <;> simp [h]
    refine ⟨(), l, ⟨hb, rfl⟩, c, l, ⟨c, hc, rfl⟩, (), l, ⟨hadmin, hauth, rfl⟩, (), l, ⟨hopen, rfl⟩,
      (), l, ⟨hst, rfl⟩, ?_⟩
    rw [hrule]
    exact (advanceFifo_eq_ok hc htotal).mpr rfl

/-! ## The kinds of change -/

/-- The storage `enroll_position` leaves. -/
def Store.afterEnroll (s : Store) (u : Address) (now : ℕ) : Store :=
  { s with
    positions := s.positions.insert (s.nextId.getD 1) (newPosition (s.nextId.getD 1) now u)
    nextId := some (s.nextId.getD 1 + 1)
    activeCount := some (s.activeCount.getD 0 + 1) }

/-- The storage `cancel_position` leaves, where `p` is the position under `id`. -/
def Store.afterCancel (s : Store) (id : ℕ) (p : Position) : Store :=
  { s with
    positions := s.positions.insert id { p with status := .cancelled }
    activeCount := some (s.activeCount.getD 0 - 1) }

/-- The storage an expiry of `ids` leaves. -/
def Store.afterExpire (s : Store) (ids : List ℕ) : Store :=
  { s with positions := expireAll s.positions ids }

/-- The entrypoints that move the status, and the edge each of them takes. -/
inductive LifecycleCall : Entrypoint → Address → QueueStatus → QueueStatus → Prop
  | openEnrollment (admin : Address) :
    LifecycleCall (.openEnrollment admin) admin .draft .enrollmentOpen
  | closeEnrollment (admin : Address) :
    LifecycleCall (.closeEnrollment admin) admin .enrollmentOpen .enrollmentClosed
  | close (admin : Address) {status : QueueStatus} (h : status ≠ .closed) :
    LifecycleCall (.close admin) admin status .closed

/-- The caller and the ids of an expiry, single or in a batch. -/
def Entrypoint.expiry : Entrypoint → Option (Address × List ℕ)
  | .expirePosition admin id => some (admin, [id])
  | .expirePositionsBatch admin ids => some (admin, ids)
  | _ => none

/-- The event of the entrypoints that move the status. -/
def LifecycleCall.kind : Entrypoint → String
  | .openEnrollment _ => "EnrollmentOpened"
  | .closeEnrollment _ => "EnrollmentClosed"
  | _ => "QueueClosed"

/-- The entrypoints that only read. -/
def Entrypoint.IsReader : Entrypoint → Prop
  | .getPosition _ | .getConfig | .currentPositionIndex | .totalEnrolled | .activeEnrolled => True
  | _ => False

/-- What a successful call of an entrypoint returns, leaves in storage and publishes. -/
inductive Effect (env : Env) (s : Store) : Entrypoint → Output → Store → List Event → Prop
  | read {e : Entrypoint} {o : Output} (reader : e.IsReader) : Effect env s e o s []
  | upgrade {admin : Address} {c : QueueConfig} {hash : Bytes32} (call : AdminCall s env admin c) :
    Effect env s (.upgrade admin hash) .unit s [event "Upgraded" 0 admin env.timestamp]
  | propose {cur p : Address} {c : QueueConfig} (call : AdminCall s env cur c) :
    Effect env s (.proposeAdmin cur p) .unit { s with pendingAdmin := some p } []
  | accept {p : Address} {c : QueueConfig} (config : s.config = some c)
      (pending : s.pendingAdmin = some p) (auth : p ∈ env.authorizers) :
    Effect env s (.acceptAdmin p) .unit
      { s with config := some { c with admin := p }, pendingAdmin := none }
      [⟨[.string "lineproof.queue", .symbol ⟨"OwnershipTransferred"⟩, .address c.admin, .address p],
        .void⟩]
  | lifecycle {e : Entrypoint} {admin : Address} {c : QueueConfig} {status : QueueStatus}
      (edge : LifecycleCall e admin c.status status) (call : AdminCall s env admin c) :
    Effect env s e .unit { s with config := some { c with status := status } }
      [event (LifecycleCall.kind e) 0 admin env.timestamp]
  | migrate {admin : Address} {fromVersion toVersion : ℕ} {c : QueueConfig}
      (call : AdminCall s env admin c) (stored : s.version.getD currentVersion = fromVersion)
      (lt : fromVersion < toVersion) :
    Effect env s (.migrate admin fromVersion toVersion) .unit { s with version := some toVersion }
      [event "Migrated" fromVersion admin toVersion]
  | enroll {u : Address} {c : QueueConfig} (config : s.config = some c)
      (auth : u ∈ env.authorizers) (status : c.status = .enrollmentOpen)
      (room : s.activeCount.getD 0 < c.maxPositions) (id : s.nextId.getD 1 + 1 ≤ u32Max)
      (active : s.activeCount.getD 0 + 1 ≤ u32Max) :
    Effect env s (.enrollPosition u) (.number (s.nextId.getD 1)) (s.afterEnroll u env.timestamp)
      [event "Enrolled" (s.nextId.getD 1) u env.timestamp]
  | cancel {id : ℕ} {p : Position} (position : s.positions.lookup id = some p)
      (auth : p.identity ∈ env.authorizers) (pending : p.status = .pending) :
    Effect env s (.cancelPosition p.identity id) .unit (s.afterCancel id p)
      [event "Cancelled" id p.identity env.timestamp]
  | advance {admin : Address} {batchSize : ℕ} {c : QueueConfig} (call : AdminCall s env admin c)
      (batch : batchSize ≠ 0) (status : c.status = .enrollmentClosed ∨ c.status = .advancementActive)
      (rule : c.advancementRule = .fifo) :
    Effect env s (.advance admin batchSize) (.ids (s.servedBy batchSize))
      (s.afterAdvance c batchSize env.timestamp)
      ((withStatus .cancelled s.positions (s.scannedBy batchSize)).map
          (event "Skipped" · admin env.timestamp) ++
        (s.servedBy batchSize).map (event "Advanced" · admin env.timestamp))
  | expire {e : Entrypoint} {admin : Address} {ids : List ℕ} {c : QueueConfig}
      (expiry : e.expiry = some (admin, ids)) (call : AdminCall s env admin c)
      (status : c.status = .advancementActive ∨ c.status = .closed) (nodup : ids.Nodup)
      (pending : ∀ i ∈ ids, statusAt s.positions i = some .pending) :
    Effect env s e .unit (s.afterExpire ids)
      (ids.map (event "Expired" · admin env.timestamp))

/-- Every successful call has one of the effects above. -/
theorem effect_of_exec {e : Entrypoint} {o : Output} {l' : Ledger Store}
    (htotal : l.store.totalCreated ≤ u32Max) (h : exec e env l = .ok (o, l')) :
    ∃ published, l'.events = l.events ++ published ∧
      Effect env l.store e o l'.store published := by
  cases e with
  | proposeAdmin cur p =>
    simp only [exec, bind_eq_ok, proposeAdmin_eq_ok, pure_eq_ok] at h
    obtain ⟨_, _, ⟨⟨c, hc⟩, ⟨⟩⟩, ⟨⟩⟩ := h
    exact ⟨[], (List.append_nil _).symm, .propose hc⟩
  | acceptAdmin p =>
    simp only [exec, bind_eq_ok, acceptAdmin_eq_ok, pure_eq_ok] at h
    obtain ⟨_, _, ⟨c, hc, hp, hauth, ⟨⟩⟩, ⟨⟩⟩ := h
    exact ⟨_, rfl, .accept hc hp hauth⟩
  | openEnrollment admin =>
    simp only [exec, bind_eq_ok, openEnrollment_eq_ok, pure_eq_ok] at h
    obtain ⟨_, _, ⟨c, hc, hst, ⟨⟩⟩, ⟨⟩⟩ := h
    exact ⟨_, rfl, .lifecycle (hst ▸ .openEnrollment admin) hc⟩
  | closeEnrollment admin =>
    simp only [exec, bind_eq_ok, closeEnrollment_eq_ok, pure_eq_ok] at h
    obtain ⟨_, _, ⟨c, hc, hst, ⟨⟩⟩, ⟨⟩⟩ := h
    exact ⟨_, rfl, .lifecycle (hst ▸ .closeEnrollment admin) hc⟩
  | close admin =>
    simp only [exec, bind_eq_ok, close_eq_ok, pure_eq_ok] at h
    obtain ⟨_, _, ⟨c, hc, hst, ⟨⟩⟩, ⟨⟩⟩ := h
    exact ⟨_, rfl, .lifecycle (.close admin hst) hc⟩
  | enrollPosition u =>
    simp only [exec, bind_eq_ok, enrollPosition_eq_ok, pure_eq_ok] at h
    obtain ⟨_, _, ⟨c, hc, hauth, hst, hroom, hid, hact, ⟨⟩⟩, ⟨⟩⟩ := h
    exact ⟨_, rfl, .enroll hc hauth hst hroom hid hact⟩
  | cancelPosition u id =>
    simp only [exec, bind_eq_ok, cancelPosition_eq_ok, pure_eq_ok] at h
    obtain ⟨_, _, ⟨p, hp, hauth, rfl, hst, ⟨⟩⟩, ⟨⟩⟩ := h
    exact ⟨_, rfl, .cancel hp hauth hst⟩
  | advance admin batchSize =>
    simp only [exec, bind_eq_ok, advance_eq_ok htotal, pure_eq_ok] at h
    obtain ⟨_, _, ⟨c, hc, hb, hst, hrule, ⟨⟩⟩, ⟨⟩⟩ := h
    exact ⟨_, List.append_assoc _ _ _, .advance hc hb hst hrule⟩
  | expirePosition admin id =>
    simp only [exec, bind_eq_ok, expirePosition_eq_ok, expirePositionsBatch_eq_ok, pure_eq_ok] at h
    obtain ⟨_, _, ⟨c, hc, hst, hnd, hpend, ⟨⟩⟩, ⟨⟩⟩ := h
    exact ⟨_, rfl, .expire rfl hc hst hnd hpend⟩
  | expirePositionsBatch admin ids =>
    simp only [exec, bind_eq_ok, expirePositionsBatch_eq_ok, pure_eq_ok] at h
    obtain ⟨_, _, ⟨c, hc, hst, hnd, hpend, ⟨⟩⟩, ⟨⟩⟩ := h
    exact ⟨_, rfl, .expire rfl hc hst hnd hpend⟩
  | upgrade admin hash =>
    simp only [exec, bind_eq_ok, upgrade_eq_ok, pure_eq_ok] at h
    obtain ⟨_, _, ⟨⟨c, hc⟩, ⟨⟩⟩, ⟨⟩⟩ := h
    exact ⟨_, rfl, .upgrade hc⟩
  | migrate admin fromVersion toVersion =>
    simp only [exec, bind_eq_ok, migrate_eq_ok, pure_eq_ok] at h
    obtain ⟨_, _, ⟨⟨c, hc⟩, hstored, hlt, ⟨⟩⟩, ⟨⟩⟩ := h
    exact ⟨_, rfl, .migrate hc hstored hlt⟩
  | getPosition id =>
    simp only [exec, getPosition, bind_eq_ok, pure_eq_ok] at h
    obtain ⟨_, _, hget, ⟨⟩⟩ := h
    have hread : l' = l := by
      split at hget
      · exact (Prod.mk.inj (pure_eq_ok.mp hget)).2.symm
      · exact (Prod.mk.inj (load_eq_ok.mp hget)).2.symm
    rw [hread]
    exact ⟨[], (List.append_nil _).symm, .read trivial⟩
  | getConfig =>
    simp only [exec, bind_eq_ok, getConfigInternal_eq_ok, pure_eq_ok] at h
    obtain ⟨_, _, ⟨_, -, ⟨⟩⟩, ⟨⟩⟩ := h
    exact ⟨[], (List.append_nil _).symm, .read trivial⟩
  | currentPositionIndex =>
    simp only [exec, bind_eq_ok, load_eq_ok, pure_eq_ok] at h
    obtain ⟨_, _, ⟨⟩, ⟨⟩⟩ := h
    exact ⟨[], (List.append_nil _).symm, .read trivial⟩
  | totalEnrolled =>
    simp only [exec, bind_eq_ok, load_eq_ok, pure_eq_ok] at h
    obtain ⟨_, _, ⟨⟩, ⟨⟩⟩ := h
    exact ⟨[], (List.append_nil _).symm, .read trivial⟩
  | activeEnrolled =>
    simp only [exec, bind_eq_ok, load_eq_ok, pure_eq_ok] at h
    obtain ⟨_, _, ⟨⟩, ⟨⟩⟩ := h
    exact ⟨[], (List.append_nil _).symm, .read trivial⟩

/-! ## What a call does to one position -/

/-- The change a successful call makes to position `id`, with the authority behind it. -/
inductive PositionChange (env : Env) (s : Store) (e : Entrypoint) (id : ℕ) :
    Option Position → Option Position → Prop
  | keep (old : Option Position) : PositionChange env s e id old old
  | enrolled {u : Address} {old : Option Position} (entry : e = .enrollPosition u)
      (next : id = s.nextId.getD 1) (auth : u ∈ env.authorizers) :
    PositionChange env s e id old (some (newPosition id env.timestamp u))
  | cancelled {p : Position} (pending : p.status = .pending)
      (entry : e = .cancelPosition p.identity id) (auth : p.identity ∈ env.authorizers) :
    PositionChange env s e id (some p) (some { p with status := .cancelled })
  | advanced {p : Position} {admin : Address} {batchSize : ℕ} {c : QueueConfig}
      (pending : p.status = .pending) (entry : e = .advance admin batchSize)
      (call : AdminCall s env admin c) (mem : id ∈ s.servedBy batchSize) :
    PositionChange env s e id (some p)
      (some { p with status := .advanced, advancedAt := some env.timestamp })
  | expired {p : Position} {admin : Address} {ids : List ℕ} {c : QueueConfig}
      (pending : p.status = .pending) (expiry : e.expiry = some (admin, ids))
      (call : AdminCall s env admin c) (mem : id ∈ ids) :
    PositionChange env s e id (some p) (some { p with status := .expired })

variable {s s' : Store} {e : Entrypoint} {o : Output} {published : List Event}

/-- The three ways a pending position ends. -/
inductive Settles (now : ℕ) (p : Position) : Position → Prop
  | cancelled : Settles now p { p with status := .cancelled }
  | advanced : Settles now p { p with status := .advanced, advancedAt := some now }
  | expired : Settles now p { p with status := .expired }

/-- What holds of a new position and survives settling holds of every position after the call. -/
theorem PositionChange.invariant {id : ℕ} {old new : Option Position}
    (change : PositionChange env s e id old new) {P : Position → Prop}
    (enroll : ∀ u, P (newPosition id env.timestamp u))
    (settle : ∀ p q, p.status = .pending → P p → Settles env.timestamp p q → P q)
    (h : ∀ p, old = some p → P p) : ∀ p, new = some p → P p := by
  cases change with
  | keep => exact h
  | @enrolled u => rintro _ ⟨⟩; exact enroll u
  | @cancelled p pending => rintro _ ⟨⟩; exact settle p _ pending (h p rfl) .cancelled
  | @advanced p _ _ _ pending => rintro _ ⟨⟩; exact settle p _ pending (h p rfl) .advanced
  | @expired p _ _ _ pending => rintro _ ⟨⟩; exact settle p _ pending (h p rfl) .expired

/-- What a call does to the position under one id. -/
theorem Effect.positionChange (eff : Effect env s e o s' published) (id : ℕ) :
    PositionChange env s e id (s.positions.lookup id) (s'.positions.lookup id) := by
  cases eff with
  | read | upgrade | propose | accept | lifecycle | migrate => exact .keep _
  | @enroll u _ _ auth =>
    by_cases hid : id = s.nextId.getD 1
    · rw [Store.afterEnroll, ← hid, Finmap.lookup_insert]
      exact .enrolled rfl hid auth
    · rw [Store.afterEnroll, Finmap.lookup_insert_of_ne _ hid]
      exact .keep _
  | @cancel i p position auth pending =>
    by_cases hid : id = i
    · subst hid
      rw [Store.afterCancel, Finmap.lookup_insert, position]
      exact .cancelled pending rfl auth
    · rw [Store.afterCancel, Finmap.lookup_insert_of_ne _ hid]
      exact .keep _
  | @advance admin batchSize c call =>
    rw [Store.afterAdvance, lookup_serveAll]
    cases hp : s.positions.lookup id with
    | none => simpa using .keep _
    | some p =>
      rw [Option.map_some]
      by_cases hid : id ∈ s.scannedBy batchSize ∧ p.status = .pending
      · rw [if_pos hid.1, Position.serve, if_pos hid.2]
        refine .advanced hid.2 rfl call (List.mem_filter.mpr ⟨hid.1, ?_⟩)
        exact decide_eq_true (statusAt_eq_some.mpr ⟨p, hp, hid.2⟩)
      · have hsame : (if id ∈ s.scannedBy batchSize then some (p.serve env.timestamp) else some p) =
            some p := by
          unfold Position.serve
          split <;> simp_all
        rw [hsame]
        exact .keep _
  | @expire _ _ ids _ expiry call _ _ pending =>
    rw [Store.afterExpire, lookup_expireAll]
    by_cases hid : id ∈ ids
    · obtain ⟨p, hp, hst⟩ := statusAt_eq_some.mp (pending id hid)
      rw [if_pos hid, hp]
      exact .expired hst expiry call hid
    · rw [if_neg hid]
      exact .keep _

end LineProof.Queue
