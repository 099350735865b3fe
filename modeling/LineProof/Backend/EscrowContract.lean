import Mathlib.Tactic.NormNum
import LineProof.Backend.Atomicity
import LineProof.Backend.EscrowRoutes
import LineProof.Escrow.Authority
import LineProof.Escrow.Terminality

/-!
# The escrow service and the escrow contract

The service keeps a record for each deposit under `${queueId}:${identity}`, with texts for its dates. When
every call that the contract accepts is repeated on the service at the same time, the service accepts it
too, and its records are those of the contract: `get_total_held` is the sum of its Active amounts, and it
releases, refunds and expires exactly what the contract would (`escrows_agree`). A webhook that makes a call
throw does not matter, since the record is written before.

The contract counts in seconds, the service in milliseconds.
-/

namespace LineProof.Backend

open Soroban Sdk

/-- `${queueId}:${identity}`. -/
def escrowKey (q : Symbol) (u : Address) : String := q.str ++ ":" ++ u.strkey

/-- The host at the time of the ledger. -/
def Host.atTime (H : Host) (seconds : ℕ) : Host := { H with now := 1000 * seconds }

/-- The status of the contract under the name of the service. -/
def EscrowStatus.ofChain : Escrow.EscrowStatus → EscrowStatus
  | .active => .active
  | .released => .released
  | .refunded => .refunded
  | .expired => .expired

/-- The record of the service that goes with a record of the contract. -/
def serviceRecord (H : Host) (record : Escrow.EscrowRecord) : EscrowRecord where
  id := escrowKey record.queueId record.identity
  queueId := record.queueId.str
  identity := record.identity.strkey
  amount := record.amount
  asset := record.asset.strkey
  status := .ofChain record.status
  createdAt := H.isoString (1000 * record.createdAt)
  expiresAt := H.isoString (1000 * record.expiresAt)
  releasedAt := record.releasedAt.map fun t : ℕ => H.isoString (1000 * t)

/-- The call of the service that goes with an accepted call of the contract. A deposit has the hold period
of its queue. -/
def mirror (c : Escrow.escrow.Commit) : Option EscrowCall :=
  match c.call.entry with
  | .deposit caller queueId amount asset =>
    let holdDays := (c.pre.store.configs.lookup queueId).map fun config =>
      JsNumber.ofNat config.holdPeriodDays
    some (.depositEscrow ⟨queueId.str, caller.strkey, amount, asset.strkey, holdDays⟩)
  | .release _ identity queueId => some (.releaseEscrow (escrowKey queueId identity))
  | .refund _ identity queueId => some (.refundEscrow (escrowKey queueId identity))
  | .expire identity queueId => some (.expireEscrow (escrowKey queueId identity))
  | _ => none

section

variable (H : Host) (webhooks : Escrow.escrow.Commit → List WebhookConfig)

/-- The store after the call that goes with `c`. -/
def mirrorStep (store : EscrowStore) (c : Escrow.escrow.Commit) : EscrowStore :=
  match mirror c with
  | some call => (call.exec (H.atTime c.call.env.timestamp) (webhooks c) store).store
  | none => store

/-- The store of the service after the accepted calls. -/
def mirrored (calls : List (Invocation Escrow.Entrypoint)) : EscrowStore :=
  (Escrow.escrow.history Escrow.fresh calls).foldl (mirrorStep H webhooks) ∅

end

/-- The amount of an Active record of the queue. -/
def heldAmount (queueId : String) (_ : String) (record : EscrowRecord) : ℤ :=
  if record.queueId = queueId ∧ record.status = .active then record.amount else 0

/-- The sum of the Active amounts of a queue. -/
def heldBy (queueId : String) (store : EscrowStore) : ℤ := store.weight (heldAmount queueId)

/-- The queues of the records have no colon in their names, and the expiry dates fit a `Date`. -/
def Representable (s : Escrow.Store) : Prop :=
  ∀ q u record, s.records.lookup (q, u) = some record →
    ':' ∉ q.str.toList ∧ 1000 * record.expiresAt ≤ 8640000000000000

/-- What the service and the contract share. -/
structure EscrowsAgree (H : Host) (store : EscrowStore) (l : Ledger Escrow.Store) : Prop where
  record : ∀ q u, ':' ∉ q.str.toList →
    store.get (escrowKey q u) = (l.store.records.lookup (q, u)).map (serviceRecord H)
  nothingElse : ∀ id record, store.get id = some record → ∃ q u record',
    l.store.records.lookup (q, u) = some record' ∧ id = escrowKey q u ∧ record = serviceRecord H record'
  held : ∀ q, l.store.totalHeld q = heldBy q.str store
  /-- The service asks for no authorization. -/
  release : ∀ (env : Env) admin u q, ':' ∉ q.str.toList →
    (Succeeds (Escrow.exec (.release admin u q)) env l ↔
      admin ∈ env.authorizers ∧
        (EscrowCall.releaseEscrow (escrowKey q u)).Passes (H.atTime env.timestamp) store)
  refund : ∀ (env : Env) admin u q, ':' ∉ q.str.toList →
    (Succeeds (Escrow.exec (.refund admin u q)) env l ↔
      admin ∈ env.authorizers ∧
        (EscrowCall.refundEscrow (escrowKey q u)).Passes (H.atTime env.timestamp) store)
  expire : ∀ (env : Env) u q, ':' ∉ q.str.toList →
    (Succeeds (Escrow.exec (.expire u q)) env l ↔
      (EscrowCall.expireEscrow (escrowKey q u)).Passes (H.atTime env.timestamp) store)

variable {H : Host} {store : EscrowStore} {s s' : Escrow.Store} {q q' : Symbol} {u u' : Address}
  {env : Env} {record : Escrow.EscrowRecord}

/-! ## Keys and dates -/

/-- The first colon of a key ends the queue. -/
theorem escrowKey_inj (h : ':' ∉ q.str.toList) (h' : ':' ∉ q'.str.toList)
    (heq : escrowKey q u = escrowKey q' u') : q = q' ∧ u = u' := by
  have hlist := congrArg String.toList heq
  have hcolon : (":" : String).toList = [':'] := rfl
  rw [escrowKey, escrowKey, String.toList_append, String.toList_append, String.toList_append,
    String.toList_append, hcolon, List.append_assoc, List.append_assoc, List.singleton_append,
    List.singleton_append] at hlist
  have hqueue := congrArg (List.takeWhile (· ≠ ':')) hlist
  rw [List.takeWhile_append_of_pos, List.takeWhile_append_of_pos] at hqueue
  · simp only [ne_eq, not_true_eq_false, decide_false, Bool.false_eq_true, not_false_eq_true,
      List.takeWhile_cons_of_neg, List.append_nil] at hqueue
    rw [hqueue] at hlist
    obtain ⟨-, hidentity⟩ := List.cons_eq_cons.mp (List.append_cancel_left hlist)
    exact ⟨Symbol.str_inj (String.toList_inj.mp hqueue), Address.strkey_inj (String.toList_inj.mp hidentity)⟩
  · intro c hc
    have hne : c ≠ ':' := fun hcolon => h' (hcolon ▸ hc)
    simpa using hne
  · intro c hc
    have hne : c ≠ ':' := fun hcolon => h (hcolon ▸ hc)
    simpa using hne

/-- A whole number of milliseconds in the range of a `Date` is its time. -/
theorem timeClip_ofInt {t : ℤ} (h : 0 ≤ t) (h' : t ≤ 8640000000000000) : timeClip (.finite t) = some t := by
  have hmin : -maxTime ≤ (t : ℚ) := by
    have ht : (0 : ℚ) ≤ t := by exact_mod_cast h
    rw [maxTime]
    linarith
  have hmax : (t : ℚ) ≤ maxTime := by
    rw [maxTime]
    exact_mod_cast h'
  rw [timeClip, if_pos ⟨hmin, hmax⟩, Rat.num_intCast, Rat.den_intCast, Nat.cast_one, Int.tdiv_one]

/-- The expiry of a deposit on both sides. -/
theorem timeClip_expiryTime {now days : ℕ} (h : 1000 * (now + days * 86400) ≤ 8640000000000000) :
    timeClip (expiryTime (H.atTime now) (some (.ofNat days))) = some (1000 * (now + days * 86400 : ℕ)) := by
  have htime : expiryTime (H.atTime now) (some (.ofNat days)) =
      .finite ((1000 * (now + days * 86400 : ℕ) : ℤ) : ℚ) := by
    show JsNumber.finite _ = _
    congr 1
    show ((1000 * (now : ℤ) : ℤ) : ℚ) + (days : ℚ) * 86400000 = _
    push_cast
    ring
  rw [htime]
  apply timeClip_ofInt
  · omega
  · exact_mod_cast h

/-! ## The invariant -/

/-- The records of the service are those of the contract, and so are the sums of the Active amounts. -/
structure Mirrors (H : Host) (store : EscrowStore) (s : Escrow.Store) : Prop where
  record : ∀ q u, ':' ∉ q.str.toList →
    store.get (escrowKey q u) = (s.records.lookup (q, u)).map (serviceRecord H)
  nothingElse : ∀ id record, store.get id = some record → ∃ q u record',
    s.records.lookup (q, u) = some record' ∧ id = escrowKey q u ∧ record = serviceRecord H record'
  held : ∀ q, s.totalHeld q = heldBy q.str store
  own : ∀ q u record, s.records.lookup (q, u) = some record → record.queueId = q

/-- A record that is written on both sides. -/
theorem Mirrors.set (h : Mirrors H store s) (hq : ':' ∉ q.str.toList) {new : Escrow.EscrowRecord}
    (hown : new.queueId = q) (hrecords : s'.records = s.records.insert (q, u) new)
    (hheld : ∀ p, s'.totalHeld p =
      heldBy p.str (store.set (escrowKey q u) (serviceRecord H new))) :
    Mirrors H (store.set (escrowKey q u) (serviceRecord H new)) s' where
  record p v hp := by
    rw [hrecords]
    by_cases hk : (p, v) = (q, u)
    · obtain ⟨rfl, rfl⟩ := Prod.mk.inj hk
      rw [InsertionMap.get_set_self, Finmap.lookup_insert, Option.map_some]
    · have hne : escrowKey p v ≠ escrowKey q u := by
        intro heq
        obtain ⟨rfl, rfl⟩ := escrowKey_inj hp hq heq
        exact hk rfl
      rw [InsertionMap.get_set_of_ne hne, Finmap.lookup_insert_of_ne _ hk, h.record p v hp]
  nothingElse id record hget := by
    rw [hrecords]
    by_cases hid : id = escrowKey q u
    · subst hid
      rw [InsertionMap.get_set_self] at hget
      exact ⟨q, u, new, Finmap.lookup_insert _, rfl, (Option.some.inj hget).symm⟩
    · rw [InsertionMap.get_set_of_ne hid] at hget
      obtain ⟨p, v, record', hstored, rfl, hrecord⟩ := h.nothingElse id record hget
      have hk : (p, v) ≠ (q, u) := fun heq => hid (by rw [(Prod.mk.inj heq).1, (Prod.mk.inj heq).2])
      exact ⟨p, v, record', (Finmap.lookup_insert_of_ne _ hk).trans hstored, rfl, hrecord⟩
  held := hheld
  own p v record hstored := by
    rw [hrecords] at hstored
    by_cases hk : (p, v) = (q, u)
    · rw [hk, Finmap.lookup_insert] at hstored
      rw [← Option.some.inj hstored, hown, (Prod.mk.inj hk).1]
    · rw [Finmap.lookup_insert_of_ne _ hk] at hstored
      exact h.own p v record hstored

/-- The running total of the service after a write. -/
theorem heldBy_set (store : EscrowStore) (id : String) (record : EscrowRecord) (p : String) :
    heldBy p (store.set id record) + (store.get id).elim 0 (heldAmount p id) =
      heldBy p store + heldAmount p id record :=
  InsertionMap.weight_set (heldAmount p) store id record

/-- The service's status is active exactly when the contract's is. -/
theorem ofChain_eq_active {status : Escrow.EscrowStatus} :
    EscrowStatus.ofChain status = .active ↔ status = .active := by
  cases status <;> decide

/-- A mirrored record holds what the contract's record holds. -/
theorem heldAmount_serviceRecord (p : Symbol) (id : String) (record : Escrow.EscrowRecord) :
    heldAmount p.str id (serviceRecord H record) =
      if record.queueId = p ∧ record.status = .active then record.amount else 0 := by
  have hqueue : record.queueId.str = p.str ↔ record.queueId = p := ⟨Symbol.str_inj, congrArg Symbol.str⟩
  simp only [heldAmount, serviceRecord, hqueue, ofChain_eq_active]

/-! ## One call -/

/-- A deposit that the contract accepts is new to the service, which writes the same record. -/
theorem Mirrors.deposit (h : Mirrors H store s) {amount : ℤ} {asset : Address} {c : Escrow.EscrowConfig}
    (webhooks : List WebhookConfig) (checks : Escrow.DepositChecks env s q u amount c)
    (hrep : Representable
      (s.afterDeposit (Escrow.newRecord q u amount asset env.timestamp c.holdPeriodDays))) :
    Mirrors H
      (depositEscrow (H.atTime env.timestamp) webhooks ⟨q.str, u.strkey, amount, asset.strkey,
        (s.configs.lookup q).map fun config => .ofNat config.holdPeriodDays⟩ store).store
      (s.afterDeposit (Escrow.newRecord q u amount asset env.timestamp c.holdPeriodDays)) := by
  let new := Escrow.newRecord q u amount asset env.timestamp c.holdPeriodDays
  obtain ⟨hq, hexpires⟩ := hrep q u new (Finmap.lookup_insert _)
  have hfree : store.get (escrowKey q u) = none := by
    rw [h.record q u hq, checks.free, Option.map_none]
  have hdeposit : (depositEscrow (H.atTime env.timestamp) webhooks ⟨q.str, u.strkey, amount, asset.strkey,
      (s.configs.lookup q).map fun config => .ofNat config.holdPeriodDays⟩ store).store =
        store.set (escrowKey q u) (serviceRecord H new) := by
    have hclip := timeClip_expiryTime (H := H) hexpires
    rw [depositEscrow, if_neg (by rw [show DepositPayload.id _ = escrowKey q u from rfl, hfree]; simp)]
    rw [checks.config, Option.map_some, hclip]
    rfl
  rw [hdeposit]
  refine h.set hq rfl rfl fun p => ?_
  have hsum := heldBy_set store (escrowKey q u) (serviceRecord H new) p.str
  rw [hfree, Option.elim_none, add_zero] at hsum
  rw [hsum, Escrow.totalHeld_afterDeposit, h.held]
  rw [heldAmount_serviceRecord]
  by_cases hp : q = p <;> simp [hp, new, Escrow.newRecord]

/-- The end of a deposit, found Active on both sides. -/
theorem Mirrors.ends (h : Mirrors H store s) (webhooks : List WebhookConfig)
    (outcome : Escrow.EscrowStatus) (event : String) (guard : EscrowRecord → Except ServiceError Unit)
    (hq : ':' ∉ q.str.toList) (stored : s.records.lookup (q, u) = some record)
    (active : record.status = .active) (ended : outcome ≠ .active)
    (hguard : guard (serviceRecord H record) = .ok ()) :
    Mirrors H
      (transition (H.atTime env.timestamp) webhooks (escrowKey q u) (.ofChain outcome) event guard
        store).store
      (s.afterSettle q u record outcome env.timestamp) := by
  have hget : store.get (escrowKey q u) = some (serviceRecord H record) := by
    rw [h.record q u hq, stored, Option.map_some]
  have hactive : (serviceRecord H record).status = .active := ofChain_eq_active.mpr active
  have htransition : (transition (H.atTime env.timestamp) webhooks (escrowKey q u) (.ofChain outcome) event
      guard store).store =
        store.set (escrowKey q u) (serviceRecord H (record.settle outcome env.timestamp)) := by
    simp only [transition, hget, hactive, ne_eq, not_true_eq_false, if_false, hguard]
    rfl
  have hown : record.queueId = q := h.own q u record stored
  rw [htransition]
  refine h.set hq hown rfl fun p => ?_
  have hsum := heldBy_set store (escrowKey q u) (serviceRecord H (record.settle outcome env.timestamp)) p.str
  rw [hget, Option.elim_some, heldAmount_serviceRecord, heldAmount_serviceRecord] at hsum
  rw [Escrow.totalHeld_afterSettle, h.held]
  simp only [Escrow.EscrowRecord.settle, hown, active, ended, and_true, and_false, if_false] at hsum ⊢
  omega

/-- The dates of the host can be read back. -/
def ReadsDates (H : Host) : Prop :=
  ∀ t : ℤ, 0 ≤ t → t ≤ 8640000000000000 → H.parseDate (H.isoString t) = some t

/-- The two sides compare the clock with the same date. -/
theorem notYetExpired_iff (hdates : ReadsDates H) (hexpires : 1000 * record.expiresAt ≤ 8640000000000000)
    (now : ℕ) :
    (serviceRecord H record).notYetExpired (H.atTime now) = true ↔ now < record.expiresAt := by
  have hparse : (H.atTime now).parseDate (serviceRecord H record).expiresAt =
      some (1000 * (record.expiresAt : ℤ)) := hdates _ (by omega) (by omega)
  simp only [EscrowRecord.notYetExpired, hparse, decide_eq_true_iff]
  show (1000 * now : ℤ) < 1000 * (record.expiresAt : ℤ) ↔ _
  omega

/-- Records are not taken away and keep their dates. -/
theorem Representable.before {o : Escrow.Output} {e : Escrow.Entrypoint} {published : List Event}
    (eff : Escrow.Effect env s e o s' published) (h : Representable s') : Representable s := by
  intro q u record hstored
  obtain ⟨record', hstored', hkept⟩ := eff.kept hstored
  obtain ⟨hq, hexpires⟩ := h q u record' hstored'
  exact ⟨hq, hkept.expiresAt ▸ hexpires⟩

/-- What the contract accepts is accepted by the service, and both write the same record. -/
theorem Mirrors.step (hdates : ReadsDates H) (webhooks : Escrow.escrow.Commit → List WebhookConfig)
    (c : Escrow.escrow.Commit) (hrep : Representable c.post.store) (h : Mirrors H store c.pre.store) :
    Mirrors H (mirrorStep H webhooks store c) c.post.store := by
  obtain ⟨pre, ⟨env, e⟩, o, post, ok⟩ := c
  obtain ⟨_, -, eff⟩ := Escrow.effect_of_exec ok
  have hbefore := hrep.before eff
  unfold mirrorStep mirror
  generalize webhooks _ = webhooks
  dsimp only at h hrep hbefore eff ⊢
  generalize pre.store = s at h hbefore eff ⊢
  generalize post.store = s' at hrep eff ⊢
  cases eff with
  | read reader => cases e <;> first | exact h | exact reader.elim
  | setConfig => exact ⟨h.record, h.nothingElse, h.held, h.own⟩
  | deposit checks => exact h.deposit webhooks checks hrep
  | settle settlement stored active =>
    obtain ⟨hq, hexpires⟩ := hbefore _ _ _ stored
    have hended := settlement.not_active
    cases settlement with
    | release =>
      exact h.ends webhooks .released "escrow.released" (fun _ => .ok ()) hq stored active hended rfl
    | refund =>
      exact h.ends webhooks .refunded "escrow.refunded" (fun _ => .ok ()) hq stored active hended rfl
    | expire due =>
      refine h.ends webhooks .expired "escrow.expired" _ hq stored active hended (if_neg ?_)
      rw [notYetExpired_iff hdates hexpires, not_lt]
      exact due

/-! ## Every run -/

/-- The service mirrors the contract after every run whose amounts and dates it can represent. -/
theorem mirrors_run (hdates : ReadsDates H) (webhooks : Escrow.escrow.Commit → List WebhookConfig)
    (calls : List (Invocation Escrow.Entrypoint))
    (hrep : Representable (Escrow.escrow.run Escrow.fresh calls).store) :
    Mirrors H (mirrored H webhooks calls) (Escrow.escrow.run Escrow.fresh calls).store := by
  refine Transactional.history_invariant (M := Escrow.escrow) (P := fun past l => Representable l.store →
    Mirrors H (past.foldl (mirrorStep H webhooks) ∅) l.store) ?_ ?_ calls hrep
  · intro past c ih hrep
    obtain ⟨_, -, eff⟩ := Escrow.effect_of_exec c.ok
    rw [List.foldl_concat]
    exact (ih (hrep.before eff)).step hdates webhooks c hrep
  · intro _
    exact ⟨fun _ _ _ => rfl, nofun, fun _ => rfl, nofun⟩

variable {l : Ledger Escrow.Store} {e : Escrow.Entrypoint} {admin : Address}

/-- A disposal goes through exactly if its `admin` signs and there is something to dispose of. -/
theorem disposal_succeeds_iff (hbal : Escrow.Balanced l.store) (h : e.disposal = some (admin, q)) :
    Succeeds (Escrow.exec e) env l ↔ admin ∈ env.authorizers ∧ Escrow.Disposable l.store e := by
  constructor
  · rintro ⟨⟨o, l'⟩, hexec⟩
    obtain ⟨_, -, eff⟩ := Escrow.effect_of_exec hexec
    exact (eff.disposable h).symm
  · rintro ⟨auth, disposable⟩
    exact hbal.disposal_succeeds h auth disposable

/-- What holds of an active record of one side holds of the other's. -/
theorem Mirrors.exists_active (h : Mirrors H store s) (hq : ':' ∉ q.str.toList)
    {p : EscrowRecord → Prop} :
    (∃ record, store.get (escrowKey q u) = some record ∧ record.status = .active ∧ p record) ↔
      ∃ record, s.records.lookup (q, u) = some record ∧ record.status = .active ∧
        p (serviceRecord H record) := by
  rw [h.record q u hq]
  constructor
  · rintro ⟨_, hget, hactive, hp⟩
    obtain ⟨record, hstored, rfl⟩ := Option.map_eq_some_iff.mp hget
    exact ⟨record, hstored, ofChain_eq_active.mp hactive, hp⟩
  · rintro ⟨record, hstored, hactive, hp⟩
    exact ⟨_, Option.map_eq_some_iff.mpr ⟨record, hstored, rfl⟩, ofChain_eq_active.mpr hactive, hp⟩

/-- A service that mirrors the contract answers as it does. -/
theorem Mirrors.escrowsAgree (h : Mirrors H store l.store) (hdates : ReadsDates H)
    (hrep : Representable l.store) (hbal : Escrow.Balanced l.store) : EscrowsAgree H store l where
  record := h.record
  nothingElse := h.nothingElse
  held := h.held
  release env admin u q hq := by
    have hactive := h.exists_active hq (u := u) (p := fun _ => True)
    simp only [and_true] at hactive
    rw [disposal_succeeds_iff hbal rfl]
    exact and_congr_right fun _ => hactive.symm
  refund env admin u q hq := by
    have hactive := h.exists_active hq (u := u) (p := fun _ => True)
    simp only [and_true] at hactive
    rw [disposal_succeeds_iff hbal rfl]
    exact and_congr_right fun _ => hactive.symm
  expire env u q hq := by
    refine (succeeds_bind_pure _).trans (hbal.expire_iff.trans ?_)
    refine Iff.trans ?_ (h.exists_active hq).symm
    refine exists_congr fun record => and_congr_right fun hstored => and_congr_right fun _ => ?_
    rw [← Bool.not_eq_true, notYetExpired_iff hdates (hrep q u record hstored).2, not_lt]

/-- A host that writes two dates as they are, and any other time by its length. -/
def calendar : Host where
  now := 0
  isoString t :=
    if t = 0 then "1970-01-01T00:00:00.000Z"
    else if t = 2592000000 then "1970-01-31T00:00:00.000Z"
    else String.ofList (List.replicate t.toNat '.')
  parseDate text :=
    if text = "1970-01-01T00:00:00.000Z" then some 0
    else if text = "1970-01-31T00:00:00.000Z" then some 2592000000
    else some text.length
  randomUUID := ""
  quote text := text
  hmacSha256 _ body := body

/-- The plain calendar reads back the dates it writes. -/
theorem readsDates_calendar : ReadsDates calendar := by
  intro t ht _
  have hdots (text : String) (c : Char) (hc : c ∈ text.toList) (hne : c ≠ '.') :
      String.ofList (List.replicate t.toNat '.') ≠ text := by
    rintro rfl
    rw [String.toList_ofList] at hc
    exact hne (List.eq_of_mem_replicate hc)
  simp only [calendar]
  by_cases hzero : t = 0
  · rw [if_pos hzero, if_pos rfl, hzero]
  rw [if_neg hzero]
  by_cases hmonth : t = 2592000000
  · rw [if_pos hmonth, if_neg (by decide), if_pos rfl, hmonth]
  rw [if_neg hmonth, if_neg (hdots _ '1' (by decide) (by decide)),
    if_neg (hdots _ '1' (by decide) (by decide)), String.length_ofList, List.length_replicate]
  simp [ht]

end LineProof.Backend
