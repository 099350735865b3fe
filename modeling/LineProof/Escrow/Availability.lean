import LineProof.Escrow.Conservation
import LineProof.Escrow.Lifetimes

/-!
# No deposit is stuck

Reference: `contracts/lineproof-escrow/src/lib.rs`.

In every reachable state, with the lifetimes of the entries, an Active deposit can be released, refunded or
(when its time has come) expired, unless its record or the total of its queue is archived. The subtraction
from the total, the one step that could trap, stays in range because the contents are balanced whatever
has been archived.
-/

namespace LineProof.Escrow.Ttl

open Soroban

variable {env : Env} {li : LedgerInfo} {l : Ledger Storage} {u admin : Address} {q : Symbol}

/-- An Active record of which `p` holds, on entries that a call in the ledger `li` can write. -/
structure Disposable (li : LedgerInfo) (q : Symbol) (u : Address) (p : EscrowRecord → Prop) (s : Storage) :
    Prop where
  record : ∃ e, s.lookup (.record q u) = some e ∧ e.value.status = .active ∧ p e.value
  writable : Writable li (.record q u) s
  total : Writable li (.total q) s

/-- The contents that the sums are about. -/
def BalancedContents (s : Storage) : Prop := ∃ t, Contents s t ∧ Balanced t

/-- The totals match the active records in every reachable state, whatever the network settings. -/
theorem balancedContents_run (calls : List (Invocation Call)) :
    BalancedContents (escrow.run fresh calls).store := by
  obtain ⟨calls', -, hmatch⟩ := contents_run calls
  exact ⟨_, hmatch.store, balanced_run calls'⟩

/-- A queue's total without an active record's amount is still in range. -/
theorem BalancedContents.inI128_sub {s : Storage} (h : BalancedContents s)
    {e : EntryWithLiveUntil EscrowRecord} (hentry : s.lookup (.record q u) = some e)
    (active : e.value.status = .active) : InI128 (totalHeld q s - e.value.amount) := by
  obtain ⟨t, hcontents, hbalanced⟩ := h
  have hstored : t.records.lookup (q, u) = some e.value := by
    rw [← hcontents.records, hentry]
    rfl
  have hheld : totalHeld q s = t.totalHeld q := by
    rw [totalHeld, hcontents.totals]
    rfl
  rw [hheld]
  exact hbalanced.inI128_sub hstored active

/-- The storage after the record has been read. -/
def loaded (li : LedgerInfo) (q : Symbol) (u : Address) (e : EntryWithLiveUntil EscrowRecord)
    (s : Storage) : Storage :=
  s.insert (.record q u) ⟨e.value, renewedUntil li e.liveUntil⟩

/-- A record is read where its entry is writable, since the read renews it. -/
theorem loadRecord_eq_ok {r : EscrowRecord × Ledger Storage} :
    loadRecord li u q env l = .ok r ↔ Writable li (.record q u) l.store ∧
      ∃ e, l.store.lookup (.record q u) = some e ∧
        (e.value, { l with store := loaded li q u e l.store }) = r := by
  have hbounds : ttlThreshold ≤ ttlExtendTo := by decide
  simp only [loadRecord, renew, bind_eq_ok, get_eq_ok, expect_eq_ok, extendTtl_eq_ok, pure_eq_ok]
  constructor
  · rintro ⟨_, _, ⟨haccess, hget⟩, record, _, ⟨_, hsome, hfound⟩, _, _, ⟨-, -, e, hentry, hrequested, hmax,
      hextend⟩, hr⟩
    cases hget
    cases hfound
    cases hextend
    rw [hentry] at hsome
    obtain rfl := Option.some.inj hsome
    exact ⟨⟨haccess, fun hnone => absurd hnone (by simp [hentry]), hrequested, hmax⟩, e, hentry, hr⟩
  · rintro ⟨⟨haccess, -, hrequested, hmax⟩, e, hentry, hr⟩
    exact ⟨_, _, ⟨haccess, rfl⟩, e.value, _, ⟨_, by rw [hentry]; rfl, rfl⟩, (), _, ⟨hbounds, haccess, e, hentry,
      hrequested, hmax, rfl⟩, hr⟩

/-- The total is lowered where its entry is writable and the result is in range. -/
theorem decrementTotal_eq_ok {amount : ℤ} {r : Unit × Ledger Storage} :
    decrementTotal li q amount env l = .ok r ↔
      Writable li (.total q) l.store ∧ InI128 (totalHeld q l.store - amount) ∧
        ((), { l with store := written li (.total q) (totalHeld q l.store - amount) l.store }) = r := by
  simp only [decrementTotal, bind_eq_ok, getTotalHeld_eq_ok, i128_eq_ok, write_eq_ok]
  constructor
  · rintro ⟨_, _, ⟨-, hcurrent⟩, _, _, ⟨hsum, hnew⟩, hwritable, hr⟩
    cases hcurrent
    cases hnew
    exact ⟨hwritable, hsum, hr⟩
  · rintro ⟨hwritable, hsum, hr⟩
    exact ⟨_, _, ⟨hwritable.accessible, rfl⟩, _, _, ⟨hsum, rfl⟩, hwritable, hr⟩

/-- A settlement succeeds for an active record, where its two entries are writable and the total stays in
range. -/
theorem settle_succeeds_iff {outcome : EscrowStatus} {kind : String} {record : EscrowRecord} :
    Succeeds (settle li outcome kind u q record) env l ↔
      record.status = .active ∧ Writable li (.record q u) l.store ∧ Writable li (.total q) l.store ∧
        InI128 (totalHeld q l.store - record.amount) := by
  let ended : EscrowRecord := { record with status := outcome, releasedAt := some env.timestamp }
  have htotal : (written li (.record q u) ended l.store).lookup (.total q) = l.store.lookup (.total q) :=
    lookup_written (by simp)
  have hheld : totalHeld q (written li (.record q u) ended l.store) = totalHeld q l.store := by
    rw [totalHeld, htotal, totalHeld]
  constructor
  · rintro ⟨r, hr⟩
    simp only [settle, bind_eq_ok, require_eq_ok, timestamp_eq_ok, write_eq_ok, decrementTotal_eq_ok] at hr
    obtain ⟨_, _, ⟨hactive, hl⟩, _, _, hnow, _, _, ⟨hrecord, hwrite⟩, _, _, ⟨hwritable, hsum, -⟩, -⟩ := hr
    cases hl
    cases hnow
    cases hwrite
    exact ⟨hactive, hrecord, hwritable.congr htotal, hheld ▸ hsum⟩
  · rintro ⟨hactive, hrecord, hwritable, hsum⟩
    have hwrite : write li (.record q u) ended env l =
        .ok ((), { l with store := written li (.record q u) ended l.store }) := write_eq_ok.mpr ⟨hrecord, rfl⟩
    have hdecrement : ∃ l', decrementTotal li q record.amount env
        { l with store := written li (.record q u) ended l.store } = .ok ((), l') :=
      ⟨_, decrementTotal_eq_ok.mpr ⟨hwritable.congr htotal.symm, hheld.symm ▸ hsum, rfl⟩⟩
    obtain ⟨l', hdecrement⟩ := hdecrement
    exact ⟨_, bind_eq_ok.mpr ⟨(), l, require_eq_ok.mpr ⟨hactive, rfl⟩, bind_eq_ok.mpr ⟨_, l, rfl,
      bind_eq_ok.mpr ⟨(), _, hwrite, bind_eq_ok.mpr ⟨(), l', hdecrement, rfl⟩⟩⟩⟩⟩

/-- A call that reads the record, checks it and ends the deposit. -/
theorem succeeds_iff_disposable (hbal : BalancedContents l.store) (p : EscrowRecord → Prop)
    [DecidablePred p] (msg : String) (outcome : EscrowStatus) (kind : String) :
    Succeeds (do
      let record ← loadRecord li u q
      require (p record) msg
      settle li outcome kind u q record) env l ↔ Disposable li q u p l.store := by
  have htotal : ∀ e, (loaded li q u e l.store).lookup (.total q) = l.store.lookup (.total q) :=
    fun e => Finmap.lookup_insert_of_ne _ (by simp)
  constructor
  · rintro ⟨r, hr⟩
    obtain ⟨_, _, hload, hr⟩ := bind_eq_ok.mp hr
    obtain ⟨hwritable, e, hentry, hloaded⟩ := loadRecord_eq_ok.mp hload
    obtain ⟨rfl, rfl⟩ := Prod.mk.inj hloaded
    obtain ⟨_, _, hcheck, hsettle⟩ := bind_eq_ok.mp hr
    obtain ⟨hp, hl⟩ := require_eq_ok.mp hcheck
    obtain ⟨-, rfl⟩ := Prod.mk.inj hl
    obtain ⟨hactive, -, htotalWritable, -⟩ := settle_succeeds_iff.mp ⟨r, hsettle⟩
    exact ⟨⟨e, hentry, hactive, hp⟩, hwritable, htotalWritable.congr (htotal e)⟩
  · rintro ⟨⟨e, hentry, hactive, hp⟩, hwritable, htotalWritable⟩
    have hload : loadRecord li u q env l = .ok (e.value, { l with store := loaded li q u e l.store }) :=
      loadRecord_eq_ok.mpr ⟨hwritable, e, hentry, rfl⟩
    have hentry' : (loaded li q u e l.store).lookup (.record q u) =
        some ⟨e.value, renewedUntil li e.liveUntil⟩ := Finmap.lookup_insert _
    have hwritable' : Writable li (.record q u) (loaded li q u e l.store) :=
      { accessible := by
          intro e' he'
          obtain rfl := Option.some.inj (hentry'.symm.trans he')
          exact (hwritable.accessible e hentry).trans (li.le_extended _ _ _)
        created := fun hnone => absurd hnone (by simp [hentry'])
        requested := hwritable.requested
        max := hwritable.max }
    have hsum : InI128 (totalHeld q (loaded li q u e l.store) - e.value.amount) := by
      rw [totalHeld, htotal]
      exact hbal.inI128_sub hentry hactive
    have hsettle : Succeeds (settle li outcome kind u q e.value) env
        { l with store := loaded li q u e l.store } :=
      settle_succeeds_iff.mpr ⟨hactive, hwritable', htotalWritable.congr (htotal e).symm, hsum⟩
    obtain ⟨r, hsettle⟩ := hsettle
    exact ⟨r, bind_eq_ok.mpr ⟨_, _, hload, bind_eq_ok.mpr ⟨(), _, require_eq_ok.mpr ⟨hp, rfl⟩, hsettle⟩⟩⟩

/-- A call that starts with `require_auth` succeeds with the signature and when the rest does. -/
theorem succeeds_requireAuth {α : Type} {x : Contract Storage α} :
    Succeeds (do requireAuth admin; x) env l ↔ admin ∈ env.authorizers ∧ Succeeds x env l := by
  constructor
  · rintro ⟨r, hr⟩
    obtain ⟨_, _, hauth, hx⟩ := bind_eq_ok.mp hr
    obtain ⟨hmem, hl⟩ := requireAuth_eq_ok.mp hauth
    obtain ⟨-, rfl⟩ := Prod.mk.inj hl
    exact ⟨hmem, r, hx⟩
  · rintro ⟨hmem, r, hx⟩
    exact ⟨r, bind_eq_ok.mpr ⟨(), l, requireAuth_eq_ok.mpr ⟨hmem, rfl⟩, hx⟩⟩

/-- `release` and `refund` check nothing of the record but its status. -/
theorem authorized_succeeds_iff (hbal : BalancedContents l.store) {outcome : EscrowStatus} {kind : String} :
    Succeeds (do
      requireAuth admin
      settle li outcome kind u q (← loadRecord li u q)) env l ↔
      admin ∈ env.authorizers ∧ Disposable li q u (fun _ => True) l.store :=
  succeeds_requireAuth.trans
    (and_congr_right fun _ => succeeds_iff_disposable hbal (fun _ => True) "" outcome kind)

end LineProof.Escrow.Ttl
