import Mathlib.Data.Finmap
import LineProof.Soroban.Simulation

/-!
# Lifetimes of persistent entries

Reference: `contracts/.patched/soroban-env-host/src/storage.rs`, `ledger_info.rs` and
`host/data_helper.rs`.

A persistent entry carries the last ledger it lives. A new one gets the least lifetime of the network,
a write to an entry that is there keeps its lifetime, and `extend_ttl` raises it. An entry past that
ledger is archived, and a call that accesses it does not run.

The last section has the rules that connect a contract on such a storage to the same contract on its
contents, where lifetimes do not appear.
-/

namespace LineProof.Soroban

/-- `LedgerInfo`: the ledger of a call, and the lifetimes of its network. -/
structure LedgerInfo where
  sequenceNumber : ℕ
  minPersistentEntryTtl : ℕ
  maxEntryTtl : ℕ
deriving DecidableEq

/-- `min_live_until_ledger_checked` of a persistent entry, before the check. -/
def LedgerInfo.minLiveUntil (li : LedgerInfo) : ℕ := li.sequenceNumber + (li.minPersistentEntryTtl - 1)

/-- `max_live_until_ledger_checked`, before the check. -/
def LedgerInfo.maxLiveUntil (li : LedgerInfo) : ℕ := li.sequenceNumber + (li.maxEntryTtl - 1)

/-- `(entry, live_until_ledger)`. -/
structure EntryWithLiveUntil (α : Type) where
  value : α
  liveUntil : ℕ
deriving DecidableEq

/-- Persistent storage. -/
abbrev Persistent {κ : Type} (V : κ → Type) := Finmap fun key => EntryWithLiveUntil (V key)

section Storage

variable {κ : Type} [DecidableEq κ] {V : κ → Type} (li : LedgerInfo) (key : κ)

/-- `try_get_full`. -/
def tryGetFull : Contract (Persistent V) (Option (EntryWithLiveUntil (V key))) := do
  let entry ← load (·.lookup key)
  require (∀ e ∈ entry, li.sequenceNumber ≤ e.liveUntil) "accessing no-longer-live entry"
  return entry

/-- `persistent().has(key)`. -/
def has : Contract (Persistent V) Bool := do
  return (← tryGetFull li key).isSome

/-- `persistent().get(key)`. -/
def get : Contract (Persistent V) (Option (V key)) := do
  return (← tryGetFull li key).map (·.value)

/-- `persistent().set(key, value)`, which is `put_contract_data_into_ledger`. -/
def put (value : V key) : Contract (Persistent V) Unit := do
  match ← tryGetFull li key with
  | some current => save (·.insert key ⟨value, current.liveUntil⟩)
  | none =>
    let liveUntil ← u32 li.minLiveUntil
    save (·.insert key ⟨value, liveUntil⟩)

/-- `persistent().remove(key)`. -/
def remove : Contract (Persistent V) Unit := do
  let _ ← tryGetFull li key
  save (·.erase key)

/-- `persistent().extend_ttl(key, threshold, extend_to)`. -/
def extendTtl (threshold extendTo : ℕ) : Contract (Persistent V) Unit := do
  require (¬ extendTo < threshold) "threshold must be <= extend_to"
  let entry ← expect (← tryGetFull li key) "trying to get non-existing value for contract data key"
  let requested ← u32 (li.sequenceNumber + extendTo)
  let maxLiveUntil ← u32 li.maxLiveUntil
  let newLiveUntil := min requested maxLiveUntil
  if entry.liveUntil < newLiveUntil ∧ entry.liveUntil - li.sequenceNumber ≤ threshold then
    save (·.insert key ⟨entry.value, newLiveUntil⟩)

end Storage

/-! ## When an access succeeds -/

section Access

variable {κ : Type} [DecidableEq κ] {V : κ → Type} {li : LedgerInfo} {key : κ} {env : Env}
  {l : Ledger (Persistent V)}

/-- No entry under the key, or a live one. -/
def Accessible (li : LedgerInfo) (key : κ) (s : Persistent V) : Prop :=
  ∀ e ∈ s.lookup key, li.sequenceNumber ≤ e.liveUntil

/-- The last ledger of an entry that has just been written. -/
def liveUntilOnPut (li : LedgerInfo) (old : Option (EntryWithLiveUntil (V key))) : ℕ :=
  (old.map (·.liveUntil)).getD li.minLiveUntil

/-- An entry that is not archived is found with its lifetime. -/
@[simp] theorem tryGetFull_eq_ok {r : Option (EntryWithLiveUntil (V key)) × Ledger (Persistent V)} :
    tryGetFull li key env l = .ok r ↔ Accessible li key l.store ∧ (l.store.lookup key, l) = r := by
  simp [tryGetFull, Accessible]

/-- Nothing reads an archived entry. -/
theorem get_archived {e : EntryWithLiveUntil (V key)} (hentry : l.store.lookup key = some e)
    (harchived : e.liveUntil < li.sequenceNumber) :
    get li key env l = .error (.message "accessing no-longer-live entry") := by
  have hfull : tryGetFull li key env l = .error (.message "accessing no-longer-live entry") := by
    refine bind_eq_error.mpr (.inr ⟨_, _, rfl, bind_eq_error.mpr (.inl ?_)⟩)
    rw [require_eq_error]
    refine ⟨fun hlive => ?_, rfl⟩
    have := hlive e hentry
    omega
  exact bind_eq_error.mpr (.inl hfull)

/-- A test for an entry goes through if the entry is not archived. -/
@[simp] theorem has_eq_ok {r : Bool × Ledger (Persistent V)} :
    has li key env l = .ok r ↔ Accessible li key l.store ∧ ((l.store.lookup key).isSome, l) = r := by
  simp [has]

/-- A read goes through if the entry is not archived. -/
@[simp] theorem get_eq_ok {r : Option (V key) × Ledger (Persistent V)} :
    get li key env l = .ok r ↔
      Accessible li key l.store ∧ ((l.store.lookup key).map (·.value), l) = r := by
  simp [get]

/-- A removal goes through if the entry is not archived. -/
@[simp] theorem remove_eq_ok {r : Unit × Ledger (Persistent V)} :
    remove li key env l = .ok r ↔
      Accessible li key l.store ∧ ((), { l with store := l.store.erase key }) = r := by
  simp [remove]

/-- The last ledger of an entry after `extend_ttl`. -/
def LedgerInfo.extended (li : LedgerInfo) (threshold extendTo liveUntil : ℕ) : ℕ :=
  let newLiveUntil := min (li.sequenceNumber + extendTo) li.maxLiveUntil
  if liveUntil < newLiveUntil ∧ liveUntil - li.sequenceNumber ≤ threshold then newLiveUntil
  else liveUntil

/-- Renewing never shortens a life. -/
theorem LedgerInfo.le_extended (li : LedgerInfo) (threshold extendTo liveUntil : ℕ) :
    liveUntil ≤ li.extended threshold extendTo liveUntil := by
  by_cases hraise : liveUntil < min (li.sequenceNumber + extendTo) li.maxLiveUntil ∧
      liveUntil - li.sequenceNumber ≤ threshold
  · have hnew : li.extended threshold extendTo liveUntil =
        min (li.sequenceNumber + extendTo) li.maxLiveUntil := if_pos hraise
    rw [hnew]
    exact hraise.1.le
  · have hold : li.extended threshold extendTo liveUntil = liveUntil := if_neg hraise
    rw [hold]

/-- Writing what is there changes nothing. -/
theorem insert_lookup_self {s : Persistent V} {e : EntryWithLiveUntil (V key)}
    (h : s.lookup key = some e) : s.insert key e = s := by
  apply Finmap.ext_lookup
  intro key'
  by_cases hkey : key' = key
  · subst hkey
    rw [Finmap.lookup_insert, h]
  · rw [Finmap.lookup_insert_of_ne _ hkey]

/-- A write keeps the lifetime of an old entry, and gives a new one the least there is. -/
@[simp] theorem put_eq_ok {value : V key} {r : Unit × Ledger (Persistent V)} :
    put li key value env l = .ok r ↔
      Accessible li key l.store ∧ (l.store.lookup key = none → li.minLiveUntil ≤ u32Max) ∧
        ((), { l with store :=
          l.store.insert key ⟨value, liveUntilOnPut li (l.store.lookup key)⟩ }) = r := by
  cases hentry : l.store.lookup key with
  | some e => simp [put, hentry, liveUntilOnPut]
  | none => simp [put, hentry, liveUntilOnPut]

/-- The last step of `extend_ttl`. -/
theorem raise_eq_ok {threshold extendTo : ℕ} {e : EntryWithLiveUntil (V key)}
    (hentry : l.store.lookup key = some e) {r : Unit × Ledger (Persistent V)} :
    (if e.liveUntil < min (li.sequenceNumber + extendTo) li.maxLiveUntil ∧
        e.liveUntil - li.sequenceNumber ≤ threshold then
      save (S := Persistent V) (·.insert key
        ⟨e.value, min (li.sequenceNumber + extendTo) li.maxLiveUntil⟩)
    else pure ()) env l = .ok r ↔
      ((), { l with store :=
        l.store.insert key ⟨e.value, li.extended threshold extendTo e.liveUntil⟩ }) = r := by
  split
  case isTrue hraise =>
    have hnew : li.extended threshold extendTo e.liveUntil =
        min (li.sequenceNumber + extendTo) li.maxLiveUntil := if_pos hraise
    rw [save_eq_ok, hnew]
  case isFalse hkeep =>
    have hold : li.extended threshold extendTo e.liveUntil = e.liveUntil := if_neg hkeep
    rw [pure_eq_ok, hold, insert_lookup_self hentry]

/-- `extend_ttl` lengthens the life of an entry and leaves its value. -/
@[simp] theorem extendTtl_eq_ok {threshold extendTo : ℕ} {r : Unit × Ledger (Persistent V)} :
    extendTtl li key threshold extendTo env l = .ok r ↔
      threshold ≤ extendTo ∧ Accessible li key l.store ∧ ∃ e, l.store.lookup key = some e ∧
        li.sequenceNumber + extendTo ≤ u32Max ∧ li.maxLiveUntil ≤ u32Max ∧
        ((), { l with store :=
          l.store.insert key ⟨e.value, li.extended threshold extendTo e.liveUntil⟩ }) = r := by
  constructor
  · intro h
    simp only [extendTtl, bind_eq_ok, require_eq_ok, tryGetFull_eq_ok, expect_eq_ok, u32_eq_ok,
      not_lt] at h
    obtain ⟨_, _, ⟨hle, hl⟩, _, _, ⟨hlive, hget⟩, e, _, ⟨_, hsome, he⟩, _, _, ⟨hseq, hr⟩, _, _,
      ⟨hmax, hm⟩, hraise⟩ := h
    cases hl
    cases hget
    cases he
    cases hr
    cases hm
    exact ⟨hle, hlive, e, hsome, hseq, hmax, (raise_eq_ok hsome).mp hraise⟩
  · intro h
    rcases h with ⟨hle, hlive, e, hsome, hseq, hmax, hr⟩
    simp only [extendTtl, bind_eq_ok, require_eq_ok, tryGetFull_eq_ok, expect_eq_ok, u32_eq_ok,
      not_lt]
    exact ⟨_, _, ⟨hle, rfl⟩, _, _, ⟨hlive, rfl⟩, e, _, ⟨e, hsome, rfl⟩, _, _, ⟨hseq, rfl⟩, _, _,
      ⟨hmax, rfl⟩, (raise_eq_ok hsome).mpr hr⟩

end Access

/-! ## Lifetimes -/

/-- How many ledgers a new entry lives after the current one. -/
def LedgerInfo.minLifetime (li : LedgerInfo) : ℕ := li.minPersistentEntryTtl - 1

/-- How many ledgers an entry may live after the current one. -/
def LedgerInfo.maxLifetime (li : LedgerInfo) : ℕ := li.maxEntryTtl - 1

/-- How many ledgers an entry lives after the current one. -/
def EntryWithLiveUntil.lifetime {α : Type} (e : EntryWithLiveUntil α) (li : LedgerInfo) : ℕ :=
  e.liveUntil - li.sequenceNumber

/-- A new entry that has been extended. -/
theorem LedgerInfo.extended_minLiveUntil (li : LedgerInfo) (threshold extendTo : ℕ) :
    li.extended threshold extendTo li.minLiveUntil - li.sequenceNumber =
      if li.minLifetime ≤ threshold then max li.minLifetime (min extendTo li.maxLifetime)
      else li.minLifetime := by
  have hmin : min (li.sequenceNumber + extendTo) li.maxLiveUntil =
      li.sequenceNumber + min extendTo li.maxLifetime := Nat.add_min_add_left _ _ _
  have hnew : li.minLiveUntil = li.sequenceNumber + li.minLifetime := rfl
  simp only [extended, hmin, hnew, Nat.add_sub_cancel_left, Nat.add_lt_add_iff_left]
  by_cases hlow : li.minLifetime ≤ threshold
  · by_cases hraise : li.minLifetime < min extendTo li.maxLifetime
    · rw [if_pos ⟨hraise, hlow⟩, if_pos hlow]
      omega
    · rw [if_neg fun h => hraise h.1, if_pos hlow]
      omega
  · rw [if_neg fun h => hlow h.2, if_neg hlow]
    omega

/-! ## The same call on the contents -/

section Contents

variable {κ T β : Type} [DecidableEq κ] {V : κ → Type} {R : Persistent V → T → Prop}

/-- A test for an entry simulates a read of whether there is one. -/
theorem Simulates.has (li : LedgerInfo) {key : κ} {f : T → β} {Q : Bool → β → Prop}
    (h : ∀ s t, R s t → Q (s.lookup key).isSome (f t)) :
    Simulates R Q (Soroban.has li key) (load f) := by
  intro env l m hm a l' hx
  obtain ⟨-, hr⟩ := has_eq_ok.mp hx
  obtain ⟨rfl, rfl⟩ := Prod.mk.inj hr
  exact ⟨_, m, rfl, h _ _ hm.store, hm⟩

/-- A read simulates a read of the contents. -/
theorem Simulates.get (li : LedgerInfo) {key : κ} {f : T → β} {Q : Option (V key) → β → Prop}
    (h : ∀ s t, R s t → Q ((s.lookup key).map (·.value)) (f t)) :
    Simulates R Q (Soroban.get li key) (load f) := by
  intro env l m hm a l' hx
  obtain ⟨-, hr⟩ := get_eq_ok.mp hx
  obtain ⟨rfl, rfl⟩ := Prod.mk.inj hr
  exact ⟨_, m, rfl, h _ _ hm.store, hm⟩

/-- A write simulates any change that keeps the relation. -/
theorem Simulates.put (li : LedgerInfo) {key : κ} {value : V key} {f : T → T}
    (h : ∀ s t liveUntil, R s t → R (s.insert key ⟨value, liveUntil⟩) (f t)) :
    Simulates R Eq (Soroban.put li key value) (save f) := by
  intro env l m hm a l' hx
  obtain ⟨-, -, hr⟩ := put_eq_ok.mp hx
  obtain ⟨rfl, rfl⟩ := Prod.mk.inj hr
  exact ⟨(), _, rfl, rfl, h _ _ _ hm.store, hm.events⟩

/-- Nothing of the contents changes when an entry is extended. -/
theorem Simulates.extendTtl (li : LedgerInfo) {key : κ} {threshold extendTo : ℕ}
    (h : ∀ s t e liveUntil, s.lookup key = some e → R s t → R (s.insert key ⟨e.value, liveUntil⟩) t) :
    Simulates R (fun _ _ => True) (Soroban.extendTtl li key threshold extendTo)
      (Pure.pure () : Contract T Unit) := by
  intro env l m hm a l' hx
  obtain ⟨-, -, e, hentry, -, -, hr⟩ := extendTtl_eq_ok.mp hx
  obtain ⟨rfl, rfl⟩ := Prod.mk.inj hr
  exact ⟨(), m, rfl, trivial, h _ _ e _ hentry hm.store, hm.events⟩

end Contents

end LineProof.Soroban
