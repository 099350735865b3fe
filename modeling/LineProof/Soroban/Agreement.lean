import LineProof.Soroban.Lifetimes

/-!
# Contracts whose entries live

A contract on storage with lifetimes agrees with a contract on contents while all its entries live until a
common ledger, the floor: their calls come to the same end, with the same panic where they fail. Together
with `Simulates`, which needs no entry to live, this is `Mirrors`. One rule for each operation, and
`agrees_run` for whole runs.
-/

namespace LineProof.Soroban

variable {κ T α β γ δ : Type} [DecidableEq κ] {V : κ → Type} {R : Persistent V → T → Prop}
  {Q : α → β → Prop} {P : γ → δ → Prop} {msg : String} {floor threshold extendTo : ℕ} {li : LedgerInfo}

/-- No entry is archived before the ledger `floor` has passed. -/
def LivesUntil (floor : ℕ) (s : Persistent V) : Prop :=
  ∀ key e, s.lookup key = some e → floor ≤ e.liveUntil

/-- A call in this ledger can rely on entries that live until `floor`, and what it writes does as well. The
ledger numbers that it computes are numbers of 32 bits. -/
structure Uptime (threshold extendTo floor : ℕ) (li : LedgerInfo) : Prop where
  live : li.sequenceNumber ≤ floor
  renewed : floor ≤ li.extended threshold extendTo li.minLiveUntil
  bounds : threshold ≤ extendTo
  minLiveUntil : li.minLiveUntil ≤ u32Max
  maxLiveUntil : li.maxLiveUntil ≤ u32Max
  requested : li.sequenceNumber + extendTo ≤ u32Max

/-- What is written in a later ledger of the same network lives longer. -/
theorem LedgerInfo.extended_minLiveUntil_le {first li : LedgerInfo}
    (hmin : li.minPersistentEntryTtl = first.minPersistentEntryTtl)
    (hmax : li.maxEntryTtl = first.maxEntryTtl) (hlater : first.sequenceNumber ≤ li.sequenceNumber)
    (threshold extendTo : ℕ) :
    first.extended threshold extendTo first.minLiveUntil ≤
      li.extended threshold extendTo li.minLiveUntil := by
  have hfirst := first.extended_minLiveUntil threshold extendTo
  have hli := li.extended_minLiveUntil threshold extendTo
  have hlow : first.sequenceNumber ≤ first.extended threshold extendTo first.minLiveUntil :=
    (Nat.le_add_right _ _).trans (first.le_extended _ _ _)
  have hlow' : li.sequenceNumber ≤ li.extended threshold extendTo li.minLiveUntil :=
    (Nat.le_add_right _ _).trans (li.le_extended _ _ _)
  simp only [LedgerInfo.minLifetime, LedgerInfo.maxLifetime, hmin, hmax] at hfirst hli
  have hsame := hfirst.trans hli.symm
  omega

/-- A ledger of the network of `first` up to the ledger `floor`, with numbers of 32 bits. -/
structure UpTo (extendTo floor : ℕ) (first li : LedgerInfo) : Prop where
  minTtl : li.minPersistentEntryTtl = first.minPersistentEntryTtl
  maxTtl : li.maxEntryTtl = first.maxEntryTtl
  later : first.sequenceNumber ≤ li.sequenceNumber
  live : li.sequenceNumber ≤ floor
  minLiveUntil : li.minLiveUntil ≤ u32Max
  maxLiveUntil : li.maxLiveUntil ≤ u32Max
  requested : li.sequenceNumber + extendTo ≤ u32Max

/-- Before the floor everything lives, and renewing keeps it so. -/
theorem UpTo.uptime {first : LedgerInfo} (h : UpTo extendTo floor first li) (hbounds : threshold ≤ extendTo)
    (hfloor : floor ≤ first.extended threshold extendTo first.minLiveUntil) :
    Uptime threshold extendTo floor li where
  live := h.live
  renewed := hfloor.trans (LedgerInfo.extended_minLiveUntil_le h.minTtl h.maxTtl h.later _ _)
  bounds := hbounds
  minLiveUntil := h.minLiveUntil
  maxLiveUntil := h.maxLiveUntil
  requested := h.requested

/-- A new entry that lives long enough keeps the floor. -/
theorem LivesUntil.insert {s : Persistent V} (h : LivesUntil floor s) {key : κ}
    {e : EntryWithLiveUntil (V key)} (he : floor ≤ e.liveUntil) : LivesUntil floor (s.insert key e) := by
  intro key' e' hlookup
  by_cases hkey : key' = key
  · subst hkey
    rw [Finmap.lookup_insert] at hlookup
    obtain rfl := Option.some.inj hlookup
    exact he
  · rw [Finmap.lookup_insert_of_ne _ hkey] at hlookup
    exact h key' e' hlookup

/-- Removing an entry keeps the floor. -/
theorem LivesUntil.erase {s : Persistent V} (h : LivesUntil floor s) (key : κ) :
    LivesUntil floor (s.erase key) := by
  intro key' e' hlookup
  by_cases hkey : key' = key
  · subst hkey
    rw [Finmap.lookup_erase] at hlookup
    exact absurd hlookup (by simp)
  · rw [Finmap.lookup_erase_ne hkey] at hlookup
    exact h key' e' hlookup

/-- Up to the floor every entry can be read. -/
theorem LivesUntil.accessible {s : Persistent V} (h : LivesUntil floor s)
    (hlive : li.sequenceNumber ≤ floor) (key : κ) : Accessible li key s :=
  fun e he => hlive.trans (h key e he)

/-- What a `set` followed by `extend_ttl` leaves. -/
theorem LivesUntil.write {s : Persistent V} (h : LivesUntil floor s)
    (up : Uptime threshold extendTo floor li) (key : κ) (value : V key) :
    LivesUntil floor (s.insert key
      ⟨value, li.extended threshold extendTo (liveUntilOnPut li (s.lookup key))⟩) := by
  apply h.insert
  cases hentry : s.lookup key with
  | none => exact up.renewed
  | some e => exact (h key e hentry).trans (li.le_extended _ _ _)

/-! ## The same end -/

section Bind

variable {S : Type} {env : Env} {l l' : Ledger S} {x : Contract S α} {f : α → Contract S γ}

/-- A sequence goes on from what its first part leaves. -/
theorem bind_of_ok {a : α} (h : x env l = .ok (a, l')) : (x >>= f) env l = f a env l' := by
  dsimp only [Bind.bind]
  rw [h]

/-- A sequence panics with its first part. -/
theorem bind_of_error {p : Panic} (h : x env l = .error p) : (x >>= f) env l = .error p := by
  dsimp only [Bind.bind]
  rw [h]

end Bind

/-- Two calls that both succeed, with results in the relation `Q`, or both fail with the same panic. -/
inductive SameEnd (floor : ℕ) (R : Persistent V → T → Prop) (Q : α → β → Prop) :
    Except Panic (α × Ledger (Persistent V)) → Except Panic (β × Ledger T) → Prop
  | ok {a : α} {b : β} {l : Ledger (Persistent V)} {m : Ledger T} (result : Q a b) (ledgers : Matches R l m)
      (lives : LivesUntil floor l.store) : SameEnd floor R Q (.ok (a, l)) (.ok (b, m))
  | error (p : Panic) : SameEnd floor R Q (.error p) (.error p)

/-- On entries that live until `floor`, `x` and `y` come to the same end. -/
def Agrees (floor : ℕ) (R : Persistent V → T → Prop) (Q : α → β → Prop) (x : Contract (Persistent V) α)
    (y : Contract T β) : Prop :=
  ∀ env l m, Matches R l m → LivesUntil floor l.store → SameEnd floor R Q (x env l) (y env m)

/-- Related values agree. -/
theorem Agrees.pure {a : α} {b : β} (h : Q a b) : Agrees floor R Q (Pure.pure a) (Pure.pure b) :=
  fun _ _ _ hm hlives => .ok h hm hlives

/-- Sequences agree if their parts do. -/
theorem Agrees.bind {x : Contract (Persistent V) α} {y : Contract T β}
    {f : α → Contract (Persistent V) γ} {g : β → Contract T δ} (hx : Agrees floor R Q x y)
    (hf : ∀ a b, Q a b → Agrees floor R P (f a) (g b)) : Agrees floor R P (x >>= f) (y >>= g) := by
  intro env l m hm hlives
  have hend := hx env l m hm hlives
  generalize hu : x env l = u at hend
  generalize hv : y env m = v at hend
  cases hend with
  | ok hab hm' hlives' =>
    rw [bind_of_ok hu, bind_of_ok hv]
    exact hf _ _ hab env _ _ hm' hlives'
  | error p =>
    rw [bind_of_error hu, bind_of_error hv]
    exact .error p

/-- The same panics agree. -/
theorem Agrees.abort : Agrees floor R Q (Soroban.abort msg) (Soroban.abort msg) :=
  fun _ _ _ _ _ => .error _

/-- Checks of equivalent conditions agree. -/
theorem Agrees.require {p q : Prop} [Decidable p] [Decidable q] (h : p ↔ q) :
    Agrees floor R Eq (Soroban.require p msg) (Soroban.require q msg) := by
  by_cases hp : p
  · have hq := h.mp hp
    simp only [Soroban.require, if_pos hp, if_pos hq]
    exact .pure rfl
  · have hq : ¬ q := fun hq => hp (h.mpr hq)
    simp only [Soroban.require, if_neg hp, if_neg hq]
    exact .abort

theorem Agrees.expect (o : Option α) :
    Agrees floor R Eq (Soroban.expect o msg) (Soroban.expect o msg) := by
  cases o with
  | none => exact .abort
  | some a => exact .pure rfl

theorem Agrees.requireAuth (who : Address) :
    Agrees floor R Eq (Soroban.requireAuth who) (Soroban.requireAuth who) := by
  intro env l m hm hlives
  by_cases hwho : who ∈ env.authorizers
  · simp only [Soroban.requireAuth, if_pos hwho]
    exact .ok rfl hm hlives
  · simp only [Soroban.requireAuth, if_neg hwho]
    exact .error _

theorem Agrees.timestamp : Agrees floor R Eq Soroban.timestamp Soroban.timestamp :=
  fun _ _ _ hm hlives => .ok rfl hm hlives

/-- The arithmetic of a fixed width. -/
theorem Agrees.ite_overflow {p : Prop} [Decidable p] (a : α) :
    Agrees floor R Eq (fun _ l => if p then .ok (a, l) else .error .overflow)
      (fun _ m => if p then .ok (a, m) else .error .overflow) := by
  intro env l m hm hlives
  by_cases hp : p
  · simp only [if_pos hp]
    exact .ok rfl hm hlives
  · simp only [if_neg hp]
    exact .error _

theorem Agrees.u32 (n : ℕ) : Agrees floor R Eq (Soroban.u32 n) (Soroban.u32 n) := .ite_overflow n

theorem Agrees.publish (topics : List ScVal) (data : EventData) :
    Agrees floor R Eq (Soroban.publish topics data) (Soroban.publish topics data) := by
  intro env l m hm hlives
  refine .ok rfl ⟨hm.store, ?_⟩ hlives
  rw [hm.events]

/-! ## Storage -/

/-- A step that succeeds on live entries. -/
theorem Agrees.of_ok {x : Contract (Persistent V) α} {y : Contract T β}
    (h : ∀ env l m, Matches R l m → LivesUntil floor l.store → ∃ a l' b m', x env l = .ok (a, l') ∧
      y env m = .ok (b, m') ∧ Q a b ∧ Matches R l' m' ∧ LivesUntil floor l'.store) :
    Agrees floor R Q x y := by
  intro env l m hm hlives
  obtain ⟨a, l', b, m', hx, hy, hab, hm', hlives'⟩ := h env l m hm hlives
  rw [hx, hy]
  exact .ok hab hm' hlives'

/-- Reads agree where the contents do, as long as the entries live. -/
theorem Agrees.get (hlive : li.sequenceNumber ≤ floor) {key : κ} {f : T → β}
    {Q : Option (V key) → β → Prop} (h : ∀ s t, R s t → Q ((s.lookup key).map (·.value)) (f t)) :
    Agrees floor R Q (Soroban.get li key) (load f) :=
  .of_ok fun _ _ m hm hlives =>
    ⟨_, _, _, m, get_eq_ok.mpr ⟨hlives.accessible hlive key, rfl⟩, rfl, h _ _ hm.store, hm, hlives⟩

/-- A `set` together with the `extend_ttl` that follows it. -/
theorem Agrees.write (up : Uptime threshold extendTo floor li) {key : κ} {value : V key} {f : T → T}
    (h : ∀ s t liveUntil, R s t → R (s.insert key ⟨value, liveUntil⟩) (f t)) :
    Agrees floor R Eq (do put li key value; Soroban.extendTtl li key threshold extendTo) (save f) := by
  refine .of_ok fun env l m hm hlives => ?_
  have hput : put li key value env l = .ok ((),
      { l with store := l.store.insert key ⟨value, liveUntilOnPut li (l.store.lookup key)⟩ }) :=
    put_eq_ok.mpr ⟨hlives.accessible up.live key, fun _ => up.minLiveUntil, rfl⟩
  have haccess : Accessible li key
      (l.store.insert key ⟨value, liveUntilOnPut li (l.store.lookup key)⟩) := by
    intro e he
    rw [Finmap.lookup_insert] at he
    obtain rfl := Option.some.inj he
    cases hentry : l.store.lookup key with
    | none => exact Nat.le_add_right _ _
    | some e => exact up.live.trans (hlives key e hentry)
  refine ⟨(), _, (), _, (bind_of_ok hput).trans (extendTtl_eq_ok.mpr ⟨up.bounds, haccess, _,
    Finmap.lookup_insert _, up.requested, up.maxLiveUntil, rfl⟩), rfl, rfl, ⟨?_, hm.events⟩, ?_⟩
  · rw [Finmap.insert_insert]
    exact h _ _ _ hm.store
  · rw [Finmap.insert_insert]
    exact hlives.write up key value

/-- An `extend_ttl` of an entry that is there. -/
theorem extendTtl_live (up : Uptime threshold extendTo floor li) {key : κ} {env : Env}
    {l : Ledger (Persistent V)} (hlives : LivesUntil floor l.store) {e : EntryWithLiveUntil (V key)}
    (hentry : l.store.lookup key = some e) :
    Soroban.extendTtl li key threshold extendTo env l = .ok ((),
      { l with store := l.store.insert key ⟨e.value, li.extended threshold extendTo e.liveUntil⟩ }) ∧
    LivesUntil floor (l.store.insert key ⟨e.value, li.extended threshold extendTo e.liveUntil⟩) :=
  ⟨extendTtl_eq_ok.mpr ⟨up.bounds, hlives.accessible up.live key, e, hentry, up.requested,
    up.maxLiveUntil, rfl⟩, hlives.insert ((hlives key e hentry).trans (li.le_extended _ _ _))⟩

/-- What a `set` together with `extend_ttl` leaves, where it succeeds. -/
theorem store_of_write {key : κ} {value : V key} {env : Env} {l l' : Ledger (Persistent V)}
    (h : (do put li key value; Soroban.extendTtl li key threshold extendTo : Contract (Persistent V) Unit)
      env l = .ok ((), l')) :
    l'.store = l.store.insert key
      ⟨value, li.extended threshold extendTo (liveUntilOnPut li (l.store.lookup key))⟩ := by
  obtain ⟨_, _, hput, hextend⟩ := bind_eq_ok.mp h
  obtain ⟨-, -, hr⟩ := put_eq_ok.mp hput
  obtain ⟨-, rfl⟩ := Prod.mk.inj hr
  obtain ⟨-, -, e, hentry, -, -, hr⟩ := extendTtl_eq_ok.mp hextend
  obtain ⟨-, rfl⟩ := Prod.mk.inj hr
  rw [Finmap.lookup_insert] at hentry
  obtain rfl := Option.some.inj hentry
  exact Finmap.insert_insert _

/-- Nothing of the contents changes when an entry that is always there is extended. -/
theorem Agrees.extendTtl (up : Uptime threshold extendTo floor li) {key : κ}
    (hthere : ∀ s t, R s t → (s.lookup key).isSome = true)
    (hrenew : ∀ s t e liveUntil, s.lookup key = some e → R s t → R (s.insert key ⟨e.value, liveUntil⟩) t) :
    Agrees floor R (fun _ _ => True) (Soroban.extendTtl li key threshold extendTo)
      (Pure.pure () : Contract T Unit) := by
  refine .of_ok fun env l m hm hlives => ?_
  obtain ⟨e, hentry⟩ := Option.isSome_iff_exists.mp (hthere _ _ hm.store)
  obtain ⟨hextend, hlives'⟩ := extendTtl_live up hlives hentry
  exact ⟨(), _, (), m, hextend, rfl, trivial, ⟨hrenew _ _ e _ hentry hm.store, hm.events⟩, hlives'⟩

/-- A removal of an entry. -/
theorem Agrees.remove (hlive : li.sequenceNumber ≤ floor) {key : κ} {f : T → T}
    (h : ∀ s t, R s t → R (s.erase key) (f t)) :
    Agrees floor R Eq (Soroban.remove li key) (save f) :=
  .of_ok fun _ _ _ hm hlives => ⟨_, _, _, _, remove_eq_ok.mpr ⟨hlives.accessible hlive key, rfl⟩, rfl, rfl,
    ⟨h _ _ hm.store, hm.events⟩, hlives.erase key⟩

/-- A read that extends the entry it asks for. -/
theorem Agrees.expectRenewed (up : Uptime threshold extendTo floor li) {key : κ} {f : T → Option (V key)}
    (h : ∀ s t, R s t → (s.lookup key).map (·.value) = f t)
    (hrenew : ∀ s t e liveUntil, s.lookup key = some e → R s t → R (s.insert key ⟨e.value, liveUntil⟩) t) :
    Agrees floor R Eq
      (do let v ← Soroban.expect (← Soroban.get li key) msg
          Soroban.extendTtl li key threshold extendTo
          return v)
      (do Soroban.expect (← load f) msg) := by
  intro env l m hm hlives
  have hget : Soroban.get li key env l = .ok ((l.store.lookup key).map (·.value), l) :=
    get_eq_ok.mpr ⟨hlives.accessible up.live key, rfl⟩
  have hload : load f env m = .ok ((l.store.lookup key).map (·.value), m) := by rw [h _ _ hm.store]; rfl
  rw [bind_of_ok hget, bind_of_ok hload]
  cases hentry : l.store.lookup key with
  | none => exact .error _
  | some e =>
    obtain ⟨hextend, hlives'⟩ := extendTtl_live up hlives hentry
    have hfound : (Soroban.expect (some e.value) msg : Contract (Persistent V) _) env l = .ok (e.value, l) :=
      rfl
    rw [Option.map_some, bind_of_ok hfound, bind_of_ok hextend]
    exact .ok rfl ⟨hrenew _ _ e _ hentry hm.store, hm.events⟩ hlives'

/-- A read that extends the entry if there is one. -/
theorem Agrees.getRenewed (up : Uptime threshold extendTo floor li) {key : κ} {f : T → Option (V key)}
    (h : ∀ s t, R s t → (s.lookup key).map (·.value) = f t)
    (hrenew : ∀ s t e liveUntil, s.lookup key = some e → R s t → R (s.insert key ⟨e.value, liveUntil⟩) t) :
    Agrees floor R Eq
      (do let v ← Soroban.get li key
          if v.isSome = true then Soroban.extendTtl li key threshold extendTo
          return v)
      (load f) := by
  intro env l m hm hlives
  have hget : Soroban.get li key env l = .ok ((l.store.lookup key).map (·.value), l) :=
    get_eq_ok.mpr ⟨hlives.accessible up.live key, rfl⟩
  have hload : load f env m = .ok ((l.store.lookup key).map (·.value), m) := by rw [h _ _ hm.store]; rfl
  rw [bind_of_ok hget, hload]
  cases hentry : l.store.lookup key with
  | none => exact .ok rfl hm hlives
  | some e =>
    obtain ⟨hextend, hlives'⟩ := extendTtl_live up hlives hentry
    show SameEnd floor R Eq ((Soroban.extendTtl li key threshold extendTo >>= fun _ =>
      Pure.pure (some e.value)) env l) _
    rw [bind_of_ok hextend]
    exact .ok rfl ⟨hrenew _ _ e _ hentry hm.store, hm.events⟩ hlives'

/-! ## Contents

A contract whose storage has one place for each key, and so a value or none under it.
-/

/-- The entries of the storage without their lifetimes. -/
def Contents (view : T → (key : κ) → Option (V key)) (s : Persistent V) (t : T) : Prop :=
  ∀ key, (s.lookup key).map (·.value) = view t key

section Contents

variable {view : T → (key : κ) → Option (V key)} {s : Persistent V} {t t' : T} {key : κ}

/-- Writing an entry matches a change of the plain store at its key only. -/
theorem Contents.insert (h : Contents view s t) {value : V key} (hkey : view t' key = some value)
    (hother : ∀ key', key' ≠ key → view t' key' = view t key') (liveUntil : ℕ) :
    Contents view (s.insert key ⟨value, liveUntil⟩) t' := by
  intro key'
  by_cases heq : key' = key
  · subst heq
    rw [Finmap.lookup_insert, hkey, Option.map_some]
  · rw [Finmap.lookup_insert_of_ne _ heq, h key', hother key' heq]

/-- Removing an entry matches a change of the plain store at its key only. -/
theorem Contents.erase (h : Contents view s t) (hkey : view t' key = none)
    (hother : ∀ key', key' ≠ key → view t' key' = view t key') : Contents view (s.erase key) t' := by
  intro key'
  by_cases heq : key' = key
  · subst heq
    rw [Finmap.lookup_erase, hkey, Option.map_none]
  · rw [Finmap.lookup_erase_ne heq, h key', hother key' heq]

/-- Another lifetime for an entry. -/
theorem Contents.renew {e : EntryWithLiveUntil (V key)} (liveUntil : ℕ) (hentry : s.lookup key = some e)
    (h : Contents view s t) : Contents view (s.insert key ⟨e.value, liveUntil⟩) t :=
  h.insert ((h key).symm.trans (congrArg _ hentry)) (fun _ _ => rfl) liveUntil

/-- The keys with an entry are those with a value. -/
theorem Contents.isSome (h : Contents view s t) (key : κ) :
    (s.lookup key).isSome = (view t key).isSome := by
  rw [← h key, Option.isSome_map]

end Contents

/-! ## Both at once -/

section Simulates

/-- A removal simulates any change that keeps the relation. -/
theorem Simulates.remove (li : LedgerInfo) {key : κ} {f : T → T} (h : ∀ s t, R s t → R (s.erase key) (f t)) :
    Simulates R Eq (Soroban.remove li key) (save f) := by
  intro env l m hm a l' hx
  obtain ⟨-, hr⟩ := remove_eq_ok.mp hx
  obtain ⟨rfl, rfl⟩ := Prod.mk.inj hr
  exact ⟨(), _, rfl, rfl, h _ _ hm.store, hm.events⟩

variable (li) {key : κ} {f : T → Option (V key)}
  (h : ∀ s t, R s t → (s.lookup key).map (·.value) = f t)
  (hrenew : ∀ s t e liveUntil, s.lookup key = some e → R s t → R (s.insert key ⟨e.value, liveUntil⟩) t)

include h hrenew

/-- Reading an entry that must be there and renewing it simulates reading it. -/
theorem Simulates.expectRenewed :
    Simulates R Eq
      (do let v ← Soroban.expect (← Soroban.get li key) msg
          Soroban.extendTtl li key threshold extendTo
          return v)
      (do Soroban.expect (← load f) msg) := by
  refine .bind (.get li h) ?_
  rintro o _ rfl
  intro env l m hm v l' hx
  obtain ⟨_, _, hfound, hx⟩ := bind_eq_ok.mp hx
  obtain ⟨_, ho, hr⟩ := expect_eq_ok.mp hfound
  obtain ⟨rfl, rfl⟩ := Prod.mk.inj hr
  obtain ⟨_, hextend, rfl⟩ := bind_pure_eq_ok.mp hx
  obtain ⟨_, m', hskip, -, hm'⟩ := Simulates.extendTtl li hrenew env l m hm _ _ hextend
  obtain ⟨-, rfl⟩ := Prod.mk.inj (pure_eq_ok.mp hskip)
  exact ⟨_, m, expect_eq_ok.mpr ⟨_, ho, rfl⟩, rfl, hm'⟩

/-- Reading an entry and renewing it if it is there simulates reading it. -/
theorem Simulates.getRenewed :
    Simulates R Eq
      (do let v ← Soroban.get li key
          if v.isSome = true then Soroban.extendTtl li key threshold extendTo
          return v)
      (load f) := by
  intro env l m hm v l' hx
  obtain ⟨o, l₁, hget, hx⟩ := bind_eq_ok.mp hx
  obtain ⟨_, m₁, hload, rfl, hm₁⟩ := Simulates.get li h env l m hm _ _ hget
  refine ⟨o, m₁, hload, ?_⟩
  by_cases ho : o.isSome = true
  · rw [if_pos ho] at hx
    obtain ⟨_, hextend, rfl⟩ := bind_pure_eq_ok.mp hx
    obtain ⟨_, m', hskip, -, hm'⟩ := Simulates.extendTtl li hrenew env l₁ m₁ hm₁ _ _ hextend
    obtain ⟨-, rfl⟩ := Prod.mk.inj (pure_eq_ok.mp hskip)
    exact ⟨rfl, hm'⟩
  · rw [if_neg ho] at hx
    obtain ⟨rfl, rfl⟩ := Prod.mk.inj (pure_eq_ok.mp hx)
    exact ⟨rfl, hm₁⟩

end Simulates

/-- `x` does on the contents what `y` does: whenever it succeeds, and to the same end while its entries
live. -/
structure Mirrors (threshold extendTo : ℕ) (li : LedgerInfo) (R : Persistent V → T → Prop)
    (Q : α → β → Prop) (x : Contract (Persistent V) α) (y : Contract T β) : Prop where
  simulates : Simulates R Q x y
  agrees : ∀ floor, Uptime threshold extendTo floor li → Agrees floor R Q x y

namespace Mirrors

/-- Related values mirror each other. -/
theorem pure {a : α} {b : β} (h : Q a b) :
    Mirrors threshold extendTo li R Q (Pure.pure a) (Pure.pure b) :=
  ⟨.pure h, fun _ _ => .pure h⟩

/-- Sequences mirror each other if their parts do. -/
theorem bind {x : Contract (Persistent V) α} {y : Contract T β} {f : α → Contract (Persistent V) γ}
    {g : β → Contract T δ} (hx : Mirrors threshold extendTo li R Q x y)
    (hf : ∀ a b, Q a b → Mirrors threshold extendTo li R P (f a) (g b)) :
    Mirrors threshold extendTo li R P (x >>= f) (y >>= g) where
  simulates := hx.simulates.bind fun a b hab => (hf a b hab).simulates
  agrees floor up := (hx.agrees floor up).bind fun a b hab => (hf a b hab).agrees floor up

/-- The same result on both sides, and what follows it. -/
theorem andThen {x : Contract (Persistent V) α} {y : Contract T α} {f : α → Contract (Persistent V) γ}
    {g : α → Contract T δ} (hx : Mirrors threshold extendTo li R Eq x y)
    (hf : ∀ a, Mirrors threshold extendTo li R P (f a) (g a)) :
    Mirrors threshold extendTo li R P (x >>= f) (y >>= g) := by
  refine hx.bind ?_
  rintro a _ rfl
  exact hf a

/-- The result of a call, wrapped up. -/
theorem map (f : α → γ) {x : Contract (Persistent V) α} {y : Contract T α}
    (h : Mirrors threshold extendTo li R Eq x y) :
    Mirrors threshold extendTo li R Eq (do return f (← x)) (do return f (← y)) :=
  h.andThen fun _ => .pure rfl

theorem abort : Mirrors threshold extendTo li R Q (Soroban.abort msg) (Soroban.abort msg) :=
  ⟨.abort, fun _ _ => .abort⟩

/-- Checks of equivalent conditions mirror each other. -/
theorem require {p q : Prop} [Decidable p] [Decidable q] (h : p ↔ q) :
    Mirrors threshold extendTo li R Eq (Soroban.require p msg) (Soroban.require q msg) :=
  ⟨.require h.mp, fun _ _ => .require h⟩

theorem expect (o : Option α) :
    Mirrors threshold extendTo li R Eq (Soroban.expect o msg) (Soroban.expect o msg) :=
  ⟨.expect fun a ha => ⟨a, ha, rfl⟩, fun _ _ => .expect o⟩

theorem requireAuth (who : Address) :
    Mirrors threshold extendTo li R Eq (Soroban.requireAuth who) (Soroban.requireAuth who) :=
  ⟨.requireAuth who, fun _ _ => .requireAuth who⟩

theorem timestamp : Mirrors threshold extendTo li R Eq Soroban.timestamp Soroban.timestamp :=
  ⟨.timestamp, fun _ _ => .timestamp⟩

theorem u32 (n : ℕ) : Mirrors threshold extendTo li R Eq (Soroban.u32 n) (Soroban.u32 n) :=
  ⟨.u32 n, fun _ _ => .u32 n⟩

theorem publish (topics : List ScVal) (data : EventData) :
    Mirrors threshold extendTo li R Eq (Soroban.publish topics data) (Soroban.publish topics data) :=
  ⟨.publish topics data, fun _ _ => .publish topics data⟩

/-- A first step that only the first contract makes. -/
theorem skip {x : Contract (Persistent V) Unit} {f : Unit → Contract (Persistent V) γ} {y : Contract T δ}
    (hx : Mirrors threshold extendTo li R (fun _ _ => True) x (Pure.pure () : Contract T Unit))
    (hf : Mirrors threshold extendTo li R P (f ()) y) :
    Mirrors threshold extendTo li R P (x >>= f) y :=
  hx.bind fun _ _ _ => hf

section Storage

variable (view : T → (key : κ) → Option (V key)) (key : κ)

/-- Reads read the contents. -/
theorem get : Mirrors threshold extendTo li (Contents view) Eq (Soroban.get li key)
    (load fun t => view t key) :=
  ⟨.get li fun _ _ h => h key, fun _ up => .get up.live fun _ _ h => h key⟩

variable {view key}

/-- A write with its renewal mirrors a write of the contents. -/
theorem write {value : V key} {f : T → T} (hkey : ∀ t, view (f t) key = some value)
    (hother : ∀ t key', key' ≠ key → view (f t) key' = view t key') :
    Mirrors threshold extendTo li (Contents view) Eq
      (do put li key value; Soroban.extendTtl li key threshold extendTo) (save f) := by
  have h : ∀ s t liveUntil, Contents view s t →
      Contents view (s.insert key ⟨value, liveUntil⟩) (f t) :=
    fun _ t n hst => hst.insert (hkey t) (hother t) n
  exact ⟨.skipLast (.put li h) fun _ => .extendTtl li fun _ _ _ n he hst => hst.renew n he,
    fun _ up => .write up h⟩

/-- A removal mirrors a removal from the contents. -/
theorem remove {f : T → T} (hkey : ∀ t, view (f t) key = none)
    (hother : ∀ t key', key' ≠ key → view (f t) key' = view t key') :
    Mirrors threshold extendTo li (Contents view) Eq (Soroban.remove li key) (save f) :=
  ⟨.remove li fun _ t hst => hst.erase (hkey t) (hother t),
    fun _ up => .remove up.live fun _ t hst => hst.erase (hkey t) (hother t)⟩

variable (view key)

/-- Reading an entry that must be there and renewing it mirrors reading the contents. -/
theorem expectRenewed : Mirrors threshold extendTo li (Contents view) Eq
    (do let v ← Soroban.expect (← Soroban.get li key) msg
        Soroban.extendTtl li key threshold extendTo
        return v)
    (do Soroban.expect (← load fun t => view t key) msg) :=
  ⟨.expectRenewed li (fun _ _ h => h key) fun _ _ _ n he hst => hst.renew n he,
    fun _ up => .expectRenewed up (fun _ _ h => h key) fun _ _ _ n he hst => hst.renew n he⟩

/-- Reading an entry and renewing it if it is there mirrors reading the contents. -/
theorem getRenewed : Mirrors threshold extendTo li (Contents view) Eq
    (do let v ← Soroban.get li key
        if v.isSome = true then Soroban.extendTtl li key threshold extendTo
        return v)
    (load fun t => view t key) :=
  ⟨.getRenewed li (fun _ _ h => h key) fun _ _ _ n he hst => hst.renew n he,
    fun _ up => .getRenewed up (fun _ _ h => h key) fun _ _ _ n he hst => hst.renew n he⟩

variable {view key}

/-- An `extend_ttl` of an entry that is always there. -/
theorem extendTtl (hthere : ∀ t, (view t key).isSome = true) :
    Mirrors threshold extendTo li (Contents view) (fun _ _ => True)
      (Soroban.extendTtl li key threshold extendTo) (Pure.pure () : Contract T Unit) :=
  ⟨.extendTtl li fun _ _ _ n he hst => hst.renew n he,
    fun _ up => .extendTtl up (fun _ t hst => (hst.isSome key).trans (hthere t))
      fun _ _ _ n he hst => hst.renew n he⟩

/-- An access to an entry that is always there. -/
theorem access (hthere : ∀ t, (view t key).isSome = true) :
    Mirrors threshold extendTo li (Contents view) (fun _ _ => True)
      (do let _ ← Soroban.expect (← Soroban.get li key) msg)
      (Pure.pure () : Contract T Unit) := by
  constructor
  · intro env l m hm a l' hx
    simp only [bind_eq_ok, get_eq_ok, expect_eq_ok, pure_eq_ok] at hx
    obtain ⟨_, _, ⟨-, hget⟩, _, _, ⟨_, -, hfound⟩, hret⟩ := hx
    cases hget
    cases hfound
    obtain ⟨-, rfl⟩ := Prod.mk.inj hret
    exact ⟨(), m, rfl, trivial, hm⟩
  · intro floor up
    refine .of_ok fun env l m hm hlives => ?_
    obtain ⟨e, hentry⟩ := Option.isSome_iff_exists.mp ((hm.store.isSome key).trans (hthere _))
    have hget : Soroban.get li key env l = .ok (some e.value, l) := by
      rw [get_eq_ok, hentry]
      exact ⟨hlives.accessible up.live key, rfl⟩
    exact ⟨(), l, (), m, bind_of_ok hget, rfl, trivial, hm, hlives⟩

end Storage

end Mirrors

/-! ## Runs -/

variable {ι ι' ο : Type} (exec : ι → Contract (Persistent V) ο) (exec' : ι' → Contract T ο) (plain : ι → ι')

/-- A run on entries that live throughout is the run on the contents, call by call. -/
theorem agrees_run {calls : List (Invocation ι)}
    (h : ∀ i ∈ calls, Agrees floor R Eq (exec i.entry) (exec' (plain i.entry)))
    {l : Ledger (Persistent V)} {m : Ledger T} (hm : Matches R l m) (hlives : LivesUntil floor l.store) :
    (machine exec).answers l calls = (machine exec').answers m (calls.map (Invocation.map plain)) ∧
      Matches R ((machine exec).run l calls)
        ((machine exec').run m (calls.map (Invocation.map plain))) ∧
      LivesUntil floor ((machine exec).run l calls).store := by
  induction calls generalizing l m with
  | nil => exact ⟨rfl, hm, hlives⟩
  | cons i calls ih =>
    have hend := h i List.mem_cons_self i.env l m hm hlives
    have hrest := fun j hj => h j (List.mem_cons_of_mem i hj)
    generalize hu : exec i.entry i.env l = u at hend
    generalize hv : exec' (plain i.entry) i.env m = v at hend
    have hx : (machine exec).exec i l = u := hu
    have hy : (machine exec').exec (i.map plain) m = v := hv
    rw [List.map_cons, Transactional.run_cons, Transactional.run_cons, Transactional.answers,
      Transactional.answers]
    cases hend with
    | ok hab hm' hlives' =>
      subst hab
      rw [Transactional.next_of_ok hx, Transactional.next_of_ok hy, hx, hy]
      obtain ⟨hanswers, hrun⟩ := ih hrest hm' hlives'
      exact ⟨congrArg _ hanswers, hrun⟩
    | error p =>
      rw [Transactional.next_of_error hx, Transactional.next_of_error hy, hx, hy]
      obtain ⟨hanswers, hrun⟩ := ih hrest hm hlives
      exact ⟨congrArg _ hanswers, hrun⟩

end LineProof.Soroban
