import Mathlib.Algebra.Order.Ring.Int
import LineProof.Lib.Transactional

/-!
# Contract calls on a Soroban host

What the host gives to the contracts of this workspace: addresses and symbols, the environment of an
invocation, published events, and a call monad whose panics roll the call back.

Numbers are unbounded here. A `u32`, `u64` or `i128` operation of the source goes through `u32`, `u64`
or `i128` below, which panics outside the width: the release profile sets `overflow-checks = true`.

`extend_ttl` renews the lifetime of an entry that the call has just read or written. It changes no
content, so it does not appear at this level. `Soroban/Lifetimes.lean` has the storage where it does.
-/

namespace LineProof.Soroban

/-- An account or contract address, by its strkey. -/
structure Address where
  strkey : String
deriving DecidableEq, Repr

/-- A host symbol. -/
structure Symbol where
  str : String
deriving DecidableEq, Repr

/-- An address is its text. -/
theorem Address.strkey_inj {a b : Address} (h : a.strkey = b.strkey) : a = b := by
  cases a
  cases b
  exact congrArg Address.mk h

/-- A symbol is its text. -/
theorem Symbol.str_inj {a b : Symbol} (h : a.str = b.str) : a = b := by
  cases a
  cases b
  exact congrArg Symbol.mk h

/-- `BytesN<32>`. -/
abbrev Bytes32 := Vector UInt8 32

/-- The host values that occur in event topics and event data. -/
inductive ScVal
  | symbol (s : Symbol)
  | string (s : String)
  | address (a : Address)
  | u32 (n : ℕ)
  | u64 (n : ℕ)
  | i128 (n : ℤ)
  | bytes (b : Bytes32)
deriving DecidableEq

/-- The data of an event: `()`, a single value or a tuple. -/
inductive EventData
  | void
  | val (v : ScVal)
  | tuple (vs : List ScVal)
deriving DecidableEq

/-- What a contract publishes. -/
structure Event where
  topics : List ScVal
  data : EventData
deriving DecidableEq

/-- The environment of one invocation: the ledger time, the addresses that authorized it, and the
address of the contract itself. -/
structure Env where
  timestamp : ℕ
  authorizers : List Address
  currentContract : Address
deriving DecidableEq

/-- Why a call trapped. -/
inductive Panic
  | message (msg : String)
  | unauthorized (who : Address)
  | overflow
deriving DecidableEq

/-- What a contract owns on the ledger: its storage, and the events it has published. -/
structure Ledger (S : Type) where
  store : S
  events : List Event

/-- A contract function. A panic drops the storage and the events of the call. -/
def Contract (S α : Type) : Type := Env → Ledger S → Except Panic (α × Ledger S)

variable {S α β : Type}

instance : Monad (Contract S) where
  pure a := fun _ l => .ok (a, l)
  bind x f := fun env l =>
    match x env l with
    | .ok r => f r.1 env r.2
    | .error p => .error p

/-- `panic!(msg)`. -/
def abort (msg : String) : Contract S α := fun _ _ => .error (.message msg)

/-- `if !p { panic!(msg) }`. -/
def require (p : Prop) [Decidable p] (msg : String) : Contract S Unit :=
  if p then pure () else abort msg

/-- `o.unwrap_or_else(|| panic!(msg))`. -/
def expect (o : Option α) (msg : String) : Contract S α :=
  match o with
  | some a => pure a
  | none => abort msg

/-- `a.require_auth()`. -/
def requireAuth (a : Address) : Contract S Unit := fun env l =>
  if a ∈ env.authorizers then .ok ((), l) else .error (.unauthorized a)

/-- `env.ledger().timestamp()`. -/
def timestamp : Contract S ℕ := fun env l => .ok (env.timestamp, l)

/-- `env.current_contract_address()`. -/
def currentContractAddress : Contract S Address := fun env l => .ok (env.currentContract, l)

/-- Read from persistent storage. -/
def load (f : S → α) : Contract S α := fun _ l => .ok (f l.store, l)

/-- Write to persistent storage. -/
def save (f : S → S) : Contract S Unit := fun _ l => .ok ((), { l with store := f l.store })

/-- `env.events().publish(topics, data)`. -/
def publish (topics : List ScVal) (data : EventData) : Contract S Unit := fun _ l =>
  .ok ((), { l with events := l.events ++ [⟨topics, data⟩] })

/-- `u32::MAX`. -/
def u32Max : ℕ := 2 ^ 32 - 1

/-- `u64::MAX`. -/
def u64Max : ℕ := 2 ^ 64 - 1

/-- The result of a `u32` operation. -/
def u32 (n : ℕ) : Contract S ℕ := fun _ l =>
  if n ≤ u32Max then .ok (n, l) else .error .overflow

/-- The result of a `u64` operation. -/
def u64 (n : ℕ) : Contract S ℕ := fun _ l =>
  if n ≤ u64Max then .ok (n, l) else .error .overflow

/-- `i128::MIN`. -/
def i128Min : ℤ := -2 ^ 127

/-- `i128::MAX`. -/
def i128Max : ℤ := 2 ^ 127 - 1

/-- The result of an `i128` operation. -/
def i128 (z : ℤ) : Contract S ℤ := fun _ l =>
  if i128Min ≤ z ∧ z ≤ i128Max then .ok (z, l) else .error .overflow

/-! ## When a call succeeds

One equivalence for each operation. Rewriting with them turns `f env l = .ok r` into the guards of `f`
together with the value of `r`.
-/

variable {env : Env} {l : Ledger S} {msg : String}

/-- A sequence goes through if both parts do, one after the other. -/
@[simp] theorem bind_eq_ok {x : Contract S α} {f : α → Contract S β} {r : β × Ledger S} :
    (x >>= f) env l = .ok r ↔ ∃ a l', x env l = .ok (a, l') ∧ f a env l' = .ok r := by
  show (match x env l with | .ok r => f r.1 env r.2 | .error p => .error p) = .ok r ↔ _
  cases x env l with
  | error p => simp
  | ok r => simp [Prod.ext_iff]

/-- A value is returned without any change. -/
@[simp] theorem pure_eq_ok {a : α} {r : α × Ledger S} :
    (pure a : Contract S α) env l = .ok r ↔ (a, l) = r := by
  show (Except.ok (a, l) : Except Panic _) = .ok r ↔ _
  rw [Except.ok.injEq]

/-- A call that ends by packing the result of another succeeds when that one does, and leaves what it
leaves. -/
theorem bind_pure_eq_ok {x : Contract S α} {f : α → β} {b : β} {l' : Ledger S} :
    (x >>= fun a => pure (f a)) env l = .ok (b, l') ↔ ∃ a, x env l = .ok (a, l') ∧ b = f a := by
  constructor
  · intro h
    obtain ⟨a, _, hx, hret⟩ := bind_eq_ok.mp h
    obtain ⟨rfl, rfl⟩ := Prod.mk.inj (pure_eq_ok.mp hret)
    exact ⟨a, hx, rfl⟩
  · intro h
    rcases h with ⟨a, hx, rfl⟩
    exact bind_eq_ok.mpr ⟨a, l', hx, rfl⟩

/-- An abort never goes through. -/
@[simp] theorem abort_eq_ok {r : α × Ledger S} : (abort msg : Contract S α) env l = .ok r ↔ False := by
  simp [abort]

/-- A check that passes changes nothing. -/
@[simp] theorem require_eq_ok {p : Prop} [Decidable p] {r : Unit × Ledger S} :
    require p msg env l = .ok r ↔ p ∧ ((), l) = r := by
  unfold require
  split
  · case _ h => simp [pure_eq_ok, h]
  · case _ h => simp [abort_eq_ok, h]

/-- `expect` returns the value that is there. -/
@[simp] theorem expect_eq_ok {o : Option α} {r : α × Ledger S} :
    expect o msg env l = .ok r ↔ ∃ a, o = some a ∧ (a, l) = r := by
  cases o with
  | none => simp [expect, abort_eq_ok]
  | some a => simp [expect, pure_eq_ok]

/-- An authorization is one of those the call came with. -/
@[simp] theorem requireAuth_eq_ok {a : Address} {r : Unit × Ledger S} :
    requireAuth a env l = .ok r ↔ a ∈ env.authorizers ∧ ((), l) = r := by
  unfold requireAuth
  split <;> simp [*]

@[simp] theorem timestamp_eq_ok {r : ℕ × Ledger S} :
    timestamp env l = .ok r ↔ (env.timestamp, l) = r := by
  simp [timestamp]

@[simp] theorem currentContractAddress_eq_ok {r : Address × Ledger S} :
    currentContractAddress env l = .ok r ↔ (env.currentContract, l) = r := by
  simp [currentContractAddress]

/-- A load reads the storage and leaves it. -/
@[simp] theorem load_eq_ok {f : S → α} {r : α × Ledger S} :
    load f env l = .ok r ↔ (f l.store, l) = r := by
  simp [load]

/-- A save changes the storage and publishes nothing. -/
@[simp] theorem save_eq_ok {f : S → S} {r : Unit × Ledger S} :
    save f env l = .ok r ↔ ((), { l with store := f l.store }) = r := by
  simp [save]

/-- An event is appended to those published before. -/
@[simp] theorem publish_eq_ok {topics : List ScVal} {data : EventData} {r : Unit × Ledger S} :
    publish topics data env l = .ok r ↔
      ((), { l with events := l.events ++ [⟨topics, data⟩] }) = r := by
  simp [publish]

/-- A number that fits 32 bits is kept. -/
@[simp] theorem u32_eq_ok {n : ℕ} {r : ℕ × Ledger S} :
    u32 n env l = .ok r ↔ n ≤ u32Max ∧ (n, l) = r := by
  unfold u32
  split <;> simp [*]

/-- A number that fits 64 bits is kept. -/
@[simp] theorem u64_eq_ok {n : ℕ} {r : ℕ × Ledger S} :
    u64 n env l = .ok r ↔ n ≤ u64Max ∧ (n, l) = r := by
  unfold u64
  split <;> simp [*]

/-- A number that fits the amount type is kept. -/
@[simp] theorem i128_eq_ok {z : ℤ} {r : ℤ × Ledger S} :
    i128 z env l = .ok r ↔ (i128Min ≤ z ∧ z ≤ i128Max) ∧ (z, l) = r := by
  unfold i128
  split <;> simp [*]

/-! ## When a call fails

The same for panics: which operation of `f` can be the one that traps, and with what.
-/

variable {p : Panic}

/-- A sequence panics with its first part, or with the second after it. -/
@[simp] theorem bind_eq_error {x : Contract S α} {f : α → Contract S β} :
    (x >>= f) env l = .error p ↔
      x env l = .error p ∨ ∃ a l', x env l = .ok (a, l') ∧ f a env l' = .error p := by
  show (match x env l with | .ok r => f r.1 env r.2 | .error p => .error p) = .error p ↔ _
  cases x env l with
  | error p => simp
  | ok r => simp [Prod.ext_iff]

@[simp] theorem abort_eq_error : (abort msg : Contract S α) env l = .error p ↔ .message msg = p := by
  simp [abort]

/-- A check panics with its message if it fails. -/
@[simp] theorem require_eq_error {q : Prop} [Decidable q] :
    (require q msg : Contract S Unit) env l = .error p ↔ ¬ q ∧ .message msg = p := by
  unfold require
  split
  · case _ h => simp [pure, h]
  · case _ h => simp [abort_eq_error, h]

/-- `expect` panics with its message if there is no value. -/
@[simp] theorem expect_eq_error {o : Option α} :
    (expect o msg : Contract S α) env l = .error p ↔ o = none ∧ .message msg = p := by
  cases o with
  | none => simp [expect, abort_eq_error]
  | some a => simp [expect, pure]

/-- A missing authorization panics with the address. -/
@[simp] theorem requireAuth_eq_error {a : Address} :
    (requireAuth a : Contract S Unit) env l = .error p ↔
      a ∉ env.authorizers ∧ .unauthorized a = p := by
  unfold requireAuth
  split <;> simp [*]

@[simp] theorem timestamp_eq_error : (timestamp : Contract S ℕ) env l = .error p ↔ False := by
  simp [timestamp]

@[simp] theorem load_eq_error {f : S → α} : load f env l = .error p ↔ False := by
  simp [load]

@[simp] theorem save_eq_error {f : S → S} : save f env l = .error p ↔ False := by
  simp [save]

@[simp] theorem publish_eq_error {topics : List ScVal} {data : EventData} :
    publish topics data env l = .error p ↔ False := by
  simp [publish]

/-- A number that does not fit overflows. -/
@[simp] theorem i128_eq_error {z : ℤ} :
    (i128 z : Contract S ℤ) env l = .error p ↔
      ¬ (i128Min ≤ z ∧ z ≤ i128Max) ∧ .overflow = p := by
  unfold i128
  split <;> simp [*]

/-! ## Invocations -/

/-- An entrypoint called in an environment. -/
structure Invocation (ι : Type) where
  env : Env
  entry : ι

/-- The machine of a contract: its entrypoints, run as transactions. -/
def machine {ι ο : Type} (exec : ι → Contract S ο) :
    Transactional (Ledger S) (Invocation ι) ο Panic where
  exec i l := exec i.entry i.env l

/-- The events a commit adds to the ledger. -/
def published {ι ο : Type} {M : Transactional (Ledger S) ι ο Panic} (c : M.Commit) : List Event :=
  c.post.events.drop c.pre.events.length

/-- The events of a commit are what it appended. -/
theorem published_of_append {ι ο : Type} {M : Transactional (Ledger S) ι ο Panic} {c : M.Commit}
    {events : List Event} (h : c.post.events = c.pre.events ++ events) : published c = events := by
  rw [published, h, List.drop_left]

/-- What holds of the events of every commit from an invariant state holds of all events of a run. -/
theorem events_run {ι ο : Type} {M : Transactional (Ledger S) ι ο Panic} {I : Ledger S → Prop}
    {P : Event → Prop} (inv : ∀ c : M.Commit, I c.pre → I c.post)
    (step : ∀ c : M.Commit, I c.pre →
      ∃ events, c.post.events = c.pre.events ++ events ∧ ∀ ev ∈ events, P ev)
    {l : Ledger S} (hI : I l) (h : ∀ ev ∈ l.events, P ev) (calls : List ι) :
    ∀ ev ∈ (M.run l calls).events, P ev := by
  have hrun := Transactional.run_invariant (M := M) (I := fun l => I l ∧ ∀ ev ∈ l.events, P ev)
    ?_ ⟨hI, h⟩ calls
  · exact hrun.2
  · intro c hc
    obtain ⟨events, hevents, hnew⟩ := step c hc.1
    refine ⟨inv c hc.1, fun ev hev => ?_⟩
    rw [hevents] at hev
    rcases List.mem_append.mp hev with hold | hlast
    · exact hc.2 ev hold
    · exact hnew ev hlast

/-- The call succeeds. -/
def Succeeds (x : Contract S α) (env : Env) (l : Ledger S) : Prop := ∃ r, x env l = .ok r

/-- What goes through does not panic. -/
theorem Succeeds.ne_error {x : Contract S α} (h : Succeeds x env l) (p : Panic) :
    x env l ≠ .error p := by
  obtain ⟨r, hr⟩ := h
  rw [hr]
  nofun

/-- Wrapping up the result of a call does not make it fail. -/
theorem succeeds_bind_pure {x : Contract S α} (f : α → β) :
    Succeeds (x >>= fun a => pure (f a)) env l ↔ Succeeds x env l := by
  constructor
  · intro h
    rcases h with ⟨⟨b, l'⟩, hr⟩
    obtain ⟨a, hx, -⟩ := bind_pure_eq_ok.mp hr
    exact ⟨(a, l'), hx⟩
  · intro h
    rcases h with ⟨⟨a, l'⟩, hx⟩
    exact ⟨(f a, l'), bind_pure_eq_ok.mpr ⟨a, hx, rfl⟩⟩

end LineProof.Soroban
