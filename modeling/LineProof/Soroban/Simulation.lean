import LineProof.Soroban.Contract

/-!
# Simulation between contracts

A contract simulates another on a different storage: where storages are related and a call of the first
succeeds, the same call of the second succeeds, and the storages are related again. One rule for each
operation, and `simulates_run` for whole runs.
-/

namespace LineProof.Soroban

variable {S T α β γ δ : Type} {R : S → T → Prop} {Q : α → β → Prop} {P : γ → δ → Prop} {msg : String}

/-- Related storages and the same events. -/
structure Matches (R : S → T → Prop) (l : Ledger S) (m : Ledger T) : Prop where
  store : R l.store m.store
  events : l.events = m.events

/-- Whenever `x` succeeds, so does `y`, with results in the relation `Q`. -/
def Simulates (R : S → T → Prop) (Q : α → β → Prop) (x : Contract S α) (y : Contract T β) : Prop :=
  ∀ env l m, Matches R l m → ∀ a l', x env l = .ok (a, l') →
    ∃ b m', y env m = .ok (b, m') ∧ Q a b ∧ Matches R l' m'

/-- Related values simulate each other. -/
theorem Simulates.pure {a : α} {b : β} (h : Q a b) :
    Simulates R Q (Pure.pure a) (Pure.pure b) := by
  intro env l m hm a' l' hx
  obtain ⟨rfl, rfl⟩ := Prod.mk.inj (pure_eq_ok.mp hx)
  exact ⟨b, m, rfl, h, hm⟩

/-- Sequences simulate each other if their parts do. -/
theorem Simulates.bind {x : Contract S α} {y : Contract T β} {f : α → Contract S γ}
    {g : β → Contract T δ} (hx : Simulates R Q x y) (hf : ∀ a b, Q a b → Simulates R P (f a) (g b)) :
    Simulates R P (x >>= f) (y >>= g) := by
  intro env l m hm c l'' hbind
  obtain ⟨a, l', ha, hc⟩ := bind_eq_ok.mp hbind
  obtain ⟨b, m', hb, hab, hm'⟩ := hx env l m hm a l' ha
  obtain ⟨d, m'', hd, hcd, hm''⟩ := hf a b hab env l' m' hm' c l'' hc
  exact ⟨d, m'', bind_eq_ok.mpr ⟨b, m', hb, hd⟩, hcd, hm''⟩

/-- A last step that only the first contract makes. -/
theorem Simulates.skipLast {Q : α → Unit → Prop} {x : Contract S α} {y : Contract T Unit}
    {f : α → Contract S Unit} (hx : Simulates R Q x y)
    (hf : ∀ a, Simulates R (fun _ _ => True) (f a) (Pure.pure () : Contract T Unit)) :
    Simulates R Eq (x >>= f) y := by
  intro env l m hm _ l'' hbind
  obtain ⟨a, l', ha, hc⟩ := bind_eq_ok.mp hbind
  obtain ⟨_, m', hb, -, hm'⟩ := hx env l m hm a l' ha
  obtain ⟨_, m'', hd, -, hm''⟩ := hf a env l' m' hm' _ l'' hc
  obtain ⟨-, rfl⟩ := Prod.mk.inj (pure_eq_ok.mp hd)
  exact ⟨(), m', hb, rfl, hm''⟩

/-- Steps that read the environment, and fail or not by what they read. -/
theorem Simulates.of_reads {x : Contract S α} {y : Contract T α} {p : Env → Prop} {v : Env → α}
    (hx : ∀ env l r, x env l = .ok r → p env ∧ (v env, l) = r)
    (hy : ∀ env m, p env → y env m = .ok (v env, m)) : Simulates R Eq x y := by
  intro env l m hm a l' hok
  obtain ⟨hp, hr⟩ := hx env l _ hok
  obtain ⟨rfl, rfl⟩ := Prod.mk.inj hr
  exact ⟨_, m, hy env m hp, rfl, hm⟩

/-- A check simulates one that passes whenever it does. -/
theorem Simulates.require {p q : Prop} [Decidable p] [Decidable q] {msg' : String} (h : p → q) :
    Simulates R Eq (require p msg) (require q msg') :=
  .of_reads (fun _ _ _ => require_eq_ok.mp) fun _ _ hp => require_eq_ok.mpr ⟨h hp, rfl⟩

/-- `expect` simulates another if a value here means a related one there. -/
theorem Simulates.expect {o : Option α} {o' : Option β} (h : ∀ a ∈ o, ∃ b ∈ o', Q a b) :
    Simulates R Q (expect o msg) (expect o' msg) := by
  intro env l m hm a l' hx
  obtain ⟨_, ho, hr⟩ := expect_eq_ok.mp hx
  obtain ⟨rfl, rfl⟩ := Prod.mk.inj hr
  obtain ⟨b, ho', hab⟩ := h _ ho
  exact ⟨b, m, expect_eq_ok.mpr ⟨b, ho', rfl⟩, hab, hm⟩

theorem Simulates.requireAuth (who : Address) : Simulates R Eq (requireAuth who) (requireAuth who) :=
  .of_reads (fun _ _ _ => requireAuth_eq_ok.mp) fun _ _ hauth => requireAuth_eq_ok.mpr ⟨hauth, rfl⟩

theorem Simulates.timestamp : Simulates R Eq timestamp timestamp :=
  .of_reads (fun _ _ _ h => ⟨trivial, timestamp_eq_ok.mp h⟩) fun _ _ _ => rfl

theorem Simulates.currentContractAddress :
    Simulates R Eq currentContractAddress currentContractAddress :=
  .of_reads (fun _ _ _ h => ⟨trivial, currentContractAddress_eq_ok.mp h⟩) fun _ _ _ => rfl

/-- What never goes through simulates anything of its kind. -/
theorem Simulates.abort : Simulates R Q (abort msg) (abort msg) := by
  intro env l m hm a l' hx
  exact absurd hx abort_eq_ok.mp

theorem Simulates.u32 (n : ℕ) : Simulates R Eq (u32 n) (u32 n) :=
  .of_reads (fun _ _ _ => u32_eq_ok.mp) fun _ _ hn => u32_eq_ok.mpr ⟨hn, rfl⟩

theorem Simulates.u64 (n : ℕ) : Simulates R Eq (u64 n) (u64 n) :=
  .of_reads (fun _ _ _ => u64_eq_ok.mp) fun _ _ hn => u64_eq_ok.mpr ⟨hn, rfl⟩

theorem Simulates.i128 (z : ℤ) : Simulates R Eq (i128 z) (i128 z) :=
  .of_reads (fun _ _ _ => i128_eq_ok.mp) fun _ _ hz => i128_eq_ok.mpr ⟨hz, rfl⟩

theorem Simulates.publish (topics : List ScVal) (data : EventData) :
    Simulates R Eq (publish topics data) (publish topics data) := by
  intro env l m hm a l' hx
  obtain ⟨rfl, rfl⟩ := Prod.mk.inj (publish_eq_ok.mp hx)
  refine ⟨(), _, rfl, rfl, hm.store, ?_⟩
  rw [hm.events]

/-! ## Runs -/

variable {ι κ ο : Type} {exec : ι → Contract S ο} {exec' : κ → Contract T ο} {plain : ι → κ}

/-- The same call of another entrypoint. -/
def Invocation.map (f : ι → κ) (i : Invocation ι) : Invocation κ := ⟨i.env, f i.entry⟩

/-- A run of the first contract leaves what some of its calls leave in the second. -/
theorem simulates_run (h : ∀ entry, Simulates R Eq (exec entry) (exec' (plain entry)))
    (calls : List (Invocation ι)) {l : Ledger S} {m : Ledger T} (hm : Matches R l m) :
    ∃ calls', calls'.Sublist (calls.map (Invocation.map plain)) ∧
      Matches R ((machine exec).run l calls) ((machine exec').run m calls') := by
  induction calls generalizing l m with
  | nil => exact ⟨[], List.Sublist.refl _, hm⟩
  | cons call calls ih =>
    cases hcall : (machine exec).exec call l with
    | error p =>
      obtain ⟨calls', hsub, hrun⟩ := ih hm
      refine ⟨calls', hsub.cons _, ?_⟩
      rwa [Transactional.run_cons, Transactional.next_of_error hcall]
    | ok res =>
      obtain ⟨o, m', hexec, rfl, hm'⟩ := h call.entry call.env l m hm res.1 res.2 hcall
      have hnext : (machine exec').next m (call.map plain) = m' := Transactional.next_of_ok hexec
      obtain ⟨calls', hsub, hrun⟩ := ih hm'
      refine ⟨call.map plain :: calls', hsub.cons_cons _, ?_⟩
      rwa [Transactional.run_cons, Transactional.run_cons, Transactional.next_of_ok hcall, hnext]

/-- The calls of the first contract that go through leave in the second what the run leaves, and return
there what they return. -/
theorem simulates_history (h : ∀ entry, Simulates R Eq (exec entry) (exec' (plain entry)))
    (calls : List (Invocation ι)) {l : Ledger S} {m : Ledger T} (hm : Matches R l m) :
    (machine exec').answers m (((machine exec).history l calls).map fun c => c.call.map plain) =
      ((machine exec).history l calls).map (fun c => .ok c.out) ∧
    Matches R ((machine exec).run l calls)
      ((machine exec').run m (((machine exec).history l calls).map fun c => c.call.map plain)) := by
  induction calls generalizing l m with
  | nil => exact ⟨rfl, hm⟩
  | cons call calls ih =>
    rw [Transactional.history_cons, Transactional.run_cons]
    rcases (machine exec).commit?_cases l call with ⟨c, rfl, rfl, hpost, hc⟩ | ⟨-, hpost, hc⟩
    · obtain ⟨o, m', hexec, ho, hm'⟩ := h c.call.entry c.call.env c.pre m hm c.out c.post c.ok
      subst ho
      have hplain : (machine exec').exec (c.call.map plain) m = .ok (c.out, m') := hexec
      obtain ⟨hanswers, hrun⟩ := ih hm'
      rw [hc, hpost, Option.toList_some, List.singleton_append, List.map_cons, List.map_cons,
        Transactional.answers, Transactional.run_cons, Transactional.next_of_ok hplain, hplain]
      exact ⟨congrArg _ hanswers, hrun⟩
    · rw [hc, hpost, Option.toList_none, List.nil_append]
      exact ih hm

end LineProof.Soroban
