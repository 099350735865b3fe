import LineProof.Escrow.Conservation

/-!
# Authority over the funds and the policy of a queue

`release`, `refund` and `set_config` check that their `admin` argument signed the call, but not that it
is the administrator of the stored configuration. Anybody can therefore end anybody's deposit
(`foreign_release_accepted`). `ForeignDisposal` names the calls that do, and a run without them is the
one the configuration promises: `escrowAuthority_iff`.
-/

namespace LineProof.Escrow

open Soroban

/-- The `admin` argument of the calls that dispose of a queue, and that queue. -/
def Entrypoint.disposal : Entrypoint → Option (Address × Symbol)
  | .release admin _ queueId => some (admin, queueId)
  | .refund admin _ queueId => some (admin, queueId)
  | .setConfig admin config => some (admin, config.queueId)
  | _ => none

/-- From `s` to `t`, no record of `q` was released or refunded, and its configuration is the same. -/
structure Untouched (s t : Store) (q : Symbol) : Prop where
  config : t.configs.lookup q = s.configs.lookup q
  records : ∀ u record, t.records.lookup (q, u) = some record →
    record.status = .released ∨ record.status = .refunded →
    s.records.lookup (q, u) = some record

/-- Whoever disposes of a configured queue has the signature of its stored administrator. -/
def DisposalsAuthorized (calls : List (Invocation Entrypoint)) : Prop :=
  ∀ c ∈ escrow.history fresh calls, ∀ admin q config,
    c.call.entry.disposal = some (admin, q) → c.pre.store.configs.lookup q = some config →
    config.admin ∈ c.call.env.authorizers

/-- The administrator of a configured queue decides over its deposits and its configuration. -/
structure EscrowAuthority (calls : List (Invocation Entrypoint)) : Prop where
  authorized : DisposalsAuthorized calls
  /-- While the administrator signs nothing, the queue is left alone. -/
  silent : ∀ before after, calls = before ++ after → ∀ q config,
    (escrow.run fresh before).store.configs.lookup q = some config →
    (∀ i ∈ after, config.admin ∉ i.env.authorizers) →
    Untouched (escrow.run fresh before).store (escrow.run fresh calls).store q

/-- What `release` and `refund` find in storage, or what `set_config` is given, is in order. -/
def Disposable (s : Store) : Entrypoint → Prop
  | .release _ u q | .refund _ u q =>
    ∃ record, s.records.lookup (q, u) = some record ∧ record.status = .active
  | .setConfig _ config => ValidConfig config
  | _ => False

/-- The call disposes of a configured queue on the signature of its own `admin` argument, while the
stored administrator did not sign. -/
structure ForeignDisposal (l : Ledger Store) (i : Invocation Entrypoint) : Prop where
  disposable : Disposable l.store i.entry
  foreign : ∃ admin q config, i.entry.disposal = some (admin, q) ∧
    l.store.configs.lookup q = some config ∧ admin ∈ i.env.authorizers ∧
    config.admin ∉ i.env.authorizers

variable {s s' : Store} {env : Env} {e : Entrypoint} {o : Output} {published : List Event}
  {l : Ledger Store} {q : Symbol} {admin : Address}

/-! ## One call -/

/-- A successful disposal found things in order, and its `admin` argument signed. -/
theorem Effect.disposable (eff : Effect env s e o s' published)
    (h : e.disposal = some (admin, q)) : Disposable s e ∧ admin ∈ env.authorizers := by
  cases eff with
  | read reader => cases e <;> first | exact reader.elim | contradiction
  | deposit => contradiction
  | setConfig auth valid =>
    obtain ⟨rfl, -⟩ := Prod.mk.inj (Option.some.inj h)
    exact ⟨valid, auth⟩
  | @settle _ _ _ record _ _ settlement stored active =>
    cases settlement with
    | release auth =>
      obtain ⟨rfl, -⟩ := Prod.mk.inj (Option.some.inj h)
      exact ⟨⟨record, stored, active⟩, auth⟩
    | refund auth =>
      obtain ⟨rfl, -⟩ := Prod.mk.inj (Option.some.inj h)
      exact ⟨⟨record, stored, active⟩, auth⟩
    | expire => contradiction

/-- A disposal in order goes through when its `admin` argument signs it, whoever that is. -/
theorem Balanced.disposal_succeeds (hbal : Balanced l.store) (h : e.disposal = some (admin, q))
    (auth : admin ∈ env.authorizers) (disposable : Disposable l.store e) :
    Succeeds (exec e) env l := by
  cases e with
  | release admin' u q' =>
    obtain ⟨rfl, -⟩ := Prod.mk.inj (Option.some.inj h)
    obtain ⟨record, stored, active⟩ := disposable
    obtain ⟨r, hsettle⟩ := hbal.settle_succeeds stored active .released "Released" env
    exact (succeeds_bind_pure _).mpr ⟨r, release_eq_ok.mpr ⟨auth, record, stored, hsettle⟩⟩
  | refund admin' u q' =>
    obtain ⟨rfl, -⟩ := Prod.mk.inj (Option.some.inj h)
    obtain ⟨record, stored, active⟩ := disposable
    obtain ⟨r, hsettle⟩ := hbal.settle_succeeds stored active .refunded "Refunded" env
    exact (succeeds_bind_pure _).mpr ⟨r, refund_eq_ok.mpr ⟨auth, record, stored, hsettle⟩⟩
  | setConfig admin' config =>
    obtain ⟨rfl, -⟩ := Prod.mk.inj (Option.some.inj h)
    exact (succeeds_bind_pure _).mpr ⟨_, setConfig_eq_ok.mpr ⟨auth, disposable, rfl⟩⟩
  | deposit | expire | getRecord | getConfig | getTotalHeld => contradiction

/-- A store leaves itself untouched. -/
theorem Untouched.refl (s : Store) (q : Symbol) : Untouched s s q := ⟨rfl, fun _ _ h _ => h⟩

/-- Two steps that leave a queue untouched leave it untouched together. -/
theorem Untouched.trans {t u : Store} (h₁ : Untouched s t q) (h₂ : Untouched t u q) :
    Untouched s u q := by
  refine ⟨h₂.config.trans h₁.config, fun a record h hst => ?_⟩
  exact h₁.records a record (h₂.records a record h hst) hst

/-- A call that does not dispose of `q` leaves it alone. -/
theorem Effect.untouched (eff : Effect env s e o s' published)
    (h : ∀ admin, e.disposal ≠ some (admin, q)) : Untouched s s' q := by
  constructor
  · cases eff with
    | @setConfig admin config =>
      have hne : q ≠ config.queueId := by
        rintro rfl
        exact h admin rfl
      exact Finmap.lookup_insert_of_ne _ hne
    | read | deposit | settle => rfl
  · intro u record hrecord hst
    have change := eff.recordChange q u
    rw [hrecord] at change
    generalize s.records.lookup (q, u) = old at change
    cases change with
    | keep => rfl
    | opened => rcases hst with hst | hst <;> contradiction
    | ended settlement =>
      cases settlement with
      | release => exact absurd rfl (h _)
      | refund => exact absurd rfl (h _)
      | expire => rcases hst with hst | hst <;> contradiction

/-! ## Every run -/

/-- While the administrator of `q` signs nothing, only calls that do not dispose of `q` go through. -/
theorem untouched_run {before : List (Invocation Entrypoint)} {config : EscrowConfig}
    (hconfig : (escrow.run fresh before).store.configs.lookup q = some config)
    (after : List (Invocation Entrypoint))
    (authorized : DisposalsAuthorized (before ++ after))
    (hsilent : ∀ i ∈ after, config.admin ∉ i.env.authorizers) :
    Untouched (escrow.run fresh before).store (escrow.run fresh (before ++ after)).store q := by
  induction after using List.reverseRecOn with
  | nil =>
    rw [List.append_nil]
    exact .refl _ q
  | append_singleton after i ih =>
    rw [← List.append_assoc] at authorized ⊢
    have hsofar := ih
      (fun c hc => authorized c (by rw [Transactional.history_append]; exact List.mem_append_left _ hc))
      (fun j hj => hsilent j (by simp [hj]))
    rw [Transactional.run_concat]
    rcases escrow.commit?_cases (escrow.run fresh (before ++ after)) i with
      ⟨c, hpre, rfl, hpost, -⟩ | ⟨-, hpost, -⟩
    · rw [hpost]
      -- the call went through; if it disposed of `q`, the silent administrator would have signed it
      have hmem := c.mem_history (before ++ after) hpre.symm []
      obtain ⟨_, -, eff⟩ := effect_of_exec c.ok
      rw [← hpre] at hsofar
      refine hsofar.trans (eff.untouched fun admin hdisposal => ?_)
      exact hsilent c.call (by simp)
        (authorized c hmem admin q config hdisposal (hsofar.config.trans hconfig))
    · rw [hpost]
      exact hsofar

/-- Without foreign disposals, every disposal is authorized. -/
theorem disposalsAuthorized_of_along {calls : List (Invocation Entrypoint)}
    (h : escrow.Along (fun l i => ¬ ForeignDisposal l i) fresh calls) :
    DisposalsAuthorized calls := by
  intro c hc admin q config hdisposal hconfig
  obtain ⟨before, after, rfl, hpre⟩ := Transactional.mem_history hc
  obtain ⟨_, -, eff⟩ := effect_of_exec c.ok
  obtain ⟨disposable, auth⟩ := eff.disposable hdisposal
  by_contra hforeign
  have hcall := Transactional.along_iff.mp h before c.call after rfl
  rw [hpre] at hcall
  exact hcall ⟨disposable, admin, q, config, hdisposal, hconfig, auth, hforeign⟩

/-- The authority of the stored administrators holds in exactly the runs without a foreign disposal. -/
theorem escrowAuthority_iff (calls : List (Invocation Entrypoint)) :
    EscrowAuthority calls ↔ escrow.Along (fun l i => ¬ ForeignDisposal l i) fresh calls := by
  constructor
  · intro h
    rw [Transactional.along_iff]
    rintro before i after rfl ⟨disposable, admin, q, config, hdisposal, hconfig, auth, hforeign⟩
    -- the contract accepts the foreign call
    obtain ⟨⟨o, l'⟩, hok⟩ := (balanced_run before).disposal_succeeds hdisposal auth disposable
    let c : escrow.Commit := ⟨escrow.run fresh before, i, o, l', hok⟩
    exact hforeign (h.authorized c (c.mem_history before rfl after) admin q config hdisposal hconfig)
  · intro h
    have authorized := disposalsAuthorized_of_along h
    refine ⟨authorized, ?_⟩
    rintro before after rfl q config hconfig hsilent
    exact untouched_run hconfig after authorized hsilent

/-- A stranger releases a deposit while the administrator of the queue signs nothing. -/
theorem foreign_release_accepted :
    ¬ ∀ calls : List (Invocation Entrypoint), EscrowAuthority calls := by
  intro h
  let admin : Address := ⟨"GADMIN"⟩
  let alice : Address := ⟨"GALICE"⟩
  let mallory : Address := ⟨"GMALLORY"⟩
  let contract : Address := ⟨"CESCROW"⟩
  let clinic : Symbol := ⟨"clinic"⟩
  let config : EscrowConfig := ⟨clinic, 1, 1000, 30, admin⟩
  let before : List (Invocation Entrypoint) :=
    [⟨⟨0, [admin], contract⟩, .setConfig admin config⟩,
      ⟨⟨1, [alice], contract⟩, .deposit alice clinic 100 ⟨"CASSET"⟩⟩]
  let after : List (Invocation Entrypoint) :=
    [⟨⟨2, [mallory], contract⟩, .release mallory alice clinic⟩]
  have hsilent : ∀ i ∈ after, config.admin ∉ i.env.authorizers := by
    simp [after, config, admin, mallory]
  have hconfig : (escrow.run fresh before).store.configs.lookup clinic = some config := by
    decide +kernel
  have huntouched := (h (before ++ after)).silent before after rfl clinic config hconfig hsilent
  have hrelease : (escrow.run fresh (before ++ after)).store.records.lookup (clinic, alice) =
      some ⟨clinic, alice, 100, ⟨"CASSET"⟩, .released, 1, 2592001, some 2⟩ := by
    decide +kernel
  have hrecord := huntouched.records alice _ hrelease (.inl rfl)
  exact absurd hrecord (by decide +kernel)

end LineProof.Escrow
