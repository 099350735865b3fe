import Mathlib.Tactic.NormNum
import LineProof.Sdk.Calls

/-!
# The calls of the SDK against the signatures of the contracts

Seven of the nine write methods were written against other signatures than the contracts have, and no
operation they build can be decoded. `advance` and `close` agree with the queue contract on every input.
-/

namespace LineProof.Sdk

open Soroban

/-! ## Checks and encoders that succeed -/

@[simp] theorem bind_eq_ok {ε α β : Type} {x : Except ε α} {f : α → Except ε β} {b : β} :
    x >>= f = .ok b ↔ ∃ a, x = .ok a ∧ f a = .ok b := by
  cases x with
  | error e => simp [bind, Except.bind]
  | ok a => simp [bind, Except.bind]

@[simp] theorem pure_eq_ok {ε α : Type} {a b : α} : (pure a : Except ε α) = .ok b ↔ a = b := by
  show Except.ok a = Except.ok b ↔ a = b
  rw [Except.ok.injEq]

@[simp] theorem map_eq_ok {ε α β : Type} {x : Except ε α} {f : α → β} {b : β} :
    f <$> x = .ok b ↔ ∃ a, x = .ok a ∧ f a = b := by
  cases x with
  | error e => simp [Functor.map, Except.map]
  | ok a => simp [Functor.map, Except.map]

variable {K : StrKey}

@[simp] theorem validateContractId_eq_ok {contractId : String} {u : Unit} :
    validateContractId K contractId = .ok u ↔ K.isValidContract contractId = true := by
  unfold validateContractId
  split <;> simp [*]

@[simp] theorem assertValidAddress_eq_ok {address fieldName : String} {u : Unit} :
    assertValidAddress K address fieldName = .ok u ↔ K.isValidEd25519PublicKey address = true := by
  unfold assertValidAddress
  split <;> simp [*]

@[simp] theorem encodeScAddress_eq_ok {address : String} {v : EventData} :
    encodeScAddress K address = .ok v ↔
      K.isValidEd25519PublicKey address = true ∧ .val (.address ⟨address⟩) = v := by
  simp [encodeScAddress]

@[simp] theorem encodeScSymbol_eq_ok {symbol : String} {v : EventData} :
    encodeScSymbol symbol = .ok v ↔ symbol ≠ "" ∧ .val (.symbol ⟨symbol⟩) = v := by
  unfold encodeScSymbol
  split <;> simp [*]

@[simp] theorem encodeScU64_eq_ok {value : ℤ} {v : EventData} :
    encodeScU64 value = .ok v ↔ (0 ≤ value ∧ value ≤ u64Max) ∧ .val (.u64 value.toNat) = v := by
  have hmax : (u64Max : ℤ) = 18446744073709551615 := by decide
  unfold encodeScU64
  split
  · case _ h =>
    have hout : ¬ (0 ≤ value ∧ value ≤ u64Max) := by omega
    simp [hout]
  · case _ h =>
    have hin : 0 ≤ value ∧ value ≤ u64Max := by omega
    simp [hin]

/-- A number is a `u32` if it is a natural number that fits. -/
@[simp] theorem encodeScU32_eq_ok {value : JsNumber} {v : EventData} :
    encodeScU32 value = .ok v ↔ ∃ n ≤ u32Max, value = .ofNat n ∧ .val (.u32 n) = v := by
  have hmax : (u32Max : ℚ) = 4294967295 := by norm_num [u32Max]
  constructor
  · intro h
    cases value with
    | infinite negative => simp [encodeScU32] at h
    | nan => simp [encodeScU32] at h
    | finite q =>
      simp only [encodeScU32] at h
      split at h
      · simp at h
      · case _ hq =>
        push Not at hq
        obtain ⟨hden, hpos, hle⟩ := hq
        have hnum : ((q.num.toNat : ℕ) : ℤ) = q.num := Int.toNat_of_nonneg (Rat.num_nonneg.mpr hpos)
        have hnat : q = (q.num.toNat : ℚ) := by
          calc q = (q.num : ℚ) := (Rat.coe_int_num_of_den_eq_one hden).symm
            _ = (((q.num.toNat : ℕ) : ℤ) : ℚ) := by rw [hnum]
            _ = (q.num.toNat : ℚ) := Int.cast_natCast _
        refine ⟨q.num.toNat, ?_, by rw [JsNumber.ofNat, ← hnat], Except.ok.inj h⟩
        rw [hnat, ← hmax] at hle
        exact_mod_cast hle
  · intro h
    obtain ⟨n, hn, rfl, rfl⟩ := h
    have hle : n ≤ 4294967295 := hn
    simp [JsNumber.ofNat, encodeScU32, hle]

/-! ## What each method builds -/

section Build

variable {client : ContractClient K} {queue : QueueClient K} {op : Operation}

/-- What a deposit that is built has checked, and the operation. -/
theorem deposit_eq_ok {escrowContractId caller queueId asset : String} {amount : ℤ} :
    deposit client escrowContractId caller queueId amount asset = .ok op ↔
      0 < amount ∧ K.isValidContract (client.targetId escrowContractId) = true ∧
      K.isValidEd25519PublicKey caller = true ∧ queueId ≠ "" ∧ amount ≤ u64Max ∧ asset ≠ "" ∧
      ⟨client.targetId escrowContractId, "deposit",
        [.val (.address ⟨caller⟩), .val (.symbol ⟨queueId⟩), .val (.u64 amount.toNat),
          .val (.symbol ⟨asset⟩)]⟩ = op := by
  unfold deposit
  split
  · case _ h =>
    have hnot : ¬ 0 < amount := by omega
    simp [hnot, throw, throwThe, MonadExceptOf.throw]
  · case _ h =>
    have hpos : 0 < amount := by omega
    simp [hpos, hpos.le]

/-- What a settlement that is built has checked, and the operation. -/
theorem settle_eq_ok {function escrowContractId identity queueId : String} :
    settle client function escrowContractId identity queueId = .ok op ↔
      K.isValidContract (client.targetId escrowContractId) = true ∧
      K.isValidEd25519PublicKey identity = true ∧ queueId ≠ "" ∧
      ⟨client.targetId escrowContractId, function,
        [.val (.address ⟨identity⟩), .val (.symbol ⟨queueId⟩)]⟩ = op := by
  simp [settle]

/-- What an expiry that is built has checked, and the operation. -/
theorem expire_eq_ok {escrowContractId identity : String} :
    expire client escrowContractId identity = .ok op ↔
      K.isValidContract (client.targetId escrowContractId) = true ∧
      ⟨client.targetId escrowContractId, "expire", [.val (.string identity)]⟩ = op := by
  simp [expire]

/-- What a call of the enrollment contract has checked, and the operation. -/
theorem callAsCaller_eq_ok {function queueId caller : String} :
    callAsCaller client function queueId caller = .ok op ↔
      K.isValidContract (client.targetId queueId) = true ∧
      K.isValidEd25519PublicKey caller = true ∧
      ⟨client.targetId queueId, function, [.val (.address ⟨caller⟩)]⟩ = op := by
  simp [callAsCaller]

/-- What a binding that is built has checked, and the operation. -/
theorem bindIdentity_eq_ok {queueId identity : String} :
    bindIdentity client queueId identity = .ok op ↔
      K.isValidContract (client.targetId queueId) = true ∧
      K.isValidEd25519PublicKey identity = true ∧ client.targetId queueId ≠ "" ∧
      ⟨client.targetId queueId, "bind",
        [.val (.address ⟨identity⟩), .val (.symbol ⟨client.targetId queueId⟩)]⟩ = op := by
  simp [bindIdentity]

/-- What an advance that is built has checked, and the operation. -/
theorem advance_eq_ok {admin : String} {batchSize : JsNumber} :
    advance queue admin batchSize = .ok op ↔
      K.isValidEd25519PublicKey admin = true ∧ ∃ n ≤ u32Max, batchSize = .ofNat n ∧
        ⟨queue.queueContractId, "advance", [.val (.address ⟨admin⟩), .val (.u32 n)]⟩ = op := by
  simp [advance, and_assoc]

/-- What a close that is built has checked, and the operation. -/
theorem close_eq_ok {admin : String} :
    close queue admin = .ok op ↔
      K.isValidEd25519PublicKey admin = true ∧
        ⟨queue.queueContractId, "close", [.val (.address ⟨admin⟩)]⟩ = op := by
  simp [close]

end Build

/-! ## What a contract makes of it -/

/-- A contract id is too long for a symbol. -/
theorem decodeSymbol_of_valid {id : String} (h : K.isValidContract id = true) :
    decodeSymbol (.val (.symbol ⟨id⟩)) = none := by
  have hlen : id.length = 56 := K.contract_length id h
  simp [decodeSymbol, isSymbol, hlen]

/-- No contract but the queue contract accepts what the SDK builds for it. -/
theorem not_decodes {call : WriteCall K} (hqueue : ¬ call.IsQueueCall) {op : Operation}
    (hop : call.build = .ok op) : ¬ call.Decodes op := by
  cases call with
  | deposit client escrowContractId caller queueId amount asset =>
    obtain ⟨-, -, -, -, -, -, rfl⟩ := deposit_eq_ok.mp hop
    -- the amount is a `u64`, and the asset a symbol
    simp [WriteCall.Decodes, decodeEscrow, decodeI128]
  | release client escrowContractId identity queueId =>
    obtain ⟨-, -, -, rfl⟩ := settle_eq_ok.mp hop
    simp [WriteCall.Decodes, decodeEscrow]
  | refund client escrowContractId identity queueId =>
    obtain ⟨-, -, -, rfl⟩ := settle_eq_ok.mp hop
    simp [WriteCall.Decodes, decodeEscrow]
  | expire client escrowContractId identity =>
    obtain ⟨-, rfl⟩ := expire_eq_ok.mp hop
    simp [WriteCall.Decodes, decodeEscrow]
  | enroll client queueId caller =>
    obtain ⟨-, -, rfl⟩ := callAsCaller_eq_ok.mp hop
    simp [WriteCall.Decodes, decodeEnrollment]
  | cancel client queueId caller =>
    obtain ⟨-, -, rfl⟩ := callAsCaller_eq_ok.mp hop
    simp [WriteCall.Decodes, decodeEnrollment]
  | bindIdentity client queueId identity =>
    obtain ⟨hid, -, -, rfl⟩ := bindIdentity_eq_ok.mp hop
    -- arity and types are right, but the queue is named by its contract id
    simp [WriteCall.Decodes, decodeIdentity, decodeSymbol_of_valid hid]
  | advance client admin batchSize => exact absurd trivial hqueue
  | close client admin => exact absurd trivial hqueue

/-- The queue contract reads what was asked. -/
theorem decodes {call : WriteCall K} (hqueue : call.IsQueueCall) {op : Operation}
    (hop : call.build = .ok op) : call.Decodes op := by
  cases call with
  | advance client admin batchSize =>
    obtain ⟨-, n, hn, hbatch, rfl⟩ := advance_eq_ok.mp hop
    refine ⟨n, hbatch, ?_⟩
    simp [decodeQueue, decodeAddress, decodeU32, hn]
  | close client admin =>
    obtain ⟨-, rfl⟩ := close_eq_ok.mp hop
    simp [WriteCall.Decodes, decodeQueue, decodeAddress]
  | _ => exact hqueue.elim

/-! ## Which calls are faithful -/

/-- A call that is built has well-formed arguments. -/
theorem WriteCall.wellFormed_of_build {call : WriteCall K} {op : Operation}
    (hop : call.build = .ok op) : call.WellFormed := by
  cases call with
  | deposit client escrowContractId caller queueId amount asset =>
    obtain ⟨hpos, hid, hcaller, hqueue, hle, hasset, -⟩ := deposit_eq_ok.mp hop
    have hmax : (u64Max : ℤ) ≤ i128Max := by decide
    exact ⟨⟨hpos, hle.trans hmax⟩, hid, hcaller, hqueue, hasset⟩
  | release client escrowContractId identity queueId =>
    obtain ⟨hid, hidentity, hqueue, -⟩ := settle_eq_ok.mp hop
    exact ⟨hid, hidentity, hqueue⟩
  | refund client escrowContractId identity queueId =>
    obtain ⟨hid, hidentity, hqueue, -⟩ := settle_eq_ok.mp hop
    exact ⟨hid, hidentity, hqueue⟩
  | expire client escrowContractId identity => exact (expire_eq_ok.mp hop).1
  | enroll client queueId caller =>
    obtain ⟨hid, hcaller, -⟩ := callAsCaller_eq_ok.mp hop
    exact ⟨hid, hcaller⟩
  | cancel client queueId caller =>
    obtain ⟨hid, hcaller, -⟩ := callAsCaller_eq_ok.mp hop
    exact ⟨hid, hcaller⟩
  | bindIdentity client queueId identity =>
    obtain ⟨hid, hidentity, -, -⟩ := bindIdentity_eq_ok.mp hop
    exact ⟨hid, hidentity⟩
  | advance client admin batchSize =>
    obtain ⟨hadmin, n, hn, hbatch, -⟩ := advance_eq_ok.mp hop
    exact ⟨hadmin, n, hn, hbatch⟩
  | close client admin => exact (close_eq_ok.mp hop).1

/-- Only a deposit can be refused for another reason: its amount goes through `encodeScU64`. -/
theorem WriteCall.build_of_wellFormed {call : WriteCall K} (h : call.WellFormed)
    (hdeposit : ¬ call.IsDeposit) : ∃ op, call.build = .ok op := by
  cases call with
  | deposit client escrowContractId caller queueId amount asset => exact absurd trivial hdeposit
  | release client escrowContractId identity queueId =>
    exact ⟨_, settle_eq_ok.mpr ⟨h.1, h.2.1, h.2.2, rfl⟩⟩
  | refund client escrowContractId identity queueId =>
    exact ⟨_, settle_eq_ok.mpr ⟨h.1, h.2.1, h.2.2, rfl⟩⟩
  | expire client escrowContractId identity => exact ⟨_, expire_eq_ok.mpr ⟨h, rfl⟩⟩
  | enroll client queueId caller => exact ⟨_, callAsCaller_eq_ok.mpr ⟨h.1, h.2, rfl⟩⟩
  | cancel client queueId caller => exact ⟨_, callAsCaller_eq_ok.mpr ⟨h.1, h.2, rfl⟩⟩
  | bindIdentity client queueId identity =>
    have hlen : (client.targetId queueId).length = 56 := K.contract_length _ h.1
    have hne : client.targetId queueId ≠ "" := by
      intro hempty
      rw [hempty] at hlen
      exact absurd hlen (by decide)
    exact ⟨_, bindIdentity_eq_ok.mpr ⟨h.1, h.2, hne, rfl⟩⟩
  | advance client admin batchSize =>
    obtain ⟨hadmin, n, hn, hbatch⟩ := h
    exact ⟨_, advance_eq_ok.mpr ⟨hadmin, n, hn, hbatch, rfl⟩⟩
  | close client admin => exact ⟨_, close_eq_ok.mpr ⟨h, rfl⟩⟩

/-- A call meets the signature of its contract if it is `advance` or `close`, or if its arguments are not
in order. -/
theorem faithful_iff (K : StrKey) (call : WriteCall K) :
    call.Faithful ↔ call.IsQueueCall ∨ ¬ call.WellFormed := by
  constructor
  · intro hfaithful
    obtain ⟨hdecodes, hdeposits⟩ := hfaithful
    by_contra hnot
    push Not at hnot
    obtain ⟨hqueue, hwell⟩ := hnot
    obtain ⟨op, hop⟩ : ∃ op, call.build = .ok op := by
      by_cases hdeposit : call.IsDeposit
      · exact hdeposits hdeposit hwell
      · exact call.build_of_wellFormed hwell hdeposit
    exact not_decodes hqueue hop (hdecodes op hop)
  · intro h
    rcases h with hqueue | hnot
    · refine ⟨fun op hop => decodes hqueue hop, fun hdeposit => ?_⟩
      cases call with
      | deposit => exact hqueue.elim
      | _ => exact hdeposit.elim
    · exact ⟨fun op hop => absurd (WriteCall.wellFormed_of_build hop) hnot,
        fun _ hwell => absurd hwell hnot⟩

/-- The strkey checks on an account and a contract. -/
def sampleStrKey : StrKey where
  isValidEd25519PublicKey s := s = "GAAAAAAAAAAAAAAAAAAAAAAAAAAAAAAAAAAAAAAAAAAAAAAAAAAAAWHF"
  isValidContract s := s = "CAAAAAAAAAAAAAAAAAAAAAAAAAAAAAAAAAAAAAAAAAAAAAAAAAAABSC4"
  contract_length s h := by
    rw [of_decide_eq_true h]
    rfl

/-- A deposit of one unit is accepted, and the escrow contract cannot read it. -/
theorem deposit_unreadable : ¬ ∀ (K : StrKey) (call : WriteCall K), call.Faithful := by
  intro h
  let client : ContractClient sampleStrKey := ⟨none, fun _ hid => by simp at hid⟩
  have hfaithful := h sampleStrKey (.deposit client
    "CAAAAAAAAAAAAAAAAAAAAAAAAAAAAAAAAAAAAAAAAAAAAAAAAAAABSC4"
    "GAAAAAAAAAAAAAAAAAAAAAAAAAAAAAAAAAAAAAAAAAAAAAAAAAAAAWHF" "clinic" 1 "USDC")
  have hdecodes := hfaithful.1 _ rfl
  simp [WriteCall.Decodes, decodeEscrow, decodeI128] at hdecodes

end LineProof.Sdk
