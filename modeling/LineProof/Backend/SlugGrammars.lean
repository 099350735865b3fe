import LineProof.Backend.QueueRoutes
import LineProof.Sdk.Signatures

/-!
# Slugs on chain

The SDK and the routes accept words between single hyphens, of at most 64 characters. The contracts take a
slug as a `Symbol`, which has no hyphens and at most 32 characters. So an accepted slug reaches a contract
exactly if it is one word of at most 32 characters (`slugRepresentable_iff`).
-/

namespace LineProof.Backend

open Sdk Soroban

/-- The SDK accepts the slug, or `CreateQueueSchema` does. -/
def Accepted (slug : String) : Prop := validateSlug slug = .ok () ∨ isCreateSlug slug = true

/-- Whatever the other arguments are, the contracts take `v` as the slug, or as the id of the queue. -/
structure Admitted (slug : String) (v : EventData) : Prop where
  deployQueue : ∀ deployer name version wasmHash, isSymbol name = true → version ≤ u32Max →
    decodeFactory "deploy_queue"
        [.val (.address deployer), v, .val (.symbol name), .val (.u32 version), .val (.bytes wasmHash)] =
      some (.deployQueue deployer ⟨slug⟩ name version wasmHash)
  registerQueue : ∀ admin contractId version, version ≤ u32Max →
    decodeFactory "register_queue"
        [.val (.address admin), v, .val (.address contractId), .val (.u32 version)] =
      some (.registerQueue admin ⟨slug⟩ contractId version)
  deposit : ∀ caller amount asset, i128Min ≤ amount ∧ amount ≤ i128Max →
    decodeEscrow "deposit" [.val (.address caller), v, .val (.i128 amount), .val (.address asset)] =
      some (.deposit caller ⟨slug⟩ amount asset)
  enroll : ∀ caller, decodeEnrollment "enroll" [.val (.address caller), v, .void] =
    some (.enroll caller ⟨slug⟩ none)

/-- If the slug is accepted, its symbol is admitted, and is the symbol of no other accepted slug. -/
structure SlugRepresentable (slug : String) : Prop where
  admitted : Accepted slug → ∃ v, encodeScSymbol slug = .ok v ∧ Admitted slug v
  distinct : Accepted slug → ∀ other, Accepted other →
    encodeScSymbol slug = encodeScSymbol other → slug = other

/-- One word of at most 32 characters. -/
def OneShortWord (slug : String) : Prop := '-' ∉ slug.toList ∧ slug.length ≤ 32

variable {slug : String} {v : EventData}

/-! ## What is accepted -/

/-- The SDK's check in one formula. -/
theorem validateSlug_eq_ok : validateSlug slug = .ok () ↔
    utf16Length slug ≠ 0 ∧ utf16Length slug ≤ 64 ∧ Sdk.slugPattern slug = true := by
  unfold validateSlug maxSlugLength
  split
  · simp [*]
  · split
    · case _ hlong =>
      have hnot : ¬ utf16Length slug ≤ 64 := by omega
      simp [hnot]
    · case _ hzero hlong =>
      have hle : utf16Length slug ≤ 64 := by omega
      split
      · case _ hno => simp [hno]
      · case _ hyes => simp [hzero, hle, not_not.mp hyes]

/-- The two schemas accept the same slugs. -/
theorem validateSlug_eq_ok_iff_isCreateSlug :
    validateSlug slug = .ok () ↔ isCreateSlug slug = true := by
  rw [validateSlug_eq_ok, isCreateSlug, decide_eq_true_iff, Nat.one_le_iff_ne_zero]
  rfl

/-- Either guard accepts by the same length and grammar. -/
theorem accepted_iff : Accepted slug ↔
    utf16Length slug ≠ 0 ∧ utf16Length slug ≤ 64 ∧ isHyphenated slug.toList = true := by
  rw [Accepted, ← validateSlug_eq_ok_iff_isCreateSlug, or_self, validateSlug_eq_ok]
  rfl

/-- An accepted slug is not empty. -/
theorem Accepted.ne_empty (h : Accepted slug) : slug ≠ "" := by
  rintro rfl
  exact (accepted_iff.mp h).1 rfl

/-- The pattern's word characters are letters and digits. -/
theorem isAlphanum_of_isWordChar {c : Char} (h : isWordChar c = true) : c.isAlphanum = true := by
  simp only [isWordChar, decide_eq_true_eq] at h
  rcases h with h | h
  · have hlower : c.isLower = true := Bool.and_eq_true_iff.mpr ⟨decide_eq_true h.1, decide_eq_true h.2⟩
    have halpha : c.isAlpha = true := Bool.or_eq_true_iff.mpr (Or.inr hlower)
    exact Bool.or_eq_true_iff.mpr (Or.inl halpha)
  · have hdigit : c.isDigit = true := Bool.and_eq_true_iff.mpr ⟨decide_eq_true h.1, decide_eq_true h.2⟩
    exact Bool.or_eq_true_iff.mpr (Or.inr hdigit)

/-- An accepted slug is a symbol exactly if it is one short word. -/
theorem Accepted.isSymbol_iff (h : Accepted slug) : isSymbol ⟨slug⟩ = true ↔ OneShortWord slug := by
  obtain ⟨-, -, hwords⟩ := accepted_iff.mp h
  rw [isSymbol, decide_eq_true_iff, OneShortWord]
  constructor
  · intro hsymbol
    refine ⟨fun hmem => ?_, hsymbol.1⟩
    have hchar := List.all_eq_true.mp hsymbol.2 '-' hmem
    exact absurd hchar (by decide)
  · intro hshort
    refine ⟨hshort.2, List.all_eq_true.mpr fun c hc => ?_⟩
    -- without a hyphen there is one word
    rw [isHyphenated, List.splitOn_eq_singleton hshort.1] at hwords
    have hword : slug.toList ≠ [] ∧ ∀ c ∈ slug.toList, isWordChar c = true := by
      simpa using hwords
    exact decide_eq_true (Or.inl (isAlphanum_of_isWordChar (hword.2 c hc)))

/-! ## What the contracts take -/

/-- A symbol is decoded where its text is one. -/
theorem decodeSymbol_symbol : decodeSymbol (.val (.symbol ⟨slug⟩)) = some ⟨slug⟩ ↔
    isSymbol ⟨slug⟩ = true := by
  rw [decodeSymbol]
  split <;> simp [*]

/-- An encoded slug gets to the contract where it is a symbol. -/
theorem admitted_iff : Admitted slug (.val (.symbol ⟨slug⟩)) ↔ isSymbol ⟨slug⟩ = true := by
  constructor
  · intro h
    have henroll := h.enroll ⟨""⟩
    rw [← decodeSymbol_symbol]
    simp only [decodeEnrollment, decodeAddress, decodeOptionU64] at henroll
    cases hv : decodeSymbol (.val (.symbol ⟨slug⟩)) with
    | none => simp [hv] at henroll
    | some s => simpa [hv] using henroll
  · intro h
    have hslug := decodeSymbol_symbol.mpr h
    constructor
    · intro deployer name version wasmHash hname hversion
      have hname' : decodeSymbol (.val (.symbol name)) = some name := decodeSymbol_symbol.mpr hname
      simp [decodeFactory, decodeAddress, decodeU32, decodeBytes32, hslug, hname', hversion]
    · intro admin contractId version hversion
      simp [decodeFactory, decodeAddress, decodeU32, hslug, hversion]
    · intro caller amount asset hamount
      simp [decodeEscrow, decodeAddress, decodeI128, hslug, hamount]
    · intro caller
      simp [decodeEnrollment, decodeAddress, decodeOptionU64, hslug]

/-- An accepted slug that is representable is a symbol. -/
theorem SlugRepresentable.isSymbol (h : SlugRepresentable slug) (hslug : Accepted slug) :
    isSymbol ⟨slug⟩ = true := by
  obtain ⟨v, hv, hadmitted⟩ := h.admitted hslug
  obtain ⟨-, rfl⟩ := encodeScSymbol_eq_ok.mp hv
  exact admitted_iff.mp hadmitted

/-- A slug is as promised exactly if it is refused or one short word. -/
theorem slugRepresentable_iff (slug : String) :
    SlugRepresentable slug ↔ (Accepted slug → OneShortWord slug) := by
  constructor
  · intro h hslug
    exact hslug.isSymbol_iff.mp (h.isSymbol hslug)
  · intro h
    constructor
    · intro hslug
      exact ⟨_, encodeScSymbol_eq_ok.mpr ⟨hslug.ne_empty, rfl⟩,
        admitted_iff.mpr (hslug.isSymbol_iff.mpr (h hslug))⟩
    · intro hslug other hother heq
      have hencoded := encodeScSymbol_eq_ok.mpr ⟨hother.ne_empty, rfl⟩
      obtain ⟨-, hv⟩ := encodeScSymbol_eq_ok.mp (heq.trans hencoded)
      simpa using hv

/-- The slug of a fixture is accepted, and no symbol. -/
theorem sneaker_drop_not_representable : ¬ ∀ slug, SlugRepresentable slug := by
  intro h
  have haccepted : Accepted "sneaker-drop-001" := Or.inr (by decide)
  exact absurd ((h "sneaker-drop-001").isSymbol haccepted) (by decide)

end LineProof.Backend
