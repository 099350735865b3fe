import Mathlib.Tactic.Linarith
import LineProof.Sdk.Retry

/-!
# The policy of the retries

Reference: `withRetry` and `ErrorCategory` in `sdk/src/utils.ts`.

The loop waits for one thing at a time, so a call of `withRetry` is determined by how the race of each attempt
ends and by what `sequenceRefetch` and the observer do. `ErrorCategory` says that an `UNKNOWN` error is
retried once. The loop has no such rule, and otherwise keeps the policy (`keepsPolicy_iff`).
-/

namespace LineProof.Sdk

variable {T : Type}

/-- What a call of `withRetry` meets. -/
structure RetryInputs (T : Type) where
  /-- how the race of each attempt ends -/
  outcome : ℕ → Except Failure T
  /-- how `sequenceRefetch` ends after each attempt -/
  sequenceRefetch : Option (ℕ → Except Failure Unit)

/-- `RetryResult`, without the time that it took. -/
structure RetryResult (T : Type) where
  result : T
  attempts : ℕ
deriving DecidableEq

/-- An invocation of `fn`, with the refetches before the next one. -/
structure RetryRound (T : Type) where
  outcome : Except Failure T
  refetches : List (Except Failure Unit)

/-- What follows an iteration of the loop. -/
inductive RetryNext (T : Type)
  | again (lastError : Failure)
  | settled (result : Except Failure (RetryResult T))

/-- The loop as far as it has come. -/
structure RetryRun (T : Type) where
  rounds : List (RetryRound T)
  /-- `none` as long as the call is pending -/
  result : Option (Except Failure (RetryResult T))

variable (config : RetryConfig) (inputs : RetryInputs T)

/-- The body of the loop. -/
def retryIteration (attempt : ℕ) : RetryRound T × RetryNext T :=
  match inputs.outcome attempt with
  | .ok result => (⟨.ok result, []⟩, .settled (.ok ⟨result, attempt + 1⟩))
  | .error lastError =>
    match Submission.caught config attempt lastError, inputs.sequenceRefetch with
    | .rejected error, _ => (⟨.error lastError, []⟩, .settled (.error error))
    | .refetching _, some sequenceRefetch =>
      match sequenceRefetch attempt with
      | .ok () => (⟨.error lastError, [.ok ()]⟩, .again lastError)
      | .error error => (⟨.error lastError, [.error error]⟩, .settled (.error (refetchError error)))
    -- only `sleep` is left
    | _, _ => (⟨.error lastError, []⟩, .again lastError)

/-- At most so many iterations, from an attempt on. -/
def retryLoop : ℕ → ℕ → Failure → RetryRun T
  | 0, _, _ => ⟨[], none⟩
  | fuel + 1, attempt, lastError =>
    if (JsNumber.ofNat attempt).le config.maxRetries then
      match retryIteration config inputs attempt with
      | (round, .settled result) => ⟨[round], some result⟩
      | (round, .again error) =>
        let rest := retryLoop fuel (attempt + 1) error
        ⟨round :: rest.rounds, rest.result⟩
    else ⟨[], some (.error lastError)⟩

/-- A call of `withRetry`, after at most so many iterations. -/
def withRetry (fuel : ℕ) : RetryRun T := retryLoop config inputs fuel 0 exhaustedError

/-! ## The budget -/

section Budget

variable {m : JsNumber} {n : ℕ}

/-- Counts compare as numbers. -/
theorem ofNat_le_finite {q : ℚ} : (JsNumber.ofNat n).le (.finite q) = true ↔ (n : ℚ) ≤ q := by
  simp [JsNumber.le, JsNumber.lt, JsNumber.ofNat, le_iff_lt_or_eq]

/-- Counts compare as numbers. -/
theorem finite_le_ofNat {q : ℚ} : (JsNumber.finite q).le (.ofNat n) = true ↔ q ≤ n := by
  simp [JsNumber.le, JsNumber.lt, JsNumber.ofNat, le_iff_lt_or_eq]

/-- An attempt that may be followed by another one does not exhaust the retries. -/
theorem not_exhausted_of_succ (h : (JsNumber.ofNat (n + 1)).le m = true) : m.le (.ofNat n) = false := by
  cases m with
  | finite q =>
    rw [ofNat_le_finite] at h
    push_cast at h
    rw [Bool.eq_false_iff, ne_eq, finite_le_ofNat]
    linarith
  | infinite negative =>
    cases negative
    · rfl
    · cases h
  | nan => cases h

/-- The retries are exhausted with the next attempt, if that is too many. -/
theorem exhausted_of_not_le (h : (JsNumber.ofNat n).le m = true)
    (hover : (JsNumber.ofNat (n + 1)).le m ≠ true) : m.le (.ofNat (n + 1)) = true := by
  cases m with
  | finite q =>
    rw [ne_eq, ofNat_le_finite] at hover
    rw [finite_le_ofNat]
    exact le_of_not_ge hover
  | infinite negative =>
    cases negative
    · exact absurd rfl hover
    · rfl
  | nan => cases h

end Budget

/-! ## One iteration -/

variable {config inputs} {k : ℕ}

variable (config inputs) in
/-- The kinds of iterations. -/
inductive IterationEnds (k : ℕ) : RetryRound T × RetryNext T → Prop
  | succeeds {result : T} (h : inputs.outcome k = .ok result) :
    IterationEnds k (⟨.ok result, []⟩, .settled (.ok ⟨result, k + 1⟩))
  | givesUp {error : Failure} (h : inputs.outcome k = .error error)
      (reason : error.category = .terminalInvalid ∨ config.maxRetries.le (.ofNat k) = true) :
    IterationEnds k (⟨.error error, []⟩, .settled (.error error))
  | observerThrows {error thrown : Failure} (h : inputs.outcome k = .error error)
      (hcategory : error.category ≠ .terminalInvalid) (hthrows : config.onRetry k = some thrown) :
    IterationEnds k (⟨.error error, []⟩, .settled (.error thrown))
  | refetchFails {error failure : Failure} {refetch : ℕ → Except Failure Unit}
      (h : inputs.outcome k = .error error) (hcategory : error.category = .retryableSequence)
      (hrefetch : inputs.sequenceRefetch = some refetch) (hfails : refetch k = .error failure) :
    IterationEnds k (⟨.error error, [.error failure]⟩, .settled (.error (refetchError failure)))
  | continues {error : Failure} {refetches : List (Except Failure Unit)}
      (h : inputs.outcome k = .error error) (hcategory : error.category ≠ .terminalInvalid)
      (hbudget : config.maxRetries.le (.ofNat k) = false) (hquiet : config.onRetry k = none)
      (hrefetches : error.category = .retryableSequence →
        ∀ refetch ∈ inputs.sequenceRefetch, refetch k = .ok () ∧ refetches = [.ok ()])
      (hfails : ∀ failure, .error failure ∉ refetches) :
    IterationEnds k (⟨.error error, refetches⟩, .again error)

variable (config inputs) in
/-- Every iteration is of one of the kinds. -/
theorem iterationEnds (k : ℕ) : IterationEnds config inputs k (retryIteration config inputs k) := by
  rw [retryIteration]
  cases houtcome : inputs.outcome k with
  | ok result => exact .succeeds houtcome
  | error error =>
    simp only [Submission.caught]
    by_cases hcategory : error.category = .terminalInvalid
    · rw [if_pos hcategory]
      exact .givesUp houtcome (.inl hcategory)
    rw [if_neg hcategory]
    by_cases hbudget : config.maxRetries.le (.ofNat k) = true
    · rw [if_pos hbudget]
      exact .givesUp houtcome (.inr hbudget)
    rw [if_neg hbudget]
    rw [Bool.not_eq_true] at hbudget
    cases hquiet : config.onRetry k with
    | some thrown => exact .observerThrows houtcome hcategory hquiet
    | none =>
      by_cases hsequence : error.category = .retryableSequence
      · simp only [if_pos hsequence]
        cases hrefetch : inputs.sequenceRefetch with
        | none =>
          refine .continues houtcome hcategory hbudget hquiet ?_ (by simp)
          intro _ refetch hmem
          rw [hrefetch] at hmem
          cases hmem
        | some refetch =>
          cases hends : refetch k with
          | ok u =>
            simp only [hends]
            refine .continues houtcome hcategory hbudget hquiet ?_ (by simp)
            intro _ other hmem
            rw [hrefetch, Option.mem_some_iff] at hmem
            exact ⟨hmem ▸ hends, rfl⟩
          | error failure =>
            simp only [hends]
            exact .refetchFails houtcome hsequence hrefetch hends
      · simp only [if_neg hsequence]
        exact .continues houtcome hcategory hbudget hquiet (fun h => absurd h hsequence) (by simp)

variable (config inputs) in
/-- The attempt fails and another one follows. -/
def Retries (k : ℕ) : Prop :=
  ∃ error, inputs.outcome k = .error error ∧ error.category ≠ .terminalInvalid ∧
    (JsNumber.ofNat (k + 1)).le config.maxRetries = true ∧ config.onRetry k = none ∧
    (error.category = .retryableSequence → ∀ refetch ∈ inputs.sequenceRefetch, refetch k = .ok ())

/-- An attempt is retried where its iteration says so and the loop has room. -/
theorem retries_iff : Retries config inputs k ↔
    (∃ round error, retryIteration config inputs k = (round, .again error)) ∧
      (JsNumber.ofNat (k + 1)).le config.maxRetries = true := by
  have hends := iterationEnds config inputs k
  constructor
  · rintro ⟨error, h, hcategory, hnext, hquiet, hrefetch⟩
    refine ⟨?_, hnext⟩
    generalize retryIteration config inputs k = ended at hends ⊢
    cases hends with
    | succeeds houtcome =>
      rw [houtcome] at h
      cases h
    | givesUp houtcome reason =>
      obtain rfl := Except.error.inj (houtcome.symm.trans h)
      rcases reason with hterminal | hlast
      · exact absurd hterminal hcategory
      · rw [not_exhausted_of_succ hnext] at hlast
        cases hlast
    | observerThrows _ _ hthrows =>
      rw [hquiet] at hthrows
      cases hthrows
    | refetchFails houtcome hsequence hgiven hfails =>
      obtain rfl := Except.error.inj (houtcome.symm.trans h)
      rw [hrefetch hsequence _ hgiven] at hfails
      cases hfails
    | continues => exact ⟨_, _, rfl⟩
  · rintro ⟨⟨round, error, hagain⟩, hnext⟩
    rw [hagain] at hends
    cases hends with
    | continues houtcome hcategory hbudget hquiet hrefetches =>
      exact ⟨error, houtcome, hcategory, hnext, hquiet, fun hsequence refetch hgiven =>
        (hrefetches hsequence refetch hgiven).1⟩

/-! ## The loop -/

section Loop

variable {fuel attempt : ℕ} {lastError : Failure}

/-- A loop without room ends with the last error. -/
theorem retryLoop_of_over (hover : (JsNumber.ofNat attempt).le config.maxRetries ≠ true) :
    retryLoop config inputs (fuel + 1) attempt lastError = ⟨[], some (.error lastError)⟩ := by
  rw [retryLoop, if_neg hover]

/-- An iteration that settles ends the loop. -/
theorem retryLoop_of_settled {round : RetryRound T} {result : Except Failure (RetryResult T)}
    (hhead : (JsNumber.ofNat attempt).le config.maxRetries = true)
    (hbody : retryIteration config inputs attempt = (round, .settled result)) :
    retryLoop config inputs (fuel + 1) attempt lastError = ⟨[round], some result⟩ := by
  rw [retryLoop, if_pos hhead, hbody]

/-- An iteration that goes on leaves the rest to the next one. -/
theorem retryLoop_of_again {round : RetryRound T} {error : Failure}
    (hhead : (JsNumber.ofNat attempt).le config.maxRetries = true)
    (hbody : retryIteration config inputs attempt = (round, .again error)) :
    retryLoop config inputs (fuel + 1) attempt lastError =
      ⟨round :: (retryLoop config inputs fuel (attempt + 1) error).rounds,
        (retryLoop config inputs fuel (attempt + 1) error).result⟩ := by
  rw [retryLoop, if_pos hhead, hbody]

/-- The rounds of the loop are its iterations, up to the first that is not retried. -/
theorem rounds_getElem?_eq_some_iff {round : RetryRound T} :
    (retryLoop config inputs fuel attempt lastError).rounds[k]? = some round ↔
      (k < fuel ∧ (JsNumber.ofNat attempt).le config.maxRetries = true ∧
        ∀ i < k, Retries config inputs (attempt + i)) ∧
      (retryIteration config inputs (attempt + k)).1 = round := by
  induction fuel generalizing attempt lastError k with
  | zero => simp [retryLoop]
  | succ fuel ih =>
    by_cases hhead : (JsNumber.ofNat attempt).le config.maxRetries = true
    · rcases hbody : retryIteration config inputs attempt with ⟨first, next⟩
      cases next with
      | settled result =>
        rw [retryLoop_of_settled hhead hbody]
        cases k with
        | zero => simp [hhead, hbody]
        | succ k =>
          simp only [List.getElem?_cons_succ, List.getElem?_nil, reduceCtorEq, false_iff]
          rintro ⟨⟨-, -, hretries⟩, -⟩
          obtain ⟨⟨round, error, hagain⟩, -⟩ := retries_iff.mp (hretries 0 (Nat.succ_pos k))
          rw [Nat.add_zero, hbody] at hagain
          cases hagain
      | again error =>
        rw [retryLoop_of_again hhead hbody]
        cases k with
        | zero => simp [hhead, hbody]
        | succ k =>
          -- the first iteration is retried if the next attempt is within the budget
          have hretries : Retries config inputs attempt ↔
              (JsNumber.ofNat (attempt + 1)).le config.maxRetries = true := by
            rw [retries_iff]
            exact and_iff_right ⟨first, error, hbody⟩
          simp only [List.getElem?_cons_succ, ih, Nat.forall_lt_succ_left, Nat.add_zero, hretries, hhead,
            Nat.add_lt_add_iff_right, true_and, Nat.add_assoc, Nat.add_comm 1]
    · rw [retryLoop_of_over hhead]
      simp [hhead]

/-- How a loop that has ended did so. -/
theorem loop_ends {result : Except Failure (RetryResult T)}
    (hhead : (JsNumber.ofNat attempt).le config.maxRetries = true)
    (h : (retryLoop config inputs fuel attempt lastError).result = some result) :
    ∃ k, (retryLoop config inputs fuel attempt lastError).rounds.length = k + 1 ∧
      ((retryIteration config inputs (attempt + k)).2 = .settled result ∨
        ∃ error, (retryIteration config inputs (attempt + k)).2 = .again error ∧
          (JsNumber.ofNat (attempt + k + 1)).le config.maxRetries = false ∧ result = .error error) := by
  induction fuel generalizing attempt lastError with
  | zero => cases h
  | succ fuel ih =>
    rcases hbody : retryIteration config inputs attempt with ⟨first, next⟩
    cases next with
    | settled ended =>
      rw [retryLoop_of_settled hhead hbody] at h ⊢
      refine ⟨0, rfl, .inl ?_⟩
      rw [Nat.add_zero, hbody, Option.some.inj h]
    | again error =>
      rw [retryLoop_of_again hhead hbody] at h ⊢
      by_cases hnext : (JsNumber.ofNat (attempt + 1)).le config.maxRetries = true
      · obtain ⟨k, hlength, hlast⟩ := ih hnext h
        rw [Nat.add_right_comm attempt 1 k] at hlast
        exact ⟨k + 1, congrArg (· + 1) hlength, hlast⟩
      · -- the head of the loop throws the error
        cases fuel with
        | zero => cases h
        | succ fuel =>
          rw [retryLoop_of_over hnext] at h ⊢
          refine ⟨0, rfl, .inr ⟨error, ?_, Bool.eq_false_iff.mpr hnext, (Option.some.inj h).symm⟩⟩
          rw [Nat.add_zero, hbody]

/-- An iteration that settles the call is the last one. -/
theorem loop_of_settled {result : Except Failure (RetryResult T)}
    (hk : k < (retryLoop config inputs fuel attempt lastError).rounds.length)
    (h : (retryIteration config inputs (attempt + k)).2 = .settled result) :
    (retryLoop config inputs fuel attempt lastError).rounds.length = k + 1 ∧
      (retryLoop config inputs fuel attempt lastError).result = some result := by
  induction fuel generalizing attempt lastError k with
  | zero => cases hk
  | succ fuel ih =>
    by_cases hhead : (JsNumber.ofNat attempt).le config.maxRetries = true
    · rcases hbody : retryIteration config inputs attempt with ⟨first, next⟩
      cases next with
      | settled ended =>
        rw [retryLoop_of_settled hhead hbody] at hk ⊢
        obtain rfl : k = 0 := Nat.lt_one_iff.mp hk
        rw [Nat.add_zero, hbody] at h
        exact ⟨rfl, congrArg some (RetryNext.settled.inj h)⟩
      | again error =>
        rw [retryLoop_of_again hhead hbody] at hk ⊢
        cases k with
        | zero =>
          rw [Nat.add_zero, hbody] at h
          cases h
        | succ k =>
          rw [← Nat.add_assoc, Nat.add_right_comm] at h
          obtain ⟨hlength, hresult⟩ := ih (Nat.lt_of_succ_lt_succ hk) h
          exact ⟨congrArg (· + 1) hlength, hresult⟩
    · rw [retryLoop_of_over hhead] at hk
      cases hk

/-- A budget ends the loop. -/
theorem loop_settles (k : ℕ) (h : config.maxRetries.le (.ofNat (attempt + k)) = true) :
    (retryLoop config inputs (k + 1) attempt lastError).result.isSome = true := by
  induction k generalizing attempt lastError with
  | zero =>
    by_cases hhead : (JsNumber.ofNat attempt).le config.maxRetries = true
    · have hends := iterationEnds config inputs attempt
      rcases hbody : retryIteration config inputs attempt with ⟨first, next⟩
      cases next with
      | settled result =>
        rw [retryLoop_of_settled hhead hbody]
        rfl
      | again error =>
        rw [hbody] at hends
        cases hends with
        | continues _ _ hbudget =>
          rw [Nat.add_zero, hbudget] at h
          cases h
    · rw [retryLoop_of_over hhead]
      rfl
  | succ k ih =>
    by_cases hhead : (JsNumber.ofNat attempt).le config.maxRetries = true
    · rcases hbody : retryIteration config inputs attempt with ⟨first, next⟩
      cases next with
      | settled result =>
        rw [retryLoop_of_settled hhead hbody]
        rfl
      | again error =>
        rw [retryLoop_of_again hhead hbody]
        refine ih ?_
        rw [Nat.add_right_comm]
        exact h
    · rw [retryLoop_of_over hhead]
      rfl

end Loop

/-! ## The policy -/

section Policy

variable (config inputs)

/-- The attempt fails with an `UNKNOWN` error. -/
def EndsUnknown (k : ℕ) : Prop :=
  ∃ error, inputs.outcome k = .error error ∧ error.category = .unknown

/-- What a call comes to that made its last attempt, attempt `k`, in this round. -/
inductive Concludes (k : ℕ) (round : RetryRound T) : Except Failure (RetryResult T) → Prop
  /-- the first success -/
  | resolves {result : T} (h : inputs.outcome k = .ok result) :
    Concludes k round (.ok ⟨result, k + 1⟩)
  /-- the last error, where the policy has no further attempt -/
  | rejects {error : Failure} (h : inputs.outcome k = .error error)
      (reason : error.category = .terminalInvalid ∨
        (JsNumber.ofNat (k + 1)).le config.maxRetries = false ∨
        error.category = .unknown ∧ ∃ i < k, EndsUnknown inputs i) :
    Concludes k round (.error error)
  | refetchFails {error : Failure} (h : .error error ∈ round.refetches) :
    Concludes k round (.error (refetchError error))
  | observerThrows {error : Failure} (h : config.onRetry k = some error) :
    Concludes k round (.error error)

/-- The policy of the retries, at every moment of a call. -/
structure KeepsPolicy : Prop where
  /-- `fn` is invoked at most `maxRetries + 1` times -/
  bounded : ∀ n k, k < (withRetry config inputs n).rounds.length →
    (JsNumber.ofNat k).le config.maxRetries = true
  inOrder : ∀ n k round, (withRetry config inputs n).rounds[k]? = some round →
    round.outcome = inputs.outcome k
  /-- only an error that is not terminal is followed by an attempt -/
  stops : ∀ n k, k + 1 < (withRetry config inputs n).rounds.length →
    ∃ error, inputs.outcome k = .error error ∧ error.category ≠ .terminalInvalid
  /-- at most one `UNKNOWN` error is followed by an attempt -/
  unknownOnce : ∀ n i j, i < j → j + 1 < (withRetry config inputs n).rounds.length →
    EndsUnknown inputs i → ¬ EndsUnknown inputs j
  /-- a sequence error is followed by one refetch that succeeds, then by an attempt -/
  refetched : ∀ n k round error, (withRetry config inputs n).rounds[k]? = some round →
    k + 1 < (withRetry config inputs n).rounds.length → inputs.outcome k = .error error →
    error.category = .retryableSequence → inputs.sequenceRefetch.isSome = true →
    round.refetches = [.ok ()]
  /-- a refetch that fails ends the call -/
  refetchFailed : ∀ n k round error, (withRetry config inputs n).rounds[k]? = some round →
    .error error ∈ round.refetches → (withRetry config inputs n).rounds.length = k + 1 ∧
      (withRetry config inputs n).result = some (.error (refetchError error))
  concludes : ∀ n result, (withRetry config inputs n).result = some result → ∃ k round,
    (withRetry config inputs n).rounds.length = k + 1 ∧
      (withRetry config inputs n).rounds[k]? = some round ∧ Concludes config inputs k round result
  settles : ∀ k, config.maxRetries.le (.ofNat k) = true →
    (withRetry config inputs (k + 1)).result.isSome = true

variable {config inputs} {n : ℕ} {round : RetryRound T}

/-- Which rounds a call makes, and how each ends. -/
theorem withRetry_getElem?_eq_some_iff : (withRetry config inputs n).rounds[k]? = some round ↔
    (k < n ∧ (JsNumber.ofNat 0).le config.maxRetries = true ∧ ∀ i < k, Retries config inputs i) ∧
      (retryIteration config inputs k).1 = round := by
  rw [withRetry, rounds_getElem?_eq_some_iff]
  simp only [Nat.zero_add]

/-- A round that is made follows retries only. -/
theorem withRetry_getElem? (h : (withRetry config inputs n).rounds[k]? = some round) :
    (∀ i < k, Retries config inputs i) ∧ (retryIteration config inputs k).1 = round := by
  obtain ⟨⟨-, -, hretries⟩, hround⟩ := withRetry_getElem?_eq_some_iff.mp h
  exact ⟨hretries, hround⟩

/-- The attempts before the last one were retried. -/
theorem retries_of_lt (h : k + 1 < (withRetry config inputs n).rounds.length) :
    ∀ i ≤ k, Retries config inputs i := by
  have hget := (withRetry_getElem? (List.getElem?_eq_getElem h)).1
  exact fun i hi => hget i (Nat.lt_succ_of_le hi)

/-- An iteration that settles is one of the ends of a call. -/
theorem concludes_of_settled {result : Except Failure (RetryResult T)}
    (h : (retryIteration config inputs k).2 = .settled result) :
    Concludes config inputs k (retryIteration config inputs k).1 result := by
  have hends := iterationEnds config inputs k
  generalize retryIteration config inputs k = ended at hends h ⊢
  cases hends with
  | succeeds houtcome =>
    obtain rfl := RetryNext.settled.inj h
    exact .resolves houtcome
  | givesUp houtcome reason =>
    obtain rfl := RetryNext.settled.inj h
    refine .rejects houtcome (reason.imp id fun hlast => .inl ?_)
    by_contra hnext
    rw [not_exhausted_of_succ (Bool.not_eq_false _ ▸ hnext)] at hlast
    cases hlast
  | observerThrows _ _ hthrows =>
    obtain rfl := RetryNext.settled.inj h
    exact .observerThrows hthrows
  | refetchFails =>
    obtain rfl := RetryNext.settled.inj h
    exact .refetchFails (List.mem_singleton_self _)
  | continues => cases h

/-- A call that ends has one of the ends in its last round. -/
theorem concludes_withRetry {result : Except Failure (RetryResult T)}
    (hretries : (JsNumber.ofNat 0).le config.maxRetries = true)
    (h : (withRetry config inputs n).result = some result) : ∃ k round,
      (withRetry config inputs n).rounds.length = k + 1 ∧
      (withRetry config inputs n).rounds[k]? = some round ∧ Concludes config inputs k round result := by
  obtain ⟨k, hlength, hlast⟩ := loop_ends hretries h
  rw [Nat.zero_add] at hlast
  have hget : (withRetry config inputs n).rounds[k]? = some (retryIteration config inputs k).1 := by
    have hk : k < (withRetry config inputs n).rounds.length := hlength ▸ Nat.lt_succ_self k
    rw [List.getElem?_eq_getElem hk, ← (withRetry_getElem? (List.getElem?_eq_getElem hk)).2]
  refine ⟨k, _, hlength, hget, ?_⟩
  rcases hlast with hsettled | ⟨error, hagain, hover, rfl⟩
  · exact concludes_of_settled hsettled
  · have hends := iterationEnds config inputs k
    generalize retryIteration config inputs k = ended at hends hagain ⊢
    cases hends with
    | continues houtcome =>
      obtain rfl := RetryNext.again.inj hagain
      exact .rejects houtcome (.inr (.inl hover))
    | _ => cases hagain

/-- A refetch that fails ends the call. -/
theorem refetch_fails {error : Failure}
    (hget : (withRetry config inputs n).rounds[k]? = some round) (h : .error error ∈ round.refetches) :
    (withRetry config inputs n).rounds.length = k + 1 ∧
      (withRetry config inputs n).result = some (.error (refetchError error)) := by
  obtain ⟨-, rfl⟩ := withRetry_getElem? hget
  have hk := (List.getElem?_eq_some_iff.mp hget).1
  refine loop_of_settled hk ?_
  rw [Nat.zero_add]
  have hends := iterationEnds config inputs k
  generalize retryIteration config inputs k = ended at hends h ⊢
  cases hends with
  | refetchFails =>
    obtain rfl := Except.error.inj (List.mem_singleton.mp h)
    rfl
  | continues _ _ _ _ _ hfails => exact absurd h (hfails error)
  | _ => cases h

/-- A retried sequence error was refetched once. -/
theorem refetches_of_retried {error : Failure}
    (hget : (withRetry config inputs n).rounds[k]? = some round) (hretried : Retries config inputs k)
    (h : inputs.outcome k = .error error) (hsequence : error.category = .retryableSequence)
    (hgiven : inputs.sequenceRefetch.isSome = true) : round.refetches = [.ok ()] := by
  obtain ⟨-, rfl⟩ := withRetry_getElem? hget
  obtain ⟨⟨round, error, hagain⟩, -⟩ := retries_iff.mp hretried
  obtain ⟨refetch, hrefetch⟩ := Option.isSome_iff_exists.mp hgiven
  have hends := iterationEnds config inputs k
  rw [hagain] at hends ⊢
  cases hends with
  | continues houtcome _ _ _ hrefetches =>
    obtain rfl := Except.error.inj (houtcome.symm.trans h)
    exact (hrefetches hsequence refetch hrefetch).2

/-- A round records how its attempt ended. -/
theorem iteration_outcome (k : ℕ) : (retryIteration config inputs k).1.outcome = inputs.outcome k := by
  have hends := iterationEnds config inputs k
  generalize retryIteration config inputs k = ended at hends ⊢
  cases hends <;> exact Eq.symm ‹_›

/-- The policy is kept exactly if of the attempts that are followed by another one at most one ends in an
`UNKNOWN` error. -/
theorem keepsPolicy_iff (config : RetryConfig) (inputs : RetryInputs T)
    (hretries : (JsNumber.ofNat 0).le config.maxRetries = true) :
    KeepsPolicy config inputs ↔ ∀ i j, i < j → (∀ k ≤ j, Retries config inputs k) →
      EndsUnknown inputs i → ¬ EndsUnknown inputs j := by
  constructor
  · intro h i j hij hretried
    refine h.unknownOnce (j + 2) i j hij ?_
    have hget : (withRetry config inputs (j + 2)).rounds[j + 1]? =
        some (retryIteration config inputs (j + 1)).1 :=
      withRetry_getElem?_eq_some_iff.mpr ⟨⟨Nat.lt_succ_self _, hretries,
        fun k hk => hretried k (Nat.le_of_lt_succ hk)⟩, rfl⟩
    exact (List.getElem?_eq_some_iff.mp hget).1
  · intro h
    exact {
      bounded := by
        intro n k hk
        cases k with
        | zero => exact hretries
        | succ k =>
          obtain ⟨error, -, -, hnext, -⟩ := retries_of_lt hk k le_rfl
          exact hnext
      inOrder := by
        intro n k round hget
        rw [← (withRetry_getElem? hget).2, iteration_outcome]
      stops := by
        intro n k hk
        obtain ⟨error, houtcome, hcategory, -⟩ := retries_of_lt hk k le_rfl
        exact ⟨error, houtcome, hcategory⟩
      unknownOnce := fun n i j hij hj => h i j hij (retries_of_lt hj)
      refetched := fun n k round error hget hk =>
        refetches_of_retried hget (retries_of_lt hk k le_rfl)
      refetchFailed := fun n k round error => refetch_fails
      concludes := fun n result => concludes_withRetry hretries
      settles := by
        intro k hk
        refine loop_settles k ?_
        rw [Nat.zero_add]
        exact hk }

end Policy

/-! ### Two calls -/

/-- The default of three retries, with nobody to observe them. -/
def threeRetries : RetryConfig := ⟨.ofNat 3, "30000", fun _ => none⟩

/-- An account sequence that is refetched, an unknown error, and a success. -/
def thirdSucceeds : RetryInputs String where
  outcome
    | 0 => .error ⟨"Bad sequence", .retryableSequence⟩
    | 1 => .error ⟨"weird", .unknown⟩
    | _ => .ok "success"
  sequenceRefetch := some fun _ => .ok ()

/-- Only the second attempt of the example ends unknown. -/
theorem endsUnknown_thirdSucceeds {i : ℕ} (h : EndsUnknown thirdSucceeds i) : i = 1 := by
  obtain ⟨error, houtcome, hunknown⟩ := h
  match i with
  | 0 =>
    obtain rfl := Except.error.inj houtcome
    cases hunknown
  | 1 => rfl
  | i + 2 => cases houtcome

/-- The example keeps the policy. -/
theorem keepsPolicy_thirdSucceeds : KeepsPolicy threeRetries thirdSucceeds := by
  refine (keepsPolicy_iff threeRetries thirdSucceeds (by decide)).mpr ?_
  intro i j hij _ hi hj
  rw [endsUnknown_thirdSucceeds hi, endsUnknown_thirdSucceeds hj] at hij
  exact Nat.lt_irrefl 1 hij

/-- A function that always fails in a way that nothing is known about. -/
def alwaysWeird : RetryInputs String where
  outcome := fun _ => .error ⟨"weird", .unknown⟩
  sequenceRefetch := some fun _ => .ok ()

/-- Its error is retried three times. -/
theorem unknown_retried_thrice : ¬ KeepsPolicy threeRetries alwaysWeird := by
  intro h
  have hunknown : ∀ i, EndsUnknown alwaysWeird i := fun _ => ⟨_, rfl, rfl⟩
  have hlength : (withRetry threeRetries alwaysWeird 4).rounds.length = 4 := by decide
  exact h.unknownOnce 4 0 1 (by omega) (by omega) (hunknown 0) (hunknown 1)

end LineProof.Sdk
