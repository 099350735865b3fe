import Mathlib.Logic.Function.Basic
import LineProof.Sdk.LateSends
import LineProof.Sdk.RetryPolicy

/-!
# A submission is a call of `withRetry`

In whatever order its completions come, the races of a submission end one after the other, and so do its
refetches. `withRetry` on these ends is where the loop of the submission is (`run_follows`). So a submission
makes no more attempts than `withRetry` allows (`attempts_le`), late ones included.
-/

namespace LineProof.Sdk.Submission

variable {config : RetryConfig} {s s' : Submission}

/-! ## The loop in one step -/

/-- What a completion does to the loop. -/
inductive LoopMoves (config : RetryConfig) (s : Submission) : Submission → Prop
  | stays {s' : Submission} (hattempts : s'.attempts.length = s.attempts.length)
      (hloop : s'.loop = s.loop) : LoopMoves config s s'
  | settles {s' : Submission} {a : ℕ} (result : Except Failure String) (h : s.Racing a)
      (hattempts : s'.attempts.length = s.attempts.length)
      (hloop : s'.loop =
        match result with
        | .ok hash => .returned hash
        | .error error => caught config a error) : LoopMoves config s s'
  | refetches {s' : Submission} {lastError : Failure} (result : Except Failure Unit)
      (h : s.loop = .refetching lastError) (hattempts : s'.attempts.length = s.attempts.length)
      (hloop : s'.loop =
        match result with
        | .ok () => .sleeping lastError
        | .error error => .rejected (refetchError error)) : LoopMoves config s s'
  | wakes {lastError : Failure} (h : s.loop = .sleeping lastError) :
    LoopMoves config s (enter config s.attempts lastError)

/-- A change of an attempt makes none. -/
theorem length_modify (a : ℕ) (f : Attempt → Attempt) : (s.attempts.modify a f).length = s.attempts.length :=
  List.length_modify ..

/-- What settling an attempt does to the loop. -/
theorem loopMoves_settle (a : ℕ) (result : Except Failure String) :
    LoopMoves config s (s.settle config a result) := by
  have hlength : (s.settle config a result).attempts.length = s.attempts.length := by
    rw [settle_attempts, setPhase, length_modify]
  by_cases h : s.Racing a
  · exact .settles result h hlength (congrArg loop (if_pos h))
  · have hsame : s.settle config a result = s.setPhase a .settled := if_neg h
    have hloop := congrArg loop hsame
    exact .stays hlength hloop

/-- What every step does to the loop. -/
theorem loopMoves_step (config : RetryConfig) (s : Submission) (c : Completion) :
    LoopMoves config s (step config s c) := by
  by_cases hrefetched : ∃ result, c = .refetched result
  · obtain ⟨result, rfl⟩ := hrefetched
    simp only [step]
    split
    next lastError hloop => exact .refetches (.ok ()) hloop rfl rfl
    next lastError error hloop => exact .refetches (.error error) hloop rfl rfl
    next => exact .stays rfl rfl
  · have heffect := effect_step config s c
    generalize step config s c = s' at heffect ⊢
    cases heffect with
    | idle => exact .stays rfl rfl
    | prepares => exact .stays (length_modify ..) rfl
    | sends => exact .stays (length_modify ..) rfl
    | settles result => exact loopMoves_settle _ result
    | timesOut h => exact .settles (.error (timeoutError config.timeoutMs)) h (length_modify ..) rfl
    | refetches => exact absurd ⟨_, rfl⟩ hrefetched
    | wakes h => exact .wakes h

/-! ## Where `withRetry` is -/

/-- How the races and the refetches after them end. -/
def ends (outcome : ℕ → Except Failure String) (refetch : ℕ → Except Failure Unit) : RetryInputs String :=
  ⟨outcome, some refetch⟩

/-- The attempt is made, as every earlier one is retried. -/
def Reaches (config : RetryConfig) (inputs : RetryInputs String) (k : ℕ) : Prop :=
  (JsNumber.ofNat 0).le config.maxRetries = true ∧ ∀ i < k, Retries config inputs i

/-- The loop of the submission is where `withRetry` is. -/
def Follows (config : RetryConfig) (inputs : RetryInputs String) (s : Submission) : Prop :=
  match s.loop with
  | .racing => ∃ k, s.attempts.length = k + 1 ∧ Reaches config inputs k
  | .refetching lastError => ∃ k, s.attempts.length = k + 1 ∧ Reaches config inputs k ∧
    inputs.outcome k = .error lastError ∧ caught config k lastError = .refetching lastError
  | .sleeping lastError => ∃ k, s.attempts.length = k + 1 ∧ Reaches config inputs k ∧
    (retryIteration config inputs k).2 = .again lastError
  | .returned hash => ∃ n, (withRetry config inputs n).rounds.length = s.attempts.length ∧
    (withRetry config inputs n).result = some (.ok ⟨hash, s.attempts.length⟩)
  | .rejected error => ∃ n, (withRetry config inputs n).rounds.length = s.attempts.length ∧
    (withRetry config inputs n).result = some (.error error)

variable {inputs inputs' : RetryInputs String} {k : ℕ}

/-- What becomes of an attempt does not depend on later ones. -/
theorem Reaches.congr (h : Reaches config inputs k) (houtcome : ∀ i < k, inputs'.outcome i = inputs.outcome i)
    (hrefetch : ∀ i < k, ∀ refetch' ∈ inputs'.sequenceRefetch, ∃ refetch ∈ inputs.sequenceRefetch,
      refetch' i = refetch i) : Reaches config inputs' k := by
  refine ⟨h.1, fun i hi => ?_⟩
  obtain ⟨error, herror, hcategory, hnext, hquiet, hrefetches⟩ := h.2 i hi
  refine ⟨error, (houtcome i hi).trans herror, hcategory, hnext, hquiet, fun hsequence refetch' hmem' => ?_⟩
  obtain ⟨refetch, hmem, heq⟩ := hrefetch i hi refetch' hmem'
  rw [heq]
  exact hrefetches hsequence refetch hmem

/-- The attempt is within the budget. -/
theorem Reaches.le (h : Reaches config inputs k) : (JsNumber.ofNat k).le config.maxRetries = true := by
  cases k with
  | zero => exact h.1
  | succ k =>
    obtain ⟨error, -, -, hnext, -⟩ := h.2 k (Nat.lt_succ_self k)
    exact hnext

/-- An attempt that is reached is made. -/
theorem Reaches.lt_length (h : Reaches config inputs k) {n : ℕ} (hn : k < n) :
    k < (withRetry config inputs n).rounds.length := by
  have hget := withRetry_getElem?_eq_some_iff.mpr
    ⟨⟨hn, h.1, h.2⟩, Eq.refl (retryIteration config inputs k).1⟩
  exact (List.getElem?_eq_some_iff.mp hget).1

/-- `withRetry` ends with an iteration that settles it. -/
theorem Reaches.settled (h : Reaches config inputs k) {result : Except Failure (RetryResult String)}
    (hsettled : (retryIteration config inputs k).2 = .settled result) :
    (withRetry config inputs (k + 1)).rounds.length = k + 1 ∧
      (withRetry config inputs (k + 1)).result = some result := by
  refine loop_of_settled (h.lt_length (Nat.lt_succ_self k)) ?_
  rw [Nat.zero_add]
  exact hsettled

/-- `withRetry` ends where the budget does. -/
theorem Reaches.over (h : Reaches config inputs k) {lastError : Failure}
    (hagain : (retryIteration config inputs k).2 = .again lastError)
    (hover : (JsNumber.ofNat (k + 1)).le config.maxRetries ≠ true) :
    (withRetry config inputs (k + 2)).rounds.length = k + 1 ∧
      (withRetry config inputs (k + 2)).result = some (.error lastError) := by
  have hlength : (withRetry config inputs (k + 2)).rounds.length = k + 1 := by
    refine Nat.le_antisymm (Nat.not_lt.mp fun hlt => ?_) (h.lt_length (by omega))
    obtain ⟨error, -, -, hnext, -⟩ := retries_of_lt hlt k le_rfl
    exact hover hnext
  have hexhausted := exhausted_of_not_le h.le hover
  rw [← Nat.zero_add (k + 1)] at hexhausted
  have hsettles : (withRetry config inputs (k + 2)).result.isSome = true :=
    loop_settles (k + 1) hexhausted
  obtain ⟨result, hresult⟩ := Option.isSome_iff_exists.mp hsettles
  obtain ⟨last, hlast, hends⟩ := loop_ends h.1 hresult
  obtain rfl : last = k := by
    have heq := hlast.symm.trans hlength
    omega
  refine ⟨hlength, ?_⟩
  rw [Nat.zero_add] at hends
  rcases hends with hsettled | ⟨error, hagain', -, rfl⟩
  · rw [hagain] at hsettled
    cases hsettled
  · rw [hagain] at hagain'
    rw [RetryNext.again.inj hagain']
    exact hresult

/-! ## Every run -/

/-- What an error makes of the loop: an end, a refetch or a delay. -/
theorem caught_cases (config : RetryConfig) (k : ℕ) (error : Failure) :
    (∃ thrown, caught config k error = .rejected thrown) ∨ caught config k error = .refetching error ∨
      caught config k error = .sleeping error := by
  unfold caught
  split
  · exact .inl ⟨_, rfl⟩
  split
  · exact .inl ⟨_, rfl⟩
  split
  · exact .inl ⟨_, rfl⟩
  split
  · exact .inr (.inl rfl)
  · exact .inr (.inr rfl)

/-- After the race the loop is where `withRetry` is. -/
theorem Follows.settles (h : Reaches config inputs k) (hattempts : s.attempts.length = k + 1)
    (hloop : s.loop =
      match inputs.outcome k with
      | .ok hash => .returned hash
      | .error error => caught config k error) : Follows config inputs s := by
  unfold Follows
  cases houtcome : inputs.outcome k with
  | ok hash =>
    rw [houtcome] at hloop
    rw [hloop, hattempts]
    refine ⟨k + 1, h.settled ?_⟩
    rw [retryIteration, houtcome]
  | error error =>
    rw [houtcome] at hloop
    change s.loop = caught config k error at hloop
    rcases caught_cases config k error with ⟨thrown, hcaught⟩ | hcaught | hcaught
    · rw [hloop, hcaught, hattempts]
      refine ⟨k + 1, h.settled ?_⟩
      simp only [retryIteration, houtcome, hcaught]
    · rw [hloop, hcaught]
      exact ⟨k, hattempts, h, houtcome, hcaught⟩
    · rw [hloop, hcaught]
      refine ⟨k, hattempts, h, ?_⟩
      simp only [retryIteration, houtcome, hcaught]

/-- After the refetch the loop is where `withRetry` is. -/
theorem Follows.refetches {outcome : ℕ → Except Failure String} {refetch : ℕ → Except Failure Unit}
    {lastError : Failure} (h : Reaches config (ends outcome refetch) k)
    (houtcome : outcome k = .error lastError) (hcaught : caught config k lastError = .refetching lastError)
    (hattempts : s.attempts.length = k + 1)
    (hloop : s.loop =
      match refetch k with
      | .ok () => .sleeping lastError
      | .error error => .rejected (refetchError error)) : Follows config (ends outcome refetch) s := by
  unfold Follows
  cases hrefetch : refetch k with
  | ok u =>
    rw [hrefetch] at hloop
    rw [hloop]
    refine ⟨k, hattempts, h, ?_⟩
    simp only [retryIteration, ends, houtcome, hcaught, hrefetch]
  | error error =>
    rw [hrefetch] at hloop
    rw [hloop, hattempts]
    refine ⟨k + 1, h.settled ?_⟩
    simp only [retryIteration, ends, houtcome, hcaught, hrefetch]

/-- At the start the loop is where `withRetry` is. -/
theorem follows_begin (inputs : RetryInputs String) : Follows config inputs (begin config) := by
  unfold Follows begin enter
  by_cases hhead : (JsNumber.ofNat 0).le config.maxRetries = true
  · rw [List.length_nil, if_pos hhead]
    exact ⟨0, rfl, hhead, fun i hi => absurd hi (Nat.not_lt_zero i)⟩
  · rw [List.length_nil, if_neg hhead]
    refine ⟨1, ?_⟩
    rw [withRetry, retryLoop_of_over hhead]
    exact ⟨rfl, rfl⟩

/-- Only the ends at the last attempt are settled by a step. -/
theorem Follows.step {outcome : ℕ → Except Failure String} {refetch : ℕ → Except Failure Unit}
    (h : Follows config (ends outcome refetch) s) (hmoves : LoopMoves config s s') :
    ∃ outcome' refetch', Follows config (ends outcome' refetch') s' := by
  cases hmoves with
  | stays hattempts hloop =>
    refine ⟨outcome, refetch, ?_⟩
    unfold Follows at h ⊢
    rw [hloop, hattempts]
    exact h
  | @settles _ a result hracing hattempts hloop =>
    unfold Follows at h
    rw [hracing.2] at h
    obtain ⟨k, hlength, hreaches⟩ := h
    obtain rfl : a = k := by
      have hlast := hracing.1.trans hlength
      omega
    refine ⟨Function.update outcome a result, refetch, Follows.settles (k := a) ?_ (hattempts.trans hlength) ?_⟩
    · refine hreaches.congr (fun i hi => Function.update_of_ne (Nat.ne_of_lt hi) ..) ?_
      exact fun i hi refetch' hmem => ⟨refetch', hmem, rfl⟩
    · have hlast : (ends (Function.update outcome a result) refetch).outcome a = result :=
        Function.update_self ..
      rw [hlast]
      exact hloop
  | @refetches _ lastError result hrefetching hattempts hloop =>
    unfold Follows at h
    rw [hrefetching] at h
    obtain ⟨k, hlength, hreaches, houtcome, hcaught⟩ := h
    refine ⟨outcome, Function.update refetch k result,
      Follows.refetches ?_ houtcome hcaught (hattempts.trans hlength) ?_⟩
    · refine hreaches.congr (fun i hi => rfl) fun i hi refetch' hmem => ⟨refetch, rfl, ?_⟩
      rw [← Option.mem_some_iff.mp hmem, Function.update_of_ne (Nat.ne_of_lt hi)]
    · rw [Function.update_self]
      exact hloop
  | @wakes lastError hsleeping =>
    unfold Follows at h
    rw [hsleeping] at h
    obtain ⟨k, hlength, hreaches, hagain⟩ := h
    refine ⟨outcome, refetch, ?_⟩
    unfold Follows enter
    rw [hlength]
    by_cases hnext : (JsNumber.ofNat (k + 1)).le config.maxRetries = true
    · rw [if_pos hnext]
      refine ⟨k + 1, by rw [List.length_append, hlength, List.length_singleton], hreaches.1, ?_⟩
      intro i hi
      rcases Nat.lt_succ_iff_lt_or_eq.mp hi with hlt | rfl
      · exact hreaches.2 i hlt
      · exact retries_iff.mpr ⟨⟨_, _, Prod.ext rfl hagain⟩, hnext⟩
    · rw [if_neg hnext, hlength]
      exact ⟨k + 2, hreaches.over hagain hnext⟩

/-- Wherever a submission is, `withRetry` is there for some ends of its races and refetches. -/
theorem run_follows (config : RetryConfig) (completions : List Completion) :
    ∃ outcome refetch, Follows config (ends outcome refetch) (run config completions) := by
  induction completions using List.reverseRecOn with
  | nil => exact ⟨fun _ => .ok "", fun _ => .ok (), follows_begin _⟩
  | append_singleton completions c ih =>
    obtain ⟨outcome, refetch, h⟩ := ih
    rw [run, List.foldl_append]
    exact h.step (loopMoves_step config _ c)

/-- The attempts of a submission are within its budget. -/
theorem attempts_le (config : RetryConfig) (completions : List Completion)
    (h : (run config completions).attempts.length = k + 1) :
    (JsNumber.ofNat k).le config.maxRetries = true := by
  obtain ⟨outcome, refetch, hfollows⟩ := run_follows config completions
  have hrounds : ∀ n, (withRetry config (ends outcome refetch) n).rounds.length = k + 1 →
      (JsNumber.ofNat k).le config.maxRetries = true := by
    intro n hlength
    have hk : k < (withRetry config (ends outcome refetch) n).rounds.length := by omega
    obtain ⟨⟨-, hhead, hretries⟩, -⟩ := withRetry_getElem?_eq_some_iff.mp (List.getElem?_eq_getElem hk)
    exact Reaches.le ⟨hhead, hretries⟩
  unfold Follows at hfollows
  rw [h] at hfollows
  split at hfollows
  · obtain ⟨last, hlast, hreaches⟩ := hfollows
    exact Nat.succ_inj.mp hlast ▸ hreaches.le
  · obtain ⟨last, hlast, hreaches, -⟩ := hfollows
    exact Nat.succ_inj.mp hlast ▸ hreaches.le
  · obtain ⟨last, hlast, hreaches, -⟩ := hfollows
    exact Nat.succ_inj.mp hlast ▸ hreaches.le
  · obtain ⟨n, hlength, -⟩ := hfollows
    exact hrounds n hlength
  · obtain ⟨n, hlength, -⟩ := hfollows
    exact hrounds n hlength

end LineProof.Sdk.Submission
