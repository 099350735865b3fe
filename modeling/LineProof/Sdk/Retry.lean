import LineProof.Sdk.Js

/-!
# Submitting with retries

Reference: `withRetry` and `createTimeoutPromise` in `sdk/src/utils.ts`, and `submitSorobanOperation` in
`sdk/src/client.ts`.

A call is a machine that reacts to completions: an RPC request of an attempt settles, the timer of an
attempt fires, a refetch settles, or a backoff ends. They come in any order, which covers every timing.
What runs between two completions is one step.
-/

namespace LineProof.Sdk

/-- What `classifyError` tells apart. -/
inductive ErrorCategory
  | retryableNetwork
  | retryableSequence
  | retryableInsufficient
  | terminalInvalid
  | unknown
deriving DecidableEq

/-- An error, with what `classifyError` makes of it. -/
structure Failure where
  message : String
  category : ErrorCategory
deriving DecidableEq

/-- The error of `createTimeoutPromise`. Its code `ETIMEDOUT` is among `NETWORK_ERROR_CODES`. -/
def timeoutError (timeoutMs : String) : Failure :=
  ⟨"Transaction submission timed out after " ++ timeoutMs ++ "ms", .retryableNetwork⟩

/-- The error of an attempt that finds its signal aborted. No rule of `classifyError` applies to it. -/
def abortedError : Failure := ⟨"Transaction submission aborted before send", .unknown⟩

/-- The error after a failed `sequenceRefetch`. -/
def refetchError (error : Failure) : Failure :=
  ⟨"[SEQUENCE_REFETCH_FAILED] Failed to re-fetch account sequence after tx_bad_seq: " ++ error.message,
    .retryableSequence⟩

/-- The error of a loop that makes no attempt. -/
def exhaustedError : Failure :=
  ⟨"[RETRY_EXHAUSTED] Retry loop exhausted with no captured error", .unknown⟩

/-- What an attempt is waiting for. -/
inductive Phase
  /-- `reserveSourceAccount` -/
  | fetching
  /-- `prepareTransaction` -/
  | preparing
  /-- `sendTransaction` -/
  | sending
  | settled
deriving DecidableEq

/-- One call of `submitFn`. -/
structure Attempt where
  phase : Phase
  /-- `signal.aborted` -/
  aborted : Bool
  /-- the race was lost to the timer -/
  timedOut : Bool
deriving DecidableEq

/-- An attempt begins with fetching the account. -/
def Attempt.start : Attempt := ⟨.fetching, false, false⟩

/-- Where the loop of `withRetry` is. -/
inductive RetryLoop
  /-- in `Promise.race` with the last attempt -/
  | racing
  /-- in `sequenceRefetch` -/
  | refetching (lastError : Failure)
  /-- in `sleep` -/
  | sleeping (lastError : Failure)
  | returned (hash : String)
  | rejected (error : Failure)
deriving DecidableEq

/-- The options of `withRetry`. -/
structure RetryConfig where
  maxRetries : JsNumber
  /-- as text. When the timer fires is up to the completions -/
  timeoutMs : String
  /-- what the observer throws when it is told of a retry after an attempt -/
  onRetry : ℕ → Option Failure

/-- A call of `submitSorobanOperation`. -/
structure Submission where
  attempts : List Attempt
  loop : RetryLoop
deriving DecidableEq

/-- Something that a call waits for, with its result. -/
inductive Completion
  | fetched (attempt : ℕ) (result : Except Failure Unit)
  | prepared (attempt : ℕ) (result : Except Failure Unit)
  /-- also an answer whose status is `ERROR` -/
  | sent (attempt : ℕ) (result : Except Failure String)
  | timerFired (attempt : ℕ)
  | refetched (result : Except Failure Unit)
  | slept

namespace Submission

variable (config : RetryConfig) (s : Submission)

/-- The `a`th attempt, once it was made. -/
def attempt? (a : ℕ) : Option Attempt := s.attempts[a]?

/-- The phase of an attempt, if there is one. -/
def phase? (a : ℕ) : Option Phase := (s.attempt? a).map (·.phase)

/-- The attempt goes on to the phase. -/
def setPhase (a : ℕ) (phase : Phase) : Submission :=
  { s with attempts := s.attempts.modify a fun attempt => { attempt with phase } }

/-- Is the loop in its race with this attempt. -/
def Racing (a : ℕ) : Prop := a + 1 = s.attempts.length ∧ s.loop = .racing

instance (a : ℕ) : Decidable (s.Racing a) := inferInstanceAs (Decidable (_ ∧ _))

/-- The `catch` block, up to its first `await`. -/
def caught (attempt : ℕ) (lastError : Failure) : RetryLoop :=
  if lastError.category = .terminalInvalid then .rejected lastError
  else if config.maxRetries.le (.ofNat attempt) then .rejected lastError
  else
    match config.onRetry attempt with
    | some error => .rejected error
    | none =>
      if lastError.category = .retryableSequence then .refetching lastError else .sleeping lastError

/-- The promise of an attempt settles. Only the race that the loop is in takes notice. -/
def settle (a : ℕ) (result : Except Failure String) : Submission :=
  if s.Racing a then
    { s.setPhase a .settled with
      loop :=
        match result with
        | .ok hash => .returned hash
        | .error error => caught config a error }
  else s.setPhase a .settled

/-- The head of the loop for the attempt with this number. -/
def enter (attempts : List Attempt) (otherwise : Failure) : Submission :=
  if (JsNumber.ofNat attempts.length).le config.maxRetries then
    { attempts := attempts ++ [.start], loop := .racing }
  else { attempts, loop := .rejected otherwise }

/-- A call that has just been made. -/
def begin : Submission := enter config [] exhaustedError

/-- One step. A completion that nothing waits for changes nothing. -/
def step : Completion → Submission
  | .fetched a result =>
    if s.phase? a = some .fetching then
      match result with
      | .ok () => s.setPhase a .preparing
      | .error error => s.settle config a (.error error)
    else s
  | .prepared a result =>
    if s.phase? a = some .preparing then
      match result with
      | .ok () =>
        -- `prepared.sign`, then the look at the signal
        if (s.attempt? a).any (·.aborted) then s.settle config a (.error abortedError)
        else s.setPhase a .sending
      | .error error => s.settle config a (.error error)
    else s
  | .sent a result =>
    if s.phase? a = some .sending then s.settle config a result else s
  | .timerFired a =>
    -- the controller of the attempt is not told
    if s.Racing a then
      { attempts := s.attempts.modify a fun attempt => { attempt with timedOut := true }
        loop := caught config a (timeoutError config.timeoutMs) }
    else s
  | .refetched result =>
    match s.loop, result with
    | .refetching lastError, .ok () => { s with loop := .sleeping lastError }
    | .refetching _, .error error => { s with loop := .rejected (refetchError error) }
    | _, _ => s
  | .slept =>
    match s.loop with
    | .sleeping lastError => enter config s.attempts lastError
    | _ => s

/-- The call after a sequence of completions. -/
def run (completions : List Completion) : Submission := completions.foldl (step config) (begin config)

end Submission

end LineProof.Sdk
