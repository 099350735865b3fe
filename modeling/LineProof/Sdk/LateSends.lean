import LineProof.Sdk.Retry

/-!
# Attempts that submit after they were given up

An attempt that loses its race to the timer goes on in the background. It would stop before
`sendTransaction` if its signal were aborted, but `withRetry` keeps the controller to itself and never
aborts it. So an attempt that was given up submits exactly when its `prepareTransaction` succeeds late.
-/

namespace LineProof.Sdk.Submission

variable {config : RetryConfig} {s : Submission} {a b : ℕ}

/-! ## Reading one attempt -/

/-- A phase is set for one attempt. -/
theorem attempt?_setPhase (phase : Phase) :
    (s.setPhase a phase).attempt? b =
      (s.attempt? b).map fun attempt => if a = b then { attempt with phase } else attempt := by
  rw [attempt?, setPhase, List.getElem?_modify]
  rfl

/-- A phase is set for one attempt. -/
theorem phase?_setPhase (phase : Phase) :
    (s.setPhase a phase).phase? b = if a = b then (s.phase? b).map fun _ => phase else s.phase? b := by
  rw [phase?, attempt?_setPhase, phase?]
  split <;> cases s.attempt? b <;> rfl

/-- To settle an attempt sets its phase. -/
theorem settle_attempts (result : Except Failure String) :
    (s.settle config a result).attempts = (s.setPhase a .settled).attempts := by
  unfold settle
  split <;> rfl

/-- To settle an attempt sets its phase. -/
theorem phase?_settle (result : Except Failure String) :
    (s.settle config a result).phase? b = (s.setPhase a .settled).phase? b := by
  rw [phase?, attempt?, settle_attempts]
  rfl

/-- Losing the race to the timer is not noticed by the attempt. -/
theorem phase?_timesOut (loop : RetryLoop) :
    ({ attempts := s.attempts.modify a fun attempt => { attempt with timedOut := true }, loop } :
      Submission).phase? b = s.phase? b := by
  rw [phase?, phase?, attempt?, attempt?, List.getElem?_modify]
  cases s.attempts[b]? with
  | none => rfl
  | some attempt =>
    show some ((if a = b then _ else attempt : Attempt).phase) = some attempt.phase
    split <;> rfl

/-! ## What one completion does -/

/-- The kinds of steps. -/
inductive Effect (config : RetryConfig) (s : Submission) : Completion → Submission → Prop
  | idle {c : Completion} : Effect config s c s
  | prepares {a : ℕ} (h : s.phase? a = some .fetching) :
    Effect config s (.fetched a (.ok ())) (s.setPhase a .preparing)
  | sends {a : ℕ} (h : s.phase? a = some .preparing)
      (hsignal : (s.attempt? a).any (·.aborted) = false) :
    Effect config s (.prepared a (.ok ())) (s.setPhase a .sending)
  | settles {c : Completion} {a : ℕ} (result : Except Failure String) :
    Effect config s c (s.settle config a result)
  | timesOut {a : ℕ} (h : s.Racing a) :
    Effect config s (.timerFired a)
      { attempts := s.attempts.modify a fun attempt => { attempt with timedOut := true }
        loop := caught config a (timeoutError config.timeoutMs) }
  | refetches {result : Except Failure Unit} {loop : RetryLoop} (h : s.loop ≠ .racing)
      (h' : loop ≠ .racing) : Effect config s (.refetched result) { s with loop }
  | wakes {lastError : Failure} (h : s.loop = .sleeping lastError) :
    Effect config s .slept (enter config s.attempts lastError)

/-- Every step is of one of the kinds. -/
theorem effect_step (config : RetryConfig) (s : Submission) (c : Completion) :
    Effect config s c (step config s c) := by
  cases c with
  | fetched a result =>
    simp only [step]
    split
    · case _ hphase =>
      cases result with
      | ok u => exact .prepares hphase
      | error error => exact .settles _
    · exact .idle
  | prepared a result =>
    simp only [step]
    split
    · case _ hphase =>
      cases result with
      | ok u =>
        by_cases hsignal : (s.attempt? a).any (·.aborted) = true
        · simp only [hsignal, if_true]
          exact .settles _
        · simp only [hsignal]
          exact .sends hphase (by simpa using hsignal)
      | error error => exact .settles _
    · exact .idle
  | sent a result =>
    simp only [step]
    split
    · exact .settles _
    · exact .idle
  | timerFired a =>
    simp only [step]
    split
    · case _ hracing => exact .timesOut hracing
    · exact .idle
  | refetched result =>
    simp only [step]
    split
    · case _ hloop => exact .refetches (by rw [hloop]; simp) (by simp)
    · case _ hloop => exact .refetches (by rw [hloop]; simp) (by simp)
    · exact .idle
  | slept =>
    simp only [step]
    split
    · case _ hloop => exact .wakes hloop
    · exact .idle

/-- The loop starts at most one attempt. -/
theorem enter_attempts (config : RetryConfig) (attempts : List Attempt) (error : Failure) :
    (enter config attempts error).attempts = attempts ∨
      (enter config attempts error).attempts = attempts ++ [.start] := by
  unfold enter
  split
  · exact .inr rfl
  · exact .inl rfl

/-! ## Every state of a call -/

/-- What holds at the start and after every step holds of every state of a call. -/
theorem run_invariant {I : Submission → Prop} (start : I (begin config))
    (step : ∀ s c s', Effect config s c s' → I s → I s') (completions : List Completion) :
    I (run config completions) := by
  induction completions using List.reverseRecOn with
  | nil => exact start
  | append_singleton completions c ih =>
    rw [run, List.foldl_append]
    exact step _ c _ (effect_step config _ c) ih

/-- No signal is aborted. -/
def NoneAborted (s : Submission) : Prop := ∀ attempt ∈ s.attempts, attempt.aborted = false

/-- What leaves the signals alone aborts none. -/
theorem NoneAborted.modify (h : s.NoneAborted) {f : Attempt → Attempt}
    (hf : ∀ attempt, (f attempt).aborted = attempt.aborted) :
    ∀ attempt ∈ s.attempts.modify a f, attempt.aborted = false := by
  intro attempt hmem
  obtain ⟨i, hi⟩ := List.mem_iff_getElem?.mp hmem
  rw [List.getElem?_modify] at hi
  obtain ⟨old, hold, rfl⟩ := Option.map_eq_some_iff.mp hi
  have hfalse := h old (List.mem_of_getElem? hold)
  split
  · rw [hf, hfalse]
  · exact hfalse

/-- A new attempt has a signal that is not aborted. -/
theorem NoneAborted.enter (h : s.NoneAborted) (error : Failure) :
    (enter config s.attempts error).NoneAborted := by
  intro attempt hmem
  rcases enter_attempts config s.attempts error with hsame | hmore
  · rw [hsame] at hmem
    exact h attempt hmem
  · rw [hmore, List.mem_append, List.mem_singleton] at hmem
    rcases hmem with hold | rfl
    · exact h attempt hold
    · rfl

/-- No signal is ever aborted. -/
theorem run_noneAborted (config : RetryConfig) (completions : List Completion) :
    (run config completions).NoneAborted := by
  apply run_invariant
  · have hnone : ({ attempts := [], loop := .racing } : Submission).NoneAborted := by
      intro attempt hmem
      simp at hmem
    exact hnone.enter exhaustedError
  · intro s c s' heffect h
    cases heffect with
    | idle => exact h
    | prepares => exact h.modify fun _ => rfl
    | sends => exact h.modify fun _ => rfl
    | settles result =>
      rw [NoneAborted, settle_attempts]
      exact h.modify fun _ => rfl
    | timesOut => exact h.modify fun _ => rfl
    | refetches => exact h
    | wakes => exact h.enter _

/-! ## Who is still at work -/

/-- Only one attempt is in the race. -/
theorem Racing.unique (ha : s.Racing a) (hb : s.Racing b) : a = b := by
  have hlen : a + 1 = b + 1 := ha.1.trans hb.1.symm
  omega

/-- An attempt that has not settled is in the race, or lost its race to the timer. -/
def Accounted (s : Submission) : Prop :=
  ∀ a attempt, s.attempt? a = some attempt →
    attempt.phase = .settled ∨ attempt.timedOut = true ∨ s.Racing a

/-- An attempt that goes on stays accounted for. -/
theorem Accounted.setPhase (h : s.Accounted) {phase old : Phase} (hold : s.phase? a = some old)
    (hne : old ≠ .settled) : (s.setPhase a phase).Accounted := by
  have hracing : ∀ b, s.Racing b → (s.setPhase a phase).Racing b := by
    intro b hb
    exact ⟨by rw [Submission.setPhase, List.length_modify]; exact hb.1, hb.2⟩
  intro b attempt hb
  rw [attempt?_setPhase] at hb
  obtain ⟨before, hbefore, rfl⟩ := Option.map_eq_some_iff.mp hb
  split
  · case _ hab =>
    subst hab
    have hphase : before.phase = old := by simpa [phase?, hbefore] using hold
    rcases h a before hbefore with hsettled | htimedOut | hrace
    · exact absurd (hphase.symm.trans hsettled) hne
    · exact .inr (.inl htimedOut)
    · exact .inr (.inr (hracing a hrace))
  · rcases h b before hbefore with hsettled | htimedOut | hrace
    · exact .inl hsettled
    · exact .inr (.inl htimedOut)
    · exact .inr (.inr (hracing b hrace))

/-- An attempt that settles is accounted for. -/
theorem Accounted.settle (h : s.Accounted) (result : Except Failure String) :
    (s.settle config a result).Accounted := by
  intro b attempt hb
  rw [attempt?, settle_attempts] at hb
  have hb' : (s.setPhase a .settled).attempt? b = some attempt := hb
  rw [attempt?_setPhase] at hb'
  obtain ⟨before, hbefore, rfl⟩ := Option.map_eq_some_iff.mp hb'
  split
  · exact .inl rfl
  · case _ hab =>
    rcases h b before hbefore with hsettled | htimedOut | hrace
    · exact .inl hsettled
    · exact .inr (.inl htimedOut)
    · -- the race is with `b`, so it goes on
      have hother : ¬ s.Racing a := fun ha => hab (ha.unique hrace)
      have hsame : s.settle config a result = s.setPhase a .settled := if_neg hother
      rw [hsame]
      exact .inr (.inr ⟨by rw [Submission.setPhase, List.length_modify]; exact hrace.1, hrace.2⟩)

/-- An attempt that loses to the timer is accounted for. -/
theorem Accounted.timesOut (h : s.Accounted) (ha : s.Racing a) (loop : RetryLoop) :
    Accounted
      { attempts := s.attempts.modify a fun attempt => { attempt with timedOut := true }, loop } := by
  intro b attempt hb
  rw [attempt?, List.getElem?_modify] at hb
  obtain ⟨before, hbefore, rfl⟩ := Option.map_eq_some_iff.mp hb
  split
  · exact .inr (.inl rfl)
  · case _ hab =>
    rcases h b before hbefore with hsettled | htimedOut | hrace
    · exact .inl hsettled
    · exact .inr (.inl htimedOut)
    · exact absurd (ha.unique hrace) hab

/-- Outside a race, every attempt has settled or lost its race to the timer. -/
theorem Accounted.of_not_racing (h : s.Accounted) (hloop : s.loop ≠ .racing) {attempt : Attempt}
    (ha : s.attempt? a = some attempt) : attempt.phase = .settled ∨ attempt.timedOut = true := by
  rcases h a attempt ha with hsettled | htimedOut | hrace
  · exact .inl hsettled
  · exact .inr htimedOut
  · exact absurd hrace.2 hloop

/-- A new attempt is in the race. -/
theorem Accounted.enter (h : s.Accounted) (hloop : s.loop ≠ .racing) (error : Failure) :
    (enter config s.attempts error).Accounted := by
  unfold Submission.enter
  split
  · intro b attempt hb
    rw [attempt?, List.getElem?_append] at hb
    split at hb
    · rcases h.of_not_racing hloop hb with hsettled | htimedOut
      · exact .inl hsettled
      · exact .inr (.inl htimedOut)
    · case _ hlen =>
      have hlt : b - s.attempts.length < [Attempt.start].length := (List.getElem?_eq_some_iff.mp hb).1
      rw [List.length_singleton] at hlt
      refine .inr (.inr ⟨?_, rfl⟩)
      show b + 1 = (s.attempts ++ [Attempt.start]).length
      rw [List.length_append, List.length_singleton]
      omega
  · intro b attempt hb
    rcases h.of_not_racing hloop hb with hsettled | htimedOut
    · exact .inl hsettled
    · exact .inr (.inl htimedOut)

/-- Every attempt is accounted for in every reachable state. -/
theorem run_accounted (config : RetryConfig) (completions : List Completion) :
    (run config completions).Accounted := by
  apply run_invariant
  · have hnone : ({ attempts := [], loop := .rejected exhaustedError } : Submission).Accounted := by
      intro a attempt ha
      simp [attempt?] at ha
    exact hnone.enter (by simp) exhaustedError
  · intro s c s' heffect h
    cases heffect with
    | idle => exact h
    | prepares hphase => exact h.setPhase hphase (by decide)
    | sends hphase => exact h.setPhase hphase (by decide)
    | settles result => exact h.settle result
    | timesOut hracing => exact h.timesOut hracing _
    | refetches hloop =>
      intro a attempt ha
      rcases h.of_not_racing hloop ha with hsettled | htimedOut
      · exact .inl hsettled
      · exact .inr (.inl htimedOut)
    | wakes hloop => exact h.enter (by rw [hloop]; simp) _

/-! ## Late sends -/

/-- The attempt was given up: its timer fired, and the next attempt has started or the call was
rejected. -/
def GaveUp (s : Submission) (a : ℕ) : Prop :=
  (s.attempt? a).any (·.timedOut) = true ∧
    (a + 1 < s.attempts.length ∨ ∃ error, s.loop = .rejected error)

/-- The attempt calls `sendTransaction` in reaction to the completion. -/
def Sends (config : RetryConfig) (s : Submission) (c : Completion) (a : ℕ) : Prop :=
  s.phase? a ≠ some .sending ∧ (step config s c).phase? a = some .sending

/-- Only the preparation of its own transaction makes an attempt send. -/
theorem prepared_of_sends (hsends : Sends config s c a) :
    c = .prepared a (.ok ()) ∧ s.phase? a = some .preparing := by
  obtain ⟨hbefore, hafter⟩ := hsends
  have heffect := effect_step config s c
  generalize step config s c = s' at heffect hafter
  cases heffect with
  | idle => exact absurd hafter hbefore
  | @prepares b hphase =>
    rw [phase?_setPhase] at hafter
    split at hafter
    · case _ hab =>
      subst hab
      simp [hphase] at hafter
    · exact absurd hafter hbefore
  | @sends b hphase hsignal =>
    by_cases hab : b = a
    · subst hab
      exact ⟨rfl, hphase⟩
    · rw [phase?_setPhase, if_neg hab] at hafter
      exact absurd hafter hbefore
  | @settles c b result =>
    rw [phase?_settle, phase?_setPhase] at hafter
    split at hafter
    · cases hphase : s.phase? a with
      | none => simp [hphase] at hafter
      | some phase => simp [hphase] at hafter
    · exact absurd hafter hbefore
  | @timesOut b hracing =>
    rw [phase?_timesOut] at hafter
    exact absurd hafter hbefore
  | refetches => exact absurd hafter hbefore
  | wakes hloop =>
    rw [phase?, attempt?] at hafter hbefore
    rcases enter_attempts config s.attempts _ with hsame | hmore
    · rw [hsame] at hafter
      exact absurd hafter hbefore
    · rw [hmore, List.getElem?_append] at hafter
      split at hafter
      · exact absurd hafter hbefore
      · -- the new attempt is fetching
        rw [List.getElem?_singleton] at hafter
        split at hafter <;> simp [Attempt.start] at hafter

/-- An attempt whose preparation succeeds sends. -/
theorem sends_of_prepared (h : s.NoneAborted) (hphase : s.phase? a = some .preparing) :
    Sends config s (.prepared a (.ok ())) a := by
  have hsignal : (s.attempt? a).any (·.aborted) = false := by
    cases hattempt : s.attempt? a with
    | none => rfl
    | some attempt => exact h attempt (List.mem_of_getElem? hattempt)
  refine ⟨by rw [hphase]; simp, ?_⟩
  simp only [step, hphase, hsignal, if_true]
  simp [phase?_setPhase, hphase]

/-- With no signal aborted, an attempt sends as soon as its transaction is prepared. -/
theorem sends_iff (h : s.NoneAborted) (c : Completion) :
    Sends config s c a ↔ c = .prepared a (.ok ()) ∧ s.phase? a = some .preparing := by
  constructor
  · exact prepared_of_sends
  · rintro ⟨rfl, hphase⟩
    exact sends_of_prepared h hphase

/-- An attempt that sends is in the race, or lost its race to the timer. -/
theorem sends_racing_or_timedOut {completions : List Completion} {c : Completion}
    (h : Sends config (run config completions) c a) :
    (run config completions).Racing a ∨
      ((run config completions).attempt? a).any (·.timedOut) = true := by
  obtain ⟨-, hphase⟩ := (sends_iff (run_noneAborted config completions) c).mp h
  obtain ⟨attempt, hattempt, hpreparing⟩ := Option.map_eq_some_iff.mp hphase
  rcases run_accounted config completions a attempt hattempt with hsettled | htimedOut | hrace
  · rw [hpreparing] at hsettled
    simp at hsettled
  · exact .inr (by simp [hattempt, htimedOut])
  · exact .inl hrace

/-- The attempt has been started, and has neither settled nor lost its race to the timer. -/
def AtWork (s : Submission) (a : ℕ) : Prop :=
  ∃ attempt, s.attempt? a = some attempt ∧ attempt.phase ≠ .settled ∧ attempt.timedOut = false

/-- At any time one attempt at most is at work, the newest one, and whatever is sent, it sends or an attempt
that the timer has beaten. -/
theorem one_attempt_at_work (config : RetryConfig) (completions : List Completion) (a : ℕ) :
    ((run config completions).AtWork a →
      a + 1 = (run config completions).attempts.length ∧ (run config completions).loop = .racing) ∧
      ∀ c, Sends config (run config completions) c a →
        (run config completions).Racing a ∨
          ((run config completions).attempt? a).any (·.timedOut) = true := by
  refine ⟨?_, fun c hsends => sends_racing_or_timedOut hsends⟩
  rintro ⟨attempt, hattempt, hphase, htimer⟩
  rcases run_accounted config completions a attempt hattempt with hsettled | htimedOut | hrace
  · exact absurd hsettled hphase
  · rw [htimer] at htimedOut
    contradiction
  · exact hrace

/-- No attempt sends after it was given up. Then of two attempts that send, the earlier one did so
before it was given up. -/
structure NeverLate (config : RetryConfig) (completions : List Completion) : Prop where
  notLate : ∀ before c after a, completions = before ++ c :: after →
    Sends config (run config before) c a → ¬ (run config before).GaveUp a
  notTwice : ∀ a b, a < b →
    (∃ before c after, completions = before ++ c :: after ∧ Sends config (run config before) c a) →
    (∃ before c after, completions = before ++ c :: after ∧ Sends config (run config before) c b) →
    ∃ before c after, completions = before ++ c :: after ∧ Sends config (run config before) c a ∧
      ¬ (run config before).GaveUp a

/-- No `prepareTransaction` of an attempt succeeds after the attempt was given up. -/
def PreparedInTime (config : RetryConfig) (completions : List Completion) : Prop :=
  ∀ before a after, completions = before ++ .prepared a (.ok ()) :: after →
    (run config before).phase? a = some .preparing → ¬ (run config before).GaveUp a

/-- No attempt sends after it was given up, exactly when no preparation succeeds after that. -/
theorem neverLate_iff (config : RetryConfig) (completions : List Completion) :
    NeverLate config completions ↔ PreparedInTime config completions := by
  constructor
  · intro h before a after hsplit hphase
    have hsends : Sends config (run config before) (.prepared a (.ok ())) a :=
      (sends_iff (run_noneAborted config before) _).mpr ⟨rfl, hphase⟩
    exact h.notLate before _ after a hsplit hsends
  · intro h
    have hlate : ∀ before c after a, completions = before ++ c :: after →
        Sends config (run config before) c a → ¬ (run config before).GaveUp a := by
      intro before c after a hsplit hsends
      obtain ⟨rfl, hphase⟩ := (sends_iff (run_noneAborted config before) c).mp hsends
      exact h before a after hsplit hphase
    refine ⟨hlate, ?_⟩
    intro a b _ hfirst _
    obtain ⟨before, c, after, hsplit, hsends⟩ := hfirst
    exact ⟨before, c, after, hsplit, hsends, hlate before c after a hsplit hsends⟩

/-- One retry, and nobody watching. -/
def oneRetry : RetryConfig := ⟨.ofNat 1, "30000", fun _ => none⟩

/-- The first attempt times out, and the second submits. -/
def secondSends : List Completion :=
  [.fetched 0 (.ok ()), .timerFired 0, .slept, .fetched 1 (.ok ()), .prepared 1 (.ok ())]

/-- After the first attempt lost to its timer the second one sends. -/
theorem run_secondSends : run oneRetry secondSends =
    ⟨[⟨.preparing, false, true⟩, ⟨.sending, false, false⟩], .racing⟩ := by
  decide +kernel

/-- When its transaction is prepared at last, the first attempt submits as well. -/
theorem first_attempt_late : ¬ ∀ (config : RetryConfig) (completions : List Completion),
    NeverLate config completions := by
  intro h
  have hphase : (run oneRetry secondSends).phase? 0 = some .preparing := by
    rw [run_secondSends]
    rfl
  have hgaveUp : (run oneRetry secondSends).GaveUp 0 := by
    rw [run_secondSends]
    exact ⟨rfl, .inl (by decide)⟩
  have hsends : Sends oneRetry (run oneRetry secondSends) (.prepared 0 (.ok ())) 0 :=
    (sends_iff (run_noneAborted oneRetry secondSends) _).mpr ⟨rfl, hphase⟩
  have hlate := h oneRetry (secondSends ++ [.prepared 0 (.ok ())])
  exact hlate.notLate secondSends _ [] 0 rfl hsends hgaveUp

end LineProof.Sdk.Submission
