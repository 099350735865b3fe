import LineProof.Backend.RateLimiter

/-!
# Limiters on one adapter

Reference: `backend/src/middleware/rateLimiter.ts`.

All limiters of the server keep their windows and counters in `defaultMemoryAdapter`, in namespaces made
with their ids. A limiter treats the requests of a key as if it had the adapter to itself and there were no
other keys, so neither the traffic of another route nor that of another address uses up a quota
(`limiters_independent`).
-/

namespace LineProof.Backend

/-- The limiters of a server, where the limiter `i` was created with `options i`. -/
def limiters (options : ℕ → RateLimitOptions) :
    Transactional (MemoryAdapter WindowMeta) (ℕ × Request) Reply Empty where
  exec call store := .ok (rateLimiter (createRateLimiter call.1 (options call.1)) call.2 store)

/-- The request, if it is one of `key` to the limiter `i`. -/
def requestOf (i : ℕ) (key : String) (call : ℕ × Request) : Option Request :=
  if call.1 = i ∧ call.2.key = key then some call.2 else none

/-! ### Namespaces -/

/-- Different ids have different texts. -/
theorem toString_inj {i j : ℕ} (h : toString i = toString j) : i = j := by
  rw [Nat.toString_eq_ofList_toDigits, Nat.toString_eq_ofList_toDigits, String.ofList_inj] at h
  rw [← Nat.ofDigitChars_ten_toDigits (n := i), ← Nat.ofDigitChars_ten_toDigits (n := j), h]

variable {i j : ℕ} {options options' : RateLimitOptions}

/-- Two limiters do not share their windows. -/
theorem winNs_inj (h : (createRateLimiter i options).winNs = (createRateLimiter j options').winNs) :
    i = j :=
  toString_inj ((String.append_right_inj _).mp h)

/-- Two limiters do not share their counters. -/
theorem cntNs_inj (h : (createRateLimiter i options).cntNs = (createRateLimiter j options').cntNs) :
    i = j :=
  toString_inj ((String.append_right_inj _).mp h)

/-- No limiter counts in another's windows. -/
theorem winNs_ne_cntNs (i j : ℕ) (options options' : RateLimitOptions) :
    (createRateLimiter i options).winNs ≠ (createRateLimiter j options').cntNs := by
  intro h
  have hlist : "ratelimit:win:".toList ++ (toString i).toList =
      "ratelimit:cnt:".toList ++ (toString j).toList := by
    rw [← String.toList_append, ← String.toList_append]
    exact congrArg String.toList h
  have hlength : "ratelimit:win:".toList.length = "ratelimit:cnt:".toList.length := by decide
  exact absurd (List.append_inj_left hlist hlength) (by decide)

namespace MemoryAdapter

variable {α : Type*} {store alone : MemoryAdapter α} {name name' key key' : String}

/-- A write is seen in its namespace under its key only. -/
theorem get_set_other {value : α} (h : name = name' → key ≠ key') :
    (store.set name key value).get name' key' = store.get name' key' := by
  by_cases hname : name' = name
  · subst hname
    exact get_set_of_ne (h rfl).symm
  · simp [get, set, ns, InsertionMap.get_set_of_ne hname]

/-- An increment touches one counter of one namespace. -/
theorem counter_increment_other {amount : ℕ} {ttlMs : Option ℚ} {now : ℚ}
    (h : name = name' → key ≠ key') :
    (store.increment name key amount ttlMs now).2.counter name' key' = store.counter name' key' := by
  by_cases hname : name' = name
  · subst hname
    exact counter_setCounter_of_ne (h rfl).symm
  · simp [increment, counter, setCounter, counterNs, InsertionMap.get_set_of_ne hname]

/-- An increment depends on its own counter only. -/
theorem increment_congr (amount : ℕ) (ttlMs : Option ℚ) (now : ℚ)
    (h : store.counter name key = alone.counter name key) :
    (store.increment name key amount ttlMs now).1 = (alone.increment name key amount ttlMs now).1 ∧
      (store.increment name key amount ttlMs now).2.counter name key =
        (alone.increment name key amount ttlMs now).2.counter name key := by
  simp only [increment, h, counter_setCounter_self, and_self]

end MemoryAdapter

/-! ### One request -/

/-- The adapters are the same to the limiter at `key`. -/
structure SameTo (limiter : RateLimiter) (key : String) (store alone : MemoryAdapter WindowMeta) :
    Prop where
  window : store.get limiter.winNs key = alone.get limiter.winNs key
  counter : store.counter limiter.cntNs key = alone.counter limiter.cntNs key

variable {limiter limiter' : RateLimiter} {key : String} {req : Request}
  {store alone : MemoryAdapter WindowMeta}

/-- The stored window is found as if the limiter were alone. -/
theorem SameTo.foundWindow (h : SameTo limiter req.key store alone) :
    foundWindow limiter req store = foundWindow limiter req alone := by
  rw [Backend.foundWindow, h.window, ← Backend.foundWindow]

/-- The window in force is as if the limiter were alone. -/
theorem SameTo.currentReset (h : SameTo limiter req.key store alone)
    (hns : limiter.winNs ≠ limiter.cntNs) :
    (currentReset limiter req store).1 = (currentReset limiter req alone).1 ∧
      SameTo limiter req.key (currentReset limiter req store).2 (currentReset limiter req alone).2 := by
  refine ⟨?_, ?_, ?_⟩
  · rw [Backend.currentReset, Backend.currentReset, h.foundWindow]
    split <;> rfl
  · rw [Backend.currentReset, Backend.currentReset, h.foundWindow]
    split
    · rw [MemoryAdapter.get_delete_of_ne hns, MemoryAdapter.get_delete_of_ne hns,
        MemoryAdapter.get_set_self, MemoryAdapter.get_set_self]
    · exact h.window
  · rw [counter_currentReset, counter_currentReset]
    exact h.counter

/-- The reply to a request that is the `count`-th of its window. -/
def replyTo (limiter : RateLimiter) (req : Request) (resetAt : ℚ) (count : ℕ) : Reply :=
  let headers : RateLimitHeaders :=
    { limit := limiter.max, remaining := limiter.max - count, reset := ⌈resetAt / 1000⌉ }
  if limiter.max < count then
    .error headers ⌈(resetAt - req.now) / 1000⌉ limiter.statusCode limiter.message
  else .next headers

/-- The answer depends on the window and the counter. -/
theorem rateLimiter_reply : (rateLimiter limiter req store).1 =
    replyTo limiter req (currentReset limiter req store).1 (counted limiter req store).1 := by
  simp only [rateLimiter, counted, replyTo]
  exact apply_ite Prod.fst _ _ _

/-- A request is answered the same by adapters that are the same to its limiter at its key. -/
theorem SameTo.step (h : SameTo limiter req.key store alone) (hns : limiter.winNs ≠ limiter.cntNs) :
    (rateLimiter limiter req store).1 = (rateLimiter limiter req alone).1 ∧
      SameTo limiter req.key (rateLimiter limiter req store).2 (rateLimiter limiter req alone).2 := by
  obtain ⟨hreset, hsame⟩ := h.currentReset hns
  obtain ⟨hcount, hcounter⟩ :=
    MemoryAdapter.increment_congr 1 (some limiter.windowMs) req.later hsame.counter
  refine ⟨?_, ?_, ?_⟩
  · rw [rateLimiter_reply, rateLimiter_reply, hreset, counted, counted, hcount]
  · rw [rateLimiter_store, rateLimiter_store, counted, counted, MemoryAdapter.get_increment,
      MemoryAdapter.get_increment]
    exact hsame.window
  · rw [rateLimiter_store, rateLimiter_store, counted, counted]
    exact hcounter

/-- A request to another limiter, or of another key, changes nothing that is the limiter's at `key`. -/
theorem SameTo.skip (h : SameTo limiter key store alone)
    (hwin : limiter'.winNs = limiter.winNs → req.key ≠ key)
    (hcnt : limiter'.cntNs = limiter.cntNs → req.key ≠ key)
    (hns : limiter.winNs ≠ limiter'.cntNs) :
    SameTo limiter key (rateLimiter limiter' req store).2 alone := by
  constructor
  · rw [rateLimiter_store, counted, MemoryAdapter.get_increment, ← h.window, Backend.currentReset]
    split
    · rw [MemoryAdapter.get_delete_of_ne hns, MemoryAdapter.get_set_other hwin]
    · rfl
  · rw [rateLimiter_store, counted, MemoryAdapter.counter_increment_other hcnt, counter_currentReset]
    exact h.counter

/-! ### Every run -/

/-- Limiters that share one adapter answer each key as if that limiter had only that key's requests. -/
theorem limiters_independent (options : ℕ → RateLimitOptions) (calls : List (ℕ × Request)) (i : ℕ)
    (key : String) :
    (calls.zip ((limiters options).answers MemoryAdapter.empty calls)).filterMap
        (fun entry => (requestOf i key entry.1).map fun _ => entry.2) =
      (rateLimiting (createRateLimiter i (options i))).answers MemoryAdapter.empty
        (calls.filterMap (requestOf i key)) := by
  refine Transactional.answers_filterMap (SameTo (createRateLimiter i (options i)) key) ?_ ?_ ⟨rfl, rfl⟩
    calls
  · intro store alone call hother h
    obtain ⟨j, req⟩ := call
    have hnot : ¬ (j = i ∧ req.key = key) := by
      intro hown
      rw [requestOf, if_pos hown] at hother
      cases hother
    exact h.skip (fun hns hkey => hnot ⟨winNs_inj hns, hkey⟩)
      (fun hns hkey => hnot ⟨cntNs_inj hns, hkey⟩) (winNs_ne_cntNs _ _ _ _)
  · intro store alone call req hown h
    obtain ⟨j, req'⟩ := call
    by_cases hmine : j = i ∧ req'.key = key
    · rw [requestOf, if_pos hmine] at hown
      cases hown
      obtain ⟨rfl, rfl⟩ := hmine
      obtain ⟨hreply, hsame⟩ := h.step (winNs_ne_cntNs _ _ _ _)
      exact ⟨congrArg Except.ok hreply, hsame⟩
    · rw [requestOf, if_neg hmine] at hown
      cases hown

end LineProof.Backend
