import Mathlib.Algebra.Order.Field.Rat
import Mathlib.Data.Rat.Floor
import LineProof.Lib.InsertionMap
import LineProof.Lib.Transactional
import LineProof.Lib.Windows

/-!
# The rate limiter

Reference: `backend/src/middleware/rateLimiter.ts`, over `backend/src/storage/memoryAdapter.ts`.

The limiter keeps the end of a window among the values of the adapter, and the number of requests in it
among the counters. A new window deletes the *value* under the name of the counter, which was never set,
so the counter starts over only when it runs out itself, by a later reading of the clock. A limiter is
exact if the windows of the two readings cannot be told apart by the last `max` requests of a key
(`exact_iff`).

Times are in milliseconds.
-/

namespace LineProof.Backend

/-! ## The adapter -/

/-- A counter and the time it expires at. -/
structure CounterEntry where
  value : ℕ
  expiresAt : Option ℚ

/-- An adapter with values of type `α`. A namespace that is read first is created empty. -/
structure MemoryAdapter (α : Type*) where
  namespaces : InsertionMap String (InsertionMap String α)
  counters : InsertionMap String (InsertionMap String CounterEntry)

namespace MemoryAdapter

variable {α : Type*}

/-- `new MemoryAdapter()`. -/
def empty : MemoryAdapter α := ⟨∅, ∅⟩

/-- A namespace, empty until it is written to. -/
def ns (name : String) (store : MemoryAdapter α) : InsertionMap String α :=
  (store.namespaces.get name).getD ∅

/-- A namespace of counters, empty until it is written to. -/
def counterNs (name : String) (store : MemoryAdapter α) : InsertionMap String CounterEntry :=
  (store.counters.get name).getD ∅

/-- `Map.get` in the namespace. -/
def get (name key : String) (store : MemoryAdapter α) : Option α := (store.ns name).get key

/-- `Map.set` in the namespace. -/
def set (name key : String) (value : α) (store : MemoryAdapter α) : MemoryAdapter α :=
  { store with namespaces := store.namespaces.set name ((store.ns name).set key value) }

/-- `Map.delete` in the namespace; the counters of the same key stay. -/
def delete (name key : String) (store : MemoryAdapter α) : Bool × MemoryAdapter α :=
  ((store.get name key).isSome,
    { store with namespaces := store.namespaces.set name ((store.ns name).delete key) })

/-- The counter under `key`. -/
def counter (name key : String) (store : MemoryAdapter α) : Option CounterEntry :=
  (store.counterNs name).get key

/-- `Map.set` in the namespace of counters. -/
def setCounter (name key : String) (entry : CounterEntry) (store : MemoryAdapter α) : MemoryAdapter α :=
  { store with counters := store.counters.set name ((store.counterNs name).set key entry) }

/-- `increment`, where `now` is `Date.now()`. -/
def increment (name key : String) (amount : ℕ) (ttlMs : Option ℚ) (now : ℚ)
    (store : MemoryAdapter α) : ℕ × MemoryAdapter α :=
  let fresh : CounterEntry := { value := 0, expiresAt := ttlMs.map (now + ·) }
  let entry :=
    match store.counter name key with
    | none => fresh
    | some entry =>
      match entry.expiresAt with
      | some expiresAt => if expiresAt < now then fresh else entry
      | none => entry
  (entry.value + amount, store.setCounter name key { entry with value := entry.value + amount })

end MemoryAdapter

/-! ## The middleware -/

/-- When the window of a key ends. -/
structure WindowMeta where
  resetAt : ℚ

/-- What a limiter may be given. -/
structure RateLimitOptions where
  max : Option ℕ
  windowMs : Option ℚ
  statusCode : Option ℕ
  message : Option String

/-- What a limiter works with, once the defaults are filled in. -/
structure RateLimiter where
  max : ℕ
  windowMs : ℚ
  statusCode : ℕ
  message : String
  winNs : String
  cntNs : String

/-- `createRateLimiter`, where `id` is `limiterSeq++`. -/
def createRateLimiter (id : ℕ) (options : RateLimitOptions) : RateLimiter where
  max := options.max.getD 60
  windowMs := options.windowMs.getD 60000
  statusCode := options.statusCode.getD 429
  message := options.message.getD "Too many requests, please try again later."
  winNs := "ratelimit:win:" ++ toString id
  cntNs := "ratelimit:cnt:" ++ toString id

/-- A request, with the readings of the clock by the middleware and by `increment`. -/
structure Request where
  ip : Option String
  remoteAddress : Option String
  now : ℚ
  later : ℚ

/-- `(req.ip ?? req.socket.remoteAddress ?? 'unknown').replace(/^::ffff:/, '')`. -/
def Request.key (req : Request) : String :=
  let address := ((req.ip.or req.remoteAddress).getD "unknown").toList
  String.ofList ((address.dropPrefix? "::ffff:".toList).getD address)

/-- The headers `X-RateLimit-Limit`, `X-RateLimit-Remaining` and `X-RateLimit-Reset`. -/
structure RateLimitHeaders where
  limit : ℕ
  remaining : ℕ
  reset : ℤ

/-- What a limiter does with a request. -/
inductive Reply
  | next (headers : RateLimitHeaders)
  | error (headers : RateLimitHeaders) (retryAfter : ℤ) (status : ℕ) (message : String)

/-- The request goes on to the route. -/
def Reply.admits : Reply → Bool
  | .next _ => true
  | .error .. => false

/-- The window that a request finds, none if `!meta || now > meta.resetAt`. -/
def foundWindow (limiter : RateLimiter) (req : Request) (store : MemoryAdapter WindowMeta) :
    Option WindowMeta :=
  (store.get limiter.winNs req.key).filter fun window => ¬ window.resetAt < req.now

/-- The `resetAt` of a request, and the adapter with its window. -/
def currentReset (limiter : RateLimiter) (req : Request) (store : MemoryAdapter WindowMeta) :
    ℚ × MemoryAdapter WindowMeta :=
  match foundWindow limiter req store with
  | none =>
    let resetAt := req.now + limiter.windowMs
    let store := store.set limiter.winNs req.key { resetAt }
    (resetAt, (store.delete limiter.cntNs req.key).2)
  | some window => (window.resetAt, store)

/-- The window first, then the counter, then the answer. -/
def rateLimiter (limiter : RateLimiter) (req : Request) (store : MemoryAdapter WindowMeta) :
    Reply × MemoryAdapter WindowMeta :=
  let (resetAt, store) := currentReset limiter req store
  let (count, store) :=
    store.increment limiter.cntNs req.key 1 (some limiter.windowMs) req.later
  let headers : RateLimitHeaders :=
    { limit := limiter.max, remaining := limiter.max - count, reset := ⌈resetAt / 1000⌉ }
  if limiter.max < count then
    (.error headers ⌈(resetAt - req.now) / 1000⌉ limiter.statusCode limiter.message, store)
  else (.next headers, store)

/-- A limiter on its adapter. -/
def rateLimiting (limiter : RateLimiter) :
    Transactional (MemoryAdapter WindowMeta) Request Reply Empty where
  exec req store := .ok (rateLimiter limiter req store)

/-! ## Exactness -/

/-- What a limiter does, request by request. -/
def log (limiter : RateLimiter) (requests : List Request) : List (rateLimiting limiter).Commit :=
  (rateLimiting limiter).history MemoryAdapter.empty requests

/-- The commits of the requests of `key`. -/
def ofKey {limiter : RateLimiter} (key : String) (past : List (rateLimiting limiter).Commit) :
    List (rateLimiting limiter).Commit :=
  past.filter fun c => c.call.key = key

/-- The request opened a window. -/
def opensWindow {limiter : RateLimiter} (c : (rateLimiting limiter).Commit) : Bool :=
  (foundWindow limiter c.call c.pre).isNone

/-- In every window of a key exactly the first `max` requests are admitted. -/
def Exact (limiter : RateLimiter) (requests : List Request) : Prop :=
  ∀ key, ∀ window ∈ windows opensWindow (ofKey key (log limiter requests)),
    ExactlyFirst limiter.max (fun c => c.out.admits = true) window

/-- In every stretch of `max` requests of a key, or of all its requests so far if these are fewer, one
starts a window by the first readings of the clock exactly if one does by the second readings. -/
def ClocksAgree (limiter : RateLimiter) (requests : List Request) : Prop :=
  ∀ key, ∀ past, past <+: requests.filter (fun req => req.key = key) →
    (true ∈ (starts limiter.windowMs (past.map Request.now)).rtake limiter.max ↔
      true ∈ (starts limiter.windowMs (past.map Request.later)).rtake limiter.max)

/-! ### The adapter -/

namespace MemoryAdapter

variable {α : Type*} {store : MemoryAdapter α} {name name' key key' : String} {value : α}

/-- A value that was set is read back. -/
theorem get_set_self : (store.set name key value).get name key = some value := by
  simp [get, set, ns]

/-- To set a key leaves the others. -/
theorem get_set_of_ne (h : key' ≠ key) :
    (store.set name key value).get name key' = store.get name key' := by
  simp [get, set, ns, InsertionMap.get_set_of_ne h]

/-- To delete from a namespace leaves the others. -/
theorem get_delete_of_ne (h : name' ≠ name) :
    (store.delete name key).2.get name' key' = store.get name' key' := by
  simp [get, delete, ns, InsertionMap.get_set_of_ne h]

/-- No deletion reaches a counter. -/
theorem counter_delete : (store.delete name key).2.counter name' key' = store.counter name' key' := rfl

theorem counter_set : (store.set name key value).counter name' key' = store.counter name' key' := rfl

theorem get_increment {amount : ℕ} {ttlMs : Option ℚ} {now : ℚ} :
    (store.increment name key amount ttlMs now).2.get name' key' = store.get name' key' := rfl

/-- A counter that was set is read back. -/
theorem counter_setCounter_self {entry : CounterEntry} :
    (store.setCounter name key entry).counter name key = some entry := by
  simp [counter, setCounter, counterNs]

/-- To set a counter leaves the others. -/
theorem counter_setCounter_of_ne {entry : CounterEntry} (h : key' ≠ key) :
    (store.setCounter name key entry).counter name key' = store.counter name key' := by
  simp [counter, setCounter, counterNs, InsertionMap.get_set_of_ne h]

/-- A counter lives for the time `ttl` from its start, and then it starts over. -/
theorem increment_spec (amount : ℕ) (now : ℚ) {start : Option ℚ} {count : ℕ} {ttl : ℚ}
    (h : store.counter name key = start.map fun t => ⟨count, some (t + ttl)⟩) :
    (store.increment name key amount (some ttl) now).1 =
        (if isOver ttl start now then amount else count + amount) ∧
      (store.increment name key amount (some ttl) now).2.counter name key =
        (restart ttl start now).map fun t =>
          ⟨if isOver ttl start now then amount else count + amount, some (t + ttl)⟩ := by
  cases start with
  | none => simp [increment, h, isOver, restart, counter_setCounter_self]
  | some t =>
    by_cases hover : t + ttl < now <;>
      simp [increment, h, isOver, restart, counter_setCounter_self, hover]

end MemoryAdapter

/-! ### One request -/

variable {limiter : RateLimiter} {req : Request} {store : MemoryAdapter WindowMeta} {key : String}

/-- A limiter keeps its windows and its counters apart. -/
theorem createRateLimiter_ns (id : ℕ) (options : RateLimitOptions) :
    (createRateLimiter id options).winNs ≠ (createRateLimiter id options).cntNs := by
  intro h
  exact absurd ((String.append_left_inj (toString id)).mp h) (by decide)

/-- The count of a request, and the adapter after it. -/
def counted (limiter : RateLimiter) (req : Request) (store : MemoryAdapter WindowMeta) :
    ℕ × MemoryAdapter WindowMeta :=
  (currentReset limiter req store).2.increment limiter.cntNs req.key 1 (some limiter.windowMs) req.later

/-- The answer writes nothing. -/
theorem rateLimiter_store : (rateLimiter limiter req store).2 = (counted limiter req store).2 := by
  simp only [rateLimiter, counted]
  split <;> rfl

variable (limiter req store) in
/-- A request is let through while the counter is within the limit. -/
theorem rateLimiter_admits :
    (rateLimiter limiter req store).1.admits = true ↔ (counted limiter req store).1 ≤ limiter.max := by
  simp only [rateLimiter, counted]
  split
  · case _ h => exact iff_of_false Bool.false_ne_true (by omega)
  · case _ h => exact iff_of_true rfl (by omega)

variable (req) in
/-- A new window leaves the counter as it is. -/
theorem counter_currentReset {name : String} :
    (currentReset limiter req store).2.counter name key = store.counter name key := by
  unfold currentReset
  split
  · rw [MemoryAdapter.counter_delete, MemoryAdapter.counter_set]
  · rfl

/-- A request touches no window but its key's. -/
theorem get_currentReset_of_ne (hns : limiter.winNs ≠ limiter.cntNs) (h : key ≠ req.key) :
    (currentReset limiter req store).2.get limiter.winNs key = store.get limiter.winNs key := by
  unfold currentReset
  split
  · rw [MemoryAdapter.get_delete_of_ne hns, MemoryAdapter.get_set_of_ne h]
  · rfl

/-- The window of a request is over by its first reading. -/
theorem foundWindow_isNone {start : Option ℚ}
    (h : store.get limiter.winNs req.key = start.map fun t => ⟨t + limiter.windowMs⟩) :
    (foundWindow limiter req store).isNone = isOver limiter.windowMs start req.now := by
  rw [foundWindow, h]
  cases start with
  | none => rfl
  | some t =>
    by_cases hover : t + limiter.windowMs < req.now
    · simp [isOver, hover]
    · simp [isOver, hover, not_lt.mp hover]

/-- A request starts a window for its key when there is none that lasts. -/
theorem get_currentReset_self (hns : limiter.winNs ≠ limiter.cntNs) {start : Option ℚ}
    (h : store.get limiter.winNs req.key = start.map fun t => ⟨t + limiter.windowMs⟩) :
    (currentReset limiter req store).2.get limiter.winNs req.key =
      (restart limiter.windowMs start req.now).map fun t => ⟨t + limiter.windowMs⟩ := by
  have hover := foundWindow_isNone h
  unfold currentReset
  cases hfound : foundWindow limiter req store with
  | none =>
    rw [hfound, Option.isNone_none] at hover
    rw [restart, ← hover]
    simp only [MemoryAdapter.get_delete_of_ne hns, MemoryAdapter.get_set_self]
    rfl
  | some window =>
    rw [hfound, Option.isNone_some] at hover
    rw [restart, ← hover]
    exact h

/-! ### Runs -/

/-- How the adapter and the log of a key follow from the readings of its requests. -/
structure Clocked (limiter : RateLimiter) (key : String) (past : List (rateLimiting limiter).Commit)
    (store : MemoryAdapter WindowMeta) : Prop where
  window : store.get limiter.winNs key =
    (currentStart limiter.windowMs ((ofKey key past).map (·.call.now))).map
      fun t => ⟨t + limiter.windowMs⟩
  counter : store.counter limiter.cntNs key =
    (currentStart limiter.windowMs ((ofKey key past).map (·.call.later))).map
      fun t => ⟨rank id (starts limiter.windowMs ((ofKey key past).map (·.call.later))) + 1,
        some (t + limiter.windowMs)⟩
  opens : ∀ before, before <+: ofKey key past →
    before.map opensWindow = starts limiter.windowMs (before.map (·.call.now))
  admits : ∀ before c, before ++ [c] <+: ofKey key past →
    (c.out.admits = true ↔
      rank id (starts limiter.windowMs ((before ++ [c]).map (·.call.later))) < limiter.max)

/-- A request of another key is not among the key's. -/
theorem ofKey_concat_of_ne (past : List (rateLimiting limiter).Commit)
    {c : (rateLimiting limiter).Commit} (h : c.call.key ≠ key) :
    ofKey key (past ++ [c]) = ofKey key past := by
  rw [ofKey, List.filter_append, List.filter_singleton]
  simp [h, ofKey]

/-- A request is the last of its own key's. -/
theorem ofKey_concat_self {past : List (rateLimiting limiter).Commit}
    {c : (rateLimiting limiter).Commit} :
    ofKey c.call.key (past ++ [c]) = ofKey c.call.key past ++ [c] := by
  simp [ofKey, List.filter_append]

/-- No window has started at the beginning. -/
theorem clocked_empty : Clocked limiter key [] MemoryAdapter.empty where
  window := rfl
  counter := rfl
  opens := by
    intro before h
    rw [List.prefix_nil.mp h]
    rfl
  admits := by
    intro before c h
    exact absurd (List.prefix_nil.mp h) (by simp)

/-- The count of a request is its place in the window by the second readings. -/
theorem Clocked.counted {past : List (rateLimiting limiter).Commit}
    (h : Clocked limiter req.key past store) :
    let laters := (ofKey req.key past).map (·.call.later) ++ [req.later]
    (counted limiter req store).1 = rank id (starts limiter.windowMs laters) + 1 ∧
      (counted limiter req store).2.counter limiter.cntNs req.key =
        (currentStart limiter.windowMs laters).map
          fun t => ⟨rank id (starts limiter.windowMs laters) + 1, some (t + limiter.windowMs)⟩ := by
  intro laters
  have hcounter := h.counter
  rw [← counter_currentReset req] at hcounter
  have hspec := MemoryAdapter.increment_spec 1 req.later hcounter
  rw [currentStart_concat, rank_starts_concat]
  cases hover : isOver limiter.windowMs
      (currentStart limiter.windowMs ((ofKey req.key past).map (·.call.later))) req.later with
  | true =>
    rw [hover] at hspec
    exact hspec
  | false =>
    rw [hover] at hspec
    exact hspec

/-- A request moves its own key's clocks. -/
theorem Clocked.step_self (hns : limiter.winNs ≠ limiter.cntNs)
    {past : List (rateLimiting limiter).Commit} {c : (rateLimiting limiter).Commit}
    (h : Clocked limiter c.call.key past c.pre) :
    Clocked limiter c.call.key (past ++ [c]) c.post := by
  have hok : rateLimiter limiter c.call c.pre = (c.out, c.post) := Except.ok.inj c.ok
  have hpost : c.post = (Backend.counted limiter c.call c.pre).2 := by rw [← rateLimiter_store, hok]
  obtain ⟨hcount, hcounter⟩ := h.counted
  refine ⟨?_, ?_, ?_, ?_⟩
  · rw [ofKey_concat_self, List.map_append, List.map_singleton, currentStart_concat, hpost,
      Backend.counted, MemoryAdapter.get_increment]
    exact get_currentReset_self hns h.window
  · rw [ofKey_concat_self, List.map_append, List.map_singleton, hpost]
    exact hcounter
  · intro before hbefore
    rw [ofKey_concat_self] at hbefore
    rcases List.prefix_concat_iff.mp hbefore with rfl | hpast
    · have hopens : opensWindow c = isOver limiter.windowMs _ c.call.now := foundWindow_isNone h.window
      rw [List.map_append, List.map_append, List.map_singleton, List.map_singleton, starts_concat,
        h.opens _ List.prefix_rfl, hopens]
    · exact h.opens before hpast
  · intro before d hbefore
    rw [ofKey_concat_self] at hbefore
    rcases List.prefix_concat_iff.mp hbefore with heq | hpast
    · obtain ⟨rfl, hd⟩ := List.append_inj' heq rfl
      obtain rfl := List.singleton_inj.mp hd
      have hadmits := rateLimiter_admits limiter d.call d.pre
      rw [hok, hcount, Nat.add_one_le_iff] at hadmits
      rw [List.map_append, List.map_singleton]
      exact hadmits
    · exact h.admits before d hpast

/-- Every request keeps the account of a key's clocks. -/
theorem Clocked.step (hns : limiter.winNs ≠ limiter.cntNs)
    (past : List (rateLimiting limiter).Commit) (c : (rateLimiting limiter).Commit)
    (h : Clocked limiter key past c.pre) : Clocked limiter key (past ++ [c]) c.post := by
  by_cases hkey : c.call.key = key
  · subst hkey
    exact h.step_self hns
  · have hok : rateLimiter limiter c.call c.pre = (c.out, c.post) := Except.ok.inj c.ok
    have hpost : c.post = (Backend.counted limiter c.call c.pre).2 := by rw [← rateLimiter_store, hok]
    have hkey' : key ≠ c.call.key := Ne.symm hkey
    have hofKey := ofKey_concat_of_ne past hkey
    refine ⟨?_, ?_, ?_, ?_⟩
    · rw [hofKey, ← h.window, hpost, Backend.counted, MemoryAdapter.get_increment,
        get_currentReset_of_ne hns hkey']
    · rw [hofKey, ← h.counter, hpost, Backend.counted, MemoryAdapter.increment,
        MemoryAdapter.counter_setCounter_of_ne hkey', counter_currentReset]
    · rw [hofKey]
      exact h.opens
    · rw [hofKey]
      exact h.admits

/-- The account of the clocks holds in every reachable state. -/
theorem clocked (hns : limiter.winNs ≠ limiter.cntNs) (requests : List Request) (key : String) :
    Clocked limiter key (log limiter requests)
      ((rateLimiting limiter).run MemoryAdapter.empty requests) :=
  Transactional.history_invariant (P := Clocked limiter key) (Clocked.step hns) clocked_empty requests

/-- A key's answers are those to its requests. -/
theorem map_call_ofKey (limiter : RateLimiter) (requests : List Request) (key : String) :
    (ofKey key (log limiter requests)).map (·.call) = requests.filter fun req => req.key = key := by
  have hcalls : (log limiter requests).map (·.call) = requests :=
    Transactional.map_call_history MemoryAdapter.empty requests
  conv_rhs => rw [← hcalls, List.filter_map]
  rfl

/-- The request is admitted by its place in the window exactly if the last `max` requests agree. -/
theorem Clocked.admits_iff {past before : List (rateLimiting limiter).Commit}
    {c : (rateLimiting limiter).Commit} (h : Clocked limiter key past store)
    (hbefore : before ++ [c] <+: ofKey key past) :
    (c.out.admits = true ↔ rank opensWindow (before ++ [c]) < limiter.max) ↔
      (true ∈ (starts limiter.windowMs ((before ++ [c]).map (·.call.now))).rtake limiter.max ↔
        true ∈ (starts limiter.windowMs ((before ++ [c]).map (·.call.later))).rtake limiter.max) := by
  have hrank : rank opensWindow (before ++ [c]) =
      rank id (starts limiter.windowMs ((before ++ [c]).map (·.call.now))) := by
    rw [← h.opens _ hbefore, rank_map]
    rfl
  rw [h.admits before c hbefore, hrank, rank_starts_lt_iff (by simp), rank_starts_lt_iff (by simp)]
  exact Iff.comm

/-- A limiter is exact for a run exactly when its two clocks agree along it. -/
theorem exact_iff (id : ℕ) (options : RateLimitOptions) (requests : List Request) :
    Exact (createRateLimiter id options) requests ↔
      ClocksAgree (createRateLimiter id options) requests := by
  refine forall_congr' fun key => ?_
  have hclocked := clocked (createRateLimiter_ns id options) requests key
  have hopened : Opened opensWindow (ofKey key (log (createRateLimiter id options) requests)) := by
    rw [← Function.id_comp opensWindow, ← opened_map, hclocked.opens _ List.prefix_rfl]
    exact opened_starts
  rw [forall_windows_iff hopened, ← map_call_ofKey]
  constructor
  · intro h past hpast
    obtain ⟨commits, hcommits, rfl⟩ := List.prefix_map_iff.mp hpast
    rw [List.map_map, List.map_map]
    cases commits using List.reverseRecOn with
    | nil => exact Iff.rfl
    | append_singleton before c => exact (hclocked.admits_iff hcommits).mp (h before c hcommits)
  · intro h before c hbefore
    have hagree := h ((before ++ [c]).map (·.call)) (hbefore.map _)
    rw [List.map_map, List.map_map] at hagree
    exact (hclocked.admits_iff hbefore).mpr hagree

/-! ### A slow second reading -/

/-- One request in each window of a second. -/
def onePerSecond : RateLimiter :=
  createRateLimiter 0 { max := some 1, windowMs := some 1000, statusCode := none, message := none }

/-- Between the readings of the first request a millisecond passes. -/
def slowReading : List Request :=
  [⟨some "::1", none, 0, 1⟩, ⟨some "::1", none, 1001, 1001⟩]

/-- The readings of the clock do not decrease. -/
def Nondecreasing (requests : List Request) : Prop :=
  (requests.flatMap fun req => [req.now, req.later]).Pairwise (· ≤ ·)

instance (requests : List Request) : Decidable (Nondecreasing requests) :=
  inferInstanceAs (Decidable (List.Pairwise _ _))

/-- The second request opens a window and is rejected. -/
theorem slow_reading_rejected : Nondecreasing slowReading ∧ ¬ Exact onePerSecond slowReading := by
  refine ⟨by decide +kernel, fun h => ?_⟩
  exact absurd (h "::1") (by decide +kernel)

end LineProof.Backend
