import LineProof.Backend.Indexing
import LineProof.Lib.Transactional

/-!
# The polling loop

Reference: `backend/src/services/eventIndexer.ts`, over the `MemoryAdapter` of `backend/src/storage`.

A poll awaits the cursor, the batch, every write of an event and the write of the cursor. Between two
awaits it runs on its own; while it waits, the timer can fire, and anybody can call `start`, `stop` or
`poll`. The writes of the `MemoryAdapter` happen before their await.

The flag `running` lets one poll in at a time, so whatever the interleaving, the store and the answers are
those of polls that run one after the other (`polls_serialize`).
-/

namespace LineProof.Backend

open Sdk

/-- A poll at one of its awaits. -/
inductive PollPhase
  /-- `await this.cursor()` -/
  | reading (from_ : JsNumber)
  /-- `await this.fetchRawEvents(from)` -/
  | fetching (from_ : JsNumber)
  /-- `await this.persist(event)`, with the items after the event -/
  | persisting (from_ maxLedger : JsNumber) (events : List AnyLineProofEvent) (event : AnyLineProofEvent)
    (raw : List JsValue)
  /-- `await this.store.set(...)` of the cursor -/
  | saving (events : List AnyLineProofEvent)

/-- The indexer between two turns of the event loop. -/
structure IndexerState where
  store : IndexStore
  /-- `this.timer !== undefined` -/
  timer : Bool
  running : Bool
  /-- The polls that have begun and not settled. -/
  inFlight : List PollPhase

/-- How a poll comes to a pause: it waits again, or its promise settles. -/
inductive Pause
  | awaits (phase : PollPhase)
  /-- `none` if the promise is rejected -/
  | settles (result : Option (List AnyLineProofEvent))

section Steps

variable (T : TemplateText) (startLedger : JsNumber)

/-- The loop of `poll` until its next await, and what follows the loop. -/
def continueLoop (store : IndexStore) (from_ maxLedger : JsNumber) (events : List AnyLineProofEvent) :
    List JsValue → IndexStore × Pause
  | [] =>
    if from_.lt maxLedger then ({ store with lastLedger := some maxLedger }, .awaits (.saving events))
    else (store, .settles (some events))
  | item :: raw =>
    match deserialize item with
    | none => continueLoop store from_ maxLedger events raw
    | some event =>
      match persist T event store with
      | none => (store, .settles none)
      | some store' => (store', .awaits (.persisting from_ maxLedger events event raw))

/-- What an await gives back. -/
inductive Answer
  /-- a read or a write of the store -/
  | done
  | fetched (raw : List JsValue)
  | fetchFailed

/-- A poll goes on after its await, `none` if it waits for something else. -/
def resume (store : IndexStore) : PollPhase → Answer → Option (IndexStore × Pause)
  | .reading from_, .done => some (store, .awaits (.fetching from_))
  | .fetching from_, .fetched raw => some (continueLoop T store from_ from_ [] raw)
  | .fetching _, .fetchFailed => some (store, .settles none)
  | .persisting from_ maxLedger events event raw, .done =>
    some (continueLoop T store from_ (if maxLedger.lt event.ledger then event.ledger else maxLedger)
      (events ++ [event]) raw)
  | .saving events, .done => some (store, .settles (some events))
  | _, _ => none

/-- What may happen in one turn. -/
inductive IndexerCall
  | start
  | stop
  /-- The timer fires. -/
  | tick
  | poll
  /-- The await of one of the polls in flight ends. -/
  | resume (i : ℕ) (answer : Answer)

/-- What one turn yields. -/
inductive IndexerOutput
  | idle
  /-- A poll that finds another one running returns `[]` at once. -/
  | skipped
  | settled (result : Option (List AnyLineProofEvent))

/-- The result of a poll that settles. -/
def IndexerOutput.result? : IndexerOutput → Option (Option (List AnyLineProofEvent))
  | .settled result => some result
  | _ => none

/-- `poll()` until its first await. -/
def beginPoll (st : IndexerState) : IndexerOutput × IndexerState :=
  if st.running then (.skipped, st)
  else
    (.idle, { st with running := true, inFlight := st.inFlight ++ [.reading (cursor startLedger st.store)] })

/-- The poll `i` pauses. Where it settles, `finally` clears the flag. -/
def pausePoll (i : ℕ) (st : IndexerState) : IndexStore × Pause → IndexerOutput × IndexerState
  | (store, .awaits phase) => (.idle, { st with store, inFlight := st.inFlight.set i phase })
  | (store, .settles result) =>
    (.settled result, { st with store, running := false, inFlight := st.inFlight.eraseIdx i })

/-- One step, an error if it cannot happen in the state. -/
def IndexerCall.exec : IndexerCall → IndexerState → Except Unit (IndexerOutput × IndexerState)
  | .start, st => .ok (.idle, { st with timer := true })
  | .stop, st => .ok (.idle, { st with timer := false })
  | .tick, st => if st.timer then .ok (beginPoll startLedger st) else .error ()
  | .poll, st => .ok (beginPoll startLedger st)
  | .resume i answer, st =>
    match st.inFlight[i]?.bind fun phase => Backend.resume T st.store phase answer with
    | some paused => .ok (pausePoll i st paused)
    | none => .error ()

/-- The indexer under every interleaving. -/
def indexer : Transactional IndexerState IndexerCall IndexerOutput Unit where
  exec := IndexerCall.exec T startLedger

/-- A new indexer over a store, which an earlier one may have left. -/
def IndexerState.new (store : IndexStore) : IndexerState := ⟨store, false, false, []⟩

/-- Polls that run one after the other. -/
def serial (store : IndexStore) (batches : List (List JsValue)) : IndexStore :=
  batches.foldl (fun store raw => (Backend.poll T startLedger raw store).1) store

/-- What they return. -/
def serialResults (store : IndexStore) : List (List JsValue) → List (Option (List AnyLineProofEvent))
  | [] => []
  | raw :: batches =>
    (Backend.poll T startLedger raw store).2 ::
      serialResults (Backend.poll T startLedger raw store).1 batches

variable {T startLedger}

/-- The batch that a poll has got in this step. -/
def batchOf (c : (indexer T startLedger).Commit) : Option (List JsValue) :=
  match c.call with
  | .resume _ (.fetched raw) => some raw
  | _ => none

/-- How a poll that had got a batch has settled in this step. -/
def resultOf (c : (indexer T startLedger).Commit) : Option (Option (List AnyLineProofEvent)) :=
  match c.call with
  | .resume _ .fetchFailed => none
  | _ => c.out.result?

/-- The state and the answers are those of polls that run one after the other on these batches. -/
structure Serializes (T : TemplateText) (startLedger : JsNumber) (store₀ : IndexStore)
    (batches : List (List JsValue)) (results : List (Option (List AnyLineProofEvent)))
    (st : IndexerState) : Prop where
  /-- One poll is in flight if `running` is set, and none otherwise. -/
  guard : st.inFlight.length = if st.running then 1 else 0
  /-- The poll of the last batch may not have settled yet. -/
  results : ∃ pending, serialResults T startLedger store₀ batches = results ++ pending ∧
    pending.length ≤ 1 ∧ (pending ≠ [] → st.running = true)
  settled : st.running = false → st.store = serial T startLedger store₀ batches
  /-- Until then the store has the events of a part of that batch, and still the cursor from before. -/
  unsettled : st.store = serial T startLedger store₀ batches ∨
    ∃ past done rest, batches = past ++ [done ++ rest] ∧
      st.store = (indexLoop T (serial T startLedger store₀ past)
        (cursor startLedger (serial T startLedger store₀ past)) [] done).1 ∧
      st.store.lastLedger = (serial T startLedger store₀ past).lastLedger

end Steps

variable {T : TemplateText} {startLedger : JsNumber} {store₀ store : IndexStore} {batches : List (List JsValue)}
  {results : List (Option (List AnyLineProofEvent))} {st : IndexerState}

/-! ## Polls in a row -/

/-- The serial indexer handles its batches one after the other. -/
theorem serial_concat (store : IndexStore) (batches : List (List JsValue)) (raw : List JsValue) :
    serial T startLedger store (batches ++ [raw]) =
      (poll T startLedger raw (serial T startLedger store batches)).1 := by
  rw [serial, List.foldl_concat, serial]

/-- The serial results follow each other. -/
theorem serialResults_concat (store : IndexStore) (batches : List (List JsValue)) (raw : List JsValue) :
    serialResults T startLedger store (batches ++ [raw]) = serialResults T startLedger store batches ++
      [(poll T startLedger raw (serial T startLedger store batches)).2] := by
  induction batches generalizing store with
  | nil => rfl
  | cons batch batches ih =>
    rw [List.cons_append, serialResults, ih, serialResults, List.cons_append]
    rfl

/-- The loop over a batch can be cut anywhere. -/
theorem indexLoop_append {maxLedger maxLedger' : JsNumber} {events events' : List AnyLineProofEvent}
    {store store' : IndexStore} {done : List JsValue}
    (h : indexLoop T store maxLedger events done = (store', some (events', maxLedger')))
    (rest : List JsValue) :
    indexLoop T store maxLedger events (done ++ rest) = indexLoop T store' maxLedger' events' rest := by
  induction done generalizing store maxLedger events with
  | nil =>
    obtain ⟨rfl, hsome⟩ := Prod.mk.inj h
    obtain ⟨rfl, rfl⟩ := Prod.mk.inj (Option.some.inj hsome)
    rfl
  | cons item done ih =>
    rw [indexLoop] at h
    rw [List.cons_append, indexLoop]
    split at h
    · exact ih h
    · split at h
      · exact absurd (Prod.mk.inj h).2 (Option.some_ne_none _).symm
      · exact ih h

/-- The loop leaves the cursor alone. -/
theorem indexLoop_lastLedger (store : IndexStore) (maxLedger : JsNumber) (events : List AnyLineProofEvent)
    (raw : List JsValue) : (indexLoop T store maxLedger events raw).1.lastLedger = store.lastLedger := by
  induction raw generalizing store maxLedger events with
  | nil => rfl
  | cons item raw ih =>
    rw [indexLoop]
    split
    · exact ih store maxLedger events
    · split
      · rfl
      · case _ hpersist =>
        obtain ⟨_, -, rfl⟩ := persist_eq_some.mp hpersist
        exact ih _ _ _

variable (T startLedger) in
/-- A poll that has got its batch, at its next pause: where it waits after an event, it has done a part of
the batch, and where it is past the loop, it is done with all of it. -/
inductive Paused (before : IndexStore) (raw : List JsValue) : IndexStore × Pause → Prop
  | persisting {store : IndexStore} {maxLedger : JsNumber} {events : List AnyLineProofEvent}
      {event : AnyLineProofEvent} {done rest : List JsValue} (split : raw = done ++ rest)
      (loop : indexLoop T before (cursor startLedger before) [] done = (store,
        some (events ++ [event], if maxLedger.lt event.ledger then event.ledger else maxLedger))) :
    Paused before raw
      (store, .awaits (.persisting (cursor startLedger before) maxLedger events event rest))
  | saving {store : IndexStore} {events : List AnyLineProofEvent}
      (poll : poll T startLedger raw before = (store, some events)) :
    Paused before raw (store, .awaits (.saving events))
  | settled {store : IndexStore} {result : Option (List AnyLineProofEvent)}
      (poll : poll T startLedger raw before = (store, result)) :
    Paused before raw (store, .settles result)

/-- A poll that resumes goes on with the rest of its batch. -/
theorem paused_continueLoop {before : IndexStore} {maxLedger : JsNumber} {events : List AnyLineProofEvent}
    {raw done : List JsValue} (rest : List JsValue) (hsplit : raw = done ++ rest)
    (hloop : indexLoop T before (cursor startLedger before) [] done = (store, some (events, maxLedger))) :
    Paused T startLedger before raw
      (continueLoop T store (cursor startLedger before) maxLedger events rest) := by
  induction rest generalizing done with
  | nil =>
    rw [List.append_nil] at hsplit
    subst hsplit
    have hpoll : poll T startLedger raw before =
        if (cursor startLedger before).lt maxLedger then
          ({ store with lastLedger := some maxLedger }, some events)
        else (store, some events) := by
      simp only [poll, hloop]
    rw [continueLoop]
    split
    · case _ hlt =>
      rw [if_pos hlt] at hpoll
      exact .saving hpoll
    · case _ hle =>
      rw [if_neg hle] at hpoll
      exact .settled hpoll
  | cons item rest ih =>
    have hmore := indexLoop_append hloop
    rw [continueLoop]
    split
    · case _ hnone =>
      -- the item is skipped
      have hnext := hmore [item]
      simp only [indexLoop, hnone] at hnext
      exact ih (by rw [hsplit, List.append_cons]) hnext
    · case _ event hevent =>
      split
      · case _ hthrows =>
        have hnext := hmore (item :: rest)
        rw [← hsplit] at hnext
        simp only [indexLoop, hevent, hthrows] at hnext
        refine .settled ?_
        simp only [poll, hnext]
      · case _ store' hpersist =>
        have hnext := hmore [item]
        simp only [indexLoop, hevent, hpersist] at hnext
        exact .persisting (by rw [hsplit, List.append_cons]) hnext

/-! ## Every interleaving -/

variable (T startLedger store₀) in
/-- The states that can be reached, with the batches the polls have got and the results they have had. -/
inductive InSeries (batches : List (List JsValue)) (results : List (Option (List AnyLineProofEvent))) :
    IndexerState → Prop
  | idle {timer : Bool} (hresults : serialResults T startLedger store₀ batches = results) :
    InSeries batches results ⟨serial T startLedger store₀ batches, timer, false, []⟩
  /-- A poll has no batch yet. -/
  | waiting {timer : Bool} {phase : PollPhase} (hresults : serialResults T startLedger store₀ batches = results)
      (hphase : phase = .reading (cursor startLedger (serial T startLedger store₀ batches)) ∨
        phase = .fetching (cursor startLedger (serial T startLedger store₀ batches))) :
    InSeries batches results ⟨serial T startLedger store₀ batches, timer, true, [phase]⟩
  /-- A poll has got the last batch. -/
  | working {store : IndexStore} {timer : Bool} {phase : PollPhase} {past : List (List JsValue)} {raw : List JsValue}
      (hbatches : batches = past ++ [raw]) (hresults : serialResults T startLedger store₀ past = results)
      (paused : Paused T startLedger (serial T startLedger store₀ past) raw (store, .awaits phase)) :
    InSeries batches results ⟨store, timer, true, [phase]⟩

/-- To begin a poll changes nothing of what was indexed. -/
theorem inSeries_beginPoll (h : InSeries T startLedger store₀ batches results st) :
    InSeries T startLedger store₀ batches results (beginPoll startLedger st).2 := by
  cases h with
  | idle hresults => exact .waiting hresults (.inl rfl)
  | waiting hresults hphase => exact .waiting hresults hphase
  | working hbatches hresults paused => exact .working hbatches hresults paused

/-- What a poll that works on the last batch comes to. -/
theorem InSeries.pause {timer : Bool} {phase : PollPhase} {past : List (List JsValue)} {raw : List JsValue}
    {paused : IndexStore × Pause} (hresults : serialResults T startLedger store₀ past = results)
    (hpaused : Paused T startLedger (serial T startLedger store₀ past) raw paused) :
    InSeries T startLedger store₀ (past ++ [raw])
      (results ++ (pausePoll 0 ⟨store, timer, true, [phase]⟩ paused).1.result?.toList)
      (pausePoll 0 ⟨store, timer, true, [phase]⟩ paused).2 := by
  cases hpaused with
  | persisting split loop =>
    simp only [pausePoll, IndexerOutput.result?, Option.toList_none, List.append_nil]
    exact .working rfl hresults (.persisting split loop)
  | saving hpoll =>
    simp only [pausePoll, IndexerOutput.result?, Option.toList_none, List.append_nil]
    exact .working rfl hresults (.saving hpoll)
  | @settled store' result hpoll =>
    have hstore : serial T startLedger store₀ (past ++ [raw]) = store' := by rw [serial_concat, hpoll]
    have hall : serialResults T startLedger store₀ (past ++ [raw]) = results ++ [result] := by
      rw [serialResults_concat, hpoll, hresults]
    rw [← hstore]
    exact .idle hall

/-- The timer is of no matter to what was indexed. -/
theorem inSeries_timer (h : InSeries T startLedger store₀ batches results st) (timer : Bool) :
    InSeries T startLedger store₀ batches results { st with timer } := by
  cases h with
  | idle hresults => exact .idle hresults
  | waiting hresults hphase => exact .waiting hresults hphase
  | working hbatches hresults paused => exact .working hbatches hresults paused

/-- To begin a poll yields no result yet. -/
theorem beginPoll_result (st : IndexerState) : (beginPoll startLedger st).1.result? = none := by
  unfold beginPoll
  split <;> rfl

/-- A poll in flight goes on. -/
theorem inSeries_resume (h : InSeries T startLedger store₀ batches results st) {i : ℕ} {answer : Answer}
    {phase : PollPhase} {paused : IndexStore × Pause} (hphase : st.inFlight[i]? = some phase)
    (hresume : resume T st.store phase answer = some paused) :
    InSeries T startLedger store₀ (batches ++ (match answer with | .fetched raw => [raw] | _ => []))
      (results ++ (match answer with
        | .fetchFailed => []
        | _ => (pausePoll i st paused).1.result?.toList))
      (pausePoll i st paused).2 := by
  cases h with
  | idle => simp at hphase
  | @waiting timer phase' hresults hwaits =>
    obtain ⟨rfl, rfl⟩ : i = 0 ∧ phase' = phase := by simpa [List.getElem?_singleton] using hphase
    rcases hwaits with rfl | rfl
    · -- the cursor has been read, and the fetch begins
      cases answer with
      | done =>
        obtain rfl := Option.some.inj hresume
        simp only [pausePoll, IndexerOutput.result?, Option.toList_none, List.append_nil]
        exact .waiting hresults (.inr rfl)
      | fetched raw => simp [resume] at hresume
      | fetchFailed => simp [resume] at hresume
    · cases answer with
      | done => simp [resume] at hresume
      | fetched raw =>
        obtain rfl := Option.some.inj hresume
        have hnothing : indexLoop T (serial T startLedger store₀ batches)
            (cursor startLedger (serial T startLedger store₀ batches)) [] [] = (_, some (_, _)) := rfl
        exact InSeries.pause hresults (paused_continueLoop raw (List.nil_append raw).symm hnothing)
      | fetchFailed =>
        obtain rfl := Option.some.inj hresume
        simp only [pausePoll, List.append_nil]
        exact .idle hresults
  | @working store timer phase' past raw hbatches hresults hpaused =>
    obtain ⟨rfl, rfl⟩ : i = 0 ∧ phase' = phase := by simpa [List.getElem?_singleton] using hphase
    subst hbatches
    cases hpaused with
    | persisting split loop =>
      cases answer with
      | done =>
        obtain rfl := Option.some.inj hresume
        rw [List.append_nil]
        exact InSeries.pause hresults (paused_continueLoop _ split loop)
      | fetched raw => simp [resume] at hresume
      | fetchFailed => simp [resume] at hresume
    | saving hpoll =>
      cases answer with
      | done =>
        obtain rfl := Option.some.inj hresume
        rw [List.append_nil]
        exact InSeries.pause hresults (.settled hpoll)
      | fetched raw => simp [resume] at hresume
      | fetchFailed => simp [resume] at hresume

/-- One turn finishes at most one batch of the series. -/
theorem inSeries_commit (c : (indexer T startLedger).Commit)
    (h : InSeries T startLedger store₀ batches results c.pre) :
    InSeries T startLedger store₀ (batches ++ (batchOf c).toList) (results ++ (resultOf c).toList)
      c.post := by
  obtain ⟨pre, call, out, post, ok⟩ := c
  have ok' : call.exec T startLedger pre = .ok (out, post) := ok
  cases call with
  | start =>
    cases ok'
    simpa [batchOf, resultOf, IndexerOutput.result?] using inSeries_timer h true
  | stop =>
    cases ok'
    simpa [batchOf, resultOf, IndexerOutput.result?] using inSeries_timer h false
  | tick =>
    rw [IndexerCall.exec] at ok'
    split at ok'
    · have hout : (beginPoll startLedger pre) = (out, post) := Except.ok.inj ok'
      have hresult : (beginPoll startLedger pre).1.result? = none := beginPoll_result pre
      have hbegin := inSeries_beginPoll h
      rw [hout] at hresult hbegin
      simpa [batchOf, resultOf, hresult] using hbegin
    · contradiction
  | poll =>
    have hout : (beginPoll startLedger pre) = (out, post) := Except.ok.inj ok'
    have hresult : (beginPoll startLedger pre).1.result? = none := beginPoll_result pre
    have hbegin := inSeries_beginPoll h
    rw [hout] at hresult hbegin
    simpa [batchOf, resultOf, hresult] using hbegin
  | resume i answer =>
    rw [IndexerCall.exec] at ok'
    split at ok'
    · case _ paused hpaused =>
      obtain ⟨phase, hphase, hresume⟩ := Option.bind_eq_some_iff.mp hpaused
      have hnext := inSeries_resume h hphase hresume
      have hout : pausePoll i pre paused = (out, post) := Except.ok.inj ok'
      rw [hout] at hnext
      cases answer <;> simpa [batchOf, resultOf] using hnext
    · contradiction

/-- In every run the finished batches were handled in series. -/
theorem inSeries_run (store₀ : IndexStore) (calls : List IndexerCall) :
    InSeries T startLedger store₀
      (((indexer T startLedger).history (.new store₀) calls).filterMap batchOf)
      (((indexer T startLedger).history (.new store₀) calls).filterMap resultOf)
      ((indexer T startLedger).run (.new store₀) calls) := by
  refine Transactional.history_invariant (M := indexer T startLedger)
    (P := fun past st => InSeries T startLedger store₀ (past.filterMap batchOf) (past.filterMap resultOf) st)
    ?_ (.idle rfl) calls
  intro past c h
  rw [List.filterMap_append, List.filterMap_append, List.filterMap_cons, List.filterMap_cons]
  have hnext := inSeries_commit c h
  cases hbatch : batchOf c <;> cases hresult : resultOf c <;>
    simpa [hbatch, hresult] using hnext

/-- A state in series is the serial one, up to the poll under way. -/
theorem InSeries.serializes (h : InSeries T startLedger store₀ batches results st) :
    Serializes T startLedger store₀ batches results st := by
  cases h with
  | idle hresults =>
    exact ⟨rfl, ⟨[], by rw [List.append_nil, hresults], by simp, nofun⟩, fun _ => rfl, .inl rfl⟩
  | waiting hresults =>
    exact ⟨rfl, ⟨[], by rw [List.append_nil, hresults], by simp, nofun⟩, nofun, .inl rfl⟩
  | @working store timer phase past raw hbatches hresults hpaused =>
    subst hbatches
    refine ⟨rfl, ⟨_, by rw [serialResults_concat, hresults], by simp, fun _ => rfl⟩, nofun, ?_⟩
    cases hpaused with
    | @persisting _ _ _ _ done rest split loop =>
      refine .inr ⟨past, done, rest, by rw [split], (congrArg Prod.fst loop).symm, ?_⟩
      have hcursor := indexLoop_lastLedger (T := T) (serial T startLedger store₀ past)
        (cursor startLedger (serial T startLedger store₀ past)) [] done
      rw [loop] at hcursor
      exact hcursor
    | saving hpoll =>
      refine .inl ?_
      rw [serial_concat, hpoll]

end LineProof.Backend
