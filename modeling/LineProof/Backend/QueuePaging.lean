import LineProof.Backend.QueueRoutes
import LineProof.Backend.QueueStats

/-!
# Paging through the queues

The slug of a queue is its key in the store, so no two queues have the same one, and the cursor of a page
finds the queue it was made from. Whatever requests were made before, following the cursors lists every
queue of the requested status once, in list order (`paging_complete`).
-/

namespace LineProof.Backend

open Sdk

variable (R : QueryRuntime)

/-- What `GET /` lists. -/
def matching (status : Option QueueStatus) (s : ServiceState) : List Queue :=
  filterQueues status (listQueues s)

/-- The pages of a client that follows `nextCursor` until it is null. -/
inductive Follows (s : ServiceState) : JsonObject → List QueuePage → Prop
  | last {query : JsonObject} {page : QueuePage} (hpage : getQueues R query s = .ok page)
      (hlast : page.nextCursor = none) : Follows s query [page]
  | next {query : JsonObject} {page : QueuePage} {cursor : String} {pages : List QueuePage}
      (hpage : getQueues R query s = .ok page) (hnext : page.nextCursor = some cursor)
      (hrest : Follows s (query.set "cursor" (.string cursor)) pages) : Follows s query (page :: pages)

/-- Following the cursors ends, and delivers exactly these queues, with their number on every page. -/
def Delivers (s : ServiceState) (query : JsonObject) (queues : List Queue) : Prop :=
  ∃ pages, Follows R s query pages ∧ (∀ other, Follows R s query other → other = pages) ∧
    pages.flatMap (·.items) = queues ∧ ∀ page ∈ pages, page.total = queues.length

/-- An accepted query without a cursor. -/
structure FirstQuery where
  query : JsonObject
  data : GetQueuesQuery
  accepted : GetQueuesQuerySchema R query = some data
  noCursor : query.get "cursor" = none

variable {R} {s s' : ServiceState} {queue : Queue} {id : String}

/-- The listed queues with the requested status, all of them if none is requested. -/
theorem mem_matching {status : Option QueueStatus} :
    queue ∈ matching status s ↔ queue ∈ listQueues s ∧ ∀ requested ∈ status, queue.status = requested := by
  cases status <;> simp [matching, filterQueues]

/-! ## Slugs are keys -/

/-- Every queue is stored under its slug, which is its id and is not empty. -/
def Named (s : ServiceState) : Prop :=
  ∀ id queue, s.queues.get id = some queue → queue.id = id ∧ queue.slug = id ∧ id ≠ ""

/-- Saving a queue that is named keeps all queues named. -/
theorem Named.saveQueue (h : Named s) (hslug : queue.slug = queue.id) (hne : queue.id ≠ "") :
    Named (s.saveQueue queue) := by
  intro id stored hget
  by_cases hid : id = queue.id
  · subst hid
    obtain rfl := Option.some.inj (InsertionMap.get_set_self.symm.trans hget)
    exact ⟨rfl, hslug, hne⟩
  · exact h id stored ((InsertionMap.get_set_of_ne hid).symm.trans hget)

/-- A queue that is found is named. -/
theorem Named.found (h : Named s) (hqueue : getQueueById id s = some queue) :
    queue.slug = queue.id ∧ queue.id ≠ "" := by
  obtain ⟨key, hkey⟩ := InsertionMap.mem_values_iff.mp (List.mem_of_find?_eq_some hqueue)
  obtain ⟨rfl, hslug, hne⟩ := h key queue hkey
  exact ⟨hslug, hne⟩

/-- A status change keeps all queues named. -/
theorem Named.moveTo (h : Named s) {next : QueueStatus} {out : Option Queue × ServiceState}
    (hout : moveTo next id s = .ok out) : Named out.2 := by
  have hstate : stateAfter s (Backend.moveTo next id s) = out.2 := by rw [hout, stateAfter]
  rcases stateAfter_moveTo next id s with hsame | ⟨queue, stored, hsaved⟩
  · rwa [← hstate, hsame]
  · obtain ⟨hslug, hne⟩ := h.found stored
    rw [← hstate, hsaved]
    exact h.saveQueue hslug hne

/-- An advance keeps all queues named. -/
theorem Named.advanceQueue (h : Named s) {batchSize : ℤ} {out : Option Queue × ServiceState}
    (hout : advanceQueue id batchSize s = .ok out) : Named out.2 := by
  have hstate : stateAfter s (Backend.advanceQueue id batchSize s) = out.2 := by rw [hout, stateAfter]
  rcases stateAfter_advanceQueue id batchSize s with ⟨hsame, -⟩ | ⟨queue, stored, -, hsaved⟩
  · rwa [← hstate, hsame]
  · obtain ⟨hslug, hne⟩ := h.found stored
    have hfirst : Named (s.saveQueue { queue with status := .advancementActive }) := h.saveQueue hslug hne
    rw [← hstate, hsaved]
    exact hfirst.saveQueue hslug hne

/-- The schema lets no empty slug through. -/
theorem slug_ne_of_createQueueSchema {body : JsonObject} {payload : CreatePayload}
    (h : CreateQueueSchema body = some payload) : payload.slug ≠ "" := by
  simp only [CreateQueueSchema, Option.bind_eq_bind, Option.bind_eq_some_iff, Option.guard_eq_some',
    pure, Option.some.injEq] at h
  obtain ⟨name, -, slug, -, maxPositions, -, rule, -, escrow, -, description, -, _, hguard, rfl⟩ := h
  have hslug := hguard.2.2.1
  rw [isCreateSlug, decide_eq_true_iff] at hslug
  rintro rfl
  exact absurd hslug.1 (by decide)

/-- A queue that is found is answered with. -/
theorem answerQueue_eq_ok {out : Except ServiceError (Option Queue × ServiceState)}
    {res : Queue × ServiceState} :
    answerQueue out = .ok res ↔ out = .ok (some res.1, res.2) := by
  unfold answerQueue
  split
  · simp [Prod.ext_iff]
  · simp
  · simp

/-- A transition answers for a valid id with the queue it changed. -/
theorem postTransition_eq_ok
    {action : String → ServiceState → Except ServiceError (Option Queue × ServiceState)}
    {res : Queue × ServiceState} :
    postTransition action id s = .ok res ↔ SlugSchema id = true ∧ action id s = .ok (some res.1, res.2) := by
  unfold postTransition
  split <;> simp [*, answerQueue_eq_ok]

/-- Every request keeps all queues named. -/
theorem Named.exec (h : Named s) {now : String} {request : QueueRequest} {res : Queue × ServiceState}
    (hres : request.exec now s = .ok res) : Named res.2 := by
  cases request with
  | create body =>
    cases hbody : CreateQueueSchema body with
    | none => simp [QueueRequest.exec, hbody] at hres
    | some payload =>
      simp only [QueueRequest.exec, hbody, createQueue] at hres
      split at hres
      · exact absurd hres nofun
      · obtain rfl := Except.ok.inj hres
        exact h.saveQueue rfl (slug_ne_of_createQueueSchema hbody)
  | advance id body =>
    simp only [QueueRequest.exec] at hres
    split at hres
    · split at hres
      · exact absurd hres nofun
      · exact h.advanceQueue (answerQueue_eq_ok.mp hres)
    · exact absurd hres nofun
  | close id => exact h.moveTo (postTransition_eq_ok.mp hres).2
  | openEnrollment id => exact h.moveTo (postTransition_eq_ok.mp hres).2
  | closeEnrollment id => exact h.moveTo (postTransition_eq_ok.mp hres).2

/-- The fixtures are named. -/
theorem named_initial (H : Host) : Named (.initial H) := by
  intro id queue hget
  have hentries : (ServiceState.initial H).queues.entries =
      (defaultFixtures H).map fun queue => (queue.id, queue) := rfl
  have hmem := InsertionMap.get_eq_some_iff.mp hget
  simp only [hentries, defaultFixtures, List.map_cons, List.map_nil, List.mem_cons, List.not_mem_nil,
    or_false, Prod.mk.injEq] at hmem
  rcases hmem with ⟨rfl, rfl⟩ | ⟨rfl, rfl⟩
  · exact ⟨rfl, rfl, by decide⟩
  · exact ⟨rfl, rfl, by decide⟩

/-- All queues are named in every reachable state. -/
theorem named_run (H : Host) (requests : List (String × QueueRequest)) :
    Named (queueRouter.run (.initial H) requests) := by
  refine Transactional.run_invariant (fun c h => ?_) (named_initial H) requests
  have hok : c.call.2.exec c.call.1 c.pre = .ok (c.out, c.post) := c.ok
  exact h.exec hok

/-- No two queues have the same slug. -/
theorem Named.slugs_nodup (h : Named s) : ((listQueues s).map Queue.slug).Nodup := by
  have hkeys : (listQueues s).map Queue.slug = s.queues.entries.map Prod.fst := by
    rw [listQueues, InsertionMap.values, List.map_map]
    refine List.map_congr_left fun e he => ?_
    exact (h e.1 e.2 (InsertionMap.get_eq_some_iff.mpr he)).2.1
  rw [hkeys]
  exact s.queues.nodup

/-- No listed queue has an empty slug. -/
theorem Named.slug_ne (h : Named s) (hqueue : queue ∈ listQueues s) : queue.slug ≠ "" := by
  obtain ⟨key, hkey⟩ := InsertionMap.mem_values_iff.mp hqueue
  obtain ⟨-, rfl, hne⟩ := h key queue hkey
  exact hne

/-- Filtering keeps the list order. -/
theorem matching_sublist (status : Option QueueStatus) (s : ServiceState) :
    (matching status s).Sublist (listQueues s) := by
  unfold matching filterQueues
  split
  · exact List.filter_sublist
  · exact List.Sublist.refl _

/-- No two listed queues share a slug. -/
theorem Named.matching_slugs_nodup (h : Named s) (status : Option QueueStatus) :
    ((matching status s).map Queue.slug).Nodup :=
  h.slugs_nodup.sublist ((matching_sublist status s).map Queue.slug)

/-! ## Cursors -/

@[simp] theorem fromBase64_toBase64 (R : QueryRuntime) (slug : String) :
    fromBase64 R (toBase64 slug) = slug := by
  rw [fromBase64, toBase64, String.toList_ofList, Radix64.lenient_encode, R.decode_encode]

/-- A slug's cursor is not empty. -/
theorem toBase64_ne_empty {slug : String} (h : slug ≠ "") : toBase64 slug ≠ "" := by
  have hbytes : slug.toUTF8.data.toList ≠ [] := by
    intro hnil
    apply h
    apply String.toByteArray_inj.mp
    apply ByteArray.ext
    exact Array.toList_inj.mp hnil
  intro hempty
  have hchars : Radix64.encode slug.toUTF8.data.toList = [] := by
    simpa [toBase64] using congrArg String.toList hempty
  exact Radix64.encode_ne_nil hbytes hchars

/-- Where slugs differ, a queue is found at its own index. -/
theorem findIdx?_slug {queues : List Queue} (hnodup : (queues.map Queue.slug).Nodup) {i : ℕ}
    (hi : i < queues.length) :
    (queues.findIdx? fun q => q.slug = queues[i].slug) = some i := by
  rw [List.findIdx?_eq_some_iff_getElem]
  refine ⟨hi, decide_eq_true rfl, fun j hj => ?_⟩
  rw [decide_eq_true_iff]
  intro hslug
  have hi' : i < (queues.map Queue.slug).length := by rwa [List.length_map]
  have hj' : j < (queues.map Queue.slug).length := hj.trans hi'
  have hslugs : (queues.map Queue.slug)[j] = (queues.map Queue.slug)[i] := by
    rwa [List.getElem_map, List.getElem_map]
  exact hj.ne (hnodup.getElem_inj_iff.mp hslugs)

/-- The query with another cursor is accepted too. -/
theorem schema_set_cursor {query : JsonObject} {data : GetQueuesQuery}
    (h : GetQueuesQuerySchema R query = some data) (cursor : String) :
    GetQueuesQuerySchema R (query.set "cursor" (.string cursor)) =
      some { data with cursor := some cursor } := by
  simp only [GetQueuesQuerySchema, optionalField, limitField, Option.bind_eq_bind,
    Option.bind_eq_some_iff, Option.guard_eq_some', pure, Option.some.injEq] at h ⊢
  rw [InsertionMap.get_set_of_ne (by decide), InsertionMap.get_set_of_ne (by decide),
    InsertionMap.get_set_self]
  obtain ⟨status, hstatus, limit, hlimit, _, -, _, hkeys, rfl⟩ := h
  refine ⟨status, hstatus, limit, hlimit, some cursor, rfl, (), ?_, rfl⟩
  rw [hasOnly, List.all_eq_true] at hkeys ⊢
  intro e he
  rcases InsertionMap.mem_entries_set.mp he with rfl | ⟨hold, -⟩
  · exact (by decide : decide ("cursor" ∈ ["status", "limit", "cursor"]) = true)
  · exact hkeys e hold

/-- A query without a cursor parses to one without. -/
theorem cursor_of_schema {query : JsonObject} {data : GetQueuesQuery}
    (h : GetQueuesQuerySchema R query = some data) (hcursor : query.get "cursor" = none) :
    data.cursor = none := by
  simp only [GetQueuesQuerySchema, optionalField, hcursor, Option.bind_eq_bind, Option.bind_eq_some_iff,
    pure, Option.some.injEq] at h
  obtain ⟨_, -, _, -, _, rfl, _, -, rfl⟩ := h
  rfl

/-! ## Pages -/

/-- The page that starts at an index. -/
def pageAt (filtered : List Queue) (limit start : ℕ) : QueuePage where
  items := (filtered.drop start).take limit
  nextCursor :=
    if h : start + limit < filtered.length then some (toBase64 filtered[start + limit - 1].slug) else none
  total := filtered.length

/-- The last queue of a page. -/
theorem getLast?_page {filtered : List Queue} {limit start : ℕ} (hstart : start < filtered.length)
    (hlimit : 1 ≤ limit) :
    ((filtered.drop start).take limit).getLast? =
      filtered[min (start + limit) filtered.length - 1]? := by
  have hlen : ((filtered.drop start).take limit).length - 1 = min limit (filtered.length - start) - 1 := by
    rw [List.length_take, List.length_drop]
  have hindex : start + (min limit (filtered.length - start) - 1) =
      min (start + limit) filtered.length - 1 := by omega
  rw [List.getLast?_eq_getElem?, hlen, List.getElem?_take_of_lt (by omega), List.getElem?_drop, hindex]

/-- The query lists the queues of a status from an index on. -/
structure ListsFrom (R : QueryRuntime) (s : ServiceState) (status : Option QueueStatus) (limit start : ℕ)
    (query : JsonObject) : Prop where
  accepted : ∃ cursor limit_pos limit_le,
    GetQueuesQuerySchema R query = some { status, limit, cursor, limit_pos, limit_le } ∧
      startIndex R cursor (matching status s) = .ok start

variable {status : Option QueueStatus} {limit start : ℕ} {query : JsonObject}

/-- A query is answered with the page that starts where its cursor says. -/
theorem ListsFrom.getQueues (h : ListsFrom R s status limit start query)
    (hnodup : ((matching status s).map Queue.slug).Nodup) :
    getQueues R query s = .ok (pageAt (matching status s) limit start) := by
  obtain ⟨cursor, limit_pos, limit_le, hschema, hstart⟩ := h.accepted
  simp only [matching] at hstart hnodup
  simp only [Backend.getQueues, hschema, matching]
  generalize filterQueues status (listQueues s) = filtered at hstart hnodup ⊢
  simp only [hstart, bind, Except.bind, pure, Except.pure, pageAt]
  congr 2
  by_cases hinside : start < filtered.length
  · have hindex : min (start + limit) filtered.length - 1 < filtered.length := by omega
    have hfind := List.findIdx?_eq_some_iff_findIdx_eq.mp (findIdx?_slug hnodup hindex)
    simp only [getLast?_page hinside limit_pos, List.getElem?_eq_getElem hindex, hfind.2]
    by_cases hmore : start + limit < filtered.length
    · have hlast : min (start + limit) filtered.length - 1 = start + limit - 1 := by omega
      simp only [hlast]
      rw [if_pos (by omega), dif_pos hmore]
    · rw [if_neg (by omega), dif_neg hmore]
  · rw [List.drop_eq_nil_of_le (by omega), List.take_nil, dif_neg (by omega)]
    rfl

/-- The next cursor lists the queues that the page leaves. -/
theorem ListsFrom.next (h : ListsFrom R s status limit start query) (hs : Named s) {cursor : String}
    (hcursor : (pageAt (matching status s) limit start).nextCursor = some cursor) :
    start + limit < (matching status s).length ∧
      ListsFrom R s status limit (start + limit) (query.set "cursor" (.string cursor)) := by
  obtain ⟨_, limit_pos, limit_le, hschema, -⟩ := h.accepted
  simp only [pageAt] at hcursor
  split at hcursor
  case isFalse => exact absurd hcursor nofun
  case isTrue hmore =>
    refine ⟨hmore, ⟨⟨some cursor, limit_pos, limit_le, schema_set_cursor hschema cursor, ?_⟩⟩⟩
    have hlast : start + limit - 1 < (matching status s).length := by omega
    have hqueue : (matching status s)[start + limit - 1] ∈ listQueues s :=
      (matching_sublist status s).subset (List.getElem_mem hlast)
    have hne : cursor ≠ "" := Option.some.inj hcursor ▸ toBase64_ne_empty (hs.slug_ne hqueue)
    have hindex := findIdx?_slug (hs.matching_slugs_nodup status) hlast
    rw [startIndex]
    · rw [← Option.some.inj hcursor, fromBase64_toBase64, hindex]
      simp only [Except.ok.injEq]
      omega
    · exact hne

/-- The walk over the pages is determined by its first query. -/
theorem Follows.unique {pages pages' : List QueuePage} (h : Follows R s query pages)
    (h' : Follows R s query pages') : pages = pages' := by
  induction h generalizing pages' with
  | last hpage hlast =>
    cases h' with
    | last hpage' hlast' => rw [Except.ok.inj (hpage.symm.trans hpage')]
    | next hpage' hnext' hrest' =>
      obtain rfl := Except.ok.inj (hpage.symm.trans hpage')
      exact absurd (hlast.symm.trans hnext') nofun
  | next hpage hnext hrest ih =>
    cases h' with
    | last hpage' hlast' =>
      obtain rfl := Except.ok.inj (hpage.symm.trans hpage')
      exact absurd (hnext.symm.trans hlast') nofun
    | next hpage' hnext' hrest' =>
      obtain rfl := Except.ok.inj (hpage.symm.trans hpage')
      obtain rfl := Option.some.inj (hnext.symm.trans hnext')
      rw [ih hrest']

/-- From an index on, the pages deliver the rest of the list. -/
theorem ListsFrom.delivers {start : ℕ} {query : JsonObject} (h : ListsFrom R s status limit start query)
    (hs : Named s) :
    ∃ pages, Follows R s query pages ∧ pages.flatMap (·.items) = (matching status s).drop start ∧
      ∀ page ∈ pages, page.total = (matching status s).length := by
  have hpage := h.getQueues (hs.matching_slugs_nodup status)
  cases hcursor : (pageAt (matching status s) limit start).nextCursor with
  | none =>
    have hrest : (matching status s).length ≤ start + limit := by
      by_contra hmore
      exact absurd ((dif_pos (by omega)).symm.trans hcursor) nofun
    refine ⟨_, .last hpage hcursor, ?_, by simp [pageAt]⟩
    rw [List.flatMap_singleton]
    exact List.take_of_length_le (by rw [List.length_drop]; omega)
  | some cursor =>
    obtain ⟨hmore, hnext⟩ := h.next hs hcursor
    obtain ⟨_, limit_pos, -⟩ := h.accepted
    obtain ⟨pages, hpages, hitems, htotal⟩ := hnext.delivers hs
    refine ⟨_, .next hpage hcursor hpages, ?_, ?_⟩
    · rw [List.flatMap_cons, hitems, ← List.drop_drop]
      exact List.take_append_drop limit _
    · exact List.forall_mem_cons.mpr ⟨rfl, htotal⟩
termination_by (matching status s).length - start

/-- Every status can be asked for, and every limit that the runtime reads as a number. -/
theorem exists_firstQuery {value : JsValue} (status : Option QueueStatus) {limit : ℕ} (hpos : 1 ≤ limit)
    (hle : limit ≤ 100) (hdefined : value ≠ .undefined) (hvalue : R.number value = .ofNat limit) :
    ∃ first : FirstQuery R, first.data.status = status ∧ first.data.limit = limit := by
  let unfiltered := (∅ : JsonObject).set "limit" value
  have hlimit : ∀ query : JsonObject, query.get "limit" = some value →
      limitField R query = some ⟨limit, hpos, hle⟩ := by
    intro query hget
    simp [limitField, hget, hvalue, JsNumber.ofNat, hpos, hle]
  have hname : ∀ status, ∃ text, asQueueStatus (.string text) = some status := by
    intro status
    cases status with
    | draft => exact ⟨"Draft", rfl⟩
    | enrollmentOpen => exact ⟨"EnrollmentOpen", rfl⟩
    | enrollmentClosed => exact ⟨"EnrollmentClosed", rfl⟩
    | advancementActive => exact ⟨"AdvancementActive", rfl⟩
    | closed => exact ⟨"Closed", rfl⟩
  cases status with
  | none =>
    refine ⟨⟨unfiltered, ⟨none, limit, none, hpos, hle⟩, ?_, rfl⟩, rfl, rfl⟩
    rw [GetQueuesQuerySchema, hlimit unfiltered InsertionMap.get_set_self]
    rfl
  | some status =>
    obtain ⟨text, htext⟩ := hname status
    let query := unfiltered.set "status" (.string text)
    have hget : query.get "limit" = some value :=
      (InsertionMap.get_set_of_ne (by decide)).trans InsertionMap.get_set_self
    refine ⟨⟨query, ⟨some status, limit, none, hpos, hle⟩, ?_, rfl⟩, rfl, rfl⟩
    rw [GetQueuesQuerySchema, hlimit query hget, optionalField]
    rw [show query.get "status" = some (.string text) from rfl]
    simp only [htext]
    rfl

/-- Following the cursors from an accepted query lists every queue of its status once, in list order. -/
theorem paging_complete (R : QueryRuntime) (H : Host) (requests : List (String × QueueRequest))
    (first : FirstQuery R) :
    let s := queueRouter.run (.initial H) requests
    let queues := matching first.data.status s
    (∀ queue, queue ∈ queues ↔
      queue ∈ listQueues s ∧ ∀ requested ∈ first.data.status, queue.status = requested) ∧
      queues.Sublist (listQueues s) ∧ queues.Nodup ∧ Delivers R s first.query queues := by
  have hs := named_run H requests
  obtain ⟨query, ⟨status, limit, cursor, limit_pos, limit_le⟩, haccepted, hcursor⟩ := first
  obtain rfl : cursor = none := cursor_of_schema haccepted hcursor
  have hfirst : ListsFrom R (queueRouter.run (.initial H) requests) status limit 0 query :=
    ⟨⟨none, limit_pos, limit_le, haccepted, rfl⟩⟩
  obtain ⟨pages, hpages, hitems, htotal⟩ := hfirst.delivers hs
  refine ⟨fun queue => mem_matching, matching_sublist status _, (hs.matching_slugs_nodup status).of_map _,
    pages, hpages, ?_, hitems, htotal⟩
  exact fun other hother => hother.unique hpages

end LineProof.Backend
