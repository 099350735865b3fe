import Mathlib.Data.List.Nodup
import LineProof.Sdk.EventReads

/-!
# What paging and streaming deliver

The RPC is asked for as many events as a page holds, so a page never has a successor. Following the
cursors ends after the first page, and every poll of a stream reads the first page again.
-/

namespace LineProof.Sdk

/-- A filter to start from, without a cursor. -/
structure Criteria where
  contractIds : Option (List String)
  namespaces : Option (List EventNamespace)
  startLedger : Option ℤ
  limit : Option ℕ

/-- The filter of a first request. -/
def Criteria.filter (crit : Criteria) : EventFilter where
  contractIds := crit.contractIds
  namespaces := crit.namespaces
  startLedger := crit.startLedger
  cursor := none
  limit := crit.limit

/-- A log that grows from poll to poll. -/
structure GrowingLog where
  at_ : ℕ → EventLog
  grows : ∀ n, (at_ n).entries <+: (at_ (n + 1)).entries

/-- A later log extends an earlier one. -/
theorem GrowingLog.prefix_of_le (logs : GrowingLog) {i j : ℕ} (h : i ≤ j) :
    (logs.at_ i).entries <+: (logs.at_ j).entries := by
  induction h with
  | refl => exact List.prefix_refl _
  | step _ ih => exact ih.trans (logs.grows _)

section Spec

variable (J : Conversions) (S : StellarSdk) (crit : Criteria)

/-- The event a raw event is delivered as, if it is recognised and asked for. -/
def recognise (raw : RawContractEventLike) : Option Delivered :=
  match deserializeContractEvent J S raw with
  | .ok (some event) => if crit.filter.wants event then some ⟨raw, event⟩ else none
  | _ => none

/-- Deserializing one of the raw events throws. -/
def throws (raws : List RawContractEventLike) : Bool :=
  raws.any fun raw =>
    match deserializeContractEvent J S raw with
    | .error _ => true
    | .ok _ => false

/-- The events the RPC has for a filter. -/
def candidates (log : EventLog) : List RawContractEventLike :=
  log.since (crit.startLedger.getD 0) crit.contractIds

/-- Its answer. -/
def firstPage (log : EventLog) : List RawContractEventLike :=
  (candidates crit log).take crit.filter.pageLimit

/-- The events of a log that match, in log order. -/
def matching (log : EventLog) : List Delivered := (candidates crit log).filterMap (recognise J S crit)

/-- The events a poll delivers. -/
def found (log : EventLog) : List Delivered :=
  if throws J S (firstPage crit log) then []
  else (firstPage crit log).filterMap (recognise J S crit)

end Spec

variable {B : Base64} {J : Conversions} {S : StellarSdk} {crit : Criteria}

/-! ## One page -/

/-- One event that throws makes the request throw. -/
theorem deserializeAll_of_throws {raws : List RawContractEventLike} (h : throws J S raws = true) :
    ∃ e, deserializeAll J S raws = .error e := by
  induction raws with
  | nil => simp [throws] at h
  | cons raw rest ih =>
    rw [deserializeAll]
    cases hraw : deserializeContractEvent J S raw with
    | error e => exact ⟨.js e, rfl⟩
    | ok res =>
      have hrest : throws J S rest = true := by simpa [throws, hraw] using h
      obtain ⟨e, he⟩ := ih hrest
      cases res with
      | none => exact ⟨e, he⟩
      | some event =>
        refine ⟨e, ?_⟩
        simp only [he]

variable (crit) in
/-- Without one the recognised events are left. -/
theorem deserializeAll_of_not_throws {raws : List RawContractEventLike}
    (h : throws J S raws = false) :
    ∃ all, deserializeAll J S raws = .ok all ∧
      (all.filter fun d => crit.filter.wants d.event) = raws.filterMap (recognise J S crit) := by
  induction raws with
  | nil => exact ⟨[], rfl, rfl⟩
  | cons raw rest ih =>
    rw [deserializeAll]
    cases hraw : deserializeContractEvent J S raw with
    | error e => simp [throws, hraw] at h
    | ok res =>
      have hrest : throws J S rest = false := by simpa [throws, hraw] using h
      obtain ⟨all, hall, hfilter⟩ := ih hrest
      cases res with
      | none =>
        refine ⟨all, hall, ?_⟩
        rw [hfilter, List.filterMap_cons_none (by simp [recognise, hraw])]
      | some event =>
        refine ⟨⟨raw, event⟩ :: all, by simp only [hall], ?_⟩
        by_cases hwants : crit.filter.wants event = true
        · simp [hwants, hfilter, recognise, hraw]
        · simp [hwants, hfilter, recognise, hraw]

/-- A first request reads the first page. -/
theorem getEvents_filter (log : EventLog) :
    getEvents B J S log crit.filter =
      match deserializeAll J S (firstPage crit log) with
      | .error e => Except.error e
      | .ok all =>
        .ok (paginate B (all.filter fun d => crit.filter.wants d.event) (some crit.filter.pageLimit)
          fun d index => ⟨.finite d.event.base.ledger, .finite index⟩) :=
  rfl

/-- A request whose page throws is an error. -/
theorem getEvents_of_throws {log : EventLog} (h : throws J S (firstPage crit log) = true) :
    ∃ e, getEvents B J S log crit.filter = .error e := by
  obtain ⟨e, he⟩ := deserializeAll_of_throws h
  exact ⟨e, by rw [getEvents_filter, he]⟩

/-- A page has no more events than the limit. -/
theorem length_found_le (log : EventLog) :
    ((firstPage crit log).filterMap (recognise J S crit)).length ≤ crit.filter.pageLimit := by
  calc ((firstPage crit log).filterMap (recognise J S crit)).length
      ≤ (firstPage crit log).length := List.length_filterMap_le _ _
    _ ≤ crit.filter.pageLimit := List.length_take_le _ _

/-- A page without errors is the last one. -/
theorem getEvents_of_not_throws {log : EventLog} (h : throws J S (firstPage crit log) = false) :
    getEvents B J S log crit.filter =
      .ok ⟨found J S crit log, none, (found J S crit log).length⟩ := by
  obtain ⟨all, hall, hfilter⟩ := deserializeAll_of_not_throws crit h
  have hfound : found J S crit log = (firstPage crit log).filterMap (recognise J S crit) := by
    rw [found, h, if_neg Bool.false_ne_true]
  have hlen : (found J S crit log).length ≤ min crit.filter.pageLimit 200 := by
    have hle : (found J S crit log).length ≤ crit.filter.pageLimit := hfound ▸ length_found_le log
    have hmax : crit.filter.pageLimit ≤ 200 := Nat.min_le_right _ _
    omega
  rw [getEvents_filter, hall]
  simp only [hfilter, ← hfound]
  rw [paginate_of_length_le B hlen]

/-! ## Following the cursors -/

variable (B J S) in
/-- Following the cursors delivers exactly the matching events, in log order. -/
def PagingExact (crit : Criteria) (log : EventLog) : Prop :=
  Walk B J S log crit.filter (matching J S crit log)

variable (J S) in
/-- The first page deserializes, and no matching event comes after it. -/
def FitsPage (crit : Criteria) (log : EventLog) : Prop :=
  throws J S (firstPage crit log) = false ∧
    ∀ raw ∈ (candidates crit log).drop crit.filter.pageLimit, recognise J S crit raw = none

/-- The matching events are those of the first page and those after it. -/
theorem matching_eq (log : EventLog) :
    matching J S crit log = (firstPage crit log).filterMap (recognise J S crit) ++
      ((candidates crit log).drop crit.filter.pageLimit).filterMap (recognise J S crit) := by
  rw [matching, firstPage, ← List.filterMap_append, List.take_append_drop]

/-- A walk is exact when the first page has everything that matches. -/
theorem pagingExact_iff {log : EventLog} : PagingExact B J S crit log ↔ FitsPage J S crit log := by
  constructor
  · intro h
    rw [PagingExact] at h
    generalize hitems : matching J S crit log = items at h
    cases hthrows : throws J S (firstPage crit log) with
    | true =>
      obtain ⟨e, he⟩ := getEvents_of_throws (B := B) hthrows
      cases h with
      | last hpage => simp [he] at hpage
      | next hpage => simp [he] at hpage
    | false =>
      have hget := getEvents_of_not_throws (B := B) hthrows
      cases h with
      | last hpage hlast =>
        rw [hget] at hpage
        have hpage' := Except.ok.inj hpage
        rw [← hpage', found, hthrows, if_neg Bool.false_ne_true, matching_eq] at hitems
        have hrest := List.append_right_eq_self.mp hitems
        exact ⟨hthrows, List.filterMap_eq_nil_iff.mp hrest⟩
      | next hpage hnext hrest =>
        rw [hget] at hpage
        rw [← Except.ok.inj hpage] at hnext
        simp at hnext
  · intro h
    obtain ⟨hthrows, hrest⟩ := h
    have hitems : matching J S crit log = found J S crit log := by
      rw [matching_eq, List.filterMap_eq_nil_iff.mpr hrest, List.append_nil, found, hthrows,
        if_neg Bool.false_ne_true]
    rw [PagingExact, hitems]
    exact Walk.last (getEvents_of_not_throws hthrows) rfl

/-! ## Streaming -/

/-- No poll moves the cursor, so every poll delivers what it finds on the first page. -/
theorem poll_filter (log : EventLog) (delivered : List Delivered) :
    poll B J S crit.filter log ⟨none, delivered⟩ = ⟨none, delivered ++ found J S crit log⟩ := by
  cases hthrows : throws J S (firstPage crit log) with
  | true =>
    obtain ⟨e, he⟩ := getEvents_of_throws (B := B) hthrows
    have hfound : found J S crit log = [] := by rw [found, hthrows, if_pos rfl]
    simp only [poll, he]
    rw [hfound, List.append_nil]
  | false =>
    simp only [poll, getEvents_of_not_throws (B := B) hthrows]

/-- Every poll reads the first page again. -/
theorem streamEvents_filter (logs : ℕ → EventLog) (n : ℕ) :
    streamEvents B J S crit.filter logs n =
      ⟨none, ((List.range n).map fun i => found J S crit (logs i)).flatten⟩ := by
  induction n with
  | zero => rfl
  | succ n ih =>
    rw [streamEvents, ih, poll_filter, List.range_succ, List.map_append, List.flatten_append,
      List.map_singleton, List.flatten_singleton]

section Growth

variable {log log' : EventLog}

variable (crit) in
/-- The candidates of a longer log extend those of the shorter. -/
theorem candidates_grow (h : log.entries <+: log'.entries) :
    candidates crit log <+: candidates crit log' :=
  h.filter _

/-- The first page of a longer log extends that of the shorter. -/
theorem firstPage_grow (h : log.entries <+: log'.entries) :
    firstPage crit log <+: firstPage crit log' := by
  obtain ⟨rest, hrest⟩ := candidates_grow crit h
  rw [firstPage, firstPage, ← hrest, List.take_append]
  exact List.prefix_append _ _

/-- The matching events of a longer log extend those of the shorter. -/
theorem matching_grow (h : log.entries <+: log'.entries) :
    matching J S crit log <+: matching J S crit log' :=
  (candidates_grow crit h).filterMap _

/-- A recognised event keeps its raw event. -/
theorem recognise_raw {raw : RawContractEventLike} {d : Delivered}
    (h : recognise J S crit raw = some d) : d.raw = raw := by
  unfold recognise at h
  split at h
  · split at h
    · rw [← Option.some.inj h]
    · simp at h
  · simp at h

/-- No event matches twice. -/
theorem matching_nodup (log : EventLog) : (matching J S crit log).Nodup := by
  have hentries : log.entries.Nodup := List.Nodup.of_map _ log.nodup
  apply List.Nodup.filterMap
  · intro raw raw' d hd hd'
    rw [← recognise_raw hd, recognise_raw hd']
  · exact hentries.filter _

/-- A poll delivers the first matching events. -/
theorem found_prefix_matching (log : EventLog) : found J S crit log <+: matching J S crit log := by
  rw [found]
  split
  · exact List.nil_prefix
  · exact (List.take_prefix _ _).filterMap _

/-- An event found once is found by every later poll that finds anything. -/
theorem found_subset (h : log.entries <+: log'.entries) (hne : found J S crit log' ≠ []) :
    found J S crit log ⊆ found J S crit log' := by
  rw [found] at hne
  split at hne
  · exact absurd rfl hne
  · case _ hthrows =>
    rw [found, found, if_neg hthrows]
    split
    · exact List.nil_subset _
    · exact ((firstPage_grow h).filterMap _).subset

end Growth

variable (J S) in
/-- A poll that sees the log finds a matching event on the first page. -/
def Finds (crit : Criteria) (log : EventLog) : Prop :=
  throws J S (firstPage crit log) = false ∧ ∃ raw ∈ firstPage crit log, recognise J S crit raw ≠ none

/-- A poll that finds an event delivers one. -/
theorem finds_iff {log : EventLog} : Finds J S crit log ↔ found J S crit log ≠ [] := by
  rw [Finds, found]
  cases throws J S (firstPage crit log) with
  | true => simp
  | false => simp [List.filterMap_eq_nil_iff]

variable (logs : GrowingLog)

/-- After some polls, the delivered events are the first matching ones, each of them once, if and only
if at most one of the polls has found any. -/
theorem delivered_prefix_iff (n : ℕ) :
    (streamEvents B J S crit.filter logs.at_ (n + 1)).delivered <+: matching J S crit (logs.at_ n) ↔
      ∀ i j, i < j → j ≤ n → ¬ (Finds J S crit (logs.at_ i) ∧ Finds J S crit (logs.at_ j)) := by
  rw [streamEvents_filter]
  constructor
  · intro h i j hij hjn hboth
    obtain ⟨hi, hj⟩ := hboth
    rw [finds_iff] at hi hj
    have hnodup := h.sublist.nodup (matching_nodup (logs.at_ n))
    have hdisjoint := (List.nodup_flatten.mp hnodup).2
    rw [List.pairwise_map] at hdisjoint
    obtain ⟨d, hd⟩ := List.exists_mem_of_ne_nil _ hi
    have hd' : d ∈ found J S crit (logs.at_ j) := found_subset (logs.prefix_of_le hij.le) hj hd
    have hlt := List.pairwise_iff_getElem.mp hdisjoint i j (by simp; omega) (by simp; omega) hij
    simp only [List.getElem_range] at hlt
    exact hlt hd hd'
  · intro h
    induction n with
    | zero => simpa using found_prefix_matching (logs.at_ 0)
    | succ n ih =>
      have hprev := ih fun i j hij hjn => h i j hij (by omega)
      rw [List.range_succ, List.map_append, List.flatten_append, List.map_singleton,
        List.flatten_singleton]
      by_cases hlast : found J S crit (logs.at_ (n + 1)) = []
      · rw [hlast, List.append_nil]
        exact hprev.trans (matching_grow (logs.grows n))
      · -- the earlier polls have found nothing
        have hnone : ((List.range (n + 1)).map fun i => found J S crit (logs.at_ i)).flatten = [] := by
          rw [List.flatten_eq_nil_iff]
          intro l hl
          obtain ⟨i, hi, rfl⟩ := List.mem_map.mp hl
          by_contra hne
          exact h i (n + 1) (List.mem_range.mp hi) le_rfl ⟨finds_iff.mpr hne, finds_iff.mpr hlast⟩
        rw [hnone, List.nil_append]
        exact found_prefix_matching _

variable (B J S) in
/-- At any time the delivered events are the first matching ones, each of them once, and every matching
event is delivered. -/
structure StreamExact (crit : Criteria) (logs : GrowingLog) : Prop where
  inOrder : ∀ n, (streamEvents B J S crit.filter logs.at_ (n + 1)).delivered <+:
    matching J S crit (logs.at_ n)
  complete : ∀ n, ∀ d ∈ matching J S crit (logs.at_ n),
    ∃ m, d ∈ (streamEvents B J S crit.filter logs.at_ m).delivered

variable (J S) in
/-- At most one poll finds matching events, and all there ever are. -/
structure FoundOnce (crit : Criteria) (logs : GrowingLog) : Prop where
  once : ∀ i j, i < j → ¬ (Finds J S crit (logs.at_ i) ∧ Finds J S crit (logs.at_ j))
  all : ∀ n, ∀ raw ∈ candidates crit (logs.at_ n), recognise J S crit raw ≠ none →
    ∃ m, throws J S (firstPage crit (logs.at_ m)) = false ∧ raw ∈ firstPage crit (logs.at_ m)

variable {logs}

/-- What has been delivered after `n` polls. -/
theorem mem_streamEvents_iff {d : Delivered} {n : ℕ} :
    d ∈ (streamEvents B J S crit.filter logs.at_ n).delivered ↔
      ∃ m < n, d ∈ found J S crit (logs.at_ m) := by
  simp only [streamEvents_filter, List.mem_flatten, List.mem_map, List.mem_range]
  constructor
  · intro h
    obtain ⟨_, ⟨m, hm, rfl⟩, hd⟩ := h
    exact ⟨m, hm, hd⟩
  · intro h
    obtain ⟨m, hm, hd⟩ := h
    exact ⟨_, ⟨m, hm, rfl⟩, hd⟩

/-- What is ever delivered was found by some poll. -/
theorem exists_mem_streamEvents_iff {d : Delivered} :
    (∃ n, d ∈ (streamEvents B J S crit.filter logs.at_ n).delivered) ↔
      ∃ m, d ∈ found J S crit (logs.at_ m) := by
  simp only [mem_streamEvents_iff]
  constructor
  · intro h
    obtain ⟨_, m, -, hd⟩ := h
    exact ⟨m, hd⟩
  · intro h
    obtain ⟨m, hd⟩ := h
    exact ⟨m + 1, m, m.lt_succ_self, hd⟩

/-- A poll delivers the recognised events of a first page that does not throw. -/
theorem mem_found_iff {log : EventLog} {d : Delivered} :
    d ∈ found J S crit log ↔
      throws J S (firstPage crit log) = false ∧ d.raw ∈ firstPage crit log ∧
        recognise J S crit d.raw = some d := by
  rw [found]
  cases throws J S (firstPage crit log) with
  | true => simp
  | false =>
    simp only [Bool.false_eq_true, if_false, List.mem_filterMap, true_and]
    constructor
    · intro h
      obtain ⟨raw, hraw, hd⟩ := h
      rw [recognise_raw hd]
      exact ⟨hraw, hd⟩
    · intro h
      exact ⟨d.raw, h.1, h.2⟩

/-- A stream is exact when at most one poll finds something, and everything. -/
theorem streamExact_iff : StreamExact B J S crit logs ↔ FoundOnce J S crit logs := by
  have hcomplete (d : Delivered) (hd : recognise J S crit d.raw = some d) :
      (∃ m, d ∈ (streamEvents B J S crit.filter logs.at_ m).delivered) ↔
        ∃ m, throws J S (firstPage crit (logs.at_ m)) = false ∧ d.raw ∈ firstPage crit (logs.at_ m) := by
    simp only [exists_mem_streamEvents_iff, mem_found_iff, hd, and_true]
  constructor
  · intro h
    refine ⟨fun i j hij => (delivered_prefix_iff logs j).mp (h.inOrder j) i j hij le_rfl, ?_⟩
    intro n raw hraw hne
    obtain ⟨d, hd⟩ := Option.ne_none_iff_exists'.mp hne
    have hsource : d.raw = raw := recognise_raw hd
    subst hsource
    exact (hcomplete d hd).mp (h.complete n d (List.mem_filterMap.mpr ⟨d.raw, hraw, hd⟩))
  · intro h
    refine ⟨fun n => (delivered_prefix_iff logs n).mpr fun i j hij _ => h.once i j hij, ?_⟩
    intro n d hd
    obtain ⟨raw, hraw, hd⟩ := List.mem_filterMap.mp hd
    have hsource : d.raw = raw := recognise_raw hd
    subst hsource
    exact (hcomplete d hd).mpr (h.all n d.raw hraw (by simp [hd]))

variable (B J S) in
/-- A stream that is stopped after the `n`th poll has delivered the matching events of the log by then, each
of them once and in order. -/
def StoppedExact (crit : Criteria) (logs : GrowingLog) (n : ℕ) : Prop :=
  (streamEvents B J S crit.filter logs.at_ (n + 1)).delivered = matching J S crit (logs.at_ n)

variable (J S) in
/-- At most one of the polls up to the `n`th finds matching events, and all that the log has by then. -/
structure FoundOnceBy (crit : Criteria) (logs : GrowingLog) (n : ℕ) : Prop where
  once : ∀ i j, i < j → j ≤ n → ¬ (Finds J S crit (logs.at_ i) ∧ Finds J S crit (logs.at_ j))
  all : ∀ raw ∈ candidates crit (logs.at_ n), recognise J S crit raw ≠ none →
    ∃ m ≤ n, throws J S (firstPage crit (logs.at_ m)) = false ∧ raw ∈ firstPage crit (logs.at_ m)

/-- The same of a stream that is stopped after its `n`th poll. -/
theorem stoppedExact_iff (n : ℕ) :
    StoppedExact B J S crit logs n ↔ FoundOnceBy J S crit logs n := by
  rw [StoppedExact]
  constructor
  · intro h
    have hprefix : (streamEvents B J S crit.filter logs.at_ (n + 1)).delivered <+:
        matching J S crit (logs.at_ n) := by simp [h]
    refine ⟨(delivered_prefix_iff logs n).mp hprefix, ?_⟩
    intro raw hraw hne
    obtain ⟨d, hd⟩ := Option.ne_none_iff_exists'.mp hne
    have hmem : d ∈ matching J S crit (logs.at_ n) := List.mem_filterMap.mpr ⟨raw, hraw, hd⟩
    rw [← h] at hmem
    obtain ⟨m, hm, hfound⟩ := mem_streamEvents_iff.mp hmem
    obtain ⟨hthrows, hpage, -⟩ := mem_found_iff.mp hfound
    exact ⟨m, Nat.le_of_lt_succ hm, hthrows, recognise_raw hd ▸ hpage⟩
  · intro h
    have hprefix := (delivered_prefix_iff (B := B) logs n).mpr h.once
    apply hprefix.eq_of_length_le
    refine (List.subperm_of_subset (matching_nodup (logs.at_ n)) fun d hd => ?_).length_le
    obtain ⟨raw, hraw, hd⟩ := List.mem_filterMap.mp hd
    obtain rfl := recognise_raw hd
    obtain ⟨m, hm, hthrows, hpage⟩ := h.all d.raw hraw (by simp [hd])
    exact mem_streamEvents_iff.mpr
      ⟨m, Nat.lt_succ_of_le hm, mem_found_iff.mpr ⟨hthrows, hpage, hd⟩⟩

/-- As long as every event can be deserialized, what is found once is found again by the next poll. -/
theorem foundOnce_iff_of_not_throws (hok : ∀ n, throws J S (firstPage crit (logs.at_ n)) = false) :
    FoundOnce J S crit logs ↔
      ∀ n, ∀ raw ∈ candidates crit (logs.at_ n), recognise J S crit raw = none := by
  constructor
  · intro h n raw hraw
    by_contra hne
    obtain ⟨m, -, hm⟩ := h.all n raw hraw hne
    have hnext : raw ∈ firstPage crit (logs.at_ (m + 1)) := (firstPage_grow (logs.grows m)).subset hm
    exact h.once m (m + 1) m.lt_succ_self ⟨⟨hok m, raw, hm, hne⟩, ⟨hok (m + 1), raw, hnext, hne⟩⟩
  · intro h
    refine ⟨?_, fun n raw hraw hne => absurd (h n raw hraw) hne⟩
    intro i j _ hboth
    obtain ⟨⟨-, raw, hraw, hne⟩, -⟩ := hboth
    exact hne (h i raw (List.mem_of_mem_take hraw))

/-- Paging is exact if the matching events fit the first page, and streaming if one poll at most finds
any, whether it is stopped or goes on. -/
theorem readsExact_iff (B : Base64) (J : Conversions) (S : StellarSdk) (crit : Criteria) :
    (∀ log, PagingExact B J S crit log ↔ FitsPage J S crit log) ∧
    (∀ logs, StreamExact B J S crit logs ↔ FoundOnce J S crit logs) ∧
    (∀ logs n, StoppedExact B J S crit logs n ↔ FoundOnceBy J S crit logs n) := by
  refine ⟨?_, ?_, ?_⟩
  · intro log
    exact pagingExact_iff
  · intro logs
    exact streamExact_iff
  · intro logs n
    exact stoppedExact_iff n

/-- An event of a queue that has closed. -/
def queueClosed (id : String) : RawContractEventLike where
  ledger := 10
  ledgerClosedAt := "2025-07-01T00:00:00Z"
  contractId := some "CTEST"
  id := id
  topic := some [.scVal (.val (.string "lineproof.queue")), .scVal (.val (.string "QueueClosed"))]
  value := none

/-- Two events in one ledger. -/
def closedTwice : EventLog where
  entries := [queueClosed "10-0", queueClosed "10-1"]
  sorted := by simp [queueClosed]
  nodup := by decide

/-- Every event, one to a page. -/
def onePerPage : Criteria := ⟨none, none, none, some 1⟩

/-- With one event to a page, the second is never delivered. -/
theorem second_event_unreachable : ¬ ∃ (B : Base64) (J : Conversions) (S : StellarSdk),
    PagingExact B J S onePerPage closedTwice := by
  intro h
  obtain ⟨B, J, S, hexact⟩ := h
  have hfits := pagingExact_iff.mp hexact
  have hrest : (candidates onePerPage closedTwice).drop onePerPage.filter.pageLimit =
      [queueClosed "10-1"] := rfl
  have hsecond := hfits.2 (queueClosed "10-1") (by simp [hrest])
  have hsome : (recognise J S onePerPage (queueClosed "10-1")).isSome = true := by
    simp [recognise, deserializeContractEvent, queueClosed, decodeTopicSegment, S.string,
      isEventNamespace, eventNamespaces, EventNamespace.name, attachTypedFields, EventFilter.wants,
      Criteria.filter, onePerPage]
  rw [hsecond] at hsome
  exact Bool.false_ne_true hsome

end LineProof.Sdk
