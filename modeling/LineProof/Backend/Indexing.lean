import LineProof.Backend.EventIndexer

/-!
# What the event indexer keeps

The storage key of an event is its ledger, namespace, kind and contract. Two events that agree in these
overwrite each other, whatever else they say. The indexer keeps everything exactly when that does not
happen.
-/

namespace LineProof.Backend

open Sdk

/-- Every declared namespace is found by its name. -/
theorem find_name (topic : EventNamespace) :
    (contractTopics.find? fun t => t.name = topic.name) = some topic := by
  cases topic <;> decide

/-- The items that `deserialize` accepts. -/
theorem deserialize_eq_some_iff {raw : JsValue} {event : AnyLineProofEvent} :
    deserialize raw = some event ↔ raw = .object event.property := by
  constructor
  · intro h
    cases raw with
    | object candidate =>
      simp only [deserialize] at h
      split at h
      · split at h
        · rw [← Option.some.inj h]
        · simp at h
      · simp at h
    | _ => simp [deserialize] at h
  · intro h
    subst h
    obtain ⟨property, topic, kind, ledger, hns, hkind, hledger⟩ := event
    simp only [deserialize]
    split
    · case _ ns kind' ledger' hns' hkind' hledger' =>
      have hname : topic.name = ns := JsValue.string.inj (hns.symm.trans hns')
      have hk : kind = kind' := JsValue.string.inj (hkind.symm.trans hkind')
      have hl : ledger = ledger' := JsValue.number.inj (hledger.symm.trans hledger')
      subst hname hk hl
      split
      · case _ found hfound =>
        have : found = topic := Option.some.inj (hfound.symm.trans (find_name topic))
        subst this
        rfl
      · case _ hnone =>
        rw [find_name] at hnone
        simp at hnone
    · case _ hnot => exact absurd hledger (hnot _ _ _ hns hkind)

/-- The well-formed events of some items. -/
def wellFormed (raw : List JsValue) : List AnyLineProofEvent := raw.filterMap deserialize

/-- `m` is one of the numbers, and none of them exceeds it. -/
def IsMaximum (m : JsNumber) (ledgers : List JsNumber) : Prop :=
  m ∈ ledgers ∧ ∀ x ∈ ledgers, m.lt x = false

/-- The loop's comparison keeps a maximum of the ledgers seen. -/
theorem IsMaximum.step {m x : JsNumber} {ledgers : List JsNumber} (h : IsMaximum m ledgers) :
    IsMaximum (if m.lt x then x else m) (ledgers ++ [x]) := by
  obtain ⟨hmem, hle⟩ := h
  split
  · case _ hlt =>
    refine ⟨by simp, ?_⟩
    intro y hy
    rcases List.mem_append.mp hy with hold | hnew
    · -- what exceeds `x` exceeds `m`
      by_contra hxy
      rw [Bool.not_eq_false] at hxy
      have hmy : m.lt y = true := JsNumber.lt_trans hlt hxy
      rw [hle y hold] at hmy
      exact Bool.false_ne_true hmy
    · rw [List.mem_singleton.mp hnew]
      exact JsNumber.lt_irrefl x
  · case _ hlt =>
    refine ⟨List.mem_append_left [x] hmem, ?_⟩
    intro y hy
    rcases List.mem_append.mp hy with hold | hnew
    · exact hle y hold
    · rw [List.mem_singleton.mp hnew]
      simpa using hlt

variable {T : TemplateText} {startLedger : JsNumber}

/-- A persisted event is in the map under its key. -/
theorem persist_eq_some {event : AnyLineProofEvent} {store store' : IndexStore} :
    persist T event store = some store' ↔
      ∃ key, persistKey T event = some key ∧
        { store with events := store.events.set key event } = store' := by
  simp [persist, Option.bind_eq_some_iff]

/-! ## What is stored stands under its own key -/

variable (T) in
/-- Every event is stored under its own key. -/
def Keyed (store : IndexStore) : Prop :=
  ∀ key event, store.events.get key = some event → persistKey T event = some key

/-- Persisting keeps the events under their keys. -/
theorem Keyed.persist {event : AnyLineProofEvent} {store store' : IndexStore} (h : Keyed T store)
    (hpersist : persist T event store = some store') : Keyed T store' := by
  obtain ⟨key, hkey, rfl⟩ := persist_eq_some.mp hpersist
  intro k e he
  by_cases hk : k = key
  · subst hk
    rw [InsertionMap.get_set_self] at he
    rw [← Option.some.inj he]
    exact hkey
  · rw [InsertionMap.get_set_of_ne hk] at he
    exact h k e he

/-- The loop keeps the events under their keys. -/
theorem Keyed.indexLoop {store : IndexStore} (h : Keyed T store) (maxLedger : JsNumber)
    (events : List AnyLineProofEvent) (raw : List JsValue) :
    Keyed T (indexLoop T store maxLedger events raw).1 := by
  induction raw generalizing store maxLedger events with
  | nil => exact h
  | cons item raw ih =>
    rw [Backend.indexLoop]
    split
    · exact ih h maxLedger events
    · split
      · exact h
      · case _ hpersist => exact ih (h.persist hpersist) _ _

/-- A poll keeps the events under their keys. -/
theorem Keyed.poll {store : IndexStore} (h : Keyed T store) (raw : List JsValue) :
    Keyed T (poll T startLedger raw store).1 := by
  have hloop := h.indexLoop (cursor startLedger store) [] raw
  simp only [Backend.poll]
  split
  · case _ hres =>
    rw [hres] at hloop
    split
    · exact hloop
    · exact hloop
  · case _ hres =>
    rw [hres] at hloop
    exact hloop

/-- In every reachable state the events are stored under their keys. -/
theorem polls_keyed (batches : List (List JsValue)) : Keyed T (polls T startLedger batches) := by
  have hrun : ∀ (store : IndexStore), Keyed T store →
      Keyed T (batches.foldl (fun store raw => (poll T startLedger raw store).1) store) := by
    induction batches with
    | nil => exact fun _ h => h
    | cons raw batches ih => exact fun _ h => ih _ (h.poll raw)
  exact hrun .empty (fun key event h => by simp [IndexStore.empty] at h)

/-! ## With distinct keys nothing is lost -/

variable (T) in
/-- Every event has a key, and no other event has the same one. -/
def KeysApart (all : List AnyLineProofEvent) : Prop :=
  ∀ event ∈ all, ∃ key, persistKey T event = some key ∧
    ∀ other ∈ all, persistKey T other = some key → other = event

variable (T startLedger) in
/-- The map holds the events seen so far, and the number is the maximum of their ledgers. -/
structure Tracks (seen : List AnyLineProofEvent) (events : InsertionMap String AnyLineProofEvent)
    (maxLedger : JsNumber) : Prop where
  get_iff : ∀ key event, events.get key = some event ↔ event ∈ seen ∧ persistKey T event = some key
  maximum : IsMaximum maxLedger (startLedger :: seen.map (·.ledger))

section Run

variable {all seen : List AnyLineProofEvent} {store : IndexStore} {maxLedger : JsNumber}

/-- One turn of the loop. -/
theorem Tracks.step (h : Tracks T startLedger seen store.events maxLedger) (hapart : KeysApart T all)
    (hseen : seen ⊆ all) {event : AnyLineProofEvent} (hevent : event ∈ all) {key : String}
    (hkey : persistKey T event = some key) :
    Tracks T startLedger (seen ++ [event]) (store.events.set key event)
      (if maxLedger.lt event.ledger then event.ledger else maxLedger) := by
  refine ⟨?_, ?_⟩
  · intro k e
    by_cases hk : k = key
    · subst hk
      rw [InsertionMap.get_set_self]
      constructor
      · intro he
        rw [← Option.some.inj he]
        exact ⟨by simp, hkey⟩
      · intro he
        -- the key belongs to one event only
        obtain ⟨k', hk', honly⟩ := hapart event hevent
        have hkk : k' = k := Option.some.inj (hk'.symm.trans hkey)
        have hall : e ∈ all := by
          rcases List.mem_append.mp he.1 with hold | hnew
          · exact hseen hold
          · rw [List.mem_singleton.mp hnew]
            exact hevent
        rw [honly e hall (hkk ▸ he.2)]
    · rw [InsertionMap.get_set_of_ne hk, h.get_iff]
      have hne : persistKey T event ≠ some k := fun hev => hk (Option.some.inj (hev.symm.trans hkey))
      grind
  · rw [List.map_append, List.map_singleton, ← List.cons_append]
    exact h.maximum.step

/-- While the keys are apart the loop loses no event. -/
theorem indexLoop_tracks (h : Tracks T startLedger seen store.events maxLedger)
    (hapart : KeysApart T all) (events : List AnyLineProofEvent) (raw : List JsValue)
    (hsub : seen ++ wellFormed raw ⊆ all) :
    ∃ store' maxLedger',
      indexLoop T store maxLedger events raw =
        (store', some (events ++ wellFormed raw, maxLedger')) ∧
      store'.lastLedger = store.lastLedger ∧
      (maxLedger' = maxLedger ∨ maxLedger.lt maxLedger' = true) ∧
      Tracks T startLedger (seen ++ wellFormed raw) store'.events maxLedger' := by
  induction raw generalizing store maxLedger events seen with
  | nil => exact ⟨store, maxLedger, by simp [indexLoop, wellFormed], rfl, .inl rfl, by simpa [wellFormed]⟩
  | cons item raw ih =>
    rw [indexLoop]
    cases hitem : deserialize item with
    | none =>
      have hwf : wellFormed (item :: raw) = wellFormed raw := List.filterMap_cons_none hitem
      rw [hwf] at hsub ⊢
      exact ih h events hsub
    | some event =>
      have hwf : wellFormed (item :: raw) = event :: wellFormed raw := List.filterMap_cons_some hitem
      rw [hwf, List.append_cons] at hsub
      rw [hwf]
      have hevent : event ∈ all := hsub (by simp)
      have hseen : seen ⊆ all := fun e he => hsub (by simp [he])
      obtain ⟨key, hkey, -⟩ := hapart event hevent
      have hpersist : persist T event store = some { store with events := store.events.set key event } :=
        persist_eq_some.mpr ⟨key, hkey, rfl⟩
      have hstep : Tracks T startLedger (seen ++ [event])
          { store with events := store.events.set key event : IndexStore }.events
          (if maxLedger.lt event.ledger then event.ledger else maxLedger) :=
        h.step hapart hseen hevent hkey
      obtain ⟨store', maxLedger', hloop, hlast, hmax, htracks⟩ := ih hstep (events ++ [event]) hsub
      refine ⟨store', maxLedger', ?_, hlast, ?_, ?_⟩
      · simp only [hpersist]
        rw [hloop, List.append_assoc, List.singleton_append]
      · split at hmax
        · case _ hlt =>
          rcases hmax with rfl | hgt
          · exact .inr hlt
          · exact .inr (JsNumber.lt_trans hlt hgt)
        · exact hmax
      · rw [List.append_cons]
        exact htracks

/-- A poll indexes the well-formed events of its batch and returns them. -/
theorem poll_tracks (h : Tracks T startLedger seen store.events (cursor startLedger store))
    (hapart : KeysApart T all) (raw : List JsValue) (hsub : seen ++ wellFormed raw ⊆ all) :
    (poll T startLedger raw store).2 = some (wellFormed raw) ∧
    Tracks T startLedger (seen ++ wellFormed raw) (poll T startLedger raw store).1.events
      (cursor startLedger (poll T startLedger raw store).1) := by
  obtain ⟨store', maxLedger', hloop, hlast, hmax, htracks⟩ := indexLoop_tracks h hapart [] raw hsub
  simp only [poll, hloop, List.nil_append]
  by_cases hlt : (cursor startLedger store).lt maxLedger' = true
  · rw [if_pos hlt]
    exact ⟨rfl, htracks⟩
  · rw [if_neg hlt]
    have hsame : maxLedger' = cursor startLedger store := hmax.resolve_right hlt
    have hcursor : cursor startLedger store' = cursor startLedger store := by
      rw [cursor, cursor, hlast]
    refine ⟨rfl, ?_⟩
    rw [hcursor, ← hsame]
    exact htracks

variable (startLedger) in
/-- While the keys are apart no series of polls loses an event. -/
theorem polls_tracks {batches : List (List JsValue)} (hapart : KeysApart T (wellFormed batches.flatten)) :
    Tracks T startLedger (wellFormed batches.flatten) (polls T startLedger batches).events
      (cursor startLedger (polls T startLedger batches)) := by
  have hrun : ∀ (rest : List (List JsValue)) (seen : List AnyLineProofEvent) (store : IndexStore),
      Tracks T startLedger seen store.events (cursor startLedger store) →
      seen ++ wellFormed rest.flatten = wellFormed batches.flatten →
      let final := rest.foldl (fun store raw => (poll T startLedger raw store).1) store
      Tracks T startLedger (wellFormed batches.flatten) final.events (cursor startLedger final) := by
    intro rest
    induction rest with
    | nil =>
      intro seen store h hall
      rw [← hall]
      simpa [wellFormed] using h
    | cons raw rest ih =>
      intro seen store h hall
      have hsplit : wellFormed (raw :: rest).flatten = wellFormed raw ++ wellFormed rest.flatten := by
        rw [List.flatten_cons, wellFormed, List.filterMap_append]
        rfl
      rw [hsplit, ← List.append_assoc] at hall
      have hsub : seen ++ wellFormed raw ⊆ wellFormed batches.flatten := by
        rw [← hall]
        exact List.subset_append_left _ _
      exact ih _ _ (poll_tracks h hapart raw hsub).2 hall
  refine hrun batches [] .empty ⟨?_, ?_⟩ rfl
  · intro key event
    simp [IndexStore.empty]
  · exact ⟨by simp [cursor, IndexStore.empty], by simp [cursor, IndexStore.empty, JsNumber.lt_irrefl]⟩

end Run

/-! ## The indexer loses nothing exactly if the keys are apart -/

variable (T startLedger) in
/-- After the polls, every well-formed event of the batches is indexed once, nothing else is, and the
cursor is the maximum of `startLedger` and the indexed ledgers. -/
structure IndexesAll (batches : List (List JsValue)) : Prop where
  mem_iff : ∀ event, event ∈ getIndexedEvents (polls T startLedger batches) ↔
    event ∈ wellFormed batches.flatten
  once : (getIndexedEvents (polls T startLedger batches)).Nodup
  cursor : IsMaximum (cursor startLedger (polls T startLedger batches))
    (startLedger :: (getIndexedEvents (polls T startLedger batches)).map (·.ledger))

/-- Events with different keys are all indexed. -/
theorem IndexesAll.of_keysApart {batches : List (List JsValue)}
    (hapart : KeysApart T (wellFormed batches.flatten)) : IndexesAll T startLedger batches := by
  have h := polls_tracks startLedger hapart
  have hmem : ∀ event, event ∈ getIndexedEvents (polls T startLedger batches) ↔
      event ∈ wellFormed batches.flatten := by
    intro event
    rw [getIndexedEvents, InsertionMap.mem_values_iff]
    simp only [h.get_iff]
    constructor
    · intro hex
      obtain ⟨key, hevent, -⟩ := hex
      exact hevent
    · intro hevent
      obtain ⟨key, hkey, -⟩ := hapart event hevent
      exact ⟨key, hevent, hkey⟩
  refine ⟨hmem, ?_, ?_⟩
  · apply InsertionMap.values_nodup
    intro k k' event hk hk'
    have hkey := ((h.get_iff k event).mp hk).2
    have hkey' := ((h.get_iff k' event).mp hk').2
    exact Option.some.inj (hkey.symm.trans hkey')
  · obtain ⟨hmax, hle⟩ := h.maximum
    refine ⟨?_, ?_⟩
    · simpa [hmem] using hmax
    · simpa [hmem] using hle

/-- Where all events are indexed no two of them share a key. -/
theorem IndexesAll.keysApart {batches : List (List JsValue)} (h : IndexesAll T startLedger batches) :
    KeysApart T (wellFormed batches.flatten) := by
  have hkeyed : Keyed T (polls T startLedger batches) := polls_keyed batches
  have hstored : ∀ event ∈ wellFormed batches.flatten, ∃ key,
      persistKey T event = some key ∧ (polls T startLedger batches).events.get key = some event := by
    intro event hevent
    obtain ⟨key, hget⟩ := InsertionMap.mem_values_iff.mp ((h.mem_iff event).mpr hevent)
    exact ⟨key, hkeyed key event hget, hget⟩
  intro event hevent
  obtain ⟨key, hkey, hget⟩ := hstored event hevent
  refine ⟨key, hkey, ?_⟩
  intro other hother hsame
  obtain ⟨key', hkey', hget'⟩ := hstored other hother
  rw [Option.some.inj (hkey'.symm.trans hsame), hget] at hget'
  exact (Option.some.inj hget').symm

/-- Every well-formed event is indexed exactly when different events have different keys. -/
theorem indexesAll_iff (T : TemplateText) (startLedger : JsNumber) (batches : List (List JsValue)) :
    IndexesAll T startLedger batches ↔ KeysApart T (wellFormed batches.flatten) := by
  constructor
  · exact IndexesAll.keysApart
  · exact IndexesAll.of_keysApart

/-- The conversion of texts and natural numbers. -/
def plainText : TemplateText where
  text
    | .string s => some s
    | .number (.finite q) => some (toString q.num)
    | _ => none
  string s := rfl
  ofNat n _ := by
    simp only [JsNumber.ofNat, Rat.num_natCast]
    rfl

instance : Inhabited TemplateText := ⟨plainText⟩

/-- The event of one position of a batch that a queue advances in ledger 100. -/
def advanced (positionId : ℕ) : AnyLineProofEvent where
  property
    | "namespace" => .string "lineproof.queue"
    | "kind" => .string "Advanced"
    | "ledger" => .number (.ofNat 100)
    | "contractId" => .string "CQUEUE"
    | "positionId" => .number (.ofNat positionId)
    | _ => .undefined
  namespace_ := .queue
  kind := "Advanced"
  ledger := .ofNat 100
  namespace_eq := rfl
  kind_eq := rfl
  ledger_eq := rfl

/-- The two advanced positions of one transaction. -/
def advancedBatch : List JsValue := [.object (advanced 1).property, .object (advanced 2).property]

/-- Of two positions advanced in one transaction, one is lost. -/
theorem advanced_lost : ¬ ∃ (T : TemplateText) (startLedger : JsNumber),
    IndexesAll T startLedger [advancedBatch] := by
  intro h
  obtain ⟨T, startLedger, hall⟩ := h
  have hwf : wellFormed advancedBatch = [advanced 1, advanced 2] := by
    have hone (event : AnyLineProofEvent) : deserialize (.object event.property) = some event :=
      deserialize_eq_some_iff.mpr rfl
    simp [wellFormed, advancedBatch, hone]
  obtain ⟨key, hkey, honly⟩ := hall.keysApart (advanced 1) (by simp [hwf])
  have hsame : advanced 2 = advanced 1 := honly (advanced 2) (by simp [hwf]) (by rw [← hkey]; rfl)
  have hposition := congrFun (congrArg AnyLineProofEvent.property hsame) "positionId"
  simp [advanced, JsNumber.ofNat] at hposition

end LineProof.Backend
