import LineProof.Sdk.Sequences

/-!
# Every reserved sequence is the next one

Without a forced refresh, a request is made only when every earlier one for the key has failed, so at most one
succeeds. From then on the sequence of the key is cached, and each call that goes on takes the cached one and
leaves the next. A call that waits for a failed request is rejected.
-/

namespace LineProof.Sdk.Sequences

variable {s s' : Sequences} {publicKey : String}

/-! ## What one event does -/

/-- The kinds of steps. -/
inductive Effect (s : Sequences) : SequenceEvent → Sequences → Prop
  | idle {e : SequenceEvent} : Effect s e s
  | finds {publicKey : String} {sequence : ℤ} (h : s.sequenceCache.get publicKey = some sequence) :
    Effect s (.called publicKey)
      { s with reservations := s.reservations ++ [⟨publicKey, none, none⟩] }
  | joins {publicKey : String} {f : ℕ} (h : s.sequenceFetches.get publicKey = some f) :
    Effect s (.called publicKey)
      { s with reservations := s.reservations ++ [⟨publicKey, some f, none⟩] }
  | requests {publicKey : String} (hcache : s.sequenceCache.get publicKey = none)
      (hfetches : s.sequenceFetches.get publicKey = none) :
    Effect s (.called publicKey)
      { s with
        getAccounts := s.getAccounts ++ [⟨publicKey, none, false⟩]
        sequenceFetches := s.sequenceFetches.set publicKey s.getAccounts.length
        reservations := s.reservations ++ [⟨publicKey, some s.getAccounts.length, none⟩] }
  | refreshes {publicKey : String} :
    Effect s (.refreshed publicKey) (s.fetchAccountSequence publicKey true).1
  | succeeds {f : ℕ} {publicKey : String} {finished : Bool} {sequence : ℤ}
      (h : s.getAccounts[f]? = some ⟨publicKey, none, finished⟩) :
    Effect s (.answered f (.ok sequence))
      { s with
        getAccounts := s.getAccounts.set f ⟨publicKey, some (.ok sequence), finished⟩
        sequenceCache := s.sequenceCache.set publicKey sequence }
  | fails {f : ℕ} {publicKey : String} {finished : Bool} {error : Failure}
      (h : s.getAccounts[f]? = some ⟨publicKey, none, finished⟩) :
    Effect s (.answered f (.error error))
      { s with getAccounts := s.getAccounts.set f ⟨publicKey, some (.error error), finished⟩ }
  | finishes {f : ℕ} {publicKey : String} {result : Except Failure ℤ}
      (h : s.getAccounts[f]? = some ⟨publicKey, some result, false⟩) :
    Effect s (.finished f)
      { s with
        getAccounts := s.getAccounts.set f ⟨publicKey, some result, true⟩
        sequenceFetches := s.sequenceFetches.delete publicKey }
  | rejects {c : ℕ} {call : Reservation} {error : Failure} (hcall : s.reservations[c]? = some call)
      (hwaits : call.outcome = none) (hawaited : s.awaited call.pending = some (.error error)) :
    Effect s (.resumed c) (s.conclude c call (.error error))
  | reserves {c : ℕ} {call : Reservation} (hcall : s.reservations[c]? = some call)
      (hwaits : call.outcome = none) (hawaited : s.awaited call.pending = some (.ok ())) :
    Effect s (.resumed c) (s.reserve c call)

/-- Every step is of one of the kinds. -/
theorem effect_step (s : Sequences) (e : SequenceEvent) : Effect s e (s.step e) := by
  cases e with
  | called publicKey =>
    simp only [step, fetchAccountSequence, Bool.false_eq_true, if_false]
    cases hcache : s.sequenceCache.get publicKey with
    | some sequence => exact .finds hcache
    | none =>
      cases hfetches : s.sequenceFetches.get publicKey with
      | some f => exact .joins hfetches
      | none => exact .requests hcache hfetches
  | refreshed publicKey => exact .refreshes
  | answered f result =>
    simp only [step]
    split
    next publicKey finished hfetch =>
      cases result with
      | ok sequence => exact .succeeds hfetch
      | error error => exact .fails hfetch
    next => exact .idle
  | finished f =>
    simp only [step]
    split
    next publicKey result hfetch => exact .finishes hfetch
    next => exact .idle
  | resumed c =>
    simp only [step]
    split
    next publicKey pending hcall =>
      split
      next hawaited => exact .reserves hcall rfl hawaited
      next error hawaited => exact .rejects hcall rfl hawaited
      next => exact .idle
    next => exact .idle

/-- A list after one of its entries was replaced. -/
theorem getElem?_set_of_some {α : Type*} {l : List α} {i j : ℕ} {a b : α} (h : l[i]? = some a) :
    (l.set i b)[j]? = if j = i then some b else l[j]? := by
  obtain ⟨hlt, -⟩ := List.getElem?_eq_some_iff.mp h
  rw [List.getElem?_set]
  by_cases hij : j = i
  · rw [if_pos hij, if_pos hij.symm, if_pos hlt]
  · rw [if_neg hij, if_neg (Ne.symm hij)]

/-- An element of an updated list is the new one or an old one. -/
theorem getElem?_set_cases {α : Type*} {l : List α} {i j : ℕ} {a b x : α} (h : l[i]? = some a)
    (hget : (l.set i b)[j]? = some x) : j = i ∧ x = b ∨ j ≠ i ∧ l[j]? = some x := by
  rw [getElem?_set_of_some h] at hget
  split at hget
  next heq => exact .inl ⟨heq, (Option.some.inj hget).symm⟩
  next hne => exact .inr ⟨hne, hget⟩

/-- A longer list keeps its elements. -/
theorem getElem?_append_of_some {α : Type*} {l l' : List α} {j : ℕ} {a : α} (h : l[j]? = some a) :
    (l ++ l')[j]? = some a := by
  rw [List.getElem?_append_left (List.getElem?_eq_some_iff.mp h).1, h]

/-- An element of a longer list is an old one or the new last one. -/
theorem getElem?_concat {α : Type*} {l : List α} {j : ℕ} {new a : α} (h : (l ++ [new])[j]? = some a) :
    l[j]? = some a ∨ j = l.length ∧ a = new := by
  rw [List.getElem?_append] at h
  split at h
  · exact .inl h
  · obtain ⟨hindex, heq⟩ := List.getElem?_eq_some_iff.mp h
    rw [List.length_singleton] at hindex
    refine .inr ⟨by omega, ?_⟩
    simpa using heq.symm

/-! ## Fetches -/

/-- The sequences given out for a key, in order. -/
def sequences (s : Sequences) (publicKey : String) : List ℤ :=
  s.reserved.filterMap fun entry =>
    if entry.2.accountId = publicKey then some entry.2.sequence else none

/-- Sequences are given out one by one, and the next one is cached. -/
structure CountsFrom (s : Sequences) (publicKey : String) (start : ℤ) : Prop where
  consecutive : ∀ (k : ℕ) n, (s.sequences publicKey)[k]? = some n → n = start + k
  next : s.sequenceCache.get publicKey = some (start + (s.sequences publicKey).length)

/-- The count depends on the key's sequences and its cached one. -/
theorem CountsFrom.congr {start : ℤ} (h : s.CountsFrom publicKey start)
    (hsequences : s'.sequences publicKey = s.sequences publicKey)
    (hcache : s'.sequenceCache.get publicKey = s.sequenceCache.get publicKey) :
    s'.CountsFrom publicKey start := by
  constructor
  · rw [hsequences]
    exact h.consecutive
  · rw [hsequences, hcache]
    exact h.next

/-- The request was answered with an error, and its promise is settled. -/
def Failed (fetch : AccountFetch) : Prop :=
  (∃ error, fetch.result = some (.error error)) ∧ fetch.finished = true

/-- For each key one fetch at most is in flight. -/
structure OneInFlight (s : Sequences) : Prop where
  /-- the map has the fetches whose `.finally` has not run -/
  inFlight : ∀ publicKey f, s.sequenceFetches.get publicKey = some f ↔
    ∃ fetch, s.getAccounts[f]? = some fetch ∧ fetch.publicKey = publicKey ∧ fetch.finished = false
  answered : ∀ (f : ℕ) (fetch : AccountFetch), s.getAccounts[f]? = some fetch → fetch.finished = true → fetch.result ≠ none
  /-- a request is made when every earlier one for the key has failed -/
  failedBefore : ∀ (f g : ℕ) (fetch later : AccountFetch), f < g → s.getAccounts[f]? = some fetch →
    s.getAccounts[g]? = some later → fetch.publicKey = later.publicKey → Failed fetch

/-- What holds between the fetches and the cache. -/
structure Fetching (s : Sequences) : Prop extends OneInFlight s where
  fetched : ∀ (f : ℕ) (fetch : AccountFetch) start, s.getAccounts[f]? = some fetch → fetch.result = some (.ok start) →
    s.CountsFrom fetch.publicKey start
  notFetched : ∀ publicKey, (∀ (f : ℕ) (fetch : AccountFetch), s.getAccounts[f]? = some fetch →
    fetch.publicKey = publicKey → ∀ start, fetch.result ≠ some (.ok start)) →
    s.sequenceCache.get publicKey = none ∧ s.sequences publicKey = []

/-- Nothing is fetched at the start. -/
theorem fetching_fresh : fresh.Fetching where
  inFlight publicKey f := by simp [fresh]
  answered f fetch h := by simp [fresh] at h
  failedBefore f g fetch later _ h := by simp [fresh] at h
  fetched f fetch start h := by simp [fresh] at h
  notFetched publicKey _ := ⟨rfl, rfl⟩

/-- Nothing is in flight or cached for a key whose fetches have all failed. -/
theorem Fetching.failed_of_none (h : s.Fetching) (hcache : s.sequenceCache.get publicKey = none)
    (hfetches : s.sequenceFetches.get publicKey = none) {f : ℕ} {fetch : AccountFetch}
    (hfetch : s.getAccounts[f]? = some fetch) (hkey : fetch.publicKey = publicKey) :
    Failed fetch := by
  have hfinished : fetch.finished = true := by
    by_contra hopen
    have hget := (h.inFlight publicKey f).mpr ⟨fetch, hfetch, hkey, Bool.eq_false_iff.mpr hopen⟩
    rw [hfetches] at hget
    cases hget
  refine ⟨?_, hfinished⟩
  cases hresult : fetch.result with
  | none => exact absurd hresult (h.answered f fetch hfetch hfinished)
  | some result =>
    cases result with
    | ok start =>
      have hnext := (h.fetched f fetch start hfetch hresult).next
      rw [hkey, hcache] at hnext
      cases hnext
    | error error => exact ⟨error, rfl⟩

/-- The calls are no matter of the fetches. -/
theorem Fetching.calls (h : s.Fetching) (reservations : List Reservation) :
    Fetching { s with reservations } where
  inFlight := h.inFlight
  answered := h.answered
  failedBefore := h.failedBefore
  fetched f fetch start hfetch hresult := (h.fetched f fetch start hfetch hresult).congr rfl rfl
  notFetched := h.notFetched

/-- A new request is the one in flight for its key. -/
theorem Fetching.requests (h : s.Fetching) (hcache : s.sequenceCache.get publicKey = none)
    (hfetches : s.sequenceFetches.get publicKey = none) (reservations : List Reservation) :
    Fetching
      { s with
        getAccounts := s.getAccounts ++ [⟨publicKey, none, false⟩]
        sequenceFetches := s.sequenceFetches.set publicKey s.getAccounts.length
        reservations } where
  inFlight key f := by
    have hkey := h.inFlight key f
    by_cases hsame : key = publicKey
    · subst hsame
      rw [InsertionMap.get_set_self, Option.some.injEq]
      rw [hfetches] at hkey
      constructor
      · rintro rfl
        exact ⟨_, List.getElem?_concat_length, rfl, rfl⟩
      · rintro ⟨fetch, hfetch, hopen⟩
        rcases getElem?_concat hfetch with hold | ⟨rfl, -⟩
        · cases hkey.mpr ⟨fetch, hold, hopen⟩
        · rfl
    · rw [InsertionMap.get_set_of_ne hsame, hkey]
      constructor
      · rintro ⟨fetch, hfetch, hopen⟩
        exact ⟨fetch, getElem?_append_of_some hfetch, hopen⟩
      · rintro ⟨fetch, hfetch, hopen⟩
        rcases getElem?_concat hfetch with hold | ⟨-, rfl⟩
        · exact ⟨fetch, hold, hopen⟩
        · exact absurd hopen.1.symm hsame
  answered f fetch hfetch hfinished := by
    rcases getElem?_concat hfetch with hold | ⟨-, rfl⟩
    · exact h.answered f fetch hold hfinished
    · cases hfinished
  failedBefore f g fetch later hlt hfetch hlater hkey := by
    have hbound := (List.getElem?_eq_some_iff.mp hlater).1
    rw [List.length_append, List.length_singleton] at hbound
    rcases getElem?_concat hfetch with hold | ⟨rfl, -⟩
    · rcases getElem?_concat hlater with hlater | ⟨-, rfl⟩
      · exact h.failedBefore f g fetch later hlt hold hlater hkey
      · exact h.failed_of_none hcache hfetches hold hkey
    · omega
  fetched f fetch start hfetch hresult := by
    rcases getElem?_concat hfetch with hold | ⟨-, rfl⟩
    · exact (h.fetched f fetch start hold hresult).congr rfl rfl
    · cases hresult
  notFetched key hnone := by
    exact h.notFetched key fun f fetch hfetch => hnone f fetch (getElem?_append_of_some hfetch)

/-- The other fetches for the key of a fetch that is not answered: the earlier ones have failed, and there are
no later ones. -/
theorem Fetching.others_failed (h : s.Fetching) {f g : ℕ} {fetch other : AccountFetch}
    (hfetch : s.getAccounts[f]? = some fetch) (hwaits : ¬ Failed fetch)
    (hother : s.getAccounts[g]? = some other) (hkey : other.publicKey = fetch.publicKey) :
    g = f ∨ g < f ∧ Failed other := by
  rcases Nat.lt_trichotomy g f with hlt | heq | hlt
  · exact .inr ⟨hlt, h.failedBefore g f other fetch hlt hother hfetch hkey⟩
  · exact .inl heq
  · exact absurd (h.failedBefore f g fetch other hlt hfetch hother hkey.symm) hwaits

/-- Nothing is cached for a key with a fetch that is not answered. -/
theorem Fetching.none_of_waiting (h : s.Fetching) {f : ℕ} {finished : Bool}
    (hfetch : s.getAccounts[f]? = some ⟨publicKey, none, finished⟩) :
    s.sequenceCache.get publicKey = none ∧ s.sequences publicKey = [] := by
  refine h.notFetched publicKey fun g other hother hkey start hresult => ?_
  rcases h.others_failed hfetch (fun hfailed => by cases hfailed.1.choose_spec) hother hkey with rfl | hlt
  · rw [hfetch, Option.some.injEq] at hother
    rw [← hother] at hresult
    cases hresult
  · obtain ⟨-, ⟨error, herror⟩, -⟩ := hlt
    rw [herror] at hresult
    cases hresult

/-- A fetch that has not failed is the last one for its key, whatever becomes of it. -/
theorem OneInFlight.failedBefore_set (h : s.OneInFlight) {f : ℕ} {old new : AccountFetch}
    (hfetch : s.getAccounts[f]? = some old) (hwaits : ¬ Failed old) (hsame : new.publicKey = old.publicKey) :
    ∀ (g g' : ℕ) (fetch later : AccountFetch), g < g' → (s.getAccounts.set f new)[g]? = some fetch →
      (s.getAccounts.set f new)[g']? = some later → fetch.publicKey = later.publicKey → Failed fetch := by
  intro g g' fetch later hlt hget hget' hkey
  have hlater : ∃ before, s.getAccounts[g']? = some before ∧ before.publicKey = later.publicKey := by
    rcases getElem?_set_cases hfetch hget' with ⟨rfl, rfl⟩ | ⟨-, hold⟩
    · exact ⟨old, hfetch, hsame.symm⟩
    · exact ⟨later, hold, rfl⟩
  obtain ⟨before, hbefore, hkey'⟩ := hlater
  rcases getElem?_set_cases hfetch hget with ⟨rfl, rfl⟩ | ⟨-, hold⟩
  · exact absurd (h.failedBefore g g' old before hlt hfetch hbefore
      (hsame.symm.trans (hkey.trans hkey'.symm))) hwaits
  · exact h.failedBefore g g' fetch before hlt hold hbefore (hkey.trans hkey'.symm)

/-- An answered fetch stays answered. -/
theorem OneInFlight.answered_set (h : s.OneInFlight) {f : ℕ} {old new : AccountFetch}
    (hfetch : s.getAccounts[f]? = some old) (hresult : new.result ≠ none) :
    ∀ (g : ℕ) (fetch : AccountFetch), (s.getAccounts.set f new)[g]? = some fetch →
      fetch.finished = true → fetch.result ≠ none := by
  intro g fetch hget hfinished
  rcases getElem?_set_cases hfetch hget with ⟨-, rfl⟩ | ⟨-, hold⟩
  · exact hresult
  · exact h.answered g fetch hold hfinished

/-- An answer changes nothing about what is in flight. -/
theorem OneInFlight.answers (h : s.OneInFlight) {f : ℕ} {finished : Bool} {result : Except Failure ℤ}
    (hfetch : s.getAccounts[f]? = some ⟨publicKey, none, finished⟩) (cache : InsertionMap String ℤ) :
    OneInFlight
      { s with
        getAccounts := s.getAccounts.set f ⟨publicKey, some result, finished⟩, sequenceCache := cache } where
  inFlight key g := by
    rw [h.inFlight, getElem?_set_of_some hfetch]
    by_cases hsame : g = f
    · subst hsame
      simp [hfetch]
    · rw [if_neg hsame]
  answered := h.answered_set hfetch (Option.some_ne_none result)
  failedBefore := h.failedBefore_set hfetch (fun hfailed => by cases hfailed.1.choose_spec) rfl

/-- A fetched sequence starts the count of its key. -/
theorem Fetching.succeeds (h : s.Fetching) {f : ℕ} {finished : Bool} {sequence : ℤ}
    (hfetch : s.getAccounts[f]? = some ⟨publicKey, none, finished⟩) :
    Fetching
      { s with
        getAccounts := s.getAccounts.set f ⟨publicKey, some (.ok sequence), finished⟩
        sequenceCache := s.sequenceCache.set publicKey sequence } := by
  obtain ⟨hcache, hsequences⟩ := h.none_of_waiting hfetch
  refine { h.toOneInFlight.answers hfetch _ with fetched := ?_, notFetched := ?_ }
  · intro g fetch start hget hresult
    rcases getElem?_set_cases hfetch hget with ⟨-, rfl⟩ | ⟨-, hother⟩
    · obtain rfl : sequence = start := by simpa using hresult
      have hempty : Sequences.sequences { s with
          getAccounts := s.getAccounts.set f ⟨publicKey, some (.ok sequence), finished⟩
          sequenceCache := s.sequenceCache.set publicKey sequence } publicKey = [] := hsequences
      constructor
      · intro k n hn
        rw [hempty] at hn
        cases hn
      · rw [hempty, InsertionMap.get_set_self]
        simp
    · have hold := h.fetched g fetch start hother hresult
      have hkey : fetch.publicKey ≠ publicKey := by
        intro hsame
        have hnext := hold.next
        rw [hsame, hcache] at hnext
        cases hnext
      exact hold.congr rfl (InsertionMap.get_set_of_ne hkey)
  · intro key hnone
    have hkey : key ≠ publicKey := by
      rintro rfl
      exact hnone f _ (List.getElem?_set_self (List.getElem?_eq_some_iff.mp hfetch).1) rfl sequence rfl
    have hold := h.notFetched key fun g fetch hget => by
      intro hsame
      refine hnone g fetch ?_ hsame
      rw [List.getElem?_set_ne, hget]
      rintro rfl
      rw [hfetch, Option.some.injEq] at hget
      exact hkey (hsame.symm.trans (hget ▸ rfl))
    exact ⟨(InsertionMap.get_set_of_ne hkey).trans hold.1, hold.2⟩

/-- A failed fetch starts no count. -/
theorem Fetching.fails (h : s.Fetching) {f : ℕ} {finished : Bool} {error : Failure}
    (hfetch : s.getAccounts[f]? = some ⟨publicKey, none, finished⟩) :
    Fetching
      { s with getAccounts := s.getAccounts.set f ⟨publicKey, some (.error error), finished⟩ } := by
  refine { h.toOneInFlight.answers hfetch _ with fetched := ?_, notFetched := ?_ }
  · intro g fetch start hget hresult
    rcases getElem?_set_cases hfetch hget with ⟨-, rfl⟩ | ⟨-, hother⟩
    · cases hresult
    · exact (h.fetched g fetch start hother hresult).congr rfl rfl
  · intro key hnone
    refine h.notFetched key fun g fetch hget hkey start hresult => ?_
    refine hnone g fetch ?_ hkey start hresult
    rw [List.getElem?_set_ne, hget]
    rintro rfl
    rw [hfetch, Option.some.injEq] at hget
    rw [← hget] at hresult
    cases hresult

/-- A fetch that is answered leaves the map. -/
theorem Fetching.finishes (h : s.Fetching) {f : ℕ} {result : Except Failure ℤ}
    (hfetch : s.getAccounts[f]? = some ⟨publicKey, some result, false⟩) :
    Fetching
      { s with
        getAccounts := s.getAccounts.set f ⟨publicKey, some result, true⟩
        sequenceFetches := s.sequenceFetches.delete publicKey } where
  inFlight key g := by
    by_cases hkey : key = publicKey
    · subst hkey
      rw [InsertionMap.get_delete_self]
      refine ⟨nofun, ?_⟩
      rintro ⟨fetch, hget, hsame, hopen⟩
      rcases getElem?_set_cases hfetch hget with ⟨-, rfl⟩ | ⟨hne, hother⟩
      · cases hopen
      · -- only one was in flight
        have hmine := (h.inFlight key f).mpr ⟨_, hfetch, rfl, rfl⟩
        rw [(h.inFlight key g).mpr ⟨fetch, hother, hsame, hopen⟩, Option.some.injEq] at hmine
        exact absurd hmine hne
    · rw [InsertionMap.get_delete_of_ne hkey, h.inFlight]
      constructor
      · rintro ⟨fetch, hget, hsame, hopen⟩
        refine ⟨fetch, ?_, hsame, hopen⟩
        rw [List.getElem?_set_ne, hget]
        rintro rfl
        rw [hfetch, Option.some.injEq] at hget
        exact hkey (hsame.symm.trans (hget ▸ rfl))
      · rintro ⟨fetch, hget, hsame, hopen⟩
        rcases getElem?_set_cases hfetch hget with ⟨-, rfl⟩ | ⟨-, hother⟩
        · cases hopen
        · exact ⟨fetch, hother, hsame, hopen⟩
  answered := h.answered_set hfetch (Option.some_ne_none result)
  failedBefore := h.failedBefore_set hfetch (fun hfailed => by cases hfailed.2) rfl
  fetched g fetch start hget hresult := by
    rcases getElem?_set_cases hfetch hget with ⟨-, rfl⟩ | ⟨-, hother⟩
    · exact (h.fetched f _ start hfetch hresult).congr rfl rfl
    · exact (h.fetched g fetch start hother hresult).congr rfl rfl
  notFetched key hnone := by
    refine h.notFetched key fun g fetch hget hkey start hresult => ?_
    by_cases hsame : g = f
    · subst hsame
      rw [hfetch, Option.some.injEq] at hget
      subst hget
      exact hnone g _ (List.getElem?_set_self (List.getElem?_eq_some_iff.mp hfetch).1) hkey start hresult
    · refine hnone g fetch ?_ hkey start hresult
      rw [List.getElem?_set_ne (Ne.symm hsame), hget]

/-- A reservation adds its sequence to its own key. -/
theorem sequences_append {c : ℕ} {account : Account}
    (hreserved : s'.reserved = s.reserved ++ [(c, account)]) (key : String) :
    s'.sequences key =
      s.sequences key ++ if account.accountId = key then [account.sequence] else [] := by
  rw [sequences, hreserved, List.filterMap_append, sequences]
  split
  next hkey => simp [hkey]
  next hkey => simp [hkey]

/-- A call takes the cached sequence and leaves the next one. -/
theorem CountsFrom.reserves {start sequence : ℤ} {c : ℕ} (h : s.CountsFrom publicKey start)
    (hcache : s.sequenceCache.get publicKey = some sequence)
    (hreserved : s'.reserved = s.reserved ++ [(c, ⟨publicKey, sequence⟩)])
    (hcache' : s'.sequenceCache = s.sequenceCache.set publicKey (sequence + 1)) :
    s'.CountsFrom publicKey start := by
  have hsequences := sequences_append hreserved publicKey
  have hnext := h.next
  rw [if_pos rfl] at hsequences
  rw [hcache, Option.some.injEq] at hnext
  constructor
  · intro k n hn
    rw [hsequences] at hn
    rcases getElem?_concat hn with hold | ⟨rfl, rfl⟩
    · exact h.consecutive k n hold
    · exact hnext
  · rw [hsequences, hcache', InsertionMap.get_set_self, List.length_append, List.length_singleton, hnext]
    push_cast
    rw [Int.add_assoc]

/-- A reservation takes the cached sequence and caches the next. -/
theorem Fetching.reserves (h : s.Fetching) {sequence : ℤ} {c : ℕ}
    (hcache : s.sequenceCache.get publicKey = some sequence) (reservations : List Reservation) :
    Fetching
      { s with
        sequenceCache := s.sequenceCache.set publicKey (sequence + 1)
        reservations
        reserved := s.reserved ++ [(c, ⟨publicKey, sequence⟩)] } where
  inFlight := h.inFlight
  answered := h.answered
  failedBefore := h.failedBefore
  fetched f fetch start hfetch hresult := by
    have hold := h.fetched f fetch start hfetch hresult
    by_cases hkey : fetch.publicKey = publicKey
    · rw [hkey] at hold ⊢
      exact hold.reserves hcache rfl rfl
    · refine hold.congr ?_ (InsertionMap.get_set_of_ne hkey)
      refine (sequences_append rfl fetch.publicKey).trans ?_
      rw [if_neg (Ne.symm hkey), List.append_nil]
  notFetched key hnone := by
    obtain ⟨hnocache, hempty⟩ := h.notFetched key hnone
    have hkey : key ≠ publicKey := by
      rintro rfl
      rw [hcache] at hnocache
      cases hnocache
    refine ⟨(InsertionMap.get_set_of_ne hkey).trans hnocache, ?_⟩
    refine (sequences_append rfl key).trans ?_
    rw [if_neg (Ne.symm hkey), List.append_nil]
    exact hempty

/-! ## Calls -/

/-- What holds of the calls. -/
structure Calling (s : Sequences) : Prop where
  cached : ∀ (c : ℕ) (call : Reservation), s.reservations[c]? = some call → call.pending = none →
    s.sequenceCache.get call.publicKey ≠ none
  joined : ∀ (c : ℕ) (call : Reservation) f, s.reservations[c]? = some call → call.pending = some f →
    ∃ fetch, s.getAccounts[f]? = some fetch ∧ fetch.publicKey = call.publicKey
  /-- the calls that got an account are those that are listed -/
  accepted_iff : ∀ (c : ℕ) (call : Reservation) account, s.reservations[c]? = some call →
    (call.outcome = some (.ok account) ↔ (c, account) ∈ s.reserved)
  listed : ∀ c account, (c, account) ∈ s.reserved →
    ∃ call, s.reservations[c]? = some call ∧ account.accountId = call.publicKey
  accepted : ∀ (c : ℕ) (call : Reservation) account f, s.reservations[c]? = some call →
    call.outcome = some (.ok account) → call.pending = some f →
    ∃ fetch start, s.getAccounts[f]? = some fetch ∧ fetch.result = some (.ok start)
  rejected : ∀ (c : ℕ) (call : Reservation) error, s.reservations[c]? = some call →
    call.outcome = some (.error error) → ∃ f fetch, call.pending = some f ∧
      s.getAccounts[f]? = some fetch ∧ fetch.result = some (.error error)

/-- Nobody has called at the start. -/
theorem calling_fresh : fresh.Calling where
  cached c call h := by simp [fresh] at h
  joined c call f h := by simp [fresh] at h
  accepted_iff c call account h := by simp [fresh] at h
  listed c account h := by simp [fresh] at h
  accepted c call account f h := by simp [fresh] at h
  rejected c call error h := by simp [fresh] at h

/-- What a call may wait for stays: cached keys, fetches, and their answers. -/
structure Keeps (s s' : Sequences) : Prop where
  cached : ∀ publicKey, s.sequenceCache.get publicKey ≠ none → s'.sequenceCache.get publicKey ≠ none
  fetch : ∀ (f : ℕ) (fetch : AccountFetch), s.getAccounts[f]? = some fetch → ∃ fetch',
    s'.getAccounts[f]? = some fetch' ∧ fetch'.publicKey = fetch.publicKey ∧
      (fetch.result ≠ none → fetch'.result = fetch.result)

/-- The calls are of no matter to a step that keeps what they wait for. -/
theorem Calling.keeps (h : s.Calling) (hkeeps : s.Keeps s') (hreservations : s'.reservations = s.reservations)
    (hreserved : s'.reserved = s.reserved) : s'.Calling where
  cached c call hcall hpending := by
    rw [hreservations] at hcall
    exact hkeeps.cached _ (h.cached c call hcall hpending)
  joined c call f hcall hpending := by
    rw [hreservations] at hcall
    obtain ⟨fetch, hfetch, hkey⟩ := h.joined c call f hcall hpending
    obtain ⟨fetch', hfetch', hkey', -⟩ := hkeeps.fetch f fetch hfetch
    exact ⟨fetch', hfetch', hkey'.trans hkey⟩
  accepted_iff c call account hcall := by
    rw [hreservations] at hcall
    rw [hreserved]
    exact h.accepted_iff c call account hcall
  listed c account hlisted := by
    rw [hreserved] at hlisted
    rw [hreservations]
    exact h.listed c account hlisted
  accepted c call account f hcall houtcome hpending := by
    rw [hreservations] at hcall
    obtain ⟨fetch, start, hfetch, hresult⟩ := h.accepted c call account f hcall houtcome hpending
    obtain ⟨fetch', hfetch', -, hresult'⟩ := hkeeps.fetch f fetch hfetch
    exact ⟨fetch', start, hfetch', (hresult' (by rw [hresult]; nofun)).trans hresult⟩
  rejected c call error hcall houtcome := by
    rw [hreservations] at hcall
    obtain ⟨f, fetch, hpending, hfetch, hresult⟩ := h.rejected c call error hcall houtcome
    obtain ⟨fetch', hfetch', -, hresult'⟩ := hkeeps.fetch f fetch hfetch
    exact ⟨f, fetch', hpending, hfetch', (hresult' (by rw [hresult]; nofun)).trans hresult⟩

/-- A call that starts waits for something that is there. -/
theorem Calling.calls (h : s.Calling) {pending : Option ℕ}
    (hcached : pending = none → s.sequenceCache.get publicKey ≠ none)
    (hjoined : ∀ f, pending = some f →
      ∃ fetch, s.getAccounts[f]? = some fetch ∧ fetch.publicKey = publicKey) :
    Calling { s with reservations := s.reservations ++ [⟨publicKey, pending, none⟩] } where
  cached c call hcall hpending := by
    rcases getElem?_concat hcall with hold | ⟨-, rfl⟩
    · exact h.cached c call hold hpending
    · exact hcached hpending
  joined c call f hcall hpending := by
    rcases getElem?_concat hcall with hold | ⟨-, rfl⟩
    · exact h.joined c call f hold hpending
    · exact hjoined f hpending
  accepted_iff c call account hcall := by
    rcases getElem?_concat hcall with hold | ⟨rfl, rfl⟩
    · exact h.accepted_iff c call account hold
    · refine ⟨nofun, fun hlisted => ?_⟩
      obtain ⟨call, hcall, -⟩ := h.listed _ account hlisted
      rw [List.getElem?_eq_none le_rfl] at hcall
      cases hcall
  listed c account hlisted := by
    obtain ⟨call, hcall, hkey⟩ := h.listed c account hlisted
    exact ⟨call, getElem?_append_of_some hcall, hkey⟩
  accepted c call account f hcall houtcome hpending := by
    rcases getElem?_concat hcall with hold | ⟨-, rfl⟩
    · exact h.accepted c call account f hold houtcome hpending
    · cases houtcome
  rejected c call error hcall houtcome := by
    rcases getElem?_concat hcall with hold | ⟨-, rfl⟩
    · exact h.rejected c call error hold houtcome
    · cases houtcome

/-- A call that goes on has its fetch answered with a sequence. -/
theorem awaited_ok {pending : Option ℕ} (h : s.awaited pending = some (.ok ())) :
    ∀ f, pending = some f →
      ∃ fetch start, s.getAccounts[f]? = some fetch ∧ fetch.result = some (.ok start) := by
  rintro f rfl
  simp only [awaited] at h
  split at h
  next start hfetch => exact ⟨_, start, hfetch, rfl⟩
  next => cases h
  next => cases h

/-- A call that is rejected has its fetch answered with the error. -/
theorem awaited_error {pending : Option ℕ} {error : Failure} (h : s.awaited pending = some (.error error)) :
    ∃ f fetch, pending = some f ∧ s.getAccounts[f]? = some fetch ∧ fetch.result = some (.error error) := by
  cases pending with
  | none => cases h
  | some f =>
    simp only [awaited] at h
    split at h
    next => cases h
    next hfetch =>
      obtain rfl := Except.error.inj (Option.some.inj h)
      exact ⟨f, _, rfl, hfetch, rfl⟩
    next => cases h

/-- A call ends as the promise that it waits for says. -/
theorem Calling.concludes (h : s.Calling) {c : ℕ} {call : Reservation} {outcome : Except Failure Account}
    {reserved : List (ℕ × Account)} {cache : InsertionMap String ℤ}
    (hcall : s.reservations[c]? = some call) (hwaits : call.outcome = none)
    (hok : ∀ account, outcome = .ok account → account.accountId = call.publicKey ∧
      s.awaited call.pending = some (.ok ()))
    (herror : ∀ error, outcome = .error error → s.awaited call.pending = some (.error error))
    (hcache : ∀ publicKey, s.sequenceCache.get publicKey ≠ none → cache.get publicKey ≠ none)
    (hreserved : ∀ b account, (b, account) ∈ reserved ↔
      (b, account) ∈ s.reserved ∨ b = c ∧ outcome = .ok account) :
    Calling { s.conclude c call outcome with sequenceCache := cache, reserved } where
  cached b other hother hpending := by
    rcases getElem?_set_cases hcall hother with ⟨-, rfl⟩ | ⟨-, hold⟩
    · exact hcache _ (h.cached c call hcall hpending)
    · exact hcache _ (h.cached b other hold hpending)
  joined b other f hother hpending := by
    rcases getElem?_set_cases hcall hother with ⟨-, rfl⟩ | ⟨-, hold⟩
    · exact h.joined c call f hcall hpending
    · exact h.joined b other f hold hpending
  accepted_iff b other account hother := by
    rw [hreserved]
    rcases getElem?_set_cases hcall hother with ⟨rfl, rfl⟩ | ⟨hne, hold⟩
    · -- before, it had no outcome
      have hunlisted : (b, account) ∉ s.reserved := by
        rw [← h.accepted_iff b call account hcall, hwaits]
        nofun
      simp [hunlisted]
    · rw [h.accepted_iff b other account hold]
      simp [hne]
  listed b account hlisted := by
    rw [hreserved] at hlisted
    have hentry : ∃ other, s.reservations[b]? = some other ∧ account.accountId = other.publicKey := by
      rcases hlisted with hold | ⟨rfl, houtcome⟩
      · exact h.listed b account hold
      · exact ⟨call, hcall, (hok account houtcome).1⟩
    obtain ⟨other, hother, hkey⟩ := hentry
    rw [conclude, getElem?_set_of_some hcall]
    split
    next heq =>
      subst heq
      rw [hcall, Option.some.injEq] at hother
      exact ⟨_, rfl, hother ▸ hkey⟩
    next => exact ⟨other, hother, hkey⟩
  accepted b other account f hother houtcome hpending := by
    rcases getElem?_set_cases hcall hother with ⟨-, rfl⟩ | ⟨-, hold⟩
    · exact awaited_ok (hok account (Option.some.inj houtcome)).2 f hpending
    · exact h.accepted b other account f hold houtcome hpending
  rejected b other error hother houtcome := by
    rcases getElem?_set_cases hcall hother with ⟨-, rfl⟩ | ⟨-, hold⟩
    · exact awaited_error (herror error (Option.some.inj houtcome))
    · exact h.rejected b other error hold houtcome

/-! ## Every run -/

/-- What holds in every state that is reached without a forced refresh. -/
structure Coherent (s : Sequences) : Prop extends Fetching s, Calling s

/-- A call that goes on finds its sequence in the cache. -/
theorem Coherent.cached_of_awaited (h : s.Coherent) {c : ℕ} {call : Reservation}
    (hcall : s.reservations[c]? = some call) (hawaited : s.awaited call.pending = some (.ok ())) :
    ∃ sequence, s.sequenceCache.get call.publicKey = some sequence := by
  cases hpending : call.pending with
  | none => exact Option.ne_none_iff_exists'.mp (h.cached c call hcall hpending)
  | some f =>
    obtain ⟨fetch, start, hfetch, hresult⟩ := awaited_ok hawaited f hpending
    obtain ⟨fetch', hfetch', hkey⟩ := h.joined c call f hcall hpending
    rw [hfetch, Option.some.injEq] at hfetch'
    subst hfetch'
    exact ⟨_, hkey ▸ (h.fetched f fetch start hfetch hresult).next⟩

/-- A call that finds a sequence takes it. -/
theorem reserve_eq {c : ℕ} {call : Reservation} {sequence : ℤ}
    (hcache : s.sequenceCache.get call.publicKey = some sequence) : s.reserve c call =
      { s.conclude c call (.ok ⟨call.publicKey, sequence⟩) with
        sequenceCache := s.sequenceCache.set call.publicKey (sequence + 1)
        reserved := s.reserved ++ [(c, ⟨call.publicKey, sequence⟩)] } := by
  rw [reserve, hcache]

/-- To set a key removes none. -/
theorem get_set_ne_none {α : Type*} {m : InsertionMap String α} {key : String} {value : α} (key' : String)
    (h : m.get key' ≠ none) : (m.set key value).get key' ≠ none := by
  by_cases hkey : key' = key
  · rw [hkey, InsertionMap.get_set_self]
    exact Option.some_ne_none value
  · rw [InsertionMap.get_set_of_ne hkey]
    exact h

/-- An answer, or the end of a fetch. -/
theorem keeps_set {f : ℕ} {old new : AccountFetch} {cache : InsertionMap String ℤ}
    {fetches : InsertionMap String ℕ} (hfetch : s.getAccounts[f]? = some old)
    (hkey : new.publicKey = old.publicKey) (hresult : old.result ≠ none → new.result = old.result)
    (hcache : ∀ publicKey, s.sequenceCache.get publicKey ≠ none → cache.get publicKey ≠ none) :
    s.Keeps { s with
      getAccounts := s.getAccounts.set f new, sequenceCache := cache, sequenceFetches := fetches } where
  cached := hcache
  fetch g fetch hget := by
    rw [getElem?_set_of_some hfetch]
    split
    next heq =>
      subst heq
      rw [hfetch, Option.some.injEq] at hget
      subst hget
      exact ⟨new, rfl, hkey, hresult⟩
    next => exact ⟨fetch, hget, rfl, fun _ => rfl⟩

/-- The first state is coherent. -/
theorem coherent_fresh : fresh.Coherent := ⟨fetching_fresh, calling_fresh⟩

/-- Every step but a forced refresh keeps the state coherent. -/
theorem Coherent.step (h : s.Coherent) {e : SequenceEvent} (hforced : e.isRefresh = false)
    (heffect : Effect s e s') : s'.Coherent := by
  cases heffect with
  | idle => exact h
  | finds hcache =>
    refine ⟨h.toFetching.calls _, h.toCalling.calls ?_ nofun⟩
    intro _ hnone
    rw [hcache] at hnone
    cases hnone
  | @joins publicKey f hfetches =>
    refine ⟨h.toFetching.calls _, h.toCalling.calls (fun hnone => by cases hnone) ?_⟩
    intro g hg
    obtain rfl := Option.some.inj hg
    obtain ⟨fetch, hfetch, hkey, -⟩ := (h.inFlight publicKey f).mp hfetches
    exact ⟨fetch, hfetch, hkey⟩
  | @requests publicKey hcache hfetches =>
    have hkeeps : s.Keeps { s with
        getAccounts := s.getAccounts ++ [⟨publicKey, none, false⟩]
        sequenceFetches := s.sequenceFetches.set publicKey s.getAccounts.length } :=
      ⟨fun _ => id, fun f fetch hfetch => ⟨fetch, getElem?_append_of_some hfetch, rfl, fun _ => rfl⟩⟩
    refine ⟨h.toFetching.requests hcache hfetches _,
      (h.toCalling.keeps hkeeps rfl rfl).calls (fun hnone => by cases hnone) ?_⟩
    intro f hf
    exact ⟨_, Option.some.inj hf ▸ List.getElem?_concat_length, rfl⟩
  | refreshes => cases hforced
  | succeeds hfetch =>
    refine ⟨h.toFetching.succeeds hfetch, h.toCalling.keeps ?_ rfl rfl⟩
    exact keeps_set hfetch rfl (absurd rfl) fun key => get_set_ne_none key
  | fails hfetch =>
    refine ⟨h.toFetching.fails hfetch, h.toCalling.keeps ?_ rfl rfl⟩
    exact keeps_set hfetch rfl (absurd rfl) fun _ => id
  | finishes hfetch =>
    refine ⟨h.toFetching.finishes hfetch, h.toCalling.keeps ?_ rfl rfl⟩
    exact keeps_set hfetch rfl (fun _ => rfl) fun _ => id
  | rejects hcall hwaits hawaited =>
    refine ⟨h.toFetching.calls _, h.toCalling.concludes hcall hwaits ?_ ?_ (fun _ => id) (by simp)⟩
    · intro account haccount
      cases haccount
    · intro error herror
      exact Except.error.inj herror ▸ hawaited
  | @reserves c call hcall hwaits hawaited =>
    obtain ⟨sequence, hcache⟩ := h.cached_of_awaited hcall hawaited
    rw [reserve_eq hcache]
    refine ⟨h.toFetching.reserves hcache _, h.toCalling.concludes hcall hwaits ?_ ?_
      (fun key => get_set_ne_none key) (by simp [eq_comm])⟩
    · intro account haccount
      exact ⟨(congrArg Account.accountId (Except.ok.inj haccount)).symm, hawaited⟩
    · intro error herror
      cases herror

/-- Without a forced refresh every reachable state is coherent. -/
theorem coherent_run (events : List SequenceEvent) (hforced : ∀ e ∈ events, e.isRefresh = false) :
    (run events).Coherent := by
  induction events using List.reverseRecOn with
  | nil => exact coherent_fresh
  | append_singleton events e ih =>
    rw [run, List.foldl_append]
    have hbefore := ih fun e he => hforced e (List.mem_append_left _ he)
    exact hbefore.step (hforced e (List.mem_append_right _ (List.mem_singleton_self e))) (effect_step _ e)

/-! ## Reserving in order -/

/-- The requests made for a key, in order. -/
def requests (s : Sequences) (publicKey : String) : List AccountFetch :=
  s.getAccounts.filter fun fetch => fetch.publicKey = publicKey

/-- What the concurrent calls for a key come to. -/
structure ReservesInOrder (s : Sequences) (publicKey : String) : Prop where
  /-- the request that succeeds is the only one, but for those that failed before -/
  oneRequest : ∀ fetch ∈ s.requests publicKey, ∀ start, fetch.result = some (.ok start) →
    ∃ failed, s.requests publicKey = failed ++ [fetch] ∧ ∀ earlier ∈ failed, Failed earlier
  /-- the calls get the sequences from the fetched one on, in the order in which they go on, and the cache
  is ahead of them -/
  counts : ∀ fetch ∈ s.requests publicKey, ∀ start, fetch.result = some (.ok start) →
    s.CountsFrom publicKey start
  /-- who got what -/
  accepted_iff : ∀ (c : ℕ) (call : Reservation) account, s.reservations[c]? = some call →
    (call.outcome = some (.ok account) ↔ (c, account) ∈ s.reserved)
  /-- a call whose promise has settled well gets the cached sequence -/
  goesOn : ∀ (c : ℕ) (call : Reservation), s.reservations[c]? = some call → call.publicKey = publicKey →
    call.outcome = none → s.awaited call.pending = some (.ok ()) →
    ∃ sequence, s.sequenceCache.get publicKey = some sequence ∧
      (s.step (.resumed c)).reserved = s.reserved ++ [(c, ⟨publicKey, sequence⟩)]
  /-- without a success nothing is cached or reserved -/
  nothingCached : (∀ fetch ∈ s.requests publicKey, ∀ start, fetch.result ≠ some (.ok start)) →
    s.sequenceCache.get publicKey = none ∧ s.sequences publicKey = []
  /-- a call that waits for a request that failed gets nothing else than its error -/
  rejected : ∀ (c : ℕ) (call : Reservation) f fetch error, s.reservations[c]? = some call →
    call.pending = some f → s.getAccounts[f]? = some fetch → fetch.result = some (.error error) →
    call.outcome = some (.error error) ∨ call.outcome = none ∧ (fetch.finished = true →
      (s.step (.resumed c)).reservations[c]? = some { call with outcome := some (.error error) })
  /-- when every request has failed, the next call makes another one -/
  fetchesAgain : (∀ fetch ∈ s.requests publicKey, Failed fetch) →
    (s.step (.called publicKey)).requests publicKey = s.requests publicKey ++ [⟨publicKey, none, false⟩]

variable {fetch : AccountFetch} {start : ℤ}

/-- The requests of a key are the fetches made for it. -/
theorem mem_requests : fetch ∈ s.requests publicKey ↔
    ∃ f : ℕ, s.getAccounts[f]? = some fetch ∧ fetch.publicKey = publicKey := by
  rw [requests, List.mem_filter, List.mem_iff_getElem?, decide_eq_true_eq, exists_and_right]

/-- A request that succeeds is the last of its key, after failed ones. -/
theorem OneInFlight.requests_of_ok (h : s.OneInFlight) (hfetch : fetch ∈ s.requests publicKey)
    (hresult : fetch.result = some (.ok start)) :
    ∃ failed, s.requests publicKey = failed ++ [fetch] ∧ ∀ earlier ∈ failed, Failed earlier := by
  obtain ⟨f, hget, hkey⟩ := mem_requests.mp hfetch
  obtain ⟨hlt, rfl⟩ := List.getElem?_eq_some_iff.mp hget
  refine ⟨(s.getAccounts.take f).filter fun fetch => fetch.publicKey = publicKey, ?_, ?_⟩
  · have hsplit : s.getAccounts = s.getAccounts.take f ++ s.getAccounts[f] :: s.getAccounts.drop (f + 1) := by
      rw [← List.drop_eq_getElem_cons hlt, List.take_append_drop]
    -- a later one would need it to fail
    have hlater : (s.getAccounts.drop (f + 1)).filter (fun fetch => fetch.publicKey = publicKey) = [] := by
      rw [List.filter_eq_nil_iff]
      intro later hmem hsame
      obtain ⟨g, hg⟩ := List.mem_iff_getElem?.mp hmem
      rw [List.getElem?_drop] at hg
      obtain ⟨⟨error, herror⟩, -⟩ := h.failedBefore f (f + 1 + g) _ later (by omega) hget hg
        (hkey.trans (of_decide_eq_true hsame).symm)
      rw [hresult] at herror
      cases herror
    have hfilter := congrArg (List.filter fun fetch => fetch.publicKey = publicKey) hsplit
    rw [List.filter_append, List.filter_cons_of_pos (by simp [hkey]), hlater] at hfilter
    exact hfilter
  · intro earlier hmem
    obtain ⟨hmem, hsame⟩ := List.mem_filter.mp hmem
    obtain ⟨g, hg⟩ := List.mem_iff_getElem?.mp hmem
    rw [List.getElem?_take] at hg
    split at hg
    next hbefore =>
      exact h.failedBefore g f earlier _ hbefore hg hget ((of_decide_eq_true hsame).trans hkey.symm)
    next => cases hg

/-- A call whose fetch has succeeded gets the cached sequence. -/
theorem Coherent.goesOn (h : s.Coherent) {c : ℕ} {call : Reservation} (hcall : s.reservations[c]? = some call)
    (hwaits : call.outcome = none) (hawaited : s.awaited call.pending = some (.ok ())) :
    ∃ sequence, s.sequenceCache.get call.publicKey = some sequence ∧
      (s.step (.resumed c)).reserved = s.reserved ++ [(c, ⟨call.publicKey, sequence⟩)] := by
  obtain ⟨sequence, hcache⟩ := h.cached_of_awaited hcall hawaited
  refine ⟨sequence, hcache, ?_⟩
  obtain ⟨publicKey, pending, outcome⟩ := call
  subst hwaits
  simp only [Sequences.step, hcall, hawaited, reserve_eq hcache]

/-- A call whose fetch has failed is rejected with the same error. -/
theorem Coherent.rejected_of_failed (h : s.Coherent) {c f : ℕ} {call : Reservation} {error : Failure}
    (hcall : s.reservations[c]? = some call) (hpending : call.pending = some f)
    (hfetch : s.getAccounts[f]? = some fetch) (herror : fetch.result = some (.error error)) :
    call.outcome = some (.error error) ∨ call.outcome = none ∧ (fetch.finished = true →
      (s.step (.resumed c)).reservations[c]? = some { call with outcome := some (.error error) }) := by
  cases houtcome : call.outcome with
  | none =>
    refine .inr ⟨rfl, fun hfinished => ?_⟩
    obtain ⟨publicKey, pending, outcome⟩ := call
    obtain ⟨key, result, finished⟩ := fetch
    subst hpending houtcome herror hfinished
    have hawaited : s.awaited (some f) = some (.error error) := by simp only [awaited, hfetch]
    simp only [Sequences.step, hcall, hawaited, conclude, getElem?_set_of_some hcall, if_true]
  | some outcome =>
    cases outcome with
    | ok account =>
      obtain ⟨other, start, hother, hok⟩ := h.accepted c call account f hcall houtcome hpending
      rw [hfetch, Option.some.injEq] at hother
      rw [← hother, herror] at hok
      cases hok
    | error other =>
      obtain ⟨g, answered, hpending', hanswered, hother⟩ := h.rejected c call other hcall houtcome
      rw [hpending, Option.some.injEq] at hpending'
      subst hpending'
      rw [hfetch, Option.some.injEq] at hanswered
      rw [← hanswered, herror] at hother
      rw [Except.error.inj (Option.some.inj hother)]
      exact .inl rfl

/-- Where every request has failed, nothing is in flight, and a call makes a request. -/
theorem Coherent.fetchesAgain (h : s.Coherent) (hfailed : ∀ fetch ∈ s.requests publicKey, Failed fetch) :
    (s.step (.called publicKey)).requests publicKey = s.requests publicKey ++ [⟨publicKey, none, false⟩] := by
  have hcache : s.sequenceCache.get publicKey = none := by
    refine (h.notFetched publicKey fun f fetch hfetch hkey start hok => ?_).1
    obtain ⟨⟨error, herror⟩, -⟩ := hfailed fetch (mem_requests.mpr ⟨f, hfetch, hkey⟩)
    rw [hok] at herror
    cases herror
  have hfetches : s.sequenceFetches.get publicKey = none := by
    rw [Option.eq_none_iff_forall_ne_some]
    intro f hget
    obtain ⟨fetch, hfetch, hkey, hopen⟩ := (h.inFlight publicKey f).mp hget
    obtain ⟨-, hfinished⟩ := hfailed fetch (mem_requests.mpr ⟨f, hfetch, hkey⟩)
    rw [hopen] at hfinished
    cases hfinished
  simp only [Sequences.step, fetchAccountSequence, Bool.false_eq_true, if_false, hcache, hfetches, requests,
    List.filter_append]
  simp

/-- Concurrent calls reserve in order, whatever the order of events, as long as no refresh is forced. -/
theorem reservesInOrder (events : List SequenceEvent) (hforced : ∀ e ∈ events, e.isRefresh = false)
    (publicKey : String) : (run events).ReservesInOrder publicKey := by
  have h := coherent_run events hforced
  exact {
    oneRequest := fun fetch hfetch start => h.requests_of_ok hfetch
    counts := by
      intro fetch hfetch start hok
      obtain ⟨f, hget, rfl⟩ := mem_requests.mp hfetch
      exact h.fetched f fetch start hget hok
    accepted_iff := h.accepted_iff
    goesOn := by
      intro c call hcall hkey hwaits hawaited
      subst hkey
      exact h.goesOn hcall hwaits hawaited
    nothingCached := by
      intro hnone
      refine h.notFetched publicKey fun f fetch hget hkey => hnone fetch ?_
      exact mem_requests.mpr ⟨f, hget, hkey⟩
    rejected := fun c call f fetch error => h.rejected_of_failed
    fetchesAgain := h.fetchesAgain }

/-- A call between `.then` and `.finally`, and calls that go on in another order than they came in. -/
def threeCalls : List SequenceEvent :=
  [.called "GALICE", .called "GALICE", .answered 0 (.ok 41), .called "GALICE", .finished 0, .resumed 2,
    .resumed 0, .resumed 1]

example : (run threeCalls).reserved = [(2, ⟨"GALICE", 41⟩), (0, ⟨"GALICE", 42⟩), (1, ⟨"GALICE", 43⟩)] := by
  decide +kernel

/-- Three calls at once share one request and get consecutive sequences. -/
theorem reservesInOrder_threeCalls : (run threeCalls).ReservesInOrder "GALICE" :=
  reservesInOrder threeCalls (by decide) "GALICE"

end LineProof.Sdk.Sequences
