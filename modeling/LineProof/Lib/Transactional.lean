import Mathlib.Data.List.DropRight

/-!
# Transactional machines

A transactional machine executes one call at a time. A call either commits, with an output and a
new state, or fails, and then the state is what it was before the call. A run is a list of calls; the
history of a run keeps its commits in order.

The rules at the end reduce a property of every run to one obligation about a single commit:

* `run_invariant` for a predicate on states,
* `history_invariant` for a predicate that also reads the commits so far,
* `run_relation` for a relation between an earlier and a later state,
* `run_keeps` for such a relation on one entry of the state,
* `run_invariant_along` for a predicate that the runs keep whose calls meet a condition,
* `always_iff_along` for a predicate that survives exactly the runs whose calls meet a condition,
* `history_iff_along` for a predicate on commits that are exactly those of such calls.
-/

/-- A machine whose calls commit or roll back. -/
structure Transactional (σ ι ο ε : Type*) where
  /-- Execute one call: an error, or the output together with the next state. -/
  exec : ι → σ → Except ε (ο × σ)

namespace Transactional

variable {σ ι ο ε : Type*} {M : Transactional σ ι ο ε}

/-- A call that went through, with the states on both sides of it. -/
structure Commit (M : Transactional σ ι ο ε) where
  pre : σ
  call : ι
  out : ο
  post : σ
  ok : M.exec call pre = .ok (out, post)

/-- The state after one call, with the rollback of a failed one. -/
def next (M : Transactional σ ι ο ε) (s : σ) (i : ι) : σ :=
  match M.exec i s with
  | .ok r => r.2
  | .error _ => s

/-- The commit a call makes, if it goes through. -/
def commit? (M : Transactional σ ι ο ε) (s : σ) (i : ι) : Option M.Commit :=
  match h : M.exec i s with
  | .ok r => some ⟨s, i, r.1, r.2, h⟩
  | .error _ => none

/-- The state after a list of calls. -/
def run (M : Transactional σ ι ο ε) (s : σ) (calls : List ι) : σ :=
  calls.foldl M.next s

/-- The commits of a list of calls, oldest first. -/
def history (M : Transactional σ ι ο ε) : σ → List ι → List M.Commit
  | _, [] => []
  | s, i :: calls => (M.commit? s i).toList ++ history M (M.next s i) calls

/-- What each of a list of calls returns, or the error it fails with. -/
def answers (M : Transactional σ ι ο ε) : σ → List ι → List (Except ε ο)
  | _, [] => []
  | s, i :: calls => (M.exec i s).map Prod.fst :: answers M (M.next s i) calls

/-- A call that goes through leaves the state it computes. -/
theorem next_of_ok {s s' : σ} {i : ι} {o : ο} (h : M.exec i s = .ok (o, s')) :
    M.next s i = s' := by
  simp only [next, h]

/-- A call that fails leaves the state as it was. -/
theorem next_of_error {s : σ} {i : ι} {e : ε} (h : M.exec i s = .error e) : M.next s i = s := by
  simp only [next, h]

/-- A call commits, and then `commit?` is that commit, or it fails and leaves the state alone. -/
theorem commit?_cases (M : Transactional σ ι ο ε) (s : σ) (i : ι) :
    (∃ c : M.Commit, c.pre = s ∧ c.call = i ∧ M.next s i = c.post ∧ M.commit? s i = some c) ∨
      (∃ e, M.exec i s = .error e) ∧ M.next s i = s ∧ M.commit? s i = none := by
  unfold commit?
  split
  · case _ r h => exact .inl ⟨⟨s, i, r.1, r.2, h⟩, rfl, rfl, next_of_ok h, rfl⟩
  · case _ e h => exact .inr ⟨⟨e, h⟩, next_of_error h, rfl⟩

/-- A call that goes through is a commit. -/
theorem commit?_of_ok {s s' : σ} {i : ι} {o : ο} (h : M.exec i s = .ok (o, s')) :
    M.commit? s i = some ⟨s, i, o, s', h⟩ := by
  unfold commit?
  split
  · case _ r hr =>
    obtain rfl : (o, s') = r := Except.ok.inj (h.symm.trans hr)
    rfl
  · case _ e he => exact absurd (h.symm.trans he) nofun

/-- A call that fails is none. -/
theorem commit?_of_error {s : σ} {i : ι} {e : ε} (h : M.exec i s = .error e) : M.commit? s i = none := by
  unfold commit?
  split
  · case _ r hr => exact absurd (h.symm.trans hr) (by simp)
  · rfl

@[simp] theorem run_cons (s : σ) (i : ι) (calls : List ι) :
    M.run s (i :: calls) = M.run (M.next s i) calls := rfl

/-- A run can be cut anywhere. -/
theorem run_append (s : σ) (as bs : List ι) : M.run s (as ++ bs) = M.run (M.run s as) bs :=
  List.foldl_append

/-- The last call of a run starts from where the others led. -/
theorem run_concat (s : σ) (calls : List ι) (i : ι) :
    M.run s (calls ++ [i]) = M.next (M.run s calls) i := by
  rw [run_append]; rfl

@[simp] theorem history_nil (s : σ) : M.history s [] = [] := rfl

theorem history_cons (s : σ) (i : ι) (calls : List ι) :
    M.history s (i :: calls) = (M.commit? s i).toList ++ M.history (M.next s i) calls := rfl

/-- A history can be cut anywhere. -/
theorem history_append (s : σ) (as bs : List ι) :
    M.history s (as ++ bs) = M.history s as ++ M.history (M.run s as) bs := by
  induction as generalizing s with
  | nil => rfl
  | cons i as ih =>
    rw [List.cons_append, history_cons, ih, history_cons, run_cons, List.append_assoc]

/-- The last call of a run is the last commit, if it goes through. -/
theorem history_concat (s : σ) (calls : List ι) (i : ι) :
    M.history s (calls ++ [i]) = M.history s calls ++ (M.commit? (M.run s calls) i).toList := by
  rw [history_append, history_cons, history_nil, List.append_nil]

/-- The commits before a commit of a history are the history of the calls before it. -/
theorem history_split {s : σ} {calls : List ι} {past future : List M.Commit} {c : M.Commit}
    (h : M.history s calls = past ++ c :: future) :
    ∃ before after, calls = before ++ c.call :: after ∧ M.history s before = past ∧
      M.run s before = c.pre := by
  induction calls generalizing s past with
  | nil => exact absurd h (by simp)
  | cons i calls ih =>
    rw [history_cons] at h
    rcases M.commit?_cases s i with ⟨d, rfl, rfl, -, hd⟩ | ⟨-, hs, hd⟩
    · -- the first call commits: it is `c` itself, or the head of `past`
      rw [hd, Option.toList_some, List.singleton_append] at h
      cases past with
      | nil =>
        obtain ⟨rfl, -⟩ := List.cons_eq_cons.mp h
        exact ⟨[], calls, rfl, rfl, rfl⟩
      | cons d' past =>
        obtain ⟨rfl, htail⟩ := List.cons_eq_cons.mp h
        obtain ⟨before, after, rfl, hpast, hpre⟩ := ih htail
        exact ⟨d.call :: before, after, rfl, by rw [history_cons, hd, hpast]; rfl, hpre⟩
    · rw [hd, Option.toList_none, List.nil_append] at h
      obtain ⟨before, after, rfl, hpast, hpre⟩ := ih h
      exact ⟨i :: before, after, rfl, by rw [history_cons, hd, hpast]; rfl, hpre⟩

/-- Every commit of a history is one call of the run, on the state the calls before it left. -/
theorem mem_history {s : σ} {calls : List ι} {c : M.Commit} (h : c ∈ M.history s calls) :
    ∃ before after, calls = before ++ c.call :: after ∧ M.run s before = c.pre := by
  obtain ⟨past, future, hsplit⟩ := List.append_of_mem h
  obtain ⟨before, after, hcalls, -, hpre⟩ := history_split hsplit
  exact ⟨before, after, hcalls, hpre⟩

/-- A call of a run that goes through is in the history. -/
theorem Commit.mem_history (c : M.Commit) {s : σ} (before : List ι) (h : M.run s before = c.pre)
    (after : List ι) : c ∈ M.history s (before ++ c.call :: after) := by
  obtain ⟨pre, i, o, post, ok⟩ := c
  subst h
  rw [history_append, history_cons, commit?_of_ok ok]
  simp

/-- If no call can fail, a history has all the calls of the run. -/
theorem map_call_history [IsEmpty ε] (s : σ) (calls : List ι) :
    (M.history s calls).map (·.call) = calls := by
  induction calls generalizing s with
  | nil => rfl
  | cons i calls ih =>
    rcases M.commit?_cases s i with ⟨c, -, hcall, -, hc⟩ | ⟨⟨e, -⟩, -⟩
    · rw [history_cons, hc, Option.toList_some, List.singleton_append, List.map_cons, hcall, ih]
    · exact isEmptyElim e

/-- What the last commit that has a value says. -/
def latest {α : Type*} (f : M.Commit → Option α) (past : List M.Commit) : Option α :=
  past.reverse.findSome? f

@[simp] theorem latest_nil {α : Type*} (f : M.Commit → Option α) : latest f [] = none := rfl

/-- A commit that writes a value hides the earlier ones. -/
theorem latest_concat {α : Type*} (f : M.Commit → Option α) (past : List M.Commit) (c : M.Commit) :
    latest f (past ++ [c]) = (f c).or (latest f past) := by
  rw [latest, List.reverse_append, List.reverse_singleton, List.singleton_append,
    List.findSome?_cons, latest]
  cases f c <;> rfl

/-! ## Rules for runs -/

/-- What holds at the start, and is kept by every commit, holds after every run. -/
theorem run_invariant {I : σ → Prop} (step : ∀ c : M.Commit, I c.pre → I c.post) {s : σ}
    (h : I s) (calls : List ι) : I (M.run s calls) := by
  induction calls generalizing s with
  | nil => exact h
  | cons i calls ih =>
    rw [run_cons]
    rcases M.commit?_cases s i with ⟨c, rfl, rfl, hc, -⟩ | ⟨-, hc, -⟩
    · exact ih (hc ▸ step c h)
    · exact ih (hc.symm ▸ h)

/-- A predicate on the commits so far and the current state, kept by every further commit, holds
after every run. -/
theorem history_invariant {P : List M.Commit → σ → Prop}
    (step : ∀ (past : List M.Commit) (c : M.Commit), P past c.pre → P (past ++ [c]) c.post)
    {s : σ} (h : P [] s) (calls : List ι) : P (M.history s calls) (M.run s calls) := by
  induction calls using List.reverseRecOn with
  | nil => exact h
  | append_singleton calls i ih =>
    rw [history_concat, run_concat]
    rcases M.commit?_cases (M.run s calls) i with ⟨c, hpre, rfl, hc, hc'⟩ | ⟨-, hc, hc'⟩
    · rw [hc, hc']
      exact step _ c (hpre ▸ ih)
    · rw [hc, hc']
      simpa using ih

/-- A reflexive and transitive relation kept by every commit from an invariant state relates the
start of every run to its end. -/
theorem run_relation {I : σ → Prop} {R : σ → σ → Prop} (refl : ∀ s, R s s)
    (trans : ∀ {s t u}, R s t → R t u → R s u) (inv : ∀ c : M.Commit, I c.pre → I c.post)
    (step : ∀ c : M.Commit, I c.pre → R c.pre c.post) {s : σ} (h : I s) (calls : List ι) :
    R s (M.run s calls) :=
  (run_invariant (I := fun t => I t ∧ R s t)
    (fun c hc => ⟨inv c hc.1, trans hc.2 (step c hc.1)⟩) ⟨h, refl s⟩ calls).2

/-- What is stored stays stored, up to a reflexive and transitive relation that every commit from an
invariant state keeps. -/
theorem run_keeps {α : Type*} {I : σ → Prop} (get : σ → Option α) {K : α → α → Prop}
    (refl : ∀ a, K a a) (trans : ∀ {a b c}, K a b → K b c → K a c)
    (inv : ∀ c : M.Commit, I c.pre → I c.post)
    (step : ∀ c : M.Commit, I c.pre → ∀ a, get c.pre = some a → ∃ b, get c.post = some b ∧ K a b)
    {s : σ} (h : I s) (calls : List ι) {a : α} (ha : get s = some a) :
    ∃ b, get (M.run s calls) = some b ∧ K a b := by
  refine run_relation (R := fun s t => ∀ a, get s = some a → ∃ b, get t = some b ∧ K a b)
    (fun _ a ha => ⟨a, ha, refl a⟩) ?_ inv step h calls a ha
  intro s t u hst htu a ha
  obtain ⟨b, hb, hab⟩ := hst a ha
  obtain ⟨c, hc, hbc⟩ := htu b hb
  exact ⟨c, hc, trans hab hbc⟩

/-- Every call of the run meets `cond` on the state it finds. -/
def Along (M : Transactional σ ι ο ε) (cond : σ → ι → Prop) : σ → List ι → Prop
  | _, [] => True
  | s, i :: calls => cond s i ∧ Along M cond (M.next s i) calls

/-- `P` holds in every state the run passes through. -/
def Always (M : Transactional σ ι ο ε) (P : σ → Prop) (s : σ) (calls : List ι) : Prop :=
  ∀ before, before <+: calls → P (M.run s before)

/-- A condition along a run is the condition at every split. -/
theorem along_iff {cond : σ → ι → Prop} {s : σ} {calls : List ι} :
    M.Along cond s calls ↔
      ∀ before i after, calls = before ++ i :: after → cond (M.run s before) i := by
  induction calls generalizing s with
  | nil => simp [Along]
  | cons j calls ih =>
    rw [Along, ih]
    constructor
    · rintro ⟨h, hrest⟩ before i after heq
      cases before with
      | nil =>
        obtain ⟨rfl, rfl⟩ := List.cons_eq_cons.mp heq
        exact h
      | cons k before =>
        obtain ⟨rfl, rfl⟩ := List.cons_eq_cons.mp heq
        exact hrest before i after rfl
    · intro h
      exact ⟨h [] j calls rfl, fun before i after heq => h (j :: before) i after (by rw [heq]; rfl)⟩

/-- A condition along a run can be checked in two parts. -/
theorem along_append {cond : σ → ι → Prop} {s : σ} {as bs : List ι} :
    M.Along cond s (as ++ bs) ↔ M.Along cond s as ∧ M.Along cond (M.run s as) bs := by
  induction as generalizing s with
  | nil => exact (and_iff_right trivial).symm
  | cons i as ih => rw [List.cons_append, Along, Along, ih, and_assoc, run_cons]

/-- The last call of a run is checked where the others led. -/
theorem along_concat {cond : σ → ι → Prop} {s : σ} {calls : List ι} {i : ι} :
    M.Along cond s (calls ++ [i]) ↔ M.Along cond s calls ∧ cond (M.run s calls) i := by
  rw [along_append]
  exact and_congr_right fun _ => and_iff_left trivial

/-- What holds at the start, and is kept by every commit whose call meets `cond`, holds after every run
whose calls meet `cond`. -/
theorem run_invariant_along {cond : σ → ι → Prop} {I : σ → Prop}
    (step : ∀ c : M.Commit, cond c.pre c.call → I c.pre → I c.post) {s : σ} (h : I s)
    {calls : List ι} (halong : M.Along cond s calls) : I (M.run s calls) := by
  induction calls generalizing s with
  | nil => exact h
  | cons i calls ih =>
    rcases halong with ⟨hcond, hrest⟩
    rw [run_cons]
    rcases M.commit?_cases s i with ⟨c, rfl, rfl, hpost, -⟩ | ⟨-, hpost, -⟩
    · rw [hpost] at hrest ⊢
      exact ih (step c hcond h) hrest
    · rw [hpost] at hrest ⊢
      exact ih h hrest

/-- A property of all states of a run holds at the start and from the first call on. -/
theorem always_cons {P : σ → Prop} {s : σ} {i : ι} {calls : List ι} :
    M.Always P s (i :: calls) ↔ P s ∧ M.Always P (M.next s i) calls := by
  constructor
  · intro h
    exact ⟨h [] List.nil_prefix,
      fun before hb => h (i :: before) (List.cons_prefix_cons.mpr ⟨rfl, hb⟩)⟩
  · rintro ⟨hs, h⟩ before hb
    cases before with
    | nil => exact hs
    | cons j before =>
      obtain ⟨rfl, htail⟩ := List.cons_prefix_cons.mp hb
      exact h before htail

/-- If, from the invariant states where `P` holds, a call keeps `P` exactly when it meets `cond`, then
`P` holds all along a run exactly when all its calls meet `cond`. -/
theorem always_iff_along {I P : σ → Prop} {cond : σ → ι → Prop}
    (inv : ∀ c : M.Commit, I c.pre → I c.post)
    (step : ∀ s i, I s → P s → (P (M.next s i) ↔ cond s i)) {s : σ} (hI : I s) (hP : P s)
    (calls : List ι) : M.Always P s calls ↔ M.Along cond s calls := by
  induction calls generalizing s with
  | nil =>
    refine iff_of_true (fun before hb => ?_) trivial
    rw [List.prefix_nil.mp hb]
    exact hP
  | cons i calls ih =>
    have hI' : I (M.next s i) := run_invariant inv hI [i]
    rw [always_cons, Along]
    constructor
    · intro h
      rcases h with ⟨-, hrest⟩
      have hP' : P (M.next s i) := hrest [] List.nil_prefix
      exact ⟨(step s i hI hP).mp hP', (ih hI' hP').mp hrest⟩
    · intro h
      rcases h with ⟨hc, hrest⟩
      have hP' : P (M.next s i) := (step s i hI hP).mpr hc
      exact ⟨hP, (ih hI' hP').mpr hrest⟩

/-- If a commit satisfies `P` exactly when its call meets `cond`, and a call that fails meets `cond`, then
all commits of a run satisfy `P` exactly when all its calls meet `cond`. -/
theorem history_iff_along {P : M.Commit → Prop} {cond : σ → ι → Prop}
    (commit : ∀ c : M.Commit, P c ↔ cond c.pre c.call)
    (fail : ∀ s i e, M.exec i s = .error e → cond s i) {s : σ} (calls : List ι) :
    (∀ c ∈ M.history s calls, P c) ↔ M.Along cond s calls := by
  induction calls generalizing s with
  | nil => simp [Along]
  | cons i calls ih =>
    rw [history_cons, Along, ← ih]
    rcases M.commit?_cases s i with ⟨c, rfl, rfl, -, hc⟩ | ⟨⟨e, he⟩, -, hc⟩
    · rw [hc, Option.toList_some, List.singleton_append, List.forall_mem_cons, commit c]
    · rw [hc, Option.toList_none, List.nil_append]
      exact (and_iff_right (fail s i e he)).symm

/-! ## Calls that always fail -/

/-- Every answer is what the call returns in some state. -/
theorem exec_of_mem_answers {s : σ} {calls : List ι} {entry : ι × Except ε ο}
    (h : entry ∈ calls.zip (M.answers s calls)) : ∃ t, entry.2 = (M.exec entry.1 t).map Prod.fst := by
  induction calls generalizing s with
  | nil => cases h
  | cons i calls ih =>
    rw [answers, List.zip_cons_cons, List.mem_cons] at h
    rcases h with rfl | h
    · exact ⟨s, rfl⟩
    · exact ih h

section Refused

variable {keep : ι → Prop} [DecidablePred keep] (refused : ∀ s i, ¬ keep i → ∃ e, M.exec i s = .error e)
include refused

/-- Calls that fail in every state can be left out of a run. -/
theorem run_filter (s : σ) (calls : List ι) : M.run s (calls.filter keep) = M.run s calls := by
  induction calls generalizing s with
  | nil => rfl
  | cons i calls ih =>
    by_cases hkeep : keep i
    · rw [List.filter_cons_of_pos (by simpa using hkeep), run_cons, run_cons, ih]
    · obtain ⟨e, he⟩ := refused s i hkeep
      rw [List.filter_cons_of_neg (by simpa using hkeep), run_cons, next_of_error he, ih]

/-- The other calls get the same answers without them. -/
theorem answers_filter (s : σ) (calls : List ι) :
    M.answers s (calls.filter keep) =
      ((calls.zip (M.answers s calls)).filter fun entry => keep entry.1).map Prod.snd := by
  induction calls generalizing s with
  | nil => rfl
  | cons i calls ih =>
    by_cases hkeep : keep i
    · rw [List.filter_cons_of_pos (by simpa using hkeep), answers, answers, List.zip_cons_cons,
        List.filter_cons_of_pos (by simpa using hkeep), List.map_cons, ih]
    · obtain ⟨e, he⟩ := refused s i hkeep
      rw [List.filter_cons_of_neg (by simpa using hkeep), answers, List.zip_cons_cons,
        List.filter_cons_of_neg (by simpa using hkeep), next_of_error he, ih]

end Refused

/-! ## Machines in a machine -/

/-- The calls that `own` selects are answered as by a machine of their own, if they are answered so from
states that are the same to them, and the other calls leave the states the same to them. -/
theorem answers_filterMap {τ ι' : Type*} {N : Transactional τ ι' ο ε} {own : ι → Option ι'}
    (Same : σ → τ → Prop) (skip : ∀ s t i, own i = none → Same s t → Same (M.next s i) t)
    (step : ∀ s t i j, own i = some j → Same s t →
      (M.exec i s).map Prod.fst = (N.exec j t).map Prod.fst ∧ Same (M.next s i) (N.next t j))
    {s : σ} {t : τ} (h : Same s t) (calls : List ι) :
    (calls.zip (M.answers s calls)).filterMap (fun entry => (own entry.1).map fun _ => entry.2) =
      N.answers t (calls.filterMap own) := by
  induction calls generalizing s t with
  | nil => rfl
  | cons i calls ih =>
    rw [answers, List.zip_cons_cons]
    cases hown : own i with
    | none =>
      rw [List.filterMap_cons_none hown, List.filterMap_cons_none (by simp [hown])]
      exact ih (skip s t i hown h)
    | some j =>
      obtain ⟨hanswer, hsame⟩ := step s t i j hown h
      rw [List.filterMap_cons_some hown, answers, ← hanswer, ← ih hsame]
      apply List.filterMap_cons_some
      simp [hown]

end Transactional
