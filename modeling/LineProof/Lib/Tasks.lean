import Mathlib.Data.List.Induction

/-!
# Asynchronous tasks

A task is a call of an asynchronous function: it has returned, or it awaits the answer to a request and goes
on from there. A pool has the tasks that were started so far, and any pending request may be answered next.
Tasks share nothing, so what has become of a task depends on its own exchanges only, however they were
mixed with those of others (`Explains`).

What a task asks for, and what it returns, after which exchanges (`Asks`, `Returns`) is computed along its
code: the rules for `await`, `bind` and `andThen` split the exchanges where the code splits.
-/

namespace LineProof

/-- A computation that asks for things and goes on with the answers. -/
inductive Task (ρ : Type) (α : ρ → Type) (β : Type)
  | done (result : β)
  | await (request : ρ) (resume : α request → Task ρ α β)

/-- A request with its answer. -/
abbrev Exchange {ρ : Type} (α : ρ → Type) := (request : ρ) × α request

namespace Task

variable {ρ : Type} {α : ρ → Type} {β : Type}

/-- The request that the task awaits an answer to. -/
def pending? : Task ρ α β → Option ρ
  | .done _ => none
  | .await request _ => some request

variable [DecidableEq ρ]

/-- The task after an exchange, if it is the one it awaits. -/
def resume? : Task ρ α β → Exchange α → Option (Task ρ α β)
  | .done _, _ => none
  | .await request resume, ⟨answered, answer⟩ =>
    if h : answered = request then some (resume (h ▸ answer)) else none

/-- The task after a list of exchanges, if they are the ones it awaits. -/
def after : Task ρ α β → List (Exchange α) → Option (Task ρ α β)
  | task, [] => some task
  | task, exchange :: exchanges => (task.resume? exchange).bind (after · exchanges)

/-- A task goes on with the answer to its own request. -/
theorem resume?_await (request : ρ) (resume : α request → Task ρ α β) (answer : α request) :
    (await request resume).resume? ⟨request, answer⟩ = some (resume answer) := by
  rw [resume?, dif_pos rfl]

/-- What goes on was waiting for this request. -/
theorem resume?_eq_some {task task' : Task ρ α β} {exchange : Exchange α}
    (h : task.resume? exchange = some task') :
    ∃ request resume answer, task = .await request resume ∧ exchange = ⟨request, answer⟩ ∧
      task' = resume answer := by
  cases task with
  | done result => cases h
  | await request resume =>
    obtain ⟨answered, answer⟩ := exchange
    rw [resume?] at h
    split at h
    · case _ heq =>
      subst heq
      exact ⟨answered, resume, answer, rfl, rfl, (Option.some.inj h).symm⟩
    · cases h

/-- The last exchange resumes what the others left. -/
theorem after_concat (task : Task ρ α β) (exchanges : List (Exchange α)) (exchange : Exchange α) :
    task.after (exchanges ++ [exchange]) = (task.after exchanges).bind (·.resume? exchange) := by
  induction exchanges generalizing task with
  | nil =>
    rw [List.nil_append, after, after, Option.bind_some]
    cases task.resume? exchange <;> rfl
  | cons first exchanges ih =>
    rw [List.cons_append, after, after]
    cases task.resume? first with
    | none => rfl
    | some next => exact ih next

/-- What holds of a task at its start, and is kept by every exchange it takes part in, holds whatever its
exchanges are. -/
theorem after_invariant {P : List (Exchange α) → Task ρ α β → Prop} {task : Task ρ α β} (start : P [] task)
    (step : ∀ exchanges request resume answer, P exchanges (.await request resume) →
      P (exchanges ++ [⟨request, answer⟩]) (resume answer))
    {exchanges : List (Exchange α)} {task' : Task ρ α β} (h : task.after exchanges = some task') :
    P exchanges task' := by
  induction exchanges using List.reverseRecOn generalizing task' with
  | nil =>
    obtain rfl : task = task' := Option.some.inj h
    exact start
  | append_singleton exchanges exchange ih =>
    rw [after_concat, Option.bind_eq_some_iff] at h
    obtain ⟨before, hbefore, hresume⟩ := h
    obtain ⟨request, resume, answer, rfl, rfl, rfl⟩ := resume?_eq_some hresume
    exact step exchanges request resume answer (ih hbefore)

/-! ## Traces -/

/-- Exchanges can be played in two parts. -/
theorem after_append (task : Task ρ α β) (first rest : List (Exchange α)) :
    task.after (first ++ rest) = (task.after first).bind (·.after rest) := by
  induction first generalizing task with
  | nil => rfl
  | cons exchange first ih =>
    rw [List.cons_append, after, after]
    cases task.resume? exchange with
    | none => rfl
    | some next => exact ih next

/-- After the exchanges, the task awaits the answer to the request. -/
def Asks (task : Task ρ α β) (exchanges : List (Exchange α)) (request : ρ) : Prop :=
  (task.after exchanges).bind pending? = some request

/-- After the exchanges, the task has returned. -/
def Returns (task : Task ρ α β) (exchanges : List (Exchange α)) (result : β) : Prop :=
  task.after exchanges = some (.done result)

variable {request asked : ρ} {resume : α request → Task ρ α β} {exchanges first rest : List (Exchange α)}

/-- What was answered had been asked for. -/
theorem asks_of_after {task task' : Task ρ α β} {exchange : Exchange α}
    (h : task.after (first ++ exchange :: rest) = some task') : task.Asks first exchange.1 := by
  rw [after_append] at h
  obtain ⟨before, hbefore, hrest⟩ := Option.bind_eq_some_iff.mp h
  rw [after] at hrest
  obtain ⟨next, hresume, -⟩ := Option.bind_eq_some_iff.mp hrest
  obtain ⟨request, resume, answer, rfl, rfl, rfl⟩ := resume?_eq_some hresume
  rw [Asks, hbefore]
  rfl

theorem after_done_cons (result : β) (exchange : Exchange α) :
    (done result : Task ρ α β).after (exchange :: rest) = none := rfl

/-- The first exchange answers the request that is awaited. -/
theorem after_await_cons (answer : α request) :
    (await request resume).after (⟨request, answer⟩ :: rest) = (resume answer).after rest := by
  rw [after, resume?_await, Option.bind_some]

/-- Either nothing was exchanged yet, or the request was answered first. -/
theorem after_await_eq_some {task : Task ρ α β} (h : (await request resume).after exchanges = some task) :
    (exchanges = [] ∧ task = await request resume) ∨
      ∃ answer rest, exchanges = ⟨request, answer⟩ :: rest ∧ (resume answer).after rest = some task := by
  cases exchanges with
  | nil => exact .inl ⟨rfl, (Option.some.inj h).symm⟩
  | cons exchange rest =>
    rw [after] at h
    obtain ⟨next, hresume, hrest⟩ := Option.bind_eq_some_iff.mp h
    obtain ⟨request', resume', answer, heq, rfl, rfl⟩ := resume?_eq_some hresume
    cases heq
    exact .inr ⟨answer, rest, rfl, hrest⟩

/-- What is done asks for nothing. -/
theorem not_asks_done (result : β) : ¬(done result : Task ρ α β).Asks exchanges asked := by
  intro h
  cases exchanges with
  | nil => cases h
  | cons exchange rest => cases h

/-- What is done has returned its result at once. -/
theorem returns_done_iff {result result' : β} :
    (done result : Task ρ α β).Returns exchanges result' ↔ exchanges = [] ∧ result = result' := by
  cases exchanges with
  | nil => simp [Returns, after]
  | cons exchange rest => simp [Returns, after_done_cons]

/-- A task asks for what it awaits first, or for what its continuation asks. -/
theorem asks_await_iff :
    (await request resume).Asks exchanges asked ↔
      (exchanges = [] ∧ request = asked) ∨
        ∃ answer rest, exchanges = ⟨request, answer⟩ :: rest ∧ (resume answer).Asks rest asked := by
  constructor
  · intro h
    obtain ⟨task, hafter, hpending⟩ := Option.bind_eq_some_iff.mp h
    rcases after_await_eq_some hafter with ⟨rfl, rfl⟩ | ⟨answer, rest, rfl, hrest⟩
    · exact .inl ⟨rfl, Option.some.inj hpending⟩
    · exact .inr ⟨answer, rest, rfl, Option.bind_eq_some_iff.mpr ⟨task, hrest, hpending⟩⟩
  · rintro (⟨rfl, rfl⟩ | ⟨answer, rest, rfl, hrest⟩)
    · rfl
    · rw [Asks, after_await_cons]
      exact hrest

/-- A task returns what its continuation returns. -/
theorem returns_await_iff {result : β} :
    (await request resume).Returns exchanges result ↔
      ∃ answer rest, exchanges = ⟨request, answer⟩ :: rest ∧ (resume answer).Returns rest result := by
  constructor
  · intro h
    rcases after_await_eq_some h with ⟨-, heq⟩ | hrest
    · cases heq
    · exact hrest
  · rintro ⟨answer, rest, rfl, hrest⟩
    rw [Returns, after_await_cons]
    exact hrest

/-! ### One task after another -/

section Bind

variable {ε γ : Type}

omit [DecidableEq ρ] in
/-- The task goes on with the result of the first. -/
def bind : Task ρ α β → (β → Task ρ α γ) → Task ρ α γ
  | .done result, next => next result
  | .await request resume, next => .await request fun answer => (resume answer).bind next

omit [DecidableEq ρ] in
/-- What the first task throws is thrown. -/
def andThen (task : Task ρ α (Except ε β)) (next : β → Task ρ α (Except ε γ)) :
    Task ρ α (Except ε γ) :=
  task.bind fun
    | .ok result => next result
    | .error error => .done (.error error)

/-- A sequence asks for what its first part asks, and then for what its second part does. -/
theorem asks_bind_iff {task : Task ρ α β} {next : β → Task ρ α γ} :
    (task.bind next).Asks exchanges asked ↔
      task.Asks exchanges asked ∨
        ∃ result first rest, exchanges = first ++ rest ∧ task.Returns first result ∧
          (next result).Asks rest asked := by
  induction task generalizing exchanges with
  | done result =>
    rw [bind]
    constructor
    · intro h
      exact .inr ⟨result, [], exchanges, rfl, rfl, h⟩
    · rintro (h | ⟨result', first, rest, rfl, hreturns, h⟩)
      · exact absurd h (not_asks_done result)
      · obtain ⟨rfl, rfl⟩ := returns_done_iff.mp hreturns
        exact h
  | await request resume ih =>
    rw [bind, asks_await_iff, asks_await_iff]
    constructor
    · rintro (h | ⟨answer, rest, rfl, h⟩)
      · exact .inl (.inl h)
      · rcases (ih answer).mp h with hasks | ⟨result, first, rest, rfl, hreturns, hasks⟩
        · exact .inl (.inr ⟨answer, rest, rfl, hasks⟩)
        · exact .inr ⟨result, _ :: first, rest, rfl,
            returns_await_iff.mpr ⟨answer, first, rfl, hreturns⟩, hasks⟩
    · rintro ((h | ⟨answer, rest, rfl, hasks⟩) | ⟨result, first, rest, rfl, hreturns, hasks⟩)
      · exact .inl h
      · exact .inr ⟨answer, rest, rfl, (ih answer).mpr (.inl hasks)⟩
      · obtain ⟨answer, first, rfl, hfirst⟩ := returns_await_iff.mp hreturns
        exact .inr ⟨answer, first ++ rest, rfl,
          (ih answer).mpr (.inr ⟨result, first, rest, rfl, hfirst, hasks⟩)⟩

/-- A sequence returns what the second part returns with the result of the first. -/
theorem returns_bind_iff {task : Task ρ α β} {next : β → Task ρ α γ} {final : γ} :
    (task.bind next).Returns exchanges final ↔
      ∃ result first rest, exchanges = first ++ rest ∧ task.Returns first result ∧
        (next result).Returns rest final := by
  induction task generalizing exchanges with
  | done result =>
    rw [bind]
    constructor
    · intro h
      exact ⟨result, [], exchanges, rfl, rfl, h⟩
    · rintro ⟨result', first, rest, rfl, hreturns, h⟩
      obtain ⟨rfl, rfl⟩ := returns_done_iff.mp hreturns
      exact h
  | await request resume ih =>
    rw [bind, returns_await_iff]
    constructor
    · rintro ⟨answer, rest, rfl, h⟩
      obtain ⟨result, first, rest, rfl, hreturns, hfinal⟩ := (ih answer).mp h
      exact ⟨result, _ :: first, rest, rfl,
        returns_await_iff.mpr ⟨answer, first, rfl, hreturns⟩, hfinal⟩
    · rintro ⟨result, first, rest, rfl, hreturns, hfinal⟩
      obtain ⟨answer, first, rfl, hfirst⟩ := returns_await_iff.mp hreturns
      exact ⟨answer, first ++ rest, rfl,
        (ih answer).mpr ⟨result, first, rest, rfl, hfirst, hfinal⟩⟩

/-- The second part of a sequence that may throw is reached by a result of the first. -/
theorem asks_andThen_iff {task : Task ρ α (Except ε β)} {next : β → Task ρ α (Except ε γ)} :
    (task.andThen next).Asks exchanges asked ↔
      task.Asks exchanges asked ∨
        ∃ result first rest, exchanges = first ++ rest ∧ task.Returns first (.ok result) ∧
          (next result).Asks rest asked := by
  rw [andThen, asks_bind_iff]
  constructor
  · rintro (h | ⟨result, first, rest, rfl, hreturns, hasks⟩)
    · exact .inl h
    · cases result with
      | ok result => exact .inr ⟨result, first, rest, rfl, hreturns, hasks⟩
      | error error => exact absurd hasks (not_asks_done _)
  · rintro (h | ⟨result, first, rest, rfl, hreturns, hasks⟩)
    · exact .inl h
    · exact .inr ⟨.ok result, first, rest, rfl, hreturns, hasks⟩

/-- A sequence that may throw succeeds if both parts do. -/
theorem returns_andThen_ok_iff {task : Task ρ α (Except ε β)} {next : β → Task ρ α (Except ε γ)}
    {final : γ} :
    (task.andThen next).Returns exchanges (.ok final) ↔
      ∃ result first rest, exchanges = first ++ rest ∧ task.Returns first (.ok result) ∧
        (next result).Returns rest (.ok final) := by
  rw [andThen, returns_bind_iff]
  constructor
  · rintro ⟨result, first, rest, rfl, hreturns, hfinal⟩
    cases result with
    | ok result => exact ⟨result, first, rest, rfl, hreturns, hfinal⟩
    | error error =>
      obtain ⟨-, heq⟩ := returns_done_iff.mp hfinal
      cases heq
  · rintro ⟨result, first, rest, rfl, hreturns, hfinal⟩
    exact ⟨.ok result, first, rest, rfl, hreturns, hfinal⟩

omit [DecidableEq ρ] in
theorem done_ok_andThen (result : β) (next : β → Task ρ α (Except ε γ)) :
    (done (.ok result)).andThen next = next result := rfl

/-- After a check the rest asks for things if the check passes. -/
theorem asks_done_andThen_iff {result : Except ε β} {next : β → Task ρ α (Except ε γ)} :
    ((done result).andThen next).Asks exchanges asked ↔
      ∃ value, result = .ok value ∧ (next value).Asks exchanges asked := by
  cases result with
  | ok value => simp [done_ok_andThen]
  | error error =>
    constructor
    · intro h
      exact absurd h (not_asks_done _)
    · rintro ⟨value, h, -⟩
      cases h

/-- After a check the rest returns if the check passes. -/
theorem returns_done_andThen_ok_iff {result : Except ε β} {next : β → Task ρ α (Except ε γ)}
    {final : γ} :
    ((done result).andThen next).Returns exchanges (.ok final) ↔
      ∃ value, result = .ok value ∧ (next value).Returns exchanges (.ok final) := by
  cases result with
  | ok value => simp [done_ok_andThen]
  | error error =>
    constructor
    · intro h
      obtain ⟨-, heq⟩ := returns_done_iff.mp h
      cases heq
    · rintro ⟨value, h, -⟩
      cases h

end Bind

/-! ## Pools -/

/-- The pool after an exchange of the task `i`. -/
def exchangeAt (i : ℕ) (exchange : Exchange α) (tasks : List (Task ρ α β)) :
    Option (List (Task ρ α β)) :=
  (tasks[i]?.bind (·.resume? exchange)).map (tasks.set i ·)

/-- The exchanges of the task `i` in a log. -/
def exchangesOf (i : ℕ) (log : List (ℕ × Exchange α)) : List (Exchange α) :=
  (log.filter fun entry => entry.1 = i).map Prod.snd

omit [DecidableEq ρ] in
/-- An exchange of the task is its last one. -/
theorem exchangesOf_concat_self (i : ℕ) (log : List (ℕ × Exchange α)) (exchange : Exchange α) :
    exchangesOf i (log ++ [(i, exchange)]) = exchangesOf i log ++ [exchange] := by
  simp [exchangesOf]

omit [DecidableEq ρ] in
/-- An exchange of another task is none of its own. -/
theorem exchangesOf_concat_of_ne {i j : ℕ} (h : i ≠ j) (log : List (ℕ × Exchange α))
    (exchange : Exchange α) : exchangesOf j (log ++ [(i, exchange)]) = exchangesOf j log := by
  simp [exchangesOf, h]

omit [DecidableEq ρ] in
/-- The exchanges of a task around one of its own. -/
theorem exchangesOf_append_cons_self (i : ℕ) (before rest : List (ℕ × Exchange α)) (exchange : Exchange α) :
    exchangesOf i (before ++ (i, exchange) :: rest) =
      exchangesOf i before ++ exchange :: exchangesOf i rest := by
  simp [exchangesOf]

/-- Every task of the pool is what its own exchanges made of it. -/
structure Explains (started : List (Task ρ α β)) (log : List (ℕ × Exchange α))
    (tasks : List (Task ρ α β)) : Prop where
  length : tasks.length = started.length
  task : ∀ i task, tasks[i]? = some task →
    ∃ fresh : Task ρ α β, started[i]? = some fresh ∧ fresh.after (exchangesOf i log) = some task
  known : ∀ entry ∈ log, entry.1 < started.length

variable {started tasks tasks' : List (Task ρ α β)} {log : List (ℕ × Exchange α)}

/-- Nothing has happened to no tasks. -/
theorem explains_nil : Explains ([] : List (Task ρ α β)) ([] : List (ℕ × Exchange α)) [] where
  length := rfl
  task i task h := by cases h
  known entry h := by cases h

/-- Tasks are started. -/
theorem Explains.start (h : Explains started log tasks) (new : List (Task ρ α β)) :
    Explains (started ++ new) log (tasks ++ new) where
  length := by rw [List.length_append, List.length_append, h.length]
  task i task hi := by
    by_cases hlt : i < tasks.length
    · rw [List.getElem?_append_left hlt] at hi
      obtain ⟨fresh, hfresh, hafter⟩ := h.task i task hi
      refine ⟨fresh, ?_, hafter⟩
      rw [List.getElem?_append_left (h.length ▸ hlt)]
      exact hfresh
    · have hge : tasks.length ≤ i := Nat.le_of_not_lt hlt
      rw [List.getElem?_append_right hge] at hi
      refine ⟨task, ?_, ?_⟩
      · rw [List.getElem?_append_right (h.length ▸ hge), ← h.length]
        exact hi
      · -- nothing was exchanged with a task before its start
        have hnone : exchangesOf i log = [] := by
          rw [exchangesOf, List.map_eq_nil_iff, List.filter_eq_nil_iff]
          intro entry hentry heq
          have hknown := h.known entry hentry
          have hi' : entry.1 = i := of_decide_eq_true heq
          have hlength := h.length
          omega
        rw [hnone]
        rfl
  known entry hentry := by
    rw [List.length_append]
    exact Nat.lt_add_right _ (h.known entry hentry)

/-- A pending request is answered. -/
theorem Explains.exchange (h : Explains started log tasks) {i : ℕ} {exchange : Exchange α}
    (hexchange : exchangeAt i exchange tasks = some tasks') :
    Explains started (log ++ [(i, exchange)]) tasks' := by
  obtain ⟨next, hnext, rfl⟩ := Option.map_eq_some_iff.mp hexchange
  obtain ⟨before, hbefore, hresume⟩ := Option.bind_eq_some_iff.mp hnext
  have hlt : i < tasks.length := (List.getElem?_eq_some_iff.mp hbefore).1
  refine ⟨by rw [List.length_set, h.length], ?_, ?_⟩
  · intro j task hj
    by_cases hij : i = j
    · subst hij
      rw [List.getElem?_set_self hlt] at hj
      obtain rfl := Option.some.inj hj
      obtain ⟨fresh, hfresh, hafter⟩ := h.task i before hbefore
      refine ⟨fresh, hfresh, ?_⟩
      rw [exchangesOf_concat_self, after_concat, hafter]
      exact hresume
    · rw [List.getElem?_set_ne hij] at hj
      rw [exchangesOf_concat_of_ne hij]
      exact h.task j task hj
  · intro entry hentry
    rcases List.mem_append.mp hentry with hlog | hlast
    · exact h.known entry hlog
    · obtain rfl := List.mem_singleton.mp hlast
      exact h.length ▸ hlt

end Task

end LineProof
