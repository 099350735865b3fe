import Mathlib.Data.List.DropRight
import Mathlib.Data.List.SplitBy
import Mathlib.Data.List.Induction

/-!
# Windows

A list falls into windows, each from an element that opens one up to the next such element. That exactly
the first `n` elements of every window have a property is a statement about the ranks of the elements in
their windows (`forall_windows_iff`), and a rank is below `n` if one of the last `n` elements opens a
window (`rank_lt_iff`).

Readings of a clock open windows that last for a fixed time (`starts`).
-/

namespace LineProof

section Windows

variable {α β : Type*}

/-- The windows of a list. Its first element starts one in any case. -/
def windows (opens : α → Bool) (l : List α) : List (List α) := l.splitBy fun _ a => !opens a

/-- The number of elements before the last one in its window. -/
def rank (opens : α → Bool) (l : List α) : ℕ := (l.rtakeWhile fun a => !opens a).length

/-- The first element opens a window. -/
def Opened (opens : α → Bool) (l : List α) : Prop := ∀ a ∈ l.head?, opens a = true

/-- The first `n` elements satisfy `P`, and no other ones. -/
def ExactlyFirst (n : ℕ) (P : α → Prop) (l : List α) : Prop :=
  ∀ i (h : i < l.length), P l[i] ↔ i < n

instance (n : ℕ) (P : α → Prop) [DecidablePred P] (l : List α) : Decidable (ExactlyFirst n P l) :=
  inferInstanceAs (Decidable (∀ i (h : i < l.length), P l[i] ↔ i < n))

variable {opens : α → Bool} {l : List α} {a : α} {n : ℕ} {P : α → Prop}

/-- The front of an opened list is opened. -/
theorem Opened.of_prefix {l' : List α} (h : Opened opens l) (hl : l' <+: l) : Opened opens l' := by
  intro a ha
  obtain ⟨after, rfl⟩ := hl
  exact h a (by rw [List.head?_append, ha]; rfl)

/-- A list is opened if its image is. -/
theorem opened_map (f : β → α) {l : List β} : Opened opens (l.map f) ↔ Opened (opens ∘ f) l := by
  cases l <;> simp [Opened]

/-- Nothing is in nothing. -/
theorem exactlyFirst_nil : ExactlyFirst n P [] := fun _ h => absurd h (Nat.not_lt_zero _)

/-- The last element has the property exactly if the list was short before. -/
theorem exactlyFirst_concat :
    ExactlyFirst n P (l ++ [a]) ↔ ExactlyFirst n P l ∧ (P a ↔ l.length < n) := by
  constructor
  · intro h
    constructor
    · intro i hi
      have hl := h i (by rw [List.length_append]; omega)
      rwa [List.getElem_append_left hi] at hl
    · have hl := h l.length (by simp)
      rwa [List.getElem_concat_length rfl] at hl
  · rintro ⟨hl, ha⟩ i hi
    rw [List.length_append, List.length_singleton] at hi
    by_cases hlast : i = l.length
    · subst hlast
      rw [List.getElem_concat_length rfl]
      exact ha
    · have hi' : i < l.length := by omega
      rw [List.getElem_append_left hi']
      exact hl i hi'

/-! ## Ranks -/

/-- An element that opens a window is the first one in it. -/
theorem rank_concat_of_opens (h : opens a = true) : rank opens (l ++ [a]) = 0 := by
  rw [rank, List.rtakeWhile_concat_neg _ _ _ (by simp [h]), List.length_nil]

/-- Any other element comes one place after the one before. -/
theorem rank_concat_of_not (h : opens a = false) : rank opens (l ++ [a]) = rank opens l + 1 := by
  rw [rank, List.rtakeWhile_concat_pos _ _ _ (by simp [h]), List.length_append, List.length_singleton,
    rank]

/-- The rank in a list is the rank in its image. -/
theorem rank_map (f : β → α) (l : List β) : rank opens (l.map f) = rank (opens ∘ f) l := by
  induction l using List.reverseRecOn with
  | nil => rfl
  | append_singleton l b ih =>
    rw [List.map_append, List.map_singleton]
    cases h : opens (f b) with
    | true => rw [rank_concat_of_opens h, rank_concat_of_opens (by exact h)]
    | false => rw [rank_concat_of_not h, rank_concat_of_not (by exact h), ih]

/-- The last element is one of the first `n` of its window if one of the last `n` elements opens a
window. -/
theorem rank_lt_iff (hne : l ≠ []) (hopened : Opened opens l) :
    rank opens l < n ↔ ∃ b ∈ l.rtake n, opens b = true := by
  induction l using List.reverseRecOn generalizing n with
  | nil => exact absurd rfl hne
  | append_singleton l a ih =>
    cases n with
    | zero => simp
    | succ n =>
      rw [List.rtake_concat_succ]
      cases h : opens a with
      | true =>
        rw [rank_concat_of_opens h]
        exact iff_of_true n.succ_pos ⟨a, by simp, h⟩
      | false =>
        have hl : l ≠ [] := by
          rintro rfl
          exact absurd (hopened a rfl) (by simp [h])
        rw [rank_concat_of_not h, Nat.add_lt_add_iff_right,
          ih hl (hopened.of_prefix (List.prefix_append l [a]))]
        simp [h]

/-! ## The windows of a longer list -/

/-- An element that opens a window is a window of its own. -/
theorem windows_concat_of_opens (h : opens a = true) :
    windows opens (l ++ [a]) = windows opens l ++ [[a]] := by
  rw [windows, List.splitBy_append_cons [] (by simp [h])]
  rfl

/-- Any other element goes to the last window. -/
theorem windows_concat_of_not (h : opens a = false) {ws : List (List α)} {w : List α}
    (hw : windows opens l = ws ++ [w]) : windows opens (l ++ [a]) = ws ++ [w ++ [a]] := by
  obtain ⟨hflat, hnil, hchain, hgaps⟩ := List.splitBy_eq_iff.mp hw
  apply List.splitBy_eq_iff.mpr
  refine ⟨?_, ?_, ?_, ?_⟩
  · rw [hflat]
    simp
  · intro hmem
    rcases List.mem_append.mp hmem with hws | hlast
    · exact hnil (List.mem_append_left _ hws)
    · simp at hlast
  · intro m hm
    rcases List.mem_append.mp hm with hws | hlast
    · exact hchain m (List.mem_append_left _ hws)
    · obtain rfl := List.mem_singleton.mp hlast
      refine List.isChain_append.mpr ⟨hchain w (by simp), List.isChain_singleton a, ?_⟩
      intro x _ y hy
      simp only [List.head?_cons, Option.mem_some_iff] at hy
      simp [← hy, h]
  · -- the last window has the head it had
    rw [List.isChain_append] at hgaps ⊢
    obtain ⟨hws, -, hlast⟩ := hgaps
    refine ⟨hws, List.isChain_singleton _, ?_⟩
    intro x hx y hy
    simp only [List.head?_cons, Option.mem_some_iff] at hy
    subst hy
    obtain ⟨hx', hw', hxw⟩ := hlast x hx w rfl
    refine ⟨hx', by simp, ?_⟩
    rw [List.head_append_of_ne_nil hw']
    exact hxw

/-- The last element stands in the last window, at its rank. -/
theorem exists_last_window (hne : l ≠ []) (hopened : Opened opens l) :
    ∃ ws w, windows opens l = ws ++ [w] ∧ w.length = rank opens l + 1 := by
  induction l using List.reverseRecOn with
  | nil => exact absurd rfl hne
  | append_singleton l a ih =>
    cases h : opens a with
    | true => exact ⟨_, [a], windows_concat_of_opens h, by rw [rank_concat_of_opens h]; rfl⟩
    | false =>
      have hl : l ≠ [] := by
        rintro rfl
        exact absurd (hopened a rfl) (by simp [h])
      obtain ⟨ws, w, hw, hlength⟩ := ih hl (hopened.of_prefix (List.prefix_append l [a]))
      refine ⟨ws, w ++ [a], windows_concat_of_not h hw, ?_⟩
      rw [List.length_append, List.length_singleton, hlength, rank_concat_of_not h]

/-- Exactly the first `n` elements of every window satisfy `P` if every element satisfies it exactly if
its rank is below `n`. -/
theorem forall_windows_iff (hopened : Opened opens l) :
    (∀ w ∈ windows opens l, ExactlyFirst n P w) ↔
      ∀ past a, past ++ [a] <+: l → (P a ↔ rank opens (past ++ [a]) < n) := by
  induction l using List.reverseRecOn with
  | nil => simp [windows]
  | append_singleton l a ih =>
    have hsplit : (∀ past b, past ++ [b] <+: l ++ [a] → (P b ↔ rank opens (past ++ [b]) < n)) ↔
        (∀ past b, past ++ [b] <+: l → (P b ↔ rank opens (past ++ [b]) < n)) ∧
          (P a ↔ rank opens (l ++ [a]) < n) := by
      constructor
      · intro h
        exact ⟨fun past b hb => h past b (hb.trans (List.prefix_append l [a])),
          h l a List.prefix_rfl⟩
      · rintro ⟨hl, ha⟩ past b hb
        rcases List.prefix_concat_iff.mp hb with heq | hb
        · obtain ⟨rfl, hba⟩ := List.append_inj' heq rfl
          obtain rfl := List.singleton_inj.mp hba
          exact ha
        · exact hl past b hb
    rw [hsplit, ← ih (hopened.of_prefix (List.prefix_append l [a]))]
    cases h : opens a with
    | true =>
      have hsingle : ExactlyFirst n P [a] ↔ (P a ↔ 0 < n) := by
        rw [← List.nil_append [a], exactlyFirst_concat]
        exact and_iff_right exactlyFirst_nil
      rw [windows_concat_of_opens h, rank_concat_of_opens h, ← hsingle, List.forall_mem_append,
        List.forall_mem_singleton]
    | false =>
      have hl : l ≠ [] := by
        rintro rfl
        exact absurd (hopened a rfl) (by simp [h])
      obtain ⟨ws, w, hw, hlength⟩ :=
        exists_last_window hl (hopened.of_prefix (List.prefix_append l [a]))
      rw [windows_concat_of_not h hw, rank_concat_of_not h, ← hlength, hw, List.forall_mem_append,
        List.forall_mem_singleton, exactlyFirst_concat, List.forall_mem_append,
        List.forall_mem_singleton, and_assoc]

end Windows

/-! ## Readings of a clock -/

section Starts

variable {τ : Type*} [Add τ] [LT τ] [DecidableLT τ] (length : τ)

/-- At the reading `t` there is no window, or it is over. -/
def isOver (start : Option τ) (t : τ) : Bool :=
  match start with
  | none => true
  | some t₀ => t₀ + length < t

/-- The start of the current window after the reading `t`. -/
def restart (start : Option τ) (t : τ) : Option τ := if isOver length start t then some t else start

/-- The start of the current window after all the readings. -/
def currentStart (readings : List τ) : Option τ := readings.foldl (restart length) none

/-- Which readings start a window. -/
def startsFrom : Option τ → List τ → List Bool
  | _, [] => []
  | start, t :: readings => isOver length start t :: startsFrom (restart length start t) readings

/-- Which readings start a window. -/
def starts (readings : List τ) : List Bool := startsFrom length none readings

variable {length} {readings : List τ} {t : τ}

/-- A reading keeps the current window or starts one. -/
theorem currentStart_concat :
    currentStart length (readings ++ [t]) = restart length (currentStart length readings) t := by
  rw [currentStart, List.foldl_concat, currentStart]

/-- Whether the last reading starts a window depends on where the current one started. -/
theorem startsFrom_concat (start : Option τ) :
    startsFrom length start (readings ++ [t]) =
      startsFrom length start readings ++ [isOver length (readings.foldl (restart length) start) t] := by
  induction readings generalizing start with
  | nil => rfl
  | cons t' readings ih => rw [List.cons_append, startsFrom, startsFrom, ih]; rfl

/-- Whether the last reading of all starts a window. -/
theorem starts_concat :
    starts length (readings ++ [t]) =
      starts length readings ++ [isOver length (currentStart length readings) t] :=
  startsFrom_concat none

/-- How far into its window the last reading is. -/
theorem rank_starts_concat :
    rank id (starts length (readings ++ [t])) =
      if isOver length (currentStart length readings) t then 0
      else rank id (starts length readings) + 1 := by
  rw [starts_concat]
  cases h : isOver length (currentStart length readings) t with
  | true => exact rank_concat_of_opens rfl
  | false => exact rank_concat_of_not rfl

/-- Readings have starts. -/
theorem starts_ne_nil (h : readings ≠ []) : starts length readings ≠ [] := by
  cases readings with
  | nil => exact absurd rfl h
  | cons t readings => exact List.cons_ne_nil _ _

/-- The first reading starts a window. -/
theorem opened_starts : Opened id (starts length readings) := by
  intro b hb
  cases readings with
  | nil => cases hb
  | cons t readings =>
    obtain rfl : true = b := Option.some.inj hb
    rfl

/-- The last reading is among the first `n` of its window if one of the last `n` readings starts one. -/
theorem rank_starts_lt_iff {n : ℕ} (h : readings ≠ []) :
    rank id (starts length readings) < n ↔ true ∈ (starts length readings).rtake n := by
  rw [rank_lt_iff (starts_ne_nil h) opened_starts]
  constructor
  · rintro ⟨b, hb, rfl⟩
    exact hb
  · intro htrue
    exact ⟨true, htrue, rfl⟩

end Starts

end LineProof
