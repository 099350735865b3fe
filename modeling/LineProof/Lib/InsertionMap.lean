import Mathlib.Algebra.BigOperators.Group.List.Basic
import Mathlib.Data.List.Nodup
import Mathlib.Tactic.Abel

/-!
# Maps and sets in insertion order

A map that lists its entries in the order in which their keys were first written. Writing a key that is
there replaces its value in place. This is the `Map` of JavaScript. `InsertionSet` is its `Set`.
-/

namespace LineProof

/-- A map whose entries are kept in the order their keys came. -/
structure InsertionMap (κ α : Type*) where
  entries : List (κ × α)
  nodup : (entries.map Prod.fst).Nodup

namespace InsertionMap

variable {κ α : Type*}

/-- A key has one entry. -/
theorem value_unique {m : InsertionMap κ α} {key : κ} {value value' : α}
    (h : (key, value) ∈ m.entries) (h' : (key, value') ∈ m.entries) : value = value' := by
  have hpair : (key, value) = (key, value') := List.inj_on_of_nodup_map m.nodup h h' rfl
  exact congrArg Prod.snd hpair

/-- A map is its entries. -/
theorem eq_of_entries {m m' : InsertionMap κ α} (h : m.entries = m'.entries) : m = m' := by
  cases m
  cases m'
  cases h
  rfl

variable [DecidableEq κ]

/-- The value under `key`. -/
def get (m : InsertionMap κ α) (key : κ) : Option α :=
  (m.entries.find? fun e => e.1 = key).map Prod.snd

/-- The values, in the order of the entries. -/
def values (m : InsertionMap κ α) : List α := m.entries.map Prod.snd

/-- Replace the value of the entry under `key`. -/
def replace (key : κ) (value : α) (entries : List (κ × α)) : List (κ × α) :=
  entries.map fun e => if e.1 = key then (key, value) else e

/-- Replacing a value keeps the keys and their order. -/
theorem map_fst_replace (key : κ) (value : α) (entries : List (κ × α)) :
    (replace key value entries).map Prod.fst = entries.map Prod.fst := by
  rw [replace, List.map_map]
  apply List.map_congr_left
  intro e _
  by_cases h : e.1 = key <;> simp [h]

/-- Write `value` under `key`. -/
def set (m : InsertionMap κ α) (key : κ) (value : α) : InsertionMap κ α :=
  if h : key ∈ m.entries.map Prod.fst then
    { entries := replace key value m.entries
      nodup := by rw [map_fst_replace]; exact m.nodup }
  else
    { entries := m.entries ++ [(key, value)]
      nodup := by
        rw [List.map_append, List.map_singleton]
        exact m.nodup.append (List.nodup_singleton key) (List.disjoint_singleton.mpr h) }

/-- Take the entry under `key` away. -/
def delete (m : InsertionMap κ α) (key : κ) : InsertionMap κ α where
  entries := m.entries.filter fun e => e.1 ≠ key
  nodup := m.nodup.sublist (List.filter_sublist.map Prod.fst)

instance : EmptyCollection (InsertionMap κ α) := ⟨⟨[], List.nodup_nil⟩⟩

instance : Inhabited (InsertionMap κ α) := ⟨∅⟩

variable {m : InsertionMap κ α} {key key' : κ} {value value' : α}

@[simp] theorem get_empty : (∅ : InsertionMap κ α).get key = none := rfl

/-- What is found are the entries. -/
theorem get_eq_some_iff : m.get key = some value ↔ (key, value) ∈ m.entries := by
  rw [get, Option.map_eq_some_iff]
  constructor
  · intro h
    obtain ⟨⟨k, v⟩, hfind, rfl⟩ := h
    have hk : k = key := by simpa using List.find?_some hfind
    rw [← hk]
    exact List.mem_of_find?_eq_some hfind
  · intro h
    cases hfind : m.entries.find? fun e => e.1 = key with
    | none => exact absurd (List.find?_eq_none.mp hfind (key, value) h) (by simp)
    | some e =>
      obtain ⟨k, v⟩ := e
      have hk : k = key := by simpa using List.find?_some hfind
      subst hk
      exact ⟨(k, v), rfl, value_unique (List.mem_of_find?_eq_some hfind) h⟩

/-- The entries after a write. -/
theorem mem_entries_set {e : κ × α} :
    e ∈ (m.set key value).entries ↔ e = (key, value) ∨ e ∈ m.entries ∧ e.1 ≠ key := by
  unfold set
  split
  · case _ hkey =>
    obtain ⟨old, hold, rfl⟩ := List.mem_map.mp hkey
    simp only [replace, List.mem_map]
    constructor
    · intro h
      obtain ⟨d, hd, rfl⟩ := h
      by_cases hk : d.1 = old.1
      · exact .inl (by rw [if_pos hk])
      · rw [if_neg hk]
        exact .inr ⟨hd, hk⟩
    · intro h
      rcases h with rfl | ⟨he, hne⟩
      · exact ⟨old, hold, by rw [if_pos rfl]⟩
      · exact ⟨e, he, by rw [if_neg hne]⟩
  · case _ hkey =>
    simp only [List.mem_append, List.mem_singleton]
    constructor
    · intro h
      rcases h with he | rfl
      · exact .inr ⟨he, fun hk => hkey (hk ▸ List.mem_map_of_mem he)⟩
      · exact .inl rfl
    · intro h
      rcases h with rfl | ⟨he, -⟩
      · exact .inr rfl
      · exact .inl he

@[simp] theorem get_set_self : (m.set key value).get key = some value := by
  rw [get_eq_some_iff, mem_entries_set]
  exact .inl rfl

/-- A write leaves every other key. -/
theorem get_set_of_ne (h : key' ≠ key) : (m.set key value).get key' = m.get key' := by
  apply Option.ext
  intro v
  rw [get_eq_some_iff, get_eq_some_iff, mem_entries_set]
  simp [h]

@[simp] theorem get_delete_self : (m.delete key).get key = none := by
  rw [Option.eq_none_iff_forall_ne_some]
  intro v h
  have hmem := get_eq_some_iff.mp h
  simp [delete] at hmem

/-- A deletion leaves every other key. -/
theorem get_delete_of_ne (h : key' ≠ key) : (m.delete key).get key' = m.get key' := by
  apply Option.ext
  intro v
  rw [get_eq_some_iff, get_eq_some_iff, delete, List.mem_filter]
  simp [h]

/-- Writing the value that is there changes nothing. -/
theorem set_of_get (h : m.get key = some value) : m.set key value = m := by
  have hmem : (key, value) ∈ m.entries := get_eq_some_iff.mp h
  apply eq_of_entries
  rw [set, dif_pos (List.mem_map_of_mem hmem)]
  refine (List.map_congr_left ?_).trans m.entries.map_id
  intro e he
  obtain ⟨k, v⟩ := e
  by_cases hk : k = key
  · subst hk
    rw [if_pos rfl, value_unique hmem he]
    rfl
  · rw [if_neg hk]
    rfl

/-- The values are what is found under some key. -/
theorem mem_values_iff : value ∈ m.values ↔ ∃ key, m.get key = some value := by
  simp [values, get_eq_some_iff]

/-- Values that tell their keys apart are listed once. -/
theorem values_nodup (h : ∀ k k' v, m.get k = some v → m.get k' = some v → k = k') :
    m.values.Nodup := by
  apply List.Nodup.map_on
  · intro e he d hd hv
    obtain ⟨k, v⟩ := e
    obtain ⟨k', v'⟩ := d
    have hvv : v = v' := hv
    subst hvv
    rw [h k k' v (get_eq_some_iff.mpr he) (get_eq_some_iff.mpr hd)]
  · exact List.Nodup.of_map Prod.fst m.nodup

/-! ### Sums -/

section Weight

variable {M : Type*} [AddCommMonoid M]

/-- The sum of `w` over the entries. -/
def weight (w : κ → α → M) (m : InsertionMap κ α) : M := (m.entries.map fun e => w e.1 e.2).sum

/-- Replacing under a new key does nothing. -/
theorem replace_of_notMem {entries : List (κ × α)} (h : key ∉ entries.map Prod.fst) :
    replace key value entries = entries := by
  rw [replace]
  refine (List.map_congr_left fun e he => ?_).trans entries.map_id
  have hne : e.1 ≠ key := by
    rintro rfl
    exact h (List.mem_map_of_mem he)
  rw [if_neg hne]
  rfl

/-- Writing a key exchanges its weight, where a key that is not there weighs nothing. -/
theorem weight_set (w : κ → α → M) (m : InsertionMap κ α) (key : κ) (value : α) :
    weight w (m.set key value) + (m.get key).elim 0 (w key) = weight w m + w key value := by
  by_cases hkey : key ∈ m.entries.map Prod.fst
  · have hset : (m.set key value).entries = replace key value m.entries := by rw [set, dif_pos hkey]
    obtain ⟨⟨k, old⟩, hold, rfl⟩ := List.mem_map.mp hkey
    obtain ⟨before, after, hentries⟩ := List.append_of_mem hold
    have hnodup := m.nodup
    rw [hentries, List.map_append, List.map_cons, List.nodup_middle, List.nodup_cons, List.mem_append,
      not_or] at hnodup
    have hreplace : replace k value m.entries = before ++ (k, value) :: after := by
      have hbefore : replace k value before = before := replace_of_notMem hnodup.1.1
      have hafter : replace k value after = after := replace_of_notMem hnodup.1.2
      rw [replace] at hbefore hafter ⊢
      rw [hentries, List.map_append, List.map_cons, if_pos rfl, hbefore, hafter]
    rw [get_eq_some_iff.mpr hold, Option.elim_some, weight, hset, hreplace, weight, hentries]
    simp only [List.map_append, List.map_cons, List.sum_append, List.sum_cons]
    abel
  · have hget : m.get key = none := by
      rw [Option.eq_none_iff_forall_ne_some]
      intro v hv
      exact hkey (List.mem_map_of_mem (get_eq_some_iff.mp hv))
    rw [hget, Option.elim_none, add_zero, weight, set, dif_neg hkey, List.map_append, List.sum_append,
      List.map_singleton, List.sum_singleton, weight]

omit [DecidableEq κ] in
/-- The number of values with a property is a sum over the entries. -/
theorem countP_values (p : α → Bool) (m : InsertionMap κ α) :
    m.values.countP p = weight (fun _ value => if p value then 1 else 0) m := by
  rw [values, weight]
  induction m.entries with
  | nil => rfl
  | cons e entries ih =>
    rw [List.map_cons, List.countP_cons, ih, List.map_cons, List.sum_cons, Nat.add_comm]

/-- A write exchanges the old value for the new one in a count. -/
theorem countP_values_set (p : α → Bool) (m : InsertionMap κ α) (key : κ) (value : α) :
    (m.set key value).values.countP p + (m.get key).elim 0 (fun old => if p old then 1 else 0) =
      m.values.countP p + if p value then 1 else 0 := by
  rw [countP_values, countP_values]
  exact weight_set (fun _ value => if p value then 1 else 0) m key value

end Weight

end InsertionMap

/-! ## Sets -/

/-- A set whose elements are kept in the order they came. -/
structure InsertionSet (α : Type*) where
  elems : List α
  nodup : elems.Nodup

namespace InsertionSet

variable {α : Type*}

instance : EmptyCollection (InsertionSet α) := ⟨⟨[], List.nodup_nil⟩⟩

instance : Membership α (InsertionSet α) := ⟨fun s a => a ∈ s.elems⟩

theorem mem_elems {s : InsertionSet α} {a : α} : a ∈ s.elems ↔ a ∈ s := Iff.rfl

@[simp] theorem notMem_empty (a : α) : a ∉ (∅ : InsertionSet α) := List.not_mem_nil

/-- The number of elements. -/
def size (s : InsertionSet α) : ℕ := s.elems.length

@[simp] theorem size_empty : (∅ : InsertionSet α).size = 0 := rfl

variable [DecidableEq α]

instance (s : InsertionSet α) (a : α) : Decidable (a ∈ s) :=
  inferInstanceAs (Decidable (a ∈ s.elems))

/-- Put `a` at the end, unless it is there. -/
def add (s : InsertionSet α) (a : α) : InsertionSet α :=
  if h : a ∈ s then s
  else
    { elems := s.elems ++ [a]
      nodup := s.nodup.append (List.nodup_singleton a) (List.disjoint_singleton.mpr h) }

/-- Take `a` away. -/
def delete (s : InsertionSet α) (a : α) : InsertionSet α where
  elems := s.elems.erase a
  nodup := s.nodup.erase a

variable {s : InsertionSet α} {a b : α}

@[simp] theorem mem_add : b ∈ s.add a ↔ b = a ∨ b ∈ s := by
  unfold add
  split
  · case _ h =>
    constructor
    · exact .inr
    · rintro (rfl | hb)
      · exact h
      · exact hb
  · rw [← mem_elems, List.mem_append, List.mem_singleton, mem_elems]
    exact or_comm

@[simp] theorem mem_delete : b ∈ s.delete a ↔ b ≠ a ∧ b ∈ s := s.nodup.mem_erase_iff

/-- A new element adds one. -/
theorem size_add (h : a ∉ s) : (s.add a).size = s.size + 1 := by
  rw [add, dif_neg h, size, List.length_append, List.length_singleton, size]

/-- An element that is deleted takes one away. -/
theorem size_delete (h : a ∈ s) : (s.delete a).size = s.size - 1 := List.length_erase_of_mem h

end InsertionSet

end LineProof
