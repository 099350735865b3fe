import Mathlib.Algebra.BigOperators.Group.Finset.Sigma
import Mathlib.Algebra.Order.BigOperators.Group.Multiset
import Mathlib.Data.Finmap
import Mathlib.Tactic.Abel

/-!
# Sums over finite maps

`weight w m` adds up `w a b` over the entries `(a, b)` of a finite map. Writing one entry changes the
sum by the difference of the new and the old weight at that key, which is how a running total kept
beside a map is verified.
-/

namespace Finmap

variable {α β M : Type*}

/-- The sum of `w` over the entries of `m`. -/
def weight [AddCommMonoid M] (w : α → β → M) (m : Finmap fun _ : α => β) : M :=
  (m.entries.map fun e => w e.1 e.2).sum

section Monoid

variable [AddCommMonoid M] {w : α → β → M} {m : Finmap fun _ : α => β} {a : α} {b b' : β}

variable [DecidableEq α]

/-- A new key adds its weight. -/
theorem weight_insert_of_notMem (h : a ∉ m) : weight w (m.insert a b) = w a b + weight w m := by
  rw [weight, entries_insert_of_notMem h, Multiset.map_cons, Multiset.sum_cons, weight]

/-- A fresh entry adds its weight. -/
theorem weight_insert_fresh (h : m.lookup a = none) :
    weight w (m.insert a b) = w a b + weight w m :=
  weight_insert_of_notMem (lookup_eq_none.mp h)

/-- Taking an entry out of the sum. -/
theorem weight_eq_add_erase (h : m.lookup a = some b) :
    weight w m = w a b + weight w (m.erase a) := by
  -- erasing an entry and writing it back changes nothing
  have hm : (m.erase a).insert a b = m := by
    apply ext_lookup
    intro i
    by_cases hi : i = a
    · rw [hi, lookup_insert, h]
    · rw [lookup_insert_of_ne _ hi, lookup_erase_ne hi]
  conv_lhs => rw [← hm]
  exact weight_insert_of_notMem notMem_erase_self

/-- Overwriting an entry exchanges its weight. -/
theorem weight_insert_of_lookup (h : m.lookup a = some b) :
    weight w (m.insert a b') + w a b = weight w m + w a b' := by
  have hm : (m.insert a b').erase a = m.erase a := by
    apply ext_lookup
    intro i
    by_cases hi : i = a
    · rw [hi, lookup_erase, lookup_erase]
    · rw [lookup_erase_ne hi, lookup_erase_ne hi, lookup_insert_of_ne _ hi]
  rw [weight_eq_add_erase (lookup_insert m), hm, weight_eq_add_erase h]
  abel

/-- Writing an entry exchanges the weight at its key, where an absent entry weighs nothing. -/
theorem weight_insert (w : α → β → M) (m : Finmap fun _ : α => β) (a : α) (b : β) :
    weight w (m.insert a b) + (m.lookup a).elim 0 (w a) = weight w m + w a b := by
  cases h : m.lookup a with
  | none => rw [weight_insert_fresh h, Option.elim_none, add_zero, add_comm]
  | some b' => rw [Option.elim_some, weight_insert_of_lookup h]

/-- The sum as a sum over the keys. -/
theorem weight_eq_sum_keys (w : α → β → M) (m : Finmap fun _ : α => β) :
    weight w m = ∑ a ∈ m.keys, ∑ b ∈ (m.lookup a).toFinset, w a b := by
  rw [Finset.sum_sigma', sigma_keys_lookup]
  rfl

end Monoid

section Ordered

variable [DecidableEq α] [AddCommMonoid M] [PartialOrder M] [IsOrderedAddMonoid M] {w : α → β → M}
  {m : Finmap fun _ : α => β} {a : α} {b : β}

/-- A sum of weights that are not negative is not negative. -/
theorem weight_nonneg (h : ∀ a b, m.lookup a = some b → 0 ≤ w a b) : 0 ≤ weight w m := by
  apply Multiset.sum_nonneg
  intro x hx
  obtain ⟨e, he, rfl⟩ := Multiset.mem_map.mp hx
  exact h e.1 e.2 (lookup_eq_some_iff.mpr he)

/-- One entry weighs at most as much as all of them. -/
theorem le_weight (h : ∀ a b, m.lookup a = some b → 0 ≤ w a b) (hb : m.lookup a = some b) :
    w a b ≤ weight w m := by
  rw [weight_eq_add_erase hb]
  refine le_add_of_nonneg_right (weight_nonneg fun i c hi => ?_)
  by_cases hia : i = a
  · rw [hia, lookup_erase] at hi
    contradiction
  · rw [lookup_erase_ne hia] at hi
    exact h i c hi

end Ordered

end Finmap
