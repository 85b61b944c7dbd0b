/-
Lists that hold a function on their indices.

Loops that update a vector in place are followed through the function: a lookup
is an application and a write is an update.
-/
import Mathlib.Data.List.Basic

namespace Table

variable {α β : Type} {n : Nat} {f g : Nat → α}

/-- The values of `f` at the indices below `n`. -/
def table (n : Nat) (f : Nat → α) : List α := (List.range n).map f

@[simp] theorem length_table (n : Nat) (f : Nat → α) : (table n f).length = n := by
  rw [table, List.length_map, List.length_range]

theorem getElem?_table (n : Nat) (f : Nat → α) (i : Nat) :
    (table n f)[i]? = if i < n then some (f i) else none := by
  rw [table, List.getElem?_map]
  by_cases h : i < n
  · rw [if_pos h, List.getElem?_range h, Option.map_some]
  · rw [if_neg h, List.getElem?_eq_none (by rw [List.length_range]; omega), Option.map_none]

theorem getElem?_table_of_lt {i : Nat} (h : i < n) : (table n f)[i]? = some (f i) := by
  rw [getElem?_table, if_pos h]

theorem table_congr (h : ∀ i < n, f i = g i) : table n f = table n g := by
  refine List.map_congr_left fun i hi => h i ?_
  rwa [List.mem_range] at hi

theorem replicate_eq_table (n : Nat) (a : α) : List.replicate n a = table n fun _ => a := by
  rw [table, List.map_const', List.length_range]

theorem set_table (f : Nat → α) (i : Nat) (a : α) :
    (table n f).set i a = table n (Function.update f i a) := by
  apply List.ext_getElem?
  intro j
  rw [List.getElem?_set, getElem?_table, getElem?_table, length_table]
  by_cases hij : i = j
  · subst hij
    rw [if_pos rfl, Function.update_self]
  · rw [if_neg hij, Function.update_of_ne (Ne.symm hij)]

theorem any_table (n : Nat) (f : Nat → α) (p : α → Bool) :
    (table n f).any p = true ↔ ∃ i < n, p (f i) = true := by
  rw [table, List.any_map, List.any_eq_true]
  simp only [List.mem_range, Function.comp_apply]

end Table
