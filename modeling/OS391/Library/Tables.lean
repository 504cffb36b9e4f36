import Mathlib.Logic.Function.Basic
import Mathlib.Tactic.Common

/-! Tables with entries that are modified one by one, loops over a range of entries, and the first
match of a search. -/

namespace Library.Tables

variable {α : Type}

def modify (t : Nat → α) (i : Nat) (f : α → α) : Nat → α := Function.update t i (f (t i))

@[simp] theorem modify_self (t : Nat → α) (i : Nat) (f : α → α) : modify t i f i = f (t i) :=
  Function.update_self ..

theorem modify_of_ne (t : Nat → α) {i v : Nat} (f : α → α) (h : v ≠ i) : modify t i f v = t v :=
  Function.update_of_ne h ..

theorem modify_apply (t : Nat → α) (i : Nat) (f : α → α) (v : Nat) :
    modify t i f v = if v = i then f (t v) else t v := by
  by_cases h : v = i
  · rw [if_pos h, h, modify_self]
  · rw [if_neg h, modify_of_ne t f h]

/-- A loop over entries `lo`, `lo + 1`, … modifies each of them once. -/
theorem foldl_range (f : Nat → α → α) (lo n : Nat) (t : Nat → α) (v : Nat) :
    (List.range' lo n).foldl (fun t i => modify t i (f i)) t v =
      if lo ≤ v ∧ v < lo + n then f v (t v) else t v := by
  induction n generalizing lo t with
  | zero =>
    rw [if_neg (by omega)]
    rfl
  | succ n ih =>
    rw [List.range'_succ, List.foldl_cons, ih]
    by_cases h : v = lo
    · subst h
      rw [if_neg (by omega), if_pos (by omega), modify_self]
    · rw [modify_of_ne t _ h]
      congr 1
      simp only [eq_iff_iff]
      omega

/-- In a sorted list, `find?` finds the least. -/
theorem find?_least {l : List Nat} (hl : l.Pairwise (· < ·)) {p : Nat → Bool} {i j : Nat}
    (h : l.find? p = some i) (hj : j ∈ l) (hji : j < i) : p j = false := by
  obtain ⟨-, before, behind, rfl, hbefore⟩ := List.find?_eq_some_iff_append.mp h
  obtain ⟨-, hbehind, -⟩ := List.pairwise_append.mp hl
  rcases List.mem_append.mp hj with hj | hj
  · simpa using hbefore j hj
  · obtain rfl | hj := List.mem_cons.mp hj
    · exact absurd hji (Nat.lt_irrefl j)
    · exact absurd ((List.pairwise_cons.mp hbehind).1 j hj) (Nat.lt_asymm hji)

end Library.Tables
