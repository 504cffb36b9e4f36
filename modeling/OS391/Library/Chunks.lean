import Mathlib.Data.Nat.Find
import OS391.Library.Bytes

/-! A sequence read in chunks: a reader at position `p` that is asked for `n` cells
yields the `amount p n` cells from `p` on and moves on by as many. -/

namespace Library.Chunks
open Library.Bytes

variable {β : Type} (amount : Nat → Nat → Nat) (ns : Nat → Nat)

/-- The position before the `k`-th chunk, where chunk `j` is asked for with size `ns j`. -/
def position : Nat → Nat
  | 0 => 0
  | k + 1 => position k + amount (position k) (ns k)

/-- The sizes of the first `k` chunks together. -/
def total : Nat → Nat
  | 0 => 0
  | k + 1 => total k + ns k

theorem position_mono {j k : Nat} (h : j ≤ k) : position amount ns j ≤ position amount ns k := by
  induction h with
  | refl => exact Nat.le_refl _
  | step _ ih => exact Nat.le_trans ih (Nat.le_add_right _ _)

theorem total_lt (hns : ∀ k, 0 < ns k) {j k : Nat} (h : j < k) : total ns j < total ns k := by
  induction h with
  | refl => exact Nat.lt_add_of_pos_right (hns j)
  | step _ ih => exact Nat.lt_of_lt_of_le ih (Nat.le_add_right _ _)

/-- The chunks follow one another without a gap. -/
theorem flatMap_chunks (f : Nat → β) (k : Nat) :
    ((List.range k).flatMap fun j =>
      window f (position amount ns j) (amount (position amount ns j) (ns j))) =
      window f 0 (position amount ns k) := by
  induction k with
  | zero => rfl
  | succ k ih =>
    rw [List.range_succ, List.flatMap_append, ih, position, window_add]
    simp

variable {amount ns} {len : Nat}

/-- At the end a reader stays where it is. -/
theorem position_of_end (hend : ∀ p n, len ≤ p → amount p n = 0) {j k : Nat} (hjk : j ≤ k)
    (hj : len ≤ position amount ns j) : position amount ns k = position amount ns j := by
  induction hjk with
  | refl => rfl
  | step _ ih => rw [position, ih, hend _ _ hj, Nat.add_zero]

/-- Before the end it moves with every chunk, so the end comes. -/
theorem exists_end (hpos : ∀ p n, p < len → 0 < n → 0 < amount p n) (hns : ∀ k, 0 < ns k) :
    ∃ k, len ≤ position amount ns k ∧ ∀ j < k, position amount ns j < len := by
  have hgrow : ∀ k, len ≤ position amount ns k ∨ k ≤ position amount ns k := by
    intro k
    induction k with
    | zero => exact .inr (Nat.zero_le _)
    | succ k ih =>
      by_cases hlt : position amount ns k < len
      · have hstep := hpos _ _ hlt (hns k)
        simp only [position]
        omega
      · have hmono := position_mono amount ns (Nat.le_add_right k 1)
        omega
  have hex : ∃ k, len ≤ position amount ns k := ⟨len, (hgrow len).elim id id⟩
  classical
  exact ⟨Nat.find hex, Nat.find_spec hex, fun j hj => Nat.lt_of_not_le (Nat.find_min hex hj)⟩

/-- A reader that yields `min n len` cells wherever it is before the end stops exactly at
the end if and only if the first chunk covers everything or some chunks add up to it. -/
theorem position_eq_len_iff (hns : ∀ k, 0 < ns k)
    (hamount : ∀ p n, amount p n = if len ≤ p then 0 else min n len) :
    (∃ k, position amount ns k = len) ↔ len ≤ ns 0 ∨ ∃ k, total ns k = len := by
  constructor
  · rintro ⟨k, hk⟩
    by_cases hfirst : len ≤ ns 0
    · exact .inl hfirst
    right
    -- up to the end every chunk is delivered in full
    have hfull : ∀ j, position amount ns j ≤ len →
        position amount ns j = total ns j ∨ ∃ m, total ns m = len := by
      intro j
      induction j with
      | zero => exact fun _ => .inl rfl
      | succ j ih =>
        intro hle
        have hmono := position_mono amount ns (Nat.le_add_right j 1)
        rcases ih (Nat.le_trans hmono hle) with hj | hm
        · by_cases hend : len ≤ position amount ns j
          · exact .inr ⟨j, by omega⟩
          · simp only [position, hamount, if_neg hend] at hle ⊢
            rcases Nat.eq_zero_or_pos j with rfl | hpos
            · exact .inl (by simp only [total, position]; omega)
            · have h0 := total_lt ns hns hpos
              simp only [total] at h0 ⊢
              omega
        · exact .inr hm
    rcases hfull k (Nat.le_of_eq hk) with hk' | hm
    · exact ⟨k, hk'.symm.trans hk⟩
    · exact hm
  · rintro (hfirst | ⟨k, hk⟩)
    · rcases Nat.eq_zero_or_pos len with rfl | hpos
      · exact ⟨0, rfl⟩
      · refine ⟨1, ?_⟩
        simp only [position, hamount]
        rw [if_neg (by omega)]
        omega
    · refine ⟨k, ?_⟩
      have heq : ∀ j, j ≤ k → position amount ns j = total ns j := by
        intro j
        induction j with
        | zero => exact fun _ => rfl
        | succ j ih =>
          intro hj
          have hlt := total_lt ns hns hj
          have hnext : total ns (j + 1) ≤ len := by
            rcases Nat.lt_or_eq_of_le hj with hj | hj
            · exact hk ▸ Nat.le_of_lt (total_lt ns hns hj)
            · exact hk ▸ hj ▸ Nat.le_refl _
          simp only [total] at hnext ⊢
          simp only [position, hamount, ih (by omega)]
          rw [if_neg (by omega)]
          omega
      rw [heq k (Nat.le_refl k), hk]

end Library.Chunks
