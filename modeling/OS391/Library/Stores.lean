import OS391.Library.Bytes

/-! The stores of a piece of code as a list of addresses and values, in the order in which
they are made: what the memory is after them, and which addresses they touch. -/

namespace Library.Stores
open Library.Bytes

variable {β : Type}

/-- The memory after some stores. -/
def put (m : Nat → β) (stores : List (Nat × β)) : Nat → β :=
  stores.foldl (fun m st => Function.update m st.1 st.2) m

@[simp] theorem put_nil (m : Nat → β) : put m [] = m := rfl

@[simp] theorem put_cons (m : Nat → β) (st : Nat × β) (l : List (Nat × β)) :
    put m (st :: l) = put (Function.update m st.1 st.2) l := rfl

theorem put_append (m : Nat → β) (l l' : List (Nat × β)) : put m (l ++ l') = put (put m l) l' :=
  List.foldl_append

/-- `n` cells of `src` stored from address `a` on, in ascending order. -/
def copy (a : Nat) (src : Nat → β) (n : Nat) : List (Nat × β) :=
  (List.range n).map fun i => (a + i, src i)

theorem copy_succ (a : Nat) (src : Nat → β) (n : Nat) :
    copy a src (n + 1) = copy a src n ++ [(a + n, src n)] := by
  simp [copy, List.range_succ]

theorem copy_cons (a : Nat) (b d : β) (l : List β) :
    copy a (fun j => (b :: l).getD j d) (b :: l).length =
      (a, b) :: copy (a + 1) (fun j => l.getD j d) l.length := by
  unfold copy
  rw [List.length_cons, List.range_succ_eq_map, List.map_cons, List.map_map]
  refine congrArg (List.cons _) (List.map_congr_left fun j _ => ?_)
  simp [Nat.add_assoc, Nat.add_comm 1]

theorem put_copy (m : Nat → β) (a : Nat) (src : Nat → β) (n : Nat) :
    put m (copy a src n) = blit m a src n := by
  induction n with
  | zero => exact (blit_zero m a src).symm
  | succ n ih =>
    rw [copy_succ, put_append, ih]
    funext i
    show Function.update (blit m a src n) (a + n) (src n) i = blit m a src (n + 1) i
    unfold blit
    by_cases hi : i = a + n
    · rw [hi, Function.update_self, if_pos (by omega), Nat.add_sub_cancel_left]
    · rw [Function.update_of_ne hi]
      exact if_congr (by omega) rfl rfl

theorem put_const (m : Nat → β) (a : Nat) (v : β) (n : Nat) :
    put m (copy a (fun _ => v) n) = fill m a n v := put_copy m a (fun _ => v) n

/-- What is at hand after a copy and a store behind it. -/
theorem window_put_string (m : Nat → β) (a : Nat) (src : Nat → β) (k rest : Nat) (v : β) :
    window (put m (copy a src k ++ [(a + k, v)])) a (k + (1 + rest)) =
      window src 0 k ++ ([v] ++ window m (a + k + 1) rest) := by
  rw [put_append, put_copy, put_cons, put_nil, window_add, window_add]
  congr 1
  · refine window_congr fun i hi => ?_
    rw [Function.update_of_ne (by dsimp only; omega), blit, if_pos (by omega),
      Nat.add_sub_cancel_left, Nat.zero_add]
  · congr 1
    · exact congrArg (fun b => [b]) (Function.update_self ..)
    · refine window_congr fun i hi => ?_
      rw [Function.update_of_ne (by dsimp only; omega), blit, if_neg (by omega)]

/-! ## Addresses -/

/-- All stores are to the `n` cells from `a` on. -/
def Within (stores : List (Nat × β)) (a n : Nat) : Prop := ∀ st ∈ stores, a ≤ st.1 ∧ st.1 < a + n

instance (stores : List (Nat × β)) (a n : Nat) : Decidable (Within stores a n) :=
  inferInstanceAs (Decidable (∀ st ∈ stores, a ≤ st.1 ∧ st.1 < a + n))

theorem within_append {l l' : List (Nat × β)} {a n : Nat} :
    Within (l ++ l') a n ↔ Within l a n ∧ Within l' a n := List.forall_mem_append

theorem within_single {st : Nat × β} {a n : Nat} :
    Within [st] a n ↔ a ≤ st.1 ∧ st.1 < a + n := by
  simp [Within]

theorem within_copy {src : Nat → β} {a n b k : Nat} :
    Within (copy b src k) a n ↔ k = 0 ∨ a ≤ b ∧ b + k ≤ a + n := by
  unfold Within copy
  rw [List.forall_mem_map]
  constructor
  · intro h
    rcases Nat.eq_zero_or_pos k with h0 | hpos
    · exact .inl h0
    · have hfirst := h 0 (List.mem_range.mpr hpos)
      have hlast := h (k - 1) (List.mem_range.mpr (by omega))
      exact .inr (by omega)
  · intro h i hi
    have hik := List.mem_range.mp hi
    dsimp only
    omega

end Library.Stores
