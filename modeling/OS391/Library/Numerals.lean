import Mathlib.Data.Nat.Digits.Lemmas

/-! Numbers in positional notation, with the most significant digit first, for any set of
digit symbols. -/

namespace Library.Numerals

variable {β : Type}

/-- The number that a text stands for. -/
def value (radix : Nat) (digit : β → Nat) (text : List β) : Nat :=
  text.foldl (fun n c => radix * n + digit c) 0

/-- The text for a number: its digits, or a zero. -/
def numeral (radix : Nat) (symbol : Nat → β) (n : Nat) : List β :=
  if n = 0 then [symbol 0] else ((Nat.digits radix n).map symbol).reverse

variable {radix n : Nat} {digit : β → Nat} {symbol : Nat → β}

theorem value_concat (text : List β) (c : β) :
    value radix digit (text ++ [c]) = radix * value radix digit text + digit c := by
  simp [value]

theorem value_reverse {ds : List Nat} (h : ∀ d ∈ ds, digit (symbol d) = d) :
    value radix digit (ds.map symbol).reverse = Nat.ofDigits radix ds := by
  induction ds with
  | nil => rfl
  | cons d ds ih =>
    obtain ⟨hd, hds⟩ := List.forall_mem_cons.mp h
    rw [List.map_cons, List.reverse_cons, value_concat, ih hds, hd, Nat.ofDigits_cons]
    exact Nat.add_comm _ _

theorem mem_numeral (hr : 1 < radix) {c : β} (h : c ∈ numeral radix symbol n) :
    ∃ d, d < radix ∧ c = symbol d := by
  unfold numeral at h
  split at h
  · exact ⟨0, by omega, List.mem_singleton.mp h⟩
  · obtain ⟨d, hd, rfl⟩ := List.mem_map.mp (List.mem_reverse.mp h)
    exact ⟨d, Nat.digits_lt_base hr hd, rfl⟩

theorem value_numeral (hr : 1 < radix) (h : ∀ d < radix, digit (symbol d) = d) :
    value radix digit (numeral radix symbol n) = n := by
  unfold numeral
  split
  · rename_i hn
    simp [value, h 0 (by omega), hn]
  · rw [value_reverse fun d hd => h d (Nat.digits_lt_base hr hd), Nat.ofDigits_digits]

theorem numeral_ne_nil : numeral radix symbol n ≠ [] := by
  unfold numeral
  split
  · exact List.cons_ne_nil _ _
  · rename_i hn
    simpa [Nat.digits_eq_nil_iff_eq_zero] using hn

theorem numeral_length_le (hr : 1 < radix) {k : Nat} (hk : 0 < k) (hn : n < radix ^ k) :
    (numeral radix symbol n).length ≤ k := by
  unfold numeral
  split
  · exact hk
  · rw [List.length_reverse, List.length_map]
    exact (Nat.digits_length_le_iff hr n).mpr hn

/-- The first digit of a number that is not zero is not zero. -/
theorem numeral_head (hr : 1 < radix) (hn : n ≠ 0) :
    ∃ d, 0 < d ∧ d < radix ∧ (numeral radix symbol n).head? = some (symbol d) := by
  have hne : Nat.digits radix n ≠ [] := Nat.digits_ne_nil_iff_ne_zero.mpr hn
  refine ⟨(Nat.digits radix n).getLast hne, ?_, ?_, ?_⟩
  · exact Nat.pos_of_ne_zero (Nat.getLast_digit_ne_zero radix hn)
  · exact Nat.digits_lt_base hr (List.getLast_mem hne)
  · rw [numeral, if_neg hn, List.head?_reverse, List.getLast?_map,
      List.getLast?_eq_some_getLast hne]
    rfl

/-- Zeros before a text do not change its value. -/
theorem value_zeros (hzero : digit (symbol 0) = 0) (k : Nat) (text : List β) :
    value radix digit (List.replicate k (symbol 0) ++ text) = value radix digit text := by
  induction k with
  | zero => rfl
  | succ k ih =>
    unfold value at ih ⊢
    rw [List.replicate_succ, List.cons_append, List.foldl_cons, hzero]
    exact ih

end Library.Numerals
