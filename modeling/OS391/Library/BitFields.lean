import Mathlib.Tactic.Common

/-! Bit fields of a word: what is read from a field after a field is written. -/

namespace Library.BitFields

/-- Bits `lo`, `lo + 1`, … of a word, `width` of them. -/
structure Field (w : Nat) where
  lo : Nat
  width : Nat
  fits : lo + width ≤ w

namespace Field

variable {w : Nat}

def get (f : Field w) (x : BitVec w) : BitVec f.width := x.extractLsb' f.lo f.width

/-- `x` with the field replaced. -/
def put (f : Field w) (v : BitVec f.width) (x : BitVec w) : BitVec w :=
  (x &&& ~~~((BitVec.allOnes f.width).setWidth w <<< f.lo)) ||| (v.setWidth w <<< f.lo)

theorem getLsbD_get (f : Field w) (x : BitVec w) (i : Nat) :
    (f.get x).getLsbD i = (decide (i < f.width) && x.getLsbD (f.lo + i)) :=
  BitVec.getLsbD_extractLsb' ..

theorem getLsbD_put (f : Field w) (v : BitVec f.width) (x : BitVec w) (i : Nat) :
    (f.put v x).getLsbD i =
      if f.lo ≤ i ∧ i < f.lo + f.width then v.getLsbD (i - f.lo) else x.getLsbD i := by
  have hfits := f.fits
  unfold put
  simp only [BitVec.getLsbD_or, BitVec.getLsbD_and, BitVec.getLsbD_not, BitVec.getLsbD_shiftLeft,
    BitVec.getLsbD_setWidth, BitVec.getLsbD_allOnes]
  by_cases hin : f.lo ≤ i ∧ i < f.lo + f.width
  · rw [if_pos hin]
    have h1 : i < w := by omega
    have h2 : i - f.lo < w := by omega
    have h3 : i - f.lo < f.width := by omega
    simp [h1, h2, h3, Nat.not_lt.mpr hin.1]
  · rw [if_neg hin]
    by_cases hi : i < w
    · by_cases hlo : i < f.lo
      · simp [hi, hlo]
      · have h3 : ¬ i - f.lo < f.width := by omega
        simp [hi, h3, BitVec.getLsbD_of_ge v _ (Nat.not_lt.mp h3)]
    · simp [hi, BitVec.getLsbD_of_ge x i (Nat.not_lt.mp hi)]

@[simp] theorem get_put_self (f : Field w) (v : BitVec f.width) (x : BitVec w) :
    f.get (f.put v x) = v := by
  apply BitVec.eq_of_getLsbD_eq
  intro i hi
  rw [getLsbD_get, getLsbD_put, if_pos (by omega), decide_eq_true hi, Bool.true_and,
    Nat.add_sub_cancel_left]

/-- No bit is in both fields. -/
def Apart (f g : Field w) : Prop := f.lo + f.width ≤ g.lo ∨ g.lo + g.width ≤ f.lo

instance (f g : Field w) : Decidable (Apart f g) := inferInstanceAs (Decidable (_ ∨ _))

theorem get_put_of_apart {f g : Field w} (h : f.Apart g) (v : BitVec g.width) (x : BitVec w) :
    f.get (g.put v x) = f.get x := by
  apply BitVec.eq_of_getLsbD_eq
  intro i hi
  unfold Apart at h
  rw [getLsbD_get, getLsbD_get, getLsbD_put, if_neg (by omega)]

end Field

end Library.BitFields
