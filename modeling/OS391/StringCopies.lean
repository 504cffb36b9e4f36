import OS391.NumberFormat

/-! `strcpy` and `strncpy`: two loops that copy, and one that fills up with NULs. -/

namespace OS391.Lib
open Library.Runs Library.Bytes

/-- The memory that the loops write to, and their index. -/
structure Copying where
  mem : Nat → UInt8
  i : Nat

/-- `dest[i] = value; i++;` -/
def Copying.round (dest : Nat) (value : Copying → UInt8) (c : Copying) : Copying :=
  ⟨Function.update c.mem (dest + c.i) (value c), c.i + 1⟩

/-- `strcpy`, for strings that an `int32_t` can count. -/
def strcpy (m : Nat → UInt8) (dest src : Nat) : Option (Nat → UInt8) :=
  (whileLoop (fun c => c.mem (src + c.i) ≠ 0) (Copying.round dest fun c => c.mem (src + c.i))
    (2 ^ 31) ⟨m, 0⟩).map fun c => Function.update c.mem (dest + c.i) 0

/-- `strncpy`, for counts that an `int32_t` can hold. -/
def strncpy (m : Nat → UInt8) (dest src n : Nat) : Option (Nat → UInt8) :=
  (whileLoop (fun c => c.mem (src + c.i) ≠ 0 ∧ c.i < n)
    (Copying.round dest fun c => c.mem (src + c.i)) (2 ^ 31) ⟨m, 0⟩).bind fun c =>
  (whileLoop (fun c => c.i < n) (Copying.round dest fun _ => 0) (2 ^ 31) c).map Copying.mem

/-- The state of a copy of `from` after `i` rounds. -/
def copied (m : Nat → UInt8) (dest : Nat) (text : Nat → UInt8) (i : Nat) : Copying :=
  ⟨blit m dest text i, i⟩

theorem copied_zero (m : Nat → UInt8) (dest : Nat) (text : Nat → UInt8) :
    copied m dest text 0 = ⟨m, 0⟩ :=
  congrArg (Copying.mk · 0) (blit_zero m dest text)

theorem round_copied {m : Nat → UInt8} {dest : Nat} {text : Nat → UInt8} {i : Nat}
    {value : Copying → UInt8} (h : value (copied m dest text i) = text i) :
    (copied m dest text i).round dest value = copied m dest text (i + 1) := by
  unfold Copying.round
  rw [h]
  exact congrArg (Copying.mk · (i + 1)) (blit_snoc m dest text i)

/-- Copying upwards: a byte is not written before it is read. -/
theorem copied_read {m : Nat → UInt8} {dest src i : Nat} {text : Nat → UInt8}
    (h : dest ≤ src ∨ src + i < dest) : (copied m dest text i).mem (src + i) = m (src + i) := by
  unfold copied blit
  exact if_neg (by omega)

/-! ## The two functions -/

/-- **strcpy.** Where no byte of the string is written before it is read, `strcpy` writes the
string and its NUL to `dest`, and nothing else. -/
theorem strcpy_copies {m : Nat → UInt8} {dest src n : Nat} (hbytes : ∀ i < n, m (src + i) ≠ 0)
    (hnul : m (src + n) = 0) (hn : n < 2 ^ 31) (hapart : dest ≤ src ∨ src + n < dest) :
    strcpy m dest src = some (blit m dest (fun i => m (src + i)) (n + 1)) := by
  generalize htext : (fun i => m (src + i)) = text
  have hread : ∀ i, i ≤ n → (copied m dest text i).mem (src + i) = m (src + i) :=
    fun i hi => copied_read (by omega)
  have hcond : ∀ i, 0 ≤ i → i ≤ n →
      decide ((copied m dest text i).mem (src + (copied m dest text i).i) ≠ 0) =
        decide (i < n) := by
    intro i _ hi
    rw [decide_eq_decide, show (copied m dest text i).i = i from rfl, hread i hi]
    rcases Nat.eq_or_lt_of_le hi with rfl | hlt
    · exact iff_of_false (not_not.mpr hnul) (Nat.lt_irrefl i)
    · exact iff_of_true (hbytes i hlt) hlt
  have hloop : whileLoop (fun c : Copying => c.mem (src + c.i) ≠ 0)
      (Copying.round dest fun c => c.mem (src + c.i)) (2 ^ 31) (copied m dest text 0) =
        some (copied m dest text n) :=
    whileLoop_counted (copied m dest text) (Nat.zero_le n) hn hcond
      fun i _ hi => round_copied ((hread i (Nat.le_of_lt hi)).trans (congrFun htext i))
  rw [copied_zero] at hloop
  rw [strcpy, hloop, Option.map_some, ← blit_snoc, ← congrFun htext n, hnul]
  rfl

/-- A string of three characters, moved down by one byte. -/
theorem strcpy_copies_down : ∃ m : Nat → UInt8,
    strcpy m 0 1 = some (blit m 0 (fun i => m (1 + i)) 4) :=
  ⟨fun i => if i < 4 then 97 else 0,
    strcpy_copies (by decide) (by decide) (by decide) (.inl (by decide))⟩

/-- **strncpy.** `strncpy` writes exactly `count` bytes: the first `n` of the string, as many as
there are, and NULs after them. A string of `count` bytes or more gets no NUL. -/
theorem strncpy_pads {m : Nat → UInt8} {dest src n count : Nat}
    (hbytes : ∀ i < n, m (src + i) ≠ 0) (hn : n ≤ count) (hend : n = count ∨ m (src + n) = 0)
    (hcount : count < 2 ^ 31) (hapart : dest ≤ src ∨ src + count ≤ dest) :
    strncpy m dest src count =
      some (blit m dest (fun i => if i < n then m (src + i) else 0) count) := by
  generalize htext : (fun i => if i < n then m (src + i) else 0) = text
  have hbefore : ∀ i, i < n → text i = m (src + i) := by
    intro i hi
    rw [← htext]
    exact if_pos hi
  have hafter : ∀ i, n ≤ i → text i = 0 := by
    intro i hi
    rw [← htext]
    exact if_neg (Nat.not_lt.mpr hi)
  have hcond : ∀ i, 0 ≤ i → i ≤ n →
      decide ((copied m dest text i).mem (src + (copied m dest text i).i) ≠ 0 ∧
        (copied m dest text i).i < count) = decide (i < n) := by
    intro i _ hi
    rw [decide_eq_decide, show (copied m dest text i).i = i from rfl]
    rcases Nat.eq_or_lt_of_le hi with rfl | hlt
    · refine iff_of_false ?_ (Nat.lt_irrefl i)
      rintro ⟨hne, hroom⟩
      rw [copied_read (by omega)] at hne
      exact hend.elim (Nat.ne_of_lt hroom) hne
    · rw [copied_read (by omega)]
      exact iff_of_true ⟨hbytes i hlt, Nat.lt_of_lt_of_le hlt hn⟩ hlt
  have hcopy : whileLoop (fun c : Copying => c.mem (src + c.i) ≠ 0 ∧ c.i < count)
      (Copying.round dest fun c => c.mem (src + c.i)) (2 ^ 31) (copied m dest text 0) =
        some (copied m dest text n) :=
    whileLoop_counted (copied m dest text) (Nat.zero_le n) (by omega) hcond
      fun i _ hi => round_copied ((copied_read (by omega)).trans (hbefore i hi).symm)
  have hfill : whileLoop (fun c : Copying => c.i < count) (Copying.round dest fun _ => 0)
      (2 ^ 31) (copied m dest text n) = some (copied m dest text count) :=
    whileLoop_counted (copied m dest text) hn (by omega) (fun _ _ _ => rfl)
      fun i hi _ => round_copied (hafter i hi).symm
  rw [copied_zero] at hcopy
  rw [strncpy, hcopy, Option.bind_some, hfill]
  rfl

/-- Two characters and a NUL into five bytes. -/
theorem strncpy_pads_five : ∃ m : Nat → UInt8,
    strncpy m 8 0 5 = some (blit m 8 (fun i => if i < 2 then m (0 + i) else 0) 5) :=
  ⟨fun i => if i < 2 then 97 else 0,
    strncpy_pads (by decide) (by decide) (.inr (by decide)) (by decide) (.inr (by decide))⟩

end OS391.Lib
