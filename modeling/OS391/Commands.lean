import OS391.Arguments
import OS391.Executables
import OS391.Library.Stores

/-! The two loops with which `verify_file` takes a command apart, store by store. -/

namespace OS391
open Library Library.Runs Library.Bytes Library.Stores

namespace Kernel

/-- The loop that copies the name to `inFile`, from index `i` on, where `text` is what is
left of the command; and the sentinel behind the name. -/
def nameLoop : List UInt8 → Nat → List (Nat × UInt8)
  | [], i => [(i, 0)]
  | b :: text, i => if b = space then [(i, 0)] else (i, b) :: nameLoop text (i + 1)

/-- The loop that copies the arguments to `argBuf`, from the place in the command that the
first loop has left, with `argSize` bytes copied. -/
def argLoop : List UInt8 → Nat → List (Nat × UInt8)
  | [], _ => []
  | b :: cmd, argSize =>
    if b = 0 then []
    else if b = space then argLoop cmd argSize
    else (argSize, b) :: argLoop cmd (argSize + 1)

/-- What `verify_file` stores to a buffer before and in its loop. -/
def inFileStores (cmd : List UInt8) : List (Nat × UInt8) :=
  copy 0 (fun _ => 0) cmdLimit ++ nameLoop (cString cmd) 0

def argBufStores (cmd : List UInt8) : List (Nat × UInt8) :=
  copy 0 (fun _ => 0) cmdLimit ++ argLoop (cmd.drop (firstWord cmd).length) 0

/-! ## What the loops copy -/

theorem nameLoop_eq (text : List UInt8) (i : Nat) :
    nameLoop text i =
      copy i (fun j => (text.takeWhile (· ≠ space)).getD j 0)
        (text.takeWhile (· ≠ space)).length ++
      [(i + (text.takeWhile (· ≠ space)).length, 0)] := by
  induction text generalizing i with
  | nil => rfl
  | cons b text ih =>
    unfold nameLoop
    by_cases hb : b = space
    · rw [if_pos hb, List.takeWhile_cons_of_neg (by simpa using hb)]
      rfl
    · rw [if_neg hb, List.takeWhile_cons_of_pos (by simpa using hb), ih, copy_cons,
        List.length_cons, List.cons_append, Nat.add_assoc i 1, Nat.add_comm 1]

theorem argLoop_eq (cmd : List UInt8) (argSize : Nat) :
    argLoop cmd argSize =
      copy argSize (fun j => ((cString cmd).filter (· ≠ space)).getD j 0)
        ((cString cmd).filter (· ≠ space)).length := by
  induction cmd generalizing argSize with
  | nil => rfl
  | cons b cmd ih =>
    unfold argLoop
    by_cases h0 : b = 0
    · rw [if_pos h0, h0, cString_nul]
      rfl
    · rw [if_neg h0, cString_cons h0]
      by_cases hb : b = space
      · rw [if_pos hb, List.filter_cons_of_neg (by simpa using hb), ih]
      · rw [if_neg hb, List.filter_cons_of_pos (by simpa using hb), ih, copy_cons]

/-- The second loop goes on where the first one has stopped. -/
theorem cString_drop (p : UInt8 → Bool) (cmd : List UInt8) :
    cString (cmd.drop ((cString cmd).takeWhile p).length) = (cString cmd).dropWhile p := by
  induction cmd with
  | nil => rfl
  | cons b cmd ih =>
    by_cases h0 : b = 0
    · rw [h0, cString_nul]
      rfl
    · rw [cString_cons h0]
      by_cases hp : p b = true
      · rw [List.takeWhile_cons_of_pos hp, List.dropWhile_cons_of_pos hp]
        exact ih
      · rw [List.takeWhile_cons_of_neg hp, List.dropWhile_cons_of_neg hp]
        exact cString_cons h0 cmd

theorem argBufStores_eq (cmd : List UInt8) :
    argBufStores cmd = copy 0 (fun _ => 0) cmdLimit ++
      copy 0 (fun j => (textArgs cmd).getD j 0) (textArgs cmd).length := by
  rw [argBufStores, argLoop_eq, firstWord, cString_drop]
  rfl

theorem inFileStores_eq (cmd : List UInt8) :
    inFileStores cmd = copy 0 (fun _ => 0) cmdLimit ++
      (copy 0 (fun j => (firstWord cmd).getD j 0) (firstWord cmd).length ++
        [((firstWord cmd).length, 0)]) := by
  rw [inFileStores, nameLoop_eq, Nat.zero_add]
  rfl

/-! ## The buffers -/

theorem inFileStores_within (cmd : List UInt8) :
    Within (inFileStores cmd) 0 cmdLimit ↔ (firstWord cmd).length < cmdLimit := by
  rw [inFileStores_eq, within_append, within_append, within_copy, within_copy, within_single]
  simp only [cmdLimit]
  omega

theorem argBufStores_within (cmd : List UInt8) :
    Within (argBufStores cmd) 0 cmdLimit ↔ (textArgs cmd).length ≤ cmdLimit := by
  rw [argBufStores_eq, within_append, within_copy, within_copy]
  simp only [cmdLimit]
  omega

/-- Whatever `inFile` holds on entry, the loops leave the name, padded with NULs. -/
theorem inFile_stored {cmd : List UInt8} (h : (firstWord cmd).length < cmdLimit)
    (m : Nat → UInt8) :
    window (put m (inFileStores cmd)) 0 cmdLimit = inFile (cString cmd) := by
  have hname : inFile (cString cmd) =
      firstWord cmd ++ List.replicate (cmdLimit - (firstWord cmd).length) 0 := rfl
  obtain ⟨rest, hrest⟩ : ∃ rest, cmdLimit = (firstWord cmd).length + (1 + rest) :=
    ⟨cmdLimit - (firstWord cmd).length - 1, by omega⟩
  have hstring := window_put_string (fill m 0 cmdLimit 0) 0
    (fun j => (firstWord cmd).getD j 0) (firstWord cmd).length rest 0
  have hword : window (fun j => (firstWord cmd).getD j 0) 0 (firstWord cmd).length =
      firstWord cmd := by
    rw [← take_eq_window (Nat.le_refl _) fun _ => 0, List.take_length]
  have hclear : window (fill m 0 cmdLimit 0) (0 + (firstWord cmd).length + 1) rest =
      List.replicate rest 0 :=
    window_fill_within m 0 (by omega) (by omega)
  rw [Nat.zero_add, ← hrest, hword] at hstring
  rw [Nat.zero_add] at hclear
  rw [inFileStores_eq, put_append, put_const, hstring, hclear, hname, hrest,
    Nat.add_sub_cancel_left, Nat.add_comm 1 rest, List.replicate_succ]
  rfl

/-- `argBuf` is left as `withArgs` has it. -/
theorem argBuf_stored (s : Kernel) (cmd : List UInt8) :
    put s.argBuf (argBufStores cmd) = (s.withArgs (textArgs cmd)).argBuf := by
  rw [argBufStores_eq, put_append, put_const, put_copy]
  rfl

/-- **The buffers of `verify_file`.** For a command of any length it stores only to the 129
bytes of `inFile` and the 129 of `argBuf` if and only if the first word has at most 128
bytes, and what follows it at most 129 that are not spaces. -/
theorem verifyFile_within_iff {cmd : List UInt8} {n : Nat} (hn : strlen cmd = some n) :
    (Within (inFileStores cmd) 0 cmdLimit ∧ Within (argBufStores cmd) 0 cmdLimit) ↔
      ((cmd.take n).takeWhile (· ≠ space)).length ≤ 128 ∧
        (((cmd.take n).dropWhile (· ≠ space)).filter (· ≠ space)).length ≤ 129 := by
  have htext : cmd.take n = cString cmd := strlen_take hn
  rw [inFileStores_within, argBufStores_within, htext]
  exact and_congr_left' Nat.lt_succ_iff

theorem verifyFile_within_iff_shell :
    Within (inFileStores (cText "shell a b")) 0 cmdLimit ∧
      Within (argBufStores (cText "shell a b")) 0 cmdLimit := by
  have hlen : strlen (cText "shell a b") = some 9 := by decide
  exact (verifyFile_within_iff hlen).mpr (by decide)

/-- A first word of 129 bytes has its sentinel stored at index 129 of `inFile`. -/
theorem verifyFile_long_word :
    let cmd := List.replicate 129 97 ++ [0]
    strlen cmd = some 129 ∧ (129, 0) ∈ inFileStores cmd ∧
      ¬ Within (inFileStores cmd) 0 cmdLimit := by
  intro cmd
  decide +kernel

end Kernel

end OS391
