import OS391.Commands
import OS391.Executables

/-! A command taken apart by `verify_file` and handed out by `getargs`, and the bytes of
the caller's buffer that `getargs` touches. -/

namespace OS391
open Library Library.Runs Library.Bytes Library.Stores

namespace Kernel

/-! ## From the command to the buffer -/

/-- What `getargs` is to return for the rest of a command, where `mem` is mapped from the
caller's buffer on. -/
def ReturnsArgs (s : Kernel) (rest mem : List UInt8) : Prop :=
  ∃ r out, s.getargs (some mem) = some (r, out) ∧ (r = -1 ↔ ∀ b ∈ rest, b = space) ∧
    (r ≠ -1 → r = 0 ∧ rest.filter (· ≠ space) ++ [0] <+: out)

variable {s s' : Kernel} {args mem : List UInt8}

/-- `getargs` looks at nothing but the arguments. -/
theorem getargs_congr (h : s.ArgsAre args) (h' : s'.ArgsAre args) (buf : Option (List UInt8)) :
    s'.getargs buf = s.getargs buf := by
  have hbuffer : window s'.argBuf 0 cmdLimit = window s.argBuf 0 cmdLimit :=
    h'.buffer.trans h.buffer.symm
  cases buf with
  | none => rfl
  | some mem =>
    unfold getargs
    rw [h.size, h'.size, hbuffer]
    dsimp only
    split
    · rfl
    · refine Option.bind_congr fun n _ => Option.bind_congr fun k hk => ?_
      have hle := strlen_lt hk
      rw [window_length] at hle
      have hfirst : window s'.argBuf 0 k = window s.argBuf 0 k := by
        have htake := congrArg (List.take k) hbuffer
        rwa [window_take, window_take, Nat.min_eq_left (Nat.le_of_lt hle)] at htake
      rw [hfirst]

theorem getargs_none (h : s.ArgsAre []) (mem : List UInt8) :
    s.getargs (some mem) = some (-1, mem) := if_pos h.size

/-- Without a NUL in the memory from the buffer on, the search for its length leaves it. -/
theorem getargs_stuck (h : s.ArgsAre args) (hargs : args ≠ []) (hmem : 0 ∉ mem) :
    s.getargs (some mem) = none := by
  have hsize : s.argSize ≠ 0 := by
    rw [h.size]
    exact fun h0 => hargs (List.length_eq_zero_iff.mp h0)
  unfold getargs
  dsimp only
  rw [if_neg hsize, strlen_eq_none hmem, Option.bind_none]

theorem returnsArgs_iff {rest : List UInt8} (h : s.ArgsAre (rest.filter (· ≠ space)))
    (hnul : 0 ∉ rest) (hshort : (rest.filter (· ≠ space)).length < cmdLimit)
    (hroom : (rest.filter (· ≠ space)).length < mem.length) :
    s.ReturnsArgs rest mem ↔ (∀ b ∈ rest, b = space) ∨ 0 ∈ mem := by
  have hblank : rest.filter (· ≠ space) = [] ↔ ∀ b ∈ rest, b = space := by
    simp [List.filter_eq_nil_iff]
  by_cases hrest : rest.filter (· ≠ space) = []
  · rw [hrest] at h
    have hall := hblank.mp hrest
    exact iff_of_true ⟨-1, mem, getargs_none h mem, iff_of_true rfl hall,
      fun hr => absurd rfl hr⟩ (.inl hall)
  · rw [or_iff_right (mt hblank.mpr hrest)]
    constructor
    · rintro ⟨r, out, hcall, -⟩
      by_contra hmem
      rw [getargs_stuck h hrest hmem] at hcall
      cases hcall
    · intro hmem
      have hargs : 0 ∉ rest.filter (· ≠ space) := fun h0 => hnul (List.mem_filter.mp h0).1
      have hcall := getargs_eq h hargs hshort hmem hroom
      rw [argsReply, if_neg hrest] at hcall
      exact ⟨_, _, hcall, iff_of_false (by decide) (mt hblank.mpr hrest),
        fun _ => ⟨rfl, List.prefix_append _ _⟩⟩

/-- **A command and its arguments.** After `verify_file` has taken apart a command of at
most 128 bytes, in any state, `inFile` holds the first word, padded with NULs, whatever was
there; `getargs` does not depend on the state before; and in a buffer that is large enough
it returns what follows the first word, without the spaces, if and only if there is nothing
to return or the memory from the buffer on holds a NUL. -/
theorem command_getargs_iff (env : Env) {cmd : List UInt8} {n : Nat} (hn : strlen cmd = some n)
    (hle : n ≤ 128) (hbuf : env.fileBuf.length = 4) (s : Kernel) :
    let word := (cmd.take n).takeWhile (· ≠ space)
    let rest := (cmd.take n).dropWhile (· ≠ space)
    ∃ r s', verifyFile env cmd s = some (r, s') ∧
      (∀ m, window (put m (inFileStores cmd)) 0 cmdLimit =
        word ++ List.replicate (cmdLimit - word.length) 0) ∧
      (∀ env₁ s₁ r₁ s₁', verifyFile env₁ cmd s₁ = some (r₁, s₁') →
        ∀ buf, s₁'.getargs buf = s'.getargs buf) ∧
      ∀ mem, (rest.filter (· ≠ space)).length < mem.length →
        (s'.ReturnsArgs rest mem ↔ (∀ b ∈ rest, b = space) ∨ 0 ∈ mem) := by
  intro word rest
  have htext : cmd.take n = cString cmd := strlen_take hn
  obtain ⟨hname, hfits⟩ := text_fits cmd hle
  obtain ⟨found, -, hverify⟩ := verifyFile_eq hn hle hbuf s
  have hargs : (s.withArgs (argText (cmd.take n))).ArgsAre (argText (cmd.take n)) :=
    withArgs_are s (Nat.le_of_lt hfits)
  have hnul : 0 ∉ rest := fun h0 =>
    nul_notMem_cString cmd (htext ▸ (List.dropWhile_suffix _).subset h0)
  refine ⟨_, _, hverify, fun m => ?_, ?_, fun mem hroom => returnsArgs_iff hargs hnul hfits hroom⟩
  · have hword : (firstWord cmd).length < cmdLimit := by
      rw [firstWord, ← htext]
      exact hname
    rw [inFile_stored hword, ← htext]
    rfl
  · intro env₁ s₁ r₁ s₁' h₁ buf
    obtain ⟨n₁, hn₁, hfits₁, rfl⟩ := verifyFile_state h₁
    cases hn.symm.trans hn₁
    exact getargs_congr hargs (withArgs_are s₁ hfits₁) buf

theorem command_getargs_iff_spaces : ∃ r s',
    verifyFile .zero (cText "shell  a b ") (boot someLayout .shellOnly) = some (r, s') ∧
      s'.ReturnsArgs (cText "  a b ").dropLast [0, 7, 7] := by
  have hlen : strlen (cText "shell  a b ") = some 11 := by decide
  obtain ⟨r, s', hverify, -, -, hreturns⟩ :=
    command_getargs_iff .zero hlen (by decide) rfl (boot someLayout .shellOnly)
  exact ⟨r, s', hverify, (hreturns [0, 7, 7] (by decide)).mpr (.inr (by decide))⟩

/-- A buffer of two bytes that are not NUL, at the end of the mapped memory: there is room
for the argument, but `getargs` faults. -/
theorem command_getargs_no_nul : ∃ r s',
    verifyFile .zero (cText "shell a") (boot someLayout .shellOnly) = some (r, s') ∧
      s'.getargs (some [1, 1]) = none ∧ ¬ s'.ReturnsArgs (cText " a").dropLast [1, 1] := by
  obtain ⟨⟨r, s'⟩, hverify, hstuck⟩ := exists_of_map_decide
    (fun x : Option (List UInt8) × Kernel => x.2.getargs (some [1, 1]) = none)
    (x := verifyFile .zero (cText "shell a") (boot someLayout .shellOnly)) (by decide +kernel)
  refine ⟨r, s', hverify, hstuck, ?_⟩
  rintro ⟨r', out, hcall, -⟩
  cases hstuck.symm.trans hcall

/-! ## The bytes of the buffer -/

/-- The indices that `strlen` reads, from index `i` on, where `mem` is mapped; the last of
them may be outside. -/
def strlenReads : List UInt8 → Nat → List Nat
  | [], i => [i]
  | b :: mem, i => i :: if b = 0 then [] else strlenReads mem (i + 1)

/-- The indices of the caller's buffer that `getargs` reads. -/
def bufReads (s : Kernel) (mem : List UInt8) : List Nat :=
  if s.argSize = 0 then [] else strlenReads mem 0

/-- The stores of `getargs` to the caller's buffer: it is cleared up to its first NUL, and
the arguments and a NUL are copied to it. -/
def bufStores (s : Kernel) (mem : List UInt8) : List (Nat × UInt8) :=
  if s.argSize = 0 then []
  else match strlen mem, strlen (window s.argBuf 0 cmdLimit) with
    | some n, some k => copy 0 (fun _ => 0) n ++ (copy 0 s.argBuf k ++ [(k, 0)])
    | _, _ => []

/-- Nothing is read or stored from index `nbytes` on. -/
structure InBuffer (s : Kernel) (mem : List UInt8) (nbytes : Nat) : Prop where
  reads : ∀ i ∈ s.bufReads mem, i < nbytes
  stores : Within (s.bufStores mem) 0 nbytes

theorem strlenReads_lt_iff (mem : List UInt8) (i nbytes : Nat) :
    (∀ j ∈ strlenReads mem i, j < nbytes) ↔ i + (cString mem).length < nbytes := by
  induction mem generalizing i with
  | nil => simp [strlenReads, cString]
  | cons b mem ih =>
    unfold strlenReads
    by_cases h0 : b = 0
    · rw [if_pos h0, h0, cString_nul, List.forall_mem_singleton]
      rfl
    · rw [if_neg h0, cString_cons h0, List.forall_mem_cons, ih, List.length_cons]
      omega

/-- The stores are those of the call. -/
theorem getargs_stores {r : Int} {out : List UInt8} (h : s.getargs (some mem) = some (r, out)) :
    out = window (put (fun i => mem.getD i 0) (s.bufStores mem)) 0 mem.length := by
  unfold getargs at h
  unfold bufStores
  dsimp only at h
  by_cases hsize : s.argSize = 0
  · rw [if_pos hsize] at h ⊢
    cases h
    exact (List.take_length ..).symm.trans (take_eq_window (Nat.le_refl _) fun _ => 0)
  · rw [if_neg hsize] at h ⊢
    obtain ⟨n, hn, h⟩ := Option.bind_eq_some_iff.mp h
    obtain ⟨k, hk, h⟩ := Option.bind_eq_some_iff.mp h
    have hlt := strlen_lt hn
    rw [hn, hk]
    dsimp only
    split at h
    · cases h
    rename_i hroom
    cases h
    rw [List.length_append, List.length_replicate, List.length_drop] at hroom
    obtain ⟨rest, hrest⟩ : ∃ rest, mem.length = k + (1 + rest) := ⟨mem.length - k - 1, by omega⟩
    have hstring := window_put_string (fill (fun i => mem.getD i 0) 0 n 0) 0 s.argBuf k rest 0
    have hlen : mem.length - (k + 1) = rest := by omega
    rw [← hrest, Nat.zero_add] at hstring
    rw [put_append, put_const, hstring, ← window_fill (Nat.le_of_lt hlt) 0 0, window_drop, hlen,
      Nat.zero_add, List.append_assoc]

/-- **`getargs` and the size of the buffer.** For an argument string of `k` bytes and a
caller's buffer of `nbytes` bytes with any contents, no byte behind the buffer is read or
stored to if and only if there are no arguments, or the buffer already holds a NUL and is
longer than the arguments. -/
theorem getargs_inBuffer_iff {k nbytes : Nat} (hk : strlen (window s.argBuf 0 cmdLimit) = some k)
    (hmem : nbytes ≤ mem.length) :
    s.InBuffer mem nbytes ↔ s.argSize = 0 ∨ 0 ∈ mem.take nbytes ∧ k < nbytes := by
  by_cases hsize : s.argSize = 0
  · refine iff_of_true ⟨?_, ?_⟩ (.inl hsize)
    · rw [bufReads, if_pos hsize]
      exact fun i hi => absurd hi List.not_mem_nil
    · rw [bufStores, if_pos hsize]
      exact fun st hst => absurd hst List.not_mem_nil
  · rw [or_iff_right hsize, ← cString_length_lt_iff hmem]
    have hreads : (∀ i ∈ s.bufReads mem, i < nbytes) ↔ (cString mem).length < nbytes := by
      rw [bufReads, if_neg hsize, strlenReads_lt_iff, Nat.zero_add]
    have hstores (hnul : (cString mem).length < nbytes) :
        Within (s.bufStores mem) 0 nbytes ↔ k < nbytes := by
      have h0 := List.mem_of_mem_take ((cString_length_lt_iff hmem).mp hnul)
      rw [bufStores, if_neg hsize, strlen_of_mem h0, hk, within_append, within_append,
        within_copy, within_copy, within_single]
      dsimp only
      omega
    constructor
    · rintro ⟨hr, hs⟩
      have hnul := hreads.mp hr
      exact ⟨hnul, (hstores hnul).mp hs⟩
    · rintro ⟨hnul, hlt⟩
      exact ⟨hreads.mpr hnul, (hstores hnul).mpr hlt⟩

theorem getargs_inBuffer_iff_room :
    (Kernel.withArgs (boot someLayout .shellOnly) [97]).InBuffer [7, 0, 7, 7] 2 :=
  (getargs_inBuffer_iff (k := 1) (by decide) (by decide)).mpr (.inr (by decide))

/-- A buffer of two bytes, neither of them NUL: the third byte is read, and cleared. -/
theorem getargs_clears_past :
    let s := Kernel.withArgs (boot someLayout .shellOnly) [97]
    s.ArgsAre [97] ∧ s.getargs (some [1, 1, 1, 0]) = some (0, [97, 0, 0, 0]) ∧
      2 ∈ s.bufReads [1, 1, 1, 0] ∧ (2, 0) ∈ s.bufStores [1, 1, 1, 0] ∧
      ¬ s.InBuffer [1, 1, 1, 0] 2 := by
  intro s
  have hread : 2 ∈ s.bufReads [1, 1, 1, 0] := by decide
  exact ⟨withArgs_are _ (by decide), by decide, hread, by decide, fun h =>
    absurd (h.reads 2 hread) (by decide)⟩

end Kernel

end OS391
