import OS391.Names

/-! What `verify_file` takes for an executable: a name, four bytes of magic number, and
the entry point at byte 24. -/

namespace OS391
open Library Library.Bytes

namespace FileSys

theorem dentryLoop_total (fs : FileSys) {fname : List UInt8} (h : fnameSize ≤ fname.length)
    (n i : Nat) : ∃ d, fs.dentryLoop fname n i = some d := by
  induction n generalizing i with
  | zero => exact ⟨none, rfl⟩
  | succ n ih =>
    have hname : fnameSize ≤ (fs.dentry i).fname.length := by simp [dentry]
    obtain ⟨c, hc⟩ := strncmp_total h hname
    unfold dentryLoop
    rw [hc, Option.bind_some]
    split
    · exact ⟨_, rfl⟩
    · exact ih (i + 1)

/-- Every entry is as long as a name may be, so the search for a name of that size ends. -/
theorem readDentryByName_total (fs : FileSys) {fname : List UInt8}
    (h : fnameSize ≤ fname.length) : ∃ d, fs.readDentryByName fname = some d :=
  dentryLoop_total fs h _ _

/-- The inode is one that `read_data` accepts. -/
def Readable (fs : FileSys) (inode : Nat) : Prop := 0 < inode ∧ inode < fs.numInodes

instance (fs : FileSys) (inode : Nat) : Decidable (fs.Readable inode) :=
  inferInstanceAs (Decidable (0 < inode ∧ inode < fs.numInodes))

/-- The first bytes of the file that `read_data` finds, at most four. -/
def head (fs : FileSys) (inode : Nat) : List UInt8 :=
  if fs.Readable inode then (fs.contents inode).take 4 else []

theorem readData_head (fs : FileSys) (inode : Nat) : (fs.readData inode 0 4).2 = fs.head inode := by
  unfold head
  by_cases h : fs.Readable inode
  · rw [if_pos h, readData_eq h.1 h.2, contents, window_take]
    split
    · rename_i hzero
      rw [Nat.le_zero.mp hzero]
      rfl
    · rfl
  · have hout : inode = 0 ∨ inode ≥ fs.numInodes := by
      unfold Readable at h
      omega
    rw [if_neg h, readData, if_pos hout]

theorem head_length_le (fs : FileSys) (inode : Nat) : (fs.head inode).length ≤ 4 := by
  unfold head
  split
  · rw [List.length_take]
    exact Nat.min_le_left _ _
  · exact Nat.zero_le _

/-- A regular file whose contents go on up to its entry point, after the magic number. -/
structure Executable (fs : FileSys) (d : Dentry) : Prop where
  regular : d.ftype = 2
  readable : fs.Readable d.inode
  length : 28 ≤ fs.inodeLength d.inode
  magic : (fs.contents d.inode).take 4 = Kernel.magicBuf

/-- The four bytes at which an executable names its entry point. -/
def entryPoint (fs : FileSys) (d : Dentry) : List UInt8 := window (fs.fileByte d.inode) 24 4

/-- The verdict on the first word of a command is as it should be: the entry point of the
executable that it names, and nothing for any other word. -/
structure Judged (fs : FileSys) (word : List UInt8) (verdict : Option (List UInt8)) : Prop where
  accepted : ∀ d, fs.Names word d → fs.Executable d → verdict = some (fs.entryPoint d)
  rejected : (∀ d, fs.Names word d → ¬ fs.Executable d) → verdict = none

end FileSys

namespace Kernel

/-! ## The verdict -/

/-- The first word of a command. -/
def firstWord (cmd : List UInt8) : List UInt8 := (cString cmd).takeWhile (· ≠ space)

/-- What the first four bytes of the file leave in the buffer that they are read into. -/
def headOver (fs : FileSys) (buf : List UInt8) (inode : Nat) : List UInt8 :=
  fs.head inode ++ buf.drop (fs.head inode).length

theorem headOver_length {fs : FileSys} {buf : List UInt8} (h : buf.length = 4) (inode : Nat) :
    (headOver fs buf inode).length = 4 := by
  have hle := fs.head_length_le inode
  rw [headOver, List.length_append, List.length_drop, h]
  omega

/-- What `verify_file` makes of the entry it has found. -/
def verdict (env : Env) (fs : FileSys) (d : Dentry) : Option (List UInt8) :=
  if headOver fs env.fileBuf d.inode = magicBuf then
    let addr := (fs.readData d.inode 24 4).2
    some (addr ++ env.vAddr.drop addr.length)
  else none

theorem argText_length_le (text : List UInt8) : (argText text).length ≤ text.length :=
  (List.filter_sublist.trans (List.dropWhile_sublist _)).length_le

/-- The command is short enough for the buffers that it is taken apart into. -/
theorem text_fits (cmd : List UInt8) {n : Nat} (hle : n ≤ 128) :
    ((cmd.take n).takeWhile (· ≠ space)).length < cmdLimit ∧
      (argText (cmd.take n)).length < cmdLimit := by
  have htake : (cmd.take n).length ≤ 128 := by
    rw [List.length_take]
    omega
  have hname := (List.takeWhile_sublist (· ≠ space) (l := cmd.take n)).length_le
  have hargs := argText_length_le (cmd.take n)
  simp only [cmdLimit]
  omega

theorem verifyFile_eq {env : Env} {cmd : List UInt8} {n : Nat} (hn : strlen cmd = some n)
    (hle : n ≤ 128) (hbuf : env.fileBuf.length = 4) (s : Kernel) :
    ∃ found, s.fs.readDentryByName (inFile (cmd.take n)) = some found ∧
      verifyFile env cmd s =
        some (found.bind (verdict env s.fs), s.withArgs (argText (cmd.take n))) := by
  obtain ⟨hname, hargs⟩ := text_fits cmd hle
  have hfile : fnameSize ≤ (inFile (cmd.take n)).length := by
    simp only [inFile, List.length_append, List.length_replicate, fnameSize]
    simp only [cmdLimit] at hname ⊢
    omega
  obtain ⟨found, hfound⟩ := s.fs.readDentryByName_total hfile
  refine ⟨found, hfound, ?_⟩
  unfold verifyFile
  rw [hn, Option.bind_some]
  dsimp only
  rw [if_neg (by omega), withArgs_fs, hfound, Option.bind_some]
  cases found with
  | none => rfl
  | some d =>
    have hlen : (headOver s.fs env.fileBuf d.inode).length = 4 := headOver_length hbuf d.inode
    have hmagic : magicBuf.length = 4 := rfl
    obtain ⟨c, hc, hiff⟩ := strncmp_pattern hlen hmagic (by decide)
    rw [headOver, ← FileSys.readData_head] at hc
    simp only [reduceCtorEq, if_false, FileSys.readFByName, hfound, Option.map_some,
      Option.bind_some, hc, verdict, ← hiff]
    by_cases h0 : c = 0
    · rw [if_neg (not_not_intro h0), if_pos h0]
    · rw [if_pos h0, if_neg h0]

variable {env : Env} {fs : FileSys} {d : Dentry}

theorem headOver_of_long (hread : fs.Readable d.inode) (hlen : 28 ≤ fs.inodeLength d.inode)
    (hbuf : env.fileBuf.length = 4) :
    headOver fs env.fileBuf d.inode = (fs.contents d.inode).take 4 := by
  have hfour : ((fs.contents d.inode).take 4).length = 4 := by
    rw [FileSys.contents, List.length_take, window_length]
    omega
  have hnil : env.fileBuf.drop 4 = [] := List.drop_eq_nil_of_le (Nat.le_of_eq hbuf)
  rw [headOver, FileSys.head, if_pos hread, hfour, hnil, List.append_nil]

theorem entry_of_long (hread : fs.Readable d.inode) (hlen : 28 ≤ fs.inodeLength d.inode)
    (haddr : env.vAddr.length = 4) :
    (fs.readData d.inode 24 4).2 ++ env.vAddr.drop (fs.readData d.inode 24 4).2.length =
      fs.entryPoint d := by
  have hmin : min 4 (fs.inodeLength d.inode) = 4 := by omega
  have hnil : env.vAddr.drop 4 = [] := List.drop_eq_nil_of_le (Nat.le_of_eq haddr)
  rw [FileSys.readData_eq hread.1 hread.2, if_neg (by omega), hmin, window_length, hnil,
    List.append_nil, FileSys.entryPoint]

theorem firstWord_nul (cmd : List UInt8) : 0 ∉ firstWord cmd := fun h =>
  nul_notMem_cString cmd (List.takeWhile_sublist _ |>.mem h)

/-- `inFile` holds the first word, with NULs behind it. -/
theorem cString_inFile {cmd : List UInt8} {n : Nat} (hn : strlen cmd = some n) (hle : n ≤ 128) :
    0 ∈ inFile (cmd.take n) ∧ cString (inFile (cmd.take n)) = firstWord cmd := by
  have hfits := (text_fits cmd hle).1
  rw [strlen_take hn] at hfits ⊢
  obtain ⟨k, hk⟩ : ∃ k, cmdLimit - (firstWord cmd).length = k + 1 :=
    ⟨cmdLimit - (firstWord cmd).length - 1, by unfold firstWord; omega⟩
  have hfile : inFile (cString cmd) = firstWord cmd ++ 0 :: List.replicate k 0 := by
    show firstWord cmd ++ List.replicate (cmdLimit - (firstWord cmd).length) 0 = _
    rw [hk, List.replicate_succ]
  rw [hfile, cString_append (firstWord_nul cmd), cString_nul, List.append_nil]
  exact ⟨by simp, rfl⟩

/-- The verdict on the entry that is found is right unless a magic number is seen that no long
enough regular file of this name has shown. -/
theorem verdict_judged_iff (hbuf : env.fileBuf.length = 4) (haddr : env.vAddr.length = 4)
    {word : List UInt8} (hnames : fs.Names (word.take 32) d) :
    fs.Judged word (verdict env fs d) ↔
      (word.length ≤ 32 ∧ d.ftype = 2 ∧ fs.Readable d.inode ∧ 28 ≤ fs.inodeLength d.inode) ∨
        headOver fs env.fileBuf d.inode ≠ magicBuf := by
  have hword {d' : Dentry} (h' : fs.Names word d') : word.length ≤ 32 ∧ d' = d := by
    have hshort : word.length ≤ 32 := h'.length_le
    rw [List.take_of_length_le hshort] at hnames
    exact ⟨hshort, h'.unique hnames⟩
  by_cases hseen : headOver fs env.fileBuf d.inode = magicBuf
  · rw [or_iff_left (not_not_intro hseen)]
    have hsome : verdict env fs d ≠ none := by
      rw [verdict, if_pos hseen]
      exact Option.some_ne_none _
    constructor
    · intro h
      by_contra hnot
      apply hsome
      apply h.rejected
      intro d' hd' hexec
      obtain ⟨hshort, rfl⟩ := hword hd'
      exact hnot ⟨hshort, hexec.regular, hexec.readable, hexec.length⟩
    · rintro ⟨hshort, hregular, hread, hlen⟩
      have hmagic := headOver_of_long hread hlen hbuf
      rw [hseen] at hmagic
      constructor
      · intro d' hd' _
        obtain ⟨-, rfl⟩ := hword hd'
        rw [verdict, if_pos hseen]
        exact congrArg some (entry_of_long hread hlen haddr)
      · intro hnone
        rw [List.take_of_length_le hshort] at hnames
        exact absurd ⟨hregular, hread, hlen, hmagic.symm⟩ (hnone d hnames)
  · refine iff_of_true ⟨?_, fun _ => if_neg hseen⟩ (.inr hseen)
    intro d' hd' hexec
    obtain ⟨-, rfl⟩ := hword hd'
    rw [headOver_of_long hexec.readable hexec.length hbuf] at hseen
    exact absurd hexec.magic hseen

/-- **Only executables are accepted.** The verdict of `verify_file` on a command of at most 128
bytes is right, whatever its local variables held, if and only if no entry is named by the first
32 bytes of its first word; or that entry is a regular file that can be read up to its entry
point, and they are the whole word; or it does not show the magic number: neither in its first
bytes nor in what the buffer held in place of them. -/
theorem verifyFile_judged_iff (env : Env) {cmd : List UInt8} {n : Nat} (hn : strlen cmd = some n)
    (hle : n ≤ 128) (hbuf : env.fileBuf.length = 4) (haddr : env.vAddr.length = 4) (s : Kernel) :
    ∃ r s', verifyFile env cmd s = some (r, s') ∧
      (s.fs.Judged (firstWord cmd) r ↔ ∀ d, s.fs.Names ((firstWord cmd).take 32) d →
        ((firstWord cmd).length ≤ 32 ∧ d.ftype = 2 ∧ s.fs.Readable d.inode ∧
            28 ≤ s.fs.inodeLength d.inode) ∨
          headOver s.fs env.fileBuf d.inode ≠ magicBuf) := by
  obtain ⟨found, hfound, hverify⟩ := verifyFile_eq hn hle hbuf s
  refine ⟨_, _, hverify, ?_⟩
  obtain ⟨hmem, hword⟩ := cString_inFile hn hle
  obtain ⟨found', hfound', hnames⟩ := s.fs.readDentryByName_names hmem
  cases hfound.symm.trans hfound'
  rw [hword] at hnames
  cases found with
  | none =>
    have hnone : ∀ d, ¬ s.fs.Names ((firstWord cmd).take 32) d := fun d hd => by
      cases (hnames d).mpr hd
    refine iff_of_true ⟨fun d hd _ => ?_, fun _ => rfl⟩ fun d hd => absurd hd (hnone d)
    have hd' := hd
    rw [← List.take_of_length_le hd.length_le] at hd'
    exact absurd hd' (hnone d)
  | some d =>
    have hd := (hnames d).mp rfl
    rw [Option.bind_some, verdict_judged_iff hbuf haddr hd]
    constructor
    · intro h d' hd'
      rw [hd'.unique hd]
      exact h
    · intro h
      exact h d hd

theorem verifyFile_judged_shell :
    ∃ r s', verifyFile .zero (cText "shell") (boot someLayout .shellOnly) = some (r, s') ∧
      FileSys.shellOnly.Judged (firstWord (cText "shell")) r := by
  have hlen : strlen (cText "shell") = some 5 := by decide
  obtain ⟨r, s', hverify, hiff⟩ :=
    verifyFile_judged_iff .zero hlen (by decide) rfl rfl (boot someLayout .shellOnly)
  refine ⟨r, s', hverify, hiff.mpr ?_⟩
  rintro d ⟨i, hi, -, -, rfl⟩
  have hcount : FileSys.shellOnly.dentryCount = 1 := by decide +kernel
  have hzero : i = 0 := by
    have hi' : i < FileSys.shellOnly.dentryCount := hi
    omega
  rw [hzero]
  exact .inl (by decide +kernel)

/-- A file that holds the magic number and nothing else is an executable, with whatever
was in `v_addr` for its entry point. -/
theorem verifyFile_short :
    let fs : FileSys := { FileSys.shellOnly with
      image := Function.update FileSys.shellOnly.image 8192 4 }
    fs.inodeLength 1 = 4 ∧ fs.Names (firstWord (cText "shell")) (fs.dentry 0) ∧
      ((verifyFile .zero (cText "shell") (boot someLayout fs)).map Prod.fst =
        some (some [0, 0, 0, 0])) ∧
      ¬ fs.Judged (firstWord (cText "shell")) (some [0, 0, 0, 0]) := by
  intro fs
  have hlen : fs.inodeLength (fs.dentry 0).inode = 4 := by decide +kernel
  have hcount : fs.dentryCount = 1 := by decide +kernel
  have hname : fs.name 0 = firstWord (cText "shell") := by decide +kernel
  refine ⟨by decide +kernel, ⟨0, by omega, hname, fun j hj => absurd hj (Nat.not_lt_zero j), rfl⟩,
    by decide +kernel, fun h => ?_⟩
  have hnone := h.rejected ?_
  · cases hnone
  · rintro d ⟨i, hi, -, -, rfl⟩ hexec
    have hzero : i = 0 := by omega
    have hlong := hexec.length
    rw [hzero, hlen] at hlong
    revert hlong
    decide

end Kernel

end OS391
