import OS391.Syscalls

/-! The byte count of `read`: how much the four read routines store at `buf`, and how much
of the buffer they look at. -/

namespace OS391
open Library Library.Runs Library.Bytes

theorem FileSys.readLoop_length (fs : FileSys) (inode n i blk off : Nat) :
    (fs.readLoop inode n i blk off).length ≤ n := by
  induction n generalizing i blk off with
  | zero => exact Nat.le_refl _
  | succ n ih =>
    unfold readLoop
    split
    · exact Nat.zero_le _
    · exact Nat.succ_le_succ (ih _ _ _)

/-- `read_data` keeps to the number of bytes it is asked for. -/
theorem FileSys.readData_length (fs : FileSys) (inode offset : Nat) {n : Nat} (hn : n < 2 ^ 31) :
    (fs.readData inode offset n).1 ≤ n ∧ (fs.readData inode offset n).2.length ≤ n := by
  have hloop := fs.readLoop_length inode n 0 (offset / datablkSize) (offset % datablkSize)
  unfold readData
  split
  · exact ⟨by omega, Nat.zero_le _⟩
  · split
    · exact ⟨Int.natCast_nonneg n, Nat.zero_le _⟩
    · refine ⟨?_, hloop⟩
      dsimp only
      rw [int32_of_lt (by omega)]
      exact Int.ofNat_le.mpr hloop

namespace Kernel

/-- A read of `n` bytes reported no more than `n`, and neither stored nor looked at a byte of
the buffer from `n` on. -/
def WithinCount (n : Int) (r : Tty.ReadOut) : Prop :=
  r.ret ≤ n ∧ (r.out.length : Int) ≤ n ∧ (r.looked : Int) ≤ n

/-- The names of the directory are all read. -/
def DirAtEnd (s : Kernel) : Prop :=
  s.fs.readDirIndex > int32 s.fs.numDentry ∨
    s.fs.readDentryByIndex (s.fs.readDirIndex % word32).toNat = none

/-- The count suits the read routine of the descriptor and the memory at `buf`. -/
def ReadFits (s : Kernel) (d : FileDesc) (mem : List UInt8) (n : Nat) : Prop :=
  match d.read with
  | .readDir => fnameSize ≤ n ∨ s.DirAtEnd ∨ mem.length < fnameSize
  | .terminalRead =>
    let t := s.tty.con.activeTerminal
    s.tty.kbd.terminalReadReady t = true → n ≤ mem.length →
      -- the line ends within the count, or nowhere at all
      0 ∈ window s.tty.kbd.printBuffer (Keyboard.row t) n ∨ 0 ∉ mem.drop n
  | .null | .terminalWrong | .rtcRead | .readF => True

variable {s s' : Kernel} {mem : List UInt8} {n : Nat}

theorem dirAtEnd_iff :
    s.DirAtEnd ↔ s.fs.readDirIndex > int32 s.fs.numDentry ∨
      (s.fs.readDirIndex % word32).toNat ≥ s.fs.numDentry := by
  rw [DirAtEnd, FileSys.readDentryByIndex_eq_none]

/-- `terminal_read` measures the caller's buffer, beyond the bytes that it has stored. -/
theorem terminalRead_within_iff :
    (∀ r tty, s.tty.terminalRead mem n = some (r, tty) → WithinCount n r) ↔
      (s.tty.kbd.terminalReadReady s.tty.con.activeTerminal = true → n ≤ mem.length →
        0 ∈ window s.tty.kbd.printBuffer (Keyboard.row s.tty.con.activeTerminal) n ∨
          0 ∉ mem.drop n) := by
  unfold Tty.terminalRead Tty.readCopy
  dsimp only
  by_cases hready : s.tty.kbd.terminalReadReady s.tty.con.activeTerminal = true
  swap
  · rw [if_neg hready]
    exact iff_of_true (fun _ _ h => by cases h) fun h => absurd h hready
  rw [if_pos hready]
  by_cases hmap : mem.length < n
  · rw [if_pos hmap]
    exact iff_of_true (fun _ _ h => by cases h) fun _ h => absurd h (by omega)
  rw [if_neg hmap, Option.bind_some]
  generalize hl : window s.tty.kbd.printBuffer (Keyboard.row s.tty.con.activeTerminal) n = l
  have hlen : l.length = n := by rw [← hl, window_length]
  have htake : (l ++ mem.drop n).take n = l := List.take_left' hlen
  rw [htake]
  by_cases hin : 0 ∈ l
  · rw [strlen_append_of_mem hin, strlen_of_mem hin]
    refine iff_of_true (fun r tty h => ?_) fun _ _ => .inl hin
    have hlt := cString_length_lt hin
    cases h
    refine ⟨?_, ?_, ?_⟩ <;> dsimp only <;> omega
  · by_cases hrest : 0 ∈ mem.drop n
    · have hlong : n ≤ (cString (l ++ mem.drop n)).length := by
        rw [cString_append hin, List.length_append]
        omega
      rw [strlen_of_mem (List.mem_append_right l hrest)]
      refine iff_of_false (fun h => ?_) fun h => (h hready (by omega)).elim hin (absurd hrest)
      have hlooked := (h _ _ rfl).2.2
      dsimp only at hlooked
      omega
    · have hnone : 0 ∉ l ++ mem.drop n := fun h => (List.mem_append.mp h).elim hin hrest
      rw [strlen_eq_none hnone]
      exact iff_of_true (fun _ _ h => by cases h) fun _ _ => .inr hrest

/-- `read_dir` stores a whole name, whatever the count. -/
theorem readDir_within_iff {d : FileDesc} (hd : d.read = .readDir) :
    (∀ r s', s.readHandler d mem n = some (r, s') → WithinCount n r) ↔
      fnameSize ≤ n ∨ s.DirAtEnd ∨ mem.length < fnameSize := by
  unfold readHandler
  rw [hd]
  have hcases := s.fs.readDir_cases
  generalize s.fs.readDir = rd at hcases ⊢
  obtain ⟨ret, out, fs⟩ := rd
  dsimp only at hcases ⊢
  rcases hcases with ⟨hend, hret, hrest⟩ | ⟨hnext, hdir⟩
  · refine iff_of_true (fun r s' h => ?_) (.inr (.inl (dirAtEnd_iff.mpr hend)))
    cases hrest
    rw [List.length_nil, if_neg (Nat.not_lt_zero _)] at h
    cases h
    exact ⟨by dsimp only; omega, Int.natCast_nonneg n, Int.natCast_nonneg n⟩
  · have hlen : (s.fs.dentry (s.fs.readDirIndex % word32).toNat).fname.length = 32 :=
      window_length ..
    cases hdir
    by_cases hmem : mem.length < 32
    · rw [hlen, if_pos hmem]
      exact iff_of_true (fun _ _ h => by cases h) (.inr (.inr hmem))
    · rw [hlen, if_neg hmem]
      constructor
      · intro h
        have hle := (h _ _ rfl).1
        exact .inl (Int.ofNat_le.mp hle)
      · rintro (hle | hend | hshort) r s' h
        · cases h
          have hle' : ((fnameSize : Nat) : Int) ≤ n := Int.ofNat_le.mpr hle
          exact ⟨hle', by rw [hlen]; exact hle', Int.natCast_nonneg n⟩
        · exact absurd (dirAtEnd_iff.mp hend) hnext
        · exact absurd hshort hmem

theorem readF_within {d : FileDesc} (hd : d.read = .readF) (hn : n < 2 ^ 31) {r : Tty.ReadOut}
    (h : s.readHandler d mem n = some (r, s')) : WithinCount n r := by
  unfold readHandler at h
  rw [hd] at h
  dsimp only at h
  rw [toNat_word hn] at h
  obtain ⟨hret, hout⟩ := s.fs.readData_length d.inode d.filePos hn
  split at h
  · cases h
  · cases h
    exact ⟨hret, Int.ofNat_le.mpr hout, Int.natCast_nonneg n⟩

theorem rtcRead_within {d : FileDesc} (hd : d.read = .rtcRead) {r : Tty.ReadOut}
    (h : s.readHandler d mem n = some (r, s')) : WithinCount n r := by
  unfold readHandler at h
  rw [hd] at h
  obtain ⟨⟨ret, rtc⟩, hr, he⟩ := Option.map_eq_some_iff.mp h
  cases he
  unfold Rtc.rtcRead at hr
  split at hr
  · cases hr
    exact ⟨Int.natCast_nonneg n, Int.natCast_nonneg n, Int.natCast_nonneg n⟩
  · cases hr

/-- Each read routine keeps to its count under the condition of its kind, and only then. -/
theorem readHandler_within_iff (d : FileDesc) (hn : n < 2 ^ 31) :
    (∀ r s', s.readHandler d mem n = some (r, s') → WithinCount n r) ↔ s.ReadFits d mem n := by
  unfold ReadFits
  cases hd : d.read with
  | null =>
    refine iff_of_true (fun r s' h => ?_) trivial
    rw [readHandler, hd] at h
    cases h
  | terminalWrong =>
    refine iff_of_true (fun r s' h => ?_) trivial
    rw [readHandler, hd] at h
    cases h
    exact ⟨by dsimp only; omega, Int.natCast_nonneg n, Int.natCast_nonneg n⟩
  | terminalRead =>
    rw [readHandler, hd]
    dsimp only
    rw [if_neg (by omega), Int.toNat_natCast, ← terminalRead_within_iff]
    constructor
    · intro h r tty hr
      exact h r { s with tty := tty, intr := true } (by rw [hr]; rfl)
    · intro h r s' hr
      obtain ⟨⟨r₁, tty⟩, hr₁, he⟩ := Option.map_eq_some_iff.mp hr
      cases he
      exact h r₁ tty hr₁
  | rtcRead => exact iff_of_true (fun _ _ h => rtcRead_within hd h) trivial
  | readDir => exact readDir_within_iff hd
  | readF => exact iff_of_true (fun _ _ h => readF_within hd hn h) trivial

/-- **The byte count of `read`.** -/
theorem read_within_iff {fd : Int} (hfd : 0 ≤ fd ∧ fd < fdescSize)
    (hopen : (s.cur.fileArray fd.toNat).flag ≠ 0) (hn : n < 2 ^ 31) :
    (∀ r s', s.read fd (some mem) n = some (r, s') → WithinCount n r) ↔
      s.ReadFits (s.cur.fileArray fd.toNat) mem n := by
  rw [← readHandler_within_iff (s.cur.fileArray fd.toNat) hn]
  unfold read
  dsimp only
  have hrange : ¬ (fd ≥ (fdescSize : Nat) ∨ fd < 0) := by omega
  rw [if_neg hrange, if_neg hopen]
  constructor
  · intro h r s₁ hr
    rw [hr, Option.map_some] at h
    dsimp only at h
    by_cases hneg : r.ret < 0
    · rw [if_pos hneg] at h
      exact ⟨by omega, (h _ _ rfl).2⟩
    · rw [if_neg hneg] at h
      exact h _ _ rfl
  · intro h r s' hr
    obtain ⟨⟨r, s₁⟩, hr, he⟩ := Option.map_eq_some_iff.mp hr
    have hwithin := h r s₁ hr
    dsimp only at he
    split at he
    · cases he
      exact ⟨by dsimp only; omega, hwithin.2⟩
    · cases he
      exact hwithin

/-- A read of 32 bytes from a directory that has been opened. -/
theorem read_within_name : ∃ s : Kernel, (s.cur.fileArray 2).read = .readDir ∧
    (s.cur.fileArray 2).flag ≠ 0 ∧
    ∀ r s', s.read 2 (some (List.replicate 32 0)) 32 = some (r, s') → WithinCount 32 r := by
  let s := (boot someLayout .shellOnly).setPcb 0 (opened ⟨[], 1, 0, []⟩ 2)
  have hopen : (s.cur.fileArray 2).flag ≠ 0 := by decide +kernel
  exact ⟨s, by decide +kernel, hopen,
    (read_within_iff (n := 32) (by decide) hopen (by decide)).mpr (.inl (by decide))⟩

/-- A read of 10 bytes from a directory stores 32 and returns 32. -/
theorem read_past_count : ∃ s : Kernel, (s.cur.fileArray 2).read = .readDir ∧
    (s.cur.fileArray 2).flag ≠ 0 ∧
    ∃ r s', s.read 2 (some (List.replicate 32 0)) 10 = some (r, s') ∧ ¬ WithinCount 10 r := by
  let s := (boot someLayout .shellOnly).setPcb 0 (opened ⟨[], 1, 0, []⟩ 2)
  obtain ⟨⟨r, s'⟩, hr, hret⟩ := exists_of_map_decide (fun r : Tty.ReadOut × Kernel => r.1.ret = 32)
    (x := s.read 2 (some (List.replicate 32 0)) 10) (by decide +kernel)
  refine ⟨s, by decide +kernel, by decide +kernel, r, s', hr, fun hwithin => ?_⟩
  have hle := hwithin.1
  dsimp only at hret
  omega

end Kernel

end OS391
