import OS391.FileRead

/-! `read_data` against the slice of the file that it is asked for. -/

namespace OS391
open Library.Bytes

namespace FileSys

/-- The entries of `data_block` that the loop of `read_data` consults, in order. -/
def entriesLoop (fs : FileSys) (inode : Nat) : Nat → Nat → Nat → Nat → List Nat
  | 0, _, _, _ => []
  | n + 1, i, blk, off =>
    if i ≥ fs.inodeLength inode then []
    else
      let off' := if off = datablkSize then 0 else off
      let blk' := if off = datablkSize then blk + 1 else blk
      blk' :: fs.entriesLoop inode n (i + 1) blk' (off' + 1)

def entriesRead (fs : FileSys) (inode offset length : Nat) : List Nat :=
  if inode = 0 ∨ inode ≥ fs.numInodes ∨ offset ≥ fs.inodeLength inode then []
  else fs.entriesLoop inode length 0 (offset / datablkSize) (offset % datablkSize)

/-- The memory from `buf` on, after the bytes `out` are stored there. -/
def stored (buf : Nat → UInt8) (out : List UInt8) : Nat → UInt8 :=
  blit buf 0 (fun i => out.getD i 0) out.length

/-- How many of `n` bytes the file of length `len` has from `offset` on. -/
def slice (len offset n : Nat) : Nat := if offset ≥ len then 0 else min n (len - offset)

/-- `read_data` returns the size of the slice, stores the slice and nothing else, and
consults no entry past the last block of the file. -/
structure ReadsSlice (fs : FileSys) (inode offset n : Nat) : Prop where
  ret : (fs.readData inode offset n).1 = slice (fs.inodeLength inode) offset n
  bytes : ∀ buf i, i < slice (fs.inodeLength inode) offset n →
    stored buf (fs.readData inode offset n).2 i = fs.fileByte inode (offset + i)
  others : ∀ buf i, slice (fs.inodeLength inode) offset n ≤ i →
    stored buf (fs.readData inode offset n).2 i = buf i
  entries : ∀ j ∈ fs.entriesRead inode offset n,
    j < (fs.inodeLength inode + (datablkSize - 1)) / datablkSize

theorem mem_entriesLoop {fs : FileSys} {inode n i p blk off j : Nat} (hoff : off ≤ 4096)
    (hp : blk * 4096 + off = p) (hj : j ∈ fs.entriesLoop inode n i blk off) :
    ∃ k, k < min n (fs.inodeLength inode - i) ∧ j = (p + k) / 4096 := by
  induction n generalizing i p blk off with
  | zero => cases hj
  | succ n ih =>
    unfold entriesLoop at hj
    split at hj
    · cases hj
    · rename_i hin
      have hfirst : 0 < min (n + 1) (fs.inodeLength inode - i) := by omega
      have hsucc : ∀ k, k < min n (fs.inodeLength inode - (i + 1)) →
          k + 1 < min (n + 1) (fs.inodeLength inode - i) := by omega
      have hshift : ∀ k, (p + 1 + k) / 4096 = (p + (k + 1)) / 4096 := by
        intro k
        congr 1
        omega
      by_cases hfull : off = 4096
      · simp only [datablkSize, if_pos hfull, List.mem_cons] at hj
        rcases hj with hj | hj
        · exact ⟨0, hfirst, by omega⟩
        · have hnext : (blk + 1) * 4096 + (0 + 1) = p + 1 := by
            rw [← hp, hfull, Nat.add_mul]
          obtain ⟨k, hk, rfl⟩ := ih (by decide) hnext hj
          exact ⟨k + 1, hsucc k hk, hshift k⟩
      · simp only [datablkSize, if_neg hfull, List.mem_cons] at hj
        rcases hj with hj | hj
        · exact ⟨0, hfirst, by omega⟩
        · have hnext : blk * 4096 + (off + 1) = p + 1 := by
            rw [← hp, Nat.add_assoc]
          obtain ⟨k, hk, rfl⟩ := ih (by omega) hnext hj
          exact ⟨k + 1, hsucc k hk, hshift k⟩

theorem stored_window (buf m : Nat → UInt8) (a k i : Nat) :
    stored buf (window m a k) i = if i < k then m (a + i) else buf i := by
  unfold stored blit
  rw [window_length]
  by_cases hi : i < k
  · have hin : 0 ≤ i ∧ i < 0 + k := by omega
    have hlen : i < (window m a k).length := by rwa [window_length]
    rw [if_pos hin, if_pos hi, Nat.sub_zero]
    simp only [List.getD_eq_getElem _ _ hlen, window_getElem]
  · have hout : ¬ (0 ≤ i ∧ i < 0 + k) := by omega
    rw [if_neg hout, if_neg hi]

/-- From the end of the file on, there is nothing to read. -/
theorem readsSlice_of_end {fs : FileSys} {inode offset : Nat} (hpos : 0 < inode)
    (hlt : inode < fs.numInodes) (hend : offset ≥ fs.inodeLength inode) (n : Nat) :
    fs.ReadsSlice inode offset n := by
  have hslice : slice (fs.inodeLength inode) offset n = 0 := if_pos hend
  have hread := readData_eq hpos hlt offset n
  rw [if_pos hend] at hread
  constructor
  · rw [hread, hslice]
    rfl
  · intro buf i hi
    omega
  · intro buf i _
    rw [hread]
    rfl
  · intro j hj
    rw [entriesRead, if_pos (.inr (.inr hend))] at hj
    cases hj

/-- Before the end, `read_data` reads the slice if it returns the size of the slice. -/
theorem readsSlice_iff {fs : FileSys} {inode offset : Nat} (hpos : 0 < inode)
    (hlt : inode < fs.numInodes) (hlen : fs.inodeLength inode < 2 ^ 31)
    (hin : ¬ offset ≥ fs.inodeLength inode) (n : Nat) :
    fs.ReadsSlice inode offset n ↔
      min n (fs.inodeLength inode) = min n (fs.inodeLength inode - offset) := by
  have hslice : slice (fs.inodeLength inode) offset n =
      min n (fs.inodeLength inode - offset) := if_neg hin
  have hread := readData_eq hpos hlt offset n
  have hle : min n (fs.inodeLength inode) < 2 ^ 31 := by omega
  rw [if_neg hin, int32_of_lt hle] at hread
  constructor
  · intro h
    have hret := h.ret
    rw [hread, hslice] at hret
    exact Int.ofNat.inj hret
  · intro hmin
    rw [hmin] at hread
    constructor
    · rw [hread, hslice]
    · intro buf i hi
      rw [hslice] at hi
      rw [hread, stored_window, if_pos hi]
    · intro buf i hi
      rw [hslice] at hi
      rw [hread, stored_window, if_neg (Nat.not_lt.mpr hi)]
    · intro j hj
      rw [entriesRead, if_neg (by omega)] at hj
      have hmod : offset % 4096 ≤ 4096 := by omega
      have hdiv : offset / 4096 * 4096 + offset % 4096 = offset := by omega
      obtain ⟨k, hk, rfl⟩ := mem_entriesLoop hmod hdiv hj
      simp only [datablkSize]
      omega

/-- **A slice is read exactly.** `read_data` bounds the number of bytes by the length of
the file instead of what is left of it: it reads the slice asked for if and only if there
is nothing to read, or it starts at the beginning, or the file goes on that far. -/
theorem readData_slice_iff {fs : FileSys} {inode : Nat} (hpos : 0 < inode)
    (hlt : inode < fs.numInodes) (hlen : fs.inodeLength inode ≤ 1023 * datablkSize)
    (offset n : Nat) :
    fs.ReadsSlice inode offset n ↔
      offset ≥ fs.inodeLength inode ∨ offset = 0 ∨ n ≤ fs.inodeLength inode - offset := by
  have hlen' : fs.inodeLength inode ≤ 4190208 := hlen
  by_cases hend : offset ≥ fs.inodeLength inode
  · exact iff_of_true (readsSlice_of_end hpos hlt hend n) (.inl hend)
  · rw [readsSlice_iff hpos hlt (by omega) hend]
    omega

theorem readData_slice_shellOnly : shellOnly.ReadsSlice 1 24 4 :=
  (readData_slice_iff (by decide) (by decide) (by decide) 24 4).mpr (by decide)

/-- Four bytes are left of the file; eight are read. -/
theorem readData_past_end :
    (shellOnly.readData 1 24 8).1 = 8 ∧ ¬ shellOnly.ReadsSlice 1 24 8 := by
  have hread : (shellOnly.readData 1 24 8).1 = 8 := by decide +kernel
  refine ⟨hread, fun h => ?_⟩
  have hret := h.ret
  rw [hread] at hret
  revert hret
  decide +kernel

end FileSys

end OS391
