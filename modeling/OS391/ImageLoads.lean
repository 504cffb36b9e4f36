import OS391.FileSystem

/-! The loads with which `read_data` gets at the image, whatever the image holds and wherever
the buffer lies: a buffer over the image changes what the next rounds load. -/

namespace OS391
open Library.Bytes

namespace FileSys

def numDataBlocks (fs : FileSys) : Nat := fs.word 8

/-- The boot block, the inodes and the data blocks that the header speaks of. -/
def imageSize (fs : FileSys) : Nat := (1 + fs.numInodes + fs.numDataBlocks) * datablkSize

/-- A load of `read_data`, for the inode it reads. -/
inductive Load where
  /-- `inode_start[inode].length`. -/
  | length
  /-- `inode_start[inode].data_block[j]`, which holds `v`. -/
  | number (j v : Nat)
  /-- Byte `off` of data block `v`. -/
  | data (v off : Nat)
  deriving DecidableEq

/-- The bytes of a word, counted from the boot block. -/
def wordLocations (a : Nat) : List Nat := (List.range 4).map fun i => (a + i) % word32

def locations (fs : FileSys) (inode : Nat) : Load → List Nat
  | .length => wordLocations (inodeStart inode)
  | .number j _ => wordLocations (inodeStart inode + 4 + 4 * j)
  | .data v off => [((fs.numInodes + 1) * datablkSize + v * datablkSize + off) % word32]

/-- Byte `off` of data block `v`, where the kernel has counted `inodes` inodes. -/
def blockByte (fs : FileSys) (inodes v off : Nat) : UInt8 :=
  fs.byte ((inodes + 1) * datablkSize + v * datablkSize + off)

def storeByte (fs : FileSys) (a : Nat) (b : UInt8) : FileSys :=
  { fs with image := Function.update fs.image (a % word32) b }

/-- The loop of `read_data` with `n` rounds to go and its buffer at `buf`, counted from the boot
block: the number that it returns, the memory that it leaves, and its loads. -/
def copyLoop (inodes inode buf : Nat) : Nat → Nat → Nat → Nat → FileSys →
    Nat × FileSys × List Load
  | 0, i, _, _, fs => (i, fs, [])
  | n + 1, i, blk, off, fs =>
    if i ≥ fs.inodeLength inode then (i, fs, [.length])
    else
      let off' := if off = datablkSize then 0 else off
      let blk' := if off = datablkSize then blk + 1 else blk
      let v := fs.dataBlock inode blk'
      let rest := copyLoop inodes inode buf n (i + 1) blk' (off' + 1)
        (fs.storeByte (buf + i) (fs.blockByte inodes v off'))
      (rest.1, rest.2.1, .length :: .number blk' v :: .data v off' :: rest.2.2)

/-- `read_data` with a buffer anywhere in memory (`none`: the null pointer): its result, the memory
that it leaves, and its loads. -/
def readDataFrom (fs : FileSys) (inode offset : Nat) (buf : Option Nat) (length : Nat) :
    Int × FileSys × List Load :=
  match buf with
  | none => (-1, fs, [])
  | some b =>
    if inode = 0 ∨ inode ≥ fs.numInodes then (-1, fs, [])
    else if offset ≥ fs.inodeLength inode then (0, fs, [.length])
    else
      let r := copyLoop fs.numInodes inode b length 0 (offset / datablkSize) (offset % datablkSize)
        fs
      (int32 r.1, r.2.1, .length :: r.2.2)

/-! ## What the loop loads -/

/-- The memory when the first `k` bytes of the file from `offset` on have been copied to `b`, one
after the other. -/
def copied (fs : FileSys) (inode offset b : Nat) : Nat → FileSys
  | 0 => fs
  | k + 1 =>
    let g := copied fs inode offset b k
    g.storeByte (b + k) (g.blockByte fs.numInodes
      (g.dataBlock inode ((offset + k) / datablkSize)) ((offset + k) % datablkSize))

section Copying

variable {fs : FileSys} {inode offset b length : Nat}

/-- The loads for byte `k`, but for that of the length. -/
def ForByte (fs : FileSys) (inode offset b k : Nat) (ld : Load) : Prop :=
  let v := (fs.copied inode offset b k).dataBlock inode ((offset + k) / 4096)
  ld = .number ((offset + k) / 4096) v ∨ ld = .data v ((offset + k) % 4096)

/-- The file goes on up to byte `k`, as the copies before leave it. -/
def GoesOn (fs : FileSys) (inode offset b k : Nat) : Prop :=
  k < (fs.copied inode offset b k).inodeLength inode

/-- A round of the loop, in the memory that the rounds before have left. -/
theorem copyLoop_round {n i blk off : Nat} (hoff : off ≤ 4096) (hp : blk * 4096 + off = offset + i)
    (hgo : fs.GoesOn inode offset b i) : ∃ off', off' ≤ 4096 ∧
      (offset + i) / 4096 * 4096 + off' = offset + (i + 1) ∧
      let v := (fs.copied inode offset b i).dataBlock inode ((offset + i) / 4096)
      let rest := copyLoop fs.numInodes inode b n (i + 1) ((offset + i) / 4096) off'
        (fs.copied inode offset b (i + 1))
      copyLoop fs.numInodes inode b (n + 1) i blk off (fs.copied inode offset b i) =
        (rest.1, rest.2.1, .length :: .number ((offset + i) / 4096) v ::
          .data v ((offset + i) % 4096) :: rest.2.2) := by
  have hmod : (offset + i) % 4096 < 4096 := Nat.mod_lt _ (by decide)
  have hdiv : (offset + i) / 4096 * 4096 + (offset + i) % 4096 = offset + i :=
    Nat.div_add_mod' _ _
  refine ⟨(offset + i) % 4096 + 1, hmod, congrArg Nat.succ hdiv, ?_⟩
  have hblk : (if off = datablkSize then blk + 1 else blk) = (offset + i) / 4096 := by
    simp only [datablkSize]
    split <;> omega
  have hoff' : (if off = datablkSize then 0 else off) = (offset + i) % 4096 := by
    simp only [datablkSize]
    split <;> omega
  rw [copyLoop, if_neg (Nat.not_le_of_lt hgo)]
  simp only [hblk, hoff']
  rfl

theorem copyLoop_end {n i blk off : Nat} (hgo : ¬ fs.GoesOn inode offset b i) :
    copyLoop fs.numInodes inode b (n + 1) i blk off (fs.copied inode offset b i) =
      (i, fs.copied inode offset b i, [.length]) := by
  rw [copyLoop, if_pos (Nat.le_of_not_lt hgo)]

theorem mem_copyLoop (n i : Nat) {blk off : Nat} (hoff : off ≤ 4096)
    (hp : blk * 4096 + off = offset + i) {ld : Load} (hld : ld ≠ .length) :
    ld ∈ (copyLoop fs.numInodes inode b n i blk off (fs.copied inode offset b i)).2.2 ↔
      ∃ k, (i ≤ k ∧ k < i + n) ∧ (∀ j, i ≤ j → j ≤ k → fs.GoesOn inode offset b j) ∧
        fs.ForByte inode offset b k ld := by
  induction n generalizing i blk off with
  | zero =>
    refine iff_of_false List.not_mem_nil ?_
    rintro ⟨k, hk, -⟩
    omega
  | succ n ih =>
    by_cases hgo : fs.GoesOn inode offset b i
    · obtain ⟨off', hoff', hp', hround⟩ := copyLoop_round (n := n) hoff hp hgo
      rw [hround]
      dsimp only
      rw [List.mem_cons, or_iff_right hld, List.mem_cons, List.mem_cons, ih (i + 1) hoff' hp',
        ← or_assoc]
      constructor
      · rintro (hat | ⟨k, hk, hall, hat⟩)
        · refine ⟨i, by omega, fun j hlo hhi => ?_, hat⟩
          rwa [show j = i by omega]
        · refine ⟨k, by omega, fun j hlo hhi => ?_, hat⟩
          rcases Nat.eq_or_lt_of_le hlo with rfl | hlt
          · exact hgo
          · exact hall j hlt hhi
      · rintro ⟨k, hk, hall, hat⟩
        rcases Nat.eq_or_lt_of_le hk.1 with rfl | hlt
        · exact .inl hat
        · exact .inr ⟨k, by omega, fun j hlo hhi => hall j (by omega) hhi, hat⟩
    · rw [copyLoop_end hgo, List.mem_singleton]
      refine iff_of_false hld ?_
      rintro ⟨k, hk, hall, -⟩
      exact hgo (hall i (Nat.le_refl i) hk.1)

/-- The bytes that a call comes to: none where it is refused, or at the end of the file. -/
structure Reaches (fs : FileSys) (inode offset b length k : Nat) : Prop where
  accepted : 0 < inode ∧ inode < fs.numInodes
  inFile : offset < fs.inodeLength inode
  asked : k < length
  goesOn : ∀ j ≤ k, fs.GoesOn inode offset b j

theorem mem_readDataFrom {ld : Load} (hld : ld ≠ .length) :
    ld ∈ (fs.readDataFrom inode offset (some b) length).2.2 ↔
      ∃ k, fs.Reaches inode offset b length k ∧ fs.ForByte inode offset b k ld := by
  unfold readDataFrom
  dsimp only
  by_cases hinode : inode = 0 ∨ inode ≥ fs.numInodes
  · rw [if_pos hinode]
    refine iff_of_false List.not_mem_nil ?_
    rintro ⟨k, hk, -⟩
    have hvalid := hk.accepted
    omega
  · rw [if_neg hinode]
    by_cases hend : offset ≥ fs.inodeLength inode
    · rw [if_pos hend, List.mem_singleton]
      refine iff_of_false hld ?_
      rintro ⟨k, hk, -⟩
      exact absurd hk.inFile (Nat.not_lt_of_le hend)
    · have hmod : offset % datablkSize ≤ 4096 := Nat.le_of_lt (Nat.mod_lt _ (by decide))
      have hpos : offset / datablkSize * 4096 + offset % datablkSize = offset + 0 :=
        Nat.div_add_mod' offset 4096
      have hmem : ld ∈ (copyLoop fs.numInodes inode b length 0 (offset / datablkSize)
          (offset % datablkSize) fs).2.2 ↔ _ := mem_copyLoop length 0 hmod hpos hld
      rw [if_neg hend, List.mem_cons, or_iff_right hld, hmem]
      refine exists_congr fun k => ?_
      constructor
      · rintro ⟨hk, hall, hat⟩
        exact ⟨⟨by omega, Nat.lt_of_not_le hend, by omega, fun j => hall j (Nat.zero_le j)⟩, hat⟩
      · rintro ⟨hk, hat⟩
        exact ⟨⟨Nat.zero_le k, by rw [Nat.zero_add]; exact hk.asked⟩, fun j _ => hk.goesOn j, hat⟩

end Copying

/-! ## What lies inside -/

/-- The loads of a call stay inside the image, and a number that is outside makes it return
-1 in place of a load. -/
structure Contained (fs : FileSys) (inode : Nat) (r : Int) (loads : List Load) : Prop where
  inside : ∀ ld ∈ loads, ∀ a ∈ fs.locations inode ld, a < fs.imageSize
  inodes : fs.numInodes ≤ inode → r = -1 ∧ loads = []
  blocks : ∀ j v, .number j v ∈ loads → fs.numDataBlocks ≤ v →
    r = -1 ∧ ∀ off, .data v off ∉ loads

/-- Entry `j` of the block list lies inside the image, and in the memory `g` it names a data block
of it. -/
structure EntryInside (fs g : FileSys) (inode j : Nat) : Prop where
  entry : ∀ a ∈ wordLocations (inodeStart inode + 4 + 4 * j), a < fs.imageSize
  block : g.dataBlock inode j < fs.numDataBlocks

theorem length_inside {fs : FileSys} {inode : Nat} (h : inode < fs.numInodes) :
    ∀ a ∈ wordLocations (inodeStart inode), a < fs.imageSize := by
  intro a ha
  obtain ⟨i, hi, rfl⟩ := List.mem_map.mp ha
  have hi := List.mem_range.mp hi
  refine Nat.lt_of_le_of_lt (Nat.mod_le _ _) ?_
  simp only [inodeStart, inodeStartOffset, imageSize, datablkSize]
  omega

theorem data_inside {fs : FileSys} {v off : Nat} (hoff : off < 4096) (h : v < fs.numDataBlocks) :
    ((fs.numInodes + 1) * datablkSize + v * datablkSize + off) % word32 < fs.imageSize := by
  refine Nat.lt_of_le_of_lt (Nat.mod_le _ _) ?_
  simp only [imageSize, datablkSize]
  omega

theorem readDataFrom_inode {fs : FileSys} {inode offset length : Nat} {buf : Option Nat} {ld : Load}
    (h : ld ∈ (fs.readDataFrom inode offset buf length).2.2) : inode < fs.numInodes := by
  unfold readDataFrom at h
  cases buf with
  | none => cases h
  | some b =>
    by_contra hinode
    dsimp only at h
    rw [if_pos (.inr (Nat.le_of_not_lt hinode))] at h
    cases h

theorem contained_some_iff (fs : FileSys) (inode offset b length : Nat) :
    fs.Contained inode (fs.readDataFrom inode offset (some b) length).1
        (fs.readDataFrom inode offset (some b) length).2.2 ↔
      ∀ k, fs.Reaches inode offset b length k →
        fs.EntryInside (fs.copied inode offset b k) inode ((offset + k) / 4096) := by
  constructor
  · intro h k hk
    have hnumber := (mem_readDataFrom (by simp)).mpr ⟨k, hk, .inl rfl⟩
    have hdata := (mem_readDataFrom (by simp)).mpr ⟨k, hk, .inr rfl⟩
    refine ⟨h.inside _ hnumber, ?_⟩
    by_contra hout
    exact (h.blocks _ _ hnumber (Nat.le_of_not_lt hout)).2 _ hdata
  · intro hall
    refine ⟨fun ld hld => ?_, fun hinode => ?_, fun j v hj hout => ?_⟩
    · by_cases hlen : ld = .length
      · rw [hlen]
        exact length_inside (readDataFrom_inode hld)
      · obtain ⟨k, hk, rfl | rfl⟩ := (mem_readDataFrom hlen).mp hld
        · exact (hall k hk).entry
        · intro a ha
          rw [locations, List.mem_singleton] at ha
          rw [ha]
          exact data_inside (Nat.mod_lt _ (by decide)) (hall k hk).block
    · have hrefused : inode = 0 ∨ inode ≥ fs.numInodes := .inr hinode
      simp only [readDataFrom, if_pos hrefused, and_self]
    · obtain ⟨k, hk, hat | hat⟩ := (mem_readDataFrom (by simp)).mp hj
      · cases hat
        exact absurd (hall k hk).block (Nat.not_lt_of_le hout)
      · cases hat

/-! ## A buffer outside the image -/

/-- The buffer does not touch the image. -/
def Apart (fs : FileSys) (b length : Nat) : Prop := ∀ k < length, fs.imageSize ≤ (b + k) % word32

/-- The positions of the file that are read. -/
def Reads (fs : FileSys) (inode offset length q : Nat) : Prop :=
  (0 < inode ∧ inode < fs.numInodes) ∧ offset < fs.inodeLength inode ∧
    offset ≤ q ∧ q < offset + min length (fs.inodeLength inode)

section Apart

variable {fs : FileSys} {inode offset b length : Nat} (h : fs.Apart b length)
include h

/-- The copies leave the image as it is. -/
theorem copied_byte {k : Nat} (hk : k ≤ length) {a : Nat} (ha : a % word32 < fs.imageSize) :
    (fs.copied inode offset b k).byte a = fs.byte a := by
  induction k with
  | zero => rfl
  | succ k ih =>
    have hne : a % word32 ≠ (b + k) % word32 := by
      have hout := h k hk
      omega
    rw [← ih (Nat.le_of_succ_le hk), copied]
    simp only [storeByte, byte, Function.update_of_ne hne]

theorem copied_word {k : Nat} (hk : k ≤ length) {a : Nat}
    (ha : ∀ x ∈ wordLocations a, x < fs.imageSize) :
    (fs.copied inode offset b k).word a = fs.word a := by
  have hbyte (i : Nat) (hi : i < 4) :
      (fs.copied inode offset b k).byte (a + i) = fs.byte (a + i) :=
    copied_byte h hk (ha _ (List.mem_map.mpr ⟨i, List.mem_range.mpr hi, rfl⟩))
  have hzero := hbyte 0 (by decide)
  rw [Nat.add_zero] at hzero
  rw [word, word, hzero, hbyte 1 (by decide), hbyte 2 (by decide), hbyte 3 (by decide)]

theorem goesOn_iff {k : Nat} (hk : k ≤ length) (hinode : inode < fs.numInodes) :
    fs.GoesOn inode offset b k ↔ k < fs.inodeLength inode := by
  rw [GoesOn, inodeLength, copied_word h hk (length_inside hinode), inodeLength]

theorem reaches_iff {k : Nat} :
    fs.Reaches inode offset b length k ↔ fs.Reads inode offset length (offset + k) := by
  constructor
  · intro hk
    have hlast := (goesOn_iff h (Nat.le_of_lt hk.asked) hk.accepted.2).mp
      (hk.goesOn k (Nat.le_refl k))
    have hasked := hk.asked
    exact ⟨hk.accepted, hk.inFile, Nat.le_add_right .., by omega⟩
  · rintro ⟨hvalid, hin, -, hlt⟩
    refine ⟨hvalid, hin, by omega, fun j hj => ?_⟩
    exact (goesOn_iff h (by omega) hvalid.2).mpr (by omega)

theorem entryInside_copied {j k : Nat} (hk : k ≤ length) :
    fs.EntryInside (fs.copied inode offset b k) inode j ↔ fs.EntryInside fs inode j := by
  constructor
  · rintro ⟨hentry, hblock⟩
    rw [dataBlock, copied_word h hk hentry] at hblock
    exact ⟨hentry, hblock⟩
  · rintro ⟨hentry, hblock⟩
    refine ⟨hentry, ?_⟩
    rw [dataBlock, copied_word h hk hentry]
    exact hblock

/-- The memory that the loop leaves. -/
theorem copyLoop_copied (hinode : inode < fs.numInodes) (n i : Nat) {blk off : Nat}
    (hoff : off ≤ 4096) (hp : blk * 4096 + off = offset + i) (hn : i + n ≤ length) :
    ∃ loads, copyLoop fs.numInodes inode b n i blk off (fs.copied inode offset b i) =
      (i + min n (fs.inodeLength inode - i),
        fs.copied inode offset b (i + min n (fs.inodeLength inode - i)), loads) := by
  induction n generalizing i blk off with
  | zero =>
    rw [Nat.zero_min]
    exact ⟨[], rfl⟩
  | succ n ih =>
    by_cases hgo : fs.GoesOn inode offset b i
    · obtain ⟨off', hoff', hp', hround⟩ := copyLoop_round (n := n) hoff hp hgo
      obtain ⟨loads, hrest⟩ := ih (i + 1) hoff' hp' (by omega)
      have hlt := (goesOn_iff h (by omega) hinode).mp hgo
      have hmin : i + 1 + min n (fs.inodeLength inode - (i + 1)) =
          i + min (n + 1) (fs.inodeLength inode - i) := by omega
      rw [hmin] at hrest
      rw [hround, hrest]
      exact ⟨_, rfl⟩
    · have hle : fs.inodeLength inode - i = 0 := by
        have hnot := mt (goesOn_iff h (by omega) hinode).mpr hgo
        omega
      rw [copyLoop_end hgo, hle, Nat.min_zero]
      exact ⟨_, rfl⟩

/-- The copies are the bytes of the file, where these are in the image. -/
theorem copied_fileByte (hlen : length ≤ word32) {k : Nat} (hk : k ≤ length)
    (hin : ∀ j < k, fs.EntryInside fs inode ((offset + j) / 4096)) {j : Nat} (hj : j < k) :
    (fs.copied inode offset b k).byte (b + j) = fs.fileByte inode (offset + j) := by
  induction k with
  | zero => cases hj
  | succ k ih =>
    rw [copied]
    by_cases hjk : j = k
    · subst hjk
      obtain ⟨hentry, hblock⟩ := hin j hj
      have hnumber : (fs.copied inode offset b j).dataBlock inode ((offset + j) / 4096) =
          fs.dataBlock inode ((offset + j) / 4096) := copied_word h (Nat.le_of_succ_le hk) hentry
      have hdata := data_inside (Nat.mod_lt (offset + j) (show 0 < 4096 by decide)) hblock
      have hbyte : (fs.copied inode offset b j).blockByte fs.numInodes
          (fs.dataBlock inode ((offset + j) / 4096)) ((offset + j) % 4096) =
            fs.fileByte inode (offset + j) := copied_byte h (Nat.le_of_succ_le hk) hdata
      simp only [datablkSize, hnumber, hbyte]
      exact Function.update_self ..
    · have hne : (b + j) % word32 ≠ (b + k) % word32 := by
        simp only [word32] at hlen ⊢
        omega
      have hrest := ih (Nat.le_of_succ_le hk) (fun i hi => hin i (by omega)) (by omega)
      simpa only [storeByte, byte, Function.update_of_ne hne] using hrest

/-- With a buffer outside the image, and loads inside, this is `readData`. -/
theorem readDataFrom_apart (hlen : length ≤ word32)
    (hin : ∀ q, fs.Reads inode offset length q → fs.EntryInside fs inode (q / 4096)) :
    (fs.readDataFrom inode offset (some b) length).1 = (fs.readData inode offset length).1 ∧
      window (fs.readDataFrom inode offset (some b) length).2.1.byte b
        (fs.readData inode offset length).2.length = (fs.readData inode offset length).2 := by
  unfold readDataFrom
  dsimp only
  by_cases hinode : inode = 0 ∨ inode ≥ fs.numInodes
  · rw [if_pos hinode, readData, if_pos hinode]
    exact ⟨rfl, rfl⟩
  · rw [if_neg hinode, readData_eq (by omega) (by omega)]
    by_cases hend : offset ≥ fs.inodeLength inode
    · rw [if_pos hend, if_pos hend]
      exact ⟨rfl, rfl⟩
    · have hmod : offset % datablkSize ≤ 4096 := Nat.le_of_lt (Nat.mod_lt _ (by decide))
      have hpos : offset / datablkSize * 4096 + offset % datablkSize = offset + 0 :=
        Nat.div_add_mod' offset 4096
      obtain ⟨loads, hloop⟩ : ∃ loads, copyLoop fs.numInodes inode b length 0
          (offset / datablkSize) (offset % datablkSize) fs = (_, _, loads) :=
        copyLoop_copied h (by omega) length 0 hmod hpos (Nat.le_of_eq (Nat.zero_add _))
      rw [Nat.zero_add, Nat.sub_zero] at hloop
      rw [if_neg hend, if_neg hend, hloop]
      refine ⟨rfl, ?_⟩
      rw [window_length]
      refine window_congr fun j hj => ?_
      refine copied_fileByte h hlen (Nat.min_le_left ..) (fun i hi => hin _ ?_) hj
      exact ⟨by omega, Nat.lt_of_not_le hend, Nat.le_add_right .., Nat.add_lt_add_left hi _⟩

end Apart

/-- `shellOnly`, where the first block of the shell is number 1 of 1. -/
def badBlock : FileSys where
  image off := if off = 8196 then 1 else shellOnly.image off
  readDirIndex := 0

end FileSys

end OS391
