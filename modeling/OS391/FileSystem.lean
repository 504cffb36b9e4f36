import OS391.Library.Bytes

/-! `filesys_read.c`: the file system image in memory, its directory entries and
the data of its files. -/

namespace OS391
open Library.Bytes

/-- `sizeof(dentry.fname)`. -/
abbrev fnameSize : Nat := 32
abbrev reservedSize : Nat := 24
abbrev dentryStartOffset : Nat := 64
abbrev inodeStartOffset : Nat := 4096
abbrev datablkSize : Nat := 4096

/-- Addresses and unsigned words are counted modulo this. -/
abbrev word32 : Nat := 2 ^ 32

/-- The word `w` as an `int32_t`. -/
def int32 (w : Nat) : Int := (w : Int).bmod word32

theorem int32_of_lt {w : Nat} (h : w < 2 ^ 31) : int32 w = w := by
  have hword : word32 = 4294967296 := rfl
  unfold int32
  rw [hword, Int.bmod_eq_of_le] <;> omega

theorem int32_of_ge {w : Nat} (h : 2 ^ 31 ≤ w) (hw : w < 2 ^ 32) :
    int32 w = w - 4294967296 := by
  have hword : word32 = 4294967296 := rfl
  unfold int32
  rw [hword, Int.bmod_def]
  split_ifs <;> omega

/-- A count that is not negative is the same as an unsigned word. -/
theorem toNat_word {n : Nat} (h : n < 2 ^ 31) : ((n : Int) % word32).toNat = n := by
  have hword : n < word32 := Nat.lt_trans h (by decide)
  rw [Int.emod_eq_of_lt (Int.natCast_nonneg n) (Int.ofNat_lt.mpr hword), Int.toNat_natCast]

/-- `strncmp`; `none` when it reads past one of the areas. -/
def strncmp : Nat → List UInt8 → List UInt8 → Option Int
  | 0, _, _ => some 0
  | n + 1, a :: s1, b :: s2 =>
    if a ≠ b ∨ a = 0 then some (a.toInt8.toInt - b.toInt8.toInt) else strncmp n s1 s2
  | _, _, _ => none

structure Dentry where
  fname : List UInt8
  ftype : Nat
  inode : Nat
  reserved : List UInt8
  deriving DecidableEq

structure FileSys where
  /-- The memory from the boot block on. -/
  image : Nat → UInt8
  readDirIndex : Int

namespace FileSys

def byte (fs : FileSys) (off : Nat) : UInt8 := fs.image (off % word32)

/-- The little-endian word at an offset. -/
def word (fs : FileSys) (off : Nat) : Nat :=
  (fs.byte off).toNat + 256 * (fs.byte (off + 1)).toNat +
    65536 * (fs.byte (off + 2)).toNat + 16777216 * (fs.byte (off + 3)).toNat

def numDentry (fs : FileSys) : Nat := fs.word 0
def numInodes (fs : FileSys) : Nat := fs.word 4

/-- A file system that holds one file, an executable of 28 bytes called `shell`. -/
def shellOnly : FileSys where
  image off :=
    ([(0, 1), (4, 2), (8, 1), (64, 115), (65, 104), (66, 101), (67, 108), (68, 108), (96, 2),
      (100, 1), (8192, 28), (12288, 0x7F), (12289, 0x45), (12290, 0x4C), (12291, 0x46)].lookup
        off).getD 0
  readDirIndex := 0

/-! ## Directory entries -/

/-- `dentry_start[i]`. -/
def dentry (fs : FileSys) (i : Nat) : Dentry :=
  let a := dentryStartOffset + 64 * i
  ⟨window fs.byte a fnameSize, fs.word (a + 32), fs.word (a + 36),
    window fs.byte (a + 40) reservedSize⟩

/-- The loop of `read_dentry_by_name`, `n` entries before its end. -/
def dentryLoop (fs : FileSys) (fname : List UInt8) : Nat → Nat → Option (Option Dentry)
  | 0, _ => some none
  | n + 1, i => (strncmp fnameSize fname (fs.dentry i).fname).bind fun r =>
    if r = 0 then some (some (fs.dentry i)) else dentryLoop fs fname n (i + 1)

/-- `read_dentry_by_name`: the entry it copies out (`some none`: it returns -1). The
loop compares signed numbers, so a negative `num_dentry` means no entries. -/
def readDentryByName (fs : FileSys) (fname : List UInt8) : Option (Option Dentry) :=
  fs.dentryLoop fname (int32 fs.numDentry).toNat 0

/-- `read_dentry_by_index` compares unsigned numbers. -/
def readDentryByIndex (fs : FileSys) (index : Nat) : Option Dentry :=
  if index ≥ fs.numDentry then none else some (fs.dentry index)

/-! ## File data -/

def inodeStart (k : Nat) : Nat := inodeStartOffset + 4096 * k

/-- `inode_start[k].length`. -/
def inodeLength (fs : FileSys) (k : Nat) : Nat := fs.word (inodeStart k)

/-- `inode_start[k].data_block[j]`. -/
def dataBlock (fs : FileSys) (k j : Nat) : Nat := fs.word (inodeStart k + 4 + 4 * j)

/-- Byte `off` of the `j`-th data block of inode `k`. -/
def dataByte (fs : FileSys) (k j off : Nat) : UInt8 :=
  fs.byte ((fs.numInodes + 1) * datablkSize + fs.dataBlock k j * datablkSize + off)

/-- The loop of `read_data` with `n` rounds to go, and the bytes it stores. -/
def readLoop (fs : FileSys) (inode : Nat) : Nat → Nat → Nat → Nat → List UInt8
  | 0, _, _, _ => []
  | n + 1, i, blk, off =>
    if i ≥ fs.inodeLength inode then []
    else
      let off' := if off = datablkSize then 0 else off
      let blk' := if off = datablkSize then blk + 1 else blk
      fs.dataByte inode blk' off' :: fs.readLoop inode n (i + 1) blk' (off' + 1)

/-- `read_data` into a buffer that is not NULL: its result and the bytes it stores. -/
def readData (fs : FileSys) (inode offset length : Nat) : Int × List UInt8 :=
  if inode = 0 ∨ inode ≥ fs.numInodes then (-1, [])
  else if offset ≥ fs.inodeLength inode then (0, [])
  else
    let out := fs.readLoop inode length 0 (offset / datablkSize) (offset % datablkSize)
    (int32 out.length, out)

def readFByName (fs : FileSys) (fname : List UInt8) (offset length : Nat) :
    Option (Int × List UInt8) :=
  (fs.readDentryByName fname).map fun d =>
    match d with
    | some d => fs.readData d.inode offset length
    | none => (-1, [])

/-! ## Directories -/

def openDir (fs : FileSys) : FileSys := { fs with readDirIndex := 0 }

/-- `read_dir`: its result, the bytes it stores, and the next position. -/
def readDir (fs : FileSys) : Int × List UInt8 × FileSys :=
  if fs.readDirIndex > int32 fs.numDentry then (-1, [], fs)
  else match fs.readDentryByIndex (fs.readDirIndex % word32).toNat with
    | none => (0, [], fs)
    | some d => (fnameSize, d.fname, { fs with readDirIndex := fs.readDirIndex + 1 })

/-! ## What `read_data` stores -/

/-- Byte `p` of the file with inode `k`, through its list of blocks. -/
def fileByte (fs : FileSys) (k p : Nat) : UInt8 := fs.dataByte k (p / datablkSize) (p % datablkSize)

/-- The file's contents. -/
def contents (fs : FileSys) (k : Nat) : List UInt8 := window (fs.fileByte k) 0 (fs.inodeLength k)

theorem fileByte_of_block (fs : FileSys) (k : Nat) {p blk off : Nat} (hoff : off < 4096)
    (hp : blk * 4096 + off = p) : fs.dataByte k blk off = fs.fileByte k p := by
  unfold fileByte
  rw [show p / datablkSize = blk by simp only [datablkSize]; omega,
    show p % datablkSize = off by simp only [datablkSize]; omega]

theorem readLoop_eq (fs : FileSys) (inode n i p blk off : Nat) (hoff : off ≤ 4096)
    (hp : blk * 4096 + off = p) :
    fs.readLoop inode n i blk off =
      window (fs.fileByte inode) p (min n (fs.inodeLength inode - i)) := by
  induction n generalizing i p blk off with
  | zero => simp [readLoop, window]
  | succ n ih =>
    unfold readLoop
    split
    · rename_i hend
      rw [show fs.inodeLength inode - i = 0 by omega]
      simp [window]
    · rename_i hin
      have hmin : min (n + 1) (fs.inodeLength inode - i) =
          1 + min n (fs.inodeLength inode - (i + 1)) := by omega
      have hone : window (fs.fileByte inode) p 1 = [fs.fileByte inode p] := rfl
      rw [hmin, window_add, hone]
      by_cases hfull : off = 4096
      · simp only [datablkSize, if_pos hfull]
        have hnext : (blk + 1) * 4096 = p := by omega
        have hbyte := fileByte_of_block fs inode (by decide) ((Nat.add_zero _).trans hnext)
        rw [ih (i + 1) (p + 1) (blk + 1) (0 + 1) (by decide) (by rw [Nat.zero_add, hnext]), hbyte]
        rfl
      · simp only [datablkSize, if_neg hfull]
        have hbyte := fileByte_of_block fs inode (show off < 4096 by omega) hp
        rw [ih (i + 1) (p + 1) blk (off + 1) (by omega) (by omega), hbyte]
        rfl

/-- The loop stops after as many bytes as the file has, wherever it began. -/
theorem readData_eq {fs : FileSys} {inode : Nat} (hpos : 0 < inode) (hlt : inode < fs.numInodes)
    (offset length : Nat) :
    fs.readData inode offset length =
      if offset ≥ fs.inodeLength inode then (0, [])
      else (int32 (min length (fs.inodeLength inode)),
        window (fs.fileByte inode) offset (min length (fs.inodeLength inode))) := by
  unfold readData
  rw [if_neg (by omega)]
  split
  · rfl
  · have hmod : offset % 4096 ≤ 4096 := by omega
    have hdiv : offset / 4096 * 4096 + offset % 4096 = offset := by omega
    simp only [datablkSize]
    rw [readLoop_eq fs inode length 0 offset _ _ hmod hdiv]
    simp

/-! ## What `read_dir` stores -/

theorem readDentryByIndex_eq_none {fs : FileSys} {i : Nat} :
    fs.readDentryByIndex i = none ↔ i ≥ fs.numDentry := by
  unfold readDentryByIndex
  split
  · exact iff_of_true rfl ‹_›
  · exact iff_of_false (Option.some_ne_none _) ‹_›

/-- A read from a directory stores one whole name, or nothing once it is past the last. -/
theorem readDir_cases (fs : FileSys) :
    (fs.readDirIndex > int32 fs.numDentry ∨ (fs.readDirIndex % word32).toNat ≥ fs.numDentry) ∧
        fs.readDir.1 ≤ 0 ∧ fs.readDir.2 = ([], fs) ∨
      ¬ (fs.readDirIndex > int32 fs.numDentry ∨
          (fs.readDirIndex % word32).toNat ≥ fs.numDentry) ∧
        fs.readDir = ((fnameSize : Int), (fs.dentry (fs.readDirIndex % word32).toNat).fname,
          { fs with readDirIndex := fs.readDirIndex + 1 }) := by
  unfold readDir readDentryByIndex
  by_cases hpast : fs.readDirIndex > int32 fs.numDentry
  · rw [if_pos hpast]
    exact .inl ⟨.inl hpast, Int.le_of_lt (Int.negSucc_lt_zero 0), rfl⟩
  · rw [if_neg hpast]
    by_cases hend : (fs.readDirIndex % word32).toNat ≥ fs.numDentry
    · rw [if_pos hend]
      exact .inl ⟨.inr hend, Int.le_refl 0, rfl⟩
    · rw [if_neg hend]
      exact .inr ⟨not_or.mpr ⟨hpast, hend⟩, rfl⟩

theorem readDir_image (fs : FileSys) : fs.readDir.2.2.image = fs.image := by
  rcases fs.readDir_cases with ⟨-, -, h⟩ | ⟨-, h⟩
  · rw [h]
  · rw [h]

/-! ## What depends on the image alone -/

section Image

variable {fs fs' : FileSys} (h : fs'.image = fs.image)
include h

theorem word_image : fs'.word = fs.word := by
  funext a
  simp [word, byte, h]

theorem dentry_image : fs'.dentry = fs.dentry := by
  have hbyte : fs'.byte = fs.byte := by funext a; simp [byte, h]
  funext i
  simp [dentry, hbyte, word_image h]

theorem readDentryByName_image (fname : List UInt8) :
    fs'.readDentryByName fname = fs.readDentryByName fname := by
  have hloop (n i : Nat) : fs'.dentryLoop fname n i = fs.dentryLoop fname n i := by
    induction n generalizing i with
    | zero => rfl
    | succ n ih => simp only [dentryLoop, ih, dentry_image h]
  simp only [readDentryByName, numDentry, word_image h, hloop]

theorem numInodes_image : fs'.numInodes = fs.numInodes := by
  rw [numInodes, word_image h, numInodes]

theorem dataByte_image : fs'.dataByte = fs.dataByte := by
  funext k j off
  simp [dataByte, dataBlock, numInodes_image h, word_image h, byte, h]

theorem inodeLength_image : fs'.inodeLength = fs.inodeLength := by
  funext k
  rw [inodeLength, word_image h, inodeLength]

theorem contents_image (k : Nat) : fs'.contents k = fs.contents k := by
  have hfile : fs'.fileByte k = fs.fileByte k := by
    funext p
    rw [fileByte, dataByte_image h, fileByte]
  rw [contents, inodeLength_image h, hfile, contents]

theorem readData_image (inode offset length : Nat) :
    fs'.readData inode offset length = fs.readData inode offset length := by
  have hloop (n i blk off : Nat) :
      fs'.readLoop inode n i blk off = fs.readLoop inode n i blk off := by
    induction n generalizing i blk off with
    | zero => rfl
    | succ n ih =>
      unfold readLoop
      rw [inodeLength_image h, dataByte_image h]
      simp only [ih]
  unfold readData
  rw [numInodes_image h, inodeLength_image h, hloop]

end Image

end FileSys

end OS391
