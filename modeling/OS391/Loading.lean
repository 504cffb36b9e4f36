import OS391.Executables
import OS391.FileRead
import OS391.Library.Stores

/-! The copy of a program into the page of its process. -/

namespace OS391
open Library Library.Runs Library.Bytes Library.Stores

abbrev programImageAddr : Nat := 0x8048000
abbrev programMaxSize : Nat := 4 * mb

namespace FileSys

/-- `read_f`: its result and the bytes it stores. -/
def readF (fs : FileSys) (inode : Nat) : Int × List UInt8 := fs.readData inode 0 programMaxSize

/-- The stores of `read_f` when the loader calls it. -/
def loadStores (fs : FileSys) (inode : Nat) : List (Nat × UInt8) :=
  let bytes := (fs.readF inode).2
  copy programImageAddr (fun i => bytes.getD i 0) bytes.length

/-- The data of a file; an inode that `read_data` rejects has none. -/
def fileData (fs : FileSys) (inode : Nat) : List UInt8 :=
  if fs.Readable inode then fs.contents inode else []

/-- The loader writes the whole file, and to nothing but the program page. -/
structure Loaded (fs : FileSys) (inode : Nat) : Prop where
  complete : ∀ m, window (put m (fs.loadStores inode)) programImageAddr
    (fs.fileData inode).length = fs.fileData inode
  inPage : Within (fs.loadStores inode) (128 * mb) (4 * mb)

theorem readF_bytes (fs : FileSys) (inode : Nat) :
    (fs.readF inode).2 = (fs.fileData inode).take programMaxSize := by
  unfold readF fileData
  by_cases h : fs.Readable inode
  · rw [if_pos h, readData_eq h.1 h.2, contents, window_take]
    split
    · rename_i hzero
      rw [Nat.le_zero.mp hzero]
      rfl
    · rfl
  · have hout : inode = 0 ∨ inode ≥ fs.numInodes := by
      unfold Readable at h
      omega
    rw [if_neg h, readData, if_pos hout]
    rfl

/-- Behind the load address 3899392 bytes of the page are left. -/
theorem loaded_iff (fs : FileSys) (inode : Nat) :
    fs.Loaded inode ↔ (fs.fileData inode).length ≤ 3899392 := by
  have hinPage : Within (fs.loadStores inode) (128 * mb) (4 * mb) ↔
      (fs.fileData inode).length ≤ 3899392 := by
    rw [loadStores, within_copy, readF_bytes, List.length_take]
    simp only [programImageAddr, programMaxSize, mb]
    omega
  constructor
  · exact fun h => hinPage.mp h.inPage
  · intro hle
    refine ⟨fun m => ?_, hinPage.mpr hle⟩
    have hwhole : (fs.readF inode).2 = fs.fileData inode := by
      rw [readF_bytes]
      refine List.take_of_length_le (Nat.le_trans hle ?_)
      simp only [programMaxSize, mb]
      omega
    rw [loadStores, hwhole, put_copy]
    exact window_blit m programImageAddr (fs.fileData inode) 0

end FileSys

namespace Kernel

/-- What `verify_file` accepts is there. -/
theorem verifyFile_found {env : Env} {cmd v : List UInt8} {n : Nat} {s s' : Kernel}
    (hn : strlen cmd = some n) (h : verifyFile env cmd s = some (some v, s')) :
    s'.fs = s.fs ∧ ∃ d, s.fs.readDentryByName (inFile (cmd.take n)) = some (some d) := by
  unfold verifyFile at h
  rw [hn, Option.bind_some] at h
  dsimp only at h
  split at h
  · cases h
  obtain ⟨found, hfound, h⟩ := Option.bind_eq_some_iff.mp h
  rw [withArgs_fs] at hfound
  split at h
  · cases h
  rename_i hd
  obtain ⟨d, rfl⟩ := Option.ne_none_iff_exists'.mp hd
  obtain ⟨head, -, h⟩ := Option.bind_eq_some_iff.mp h
  obtain ⟨c, -, h⟩ := Option.bind_eq_some_iff.mp h
  split at h
  · cases h
  · obtain ⟨addr, -, h⟩ := Option.map_eq_some_iff.mp h
    cases h
    exact ⟨rfl, d, hfound⟩

/-- **Loading.** In any image, a file that `verify_file` accepts is copied as a whole, and
to nothing but the page from 128 MB to 132 MB, if and only if it is at most 3899392 bytes
long. -/
theorem load_inPage_iff {env : Env} {cmd v : List UInt8} {n : Nat} {s s' : Kernel}
    (hn : strlen cmd = some n) (h : verifyFile env cmd s = some (some v, s')) :
    ∃ d, s'.fs.readDentryByName (inFile (cmd.take n)) = some (some d) ∧
      (s'.fs.Loaded d.inode ↔ (s'.fs.fileData d.inode).length ≤ 3899392) := by
  obtain ⟨hfs, d, hd⟩ := verifyFile_found hn h
  exact ⟨d, hfs ▸ hd, s'.fs.loaded_iff d.inode⟩

theorem load_inPage_iff_shell : ∃ v s' d,
    verifyFile .zero (cText "shell") (boot someLayout .shellOnly) = some (some v, s') ∧
      s'.fs.readDentryByName (inFile ((cText "shell").take 5)) = some (some d) ∧
      s'.fs.Loaded d.inode := by
  obtain ⟨⟨r, s'⟩, hverify, rfl⟩ := exists_of_map_decide
    (fun x : Option (List UInt8) × Kernel => x.1 = some [0, 0, 0, 0])
    (x := verifyFile .zero (cText "shell") (boot someLayout .shellOnly)) (by decide +kernel)
  obtain ⟨d, hd, hiff⟩ := load_inPage_iff (n := 5) (by decide) hverify
  have hfs : s'.fs = .shellOnly := (verifyFile_found (n := 5) (by decide) hverify).1
  have hshell : FileSys.shellOnly.readDentryByName (inFile ((cText "shell").take 5)) =
      some (some (FileSys.shellOnly.dentry 0)) := by decide +kernel
  refine ⟨_, s', d, hverify, hd, hiff.mpr ?_⟩
  rw [hfs] at hd ⊢
  cases hshell.symm.trans hd
  decide +kernel

/-- `shellOnly` with a shell of 3899393 bytes in 953 data blocks. -/
def largeShell : FileSys where
  image off :=
    if 8196 ≤ off ∧ off < 8196 + 4 * 953 then
      ((off - 8196) / 4 / 256 ^ (off % 4)).toUInt8
    else
      ([(8, 185), (9, 3), (8192, 1), (8193, 128), (8194, 59)].lookup off).getD
        (FileSys.shellOnly.image off)
  readDirIndex := 0

theorem largeShell_length : largeShell.inodeLength 1 = 3899393 := by decide +kernel

theorem largeShell_wellFormed : largeShell.WellFormed := by
  have hinodes : largeShell.numInodes = 2 := by decide +kernel
  have hlen : ∀ k < 2,
      largeShell.inodeLength k ≤ 3899393 ∧ (k = 0 → largeShell.inodeLength k = 0) := by
    decide +kernel
  have hblocks : ∀ j < 953, largeShell.dataBlock 1 j < largeShell.word 8 := by decide +kernel
  refine ⟨by decide +kernel, by decide +kernel, fun k hk => ?_, fun k hk j hj => ?_⟩
  · exact Nat.le_trans (hlen k (hinodes ▸ hk)).1 (by decide)
  · rw [hinodes] at hk
    rcases Nat.lt_or_ge k 1 with h0 | h1
    · rw [(hlen k hk).2 (by omega)] at hj
      exact absurd hj (Nat.not_lt_zero _)
    · have hone : k = 1 := by omega
      subst hone
      rw [largeShell_length] at hj
      simp only [datablkSize] at hj
      exact hblocks j (by omega)

/-- The last byte of the shell goes to 132 MB, the first byte behind the page. -/
theorem load_past_page : largeShell.WellFormed ∧ ∃ v s' d,
    verifyFile .zero (cText "shell") (boot someLayout largeShell) = some (some v, s') ∧
      s'.fs.readDentryByName (inFile ((cText "shell").take 5)) = some (some d) ∧
      (s'.fs.fileData d.inode).length = 3899393 ∧ ¬ s'.fs.Loaded d.inode := by
  refine ⟨largeShell_wellFormed, ?_⟩
  obtain ⟨⟨r, s'⟩, hverify, rfl⟩ := exists_of_map_decide
    (fun x : Option (List UInt8) × Kernel => x.1 = some [0, 0, 0, 0])
    (x := verifyFile .zero (cText "shell") (boot someLayout largeShell)) (by decide +kernel)
  obtain ⟨hfs, d, hd⟩ := verifyFile_found (n := 5) (by decide) hverify
  have hfs : s'.fs = largeShell := hfs
  have hshell : largeShell.readDentryByName (inFile ((cText "shell").take 5)) =
      some (some (largeShell.dentry 0)) := by decide +kernel
  have hinode : (largeShell.dentry 0).inode = 1 := by decide +kernel
  have hread : largeShell.Readable 1 := by decide +kernel
  have hlen : (largeShell.fileData 1).length = 3899393 := by
    have hcontents : (largeShell.contents 1).length = largeShell.inodeLength 1 :=
      window_length ..
    rw [FileSys.fileData, if_pos hread, hcontents]
    exact largeShell_length
  cases hshell.symm.trans hd
  refine ⟨_, s', largeShell.dentry 0, hverify, ?_, ?_, fun hload => ?_⟩
  · rw [hfs]
    exact hshell
  · rw [hfs, hinode]
    exact hlen
  · rw [hfs, hinode, FileSys.loaded_iff, hlen] at hload
    omega

end Kernel

end OS391
