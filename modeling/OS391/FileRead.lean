import OS391.Syscalls
import OS391.Library.Chunks

/-! Reading a regular file through a descriptor, in chunks of any sizes. -/

namespace OS391
open Library.Runs Library.Bytes Library.Chunks

/-- An image whose directory and inodes keep to the limits of the format. -/
structure FileSys.WellFormed (fs : FileSys) : Prop where
  dentries : fs.numDentry ≤ 63
  inodes : ∀ i < fs.numDentry, (fs.dentry i).ftype = 2 → (fs.dentry i).inode < fs.numInodes
  lengths : ∀ k < fs.numInodes, fs.inodeLength k ≤ 1023 * datablkSize
  blocks : ∀ k < fs.numInodes, ∀ j, j * datablkSize < fs.inodeLength k →
    fs.dataBlock k j < fs.word 8

namespace Kernel

/-! ## One read -/

/-- Descriptor `i` of the current process reads the file with inode `k` of the image of
`fs`, and is at position `p`. -/
structure ReadsFile (fs : FileSys) (s : Kernel) (i k p : Nat) : Prop where
  image : s.fs = fs
  open_ : (s.cur.fileArray i).flag ≠ 0
  routine : (s.cur.fileArray i).read = .readF
  inode : (s.cur.fileArray i).inode = k
  filePos : (s.cur.fileArray i).filePos = p

/-- The bytes that `read_data` delivers at a position: as many as asked for and as the
whole file has. -/
def amount (len p n : Nat) : Nat := if len ≤ p then 0 else min n len

theorem amount_le (len p n : Nat) : amount len p n ≤ len ∧ amount len p n ≤ n := by
  unfold amount
  split
  · exact ⟨Nat.zero_le _, Nat.zero_le _⟩
  · exact ⟨Nat.min_le_right n len, Nat.min_le_left n len⟩

theorem readData_amount {fs : FileSys} {k : Nat} (hk : 0 < k ∧ k < fs.numInodes)
    (hlen : fs.inodeLength k ≤ 1023 * datablkSize) (p n : Nat) :
    fs.readData k p n = (((amount (fs.inodeLength k) p n : Nat) : Int),
      window (fs.fileByte k) p (amount (fs.inodeLength k) p n)) := by
  have hlen' : fs.inodeLength k ≤ 4190208 := hlen
  rw [FileSys.readData_eq hk.1 hk.2]
  unfold amount
  by_cases hend : fs.inodeLength k ≤ p
  · rw [if_pos hend, if_pos hend]
    rfl
  · rw [if_neg hend, if_neg hend, int32_of_lt (by omega)]

theorem read_file {fs : FileSys} {s : Kernel} {i k p n : Nat} (h : ReadsFile fs s i k p)
    (hi : i < fdescSize) (hk : 0 < k ∧ k < fs.numInodes)
    (hlen : fs.inodeLength k ≤ 1023 * datablkSize) (hp : p + fs.inodeLength k < word32)
    (hn : n < 2 ^ 31) {mem : List UInt8} (hmem : n ≤ mem.length) :
    ∃ s', s.read i (some mem) n =
        some (⟨amount (fs.inodeLength k) p n,
          window (fs.fileByte k) p (amount (fs.inodeLength k) p n), 0⟩, s') ∧
      ReadsFile fs s' i k (p + amount (fs.inodeLength k) p n) := by
  obtain ⟨ham, hamn⟩ := amount_le (fs.inodeLength k) p n
  have hhandler : s.readHandler (s.cur.fileArray i) mem n =
      some (⟨amount (fs.inodeLength k) p n,
        window (fs.fileByte k) p (amount (fs.inodeLength k) p n), 0⟩, s) := by
    unfold readHandler
    rw [h.routine]
    dsimp only
    rw [h.image, h.inode, h.filePos, toNat_word hn, readData_amount hk hlen]
    dsimp only
    rw [if_neg (by rw [window_length]; omega)]
  refine ⟨s.setPcb s.curr (advanced i (amount (fs.inodeLength k) p n)), ?_, ?_⟩
  · unfold read
    dsimp only
    rw [if_neg (by omega), Int.toNat_natCast, if_neg h.open_, hhandler, Option.map_some]
    dsimp only
    rw [if_neg (by omega), Int.toNat_natCast]
  · have hcur : (s.setPcb s.curr (advanced i (amount (fs.inodeLength k) p n))).cur =
        advanced i (amount (fs.inodeLength k) p n) s.cur := by
      simp [cur, setPcb]
    refine ⟨h.image, ?_, ?_, ?_, ?_⟩ <;> rw [hcur] <;>
      simp only [advanced, Function.update_self]
    · exact h.open_
    · exact h.routine
    · exact h.inode
    · rw [h.filePos, Nat.mod_eq_of_lt (by omega)]

/-! ## A sequence of reads -/

section Reads

variable (fd : Int) (ns : Nat → Nat) (mem : Nat → List UInt8)

/-- The kernel before read number `j`, where the reads are of `ns 0`, `ns 1` and so on
bytes, into the memory areas `mem 0`, `mem 1` and so on. -/
def beforeRead (s : Kernel) : Nat → Option Kernel
  | 0 => some s
  | j + 1 => (beforeRead s j).bind fun s => (s.read fd (some (mem j)) (ns j)).map Prod.snd

def readAt (s : Kernel) (j : Nat) : Option Tty.ReadOut :=
  (s.beforeRead fd ns mem j).bind fun s => (s.read fd (some (mem j)) (ns j)).map Prod.fst

/-- The first `returned` bytes of the buffer of read number `j`. -/
def deliveredAt (s : Kernel) (j : Nat) : List UInt8 :=
  match s.readAt fd ns mem j with
  | some r => (r.out ++ (mem j).drop r.out.length).take r.ret.toNat
  | none => []

/-- The reads return something up to some point and 0 from there on, and what they have
delivered is the file. -/
def DeliversFile (s : Kernel) (file : List UInt8) : Prop :=
  ∃ k, (∀ j < k, ∃ r, s.readAt fd ns mem j = some r ∧ 0 < r.ret) ∧
    (∀ j, k ≤ j → ∃ r, s.readAt fd ns mem j = some r ∧ r.ret = 0) ∧
    (List.range k).flatMap (s.deliveredAt fd ns mem) = file

end Reads

theorem position_le (len : Nat) (ns : Nat → Nat) (j : Nat) :
    position (amount len) ns j ≤ 2 * len := by
  induction j with
  | zero => exact Nat.zero_le _
  | succ j ih =>
    simp only [position, amount]
    split <;> omega

section File

variable {fs : FileSys} {s : Kernel} {i k : Nat} {ns : Nat → Nat} {mem : Nat → List UInt8}
  (h : ReadsFile fs s i k 0) (hi : i < fdescSize) (hk : 0 < k ∧ k < fs.numInodes)
  (hwf : fs.WellFormed) (hns : ∀ j, 0 < ns j ∧ ns j < 2 ^ 31) (hmem : ∀ j, ns j ≤ (mem j).length)
include h hi hk hwf hns hmem

theorem beforeRead_file (j : Nat) : ∃ s', s.beforeRead i ns mem j = some s' ∧
    ReadsFile fs s' i k (position (amount (fs.inodeLength k)) ns j) := by
  have hlen := hwf.lengths k hk.2
  induction j with
  | zero => exact ⟨s, rfl, h⟩
  | succ j ih =>
    obtain ⟨s₁, hs₁, h₁⟩ := ih
    have hpos := position_le (fs.inodeLength k) ns j
    have hbound : fs.inodeLength k ≤ 4190208 := hlen
    have hlt : position (amount (fs.inodeLength k)) ns j + fs.inodeLength k < 4294967296 := by omega
    obtain ⟨s₂, hs₂, h₂⟩ := read_file h₁ hi hk hlen hlt (hns j).2 (hmem j)
    exact ⟨s₂, by rw [beforeRead, hs₁, Option.bind_some, hs₂, Option.map_some], h₂⟩

theorem readAt_file (j : Nat) :
    let p := position (amount (fs.inodeLength k)) ns j
    s.readAt i ns mem j = some ⟨amount (fs.inodeLength k) p (ns j),
      window (fs.fileByte k) p (amount (fs.inodeLength k) p (ns j)), 0⟩ := by
  intro p
  obtain ⟨s₁, hs₁, h₁⟩ := beforeRead_file h hi hk hwf hns hmem j
  have hlen := hwf.lengths k hk.2
  have hpos := position_le (fs.inodeLength k) ns j
  have hbound : fs.inodeLength k ≤ 4190208 := hlen
  have hlt : position (amount (fs.inodeLength k)) ns j + fs.inodeLength k < 4294967296 := by omega
  obtain ⟨s₂, hs₂, -⟩ := read_file h₁ hi hk hlen hlt (hns j).2 (hmem j)
  rw [readAt, hs₁, Option.bind_some, hs₂, Option.map_some]

/-- The reads deliver the file if and only if one of them begins exactly at its end. -/
theorem delivers_iff_position : s.DeliversFile i ns mem (fs.contents k) ↔
    ∃ j, position (amount (fs.inodeLength k)) ns j = fs.inodeLength k := by
  have hread := readAt_file h hi hk hwf hns hmem
  have hbytes : s.deliveredAt i ns mem = fun j =>
      window (fs.fileByte k) (position (amount (fs.inodeLength k)) ns j)
        (amount (fs.inodeLength k) (position (amount (fs.inodeLength k)) ns j) (ns j)) := by
    funext j
    rw [deliveredAt, hread]
    simp
  have hcat (n : Nat) := flatMap_chunks (amount (fs.inodeLength k)) ns (fs.fileByte k) n
  have hend : ∀ p n, fs.inodeLength k ≤ p → amount (fs.inodeLength k) p n = 0 :=
    fun p n hp => if_pos hp
  have hmove : ∀ p n, p < fs.inodeLength k → 0 < n → 0 < amount (fs.inodeLength k) p n := by
    intro p n hp hn
    rw [amount, if_neg (by omega)]
    omega
  constructor
  · rintro ⟨n, -, -, hfile⟩
    rw [hbytes, hcat n] at hfile
    have hlen := congrArg List.length hfile
    simp only [FileSys.contents, window_length] at hlen
    exact ⟨n, hlen⟩
  · rintro ⟨m, hm⟩
    obtain ⟨n, hn, hbefore⟩ := exists_end hmove fun j => (hns j).1
    have hle : n ≤ m := by
      by_contra hlt
      exact absurd (hbefore m (by omega)) (by omega)
    have hstop := position_of_end hend hle hn
    refine ⟨n, fun j hj => ⟨_, hread j, ?_⟩, fun j hj => ⟨_, hread j, ?_⟩, ?_⟩
    · have hpos := hmove _ (ns j) (hbefore j hj) (hns j).1
      exact Int.natCast_pos.mpr hpos
    · have hj' := position_of_end hend hj hn
      have hzero := hend (position (amount (fs.inodeLength k)) ns j) (ns j) (hj' ▸ hn)
      exact Int.natCast_eq_zero.mpr hzero
    · rw [hbytes, hcat n, ← hstop, hm]
      rfl

end File

/-! ## Opening and reading -/

theorem openFile_reads {s s₁ : Kernel} {name : List UInt8} {d : Dentry} {fd : Int}
    (hname : s.fs.readDentryByName name = some (some d)) (hreg : d.ftype = 2)
    (hopen : s.openFile (some name) = some (fd, s₁)) (hfd : fd ≠ -1) :
    ∃ i : Nat, fd = i ∧ i < fdescSize ∧ ReadsFile s.fs s₁ i d.inode 0 := by
  unfold openFile at hopen
  dsimp only at hopen
  rw [hname, Option.map_some] at hopen
  dsimp only at hopen
  split at hopen
  · cases hopen
    exact absurd rfl hfd
  · rename_i i hfind
    have hmem := List.mem_of_find?_eq_some hfind
    have hi : i < 8 := by
      simp only [List.mem_cons, List.not_mem_nil, or_false] at hmem
      omega
    cases hopen
    have hne : d.ftype ≠ 1 := by omega
    refine ⟨i, rfl, hi, ?_, ?_, ?_, ?_, ?_⟩
    · simp [hne]
    all_goals simp [cur, setPcb, opened, openDesc, hreg]

/-- **Reading in chunks.** The reads deliver the file if and only if the first one asks
for all of it or the sizes of some first reads add up to its length. -/
theorem chunked_reads_iff {s s₁ : Kernel} {name : List UInt8} {d : Dentry} {fd : Int}
    (hwf : s.fs.WellFormed) (hname : s.fs.readDentryByName name = some (some d))
    (hreg : d.ftype = 2) (hinode : 0 < d.inode ∧ d.inode < s.fs.numInodes)
    (hopen : s.openFile (some name) = some (fd, s₁)) (hfd : fd ≠ -1) (ns : Nat → Nat)
    (hns : ∀ j, 0 < ns j ∧ ns j < 2 ^ 31) (mem : Nat → List UInt8)
    (hmem : ∀ j, ns j ≤ (mem j).length) :
    s₁.DeliversFile fd ns mem (s.fs.contents d.inode) ↔
      s.fs.inodeLength d.inode ≤ ns 0 ∨ ∃ k, total ns k = s.fs.inodeLength d.inode := by
  obtain ⟨i, rfl, hi, h⟩ := openFile_reads hname hreg hopen hfd
  rw [delivers_iff_position h hi hinode hwf hns hmem]
  exact position_eq_len_iff (fun j => (hns j).1) fun _ _ => rfl

theorem shellOnly_wellFormed : FileSys.shellOnly.WellFormed := by
  have hlen : ∀ k < 2, FileSys.shellOnly.inodeLength k ≤ 28 := by decide +kernel
  refine ⟨by decide +kernel, by decide +kernel, fun k hk => ?_, fun k hk j hj => ?_⟩
  · exact Nat.le_trans (hlen k hk) (by decide)
  · have hk' := hlen k hk
    have hzero : j = 0 := by
      simp only [datablkSize] at hj
      omega
    subst hzero
    revert k
    decide +kernel

theorem shellOnly_name : (boot someLayout .shellOnly).fs.readDentryByName (cText "shell") =
    some (some (FileSys.shellOnly.dentry 0)) := by decide +kernel

theorem shellOnly_open : ∃ s₁,
    (boot someLayout .shellOnly).openFile (some (cText "shell")) = some (2, s₁) := by
  obtain ⟨⟨fd, s₁⟩, hopen, rfl⟩ := exists_of_map_decide (fun r : Int × Kernel => r.1 = 2)
    (x := (boot someLayout .shellOnly).openFile (some (cText "shell"))) (by decide +kernel)
  exact ⟨s₁, hopen⟩

theorem chunked_reads_iff_halves : ∃ s₁,
    (boot someLayout .shellOnly).openFile (some (cText "shell")) = some (2, s₁) ∧
      s₁.DeliversFile 2 (fun _ => 14) (fun _ => List.replicate 14 0)
        (FileSys.shellOnly.contents 1) := by
  obtain ⟨s₁, hopen⟩ := shellOnly_open
  refine ⟨s₁, hopen, (chunked_reads_iff shellOnly_wellFormed shellOnly_name (by decide +kernel)
    (by decide +kernel) hopen (by decide) _ (fun _ => by decide) _ fun _ => by simp).mpr ?_⟩
  exact .inr ⟨2, by decide +kernel⟩

/-- A file of 28 bytes read 20 bytes at a time: the second read returns 20 again, of which
12 lie past the end of the file. -/
theorem chunk_past_end : ∃ s₁,
    (boot someLayout .shellOnly).openFile (some (cText "shell")) = some (2, s₁) ∧
      ¬ s₁.DeliversFile 2 (fun _ => 20) (fun _ => List.replicate 20 0)
        (FileSys.shellOnly.contents 1) := by
  obtain ⟨s₁, hopen⟩ := shellOnly_open
  obtain ⟨i, hfd, hi, h⟩ := openFile_reads shellOnly_name (by decide +kernel) hopen (by decide)
  refine ⟨s₁, hopen, fun hfile => ?_⟩
  have hlen : (boot someLayout .shellOnly).fs.inodeLength 1 = 28 := by decide +kernel
  rw [hfd] at hfile
  have hinode : (FileSys.shellOnly.dentry 0).inode = 1 := by decide +kernel
  rw [hinode] at h
  obtain ⟨j, hj⟩ := (delivers_iff_position h hi (by decide +kernel) shellOnly_wellFormed
    (fun _ => by decide) fun _ => by simp).mp hfile
  have hpos : ∀ j, position (amount 28) (fun _ => 20) j = 0 ∨
      position (amount 28) (fun _ => 20) j = 20 ∨ position (amount 28) (fun _ => 20) j = 40 := by
    intro j
    induction j with
    | zero => exact .inl rfl
    | succ j ih =>
      rw [position]
      rcases ih with h | h | h <;> rw [h] <;> decide
  rw [hlen] at hj
  have hj' := hpos j
  omega

end Kernel

end OS391
