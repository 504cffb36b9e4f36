import Mathlib.Tactic.Common
import OS391.Library.X86

/-! The assembler routines of `lib.c` that set, copy and move blocks of memory, and what they
do to a memory for every address, length and alignment. -/

namespace OS391.StringRoutines
open Library.X86 Library.Bytes

inductive Label where
  | memsetTop | memsetAligned | memsetBottom | memsetDone
  | memcpyTop | memcpyAligned | memcpyBottom | memcpyDone
  | memmoveGo
  deriving DecidableEq

variable {R : Type}

/-! ## The routines -/

/-- The assembler of `memset`. -/
def memset : List (Line R Label) := [
  .label .memsetTop,
  .instr (.testl (.reg .ecx) (.reg .ecx)),
  .instr (.jz .memsetDone),
  .instr (.testl (.imm 3) (.reg .edi)),
  .instr (.jz .memsetAligned),
  .instr (.movbFromAl .edi),
  .instr (.addl (.imm 1) .edi),
  .instr (.subl (.imm 1) .ecx),
  .instr (.jmp .memsetTop),
  .label .memsetAligned,
  .instr (.movFromSeg .ds .edx),
  .instr (.movToSeg .edx .es),
  .instr (.movl (.reg .ecx) .edx),
  .instr (.shrl 2 .ecx),
  .instr (.andl (.imm 3) .edx),
  .instr .cld,
  .instr .repStosl,
  .label .memsetBottom,
  .instr (.testl (.reg .edx) (.reg .edx)),
  .instr (.jz .memsetDone),
  .instr (.movbFromAl .edi),
  .instr (.addl (.imm 1) .edi),
  .instr (.subl (.imm 1) .edx),
  .instr (.jmp .memsetBottom),
  .label .memsetDone]

/-- The word that `memset` puts into `%eax`: four times the low byte of `c`. -/
def memsetPattern (c : Word) : Word :=
  let c := c &&& 0xFF
  c <<< 24 ||| c <<< 16 ||| c <<< 8 ||| c

/-- `memset(s, c, n)` as it enters its assembler, at routine `r`. -/
def memsetEntry (m : Machine R) (r : R) (s c n : Word) : Machine R :=
  (((m.setReg .eax (memsetPattern c)).setReg .edi s).setReg .ecx n).goto ⟨r, 0⟩

def memsetWord : List (Line R Label) := [
  .instr (.movFromSeg .ds .edx),
  .instr (.movToSeg .edx .es),
  .instr .cld,
  .instr .repStosw]

def memsetDword : List (Line R Label) := [
  .instr (.movFromSeg .ds .edx),
  .instr (.movToSeg .edx .es),
  .instr .cld,
  .instr .repStosl]

/-- `memset_word(s, c, n)` and `memset_dword(s, c, n)`. -/
def memsetUnitEntry (m : Machine R) (r : R) (s c n : Word) : Machine R :=
  (((m.setReg .eax c).setReg .edi s).setReg .ecx n).goto ⟨r, 0⟩

/-- The assembler of `memcpy`. -/
def memcpy : List (Line R Label) := [
  .label .memcpyTop,
  .instr (.testl (.reg .ecx) (.reg .ecx)),
  .instr (.jz .memcpyDone),
  .instr (.testl (.imm 3) (.reg .edi)),
  .instr (.jz .memcpyAligned),
  .instr (.movbToAl .esi),
  .instr (.movbFromAl .edi),
  .instr (.addl (.imm 1) .edi),
  .instr (.addl (.imm 1) .esi),
  .instr (.subl (.imm 1) .ecx),
  .instr (.jmp .memcpyTop),
  .label .memcpyAligned,
  .instr (.movFromSeg .ds .edx),
  .instr (.movToSeg .edx .es),
  .instr (.movl (.reg .ecx) .edx),
  .instr (.shrl 2 .ecx),
  .instr (.andl (.imm 3) .edx),
  .instr .cld,
  .instr .repMovsl,
  .label .memcpyBottom,
  .instr (.testl (.reg .edx) (.reg .edx)),
  .instr (.jz .memcpyDone),
  .instr (.movbToAl .esi),
  .instr (.movbFromAl .edi),
  .instr (.addl (.imm 1) .edi),
  .instr (.addl (.imm 1) .esi),
  .instr (.subl (.imm 1) .edx),
  .instr (.jmp .memcpyBottom),
  .label .memcpyDone]

/-- The assembler of `memmove`. -/
def memmove : List (Line R Label) := [
  .instr (.movFromSeg .ds .edx),
  .instr (.movToSeg .edx .es),
  .instr .cld,
  .instr (.cmpl (.reg .edi) (.reg .esi)),
  .instr (.jae .memmoveGo),
  .instr (.leal (-1) .esi .ecx .esi),
  .instr (.leal (-1) .edi .ecx .edi),
  .instr .std,
  .label .memmoveGo,
  .instr .repMovsb]

/-- `memcpy(dest, src, n)` and `memmove(dest, src, n)` as they enter their assembler. -/
def copyEntry (m : Machine R) (r : R) (dest src n : Word) : Machine R :=
  (((m.setReg .esi src).setReg .edi dest).setReg .ecx n).goto ⟨r, 0⟩

theorem byteOf_memsetPattern (c : Word) {i : Nat} (hi : i < 4) :
    byteOf (memsetPattern c) i = byteOf c 0 := by
  apply UInt8.toBitVec_inj.mp
  ext j hj
  have hlow (k : Nat) : (255 : Word).getLsbD k = decide (k < 8) := by
    show Nat.testBit (2 ^ 8 - 1) k = _
    exact Nat.testBit_two_pow_sub_one 8 k
  simp only [byteOf, memsetPattern, BitVec.getElem_extractLsb', BitVec.getLsbD_or,
    BitVec.getLsbD_shiftLeft, BitVec.getLsbD_and, hlow]
  obtain rfl | rfl | rfl | rfl : i = 0 ∨ i = 1 ∨ i = 2 ∨ i = 3 := by omega
  all_goals grind

/-! ## Blocks under way -/

/-- The registers that `memset` keeps, and those that `memcpy` does. -/
abbrev memsetKept : List Reg := [.ebx, .esi, .esp, .ebp]
abbrev memcpyKept : List Reg := [.ebx, .esp, .ebp]

/-- The first `done` bytes of a block from `%edi` are set to those of `f`, at line `line`. -/
structure Filling (kept : List Reg) (m0 : Machine R) (f : Nat → UInt8) (line done : Nat)
    (m : Machine R) : Prop where
  pc : m.pc = ⟨m0.pc.routine, line⟩
  edi : m.reg .edi = m0.reg .edi + BitVec.ofNat 32 done
  mem : m.mem = blit m0.mem (m0.reg .edi).toNat f done
  others : ∀ q ∈ kept, m.reg q = m0.reg q
  ds : m.seg .ds = m0.seg .ds
  ie : m.flags.ie = m0.flags.ie

/-- One more byte. -/
theorem storeByte_blit (mem : Memory) {s a : Word} {f : Nat → UInt8} {done : Nat} {b : UInt8}
    (ha : a = s + BitVec.ofNat 32 done) (hb : b = f done) (hfit : s.toNat + (done + 1) ≤ 2 ^ 32) :
    storeByte (blit mem s.toNat f done) a b = blit mem s.toNat f (done + 1) := by
  have hnext : a.toNat = s.toNat + done := by
    rw [ha]
    bv_omega
  rw [hb, ← blit_append mem f fun _ => hnext]
  exact storeByte_eq_blit _ (fun i => f (done + i)) rfl

variable {code : Code R Label} {r : R}

/-- A string instruction does the next `k` bytes. -/
theorem Filling.repeated {kept : List Reg} {m m0 t : Machine R} {f : Nat → UInt8}
    {line done k : Nat} (hm : Filling kept m0 f line done m) (ht : Code.Repeated m t)
    (hkept : ∀ q ∈ kept, t.reg q = m.reg q)
    (hedi : t.reg .edi = m.reg .edi + BitVec.ofNat 32 k)
    (hmem : t.mem = blit m.mem (m.reg .edi).toNat (fun i => f (done + i)) k)
    (hfit : (m0.reg .edi).toNat + (done + k) ≤ 2 ^ 32) :
    Filling kept m0 f (line + 1) (done + k) t where
  pc := by simp [ht.pc, hm.pc]
  edi := by rw [hedi, hm.edi, Code.add_ofNat, Nat.add_comm k]
  mem := by
    rw [hmem, hm.mem]
    refine blit_append _ _ fun hk => ?_
    rw [hm.edi]
    exact Code.toNat_add_ofNat hk (by omega)
  others q hq := (hkept q hq).trans (hm.others q hq)
  ds := by rw [ht.seg, hm.ds]
  ie := by rw [ht.flags, hm.ie]

theorem add_ofNat_succ (a : Word) (j : Nat) :
    a + BitVec.ofNat 32 j + 1#32 = a + BitVec.ofNat 32 (j + 1) := by
  bv_omega

/-- Words and bytes left over of a length. -/
theorem quarters {k : Nat} (hk : k < 2 ^ 32) :
    BitVec.ofNat 32 k >>> 2 = BitVec.ofNat 32 (k / 4) ∧
    3#32 &&& BitVec.ofNat 32 k = BitVec.ofNat 32 (k % 4) := by
  constructor <;> apply BitVec.eq_of_toNat_eq
  · rw [BitVec.toNat_ushiftRight, BitVec.toNat_ofNat, BitVec.toNat_ofNat, Nat.mod_eq_of_lt hk,
      Nat.mod_eq_of_lt (by omega), Nat.shiftRight_eq_div_pow]
  · rw [BitVec.toNat_and, BitVec.toNat_ofNat, BitVec.toNat_ofNat, BitVec.toNat_ofNat,
      Nat.mod_eq_of_lt hk, Nat.mod_eq_of_lt (a := k % 4) (by omega), Nat.and_comm]
    exact Nat.and_two_pow_sub_one_eq_mod k 2

section Memset

variable (hcode : code.lines r = memset)

include hcode

/-- A round of the loop that stores bytes up to an aligned address. -/
theorem memset_top_round {m m0 : Machine R} {c : Word} {done k : Nat} (hr : m0.pc.routine = r)
    (hm : Filling memsetKept m0 (fun _ => byteOf c 0) 0 done m)
    (heax : m.reg .eax = memsetPattern c) (hecx : m.reg .ecx = BitVec.ofNat 32 (k + 1))
    (hk : k + 1 < 2 ^ 32)
    (hds : code.usable (m0.seg .ds) = true) (hal : 3#32 &&& m.reg .edi ≠ 0#32)
    (hfit : (m0.reg .edi).toNat + (done + 1) ≤ 2 ^ 32) :
    ∃ t, code.Steps m t ∧ Filling memsetKept m0 (fun _ => byteOf c 0) 0 (done + 1) t ∧
      t.reg .eax = memsetPattern c ∧ t.reg .ecx = BitVec.ofNat 32 k := by
  have hpc := hm.pc
  have hmem := storeByte_blit m0.mem (f := fun _ => byteOf c 0) hm.edi
    (byteOf_memsetPattern c (i := 0) (by decide)) hfit
  have hne := Code.ofNat_succ_ne hk
  have hsub := Code.ofNat_succ_sub k
  rw [← hm.ds] at hds
  rw [← hm.mem] at hmem
  rw [← hecx] at hne hsub
  apply Code.Steps.exists_of_run (n := 9)
  simp [Code.run, Code.step, hr, hcode, memset, hpc, hne, hal, hds, heax, List.findIdx?,
    List.findIdx?.go]
  refine ⟨⟨?_, ?_, hmem, ?_, hm.ds, hm.ie⟩, hsub⟩
  · simp [hr]
  · simp [hm.edi, add_ofNat_succ]
  · simpa using hm.others

/-- The loop ends at the end of the block or at an aligned address. -/
theorem memset_top {m m0 : Machine R} {c : Word} {done k : Nat} (hr : m0.pc.routine = r)
    (hm : Filling memsetKept m0 (fun _ => byteOf c 0) 0 done m)
    (heax : m.reg .eax = memsetPattern c) (hecx : m.reg .ecx = BitVec.ofNat 32 k) (hk : k < 2 ^ 32)
    (hds : code.usable (m0.seg .ds) = true) (hfit : (m0.reg .edi).toNat + (done + k) ≤ 2 ^ 32) :
    ∃ t, code.Steps m t ∧ (Filling memsetKept m0 (fun _ => byteOf c 0) 25 (done + k) t ∨
      ∃ j k', done + k = j + k' ∧ k' < 2 ^ 32 ∧ Filling memsetKept m0 (fun _ => byteOf c 0) 9 j t ∧
        t.reg .eax = memsetPattern c ∧ t.reg .ecx = BitVec.ofNat 32 k') := by
  induction k generalizing m done with
  | zero =>
    have hpc := hm.pc
    apply Code.Steps.exists_of_run (n := 4)
    simp [Code.run, Code.step, hr, hcode, memset, hpc, hecx, List.findIdx?, List.findIdx?.go]
    exact .inl ⟨by simp [hr], hm.edi, hm.mem, hm.others, hm.ds, hm.ie⟩
  | succ k ih =>
    by_cases hal : 3#32 &&& m.reg .edi = 0#32
    · have hpc := hm.pc
      have hne := Code.ofNat_succ_ne hk
      rw [← hecx] at hne
      apply Code.Steps.exists_of_run (n := 5)
      simp [Code.run, Code.step, hr, hcode, memset, hpc, hne, hal, List.findIdx?, List.findIdx?.go]
      exact .inr ⟨done, k + 1, rfl, hk, ⟨by simp [hr], hm.edi, hm.mem, hm.others, hm.ds, hm.ie⟩,
        heax, hecx⟩
    · obtain ⟨m', hsteps, hm', heax', hecx'⟩ :=
        memset_top_round hcode hr hm heax hecx hk hds hal (by omega)
      obtain ⟨t, ht, hend⟩ := ih hm' heax' hecx' (by omega) (by omega)
      rw [show done + 1 + k = done + (k + 1) by omega] at hend
      exact ⟨t, hsteps.trans ht, hend⟩

/-- The words between. -/
theorem memset_words {m m0 : Machine R} {c : Word} {done k : Nat} (hr : m0.pc.routine = r)
    (hm : Filling memsetKept m0 (fun _ => byteOf c 0) 9 done m)
    (heax : m.reg .eax = memsetPattern c) (hecx : m.reg .ecx = BitVec.ofNat 32 k) (hk : k < 2 ^ 32)
    (hds : code.usable (m0.seg .ds) = true) (hfit : (m0.reg .edi).toNat + (done + k) ≤ 2 ^ 32) :
    ∃ t, code.Steps m t ∧ Filling memsetKept m0 (fun _ => byteOf c 0) 17 (done + 4 * (k / 4)) t ∧
      t.reg .eax = memsetPattern c ∧ t.reg .edx = BitVec.ofNat 32 (k % 4) := by
  obtain ⟨hshr, hand⟩ := quarters hk
  obtain ⟨m', hsteps, hm', hes, hdf, heax', hecx', hedx⟩ : ∃ m', code.Steps m m' ∧
      Filling memsetKept m0 (fun _ => byteOf c 0) 16 done m' ∧ code.usable (m'.seg .es) = true ∧
      m'.flags.df = false ∧ m'.reg .eax = memsetPattern c ∧
      m'.reg .ecx = BitVec.ofNat 32 (k / 4) ∧ m'.reg .edx = BitVec.ofNat 32 (k % 4) := by
    have hpc := hm.pc
    rw [← hm.ds] at hds
    apply Code.Steps.exists_of_run (n := 7)
    simp [Code.run, Code.step, hr, hcode, memset, hpc, hecx, hshr, hand, low16_append, hds, heax]
    refine ⟨by simp [hr], by simpa using hm.edi, hm.mem, by simpa using hm.others, ?_, hm.ie⟩
    simpa using hm.ds
  have hedi : (m'.reg .edi).toNat + 4 * (k / 4) ≤ 2 ^ 32 := by
    rw [hm'.edi]
    bv_omega
  obtain ⟨t, ht, hrep, hesi, hedi', hmem⟩ := Code.rep_stos (w := 4)
    (fun m hpc h => Code.rep_end hpc (by rw [hcode]; rfl) rfl h)
    (fun m hpc => Code.stosl_round hpc (by rw [hcode]; rfl))
    (hr ▸ hm'.pc) hes hdf (by omega) hecx' hedi
  have hkept : ∀ q ∈ memsetKept, t.reg q = m'.reg q := by
    intro q hq
    by_cases hq' : q = .esi
    · exact hq' ▸ hesi
    · refine hrep.others q ?_ hq' ?_ <;> rintro rfl <;> simp at hq
  refine ⟨t, hsteps.trans ht, hm'.repeated hrep hkept hedi' (hmem.trans ?_) (by omega),
    (hrep.others .eax (by decide) (by decide) (by decide)).trans heax',
    (hrep.others .edx (by decide) (by decide) (by decide)).trans hedx⟩
  refine blit_congr _ _ fun i _ => ?_
  rw [heax', byteOf_memsetPattern c (Nat.mod_lt i (by decide))]

/-- The bytes left over. -/
theorem memset_bottom {m m0 : Machine R} {c : Word} {done k : Nat} (hr : m0.pc.routine = r)
    (hm : Filling memsetKept m0 (fun _ => byteOf c 0) 17 done m)
    (heax : m.reg .eax = memsetPattern c) (hedx : m.reg .edx = BitVec.ofNat 32 k) (hk : k < 2 ^ 32)
    (hds : code.usable (m0.seg .ds) = true) (hfit : (m0.reg .edi).toNat + (done + k) ≤ 2 ^ 32) :
    ∃ t, code.Steps m t ∧ Filling memsetKept m0 (fun _ => byteOf c 0) 25 (done + k) t := by
  induction k generalizing m done with
  | zero =>
    have hpc := hm.pc
    apply Code.Steps.exists_of_run (n := 4)
    simp [Code.run, Code.step, hr, hcode, memset, hpc, hedx, List.findIdx?, List.findIdx?.go]
    exact ⟨by simp [hr], hm.edi, hm.mem, hm.others, hm.ds, hm.ie⟩
  | succ k ih =>
    obtain ⟨m', hsteps, hm', heax', hedx'⟩ : ∃ m', code.Steps m m' ∧
        Filling memsetKept m0 (fun _ => byteOf c 0) 17 (done + 1) m' ∧
        m'.reg .eax = memsetPattern c ∧ m'.reg .edx = BitVec.ofNat 32 k := by
      have hpc := hm.pc
      have hmem := storeByte_blit m0.mem (f := fun _ => byteOf c 0) hm.edi
        (byteOf_memsetPattern c (i := 0) (by decide)) (by omega)
      have hne := Code.ofNat_succ_ne hk
      have hsub := Code.ofNat_succ_sub k
      rw [← hm.ds] at hds
      rw [← hm.mem] at hmem
      rw [← hedx] at hne hsub
      apply Code.Steps.exists_of_run (n := 7)
      simp [Code.run, Code.step, hr, hcode, memset, hpc, hne, hds, heax, List.findIdx?,
        List.findIdx?.go]
      refine ⟨⟨?_, ?_, hmem, ?_, hm.ds, hm.ie⟩, hsub⟩
      · simp [hr]
      · simp [hm.edi, add_ofNat_succ]
      · simpa using hm.others
    obtain ⟨t, ht, hend⟩ := ih hm' heax' hedx' (by omega) (by omega)
    rw [show done + 1 + k = done + (k + 1) by omega] at hend
    exact ⟨t, hsteps.trans ht, hend⟩

end Memset

/-- **`memset` fills the block**, for every address, alignment and length, whatever `%es` and the
direction flag are when it starts. It leaves `%edi` behind the block. -/
theorem memset_fill (hcode : code.lines r = memset) (m : Machine R) (s c n : Word)
    (hds : code.usable (m.seg .ds) = true) (hfit : s.toNat + n.toNat ≤ 2 ^ 32) :
    ∃ t, code.Steps (memsetEntry m r s c n) t ∧ t.pc = ⟨r, (code.lines r).length⟩ ∧
      t.mem = fill m.mem s.toNat n.toNat (byteOf c 0) ∧
      (∀ q ∈ [Reg.ebx, .esi, .esp, .ebp], t.reg q = m.reg q) ∧ t.reg .edi = s + n ∧
      t.seg .ds = m.seg .ds ∧ t.flags.ie = m.flags.ie := by
  let m0 := memsetEntry m r s c n
  have h0 : Filling memsetKept m0 (fun _ => byteOf c 0) 0 0 m0 :=
    ⟨rfl, by simp, (blit_zero _ _ _).symm, fun _ _ => rfl, rfl, rfl⟩
  have hn : m0.reg .ecx = BitVec.ofNat 32 n.toNat := by simp [m0, memsetEntry]
  have hend : ∃ t, code.Steps m0 t ∧ Filling memsetKept m0 (fun _ => byteOf c 0) 25 n.toNat t := by
    have hs : (m0.reg .edi).toNat + (0 + n.toNat) ≤ 2 ^ 32 := by simpa [m0, memsetEntry] using hfit
    obtain ⟨t, ht, hend | ⟨j, k, hjk, hk, hm, heax, hecx⟩⟩ :=
      memset_top hcode rfl h0 (by simp [m0, memsetEntry]) hn n.isLt hds hs
    · exact ⟨t, ht, Nat.zero_add n.toNat ▸ hend⟩
    · obtain ⟨t', ht', hm', heax', hedx⟩ := memset_words hcode rfl hm heax hecx hk hds (by omega)
      obtain ⟨u, hu, hend⟩ := memset_bottom hcode rfl hm' heax' hedx (by omega) hds (by omega)
      refine ⟨u, (ht.trans ht').trans hu, ?_⟩
      rwa [show j + 4 * (k / 4) + k % 4 = n.toNat by omega] at hend
  obtain ⟨t, ht, hend⟩ := hend
  have hregs : ∀ q ∈ memsetKept, m0.reg q = m.reg q := by simp [m0, memsetEntry]
  have hedi : t.reg .edi = s + n := by
    rw [hend.edi]
    simp [m0, memsetEntry]
  refine ⟨t, ht, hend.pc.trans (by rw [hcode]; rfl), ?_,
    fun q hq => (hend.others q hq).trans (hregs q hq), hedi, hend.ds, hend.ie⟩
  show t.mem = blit m.mem s.toNat (fun _ => byteOf c 0) n.toNat
  simpa [m0, memsetEntry] using hend.mem

/-- The processor as the boot loader leaves it, with `%ds` in use and `m` for memory. -/
def booted (mem : Memory) : Machine Unit where
  reg _ := 0
  seg _ := 0x18
  flags := ⟨false, false, true, false⟩
  mem := mem
  pc := ⟨(), 0⟩
  tssEsp0 := 0
  tssSs0 := 0

/-- Usable is the segment of the kernel's data. -/
def alone (lines : List (Line Unit Label)) (h : lines.length ≤ 2 ^ 32) : Code Unit Label :=
  .alone lines h (· = 0x18)

theorem memset_fill_odd : ∃ t, (alone memset (by decide)).Steps
    (memsetEntry (booted fun _ => 7) () 0xB8001 0x120 4001) t ∧ t.mem 0xB8FA1 = 0x20 ∧
      t.mem 0xB8FA2 = 7 := by
  obtain ⟨t, ht, -, hmem, -⟩ := memset_fill
    (show (alone memset (by decide)).lines () = memset from rfl)
    (booted fun _ => 7) 0xB8001 0x120 4001 (by decide) (by decide)
  refine ⟨t, ht, ?_, ?_⟩ <;> rw [hmem] <;> decide

/-- `memset_word` sets `n` halfwords, which are `2 * n` bytes. -/
theorem memsetWord_fill (hcode : code.lines r = memsetWord) (m : Machine R) (s c n : Word)
    (hds : code.usable (m.seg .ds) = true) (hfit : s.toNat + 2 * n.toNat ≤ 2 ^ 32) :
    ∃ t, code.Steps (memsetUnitEntry m r s c n) t ∧ t.pc = ⟨r, (code.lines r).length⟩ ∧
      t.mem = blit m.mem s.toNat (fun i => byteOf c (i % 2)) (2 * n.toNat) := by
  obtain ⟨m', hsteps, hpc, hes, hdf, hmem, hecx, hedi, heax⟩ :
      ∃ m', code.Steps (memsetUnitEntry m r s c n) m' ∧ m'.pc = ⟨r, 3⟩ ∧
        code.usable (m'.seg .es) = true ∧ m'.flags.df = false ∧ m'.mem = m.mem ∧
        m'.reg .ecx = n ∧ m'.reg .edi = s ∧ m'.reg .eax = c := by
    apply Code.Steps.exists_of_run (n := 3)
    simp [Code.run, Code.step, hcode, memsetWord, memsetUnitEntry, low16_append, hds]
  obtain ⟨t, ht, hrep, -, -, hmem'⟩ := Code.rep_stos (w := 2)
    (fun m hpc h => Code.rep_end hpc (by rw [hcode]; rfl) rfl h)
    (fun m hpc => Code.stosw_round hpc (by rw [hcode]; rfl))
    hpc hes hdf n.isLt (by simpa using hecx) (hedi ▸ hfit)
  refine ⟨t, hsteps.trans ht, ?_, ?_⟩
  · rw [hrep.pc, hcode]
    simp [hpc, memsetWord]
  · rw [hmem', hmem, hedi, heax]

/-- `memset_dword` sets `n` words, which are `4 * n` bytes. -/
theorem memsetDword_fill (hcode : code.lines r = memsetDword) (m : Machine R) (s c n : Word)
    (hds : code.usable (m.seg .ds) = true) (hfit : s.toNat + 4 * n.toNat ≤ 2 ^ 32) :
    ∃ t, code.Steps (memsetUnitEntry m r s c n) t ∧ t.pc = ⟨r, (code.lines r).length⟩ ∧
      t.mem = blit m.mem s.toNat (fun i => byteOf c (i % 4)) (4 * n.toNat) := by
  obtain ⟨m', hsteps, hpc, hes, hdf, hmem, hecx, hedi, heax⟩ :
      ∃ m', code.Steps (memsetUnitEntry m r s c n) m' ∧ m'.pc = ⟨r, 3⟩ ∧
        code.usable (m'.seg .es) = true ∧ m'.flags.df = false ∧ m'.mem = m.mem ∧
        m'.reg .ecx = n ∧ m'.reg .edi = s ∧ m'.reg .eax = c := by
    apply Code.Steps.exists_of_run (n := 3)
    simp [Code.run, Code.step, hcode, memsetDword, memsetUnitEntry, low16_append, hds]
  obtain ⟨t, ht, hrep, -, -, hmem'⟩ := Code.rep_stos (w := 4)
    (fun m hpc h => Code.rep_end hpc (by rw [hcode]; rfl) rfl h)
    (fun m hpc => Code.stosl_round hpc (by rw [hcode]; rfl))
    hpc hes hdf n.isLt (by simpa using hecx) (hedi ▸ hfit)
  refine ⟨t, hsteps.trans ht, ?_, ?_⟩
  · rw [hrep.pc, hcode]
    simp [hpc, memsetDword]
  · rw [hmem', hmem, hedi, heax]

/-- The address that comes next. -/
theorem toNat_next {a s : Word} {done : Nat} (ha : a = s + BitVec.ofNat 32 done)
    (hfit : s.toNat + (done + 1) ≤ 2 ^ 32) : a.toNat = s.toNat + done := by
  rw [ha]
  bv_omega

/-- `f` is the block from `%esi`, of `n` bytes, that is copied to `%edi`. -/
structure Copying (m0 : Machine R) (n : Nat) : Prop where
  dst : (m0.reg .edi).toNat + n ≤ 2 ^ 32
  src : (m0.reg .esi).toNat + n ≤ 2 ^ 32
  apart : (m0.reg .edi).toNat ≤ (m0.reg .esi).toNat ∨
    (m0.reg .esi).toNat + n ≤ (m0.reg .edi).toNat

/-- The bytes of the source. -/
def source (m0 : Machine R) (i : Nat) : UInt8 := m0.mem ((m0.reg .esi).toNat + i)

/-- What is still to be copied has not been overwritten. -/
theorem Copying.ahead {m0 : Machine R} {n done i : Nat} (h : Copying m0 n) (hi : done ≤ i)
    (hn : i < n) :
    blit m0.mem (m0.reg .edi).toNat (source m0) done ((m0.reg .esi).toNat + i) = source m0 i := by
  have hapart := h.apart
  rw [blit, if_neg (by omega), source]

/-- One more byte copied. -/
theorem Copying.next_byte {m m0 : Machine R} {n line done : Nat} (h : Copying m0 n)
    (hm : Filling memcpyKept m0 (source m0) line done m)
    (hesi : m.reg .esi = m0.reg .esi + BitVec.ofNat 32 done) (hn : done + 1 ≤ n) :
    storeByte m.mem (m.reg .edi) (m.mem (m.reg .esi).toNat) =
      blit m0.mem (m0.reg .edi).toNat (source m0) (done + 1) := by
  have hdst := h.dst
  have hsrc := h.src
  rw [hm.mem]
  refine storeByte_blit m0.mem hm.edi ?_ (by omega)
  rw [toNat_next hesi (by omega), h.ahead (Nat.le_refl done) (by omega)]

/-- What is left to be copied is a copying of its own. -/
theorem Copying.rest {m m0 : Machine R} {n line done j : Nat} (h : Copying m0 n)
    (hm : Filling memcpyKept m0 (source m0) line done m)
    (hesi : m.reg .esi = m0.reg .esi + BitVec.ofNat 32 done) (hn : done + j ≤ n) :
    Copying m j ∧ ∀ i, i < j → source m i = source m0 (done + i) := by
  have hdst := h.dst
  have hsrc := h.src
  have hapart := h.apart
  have hedi32 := (m.reg .edi).isLt
  have hesi32 := (m.reg .esi).isLt
  rcases Nat.eq_zero_or_pos j with rfl | hj
  · exact ⟨⟨by omega, by omega, by omega⟩, fun i hi => absurd hi (Nat.not_lt_zero i)⟩
  · have hd := toNat_next hm.edi (by omega)
    have hs := toNat_next hesi (by omega)
    refine ⟨⟨by omega, by omega, by omega⟩, fun i hi => ?_⟩
    rw [source, hm.mem, hs, Nat.add_assoc, h.ahead (Nat.le_add_right done i) (by omega)]

section Memcpy

variable (hcode : code.lines r = memcpy)

include hcode

/-- A round of the loop that copies bytes up to an aligned address. -/
theorem memcpy_top_round {m m0 : Machine R} {n done k : Nat} (hr : m0.pc.routine = r)
    (hc : Copying m0 n) (hm : Filling memcpyKept m0 (source m0) 0 done m)
    (hesi : m.reg .esi = m0.reg .esi + BitVec.ofNat 32 done)
    (hecx : m.reg .ecx = BitVec.ofNat 32 (k + 1)) (hn : done + (k + 1) = n) (hk : k + 1 < 2 ^ 32)
    (hds : code.usable (m0.seg .ds) = true) (hal : 3#32 &&& m.reg .edi ≠ 0#32) :
    ∃ t, code.Steps m t ∧ Filling memcpyKept m0 (source m0) 0 (done + 1) t ∧
      t.reg .esi = m0.reg .esi + BitVec.ofNat 32 (done + 1) ∧ t.reg .ecx = BitVec.ofNat 32 k := by
  have hpc := hm.pc
  have hdst := hc.dst
  have hmem := hc.next_byte hm hesi (by omega)
  have hne := Code.ofNat_succ_ne hk
  have hsub := Code.ofNat_succ_sub k
  rw [← hm.ds] at hds
  rw [← hecx] at hne hsub
  apply Code.Steps.exists_of_run (n := 11)
  simp [Code.run, Code.step, hr, hcode, memcpy, hpc, hne, hal, hds, List.findIdx?,
    List.findIdx?.go]
  refine ⟨⟨by simp [hr], ?_, ?_, ?_, hm.ds, hm.ie⟩, ?_, hsub⟩
  · simp [hm.edi, add_ofNat_succ]
  · simpa [byteOf_append] using hmem
  · simpa using hm.others
  · rw [hesi, add_ofNat_succ]

/-- The loop ends at the end of the block or at an aligned address. -/
theorem memcpy_top {m m0 : Machine R} {n done k : Nat} (hr : m0.pc.routine = r)
    (hc : Copying m0 n) (hm : Filling memcpyKept m0 (source m0) 0 done m)
    (hesi : m.reg .esi = m0.reg .esi + BitVec.ofNat 32 done)
    (hecx : m.reg .ecx = BitVec.ofNat 32 k) (hn : done + k = n) (hk : k < 2 ^ 32)
    (hds : code.usable (m0.seg .ds) = true) :
    ∃ t, code.Steps m t ∧ (Filling memcpyKept m0 (source m0) 29 n t ∨
      ∃ j k', j + k' = n ∧ k' < 2 ^ 32 ∧ Filling memcpyKept m0 (source m0) 11 j t ∧
        t.reg .esi = m0.reg .esi + BitVec.ofNat 32 j ∧ t.reg .ecx = BitVec.ofNat 32 k') := by
  induction k generalizing m done with
  | zero =>
    have hpc := hm.pc
    apply Code.Steps.exists_of_run (n := 4)
    simp [Code.run, Code.step, hr, hcode, memcpy, hpc, hecx, List.findIdx?, List.findIdx?.go]
    exact .inl ⟨by simp [hr], hn ▸ hm.edi, hn ▸ hm.mem, hm.others, hm.ds, hm.ie⟩
  | succ k ih =>
    by_cases hal : 3#32 &&& m.reg .edi = 0#32
    · have hpc := hm.pc
      have hne := Code.ofNat_succ_ne hk
      rw [← hecx] at hne
      apply Code.Steps.exists_of_run (n := 5)
      simp [Code.run, Code.step, hr, hcode, memcpy, hpc, hne, hal, List.findIdx?, List.findIdx?.go]
      exact .inr ⟨done, k + 1, hn, hk, ⟨by simp [hr], hm.edi, hm.mem, hm.others, hm.ds, hm.ie⟩,
        hesi, hecx⟩
    · obtain ⟨m', hsteps, hm', hesi', hecx'⟩ :=
        memcpy_top_round hcode hr hc hm hesi hecx hn hk hds hal
      obtain ⟨t, ht, hend⟩ := ih hm' hesi' hecx' (by omega) (by omega)
      exact ⟨t, hsteps.trans ht, hend⟩

/-- The words between. -/
theorem memcpy_words {m m0 : Machine R} {n done k : Nat} (hr : m0.pc.routine = r)
    (hc : Copying m0 n) (hm : Filling memcpyKept m0 (source m0) 11 done m)
    (hesi : m.reg .esi = m0.reg .esi + BitVec.ofNat 32 done)
    (hecx : m.reg .ecx = BitVec.ofNat 32 k) (hn : done + k = n) (hk : k < 2 ^ 32)
    (hds : code.usable (m0.seg .ds) = true) :
    ∃ t, code.Steps m t ∧ Filling memcpyKept m0 (source m0) 19 (done + 4 * (k / 4)) t ∧
      t.reg .esi = m0.reg .esi + BitVec.ofNat 32 (done + 4 * (k / 4)) ∧
      t.reg .edx = BitVec.ofNat 32 (k % 4) := by
  obtain ⟨hshr, hand⟩ := quarters hk
  have hdst := hc.dst
  have hsrc := hc.src
  obtain ⟨m', hsteps, hm', hes, hdf, hesi', hecx', hedx⟩ : ∃ m', code.Steps m m' ∧
      Filling memcpyKept m0 (source m0) 18 done m' ∧ code.usable (m'.seg .es) = true ∧
      m'.flags.df = false ∧ m'.reg .esi = m0.reg .esi + BitVec.ofNat 32 done ∧
      m'.reg .ecx = BitVec.ofNat 32 (k / 4) ∧ m'.reg .edx = BitVec.ofNat 32 (k % 4) := by
    have hpc := hm.pc
    rw [← hm.ds] at hds
    apply Code.Steps.exists_of_run (n := 7)
    simp [Code.run, Code.step, hr, hcode, memcpy, hpc, hecx, hshr, hand, low16_append, hds, hesi]
    refine ⟨by simp [hr], by simpa using hm.edi, hm.mem, by simpa using hm.others, ?_, hm.ie⟩
    simpa using hm.ds
  obtain ⟨hrest, hsource⟩ := hc.rest hm' hesi' (j := 4 * (k / 4)) (by omega)
  obtain ⟨t, ht, hrep, hesi'', hedi', hmem⟩ := Code.rep_movs (w := 4)
    (fun m hpc h => Code.rep_end hpc (by rw [hcode]; rfl) rfl h)
    (fun m hpc => Code.movsl_round hpc (by rw [hcode]; rfl))
    (hr ▸ hm'.pc) (hm'.ds ▸ hds) hes hdf (by omega) hecx' hrest.dst hrest.src hrest.apart
  have hkept : ∀ q ∈ memcpyKept, t.reg q = m'.reg q := by
    intro q hq
    refine hrep.others q ?_ ?_ ?_ <;> rintro rfl <;> simp at hq
  refine ⟨t, hsteps.trans ht, hm'.repeated hrep hkept hedi' (hmem.trans ?_) (by omega), ?_,
    (hrep.others .edx (by decide) (by decide) (by decide)).trans hedx⟩
  · exact blit_congr _ _ hsource
  · rw [hesi'', hesi', Code.add_ofNat, Nat.add_comm done]

/-- The bytes left over. -/
theorem memcpy_bottom {m m0 : Machine R} {n done k : Nat} (hr : m0.pc.routine = r)
    (hc : Copying m0 n) (hm : Filling memcpyKept m0 (source m0) 19 done m)
    (hesi : m.reg .esi = m0.reg .esi + BitVec.ofNat 32 done)
    (hedx : m.reg .edx = BitVec.ofNat 32 k) (hn : done + k = n) (hk : k < 2 ^ 32)
    (hds : code.usable (m0.seg .ds) = true) :
    ∃ t, code.Steps m t ∧ Filling memcpyKept m0 (source m0) 29 n t := by
  induction k generalizing m done with
  | zero =>
    have hpc := hm.pc
    apply Code.Steps.exists_of_run (n := 4)
    simp [Code.run, Code.step, hr, hcode, memcpy, hpc, hedx, List.findIdx?, List.findIdx?.go]
    exact ⟨by simp [hr], hn ▸ hm.edi, hn ▸ hm.mem, hm.others, hm.ds, hm.ie⟩
  | succ k ih =>
    obtain ⟨m', hsteps, hm', hesi', hedx'⟩ : ∃ m', code.Steps m m' ∧
        Filling memcpyKept m0 (source m0) 19 (done + 1) m' ∧
        m'.reg .esi = m0.reg .esi + BitVec.ofNat 32 (done + 1) ∧
        m'.reg .edx = BitVec.ofNat 32 k := by
      have hpc := hm.pc
      have hmem := hc.next_byte hm hesi (by omega)
      have hne := Code.ofNat_succ_ne hk
      have hsub := Code.ofNat_succ_sub k
      rw [← hm.ds] at hds
      rw [← hedx] at hne hsub
      apply Code.Steps.exists_of_run (n := 9)
      simp [Code.run, Code.step, hr, hcode, memcpy, hpc, hne, hds, List.findIdx?,
        List.findIdx?.go]
      refine ⟨⟨by simp [hr], ?_, ?_, ?_, hm.ds, hm.ie⟩, ?_, hsub⟩
      · simp [hm.edi, add_ofNat_succ]
      · simpa [byteOf_append] using hmem
      · simpa using hm.others
      · rw [hesi, add_ofNat_succ]
    obtain ⟨t, ht, hend⟩ := ih hm' hesi' hedx' (by omega) (by omega)
    exact ⟨t, hsteps.trans ht, hend⟩

end Memcpy

/-- **`memcpy` copies the block**, whatever the two alignments, when the destination is below
the source or the blocks are apart. -/
theorem memcpy_copies (hcode : code.lines r = memcpy) (m : Machine R) (dest src n : Word)
    (hds : code.usable (m.seg .ds) = true) (hdst : dest.toNat + n.toNat ≤ 2 ^ 32)
    (hsrc : src.toNat + n.toNat ≤ 2 ^ 32)
    (hapart : dest.toNat ≤ src.toNat ∨ src.toNat + n.toNat ≤ dest.toNat) :
    ∃ t, code.Steps (copyEntry m r dest src n) t ∧ t.pc = ⟨r, (code.lines r).length⟩ ∧
      t.mem = blit m.mem dest.toNat (fun i => m.mem (src.toNat + i)) n.toNat ∧
      (∀ q ∈ [Reg.ebx, .esp, .ebp], t.reg q = m.reg q) ∧ t.seg .ds = m.seg .ds ∧
      t.flags.ie = m.flags.ie := by
  let m0 := copyEntry m r dest src n
  have h0 : Filling memcpyKept m0 (source m0) 0 0 m0 :=
    ⟨rfl, by simp, (blit_zero _ _ _).symm, fun _ _ => rfl, rfl, rfl⟩
  have hc : Copying m0 n.toNat := by constructor <;> simpa [m0, copyEntry]
  have hn : m0.reg .ecx = BitVec.ofNat 32 n.toNat := by simp [m0, copyEntry]
  obtain ⟨t, ht, hend⟩ : ∃ t, code.Steps m0 t ∧ Filling memcpyKept m0 (source m0) 29 n.toNat t := by
    obtain ⟨t, ht, hend | ⟨j, k, hjk, hk, hm, hesi, hecx⟩⟩ :=
      memcpy_top hcode rfl hc h0 (by simp) hn (Nat.zero_add _) n.isLt hds
    · exact ⟨t, ht, hend⟩
    · obtain ⟨t', ht', hm', hesi', hedx⟩ := memcpy_words hcode rfl hc hm hesi hecx hjk hk hds
      obtain ⟨u, hu, hend⟩ := memcpy_bottom hcode rfl hc hm' hesi' hedx (by omega) (by omega) hds
      exact ⟨u, (ht.trans ht').trans hu, hend⟩
  have hregs : ∀ q ∈ memcpyKept, m0.reg q = m.reg q := by simp [m0, copyEntry]
  refine ⟨t, ht, hend.pc.trans (by rw [hcode]; rfl), ?_,
    fun q hq => (hend.others q hq).trans (hregs q hq), hend.ds, hend.ie⟩
  have hsource : source m0 = fun i => m.mem (src.toNat + i) := by
    funext i
    simp [source, m0, copyEntry]
  rw [hend.mem, hsource]
  simp [m0, copyEntry]

theorem memcpy_copies_down : ∃ t, (alone memcpy (by decide)).Steps
    (copyEntry (booted UInt8.ofNat) () 0x101 0x106 11) t ∧ t.mem 0x10B = 0x10 ∧
      t.mem 0x10C = 0x0C := by
  obtain ⟨t, ht, -, hmem, -⟩ := memcpy_copies
    (show (alone memcpy (by decide)).lines () = memcpy from rfl)
    (booted UInt8.ofNat) 0x101 0x106 11 (by decide) (by decide) (by decide) (by decide)
  refine ⟨t, ht, ?_, ?_⟩ <;> rw [hmem] <;> decide

/-- **`memmove` moves the block**, however the two blocks overlap; it leaves the direction flag
set when it has moved downwards. -/
theorem memmove_moves (hcode : code.lines r = memmove) (m : Machine R) (dest src n : Word)
    (hds : code.usable (m.seg .ds) = true) (hdst : dest.toNat + n.toNat ≤ 2 ^ 32)
    (hsrc : src.toNat + n.toNat ≤ 2 ^ 32) :
    ∃ t, code.Steps (copyEntry m r dest src n) t ∧ t.pc = ⟨r, (code.lines r).length⟩ ∧
      t.mem = blit m.mem dest.toNat (fun i => m.mem (src.toNat + i)) n.toNat ∧
      t.flags.df = decide (src.toNat < dest.toNat) := by
  by_cases hlt : src.toNat < dest.toNat
  · -- downwards: the destination is above the source
    have hcf : src < dest := hlt
    obtain ⟨m', hsteps, hpc, hds', hes, hdf, hmem, hecx, hedi, hesi⟩ :
        ∃ m', code.Steps (copyEntry m r dest src n) m' ∧ m'.pc = ⟨r, 9⟩ ∧
          code.usable (m'.seg .ds) = true ∧ code.usable (m'.seg .es) = true ∧
          m'.flags.df = true ∧ m'.mem = m.mem ∧ m'.reg .ecx = n ∧
          m'.reg .edi = dest + n + -1#32 ∧ m'.reg .esi = src + n + -1#32 := by
      apply Code.Steps.exists_of_run (n := 9)
      simp [Code.run, Code.step, hcode, memmove, copyEntry, low16_append, hds, hcf]
    have hlast (a : Word) : a + n + -1#32 = BitVec.ofNat 32 (a.toNat + n.toNat) - 1#32 := by
      bv_omega
    obtain ⟨t, ht, hrep, hmem'⟩ := Code.rep_movsb_down (by rw [hcode]; rfl) hpc hds' hes hdf n.isLt
      (by simpa using hecx) hdst hsrc (hedi.trans (hlast dest)) (hesi.trans (hlast src))
      (.inl (Nat.le_of_lt hlt))
    refine ⟨t, hsteps.trans ht, ?_, ?_, ?_⟩
    · rw [hrep.pc, hcode]
      simp [hpc, memmove]
    · rw [hmem', hmem]
    · rw [hrep.flags, hdf, decide_eq_true hlt]
  · -- upwards: the source is not below the destination
    have hcf : ¬ src < dest := hlt
    obtain ⟨m', hsteps, hpc, hds', hes, hdf, hmem, hecx, hedi, hesi⟩ :
        ∃ m', code.Steps (copyEntry m r dest src n) m' ∧ m'.pc = ⟨r, 9⟩ ∧
          code.usable (m'.seg .ds) = true ∧ code.usable (m'.seg .es) = true ∧
          m'.flags.df = false ∧ m'.mem = m.mem ∧ m'.reg .ecx = n ∧ m'.reg .edi = dest ∧
          m'.reg .esi = src := by
      apply Code.Steps.exists_of_run (n := 6)
      simp [Code.run, Code.step, hcode, memmove, copyEntry, low16_append, hds, hcf,
        List.findIdx?, List.findIdx?.go]
    obtain ⟨t, ht, hrep, -, -, hmem'⟩ := Code.rep_movs (w := 1)
      (fun m hpc h => Code.rep_end hpc (by rw [hcode]; rfl) rfl h)
      (fun m hpc hds hes hecx _ _ => Code.movsb_round_up hpc (by rw [hcode]; rfl) hds hes hecx)
      hpc hds' hes hdf n.isLt (by simpa using hecx) (by rw [hedi]; omega) (by rw [hesi]; omega)
      (.inl (by rw [hedi, hesi]; omega))
    refine ⟨t, hsteps.trans ht, ?_, ?_, ?_⟩
    · rw [hrep.pc, hcode]
      simp [hpc, memmove]
    · rw [hmem', hmem, hedi, hesi, Nat.one_mul]
    · rw [hrep.flags, hdf, decide_eq_false hlt]

theorem memmove_moves_up : ∃ t, (alone memmove (by decide)).Steps
    (copyEntry (booted UInt8.ofNat) () 0x106 0x101 11) t ∧ t.mem 0x110 = 0x0B ∧
      t.flags.df = true := by
  obtain ⟨t, ht, -, hmem, hdf⟩ := memmove_moves
    (show (alone memmove (by decide)).lines () = memmove from rfl)
    (booted UInt8.ofNat) 0x106 0x101 11 (by decide) (by decide) (by decide)
  refine ⟨t, ht, ?_, hdf.trans (by decide)⟩
  rw [hmem]
  decide

end OS391.StringRoutines
