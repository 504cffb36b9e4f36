import Mathlib.Tactic.IntervalCases
import OS391.Library.BitFields

/-! The two descriptors that `entry` constructs in the GDT: the fields of `seg_desc_t`, and the
segments that the processor reads from them. -/

namespace OS391.Segments
open Library.BitFields

abbrev Desc := BitVec 64

abbrev segLim1500 : Field 64 := ⟨0, 16, by decide⟩
abbrev base1500 : Field 64 := ⟨16, 16, by decide⟩
abbrev base2316 : Field 64 := ⟨32, 8, by decide⟩
abbrev type : Field 64 := ⟨40, 4, by decide⟩
abbrev sys : Field 64 := ⟨44, 1, by decide⟩
abbrev dpl : Field 64 := ⟨45, 2, by decide⟩
abbrev present : Field 64 := ⟨47, 1, by decide⟩
abbrev segLim1916 : Field 64 := ⟨48, 4, by decide⟩
abbrev avail : Field 64 := ⟨52, 1, by decide⟩
abbrev reserved : Field 64 := ⟨53, 1, by decide⟩
abbrev opsize : Field 64 := ⟨54, 1, by decide⟩
abbrev granularity : Field 64 := ⟨55, 1, by decide⟩
abbrev base3124 : Field 64 := ⟨56, 8, by decide⟩

def set (f : Field 64) (v : Nat) (d : Desc) : Desc := f.put (BitVec.ofNat f.width v) d

def read (f : Field 64) (d : Desc) : Nat := (f.get d).toNat

theorem read_set_self (f : Field 64) (v : Nat) (d : Desc) :
    read f (set f v d) = v % 2 ^ f.width := by
  rw [read, set, Field.get_put_self, BitVec.toNat_ofNat]

theorem read_set {f g : Field 64} (h : f.Apart g) (v : Nat) (d : Desc) :
    read f (set g v d) = read f d := by
  rw [read, set, Field.get_put_of_apart h, read]

/-! ## The code -/

/-- `SET_LDT_PARAMS` and `SET_TSS_PARAMS`, which are the same text. -/
def setParams (d : Desc) (addr lim : BitVec 32) : Desc :=
  let d := set base3124 ((addr &&& 0xFF000000) >>> 24).toNat d
  let d := set base2316 ((addr &&& 0x00FF0000) >>> 16).toNat d
  let d := set base1500 (addr &&& 0x0000FFFF).toNat d
  let d := set segLim1916 ((lim &&& 0x000F0000) >>> 16).toNat d
  set segLim1500 (lim &&& 0x0000FFFF).toNat d

/-- The LDT entry that `entry` constructs; the local variable holds `d` at first. -/
def theLdtDesc (d : Desc) (ldt ldtSize : BitVec 32) : Desc :=
  let d := set granularity 0 d
  let d := set opsize 1 d
  let d := set reserved 0 d
  let d := set avail 0 d
  let d := set present 1 d
  let d := set dpl 0 d
  let d := set sys 0 d
  let d := set type 2 d
  setParams d ldt ldtSize

abbrev tssSize : Nat := 104

/-- The TSS entry that `entry` constructs; `tss_size` is a variable, `TSS_SIZE` a constant. -/
def theTssDesc (d : Desc) (tss tssSizeVar : BitVec 32) : Desc :=
  let d := set granularity 0 d
  let d := set opsize 0 d
  let d := set reserved 0 d
  let d := set avail 0 d
  let d := set segLim1916 (tssSize &&& 0x000F0000) d
  let d := set present 1 d
  let d := set dpl 0 d
  let d := set sys 0 d
  let d := set type 9 d
  let d := set segLim1500 (tssSize &&& 0x0000FFFF) d
  setParams d tss tssSizeVar

/-! ## The processor -/

/-- What the processor takes from a descriptor of a system segment with byte granularity. -/
structure Segment where
  base : Nat
  limit : Nat
  type : Nat
  dpl : Nat
  deriving DecidableEq

/-- The segment of a descriptor: there is none unless it is present and of the system. -/
def segment (d : Desc) : Option Segment :=
  if read present d = 1 ∧ read sys d = 0 ∧ read granularity d = 0 then
    some ⟨read base3124 d * 2 ^ 24 + read base2316 d * 2 ^ 16 + read base1500 d,
      read segLim1916 d * 2 ^ 16 + read segLim1500 d, read type d, read dpl d⟩
  else none

theorem low_half (x : BitVec 32) : (x &&& 0x0000FFFF).toNat = x.toNat % 2 ^ 16 := by
  rw [BitVec.toNat_and]
  exact Nat.and_two_pow_sub_one_eq_mod x.toNat 16

/-- A byte or less of a word, masked where it stands and then moved down. -/
theorem masked_down (x : BitVec 32) :
    ((x &&& 0xFF000000) >>> 24).toNat = x.toNat / 2 ^ 24 ∧
      ((x &&& 0x00FF0000) >>> 16).toNat = x.toNat / 2 ^ 16 % 2 ^ 8 ∧
      ((x &&& 0x000F0000) >>> 16).toNat = x.toNat / 2 ^ 16 % 2 ^ 4 := by
  have htop : (x &&& 0xFF000000) >>> 24 = x >>> 24 := by
    apply BitVec.eq_of_getLsbD_eq
    intro i hi
    interval_cases i <;> simp
  have hbyte : (x &&& 0x00FF0000) >>> 16 = (x >>> 16) &&& 0xFF := by
    apply BitVec.eq_of_getLsbD_eq
    intro i hi
    interval_cases i <;> simp
  have hnibble : (x &&& 0x000F0000) >>> 16 = (x >>> 16) &&& 0xF := by
    apply BitVec.eq_of_getLsbD_eq
    intro i hi
    interval_cases i <;> simp
  refine ⟨?_, ?_, ?_⟩
  · rw [htop, BitVec.toNat_ushiftRight, Nat.shiftRight_eq_div_pow]
  · rw [hbyte, BitVec.toNat_and, BitVec.toNat_ushiftRight, Nat.shiftRight_eq_div_pow]
    exact Nat.and_two_pow_sub_one_eq_mod _ 8
  · rw [hnibble, BitVec.toNat_and, BitVec.toNat_ushiftRight, Nat.shiftRight_eq_div_pow]
    exact Nat.and_two_pow_sub_one_eq_mod _ 4

/-- The parameters come back as the base and the low 20 bits of the limit. -/
theorem segment_setParams {d : Desc} (hpresent : read present d = 1) (hsys : read sys d = 0)
    (hgran : read granularity d = 0) (addr lim : BitVec 32) :
    segment (setParams d addr lim) =
      some ⟨addr.toNat, lim.toNat % 2 ^ 20, read type d, read dpl d⟩ := by
  obtain ⟨htop, hbyte, -⟩ := masked_down addr
  obtain ⟨-, -, hnibble⟩ := masked_down lim
  have haddr := addr.isLt
  unfold segment setParams
  dsimp only
  simp (disch := decide) only [read_set, read_set_self, hpresent, hsys, hgran, htop, hbyte,
    hnibble, low_half, and_self, if_true]
  refine congrArg some (Segment.mk.injEq .. ▸ ⟨?_, ?_, rfl, rfl⟩)
  · omega
  · omega

/-- **Descriptors.** Whatever the local variables of `entry` held, the processor finds the LDT and
an available TSS of privilege 0 at their addresses, with the low 20 bits of their sizes. -/
theorem entry_segments (d : Desc) (addr lim : BitVec 32) :
    segment (theLdtDesc d addr lim) = some ⟨addr.toNat, lim.toNat % 2 ^ 20, 2, 0⟩ ∧
      segment (theTssDesc d addr lim) = some ⟨addr.toNat, lim.toNat % 2 ^ 20, 9, 0⟩ := by
  constructor
  · unfold theLdtDesc
    dsimp only
    rw [segment_setParams] <;> simp (disch := decide) only [read_set, read_set_self] <;> rfl
  · unfold theTssDesc
    dsimp only
    rw [segment_setParams] <;> simp (disch := decide) only [read_set, read_set_self] <;> rfl

end OS391.Segments
