import Mathlib.Logic.Relation
import OS391.Library.Bytes

/-! A 32-bit machine of the x86 family with the instructions that kernel assembler uses: string
loops, and the linkage of calls and interrupts. Segments are flat; an access through a selector
that is not usable faults. Of EFLAGS there are the flags that such code reads or sets. -/

namespace Library.X86
open Library.Bytes

abbrev Word := BitVec 32
abbrev Selector := BitVec 16
abbrev Memory := Nat → UInt8

/-! ## Words in a memory of bytes -/

/-- Byte `k` of a word. -/
def byteOf (v : Word) (k : Nat) : UInt8 := ⟨v.extractLsb' (8 * k) 8⟩

def wordOf (b0 b1 b2 b3 : UInt8) : Word :=
  b3.toBitVec ++ b2.toBitVec ++ b1.toBitVec ++ b0.toBitVec

def loadWord (m : Memory) (a : Word) : Word :=
  wordOf (m a.toNat) (m (a + 1).toNat) (m (a + 2).toNat) (m (a + 3).toNat)

def storeByte (m : Memory) (a : Word) (b : UInt8) : Memory := Function.update m a.toNat b

def storeWord (m : Memory) (a : Word) (v : Word) : Memory :=
  storeByte (storeByte (storeByte (storeByte m a (byteOf v 0)) (a + 1) (byteOf v 1))
    (a + 2) (byteOf v 2)) (a + 3) (byteOf v 3)

theorem byteOf_wordOf (b0 b1 b2 b3 : UInt8) :
    byteOf (wordOf b0 b1 b2 b3) 0 = b0 ∧ byteOf (wordOf b0 b1 b2 b3) 1 = b1 ∧
    byteOf (wordOf b0 b1 b2 b3) 2 = b2 ∧ byteOf (wordOf b0 b1 b2 b3) 3 = b3 := by
  refine ⟨?_, ?_, ?_, ?_⟩ <;> apply UInt8.toBitVec_inj.mp <;> ext i hi <;>
    simp only [byteOf, wordOf, BitVec.getElem_extractLsb', BitVec.getLsbD_append] <;> grind

theorem wordOf_byteOf (v : Word) :
    wordOf (byteOf v 0) (byteOf v 1) (byteOf v 2) (byteOf v 3) = v := by
  apply BitVec.eq_of_getLsbD_eq
  intro i hi
  simp only [byteOf, wordOf, BitVec.getLsbD_append, BitVec.getLsbD_extractLsb']
  grind

theorem storeByte_self (m : Memory) (a : Word) (b : UInt8) : storeByte m a b a.toNat = b :=
  Function.update_self ..

theorem storeByte_of_ne (m : Memory) {a : Word} {i : Nat} (b : UInt8) (h : i ≠ a.toNat) :
    storeByte m a b i = m i := Function.update_of_ne h ..

theorem loadWord_storeWord (m : Memory) (a v : Word) : loadWord (storeWord m a v) a = v := by
  have h1 : (a + 1).toNat ≠ a.toNat := by bv_omega
  have h2 : (a + 2).toNat ≠ a.toNat ∧ (a + 2).toNat ≠ (a + 1).toNat := by constructor <;> bv_omega
  have h3 : (a + 3).toNat ≠ a.toNat ∧ (a + 3).toNat ≠ (a + 1).toNat ∧
      (a + 3).toNat ≠ (a + 2).toNat := by refine ⟨?_, ?_, ?_⟩ <;> bv_omega
  conv => rhs; rw [← wordOf_byteOf v]
  unfold loadWord storeWord
  congr 1
  · rw [storeByte_of_ne _ _ h3.1.symm, storeByte_of_ne _ _ h2.1.symm, storeByte_of_ne _ _ h1.symm,
      storeByte_self]
  · rw [storeByte_of_ne _ _ h3.2.1.symm, storeByte_of_ne _ _ h2.2.symm, storeByte_self]
  · rw [storeByte_of_ne _ _ h3.2.2.symm, storeByte_self]
  · rw [storeByte_self]

/-- Bytes outside the four of a stored word. -/
theorem storeWord_outside (m : Memory) {a : Word} {i : Nat} (v : Word)
    (h : i < a.toNat ∨ a.toNat + 4 ≤ i) (ha : a.toNat + 4 ≤ 2 ^ 32) : storeWord m a v i = m i := by
  unfold storeWord
  rw [storeByte_of_ne, storeByte_of_ne, storeByte_of_ne, storeByte_of_ne] <;> bv_omega

theorem loadWord_congr {m m' : Memory} {a : Word} (ha : a.toNat + 4 ≤ 2 ^ 32)
    (h : ∀ i, a.toNat ≤ i → i < a.toNat + 4 → m i = m' i) : loadWord m a = loadWord m' a := by
  unfold loadWord
  rw [h, h, h, h] <;> bv_omega

/-- A stored word is a block of four bytes, the low one first. -/
theorem storeWord_eq_blit (m : Memory) {a : Word} (v : Word) (ha : a.toNat + 4 ≤ 2 ^ 32) :
    storeWord m a v = blit m a.toNat (byteOf v) 4 := by
  have h1 : (a + 1).toNat = a.toNat + 1 := by bv_omega
  have h2 : (a + 2).toNat = a.toNat + 2 := by bv_omega
  have h3 : (a + 3).toNat = a.toNat + 3 := by bv_omega
  funext i
  by_cases hin : a.toNat ≤ i ∧ i < a.toNat + 4
  · obtain ⟨k, rfl⟩ := Nat.exists_eq_add_of_le hin.1
    have hk : k < 4 := by omega
    rw [blit, if_pos hin, Nat.add_sub_cancel_left]
    unfold storeWord storeByte
    rw [h1, h2, h3]
    obtain rfl | rfl | rfl | rfl : k = 0 ∨ k = 1 ∨ k = 2 ∨ k = 3 := by omega
    all_goals simp
  · rw [blit, if_neg hin]
    exact storeWord_outside m v (by omega) ha

theorem byteOf_loadWord (m : Memory) {a : Word} (ha : a.toNat + 4 ≤ 2 ^ 32) {k : Nat} (hk : k < 4) :
    byteOf (loadWord m a) k = m (a.toNat + k) := by
  have h1 : (a + 1).toNat = a.toNat + 1 := by bv_omega
  have h2 : (a + 2).toNat = a.toNat + 2 := by bv_omega
  have h3 : (a + 3).toNat = a.toNat + 3 := by bv_omega
  obtain ⟨e0, e1, e2, e3⟩ := byteOf_wordOf (m a.toNat) (m (a.toNat + 1)) (m (a.toNat + 2))
    (m (a.toNat + 3))
  unfold loadWord
  rw [h1, h2, h3]
  obtain rfl | rfl | rfl | rfl : k = 0 ∨ k = 1 ∨ k = 2 ∨ k = 3 := by omega
  · exact e0
  · exact e1
  · exact e2
  · exact e3

theorem storeByte_eq_blit (m : Memory) {a : Word} {n : Nat} (f : Nat → UInt8) (h : a.toNat = n) :
    storeByte m a (f 0) = blit m n f 1 := by
  subst h
  funext i
  unfold storeByte blit
  by_cases hi : i = a.toNat
  · rw [hi, Function.update_self, if_pos (by omega), Nat.sub_self]
  · rw [Function.update_of_ne hi, if_neg (by omega)]

/-- The word read at `s` and stored at `a` is a block of four bytes moved. -/
theorem storeWord_loadWord (m : Memory) {a s : Word} (ha : a.toNat + 4 ≤ 2 ^ 32)
    (hs : s.toNat + 4 ≤ 2 ^ 32) :
    storeWord m a (loadWord m s) = blit m a.toNat (fun i => m (s.toNat + i)) 4 := by
  rw [storeWord_eq_blit m _ ha]
  exact blit_congr _ _ fun i hi => byteOf_loadWord m hs hi

/-- The low byte of a register. -/
theorem byteOf_append (hi : BitVec 24) (b : UInt8) : byteOf (hi ++ b.toBitVec) 0 = b := by
  apply UInt8.toBitVec_inj.mp
  ext i h
  simp only [byteOf, BitVec.getElem_extractLsb', BitVec.getLsbD_append]
  grind

/-- The low half of a register. -/
theorem low16_append (hi lo : BitVec 16) : BitVec.setWidth 16 (hi ++ lo) = lo := by
  apply BitVec.eq_of_getLsbD_eq
  intro i hi
  rw [BitVec.getLsbD_setWidth, BitVec.getLsbD_append]
  simp [hi]

/-! ## Stacks -/

/-- The words of a list from address `a` on. -/
def Stacked (mem : Memory) : Word → List Word → Prop
  | _, [] => True
  | a, v :: l => loadWord mem a = v ∧ Stacked mem (a + 4#32) l

theorem Stacked.congr {mem mem' : Memory} {a : Word} {l : List Word} (h : Stacked mem a l)
    (hfit : a.toNat + 4 * l.length ≤ 2 ^ 32)
    (hmem : ∀ i, a.toNat ≤ i → i < a.toNat + 4 * l.length → mem' i = mem i) :
    Stacked mem' a l := by
  induction l generalizing a with
  | nil => trivial
  | cons v l ih =>
    rw [List.length_cons] at hfit hmem
    refine ⟨(loadWord_congr (by omega) fun i h1 h2 => hmem i h1 (by omega)).trans h.1, ?_⟩
    rcases Nat.eq_zero_or_pos l.length with h0 | hpos
    · rw [List.eq_nil_of_length_eq_zero h0]
      trivial
    · have hnext : (a + 4#32).toNat = a.toNat + 4 := by bv_omega
      exact ih h.2 (by omega) fun i h1 h2 => hmem i (by omega) (by omega)

/-- A word pushed. -/
theorem Stacked.push {mem : Memory} {a : Word} {l : List Word} (h : Stacked mem a l) (v : Word)
    (hroom : 4 ≤ a.toNat) (hfit : a.toNat + 4 * l.length ≤ 2 ^ 32) :
    Stacked (storeWord mem (a - 4#32) v) (a - 4#32) (v :: l) := by
  have hprev : (a - 4#32).toNat + 4 = a.toNat := by bv_omega
  refine ⟨loadWord_storeWord mem (a - 4#32) v, ?_⟩
  rw [show a - 4#32 + 4#32 = a by bv_omega]
  exact h.congr hfit fun i h1 _ => storeWord_outside mem v (by omega) (by omega)

/-- A word of the stack overwritten. -/
theorem Stacked.set {mem : Memory} {a : Word} {l : List Word} (h : Stacked mem a l) {k : Nat}
    (v : Word) (hk : k < l.length) (hfit : a.toNat + 4 * l.length ≤ 2 ^ 32) :
    Stacked (storeWord mem (a + BitVec.ofNat 32 (4 * k)) v) a (l.set k v) := by
  induction l generalizing a k with
  | nil => trivial
  | cons w l ih =>
    rw [List.length_cons] at hk hfit
    cases k with
    | zero =>
      rw [List.set_cons_zero, Nat.mul_zero, BitVec.add_zero]
      refine ⟨loadWord_storeWord mem a v, ?_⟩
      rcases Nat.eq_zero_or_pos l.length with h0 | hpos
      · rw [List.eq_nil_of_length_eq_zero h0]
        trivial
      · have hnext : (a + 4#32).toNat = a.toNat + 4 := by bv_omega
        exact h.2.congr (by omega) fun i h1 _ => storeWord_outside mem v (by omega) (by omega)
    | succ k =>
      have hnext : (a + 4#32).toNat = a.toNat + 4 := by bv_omega
      have haddr : a + BitVec.ofNat 32 (4 * (k + 1)) = a + 4#32 + BitVec.ofNat 32 (4 * k) := by
        bv_omega
      have hslot : (a + 4#32 + BitVec.ofNat 32 (4 * k)).toNat = a.toNat + 4 + 4 * k := by bv_omega
      rw [List.set_cons_succ, haddr]
      refine ⟨(loadWord_congr (by omega) fun i _ h2 => ?_).trans h.1, ih h.2 (by omega) (by omega)⟩
      exact storeWord_outside mem v (by omega) (by omega)

/-- The stack pointer when the words of a list, the last of them first, have been pushed from
address `a` down. -/
def top (a : Word) : List Word → Word
  | [] => a
  | _ :: l => top a l - 4#32

/-- The memory then. -/
def pushAll (mem : Memory) (a : Word) : List Word → Memory
  | [] => mem
  | v :: l => storeWord (pushAll mem a l) (top a l - 4#32) v

theorem top_toNat {a : Word} {l : List Word} (h : 4 * l.length ≤ a.toNat) :
    (top a l).toNat + 4 * l.length = a.toNat := by
  induction l with
  | nil => rfl
  | cons v l ih =>
    rw [List.length_cons] at h
    have ih := ih (by omega)
    rw [top, List.length_cons]
    bv_omega

/-- All that was pushed popped again. -/
theorem top_add (a : Word) (l : List Word) : top a l + BitVec.ofNat 32 (4 * l.length) = a := by
  induction l with
  | nil => exact BitVec.add_zero a
  | cons v l ih =>
    rw [top, List.length_cons]
    conv => rhs; rw [← ih]
    bv_omega

theorem stacked_pushAll (mem : Memory) {a : Word} {l : List Word} (h : 4 * l.length ≤ a.toNat) :
    Stacked (pushAll mem a l) (top a l) l := by
  induction l with
  | nil => trivial
  | cons v l ih =>
    rw [List.length_cons] at h
    have htop := top_toNat (a := a) (l := l) (by omega)
    have ha := a.isLt
    exact (ih (by omega)).push v (by omega) (by omega)

theorem pushAll_outside (mem : Memory) {a : Word} {l : List Word} (h : 4 * l.length ≤ a.toNat)
    {i : Nat} (hi : i < (top a l).toNat ∨ a.toNat ≤ i) : pushAll mem a l i = mem i := by
  induction l with
  | nil => rfl
  | cons v l ih =>
    rw [List.length_cons] at h
    have htop := top_toNat (a := a) (l := l) (by omega)
    have ha := a.isLt
    have hnext : (top a l - 4#32).toNat + 4 = (top a l).toNat := by bv_omega
    rw [top] at hi
    rw [pushAll, storeWord_outside _ _ (by omega) (by omega), ih (by omega) (by omega)]

/-! ## The machine -/

inductive Reg where
  | eax | ecx | edx | ebx | esp | ebp | esi | edi
  deriving DecidableEq

inductive Seg where
  | es | cs | ss | ds
  deriving DecidableEq

/-- `cf`, `zf`, `df`, and the interrupt flag `ie`. -/
structure Flags where
  cf : Bool
  zf : Bool
  df : Bool
  ie : Bool
  deriving DecidableEq

/-- The flags as `pushfl` stores them. -/
def Flags.word (f : Flags) : Word :=
  (if f.cf then 1 else 0) ||| (if f.zf then 0x40 else 0) ||| (if f.ie then 0x200 else 0) |||
    (if f.df then 0x400 else 0) ||| 2

def Flags.ofWord (w : Word) : Flags :=
  { cf := w.getLsbD 0, zf := w.getLsbD 6, df := w.getLsbD 10, ie := w.getLsbD 9 }

@[simp] theorem Flags.ofWord_word (f : Flags) : Flags.ofWord f.word = f := by
  obtain ⟨cf, zf, df, ie⟩ := f
  revert cf zf df ie
  decide

/-- A place in the code: line `line` of routine `routine`. -/
structure Point (R : Type) where
  routine : R
  line : Nat
  deriving DecidableEq

/-- `tssEsp0` and `tssSs0` are the stack that the TSS names for the kernel. -/
structure Machine (R : Type) where
  reg : Reg → Word
  seg : Seg → Selector
  flags : Flags
  mem : Memory
  pc : Point R
  tssEsp0 : Word
  tssSs0 : Selector

inductive Operand where
  | imm (v : Word)
  | reg (r : Reg)
  | mem (base : Reg) (disp : Word)

/-- Operands are in the order of the assembler, the destination last. -/
inductive Instr (R L : Type) where
  | movl (src : Operand) (dst : Reg)
  /-- `movl src, disp(base)` -/
  | movlTo (src base : Reg) (disp : Word)
  /-- `movb (base), %al` -/
  | movbToAl (base : Reg)
  /-- `movb %al, (base)` -/
  | movbFromAl (base : Reg)
  /-- `movw seg, dst` -/
  | movFromSeg (src : Seg) (dst : Reg)
  /-- `movw src, seg` or `movl src, seg` -/
  | movToSeg (src : Reg) (dst : Seg)
  /-- `leal disp(base, index), dst` -/
  | leal (disp : Word) (base index dst : Reg)
  | testl (src dst : Operand)
  | cmpl (src dst : Operand)
  | addl (src : Operand) (dst : Reg)
  | subl (src : Operand) (dst : Reg)
  | andl (src : Operand) (dst : Reg)
  | shrl (k : Nat) (dst : Reg)
  | cld
  | std
  | jmp (l : L)
  | jz (l : L)
  | jae (l : L)
  | jbe (l : L)
  | repStosl
  | repStosw
  | repMovsl
  | repMovsb
  | pushl (src : Operand)
  | pushSeg (src : Seg)
  | popl (dst : Reg)
  | popSeg (dst : Seg)
  | pusha
  | popa
  | pushfl
  | popfl
  | call (r : R)
  /-- `call *table(,%eax,4)` -/
  | callTable (table : List (Option R))
  | ret
  | int (vector : Nat)
  | iret

inductive Line (R L : Type) where
  | label (l : L)
  | instr (i : Instr R L)

/-- A gate of the interrupt table; a trap gate leaves the interrupt flag as it is. -/
structure Gate (R : Type) where
  target : R
  selector : Selector
  dpl : Nat
  trap : Bool

/-- Linked code. `usable` tells the selectors through which data can be accessed. -/
structure Code (R L : Type) where
  lines : R → List (Line R L)
  addr : Point R → Word
  point : Word → Option (Point R)
  point_addr : ∀ p : Point R, p.line < (lines p.routine).length → point (addr p) = some p
  usable : Selector → Bool
  gate : Nat → Option (Gate R)

/-- One routine on its own, with an address for each line. -/
def Code.alone {L : Type} (lines : List (Line Unit L)) (h : lines.length ≤ 2 ^ 32)
    (usable : Selector → Bool) : Code Unit L where
  lines _ := lines
  addr p := BitVec.ofNat 32 p.line
  point w := some ⟨(), w.toNat⟩
  point_addr p hp := by
    rw [BitVec.toNat_ofNat, Nat.mod_eq_of_lt (Nat.lt_of_lt_of_le hp h)]
  usable := usable
  gate _ := none

section Execution

variable {R L : Type}

namespace Machine

@[simp] def setReg (m : Machine R) (r : Reg) (v : Word) : Machine R :=
  { m with reg := Function.update m.reg r v }

@[simp] def setSeg (m : Machine R) (s : Seg) (v : Selector) : Machine R :=
  { m with seg := Function.update m.seg s v }

/-- On to the next line. -/
@[simp] def next (m : Machine R) : Machine R := { m with pc := { m.pc with line := m.pc.line + 1 } }

@[simp] def goto (m : Machine R) (p : Point R) : Machine R := { m with pc := p }

/-- The flags of a comparison: `b - a` for `cmpl a, b`. -/
@[simp] def compared (m : Machine R) (a b : Word) : Machine R :=
  { m with flags := { m.flags with cf := b < a, zf := b = a } }

@[simp] def logical (m : Machine R) (v : Word) : Machine R :=
  { m with flags := { m.flags with cf := false, zf := v = 0 } }

@[simp] def setAl (m : Machine R) (b : UInt8) : Machine R :=
  m.setReg .eax ((m.reg .eax).extractLsb' 8 24 ++ b.toBitVec)

@[simp] def setLow16 (m : Machine R) (r : Reg) (v : Selector) : Machine R :=
  m.setReg r ((m.reg r).extractLsb' 16 16 ++ v)

end Machine

namespace Code

variable [DecidableEq L] (code : Code R L) (m : Machine R)

/-- Accesses through segment `s` do not fault. -/
@[simp] def ok (s : Seg) : Bool := code.usable (m.seg s)

/-- The segment through which an address with this base register goes. -/
@[simp] def segOf : Reg → Seg
  | .esp | .ebp => .ss
  | _ => .ds

@[simp] def value : Operand → Option Word
  | .imm v => some v
  | .reg r => some (m.reg r)
  | .mem base disp =>
    if code.ok m (segOf base) then some (loadWord m.mem (m.reg base + disp)) else none

@[simp] def push (v : Word) : Option (Machine R) :=
  if code.ok m .ss then
    some { m.setReg .esp (m.reg .esp - 4#32) with mem := storeWord m.mem (m.reg .esp - 4#32) v }
  else none

@[simp] def pop : Option (Word × Machine R) :=
  if code.ok m .ss then
    some (loadWord m.mem (m.reg .esp), m.setReg .esp (m.reg .esp + 4#32))
  else none

@[simp] def popReg (r : Reg) : Option (Machine R) := do
  let (v, m) ← code.pop m
  return m.setReg r v

@[simp] def isLabel (l : L) : Line R L → Bool
  | .label l' => l' = l
  | .instr _ => false

/-- The line of the same routine with label `l`. -/
@[simp] def target (l : L) : Option (Point R) :=
  ((code.lines m.pc.routine).findIdx? (isLabel l)).map fun i => ⟨m.pc.routine, i⟩

@[simp] def jump (l : L) : Option (Machine R) := (code.target m l).map m.goto

/-- A conditional jump. -/
@[simp] def jumpIf (c : Bool) (l : L) : Option (Machine R) :=
  if c then code.jump m l else some m.next

def moved (d : Bool) (a n : Word) : Word := if d then a - n else a + n

/-- One round of a string instruction, `%ecx` counting them: a round leaves `pc` where it is. -/
def rep (round : Machine R → Option (Machine R)) : Option (Machine R) :=
  if m.reg .ecx = 0#32 then some m.next
  else (round m).map fun m => m.setReg .ecx (m.reg .ecx - 1#32)

def stosl : Option (Machine R) :=
  if code.ok m .es then
    some { m.setReg .edi (moved m.flags.df (m.reg .edi) 4) with
      mem := storeWord m.mem (m.reg .edi) (m.reg .eax) }
  else none

def stosw : Option (Machine R) :=
  if code.ok m .es then
    some { m.setReg .edi (moved m.flags.df (m.reg .edi) 2) with
      mem := storeByte (storeByte m.mem (m.reg .edi) (byteOf (m.reg .eax) 0)) (m.reg .edi + 1)
        (byteOf (m.reg .eax) 1) }
  else none

def movsl : Option (Machine R) :=
  if code.ok m .ds ∧ code.ok m .es then
    some { (m.setReg .edi (moved m.flags.df (m.reg .edi) 4)).setReg .esi
        (moved m.flags.df (m.reg .esi) 4) with
      mem := storeWord m.mem (m.reg .edi) (loadWord m.mem (m.reg .esi)) }
  else none

def movsb : Option (Machine R) :=
  if code.ok m .ds ∧ code.ok m .es then
    some { (m.setReg .edi (moved m.flags.df (m.reg .edi) 1)).setReg .esi
        (moved m.flags.df (m.reg .esi) 1) with
      mem := storeByte m.mem (m.reg .edi) (m.mem (m.reg .esi).toNat) }
  else none

/-- `pusha` stores the `%esp` from before. -/
def pusha : Option (Machine R) :=
  [m.reg .eax, m.reg .ecx, m.reg .edx, m.reg .ebx, m.reg .esp, m.reg .ebp, m.reg .esi,
    m.reg .edi].foldlM code.push m

/-- `popa` drops the stored `%esp`. -/
def popa : Option (Machine R) := do
  let m ← [Reg.edi, .esi, .ebp].foldlM code.popReg m
  let (_, m) ← code.pop m
  [Reg.ebx, .edx, .ecx, .eax].foldlM code.popReg m

/-- The privilege level, the low two bits of `%cs`. -/
def cpl : BitVec 2 := (m.seg .cs).extractLsb' 0 2

def call (r : R) : Option (Machine R) := do
  let m ← code.push m (code.addr m.next.pc)
  return m.goto ⟨r, 0⟩

/-- An interrupt or a trap through a gate, to come back to `p`. From an outer level the stack
becomes the one that the TSS names, and the old one is the first that is stored there. -/
def deliver (g : Gate R) (p : Point R) : Option (Machine R) := do
  let inner : Machine R :=
    if g.selector.extractLsb' 0 2 = cpl m then m
    else (m.setReg .esp m.tssEsp0).setSeg .ss m.tssSs0
  let frame :=
    if g.selector.extractLsb' 0 2 = cpl m then []
    else [(m.seg .ss).setWidth 32, m.reg .esp]
  let m' ← (frame ++ [m.flags.word, (m.seg .cs).setWidth 32, code.addr p]).foldlM code.push inner
  return { (m'.setSeg .cs g.selector).goto ⟨g.target, 0⟩ with
    flags := if g.trap then m.flags else { m.flags with ie := false } }

/-- `int v`: the gate must admit the level. -/
def int (v : Nat) : Option (Machine R) := do
  let g ← code.gate v
  if (cpl m).toNat ≤ g.dpl then code.deliver m g m.next.pc else none

/-- A device interrupts between two instructions. -/
def interrupt (v : Nat) : Option (Machine R) := do
  let g ← code.gate v
  if m.flags.ie then code.deliver m g m.pc else none

/-- `iret`; back at an outer level the stack of that level is popped too. -/
def iret : Option (Machine R) := do
  let (eip, m) ← code.pop m
  let (cs, m) ← code.pop m
  let (fl, m) ← code.pop m
  let p ← code.point eip
  let selector : Selector := cs.setWidth 16
  let back : Machine R := { (m.setSeg .cs selector).goto p with flags := Flags.ofWord fl }
  if selector.extractLsb' 0 2 = cpl m then return back
  else
    let (esp, m) ← code.pop m
    let (ss, _) ← code.pop m
    return (back.setReg .esp esp).setSeg .ss (ss.setWidth 16)

def ret : Option (Machine R) := do
  let (eip, m) ← code.pop m
  let p ← code.point eip
  return m.goto p

@[simp] def exec : Instr R L → Option (Machine R)
  | .movl src dst => do return (m.setReg dst (← code.value m src)).next
  | .movlTo src base disp =>
    if code.ok m (segOf base) then
      some { m.next with mem := storeWord m.mem (m.reg base + disp) (m.reg src) }
    else none
  | .movbToAl base =>
    if code.ok m (segOf base) then some (m.setAl (m.mem (m.reg base).toNat)).next else none
  | .movbFromAl base =>
    if code.ok m (segOf base) then
      some { m.next with mem := storeByte m.mem (m.reg base) (byteOf (m.reg .eax) 0) }
    else none
  | .movFromSeg src dst => some (m.setLow16 dst (m.seg src)).next
  | .movToSeg src dst => some (m.setSeg dst ((m.reg src).setWidth 16)).next
  | .leal disp base index dst => some (m.setReg dst (m.reg base + m.reg index + disp)).next
  | .testl src dst => do return (m.logical ((← code.value m src) &&& (← code.value m dst))).next
  | .cmpl src dst => do return (m.compared (← code.value m src) (← code.value m dst)).next
  | .addl src dst => do
    let v ← code.value m src
    let sum := m.reg dst + v
    return { (m.setReg dst sum).next with flags := { m.flags with cf := sum < v, zf := sum = 0 } }
  | .subl src dst => do
    let v ← code.value m src
    return ((m.compared v (m.reg dst)).setReg dst (m.reg dst - v)).next
  | .andl src dst => do
    let v := (← code.value m src) &&& m.reg dst
    return ((m.logical v).setReg dst v).next
  | .shrl k dst =>
    let v := m.reg dst >>> k
    some { (m.setReg dst v).next with
      flags := { m.flags with cf := (m.reg dst).getLsbD (k - 1), zf := v = 0 } }
  | .cld => some { m.next with flags := { m.flags with df := false } }
  | .std => some { m.next with flags := { m.flags with df := true } }
  | .jmp l => code.jump m l
  | .jz l => code.jumpIf m m.flags.zf l
  | .jae l => code.jumpIf m (!m.flags.cf) l
  | .jbe l => code.jumpIf m (m.flags.cf || m.flags.zf) l
  | .repStosl => rep m code.stosl
  | .repStosw => rep m code.stosw
  | .repMovsl => rep m code.movsl
  | .repMovsb => rep m code.movsb
  | .pushl src => do return (← code.push m (← code.value m src)).next
  | .pushSeg src => do return (← code.push m ((m.seg src).setWidth 32)).next
  | .popl dst => do return (← code.popReg m dst).next
  | .popSeg dst => do
    let (v, m) ← code.pop m
    return (m.setSeg dst (v.setWidth 16)).next
  | .pusha => do return (← code.pusha m).next
  | .popa => do return (← code.popa m).next
  | .pushfl => do return (← code.push m m.flags.word).next
  | .popfl => do
    let (v, m) ← code.pop m
    return { m.next with flags := Flags.ofWord v }
  | .call r => code.call m r
  | .callTable table => do code.call m (← (← table[(m.reg .eax).toNat]?))
  | .ret => code.ret m
  | .int v => code.int m v
  | .iret => code.iret m

/-- One step; a label takes none of its own. -/
def step : Option (Machine R) :=
  match (code.lines m.pc.routine)[m.pc.line]? with
  | some (.instr i) => code.exec m i
  | some (.label _) => some m.next
  | none => none

/-- Some steps in a row. -/
def run : Nat → Machine R → Option (Machine R)
  | 0, m => some m
  | n + 1, m =>
    match code.step m with
    | some m' => run n m'
    | none => none

/-- The code leads from one state to another. -/
abbrev Steps : Machine R → Machine R → Prop :=
  Relation.ReflTransGen fun m m' => code.step m = some m'

variable {code m}

theorem step_instr {r : R} {n : Nat} {i : Instr R L} (hpc : m.pc = ⟨r, n⟩)
    (hline : (code.lines r)[n]? = some (.instr i)) : code.step m = code.exec m i := by
  simp only [step, hpc, hline]

theorem Steps.of_run {n : Nat} {t : Machine R} (h : code.run n m = some t) : code.Steps m t := by
  induction n generalizing m with
  | zero =>
    cases h
    exact .refl
  | succ n ih =>
    unfold run at h
    cases hm : code.step m with
    | none =>
      rw [hm] at h
      cases h
    | some m' =>
      rw [hm] at h
      exact .head hm (ih h)

theorem Steps.exists_of_run {n : Nat} {P : Machine R → Prop}
    (h : ∃ t, code.run n m = some t ∧ P t) :
    ∃ t, code.Steps m t ∧ P t :=
  h.imp fun _ ht => ⟨.of_run ht.1, ht.2⟩

/-! ## String instructions -/

/-- One round of a string instruction on units of `w` bytes, which `reads` from `%esi` or not. -/
structure Round (w : Word) (reads : Bool) (mem : Memory) (m m' : Machine R) : Prop where
  pc : m'.pc = m.pc
  mem : m'.mem = mem
  ecx : m'.reg .ecx = m.reg .ecx - 1#32
  edi : m'.reg .edi = moved m.flags.df (m.reg .edi) w
  esi : m'.reg .esi = if reads then moved m.flags.df (m.reg .esi) w else m.reg .esi
  others : ∀ q, q ≠ .ecx → q ≠ .esi → q ≠ .edi → m'.reg q = m.reg q
  seg : m'.seg = m.seg
  flags : m'.flags = m.flags

/-- What a string instruction leaves when it has come to its end. -/
structure Repeated (m t : Machine R) : Prop where
  pc : t.pc = m.next.pc
  ecx : t.reg .ecx = 0#32
  others : ∀ q, q ≠ .ecx → q ≠ .esi → q ≠ .edi → t.reg q = m.reg q
  seg : t.seg = m.seg
  flags : t.flags = m.flags

theorem Repeated.none (h : m.reg .ecx = 0#32) : Repeated m m.next :=
  ⟨rfl, h, fun _ _ _ _ => rfl, rfl, rfl⟩

theorem Round.repeated {w : Word} {reads : Bool} {mem : Memory} {m' t : Machine R}
    (h : Round w reads mem m m') (ht : Repeated m' t) : Repeated m t where
  pc := by
    rw [ht.pc]
    simp [h.pc]
  ecx := ht.ecx
  others q h1 h2 h3 := (ht.others q h1 h2 h3).trans (h.others q h1 h2 h3)
  seg := ht.seg.trans h.seg
  flags := ht.flags.trans h.flags

theorem ofNat_succ_ne {k : Nat} (h : k + 1 < 2 ^ 32) : BitVec.ofNat 32 (k + 1) ≠ 0#32 := by
  bv_omega

theorem ofNat_succ_sub (k : Nat) : BitVec.ofNat 32 (k + 1) - 1#32 = BitVec.ofNat 32 k := by
  bv_omega

section

variable {r : R} {n : Nat} (hpc : m.pc = ⟨r, n⟩)

include hpc

theorem rep_end {i : Instr R L} {round : Machine R → Option (Machine R)}
    (hline : (code.lines r)[n]? = some (.instr i)) (hi : code.exec m i = rep m round)
    (hecx : m.reg .ecx = 0#32) : code.step m = some m.next := by
  rw [step_instr hpc hline, hi, rep, if_pos hecx]

theorem stosl_round (hline : (code.lines r)[n]? = some (.instr .repStosl))
    (hes : code.usable (m.seg .es) = true) (hecx : m.reg .ecx ≠ 0#32)
    (hdst : (m.reg .edi).toNat + 4 ≤ 2 ^ 32) :
    ∃ m', code.step m = some m' ∧ Round 4 false
      (blit m.mem (m.reg .edi).toNat (fun i => byteOf (m.reg .eax) (i % 4)) 4) m m' := by
  have hmem : storeWord m.mem (m.reg .edi) (m.reg .eax) =
      blit m.mem (m.reg .edi).toNat (fun i => byteOf (m.reg .eax) (i % 4)) 4 := by
    rw [storeWord_eq_blit _ _ hdst]
    exact blit_congr _ _ fun i hi => by rw [Nat.mod_eq_of_lt hi]
  refine ⟨_, by simp [step_instr hpc hline, rep, stosl, hecx, hes]; rfl, ?_⟩
  constructor <;> simp +contextual [hmem]

theorem stosw_round (hline : (code.lines r)[n]? = some (.instr .repStosw))
    (hes : code.usable (m.seg .es) = true) (hecx : m.reg .ecx ≠ 0#32)
    (hdst : (m.reg .edi).toNat + 2 ≤ 2 ^ 32) :
    ∃ m', code.step m = some m' ∧ Round 2 false
      (blit m.mem (m.reg .edi).toNat (fun i => byteOf (m.reg .eax) (i % 2)) 2) m m' := by
  have hmem : storeByte (storeByte m.mem (m.reg .edi) (byteOf (m.reg .eax) 0))
      (m.reg .edi + 1#32) (byteOf (m.reg .eax) 1) =
      blit m.mem (m.reg .edi).toNat (fun i => byteOf (m.reg .eax) (i % 2)) 2 := by
    rw [storeByte_eq_blit m.mem (fun i => byteOf (m.reg .eax) (i % 2)) rfl]
    exact (storeByte_eq_blit _ (fun i => byteOf (m.reg .eax) ((1 + i) % 2)) rfl).trans
      (blit_append m.mem (fun i => byteOf (m.reg .eax) (i % 2)) fun _ => by bv_omega)
  refine ⟨_, by simp [step_instr hpc hline, rep, stosw, hecx, hes]; rfl, ?_⟩
  constructor <;> simp +contextual [hmem]

theorem movsl_round (hline : (code.lines r)[n]? = some (.instr .repMovsl))
    (hds : code.usable (m.seg .ds) = true) (hes : code.usable (m.seg .es) = true)
    (hecx : m.reg .ecx ≠ 0#32) (hdst : (m.reg .edi).toNat + 4 ≤ 2 ^ 32)
    (hsrc : (m.reg .esi).toNat + 4 ≤ 2 ^ 32) :
    ∃ m', code.step m = some m' ∧ Round 4 true
      (blit m.mem (m.reg .edi).toNat (fun i => m.mem ((m.reg .esi).toNat + i)) 4) m m' := by
  have hmem := storeWord_loadWord m.mem hdst hsrc
  refine ⟨_, by simp [step_instr hpc hline, rep, movsl, hecx, hds, hes]; rfl, ?_⟩
  constructor <;> simp +contextual [hmem]

theorem movsb_round (hline : (code.lines r)[n]? = some (.instr .repMovsb))
    (hds : code.usable (m.seg .ds) = true) (hes : code.usable (m.seg .es) = true)
    (hecx : m.reg .ecx ≠ 0#32) :
    ∃ m', code.step m = some m' ∧
      Round 1 true (storeByte m.mem (m.reg .edi) (m.mem (m.reg .esi).toNat)) m m' := by
  refine ⟨_, by simp [step_instr hpc hline, rep, movsb, hecx, hds, hes]; rfl, ?_⟩
  constructor <;> simp +contextual

/-- The byte as a block of one. -/
theorem movsb_round_up (hline : (code.lines r)[n]? = some (.instr .repMovsb))
    (hds : code.usable (m.seg .ds) = true) (hes : code.usable (m.seg .es) = true)
    (hecx : m.reg .ecx ≠ 0#32) :
    ∃ m', code.step m = some m' ∧ Round 1 true
      (blit m.mem (m.reg .edi).toNat (fun i => m.mem ((m.reg .esi).toNat + i)) 1) m m' := by
  have hbyte := storeByte_eq_blit m.mem (a := m.reg .edi)
    (fun i => m.mem ((m.reg .esi).toNat + i)) rfl
  rw [← hbyte]
  exact movsb_round hpc hline hds hes hecx

end

theorem toNat_add_ofNat {a : Word} {j w : Nat} (hj : j ≠ 0) (h : a.toNat + (j + w) ≤ 2 ^ 32) :
    (a + BitVec.ofNat 32 w).toNat = a.toNat + w := by
  bv_omega

theorem add_ofNat (a : Word) (w j : Nat) :
    a + BitVec.ofNat 32 w + BitVec.ofNat 32 j = a + BitVec.ofNat 32 (j + w) := by
  bv_omega

section

variable {r : R} {n w : Nat}

/-- A store upwards of `k` units, each the low `w` bytes of `%eax`. -/
theorem rep_stos
    (hend : ∀ m : Machine R, m.pc = ⟨r, n⟩ → m.reg .ecx = 0#32 → code.step m = some m.next)
    (hround : ∀ m : Machine R, m.pc = ⟨r, n⟩ → code.usable (m.seg .es) = true →
      m.reg .ecx ≠ 0#32 → (m.reg .edi).toNat + w ≤ 2 ^ 32 →
      ∃ m', code.step m = some m' ∧ Round (BitVec.ofNat 32 w) false
        (blit m.mem (m.reg .edi).toNat (fun i => byteOf (m.reg .eax) (i % w)) w) m m')
    {k : Nat} (hpc : m.pc = ⟨r, n⟩) (hes : code.usable (m.seg .es) = true)
    (hdf : m.flags.df = false) (hk : k < 2 ^ 32) (hecx : m.reg .ecx = BitVec.ofNat 32 k)
    (hdst : (m.reg .edi).toNat + w * k ≤ 2 ^ 32) :
    ∃ t, code.Steps m t ∧ Repeated m t ∧ t.reg .esi = m.reg .esi ∧
      t.reg .edi = m.reg .edi + BitVec.ofNat 32 (w * k) ∧
      t.mem = blit m.mem (m.reg .edi).toNat (fun i => byteOf (m.reg .eax) (i % w)) (w * k) := by
  induction k generalizing m with
  | zero =>
    refine ⟨_, .single (hend m hpc hecx), .none hecx, rfl, ?_, ?_⟩
    · simp
    · exact (blit_zero _ _ _).symm
  | succ k ih =>
    rw [Nat.mul_succ] at hdst ⊢
    obtain ⟨m', hstep, hm'⟩ := hround m hpc hes (hecx ▸ ofNat_succ_ne hk) (by omega)
    have hedi : m'.reg .edi = m.reg .edi + BitVec.ofNat 32 w := by rw [hm'.edi, hdf]; rfl
    have hecx' : m'.reg .ecx = BitVec.ofNat 32 k := by rw [hm'.ecx, hecx, ofNat_succ_sub]
    have hnext : w * k ≠ 0 → (m'.reg .edi).toNat = (m.reg .edi).toNat + w :=
      fun h0 => hedi ▸ toNat_add_ofNat h0 hdst
    have hdst' : (m'.reg .edi).toNat + w * k ≤ 2 ^ 32 := by
      have hedi32 := (m'.reg .edi).isLt
      omega
    obtain ⟨t, ht, hrep, hesi, hedi', hmem⟩ := ih (hm'.pc.trans hpc) (hm'.seg ▸ hes)
      (hm'.flags ▸ hdf) (by omega) hecx' hdst'
    refine ⟨t, .head hstep ht, hm'.repeated hrep, hesi.trans hm'.esi, ?_, ?_⟩
    · rw [hedi', hedi, add_ofNat]
    · rw [hmem, hm'.mem, hm'.others .eax (by decide) (by decide) (by decide),
        Nat.add_comm (w * k), ← blit_append _ _ hnext]
      simp

/-- A move upwards of `k` units of `w` bytes, when it does not overwrite what it is still
to read. -/
theorem rep_movs
    (hend : ∀ m : Machine R, m.pc = ⟨r, n⟩ → m.reg .ecx = 0#32 → code.step m = some m.next)
    (hround : ∀ m : Machine R, m.pc = ⟨r, n⟩ → code.usable (m.seg .ds) = true →
      code.usable (m.seg .es) = true → m.reg .ecx ≠ 0#32 → (m.reg .edi).toNat + w ≤ 2 ^ 32 →
      (m.reg .esi).toNat + w ≤ 2 ^ 32 →
      ∃ m', code.step m = some m' ∧ Round (BitVec.ofNat 32 w) true
        (blit m.mem (m.reg .edi).toNat (fun i => m.mem ((m.reg .esi).toNat + i)) w) m m')
    {k : Nat} (hpc : m.pc = ⟨r, n⟩) (hds : code.usable (m.seg .ds) = true)
    (hes : code.usable (m.seg .es) = true) (hdf : m.flags.df = false) (hk : k < 2 ^ 32)
    (hecx : m.reg .ecx = BitVec.ofNat 32 k) (hdst : (m.reg .edi).toNat + w * k ≤ 2 ^ 32)
    (hsrc : (m.reg .esi).toNat + w * k ≤ 2 ^ 32)
    (hsep : (m.reg .edi).toNat ≤ (m.reg .esi).toNat ∨
      (m.reg .esi).toNat + w * k ≤ (m.reg .edi).toNat) :
    ∃ t, code.Steps m t ∧ Repeated m t ∧ t.reg .esi = m.reg .esi + BitVec.ofNat 32 (w * k) ∧
      t.reg .edi = m.reg .edi + BitVec.ofNat 32 (w * k) ∧
      t.mem = blit m.mem (m.reg .edi).toNat (fun i => m.mem ((m.reg .esi).toNat + i)) (w * k) := by
  induction k generalizing m with
  | zero =>
    refine ⟨_, .single (hend m hpc hecx), .none hecx, ?_, ?_, ?_⟩
    · simp
    · simp
    · exact (blit_zero _ _ _).symm
  | succ k ih =>
    rw [Nat.mul_succ] at hdst hsrc hsep ⊢
    obtain ⟨m', hstep, hm'⟩ := hround m hpc hds hes (hecx ▸ ofNat_succ_ne hk) (by omega) (by omega)
    have hedi : m'.reg .edi = m.reg .edi + BitVec.ofNat 32 w := by rw [hm'.edi, hdf]; rfl
    have hesi : m'.reg .esi = m.reg .esi + BitVec.ofNat 32 w := by rw [hm'.esi, hdf]; rfl
    have hecx' : m'.reg .ecx = BitVec.ofNat 32 k := by rw [hm'.ecx, hecx, ofNat_succ_sub]
    have hd : w * k ≠ 0 → (m'.reg .edi).toNat = (m.reg .edi).toNat + w :=
      fun h0 => hedi ▸ toNat_add_ofNat h0 hdst
    have hs : w * k ≠ 0 → (m'.reg .esi).toNat = (m.reg .esi).toNat + w :=
      fun h0 => hesi ▸ toNat_add_ofNat h0 hsrc
    obtain ⟨hdst', hsrc', hsep'⟩ : (m'.reg .edi).toNat + w * k ≤ 2 ^ 32 ∧
        (m'.reg .esi).toNat + w * k ≤ 2 ^ 32 ∧
        ((m'.reg .edi).toNat ≤ (m'.reg .esi).toNat ∨
          (m'.reg .esi).toNat + w * k ≤ (m'.reg .edi).toNat) := by
      have hedi32 := (m'.reg .edi).isLt
      have hesi32 := (m'.reg .esi).isLt
      rcases Nat.eq_zero_or_pos (w * k) with h0 | hpos
      · omega
      · have hd := hd (Nat.ne_of_gt hpos)
        have hs := hs (Nat.ne_of_gt hpos)
        omega
    obtain ⟨t, ht, hrep, hesi', hedi', hmem⟩ := ih (hm'.pc.trans hpc) (hm'.seg ▸ hds)
      (hm'.seg ▸ hes) (hm'.flags ▸ hdf) (by omega) hecx' hdst' hsrc' hsep'
    refine ⟨t, .head hstep ht, hm'.repeated hrep, ?_, ?_, ?_⟩
    · rw [hesi', hesi, add_ofNat]
    · rw [hedi', hedi, add_ofNat]
    · rw [hmem, Nat.add_comm (w * k)]
      exact blit_move (by omega) hm'.mem hd hs

/-- `rep movsb` with the direction flag set moves `k` bytes from the last one down. -/
theorem rep_movsb_down (hline : (code.lines r)[n]? = some (.instr .repMovsb)) {k dst src : Nat}
    (hpc : m.pc = ⟨r, n⟩) (hds : code.usable (m.seg .ds) = true)
    (hes : code.usable (m.seg .es) = true) (hdf : m.flags.df = true) (hk : k < 2 ^ 32)
    (hecx : m.reg .ecx = BitVec.ofNat 32 k) (hdst : dst + k ≤ 2 ^ 32) (hsrc : src + k ≤ 2 ^ 32)
    (hedi : m.reg .edi = BitVec.ofNat 32 (dst + k) - 1#32)
    (hesi : m.reg .esi = BitVec.ofNat 32 (src + k) - 1#32)
    (hsep : src ≤ dst ∨ dst + k ≤ src) :
    ∃ t, code.Steps m t ∧ Repeated m t ∧
      t.mem = blit m.mem dst (fun i => m.mem (src + i)) k := by
  induction k generalizing m with
  | zero =>
    exact ⟨_, .single (rep_end hpc hline rfl hecx), .none hecx, (blit_zero _ _ _).symm⟩
  | succ k ih =>
    obtain ⟨m', hstep, hm'⟩ := movsb_round hpc hline hds hes (hecx ▸ ofNat_succ_ne hk)
    have hd : (m.reg .edi).toNat = dst + k := by
      rw [hedi]
      bv_omega
    have hs : (m.reg .esi).toNat = src + k := by
      rw [hesi]
      bv_omega
    have hedi' : m'.reg .edi = BitVec.ofNat 32 (dst + k) - 1#32 := by
      rw [hm'.edi, hdf, hedi]
      exact congrArg (· - 1#32) (ofNat_succ_sub (dst + k))
    have hesi' : m'.reg .esi = BitVec.ofNat 32 (src + k) - 1#32 := by
      rw [hm'.esi, if_pos rfl, hdf, hesi]
      exact congrArg (· - 1#32) (ofNat_succ_sub (src + k))
    have hecx' : m'.reg .ecx = BitVec.ofNat 32 k := by rw [hm'.ecx, hecx, ofNat_succ_sub]
    obtain ⟨t, ht, hrep, hmem⟩ := ih (hm'.pc.trans hpc) (hm'.seg ▸ hds) (hm'.seg ▸ hes)
      (hm'.flags ▸ hdf) (by omega) hecx' (by omega) (by omega) hedi' hesi' (by omega)
    refine ⟨t, .head hstep ht, hm'.repeated hrep, ?_⟩
    rw [hmem]
    refine blit_move_down (by omega) ?_
    rw [hm'.mem, storeByte, hd, hs]

end

end Code

end Execution

end Library.X86
