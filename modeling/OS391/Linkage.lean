import Mathlib.Tactic.Common
import OS391.Library.X86

/-! The assembler between interrupts and C: `syscall_asm` with its table, the wrappers of the
device handlers, and the system call stubs of the user library. -/

namespace OS391.Linkage
open Library.X86

/-- `invalid` and `return` of `syscall_asm`. -/
inductive Label where
  | invalid | back
  deriving DecidableEq

/-- The system calls of the user library. -/
inductive SysCall where
  | halt | execute | read | write | openFile | closeFile | getargs | vidmap | setHandler | sigreturn
  deriving DecidableEq

/-- `ece391sysnum.h`. -/
def SysCall.number : SysCall → Word
  | .halt => 1
  | .execute => 2
  | .read => 3
  | .write => 4
  | .openFile => 5
  | .closeFile => 6
  | .getargs => 7
  | .vidmap => 8
  | .setHandler => 9
  | .sigreturn => 10

/-- Routines in assembler, routines in C (`kernel`, the device handlers), and user code. -/
inductive Routine where
  | keyboardHandlerAsm | rtcHandlerAsm | pitHandlerAsm | syscallAsm
  | keyboardHandler | rtcIntHandler | pitIntHandler
  | kernel (c : SysCall)
  | ece391 (c : SysCall)
  | user (k : Nat)
  deriving DecidableEq

abbrev kernelCs : Selector := 0x10
abbrev kernelDs : Selector := 0x18

/-- `keyboard_handler_asm`, `rtc_handler_asm` and `pit_handler_asm`. -/
def handlerAsm (handler : Routine) : List (Line Routine Label) := [
  .instr .pusha,
  .instr .pushfl,
  .instr (.call handler),
  .instr .popfl,
  .instr .popa,
  .instr .iret]

def sysCallTable : List (Option Routine) :=
  [none, some (.kernel .halt), some (.kernel .execute), some (.kernel .read),
    some (.kernel .write), some (.kernel .openFile), some (.kernel .closeFile),
    some (.kernel .getargs), some (.kernel .vidmap)]

def syscallAsm : List (Line Routine Label) := [
  .instr (.pushl (.reg .eax)),
  .instr .cld,
  .instr (.pushSeg .es),
  .instr (.pushSeg .ds),
  .instr (.pushl (.reg .eax)),
  .instr (.pushl (.reg .ebp)),
  .instr (.pushl (.reg .edi)),
  .instr (.pushl (.reg .esi)),
  .instr (.pushl (.reg .edx)),
  .instr (.pushl (.reg .ecx)),
  .instr (.pushl (.reg .ebx)),
  .instr (.movl (.imm 0x18) .edx),
  .instr (.movToSeg .edx .ds),
  .instr (.movToSeg .edx .es),
  .instr (.cmpl (.imm 9) (.reg .eax)),
  .instr (.jae .invalid),
  .instr (.cmpl (.imm 0) (.reg .eax)),
  .instr (.jbe .invalid),
  .instr (.callTable sysCallTable),
  .instr (.movlTo .eax .esp 0x18),
  .instr (.jmp .back),
  .label .invalid,
  .instr (.popl .ebx),
  .instr (.popl .ecx),
  .instr (.popl .edx),
  .instr (.popl .esi),
  .instr (.popl .edi),
  .instr (.popl .ebp),
  .instr (.popl .eax),
  .instr (.popSeg .ds),
  .instr (.popSeg .es),
  .instr (.addl (.imm 4) .esp),
  .instr (.movl (.imm (-1)) .eax),
  .instr .iret,
  .label .back,
  .instr (.popl .ebx),
  .instr (.popl .ecx),
  .instr (.popl .edx),
  .instr (.popl .esi),
  .instr (.popl .edi),
  .instr (.popl .ebp),
  .instr (.popl .eax),
  .instr (.popSeg .ds),
  .instr (.popSeg .es),
  .instr (.addl (.imm 4) .esp),
  .instr .iret]

/-- `DO_CALL(name, number)`. -/
def doCall (number : Word) : List (Line Routine Label) := [
  .instr (.pushl (.reg .ebx)),
  .instr (.movl (.imm number) .eax),
  .instr (.movl (.mem .esp 8) .ebx),
  .instr (.movl (.mem .esp 12) .ecx),
  .instr (.movl (.mem .esp 16) .edx),
  .instr (.int 0x80),
  .instr (.popl .ebx),
  .instr .ret]

/-- The kernel and the user library as they are linked, with the gates of `idt_init`. -/
structure Linked (code : Code Routine Label) : Prop where
  keyboard : code.lines .keyboardHandlerAsm = handlerAsm .keyboardHandler
  rtc : code.lines .rtcHandlerAsm = handlerAsm .rtcIntHandler
  pit : code.lines .pitHandlerAsm = handlerAsm .pitIntHandler
  syscall : code.lines .syscallAsm = syscallAsm
  stub : ∀ c : SysCall, code.lines (.ece391 c) = doCall c.number
  gate : code.gate 0x80 = some ⟨.syscallAsm, kernelCs, 3, true⟩
  usable : code.usable kernelDs = true

variable {code : Code Routine Label}

/-- The words below `tss.esp0` in `syscall_asm`, from the stack pointer up: what the routine
saves, and what the processor has stored. -/
structure Frame where
  ebx : Word
  ecx : Word
  edx : Word
  esi : Word
  edi : Word
  ebp : Word
  /-- The result is stored here. -/
  eax : Word
  ds : Word
  es : Word
  origEax : Word
  eip : Word
  cs : Word
  eflags : Word
  esp : Word
  ss : Word

namespace Frame

def words (w : Frame) : List Word :=
  [w.ebx, w.ecx, w.edx, w.esi, w.edi, w.ebp, w.eax, w.ds, w.es, w.origEax, w.eip, w.cs, w.eflags,
    w.esp, w.ss]

/-- The registers that the frame gives back, with `v` for `%eax`. -/
def reg (w : Frame) (v : Word) : Reg → Word
  | .eax => v
  | .ecx => w.ecx
  | .edx => w.edx
  | .ebx => w.ebx
  | .esp => w.esp
  | .ebp => w.ebp
  | .esi => w.esi
  | .edi => w.edi

def seg (w : Frame) : Seg → Selector
  | .es => w.es.setWidth 16
  | .cs => w.cs.setWidth 16
  | .ss => w.ss.setWidth 16
  | .ds => w.ds.setWidth 16

end Frame

/-- The frame of a program at `m`. -/
def frame (code : Code Routine Label) (m : Machine Routine) : Frame where
  ebx := m.reg .ebx
  ecx := m.reg .ecx
  edx := m.reg .edx
  esi := m.reg .esi
  edi := m.reg .edi
  ebp := m.reg .ebp
  eax := m.reg .eax
  ds := (m.seg .ds).setWidth 32
  es := (m.seg .es).setWidth 32
  origEax := m.reg .eax
  eip := code.addr m.next.pc
  cs := (m.seg .cs).setWidth 32
  eflags := m.flags.word
  esp := m.reg .esp
  ss := (m.seg .ss).setWidth 32

/-- The address to which a system call returns. -/
abbrev returnAddr (code : Code Routine Label) : Word := code.addr ⟨.syscallAsm, 19⟩

/-- A user program at an `int $0x80`, and a kernel stack for it. -/
structure AtCall (code : Code Routine Label) (m : Machine Routine) : Prop where
  line : (code.lines m.pc.routine)[m.pc.line]? = some (.instr (.int 0x80))
  next : m.pc.line + 1 < (code.lines m.pc.routine).length
  level : (m.seg .cs).extractLsb' 0 2 = 3#2
  stack : code.usable m.tssSs0 = true
  room : 64 ≤ m.tssEsp0.toNat

/-- The kernel entered for the program at `m`: at point `p`, with the words of `l` on its stack. -/
structure InKernel (m : Machine Routine) (p : Point Routine) (l : List Word)
    (t : Machine Routine) : Prop where
  pc : t.pc = p
  esp : t.reg .esp = top m.tssEsp0 l
  mem : t.mem = pushAll m.mem m.tssEsp0 l
  ds : t.seg .ds = kernelDs
  es : t.seg .es = kernelDs
  cs : t.seg .cs = kernelCs
  ss : t.seg .ss = m.tssSs0
  df : t.flags.df = false
  ie : t.flags.ie = m.flags.ie

theorem InKernel.outside {m t : Machine Routine} {p : Point Routine} {l : List Word}
    (h : InKernel m p l t) (hl : l.length ≤ 16) (hroom : 64 ≤ m.tssEsp0.toNat) {i : Nat}
    (hi : i + 64 < m.tssEsp0.toNat ∨ m.tssEsp0.toNat ≤ i) : t.mem i = m.mem i := by
  have htop := top_toNat (a := m.tssEsp0) (l := l) (by omega)
  rw [h.mem]
  exact pushAll_outside m.mem (by omega) (by omega)

theorem InKernel.stacked {m t : Machine Routine} {p : Point Routine} {l : List Word}
    (h : InKernel m p l t) (hl : l.length ≤ 16) (hroom : 64 ≤ m.tssEsp0.toNat) :
    Stacked t.mem (t.reg .esp) l ∧ (t.reg .esp).toNat + 4 * l.length = m.tssEsp0.toNat := by
  rw [h.mem, h.esp]
  exact ⟨stacked_pushAll m.mem (by omega), top_toNat (by omega)⟩

theorem enter (hl : Linked code) {m : Machine Routine} (hm : AtCall code m) :
    ∃ t, code.Steps m t ∧ InKernel m ⟨.syscallAsm, 14⟩ (frame code m).words t ∧
      t.reg .eax = m.reg .eax := by
  suffices h : ∃ t, code.Steps m t ∧ t.pc = ⟨.syscallAsm, 14⟩ ∧
      t.reg .esp = top m.tssEsp0 (frame code m).words ∧
      t.mem = pushAll m.mem m.tssEsp0 (frame code m).words ∧ t.seg .ds = kernelDs ∧
      t.seg .es = kernelDs ∧ t.seg .cs = kernelCs ∧ t.seg .ss = m.tssSs0 ∧ t.flags.df = false ∧
      t.flags.ie = m.flags.ie ∧ t.reg .eax = m.reg .eax by
    obtain ⟨t, ht, hpc, hesp, hmem, hds, hes, hcs, hss, hdf, hie, heax⟩ := h
    exact ⟨t, ht, ⟨hpc, hesp, hmem, hds, hes, hcs, hss, hdf, hie⟩, heax⟩
  apply Code.Steps.exists_of_run (n := 15)
  simp [Code.run, Code.step, hm.line, Code.int, hl.gate, Code.cpl, hm.level, Code.deliver, hm.stack,
    hl.syscall, syscallAsm, frame, Frame.words, top, pushAll]

theorem table_bounds {v : Word} {f : Routine} (h : sysCallTable[v.toNat]? = some (some f)) :
    v < 9#32 ∧ v ≠ 0#32 := by
  obtain ⟨hlt, hget⟩ := List.getElem?_eq_some_iff.mp h
  have hlt : v.toNat < 9 := hlt
  refine ⟨hlt, ?_⟩
  rintro rfl
  cases hget

/-- A number in the table leads to its routine, with `%ebx`, `%ecx` and `%edx` for arguments. -/
theorem enters (hl : Linked code) {m : Machine Routine} (hm : AtCall code m) {f : Routine}
    (hf : sysCallTable[(m.reg .eax).toNat]? = some (some f)) :
    ∃ t, code.Steps m t ∧ InKernel m ⟨f, 0⟩ (returnAddr code :: (frame code m).words) t := by
  obtain ⟨h9, h0⟩ := table_bounds hf
  obtain ⟨t, ht, hin, heax⟩ := enter hl hm
  suffices h : ∃ u, code.Steps t u ∧
      InKernel m ⟨f, 0⟩ (returnAddr code :: (frame code m).words) u by
    obtain ⟨u, hu, he⟩ := h
    exact ⟨u, ht.trans hu, he⟩
  have hpc := hin.pc
  have hss := hin.ss
  apply Code.Steps.exists_of_run (n := 5)
  simp [Code.run, Code.step, hpc, hl.syscall, syscallAsm, heax, h9, h0, hf, Code.call, hss,
    hm.stack]
  exact ⟨rfl, by simp [hin.esp, top], by simp [hin.esp, hin.mem, pushAll], hin.ds, hin.es,
    hin.cs, hss, hin.df, hin.ie⟩

theorem table_entry {v : Word} (h9 : v < 9#32) (h0 : v ≠ 0#32) :
    ∃ f, sysCallTable[v.toNat]? = some (some f) := by
  have hlt : v.toNat < 9 := h9
  have hpos : v.toNat ≠ 0 := fun h => h0 (BitVec.eq_of_toNat_eq h)
  have hall : ∀ n < 9, n ≠ 0 → ∃ f, sysCallTable[n]? = some (some f) := by
    intro n hn h0
    obtain rfl | rfl | rfl | rfl | rfl | rfl | rfl | rfl : n = 1 ∨ n = 2 ∨ n = 3 ∨ n = 4 ∨ n = 5 ∨
        n = 6 ∨ n = 7 ∨ n = 8 := by omega
    all_goals exact ⟨_, rfl⟩
  exact hall v.toNat hlt hpos

/-- No other number leads to a routine. -/
theorem rejects (hl : Linked code) {m : Machine Routine} (hm : AtCall code m)
    (hf : ∀ f, sysCallTable[(m.reg .eax).toNat]? ≠ some (some f)) :
    ∃ t, code.Steps m t ∧ InKernel m ⟨.syscallAsm, 21⟩ (frame code m).words t := by
  obtain ⟨t, ht, hin, heax⟩ := enter hl hm
  suffices h : ∃ u, code.Steps t u ∧ InKernel m ⟨.syscallAsm, 21⟩ (frame code m).words u by
    obtain ⟨u, hu, he⟩ := h
    exact ⟨u, ht.trans hu, he⟩
  have hpc := hin.pc
  by_cases h9 : m.reg .eax < 9#32
  · have h0 : m.reg .eax = 0#32 := by
      by_contra h0
      obtain ⟨f, hentry⟩ := table_entry h9 h0
      exact hf f hentry
    apply Code.Steps.exists_of_run (n := 4)
    simp [Code.run, Code.step, hpc, hl.syscall, syscallAsm, heax, h0, List.findIdx?,
      List.findIdx?.go]
    exact ⟨rfl, hin.esp, hin.mem, hin.ds, hin.es, hin.cs, hin.ss, hin.df, hin.ie⟩
  · apply Code.Steps.exists_of_run (n := 2)
    simp [Code.run, Code.step, hpc, hl.syscall, syscallAsm, heax, h9, List.findIdx?,
      List.findIdx?.go]
    exact ⟨rfl, hin.esp, hin.mem, hin.ds, hin.es, hin.cs, hin.ss, hin.df, hin.ie⟩

/-- `syscall_asm` about to give back what is on its stack. -/
structure Leaving (code : Code Routine Label) (w : Frame) (p : Point Routine)
    (t : Machine Routine) : Prop where
  stack : Stacked t.mem (t.reg .esp) w.words
  point : code.point w.eip = some p
  level : (w.seg .cs).extractLsb' 0 2 ≠ 0#2
  cs : t.seg .cs = kernelCs
  ss : code.usable (t.seg .ss) = true

/-- The program goes on with the registers of the frame. -/
structure Resumed (w : Frame) (p : Point Routine) (v : Word) (t u : Machine Routine) : Prop where
  pc : u.pc = p
  reg : ∀ q, u.reg q = w.reg v q
  seg : ∀ s, u.seg s = w.seg s
  flags : u.flags = Flags.ofWord w.eflags
  mem : u.mem = t.mem

theorem leave_back (hl : Linked code) {t : Machine Routine} {w : Frame} {p : Point Routine}
    (ht : Leaving code w p t) (hpc : t.pc = ⟨.syscallAsm, 34⟩) :
    ∃ u, code.Steps t u ∧ Resumed w p w.eax t u := by
  have hstack := ht.stack
  have hlevel := ht.level
  simp only [Stacked, Frame.words] at hstack
  rw [Frame.seg] at hlevel
  apply Code.Steps.exists_of_run (n := 12)
  simp [Code.run, Code.step, hpc, hl.syscall, syscallAsm, ht.ss, Code.iret, hstack, ht.point, ht.cs,
    Code.cpl, hlevel]
  constructor
  · rfl
  · intro q
    cases q <;> simp [Frame.reg]
  · intro q
    cases q <;> simp [Frame.seg]
  · rfl
  · rfl

theorem leave_invalid (hl : Linked code) {t : Machine Routine} {w : Frame} {p : Point Routine}
    (ht : Leaving code w p t) (hpc : t.pc = ⟨.syscallAsm, 21⟩) :
    ∃ u, code.Steps t u ∧ Resumed w p (-1) t u := by
  have hstack := ht.stack
  have hlevel := ht.level
  simp only [Stacked, Frame.words] at hstack
  rw [Frame.seg] at hlevel
  apply Code.Steps.exists_of_run (n := 13)
  simp [Code.run, Code.step, hpc, hl.syscall, syscallAsm, ht.ss, Code.iret, hstack, ht.point, ht.cs,
    Code.cpl, hlevel]
  constructor
  · rfl
  · intro q
    cases q <;> simp [Frame.reg]
  · intro q
    cases q <;> simp [Frame.seg]
  · rfl
  · rfl

/-! ## Calls -/

/-- Runs of the system, the steps of routines in C being those of `c`. -/
abbrev Runs (code : Code Routine Label) (c : Machine Routine → Machine Routine → Prop) :
    Machine Routine → Machine Routine → Prop :=
  Relation.ReflTransGen fun m m' => code.step m = some m' ∨ c m m'

theorem Runs.of_steps {c : Machine Routine → Machine Routine → Prop} {m t : Machine Routine}
    (h : code.Steps m t) : Runs code c m t := by
  induction h with
  | refl => exact .refl
  | tail _ h ih => exact ih.tail (.inl h)

theorem Runs.mono {c c' : Machine Routine → Machine Routine → Prop} (hc : ∀ t u, c t u → c' t u)
    {m t : Machine Routine} (h : Runs code c m t) : Runs code c' m t := by
  induction h with
  | refl => exact .refl
  | tail _ h ih => exact ih.tail (h.imp_right (hc _ _))

/-- The state `u` in which a C function comes back that was entered in state `t`. -/
structure Cdecl (code : Code Routine Label) (t u : Machine Routine) : Prop where
  pc : code.point (loadWord t.mem (t.reg .esp)) = some u.pc
  esp : u.reg .esp = t.reg .esp + 4#32
  saved : ∀ q ∈ [Reg.ebx, .esi, .edi, .ebp], u.reg q = t.reg q
  seg : u.seg = t.seg

/-- `syscall_asm` stores the result of the routine and leaves. -/
theorem store_result (hl : Linked code) {t : Machine Routine} {w : Frame} {p : Point Routine}
    (ht : Leaving code w p t) (hpc : t.pc = ⟨.syscallAsm, 19⟩)
    (hfit : (t.reg .esp).toNat + 60 ≤ 2 ^ 32) :
    ∃ u, code.Steps t u ∧ Resumed w p (t.reg .eax) { t with
      mem := storeWord t.mem (t.reg .esp + 24#32) (t.reg .eax) } u := by
  have hset := ht.stack.set (k := 6) (t.reg .eax) (show 6 < 15 by decide) hfit
  obtain ⟨t', ht', hpc', hesp, hcs, hss, hmem⟩ : ∃ t', code.Steps t t' ∧
      t'.pc = ⟨.syscallAsm, 34⟩ ∧ t'.reg .esp = t.reg .esp ∧ t'.seg .cs = t.seg .cs ∧
      t'.seg .ss = t.seg .ss ∧ t'.mem = storeWord t.mem (t.reg .esp + 24#32) (t.reg .eax) := by
    apply Code.Steps.exists_of_run (n := 2)
    simp [Code.run, Code.step, hpc, hl.syscall, syscallAsm, ht.ss, List.findIdx?, List.findIdx?.go]
  have hleave : Leaving code { w with eax := t.reg .eax } p t' := by
    refine ⟨?_, ht.point, ht.level, hcs.trans ht.cs, hss ▸ ht.ss⟩
    rw [hmem, hesp]
    exact hset
  obtain ⟨u, hu, hres⟩ := leave_back hl hleave hpc'
  refine ⟨u, ht'.trans hu, hres.pc, fun q => ?_, hres.seg, hres.flags, hres.mem.trans hmem⟩
  rw [hres.reg q]
  cases q <;> rfl

/-- What the routine of a system call leaves to `syscall_asm`: it comes back as C functions do,
and of its caller's frame it may have changed nothing but its own three arguments. -/
structure Serves (code : Code Routine Label) (t u : Machine Routine) : Prop where
  cdecl : Cdecl code t u
  frame : ∀ i, (t.reg .esp).toNat + 16 ≤ i → i < (t.reg .esp).toNat + 64 → u.mem i = t.mem i

/-- The frame in which the three arguments are what the routine has left there. -/
def returned (w : Frame) (u : Machine Routine) : Frame :=
  { w with
    ebx := loadWord u.mem (u.reg .esp)
    ecx := loadWord u.mem (u.reg .esp + 4#32)
    edx := loadWord u.mem (u.reg .esp + 4#32 + 4#32) }

theorem frame_point {m : Machine Routine} (hm : AtCall code m) :
    code.point (frame code m).eip = some m.next.pc ∧
      ((frame code m).seg .cs).extractLsb' 0 2 ≠ 0#2 := by
  refine ⟨code.point_addr _ hm.next, ?_⟩
  have hcs : (frame code m).seg .cs = m.seg .cs := by simp [Frame.seg, frame]
  rw [hcs, hm.level]
  decide

/-- When the number is in the table, its routine is entered with the three argument registers,
and the program goes on with the routine's result. -/
theorem syscall_served (hl : Linked code) {c : Machine Routine → Machine Routine → Prop}
    {m : Machine Routine} (hm : AtCall code m) {f : Routine}
    (hf : sysCallTable[(m.reg .eax).toNat]? = some (some f))
    (hc : ∀ t, InKernel m ⟨f, 0⟩ (returnAddr code :: (frame code m).words) t →
      ∃ u, c t u ∧ Serves code t u) :
    ∃ t u v, InKernel m ⟨f, 0⟩ (returnAddr code :: (frame code m).words) t ∧ c t u ∧
      Runs code c m v ∧ Resumed (returned (frame code m) u) m.next.pc (u.reg .eax)
        { u with mem := storeWord u.mem (u.reg .esp + 24#32) (u.reg .eax) } v := by
  obtain ⟨t, ht, hin⟩ := enters hl hm hf
  obtain ⟨u, hu, hserves⟩ := hc t hin
  refine ⟨t, u, ?_⟩
  have hroom := hm.room
  obtain ⟨hpoint, hlevel⟩ := frame_point hm
  obtain ⟨hstack, htop⟩ := hin.stacked (Nat.le_refl 16) hroom
  change (t.reg .esp).toNat + 64 = m.tssEsp0.toNat at htop
  have ha := m.tssEsp0.isLt
  have hfit : (t.reg .esp).toNat + 16 + 4 * 12 ≤ 2 ^ 32 := by omega
  have hback : u.pc = ⟨.syscallAsm, 19⟩ := by
    have hpc := hserves.cdecl.pc
    rw [hstack.1, code.point_addr _ (by rw [hl.syscall]; decide)] at hpc
    exact (Option.some.inj hpc).symm
  have hesp : (u.reg .esp).toNat = (t.reg .esp).toNat + 4 := by
    rw [hserves.cdecl.esp]
    bv_omega
  have hleave : Leaving code (returned (frame code m) u) m.next.pc u := by
    refine ⟨⟨rfl, rfl, rfl, ?_⟩, hpoint, hlevel, ?_, ?_⟩
    · rw [hserves.cdecl.esp]
      have hsaved : (t.reg .esp + 4#32 + 4#32 + 4#32 + 4#32).toNat = (t.reg .esp).toNat + 16 := by
        bv_omega
      refine Stacked.congr hstack.2.2.2.2 ?_ fun i h1 h2 => hserves.frame i ?_ ?_
      · rw [hsaved]
        exact hfit
      · omega
      · rw [hsaved] at h2
        exact h2
    · rw [hserves.cdecl.seg, hin.cs]
    · rw [hserves.cdecl.seg, hin.ss, hm.stack]
  obtain ⟨v, hv, hres⟩ := store_result hl hleave hback (by omega)
  exact ⟨v, hin, hu, ((Runs.of_steps ht).tail (.inr hu)).trans (Runs.of_steps hv), hres⟩

/-- A number that is not in the table comes back with -1, all else as it was. -/
theorem syscall_rejected (hl : Linked code) {m : Machine Routine} (hm : AtCall code m)
    (hf : ∀ f, sysCallTable[(m.reg .eax).toNat]? ≠ some (some f)) :
    ∃ t v, InKernel m ⟨.syscallAsm, 21⟩ (frame code m).words t ∧ code.Steps m v ∧
      Resumed (frame code m) m.next.pc (-1) t v := by
  obtain ⟨t, ht, hin⟩ := rejects hl hm hf
  obtain ⟨hpoint, hlevel⟩ := frame_point hm
  obtain ⟨hstack, -⟩ := hin.stacked (Nat.le_succ 15) hm.room
  obtain ⟨v, hv, hres⟩ :=
    leave_invalid hl ⟨hstack, hpoint, hlevel, hin.cs, hin.ss ▸ hm.stack⟩ hin.pc
  exact ⟨t, v, hin, ht.trans hv, hres⟩

theorem frame_seg (code : Code Routine Label) (m : Machine Routine) :
    (frame code m).seg = m.seg := by
  funext s
  cases s <;> simp [Frame.seg, frame]

/-- **System calls.** From any program at an `int $0x80`, with any number in `%eax`: the program
goes on behind the instruction with its stack, its segments, its flags and `%ebp`, `%esi`, `%edi`
as they were. A number in the table has led to the routine there, with `%ebx`, `%ecx` and `%edx`
for arguments; `%eax` is its result, and the argument registers are what it has left in their
places. Any other number gives -1, and memory is as it was but for the kernel stack. -/
theorem syscall_linkage (hl : Linked code) {c : Machine Routine → Machine Routine → Prop}
    {m : Machine Routine} (hm : AtCall code m)
    (hc : ∀ f t, sysCallTable[(m.reg .eax).toNat]? = some (some f) →
      InKernel m ⟨f, 0⟩ (returnAddr code :: (frame code m).words) t →
        ∃ u, c t u ∧ Serves code t u) :
    ∃ v, Runs code c m v ∧ v.pc = m.next.pc ∧ v.seg = m.seg ∧ v.flags = m.flags ∧
      (∀ q ∈ [Reg.esp, .ebp, .esi, .edi], v.reg q = m.reg q) ∧
      match sysCallTable[(m.reg .eax).toNat]? with
      | some (some f) => ∃ t u,
        InKernel m ⟨f, 0⟩ (returnAddr code :: (frame code m).words) t ∧ c t u ∧
          v.reg .eax = u.reg .eax ∧
          Stacked u.mem (u.reg .esp) [v.reg .ebx, v.reg .ecx, v.reg .edx] ∧
          ∀ i, i + 64 < m.tssEsp0.toNat ∨ m.tssEsp0.toNat ≤ i → v.mem i = u.mem i
      | _ => v.reg .eax = -1 ∧ (∀ q ∈ [Reg.ebx, .ecx, .edx], v.reg q = m.reg q) ∧
          ∀ i, i + 64 < m.tssEsp0.toNat ∨ m.tssEsp0.toNat ≤ i → v.mem i = m.mem i := by
  have hreject : (∀ f, sysCallTable[(m.reg .eax).toNat]? ≠ some (some f)) →
      ∃ v, Runs code c m v ∧ v.pc = m.next.pc ∧ v.seg = m.seg ∧ v.flags = m.flags ∧
        (∀ q ∈ [Reg.esp, .ebp, .esi, .edi], v.reg q = m.reg q) ∧ v.reg .eax = -1 ∧
        (∀ q ∈ [Reg.ebx, .ecx, .edx], v.reg q = m.reg q) ∧
        ∀ i, i + 64 < m.tssEsp0.toNat ∨ m.tssEsp0.toNat ≤ i → v.mem i = m.mem i := by
    intro hf
    obtain ⟨t, v, hin, hv, hres⟩ := syscall_rejected hl hm hf
    refine ⟨v, .of_steps hv, hres.pc, ?_, ?_, ?_, hres.reg .eax, ?_, fun i hi => ?_⟩
    · exact (funext hres.seg).trans (frame_seg code m)
    · rw [hres.flags, frame, Flags.ofWord_word]
    · simp [hres.reg, Frame.reg, frame]
    · simp [hres.reg, Frame.reg, frame]
    · rw [hres.mem, hin.outside (Nat.le_succ 15) hm.room hi]
  cases hf : sysCallTable[(m.reg .eax).toNat]? with
  | none =>
    dsimp only
    exact hreject fun f h => by simp [h] at hf
  | some entry =>
    cases entry with
    | none =>
      dsimp only
      exact hreject fun f h => by simp [h] at hf
    | some f =>
      dsimp only
      obtain ⟨t, u, v, hin, hu, hv, hres⟩ := syscall_served hl (c := fun t u => c t u ∧
        Serves code t u) hm hf fun t ht => (hc f t hf ht).imp fun u hu => ⟨hu, hu.2⟩
      refine ⟨v, hv.mono fun _ _ => And.left, hres.pc, ?_, ?_, ?_, t, u, hin, hu.1, hres.reg .eax,
        ?_, fun i hi => ?_⟩
      · exact (funext hres.seg).trans (frame_seg code m)
      · rw [hres.flags, returned, frame, Flags.ofWord_word]
      · simp [hres.reg, Frame.reg, returned, frame]
      · simp [hres.reg, Frame.reg, returned, Stacked]
      · obtain ⟨-, htop⟩ := hin.stacked (Nat.le_refl 16) hm.room
        change (t.reg .esp).toNat + 64 = m.tssEsp0.toNat at htop
        have ha := m.tssEsp0.isLt
        have hesp : (u.reg .esp + 24#32).toNat + 36 = m.tssEsp0.toNat := by
          rw [hu.2.cdecl.esp]
          bv_omega
        rw [hres.mem]
        exact storeWord_outside u.mem (u.reg .eax) (by omega) (by omega)

/-! ## A layout -/

/-- The routines in assembler, and a program that does a system call by itself. -/
def lines : Routine → List (Line Routine Label)
  | .keyboardHandlerAsm => handlerAsm .keyboardHandler
  | .rtcHandlerAsm => handlerAsm .rtcIntHandler
  | .pitHandlerAsm => handlerAsm .pitIntHandler
  | .syscallAsm => syscallAsm
  | .ece391 c => doCall c.number
  | .user 0 => [.instr (.int 0x80), .instr .ret]
  | _ => []

/-- Each routine has 64 addresses. -/
def slot : Routine → Nat
  | .keyboardHandlerAsm => 0
  | .rtcHandlerAsm => 1
  | .pitHandlerAsm => 2
  | .syscallAsm => 3
  | .user _ => 4
  | .ece391 c => 5 + c.number.toNat
  | _ => 16

def inSlot : Nat → Option Routine
  | 0 => some .keyboardHandlerAsm
  | 1 => some .rtcHandlerAsm
  | 2 => some .pitHandlerAsm
  | 3 => some .syscallAsm
  | 4 => some (.user 0)
  | n => ([.halt, .execute, .read, .write, .openFile, .closeFile, .getargs, .vidmap, .setHandler,
      .sigreturn] : List SysCall)[n - 6]?.map .ece391

theorem inSlot_slot (r : Routine) (h : lines r ≠ []) :
    inSlot (slot r) = some r ∧ slot r < 16 ∧ (lines r).length ≤ 64 := by
  cases r with
  | user k =>
    cases k with
    | zero => decide
    | succ k => exact absurd rfl h
  | ece391 c => cases c <;> decide
  | kernel c => exact absurd rfl h
  | keyboardHandler => exact absurd rfl h
  | rtcIntHandler => exact absurd rfl h
  | pitIntHandler => exact absurd rfl h
  | keyboardHandlerAsm => decide
  | rtcHandlerAsm => decide
  | pitHandlerAsm => decide
  | syscallAsm => decide

def layout : Code Routine Label where
  lines := lines
  addr p := BitVec.ofNat 32 (64 * slot p.routine + p.line)
  point w := (inSlot (w.toNat / 64)).map fun r => ⟨r, w.toNat % 64⟩
  point_addr p hp := by
    obtain ⟨hslot, hlt, hlen⟩ := inSlot_slot p.routine (List.ne_nil_of_length_pos (by omega))
    have hline : p.line < 64 := by omega
    have hfit : (64 * slot p.routine + p.line) % 2 ^ 32 = 64 * slot p.routine + p.line :=
      Nat.mod_eq_of_lt (by omega)
    rw [BitVec.toNat_ofNat, hfit,
      show (64 * slot p.routine + p.line) / 64 = slot p.routine by omega,
      show (64 * slot p.routine + p.line) % 64 = p.line by omega, hslot]
    rfl
  usable s := s = kernelDs ∨ s = 0x2B
  gate
    | 0x20 => some ⟨.pitHandlerAsm, kernelCs, 0, false⟩
    | 0x21 => some ⟨.keyboardHandlerAsm, kernelCs, 0, false⟩
    | 0x28 => some ⟨.rtcHandlerAsm, kernelCs, 0, false⟩
    | 0x80 => some ⟨.syscallAsm, kernelCs, 3, true⟩
    | _ => none

theorem layout_linked : Linked layout where
  keyboard := rfl
  rtc := rfl
  pit := rfl
  syscall := rfl
  stub _ := rfl
  gate := rfl
  usable := rfl

/-- A user program about to do `int $0x80` for `read`. -/
def atInt : Machine Routine where
  reg
    | .eax => 3
    | .ebx => 5
    | .esp => 0x83FFFF0
    | _ => 0
  seg
    | .cs => 0x23
    | _ => 0x2B
  flags := ⟨false, false, false, true⟩
  mem := fun _ => 0
  pc := ⟨.user 0, 0⟩
  tssEsp0 := 0x7FFFF0
  tssSs0 := kernelDs

/-- A routine in C that does nothing but come back to `p` with `v`. -/
def answers (p : Point Routine) (v : Word) (t u : Machine Routine) : Prop :=
  u = ((t.setReg .esp (t.reg .esp + 4#32)).setReg .eax v).goto p

theorem answers_cdecl {p : Point Routine} {v : Word} {t u : Machine Routine} (h : answers p v t u)
    (hp : layout.point (loadWord t.mem (t.reg .esp)) = some p) : Cdecl layout t u := by
  subst h
  exact ⟨hp, by simp, by simp, rfl⟩

theorem answers_serves {p : Point Routine} {v : Word} {t u : Machine Routine} (h : answers p v t u)
    (hp : layout.point (loadWord t.mem (t.reg .esp)) = some p) : Serves layout t u :=
  ⟨answers_cdecl h hp, fun _ _ _ => by rw [h]; rfl⟩

theorem syscall_linkage_read : ∃ v, Runs layout (answers ⟨.syscallAsm, 19⟩ 7) atInt v ∧
    v.pc = ⟨.user 0, 1⟩ ∧ v.reg .eax = 7 ∧ v.reg .ebx = 5 ∧ v.seg = atInt.seg := by
  obtain ⟨v, hv, hpc, hseg, -, -, t, u, hin, rfl, heax, hargs, -⟩ :=
    syscall_linkage layout_linked (c := answers ⟨.syscallAsm, 19⟩ 7) (m := atInt)
      ⟨rfl, by decide, by decide, rfl, by decide⟩ fun f t hf ht =>
        ⟨_, rfl, answers_serves rfl (by
          rw [(ht.stacked (Nat.le_refl 16) (by decide)).1.1]
          decide)⟩
  have hstack := (hin.stacked (Nat.le_refl 16) (by decide)).1
  refine ⟨v, hv, hpc, heax, ?_, hseg⟩
  rw [← hargs.1]
  exact hstack.2.1

end OS391.Linkage
