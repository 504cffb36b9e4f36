import Mathlib.Tactic.IntervalCases
import OS391.Library.Tables
import OS391.HandlerWrappers
import OS391.InterruptMasks

/-! `idt.c`: the interrupt table that `idt_init` sets up, bit by bit, as the processor reads it. -/

namespace OS391
open Library.Runs Library.Tables Library.X86 Linkage

/-- `idt_desc_t`. -/
structure IdtDesc where
  offset1500 : BitVec 16
  segSelector : BitVec 16
  reserved4 : BitVec 8
  reserved3 : BitVec 1
  reserved2 : BitVec 1
  reserved1 : BitVec 1
  size : BitVec 1
  reserved0 : BitVec 1
  dpl : BitVec 2
  present : BitVec 1
  offset3116 : BitVec 16
  deriving DecidableEq

namespace IdtDesc

/-- The eight bytes, as one number: the first field is the lowest. -/
def val (d : IdtDesc) : BitVec 64 :=
  d.offset3116 ++ d.present ++ d.dpl ++ d.reserved0 ++ d.size ++ d.reserved1 ++ d.reserved2 ++
    d.reserved3 ++ d.reserved4 ++ d.segSelector ++ d.offset1500

end IdtDesc

/-- The gate that the processor reads in eight bytes of the table: a present 32-bit interrupt
gate (type 14) or trap gate (type 15), with the address that it leads to. -/
def readGate (w : BitVec 64) : Option (Gate Word) :=
  if w.extractLsb' 47 1 = 1 ∧ w.extractLsb' 44 1 = 0 ∧ w.extractLsb' 43 1 = 1 ∧
      w.extractLsb' 42 1 = 1 ∧ w.extractLsb' 41 1 = 1 then
    some ⟨w.extractLsb' 48 16 ++ w.extractLsb' 0 16, w.extractLsb' 16 16,
      (w.extractLsb' 45 2).toNat, w.extractLsb' 40 1 = 1⟩
  else none

/-- The routines that gates lead to. -/
inductive Handler where
  | exception0De | exception1Db | exception2Nmi | exception3Bp | exception4Of | exception5Br
  | exception6Ud | exception7Nm | exception8Df | exception9Cso | exception10Ts | exception11Np
  | exception12Ss | exception13Gp | exception14Pf | exception15Rs | exception16Mf
  | exception17Ac | exception18Mc | exception19Xf | exceptionUserDefined
  | keyboardHandlerAsm | rtcHandlerAsm | pitHandlerAsm | syscallAsm
  deriving DecidableEq

abbrev numVec : Nat := 256
abbrev systemCall : Nat := 0x80
abbrev kernalSeg : BitVec 16 := 0x0010
abbrev archDefined : Nat := 32
abbrev lowDpl : BitVec 2 := 3

/-- `SET_IDT_ENTRY`. -/
def setIdtEntry (handler : Word) (d : IdtDesc) : IdtDesc :=
  { d with
    offset3116 := ((handler &&& 0xFFFF0000) >>> 16).setWidth 16
    offset1500 := (handler &&& 0xFFFF).setWidth 16 }

/-- The round of the first loop for entry `i`. -/
def initEntry (i : Nat) (d : IdtDesc) : IdtDesc :=
  { d with
    segSelector := kernalSeg
    reserved4 := 0
    reserved3 := if i < archDefined then 1 else 0
    reserved2 := 1
    reserved1 := 1
    size := 1
    reserved0 := 0
    dpl := if i ≠ systemCall then 0 else lowDpl
    present := 1 }

abbrev Idt := Nat → IdtDesc

/-- An assignment to fields of one entry. -/
abbrev Assignment := Nat × (IdtDesc → IdtDesc)

def assign (idt : Idt) (e : Assignment) : Idt := modify idt e.1 e.2

section Init

variable (addr : Handler → Word)

def setEntry (i : Nat) (h : Handler) : Assignment := (i, setIdtEntry (addr h))

def interruptGate (d : IdtDesc) : IdtDesc := { d with reserved3 := 0 }

def userGate (d : IdtDesc) : IdtDesc := { d with dpl := lowDpl }

/-- The assignments of `idt_init` between its two loops. -/
def exceptionEntries : List Assignment := [
  setEntry addr 0 .exception0De,
  setEntry addr 1 .exception1Db,
  (2, interruptGate),
  setEntry addr 2 .exception2Nmi,
  (3, userGate),
  setEntry addr 3 .exception3Bp,
  (4, userGate),
  setEntry addr 4 .exception4Of,
  (5, userGate),
  setEntry addr 5 .exception5Br,
  setEntry addr 6 .exception6Ud,
  setEntry addr 7 .exception7Nm,
  setEntry addr 8 .exception8Df,
  setEntry addr 9 .exception9Cso,
  setEntry addr 10 .exception10Ts,
  setEntry addr 11 .exception11Np,
  setEntry addr 12 .exception12Ss,
  setEntry addr 13 .exception13Gp,
  (14, interruptGate),
  setEntry addr 14 .exception14Pf,
  setEntry addr 15 .exception15Rs,
  setEntry addr 16 .exception16Mf,
  setEntry addr 17 .exception17Ac,
  setEntry addr 18 .exception18Mc,
  setEntry addr 19 .exception19Xf]

/-- And those behind the second loop. -/
def deviceEntries : List Assignment := [
  setEntry addr 0x21 .keyboardHandlerAsm,
  setEntry addr 0x28 .rtcHandlerAsm,
  setEntry addr 0x20 .pitHandlerAsm,
  (systemCall, fun d => { d with reserved3 := 1 }),
  setEntry addr systemCall .syscallAsm]

def idtInit (idt : Idt) : Idt :=
  let idt := (List.range numVec).foldl (fun t i => assign t (i, initEntry i)) idt
  let idt := (exceptionEntries addr).foldl assign idt
  let idt := (List.range' 20 (numVec - 20)).foldl
    (fun t i => assign t (setEntry addr i .exceptionUserDefined)) idt
  (deviceEntries addr).foldl assign idt

end Init

/-! ## One entry -/

/-- What a list of assignments makes of one entry. -/
def entryAfter (v : Nat) (d : IdtDesc) (l : List Assignment) : IdtDesc :=
  l.foldl (fun d e => if e.1 = v then e.2 d else d) d

theorem foldl_assign (l : List Assignment) (idt : Idt) (v : Nat) :
    l.foldl assign idt v = entryAfter v (idt v) l := by
  induction l generalizing idt with
  | nil => rfl
  | cons e l ih =>
    rw [List.foldl_cons, ih, entryAfter, entryAfter, List.foldl_cons]
    congr 1
    by_cases h : e.1 = v
    · rw [if_pos h, ← h, assign, modify_self]
    · rw [if_neg h, assign, modify_of_ne idt _ (Ne.symm h)]

/-- A loop that assigns to entries `lo`, `lo + 1`, … -/
theorem foldl_assign_range (f : Nat → IdtDesc → IdtDesc) (lo n : Nat) (idt : Idt) (v : Nat) :
    (List.range' lo n).foldl (fun t i => assign t (i, f i)) idt v =
      if lo ≤ v ∧ v < lo + n then f v (idt v) else idt v := foldl_range f lo n idt v

theorem entryAfter_of_ne {v : Nat} {l : List Assignment} (h : ∀ e ∈ l, v ≠ e.1) (d : IdtDesc) :
    entryAfter v d l = d := by
  induction l with
  | nil => rfl
  | cons e l ih =>
    rw [entryAfter, List.foldl_cons, if_neg (Ne.symm (h e List.mem_cons_self))]
    exact ih fun e he => h e (List.mem_cons_of_mem _ he)

theorem idtInit_entry (addr : Handler → Word) (idt : Idt) {v : Nat} (h : v < 256) :
    idtInit addr idt v =
      let d := entryAfter v (initEntry v (idt v)) (exceptionEntries addr)
      entryAfter v (if 20 ≤ v then setIdtEntry (addr .exceptionUserDefined) d else d)
        (deviceEntries addr) := by
  have hfirst : 0 ≤ v ∧ v < 0 + numVec := ⟨Nat.zero_le v, by rw [Nat.zero_add]; exact h⟩
  have hsecond : (20 ≤ v ∧ v < 20 + (numVec - 20)) = (20 ≤ v) := by
    simp only [numVec, eq_iff_iff]
    omega
  unfold idtInit
  dsimp only
  rw [foldl_assign, List.range_eq_range']
  unfold setEntry
  rw [foldl_assign_range fun _ => setIdtEntry (addr .exceptionUserDefined), foldl_assign,
    foldl_assign_range initEntry, if_pos hfirst]
  simp only [hsecond]

/-! ## The gates -/

def exceptionHandlers : List Handler :=
  [.exception0De, .exception1Db, .exception2Nmi, .exception3Bp, .exception4Of, .exception5Br,
    .exception6Ud, .exception7Nm, .exception8Df, .exception9Cso, .exception10Ts,
    .exception11Np, .exception12Ss, .exception13Gp, .exception14Pf, .exception15Rs,
    .exception16Mf, .exception17Ac, .exception18Mc, .exception19Xf]

/-- The routine of a vector. -/
def handlerOf (v : Nat) : Handler :=
  if v = 0x20 then .pitHandlerAsm
  else if v = 0x21 then .keyboardHandlerAsm
  else if v = 0x28 then .rtcHandlerAsm
  else if v = systemCall then .syscallAsm
  else exceptionHandlers.getD v .exceptionUserDefined

theorem handlerOf_exception {v : Nat}
    (h : ¬(v = 0x20 ∨ v = 0x21 ∨ v = 0x28 ∨ v = systemCall)) :
    handlerOf v = exceptionHandlers.getD v .exceptionUserDefined := by
  simp only [not_or] at h
  obtain ⟨hpit, hkeyboard, hrtc, hcall⟩ := h
  rw [handlerOf, if_neg hpit, if_neg hkeyboard, if_neg hrtc, if_neg hcall]

/-- The vectors that a program may call with `int`. -/
def callable (v : Nat) : Bool := v ∈ [3, 4, 5, systemCall]

/-- The vectors whose gates leave interrupts on. -/
def trapped (v : Nat) : Bool := v = systemCall ∨ v < archDefined ∧ v ≠ 2 ∧ v ≠ 14

/-- An entry with the fields that its vector has in the end. -/
def gateEntry (addr : Handler → Word) (v : Nat) (d : IdtDesc) : IdtDesc :=
  setIdtEntry (addr (handlerOf v))
    { initEntry v d with
      reserved3 := if trapped v then 1 else 0
      dpl := if callable v then lowDpl else 0 }

theorem idtInit_exception (addr : Handler → Word) (idt : Idt) {v : Nat} (h : v < 20) :
    idtInit addr idt v = gateEntry addr v (idt v) := by
  have hdevice : ∀ e ∈ deviceEntries addr, v ≠ e.1 := by
    simp [deviceEntries, setEntry, systemCall]
    omega
  rw [idtInit_entry addr idt (by omega)]
  dsimp only
  rw [if_neg (by omega), entryAfter_of_ne hdevice]
  interval_cases v <;> rfl

theorem idtInit_device (addr : Handler → Word) (idt : Idt) {v : Nat}
    (h : v = 0x20 ∨ v = 0x21 ∨ v = 0x28 ∨ v = systemCall) :
    entryAfter v (setIdtEntry (addr .exceptionUserDefined) (initEntry v (idt v)))
      (deviceEntries addr) = gateEntry addr v (idt v) := by
  obtain rfl | rfl | rfl | rfl := h <;> rfl

theorem idtInit_gate (addr : Handler → Word) (idt : Idt) {v : Nat} (h : v < 256) :
    idtInit addr idt v = gateEntry addr v (idt v) := by
  by_cases h20 : v < 20
  · exact idtInit_exception addr idt h20
  · have hexception : ∀ e ∈ exceptionEntries addr, v ≠ e.1 := by
      simp [exceptionEntries, setEntry]
      omega
    rw [idtInit_entry addr idt h]
    dsimp only
    rw [if_pos (by omega), entryAfter_of_ne hexception]
    by_cases hdevice : v = 0x20 ∨ v = 0x21 ∨ v = 0x28 ∨ v = systemCall
    · exact idtInit_device addr idt hdevice
    · have hne : ∀ e ∈ deviceEntries addr, v ≠ e.1 := by
        simp [deviceEntries, setEntry]
        omega
      have hhandler : handlerOf v = .exceptionUserDefined := by
        rw [handlerOf_exception hdevice]
        exact List.getD_eq_default _ _ (Nat.not_lt.mp h20)
      have htrapped : trapped v = decide (v < archDefined) := by
        simp only [trapped]
        grind
      have hcallable : callable v = false := by
        simp only [callable]
        grind
      rw [entryAfter_of_ne hne, gateEntry, hhandler, htrapped, hcallable]
      simp only [initEntry]
      grind

/-! ## What the processor reads -/

theorem setIdtEntry_offset (a : Word) (d : IdtDesc) :
    (setIdtEntry a d).offset3116 ++ (setIdtEntry a d).offset1500 = a := by
  apply BitVec.eq_of_getLsbD_eq
  intro i hi
  rw [setIdtEntry, BitVec.getLsbD_append]
  interval_cases i <;> simp

theorem readGate_val {d : IdtDesc} (hpresent : d.present = 1) (h0 : d.reserved0 = 0)
    (hsize : d.size = 1) (h1 : d.reserved1 = 1) (h2 : d.reserved2 = 1) :
    readGate d.val = some ⟨d.offset3116 ++ d.offset1500, d.segSelector, d.dpl.toNat,
      d.reserved3 = 1⟩ := by
  -- each field stands above those that are declared before it
  have hlow : d.val.extractLsb' 0 16 = d.offset1500 := BitVec.extractLsb'_append_eq_right
  have hselector : d.val.extractLsb' 16 16 = d.segSelector := by
    unfold IdtDesc.val
    iterate 1 rw [BitVec.extractLsb'_append_eq_of_le (by decide)]
    exact BitVec.extractLsb'_append_eq_right
  have htype : d.val.extractLsb' 40 1 = d.reserved3 := by
    unfold IdtDesc.val
    iterate 3 rw [BitVec.extractLsb'_append_eq_of_le (by decide)]
    exact BitVec.extractLsb'_append_eq_right
  have hbit41 : d.val.extractLsb' 41 1 = d.reserved2 := by
    unfold IdtDesc.val
    iterate 4 rw [BitVec.extractLsb'_append_eq_of_le (by decide)]
    exact BitVec.extractLsb'_append_eq_right
  have hbit42 : d.val.extractLsb' 42 1 = d.reserved1 := by
    unfold IdtDesc.val
    iterate 5 rw [BitVec.extractLsb'_append_eq_of_le (by decide)]
    exact BitVec.extractLsb'_append_eq_right
  have hbit43 : d.val.extractLsb' 43 1 = d.size := by
    unfold IdtDesc.val
    iterate 6 rw [BitVec.extractLsb'_append_eq_of_le (by decide)]
    exact BitVec.extractLsb'_append_eq_right
  have hbit44 : d.val.extractLsb' 44 1 = d.reserved0 := by
    unfold IdtDesc.val
    iterate 7 rw [BitVec.extractLsb'_append_eq_of_le (by decide)]
    exact BitVec.extractLsb'_append_eq_right
  have hdpl : d.val.extractLsb' 45 2 = d.dpl := by
    unfold IdtDesc.val
    iterate 8 rw [BitVec.extractLsb'_append_eq_of_le (by decide)]
    exact BitVec.extractLsb'_append_eq_right
  have hbit47 : d.val.extractLsb' 47 1 = d.present := by
    unfold IdtDesc.val
    iterate 9 rw [BitVec.extractLsb'_append_eq_of_le (by decide)]
    exact BitVec.extractLsb'_append_eq_right
  have hhigh : d.val.extractLsb' 48 16 = d.offset3116 := by
    unfold IdtDesc.val
    iterate 9 rw [BitVec.extractLsb'_append_eq_of_le (by decide)]
    exact BitVec.extractLsb'_append_eq_left
  rw [readGate, hlow, hselector, htype, hbit41, hbit42, hbit43, hbit44, hdpl, hbit47, hhigh,
    if_pos ⟨hpresent, h0, hsize, h1, h2⟩]

theorem readGate_idtInit (addr : Handler → Word) (idt : Idt) {v : Nat} (h : v < 256) :
    readGate (idtInit addr idt v).val =
      some ⟨addr (handlerOf v), kernelCs, if callable v then 3 else 0, trapped v⟩ := by
  rw [idtInit_gate addr idt h, readGate_val rfl rfl rfl rfl rfl]
  unfold gateEntry
  rw [setIdtEntry_offset]
  show some (Gate.mk (addr (handlerOf v)) kernalSeg
    (if callable v then lowDpl else 0 : BitVec 2).toNat
    (decide ((if trapped v then 1 else 0 : BitVec 1) = 1))) = _
  cases callable v <;> cases trapped v <;> rfl

/-- **The gates.** Whatever was in the table and wherever the routines are: after `idt_init`, the
processor reads at each vector a present gate to the routine of the vector, in the kernel's code
segment; programs may call the vectors 3, 4, 5 and 0x80 only; and interrupts stay on in
exceptions other than 2 and 14 and in system calls only. -/
theorem idt_gates (addr : Handler → Word) (idt : Idt) (v : Fin 256) :
    readGate (idtInit addr idt v).val =
      some ⟨addr (handlerOf v), kernelCs, if callable v then 3 else 0, trapped v⟩ :=
  readGate_idtInit addr idt v.isLt

/-! ## The gates of the machine -/

/-- The gate of the table as the processor follows it, to the start of a routine. -/
def followGate (code : Code Routine Label) (idt : Idt) (v : Nat) : Option (Gate Routine) := do
  let g ← readGate (idt v).val
  let p ← code.point g.target
  if p.line = 0 then some { g with target := p.routine } else none

/-- The processor uses the table. -/
def Loaded (code : Code Routine Label) (idt : Idt) : Prop :=
  ∀ v < 256, code.gate v = followGate code idt v

/-- The kernel's routine of a handler. -/
def routineOf : Handler → Option Routine
  | .keyboardHandlerAsm => some .keyboardHandlerAsm
  | .rtcHandlerAsm => some .rtcHandlerAsm
  | .pitHandlerAsm => some .pitHandlerAsm
  | .syscallAsm => some .syscallAsm
  | _ => none

/-- The addresses of the wrappers are those of the code. -/
def Addresses (code : Code Routine Label) (addr : Handler → Word) : Prop :=
  ∀ h r, routineOf h = some r → addr h = code.addr ⟨r, 0⟩

section Machine

variable {code : Code Routine Label} {addr : Handler → Word} {idt : Idt}

theorem Loaded.gate (hload : Loaded code (idtInit addr idt)) (haddr : Addresses code addr)
    {v : Nat} {r : Routine} (h : v < 256) (hr : routineOf (handlerOf v) = some r)
    (hlines : 0 < (code.lines r).length) :
    code.gate v = some ⟨r, kernelCs, if callable v then 3 else 0, trapped v⟩ := by
  rw [hload v h, followGate, readGate_idtInit addr idt h, haddr _ r hr]
  simp [code.point_addr ⟨r, 0⟩ hlines]

/-- The gate of the system calls, as `Linked` has it. -/
theorem Loaded.syscall_gate (hload : Loaded code (idtInit addr idt))
    (haddr : Addresses code addr) (hlines : code.lines .syscallAsm = syscallAsm) :
    code.gate 0x80 = some ⟨.syscallAsm, kernelCs, 3, true⟩ :=
  hload.gate haddr (by decide) (r := .syscallAsm) rfl (by rw [hlines]; decide)

/-- The gate of a device line, as `Interruptible` has it. -/
theorem Loaded.device_gate (hload : Loaded code (idtInit addr idt))
    (haddr : Addresses code addr) {v : Nat} {w handler : Routine}
    (hw : routineOf (handlerOf v) = some w) (hlines : code.lines w = handlerAsm handler)
    (h : v < 256) (hprivate : callable v = false) (hoff : trapped v = false) :
    code.gate v = some ⟨w, kernelCs, 0, false⟩ := by
  rw [hload.gate haddr h hw (by rw [hlines]; exact Nat.zero_lt_succ _), hprivate, hoff]
  rfl

end Machine

/-! ## What a run delivers -/

theorem enableIrq_mem {n : Irq} {ops : List Irqs.Op} {on : Bool}
    (h : ops.foldl (Irqs.switch n) on = true) : on = true ∨ .enableIrq n ∈ ops := by
  induction ops generalizing on with
  | nil => exact .inl h
  | cons op ops ih =>
    obtain hon | hmem := ih h
    · cases op with
      | enableIrq k =>
        by_cases hk : n = k
        · exact .inr (hk ▸ List.mem_cons_self)
        · rw [Irqs.switch, if_neg hk] at hon
          exact .inl hon
      | disableIrq k =>
        rw [Irqs.switch] at hon
        split at hon
        · cases hon
        · exact .inl hon
      | sendEoi k => exact .inl hon
      | raise k hk => exact .inl hon
      | acknowledge => exact .inl hon
    · exact .inr (List.mem_cons_of_mem _ hmem)

/-- The vectors of timer, keyboard and clock, with their wrappers and handlers. -/
inductive Wrapped : BitVec 8 → Routine → Routine → Prop
  | timer : Wrapped 0x20 .pitHandlerAsm .pitIntHandler
  | keyboard : Wrapped 0x21 .keyboardHandlerAsm .keyboardHandler
  | clock : Wrapped 0x28 .rtcHandlerAsm .rtcIntHandler

/-- **Every interrupt is wrapped.** When only the lines of timer, keyboard and clock are ever
enabled, then wherever a run of the controllers has come to, an interrupt that the processor gets
leads from any instruction, with interrupts on, through a gate that no program can call and that
turns interrupts off to the wrapper of its device's handler. -/
theorem delivered_interruptible {code : Code Routine Label} (hl : Linked code)
    {addr : Handler → Word} {idt : Idt} (hload : Loaded code (idtInit addr idt))
    (haddr : Addresses code addr) {s t : Irqs} {ops : List Irqs.Op}
    (h : run Irqs.step s.i8259Init ops = some t)
    (honly : ∀ n : Irq, .enableIrq n ∈ ops → n.val = 0 ∨ n.val = 1 ∨ n.val = 8)
    {v : BitVec 8} {p : Library.I8259.Pair} (hack : t.chips.acknowledge = some (v, p)) :
    ∃ w handler : Routine, Wrapped v w handler ∧ ∀ m : Machine Routine, m.flags.ie = true →
      m.pc.line < (code.lines m.pc.routine).length →
        Interruptible code v.toNat w handler m := by
  obtain ⟨n, hn, hcopy, rfl⟩ := (Irqs.run_masks h 0).1.delivered hack
  have hmem : Irqs.Op.enableIrq n ∈ ops := by
    obtain htwo | hmem := enableIrq_mem (Irqs.run_copy_enabled h hcopy)
    · exact absurd (Fin.ext (of_decide_eq_true htwo)) hn
    · exact hmem
  obtain h0 | h1 | h8 := honly n hmem
  · obtain rfl : n = 0 := Fin.ext h0
    exact ⟨.pitHandlerAsm, .pitIntHandler, .timer, fun m hie hline =>
      ⟨hload.device_gate haddr rfl hl.pit (by decide) rfl rfl, hl.pit, hie, hline⟩⟩
  · obtain rfl : n = 1 := Fin.ext h1
    exact ⟨.keyboardHandlerAsm, .keyboardHandler, .keyboard, fun m hie hline =>
      ⟨hload.device_gate haddr rfl hl.keyboard (by decide) rfl rfl, hl.keyboard, hie, hline⟩⟩
  · obtain rfl : n = 8 := Fin.ext h8
    exact ⟨.rtcHandlerAsm, .rtcIntHandler, .clock, fun m hie hline =>
      ⟨hload.device_gate haddr rfl hl.rtc (by decide) rfl rfl, hl.rtc, hie, hline⟩⟩

/-- The wrappers where the layout has them, and all other routines behind it. -/
def addresses (h : Handler) : Word :=
  ((routineOf h).map fun r => layout.addr ⟨r, 0⟩).getD 0x100000

theorem addresses_ok : Addresses layout addresses := by
  intro h r hr
  rw [addresses, hr]
  rfl

theorem layout_loaded (idt : Idt) : Loaded layout (idtInit addresses idt) := by
  intro v hv
  rw [followGate, readGate_idtInit addresses idt hv]
  by_cases hdevice : v = 0x20 ∨ v = 0x21 ∨ v = 0x28 ∨ v = systemCall
  · obtain rfl | rfl | rfl | rfl := hdevice <;> rfl
  · have hroutine : routineOf (handlerOf v) = none := by
      rw [handlerOf_exception hdevice]
      by_cases h20 : v < 20
      · interval_cases v <;> rfl
      · rw [List.getD_eq_default _ _ (Nat.not_lt.mp h20)]
        rfl
    have hgate : layout.gate v = none := by
      unfold layout
      dsimp only
      split
      · exact absurd (.inl rfl) hdevice
      · exact absurd (.inr (.inl rfl)) hdevice
      · exact absurd (.inr (.inr (.inl rfl))) hdevice
      · exact absurd (.inr (.inr (.inr rfl))) hdevice
      · rfl
    have hpoint : layout.point 0x100000#32 = none := by
      simp [layout, inSlot]
    rw [hgate, addresses, hroutine]
    simp [hpoint]

/-- The timer in the handler of the clock, with the gates of `idt_init`. -/
theorem delivered_interruptible_clock : ∃ ops t v p,
    run Irqs.step Irqs.poweredOn.i8259Init ops = some t ∧
      t.chips.acknowledge = some (v, p) ∧
      ∃ w handler : Routine, Wrapped v w handler ∧ ∀ m : Machine Routine, m.flags.ie = true →
        m.pc.line < (layout.lines m.pc.routine).length →
          Interruptible layout v.toNat w handler m := by
  obtain ⟨t, ht, ⟨v, p⟩, hr⟩ := Irqs.nested_clock
  refine ⟨_, t, v, p, ht, hr, delivered_interruptible layout_linked
    (layout_loaded fun _ => ⟨0, 0, 0, 0, 0, 0, 0, 0, 0, 0, 0⟩) addresses_ok ht (fun n hn => ?_) hr⟩
  simp [Irqs.nested] at hn
  obtain rfl | rfl := hn
  · exact .inl rfl
  · exact .inr (.inr rfl)

end OS391
