import OS391.Linkage

/-! The wrappers of the device handlers, `keyboard_handler_asm`, `rtc_handler_asm` and
`pit_handler_asm`: what an interrupt leaves of the state that it found. -/

namespace OS391.Linkage
open Library.X86

variable {code : Code Routine Label}

/-- A program or the kernel where a device interrupts it, by a gate to the wrapper `w` of
`handler`. -/
structure Interruptible (code : Code Routine Label) (v : Nat) (w handler : Routine)
    (m : Machine Routine) : Prop where
  gate : code.gate v = some ⟨w, kernelCs, 0, false⟩
  lines : code.lines w = handlerAsm handler
  ie : m.flags.ie = true
  line : m.pc.line < (code.lines m.pc.routine).length

/-- The stack on which the wrapper runs: that of the kernel, or the one of the TSS. -/
def irqStack (m : Machine Routine) : Word × Selector :=
  if 0#2 = Code.cpl m then (m.reg .esp, m.seg .ss) else (m.tssEsp0, m.tssSs0)

/-- What the processor stores there. -/
def irqWords (code : Code Routine Label) (m : Machine Routine) : List Word :=
  [code.addr m.pc, (m.seg .cs).setWidth 32, m.flags.word] ++
    if 0#2 = Code.cpl m then [] else [m.reg .esp, (m.seg .ss).setWidth 32]

/-- The stack of the handler: its return address, what the wrapper saves, what the processor
stored. -/
def handlerWords (code : Code Routine Label) (w : Routine) (m : Machine Routine) : List Word :=
  [code.addr ⟨w, 3⟩, { m.flags with ie := false }.word, m.reg .edi, m.reg .esi, m.reg .ebp,
    top (irqStack m).1 (irqWords code m), m.reg .ebx, m.reg .edx, m.reg .ecx, m.reg .eax] ++
    irqWords code m

/-- The handler entered by wrapper `w` for what was interrupted at `m`. -/
structure AtHandler (code : Code Routine Label) (w handler : Routine) (m t : Machine Routine) :
    Prop where
  pc : t.pc = ⟨handler, 0⟩
  esp : t.reg .esp = top (irqStack m).1 (handlerWords code w m)
  mem : t.mem = pushAll m.mem (irqStack m).1 (handlerWords code w m)
  cs : t.seg .cs = kernelCs
  ss : t.seg .ss = (irqStack m).2
  ds : t.seg .ds = m.seg .ds
  es : t.seg .es = m.seg .es

theorem irq_enter {v : Nat} {w handler : Routine} {m : Machine Routine}
    (h : Interruptible code v w handler m) (hss : code.usable (irqStack m).2 = true) :
    ∃ m' t, code.interrupt m v = some m' ∧ code.Steps m' t ∧ AtHandler code w handler m t := by
  suffices hrun : ∃ m' t, code.interrupt m v = some m' ∧ code.run 3 m' = some t ∧
      t.pc = ⟨handler, 0⟩ ∧ t.reg .esp = top (irqStack m).1 (handlerWords code w m) ∧
      t.mem = pushAll m.mem (irqStack m).1 (handlerWords code w m) ∧ t.seg .cs = kernelCs ∧
      t.seg .ss = (irqStack m).2 ∧ t.seg .ds = m.seg .ds ∧ t.seg .es = m.seg .es by
    obtain ⟨m', t, hm', ht, hpc, hesp, hmem, hcs, hss, hds, hes⟩ := hrun
    exact ⟨m', t, hm', .of_run ht, hpc, hesp, hmem, hcs, hss, hds, hes⟩
  have hlines := h.lines
  unfold irqStack at hss
  by_cases hcpl : 0#2 = Code.cpl m
  · rw [if_pos hcpl] at hss
    simp [Code.interrupt, h.gate, h.ie, Code.deliver, ← hcpl, hss, Code.run, Code.step,
      handlerAsm, hlines, Code.pusha, Code.call, irqStack, handlerWords, irqWords, top, pushAll]
  · rw [if_neg hcpl] at hss
    simp [Code.interrupt, h.gate, h.ie, Code.deliver, hcpl, hss, Code.run, Code.step,
      handlerAsm, hlines, Code.pusha, Code.call, irqStack, handlerWords, irqWords, top, pushAll]

/-- The wrapper gives back what it has saved. -/
theorem irq_leave {v : Nat} {w handler : Routine} {m u : Machine Routine}
    (h : Interruptible code v w handler m) (hpc : u.pc = ⟨w, 3⟩) (hcs : u.seg .cs = kernelCs)
    (hss : code.usable (u.seg .ss) = true) (hds : u.seg .ds = m.seg .ds)
    (hes : u.seg .es = m.seg .es) (hsame : 0#2 = Code.cpl m → u.seg .ss = m.seg .ss)
    (hesp : u.reg .esp = top (irqStack m).1 (handlerWords code w m) + 4#32)
    (hstack : Stacked u.mem (u.reg .esp) (handlerWords code w m).tail) :
    ∃ z, code.Steps u z ∧ z.pc = m.pc ∧ z.reg = m.reg ∧ z.seg = m.seg ∧ z.flags = m.flags ∧
      z.mem = u.mem := by
  have hlines := h.lines
  have hpoint := code.point_addr m.pc h.line
  have hbase := top_add (irqStack m).1 (handlerWords code w m)
  by_cases hcpl : 0#2 = Code.cpl m
  · have hlevel : (m.seg .cs).extractLsb' 0 2 = 0#2 := hcpl.symm
    have hfour : u.reg .esp + 4#32 + 4#32 + 4#32 + 4#32 + 4#32 + 4#32 + 4#32 + 4#32 + 4#32 + 4#32 +
        4#32 + 4#32 = m.reg .esp := by
      rw [hesp]
      simp only [irqStack, if_pos hcpl, handlerWords, irqWords, List.append_nil, List.length_append,
        List.length_cons, List.length_nil] at hbase ⊢
      simpa only [BitVec.add_assoc, BitVec.reduceAdd] using hbase
    simp only [handlerWords, irqWords, if_pos hcpl, List.cons_append, List.nil_append,
      List.append_nil, List.tail_cons, Stacked] at hstack
    suffices hrun : ∃ z, code.run 3 u = some z ∧ z.pc = m.pc ∧ (∀ q, z.reg q = m.reg q) ∧
        (∀ s, z.seg s = m.seg s) ∧ z.flags = m.flags ∧ z.mem = u.mem by
      obtain ⟨z, hz, hzpc, hreg, hseg, hflags, hmem⟩ := hrun
      exact ⟨z, .of_run hz, hzpc, funext hreg, funext hseg, hflags, hmem⟩
    simp [Code.run, Code.step, hpc, handlerAsm, hlines, hss, Code.popa, Code.iret, hstack, hpoint,
      Code.cpl, hcs, hlevel]
    constructor
    · intro q
      cases q <;> simp [hfour]
    · intro s
      cases s <;> simp [hds, hes, hsame hcpl]
  · have hlevel : (m.seg .cs).extractLsb' 0 2 ≠ 0#2 := fun h0 => hcpl h0.symm
    simp only [handlerWords, irqWords, if_neg hcpl, List.cons_append, List.nil_append,
      List.tail_cons, Stacked] at hstack
    suffices hrun : ∃ z, code.run 3 u = some z ∧ z.pc = m.pc ∧ (∀ q, z.reg q = m.reg q) ∧
        (∀ s, z.seg s = m.seg s) ∧ z.flags = m.flags ∧ z.mem = u.mem by
      obtain ⟨z, hz, hzpc, hreg, hseg, hflags, hmem⟩ := hrun
      exact ⟨z, .of_run hz, hzpc, funext hreg, funext hseg, hflags, hmem⟩
    simp [Code.run, Code.step, hpc, handlerAsm, hlines, hss, Code.popa, Code.iret, hstack, hpoint,
      Code.cpl, hcs, hlevel]
    constructor
    · intro q
      cases q <;> simp
    · intro s
      cases s <;> simp [hds, hes]

theorem handlerWords_length (code : Code Routine Label) (w : Routine) (m : Machine Routine) :
    (handlerWords code w m).length ≤ 15 := by
  unfold handlerWords irqWords
  split <;> simp

/-- **Interrupts are not noticed.** A device interrupt, of user code or of the kernel, at any
instruction, gives back every register, segment and flag and goes on at the same instruction, when
the handler is a C function that leaves the stack above its own frame alone; memory is then as
the handler has left it. -/
theorem interrupt_transparent {k : Machine Routine → Machine Routine → Prop} {v : Nat}
    {w handler : Routine} {m : Machine Routine} (h : Interruptible code v w handler m)
    (hss : code.usable (irqStack m).2 = true) (hroom : 60 ≤ (irqStack m).1.toNat)
    (hk : ∀ t, AtHandler code w handler m t → ∃ u, k t u ∧ Cdecl code t u ∧
      ∀ i, (t.reg .esp).toNat + 4 ≤ i → i < (irqStack m).1.toNat → u.mem i = t.mem i) :
    ∃ m' t u z, code.interrupt m v = some m' ∧ AtHandler code w handler m t ∧ k t u ∧
      Runs code k m' z ∧ z.pc = m.pc ∧ z.reg = m.reg ∧ z.seg = m.seg ∧ z.flags = m.flags ∧
      z.mem = u.mem := by
  obtain ⟨m', t, hm', ht, hat⟩ := irq_enter h hss
  obtain ⟨u, hu, hcdecl, hframe⟩ := hk t hat
  have hlen := handlerWords_length code w m
  have hstack := stacked_pushAll m.mem (a := (irqStack m).1) (l := handlerWords code w m) (by omega)
  have htop := top_toNat (a := (irqStack m).1) (l := handlerWords code w m) (by omega)
  rw [← hat.mem, ← hat.esp] at hstack
  rw [← hat.esp] at htop
  have hcons : (handlerWords code w m).length = (handlerWords code w m).tail.length + 1 := rfl
  have hbase := (irqStack m).1.isLt
  have hesp : (u.reg .esp).toNat = (t.reg .esp).toNat + 4 := by
    rw [hcdecl.esp]
    bv_omega
  have hback : u.pc = ⟨w, 3⟩ := by
    have hpc := hcdecl.pc
    rw [show loadWord t.mem (t.reg .esp) = code.addr ⟨w, 3⟩ from hstack.1,
      code.point_addr _ (by rw [h.lines]; show 3 < 6; decide)] at hpc
    exact (Option.some.inj hpc).symm
  have htail : Stacked u.mem (u.reg .esp) (handlerWords code w m).tail := by
    have hbelow : Stacked t.mem (u.reg .esp) (handlerWords code w m).tail := hcdecl.esp ▸ hstack.2
    exact hbelow.congr (by omega) fun i h1 h2 => hframe i (by omega) (by omega)
  obtain ⟨z, hz, hzpc, hreg, hseg, hflags, hmem⟩ := irq_leave h hback (hcdecl.seg ▸ hat.cs)
    (by rw [hcdecl.seg, hat.ss, hss]) (hcdecl.seg ▸ hat.ds) (hcdecl.seg ▸ hat.es)
    (fun hcpl => by rw [hcdecl.seg, hat.ss, irqStack, if_pos hcpl])
    (by rw [hcdecl.esp, hat.esp]) htail
  exact ⟨m', t, u, z, hm', hat, hu, ((Runs.of_steps ht).tail (.inr hu)).trans (Runs.of_steps hz),
    hzpc, hreg, hseg, hflags, hmem⟩

theorem interrupt_transparent_key : ∃ m' z, layout.interrupt atInt 0x21 = some m' ∧
    Runs layout (answers ⟨.keyboardHandlerAsm, 3⟩ 0) m' z ∧ z.pc = atInt.pc ∧
      z.reg = atInt.reg := by
  obtain ⟨m', -, -, z, hm', -, -, hz, hpc, hreg, -⟩ :=
    interrupt_transparent (k := answers ⟨.keyboardHandlerAsm, 3⟩ 0)
      (⟨rfl, rfl, rfl, by decide⟩ : Interruptible layout 0x21 .keyboardHandlerAsm .keyboardHandler
        atInt) (by decide) (by decide) fun t ht => ⟨_, rfl, answers_cdecl rfl (by
          have hstack := stacked_pushAll atInt.mem (a := (irqStack atInt).1)
            (l := handlerWords layout .keyboardHandlerAsm atInt) (by decide)
          rw [ht.mem, ht.esp, hstack.1]
          decide), fun _ _ _ => rfl⟩
  exact ⟨m', z, hm', hz, hpc, hreg⟩

end OS391.Linkage
