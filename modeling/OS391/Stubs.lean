import OS391.Linkage

/-! The system call stubs of the user library, `ece391syscall.S`: with the kernel behind them
they are C functions. -/

namespace OS391.Linkage
open Library.X86

variable {code : Code Routine Label}

/-- A user program that has called the stub of system call `name`, with three arguments. -/
structure AtStub (code : Code Routine Label) (name : SysCall) (ret a b c : Word)
    (m : Machine Routine) : Prop where
  pc : m.pc = ⟨.ece391 name, 0⟩
  stack : Stacked m.mem (m.reg .esp) [ret, a, b, c]
  room : 4 ≤ (m.reg .esp).toNat ∧ (m.reg .esp).toNat + 16 ≤ 2 ^ 32
  ss : code.usable (m.seg .ss) = true
  level : (m.seg .cs).extractLsb' 0 2 = 3#2
  kernelStack : code.usable m.tssSs0 = true
  kernelRoom : 64 ≤ m.tssEsp0.toNat
  apart : (m.reg .esp).toNat + 4 + 64 ≤ m.tssEsp0.toNat ∨ m.tssEsp0.toNat + 4 ≤ (m.reg .esp).toNat

/-- The stub at its `int $0x80`. -/
structure StubCall (code : Code Routine Label) (name : SysCall) (a b c : Word)
    (m0 m : Machine Routine) : Prop where
  pc : m.pc = ⟨.ece391 name, 5⟩
  eax : m.reg .eax = name.number
  ebx : m.reg .ebx = a
  ecx : m.reg .ecx = b
  edx : m.reg .edx = c
  esp : m.reg .esp = m0.reg .esp - 4#32
  others : ∀ q ∈ [Reg.esi, .edi, .ebp], m.reg q = m0.reg q
  seg : m.seg = m0.seg
  flags : m.flags = m0.flags
  mem : m.mem = storeWord m0.mem (m0.reg .esp - 4#32) (m0.reg .ebx)
  tss : m.tssEsp0 = m0.tssEsp0 ∧ m.tssSs0 = m0.tssSs0

theorem stub_call (hl : Linked code) {name : SysCall} {ret a b c : Word} {m0 : Machine Routine}
    (h : AtStub code name ret a b c m0) :
    ∃ m, code.Steps m0 m ∧ StubCall code name a b c m0 m := by
  have hpushed := h.stack.push (m0.reg .ebx) h.room.1 h.room.2
  obtain ⟨-, -, ha, hb, hc, -⟩ := hpushed
  have hpc := h.pc
  have h8 : m0.reg .esp - 4#32 + 4#32 + 4#32 = m0.reg .esp - 4#32 + 8#32 := by bv_omega
  have h12 : m0.reg .esp - 4#32 + 8#32 + 4#32 = m0.reg .esp - 4#32 + 12#32 := by bv_omega
  have h16 : m0.reg .esp - 4#32 + 12#32 + 4#32 = m0.reg .esp - 4#32 + 16#32 := by bv_omega
  rw [h8] at ha hb hc
  rw [h12] at hb hc
  rw [h16] at hc
  apply Code.Steps.exists_of_run (n := 5)
  simp [Code.run, Code.step, hpc, hl.stub, doCall, h.ss, ha, hb, hc]
  constructor <;> simp

theorem StubCall.atCall (hl : Linked code) {name : SysCall} {ret a b c : Word}
    {m0 m : Machine Routine} (h : AtStub code name ret a b c m0)
    (hm : StubCall code name a b c m0 m) : AtCall code m where
  line := by
    rw [hm.pc, hl.stub]
    rfl
  next := by
    rw [hm.pc, hl.stub]
    show 6 < 8
    decide
  level := by rw [hm.seg, h.level]
  stack := hm.tss.2 ▸ h.kernelStack
  room := hm.tss.1 ▸ h.kernelRoom

/-- The two words of the user's stack that the stub still needs. -/
def userWords (m0 : Machine Routine) (i : Nat) : Prop :=
  (m0.reg .esp).toNat - 4 ≤ i ∧ i < (m0.reg .esp).toNat + 4

/-- The end of the stub, when the program has been resumed and its stack is as it was. -/
theorem stub_return (hl : Linked code) {name : SysCall} {ret a b c v : Word}
    {m0 m t u : Machine Routine} {w : Frame} {p : Point Routine} (h : AtStub code name ret a b c m0)
    (hm : StubCall code name a b c m0 m) (hp : code.point ret = some p)
    (hw : w.esi = m.reg .esi ∧ w.edi = m.reg .edi ∧ w.ebp = m.reg .ebp ∧ w.esp = m.reg .esp)
    (hseg : ∀ s, w.seg s = m.seg s) (hflags : w.eflags = m.flags.word)
    (hres : Resumed w m.next.pc v t u) (hmem : ∀ i, userWords m0 i → t.mem i = m.mem i) :
    ∃ z, code.Steps u z ∧ Cdecl code m0 z ∧ z.pc = p ∧ z.reg .eax = v ∧ z.mem = t.mem ∧
      z.flags = m0.flags := by
  have hpushed := h.stack.push (m0.reg .ebx) h.room.1 h.room.2
  have hlow : (m0.reg .esp - 4#32).toNat + 4 = (m0.reg .esp).toNat := by
    have := h.room.1
    bv_omega
  have hstack : Stacked u.mem (m0.reg .esp - 4#32) [m0.reg .ebx, ret] := by
    have htwo : Stacked m.mem (m0.reg .esp - 4#32) [m0.reg .ebx, ret] := by
      rw [hm.mem]
      exact ⟨hpushed.1, hpushed.2.1, trivial⟩
    have hroom := h.room.2
    refine htwo.congr ?_ fun i h1 h2 => ?_
    · rw [List.length_cons, List.length_singleton]
      omega
    · rw [List.length_cons, List.length_singleton] at h2
      rw [hres.mem]
      exact hmem i ⟨by omega, by omega⟩
  have hpc : u.pc = ⟨.ece391 name, 6⟩ := by
    rw [hres.pc, Machine.next, hm.pc]
  have hregs := hres.reg
  have husegs : u.seg = m0.seg := by
    funext s
    rw [hres.seg, hseg, hm.seg]
  have hesp : u.reg .esp = m0.reg .esp - 4#32 := by rw [hregs, Frame.reg, hw.2.2.2, hm.esp]
  have hss : code.usable (u.seg .ss) = true := by rw [husegs, h.ss]
  have hebx := hstack.1
  have hret := hstack.2.1
  rw [← hesp] at hebx hret
  obtain ⟨z, hz, hzpc, hzesp, hzebx, hzeax, hzsaved, hzseg, hzmem, hzflags⟩ : ∃ z, code.Steps u z ∧
      z.pc = p ∧ z.reg .esp = u.reg .esp + 4#32 + 4#32 ∧ z.reg .ebx = m0.reg .ebx ∧
      z.reg .eax = u.reg .eax ∧ (∀ q ∈ [Reg.esi, .edi, .ebp], z.reg q = u.reg q) ∧
      z.seg = u.seg ∧ z.mem = u.mem ∧ z.flags = u.flags := by
    apply Code.Steps.exists_of_run (n := 2)
    simp [Code.run, Code.step, hpc, hl.stub, doCall, hss, Code.ret, hebx, hret, hp]
  refine ⟨z, hz, ⟨?_, ?_, ?_, hzseg.trans husegs⟩, hzpc, hzeax.trans (hregs .eax),
    hzmem.trans hres.mem, ?_⟩
  · rw [h.stack.1, hp, hzpc]
  · rw [hzesp, hesp]
    bv_omega
  · have hothers := hm.others
    simp only [List.forall_mem_cons] at hzsaved hothers ⊢
    obtain ⟨hsi, hdi, hbp, -⟩ := hzsaved
    refine ⟨hzebx, ?_, ?_, ?_, by simp⟩
    · rw [hsi, hregs, Frame.reg, hw.1, hothers.1]
    · rw [hdi, hregs, Frame.reg, hw.2.1, hothers.2.1]
    · rw [hbp, hregs, Frame.reg, hw.2.2.1, hothers.2.2.1]
  · rw [hzflags, hres.flags, hflags, Flags.ofWord_word, hm.flags]

/-- The routine `f` of the kernel entered on behalf of `m0`. -/
structure Called (code : Code Routine Label) (f : Routine) (a b c : Word)
    (m0 t : Machine Routine) : Prop where
  pc : t.pc = ⟨f, 0⟩
  esp : (t.reg .esp).toNat + 64 = m0.tssEsp0.toNat
  args : Stacked t.mem (t.reg .esp) [returnAddr code, a, b, c]
  ds : t.seg .ds = kernelDs
  es : t.seg .es = kernelDs
  df : t.flags.df = false
  ie : t.flags.ie = m0.flags.ie
  /-- Memory is as the program has it, but for the kernel stack and the word below its own. -/
  mem : ∀ i, i + 64 < m0.tssEsp0.toNat ∨ m0.tssEsp0.toNat ≤ i →
    i + 4 < (m0.reg .esp).toNat ∨ (m0.reg .esp).toNat ≤ i → t.mem i = m0.mem i

theorem StubCall.called {name : SysCall} {ret a b c : Word} {f : Routine} {m0 m t : Machine Routine}
    (h : AtStub code name ret a b c m0) (hm : StubCall code name a b c m0 m)
    (ht : InKernel m ⟨f, 0⟩ (returnAddr code :: (frame code m).words) t) :
    Called code f a b c m0 t := by
  have hroom := h.kernelRoom
  have htss := congrArg BitVec.toNat hm.tss.1
  obtain ⟨hstack, htop⟩ := ht.stacked (Nat.le_refl 16) (htss ▸ hroom)
  change (t.reg .esp).toNat + 64 = m.tssEsp0.toNat at htop
  rw [htss] at htop
  refine ⟨ht.pc, htop, ?_, ht.ds, ht.es, ht.df, ht.ie.trans (by rw [hm.flags]), fun i hk hu => ?_⟩
  · obtain ⟨h0, h1, h2, h3, -⟩ := hstack
    exact ⟨h0, h1.trans hm.ebx, h2.trans hm.ecx, h3.trans hm.edx, trivial⟩
  · have hlow : (m0.reg .esp - 4#32).toNat + 4 = (m0.reg .esp).toNat := by
      have := h.room.1
      bv_omega
    have hesp := (m0.reg .esp).isLt
    rw [ht.outside (Nat.le_refl 16) (htss ▸ hroom) (htss ▸ hk), hm.mem]
    exact storeWord_outside m0.mem (m0.reg .ebx) (by omega) (by omega)

/-- `ece391sysnum.h` and `sys_call_table` agree; the last two calls are in no table. -/
theorem table_number (name : SysCall) :
    sysCallTable[name.number.toNat]? =
      if name = .setHandler ∨ name = .sigreturn then none else some (some (.kernel name)) := by
  cases name <;> rfl

/-- The stub comes back with the result that the kernel's routine had for the same arguments. -/
theorem stub_served (hl : Linked code) {k : Machine Routine → Machine Routine → Prop}
    {name : SysCall} {ret a b c : Word} {m0 : Machine Routine} {p : Point Routine}
    (h : AtStub code name ret a b c m0) (hp : code.point ret = some p)
    (hname : ¬(name = .setHandler ∨ name = .sigreturn))
    (hk : ∀ t, Called code (.kernel name) a b c m0 t →
      ∃ u, k t u ∧ Serves code t u ∧ ∀ i, userWords m0 i → u.mem i = t.mem i) :
    ∃ t u z, Called code (.kernel name) a b c m0 t ∧ k t u ∧ Runs code k m0 z ∧
      Cdecl code m0 z ∧ z.pc = p ∧ z.reg .eax = u.reg .eax ∧ z.flags = m0.flags ∧
      ∀ i, i + 64 < m0.tssEsp0.toNat ∨ m0.tssEsp0.toNat ≤ i → z.mem i = u.mem i := by
  have hf : sysCallTable[name.number.toNat]? = some (some (.kernel name)) := by
    rw [table_number, if_neg hname]
  obtain ⟨m, hsteps, hm⟩ := stub_call hl h
  obtain ⟨t, u, v, hin, hu, hruns, hres⟩ := syscall_served (c := fun t u => k t u ∧
    Serves code t u ∧ ∀ i, userWords m0 i → u.mem i = t.mem i) hl (hm.atCall hl h)
    (hm.eax ▸ hf) fun t ht => (hk t (hm.called h ht)).imp fun u hu => ⟨hu, hu.2.1⟩
  have hcalled := hm.called h hin
  have hesp : (u.reg .esp + 24#32).toNat + 36 = m0.tssEsp0.toNat := by
    have hroom := h.kernelRoom
    have htop := hcalled.esp
    rw [hu.2.1.cdecl.esp]
    bv_omega
  have hslot := fun i => storeWord_outside u.mem (a := u.reg .esp + 24#32) (i := i) (u.reg .eax)
  have htss := m0.tssEsp0.isLt
  have hseg : ∀ s, (returned (frame code m) u).seg s = m.seg s := congrFun (frame_seg code m)
  have hwords : ∀ i, userWords m0 i →
      storeWord u.mem (u.reg .esp + 24#32) (u.reg .eax) i = m.mem i := by
    intro i hi
    have hapart := h.apart
    have hroom := h.room
    obtain ⟨hi1, hi2⟩ := hi
    have htss := congrArg BitVec.toNat hm.tss.1
    rw [hslot i (by omega) (by omega), hu.2.2 i ⟨hi1, hi2⟩]
    exact hin.outside (Nat.le_refl 16) (htss ▸ h.kernelRoom) (by omega)
  obtain ⟨z, hz, hcdecl, hzp, hzeax, hzmem, hzflags⟩ := stub_return hl h hm hp
    ⟨rfl, rfl, rfl, rfl⟩ hseg rfl hres hwords
  refine ⟨t, u, z, hcalled, hu.1, ?_, hcdecl, hzp, hzeax, hzflags, fun i hi => ?_⟩
  · have hserved : Runs code k m v := hruns.mono fun _ _ h => h.1
    exact ((Runs.of_steps hsteps).trans hserved).trans (Runs.of_steps hz)
  · rw [hzmem]
    exact hslot i (by omega) (by omega)

/-- A number without a routine comes back as -1, and memory is as it was but for the stacks. -/
theorem stub_rejected (hl : Linked code) {name : SysCall} {ret a b c : Word} {m0 : Machine Routine}
    {p : Point Routine} (h : AtStub code name ret a b c m0) (hp : code.point ret = some p)
    (hname : name = .setHandler ∨ name = .sigreturn) :
    ∃ z, code.Steps m0 z ∧ Cdecl code m0 z ∧ z.pc = p ∧ z.reg .eax = -1 ∧ z.flags = m0.flags ∧
      ∀ i, i + 64 < m0.tssEsp0.toNat ∨ m0.tssEsp0.toNat ≤ i →
        i + 4 < (m0.reg .esp).toNat ∨ (m0.reg .esp).toNat ≤ i → z.mem i = m0.mem i := by
  have hf : ∀ f, sysCallTable[name.number.toNat]? ≠ some (some f) := by
    rw [table_number, if_pos hname]
    simp
  obtain ⟨m, hsteps, hm⟩ := stub_call hl h
  obtain ⟨t, v, hin, hruns, hres⟩ := syscall_rejected hl (hm.atCall hl h) (hm.eax ▸ hf)
  have htss := congrArg BitVec.toNat hm.tss.1
  have hseg : ∀ s, (frame code m).seg s = m.seg s := congrFun (frame_seg code m)
  have hout := fun i => hin.outside (i := i) (Nat.le_succ 15) (htss ▸ h.kernelRoom)
  rw [htss] at hout
  have hwords : ∀ i, userWords m0 i → t.mem i = m.mem i := by
    intro i ⟨hi1, hi2⟩
    have hapart := h.apart
    exact hout i (by omega)
  obtain ⟨z, hz, hcdecl, hzp, hzeax, hzmem, hzflags⟩ := stub_return hl h hm hp
    ⟨rfl, rfl, rfl, rfl⟩ hseg rfl hres hwords
  refine ⟨z, (hsteps.trans hruns).trans hz, hcdecl, hzp, hzeax, hzflags, fun i hi hu => ?_⟩
  have hlow : (m0.reg .esp - 4#32).toNat + 4 = (m0.reg .esp).toNat := by
    have := h.room.1
    bv_omega
  have hesp := (m0.reg .esp).isLt
  rw [hzmem, hout i hi, hm.mem]
  exact storeWord_outside m0.mem (m0.reg .ebx) (by omega) (by omega)

/-- **System calls as calls.** Each stub of the user library is a C function when the routine of
the kernel with its name is one: it comes back to its caller with the registers, the stack and
the flags that were there, and with the result of that routine for the same three arguments. The
two stubs that have no routine come back with -1. -/
theorem stub_linkage (hl : Linked code) {k : Machine Routine → Machine Routine → Prop}
    {name : SysCall} {ret a b c : Word} {m0 : Machine Routine} {p : Point Routine}
    (h : AtStub code name ret a b c m0) (hp : code.point ret = some p)
    (hk : ∀ t, Called code (.kernel name) a b c m0 t →
      ∃ u, k t u ∧ Serves code t u ∧ ∀ i, userWords m0 i → u.mem i = t.mem i) :
    ∃ z, Runs code k m0 z ∧ Cdecl code m0 z ∧ z.pc = p ∧ z.flags = m0.flags ∧
      if name = .setHandler ∨ name = .sigreturn then
        z.reg .eax = -1 ∧ ∀ i, i + 64 < m0.tssEsp0.toNat ∨ m0.tssEsp0.toNat ≤ i →
          i + 4 < (m0.reg .esp).toNat ∨ (m0.reg .esp).toNat ≤ i → z.mem i = m0.mem i
      else ∃ t u, Called code (.kernel name) a b c m0 t ∧ k t u ∧ z.reg .eax = u.reg .eax ∧
        ∀ i, i + 64 < m0.tssEsp0.toNat ∨ m0.tssEsp0.toNat ≤ i → z.mem i = u.mem i := by
  by_cases hname : name = .setHandler ∨ name = .sigreturn
  · obtain ⟨z, hz, hcdecl, hpc, heax, hflags, hmem⟩ := stub_rejected hl h hp hname
    exact ⟨z, .of_steps hz, hcdecl, hpc, hflags, (if_pos hname).mpr ⟨heax, hmem⟩⟩
  · obtain ⟨t, u, z, ht, hu, hz, hcdecl, hpc, heax, hflags, hmem⟩ := stub_served hl h hp hname hk
    exact ⟨z, hz, hcdecl, hpc, hflags, (if_neg hname).mpr ⟨t, u, ht, hu, heax, hmem⟩⟩

/-- A user program that has called the stub of `read`. -/
def atStub : Machine Routine :=
  { atInt with
    pc := ⟨.ece391 .read, 0⟩
    mem := pushAll (fun _ => 0) 0x83FFFF0 [layout.addr ⟨.user 0, 1⟩, 5, 0x8000, 32]
    reg := Function.update atInt.reg .esp 0x83FFFE0 }

theorem atStub_stub : AtStub layout .read (layout.addr ⟨.user 0, 1⟩) 5 0x8000 32 atStub :=
  ⟨rfl, stacked_pushAll _ (by decide), by decide, by decide, rfl, by decide, by decide, by decide⟩

theorem stub_linkage_read : ∃ z, Runs layout (answers ⟨.syscallAsm, 19⟩ 7) atStub z ∧
    Cdecl layout atStub z ∧ z.reg .eax = 7 := by
  obtain ⟨z, hz, hcdecl, -, -, t, u, ht, rfl, heax, -⟩ :=
    stub_linkage layout_linked (k := answers ⟨.syscallAsm, 19⟩ 7) atStub_stub
      (p := ⟨.user 0, 1⟩) (by decide)
      fun t ht => ⟨_, rfl, answers_serves rfl (by
        rw [ht.args.1]
        decide), fun _ _ => rfl⟩
  exact ⟨z, hz, hcdecl, heax⟩

end OS391.Linkage
