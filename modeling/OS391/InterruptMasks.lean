import OS391.Library.I8259
import OS391.InterruptController

/-! `i8259.c` on the two chips: their initialization, and the masks of the lines with the copies
that the kernel keeps of them. -/

namespace OS391
open Library.Runs Library.I8259

abbrev masterDataPort : Nat := 0x21
abbrev slaveDataPort : Nat := 0xA1

/-- The chips, `master_mask` and `slave_mask`. -/
structure Irqs where
  chips : Pair
  masterMask : Byte
  slaveMask : Byte
  deriving DecidableEq

namespace Irqs

def outb (s : Irqs) (value : Byte) (port : Nat) : Irqs :=
  { s with chips :=
      if port = master8259Port then s.chips.outb .masterCommand value
      else if port = masterDataPort then s.chips.outb .masterData value
      else if port = slave8259Port then s.chips.outb .slaveCommand value
      else if port = slaveDataPort then s.chips.outb .slaveData value
      else s.chips }

section Ports

variable (s : Irqs) (v : Byte)

@[simp] theorem outb_masterCommand : s.outb v master8259Port =
    { s with chips := { s.chips with master := s.chips.master.writeCommand v } } := rfl

@[simp] theorem outb_masterData : s.outb v masterDataPort =
    { s with chips := { s.chips with master := s.chips.master.writeData v } } := rfl

@[simp] theorem outb_slaveCommand : s.outb v slave8259Port =
    { s with chips := { s.chips with slave := s.chips.slave.writeCommand v } } := rfl

@[simp] theorem outb_slaveData : s.outb v slaveDataPort =
    { s with chips := { s.chips with slave := s.chips.slave.writeData v } } := rfl

end Ports

def i8259Init (s : Irqs) : Irqs :=
  let s := { s with masterMask := 0xFB, slaveMask := 0xFF }
  let s := (s.outb 0x11 master8259Port).outb 0x11 slave8259Port
  let s := (s.outb 0x20 masterDataPort).outb 0x28 slaveDataPort
  let s := (s.outb 0x04 masterDataPort).outb 0x02 slaveDataPort
  let s := (s.outb 0x01 masterDataPort).outb 0x01 slaveDataPort
  (s.outb s.masterMask masterDataPort).outb s.slaveMask slaveDataPort

/-- `1 << irq_num`. -/
def lineBit (irqNum : Nat) : BitVec 32 := 1#32 <<< irqNum

def enableIrq (s : Irqs) (irqNum : Nat) : Irqs :=
  if irqNum < mstrNumIrqs then
    let value := (s.masterMask.setWidth 32 &&& ~~~lineBit irqNum).setWidth 8
    { s with masterMask := value }.outb value masterDataPort
  else
    let value := (s.slaveMask.setWidth 32 &&& ~~~lineBit (irqNum - mstrNumIrqs)).setWidth 8
    { s with slaveMask := value }.outb value slaveDataPort

def disableIrq (s : Irqs) (irqNum : Nat) : Irqs :=
  if irqNum < mstrNumIrqs then
    let value := (s.masterMask.setWidth 32 ||| lineBit irqNum).setWidth 8
    { s with masterMask := value }.outb value masterDataPort
  else
    let value := (s.slaveMask.setWidth 32 ||| lineBit (irqNum - mstrNumIrqs)).setWidth 8
    { s with slaveMask := value }.outb value slaveDataPort

/-- `send_eoi`, with its commands as bytes. -/
def sendEoi (s : Irqs) (irqNum : Nat) : Irqs :=
  let (s, irqNum) :=
    if irqNum ≥ mstrNumIrqs then
      let irqNum := irqNum - mstrNumIrqs
      ((s.outb (BitVec.ofNat 8 (eoiByte ||| irqNum)) slave8259Port).outb
        (BitVec.ofNat 8 (eoiByte ||| mstrIrq2Mask)) master8259Port, irqNum)
    else (s, irqNum)
  s.outb (BitVec.ofNat 8 (eoiByte ||| irqNum)) master8259Port

/-- A device raises its line; line 2 has no device. -/
inductive Op where
  | enableIrq (n : Irq)
  | disableIrq (n : Irq)
  | sendEoi (n : Irq)
  | raise (n : Irq) (h : n.val ≠ 2)
  | acknowledge

/-- `acknowledge` is possible when the chips request an interrupt. -/
def step (s : Irqs) : Op → Option Irqs
  | .enableIrq n => some (s.enableIrq n)
  | .disableIrq n => some (s.disableIrq n)
  | .sendEoi n => some (s.sendEoi n)
  | .raise n _ => some { s with chips := s.chips.raise n }
  | .acknowledge => s.chips.acknowledge.map fun r => { s with chips := r.2 }

/-- What a call makes of a line that is enabled or not. -/
def switch (n : Irq) (on : Bool) : Op → Bool
  | .enableIrq k => if n = k then true else on
  | .disableIrq k => if n = k then false else on
  | _ => on

/-- The last call for line `n` has enabled it; without a call, line 2 is enabled. -/
def enabledAfter (n : Irq) (ops : List Op) : Bool := ops.foldl (switch n) (n.val = 2)

/-- The mask bit of a line. -/
def masked (s : Irqs) (n : Irq) : Bool :=
  if n.val < 8 then s.chips.master.setup.imr.getLsbD n
  else s.chips.slave.setup.imr.getLsbD (n.val - 8)

/-- A chip as `i8259_init` has set it up, with mask `imr`. -/
def setupWith (icw2 icw3 imr : Byte) : Setup :=
  { stage := .ready, icw1 := 0x11, icw2 := icw2, icw3 := icw3, icw4 := 0x01, imr := imr }

/-- The chips are set up, and the kernel's copies are their masks. -/
structure Ok (s : Irqs) : Prop where
  master : s.chips.master.setup = setupWith 0x20 0x04 s.masterMask
  slave : s.chips.slave.setup = setupWith 0x28 0x02 s.slaveMask
  cascade : s.chips.master.irr.getLsbD 2 = false

theorem i8259Init_ok (s : Irqs) : Ok s.i8259Init ∧ s.i8259Init.masterMask = 0xFB ∧
    s.i8259Init.slaveMask = 0xFF := by
  refine ⟨⟨?_, ?_, ?_⟩, rfl, rfl⟩ <;>
    simp [i8259Init, Chip.writeCommand, Chip.writeData, Chip.afterIcw2,
      Chip.afterIcw3, setupWith]

/-- A byte written when the chips are set up is a mask. -/
theorem Ok.write {s : Irqs} (h : Ok s) (v : Byte) :
    Ok ({ s with masterMask := v }.outb v masterDataPort) ∧
      Ok ({ s with slaveMask := v }.outb v slaveDataPort) := by
  have hm := h.master
  have hs := h.slave
  refine ⟨⟨?_, hs, ?_⟩, ⟨hm, ?_, h.cascade⟩⟩
  · simp [Chip.writeData, setupWith, hm]
  · simpa using h.cascade
  · simp [Chip.writeData, setupWith, hs]

theorem Ok.enableIrq {s : Irqs} (h : Ok s) (n : Nat) : Ok (s.enableIrq n) := by
  unfold Irqs.enableIrq
  split
  · exact (h.write _).1
  · exact (h.write _).2

theorem Ok.disableIrq {s : Irqs} (h : Ok s) (n : Nat) : Ok (s.disableIrq n) := by
  unfold Irqs.disableIrq
  split
  · exact (h.write _).1
  · exact (h.write _).2

/-- A write that leaves the setup of the chips and the requests alone. -/
structure Same (s t : Irqs) : Prop where
  master : t.chips.master.setup = s.chips.master.setup
  slave : t.chips.slave.setup = s.chips.slave.setup
  cascade : t.chips.master.irr.getLsbD 2 = s.chips.master.irr.getLsbD 2
  masterMask : t.masterMask = s.masterMask
  slaveMask : t.slaveMask = s.slaveMask

theorem Same.ok {s t : Irqs} (h : Same s t) (hs : Ok s) : Ok t :=
  ⟨by rw [h.master, hs.master, h.masterMask], by rw [h.slave, hs.slave, h.slaveMask],
    h.cascade.trans hs.cascade⟩

theorem Same.trans {s t u : Irqs} (h : Same s t) (h' : Same t u) : Same s u :=
  ⟨h'.master.trans h.master, h'.slave.trans h.slave, h'.cascade.trans h.cascade,
    h'.masterMask.trans h.masterMask, h'.slaveMask.trans h.slaveMask⟩

theorem eoi_command {k : Nat} (h : k < 8) :
    (BitVec.ofNat 8 (eoiByte ||| k)).getLsbD 4 = false ∧
      (BitVec.ofNat 8 (eoiByte ||| k)).getLsbD 3 = false ∧
      BitVec.ofNat 8 (eoiByte ||| k) &&& 0xE0 = 0x60 ∧
      (BitVec.ofNat 8 (eoiByte ||| k) &&& 7).toNat = k := by
  have hall : ∀ k < 8, (BitVec.ofNat 8 (eoiByte ||| k)).getLsbD 4 = false ∧
      (BitVec.ofNat 8 (eoiByte ||| k)).getLsbD 3 = false ∧
      BitVec.ofNat 8 (eoiByte ||| k) &&& 0xE0 = 0x60 ∧
      (BitVec.ofNat 8 (eoiByte ||| k) &&& 7).toNat = k := by decide
  exact hall k h

/-- The chip takes the command for the end of the interrupt of level `k`. -/
theorem eoi_chip (c : Chip) {k : Nat} (h : k < 8) :
    c.writeCommand (BitVec.ofNat 8 (eoiByte ||| k)) = { c with isr := clearBit c.isr k } := by
  obtain ⟨h4, h3, hcommand, hlevel⟩ := eoi_command h
  unfold Chip.writeCommand
  rw [h4, h3, if_neg Bool.false_ne_true, if_neg Bool.false_ne_true, Chip.endOfInterrupt,
    if_pos hcommand, hlevel]

theorem eoi_same (s : Irqs) {k : Nat} (h : k < 8) :
    Same s (s.outb (BitVec.ofNat 8 (eoiByte ||| k)) master8259Port) ∧
      Same s (s.outb (BitVec.ofNat 8 (eoiByte ||| k)) slave8259Port) := by
  rw [outb_masterCommand, outb_slaveCommand, eoi_chip _ h, eoi_chip _ h]
  exact ⟨⟨rfl, rfl, rfl, rfl, rfl⟩, ⟨rfl, rfl, rfl, rfl, rfl⟩⟩

theorem sendEoi_same (s : Irqs) (n : Irq) : Same s (s.sendEoi n) := by
  have hcascade : mstrIrq2Mask < 8 := by decide
  unfold sendEoi
  by_cases h : n.val ≥ mstrNumIrqs
  · have hk : n.val - mstrNumIrqs < 8 := by
      simp only [mstrNumIrqs]
      omega
    rw [if_pos h]
    exact ((eoi_same s hk).2.trans (eoi_same _ hcascade).1).trans (eoi_same _ hk).1
  · rw [if_neg h]
    exact (eoi_same s (Nat.not_le.mp h)).1

theorem raise_same (s : Irqs) {n : Irq} (h : n.val ≠ 2) :
    Same s { s with chips := s.chips.raise n } := by
  unfold Pair.raise
  split
  · rename_i hn
    refine ⟨rfl, rfl, ?_, rfl, rfl⟩
    show (setBit s.chips.master.irr n.val).getLsbD 2 = _
    rw [getLsbD_setBit _ hn, if_neg fun h2 => h h2.symm]
  · exact ⟨rfl, rfl, rfl, rfl, rfl⟩

/-! ## The masks -/

theorem lineBit_clear (v : Byte) {n : Nat} (h : n < 8) :
    (v.setWidth 32 &&& ~~~lineBit n).setWidth 8 = clearBit v n := by
  apply BitVec.eq_of_getLsbD_eq
  intro i hi
  rw [getLsbD_clearBit v h, lineBit]
  by_cases hin : i = n
  · simp [hin]
  · simp [hi, hin]
    grind

theorem lineBit_set (v : Byte) {n : Nat} (h : n < 8) :
    (v.setWidth 32 ||| lineBit n).setWidth 8 = setBit v n := by
  apply BitVec.eq_of_getLsbD_eq
  intro i hi
  rw [getLsbD_setBit v h, lineBit]
  by_cases hin : i = n
  · simp [hin]
    omega
  · simp [hi, hin]
    grind

/-- The copy of the mask bit of a line. -/
def copy (s : Irqs) (n : Irq) : Bool :=
  if n.val < 8 then s.masterMask.getLsbD n else s.slaveMask.getLsbD (n.val - 8)

theorem Ok.masked {s : Irqs} (h : Ok s) (n : Irq) : s.masked n = s.copy n := by
  rw [Irqs.masked, copy, h.master, h.slave]
  rfl

theorem enableIrq_copy (s : Irqs) (n m : Irq) :
    (s.enableIrq n).copy m = if m = n then false else s.copy m := by
  unfold enableIrq
  by_cases hn : n.val < mstrNumIrqs
  · rw [if_pos hn, lineBit_clear _ hn]
    simp only [copy, outb_masterData, getLsbD_clearBit _ hn, Fin.val_inj]
    grind
  · rw [if_neg hn, lineBit_clear _ (by grind)]
    simp only [copy, outb_slaveData, getLsbD_clearBit _ (show n.val - mstrNumIrqs < 8 by grind)]
    grind

theorem disableIrq_copy (s : Irqs) (n m : Irq) :
    (s.disableIrq n).copy m = if m = n then true else s.copy m := by
  unfold disableIrq
  by_cases hn : n.val < mstrNumIrqs
  · rw [if_pos hn, lineBit_set _ hn]
    simp only [copy, outb_masterData, getLsbD_setBit _ hn, Fin.val_inj]
    grind
  · rw [if_neg hn, lineBit_set _ (by grind)]
    simp only [copy, outb_slaveData, getLsbD_setBit _ (show n.val - mstrNumIrqs < 8 by grind)]
    grind

theorem Same.copy {s t : Irqs} (h : Same s t) (n : Irq) : t.copy n = s.copy n := by
  rw [Irqs.copy, Irqs.copy, h.masterMask, h.slaveMask]

/-- The chips take no interrupt of their own on line 2: it is a line of the master with a device,
or one of the slave that the master's line 2 brings. -/
theorem Ok.acknowledge_cases {s : Irqs} (h : Ok s) {v : Byte} {p : Pair}
    (hack : s.chips.acknowledge = some (v, p)) :
    (∃ n : Level, n ≠ 2 ∧ s.masterMask.getLsbD n = false ∧
        v = s.chips.master.vector n ∧ p = ⟨s.chips.master.accept n, s.chips.slave⟩) ∨
      ∃ k : Level, s.slaveMask.getLsbD k = false ∧ v = s.chips.slave.vector k ∧
        p = ⟨s.chips.master.accept 2, s.chips.slave.accept k⟩ := by
  have hicw3 : s.chips.master.setup.icw3 = 0x04 := congrArg Setup.icw3 h.master
  have himr : s.chips.master.setup.imr = s.masterMask := congrArg Setup.imr h.master
  have hslave : s.chips.slave.setup.imr = s.slaveMask := congrArg Setup.imr h.slave
  have hcascade : ∀ n : Level, (0x04 : Byte).getLsbD n = true → n = 2 := by decide
  obtain ⟨n, hirr, hn, ⟨hline, hv, hp⟩ | ⟨hline, ⟨k, hk, hv, hp⟩ | ⟨hnone, -, -⟩⟩⟩ :=
    Pair.acknowledge_cases hack
  · refine .inl ⟨n, ?_, himr ▸ hn, hv, hp⟩
    rintro rfl
    rw [hicw3] at hline
    revert hline
    decide
  · rw [hicw3] at hline
    obtain rfl := hcascade n hline
    exact .inr ⟨k, hslave ▸ hk, hv, hp⟩
  · rw [hicw3] at hline
    obtain rfl := hcascade n hline
    rw [Pair.masterIrr, hnone] at hirr
    exact absurd (h.cascade.symm.trans hirr) Bool.false_ne_true

theorem acknowledge_same {s t : Irqs} (hs : Ok s) (h : step s .acknowledge = some t) :
    Same s t := by
  obtain ⟨⟨v, p⟩, hack, rfl⟩ := Option.map_eq_some_iff.mp h
  obtain ⟨n, -, -, -, rfl⟩ | ⟨k, -, -, rfl⟩ := hs.acknowledge_cases hack <;>
    exact ⟨rfl, rfl, (Chip.accept_irr _ _ hs.cascade).trans hs.cascade.symm, rfl, rfl⟩

/-- One step keeps the chips set up, and switches the lines as its call says. -/
theorem step_switch {s t : Irqs} {op : Op} (hs : Ok s) (h : step s op = some t) (n : Irq) :
    Ok t ∧ (!t.copy n) = switch n (!s.copy n) op := by
  cases op with
  | enableIrq k =>
    cases h
    refine ⟨hs.enableIrq k, ?_⟩
    rw [enableIrq_copy, switch]
    split <;> rfl
  | disableIrq k =>
    cases h
    refine ⟨hs.disableIrq k, ?_⟩
    rw [disableIrq_copy, switch]
    split <;> rfl
  | sendEoi k =>
    cases h
    exact ⟨(sendEoi_same s k).ok hs, congrArg _ ((sendEoi_same s k).copy n)⟩
  | raise k hk =>
    cases h
    exact ⟨(raise_same s hk).ok hs, congrArg _ ((raise_same s hk).copy n)⟩
  | acknowledge =>
    have hsame := acknowledge_same hs h
    exact ⟨hsame.ok hs, congrArg _ (hsame.copy n)⟩

theorem run_switch {s t : Irqs} {ops : List Op} (hs : Ok s) (h : run step s ops = some t)
    (n : Irq) : Ok t ∧ (!t.copy n) = ops.foldl (switch n) (!s.copy n) := by
  induction ops generalizing s with
  | nil =>
    cases h
    exact ⟨hs, rfl⟩
  | cons op ops ih =>
    obtain ⟨s', hs', h'⟩ := Option.bind_eq_some_iff.mp h
    obtain ⟨hok, hcopy⟩ := step_switch hs hs' n
    obtain ⟨ht, hrest⟩ := ih hok h'
    exact ⟨ht, by rw [hrest, hcopy, List.foldl_cons]⟩

theorem i8259Init_copy (s : Irqs) (n : Irq) : (!s.i8259Init.copy n) = decide (n.val = 2) := by
  obtain ⟨-, hm, hs⟩ := i8259Init_ok s
  rw [copy, hm, hs]
  revert n
  decide

theorem run_masks {s t : Irqs} {ops : List Op} (h : run step s.i8259Init ops = some t) (n : Irq) :
    Ok t ∧ t.copy n = !enabledAfter n ops := by
  obtain ⟨hok, hcopy⟩ := run_switch (i8259Init_ok s).1 h n
  rw [i8259Init_copy] at hcopy
  exact ⟨hok, by rw [enabledAfter, ← hcopy, Bool.not_not]⟩

def poweredOn : Irqs :=
  let chip : Chip := ⟨⟨.ready, 0, 0, 0, 0, 0⟩, 0, 0⟩
  ⟨⟨chip, chip⟩, 0, 0⟩

/-- One line interrupts the handler of another one, and that one is raised again. -/
def nested (outer inner : Irq) (ho : outer.val ≠ 2) (hi : inner.val ≠ 2) : List Op :=
  [.enableIrq inner, .enableIrq outer, .raise outer ho, .acknowledge, .raise inner hi,
    .acknowledge, .sendEoi inner, .sendEoi outer, .raise outer ho]

/-- The timer interrupts the handler of the clock. -/
theorem nested_clock : ∃ t,
    run step poweredOn.i8259Init (nested 8 0 (by decide) (by decide)) = some t ∧
      ∃ r, t.chips.acknowledge = some r := by
  obtain ⟨t, ht, hr⟩ := exists_of_map_decide (fun t : Irqs => t.chips.acknowledge.isSome = true)
    (show (run step poweredOn.i8259Init (nested 8 0 (by decide) (by decide))).map _ =
      some true from rfl)
  exact ⟨t, ht, Option.isSome_iff_exists.mp hr⟩

/-- **Masks.** In every run after the initialization, of calls that enable and disable lines or
end interrupts, requests and acknowledgements in any order, a line is masked in its chip exactly
when it is not enabled by the last call for it, and the kernel's copies are the chips' masks. -/
theorem masks_follow_calls (s t : Irqs) (ops : List Op)
    (h : run step s.i8259Init ops = some t) :
    (∀ n, t.masked n = !enabledAfter n ops) ∧
      t.chips.master.setup.imr = t.masterMask ∧ t.chips.slave.setup.imr = t.slaveMask := by
  obtain ⟨hok, -⟩ := run_masks h 0
  refine ⟨fun n => (hok.masked n).trans (run_masks h n).2, ?_, ?_⟩
  · rw [hok.master, setupWith]
  · rw [hok.slave, setupWith]

theorem masks_follow_calls_clock : ∃ ops t, run step poweredOn.i8259Init ops = some t ∧
    (∀ n, t.masked n = !enabledAfter n ops) ∧
      t.chips.master.setup.imr = t.masterMask ∧ t.chips.slave.setup.imr = t.slaveMask := by
  obtain ⟨t, ht, -⟩ := nested_clock
  exact ⟨_, t, ht, masks_follow_calls poweredOn t _ ht⟩

/-! ## The vectors -/

/-- The vector of a line. -/
def vectorOf (n : Irq) : Byte := BitVec.ofNat 8 (0x20 + n.val)

/-- The line of a level of the master, and of the slave. -/
def masterLine (k : Level) : Irq := ⟨k.val, by omega⟩

def slaveLine (k : Level) : Irq := ⟨k.val + 8, by omega⟩

theorem Ok.master_vector {s : Irqs} (h : Ok s) (k : Level) :
    s.chips.master.vector k = vectorOf (masterLine k) := by
  have hall : ∀ k : Level, ((0x20 : Byte) &&& 0xF8) ||| BitVec.ofNat 8 k =
      vectorOf (masterLine k) := by decide
  rw [Chip.vector, congrArg Setup.icw2 h.master]
  exact hall k

theorem Ok.slave_vector {s : Irqs} (h : Ok s) (k : Level) :
    s.chips.slave.vector k = vectorOf (slaveLine k) := by
  have hall : ∀ k : Level, ((0x28 : Byte) &&& 0xF8) ||| BitVec.ofNat 8 k =
      vectorOf (slaveLine k) := by decide
  rw [Chip.vector, congrArg Setup.icw2 h.slave]
  exact hall k

/-- What the processor gets is the vector of a line with a device whose copy is not masked. -/
theorem Ok.delivered {s : Irqs} (h : Ok s) {v : Byte} {p : Pair}
    (hack : s.chips.acknowledge = some (v, p)) :
    ∃ n : Irq, n ≠ 2 ∧ s.copy n = false ∧ v = vectorOf n := by
  obtain ⟨k, hk, hmask, hv, -⟩ | ⟨k, hmask, hv, -⟩ := h.acknowledge_cases hack
  · refine ⟨masterLine k, fun h2 => hk ?_, ?_, hv.trans (h.master_vector k)⟩
    · have hval : k.val = 2 := congrArg Fin.val h2
      exact Fin.ext hval
    · rw [copy, masterLine, if_pos k.isLt]
      exact hmask
  · refine ⟨slaveLine k, fun h2 => ?_, ?_, hv.trans (h.slave_vector k)⟩
    · have hval := congrArg Fin.val h2
      simp [slaveLine] at hval
    · rw [copy, slaveLine, if_neg (by simp)]
      exact hmask

/-- After a run, a line whose copy is not masked is one that the last call has enabled. -/
theorem run_copy_enabled {s t : Irqs} {ops : List Op} (h : run step s.i8259Init ops = some t)
    {n : Irq} (hn : t.copy n = false) : enabledAfter n ops = true := by
  rw [(run_masks h n).2] at hn
  simpa using hn

/-- **Vectors.** Wherever a run after the initialization has come to, the processor gets only
the vector of a line with a device that the last call for it has enabled. -/
theorem delivered_enabled {s t : Irqs} {ops : List Op} (h : run step s.i8259Init ops = some t)
    {v : Byte} {p : Pair} (hack : t.chips.acknowledge = some (v, p)) :
    ∃ n : Irq, n ≠ 2 ∧ enabledAfter n ops = true ∧ v = vectorOf n := by
  obtain ⟨n, hn, hcopy, hv⟩ := (run_masks h 0).1.delivered hack
  exact ⟨n, hn, run_copy_enabled h hcopy, hv⟩

theorem delivered_enabled_clock : ∃ ops t v p, run step poweredOn.i8259Init ops = some t ∧
    t.chips.acknowledge = some (v, p) ∧
      ∃ n : Irq, n ≠ 2 ∧ enabledAfter n ops = true ∧ v = vectorOf n := by
  obtain ⟨t, ht, ⟨v, p⟩, hr⟩ := nested_clock
  exact ⟨_, t, v, p, ht, hr, delivered_enabled ht hr⟩

/-! ## The lines in service -/

/-- The in-service bits of both chips. -/
def inService (s : Irqs) : Pics :=
  ⟨fun n => if n.val < 8 then s.chips.master.isr.getLsbD n
    else s.chips.slave.isr.getLsbD (n.val - 8)⟩

/-- The line of a vector. -/
def lineOf (v : Byte) : Irq := ⟨(v.toNat - 0x20) % 16, Nat.mod_lt _ (by decide)⟩

theorem inService_congr {s t : Irqs} (hm : t.chips.master.isr = s.chips.master.isr)
    (hs : t.chips.slave.isr = s.chips.slave.isr) : t.inService = s.inService := by
  rw [inService, inService, hm, hs]

theorem eoi_master (s : Irqs) {k : Nat} (h : k < 8) :
    (s.outb (BitVec.ofNat 8 (eoiByte ||| k)) master8259Port).inService =
      s.inService.outb (eoiByte ||| k) master8259Port := by
  rw [Pics.outb_master _ h, outb_masterCommand, eoi_chip _ h]
  refine congrArg Pics.mk (funext fun m => ?_)
  rw [Function.update_apply]
  simp only [inService, getLsbD_clearBit _ h]
  grind

theorem eoi_slave (s : Irqs) {k : Nat} (h : k < 8) :
    (s.outb (BitVec.ofNat 8 (eoiByte ||| k)) slave8259Port).inService =
      s.inService.outb (eoiByte ||| k) slave8259Port := by
  rw [Pics.outb_slave _ h, outb_slaveCommand, eoi_chip _ h]
  refine congrArg Pics.mk (funext fun m => ?_)
  rw [Function.update_apply]
  simp only [inService, getLsbD_clearBit _ h]
  grind

theorem sendEoi_inService (s : Irqs) (n : Irq) :
    (s.sendEoi n).inService = s.inService.sendEoi n := by
  have hcascade : mstrIrq2Mask < 8 := by decide
  unfold sendEoi Pics.sendEoi
  by_cases h : n.val ≥ mstrNumIrqs
  · have hk : n.val - mstrNumIrqs < 8 := by
      simp only [mstrNumIrqs]
      omega
    rw [if_pos h, if_pos h]
    dsimp only
    rw [eoi_master _ hk, eoi_master _ hcascade, eoi_slave _ hk]
  · rw [if_neg h, if_neg h]
    exact eoi_master s (Nat.not_le.mp h)

/-- What a step is for the lines in service. -/
def picOp (s : Irqs) : Op → Option Pics.PicOp
  | .sendEoi n => some (.sendEoi n)
  | .acknowledge => s.chips.acknowledge.map fun r => .accept (lineOf r.1)
  | _ => none

theorem lineOf_vectorOf (n : Irq) : lineOf (vectorOf n) = n := by
  revert n
  decide

theorem Ok.acknowledge_inService {s : Irqs} (h : Ok s) {v : Byte} {p : Pair}
    (hack : s.chips.acknowledge = some (v, p)) :
    { s with chips := p }.inService = s.inService.accept (lineOf v) := by
  have hmaster : s.chips.master.setup.icw4.getLsbD 1 = false := by
    rw [congrArg Setup.icw4 h.master]
    show (0x01 : Byte).getLsbD 1 = false
    decide
  have hslave : s.chips.slave.setup.icw4.getLsbD 1 = false := by
    rw [congrArg Setup.icw4 h.slave]
    show (0x01 : Byte).getLsbD 1 = false
    decide
  obtain ⟨k, -, -, rfl, rfl⟩ | ⟨k, -, rfl, rfl⟩ := h.acknowledge_cases hack
  · rw [h.master_vector, lineOf_vectorOf, Pics.accept,
      if_neg (show ¬(masterLine k).val ≥ mstrNumIrqs from Nat.not_le.mpr k.isLt)]
    refine congrArg Pics.mk (funext fun m => ?_)
    simp only [inService, Chip.accept_isr _ _ hmaster, Function.update_apply, masterLine]
    grind
  · rw [h.slave_vector, lineOf_vectorOf, Pics.accept,
      if_pos (show (slaveLine k).val ≥ mstrNumIrqs from Nat.le_add_left _ _)]
    refine congrArg Pics.mk (funext fun m => ?_)
    simp only [inService, Chip.accept_isr _ _ hmaster, Chip.accept_isr _ _ hslave,
      Function.update_apply, slaveLine]
    grind

/-- A step of the chips is the step of their lines in service. -/
theorem step_inService {s t : Irqs} {op : Op} (hs : Ok s) (h : step s op = some t) :
    run Pics.step s.inService (picOp s op).toList = some t.inService := by
  cases op with
  | enableIrq k =>
    cases h
    refine congrArg some (inService_congr ?_ ?_).symm <;>
      · unfold enableIrq
        split <;> simp
  | disableIrq k =>
    cases h
    refine congrArg some (inService_congr ?_ ?_).symm <;>
      · unfold disableIrq
        split <;> simp
  | sendEoi k =>
    cases h
    exact congrArg some (sendEoi_inService s k).symm
  | raise k hk =>
    cases h
    exact congrArg some (inService_congr (s.chips.raise_isr k).1 (s.chips.raise_isr k).2).symm
  | acknowledge =>
    obtain ⟨⟨v, p⟩, hack, rfl⟩ := Option.map_eq_some_iff.mp h
    rw [picOp, hack]
    exact congrArg some (hs.acknowledge_inService hack).symm

theorem i8259Init_inService (s : Irqs) : s.i8259Init.inService = Pics.idle := by
  have hmaster : s.i8259Init.chips.master.isr = 0 := by
    simp [i8259Init, Chip.writeCommand]
  have hslave : s.i8259Init.chips.slave.isr = 0 := by
    simp [i8259Init, Chip.writeCommand]
  rw [inService, hmaster, hslave]
  exact congrArg Pics.mk (funext fun n => by simp)

/-- **Lines in service.** The in-service bits of the two chips, after any run from the
initialization, are those of the run of its interrupts and calls of `send_eoi` alone. -/
theorem chips_refine_pics (s t : Irqs) (ops : List Op)
    (h : run step s.i8259Init ops = some t) :
    run Pics.step Pics.idle (project step picOp s.i8259Init ops) = some t.inService := by
  obtain ⟨u, hu, -, rfl⟩ := project_run step Pics.step picOp
    (fun s u => Ok s ∧ s.inService = u) (fun s op s' u hs hstep => by
      obtain ⟨hok, rfl⟩ := hs
      exact ⟨_, step_inService hok hstep, (step_switch hok hstep 0).1, rfl⟩)
    s.i8259Init t _ ops ⟨(i8259Init_ok s).1, i8259Init_inService s⟩ h
  exact hu

theorem chips_refine_pics_clock : ∃ ops t, run step poweredOn.i8259Init ops = some t ∧
    run Pics.step Pics.idle (project step picOp poweredOn.i8259Init ops) = some t.inService := by
  obtain ⟨t, ht, -⟩ := nested_clock
  exact ⟨_, t, ht, chips_refine_pics poweredOn t _ ht⟩

end Irqs

end OS391
