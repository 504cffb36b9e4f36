import Mathlib.Data.Fintype.Basic
import Mathlib.Tactic.Common

/-! The 8259A interrupt controller: its initialization, its commands, priorities and masks, and
two of them in cascade. -/

namespace Library.I8259

abbrev Byte := BitVec 8
abbrev Level := Fin 8

/-- What the next write to the data port is taken for. -/
inductive Stage where
  | icw2 | icw3 | icw4 | ready
  deriving DecidableEq

/-- What the initialization and the mask set up. -/
structure Setup where
  stage : Stage
  icw1 : Byte
  icw2 : Byte
  icw3 : Byte
  icw4 : Byte
  imr : Byte
  deriving DecidableEq

structure Chip where
  setup : Setup
  irr : Byte
  isr : Byte
  deriving DecidableEq

def setBit (v : Byte) (n : Nat) : Byte := v ||| 1#8 <<< n

def clearBit (v : Byte) (n : Nat) : Byte := v &&& ~~~(1#8 <<< n)

theorem getLsbD_bit {n : Nat} (h : n < 8) (i : Nat) : (1#8 <<< n).getLsbD i = decide (i = n) := by
  rw [BitVec.getLsbD_shiftLeft, BitVec.getLsbD_one]
  grind

theorem getLsbD_setBit (v : Byte) {n : Nat} (h : n < 8) (i : Nat) :
    (setBit v n).getLsbD i = if i = n then true else v.getLsbD i := by
  rw [setBit, BitVec.getLsbD_or, getLsbD_bit h]
  by_cases hi : i = n <;> simp [hi]

theorem getLsbD_clearBit (v : Byte) {n : Nat} (h : n < 8) (i : Nat) :
    (clearBit v n).getLsbD i = if i = n then false else v.getLsbD i := by
  rw [clearBit, BitVec.getLsbD_and, BitVec.getLsbD_not, getLsbD_bit h]
  by_cases hi : i = n
  · simp [hi]
  · by_cases h8 : i < 8
    · simp [hi, h8]
    · simp [hi, BitVec.getLsbD_of_ge v i (by omega)]

namespace Chip

/-- A level of the chip in the order of priority, the first for which `p` holds. -/
def first (p : Level → Bool) : Option Level := (List.finRange 8).find? p

/-- The highest level in service. -/
def highest (c : Chip) : Option Level := first fun n => c.isr.getLsbD n

/-- OCW2: the two commands that end an interrupt; rotation of priorities is not modelled. -/
def endOfInterrupt (c : Chip) (v : Byte) : Chip :=
  if v &&& 0xE0 = 0x60 then { c with isr := clearBit c.isr (v &&& 7).toNat }
  else if v &&& 0xE0 = 0x20 then
    match c.highest with
    | some n => { c with isr := clearBit c.isr n }
    | none => c
  else c

/-- A write to the command port: ICW1, or OCW2, or OCW3, which changes nothing here. -/
def writeCommand (c : Chip) (v : Byte) : Chip :=
  if v.getLsbD 4 then
    { setup := { c.setup with stage := .icw2, icw1 := v, icw4 := 0, imr := 0 }, irr := 0, isr := 0 }
  else if v.getLsbD 3 then c
  else c.endOfInterrupt v

/-- The stage after ICW2 and ICW3: bit 1 of ICW1 for a chip on its own, bit 0 for an ICW4. -/
def afterIcw3 (s : Setup) : Stage := if s.icw1.getLsbD 0 then .icw4 else .ready

def afterIcw2 (s : Setup) : Stage := if s.icw1.getLsbD 1 then afterIcw3 s else .icw3

/-- A write to the data port. -/
def writeData (c : Chip) (v : Byte) : Chip :=
  let s := c.setup
  match s.stage with
  | .icw2 => { c with setup := { s with icw2 := v, stage := afterIcw2 s } }
  | .icw3 => { c with setup := { s with icw3 := v, stage := afterIcw3 s } }
  | .icw4 => { c with setup := { s with icw4 := v, stage := .ready } }
  | .ready => { c with setup := { s with imr := v } }

@[simp] theorem writeData_irr (c : Chip) (v : Byte) : (c.writeData v).irr = c.irr := by
  unfold writeData
  dsimp only
  split <;> rfl

@[simp] theorem writeData_isr (c : Chip) (v : Byte) : (c.writeData v).isr = c.isr := by
  unfold writeData
  dsimp only
  split <;> rfl

/-- A device, or the slave, requests an interrupt. -/
def raise (c : Chip) (n : Level) : Chip := { c with irr := setBit c.irr n }

/-- The level that is requested, not masked, and above all that is in service, when the
requests are `irr`. -/
def request (c : Chip) (irr : Byte) : Option Level :=
  (first fun n => irr.getLsbD n && !c.setup.imr.getLsbD n).filter fun n =>
    (List.finRange 8).all fun k => decide (n < k) || !c.isr.getLsbD k

/-- The processor takes the interrupt of level `n`; with automatic end (bit 1 of ICW4) it is
not in service then. -/
def accept (c : Chip) (n : Level) : Chip :=
  { c with
    irr := clearBit c.irr n
    isr := if c.setup.icw4.getLsbD 1 then c.isr else setBit c.isr n }

theorem accept_irr (c : Chip) (n : Level) {i : Nat} (h : c.irr.getLsbD i = false) :
    (c.accept n).irr.getLsbD i = false := by
  rw [accept, getLsbD_clearBit _ n.isLt, h, ite_self]

theorem accept_isr (c : Chip) (n : Level) (h : c.setup.icw4.getLsbD 1 = false) (i : Nat) :
    (c.accept n).isr.getLsbD i = if i = n then true else c.isr.getLsbD i := by
  rw [accept, if_neg (by rw [h]; exact Bool.false_ne_true), getLsbD_setBit _ n.isLt]

/-- Five bits of ICW2, and the level. -/
def vector (c : Chip) (n : Level) : Byte := (c.setup.icw2 &&& 0xF8) ||| BitVec.ofNat 8 n

end Chip

/-- Two chips; the output of the slave is connected to the level of the master in ICW3. -/
structure Pair where
  master : Chip
  slave : Chip
  deriving DecidableEq

inductive Port where
  | masterCommand | masterData | slaveCommand | slaveData
  deriving DecidableEq

namespace Pair

def outb (p : Pair) (port : Port) (v : Byte) : Pair :=
  match port with
  | .masterCommand => { p with master := p.master.writeCommand v }
  | .masterData => { p with master := p.master.writeData v }
  | .slaveCommand => { p with slave := p.slave.writeCommand v }
  | .slaveData => { p with slave := p.slave.writeData v }

/-- Lines 0 to 7 are those of the master, 8 to 15 those of the slave. -/
def raise (p : Pair) (n : Fin 16) : Pair :=
  if h : n.val < 8 then { p with master := p.master.raise ⟨n.val, h⟩ }
  else { p with slave := p.slave.raise ⟨n.val - 8, by omega⟩ }

theorem raise_isr (p : Pair) (n : Fin 16) :
    (p.raise n).master.isr = p.master.isr ∧ (p.raise n).slave.isr = p.slave.isr := by
  unfold raise
  split <;> exact ⟨rfl, rfl⟩

def slaveRequest (p : Pair) : Option Level := p.slave.request p.slave.irr

/-- The requests at the master, that of the slave among them. -/
def masterIrr (p : Pair) : Byte :=
  if p.slaveRequest.isSome then p.master.irr ||| p.master.setup.icw3 else p.master.irr

/-- The processor acknowledges an interrupt: the vector that it gets. -/
def acknowledge (p : Pair) : Option (Byte × Pair) :=
  match p.master.request p.masterIrr with
  | none => none
  | some n =>
    let master := p.master.accept n
    if p.master.setup.icw3.getLsbD n then
      match p.slaveRequest with
      | some k => some (p.slave.vector k, ⟨master, p.slave.accept k⟩)
      | none => some (p.slave.vector 7, ⟨master, p.slave⟩)
    else some (p.master.vector n, ⟨master, p.slave⟩)

end Pair

/-! ## Masks hold -/

namespace Chip

theorem request_unmasked {c : Chip} {irr : Byte} {n : Level} (h : c.request irr = some n) :
    irr.getLsbD n = true ∧ c.setup.imr.getLsbD n = false := by
  have hfirst := (Option.filter_eq_some_iff.mp h).1
  have hp := List.find?_some hfirst
  simpa using hp

end Chip

namespace Pair

/-- The processor takes an unmasked line of the master with no chip behind it; an unmasked line of
the slave, through the master; or, when the slave has withdrawn its request, its last line. -/
theorem acknowledge_cases {p p' : Pair} {v : Byte} (h : p.acknowledge = some (v, p')) :
    ∃ n : Level, p.masterIrr.getLsbD n = true ∧ p.master.setup.imr.getLsbD n = false ∧
      (p.master.setup.icw3.getLsbD n = false ∧ v = p.master.vector n ∧
          p' = ⟨p.master.accept n, p.slave⟩ ∨
        p.master.setup.icw3.getLsbD n = true ∧
          ((∃ k : Level, p.slave.setup.imr.getLsbD k = false ∧ v = p.slave.vector k ∧
              p' = ⟨p.master.accept n, p.slave.accept k⟩) ∨
            p.slaveRequest = none ∧ v = p.slave.vector 7 ∧
              p' = ⟨p.master.accept n, p.slave⟩)) := by
  unfold acknowledge at h
  cases hm : p.master.request p.masterIrr with
  | none =>
    rw [hm] at h
    cases h
  | some n =>
    rw [hm] at h
    obtain ⟨hirr, himr⟩ := Chip.request_unmasked hm
    refine ⟨n, hirr, himr, ?_⟩
    dsimp only at h
    by_cases hcascade : p.master.setup.icw3.getLsbD n
    · rw [if_pos hcascade] at h
      refine .inr ⟨hcascade, ?_⟩
      cases hs : p.slaveRequest with
      | some k =>
        rw [hs] at h
        cases h
        exact .inl ⟨k, (Chip.request_unmasked (c := p.slave) hs).2, rfl, rfl⟩
      | none =>
        rw [hs] at h
        cases h
        exact .inr ⟨rfl, rfl, rfl⟩
    · rw [if_neg hcascade] at h
      cases h
      exact .inl ⟨by simpa using hcascade, rfl, rfl⟩

end Pair

end Library.I8259
