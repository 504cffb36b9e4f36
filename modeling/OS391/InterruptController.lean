import OS391.Library.Runs

/-! `i8259.c`: the two interrupt controllers, as far as the lines in service are concerned,
and the commands that end an interrupt. -/

namespace OS391
open Library.Runs

/-- Interrupt lines: 0 to 7 at the master, 8 to 15 at the slave. -/
abbrev Irq := Fin 16

abbrev mstrNumIrqs : Nat := 8
abbrev mstrIrq2Mask : Nat := 2
abbrev master8259Port : Nat := 0x20
abbrev slave8259Port : Nat := 0xA0
abbrev eoiByte : Nat := 0x60

structure Pics where
  /-- The in-service bits of the master, and behind them those of the slave. -/
  inService : Irq → Bool

namespace Pics

def clearBit (s : Pics) (n : Irq) : Pics := ⟨Function.update s.inService n false⟩

/-- A byte for a port. At a command port the hardware takes `0x60 | k` as the end of the
interrupt of level `k`, and clears bit `k` of this chip. -/
def outb (s : Pics) (value port : Nat) : Pics :=
  if value &&& 0xF8 ≠ eoiByte then s
  else if port = master8259Port then s.clearBit (Fin.ofNat 16 (value % 8))
  else if port = slave8259Port then s.clearBit (Fin.ofNat 16 (value % 8 + 8))
  else s

/-- `send_eoi`. The last command is sent for the slave's lines as well. -/
def sendEoi (s : Pics) (irqNum : Nat) : Pics :=
  let (s, irqNum) :=
    if irqNum ≥ mstrNumIrqs then
      let irqNum := irqNum - mstrNumIrqs
      ((s.outb (eoiByte ||| irqNum) slave8259Port).outb (eoiByte ||| mstrIrq2Mask)
        master8259Port, irqNum)
    else (s, irqNum)
  s.outb (eoiByte ||| irqNum) master8259Port

/-- The processor takes an interrupt. One of the slave comes through line 2 of the master. -/
def accept (s : Pics) (n : Irq) : Pics :=
  let s : Pics := if n.val ≥ mstrNumIrqs then ⟨Function.update s.inService 2 true⟩ else s
  ⟨Function.update s.inService n true⟩

inductive PicOp where
  | accept (n : Irq)
  | sendEoi (n : Irq)

def step (s : Pics) : PicOp → Option Pics
  | .accept n => some (s.accept n)
  | .sendEoi n => some (s.sendEoi n.val)

/-! ## The commands -/

theorem clearBit_apply (s : Pics) (n m : Irq) :
    (s.clearBit n).inService m = if m = n then false else s.inService m :=
  Function.update_apply ..

theorem eoi_level {k : Nat} (h : k < 8) :
    (eoiByte ||| k) &&& 0xF8 = eoiByte ∧ (eoiByte ||| k) % 8 = k := by
  have hall : ∀ k < 8, (eoiByte ||| k) &&& 0xF8 = eoiByte ∧ (eoiByte ||| k) % 8 = k := by decide
  exact hall k h

theorem outb_master (s : Pics) {k : Nat} (h : k < 8) :
    s.outb (eoiByte ||| k) master8259Port = s.clearBit (Fin.ofNat 16 k) := by
  obtain ⟨hcommand, hlevel⟩ := eoi_level h
  unfold outb
  rw [if_neg (not_not_intro hcommand), if_pos rfl, hlevel]

theorem outb_slave (s : Pics) {k : Nat} (h : k < 8) :
    s.outb (eoiByte ||| k) slave8259Port = s.clearBit (Fin.ofNat 16 (k + 8)) := by
  obtain ⟨hcommand, hlevel⟩ := eoi_level h
  unfold outb
  rw [if_neg (not_not_intro hcommand), if_neg (by decide), if_pos rfl, hlevel]

/-- The line of the master that has the same level as a line of the slave. -/
def sameLevel (n : Irq) : Irq := Fin.ofNat 16 (n.val - 8)

theorem sameLevel_val (n : Irq) : (sameLevel n).val = n.val - 8 := Nat.mod_eq_of_lt (by omega)

theorem sendEoi_master (s : Pics) {n : Irq} (h : n.val < 8) : s.sendEoi n.val = s.clearBit n := by
  unfold sendEoi
  rw [if_neg (Nat.not_le_of_lt h)]
  dsimp only
  rw [outb_master s h, Fin.ofNat_val_eq_self]

theorem sendEoi_slave (s : Pics) {n : Irq} (h : 8 ≤ n.val) :
    s.sendEoi n.val = ((s.clearBit n).clearBit 2).clearBit (sameLevel n) := by
  have hlevel : n.val - mstrNumIrqs < 8 := by
    simp only [mstrNumIrqs]
    omega
  have hline : Fin.ofNat 16 (n.val - mstrNumIrqs + 8) = n := by
    rw [Nat.sub_add_cancel h, Fin.ofNat_val_eq_self]
  have hcascade (s : Pics) : s.outb (eoiByte ||| mstrIrq2Mask) master8259Port = s.clearBit 2 :=
    outb_master s (by decide)
  unfold sendEoi
  rw [if_pos h]
  dsimp only
  rw [outb_slave s hlevel, hline, hcascade, outb_master _ hlevel]
  rfl

/-! ## Acknowledgement of a line -/

/-- The end of interrupt `n` clears its bit, for the slave's lines also the bit of the line
that the slave is connected to, and no other. -/
def Acknowledges (n : Irq) (s s' : Pics) : Prop :=
  ∀ m, s'.inService m = if m = n ∨ 8 ≤ n.val ∧ m = 2 then false else s.inService m

/-- Every call of `send_eoi` acknowledges its line and no other. -/
def Exact (s : Pics) : PicOp → Prop
  | .accept _ => True
  | .sendEoi n => Acknowledges n s (s.sendEoi n.val)

/-- The line of the master at the level of a slave's line, if it is not line 2, is not in
service when the line of the slave is acknowledged. -/
def LevelFree (s : Pics) : PicOp → Prop
  | .accept _ => True
  | .sendEoi n => 8 ≤ n.val → n ≠ 10 → s.inService (sameLevel n) = false

theorem acknowledges_master (s : Pics) {n : Irq} (h : n.val < 8) :
    Acknowledges n s (s.sendEoi n.val) := by
  intro m
  have hline : (m = n ∨ 8 ≤ n.val ∧ m = 2) ↔ m = n := or_iff_left fun hslave => by omega
  rw [sendEoi_master s h, clearBit_apply]
  exact if_congr hline.symm rfl rfl

theorem sendEoi_slave_inService (s : Pics) {n : Irq} (h : 8 ≤ n.val) (m : Irq) :
    (s.sendEoi n.val).inService m =
      if m = sameLevel n then false else if m = n ∨ 8 ≤ n.val ∧ m = 2 then false
        else s.inService m := by
  rw [sendEoi_slave s h, clearBit_apply, clearBit_apply, clearBit_apply]
  by_cases hn : m = n
  · simp [hn]
  · simp [hn, h]

theorem acknowledges_slave_iff (s : Pics) {n : Irq} (h : 8 ≤ n.val) :
    Acknowledges n s (s.sendEoi n.val) ↔ (n ≠ 10 → s.inService (sameLevel n) = false) := by
  have hval := sameLevel_val n
  constructor
  · intro hack hn
    have hbit := hack (sameLevel n)
    rw [sendEoi_slave_inService s h, if_pos rfl, if_neg] at hbit
    · exact hbit.symm
    · rintro (hself | ⟨-, htwo⟩)
      · rw [hself] at hval
        omega
      · rw [htwo] at hval
        exact hn (Fin.ext (show n.val = 10 by omega))
  · intro hfree m
    rw [sendEoi_slave_inService s h]
    by_cases hm : m = sameLevel n
    · rw [if_pos hm]
      split
      · rfl
      · rename_i hother
        subst hm
        refine (hfree ?_).symm
        rintro rfl
        exact hother (.inr ⟨h, rfl⟩)
    · rw [if_neg hm]

theorem exact_iff (s : Pics) (op : PicOp) : Exact s op ↔ LevelFree s op := by
  cases op with
  | accept n => exact Iff.rfl
  | sendEoi n =>
    by_cases h : 8 ≤ n.val
    · exact (acknowledges_slave_iff s h).trans ⟨fun hfree _ => hfree, fun hfree => hfree h⟩
    · exact iff_of_true (acknowledges_master s (by omega)) fun hslave => absurd hslave h

theorem run_total (s : Pics) (ops : List PicOp) : ∃ t, run step s ops = some t := by
  induction ops generalizing s with
  | nil => exact ⟨s, rfl⟩
  | cons op ops ih =>
    cases op with
    | accept n => exact ih (s.accept n)
    | sendEoi n => exact ih (s.sendEoi n.val)

/-- **End of interrupt.** In every run of interrupts, nested in any way, and calls of
`send_eoi`, each call clears its own line, and line 2 for a line of the slave, and leaves all
others, if and only if no line of the slave but line 10 is acknowledged while the line of
the master at the same level is in service. -/
theorem eoi_exact_iff (s : Pics) (ops : List PicOp) :
    ∃ t, run step s ops = some t ∧
      (Path step Exact s ops t ↔ Path step LevelFree s ops t) := by
  obtain ⟨t, ht⟩ := run_total s ops
  refine ⟨t, ht, ⟨fun h => ?_, fun h => ?_⟩⟩
  · exact h.imp (fun _ => True) (fun s op _ _ hok _ => ⟨trivial, (exact_iff s op).mp hok⟩) trivial
  · exact h.imp (fun _ => True) (fun s op _ _ hok _ => ⟨trivial, (exact_iff s op).mpr hok⟩) trivial

/-- No interrupt is in service. -/
def idle : Pics := ⟨fun _ => false⟩

/-- The timer interrupts the handler of the clock: the end of the clock's interrupt is also
the end of the timer's. -/
theorem eoi_ends_timer : ∃ s t,
    run step idle [.accept 8, .accept 0] = some s ∧ s.inService 0 = true ∧
      run step idle [.accept 8, .accept 0, .sendEoi 8] = some t ∧ t.inService 0 = false ∧
      ¬ Path step Exact idle [.accept 8, .accept 0, .sendEoi 8] t := by
  refine ⟨_, _, rfl, by decide, rfl, by decide, fun hpath => ?_⟩
  cases hpath with
  | cons _ h₁ hpath =>
    cases hpath with
    | cons _ h₂ hpath =>
      cases hpath with
      | cons hexact _ _ =>
        cases h₁
        cases h₂
        have htimer := hexact 0
        revert htimer
        decide

end Pics

end OS391
