import OS391.Library.I8254

/-! The rate of the timer that `pit_init` sets up. -/

namespace OS391.Pit
open Library.I8254

abbrev desiredFreq : Nat := 50
abbrev pitClockFreq : Nat := 1193180
abbrev pitCommPort : Nat := 0x43
abbrev pitChannel0 : Nat := 0x40
abbrev pitCommByte : Byte := 0x36

/-- A write to one of the ports of counter 0; a control word with other bits 6 and 7 is for
another counter. -/
def outb (c : Counter) (value : Byte) (port : Nat) : Counter :=
  if port = pitCommPort then (if value.extractLsb' 6 2 = 0 then c.setControl value else c)
  else if port = pitChannel0 then c.write value
  else c

/-- `pit_init`, apart from its `enable_irq`. -/
def pitInit (c : Counter) : Counter :=
  let divisor := pitClockFreq / desiredFreq
  let c := outb c pitCommByte pitCommPort
  let c := outb c (BitVec.ofNat 8 (divisor &&& 0xFF)) pitChannel0
  outb c (BitVec.ofNat 8 (divisor >>> 8)) pitChannel0

theorem outb_comm (c : Counter) : outb c pitCommByte pitCommPort = c.setControl pitCommByte := by
  unfold outb
  rw [if_pos rfl, if_pos (by decide)]

theorem outb_channel0 (c : Counter) (b : Byte) : outb c b pitChannel0 = c.write b := by
  have hport : pitChannel0 ≠ pitCommPort := by decide
  unfold outb
  rw [if_neg hport, if_pos rfl]

theorem setControl_comm (c : Counter) : c.setControl pitCommByte =
    { c with control := pitCommByte, low := none, left := none } := by
  have hload : pitCommByte.extractLsb' 4 2 ≠ 0 := by decide
  exact if_neg hload

/-- The three writes load the divisor. -/
theorem pitInit_eq (c : Counter) :
    pitInit c = (c.setControl pitCommByte).load (pitClockFreq / desiredFreq) := by
  have hmode : (c.setControl pitCommByte).control.extractLsb' 4 2 = 3 := by
    rw [setControl_comm]
    show pitCommByte.extractLsb' 4 2 = 3
    decide
  have hlow : (c.setControl pitCommByte).low = none := by rw [setControl_comm]
  have hdivisor : 256 * (BitVec.ofNat 8 ((pitClockFreq / desiredFreq) >>> 8)).toNat +
      (BitVec.ofNat 8 ((pitClockFreq / desiredFreq) &&& 0xFF)).toNat =
        pitClockFreq / desiredFreq := by decide
  unfold pitInit
  dsimp only
  rw [outb_comm, outb_channel0, outb_channel0, Counter.write_pair hmode hlow, hdivisor]

/-- **Timer rate.** Whatever the counter was doing, from the pulse that takes over the count of
`pit_init` on it interrupts once in every `divisor` clocks: 50 times a second, and at most once
more in 795 seconds. -/
theorem timer_rate (c : Counter) :
    (∀ n, (pitInit c).rises n = n / (pitClockFreq / desiredFreq)) ∧
    ∀ s, desiredFreq * s ≤ (pitInit c).rises (s * pitClockFreq) ∧
      (pitInit c).rises (s * pitClockFreq) ≤ desiredFreq * s + s / 795 := by
  have hrises : ∀ n, (pitInit c).rises n = n / (pitClockFreq / desiredFreq) := by
    intro n
    have hrepeats : (c.setControl pitCommByte).repeats := by
      rw [setControl_comm]
      show pitCommByte.extractLsb' 1 2 = 2 ∨ pitCommByte.extractLsb' 1 2 = 3
      decide
    rw [pitInit_eq]
    exact Counter.rises_load hrepeats (by decide) n
  refine ⟨hrises, fun s => ?_⟩
  rw [hrises]
  simp only [desiredFreq, pitClockFreq]
  omega

end OS391.Pit
