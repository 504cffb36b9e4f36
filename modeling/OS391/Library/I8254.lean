import Mathlib.Tactic.Common

/-! One counter of the 8254 interval timer: its control word, its two data bytes, and the clock
in the modes that repeat. -/

namespace Library.I8254

abbrev Byte := BitVec 8

/-- The counter: the control word, the low byte that a high byte is still to follow, and the
clocks until the output rises next (`none`: the counter is not loaded). -/
structure Counter where
  control : Byte
  low : Option Byte
  reload : Nat
  left : Option Nat

namespace Counter

/-- The modes 2 and 3; the high bit of the mode does not matter for them. -/
def repeats (c : Counter) : Prop := c.control.extractLsb' 1 2 = 2 ∨ c.control.extractLsb' 1 2 = 3

instance (c : Counter) : Decidable c.repeats := inferInstanceAs (Decidable (_ ∨ _))

/-- A control word stops the counter until it is loaded; a latch command only copies the count. -/
def setControl (c : Counter) (b : Byte) : Counter :=
  if b.extractLsb' 4 2 = 0 then c else { c with control := b, low := none, left := none }

/-- A count of 0 stands for 65536. The chip takes the count over with the pulse that follows the
write, and the clocks below are those behind this pulse. -/
def load (c : Counter) (n : Nat) : Counter :=
  let n := if n = 0 then 65536 else n
  { c with low := none, reload := n, left := some n }

/-- A data byte: the low one, the high one, or both in turn, by the access mode. -/
def write (c : Counter) (b : Byte) : Counter :=
  if c.control.extractLsb' 4 2 = 1 then c.load b.toNat
  else if c.control.extractLsb' 4 2 = 2 then c.load (256 * b.toNat)
  else if c.control.extractLsb' 4 2 = 3 then
    match c.low with
    | none => { c with low := some b }
    | some l => c.load (256 * b.toNat + l.toNat)
  else c

/-- One clock: whether the output rises. -/
def clock (c : Counter) : Bool × Counter :=
  match c.left with
  | none => (false, c)
  | some n =>
    if n = 1 then (true, { c with left := if c.repeats then some c.reload else none })
    else (false, { c with left := some (n - 1) })

/-- How often the output rises in `n` clocks. -/
def rises : Counter → Nat → Nat
  | _, 0 => 0
  | c, n + 1 => c.clock.1.toNat + c.clock.2.rises n

/-- Two data bytes in access mode 3 load the counter, the low byte first. -/
theorem write_pair {c : Counter} (hmode : c.control.extractLsb' 4 2 = 3) (hlow : c.low = none)
    (l b : Byte) : (c.write l).write b = c.load (256 * b.toNat + l.toNat) := by
  have hnot : ∀ v : BitVec 2, v = 3 → v ≠ 1 ∧ v ≠ 2 := by decide
  obtain ⟨hone, htwo⟩ := hnot _ hmode
  have hfirst : c.write l = { c with low := some l } := by
    unfold write
    rw [if_neg hone, if_neg htwo, if_pos hmode, hlow]
  rw [hfirst]
  unfold write
  rw [if_neg hone, if_neg htwo, if_pos hmode]
  rfl

/-- A counter that repeats rises once in each period, from any place in the period. -/
theorem rises_eq {c : Counter} {d k : Nat} (hmode : c.repeats) (hreload : c.reload = d)
    (hleft : c.left = some k) (hk : 0 < k) (hkd : k ≤ d) (n : Nat) :
    c.rises n = (n + (d - k)) / d := by
  induction n generalizing c k with
  | zero =>
    rw [rises, Nat.zero_add, Nat.div_eq_of_lt (by omega)]
  | succ n ih =>
    rw [rises, clock, hleft]
    dsimp only
    by_cases hone : k = 1
    · have hperiod : n + 1 + (d - k) = n + (d - d) + d := by omega
      rw [if_pos hone, if_pos hmode, ih (c := { c with left := some c.reload }) hmode hreload
        (congrArg some hreload) (by omega) (Nat.le_refl d), hperiod,
        Nat.add_div_right _ (by omega)]
      exact Nat.add_comm 1 _
    · have hnext : n + 1 + (d - k) = n + (d - (k - 1)) := by omega
      rw [if_neg hone, ih (c := { c with left := some (k - 1) }) hmode hreload rfl (by omega)
        (by omega), hnext]
      exact Nat.zero_add _

/-- From the load on, the output rises at the end of each period. -/
theorem rises_load {c : Counter} {d : Nat} (hmode : c.repeats) (hd : 0 < d) (n : Nat) :
    (c.load d).rises n = n / d := by
  have hreload : (c.load d).reload = d := if_neg (Nat.ne_of_gt hd)
  have hleft : (c.load d).left = some d := congrArg some (if_neg (Nat.ne_of_gt hd))
  rw [rises_eq (show (c.load d).repeats from hmode) hreload hleft hd (Nat.le_refl d),
    Nat.sub_self, Nat.add_zero]

end Counter

end Library.I8254
