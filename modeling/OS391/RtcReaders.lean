import OS391.Process

/-! Calls of `rtc_read` by any number of processes, interleaved with each other and with the
interrupts of the clock. All of them wait for one flag. -/

namespace OS391
open Library.Runs

/-- Where a process is in `rtc_read`. -/
inductive Stage where
  | idle
  /-- In the loop that waits for the flag. -/
  | waiting
  /-- Behind the loop, before the flag is cleared. -/
  | leaving
  deriving DecidableEq

/-- The clock, and where each process is. -/
structure Readers (P : Type) where
  rtc : Rtc
  stage : P → Stage

inductive ReaderOp (P : Type) where
  | interrupt
  /-- The call of `rtc_read`. -/
  | begin (p : P)
  /-- One test of the flag in the loop. -/
  | test (p : P)
  /-- The store to the flag, and the return. -/
  | clear (p : P)

namespace Readers

variable {P : Type} [DecidableEq P]

/-- Nobody has called `rtc_read`. -/
def start (r : Rtc) : Readers P := ⟨r, fun _ => .idle⟩

def enter (s : Readers P) (p : P) (st : Stage) : Readers P :=
  { s with stage := Function.update s.stage p st }

def step (s : Readers P) : ReaderOp P → Option (Readers P)
  | .interrupt => some { s with rtc := s.rtc.rtcIntHandler }
  | .begin p => if s.stage p = .idle then some (s.enter p .waiting) else none
  | .test p =>
    if s.stage p = .waiting then
      some (if s.rtc.flag then s.enter p .leaving else s)
    else none
  | .clear p =>
    if s.stage p = .leaving then
      some { s.enter p .idle with rtc := { s.rtc with flag := false } }
    else none

/-- A test that finds the flag set, and the clear behind it, are what `Rtc.rtcRead` does at
once. -/
theorem rtcRead_steps {s : Readers P} {p : P} (hp : s.stage p = .waiting) :
    (run step s [.test p, .clear p]).map Readers.rtc = s.rtc.rtcRead.map Prod.snd := by
  unfold Rtc.rtcRead
  by_cases hf : s.rtc.flag = true
  · simp [step, hp, hf, enter]
  · simp [step, hp, hf]

/-! ## What is promised -/

/-- Beside the state: the processes that have seen an interrupt since their call began. -/
def noted (due : P → Bool) (_ : Readers P) : ReaderOp P → P → Bool
  | .interrupt => fun _ => true
  | .begin p => Function.update due p false
  | .test _ | .clear _ => due

/-- A call returns only after an interrupt that came after its beginning, and once such an
interrupt has come it does not wait any longer. -/
def Kept (x : Readers P × (P → Bool)) : ReaderOp P → Prop
  | .clear p => x.2 p = true
  | .test p => x.2 p = true → x.1.rtc.flag = true
  | .interrupt | .begin _ => True

/-- Calls begin while the flag is clear, and no call clears the flag while another waits. -/
def Orderly (x : Readers P × (P → Bool)) : ReaderOp P → Prop
  | .begin _ => x.1.rtc.flag = false
  | .clear p => x.1.rtc.flag = true → ∀ q, q ≠ p → x.1.stage q ≠ .waiting
  | .interrupt | .test _ => True

/-- The flag is set exactly for those who wait for it. -/
structure Inv (s : Readers P) (due : P → Bool) : Prop where
  waiting : ∀ p, s.stage p = .waiting → due p = s.rtc.flag
  leaving : ∀ p, s.stage p = .leaving → due p = true

omit [DecidableEq P] in
theorem start_inv (r : Rtc) (due : P → Bool) : Inv (start r) due :=
  ⟨nofun, nofun⟩

variable {s s' : Readers P} {due : P → Bool}

@[simp] theorem enter_stage_self (s : Readers P) (p : P) (st : Stage) :
    (s.enter p st).stage p = st := Function.update_self ..

theorem enter_stage_of_ne (s : Readers P) {p q : P} (hq : q ≠ p) (st : Stage) :
    (s.enter p st).stage q = s.stage q := Function.update_of_ne hq ..

/-- One process goes to another stage, and the others stay as they are. -/
theorem Inv.enter (h : Inv s due) {p : P} {st : Stage} {due' : P → Bool}
    (hothers : ∀ q, q ≠ p → due' q = due q) (hwait : st = .waiting → due' p = s.rtc.flag)
    (hleave : st = .leaving → due' p = true) : Inv (s.enter p st) due' := by
  constructor
  · intro q hq
    by_cases hqp : q = p
    · rw [hqp, enter_stage_self] at hq
      rw [hqp, hwait hq]
      rfl
    · rw [enter_stage_of_ne s hqp] at hq
      rw [hothers q hqp, h.waiting q hq]
      rfl
  · intro q hq
    by_cases hqp : q = p
    · rw [hqp, enter_stage_self] at hq
      rw [hqp, hleave hq]
    · rw [enter_stage_of_ne s hqp] at hq
      rw [hothers q hqp, h.leaving q hq]

theorem begin_inv (h : Inv s due) {p : P} (hf : s.rtc.flag = false) :
    Inv (s.enter p .waiting) (Function.update due p false) := by
  refine h.enter (fun q hq => Function.update_of_ne hq ..) (fun _ => ?_) nofun
  rw [Function.update_self, hf]

theorem leave_inv (h : Inv s due) {p : P} (hp : s.stage p = .waiting) (hf : s.rtc.flag = true) :
    Inv (s.enter p .leaving) due := by
  refine h.enter (fun _ _ => rfl) nofun fun _ => ?_
  rw [h.waiting p hp, hf]

theorem clear_inv (h : Inv s due) {p : P}
    (halone : s.rtc.flag = true → ∀ q, q ≠ p → s.stage q ≠ .waiting) :
    Inv { s.enter p .idle with rtc := { s.rtc with flag := false } } due := by
  have hidle : Inv (s.enter p .idle) due := h.enter (fun _ _ => rfl) nofun nofun
  refine ⟨fun q hq => ?_, hidle.leaving⟩
  have hq : (s.enter p .idle).stage q = .waiting := hq
  have hqp : q ≠ p := by
    rintro rfl
    rw [enter_stage_self] at hq
    cases hq
  rw [hidle.waiting q hq]
  -- if the flag was set, nobody else was waiting
  by_contra hf
  have hset : s.rtc.flag = true := eq_true_of_ne_false hf
  exact halone hset q hqp ((enter_stage_of_ne s hqp _).symm.trans hq)

theorem step_cases {op : ReaderOp P} (hs : s.step op = some s') :
    op = .interrupt ∧ s' = { s with rtc := s.rtc.rtcIntHandler } ∨
      (∃ p, op = .begin p ∧ s.stage p = .idle ∧ s' = s.enter p .waiting) ∨
      (∃ p, op = .test p ∧ s.stage p = .waiting ∧
        s' = if s.rtc.flag then s.enter p .leaving else s) ∨
      ∃ p, op = .clear p ∧ s.stage p = .leaving ∧
        s' = { s.enter p .idle with rtc := { s.rtc with flag := false } } := by
  cases op with
  | interrupt => exact .inl ⟨rfl, (Option.some.inj hs).symm⟩
  | begin p =>
    obtain ⟨hp, hs⟩ := Option.ite_none_right_eq_some.mp hs
    exact .inr (.inl ⟨p, rfl, hp, (Option.some.inj hs).symm⟩)
  | test p =>
    obtain ⟨hp, hs⟩ := Option.ite_none_right_eq_some.mp hs
    exact .inr (.inr (.inl ⟨p, rfl, hp, (Option.some.inj hs).symm⟩))
  | clear p =>
    obtain ⟨hp, hs⟩ := Option.ite_none_right_eq_some.mp hs
    exact .inr (.inr (.inr ⟨p, rfl, hp, (Option.some.inj hs).symm⟩))

theorem step_inv {op : ReaderOp P} (h : Inv s due) (hok : Orderly (s, due) op)
    (hs : s.step op = some s') : Inv s' (noted due s op) ∧ Kept (s, due) op := by
  rcases step_cases hs with ⟨rfl, rfl⟩ | ⟨p, rfl, -, rfl⟩ | ⟨p, rfl, hp, rfl⟩ | ⟨p, rfl, hp, rfl⟩
  · exact ⟨⟨fun _ _ => rfl, fun _ _ => rfl⟩, trivial⟩
  · exact ⟨begin_inv h hok, trivial⟩
  · refine ⟨?_, fun hdue => (h.waiting p hp).symm.trans hdue⟩
    by_cases hf : s.rtc.flag = true
    · rw [if_pos hf]
      exact leave_inv h hp hf
    · rw [if_neg hf]
      exact h
  · exact ⟨clear_inv h hok, h.leaving p hp⟩

/-- A step that breaks the order can be followed by steps of calls only that break the
promise. -/
theorem disorder {op : ReaderOp P} (h : Inv s due) (hs : s.step op = some s')
    (hbad : ¬ Orderly (s, due) op) :
    ∃ rest y, run (recorded step noted) (s', noted due s op) rest = some y ∧
      ¬ Path (recorded step noted) Kept (s', noted due s op) rest y := by
  rcases step_cases hs with ⟨rfl, -⟩ | ⟨p, rfl, -, rfl⟩ | ⟨p, rfl, -, -⟩ | ⟨p, rfl, -, rfl⟩
  · exact absurd trivial hbad
  · -- the flag is still set from before the call
    have hf : s.rtc.flag = true := by simpa [Orderly] using hbad
    obtain ⟨y, hy⟩ : ∃ y, run (recorded step noted) (s.enter p .waiting, noted due s (.begin p))
        [.test p, .clear p] = some y := by
      simp [recorded, step, enter, hf]
    refine ⟨_, y, hy, fun hpath => ?_⟩
    cases hpath with
    | cons _ htest hpath =>
      have hdue := ((recorded_eq_some step noted).mp htest).2
      cases hpath with
      | cons hkept _ _ =>
        rw [Kept, ← hdue] at hkept
        simp [noted] at hkept
  · exact absurd trivial hbad
  · -- another process is waiting, and has seen the interrupt
    obtain ⟨hf, q, hqp, hq⟩ : s.rtc.flag = true ∧ ∃ q, q ≠ p ∧ s.stage q = .waiting := by
      simpa [Orderly] using hbad
    have hdue : due q = true := (h.waiting q hq).trans hf
    obtain ⟨y, hy⟩ : ∃ y, run (recorded step noted)
        ({ s.enter p .idle with rtc := { s.rtc with flag := false } }, noted due s (.clear p))
        [.test q] = some y := by
      simp [recorded, step, enter, hqp, hq]
    refine ⟨_, y, hy, fun hpath => ?_⟩
    cases hpath with
    | cons hkept _ _ => exact absurd (hkept hdue) (by simp)

/-- **Waiting for the next interrupt.** In every run in which calls begin while the flag is
clear and no call clears it while another waits, each call returns only after an interrupt
that came since it began, and waits no longer than that. From any state of such a run, a
step of another kind can be followed by steps of calls that break this. -/
theorem rtc_read_kept (r : Rtc) {ops : List (ReaderOp P)} {x : Readers P × (P → Bool)}
    (h : Path (recorded step noted) Orderly (start r, fun _ => false) ops x) :
    Path (recorded step noted) Kept (start r, fun _ => false) ops x ∧
      ∀ op y, recorded step noted x op = some y → ¬ Orderly x op →
        ∃ rest z, run (recorded step noted) y rest = some z ∧
          ¬ Path (recorded step noted) Kept y rest z := by
  have hstep : ∀ (x : Readers P × (P → Bool)) op y, Inv x.1 x.2 → Orderly x op →
      recorded step noted x op = some y → Inv y.1 y.2 ∧ Kept x op := by
    intro x op y hx hok hy
    obtain ⟨hs, hdue⟩ := (recorded_eq_some step noted).mp hy
    rw [← hdue]
    exact step_inv hx hok hs
  have hstart : Inv (start r) fun _ : P => false := start_inv r _
  refine ⟨h.imp (fun x => Inv x.1 x.2) hstep hstart, fun op y hy hbad => ?_⟩
  have hx := h.invariant (fun x => Inv x.1 x.2)
    (fun x op y hx hok hy => (hstep x op y hx hok hy).1) hstart
  obtain ⟨hs, hdue⟩ := (recorded_eq_some step noted).mp hy
  obtain ⟨rest, z, hrun, hbroken⟩ := disorder hx hs hbad
  rw [hdue] at hrun hbroken
  exact ⟨rest, z, hrun, hbroken⟩

instance (x : Readers Pid × (Pid → Bool)) (op : ReaderOp Pid) : Decidable (Orderly x op) :=
  match op with
  | .begin _ => inferInstanceAs (Decidable (x.1.rtc.flag = false))
  | .clear p => inferInstanceAs
    (Decidable (x.1.rtc.flag = true → ∀ q : Pid, q ≠ p → x.1.stage q ≠ .waiting))
  | .interrupt | .test _ => isTrue trivial

theorem rtc_read_kept_once : ∃ x : Readers Pid × (Pid → Bool),
    Path (recorded step noted) Kept (start Rtc.boot.rtcInit, fun _ => false)
      [.begin 0, .test 0, .interrupt, .test 0, .clear 0] x ∧ x.1.stage 0 = .idle := by
  obtain ⟨x, hx, hidle⟩ := exists_of_map_decide
    (fun x : Readers Pid × (Pid → Bool) => x.1.stage 0 = .idle)
    (x := guardedRun (recorded step noted) Orderly (start Rtc.boot.rtcInit, fun _ => false)
      [.begin 0, .test 0, .interrupt, .test 0, .clear 0]) (by decide)
  exact ⟨x, (rtc_read_kept _ (path_of_guardedRun hx)).1, hidle⟩

/-- A call that begins after an interrupt is about to return without another one. Of two
calls that wait for an interrupt, the first to return leaves the second one waiting. -/
theorem rtc_read_broken :
    (∃ x : Readers Pid × (Pid → Bool),
      run (recorded step noted) (start Rtc.boot.rtcInit, fun _ => false)
        [.interrupt, .begin 0, .test 0] = some x ∧
      x.1.stage 0 = .leaving ∧ x.2 0 = false ∧ ¬ Kept x (.clear 0)) ∧
    ∃ x : Readers Pid × (Pid → Bool),
      run (recorded step noted) (start Rtc.boot.rtcInit, fun _ => false)
        [.begin 0, .begin 1, .interrupt, .test 0, .clear 0] = some x ∧
      x.1.stage 1 = .waiting ∧ x.2 1 = true ∧ x.1.rtc.flag = false ∧ ¬ Kept x (.test 1) := by
  constructor
  · obtain ⟨x, hx, hstage, hdue⟩ := exists_of_map_decide
      (fun x : Readers Pid × (Pid → Bool) => x.1.stage 0 = .leaving ∧ x.2 0 = false)
      (x := run (recorded step noted) (start Rtc.boot.rtcInit, fun _ => false)
        [.interrupt, .begin 0, .test 0]) (by decide)
    exact ⟨x, hx, hstage, hdue, fun h => by cases hdue.symm.trans h⟩
  · obtain ⟨x, hx, hstage, hdue, hflag⟩ := exists_of_map_decide
      (fun x : Readers Pid × (Pid → Bool) =>
        x.1.stage 1 = .waiting ∧ x.2 1 = true ∧ x.1.rtc.flag = false)
      (x := run (recorded step noted) (start Rtc.boot.rtcInit, fun _ => false)
        [.begin 0, .begin 1, .interrupt, .test 0, .clear 0]) (by decide)
    exact ⟨x, hx, hstage, hdue, hflag, fun h => by cases hflag.symm.trans (h hdue)⟩

end Readers

end OS391
