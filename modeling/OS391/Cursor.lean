import Mathlib.Tactic.IntervalCases
import OS391.Effects
import OS391.Screen

/-! The hardware cursor: the CRT controller behind `update_cursor`, and the terminal that is
displayed. -/

namespace OS391
open Library Library.Runs Library.Bytes

/-- The CRT controller: an index, and the registers behind it. -/
structure Crt where
  index : BitVec 8
  regs : BitVec 8 → BitVec 8

namespace Crt

def outb (c : Crt) (value : BitVec 8) (port : Nat) : Crt :=
  if port = 0x3D4 then { c with index := value }
  else if port = 0x3D5 then { c with regs := Function.update c.regs c.index value }
  else c

/-- `update_cursor`. -/
def updateCursor (c : Crt) (x y : Int) : Crt :=
  let pos : BitVec 16 := BitVec.ofInt 16 (y * numCols + x)
  let c := c.outb 0x0F 0x3D4
  let c := c.outb ((pos &&& 0xFF).setWidth 8) 0x3D5
  let c := c.outb 0x0E 0x3D4
  c.outb (((pos >>> 8) &&& 0xFF).setWidth 8) 0x3D5

/-- Where the controller shows the cursor. -/
def cursor (c : Crt) : BitVec 16 := c.regs 0x0E ++ c.regs 0x0F

theorem high_low (pos : BitVec 16) :
    ((pos >>> 8) &&& 0xFF).setWidth 8 ++ (pos &&& 0xFF).setWidth 8 = pos := by
  apply BitVec.eq_of_getLsbD_eq
  intro i hi
  rw [BitVec.getLsbD_append]
  interval_cases i <;> simp

theorem updateCursor_cursor (c : Crt) (x y : Int) :
    (c.updateCursor x y).cursor = BitVec.ofInt 16 (y * numCols + x) := by
  generalize hpos : BitVec.ofInt 16 (y * numCols + x) = pos
  have hregs : (c.updateCursor x y).regs =
      Function.update (Function.update c.regs 0x0F ((pos &&& 0xFF).setWidth 8)) 0x0E
        (((pos >>> 8) &&& 0xFF).setWidth 8) := by
    rw [← hpos]
    rfl
  have hne : (0x0F : BitVec 8) ≠ 0x0E := by decide
  rw [cursor, hregs, Function.update_self, Function.update_of_ne hne, Function.update_self,
    high_low]

end Crt

namespace Console

/-- The position of the cursor of the displayed terminal. -/
def place (s : Console) : Int :=
  s.screenY s.displayTerminal * numCols + s.screenX s.displayTerminal

/-- The operations that call `update_cursor`. -/
def callsUpdate (s : Console) : ConsoleOp → Prop
  | .putcScroll _ => s.activeTerminal = s.displayTerminal
  | .setActiveTerminal _ => False
  | .putcScrollDisplay _ | .deleteC | .clear | .setDisiplayTerminal _ => True

instance (s : Console) (op : ConsoleOp) : Decidable (s.callsUpdate op) :=
  match op with
  | .putcScroll _ => inferInstanceAs (Decidable (s.activeTerminal = s.displayTerminal))
  | .setActiveTerminal _ => isFalse id
  | .putcScrollDisplay _ | .deleteC | .clear | .setDisiplayTerminal _ => isTrue trivial

/-- A step of the console, with the controller that `update_cursor` drives. -/
def crtStep (x : Console × Crt) (op : ConsoleOp) : Option (Console × Crt) :=
  (x.1.step op).map fun s =>
    (s, if x.1.callsUpdate op then
      x.2.updateCursor (s.screenX s.displayTerminal) (s.screenY s.displayTerminal) else x.2)

/-! ## Output to a terminal that is not displayed -/

/-- A change beside the cursor of the displayed terminal. -/
structure Beside (s s' : Console) : Prop where
  terminals : SameTerminals s s'
  crtc : s'.crtc = s.crtc
  x : s'.screenX s.displayTerminal = s.screenX s.displayTerminal
  y : s'.screenY s.displayTerminal = s.screenY s.displayTerminal

theorem Beside.trans {s s' s'' : Console} (h : Beside s s') (h' : Beside s' s'') :
    Beside s s'' := by
  have hx := h'.x
  have hy := h'.y
  rw [h.terminals.1] at hx hy
  exact ⟨h.terminals.trans h'.terminals, h'.crtc.trans h.crtc, hx.trans h.x, hy.trans h.y⟩

theorem Beside.place {s s' : Console} (h : Beside s s') : s'.place = s.place := by
  rw [Console.place, Console.place, h.terminals.1, h.x, h.y]

theorem setCursor_beside {s : Console} {t : Terminal} (h : t ≠ s.displayTerminal) (x y : Int) :
    Beside s (s.setCursor t x y) :=
  ⟨⟨rfl, rfl⟩, rfl, Function.update_of_ne (Ne.symm h) .., Function.update_of_ne (Ne.symm h) ..⟩

theorem draw_beside {s s' : Console} {base : Nat} {t : Terminal} {c : UInt8}
    (h : s.draw base t c = some s') : Beside s s' := by
  obtain ⟨s₁, h₁, h₂⟩ := Option.bind_eq_some_iff.mp h
  unfold store at h₁ h₂
  split_ifs at h₁ h₂
  cases h₁
  cases h₂
  exact ⟨⟨rfl, rfl⟩, rfl, rfl, rfl⟩

/-- The shift of `putc_scroll`. -/
def shiftActive (s : Console) : Console :=
  if s.activeTerminal = s.displayTerminal then s.shiftUpDisplay else s.shiftUp

theorem shiftActive_terminals (s : Console) : SameTerminals s s.shiftActive := by
  unfold shiftActive
  split <;> exact ⟨rfl, rfl⟩

theorem shiftActive_beside {s : Console} (h : s.activeTerminal ≠ s.displayTerminal) :
    Beside s s.shiftActive := by
  rw [shiftActive, if_neg h]
  exact ⟨⟨rfl, rfl⟩, rfl, Function.update_of_ne (Ne.symm h) ..,
    Function.update_of_ne (Ne.symm h) ..⟩

theorem scroll_beside {s s' : Console} (h : s.activeTerminal ≠ s.displayTerminal) {t : Terminal}
    (hs : s.scroll t shiftActive = some s') : Beside s s' := by
  refine (whileLoop_invariant (Beside s) (fun a ha => ha.trans (shiftActive_beside ?_)) hs
    ⟨⟨rfl, rfl⟩, rfl, rfl, rfl⟩).1
  rw [ha.terminals.2, ha.terminals.1]
  exact h

theorem putcWith_beside {s s' : Console} (h : s.activeTerminal ≠ s.displayTerminal) {base : Nat}
    {c : UInt8} (hs : s.putcWith s.activeTerminal base shiftActive c = some s') : Beside s s' := by
  unfold putcWith at hs
  split at hs
  · exact (setCursor_beside h _ _).trans (scroll_beside h hs)
  · obtain ⟨s₁, h₁, hs⟩ := Option.bind_eq_some_iff.mp hs
    obtain ⟨s₂, h₂, rfl⟩ := Option.map_eq_some_iff.mp hs
    have hscroll := scroll_beside h h₁
    have hdraw := hscroll.trans (draw_beside h₂)
    refine hdraw.trans (setCursor_beside ?_ _ _)
    rw [hdraw.terminals.1]
    exact h

/-! ## Steps and runs -/

/-- The controller shows the cursor of the displayed terminal. -/
structure CursorShown (s : Console) (c : Crt) : Prop where
  cursor : c.cursor = BitVec.ofInt 16 s.place
  crtc : c.cursor.toNat = s.crtc

theorem updateCursor_shown {s : Console} {c : Crt} :
    CursorShown
      (s.updateCursor (s.screenX s.displayTerminal) (s.screenY s.displayTerminal))
      (c.updateCursor (s.screenX s.displayTerminal) (s.screenY s.displayTerminal)) := by
  refine ⟨Crt.updateCursor_cursor .., ?_⟩
  rw [Crt.updateCursor_cursor, BitVec.toNat_ofInt]
  rfl

theorem step_shown {s s' : Console} {c : Crt} {op : ConsoleOp} (h : CursorShown s c)
    (hs : s.step op = some s') :
    CursorShown s' (if s.callsUpdate op then
      c.updateCursor (s'.screenX s'.displayTerminal) (s'.screenY s'.displayTerminal) else c) := by
  cases op with
  | putcScroll b =>
    obtain ⟨s₁, h₁, rfl⟩ := Option.map_eq_some_iff.mp hs
    by_cases hactive : s.activeTerminal = s.displayTerminal
    · have hsame := putcWith_terminals shiftActive_terminals h₁
      have hactive₁ : s₁.activeTerminal = s₁.displayTerminal := by
        rw [hsame.1, hsame.2]
        exact hactive
      rw [if_pos hactive₁, if_pos (show s.callsUpdate (.putcScroll b) from hactive), hactive,
        ← hsame.1]
      exact updateCursor_shown
    · have hbeside := putcWith_beside hactive h₁
      have hactive₁ : s₁.activeTerminal ≠ s₁.displayTerminal := by
        rw [hbeside.terminals.1, hbeside.terminals.2]
        exact hactive
      rw [if_neg hactive₁, if_neg (show ¬ s.callsUpdate (.putcScroll b) from hactive)]
      exact ⟨by rw [hbeside.place]; exact h.cursor, by rw [hbeside.crtc]; exact h.crtc⟩
  | putcScrollDisplay b =>
    obtain ⟨s₁, h₁, rfl⟩ := Option.map_eq_some_iff.mp hs
    have hshift : ∀ a, SameTerminals a (shiftUpDisplay a) := fun _ => ⟨rfl, rfl⟩
    have hsame := putcWith_terminals hshift h₁
    rw [← hsame.1]
    exact updateCursor_shown
  | deleteC =>
    have hsame := deleteC_terminals hs
    obtain ⟨s₁, h₁, rfl⟩ := Option.map_eq_some_iff.mp hs
    rw [← show s₁.displayTerminal = s.displayTerminal from hsame.1]
    exact updateCursor_shown
  | clear =>
    cases hs
    exact updateCursor_shown
  | setActiveTerminal t =>
    cases hs
    exact ⟨h.cursor, h.crtc⟩
  | setDisiplayTerminal t =>
    cases hs
    exact updateCursor_shown

/-- Every step of the console is one with the controller. -/
theorem crtStep_shown {s s' : Console} {c : Crt} {op : ConsoleOp} (h : CursorShown s c)
    (hs : s.step op = some s') : ∃ c', crtStep (s, c) op = some (s', c') ∧ CursorShown s' c' :=
  ⟨_, by rw [crtStep, hs]; rfl, step_shown h hs⟩

theorem run_shown {s s' : Console} {c : Crt} {ops : List ConsoleOp} (h : CursorShown s c)
    (hrun : run step s ops = some s') :
    ∃ c', run crtStep (s, c) ops = some (s', c') ∧ CursorShown s' c' := by
  induction ops generalizing s c with
  | nil =>
    cases hrun
    exact ⟨c, rfl, h⟩
  | cons op ops ih =>
    obtain ⟨s₁, hs₁, hrun⟩ := Option.bind_eq_some_iff.mp hrun
    obtain ⟨c₁, hc₁, h₁⟩ := crtStep_shown h hs₁
    obtain ⟨c', hc', h'⟩ := ih h₁ hrun
    refine ⟨c', ?_, h'⟩
    rw [run_cons, hc₁, Option.bind_some, hc']

/-- **Cursor.** Whatever the controller holds before the screen is cleared, after every run from
there it shows the cursor of the terminal that is displayed, whatever was written to the others. -/
theorem cursor_shown {s s' : Console} (c : Crt) {ops : List ConsoleOp}
    (hrun : run step s (.clear :: ops) = some s') :
    ∃ c', run crtStep (s, c) (.clear :: ops) = some (s', c') ∧
      c'.cursor = BitVec.ofInt 16 s'.place ∧ c'.cursor.toNat = s'.crtc := by
  obtain ⟨s₁, hs₁, hrun⟩ := Option.bind_eq_some_iff.mp hrun
  cases hs₁
  have hclear : CursorShown s.clear
      (c.updateCursor (s.clear.screenX s.displayTerminal) (s.clear.screenY s.displayTerminal)) :=
    updateCursor_shown
  obtain ⟨c', hc', h⟩ := run_shown hclear hrun
  exact ⟨c', hc', h.cursor, h.crtc⟩

/-- Terminal 1 is written to while terminal 0 is displayed, then displayed itself. -/
theorem cursor_shown_switch : ∃ s' c',
    run crtStep (boot, ⟨0, fun _ => 0xFF⟩)
      [.clear, .putcScroll 65, .setActiveTerminal 1, .putcScroll 66, .putcScroll newline,
        .setDisiplayTerminal 1] = some (s', c') ∧
      c'.cursor = BitVec.ofInt 16 s'.place ∧ c'.cursor.toNat = s'.crtc := by
  obtain ⟨s', hs'⟩ := Option.isSome_iff_exists.mp (show (run step boot
    [.clear, .putcScroll 65, .setActiveTerminal 1, .putcScroll 66, .putcScroll newline,
      .setDisiplayTerminal 1]).isSome = true by decide +kernel)
  exact ⟨s', cursor_shown ⟨0, fun _ => 0xFF⟩ hs'⟩

end Console

end OS391
