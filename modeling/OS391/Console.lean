import OS391.Library.Runs
import OS391.Library.Bytes

/-! The text screens of `lib.c`: one VGA page that shows the displayed terminal,
a backing page for each terminal, and a cursor for each terminal. -/

namespace OS391
open Library.Runs Library.Bytes

/-- Terminal numbers, `0 .. TERMINAL_NUM - 1`. -/
abbrev Terminal := Fin 3

instance terminalNumNeZero : NeZero 3 := ⟨by decide⟩

@[simp] abbrev numCols : Int := 80
@[simp] abbrev numRows : Int := 25
abbrev attrib : UInt8 := 0x7
@[simp] abbrev kb4 : Nat := 0x1000
/-- `paging_init` marks the five pages from `VIDEO` present and no page before them. -/
@[simp] abbrev videoBytes : Nat := 5 * kb4

abbrev newline : UInt8 := 10
abbrev carriageReturn : UInt8 := 13
abbrev space : UInt8 := 32

structure Console where
  /-- The bytes from `video_mem` on. -/
  videoMem : Nat → UInt8
  screenX : Terminal → Int
  screenY : Terminal → Int
  displayTerminal : Terminal
  activeTerminal : Terminal
  /-- Cursor position last sent to the CRT controller. -/
  crtc : Nat

namespace Console

/-- The screens in zeroed memory. -/
def boot : Console := ⟨fun _ => 0, fun _ => 0, fun _ => 0, 0, 0, 0⟩

/-- Offset of the backing page `terminal_mem[t]` from `video_mem`. -/
def terminalMem (t : Terminal) : Nat := (t.val + 1) * kb4

/-- A byte store at `video_mem + off`; a store outside the mapped pages faults. -/
def store (s : Console) (off : Int) (b : UInt8) : Option Console :=
  if 0 ≤ off ∧ off < videoBytes then
    some { s with videoMem := Function.update s.videoMem off.toNat b }
  else none

def setCursor (s : Console) (t : Terminal) (x y : Int) : Console :=
  { s with screenX := Function.update s.screenX t x, screenY := Function.update s.screenY t y }

def updateCursor (s : Console) (x y : Int) : Console :=
  { s with crtc := ((y * numCols + x) % 65536).toNat }

/-- `set_active_terminal`; its page-table write is `Kernel.setActiveTerminal`. -/
def setActiveTerminal (s : Console) (t : Terminal) : Console := { s with activeTerminal := t }

def setDisiplayTerminal (s : Console) (t : Terminal) : Console :=
  let m := blit s.videoMem (terminalMem s.displayTerminal) s.videoMem kb4
  let m := blit m 0 (fun i => m (terminalMem t + i)) kb4
  let s := { s with videoMem := m, displayTerminal := t }
  (s.setActiveTerminal s.activeTerminal).updateCursor (s.screenX t) (s.screenY t)

/-! ## Scrolling -/

def shiftCell (base y : Nat) (m : Nat → UInt8) (x : Nat) : Nat → UInt8 :=
  let m := Function.update m (base + 2 * (80 * y + x)) (m (base + 2 * (80 * (y + 1) + x)))
  Function.update m (base + 2 * (80 * y + x) + 1) attrib

def blankCell (base y : Nat) (m : Nat → UInt8) (x : Nat) : Nat → UInt8 :=
  let m := Function.update m (base + 2 * (80 * y + x)) space
  Function.update m (base + 2 * (80 * y + x) + 1) attrib

/-- The loops that `shift_up` and `shift_up_display` run on a page. -/
def shiftPage (base : Nat) (m : Nat → UInt8) : Nat → UInt8 :=
  let m := (List.range 24).foldl (fun m y => (List.range 80).foldl (shiftCell base y) m) m
  (List.range 80).foldl (blankCell base 24) m

def shiftUpDisplay (s : Console) : Console :=
  { s with videoMem := shiftPage 0 s.videoMem }.setCursor s.displayTerminal 0 (numRows - 1)

def shiftUp (s : Console) : Console :=
  { s with videoMem := shiftPage (terminalMem s.activeTerminal) s.videoMem }.setCursor
    s.activeTerminal 0 (numRows - 1)

/-- `while (screen_y_array[t] >= NUM_ROWS) shift();` A shift leaves the cursor on
the last row, so two tests of the condition are always enough. -/
def scroll (s : Console) (t : Terminal) (shift : Console → Console) : Option Console :=
  whileLoop (fun s => decide (s.screenY t ≥ numRows)) shift 2 s

/-! ## Characters -/

/-- Character and attribute stored at the cursor of `t`, on the page at `base`. -/
def draw (s : Console) (base : Nat) (t : Terminal) (c : UInt8) : Option Console :=
  let off : Int := base + 2 * (numCols * s.screenY t + s.screenX t)
  (s.store off c).bind fun s => s.store (off + 1) attrib

def advance (s : Console) (t : Terminal) : Console :=
  let x := s.screenX t + 1
  s.setCursor t (x.tmod numCols) (s.screenY t + x.tdiv numCols)

/-- The text that `putc_scroll` and `putc_scroll_display` share: `t` is the
terminal whose cursor moves, `base` the page drawn on, `shift` the scroll routine. -/
def putcWith (s : Console) (t : Terminal) (base : Nat) (shift : Console → Console)
    (c : UInt8) : Option Console :=
  if c = newline ∨ c = carriageReturn then
    (s.setCursor t 0 (s.screenY t + 1)).scroll t shift
  else
    (s.scroll t shift).bind fun s => (s.draw base t c).map fun s => s.advance t

def putcScroll (s : Console) (c : UInt8) : Option Console :=
  let a := s.activeTerminal
  let base := if a = s.displayTerminal then 0 else terminalMem a
  let shift (s : Console) := if s.activeTerminal = s.displayTerminal then s.shiftUpDisplay
    else s.shiftUp
  (s.putcWith a base shift c).map fun s =>
    if s.activeTerminal = s.displayTerminal then s.updateCursor (s.screenX a) (s.screenY a) else s

def putsScroll (s : Console) (bytes : List UInt8) : Option Console := bytes.foldlM putcScroll s

def putcScrollDisplay (s : Console) (c : UInt8) : Option Console :=
  let d := s.displayTerminal
  (s.putcWith d 0 shiftUpDisplay c).map fun s => s.updateCursor (s.screenX d) (s.screenY d)

def deleteC (s : Console) : Option Console :=
  let d := s.displayTerminal
  let s := if s.screenX d = 0 then s.setCursor d (numCols - 1) (s.screenY d - 1)
    else s.setCursor d (s.screenX d - 1) (s.screenY d)
  (s.draw 0 d space).map fun s => s.updateCursor (s.screenX d) (s.screenY d)

def clear (s : Console) : Console :=
  let s := s.setCursor s.displayTerminal 0 0
  let m := (List.range 25).foldl (fun m y => (List.range 80).foldl (blankCell 0 y) m) s.videoMem
  let s := { s with videoMem := m }
  s.updateCursor (s.screenX s.displayTerminal) (s.screenY s.displayTerminal)

end Console

end OS391
