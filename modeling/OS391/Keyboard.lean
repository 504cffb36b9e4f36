import OS391.Console

/-! `keyboard.c` and `scan_code.c`: scan codes, the line editor of the displayed
terminal, and the terminal's read and write routines. The launch of a shell by
Alt+F2 and Alt+F3 is in `Process`. -/

namespace OS391
open Library.Runs Library.Bytes

/-! ## Scan codes -/

abbrev enter : UInt8 := 0x1C
abbrev backspace : UInt8 := 0x0E
abbrev capslock : UInt8 := 58
abbrev leftshift : Nat := 42
abbrev rightshift : Nat := 54
abbrev leftctrl : Nat := 0x1D
abbrev leftalt : Nat := 56
abbrev keyL : UInt8 := 38
abbrev f1 : UInt8 := 59
abbrev f2 : UInt8 := 60
abbrev f3 : UInt8 := 61

/-- What `init_scan_code` stores in `scan_code`. -/
def scanCodeTable : List (Nat × Char) :=
  [(0x10, 'q'), (0x11, 'w'), (0x12, 'e'), (0x13, 'r'), (0x14, 't'), (0x15, 'y'), (0x16, 'u'),
   (0x17, 'i'), (24, 'o'), (25, 'p'), (30, 'a'), (31, 's'), (32, 'd'), (33, 'f'), (34, 'g'),
   (35, 'h'), (36, 'j'), (37, 'k'), (38, 'l'), (44, 'z'), (45, 'x'), (46, 'c'), (47, 'v'),
   (48, 'b'), (49, 'n'), (50, 'm'),
   (0x29, '`'), (0x02, '1'), (0x03, '2'), (0x04, '3'), (0x05, '4'), (0x06, '5'), (0x07, '6'),
   (0x08, '7'), (0x09, '8'), (0x0A, '9'), (0x0B, '0'),
   (82, '0'), (79, '1'), (80, '2'), (81, '3'), (75, '4'), (76, '5'), (77, '6'), (71, '7'),
   (72, '8'), (73, '9'), (96, '\n'), (78, '+'), (74, '-'), (0x37, '*'),
   (12, '-'), (13, '='), (26, '['), (27, ']'), (0x2B, '\\'), (0x27, ';'), (0x28, '\''),
   (51, ','), (52, '.'), (0x35, '/'), (15, '\t'), (0x1C, '\n'), (57, ' ')]

/-- What `init_scan_code` stores in `shift_convert`. -/
def shiftConvertTable : List (Nat × Char) :=
  [(0x10, 'Q'), (0x11, 'W'), (0x12, 'E'), (0x13, 'R'), (0x14, 'T'), (0x15, 'Y'), (0x16, 'U'),
   (0x17, 'I'), (24, 'O'), (25, 'P'), (30, 'A'), (31, 'S'), (32, 'D'), (33, 'F'), (34, 'G'),
   (35, 'H'), (36, 'J'), (37, 'K'), (38, 'L'), (44, 'Z'), (45, 'X'), (46, 'C'), (47, 'V'),
   (48, 'B'), (49, 'N'), (50, 'M'),
   (0x29, '~'), (0x02, '!'), (0x03, '@'), (0x04, '#'), (0x05, '$'), (0x06, '%'), (0x07, '^'),
   (0x08, '&'), (0x09, '*'), (0x0A, '('), (0x0B, ')'),
   (12, '_'), (13, '+'), (26, '\x7b'), (27, '\x7d'), (0x2B, '|'), (0x27, ':'), (0x28, '"'),
   (51, '<'), (52, '>'), (0x35, '?')]

def tableByte (table : List (Nat × Char)) (i : Nat) : UInt8 :=
  match table.lookup i with
  | some c => c.toNat.toUInt8
  | none => 0

def scanCode (i : Nat) : UInt8 := tableByte scanCodeTable i

/-! ## State -/

/-- `sizeof(print_buffer[0])`. -/
abbrev printLim : Nat := 1025 * 2
/-- `sizeof(keyboard_buffer[0])`. -/
abbrev keyLim : Nat := 129

structure Keyboard where
  pressedKey : Nat → Bool
  keyboardBuffer : Terminal → Nat → UInt8
  /-- The rows of `print_buffer` one after another, and the memory that follows them. -/
  printBuffer : Nat → UInt8
  capStatus : Bool
  cursorInd : Terminal → Nat
  terminalReadReady : Terminal → Bool
  terminal2Running : Bool
  terminal3Running : Bool
  /-- The bytes the linker placed after the 80 entries of `shift_convert`. -/
  pastShiftConvert : Nat → UInt8

/-- The screens with the line editor in front of them. -/
structure Tty where
  con : Console
  kbd : Keyboard

namespace Keyboard

def shiftConvert (k : Keyboard) (i : Nat) : UInt8 :=
  if i < 80 then tableByte shiftConvertTable i else k.pastShiftConvert (i - 80)

def charMatch (k : Keyboard) (c : UInt8) : UInt8 :=
  let shift := k.pressedKey leftshift || k.pressedKey rightshift
  let res := scanCode c.toNat
  if res = 0 then 0
  else if k.capStatus ∧ 97 ≤ res ∧ res ≤ 122 then
    if shift then (if c = enter then newline else scanCode c.toNat)
    else k.shiftConvert c.toNat
  else if shift then (if c = enter then newline else k.shiftConvert c.toNat)
  else res

/-- The line editor in zeroed memory. -/
def boot : Keyboard :=
  ⟨fun _ => false, fun _ _ => 0, fun _ => 0, false, fun _ => 0, fun _ => false, false, false,
    fun _ => 0⟩

def initKeyboard (k : Keyboard) : Keyboard :=
  { k with
    pressedKey := fun _ => false
    keyboardBuffer := fun _ _ => 0
    cursorInd := fun _ => 0
    terminalReadReady := fun _ => false
    capStatus := false }

/-- `print_buffer[t]`. -/
def row (t : Terminal) : Nat := printLim * t.val

def clearKeyboardBuffer (k : Keyboard) (t : Terminal) : Keyboard :=
  { k with
    keyboardBuffer := Function.update k.keyboardBuffer t (fill (k.keyboardBuffer t) 0 keyLim 0)
    cursorInd := Function.update k.cursorInd t 0 }

/-- ENTER: the typed line becomes the line that `terminal_read` delivers. -/
def commitLine (k : Keyboard) (t : Terminal) : Keyboard :=
  let p := fill k.printBuffer (row t) printLim 0
  let p := blit p (row t) (k.keyboardBuffer t) keyLim
  { k.clearKeyboardBuffer t with
    printBuffer := p
    terminalReadReady := Function.update k.terminalReadReady t true }

end Keyboard

namespace Tty

/-- Ctrl-L: a cleared screen with a new prompt. -/
def clearKey (s : Tty) (t : Terminal) : Option Tty :=
  (("391OS> ".toList.map fun c => c.toNat.toUInt8).foldlM Console.putcScrollDisplay
    s.con.clear).map fun con => ⟨con, s.kbd.clearKeyboardBuffer t⟩

/-- Alt with F1, F2 or F3 shows a terminal. -/
def displayKey (s : Tty) (input : UInt8) : Tty :=
  if input = f1 then { s with con := s.con.setDisiplayTerminal 0 }
  else if input = f2 then { s with con := s.con.setDisiplayTerminal 1 }
  else if input = f3 then { s with con := s.con.setDisiplayTerminal 2 }
  else s

def echo (s : Tty) (input : UInt8) : Option Tty :=
  (s.con.putcScrollDisplay (s.kbd.charMatch input)).map fun con => { s with con := con }

/-- A key with a character; a full line takes nothing but ENTER, and does not store that. -/
def charKey (s : Tty) (t : Terminal) (input : UInt8) : Option Tty :=
  let i := s.kbd.cursorInd t
  if i ≥ 128 then
    if input = enter then s.echo input else some s
  else
    let line := Function.update (s.kbd.keyboardBuffer t) i (s.kbd.charMatch input)
    let s := { s with kbd := { s.kbd with
      keyboardBuffer := Function.update s.kbd.keyboardBuffer t line
      cursorInd := Function.update s.kbd.cursorInd t (i + 1) } }
    s.echo input

def press (s : Tty) (input : UInt8) : Tty :=
  { s with kbd := { s.kbd with
    pressedKey := Function.update s.kbd.pressedKey input.toNat true
    capStatus := if input = capslock then !s.kbd.capStatus else s.kbd.capStatus } }

def pressKey (s : Tty) (t : Terminal) (input : UInt8) : Option Tty :=
  let s := s.press input
  if input = keyL ∧ s.kbd.pressedKey leftctrl then s.clearKey t
  else if s.kbd.pressedKey leftalt then some (s.displayKey input)
  else if scanCode input.toNat ≠ 0 then s.charKey t input
  else some s

def releaseKey (s : Tty) (input : UInt8) : Tty :=
  { s with kbd := { s.kbd with
    pressedKey := Function.update s.kbd.pressedKey (input.toNat - 128) false } }

def backspaceKey (s : Tty) (t : Terminal) : Option Tty :=
  let i := s.kbd.cursorInd t
  if i ≠ 0 then
    let line := Function.update (s.kbd.keyboardBuffer t) (i - 1) 0
    let k := { s.kbd with
      keyboardBuffer := Function.update s.kbd.keyboardBuffer t line
      cursorInd := Function.update s.kbd.cursorInd t (i - 1) }
    s.con.deleteC.map fun con => ⟨con, k⟩
  else some s

/-- A scan code, up to the two tests at the end of the loop of `keyboard_handler`. -/
def typeKey (s : Tty) (t : Terminal) (input : UInt8) : Option Tty :=
  if input > 127 then some (s.releaseKey input) else s.pressKey t input

/-- One turn of the loop of `keyboard_handler`, for the byte `input` of the data port. -/
def keyboardByte (s : Tty) (input : UInt8) : Option Tty :=
  let t := s.con.displayTerminal
  (s.typeKey t input).bind fun s =>
    let s := if input = enter then { s with kbd := s.kbd.commitLine t } else s
    if input = backspace then s.backspaceKey t else some s

/-! ## Terminal read and write -/

/-- `lim` in `terminal_write`: at most a row of `print_buffer`. -/
def writeLim (count : Int) : Nat := if count < printLim then count.toNat else printLim

/-- `terminal_write`. A negative count asks `memcpy` for gigabytes and faults, as
does a buffer that is not mapped as far as it is read. -/
def terminalWrite (s : Tty) (buf : List UInt8) (count : Int) : Option (Int × Tty) :=
  let idx := Keyboard.row s.con.activeTerminal
  let lim := writeLim count
  if count < 0 ∨ buf.length < lim then none
  else
    let p := blit s.kbd.printBuffer idx (fun i => buf.getD i 0) lim
    let p := Function.update p (idx + lim) 0
    (s.con.putsScroll (window p idx lim)).map fun con =>
      (count, { con := con, kbd := { s.kbd with printBuffer := p } })

/-- What a read routine did through its buffer pointer `buf`. -/
structure ReadOut where
  ret : Int
  /-- The bytes stored at `buf[0]`, `buf[1]` and so on. -/
  out : List UInt8
  /-- How many leading bytes of the buffer were then read back. -/
  looked : Nat

/-- The `memcpy` of `terminal_read`, on the memory `mem` mapped from `buf` on. -/
def readCopy (s : Tty) (t : Terminal) (mem : List UInt8) (count : Nat) : Option (List UInt8) :=
  if mem.length < count then none
  else some (window s.kbd.printBuffer (Keyboard.row t) count ++ mem.drop count)

def readDone (s : Tty) (t : Terminal) : Tty :=
  { s with kbd := { s.kbd with
    terminalReadReady := Function.update s.kbd.terminalReadReady t false } }

/-- `terminal_read`, from the end of its waiting loop on (`none`: still waiting, or a
fault). The result is measured on the caller's buffer. -/
def terminalRead (s : Tty) (mem : List UInt8) (count : Nat) : Option (ReadOut × Tty) :=
  let idx := s.con.activeTerminal
  if s.kbd.terminalReadReady idx then
    (s.readCopy idx mem count).bind fun buf => (strlen buf).map fun (n : Nat) =>
      (⟨(n : Int), buf.take count, n + 1⟩, s.readDone idx)
  else none

end Tty

end OS391
