import OS391.Keyboard
import OS391.FileSystem
import OS391.Rtc
import OS391.Paging
import OS391.Library.Prog

/-! The state of the kernel: process control blocks, the process and terminal
tables, and the state of the devices. -/

namespace OS391
open Library Library.Runs Library.Bytes

abbrev procNum : Nat := 6
/-- Process numbers, `0 .. PROC_NUM - 1`. -/
abbrev Pid := Fin procNum

instance procNumNeZero : NeZero procNum := ⟨by decide⟩

abbrev fdescSize : Nat := 8
abbrev minFiles : Nat := 2
abbrev cmdLimit : Nat := 129

/-! ## Process control blocks -/

/-- The routines a `read` pointer can hold, and the null pointer of zeroed memory. -/
inductive ReadOp where
  | null | terminalRead | terminalWrong | rtcRead | readDir | readF
  deriving DecidableEq

inductive WriteOp where
  | null | terminalWrite | terminalWrong | rtcWrite | writeDir | writeF
  deriving DecidableEq

/-- `file_desc_t`, less the `open` and `close` pointers, which nothing calls. Words
are kept as unsigned numbers. -/
structure FileDesc where
  read : ReadOp
  write : WriteOp
  inode : Nat
  filePos : Nat
  flag : Nat
  deriving DecidableEq

structure Pcb where
  pid : Pid
  pPid : Pid
  parentEsp : Int
  parentEbp : Int
  currentEsp : Int
  currentEbp : Int
  terminal : Terminal
  fileArray : Nat → FileDesc
  /-- From index 8 on, the words that follow the control block. -/
  bitmap : Nat → Nat

/-- `GET_ESP`. -/
def getEsp (x : Pid) : Int := 0x800000 - 0x1000 * x.val - 0x10

namespace Pcb

/-- A control block in zeroed memory. -/
def boot : Pcb := ⟨0, 0, 0, 0, 0, 0, 0, fun _ => ⟨.null, .null, 0, 0, 0⟩, fun _ => 0⟩

/-- `file_array[i].flag` for any `i`: a descriptor has seven words, and the words
after the last one are those of `bitmap`. -/
def flagAt (p : Pcb) (i : Nat) : Nat :=
  if i < fdescSize then (p.fileArray i).flag else p.bitmap (7 * (i - fdescSize) + 6)

def clearFlagAt (p : Pcb) (i : Nat) : Pcb :=
  if i < fdescSize then
    { p with fileArray := Function.update p.fileArray i { p.fileArray i with flag := 0 } }
  else { p with bitmap := Function.update p.bitmap (7 * (i - fdescSize) + 6) 0 }

/-- `close` admits `fd = FDESC_SIZE`. -/
def close (p : Pcb) (fd : Int) : Int × Pcb :=
  if fd > fdescSize ∨ fd < minFiles then (-1, p)
  else if p.flagAt fd.toNat = 0 then (-1, p)
  else
    let p := p.clearFlagAt fd.toNat
    (0, { p with bitmap := Function.update p.bitmap fd.toNat 0 })

/-- One round of the loop with which `halt` closes descriptors. -/
def closeRound (p : Pcb) (i : Nat) : Pcb :=
  (if (p.fileArray i).flag ≠ 0 then (p.close i).2 else p).clearFlagAt i

def closeAll (p : Pcb) : Pcb := (List.range fdescSize).foldl closeRound p

/-- The first part of `pcb_init`: everything but the parent. -/
def initFiles (p : Pcb) (pid : Pid) : Pcb :=
  { p with
    pid := pid
    fileArray := fun i =>
      if i = 0 then { p.fileArray 0 with read := .terminalRead, write := .terminalWrong, flag := 1 }
      else if i = 1 then
        { p.fileArray 1 with read := .terminalWrong, write := .terminalWrite, flag := 1 }
      else if i < fdescSize then { p.fileArray i with flag := 0 }
      else p.fileArray i
    bitmap := Function.update (Function.update p.bitmap 0 1) 1 1
    currentEbp := getEsp pid
    currentEsp := getEsp pid }

end Pcb

/-! ## The kernel -/

structure Kernel where
  tty : Tty
  fs : FileSys
  rtc : Rtc
  pg : Paging
  tssEsp0 : Int
  /-- `none` stands for -1. -/
  tCurr : Terminal → Option Pid
  procState : Pid → Bool
  argBuf : Nat → UInt8
  argSize : Nat
  curr : Pid
  pcb : Pid → Pcb
  /-- The interrupt flag of the processor. -/
  intr : Bool

namespace Kernel

def cli (s : Kernel) : Kernel := { s with intr := false }
def sti (s : Kernel) : Kernel := { s with intr := true }

@[simp] theorem cli_fs (s : Kernel) : s.cli.fs = s.fs := rfl

def setPcb (s : Kernel) (pid : Pid) (f : Pcb → Pcb) : Kernel :=
  { s with pcb := Function.update s.pcb pid (f (s.pcb pid)) }

/-- The control block of the current process. -/
def cur (s : Kernel) : Pcb := s.pcb s.curr

def getPid (s : Kernel) : Option Pid := (List.finRange procNum).find? fun i => !s.procState i

/-- `pcb_init`. The parent is the process that runs now, even if it is `pid` itself. -/
def pcbInit (s : Kernel) (pid : Pid) (terminalNum : Terminal) : Kernel :=
  let s := s.setPcb pid fun p => p.initFiles pid
  let par := s.cur
  let s :=
    if s.tCurr terminalNum = none then
      s.setPcb pid fun p => { p with pPid := pid, parentEsp := getEsp pid }
    else
      s.setPcb pid fun p =>
        { p with pPid := par.pid, parentEbp := par.currentEbp, parentEsp := par.currentEbp }
  let s := { s with curr := pid, tCurr := Function.update s.tCurr terminalNum (some pid) }
  s.setPcb pid fun p => { p with terminal := terminalNum }

/-- `set_active_terminal`. -/
def setActiveTerminal (s : Kernel) (t : Terminal) : Kernel :=
  let pg := if t = s.tty.con.displayTerminal then s.pg.setActiveTerminalPaging else s.pg
  { s with pg := pg, tty := { s.tty with con := s.tty.con.setActiveTerminal t } }

/-- A process has been started. -/
def started (s : Kernel) : Prop := ∃ t, s.tCurr t ≠ none

instance (s : Kernel) : Decidable s.started :=
  inferInstanceAs (Decidable (∃ t : Terminal, s.tCurr t ≠ none))

/-- The state that `entry` has set up when it starts the first shell. -/
def boot (L : Layout) (fs : FileSys) : Kernel where
  tty := ⟨.boot, Keyboard.boot.initKeyboard⟩
  fs := fs
  rtc := Rtc.boot.rtcInit
  pg := Paging.boot.pagingInit L
  tssEsp0 := 0x800000
  tCurr := fun _ => none
  procState := fun _ => false
  argBuf := fun _ => 0
  argSize := 0
  curr := 0
  pcb := fun _ => .boot
  intr := true

end Kernel

end OS391
