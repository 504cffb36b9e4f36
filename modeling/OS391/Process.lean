import OS391.Syscalls

/-! Starting, ending and switching processes: `execute` and `halt` of `syscall.c`,
`pit_int_handler` of `timer.c`, and the shells that `keyboard_handler` launches; then
the operations of the whole kernel. -/

namespace OS391
open Library Library.Runs Library.Bytes

namespace Kernel

variable (L : Layout)

/-! ## Execute and halt -/

/-- Where control is after `execute_with_terminal_num`: back in its caller, or in user
code at an entry point, for good. -/
inductive Outcome where
  | returned (v : Int)
  | entered (vAddr : List UInt8)

def errMsg : List UInt8 := cText "TOO MANY PROCESSES OPEN!\n"

def shell : Option (List UInt8) := some (cText "shell")

def pidPageMap (pid : Pid) : List (Kernel → Kernel) :=
  (Paging.pidPageMap pid.val).map fun f s => { s with pg := f s.pg }

def setProcState (s : Kernel) (pid : Pid) (active : Bool) : Kernel :=
  { s with procState := Function.update s.procState pid active }

/-- What `execute_with_terminal_num` does for the process number it has got, up to its
`iret`. -/
def launch (env : Env) (pid : Pid) (terminalNum : Terminal) : Prog Kernel Unit := do
  Prog.update fun s => s.setProcState pid true
  Prog.update fun s => s.pcbInit pid terminalNum
  Prog.update fun s => s.setPcb pid fun p => { p with parentEbp := env.ebp, parentEsp := env.esp }
  Prog.updates (pidPageMap pid)
  Prog.update fun s => s.setActiveTerminal terminalNum
  Prog.update fun s => { s with tssEsp0 := getEsp pid }
  Prog.update fun s => s.setPcb pid fun p =>
    { p with currentEbp := getEsp pid, currentEsp := getEsp pid }
  Prog.update sti

def executeWithTerminalNum (env : Env) (command : Option (List UInt8)) (terminalNum : Terminal) :
    Prog Kernel Outcome :=
  match command with
  | none => pure (.returned (-1))
  | some cmd => do
    Prog.update cli
    match ← Prog.call (verifyFile env cmd) with
    | none => pure (.returned (-1))
    | some vAddr => do
      let s ← Prog.get
      match s.getPid with
      | none => do
        let _ ← Prog.call fun s => s.terminalWrite errMsg 26
        pure (.returned 0)
      | some pid => do
        launch env pid terminalNum
        pure (.entered vAddr)

def execute (env : Env) (command : Option (List UInt8)) : Prog Kernel Outcome := do
  let s ← Prog.get
  executeWithTerminalNum env command s.cur.terminal

/-- The last part of `halt`: back to the parent. -/
def resumeParent (par : Pid) (parentEsp : Int) : Prog Kernel Unit := do
  let s ← Prog.get
  Prog.updates (pidPageMap (s.pcb par).pid)
  Prog.update fun s => { s with tssEsp0 := parentEsp }
  Prog.update sti

/-- The parent of the process with control block `p` is suspended in the `execute` that started
it. -/
def ParentWaits (s : Kernel) (p : Pcb) : Prop :=
  s.procState p.pPid = true ∧ (s.pcb p.pPid).terminal = p.terminal

instance (s : Kernel) (p : Pcb) : Decidable (s.ParentWaits p) :=
  inferInstanceAs (Decidable (_ ∧ _))

/-- The last part of the `halt` of a root. No process waits where `parent_esp` points: the frame
was that of the handler, or of `entry`, that started the root, and its stack has been used since.
The processor faults, and the handlers of exceptions do not return. -/
def leaveRoot (root : Pid) (parentEsp : Int) : Prog Kernel Unit := do
  resumeParent root parentEsp
  Prog.call fun _ => none

/-- `halt`; its control block is read after the descriptors are closed, which changes
none of the fields used. -/
def halt (env : Env) : Prog Kernel Unit := do
  Prog.update cli
  let s ← Prog.get
  let p := s.cur
  Prog.update fun s => s.setProcState p.pid false
  Prog.update fun s => s.setPcb s.curr Pcb.closeAll
  Prog.update fun s =>
    { s with curr := p.pPid, tCurr := Function.update s.tCurr p.terminal (some p.pPid) }
  if p.pid = p.pPid then do
    match ← executeWithTerminalNum env shell p.terminal with
    | .entered _ => pure ()
    | .returned _ => leaveRoot p.pPid p.parentEsp
  else if s.ParentWaits p then resumeParent p.pPid p.parentEsp
  else do
    -- started by the `halt` of a root under another number, which goes on, and faults; what a
    -- later process of that number has left on the stack does not get any further
    resumeParent p.pPid p.parentEsp
    leaveRoot p.pPid (s.pcb p.pPid).parentEsp

/-! ## The scheduler -/

/-- The search for the next terminal with a process (`none`: it never ends). -/
def nextTerminal (s : Kernel) : Option Terminal :=
  whileLoop (fun t => (s.tCurr t).isNone) (fun t => t + 1) 3 (s.cur.terminal + 1)

/-- What `pit_int_handler` does between its search and its `sti`. -/
def switchTo (pid : Pid) : Prog Kernel Unit := do
  let s ← Prog.get
  let nxt := s.pcb pid
  Prog.updates (pidPageMap nxt.pid)
  let s ← Prog.get
  Prog.updates (vidMemPageMap L s nxt.terminal)
  Prog.update fun s => { s with tssEsp0 := getEsp nxt.pid }
  Prog.update fun s => { s with curr := nxt.pid }
  Prog.update fun s => s.setActiveTerminal nxt.terminal
  Prog.update sti

/-- The scheduling part of `pit_int_handler`, up to the load of the next stack. -/
def schedule (env : Env) : Prog Kernel Unit := do
  let s ← Prog.get
  let nxt ← Prog.call fun s => s.nextTerminal.bind fun t => (s.tCurr t).map fun pid => (pid, s)
  switchTo L nxt
  Prog.update fun s' => s'.setPcb s.curr fun p =>
    { p with currentEbp := env.ebp, currentEsp := env.esp }

def clear (s : Kernel) : Kernel := { s with tty := { s.tty with con := s.tty.con.clear } }

def pitIntHandler (env : Env) : Prog Kernel Unit := do
  Prog.update cli
  let s ← Prog.get
  if s.tCurr 0 = none then do
    Prog.update clear
    match ← executeWithTerminalNum env shell 0 with
    | .entered _ => pure ()
    | .returned _ => schedule L env
  else schedule L env

/-! ## The keyboard -/

/-- The terminal of an Alt+F2 or Alt+F3 that finds no shell there: only for these keys
does `keyboard_handler` go beyond `Tty.keyboardByte`. -/
def launchKey (s : Kernel) (input : UInt8) : Option Terminal :=
  if ¬ s.tty.kbd.pressedKey leftalt ∨ s.getPid = none then none
  else if input = f2 ∧ ¬ s.tty.kbd.terminal2Running then some 1
  else if input = f3 ∧ ¬ s.tty.kbd.terminal3Running then some 2
  else none

def markRunning (s : Kernel) (t : Terminal) : Kernel :=
  let kbd := s.tty.kbd
  { s with tty := { s.tty with kbd := { kbd with
    terminal2Running := kbd.terminal2Running || t = 1
    terminal3Running := kbd.terminal3Running || t = 2 } } }

/-- `set_disiplay_terminal` sets the active terminal anew, for its page table entry. -/
def displayPaging (s : Kernel) (input : UInt8) (after : Kernel) : Kernel :=
  if s.tty.kbd.pressedKey leftalt ∧ (input = f1 ∨ input = f2 ∨ input = f3) then
    after.setActiveTerminal after.tty.con.activeTerminal
  else after

/-- `keyboard_handler` for one byte. -/
def keyboardHandler (env : Env) (input : UInt8) : Prog Kernel Unit := do
  Prog.update cli
  let s ← Prog.get
  Prog.call fun s => (s.tty.keyboardByte input).map fun tty => ((), { s with tty := tty })
  Prog.update fun after => displayPaging s input after
  match s.launchKey input with
  | none => pure ()
  | some t => do
    Prog.update fun s => s.markRunning t
    let _ ← executeWithTerminalNum env shell t
    pure ()

/-! ## Operations -/

/-- What happens to the kernel. A system call is made by the current process. -/
inductive Op where
  /-- The end of `entry`. -/
  | boot (env : Env)
  | execute (env : Env) (command : Option (List UInt8))
  | halt (env : Env)
  | tick (env : Env)
  | key (env : Env) (input : UInt8)
  | vidmap (startScreen : Nat)
  | openFile (filename : Option (List UInt8))
  | close (fd : Int)
  | read (fd : Int) (buf : Option (List UInt8)) (nbytes : Int)
  | write (fd : Int) (buf : Option (List UInt8)) (nbytes : Int)
  | rtc

/-- Interrupts may come at any time; `entry` gets to its end only if none has started
a process, and system calls need a process. -/
def enabled (s : Kernel) : Op → Prop
  | .tick _ | .key _ _ | .rtc => True
  | .boot _ => ¬ s.started
  | _ => s.started

instance (s : Kernel) (op : Op) : Decidable (s.enabled op) :=
  match op with
  | .tick _ | .key _ _ | .rtc => isTrue trivial
  | .boot _ => inferInstanceAs (Decidable (¬ s.started))
  | .execute _ _ | .halt _ | .vidmap _ | .openFile _ | .close _ | .read _ _ _ | .write _ _ _ =>
    inferInstanceAs (Decidable s.started)

/-- The code that an operation runs. -/
def code : Op → Prog Kernel Unit
  | .boot env => do
    Prog.update clear
    let _ ← executeWithTerminalNum env shell 0
    pure ()
  | .execute env command => do
    let _ ← execute env command
    pure ()
  | .halt env => halt env
  | .tick env => pitIntHandler L env
  | .key env input => keyboardHandler env input
  | .vidmap startScreen => do
    let _ ← vidmap L startScreen
    pure ()
  | .openFile filename => Prog.call fun s => (s.openFile filename).map fun r => ((), r.2)
  | .close fd => Prog.call fun s => some ((), (s.close fd).2)
  | .read fd buf nbytes => Prog.call fun s => (s.read fd buf nbytes).map fun r => ((), r.2)
  | .write fd buf nbytes => Prog.call fun s => (s.write fd buf nbytes).map fun r => ((), r.2)
  | .rtc => Prog.update fun s => { s with rtc := s.rtc.rtcIntHandler }

/-- An operation ends with the `iret` that enables interrupts for the user code. -/
def program (op : Op) : Prog Kernel Unit := do
  code L op
  Prog.update sti

/-- One complete operation. -/
def step (s : Kernel) (op : Op) : Option Kernel :=
  if s.enabled op then ((program L op).result s).map Prod.snd else none

end Kernel

end OS391
