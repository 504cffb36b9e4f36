import OS391.Kernel

/-! `syscall.c`: the system calls that open, read and write files, and those that
hand out arguments and video memory. A call takes a pointer as the memory that is
mapped from it on (`none`: NULL) and yields `none` when it faults or never returns. -/

namespace OS391
open Library Library.Runs Library.Bytes

namespace Kernel

/-- A string constant, with its NUL. -/
def cText (text : String) : List UInt8 := text.toList.map (fun c => c.toNat.toUInt8) ++ [0]

/-! ## Files -/

/-- The descriptor that `open` fills in for a directory entry. -/
def openDesc (d : Dentry) (f : FileDesc) : FileDesc :=
  let f :=
    if d.ftype = 0 then { f with read := .rtcRead, write := .rtcWrite }
    else if d.ftype = 1 then { f with read := .readDir, write := .writeDir }
    else if d.ftype = 2 then { f with read := .readF, write := .writeF }
    else f
  { f with inode := d.inode, flag := 1, filePos := 0 }

/-- The control block with descriptor `i` opened for a directory entry. -/
def opened (d : Dentry) (i : Nat) (p : Pcb) : Pcb :=
  { p with
    bitmap := Function.update p.bitmap i 1
    fileArray := Function.update p.fileArray i (openDesc d (p.fileArray i)) }

/-- The control block after a read of `n` bytes on descriptor `i`. -/
def advanced (i n : Nat) (p : Pcb) : Pcb :=
  let f := p.fileArray i
  { p with
    fileArray := Function.update p.fileArray i { f with filePos := (f.filePos + n) % word32 } }

/-- `open`. -/
def openFile (s : Kernel) (filename : Option (List UInt8)) : Option (Int × Kernel) :=
  match filename with
  | none => some (-1, s)
  | some filename => (s.fs.readDentryByName filename).map fun d =>
    match d with
    | none => (-1, s)
    | some d =>
      match [2, 3, 4, 5, 6, 7].find? fun i => s.cur.bitmap i = 0 with
      | none => (-1, s)
      | some i =>
        let fs := if d.ftype = 1 then s.fs.openDir else s.fs
        (i, { s.setPcb s.curr (opened d i) with fs := fs })

def close (s : Kernel) (fd : Int) : Int × Kernel :=
  ((s.cur.close fd).1, s.setPcb s.curr fun p => (p.close fd).2)

/-- A read routine called through a descriptor, with what it stores at `buf`. -/
def readHandler (s : Kernel) (d : FileDesc) (mem : List UInt8) (nbytes : Int) :
    Option (Tty.ReadOut × Kernel) :=
  match d.read with
  | .null => none
  | .terminalWrong => some (⟨-1, [], 0⟩, s)
  | .terminalRead =>
    -- a negative count makes `memcpy` run out of the mapped memory
    if nbytes < 0 then none
    else (s.tty.terminalRead mem nbytes.toNat).map fun (r, tty) =>
      (r, { s with tty := tty, intr := true })
  | .rtcRead => s.rtc.rtcRead.map fun (r, rtc) => (⟨r, [], 0⟩, { s with rtc := rtc })
  | .readDir =>
    let (r, out, fs) := s.fs.readDir
    if mem.length < out.length then none else some (⟨r, out, 0⟩, { s with fs := fs })
  | .readF =>
    let (r, out) := s.fs.readData d.inode d.filePos (nbytes % word32).toNat
    if mem.length < out.length then none else some (⟨r, out, 0⟩, s)

def read (s : Kernel) (fd : Int) (buf : Option (List UInt8)) (nbytes : Int) :
    Option (Tty.ReadOut × Kernel) :=
  match buf with
  | none => some (⟨-1, [], 0⟩, s)
  | some mem =>
    if fd ≥ fdescSize ∨ fd < 0 then some (⟨-1, [], 0⟩, s)
    else
      let i := fd.toNat
      if (s.cur.fileArray i).flag = 0 then some (⟨-1, [], 0⟩, s)
      else (s.readHandler (s.cur.fileArray i) mem nbytes).map fun (r, s) =>
        if r.ret < 0 then ({ r with ret := -1 }, s)
        else (r, s.setPcb s.curr (advanced i r.ret.toNat))

/-- `terminal_write`, as far as it concerns the kernel. -/
def terminalWrite (s : Kernel) (mem : List UInt8) (count : Int) : Option (Int × Kernel) :=
  (s.tty.terminalWrite mem count).map fun (r, tty) => (r, { s with tty := tty, intr := true })

def writeHandler (s : Kernel) (d : FileDesc) (mem : List UInt8) (nbytes : Int) :
    Option (Int × Kernel) :=
  match d.write with
  | .null => none
  | .terminalWrong | .writeDir | .writeF => some (-1, s)
  | .terminalWrite => s.terminalWrite mem nbytes
  | .rtcWrite => (s.rtc.rtcWrite mem nbytes).map fun (r, rtc) =>
    (r, { s with rtc := rtc, intr := true })

/-- `write` looks at the bitmap where `read` looks at the flag. -/
def write (s : Kernel) (fd : Int) (buf : Option (List UInt8)) (nbytes : Int) :
    Option (Int × Kernel) :=
  match buf with
  | none => some (-1, s)
  | some mem =>
    if fd ≥ fdescSize ∨ fd < 0 then some (-1, s)
    else if s.cur.bitmap fd.toNat = 0 then some (-1, s)
    else (s.writeHandler (s.cur.fileArray fd.toNat) mem nbytes).map fun (r, s) =>
      (if r < 0 then -1 else r, s)

/-! ## Arguments -/

/-- `getargs`: its result and the buffer after it. -/
def getargs (s : Kernel) (buf : Option (List UInt8)) : Option (Int × List UInt8) :=
  match buf with
  | none => some (-1, [])
  | some mem =>
    if s.argSize = 0 then some (-1, mem)
    else (strlen mem).bind fun n => (strlen (window s.argBuf 0 cmdLimit)).bind fun k =>
      let mem := List.replicate n 0 ++ mem.drop n
      if mem.length < k + 1 then none
      else some (0, window s.argBuf 0 k ++ [0] ++ mem.drop (k + 1))

/-- The bytes 7F 45 4C 46. -/
def magicBuf : List UInt8 := [0x7F, 0x45, 0x4C, 0x46]

/-- What a routine finds in its local variables, and in the registers it saves. -/
structure Env where
  fileBuf : List UInt8
  vAddr : List UInt8
  esp : Int
  ebp : Int

/-- Variables and registers that hold zero. -/
def Env.zero : Env := ⟨[0, 0, 0, 0], [0, 0, 0, 0], 0, 0⟩

/-- The text of a command up to its first space, padded to the size of `inFile`. -/
def inFile (text : List UInt8) : List UInt8 :=
  let name := text.takeWhile (· ≠ space)
  name ++ List.replicate (cmdLimit - name.length) 0

/-- The rest of the text, without its spaces. -/
def argText (text : List UInt8) : List UInt8 :=
  (text.dropWhile (· ≠ space)).filter (· ≠ space)

/-- The argument text in place of the one before. -/
def withArgs (s : Kernel) (args : List UInt8) : Kernel :=
  { s with
    argBuf := blit (fill s.argBuf 0 cmdLimit 0) 0 (fun i => args.getD i 0) args.length
    argSize := args.length }

@[simp] theorem withArgs_fs (s : Kernel) (args : List UInt8) : (s.withArgs args).fs = s.fs := rfl

/-- `verify_file`: the entry point of an executable, or `none` where it returns -1. A
name or an argument text past the end of its buffer is outside the model. -/
def verifyFile (env : Env) (cmd : List UInt8) (s : Kernel) :
    Option (Option (List UInt8) × Kernel) :=
  (strlen cmd).bind fun n =>
    let text := cmd.take n
    let args := argText text
    if cmdLimit ≤ (text.takeWhile (· ≠ space)).length ∨ cmdLimit < args.length then none
    else
      let s := s.withArgs args
      (s.fs.readDentryByName (inFile text)).bind fun d =>
        if d = none then some (none, s)
        else
          (s.fs.readFByName (inFile text) 0 4).bind fun (_, head) =>
            (strncmp 4 (head ++ env.fileBuf.drop head.length) magicBuf).bind fun c =>
              if c ≠ 0 then some (none, s)
              else (s.fs.readFByName (inFile text) 24 4).map fun (_, addr) =>
                (some (addr ++ env.vAddr.drop addr.length), s)

/-! ## Video memory -/

abbrev vidMapAddr : Nat := 132 * mb

def vidMemPageMap (L : Layout) (s : Kernel) (t : Terminal) : List (Kernel → Kernel) :=
  (Paging.vidMemPageMap L vidMapAddr (t = s.tty.con.displayTerminal)).map fun f s =>
    { s with pg := f s.pg }

/-- `vidmap` of the pointer value `startScreen`. -/
def vidmap (L : Layout) (startScreen : Nat) : Prog Kernel Int := do
  if startScreen = 0 ∨ startScreen = 4 * mb then pure (-1)
  else do
    let s ← Prog.get
    Prog.updates (vidMemPageMap L s s.tty.con.displayTerminal)
    pure vidMapAddr

end Kernel

end OS391
