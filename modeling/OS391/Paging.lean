import Mathlib.Algebra.GroupWithZero.Nat
import Mathlib.Logic.Function.Basic
import Mathlib.Tactic.Common

/-! `paging.c`: the page directory, its two page tables, and the translation that
the processor makes of them for user code. -/

namespace OS391

abbrev pageEntrySize : Nat := 1024
abbrev ptVideo : Nat := 0xB8
abbrev mb : Nat := 0x100000
/-- Directory entry of the program page at 128 MB. -/
abbrev programPageIdx : Nat := 32

/-- Where the linker put the page tables, as frame numbers in the kernel's 4 MB page. -/
structure Layout where
  pageTable : Nat
  vidMemTable : Nat
  pageTable_kernel : 0x400 ≤ pageTable ∧ pageTable < 0x800
  vidMemTable_kernel : 0x400 ≤ vidMemTable ∧ vidMemTable < 0x800
  distinct : pageTable ≠ vidMemTable

/-- A choice the linker may make. -/
def someLayout : Layout := ⟨0x410, 0x411, by decide, by decide, by decide⟩

/-- A page directory entry, the part of it that translation reads. The two layouts of
`pdt_entry_t` share the flags; `high` is the bits 12 to 31, the base address in the
4 KB layout, and its upper ten bits are the base address in the 4 MB layout. -/
structure PdtEntry where
  present : Bool
  rw : Bool
  us : Bool
  size : Bool
  high : Nat
  deriving DecidableEq

structure PtEntry where
  present : Bool
  rw : Bool
  us : Bool
  addr : Nat
  deriving DecidableEq

namespace PdtEntry

def mbBase (e : PdtEntry) : Nat := e.high / 1024
def setMbBase (e : PdtEntry) (base : Nat) : PdtEntry :=
  { e with high := base % 1024 * 1024 + e.high % 1024 }

/-- What `pdt_init_kb` stores. -/
def initKb : PdtEntry := ⟨false, false, false, false, 0⟩
/-- What `pdt_init_mb` stores. -/
def initMb : PdtEntry := ⟨false, false, false, true, 0⟩

end PdtEntry

/-- What `pt_init` stores. -/
def PtEntry.init : PtEntry := ⟨false, false, false, 0⟩

structure Paging where
  pageDirectory : Nat → PdtEntry
  pageTable : Nat → PtEntry
  vidMemTable : Nat → PtEntry
  /-- Physical frame 0, read as a page table. The kernel does not write it; user code does, where
  `vidMem_page_map` maps frame 0. -/
  lowFrame : Nat → PtEntry

namespace Paging

/-- The tables in zeroed memory. -/
def boot : Paging :=
  ⟨fun _ => PdtEntry.initKb, fun _ => PtEntry.init, fun _ => PtEntry.init, fun _ => PtEntry.init⟩

def setPde (pg : Paging) (i : Nat) (f : PdtEntry → PdtEntry) : Paging :=
  { pg with pageDirectory := Function.update pg.pageDirectory i (f (pg.pageDirectory i)) }

def setVidPte (pg : Paging) (i : Nat) (f : PtEntry → PtEntry) : Paging :=
  { pg with vidMemTable := Function.update pg.vidMemTable i (f (pg.vidMemTable i)) }

def pagingInit (L : Layout) (pg : Paging) : Paging :=
  { pg with
    pageDirectory := fun i =>
      if i = 0 then { PdtEntry.initKb with present := true, rw := true, high := L.pageTable }
      else if i = 1 then { PdtEntry.initMb.setMbBase 1 with present := true, rw := true }
      else if i < pageEntrySize then PdtEntry.initMb.setMbBase i
      else pg.pageDirectory i
    pageTable := fun i =>
      if ptVideo ≤ i ∧ i ≤ ptVideo + 4 then ⟨true, true, false, i⟩
      else if i < pageEntrySize then { PtEntry.init with addr := i }
      else pg.pageTable i }

/-- The assignments of `pid_page_map`. -/
def pidPageMap (pid : Nat) : List (Paging → Paging) :=
  [fun pg => pg.setPde programPageIdx fun e => { e with present := true },
   fun pg => pg.setPde programPageIdx fun e => { e with size := true },
   fun pg => pg.setPde programPageIdx fun e => { e with us := true },
   fun pg => pg.setPde programPageIdx fun e => { e with rw := true },
   fun pg => pg.setPde programPageIdx fun e =>
     e.setMbBase ((pid * (4 * mb) + 8 * mb) / (4 * mb))]

/-- The assignments of `vidMem_page_map`; `shown` is `t_id == t_display`. -/
def vidMemPageMap (L : Layout) (vAddr : Nat) (shown : Bool) : List (Paging → Paging) :=
  let i := vAddr / (4 * mb)
  [fun pg => pg.setPde i fun _ => PdtEntry.initKb,
   fun pg => pg.setPde i fun e => { e with present := true },
   fun pg => pg.setPde i fun e => { e with us := true },
   fun pg => pg.setPde i fun e => { e with rw := true },
   fun pg => pg.setPde i fun e => { e with high := L.vidMemTable },
   fun pg => pg.setVidPte 0 fun e => { e with present := true },
   fun pg => pg.setVidPte 0 fun e => { e with rw := true },
   fun pg => pg.setVidPte 0 fun e => { e with us := true },
   fun pg => pg.setVidPte 0 fun e => { e with addr := if shown then ptVideo else 0 }]

def setActiveTerminalPaging (pg : Paging) : Paging :=
  let e := { pg.pageTable ptVideo with addr := ptVideo }
  { pg with pageTable := Function.update pg.pageTable ptVideo e }

/-! ## Translation -/

/-- The frames that a directory entry can have for a page table. Frame 0 is none, but the
processor takes it for one while an entry has been cleared and is already present. -/
def tableAt (L : Layout) (pg : Paging) (frame : Nat) : Option (Nat → PtEntry) :=
  if frame = L.pageTable then some pg.pageTable
  else if frame = L.vidMemTable then some pg.vidMemTable
  else if frame = 0 then some pg.lowFrame
  else none

/-- Physical address of the virtual address `a` for user code. -/
def translateUser (L : Layout) (pg : Paging) (a : Nat) : Option Nat :=
  let e := pg.pageDirectory (a / (4 * mb))
  if e.present ∧ e.us then
    if e.size then some (e.mbBase * (4 * mb) + a % (4 * mb))
    else (pg.tableAt L e.high).bind fun table =>
      let p := table (a / 4096 % 1024)
      if p.present ∧ p.us then some (p.addr * 4096 + a % 4096) else none
  else none

end Paging

end OS391
