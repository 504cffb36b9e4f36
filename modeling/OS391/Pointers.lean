import OS391.Process

/-! The pointers that `read`, `getargs` and `vidmap` store through, against the program
page of the caller. -/

namespace OS391
open Library Library.Runs Library.Bytes

namespace Kernel

/-! ## Stores through a pointer -/

/-- The `n` bytes from address `a` on are all in the user program page. -/
def InUserPage (a n : Nat) : Prop :=
  ∀ i < n, 128 * mb ≤ (a + i) % word32 ∧ (a + i) % word32 < 132 * mb

/-- What is behind the pointer value `a`, where `mem` is mapped from `a` on. -/
def pointer (a : Nat) (mem : List UInt8) : Option (List UInt8) := if a = 0 then none else some mem

/-- How many bytes a read routine stores. A negative count is a large one to `memcpy`. -/
def handlerStores (s : Kernel) (d : FileDesc) (nbytes : Int) : Nat :=
  match d.read with
  | .null | .terminalWrong | .rtcRead => 0
  | .terminalRead => if nbytes < 0 then (nbytes % word32).toNat else nbytes.toNat
  | .readDir =>
    if s.fs.readDirIndex > int32 s.fs.numDentry ∨
      (s.fs.readDirIndex % word32).toNat ≥ s.fs.numDentry then 0 else fnameSize
  | .readF =>
    if d.inode = 0 ∨ d.inode ≥ s.fs.numInodes ∨ d.filePos ≥ s.fs.inodeLength d.inode then 0
    else min (nbytes % word32).toNat (s.fs.inodeLength d.inode)

/-- How many bytes `read` stores at a pointer that is not NULL. -/
def readStores (s : Kernel) (fd nbytes : Int) : Nat :=
  if fd ≥ fdescSize ∨ fd < 0 ∨ (s.cur.fileArray fd.toNat).flag = 0 then 0
  else s.handlerStores (s.cur.fileArray fd.toNat) nbytes

/-- How many bytes `getargs` stores: the string that was there is cleared first. -/
def getargsStores (s : Kernel) (mem : List UInt8) : Nat :=
  if s.argSize = 0 then 0
  else max ((strlen mem).getD mem.length)
    ((strlen (window s.argBuf 0 cmdLimit)).getD cmdLimit + 1)

/-- `*start_screen = 132 MB`, in the order of the bytes. -/
def vidmapOut (startScreen : Nat) : List UInt8 :=
  if startScreen = 0 ∨ startScreen = 4 * mb then [] else [0x00, 0x00, 0x40, 0x08]

/-! ## Checked pointers -/

/-- The call is refused if it would store outside the user page. -/
def ReadChecked (s : Kernel) (a : Nat) (mem : List UInt8) (fd nbytes : Int) : Prop :=
  ¬ InUserPage a (s.readStores fd nbytes) →
    ∃ r s', s.read fd (pointer a mem) nbytes = some (r, s') ∧ r.ret = -1 ∧ r.out = []

def GetargsChecked (s : Kernel) (a : Nat) (mem : List UInt8) : Prop :=
  ¬ InUserPage a (s.getargsStores mem) →
    s.getargs (pointer a mem) = some (-1, (pointer a mem).getD [])

def VidmapChecked (L : Layout) (s : Kernel) (a : Nat) : Prop :=
  ¬ InUserPage a 4 →
    ∃ s', (vidmap L a).result s = some (-1, s') ∧ vidmapOut a = [] ∧ s'.pg = s.pg

variable {s : Kernel} {a : Nat}

theorem inUserPage_zero (a : Nat) : InUserPage a 0 := fun _ hi => absurd hi (Nat.not_lt_zero _)

theorem pointer_of_ne (ha : a ≠ 0) (mem : List UInt8) : pointer a mem = some mem := if_neg ha

/-- `terminal_read` copies all of the count, whatever it returns. -/
theorem terminalRead_stores {tty tty' : Tty} {mem : List UInt8} {n : Nat} {r : Tty.ReadOut}
    (h : tty.terminalRead mem n = some (r, tty')) : r.out.length = n := by
  unfold Tty.terminalRead Tty.readCopy at h
  dsimp only at h
  split at h
  · obtain ⟨buf, hbuf, h⟩ := Option.bind_eq_some_iff.mp h
    obtain ⟨m, -, h⟩ := Option.map_eq_some_iff.mp h
    cases h
    split at hbuf
    · cases hbuf
    · cases hbuf
      simp
  · cases h

theorem readDir_stores (fs : FileSys) :
    fs.readDir.2.1.length =
      if fs.readDirIndex > int32 fs.numDentry ∨
        (fs.readDirIndex % word32).toNat ≥ fs.numDentry then 0 else fnameSize := by
  rcases fs.readDir_cases with ⟨hend, -, h⟩ | ⟨hnext, h⟩
  · rw [h, if_pos hend]
    rfl
  · rw [h, if_neg hnext]
    exact window_length ..

theorem readData_stores (fs : FileSys) (inode offset n : Nat) :
    (fs.readData inode offset n).2.length =
      if inode = 0 ∨ inode ≥ fs.numInodes ∨ offset ≥ fs.inodeLength inode then 0
      else min n (fs.inodeLength inode) := by
  by_cases hinode : inode = 0 ∨ inode ≥ fs.numInodes
  · have hrej : inode = 0 ∨ inode ≥ fs.numInodes ∨ offset ≥ fs.inodeLength inode :=
      hinode.elim .inl fun h => .inr (.inl h)
    rw [if_pos hrej, FileSys.readData, if_pos hinode]
    rfl
  · have hpos : 0 < inode := by omega
    have hlt : inode < fs.numInodes := by omega
    rw [FileSys.readData_eq hpos hlt]
    by_cases hend : offset ≥ fs.inodeLength inode
    · rw [if_pos hend, if_pos (.inr (.inr hend))]
      rfl
    · rw [if_neg hend, if_neg (by omega), window_length]

theorem readHandler_stores {s' : Kernel} {d : FileDesc} {mem : List UInt8} {nbytes : Int}
    {r : Tty.ReadOut} (h : s.readHandler d mem nbytes = some (r, s')) :
    r.out.length = s.handlerStores d nbytes := by
  unfold readHandler at h
  unfold handlerStores
  cases hroutine : d.read with
  | null => rw [hroutine] at h; cases h
  | terminalWrong => rw [hroutine] at h; cases h; rfl
  | rtcRead =>
    rw [hroutine] at h
    obtain ⟨⟨r, rtc⟩, -, h⟩ := Option.map_eq_some_iff.mp h
    cases h
    rfl
  | terminalRead =>
    rw [hroutine] at h
    dsimp only at h ⊢
    by_cases hneg : nbytes < 0
    · rw [if_pos hneg] at h
      cases h
    · rw [if_neg hneg] at h ⊢
      obtain ⟨⟨r, tty⟩, hr, h⟩ := Option.map_eq_some_iff.mp h
      cases h
      exact terminalRead_stores hr
  | readDir =>
    rw [hroutine] at h
    dsimp only at h ⊢
    split at h
    · cases h
    · cases h
      exact readDir_stores s.fs
  | readF =>
    rw [hroutine] at h
    dsimp only at h ⊢
    split at h
    · cases h
    · cases h
      exact readData_stores s.fs d.inode d.filePos _

theorem read_stores {s' : Kernel} {mem : List UInt8} {fd nbytes : Int} {r : Tty.ReadOut}
    (h : s.read fd (some mem) nbytes = some (r, s')) : r.out.length = s.readStores fd nbytes := by
  unfold read at h
  unfold readStores
  dsimp only at h
  by_cases hfd : fd ≥ fdescSize ∨ fd < 0
  · rw [if_pos hfd] at h
    cases h
    rw [if_pos (hfd.elim .inl fun h => .inr (.inl h))]
    rfl
  · rw [if_neg hfd] at h
    by_cases hflag : (s.cur.fileArray fd.toNat).flag = 0
    · rw [if_pos hflag] at h
      cases h
      rw [if_pos (.inr (.inr hflag))]
      rfl
    · rw [if_neg hflag] at h
      obtain ⟨⟨r, s₁⟩, hr, h⟩ := Option.map_eq_some_iff.mp h
      have hopen : ¬ (fd ≥ fdescSize ∨ fd < 0 ∨ (s.cur.fileArray fd.toNat).flag = 0) := by
        rintro (h | h | h)
        · exact hfd (.inl h)
        · exact hfd (.inr h)
        · exact hflag h
      rw [if_neg hopen, ← readHandler_stores hr]
      dsimp only at h
      split at h
      · cases h; rfl
      · cases h; rfl

theorem readChecked_iff (mem : List UInt8) (fd nbytes : Int) :
    s.ReadChecked a mem fd nbytes ↔ a = 0 ∨ InUserPage a (s.readStores fd nbytes) := by
  constructor
  · intro h
    by_contra hnot
    obtain ⟨ha, hout⟩ := not_or.mp hnot
    obtain ⟨r, s', hread, -, hnone⟩ := h hout
    rw [pointer_of_ne ha] at hread
    have hstores := read_stores hread
    rw [hnone] at hstores
    rw [← hstores] at hout
    exact hout (inUserPage_zero a)
  · rintro (rfl | hin) hout
    · exact ⟨_, _, rfl, rfl, rfl⟩
    · exact absurd hin hout

theorem getargsChecked_iff (mem : List UInt8) :
    s.GetargsChecked a mem ↔ a = 0 ∨ InUserPage a (s.getargsStores mem) := by
  constructor
  · intro h
    by_contra hnot
    obtain ⟨ha, hout⟩ := not_or.mp hnot
    have hargs := h hout
    rw [pointer_of_ne ha] at hargs
    by_cases hsize : s.argSize = 0
    · rw [getargsStores, if_pos hsize] at hout
      exact hout (inUserPage_zero a)
    · -- the arguments are copied, and the result is 0
      unfold getargs at hargs
      dsimp only at hargs
      rw [if_neg hsize] at hargs
      obtain ⟨n, -, hargs⟩ := Option.bind_eq_some_iff.mp hargs
      obtain ⟨k, -, hargs⟩ := Option.bind_eq_some_iff.mp hargs
      split at hargs
      · cases hargs
      · cases hargs
  · rintro (rfl | hin) hout
    · rfl
    · exact absurd hin hout

variable (L : Layout)

theorem vidmapChecked_iff :
    VidmapChecked L s a ↔ a = 0 ∨ a = 4 * mb ∨ InUserPage a 4 := by
  constructor
  · intro h
    by_contra hnot
    obtain ⟨ha, hnot⟩ := not_or.mp hnot
    obtain ⟨ha', hout⟩ := not_or.mp hnot
    obtain ⟨s', -, hnone, -⟩ := h hout
    rw [vidmapOut, if_neg (not_or.mpr ⟨ha, ha'⟩)] at hnone
    cases hnone
  · intro h hout
    have hrej : a = 0 ∨ a = 4 * mb := by
      rcases h with h | h | h
      · exact .inl h
      · exact .inr h
      · exact absurd h hout
    refine ⟨s, ?_, if_pos hrej, rfl⟩
    rw [vidmap, if_pos hrej]
    rfl

/-- **Pointers are hardly checked.** A call refuses to store outside the user page if and
only if its pointer is NULL (for `vidmap` also exactly 4 MB), or the bytes are in the page
anyway: as many as the descriptor's routine, the arguments or the video address take. -/
theorem pointers_checked_iff (s : Kernel) (a : Nat) :
    (∀ mem fd nbytes, s.ReadChecked a mem fd nbytes ↔
      a = 0 ∨ InUserPage a (s.readStores fd nbytes)) ∧
    (∀ mem, s.GetargsChecked a mem ↔ a = 0 ∨ InUserPage a (s.getargsStores mem)) ∧
    (VidmapChecked L s a ↔ a = 0 ∨ a = 4 * mb ∨ InUserPage a 4) :=
  ⟨readChecked_iff, getargsChecked_iff, vidmapChecked_iff L⟩

/-- Four bytes into the page of the kernel `vidmap` stores its address, and maps the page. -/
theorem vidmap_kernel_pointer : ∃ s v s',
    run (step someLayout) (boot someLayout .shellOnly) [.boot .zero] = some s ∧
    (vidmap someLayout (4 * mb + 4)).result s = some (v, s') ∧ v = 132 * mb ∧
    vidmapOut (4 * mb + 4) = [0x00, 0x00, 0x40, 0x08] ∧
    (s.pg.pageDirectory 33).present = false ∧ (s'.pg.pageDirectory 33).present = true ∧
    ¬ VidmapChecked someLayout s (4 * mb + 4) := by
  obtain ⟨⟨s, v, s'⟩, hs, hv, hbefore, hafter⟩ := exists_of_map_decide
    (fun x : Kernel × Int × Kernel => x.2.1 = 132 * mb ∧
      (x.1.pg.pageDirectory 33).present = false ∧ (x.2.2.pg.pageDirectory 33).present = true)
    (x := (run (step someLayout) (boot someLayout .shellOnly) [.boot .zero]).bind fun s =>
        ((vidmap someLayout (4 * mb + 4)).result s).map fun r => (s, r))
    (by decide +kernel)
  obtain ⟨s₁, hs₁, hs⟩ := Option.bind_eq_some_iff.mp hs
  obtain ⟨r, hr, hs⟩ := Option.map_eq_some_iff.mp hs
  cases hs
  refine ⟨s, v, s', hs₁, hr, hv, by decide, hbefore, hafter, fun h => ?_⟩
  rcases (vidmapChecked_iff someLayout).mp h with h | h | h
  · revert h
    decide
  · revert h
    decide
  · have hfirst := (h 0 (by decide)).1
    revert hfirst
    decide

end Kernel

end OS391
