import OS391.Library.BitFields
import OS391.Library.Tables
import OS391.Paging

/-! The words of `pdt_entry_t` and `pt_entry_t`: `paging.c` on its bit fields, the translation as
the processor makes it from the words, and the entries of `Paging` in them. -/

namespace OS391
open Library.BitFields Library.Tables

abbrev Entry := BitVec 32

/-! ## Fields -/

abbrev ptPresent : Field 32 := ⟨0, 1, by decide⟩
abbrev ptRw : Field 32 := ⟨1, 1, by decide⟩
abbrev ptUs : Field 32 := ⟨2, 1, by decide⟩
abbrev ptWthrough : Field 32 := ⟨3, 1, by decide⟩
abbrev ptCacheDa : Field 32 := ⟨4, 1, by decide⟩
abbrev ptAccessed : Field 32 := ⟨5, 1, by decide⟩
/-- `pt_reserved` of a 4 KB entry, `pt_dirty` of a 4 MB entry. -/
abbrev ptDirty : Field 32 := ⟨6, 1, by decide⟩
/-- `page_attr` in a page table. -/
abbrev ptSize : Field 32 := ⟨7, 1, by decide⟩
abbrev ptGlobal : Field 32 := ⟨8, 1, by decide⟩
abbrev ptAvail : Field 32 := ⟨9, 3, by decide⟩
/-- `page_addr` in a page table. -/
abbrev kbBaseAddr : Field 32 := ⟨12, 20, by decide⟩
abbrev mbAttr : Field 32 := ⟨12, 1, by decide⟩
abbrev mbReserved : Field 32 := ⟨13, 9, by decide⟩
abbrev mbBaseAddr : Field 32 := ⟨22, 10, by decide⟩

/-- Assignment to a field. -/
def set (f : Field 32) (v : Nat) (e : Entry) : Entry := f.put (BitVec.ofNat f.width v) e

def read (f : Field 32) (e : Entry) : Nat := (f.get e).toNat

theorem read_set_self (f : Field 32) (v : Nat) (e : Entry) :
    read f (set f v e) = v % 2 ^ f.width := by
  rw [read, set, Field.get_put_self, BitVec.toNat_ofNat]

theorem read_set {f g : Field 32} (h : f.Apart g) (v : Nat) (e : Entry) :
    read f (set g v e) = read f e := by
  rw [read, set, Field.get_put_of_apart h, read]

theorem read_eq (f : Field 32) (e : Entry) : read f e = e.toNat / 2 ^ f.lo % 2 ^ f.width := by
  rw [read, Field.get, BitVec.extractLsb'_toNat, Nat.shiftRight_eq_div_pow]

/-- The base address of the 4 KB layout has three fields of the 4 MB layout in it. -/
theorem read_kbBaseAddr (e : Entry) :
    read kbBaseAddr e = read mbBaseAddr e * 1024 + read mbReserved e * 2 + read mbAttr e := by
  rw [read_eq, read_eq, read_eq, read_eq]
  simp only [Nat.reducePow]
  omega

/-! ## The routines of `paging.c` -/

/-- `pdt_init_kb`; the local variable holds `e` at first. -/
def pdtInitKb (e : Entry) : Entry :=
  let e := set ptPresent 0 e
  let e := set ptRw 0 e
  let e := set ptUs 0 e
  let e := set ptWthrough 0 e
  let e := set ptCacheDa 0 e
  let e := set ptAccessed 0 e
  let e := set ptDirty 0 e
  let e := set ptSize 0 e
  let e := set ptGlobal 0 e
  let e := set ptAvail 0 e
  set kbBaseAddr 0 e

def pdtInitMb (e : Entry) : Entry :=
  let e := set ptPresent 0 e
  let e := set ptRw 0 e
  let e := set ptUs 0 e
  let e := set ptWthrough 0 e
  let e := set ptCacheDa 0 e
  let e := set ptAccessed 0 e
  let e := set ptDirty 0 e
  let e := set ptSize 1 e
  let e := set ptGlobal 0 e
  let e := set ptAvail 0 e
  let e := set mbAttr 0 e
  let e := set mbReserved 0 e
  set mbBaseAddr 0 e

def ptInit (e : Entry) : Entry :=
  let e := set ptPresent 0 e
  let e := set ptRw 0 e
  let e := set ptUs 0 e
  let e := set ptWthrough 0 e
  let e := set ptCacheDa 0 e
  let e := set ptAccessed 0 e
  let e := set ptDirty 0 e
  let e := set ptSize 0 e
  let e := set ptGlobal 0 e
  let e := set ptAvail 0 e
  set kbBaseAddr 0 e

structure PageWords where
  pageDirectory : Nat → Entry
  pageTable : Nat → Entry
  vidMemTable : Nat → Entry
  lowFrame : Nat → Entry

namespace PageWords

variable (L : Layout)

/-- The directory behind `paging_init`. `junk i` is what the local variable holds in the call for
entry `i`. -/
def initDirectory (junk : Nat → Entry) (t : Nat → Entry) : Nat → Entry :=
  let t := (List.range' 2 (pageEntrySize - 2)).foldl
    (fun t i => modify t i fun _ => set mbBaseAddr i (pdtInitMb (junk i))) t
  let t := modify t 0 fun _ => pdtInitKb (junk 0)
  let t := modify t 0 (set ptPresent 1)
  let t := modify t 0 (set ptRw 1)
  let t := modify t 0 (set kbBaseAddr L.pageTable)
  let t := modify t 1 fun _ => pdtInitMb (junk 1)
  let t := modify t 1 (set ptPresent 1)
  let t := modify t 1 (set ptRw 1)
  modify t 1 (set mbBaseAddr 1)

/-- One page of video memory. -/
def videoPage (t : Nat → Entry) (i : Nat) : Nat → Entry :=
  let t := modify t i (set ptPresent 1)
  let t := modify t i (set ptRw 1)
  let t := modify t i (set ptCacheDa 1)
  modify t i (set kbBaseAddr i)

def initTable (junk : Nat → Entry) (t : Nat → Entry) : Nat → Entry :=
  let t := (List.range pageEntrySize).foldl
    (fun t i => modify t i fun _ => set kbBaseAddr i (set ptPresent 0 (ptInit (junk i)))) t
  let t := videoPage t ptVideo
  let t := videoPage t (ptVideo + 1)
  let t := videoPage t (ptVideo + 2)
  let t := videoPage t (ptVideo + 3)
  videoPage t (ptVideo + 4)

def pagingInit (junkDirectory junkTable : Nat → Entry) (p : PageWords) : PageWords :=
  { p with
    pageDirectory := initDirectory L junkDirectory p.pageDirectory
    pageTable := initTable junkTable p.pageTable }

def pidPageMap (pid : Nat) (p : PageWords) : PageWords :=
  let t := modify p.pageDirectory programPageIdx (set ptPresent 1)
  let t := modify t programPageIdx (set ptSize 1)
  let t := modify t programPageIdx (set ptUs 1)
  let t := modify t programPageIdx (set ptRw 1)
  let t := modify t programPageIdx (set mbBaseAddr ((pid * (4 * mb) + 8 * mb) / (4 * mb)))
  { p with pageDirectory := t }

/-- `vidMem_page_map`; `shown` is `t_id == t_display`. -/
def vidMemPageMap (junk : Entry) (vAddr : Nat) (shown : Bool) (p : PageWords) : PageWords :=
  let i := vAddr / (4 * mb)
  let t := modify p.pageDirectory i fun _ => pdtInitKb junk
  let t := modify t i (set ptPresent 1)
  let t := modify t i (set ptUs 1)
  let t := modify t i (set ptRw 1)
  let t := modify t i (set kbBaseAddr L.vidMemTable)
  let u := modify p.vidMemTable 0 (set ptPresent 1)
  let u := modify u 0 (set ptRw 1)
  let u := modify u 0 (set ptUs 1)
  let u := modify u 0 (set ptWthrough 0)
  let u := modify u 0 (set ptCacheDa 0)
  let u := modify u 0 (set ptAccessed 0)
  let u := modify u 0 (set ptDirty 0)
  let u := modify u 0 (set ptSize 0)
  let u := modify u 0 (set ptGlobal 0)
  let u := modify u 0 (set ptAvail 0)
  let u := modify u 0 (set kbBaseAddr (if shown then ptVideo else 0))
  { p with pageDirectory := t, vidMemTable := u }

def setActiveTerminalPaging (p : PageWords) : PageWords :=
  { p with pageTable := modify p.pageTable ptVideo (set kbBaseAddr ptVideo) }

/-! ## The processor -/

def tableAt (p : PageWords) (frame : Nat) : Option (Nat → Entry) :=
  if frame = L.pageTable then some p.pageTable
  else if frame = L.vidMemTable then some p.vidMemTable
  else if frame = 0 then some p.lowFrame
  else none

/-- The walk for an access of user code, by the bits of the words. -/
def walk (p : PageWords) (a : BitVec 32) : Option (BitVec 32) :=
  let e := p.pageDirectory (a.extractLsb' 22 10).toNat
  if e.getLsbD 0 ∧ e.getLsbD 2 then
    if e.getLsbD 7 then some (e.extractLsb' 22 10 ++ a.extractLsb' 0 22)
    else (p.tableAt L (e.extractLsb' 12 20).toNat).bind fun t =>
      let q := t (a.extractLsb' 12 10).toNat
      if q.getLsbD 0 ∧ q.getLsbD 2 then some (q.extractLsb' 12 20 ++ a.extractLsb' 0 12) else none
  else none

/-- The processor notes an access, or a write, in an entry. -/
def noted (dirty : Bool) (e : Entry) : Entry :=
  let e := set ptAccessed 1 e
  if dirty then set ptDirty 1 e else e

inductive Table where
  | pageDirectory | pageTable | vidMemTable

def note (t : Table) (i : Nat) (dirty : Bool) (p : PageWords) : PageWords :=
  match t with
  | .pageDirectory => { p with pageDirectory := modify p.pageDirectory i (noted dirty) }
  | .pageTable => { p with pageTable := modify p.pageTable i (noted dirty) }
  | .vidMemTable => { p with vidMemTable := modify p.vidMemTable i (noted dirty) }

inductive Op where
  | pidPageMap (pid : Nat)
  | vidMemPageMap (junk : Entry) (vAddr : Nat) (shown : Bool)
  | setActiveTerminalPaging
  | note (t : Table) (i : Nat) (dirty : Bool)

def step (p : PageWords) : Op → PageWords
  | .pidPageMap pid => p.pidPageMap pid
  | .vidMemPageMap junk vAddr shown => p.vidMemPageMap L junk vAddr shown
  | .setActiveTerminalPaging => p.setActiveTerminalPaging
  | .note t i dirty => p.note t i dirty

/-- The same step on the entries. -/
def entryStep (pg : Paging) : Op → Paging
  | .pidPageMap pid => (Paging.pidPageMap pid).foldl (fun pg f => f pg) pg
  | .vidMemPageMap _ vAddr shown =>
    (Paging.vidMemPageMap L vAddr shown).foldl (fun pg f => f pg) pg
  | .setActiveTerminalPaging => pg.setActiveTerminalPaging
  | .note _ _ _ => pg

/-! ## Entries in words -/

def pde (e : Entry) : PdtEntry :=
  ⟨read ptPresent e = 1, read ptRw e = 1, read ptUs e = 1, read ptSize e = 1, read kbBaseAddr e⟩

def pte (e : Entry) : PtEntry :=
  ⟨read ptPresent e = 1, read ptRw e = 1, read ptUs e = 1, read kbBaseAddr e⟩

/-- The entries of the words. -/
def entries (p : PageWords) : Paging :=
  ⟨fun i => pde (p.pageDirectory i), fun i => pte (p.pageTable i), fun i => pte (p.vidMemTable i),
    fun i => pte (p.lowFrame i)⟩

theorem flag_bit (e : Entry) (i : Nat) (h : i + 1 ≤ 32) :
    e.getLsbD i = decide (read ⟨i, 1, h⟩ e = 1) := by
  rw [read_eq, BitVec.getLsbD, Nat.testBit_eq_decide_div_mod_eq]
  simp

theorem pde_init (e : Entry) : pde (pdtInitKb e) = PdtEntry.initKb ∧
    pde (pdtInitMb e) = PdtEntry.initMb ∧ pte (ptInit e) = PtEntry.init := by
  refine ⟨?_, ?_, ?_⟩
  · simp (disch := decide) [pde, pdtInitKb, read_set_self, read_set, PdtEntry.initKb]
  · simp (disch := decide) [pde, pdtInitMb, read_kbBaseAddr, read_set_self, read_set,
      PdtEntry.initMb]
  · simp (disch := decide) [pte, ptInit, read_set_self, read_set, PtEntry.init]

section Assignments

variable (e : Entry) (v : Nat)

@[simp] theorem pde_setPresent : pde (set ptPresent 1 e) = { pde e with present := true } := by
  simp (disch := decide) [pde, read_set_self, read_set]

@[simp] theorem pde_setRw : pde (set ptRw 1 e) = { pde e with rw := true } := by
  simp (disch := decide) [pde, read_set_self, read_set]

@[simp] theorem pde_setUs : pde (set ptUs 1 e) = { pde e with us := true } := by
  simp (disch := decide) [pde, read_set_self, read_set]

@[simp] theorem pde_setSize : pde (set ptSize 1 e) = { pde e with size := true } := by
  simp (disch := decide) [pde, read_set_self, read_set]

@[simp] theorem pde_setKbBase : pde (set kbBaseAddr v e) = { pde e with high := v % 1048576 } := by
  simp (disch := decide) [pde, read_set_self, read_set]

@[simp] theorem pde_setMbBase : pde (set mbBaseAddr v e) = (pde e).setMbBase v := by
  have hreserved : read mbReserved e < 512 := (mbReserved.get e).isLt
  have hattr : read mbAttr e < 2 := (mbAttr.get e).isLt
  have hhigh : read kbBaseAddr (set mbBaseAddr v e) =
      v % 1024 * 1024 + read kbBaseAddr e % 1024 := by
    rw [read_kbBaseAddr, read_kbBaseAddr e, read_set_self, read_set (by decide),
      read_set (by decide)]
    simp only [Nat.reducePow]
    omega
  simp (disch := decide) only [pde, PdtEntry.setMbBase, hhigh, read_set]

@[simp] theorem pte_setPresent : pte (set ptPresent v e) =
    { pte e with present := v % 2 = 1 } := by
  simp (disch := decide) [pte, read_set_self, read_set]

@[simp] theorem pte_setRw : pte (set ptRw 1 e) = { pte e with rw := true } := by
  simp (disch := decide) [pte, read_set_self, read_set]

@[simp] theorem pte_setUs : pte (set ptUs 1 e) = { pte e with us := true } := by
  simp (disch := decide) [pte, read_set_self, read_set]

@[simp] theorem pte_setKbBase : pte (set kbBaseAddr v e) = { pte e with addr := v % 1048576 } := by
  simp (disch := decide) [pte, read_set_self, read_set]

end Assignments

/-- The fields that translation does not read. -/
def Unread (f : Field 32) : Prop :=
  ptPresent.Apart f ∧ ptRw.Apart f ∧ ptUs.Apart f ∧ kbBaseAddr.Apart f

instance (f : Field 32) : Decidable (Unread f) := inferInstanceAs (Decidable (_ ∧ _ ∧ _ ∧ _))

theorem pte_set {f : Field 32} (h : Unread f) (v : Nat) (e : Entry) : pte (set f v e) = pte e := by
  obtain ⟨hpresent, hrw, hus, hbase⟩ := h
  rw [pte, read_set hpresent, read_set hrw, read_set hus, read_set hbase, pte]

theorem pde_set {f : Field 32} (h : Unread f) (hsize : ptSize.Apart f) (v : Nat) (e : Entry) :
    pde (set f v e) = pde e := by
  obtain ⟨hpresent, hrw, hus, hbase⟩ := h
  rw [pde, read_set hpresent, read_set hrw, read_set hus, read_set hsize, read_set hbase, pde]

theorem noted_entries (dirty : Bool) (e : Entry) :
    pde (noted dirty e) = pde e ∧ pte (noted dirty e) = pte e := by
  have haccessed : Unread ptAccessed := by decide
  have hdirty : Unread ptDirty := by decide
  cases dirty with
  | false => exact ⟨pde_set haccessed (by decide) _ _, pte_set haccessed _ _⟩
  | true =>
    exact ⟨(pde_set hdirty (by decide) _ _).trans (pde_set haccessed (by decide) _ _),
      (pte_set hdirty _ _).trans (pte_set haccessed _ _)⟩

/-! ## One step -/

theorem ptVideo_fits : ptVideo < 1048576 := by decide

theorem pidPageMap_entries (pid : Nat) (p : PageWords) :
    (p.pidPageMap pid).entries = (Paging.pidPageMap pid).foldl (fun pg f => f pg) p.entries := by
  simp only [Paging.pidPageMap, List.foldl_cons, List.foldl_nil, Paging.setPde, entries,
    PageWords.pidPageMap]
  congr 1
  funext v
  by_cases hv : v = programPageIdx
  · subst hv
    simp
  · simp [modify_of_ne, hv]

theorem vidMemPageMap_entries (junk : Entry) (vAddr : Nat) (shown : Bool) (p : PageWords) :
    (p.vidMemPageMap L junk vAddr shown).entries =
      (Paging.vidMemPageMap L vAddr shown).foldl (fun pg f => f pg) p.entries := by
  have hframe : L.vidMemTable % 1048576 = L.vidMemTable :=
    Nat.mod_eq_of_lt (Nat.lt_trans L.vidMemTable_kernel.2 (by decide))
  simp only [Paging.vidMemPageMap, List.foldl_cons, List.foldl_nil, Paging.setPde,
    Paging.setVidPte, entries, PageWords.vidMemPageMap]
  congr 1
  · funext v
    by_cases hv : v = vAddr / (4 * mb)
    · subst hv
      simp [(pde_init junk).1, hframe]
    · simp [modify_of_ne, hv]
  · funext v
    by_cases hv : v = 0
    · subst hv
      cases shown <;> simp (disch := decide) [pte_set, ptVideo_fits]
    · simp [modify_of_ne, hv]

theorem setActiveTerminalPaging_entries (p : PageWords) :
    p.setActiveTerminalPaging.entries = p.entries.setActiveTerminalPaging := by
  simp only [PageWords.setActiveTerminalPaging, Paging.setActiveTerminalPaging, entries]
  congr 1
  funext v
  by_cases hv : v = ptVideo
  · subst hv
    simp [ptVideo_fits]
  · simp [modify_of_ne, hv]

theorem note_entries (t : Table) (i : Nat) (dirty : Bool) (p : PageWords) :
    (p.note t i dirty).entries = p.entries := by
  have hkeep {β : Type} (g : Entry → β) (t : Nat → Entry) (hg : ∀ e, g (noted dirty e) = g e) :
      (fun v => g (modify t i (noted dirty) v)) = fun v => g (t v) := by
    funext v
    rw [modify_apply]
    split
    · exact hg _
    · rfl
  have hpde := hkeep pde p.pageDirectory fun e => (noted_entries dirty e).1
  have hpte (t : Nat → Entry) := hkeep pte t fun e => (noted_entries dirty e).2
  cases t with
  | pageDirectory => exact congrArg (Paging.mk · _ _ _) hpde
  | pageTable => exact congrArg (Paging.mk _ · _ _) (hpte p.pageTable)
  | vidMemTable => exact congrArg (Paging.mk _ _ · _) (hpte p.vidMemTable)

theorem step_entries (p : PageWords) (op : Op) :
    (p.step L op).entries = entryStep L p.entries op := by
  cases op with
  | pidPageMap pid => exact pidPageMap_entries pid p
  | vidMemPageMap junk vAddr shown => exact vidMemPageMap_entries L junk vAddr shown p
  | setActiveTerminalPaging => exact setActiveTerminalPaging_entries p
  | note t i dirty => exact note_entries t i dirty p

theorem run_entries (p : PageWords) (ops : List Op) :
    (ops.foldl (step L) p).entries = ops.foldl (entryStep L) p.entries := by
  induction ops generalizing p with
  | nil => rfl
  | cons op ops ih => rw [List.foldl_cons, ih, step_entries, List.foldl_cons]

/-! ## The initialization -/

theorem initDirectory_entry (junk t : Nat → Entry) (v : Nat) :
    pde (initDirectory L junk t v) =
      (Paging.pagingInit L
        { Paging.boot with pageDirectory := fun i => pde (t i) }).pageDirectory v := by
  have hframe : L.pageTable % 1048576 = L.pageTable :=
    Nat.mod_eq_of_lt (Nat.lt_trans L.pageTable_kernel.2 (by decide))
  unfold initDirectory Paging.pagingInit
  dsimp only
  by_cases h0 : v = 0
  · subst h0
    rw [if_pos rfl]
    simp [modify_of_ne, (pde_init (junk 0)).1, hframe]
  · rw [if_neg h0]
    by_cases h1 : v = 1
    · subst h1
      rw [if_pos rfl]
      simp [(pde_init (junk 1)).2.1, PdtEntry.setMbBase, PdtEntry.initMb]
    · rw [if_neg h1]
      simp only [modify_of_ne _ _ h0, modify_of_ne _ _ h1]
      rw [foldl_range fun i _ => set mbBaseAddr i (pdtInitMb (junk i))]
      by_cases hv : v < pageEntrySize
      · rw [if_pos (by simp only [pageEntrySize] at hv ⊢; omega), if_pos hv, pde_setMbBase,
          (pde_init (junk v)).2.1]
      · rw [if_neg (by simp only [pageEntrySize] at hv ⊢; omega), if_neg hv]

theorem videoPage_self (t : Nat → Entry) (i : Nat) (h : i < 1048576)
    (hus : (pte (t i)).us = false) :
    pte (videoPage t i i) = ⟨true, true, false, i⟩ := by
  have hcache : Unread ptCacheDa := by decide
  simp [videoPage, pte_set hcache, hus, Nat.mod_eq_of_lt h]

theorem videoPage_of_ne (t : Nat → Entry) {i v : Nat} (h : v ≠ i) : videoPage t i v = t v := by
  simp [videoPage, modify_of_ne, h]

theorem videoPages_apply (lo n : Nat) (t : Nat → Entry) (v : Nat) (hfit : lo + n ≤ 1048576)
    (hus : ∀ i, lo ≤ i → i < lo + n → (pte (t i)).us = false) :
    pte ((List.range' lo n).foldl videoPage t v) =
      if lo ≤ v ∧ v < lo + n then ⟨true, true, false, v⟩ else pte (t v) := by
  induction n generalizing lo t with
  | zero =>
    rw [if_neg (by omega)]
    rfl
  | succ n ih =>
    have hus' : ∀ i, lo + 1 ≤ i → i < lo + 1 + n → (pte (videoPage t lo i)).us = false := by
      intro i hlo hi
      rw [videoPage_of_ne t (by omega)]
      exact hus i (by omega) (by omega)
    rw [List.range'_succ, List.foldl_cons, ih (lo + 1) _ (by omega) hus']
    by_cases h : v = lo
    · subst h
      rw [if_neg (by omega), if_pos (by omega),
        videoPage_self t v (by omega) (hus v (Nat.le_refl v) (by omega))]
    · rw [videoPage_of_ne t h]
      congr 1
      simp only [eq_iff_iff]
      omega

theorem initTable_entry (junk t : Nat → Entry) (v : Nat) :
    pte (initTable junk t v) =
      (Paging.pagingInit L { Paging.boot with pageTable := fun i => pte (t i) }).pageTable v := by
  let u := (List.range' 0 pageEntrySize).foldl
    (fun t i => modify t i fun _ => set kbBaseAddr i (set ptPresent 0 (ptInit (junk i)))) t
  have hu (i : Nat) (h : i < 1024) : pte (u i) = { PtEntry.init with addr := i } := by
    have hloop : u i = set kbBaseAddr i (set ptPresent 0 (ptInit (junk i))) := by
      show (List.range' 0 pageEntrySize).foldl _ t i = _
      rw [foldl_range fun i _ => set kbBaseAddr i (set ptPresent 0 (ptInit (junk i))),
        if_pos ⟨Nat.zero_le i, by rw [Nat.zero_add]; exact h⟩]
    rw [hloop, pte_setKbBase, pte_setPresent, (pde_init (junk i)).2.2,
      Nat.mod_eq_of_lt (Nat.lt_trans h (by decide))]
    rfl
  have hrest (h : ¬ v < 1024) : u v = t v := by
    show (List.range' 0 pageEntrySize).foldl _ t v = _
    rw [foldl_range fun i _ => set kbBaseAddr i (set ptPresent 0 (ptInit (junk i))),
      if_neg (by simp only [pageEntrySize]; omega)]
  have hinit : initTable junk t = (List.range' ptVideo 5).foldl videoPage u := by
    rw [initTable, List.range_eq_range']
    rfl
  rw [hinit, videoPages_apply ptVideo 5 u v (by decide)
    (fun i _ hi => by rw [hu i (Nat.lt_trans hi (by decide))]; rfl)]
  unfold Paging.pagingInit
  dsimp only
  by_cases hv : ptVideo ≤ v ∧ v ≤ ptVideo + 4
  · rw [if_pos hv, if_pos ⟨hv.1, Nat.lt_succ_of_le hv.2⟩]
  · rw [if_neg hv, if_neg fun h => hv ⟨h.1, Nat.le_of_lt_succ h.2⟩]
    by_cases h : v < pageEntrySize
    · rw [if_pos h, hu v h]
    · rw [if_neg h, hrest h]

theorem pagingInit_entries (junkDirectory junkTable : Nat → Entry) (p : PageWords) :
    (p.pagingInit L junkDirectory junkTable).entries = p.entries.pagingInit L := by
  have hdirectory := funext (initDirectory_entry L junkDirectory p.pageDirectory)
  have htable := funext (initTable_entry L junkTable p.pageTable)
  unfold PageWords.pagingInit entries
  dsimp only
  rw [hdirectory, htable]
  rfl

/-! ## The walk -/

theorem toNat_append_add {m n : Nat} (hi : BitVec m) (lo : BitVec n) :
    (hi ++ lo).toNat = hi.toNat * 2 ^ n + lo.toNat := by
  rw [BitVec.toNat_append, ← Nat.shiftLeft_add_eq_or_of_lt lo.isLt, Nat.shiftLeft_eq]

theorem tableAt_entries (p : PageWords) (frame : Nat) :
    p.entries.tableAt L frame = (p.tableAt L frame).map fun t v => pte (t v) := by
  unfold Paging.tableAt PageWords.tableAt
  split_ifs <;> rfl

theorem mb_address (e : Entry) (a : BitVec 32) :
    (e.extractLsb' 22 10 ++ a.extractLsb' 0 22 : BitVec 32).toNat =
      (pde e).mbBase * (4 * mb) + a.toNat % (4 * mb) := by
  have hbase : (pde e).mbBase = e.toNat / 2 ^ 22 % 2 ^ 10 := by
    have hhigh : (pde e).high = e.toNat / 2 ^ 12 % 2 ^ 20 := read_eq kbBaseAddr e
    rw [PdtEntry.mbBase, hhigh]
    omega
  rw [toNat_append_add, hbase, BitVec.extractLsb'_toNat, BitVec.extractLsb'_toNat,
    Nat.shiftRight_eq_div_pow, Nat.shiftRight_zero]
  rfl

theorem kb_address (q : Entry) (a : BitVec 32) :
    (q.extractLsb' 12 20 ++ a.extractLsb' 0 12 : BitVec 32).toNat =
      (pte q).addr * 4096 + a.toNat % 4096 := by
  have hoffset : (a.extractLsb' 0 12).toNat = a.toNat % 4096 := by
    rw [BitVec.extractLsb'_toNat, Nat.shiftRight_zero]
  rw [toNat_append_add, hoffset]
  rfl

/-- The bits that the processor looks at are the flags of the entry. -/
theorem pde_open (e : Entry) :
    (e.getLsbD 0 = true ∧ e.getLsbD 2 = true ↔ (pde e).present = true ∧ (pde e).us = true) ∧
      (e.getLsbD 7 = (pde e).size) := by
  rw [flag_bit e 0 (by decide), flag_bit e 2 (by decide), flag_bit e 7 (by decide)]
  exact ⟨Iff.rfl, rfl⟩

theorem pte_open (q : Entry) :
    q.getLsbD 0 = true ∧ q.getLsbD 2 = true ↔ (pte q).present = true ∧ (pte q).us = true := by
  rw [flag_bit q 0 (by decide), flag_bit q 2 (by decide)]
  exact Iff.rfl

theorem walk_entries (p : PageWords) (a : BitVec 32) :
    (p.walk L a).map BitVec.toNat = p.entries.translateUser L a.toNat := by
  have ha := a.isLt
  have hdirectory : (a.extractLsb' 22 10).toNat = a.toNat / (4 * mb) := by
    rw [BitVec.extractLsb'_toNat, Nat.shiftRight_eq_div_pow]
    simp only [mb]
    omega
  have htable : (a.extractLsb' 12 10).toNat = a.toNat / 4096 % 1024 := by
    rw [BitVec.extractLsb'_toNat, Nat.shiftRight_eq_div_pow]
  unfold walk Paging.translateUser
  dsimp only
  rw [hdirectory, htable]
  generalize he : p.pageDirectory (a.toNat / (4 * mb)) = e
  have hentry : p.entries.pageDirectory (a.toNat / (4 * mb)) = pde e := congrArg pde he
  have hframe : (e.extractLsb' 12 20).toNat = (pde e).high := rfl
  obtain ⟨hopen, hsize⟩ := pde_open e
  rw [hentry, hframe, hsize, tableAt_entries]
  by_cases h : (pde e).present = true ∧ (pde e).us = true
  · rw [if_pos h, if_pos (hopen.mpr h)]
    by_cases hlarge : (pde e).size = true
    · rw [if_pos hlarge, if_pos hlarge]
      exact congrArg some (mb_address e a)
    · rw [if_neg hlarge, if_neg hlarge]
      cases p.tableAt L (pde e).high with
      | none => rfl
      | some t =>
        -- the second level, at the entry of the table that was found
        generalize hq : t (a.toNat / 4096 % 1024) = q
        simp only [Option.map_some, Option.bind_some, hq]
        by_cases hpage : (pte q).present = true ∧ (pte q).us = true
        · rw [if_pos hpage, if_pos ((pte_open q).mpr hpage)]
          exact congrArg some (kb_address q a)
        · rw [if_neg hpage, if_neg (fun hbits => hpage ((pte_open q).mp hbits))]
          rfl
  · rw [if_neg h, if_neg (fun hbits => h (hopen.mp hbits))]
    rfl

/-- **Words and entries.** From any words in the tables and on the stack, after `paging_init` and
any calls that map a program, map video memory or select a terminal, with accessed and dirty bits
noted by the processor in between, the walk that the processor makes of the words is the
translation of the entries after the same calls. -/
theorem words_refine (junkDirectory junkTable : Nat → Entry) (p : PageWords) (ops : List Op)
    (a : BitVec 32) :
    ((ops.foldl (step L) (p.pagingInit L junkDirectory junkTable)).walk L a).map BitVec.toNat =
      (ops.foldl (entryStep L) (p.entries.pagingInit L)).translateUser L a.toNat := by
  rw [walk_entries, run_entries, pagingInit_entries]

end PageWords

end OS391
