import OS391.ProcessIds

/-! What user code can reach: the program page of the current process at 128 MB and the one
page at 132 MB, in every state in which interrupts are enabled. -/

namespace OS391
open Library Library.Runs Library.Bytes

/-! ## The page tables -/

namespace Paging

variable (L : Layout)

/-- The tables as user code sees them, but for the program page: nothing is open except,
perhaps, the page at 132 MB. -/
structure Shape (pg : Paging) : Prop where
  directory : ∀ i, i < 1024 → i ≠ 32 → i ≠ 33 →
    ¬ ((pg.pageDirectory i).present = true ∧ (pg.pageDirectory i).us = true)
  screen : (pg.pageDirectory 33).present = true ∧ (pg.pageDirectory 33).us = true →
    (pg.pageDirectory 33).size = false ∧
      ((pg.pageDirectory 33).high = L.vidMemTable ∨ (pg.pageDirectory 33).high = 0)
  table : ∀ j, j < 1024 → j ≠ 0 →
    ¬ ((pg.vidMemTable j).present = true ∧ (pg.vidMemTable j).us = true)
  frame : (pg.vidMemTable 0).addr = 0 ∨ (pg.vidMemTable 0).addr = ptVideo

/-- The page at 132 MB, where it is open, has the table of the screen. -/
structure Settled (pg : Paging) : Prop extends Shape L pg where
  linked : (pg.pageDirectory 33).present = true ∧ (pg.pageDirectory 33).us = true →
    (pg.pageDirectory 33).high = L.vidMemTable

/-- Physical frame 0, read as a page table, opens no page. -/
def LowClosed (pg : Paging) : Prop :=
  ∀ j < 1024, ¬ ((pg.lowFrame j).present = true ∧ (pg.lowFrame j).us = true)

/-- Frame 0 as user code has left it. -/
def withLow (pg : Paging) (low : Nat → PtEntry) : Paging := { pg with lowFrame := low }

/-- The program page is that of process `pid`. -/
structure Mapped (pg : Paging) (pid : Nat) : Prop where
  present : (pg.pageDirectory 32).present = true
  user : (pg.pageDirectory 32).us = true
  size : (pg.pageDirectory 32).size = true
  base : (pg.pageDirectory 32).mbBase = pid + 2

/-- User code reaches the program page of `pid`, the page at 132 MB, which is frame 0 or the
VGA frame, and nothing else. -/
structure Isolated (pg : Paging) (pid : Nat) : Prop where
  only : ∀ a < 2 ^ 32, pg.translateUser L a ≠ none →
    128 * mb ≤ a ∧ a < 132 * mb ∨ 132 * mb ≤ a ∧ a < 132 * mb + 4096
  program : ∀ a, 128 * mb ≤ a → a < 132 * mb →
    pg.translateUser L a = some (8 * mb + 4 * mb * pid + (a - 128 * mb))
  frames : ∀ a < 2 ^ 32, ∀ x, pg.translateUser L a = some x →
    8 * mb + 4 * mb * pid ≤ x ∧ x < 8 * mb + 4 * mb * (pid + 1) ∨ x < 4096 ∨
      ptVideo * 4096 ≤ x ∧ x < ptVideo * 4096 + 4096

variable {L} {pg : Paging} {pid : Nat}

theorem Mapped.translate (h : Mapped pg pid) {a : Nat} (ha : a / 4194304 = 32) :
    pg.translateUser L a = some (8 * mb + 4 * mb * pid + (a - 128 * mb)) := by
  have hi : a / (4 * mb) = 32 := ha
  unfold translateUser
  dsimp only
  rw [hi, if_pos ⟨h.present, h.user⟩, if_pos h.size, h.base]
  refine congrArg some ?_
  simp only [mb]
  omega

theorem Shape.screen_translate (h : Shape L pg) (hlow : Settled L pg ∨ LowClosed pg) {a x : Nat}
    (ha : a / 4194304 = 33) (hx : pg.translateUser L a = some x) :
    a / 4096 % 1024 = 0 ∧ (x = a % 4096 ∨ x = ptVideo * 4096 + a % 4096) := by
  have hi : a / (4 * mb) = 33 := ha
  unfold translateUser at hx
  dsimp only at hx
  rw [hi] at hx
  split at hx
  · rename_i hopen
    obtain ⟨hsize, hhigh⟩ := h.screen hopen
    rw [hsize, if_neg (by decide)] at hx
    obtain ⟨table, htable, hx⟩ := Option.bind_eq_some_iff.mp hx
    split at hx
    · rename_i hpage
      have hvid : table = pg.vidMemTable := by
        have h1 := L.pageTable_kernel.1
        have h2 := L.vidMemTable_kernel.1
        unfold tableAt at htable
        rcases hhigh with hhigh | hhigh
        · rw [hhigh, if_neg L.distinct.symm, if_pos rfl] at htable
          exact (Option.some.inj htable).symm
        · rw [hhigh, if_neg (by omega), if_neg (by omega), if_pos rfl] at htable
          cases htable
          -- the entry is cleared and present: the processor walks frame 0
          rcases hlow with hset | hlow
          · have hlinked := hset.linked hopen
            omega
          · exact absurd hpage (hlow _ (Nat.mod_lt _ (by decide)))
      subst hvid
      have hzero : a / 4096 % 1024 = 0 := by
        by_contra hne
        exact h.table _ (Nat.mod_lt _ (by decide)) hne hpage
      refine ⟨hzero, ?_⟩
      rw [hzero] at hx
      cases hx
      rcases h.frame with hf | hf <;> rw [hf] <;> simp
    · cases hx
  · cases hx

theorem Shape.closed (h : Shape L pg) {a : Nat} (ha : a < 2 ^ 32) (h32 : a / 4194304 ≠ 32)
    (h33 : a / 4194304 ≠ 33) : pg.translateUser L a = none := by
  unfold translateUser
  dsimp only
  rw [if_neg]
  exact h.directory _ (by simp only [mb]; omega) h32 h33

/-- The two conditions give the isolation of the process that is mapped. -/
theorem Shape.isolated (h : Shape L pg) (hlow : Settled L pg ∨ LowClosed pg)
    (hm : Mapped pg pid) : Isolated L pg pid where
  only a ha hsome := by
    by_cases h32 : a / 4194304 = 32
    · simp only [mb]
      omega
    · by_cases h33 : a / 4194304 = 33
      · obtain ⟨x, hx⟩ := Option.ne_none_iff_exists'.mp hsome
        have hzero := (h.screen_translate hlow h33 hx).1
        simp only [mb]
        omega
      · exact absurd (h.closed ha h32 h33) hsome
  program a hlo hhi := by
    refine hm.translate ?_
    simp only [mb] at hlo hhi
    omega
  frames a ha x hx := by
    by_cases h32 : a / 4194304 = 32
    · rw [hm.translate h32] at hx
      have heq := Option.some.inj hx
      left
      simp only [mb] at heq ⊢
      omega
    · by_cases h33 : a / 4194304 = 33
      · have hx' := (h.screen_translate hlow h33 hx).2
        right
        omega
      · rw [h.closed ha h32 h33] at hx
        cases hx

/-- Processes with different numbers have different memory. -/
theorem Isolated.disjoint {pg' : Paging} {pid' : Nat} (h : Isolated L pg pid)
    (h' : Isolated L pg' pid') (hne : pid ≠ pid') {a a' : Nat} (ha : 128 * mb ≤ a ∧ a < 132 * mb)
    (ha' : 128 * mb ≤ a' ∧ a' < 132 * mb) : pg.translateUser L a ≠ pg'.translateUser L a' := by
  rw [h.program a ha.1 ha.2, h'.program a' ha'.1 ha'.2]
  simp only [mb, ne_eq, Option.some.injEq] at ha ha' ⊢
  omega

/-! ## Assignments -/

/-- The directory and the table of the screen are the same. -/
theorem Shape.congr {pg' : Paging} (h : Shape L pg) (hd : pg'.pageDirectory = pg.pageDirectory)
    (ht : pg'.vidMemTable = pg.vidMemTable) : Shape L pg' :=
  ⟨by rw [hd]; exact h.directory, by rw [hd]; exact h.screen, by rw [ht]; exact h.table,
    by rw [ht]; exact h.frame⟩

theorem Settled.congr {pg' : Paging} (h : Settled L pg) (hd : pg'.pageDirectory = pg.pageDirectory)
    (ht : pg'.vidMemTable = pg.vidMemTable) : Settled L pg' :=
  ⟨h.toShape.congr hd ht, by rw [hd]; exact h.linked⟩

theorem Mapped.congr {pg' : Paging} (h : Mapped pg pid)
    (hd : pg'.pageDirectory 32 = pg.pageDirectory 32) : Mapped pg' pid :=
  ⟨hd ▸ h.present, hd ▸ h.user, hd ▸ h.size, hd ▸ h.base⟩

theorem settled_boot : Settled L (Paging.boot.pagingInit L) where
  directory i hi h32 h33 := by
    simp only [pagingInit]
    split_ifs <;> simp [PdtEntry.initKb, PdtEntry.initMb, PdtEntry.setMbBase]
  screen h := by
    have hpde : (Paging.boot.pagingInit L).pageDirectory 33 = PdtEntry.initMb.setMbBase 33 := rfl
    rw [hpde] at h
    exact absurd h.1 (by decide)
  linked h := by
    have hpde : (Paging.boot.pagingInit L).pageDirectory 33 = PdtEntry.initMb.setMbBase 33 := rfl
    rw [hpde] at h
    exact absurd h.1 (by decide)
  table j _ _ := by simp [pagingInit, boot, PtEntry.init]
  frame := .inl rfl

theorem setPde_of_ne (pg : Paging) (f : PdtEntry → PdtEntry) {i j : Nat} (h : j ≠ i) :
    (pg.setPde i f).pageDirectory j = pg.pageDirectory j := by
  simp [setPde, Function.update_of_ne h]

/-- An assignment to the entry of the program page. -/
theorem Settled.setProgram (h : Settled L pg) (f : PdtEntry → PdtEntry) :
    Settled L (pg.setPde programPageIdx f) := by
  have hne : ∀ i, i ≠ 32 → (pg.setPde programPageIdx f).pageDirectory i = pg.pageDirectory i :=
    fun _ hi => setPde_of_ne pg f hi
  have hne33 := hne 33 (by decide)
  exact ⟨⟨fun i hi h32 h33 => by rw [hne i h32]; exact h.directory i hi h32 h33,
    by rw [hne33]; exact h.screen, h.table, h.frame⟩, by rw [hne33]; exact h.linked⟩

theorem Settled.pidPageMap (h : Settled L pg) {pid : Nat} {f : Paging → Paging}
    (hf : f ∈ Paging.pidPageMap pid) : Settled L (f pg) := by
  simp only [Paging.pidPageMap, List.mem_cons, List.not_mem_nil, or_false] at hf
  rcases hf with rfl | rfl | rfl | rfl | rfl <;> exact h.setProgram _

/-- The base address that `pid_page_map` computes. -/
theorem pidBase {pid : Nat} (hpid : pid < procNum) :
    (pid * (4 * mb) + 8 * mb) / (4 * mb) % 1024 = pid + 2 := by
  simp only [mb, procNum] at hpid ⊢
  omega

theorem mapped_pidPageMap (pg : Paging) {pid : Nat} (hpid : pid < procNum) :
    Mapped ((Paging.pidPageMap pid).foldl (fun pg f => f pg) pg) pid := by
  have hbase := pidBase hpid
  refine ⟨?_, ?_, ?_, ?_⟩ <;>
    simp [Paging.pidPageMap, setPde, PdtEntry.setMbBase, PdtEntry.mbBase, hbase]
  omega

/-- A process that is mapped stays so while it is mapped again. -/
theorem Mapped.pidPageMap (h : Mapped pg pid) (hpid : pid < procNum) {f : Paging → Paging}
    (hf : f ∈ Paging.pidPageMap pid) : Mapped (f pg) pid := by
  have hbase := pidBase hpid
  have hset {g : PdtEntry → PdtEntry} (hp : (g (pg.pageDirectory 32)).present = true)
      (hu : (g (pg.pageDirectory 32)).us = true) (hs : (g (pg.pageDirectory 32)).size = true)
      (hb : (g (pg.pageDirectory 32)).mbBase = pid + 2) :
      Mapped (pg.setPde programPageIdx g) pid := by
    have hself : (pg.setPde programPageIdx g).pageDirectory 32 = g (pg.pageDirectory 32) := by
      simp [setPde]
    exact ⟨hself ▸ hp, hself ▸ hu, hself ▸ hs, hself ▸ hb⟩
  simp only [Paging.pidPageMap, List.mem_cons, List.not_mem_nil, or_false] at hf
  rcases hf with rfl | rfl | rfl | rfl | rfl
  · exact hset rfl h.user h.size h.base
  · exact hset h.present h.user rfl h.base
  · exact hset h.present rfl h.size h.base
  · exact hset h.present h.user h.size h.base
  · refine hset h.present h.user h.size ?_
    simp only [PdtEntry.setMbBase, PdtEntry.mbBase, hbase]
    omega

/-- The entry of the screen page refers to no other table than that of the screen. -/
def SmallScreen (L : Layout) (pg : Paging) : Prop :=
  (pg.pageDirectory 33).size = false ∧
    ((pg.pageDirectory 33).high = L.vidMemTable ∨ (pg.pageDirectory 33).high = 0)

/-- An assignment to the entry of the screen page. -/
theorem Shape.setScreen (h : Shape L pg) {f : PdtEntry → PdtEntry}
    (hf : (f (pg.pageDirectory 33)).size = false ∧
      ((f (pg.pageDirectory 33)).high = L.vidMemTable ∨ (f (pg.pageDirectory 33)).high = 0)) :
    Shape L (pg.setPde 33 f) ∧ SmallScreen L (pg.setPde 33 f) := by
  have hself : (pg.setPde 33 f).pageDirectory 33 = f (pg.pageDirectory 33) := by simp [setPde]
  have hsmall : SmallScreen L (pg.setPde 33 f) := by
    unfold SmallScreen
    rw [hself]
    exact hf
  refine ⟨⟨fun i hi h32 h33 => ?_, fun _ => hsmall, h.table, h.frame⟩, hsmall⟩
  rw [setPde_of_ne pg f h33]
  exact h.directory i hi h32 h33

/-- An assignment to the first entry of the table of the screen. -/
theorem Shape.setFrame (h : Shape L pg) {f : PtEntry → PtEntry}
    (hf : (f (pg.vidMemTable 0)).addr = 0 ∨ (f (pg.vidMemTable 0)).addr = ptVideo) :
    Shape L (pg.setVidPte 0 f) := by
  have hself : (pg.setVidPte 0 f).vidMemTable 0 = f (pg.vidMemTable 0) := by simp [setVidPte]
  refine ⟨h.directory, h.screen, fun j hj hj0 => ?_, by rw [hself]; exact hf⟩
  have hne : (pg.setVidPte 0 f).vidMemTable j = pg.vidMemTable j := by
    simp [setVidPte, Function.update_of_ne hj0]
  rw [hne]
  exact h.table j hj hj0

/-- `vidMem_page_map` first clears the entry, and then keeps it small. -/
theorem vidMemPageMap_cons (shown : Bool) : ∃ fs,
    Paging.vidMemPageMap L Kernel.vidMapAddr shown =
      (fun pg => pg.setPde 33 fun _ => PdtEntry.initKb) :: fs ∧
    ∀ f ∈ fs, ∀ pg, Shape L pg → SmallScreen L pg →
      Shape L (f pg) ∧ SmallScreen L (f pg) ∧ (f pg).pageDirectory 32 = pg.pageDirectory 32 := by
  have hi : Kernel.vidMapAddr / (4 * mb) = 33 := by decide
  unfold Paging.vidMemPageMap
  dsimp only
  rw [hi]
  refine ⟨_, rfl, fun f hf pg h hsmall => ?_⟩
  have hpde {g : PdtEntry → PdtEntry} (hg : (g (pg.pageDirectory 33)).size = false ∧
      ((g (pg.pageDirectory 33)).high = L.vidMemTable ∨ (g (pg.pageDirectory 33)).high = 0)) :
      Shape L (pg.setPde 33 g) ∧ SmallScreen L (pg.setPde 33 g) ∧
        (pg.setPde 33 g).pageDirectory 32 = pg.pageDirectory 32 :=
    ⟨(h.setScreen hg).1, (h.setScreen hg).2, setPde_of_ne pg g (by decide)⟩
  have hpte {g : PtEntry → PtEntry}
      (hg : (g (pg.vidMemTable 0)).addr = 0 ∨ (g (pg.vidMemTable 0)).addr = ptVideo) :
      Shape L (pg.setVidPte 0 g) ∧ SmallScreen L (pg.setVidPte 0 g) ∧
        (pg.setVidPte 0 g).pageDirectory 32 = pg.pageDirectory 32 :=
    ⟨h.setFrame hg, hsmall, rfl⟩
  simp only [List.mem_cons, List.not_mem_nil, or_false] at hf
  rcases hf with rfl | rfl | rfl | rfl | rfl | rfl | rfl | rfl
  · exact hpde hsmall
  · exact hpde hsmall
  · exact hpde hsmall
  · exact hpde ⟨hsmall.1, .inl rfl⟩
  · exact hpte h.frame
  · exact hpte h.frame
  · exact hpte h.frame
  · exact hpte (by cases shown <;> simp)

/-- In the end the entry refers to the table of the screen. -/
theorem linked_vidMemPageMap (pg : Paging) (shown : Bool) :
    (((Paging.vidMemPageMap L Kernel.vidMapAddr shown).foldl (fun pg f => f pg)
      pg).pageDirectory 33).high = L.vidMemTable := by
  have hi : Kernel.vidMapAddr / (4 * mb) = 33 := by decide
  simp [Paging.vidMemPageMap, hi, setPde, setVidPte]

end Paging

namespace Kernel

variable (L : Layout)

/-! ## Programs -/

/-- The screen page has its table, and the current process is mapped. -/
def Iso (s : Kernel) : Prop := s.pg.Settled L ∧ (s.started → s.pg.Mapped s.curr)

/-- Where interrupts can come in, the current process is isolated. -/
def Guarded (v : Kernel) : Prop := v.intr = true → Iso L v

/-- Inside a routine that has disabled interrupts. -/
def Locked (s : Kernel) : Prop := s.pg.Settled L ∧ s.intr = false

theorem guarded_of_intr {s : Kernel} (h : s.intr = false) : Guarded L s := fun hi => by
  rw [h] at hi
  cases hi

theorem Locked.guarded {s : Kernel} (h : Locked L s) : Guarded L s := guarded_of_intr L h.2

theorem Iso.guarded {s : Kernel} (h : Iso L s) : Guarded L s := fun _ => h

variable {L} {P : Kernel → Prop} {s s₀ : Kernel}

/-- The page tables of user code and the interrupt flag are the same. -/
def SameMap (s s' : Kernel) : Prop :=
  s'.pg.pageDirectory = s.pg.pageDirectory ∧ s'.pg.vidMemTable = s.pg.vidMemTable ∧
    s'.intr = s.intr

theorem setActiveTerminal_map (s : Kernel) (t : Terminal) : SameMap s (s.setActiveTerminal t) := by
  unfold setActiveTerminal
  dsimp only
  split <;> exact ⟨rfl, rfl, rfl⟩

/-- An assignment to other fields, under the lock, and what follows it. -/
theorem locked_then {α : Type} {f : Kernel → Kernel} {p : Prog Kernel α} {R : α → Kernel → Prop}
    {Q : Kernel → Prop} (hf : ∀ s, SameMap s (f s)) (hQ : ∀ s, P s → Q (f s))
    (hp : Prog.Triple (Guarded L) (fun s => Locked L s ∧ Q s) p R) :
    Prog.Triple (Guarded L) (fun s => Locked L s ∧ P s) (Prog.update f >>= fun _ => p) R :=
  Prog.Triple.bind (Q := fun _ s => Locked L s ∧ Q s) (Prog.Triple.update fun s hs => by
    obtain ⟨hd, ht, hi⟩ := hf s
    have hl : Locked L (f s) := ⟨hs.1.1.congr hd ht, hi.trans hs.1.2⟩
    exact ⟨hl.guarded, hl, hQ s hs.2⟩) fun _ => hp

/-- The end of a locked part, in which the current process has been mapped. -/
theorem sti_triple : Prog.Triple (Guarded L) (fun s => Locked L s ∧ s.pg.Mapped s.curr)
    (Prog.update sti) fun _ s => Iso L s :=
  Prog.Triple.update fun s hs => by
    have hiso : Iso L s.sti := ⟨hs.1.1, fun _ => hs.2⟩
    exact ⟨hiso.guarded, hiso⟩

theorem pidPageMap_mem {pid : Pid} {f : Kernel → Kernel} (hf : f ∈ pidPageMap pid) :
    ∃ g ∈ Paging.pidPageMap pid.val, f = mapPg g := by
  obtain ⟨g, hg, rfl⟩ := List.mem_map.mp hf
  exact ⟨g, hg, rfl⟩

/-- `pid_page_map` under the lock. -/
theorem pidPageMap_triple (pid : Pid) (hP : ∀ s g, P s → P (s.mapPg g)) :
    Prog.Triple (Guarded L) (fun s => Locked L s ∧ P s) (Prog.updates (pidPageMap pid))
      fun _ s => Locked L s ∧ P s ∧ s.pg.Mapped pid := by
  have hkeep : ∀ f ∈ pidPageMap pid, ∀ s : Kernel, Locked L s ∧ P s → Locked L (f s) ∧ P (f s) := by
    intro f hf s ⟨hl, hp⟩
    obtain ⟨g, hg, rfl⟩ := pidPageMap_mem hf
    exact ⟨⟨hl.1.pidPageMap hg, hl.2⟩, hP s g hp⟩
  intro s hs
  have hkept := Prog.Triple.updates (I := Guarded L) (fun s hs => hs.1.guarded) hkeep s hs
  refine ⟨hkept.1, fun a s' hres => ?_⟩
  have hpost := hkept.2 a s' hres
  refine ⟨hpost.1, hpost.2, ?_⟩
  rw [Prog.result_updates, pidPageMap, foldl_mapPg] at hres
  cases hres
  exact Paging.mapped_pidPageMap s.pg pid.isLt

/-- `vidMem_page_map`, wherever it is called. -/
theorem vidMemPageMap_triple (s₀ : Kernel) (t : Terminal) {I : Kernel → Prop}
    (hI : ∀ s, s.pg.Shape L → P s → I s)
    (hP : ∀ s g, P s → (g s.pg).pageDirectory 32 = s.pg.pageDirectory 32 → P (s.mapPg g)) :
    Prog.Triple I (fun s => s.pg.Shape L ∧ P s) (Prog.updates (vidMemPageMap L s₀ t))
      fun _ s => s.pg.Settled L ∧ P s := by
  obtain ⟨fs, hfs, hkeep⟩ := Paging.vidMemPageMap_cons (L := L)
    (decide (t = s₀.tty.con.displayTerminal))
  suffices hshape : Prog.Triple I (fun s => s.pg.Shape L ∧ P s)
      (Prog.updates (vidMemPageMap L s₀ t)) fun _ s => s.pg.Shape L ∧ P s by
    intro s hs
    refine ⟨(hshape s hs).1, fun a s' hres => ?_⟩
    have hpost := (hshape s hs).2 a s' hres
    refine ⟨⟨hpost.1, fun _ => ?_⟩, hpost.2⟩
    rw [Prog.result_updates, vidMemPageMap, foldl_mapPg] at hres
    cases hres
    exact Paging.linked_vidMemPageMap s.pg _
  unfold vidMemPageMap
  rw [hfs, List.map_cons, Prog.updates]
  refine Prog.Triple.bind (Q := fun _ s => (s.pg.Shape L ∧ s.pg.SmallScreen L) ∧ P s)
    (Prog.Triple.update fun s hs => ?_) fun _ => ?_
  · obtain ⟨h, hp⟩ := hs
    have hclear := h.setScreen (f := fun _ => PdtEntry.initKb) ⟨rfl, .inr rfl⟩
    have hp' := hP s (fun pg => pg.setPde 33 fun _ => PdtEntry.initKb) hp
      (s.pg.setPde_of_ne _ (by decide))
    exact ⟨hI _ hclear.1 hp', hclear, hp'⟩
  · refine Prog.Triple.conseq (Prog.Triple.updates (I := I)
      (P := fun s => (s.pg.Shape L ∧ s.pg.SmallScreen L) ∧ P s)
      (fun s hs => hI s hs.1.1 hs.2) fun f hf s hs => ?_) (fun _ h => h)
      fun _ s hs => ⟨hs.1.1, hs.2⟩
    obtain ⟨⟨h, hsmall⟩, hp⟩ := hs
    obtain ⟨g, hg, rfl⟩ := List.mem_map.mp hf
    obtain ⟨h', hsmall', hpde⟩ := hkeep g hg s.pg h hsmall
    exact ⟨⟨h', hsmall'⟩, hP s g hp hpde⟩

/-! ## The routines -/

theorem launch_triple (env : Env) (pid : Pid) (t : Terminal) :
    Prog.Triple (Guarded L) (Locked L) (launch env pid t) fun _ s => Iso L s := by
  have hinit : ∀ s, SameMap s (pcbInit s pid t) ∧ (pcbInit s pid t).curr = pid := fun s => by
    rw [pcbInit_eq]
    exact ⟨⟨rfl, rfl, rfl⟩, rfl⟩
  unfold launch
  refine Prog.Triple.conseq (P := fun s => Locked L s ∧ True) ?_ (fun s hs => ⟨hs, trivial⟩)
    fun _ _ h => h
  refine locked_then (Q := fun _ => True) (fun _ => by exact ⟨rfl, rfl, rfl⟩)
    (fun _ _ => trivial) ?_
  refine locked_then (Q := fun s => s.curr = pid) (fun s => (hinit s).1)
    (fun s _ => (hinit s).2) ?_
  refine locked_then (Q := fun s => s.curr = pid) (fun _ => by exact ⟨rfl, rfl, rfl⟩)
    (fun _ h => by exact h) ?_
  refine Prog.Triple.bind (pidPageMap_triple pid fun _ _ h => h) fun _ => ?_
  refine locked_then (Q := fun s => s.curr = pid ∧ s.pg.Mapped pid)
    (fun s => setActiveTerminal_map s t)
    (fun s h => ⟨h.1, h.2.congr (congrFun (setActiveTerminal_map s t).1 32)⟩) ?_
  refine locked_then (Q := fun s => s.curr = pid ∧ s.pg.Mapped pid)
    (fun _ => by exact ⟨rfl, rfl, rfl⟩) (fun _ h => by exact h) ?_
  refine locked_then (Q := fun s => s.pg.Mapped s.curr) (fun _ => by exact ⟨rfl, rfl, rfl⟩)
    (fun s h => ?_) sti_triple
  have hcurr : s.curr = pid := h.1
  exact hcurr ▸ h.2

/-- The next process is mapped before it is the current one, under the lock. -/
theorem switchTo_triple (pid : Pid) :
    Prog.Triple (Guarded L) (Locked L) (switchTo L pid) fun _ s => Iso L s := by
  unfold switchTo
  refine Prog.Triple.bind (Q := fun _ s => Locked L s ∧ True)
    (Prog.Triple.get fun s hs => ⟨hs, trivial⟩) fun a => ?_
  dsimp only
  refine Prog.Triple.bind (pidPageMap_triple (a.pcb pid).pid fun _ _ h => h) fun _ => ?_
  refine Prog.Triple.bind (Q := fun _ s => s.pg.Shape L ∧ s.intr = false ∧
    s.pg.Mapped (a.pcb pid).pid)
    (Prog.Triple.get fun s hs => ⟨hs.1.1.toShape, hs.1.2, hs.2.2⟩) fun b => ?_
  refine Prog.Triple.bind (vidMemPageMap_triple b (a.pcb pid).terminal
    (fun s _ hp => guarded_of_intr L hp.1) fun s g hp hg =>
      ⟨hp.1, hp.2.congr hg⟩) fun _ => ?_
  refine Prog.Triple.conseq (P := fun s => Locked L s ∧ s.pg.Mapped (a.pcb pid).pid) ?_
    (fun s hs => ⟨⟨hs.1, hs.2.1⟩, hs.2.2⟩) fun _ _ h => h
  refine locked_then (Q := fun s => s.pg.Mapped (a.pcb pid).pid)
    (fun _ => by exact ⟨rfl, rfl, rfl⟩) (fun _ h => by exact h) ?_
  refine locked_then (Q := fun s => s.pg.Mapped s.curr) (fun _ => by exact ⟨rfl, rfl, rfl⟩)
    (fun _ h => by exact h) ?_
  exact locked_then (Q := fun s => s.pg.Mapped s.curr) (fun s => setActiveTerminal_map s _)
    (fun s h => Paging.Mapped.congr (by
      unfold setActiveTerminal
      exact h) (congrFun (setActiveTerminal_map s _).1 32)) sti_triple

/-- An assignment that user code does not see. -/
theorem iso_update {f : Kernel → Kernel} (hpg : ∀ s, (f s).pg = s.pg)
    (htCurr : ∀ s, (f s).tCurr = s.tCurr) (hcurr : ∀ s, (f s).curr = s.curr) :
    Prog.Triple (Guarded L) (Iso L) (Prog.update f) fun _ s => Iso L s :=
  Prog.Triple.keep (fun _ h => h.guarded) fun s hs => by
    refine ⟨by rw [hpg]; exact hs.1, fun hst => ?_⟩
    rw [hpg, hcurr]
    exact hs.2 (by simpa only [started, htCurr] using hst)

theorem schedule_triple (env : Env) :
    Prog.Triple (Guarded L) (Locked L) (schedule L env) fun _ s => Iso L s := by
  unfold schedule
  refine Prog.Triple.bind (Q := fun _ s => Locked L s) (Prog.Triple.get fun _ hs => hs) fun a => ?_
  refine Prog.Triple.bind (Q := fun _ s => Locked L s) (Prog.Triple.call fun s pid s' hs h => ?_)
    fun pid => ?_
  · obtain ⟨t, -, h⟩ := Option.bind_eq_some_iff.mp h
    obtain ⟨q, -, h⟩ := Option.map_eq_some_iff.mp h
    cases h
    exact ⟨hs.guarded, hs⟩
  · refine Prog.Triple.bind (switchTo_triple pid) fun _ => ?_
    exact iso_update (fun _ => rfl) (fun _ => rfl) fun _ => rfl

/-- The process `par` has been resumed. -/
structure Resumed (L : Layout) (par : Pid) (s : Kernel) : Prop where
  settled : s.pg.Settled L
  mapped : s.pg.Mapped par
  curr : s.curr = par
  named : (s.pcb par).pid = par

theorem Resumed.iso {par : Pid} (h : Resumed L par s) : Iso L s :=
  ⟨h.settled, fun _ => by rw [h.curr]; exact h.mapped⟩

/-- The parent is mapped once it is the current process. -/
theorem resumeParent_triple (par : Pid) (parentEsp : Int) :
    Prog.Triple (Guarded L) (fun s => Locked L s ∧ s.curr = par ∧ (s.pcb par).pid = par)
      (resumeParent par parentEsp) fun _ s => Resumed L par s := by
  unfold resumeParent
  refine Prog.Triple.bind (Q := fun a s =>
      (a.pcb par).pid = par ∧ Locked L s ∧ s.curr = par ∧ (s.pcb par).pid = par)
    (Prog.Triple.get fun s hs => ⟨hs.2.2, hs⟩) fun a => Prog.Triple.assume fun hid => ?_
  rw [hid]
  refine Prog.Triple.bind (pidPageMap_triple par fun _ _ h => h) fun _ => ?_
  refine locked_then (Q := fun s => (s.curr = par ∧ (s.pcb par).pid = par) ∧ s.pg.Mapped par)
    (fun _ => by exact ⟨rfl, rfl, rfl⟩) (fun _ h => by exact h) ?_
  refine Prog.Triple.update fun s ⟨hl, ⟨hcurr, hnamed⟩, hmapped⟩ => ?_
  have hres : Resumed L par s.sti := ⟨hl.1, hmapped, hcurr, hnamed⟩
  exact ⟨hres.iso.guarded, hres⟩

/-- Mapping the current process again changes nothing, with interrupts enabled too. -/
theorem resumeAgain_triple (par : Pid) (parentEsp : Int) :
    Prog.Triple (Guarded L) (Resumed L par) (resumeParent par parentEsp)
      fun _ s => Resumed L par s := by
  unfold resumeParent
  refine Prog.Triple.bind (Q := fun a s => (a.pcb par).pid = par ∧ Resumed L par s)
    (Prog.Triple.get fun s hs => ⟨hs.named, hs⟩) fun a => Prog.Triple.assume fun hid => ?_
  rw [hid]
  refine Prog.Triple.bind (Prog.Triple.updates (P := Resumed L par)
    (fun s hs => hs.iso.guarded) fun f hf s hs => ?_) fun _ => ?_
  · obtain ⟨g, hg, rfl⟩ := pidPageMap_mem hf
    exact ⟨hs.settled.pidPageMap hg, hs.mapped.pidPageMap par.isLt hg, hs.curr, hs.named⟩
  refine Prog.Triple.bind (Prog.Triple.keep (fun _ h => h.iso.guarded) fun s hs => ?_) fun _ =>
    Prog.Triple.keep (fun _ h => h.iso.guarded) fun s hs => ?_
  · exact ⟨hs.settled, hs.mapped, hs.curr, hs.named⟩
  · exact ⟨hs.settled, hs.mapped, hs.curr, hs.named⟩

/-- The root is mapped until the processor faults. -/
theorem leaveRoot_triple {par : Pid} {parentEsp : Int} {R : Unit → Kernel → Prop}
    (h : Prog.Triple (Guarded L) P (resumeParent par parentEsp) fun _ s => Resumed L par s) :
    Prog.Triple (Guarded L) P (leaveRoot par parentEsp) R :=
  Prog.Triple.bind h fun _ => Prog.Triple.call fun _ _ _ _ hnone => by cases hnone

/-- The process tables and the page tables of user code are those of `s₀`. -/
structure Near (s₀ s : Kernel) : Prop where
  tables : SameTables s₀ s
  directory : s.pg.pageDirectory = s₀.pg.pageDirectory
  table : s.pg.vidMemTable = s₀.pg.vidMemTable

theorem Near.refl (s : Kernel) : Near s s := ⟨⟨rfl, rfl, rfl, rfl⟩, rfl, rfl⟩

theorem Near.trans {s₁ s₂ : Kernel} (h : Near s₀ s₁) (h' : Near s₁ s₂) : Near s₀ s₂ :=
  ⟨h.tables.trans h'.tables, h'.directory.trans h.directory, h'.table.trans h.table⟩

theorem Near.iso (h : Near s₀ s) (hiso : Iso L s₀) : Iso L s := by
  refine ⟨hiso.1.congr h.directory h.table, fun hst => ?_⟩
  rw [h.tables.curr]
  refine (hiso.2 ?_).congr (congrFun h.directory 32)
  simpa only [started, h.tables.tCurr] using hst

/-- `execute_with_terminal_num` maps the process that it starts. It may enable interrupts
without one, to print its message, where all process numbers are taken. -/
theorem execute_triple (hset : s₀.pg.Settled L)
    (hfull : s₀.getPid = none → s₀.started → s₀.pg.Mapped s₀.curr) (env : Env)
    (cmd : List UInt8) (t : Terminal) :
    Prog.Triple (Guarded L) (Near s₀) (executeWithTerminalNum env (some cmd) t) fun o s =>
      match o with
      | .entered _ => Iso L s
      | .returned _ => Near s₀ s ∧ (s₀.getPid ≠ none → s.intr = false) := by
  have hlocked : ∀ s, Near s₀ s → s.intr = false → Locked L s := fun s h hi =>
    ⟨hset.congr h.directory h.table, hi⟩
  unfold executeWithTerminalNum
  refine Prog.Triple.bind (Q := fun _ s => Near s₀ s ∧ s.intr = false)
    (Prog.Triple.update fun s h => ?_) fun _ => ?_
  · have hcli : Near s₀ s.cli :=
      ⟨⟨h.tables.tCurr, h.tables.procState, h.tables.curr, h.tables.pcb⟩, h.directory, h.table⟩
    exact ⟨(hlocked _ hcli rfl).guarded, hcli, rfl⟩
  refine Prog.Triple.bind (Q := fun _ s => Near s₀ s ∧ s.intr = false)
    (Prog.Triple.call fun s r s' hs h => ?_) fun r => ?_
  · obtain ⟨n, -, -, rfl⟩ := verifyFile_state h
    obtain ⟨h, hi⟩ := hs
    have hargs : Near s₀ (s.withArgs (argText (cmd.take n))) :=
      ⟨⟨h.tables.tCurr, h.tables.procState, h.tables.curr, h.tables.pcb⟩, h.directory, h.table⟩
    exact ⟨(hlocked _ hargs hi).guarded, hargs, hi⟩
  cases r with
  | none =>
    exact Prog.Triple.conseq (Prog.Triple.pure _) (fun s hs => ⟨hs.1, fun _ => hs.2⟩)
      fun _ _ h => h
  | some v =>
    refine Prog.Triple.bind (Q := fun a s => a.getPid = s₀.getPid ∧ Near s₀ s ∧ s.intr = false)
      (Prog.Triple.get fun s hs => ⟨?_, hs⟩) fun a => Prog.Triple.assume fun hget => ?_
    · unfold getPid
      rw [hs.1.tables.procState]
    cases hpid : a.getPid with
    | none =>
      refine Prog.Triple.bind (Q := fun _ s => Near s₀ s)
        (Prog.Triple.call fun s r s' hs h => ?_) fun _ => ?_
      · obtain ⟨h₀, -⟩ := hs
        obtain ⟨⟨r, tty⟩, -, h⟩ := Option.map_eq_some_iff.mp h
        cases h
        have hnear : Near s₀ { s with tty := tty, intr := true } :=
          ⟨⟨h₀.tables.tCurr, h₀.tables.procState, h₀.tables.curr, h₀.tables.pcb⟩, h₀.directory,
            h₀.table⟩
        have hiso : Iso L s₀ := ⟨hset, hfull (hget ▸ hpid)⟩
        exact ⟨(hnear.iso hiso).guarded, hnear⟩
      · exact Prog.Triple.conseq (Prog.Triple.pure _)
          (fun s hs => ⟨hs, fun hne => absurd (hget ▸ hpid) hne⟩) fun _ _ h => h
    | some pid =>
      refine Prog.Triple.bind (Prog.Triple.conseq (launch_triple env pid t)
        (fun s hs => hlocked s hs.1 hs.2) fun _ _ h => h) fun _ => ?_
      exact Prog.Triple.conseq (Prog.Triple.pure _) (fun s hs => hs) fun _ _ h => h

/-! ## The operations -/

/-- A command executed between operations. -/
theorem execute_iso (h₀ : Iso L s₀) (env : Env) (cmd : Option (List UInt8)) (t : Terminal) :
    Prog.Triple (Guarded L) (Near s₀) (executeWithTerminalNum env cmd t) fun _ s => Iso L s := by
  cases cmd with
  | none => exact Prog.Triple.conseq (Prog.Triple.pure _) (fun s hs => hs.iso h₀) fun _ _ h => h
  | some cmd =>
    refine Prog.Triple.conseq (execute_triple h₀.1 (fun _ => h₀.2) env cmd t) (fun _ h => h)
      fun o s h => ?_
    cases o with
    | entered v => exact h
    | returned v => exact h.1.iso h₀

theorem getPid_halted (s : Kernel) : s.halted.getPid ≠ none := fun h => by
  have hused := getPid_eq_none.mp h s.cur.pid
  have hfree : s.halted.procState s.cur.pid = false := Function.update_self ..
  rw [hfree] at hused
  cases hused

theorem halt_triple (h₀ : Iso L s₀) (hids : IdsOk s₀) (hst : s₀.started) (env : Env) :
    Prog.Triple (Guarded L) (fun s => s = s₀) (halt env) fun _ s => Iso L s := by
  have hcli : Locked L s₀.cli := ⟨h₀.1, rfl⟩
  have hproc : Locked L (s₀.cli.setProcState s₀.cur.pid false) := ⟨h₀.1, rfl⟩
  have hclosed : Locked L ((s₀.cli.setProcState s₀.cur.pid false).setPcb s₀.curr Pcb.closeAll) :=
    ⟨h₀.1, rfl⟩
  have hhalted : Locked L s₀.halted := ⟨h₀.1, rfl⟩
  have hnamed : (s₀.halted.pcb s₀.cur.pPid).pid = s₀.cur.pPid :=
    (halted_ids s₀ _).1.trans (hids.parent _ (hids.current hst))
  unfold halt
  refine Prog.Triple.bind (Q := fun _ s => s = s₀.cli) (Prog.Triple.update fun s hs => ?_)
    fun _ => ?_
  · rw [hs]
    exact ⟨hcli.guarded, rfl⟩
  refine Prog.Triple.bind (Q := fun a s => a = s₀.cli ∧ s = s₀.cli)
    (Prog.Triple.get fun s hs => ⟨hs, hs⟩) fun a => Prog.Triple.assume fun ha => ?_
  subst ha
  dsimp only
  refine Prog.Triple.bind (Q := fun _ s => s = s₀.cli.setProcState s₀.cur.pid false)
    (Prog.Triple.update fun s hs => ?_) fun _ => ?_
  · rw [hs]
    exact ⟨hproc.guarded, rfl⟩
  refine Prog.Triple.bind (Q := fun _ s =>
      s = (s₀.cli.setProcState s₀.cur.pid false).setPcb s₀.curr Pcb.closeAll)
    (Prog.Triple.update fun s hs => ?_) fun _ => ?_
  · rw [hs]
    exact ⟨hclosed.guarded, rfl⟩
  refine Prog.Triple.bind (Q := fun _ s => s = s₀.halted)
    (Prog.Triple.update fun s hs => ?_) fun _ => ?_
  · rw [hs]
    exact ⟨hhalted.guarded, rfl⟩
  refine Prog.Triple.ite (fun _ => ?_) fun _ => ?_
  · refine Prog.Triple.bind (Prog.Triple.conseq (execute_triple hhalted.1
      (fun hnone => absurd hnone (getPid_halted s₀)) env (cText "shell") _)
      (fun s hs => hs ▸ Near.refl s) fun _ _ h => h) fun o => ?_
    cases o with
    | entered v => exact Prog.Triple.pure (Q := fun _ s => Iso L s) ()
    | returned v =>
      refine leaveRoot_triple (Prog.Triple.conseq (resumeParent_triple s₀.cur.pPid _)
        (fun s hs => ?_) fun _ _ h => h)
      obtain ⟨hnear, hintr⟩ := hs
      refine ⟨⟨hhalted.1.congr hnear.directory hnear.table, hintr (getPid_halted s₀)⟩,
        hnear.tables.curr, ?_⟩
      rw [hnear.tables.pcb]
      exact hnamed
  have hresume : Prog.Triple (Guarded L) (fun s => s = s₀.halted)
      (resumeParent s₀.cur.pPid s₀.cur.parentEsp) fun _ s => Resumed L s₀.cur.pPid s :=
    Prog.Triple.conseq (resumeParent_triple s₀.cur.pPid _)
      (fun s hs => by rw [hs]; exact ⟨hhalted, rfl, hnamed⟩) fun _ _ h => h
  refine Prog.Triple.ite (fun _ => ?_) fun _ => ?_
  · exact Prog.Triple.conseq hresume (fun _ h => h) fun _ _ h => h.iso
  · exact Prog.Triple.bind hresume fun _ => leaveRoot_triple (resumeAgain_triple _ _)

theorem tick_triple (h₀ : Iso L s₀) (hok : s₀.tCurr 0 = none → s₀.getPid ≠ none) (env : Env) :
    Prog.Triple (Guarded L) (fun s => s = s₀) (pitIntHandler L env) fun _ s => Iso L s := by
  have hcli : Locked L s₀.cli := ⟨h₀.1, rfl⟩
  have hclear : Locked L s₀.cli.clear := ⟨h₀.1, rfl⟩
  unfold pitIntHandler
  refine Prog.Triple.bind (Q := fun _ s => s = s₀.cli) (Prog.Triple.update fun s hs => ?_)
    fun _ => ?_
  · rw [hs]
    exact ⟨hcli.guarded, rfl⟩
  refine Prog.Triple.bind (Q := fun a s => a = s₀.cli ∧ s = s₀.cli)
    (Prog.Triple.get fun s hs => ⟨hs, hs⟩) fun a => Prog.Triple.assume fun ha => ?_
  subst ha
  refine Prog.Triple.ite (fun hnone => ?_) fun _ => ?_
  · refine Prog.Triple.bind (Q := fun _ s => s = s₀.cli.clear)
      (Prog.Triple.update fun s hs => ?_) fun _ => ?_
    · rw [hs]
      exact ⟨hclear.guarded, rfl⟩
    have hfree : s₀.cli.clear.getPid ≠ none := hok hnone
    refine Prog.Triple.bind (Prog.Triple.conseq (execute_triple hclear.1
      (fun hnone => absurd hnone hfree) env (cText "shell") 0)
      (fun s hs => hs ▸ Near.refl s) fun _ _ h => h) fun o => ?_
    cases o with
    | entered v => exact Prog.Triple.pure (Q := fun _ s => Iso L s) ()
    | returned v =>
      refine Prog.Triple.conseq (schedule_triple env) (fun s hs => ?_) fun _ _ h => h
      exact ⟨hclear.1.congr hs.1.directory hs.1.table, hs.2 hfree⟩
  · exact Prog.Triple.conseq (schedule_triple env) (fun s hs => by rw [hs]; exact hcli)
      fun _ _ h => h

theorem key_triple (h₀ : Iso L s₀) (env : Env) (input : UInt8) :
    Prog.Triple (Guarded L) (Near s₀) (keyboardHandler env input) fun _ s => Iso L s := by
  unfold keyboardHandler
  have hkeep {f : Kernel → Kernel} (hf : ∀ s, Near s (f s)) :
      Prog.Triple (Guarded L) (Near s₀) (Prog.update f) fun _ s => Near s₀ s :=
    Prog.Triple.keep (fun _ h => (h.iso h₀).guarded) fun s h => h.trans (hf s)
  refine Prog.Triple.bind (hkeep fun s => ⟨cli_tables s, rfl, rfl⟩) fun _ => ?_
  refine Prog.Triple.bind (Q := fun _ s => Near s₀ s) (Prog.Triple.get fun _ h => h) fun a => ?_
  refine Prog.Triple.bind (Q := fun _ s => Near s₀ s) (Prog.Triple.call fun s u s' h hs => ?_)
    fun _ => ?_
  · obtain ⟨tty, -, hs⟩ := Option.map_eq_some_iff.mp hs
    cases hs
    have hnear : Near s₀ { s with tty := tty } :=
      h.trans ⟨⟨rfl, rfl, rfl, rfl⟩, rfl, rfl⟩
    exact ⟨(hnear.iso h₀).guarded, hnear⟩
  refine Prog.Triple.bind (hkeep fun s => ?_) fun _ => ?_
  · unfold displayPaging
    split
    · unfold setActiveTerminal
      dsimp only
      split <;> exact ⟨⟨rfl, rfl, rfl, rfl⟩, rfl, rfl⟩
    · exact Near.refl s
  cases a.launchKey input with
  | none =>
    exact Prog.Triple.conseq (Prog.Triple.pure _) (fun s h => h.iso h₀) fun _ _ h => h
  | some t =>
    refine Prog.Triple.bind (hkeep fun s => ⟨mark_tables s t, rfl, rfl⟩) fun _ => ?_
    exact Prog.Triple.bind (execute_iso h₀ env shell t) fun _ =>
      Prog.Triple.pure (Q := fun _ s => Iso L s) ()

/-- A state on the way of `op`. Only `vidmap` enables interrupts, or leaves them enabled, while
the entry of the screen page is incomplete. -/
def OnWay (L : Layout) (op : Op) (v : Kernel) : Prop :=
  v.intr = true → v.pg.Shape L ∧ ((∀ p, op ≠ .vidmap p) → v.pg.Settled L) ∧
    (v.started → v.pg.Mapped v.curr)

theorem Iso.onWay (h : Iso L s) (op : Op) : OnWay L op s :=
  fun _ => ⟨h.1.toShape, fun _ => h.1, h.2⟩

/-- `vidmap` leaves interrupts enabled, so that each of its assignments counts. -/
theorem vidmap_triple (startScreen : Nat) :
    Prog.Triple (OnWay L (.vidmap startScreen)) (Iso L) (vidmap L startScreen)
      fun _ s => Iso L s := by
  unfold vidmap
  refine Prog.Triple.ite (fun _ => Prog.Triple.pure (Q := fun _ s => Iso L s) _) fun _ => ?_
  refine Prog.Triple.bind (Q := fun _ s => s.pg.Shape L ∧ (s.started → s.pg.Mapped s.curr))
    (Prog.Triple.get fun _ h => ⟨h.1.toShape, h.2⟩) fun a => ?_
  refine Prog.Triple.bind (vidMemPageMap_triple (L := L) a a.tty.con.displayTerminal
    (fun s h hp _ => ⟨h, fun hne => absurd rfl (hne startScreen), hp⟩)
    fun s g hp hg hst => (hp hst).congr hg) fun _ => ?_
  exact Prog.Triple.pure (Q := fun _ s => Iso L s) _

/-- The timer finds a process on terminal 0, or a number for the one that it starts there, and
`vidmap` does not get a pointer into the kernel's page. -/
def KeepsApart (s : Kernel) : Op → Prop
  | .tick _ => s.tCurr 0 = none → s.getPid ≠ none
  | .vidmap startScreen => startScreen ≤ 4 * mb ∨ 8 * mb ≤ startScreen
  | _ => True

theorem code_triple (h₀ : Iso L s₀) (hids : IdsOk s₀) {op : Op} (hen : s₀.enabled op)
    (hok : s₀.KeepsApart op) (hop : ∀ p, op ≠ .vidmap p) :
    Prog.Triple (Guarded L) (fun s => s = s₀) (code L op) fun _ s => Iso L s := by
  have hstill {f : Kernel → Option (Unit × Kernel)}
      (hf : ∀ u s', f s₀ = some (u, s') → Still s₀ s') :
      Prog.Triple (Guarded L) (fun s => s = s₀) (Prog.call f) fun _ s => Iso L s :=
    Prog.Triple.call fun s u s' hs h => by
      have hst := hf u s' (hs ▸ h)
      have hiso : Iso L s' := by
        refine ⟨by rw [hst.pg]; exact h₀.1, fun hs' => ?_⟩
        rw [hst.pg, hst.curr]
        exact h₀.2 (by simpa only [started, hst.tCurr] using hs')
      exact ⟨hiso.guarded, hiso⟩
  have hnear : ∀ s, s = s₀ → Near s₀ s := fun s hs => hs ▸ Near.refl s
  cases op with
  | boot env =>
    unfold code
    refine Prog.Triple.bind (Q := fun _ s => Near s₀ s) (Prog.Triple.update fun s hs => ?_)
      fun _ => Prog.Triple.bind (execute_iso h₀ env shell 0) fun _ =>
        Prog.Triple.pure (Q := fun _ s => Iso L s) ()
    have hclear : Near s₀ s.clear := hs ▸ ⟨clear_tables s, rfl, rfl⟩
    exact ⟨(hclear.iso h₀).guarded, hclear⟩
  | execute env command =>
    unfold code Kernel.execute
    refine Prog.Triple.bind (Q := fun _ s => Iso L s) ?_ fun _ =>
      Prog.Triple.pure (Q := fun _ s => Iso L s) ()
    refine Prog.Triple.bind (Q := fun _ s => Near s₀ s)
      (Prog.Triple.get fun s hs => hnear s hs) fun a => execute_iso h₀ env command _
  | halt env => exact halt_triple h₀ hids hen env
  | tick env => exact tick_triple h₀ hok env
  | key env input =>
    exact Prog.Triple.conseq (key_triple h₀ env input) hnear fun _ _ h => h
  | vidmap startScreen => exact absurd rfl (hop startScreen)
  | openFile filename =>
    exact hstill fun _ _ h => (file_quiet L (.openFile filename) trivial h).toStill
  | close fd => exact hstill fun _ _ h => (file_quiet L (.close fd) trivial h).toStill
  | read fd buf nbytes =>
    exact hstill fun _ _ h => (file_quiet L (.read fd buf nbytes) trivial h).toStill
  | write fd buf nbytes =>
    exact hstill fun _ _ h => (file_quiet L (.write fd buf nbytes) trivial h).toStill
  | rtc => exact hstill fun _ _ h => (file_quiet L .rtc trivial h).toStill

/-- Every operation keeps the current process isolated, on its way and at its end. -/
theorem program_triple (h₀ : Iso L s₀) (hids : IdsOk s₀) {op : Op} (hen : s₀.enabled op)
    (hok : s₀.KeepsApart op) :
    Prog.Triple (OnWay L op) (fun s => s = s₀) (program L op) fun _ s => Iso L s := by
  have hsti : Prog.Triple (Guarded L) (Iso L) (Prog.update sti) fun _ s => Iso L s :=
    iso_update (fun _ => rfl) (fun _ => rfl) fun _ => rfl
  have hway {v : Kernel} (hv : Guarded L v) : OnWay L op v := fun hi => (hv hi).onWay op hi
  by_cases hop : ∃ p, op = .vidmap p
  · obtain ⟨p, rfl⟩ := hop
    refine Prog.Triple.bind (Q := fun _ s => Iso L s) ?_ fun _ => hsti.weaken fun _ => hway
    exact Prog.Triple.bind (Prog.Triple.conseq (vidmap_triple p) (fun s hs => hs ▸ h₀)
      fun _ _ h => h) fun _ => Prog.Triple.pure (Q := fun _ s => Iso L s) ()
  · have hcode := code_triple h₀ hids hen hok fun p hp => hop ⟨p, hp⟩
    exact Prog.Triple.weaken (Prog.Triple.bind hcode fun _ => hsti) fun _ => hway

/-! ## Runs -/

theorem Iso.step (h : Iso L s) (hids : IdsOk s) {op : Op} (hok : s.KeepsApart op) {s' : Kernel}
    (hs : Kernel.step L s op = some s') : Iso L s' := by
  unfold Kernel.step at hs
  split at hs
  · obtain ⟨⟨u, s₁⟩, hres, rfl⟩ := Option.map_eq_some_iff.mp hs
    exact (program_triple h hids ‹_› hok s rfl).2 u s₁ hres
  · cases hs

/-- **Isolation**, whatever user code has written to frame 0. Inside `vidmap` the processor takes
frame 0 for a page table, which then has to be closed. -/
theorem isolation (L : Layout) {fs : FileSys} {ops : List Op}
    (h : Path (Kernel.step L) KeepsApart (boot L fs) ops s) (low : Nat → PtEntry) :
    (s.started → (s.pg.withLow low).Isolated L s.curr) ∧
      ∀ op, s.enabled op → s.KeepsApart op → ∀ v ∈ (program L op).visited s,
        v.intr = true → v.started → ((∃ p, op = .vidmap p) → (v.pg.withLow low).LowClosed) →
          (v.pg.withLow low).Isolated L v.curr := by
  have hboot : Iso L (boot L fs) := ⟨Paging.settled_boot, fun ⟨_, h⟩ => absurd rfl h⟩
  obtain ⟨hiso, hids⟩ := h.invariant (fun s => Iso L s ∧ IdsOk s)
    (fun _ _ _ ⟨h, hids⟩ hok hs => ⟨h.step hids hok hs, hids.step L hs⟩)
    ⟨hboot, idsOk_boot L fs⟩
  have hset {v : Kernel} (h : v.pg.Settled L) : (v.pg.withLow low).Settled L := h.congr rfl rfl
  refine ⟨fun hst => (hset hiso.1).isolated (.inl (hset hiso.1)) ((hiso.2 hst).congr rfl),
    fun op hen hok v hv hintr hst hlow => ?_⟩
  obtain ⟨hshape, hsettled, hmapped⟩ := (program_triple hiso hids hen hok s rfl).1 v hv hintr
  have hshape' : (v.pg.withLow low).Shape L := hshape.congr rfl rfl
  refine hshape'.isolated ?_ ((hmapped hst).congr rfl)
  by_cases hop : ∃ p, op = .vidmap p
  · exact .inr (hlow hop)
  · exact .inl (hset (hsettled fun p hp => hop ⟨p, hp⟩))

instance (s : Kernel) (op : Op) : Decidable (s.KeepsApart op) :=
  match op with
  | .tick _ => inferInstanceAs (Decidable (s.tCurr 0 = none → s.getPid ≠ none))
  | .vidmap startScreen =>
    inferInstanceAs (Decidable (startScreen ≤ 4 * mb ∨ 8 * mb ≤ startScreen))
  | .boot _ | .execute _ _ | .halt _ | .key _ _ | .openFile _ | .close _ | .read _ _ _
  | .write _ _ _ | .rtc => inferInstanceAs (Decidable True)

theorem isolation_child :
    ∃ s, Path (Kernel.step someLayout) KeepsApart (boot someLayout .shellOnly)
        [.boot .zero, .execute .zero shell, .tick .zero, .vidmap 0x8000000] s ∧ s.curr = 1 ∧
      (s.pg.withLow fun _ => ⟨true, true, true, 7⟩).Isolated someLayout 1 ∧
      ∃ v ∈ (program someLayout (.vidmap 0x8000000)).visited s, v.intr = true ∧ v.started ∧
        (v.pg.withLow fun _ => PtEntry.init).Isolated someLayout v.curr := by
  obtain ⟨s, hs, hcurr, hst, v, hv, hintr, hv'⟩ := exists_of_map_decide
    (fun s : Kernel => s.curr = 1 ∧ s.started ∧
      ∃ v ∈ (program someLayout (.vidmap 0x8000000)).visited s, v.intr = true ∧ v.started)
    (x := guardedRun (Kernel.step someLayout) KeepsApart (boot someLayout .shellOnly)
      [.boot .zero, .execute .zero shell, .tick .zero, .vidmap 0x8000000]) (by decide +kernel)
  have hpath := path_of_guardedRun hs
  have hiso := (isolation someLayout hpath fun _ => ⟨true, true, true, 7⟩).1 hst
  rw [hcurr] at hiso
  refine ⟨s, hpath, hcurr, hiso, v, hv, hintr, hv', ?_⟩
  have hclosed : (v.pg.withLow fun _ => PtEntry.init).LowClosed := fun _ _ hopen => by
    cases hopen.1
  have hok : s.KeepsApart (.vidmap 0x8000000) := Or.inr (by decide)
  exact (isolation someLayout hpath fun _ => PtEntry.init).2 (.vidmap 0x8000000) hst hok v hv hintr
    hv' fun _ => hclosed

/-- The timer finds no process on terminal 0 and no number for a new one: the message that
says so enables interrupts, and the next process is mapped before it is the current one. -/
theorem exposed_switch :
    ∃ s, run (Kernel.step someLayout) (boot someLayout .shellOnly)
        [.key .zero 56, .key .zero 60, .key .zero 61, .execute .zero shell, .execute .zero shell,
          .execute .zero shell, .execute .zero shell] = some s ∧
      ∃ v ∈ (program someLayout (.tick .zero)).visited s,
        v.intr = true ∧ v.started ∧ ¬ v.pg.Isolated someLayout v.curr := by
  obtain ⟨s, hs, v, hv, hintr, hst, hother⟩ := exists_of_map_decide
    (fun s : Kernel => ∃ v ∈ (program someLayout (.tick .zero)).visited s, v.intr = true ∧
      v.started ∧ v.pg.translateUser someLayout (128 * mb) ≠ some (8 * mb + 4 * mb * v.curr.val))
    (x := run (Kernel.step someLayout) (boot someLayout .shellOnly)
      [.key .zero 56, .key .zero 60, .key .zero 61, .execute .zero shell, .execute .zero shell,
        .execute .zero shell, .execute .zero shell]) (by decide +kernel)
  refine ⟨s, hs, v, hv, hintr, hst, fun hiso => hother ?_⟩
  rw [hiso.program (128 * mb) (Nat.le_refl _) (by decide), Nat.sub_self, Nat.add_zero]

end Kernel

end OS391
