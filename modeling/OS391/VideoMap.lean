import OS391.ProcessIds

/-! The page at 132 MB through which a process draws on the screen. It is mapped by `vidmap`
and by the scheduler, and by nothing else that changes the displayed or the current terminal. -/

namespace OS391
open Library Library.Runs Library.Bytes

namespace Kernel

variable (L : Layout)

/-- The physical address of the page at 132 MB, if user code can use it. -/
def vidPage (s : Kernel) : Option Nat := s.pg.translateUser L vidMapAddr

/-- The address of the VGA frame. -/
abbrev vga : Nat := ptVideo * 4096

/-- Where user code draws: on the VGA frame only if its terminal is on display, and never on
the backing page of another terminal. -/
def DrawsOwn (s : Kernel) : Prop :=
  (s.vidPage L = some vga → s.cur.terminal = s.tty.con.displayTerminal) ∧
    ∀ u, u ≠ s.cur.terminal → s.vidPage L ≠ some (vga + Console.terminalMem u)

/-- The operation leaves no page mapped for another terminal than the displayed one. -/
def VidSafe (s : Kernel) : Op → Prop
  | .vidmap startScreen => startScreen = 0 ∨ startScreen = 4 * mb ∨
    s.cur.terminal = s.tty.con.displayTerminal
  | .key _ input => s.vidPage L = some vga →
    (s.tty.displayedBy input).getD s.tty.con.displayTerminal = s.cur.terminal ∨
      s.launchKey input ≠ none ∧ ∃ d, HasShell s.fs d
  | .tick _ => s.tCurr 0 = none → s.vidPage L = some vga →
    s.tty.con.displayTerminal = 0 ∨ s.getPid = none
  | .halt _ => s.vidPage L = some vga → (s.pcb s.cur.pPid).terminal = s.cur.terminal
  | _ => True

/-! ## The page and the page tables -/

theorem vidPage_pidMapped (pid : Pid) (pg : Paging) :
    (pidMapped pid pg).translateUser L vidMapAddr = pg.translateUser L vidMapAddr := by
  have hne : vidMapAddr / (4 * mb) ≠ programPageIdx := by decide
  simp [pidMapped, Paging.pidPageMap, Paging.setPde, Paging.translateUser, Paging.tableAt,
    Function.update_of_ne hne]

theorem vidPage_setActive (pg : Paging) :
    pg.setActiveTerminalPaging.translateUser L vidMapAddr = pg.translateUser L vidMapAddr := by
  unfold Paging.translateUser Paging.tableAt Paging.setActiveTerminalPaging
  dsimp only
  split_ifs <;> simp

theorem vidPage_vidMapped (shown : Bool) (pg : Paging) :
    (vidMapped L shown pg).translateUser L vidMapAddr = some (if shown then vga else 0) := by
  have hi : vidMapAddr / (4 * mb) = 33 := by decide
  have hj : vidMapAddr / 4096 % 1024 = 0 := by decide
  have ho : vidMapAddr % 4096 = 0 := by decide
  have hne : L.vidMemTable ≠ L.pageTable := L.distinct.symm
  cases shown <;>
    simp [vidMapped, Paging.vidMemPageMap, Paging.setPde, Paging.setVidPte, Paging.translateUser,
      Paging.tableAt, PdtEntry.initKb, hi, hj, ho, hne]

/-! ## The invariant -/

/-- A mapped VGA frame is that of a process on the displayed terminal; what else can be
mapped is frame 0. -/
structure VidOk (s : Kernel) : Prop where
  shown : s.vidPage L = some vga → s.started ∧ s.cur.terminal = s.tty.con.displayTerminal
  frames : s.vidPage L = none ∨ s.vidPage L = some 0 ∨ s.vidPage L = some vga

variable {L} {s s' : Kernel}

theorem VidOk.drawsOwn (h : VidOk L s) : DrawsOwn L s := by
  refine ⟨fun hvga => (h.shown hvga).2, fun u _ hback => ?_⟩
  have hpos : 0 < Console.terminalMem u := by simp [Console.terminalMem]
  rcases h.frames with hf | hf | hf <;> rw [hf] at hback
  · cases hback
  · have heq := Option.some.inj hback
    omega
  · have heq := Option.some.inj hback
    omega

/-- The page and the terminals are the same. -/
theorem VidOk.same (h : VidOk L s) (hpage : s'.vidPage L = s.vidPage L)
    (hst : s.started → s'.started) (hterm : s'.cur.terminal = s.cur.terminal)
    (hdisp : s'.tty.con.displayTerminal = s.tty.con.displayTerminal) : VidOk L s' := by
  refine ⟨fun hvga => ?_, by rw [hpage]; exact h.frames⟩
  obtain ⟨hst', hshown⟩ := h.shown (hpage ▸ hvga)
  exact ⟨hst hst', by rw [hterm, hdisp]; exact hshown⟩

theorem VidOk.still (h : VidOk L s) (hs : Still s s') : VidOk L s' := by
  refine h.same (by rw [vidPage, hs.pg, vidPage]) (fun hst => ?_) ?_ hs.display
  · simpa only [started, hs.tCurr] using hst
  · rw [cur, cur, hs.curr]
    exact (hs.ids s.curr).2.2

theorem started_update (s : Kernel) (t : Terminal) (p : Pid) :
    ∃ u, Function.update s.tCurr t (some p) u ≠ none := ⟨t, by simp⟩

theorem vidPage_setActiveTerminal (s : Kernel) (t : Terminal) :
    (s.setActiveTerminal t).vidPage L = s.vidPage L := by
  unfold vidPage setActiveTerminal
  dsimp only
  split
  · exact vidPage_setActive L s.pg
  · rfl

theorem vidPage_launched (env : Env) (pid : Pid) (t : Terminal) (s : Kernel) :
    (launched env pid t s).vidPage L = s.vidPage L := by
  rw [launched_eq]
  unfold vidPage
  dsimp only
  split
  · rw [vidPage_setActive, vidPage_pidMapped]
  · exact vidPage_pidMapped L pid s.pg

/-- A new process has its terminal on display if the page is mapped. -/
theorem VidOk.launched (env : Env) (pid : Pid) {t : Terminal}
    (hframes : s.vidPage L = none ∨ s.vidPage L = some 0 ∨ s.vidPage L = some vga)
    (ht : s.vidPage L = some vga → t = s.tty.con.displayTerminal) :
    VidOk L (Kernel.launched env pid t s) := by
  obtain ⟨pe, pb, ce, cb, hpcb⟩ := launched_pcb env pid t s
  refine ⟨fun hvga => ?_, by rw [vidPage_launched]; exact hframes⟩
  rw [vidPage_launched] at hvga
  refine ⟨?_, ?_⟩
  · rw [started, launched_tCurr]
    exact started_update s t pid
  · rw [cur, launched_curr, hpcb, launched_tty]
    exact ht hvga

theorem VidOk.execute (h : VidOk L s) {env : Env} {cmd : Option (List UInt8)} {t : Terminal}
    {o : Outcome}
    (ht : s.vidPage L = some vga → s.getPid ≠ none → t = s.tty.con.displayTerminal)
    (he : (executeWithTerminalNum env cmd t).result s = some (o, s')) : VidOk L s' := by
  rcases execute_outcome he with ⟨pid, args, v, hpid, -, rfl⟩ | ⟨-, hstill, -⟩
  · refine VidOk.launched (s := s.cli.withArgs args) env pid h.frames fun hvga => ?_
    have hsome : s.getPid ≠ none := by
      rw [hpid]
      exact Option.some_ne_none pid
    exact ht hvga hsome
  · exact h.still hstill

theorem VidOk.schedule (hids : IdsOk s) {env : Env}
    (hs : (schedule L env).result s = some ((), s')) : VidOk L s' := by
  obtain ⟨t, pid, -, hpid, rfl⟩ := schedule_cases L hs
  have hid : (s.pcb pid).pid = pid := hids.tCurr t pid hpid
  have hpage : ((switched L pid s).saved env s.curr).vidPage L =
      some (if (s.pcb pid).terminal = s.tty.con.displayTerminal then vga else 0) := by
    have hactive := vidPage_setActiveTerminal (L := L)
      { (s.mapPg (pidMapped (s.pcb pid).pid)).mapPg
          (vidMapped L ((s.pcb pid).terminal = s.tty.con.displayTerminal)) with
        tssEsp0 := getEsp (s.pcb pid).pid, curr := (s.pcb pid).pid } (s.pcb pid).terminal
    refine hactive.trans ?_
    unfold vidPage mapPg
    dsimp only
    rw [vidPage_vidMapped]
    simp
  refine ⟨fun hvga => ⟨⟨t, ?_⟩, ?_⟩, ?_⟩
  · show s.tCurr t ≠ none
    rw [hpid]
    exact Option.some_ne_none pid
  · rw [hpage] at hvga
    have hterm : ((switched L pid s).saved env s.curr).cur.terminal = (s.pcb pid).terminal := by
      have hcurr : ((switched L pid s).saved env s.curr).curr = pid := hid
      rw [cur, hcurr, (switched_ids L env pid s pid).2.2]
    have hdisp : ((switched L pid s).saved env s.curr).tty.con.displayTerminal =
        s.tty.con.displayTerminal := rfl
    by_contra hne
    rw [hterm, hdisp] at hne
    rw [if_neg hne] at hvga
    cases hvga
  · rw [hpage]
    split
    · exact .inr (.inr rfl)
    · exact .inr (.inl rfl)

theorem VidOk.tick (h : VidOk L s) (hids : IdsOk s) {env : Env} (hok : s.VidSafe L (.tick env))
    (hs : (pitIntHandler L env).result s = some ((), s')) : VidOk L s' := by
  rcases tick_cases L hs with ⟨-, hs⟩ | ⟨h0, o, s₁, he, hs⟩
  · exact VidOk.schedule ((idsOk_kept L).same hids (cli_tables s)) hs
  · have hids₁ := (idsOk_kept L).execute ((idsOk_kept L).same hids
      ((cli_tables s).trans (clear_tables s.cli))) he
    cases o with
    | entered v =>
      subst hs
      have hclear : VidOk L s.cli.clear := h.same rfl id rfl rfl
      refine hclear.execute (fun hvga hfree => ?_) he
      rcases hok h0 hvga with hdisp | hnone
      · exact hdisp.symm
      · exact absurd hnone hfree
    | returned v => exact VidOk.schedule hids₁ hs

theorem VidOk.halt (h : VidOk L s) {env : Env} (hok : s.VidSafe L (.halt env))
    (hs : (halt env).result s = some ((), s')) : VidOk L s' := by
  have hhalted : VidOk L s.halted := by
    refine ⟨fun hvga => ⟨started_update s _ _, ?_⟩, h.frames⟩
    have hterm : s.halted.cur.terminal = (s.pcb s.cur.pPid).terminal := (halted_ids s _).2.2
    rw [hterm, hok hvga]
    exact (h.shown hvga).2
  rcases halt_cases hs with ⟨-, -, rfl⟩ | ⟨-, v, he⟩
  · exact hhalted.same (vidPage_pidMapped L _ s.halted.pg) id rfl rfl
  · exact hhalted.execute (fun hvga _ => (h.shown hvga).2) he

theorem keyed_vidPage (s : Kernel) (input : UInt8) (tty : Tty) :
    (s.keyed input tty).vidPage L = s.vidPage L := by
  unfold keyed displayPaging
  split
  · exact vidPage_setActiveTerminal { s.cli with tty := tty } tty.con.activeTerminal
  · rfl

theorem keyed_display {input : UInt8} {tty : Tty} (htty : s.tty.keyboardByte input = some tty) :
    (s.keyed input tty).tty.con.displayTerminal =
      (s.tty.displayedBy input).getD s.tty.con.displayTerminal := by
  rw [keyed_eq, ← (Tty.keyboardByte_frame htty).display]

/-- A key may display the terminal of the current process, or leave it displayed. -/
theorem VidOk.keyed (h : VidOk L s) {input : UInt8} {tty : Tty}
    (htty : s.tty.keyboardByte input = some tty)
    (hterm : s.vidPage L = some vga →
      (s.tty.displayedBy input).getD s.tty.con.displayTerminal = s.cur.terminal) :
    VidOk L (s.keyed input tty) := by
  have htables := keyed_tables s input tty
  have hpage := keyed_vidPage (L := L) s input tty
  refine ⟨fun hvga => ?_, by rw [hpage]; exact h.frames⟩
  rw [hpage] at hvga
  constructor
  · simpa only [started, htables.tCurr] using (h.shown hvga).1
  · rw [keyed_display htty, hterm hvga, cur, htables.pcb, htables.curr, cur]

theorem VidOk.key (h : VidOk L s) {env : Env} {input : UInt8} (hok : s.VidSafe L (.key env input))
    (hs : (keyboardHandler env input).result s = some ((), s')) : VidOk L s' := by
  obtain ⟨tty, htty, hs⟩ := key_cases hs
  have hdisp := keyed_display htty
  rcases hs with ⟨hl, rfl⟩ | ⟨t, o, hl, he⟩
  · refine h.keyed htty fun hvga => ?_
    rcases hok hvga with hterm | ⟨hlaunch, -⟩
    · exact hterm
    · exact absurd hl hlaunch
  · -- the key shows the terminal on which it launches the shell
    obtain ⟨hfree, hby, -⟩ := launchKey_eq_some hl
    have hmark : ((s.keyed input tty).markRunning t).tty.con.displayTerminal = t := by
      show (s.keyed input tty).tty.con.displayTerminal = t
      rw [hdisp, hby]
      rfl
    by_cases hterm : s.vidPage L = some vga →
        (s.tty.displayedBy input).getD s.tty.con.displayTerminal = s.cur.terminal
    · have hmarked : VidOk L ((s.keyed input tty).markRunning t) :=
        (h.keyed htty hterm).same rfl id rfl rfl
      exact hmarked.execute (fun _ _ => hmark.symm) he
    · obtain ⟨hvga, hne⟩ := Classical.not_imp.mp hterm
      obtain ⟨-, d, hd⟩ := (hok hvga).resolve_left hne
      have hd' : HasShell ((s.keyed input tty).markRunning t).fs d :=
        hd.of_image (keyed_same htty).image
      rcases hd'.spawn he with ⟨pid, args, v, hpid, -, rfl⟩ | ⟨hnone, -⟩
      · have hframes := h.frames
        rw [← keyed_vidPage s input tty] at hframes
        exact VidOk.launched (s := ((s.keyed input tty).markRunning t).cli.withArgs args) env pid
          hframes fun _ => hmark.symm
      · refine absurd (getPid_eq_none.mpr fun q => ?_) hfree
        have hbusy := getPid_eq_none.mp hnone q
        rwa [← (keyed_tables s input tty).procState]

/-! ## Runs -/

theorem VidOk.step (h : VidOk L s) (hids : IdsOk s) {op : Op} (hok : s.VidSafe L op)
    (hs : Kernel.step L s op = some s') : VidOk L s' := by
  obtain ⟨hen, s₁, hs₁, rfl⟩ := step_result L hs
  suffices hmid : VidOk L s₁ from hmid.same rfl id rfl rfl
  cases op with
  | boot env =>
    rw [code, Prog.result_update_then] at hs₁
    obtain ⟨o, he⟩ := result_ignore hs₁
    have hclear : VidOk L s.clear := h.same rfl id rfl rfl
    exact hclear.execute (fun hvga _ => absurd (h.shown hvga).1 hen) he
  | execute env command =>
    obtain ⟨o, he⟩ := result_ignore hs₁
    rw [Kernel.execute, Prog.result_get_then] at he
    exact h.execute (fun hvga _ => (h.shown hvga).2) he
  | halt env => exact h.halt hok hs₁
  | tick env => exact h.tick hids hok hs₁
  | key env input => exact h.key hok hs₁
  | vidmap startScreen =>
    rcases vidmap_cases L hs₁ with ⟨-, rfl⟩ | ⟨hptr, rfl⟩
    · exact h
    · have hpage : (s.mapPg (vidMapped L true)).vidPage L = some vga := by
        simp only [vidPage, mapPg, vidPage_vidMapped, if_true]
      refine ⟨fun _ => ⟨hen, ?_⟩, .inr (.inr hpage)⟩
      rcases hok with h0 | h4 | hterm
      · exact absurd (.inl h0) hptr
      · exact absurd (.inr h4) hptr
      · exact hterm
  | openFile | close | read | write | rtc =>
    exact h.still (file_quiet L _ (by trivial) hs₁).toStill

theorem vidOk_boot (fs : FileSys) : VidOk L (boot L fs) := by
  have hnone : (boot L fs).vidPage L = none := by
    have hpde : ((boot L fs).pg.pageDirectory (vidMapAddr / (4 * mb))).present = false := rfl
    unfold vidPage Paging.translateUser
    dsimp only
    rw [if_neg (by rw [hpde]; simp)]
  refine ⟨fun hvga => ?_, .inl hnone⟩
  rw [hnone] at hvga
  cases hvga

/-- **Drawing.** While every operation is safe, user code draws on the screen of its own
terminal. -/
theorem draws_own {fs : FileSys} {ops : List Op}
    (h : Path (Kernel.step L) (VidSafe L) (boot L fs) ops s) : DrawsOwn L s := by
  have hinv := h.invariant (fun s => VidOk L s ∧ IdsOk s)
    (fun _ _ _ ⟨h, hids⟩ hok hs => ⟨h.step hids hok hs, hids.step L hs⟩)
    ⟨vidOk_boot fs, idsOk_boot L fs⟩
  exact hinv.1.drawsOwn

instance (fs : FileSys) : Decidable (∃ d, HasShell fs d) :=
  match h : fs.readDentryByName (inFile (cString (cText "shell"))) with
  | some (some d) =>
    decidable_of_iff ((0 < d.inode ∧ d.inode < fs.numInodes) ∧
        (fs.contents d.inode).take 4 = magicBuf)
      ⟨fun ⟨hinode, hmagic⟩ => ⟨d, h, hinode, hmagic⟩, fun ⟨d', hd⟩ => by
        have heq : d = d' := by simpa using h.symm.trans hd.found
        exact heq ▸ ⟨hd.inode, hd.magic⟩⟩
  | none => isFalse fun ⟨_, hd⟩ => by simpa using h.symm.trans hd.found
  | some none => isFalse fun ⟨_, hd⟩ => by simpa using h.symm.trans hd.found

instance (s : Kernel) (op : Op) : Decidable (s.VidSafe L op) :=
  match op with
  | .vidmap startScreen => inferInstanceAs (Decidable (startScreen = 0 ∨ startScreen = 4 * mb ∨
    s.cur.terminal = s.tty.con.displayTerminal))
  | .key _ input => inferInstanceAs (Decidable (s.vidPage L = some vga →
    (s.tty.displayedBy input).getD s.tty.con.displayTerminal = s.cur.terminal ∨
      s.launchKey input ≠ none ∧ ∃ d, HasShell s.fs d))
  | .tick _ => inferInstanceAs (Decidable (s.tCurr 0 = none → s.vidPage L = some vga →
    s.tty.con.displayTerminal = 0 ∨ s.getPid = none))
  | .halt _ => inferInstanceAs (Decidable (s.vidPage L = some vga →
    (s.pcb s.cur.pPid).terminal = s.cur.terminal))
  | .boot _ | .execute _ _ | .openFile _ | .close _ | .read _ _ _ | .write _ _ _ | .rtc =>
    inferInstanceAs (Decidable True)

/-- A process that draws, while a shell is launched on another terminal. -/
theorem draws_own_launch :
    ∃ s, Path (Kernel.step someLayout) (VidSafe someLayout) (boot someLayout .shellOnly)
        [.boot .zero, .vidmap 0x8000000, .key .zero 56, .key .zero 60, .vidmap 0x8000000] s ∧
      s.vidPage someLayout = some vga ∧ s.cur.terminal = 1 ∧ DrawsOwn someLayout s := by
  obtain ⟨s, hs, hvga, hterm⟩ := exists_of_map_decide
    (fun s : Kernel => s.vidPage someLayout = some vga ∧ s.cur.terminal = 1)
    (x := guardedRun (Kernel.step someLayout) (VidSafe someLayout) (boot someLayout .shellOnly)
      [.boot .zero, .vidmap 0x8000000, .key .zero 56, .key .zero 60, .vidmap 0x8000000])
    (by decide +kernel)
  have hpath := path_of_guardedRun hs
  exact ⟨s, hpath, hvga, hterm, draws_own hpath⟩

/-- The shell of terminal 0 calls `vidmap` while terminal 1 is on display. -/
theorem draws_foreign :
    ∃ s, run (Kernel.step someLayout) (boot someLayout .shellOnly)
        [.boot .zero, .tick .zero, .key .zero 56, .key .zero 60, .tick .zero,
          .vidmap 0x8000000] = some s ∧
      s.started ∧ ¬ DrawsOwn someLayout s := by
  obtain ⟨s, hs, hst, hvga, hterm⟩ := exists_of_map_decide
    (fun s : Kernel => s.started ∧ s.vidPage someLayout = some vga ∧
      s.cur.terminal ≠ s.tty.con.displayTerminal)
    (x := run (Kernel.step someLayout) (boot someLayout .shellOnly)
      [.boot .zero, .tick .zero, .key .zero 56, .key .zero 60, .tick .zero, .vidmap 0x8000000])
    (by decide +kernel)
  exact ⟨s, hs, hst, fun hown => hterm (hown.1 hvga)⟩

end Kernel

end OS391
