import OS391.ProcessIds
import OS391.Library.Stacks

/-! The process tree: each terminal has a stack of processes, its root shell at the
bottom and the running process on top, and the tables of the kernel describe it. -/

namespace OS391
open Library Library.Runs Library.Bytes

namespace Kernel

variable (L : Layout)

/-- The process and terminal tables agree, as the scheduler and `halt` rely on. -/
structure TreeOk (s : Kernel) : Prop where
  tCurr : ∀ t p, s.tCurr t = some p → s.procState p = true ∧ (s.pcb p).terminal = t
  current : s.started → s.tCurr s.cur.terminal = some s.curr ∧
    s.tty.con.activeTerminal = s.cur.terminal
  parent : ∀ p, s.procState p = true → (s.pcb p).pPid = p ∨
    s.procState (s.pcb p).pPid = true ∧ (s.pcb (s.pcb p).pPid).terminal = (s.pcb p).terminal
  /-- From `t_curr[t]`, the parents lead through all processes of `t` to a root. -/
  chain : ∀ t, ∃ l : List Pid, l.head? = s.tCurr t ∧ l.Nodup ∧
    (∀ p, p ∈ l ↔ s.procState p = true ∧ (s.pcb p).terminal = t) ∧
    Descends (fun p => (s.pcb p).pPid) l
  search : s.started → s.nextTerminal ≠ none

/-- No process exists. -/
structure NoProcess (s : Kernel) : Prop where
  procState : ∀ p, s.procState p = false
  tCurr : ∀ t, s.tCurr t = none

/-- A root shell ends only while all lower process numbers are in use, so that the
shell that takes its place gets its number. -/
def RootReplaced (s : Kernel) : Op → Prop
  | .halt _ => s.cur.pPid = s.curr → ∀ q < s.curr, s.procState q = true
  | _ => True

/-! ## The tables as stacks -/

/-- The tables describe the stacks `S`. -/
structure Tree (S : Stacks Terminal Pid) (s : Kernel) : Prop where
  active : ∀ p, s.procState p = true ↔ ∃ t, p ∈ S.on t
  head : ∀ t, (S.on t).head? = s.tCurr t
  chain : ∀ t, Descends (fun p => (s.pcb p).pPid) (S.on t)
  ids : ∀ t, ∀ p ∈ S.on t, (s.pcb p).pid = p ∧ (s.pcb p).terminal = t
  current : s.started → s.tCurr s.cur.terminal = some s.curr ∧
    s.tty.con.activeTerminal = s.cur.terminal
  running2 : s.tty.kbd.terminal2Running = false → s.tCurr 1 = none
  running3 : s.tty.kbd.terminal3Running = false → s.tCurr 2 = none

variable {S : Stacks Terminal Pid} {s s' : Kernel}

theorem nextTerminal_ne_none (h : s.started) : s.nextTerminal ≠ none := by
  obtain ⟨t, ht⟩ := h
  have hall : ∀ x t : Terminal, t = x ∨ t = x + 1 ∨ t = x + 1 + 1 := by decide
  intro hnone
  simp only [nextTerminal, whileLoop, Option.isNone_iff_eq_none] at hnone
  split_ifs at hnone with h1 h2 h3
  rcases hall (s.cur.terminal + 1) t with rfl | rfl | rfl
  exacts [ht h1, ht h2, ht h3]

theorem Tree.terminal_iff (h : Tree S s) {t : Terminal} {p : Pid} :
    p ∈ S.on t ↔ s.procState p = true ∧ (s.pcb p).terminal = t := by
  constructor
  · exact fun hp => ⟨(h.active p).mpr ⟨t, hp⟩, (h.ids t p hp).2⟩
  · rintro ⟨hact, rfl⟩
    obtain ⟨u, hu⟩ := (h.active p).mp hact
    rwa [(h.ids u p hu).2]

theorem Tree.ok (h : Tree S s) : TreeOk s where
  tCurr t p hp := h.terminal_iff.mp (List.mem_of_mem_head? ((h.head t).trans hp ▸ rfl))
  current := h.current
  parent p hp := by
    have hmem := h.terminal_iff.mpr ⟨hp, rfl⟩
    exact .inr (h.terminal_iff.mp ((h.chain _).parent_mem hmem))
  chain t := ⟨S.on t, h.head t, S.nodup t, fun _ => h.terminal_iff, h.chain t⟩
  search := nextTerminal_ne_none

theorem NoProcess.tree (h : NoProcess s) : Tree Stacks.empty s where
  active p := by simp [h.procState, Stacks.empty]
  head t := by simp [h.tCurr, Stacks.empty]
  chain _ := trivial
  ids _ _ hp := absurd hp List.not_mem_nil
  current := fun ⟨t, ht⟩ => absurd (h.tCurr t) ht
  running2 _ := h.tCurr 1
  running3 _ := h.tCurr 2

theorem Tree.same (h : Tree S s) (hs : SameProcs s s') : Tree S s' := by
  have hcur : s'.cur.terminal = s.cur.terminal := by
    rw [cur, cur, hs.curr]
    exact (hs.ids s.curr).2.2
  constructor
  · intro p
    rw [hs.procState]; exact h.active p
  · intro t
    rw [hs.tCurr]; exact h.head t
  · intro t
    exact (h.chain t).congr fun p _ => (hs.ids p).2.1
  · intro t p hp
    rw [(hs.ids p).1, (hs.ids p).2.2]; exact h.ids t p hp
  · intro hst
    rw [hcur, hs.curr, hs.active, hs.tCurr]
    exact h.current (by simpa only [started, hs.tCurr] using hst)
  · intro hr
    rw [hs.tCurr]; exact h.running2 (hs.running2 ▸ hr)
  · intro hr
    rw [hs.tCurr]; exact h.running3 (hs.running3 ▸ hr)

/-! ## Launching -/

theorem Tree.free (h : Tree S s) {pid : Pid} (hfree : s.procState pid = false) (t : Terminal) :
    pid ∉ S.on t := fun hp => by
  have hact := (h.active pid).mpr ⟨t, hp⟩
  rw [hfree] at hact
  cases hact

/-- A new process goes on top of the stack of its terminal, which is empty or has the
current process on top. -/
theorem Tree.launch (h : Tree S s) (env : Env) {pid : Pid} {t : Terminal}
    (hfree : s.procState pid = false) (ht : s.tCurr t = none ∨ s.tCurr t = some s.curr)
    (hrun2 : t = 1 → s.tty.kbd.terminal2Running = true)
    (hrun3 : t = 2 → s.tty.kbd.terminal3Running = true) :
    Tree (S.push t pid (h.free hfree)) (launched env pid t s) := by
  obtain ⟨pe, pb, ce, cb, hpcb⟩ := launched_pcb env pid t s
  have hother : ∀ u, ∀ p ∈ S.on u, p ≠ pid := fun u p hp he => h.free hfree u (he ▸ hp)
  have hold : ∀ u, ∀ p ∈ S.on u, (launched env pid t s).pcb p = s.pcb p :=
    fun u p hp => launched_pcb_of_ne env pid t s (hother u p hp)
  constructor
  · intro p
    rw [Stacks.mem_push, launched_procState]
    by_cases hp : p = pid
    · simp [hp]
    · rw [Function.update_of_ne hp, h.active]
      simp [hp]
  · intro u
    by_cases hu : u = t
    · subst hu
      simp
    · rw [Stacks.push_on_of_ne S pid _ hu, launched_tCurr, Function.update_of_ne hu]
      exact h.head u
  · intro u
    by_cases hu : u = t
    · subst hu
      rw [Stacks.push_on_self]
      have hrest := (h.chain u).congr fun p hp =>
        show ((launched env pid u s).pcb p).pPid = (s.pcb p).pPid by rw [hold u p hp]
      rcases ht with ht | ht
      · have hnil : S.on u = [] := List.head?_eq_none_iff.mp ((h.head u).trans ht)
        rw [hnil]
        simp [Descends, hpcb, parentFor, ht]
      · obtain ⟨l, hl⟩ := List.head?_eq_some_iff.mp ((h.head u).trans ht)
        have hcurr : s.curr ∈ S.on u := by simp [hl]
        rw [hl] at hrest ⊢
        refine ⟨?_, hrest⟩
        simp [hpcb, parentFor, ht, hother u s.curr hcurr, cur, (h.ids u s.curr hcurr).1]
    · rw [Stacks.push_on_of_ne S pid _ hu]
      exact (h.chain u).congr fun p hp => by rw [hold u p hp]
  · intro u p hp
    by_cases hp' : p = pid
    · subst hp'
      have hu : u = t := by
        by_contra hne
        rw [Stacks.push_on_of_ne S p _ hne] at hp
        exact h.free hfree u hp
      simp [hpcb, Pcb.initFiles, hu]
    · have hmem : p ∈ S.on u := by
        by_cases hu : u = t
        · subst hu
          rw [Stacks.push_on_self] at hp
          exact (List.mem_cons.mp hp).resolve_left hp'
        · rwa [Stacks.push_on_of_ne S pid _ hu] at hp
      rw [hold u p hmem]
      exact h.ids u p hmem
  · intro _
    simp [cur, hpcb, Console.setActiveTerminal]
  · intro hr
    by_cases h1 : t = 1
    · simp [hrun2 h1] at hr
    · simpa [Function.update_of_ne (Ne.symm h1)] using h.running2 (by simpa using hr)
  · intro hr
    by_cases h2 : t = 2
    · simp [hrun3 h2] at hr
    · simpa [Function.update_of_ne (Ne.symm h2)] using h.running3 (by simpa using hr)

/-- Every operation but the ends of processes leaves some stacks. -/
theorem Tree.execute (h : Tree S s) {d : Dentry} (hd : HasShell s.fs d) {env : Env} {t : Terminal}
    {cmd : Option (List UInt8)} {o : Outcome} (ht : s.tCurr t = none ∨ s.tCurr t = some s.curr)
    (hrun2 : t = 1 → s.tty.kbd.terminal2Running = true)
    (hrun3 : t = 2 → s.tty.kbd.terminal3Running = true)
    (he : (executeWithTerminalNum env cmd t).result s = some (o, s')) :
    (∃ S', Tree S' s') ∧ HasShell s'.fs d := by
  rcases execute_outcome he with ⟨pid, args, v, hpid, -, rfl⟩ | ⟨-, hstill, -⟩
  · have hargs : SameProcs s (s.cli.withArgs args) :=
      ⟨rfl, rfl, rfl, fun _ => ⟨rfl, rfl, rfl⟩, rfl, rfl, rfl, rfl⟩
    have hfree := (getPid_eq_some.mp hpid).1
    exact ⟨⟨_, (h.same hargs).launch env hfree ht hrun2 hrun3⟩, by rw [launched_fs]; exact hd⟩
  · exact ⟨⟨S, h.same hstill.toSameProcs⟩, hd.of_image hstill.image⟩

/-! ## Ending -/

theorem Tree.top (h : Tree S s) (hst : s.started) :
    ∃ l, S.on s.cur.terminal = s.curr :: l ∧ s.cur.pid = s.curr := by
  obtain ⟨l, hl⟩ := List.head?_eq_some_iff.mp ((h.head _).trans (h.current hst).1)
  exact ⟨l, hl, (h.ids s.cur.terminal s.curr (by simp [hl])).1⟩

theorem resumed_same (par : Pid) (parentEsp : Int) (s : Kernel) :
    SameProcs s (resumed par parentEsp s) :=
  ⟨rfl, rfl, rfl, fun _ => ⟨rfl, rfl, rfl⟩, rfl, rfl, rfl, rfl⟩

/-- A process that is not a root leaves its terminal to its parent. -/
theorem Tree.pop (h : Tree S s) (hst : s.started) (hroot : s.cur.pid ≠ s.cur.pPid) :
    Tree (S.pop s.cur.terminal) s.halted := by
  obtain ⟨l, hl, hpid⟩ := h.top hst
  have hchain := hl ▸ h.chain s.cur.terminal
  obtain ⟨b, l, rfl⟩ : ∃ b m, l = b :: m := by
    cases l with
    | nil => exact absurd (hpid.trans (show s.curr = s.cur.pPid from hchain.symm)) hroot
    | cons b m => exact ⟨b, m, rfl⟩
  have hpar : s.cur.pPid = b := hchain.1
  have hb : b ∈ S.on s.cur.terminal := by simp [hl]
  have htCurr : s.halted.tCurr = Function.update s.tCurr s.cur.terminal (some b) := by
    rw [halted_tCurr, hpar]
  constructor
  · intro p
    rw [Stacks.mem_pop hl, halted_procState, hpid]
    by_cases hp : p = s.curr
    · simp [hp]
    · rw [Function.update_of_ne hp, h.active]
      simp [hp]
  · intro t
    rw [htCurr]
    by_cases ht : t = s.cur.terminal
    · subst ht
      simp [hl]
    · rw [Stacks.pop_on_of_ne S ht, Function.update_of_ne ht]
      exact h.head t
  · intro t
    have hsub : Descends (fun p => (s.pcb p).pPid) ((S.pop s.cur.terminal).on t) := by
      by_cases ht : t = s.cur.terminal
      · subst ht
        rw [Stacks.pop_on_self]
        exact hl ▸ hchain.tail
      · rw [Stacks.pop_on_of_ne S ht]
        exact h.chain t
    exact hsub.congr fun p _ => (halted_ids s p).2.1
  · intro t p hp
    have hmem : p ∈ S.on t := by
      by_cases ht : t = s.cur.terminal
      · subst ht
        rw [Stacks.pop_on_self] at hp
        exact List.mem_of_mem_tail hp
      · rwa [Stacks.pop_on_of_ne S ht] at hp
    have hids := halted_ids s p
    exact ⟨hids.1.trans (h.ids t p hmem).1, hids.2.2.trans (h.ids t p hmem).2⟩
  · intro _
    have hterm : s.halted.cur.terminal = s.cur.terminal := by
      rw [cur, halted_curr, (halted_ids s _).2.2, hpar]
      exact (h.ids _ b hb).2
    rw [hterm, halted_tCurr, Function.update_self]
    exact ⟨rfl, (h.current hst).2⟩
  · intro hr
    have hr := h.running2 hr
    have hne : (1 : Terminal) ≠ s.cur.terminal := fun he => by
      rw [← h.head, he, hl] at hr
      cases hr
    rwa [htCurr, Function.update_of_ne hne]
  · intro hr
    have hr := h.running3 hr
    have hne : (2 : Terminal) ≠ s.cur.terminal := fun he => by
      rw [← h.head, he, hl] at hr
      cases hr
    rwa [htCurr, Function.update_of_ne hne]

/-- The table entries of a root that has given up its place, before its successor runs. -/
theorem halted_root (h : Tree S s) (hst : s.started) (hroot : s.cur.pid = s.cur.pPid) :
    s.halted.tCurr = s.tCurr ∧ s.halted.curr = s.curr ∧
      s.halted.procState = Function.update s.procState s.curr false := by
  obtain ⟨l, hl, hpid⟩ := h.top hst
  refine ⟨?_, hroot.symm.trans hpid, ?_⟩
  · rw [halted_tCurr, ← hroot, hpid, ← (h.current hst).1, Function.update_eq_self]
  · rw [halted_procState, hpid]

/-- A root that runs is the only process of its terminal. -/
theorem Tree.root_alone (h : Tree S s) (hst : s.started) (hroot : s.cur.pid = s.cur.pPid) :
    S.on s.cur.terminal = [s.curr] := by
  obtain ⟨l, hl, hpid⟩ := h.top hst
  cases l with
  | nil => exact hl
  | cons b l =>
    have hb : s.cur.pPid = b := (hl ▸ h.chain s.cur.terminal).1
    have hnot := (List.nodup_cons.mp (hl ▸ S.nodup s.cur.terminal)).1
    rw [← hpid, hroot, hb] at hnot
    exact absurd List.mem_cons_self hnot

/-- Its successor is a root again, and the current process of the same terminal. -/
theorem Tree.successor (h : Tree S s) (hst : s.started) (hroot : s.cur.pid = s.cur.pPid)
    (env : Env) (args : List UInt8) :
    (launched env s.curr s.cur.terminal (s.halted.cli.withArgs args)).tCurr = s.tCurr ∧
      (s.halted.cli.withArgs args).parentFor s.curr s.cur.terminal = s.curr := by
  obtain ⟨htCurr, hcurr, -⟩ := halted_root h hst hroot
  have hsome := (h.current hst).1
  have hargs := args_tables s.halted args
  constructor
  · rw [launched_tCurr, hargs.tCurr, htCurr, ← hsome, Function.update_eq_self]
  · have hne : (s.halted.cli.withArgs args).tCurr s.cur.terminal ≠ none := by
      rw [hargs.tCurr, htCurr, hsome]
      exact Option.some_ne_none _
    have hcurr' : (s.halted.cli.withArgs args).curr = s.curr := hargs.curr.trans hcurr
    rw [parentFor, if_neg hne, if_pos hcurr']

/-- A root whose number is the lowest free one is replaced by a root. -/
theorem Tree.replaceRoot (h : Tree S s) (hst : s.started) (hroot : s.cur.pid = s.cur.pPid)
    (env : Env) (args : List UInt8) :
    Tree S (launched env s.curr s.cur.terminal (s.halted.cli.withArgs args)) := by
  obtain ⟨-, -, hproc⟩ := halted_root h hst hroot
  obtain ⟨htCurr, hpar⟩ := h.successor hst hroot env args
  have hon := h.root_alone hst hroot
  obtain ⟨pe, pb, ce, cb, hpcb⟩ :=
    launched_pcb env s.curr s.cur.terminal (s.halted.cli.withArgs args)
  have hargs := args_tables s.halted args
  have hold : ∀ p, p ≠ s.curr →
      (launched env s.curr s.cur.terminal (s.halted.cli.withArgs args)).pcb p = s.halted.pcb p :=
    fun p hp => (launched_pcb_of_ne _ _ _ _ hp).trans (congrFun hargs.pcb p)
  have hne : ∀ t, t ≠ s.cur.terminal → ∀ p ∈ S.on t, p ≠ s.curr := fun t ht p hp he =>
    ht (S.apart t s.cur.terminal s.curr (he ▸ hp) (by simp [hon]))
  constructor
  · intro p
    rw [← h.active p, launched_procState, hargs.procState, hproc]
    by_cases hp : p = s.curr
    · simp [hp, (h.active s.curr).mpr ⟨s.cur.terminal, by simp [hon]⟩]
    · simp [Function.update_of_ne hp]
  · intro t
    rw [htCurr]
    exact h.head t
  · intro t
    by_cases ht : t = s.cur.terminal
    · rw [ht, hon]
      simp [Descends, hpcb, hpar]
    · exact (h.chain t).congr fun p hp => by
        rw [hold p (hne t ht p hp), (halted_ids s p).2.1]
  · intro t p hp
    by_cases ht : t = s.cur.terminal
    · subst ht
      have hp : p = s.curr := by simpa [hon] using hp
      subst hp
      simp [hpcb, Pcb.initFiles]
    · rw [hold p (hne t ht p hp), (halted_ids s p).1, (halted_ids s p).2.2]
      exact h.ids t p hp
  · intro _
    have hterm : (launched env s.curr s.cur.terminal
        (s.halted.cli.withArgs args)).cur.terminal = s.cur.terminal := by
      rw [cur, launched_curr, hpcb]
    rw [hterm, htCurr, launched_curr, launched_tty]
    exact ⟨(h.current hst).1, rfl⟩
  · intro hr
    rw [launched_tty] at hr
    rw [htCurr]
    exact h.running2 hr
  · intro hr
    rw [launched_tty] at hr
    rw [htCurr]
    exact h.running3 hr

/-! ## Switching -/

theorem Tree.switch (h : Tree S s) {t : Terminal} {pid : Pid} (hpid : s.tCurr t = some pid)
    (env : Env) : Tree S ((switched L pid s).saved env s.curr) := by
  have hmem : pid ∈ S.on t := List.mem_of_mem_head? ((h.head t).trans hpid ▸ rfl)
  obtain ⟨hid, hterm⟩ := h.ids t pid hmem
  have hids := switched_ids L env pid s
  have hcurr : ((switched L pid s).saved env s.curr).curr = pid := hid
  refine ⟨h.active, h.head, fun u => (h.chain u).congr fun p _ => (hids p).2.1,
    fun u p hp => ⟨(hids p).1.trans (h.ids u p hp).1, (hids p).2.2.trans (h.ids u p hp).2⟩,
    fun _ => ?_, h.running2, h.running3⟩
  have hcur : ((switched L pid s).saved env s.curr).cur.terminal = t := by
    rw [cur, hcurr, (hids pid).2.2, hterm]
  rw [hcur, hcurr]
  exact ⟨hpid, hterm⟩

theorem Tree.schedule (h : Tree S s) {env : Env}
    (hs : (schedule L env).result s = some ((), s')) : Tree S s' ∧ s'.fs = s.fs := by
  obtain ⟨t, pid, -, hpid, rfl⟩ := schedule_cases L hs
  exact ⟨h.switch L hpid env, rfl⟩

theorem cli_same (s : Kernel) : SameProcs s s.cli :=
  ⟨rfl, rfl, rfl, fun _ => ⟨rfl, rfl, rfl⟩, rfl, rfl, rfl, rfl⟩

theorem clear_same (s : Kernel) : SameProcs s s.clear :=
  ⟨rfl, rfl, rfl, fun _ => ⟨rfl, rfl, rfl⟩, rfl, rfl, rfl, rfl⟩

theorem sti_same (s : Kernel) : SameProcs s s.sti :=
  ⟨rfl, rfl, rfl, fun _ => ⟨rfl, rfl, rfl⟩, rfl, rfl, rfl, rfl⟩

theorem Tree.tick (h : Tree S s) {d : Dentry} (hd : HasShell s.fs d) {env : Env}
    (hs : (pitIntHandler L env).result s = some ((), s')) :
    (∃ S', Tree S' s') ∧ HasShell s'.fs d := by
  rcases tick_cases L hs with ⟨-, hs⟩ | ⟨h0, o, s₁, he, hs⟩
  · obtain ⟨htree, hfs⟩ := (h.same (cli_same s)).schedule L hs
    exact ⟨⟨S, htree⟩, hfs ▸ hd⟩
  · have hsame := (cli_same s).trans (clear_same s.cli)
    obtain ⟨⟨S₁, h₁⟩, hd₁⟩ := (h.same hsame).execute hd (.inl h0)
      (fun h => by cases h) (fun h => by cases h) he
    cases o with
    | entered v => subst hs; exact ⟨⟨S₁, h₁⟩, hd₁⟩
    | returned v =>
      obtain ⟨htree, hfs⟩ := h₁.schedule L hs
      exact ⟨⟨S₁, htree⟩, hfs ▸ hd₁⟩

theorem Tree.mark (h : Tree S s) (t : Terminal) : Tree S (s.markRunning t) := by
  refine ⟨h.active, h.head, h.chain, h.ids, h.current, fun hr => h.running2 ?_,
    fun hr => h.running3 ?_⟩
  · exact (Bool.or_eq_false_iff.mp hr).1
  · exact (Bool.or_eq_false_iff.mp hr).1

theorem Tree.key (h : Tree S s) {d : Dentry} (hd : HasShell s.fs d) {env : Env} {input : UInt8}
    (hs : (keyboardHandler env input).result s = some ((), s')) :
    (∃ S', Tree S' s') ∧ HasShell s'.fs d := by
  obtain ⟨tty, htty, hs⟩ := key_cases hs
  have hsame := keyed_same htty
  have hd' := hd.of_image hsame.image
  rcases hs with ⟨-, rfl⟩ | ⟨t, o, hl, he⟩
  · exact ⟨⟨S, h.same hsame⟩, hd'⟩
  · obtain ⟨-, -, hterm⟩ := launchKey_eq_some hl
    have hnone : s.tCurr t = none := by
      rcases hterm with ⟨rfl, hr⟩ | ⟨rfl, hr⟩
      · exact h.running2 hr
      · exact h.running3 hr
    have htCurr : ((s.keyed input tty).markRunning t).tCurr t = none := by
      rw [← hnone, ← hsame.tCurr]
      rfl
    refine ((h.same hsame).mark t).execute hd' (.inl htCurr) ?_ ?_ he
    · rintro rfl
      simp [markRunning]
    · rintro rfl
      simp [markRunning]

/-! ## Runs -/

theorem Tree.halt (h : Tree S s) (hst : s.started) {d : Dentry} (hd : HasShell s.fs d) {env : Env}
    (hok : s.RootReplaced (.halt env)) (hs : (halt env).result s = some ((), s')) :
    (∃ S', Tree S' s') ∧ HasShell s'.fs d := by
  rcases halt_cases hs with ⟨hroot, -, rfl⟩ | ⟨hroot, v, he⟩
  · rw [resumed_fs, halted_fs]
    exact ⟨⟨_, (h.pop hst hroot).same (resumed_same ..)⟩, hd⟩
  · obtain ⟨l, hl, hpid⟩ := h.top hst
    obtain ⟨-, -, hproc⟩ := halted_root h hst hroot
    have hlow := hok (hroot.symm.trans hpid)
    have hget : s.halted.getPid = some s.curr := by
      rw [getPid_eq_some, hproc]
      exact ⟨by simp, fun q hq => by rw [Function.update_of_ne (Fin.ne_of_lt hq)]; exact hlow q hq⟩
    have hd' : HasShell s.halted.fs d := by rwa [halted_fs]
    rcases hd'.spawn he with ⟨pid, args, v, hpid', -, rfl⟩ | ⟨hnone, -⟩
    · rw [hget] at hpid'
      cases hpid'
      rw [launched_fs, withArgs_fs, cli_fs, halted_fs]
      exact ⟨⟨S, h.replaceRoot hst hroot env args⟩, hd⟩
    · rw [hget] at hnone
      cases hnone

theorem Tree.step (h : Tree S s) {d : Dentry} (hd : HasShell s.fs d) {op : Op}
    (hok : s.RootReplaced op) (hs : step L s op = some s') :
    (∃ S', Tree S' s') ∧ HasShell s'.fs d := by
  obtain ⟨hen, s₁, hs₁, rfl⟩ := step_result L hs
  suffices hmid : (∃ S', Tree S' s₁) ∧ HasShell s₁.fs d from
    ⟨hmid.1.imp fun _ h => h.same (sti_same s₁), hmid.2⟩
  have hquiet (hq : Quiet s s₁) : (∃ S', Tree S' s₁) ∧ HasShell s₁.fs d :=
    ⟨⟨S, h.same hq.toSameProcs⟩, hd.of_image hq.image⟩
  cases op with
  | boot env =>
    rw [code, Prog.result_update_then] at hs₁
    obtain ⟨o, he⟩ := result_ignore hs₁
    have h0 : s.tCurr 0 = none := by
      by_contra hne
      exact hen ⟨0, hne⟩
    exact (h.same (clear_same s)).execute hd (.inl h0) (fun h => by cases h)
      (fun h => by cases h) he
  | execute env command =>
    obtain ⟨o, he⟩ := result_ignore hs₁
    rw [Kernel.execute, Prog.result_get_then] at he
    have hcurr := (h.current hen).1
    refine h.execute hd (.inr hcurr) (fun h1 => ?_) (fun h2 => ?_) he
    · by_contra hr
      rw [h1, h.running2 (by simpa using hr)] at hcurr
      cases hcurr
    · by_contra hr
      rw [h2, h.running3 (by simpa using hr)] at hcurr
      cases hcurr
  | halt env => exact h.halt hen hd hok hs₁
  | tick env => exact h.tick L hd hs₁
  | key env input => exact h.key hd hs₁
  | vidmap startScreen =>
    have hsame : SameProcs s s₁ := by
      rcases vidmap_cases L hs₁ with ⟨-, rfl⟩ | ⟨-, rfl⟩
      · exact SameProcs.refl _
      · exact ⟨rfl, rfl, rfl, fun _ => ⟨rfl, rfl, rfl⟩, rfl, rfl, rfl, rfl⟩
    exact ⟨⟨S, h.same hsame⟩, hd.of_image hsame.image⟩
  | openFile | close | read | write | rtc =>
    exact hquiet (file_quiet L _ (by trivial) hs₁)

/-- A root that leaves a lower number free is followed by a shell whose parent is dead. -/
theorem Tree.not_ok (h : Tree S s) (hst : s.started) {d : Dentry} (hd : HasShell s.fs d)
    {env : Env} (hs : (Kernel.halt env).result s = some ((), s')) {q : Pid} (hq : q < s.curr)
    (hroot : s.cur.pPid = s.curr) (hfree : s.procState q = false) : ¬ TreeOk s' := by
  obtain ⟨l, hl, hpid⟩ := h.top hst
  have hroot' : s.cur.pid = s.cur.pPid := hpid.trans hroot.symm
  obtain ⟨htCurr, hcurr, hproc⟩ := halted_root h hst hroot'
  have hfree' : s.halted.procState q = false := by
    rw [hproc, Function.update_of_ne (Fin.ne_of_lt hq), hfree]
  rcases halt_cases hs with ⟨hne, -⟩ | ⟨-, v, he⟩
  · exact absurd hroot' hne
  · have hd' : HasShell s.halted.fs d := by rwa [halted_fs]
    rcases hd'.spawn he with ⟨pid, args, v, hget, -, rfl⟩ | ⟨hnone, -⟩
    · intro hok
      have hlow := (getPid_eq_some.mp hget).2 q
      have hne : s.curr ≠ pid := by
        rintro rfl
        rw [hfree'] at hlow
        cases hlow hq
      obtain ⟨pe, pb, ce, cb, hpcb⟩ :=
        launched_pcb env pid s.cur.terminal (s.halted.cli.withArgs args)
      have hargs := args_tables s.halted args
      have hpar : (s.halted.cli.withArgs args).parentFor pid s.cur.terminal = s.curr := by
        have hsome : (s.halted.cli.withArgs args).tCurr s.cur.terminal ≠ none := by
          rw [hargs.tCurr, htCurr, (h.current hst).1]
          exact Option.some_ne_none _
        have hcurr' : (s.halted.cli.withArgs args).curr = s.curr := hargs.curr.trans hcurr
        rw [parentFor, if_neg hsome, hcurr', if_neg hne, cur, hcurr', hargs.pcb,
          (halted_ids s _).1]
        exact hpid
      have hdead : Function.update s.halted.procState pid true s.curr = false := by
        rw [Function.update_of_ne hne, hproc, Function.update_self]
      have hparent := hok.parent pid (by simp)
      rw [hpcb] at hparent
      simp only [hpar, launched_procState] at hparent
      rcases hparent with heq | ⟨hact, -⟩
      · exact hne heq
      · rw [hargs.procState, hdead] at hact
        cases hact
    · rw [getPid_eq_none.mp hnone q] at hfree'
      cases hfree'

/-- **The process tree.** Where every root that ends has its number free again as the
lowest one, all tables agree after every operation; a root that ends otherwise breaks
them at once. -/
theorem tree_ok {s₀ : Kernel} {d : Dentry} (h0 : NoProcess s₀) (hd : HasShell s₀.fs d)
    {ops : List Op} (h : Path (step L) RootReplaced s₀ ops s) :
    TreeOk s ∧ ∀ env s', step L s (.halt env) = some s' →
      (TreeOk s' ↔ s.RootReplaced (.halt env)) := by
  have hinv := h.invariant (fun s => (∃ S, Tree S s) ∧ HasShell s.fs d)
    (fun _ _ _ ⟨⟨_, h⟩, hd⟩ hok hs => h.step L hd hok hs) ⟨⟨_, h0.tree⟩, hd⟩
  obtain ⟨⟨S, htree⟩, hd⟩ := hinv
  refine ⟨htree.ok, fun env s' hs => ⟨fun hok => ?_, fun hok => ?_⟩⟩
  · obtain ⟨hst, s₁, hs₁, rfl⟩ := step_result L hs
    intro hroot q hq
    by_contra hfree
    refine htree.not_ok hst hd hs₁ hq hroot (by simpa using hfree) ?_
    exact ⟨hok.tCurr, hok.current, hok.parent, hok.chain, hok.search⟩
  · obtain ⟨⟨S', htree'⟩, -⟩ := htree.step L hd hok hs
    exact htree'.ok

instance (s : Kernel) (op : Op) : Decidable (s.RootReplaced op) :=
  match op with
  | .halt _ => inferInstanceAs (Decidable (s.cur.pPid = s.curr →
      ∀ q < s.curr, s.procState q = true))
  | .boot _ | .execute _ _ | .tick _ | .key _ _ | .vidmap _ | .openFile _ | .close _ | .read _ _ _
  | .write _ _ _ | .rtc => inferInstanceAs (Decidable True)

theorem tree_ok_shells :
    ∃ s, Path (step someLayout) RootReplaced (boot someLayout .shellOnly)
        [.tick .zero, .execute .zero shell, .tick .zero, .key .zero 56, .key .zero 60, .tick .zero,
          .halt .zero, .halt .zero] s ∧
      s.procState 0 = true ∧ TreeOk s := by
  obtain ⟨s, hs, hp⟩ := exists_of_map_decide (fun s : Kernel => s.procState 0 = true)
    (x := guardedRun (step someLayout) RootReplaced (boot someLayout .shellOnly)
      [.tick .zero, .execute .zero shell, .tick .zero, .key .zero 56, .key .zero 60, .tick .zero,
        .halt .zero, .halt .zero]) (by decide +kernel)
  have hpath := path_of_guardedRun hs
  exact ⟨s, hpath, hp, (tree_ok someLayout ⟨fun _ => rfl, fun _ => rfl⟩ shellOnly_hasShell hpath).1⟩

/-- The shell of terminal 1 ends while number 1 is free: its successor gets number 1 and
the dead number 2 for a parent. -/
theorem dead_parent :
    ∃ s, run (step someLayout) (boot someLayout .shellOnly)
        [.tick .zero, .execute .zero shell, .tick .zero, .key .zero 56, .key .zero 60, .tick .zero,
          .halt .zero, .tick .zero, .halt .zero] = some s ∧ ¬ TreeOk s := by
  obtain ⟨s, hs, hact, hpar, hdead⟩ := exists_of_map_decide
    (fun s : Kernel => s.procState 1 = true ∧ (s.pcb 1).pPid = 2 ∧ s.procState 2 = false)
    (x := run (step someLayout) (boot someLayout .shellOnly)
      [.tick .zero, .execute .zero shell, .tick .zero, .key .zero 56, .key .zero 60, .tick .zero,
        .halt .zero, .tick .zero, .halt .zero]) (by decide +kernel)
  refine ⟨s, hs, fun hok => ?_⟩
  rcases hok.parent 1 hact with h | ⟨h, -⟩
  · rw [hpar] at h
    cases h
  · rw [hpar, hdead] at h
    cases h

end Kernel

end OS391
