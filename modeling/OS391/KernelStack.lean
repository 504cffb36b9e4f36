import OS391.Effects

/-! The kernel stack on which the next interrupt or system call of the current process
begins. -/

namespace OS391
open Library Library.Runs Library.Bytes

namespace Kernel

variable (L : Layout) {s s' : Kernel}

/-- Once a process runs, `tss.esp0` is the top of the kernel stack of the current one. -/
def EntryOk (s : Kernel) : Prop := s.started → s.tssEsp0 = getEsp s.curr

/-- No process halts but a root. -/
def HaltsRoot (s : Kernel) : Op → Prop
  | .halt _ => s.cur.pid = s.cur.pPid
  | _ => True

instance (s : Kernel) (op : Op) : Decidable (s.HaltsRoot op) :=
  match op with
  | .halt _ => inferInstanceAs (Decidable (s.cur.pid = s.cur.pPid))
  | .boot _ | .execute _ _ | .tick _ | .key _ _ | .vidmap _ | .openFile _ | .close _
  | .read _ _ _ | .write _ _ _ | .rtc => isTrue trivial

/-- Stack, process and terminals are the same. -/
structure SameEntry (s s' : Kernel) : Prop where
  tssEsp0 : s'.tssEsp0 = s.tssEsp0
  curr : s'.curr = s.curr
  tCurr : s'.tCurr = s.tCurr

theorem SameEntry.trans {s'' : Kernel} (h : SameEntry s s') (h' : SameEntry s' s'') :
    SameEntry s s'' :=
  ⟨h'.tssEsp0.trans h.tssEsp0, h'.curr.trans h.curr, h'.tCurr.trans h.tCurr⟩

theorem EntryOk.same (h : s.EntryOk) (hs : SameEntry s s') : s'.EntryOk := by
  intro hst
  rw [started, hs.tCurr] at hst
  rw [hs.tssEsp0, hs.curr]
  exact h hst

theorem launched_entry (env : Env) (pid : Pid) (t : Terminal) (s : Kernel) :
    (launched env pid t s).EntryOk := by
  intro _
  rw [launched_eq]

theorem switched_entry (env : Env) (pid p : Pid) (s : Kernel) :
    ((switched L pid s).saved env p).EntryOk :=
  fun _ => rfl

theorem args_entry (s : Kernel) (args : List UInt8) : SameEntry s (s.cli.withArgs args) :=
  ⟨rfl, rfl, rfl⟩

theorem terminalWrite_entry {mem : List UInt8} {count n : Int}
    (h : s.terminalWrite mem count = some (n, s')) : SameEntry s s' := by
  obtain ⟨tty, -, rfl⟩ := terminalWrite_cases h
  exact ⟨rfl, rfl, rfl⟩

/-- A new process starts on its own stack; a command that fails leaves everything. -/
theorem execute_entry {env : Env} {cmd : Option (List UInt8)} {t : Terminal} {o : Outcome}
    (h : (executeWithTerminalNum env cmd t).result s = some (o, s')) :
    (∃ v, o = .entered v) ∧ s'.EntryOk ∨ (∃ v, o = .returned v) ∧ SameEntry s s' := by
  cases cmd with
  | none => cases h; exact .inr ⟨⟨_, rfl⟩, rfl, rfl, rfl⟩
  | some cmd =>
    obtain ⟨r, s₁, hv, h⟩ := execute_cases h
    obtain ⟨n, -, -, rfl⟩ := verifyFile_state hv
    have hargs := args_entry s (argText (cmd.take n))
    cases r with
    | none =>
      obtain ⟨rfl, rfl⟩ := h
      exact .inr ⟨⟨_, rfl⟩, hargs⟩
    | some v =>
      rcases h with ⟨-, rfl, n, hw⟩ | ⟨pid, -, rfl, rfl⟩
      · exact .inr ⟨⟨_, rfl⟩, hargs.trans (terminalWrite_entry hw)⟩
      · exact .inl ⟨⟨_, rfl⟩, launched_entry env pid t _⟩

theorem EntryOk.execute (h : s.EntryOk) {env : Env} {cmd : Option (List UInt8)} {t : Terminal}
    {o : Outcome} (hs : (executeWithTerminalNum env cmd t).result s = some (o, s')) :
    s'.EntryOk := by
  rcases execute_entry hs with ⟨-, hok⟩ | ⟨-, hsame⟩
  · exact hok
  · exact h.same hsame

theorem schedule_entry {env : Env} (h : (schedule L env).result s = some ((), s')) :
    s'.EntryOk := by
  obtain ⟨t, pid, -, -, rfl⟩ := schedule_cases L h
  exact switched_entry L env pid s.curr s

theorem EntryOk.tick (h : s.EntryOk) {env : Env}
    (hs : (pitIntHandler L env).result s = some ((), s')) : s'.EntryOk := by
  rcases tick_cases L hs with ⟨-, hs⟩ | ⟨-, o, s₁, he, hs⟩
  · exact schedule_entry L hs
  · have hclear : SameEntry s s.cli.clear := ⟨rfl, rfl, rfl⟩
    have hshell := (h.same hclear).execute he
    cases o with
    | entered v => subst hs; exact hshell
    | returned v => exact schedule_entry L hs

theorem EntryOk.key (h : s.EntryOk) {env : Env} {input : UInt8}
    (hs : (keyboardHandler env input).result s = some ((), s')) : s'.EntryOk := by
  obtain ⟨tty, -, hs⟩ := key_cases hs
  have hkeyed : SameEntry s (s.keyed input tty) := by
    rw [keyed_eq]
    exact ⟨rfl, rfl, rfl⟩
  rcases hs with ⟨-, rfl⟩ | ⟨t, o, -, he⟩
  · exact h.same hkeyed
  · have hmark : SameEntry (s.keyed input tty) ((s.keyed input tty).markRunning t) :=
      ⟨rfl, rfl, rfl⟩
    exact (h.same (hkeyed.trans hmark)).execute he

/-! ## Halting -/

/-- A halt ends with a new shell on its own stack, or with the stack that the parent had
when it called `execute`. -/
theorem halt_entry {env : Env} (hs : (halt env).result s = some ((), s')) :
    s.HaltsRoot (.halt env) ∧ s'.EntryOk ∨
      ¬ s.HaltsRoot (.halt env) ∧ s'.started ∧ s'.tssEsp0 = s.cur.parentEsp ∧
        s'.curr = s.cur.pPid := by
  rcases halt_cases hs with ⟨hne, -, rfl⟩ | ⟨hroot, v, he⟩
  · have hstarted : s.halted.started := by
      refine ⟨s.cur.terminal, ?_⟩
      rw [halted_tCurr, Function.update_self]
      exact Option.some_ne_none _
    exact .inr ⟨hne, hstarted, rfl, rfl⟩
  · left
    refine ⟨hroot, ?_⟩
    rcases execute_entry he with ⟨-, hok⟩ | ⟨⟨_, hreturned⟩, -⟩
    · exact hok
    · cases hreturned

/-! ## Runs -/

theorem EntryOk.step (h : s.EntryOk) {op : Op} (hok : s.HaltsRoot op)
    (hs : step L s op = some s') : s'.EntryOk := by
  obtain ⟨-, s₁, hs₁, rfl⟩ := step_result L hs
  have hsti : SameEntry s₁ s₁.sti := ⟨rfl, rfl, rfl⟩
  suffices hmid : s₁.EntryOk from hmid.same hsti
  cases op with
  | boot env =>
    rw [code, Prog.result_update_then] at hs₁
    obtain ⟨o, he⟩ := result_ignore hs₁
    have hclear : SameEntry s s.clear := ⟨rfl, rfl, rfl⟩
    exact (h.same hclear).execute he
  | execute env command =>
    obtain ⟨o, he⟩ := result_ignore hs₁
    rw [Kernel.execute, Prog.result_get_then] at he
    exact h.execute he
  | halt env =>
    rcases halt_entry hs₁ with ⟨-, hentry⟩ | ⟨hnot, -⟩
    · exact hentry
    · exact absurd hok hnot
  | tick env => exact h.tick L hs₁
  | key env input => exact h.key hs₁
  | vidmap startScreen =>
    rcases vidmap_cases L hs₁ with ⟨-, rfl⟩ | ⟨-, rfl⟩
    · exact h
    · exact h.same ⟨rfl, rfl, rfl⟩
  | openFile filename =>
    obtain ⟨r, hr⟩ := openFile_code hs₁
    rw [openFile_frame hr]
    exact h.same ⟨rfl, rfl, rfl⟩
  | close fd =>
    cases hs₁
    exact h.same ⟨rfl, rfl, rfl⟩
  | read fd buf nbytes =>
    obtain ⟨r, hr⟩ := read_code hs₁
    rw [read_frame hr]
    exact h.same ⟨rfl, rfl, rfl⟩
  | write fd buf nbytes =>
    obtain ⟨r, hr⟩ := write_code hs₁
    rw [write_frame hr]
    exact h.same ⟨rfl, rfl, rfl⟩
  | rtc =>
    cases hs₁
    exact h.same ⟨rfl, rfl, rfl⟩

/-- **The kernel is entered on the stack of the current process**, in every state of a run
in which only roots halt, each to be followed by a shell. From such a state a halt of
another kind breaks it, as the stack recorded for a child begins below the top. -/
theorem entry_stack {fs : FileSys} {ops : List Op}
    (hrun : Path (step L) HaltsRoot (boot L fs) ops s) :
    s.EntryOk ∧ ∀ env s', step L s (.halt env) = some s' →
      s.cur.parentEsp < getEsp s.cur.pPid → (s'.EntryOk ↔ s.HaltsRoot (.halt env)) := by
  have hboot : (boot L fs).EntryOk := fun ⟨_, h⟩ => absurd rfl h
  have hentry := hrun.invariant EntryOk (fun _ _ _ h hok hs => h.step L hok hs) hboot
  refine ⟨hentry, fun env s' hs hesp => ?_⟩
  constructor
  · intro hok
    obtain ⟨-, s₁, hs₁, rfl⟩ := step_result L hs
    rcases halt_entry hs₁ with ⟨hroot, -⟩ | ⟨-, hst, htss, hcurr⟩
    · exact hroot
    · have htop : s₁.tssEsp0 = getEsp s₁.curr := hok hst
      rw [htss, hcurr] at htop
      omega
  · intro hok
    exact hentry.step L hok hs

theorem entry_stack_shells : ∃ s,
    Path (step someLayout) HaltsRoot (boot someLayout .shellOnly)
      [.boot .zero, .execute .zero shell, .tick .zero] s ∧ s.started ∧
    s.tssEsp0 = getEsp s.curr := by
  obtain ⟨s, hrun, hst⟩ := exists_of_map_decide started
    (x := guardedRun (step someLayout) HaltsRoot (boot someLayout .shellOnly)
      [.boot .zero, .execute .zero shell, .tick .zero]) (by decide +kernel)
  have hpath := path_of_guardedRun hrun
  exact ⟨s, hpath, hst, (entry_stack someLayout hpath).1 hst⟩

/-- When its child has halted, a shell enters the kernel 240 bytes below the top. -/
theorem halt_lowers_stack : ∃ s,
    run (step someLayout) (boot someLayout .shellOnly)
      [.boot .zero, .execute { Env.zero with esp := getEsp 0 - 240 } shell, .halt .zero] = some s ∧
    s.curr = 0 ∧ s.tssEsp0 = getEsp 0 - 240 ∧ ¬ s.EntryOk := by
  obtain ⟨s, hrun, hcurr, hst, htss⟩ := exists_of_map_decide
    (fun s : Kernel => s.curr = 0 ∧ s.started ∧ s.tssEsp0 = getEsp 0 - 240)
    (x := run (step someLayout) (boot someLayout .shellOnly)
      [.boot .zero, .execute { Env.zero with esp := getEsp 0 - 240 } shell, .halt .zero])
    (by decide +kernel)
  refine ⟨s, hrun, hcurr, htss, fun h => ?_⟩
  have htop := h hst
  rw [htss, hcurr] at htop
  omega

end Kernel

end OS391
