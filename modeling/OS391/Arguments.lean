import OS391.Effects

/-! The arguments of a process. There is one buffer for all of them: `getargs` returns the
arguments that were passed last to any execution of a command. -/

namespace OS391
open Library Library.Runs Library.Bytes

namespace Kernel

variable (L : Layout)

/-! ## The argument buffer -/

/-- The argument text of a command in memory. -/
def textArgs (cmd : List UInt8) : List UInt8 := argText (cString cmd)

/-- The argument buffer holds an argument text, with NULs after it. -/
structure ArgsAre (s : Kernel) (args : List UInt8) : Prop where
  size : s.argSize = args.length
  fits : args.length ≤ cmdLimit
  buffer : window s.argBuf 0 cmdLimit = args ++ List.replicate (cmdLimit - args.length) 0

/-- What `getargs` returns, and leaves in the buffer at hand, for an argument text. -/
def argsReply (args mem : List UInt8) : Int × List UInt8 :=
  if args = [] then (-1, mem)
  else
    let n := (cString mem).length
    (0, args ++ [0] ++ (List.replicate n 0 ++ mem.drop n).drop (args.length + 1))

theorem nul_notMem_textArgs (cmd : List UInt8) : 0 ∉ textArgs cmd := by
  intro h
  have htail := (List.mem_filter.mp h).1
  exact nul_notMem_cString cmd ((List.dropWhile_suffix _).subset htail)

theorem withArgs_are (s : Kernel) {args : List UInt8} (h : args.length ≤ cmdLimit) :
    (s.withArgs args).ArgsAre args := by
  refine ⟨rfl, h, List.ext_getElem ?_ fun i hi hi' => ?_⟩
  · rw [window_length, List.length_append, List.length_replicate]
    omega
  · rw [window_length] at hi
    rw [window_getElem, Nat.zero_add]
    simp only [withArgs, blit, fill, Nat.zero_le, true_and, Nat.zero_add, Nat.sub_zero]
    by_cases hlt : i < args.length
    · rw [if_pos hlt, List.getD_eq_getElem _ _ hlt, List.getElem_append_left hlt]
    · rw [if_neg hlt, if_pos hi, List.getElem_append_right (by omega), List.getElem_replicate]

/-- `getargs` with a buffer that holds a string and has room for the arguments. -/
theorem getargs_eq {s : Kernel} {args mem : List UInt8} (h : s.ArgsAre args) (hnul : 0 ∉ args)
    (hshort : args.length < cmdLimit) (hmem : 0 ∈ mem) (hroom : args.length < mem.length) :
    s.getargs (some mem) = some (argsReply args mem) := by
  unfold getargs argsReply
  dsimp only
  rw [h.size]
  by_cases hempty : args = []
  · rw [if_pos hempty, if_pos (by simp [hempty])]
  have hpos : args.length ≠ 0 := fun h0 => hempty (List.length_eq_zero_iff.mp h0)
  obtain ⟨k, hk⟩ : ∃ k, cmdLimit - args.length = k + 1 := ⟨cmdLimit - args.length - 1, by omega⟩
  have hbuffer : strlen (window s.argBuf 0 cmdLimit) = some args.length := by
    rw [h.buffer, hk, List.replicate_succ, strlen_of_mem (by simp), cString_append hnul]
    simp [cString]
  have hargs : window s.argBuf 0 args.length = args := by
    have htake := congrArg (List.take args.length) h.buffer
    rwa [window_take, Nat.min_eq_left h.fits, List.take_left' rfl] at htake
  have hlt := cString_length_lt hmem
  rw [if_neg hempty, if_neg hpos, strlen_of_mem hmem, Option.bind_some, hbuffer,
    Option.bind_some, hargs, if_neg]
  rw [List.length_append, List.length_replicate, List.length_drop]
  omega

/-! ## Executions -/

variable {s s' : Kernel}

/-- The argument buffer is the same. -/
theorem ArgsAre.same {args : List UInt8} (h : s.ArgsAre args) (hbuf : s'.argBuf = s.argBuf)
    (hsize : s'.argSize = s.argSize) : s'.ArgsAre args :=
  ⟨hsize.trans h.size, h.fits, by rw [hbuf]; exact h.buffer⟩

/-- Every command that is handed to `execute_with_terminal_num` leaves its arguments, even
if no such file exists. -/
theorem execute_args {env : Env} {cmd : List UInt8} {t : Terminal} {o : Outcome}
    (h : (executeWithTerminalNum env (some cmd) t).result s = some (o, s')) :
    s'.ArgsAre (textArgs cmd) := by
  obtain ⟨r, s₁, hv, h⟩ := execute_cases h
  obtain ⟨n, hn, hfits, hs₁⟩ := verifyFile_state hv
  rw [strlen_take hn] at hfits hs₁
  have hargs : s₁.ArgsAre (textArgs cmd) := hs₁ ▸ withArgs_are s.cli hfits
  cases r with
  | none => exact h.2 ▸ hargs
  | some v =>
    rcases h with ⟨-, -, n, hw⟩ | ⟨pid, -, -, rfl⟩
    · have hquiet := terminalWrite_quiet hw
      exact hargs.same hquiet.argBuf hquiet.argSize
    · exact hargs.same (launched_argBuf ..) (launched_argSize ..)

/-- The command that an operation hands to `execute_with_terminal_num`. -/
def handed (s : Kernel) : Op → Option (List UInt8)
  | .boot _ => shell
  | .execute _ command => command
  | .halt _ => if s.cur.pid = s.cur.pPid then shell else none
  | .tick _ => if s.tCurr 0 = none then shell else none
  | .key _ input => if s.launchKey input = none then none else shell
  | _ => none

/-- The arguments of the last command in a history. -/
def lastArgs (last : Option (List UInt8)) : List UInt8 := (last.map textArgs).getD []

/-- `s'` has the arguments of the command that was handed over, or those of `s`. -/
def Passed (s : Kernel) (cmd : Option (List UInt8)) (s' : Kernel) : Prop :=
  match cmd with
  | some cmd => s'.ArgsAre (textArgs cmd)
  | none => s'.argBuf = s.argBuf ∧ s'.argSize = s.argSize

theorem Passed.same {s₁ : Kernel} {cmd : Option (List UInt8)} (h : Passed s cmd s₁)
    (hbuf : s'.argBuf = s₁.argBuf) (hsize : s'.argSize = s₁.argSize) : Passed s cmd s' := by
  cases cmd with
  | some cmd => exact ArgsAre.same h hbuf hsize
  | none => exact ⟨hbuf.trans h.1, hsize.trans h.2⟩

theorem schedule_args {env : Env} (h : (schedule L env).result s = some ((), s')) :
    s'.argBuf = s.argBuf ∧ s'.argSize = s.argSize := by
  obtain ⟨t, pid, -, -, rfl⟩ := schedule_cases L h
  exact ⟨rfl, rfl⟩

theorem tick_args {env : Env} (h : (pitIntHandler L env).result s = some ((), s')) :
    Passed s (s.handed (.tick env)) s' := by
  rcases tick_cases L h with ⟨h0, hs⟩ | ⟨h0, o, s₁, he, hs⟩
  · rw [handed, if_neg h0]
    have hargs := schedule_args L hs
    exact hargs
  · rw [handed, if_pos h0]
    have hargs : Passed s shell s₁ := execute_args he
    cases o with
    | entered v => exact hs ▸ hargs
    | returned v => exact hargs.same (schedule_args L hs).1 (schedule_args L hs).2

theorem halted_buffer (s : Kernel) : s.halted.argBuf = s.argBuf ∧ s.halted.argSize = s.argSize :=
  ⟨rfl, rfl⟩

theorem resumed_buffer (par : Pid) (parentEsp : Int) (s : Kernel) :
    (resumed par parentEsp s).argBuf = s.argBuf ∧ (resumed par parentEsp s).argSize = s.argSize :=
  ⟨rfl, rfl⟩

theorem halt_args {env : Env} (h : (halt env).result s = some ((), s')) :
    Passed s (s.handed (.halt env)) s' := by
  rcases halt_cases h with ⟨hroot, -, rfl⟩ | ⟨hroot, v, he⟩
  · rw [handed, if_neg hroot]
    obtain ⟨hbuf, hsize⟩ := resumed_buffer s.cur.pPid s.cur.parentEsp s.halted
    exact ⟨hbuf.trans (halted_buffer s).1, hsize.trans (halted_buffer s).2⟩
  · rw [handed, if_pos hroot]
    exact execute_args he

theorem key_args {env : Env} {input : UInt8}
    (h : (keyboardHandler env input).result s = some ((), s')) :
    Passed s (s.handed (.key env input)) s' := by
  obtain ⟨tty, -, ⟨hl, rfl⟩ | ⟨t, o, hl, he⟩⟩ := key_cases h
  · rw [handed, if_pos hl, keyed_eq]
    exact ⟨rfl, rfl⟩
  · rw [handed, if_neg (by rw [hl]; exact Option.some_ne_none t)]
    exact execute_args he

theorem step_args {op : Op} (h : step L s op = some s') : Passed s (s.handed op) s' := by
  obtain ⟨-, s₁, hs₁, rfl⟩ := step_result L h
  suffices hmid : Passed s (s.handed op) s₁ from hmid.same rfl rfl
  have hquiet (hq : Quiet s s₁) : Passed s none s₁ := ⟨hq.argBuf, hq.argSize⟩
  cases op with
  | boot env =>
    rw [code, Prog.result_update_then] at hs₁
    obtain ⟨o, he⟩ := result_ignore hs₁
    exact execute_args he
  | execute env command =>
    obtain ⟨o, he⟩ := result_ignore hs₁
    rw [Kernel.execute, Prog.result_get_then] at he
    cases command with
    | none => cases he; exact ⟨rfl, rfl⟩
    | some cmd => exact execute_args he
  | halt env => exact halt_args hs₁
  | tick env => exact tick_args L hs₁
  | key env input => exact key_args hs₁
  | vidmap startScreen => rcases vidmap_cases L hs₁ with ⟨-, rfl⟩ | ⟨-, rfl⟩ <;> exact ⟨rfl, rfl⟩
  | openFile | close | read | write | rtc =>
    exact hquiet (file_quiet L _ (by trivial) hs₁)

/-! ## Histories -/

/-- The kernel, and the last command that was handed to `execute_with_terminal_num`. -/
def logStep (x : Kernel × Option (List UInt8)) (op : Op) :
    Option (Kernel × Option (List UInt8)) :=
  (step L x.1 op).map fun s => (s, (x.1.handed op).or x.2)

theorem boot_args (fs : FileSys) : (boot L fs).ArgsAre [] :=
  ⟨rfl, Nat.zero_le _, show window (fun _ => (0 : UInt8)) 0 cmdLimit = _ by decide⟩

/-- **Arguments.** Whoever calls `getargs`, its result is determined by the last command that
anybody has executed, or failed to execute. -/
theorem getargs_last {fs : FileSys} {ops : List Op} {last : Option (List UInt8)}
    (h : run (logStep L) (boot L fs, none) ops = some (s, last)) {mem : List UInt8}
    (hshort : (lastArgs last).length < cmdLimit) (hmem : 0 ∈ mem)
    (hroom : (lastArgs last).length < mem.length) :
    s.getargs (some mem) = some (argsReply (lastArgs last) mem) := by
  have hinv := run_invariant (fun x => x.1.ArgsAre (lastArgs x.2)) (fun x op y hx hstep => by
    obtain ⟨s', hs', rfl⟩ := Option.map_eq_some_iff.mp hstep
    have hpassed := step_args L hs'
    dsimp only
    cases hop : x.1.handed op with
    | none =>
      rw [hop] at hpassed
      exact hx.same hpassed.1 hpassed.2
    | some cmd =>
      rw [hop] at hpassed
      exact hpassed) h (boot_args L fs)
  have hnul : 0 ∉ lastArgs last := by
    cases last with
    | none => exact List.not_mem_nil
    | some cmd => exact nul_notMem_textArgs cmd
  exact getargs_eq hinv hnul hshort hmem hroom

theorem getargs_last_shell : ∃ s,
    run (logStep someLayout) (boot someLayout .shellOnly, none)
      [.boot .zero, .execute .zero (some (cText "shell a")),
        .execute .zero (some (cText "shell b c"))] =
        some (s, some (cText "shell b c")) ∧
      s.getargs (some [0, 0, 0]) = some (0, [98, 99, 0]) := by
  obtain ⟨⟨s, last⟩, hs, hlast⟩ := exists_of_map_decide
    (fun x : Kernel × Option (List UInt8) => x.2 = some (cText "shell b c"))
    (x := run (logStep someLayout) (boot someLayout .shellOnly, none)
      [.boot .zero, .execute .zero (some (cText "shell a")),
        .execute .zero (some (cText "shell b c"))]) (by decide +kernel)
  subst hlast
  exact ⟨s, hs, getargs_last someLayout hs (by decide) (by decide) (by decide)⟩

/-- A process that was started with an argument loses it when it executes a command that
does not exist. -/
theorem arguments_lost : ∃ s s',
    run (step someLayout) (boot someLayout .shellOnly)
      [.boot .zero, .execute .zero (some (cText "shell a"))] = some s ∧
    step someLayout s (.execute .zero (some (cText "x"))) = some s' ∧
    s'.curr = s.curr ∧ s'.procState s.curr = true ∧
    s.getargs (some [0, 0]) = some (0, [97, 0]) ∧ s'.getargs (some [0, 0]) = some (-1, [0, 0]) := by
  obtain ⟨⟨s, s'⟩, hs, hcurr, hrun, hbefore, hafter⟩ := exists_of_map_decide
    (fun x : Kernel × Kernel => x.2.curr = x.1.curr ∧ x.2.procState x.1.curr = true ∧
      x.1.getargs (some [0, 0]) = some (0, [97, 0]) ∧
      x.2.getargs (some [0, 0]) = some (-1, [0, 0]))
    (x := (run (step someLayout) (boot someLayout .shellOnly)
      [.boot .zero, .execute .zero (some (cText "shell a"))]).bind fun s =>
        (step someLayout s (.execute .zero (some (cText "x")))).map fun s' => (s, s'))
    (by decide +kernel)
  obtain ⟨s₁, hs₁, hs⟩ := Option.bind_eq_some_iff.mp hs
  obtain ⟨s₂, hs₂, hs⟩ := Option.map_eq_some_iff.mp hs
  cases hs
  exact ⟨s, s', hs₁, hs₂, hcurr, hrun, hbefore, hafter⟩

end Kernel

end OS391
