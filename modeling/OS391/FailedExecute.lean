import OS391.Executables
import OS391.LineEditor
import OS391.Steps

/-! What the kernel draws on the screens, and what a command leaves behind that `execute`
cannot start. -/

namespace OS391
open Library Library.Runs Library.Bytes

namespace Kernel

/-! ## The screens of a running kernel -/

/-- The screens of `s'` come from those of `s` by operations of `lib.c`. -/
def Draws (s s' : Kernel) : Prop := ∃ ops, run Console.step s.tty.con ops = some s'.tty.con

variable {s s' s'' : Kernel}

theorem Draws.of_con (h : s'.tty.con = s.tty.con) : Draws s s' := ⟨[], by rw [h]; rfl⟩

theorem Draws.trans (h : Draws s s') (h' : Draws s' s'') : Draws s s'' := by
  obtain ⟨ops, hops⟩ := h
  obtain ⟨ops', hops'⟩ := h'
  exact ⟨ops ++ ops', by rw [run_append, hops, Option.bind_some, hops']⟩

theorem Draws.of_op (op : ConsoleOp) (h : s.tty.con.step op = some s'.tty.con) : Draws s s' :=
  ⟨[op], by rw [Tty.run_single, h]⟩

theorem terminalWrite_draws {mem : List UInt8} {count n : Int}
    (h : s.terminalWrite mem count = some (n, s')) : Draws s s' := by
  obtain ⟨tty, hw, rfl⟩ := terminalWrite_cases h
  unfold Tty.terminalWrite at hw
  dsimp only at hw
  split at hw
  · cases hw
  · obtain ⟨con, hcon, hw⟩ := Option.map_eq_some_iff.mp hw
    cases hw
    exact ⟨_, (run_map Console.step .putcScroll _ _).trans hcon⟩

variable (L : Layout)

theorem draws_carried : Carried L Draws where
  trans h h' := h.trans h'
  idle h := Draws.of_con h.con
  clear s := Draws.of_op .clear rfl
  wrote h := terminalWrite_draws h
  launched env pid t _ := Draws.of_op (.setActiveTerminal t) (by rw [launched_tty]; rfl)
  switched {s t pid} env _ := Draws.of_op (.setActiveTerminal (s.pcb pid).terminal) rfl
  keyed {s input tty} h := by
    rw [Tty.keyboardByte_eq] at h
    obtain ⟨con, hcon, rfl⟩ := Option.map_eq_some_iff.mp h
    have hbyte : Draws s { s.cli with
        tty := ⟨con, s.tty.kbd.edit s.tty.con.displayTerminal input⟩ } :=
      ⟨_, hcon⟩
    unfold keyed displayPaging
    split
    · exact hbyte.trans (Draws.of_op (.setActiveTerminal con.activeTerminal) rfl)
    · exact hbyte

/-- Whatever happens to the kernel, its screens change by operations of `lib.c` only. -/
theorem step_draws {op : Op} (h : step L s op = some s') : Draws s s' := by
  refine (draws_carried L).step (fun _ _ => Draws.of_con rfl) (fun s₁ hop hs₁ => ?_) h
  cases op with
  | openFile filename =>
    obtain ⟨r, hr⟩ := openFile_code hs₁
    exact Draws.of_con (by rw [openFile_frame hr])
  | close fd => cases hs₁; exact Draws.of_con rfl
  | read fd buf nbytes =>
    obtain ⟨r, hr⟩ := read_code hs₁
    exact Draws.of_con (by rw [read_frame hr])
  | write fd buf nbytes =>
    obtain ⟨r, hr⟩ := write_code hs₁
    rcases write_cases hr with rfl | ⟨mem, n, hw⟩ | ⟨rtc, rfl⟩
    · exact Draws.of_con rfl
    · exact terminalWrite_draws hw
    · exact Draws.of_con rfl
  | _ => exact hop.elim

/-- Every terminal shows some screen. -/
def Shown (s : Kernel) : Prop := ∀ t, ∃ scr, Console.Shows s.tty.con t scr

theorem Shown.draws (h : s.Shown) (hs : Draws s s') : s'.Shown := by
  obtain ⟨ops, hops⟩ := hs
  exact run_invariant (fun con => ∀ t, ∃ scr, Console.Shows con t scr)
    (fun _ _ _ hcon hop => Console.step_shows hcon hop) hops h

theorem shown_boot (fs : FileSys) : (boot L fs).Shown := by
  intro t
  apply Console.OnScreen.shows
  simp [boot, Console.OnScreen, Console.boot]

theorem shown_run {fs : FileSys} {ops : List Op}
    (h : run (step L) (boot L fs) ops = some s) : s.Shown :=
  run_invariant Shown (fun _ _ _ hs hop => hs.draws (step_draws L hop)) h (shown_boot L fs)

/-! ## Messages -/

/-- On screens that are shown, output goes on to its end. -/
theorem putsScroll_total {con : Console} (h : ∀ t, ∃ scr, Console.Shows con t scr)
    (bytes : List UInt8) : ∃ con', con.putsScroll bytes = some con' := by
  induction bytes generalizing con with
  | nil => exact ⟨con, rfl⟩
  | cons c bytes ih =>
    obtain ⟨scr, hscr⟩ := h con.activeTerminal
    have hto : con.addressee (.putcScroll c) = some con.activeTerminal := rfl
    obtain ⟨con₁, hstep, -⟩ := Console.step_addressed hto hscr rfl
    obtain ⟨con', hrest⟩ := ih (Console.step_shows h hstep)
    exact ⟨con', Option.bind_eq_some_iff.mpr ⟨con₁, hstep, hrest⟩⟩

theorem errMsg_total (h : s.Shown) : ∃ n s', s.terminalWrite errMsg 26 = some (n, s') := by
  have hlim : Tty.writeLim 26 = 26 := rfl
  have hlen : ¬ ((26 : Int) < 0 ∨ errMsg.length < 26) := by decide
  unfold terminalWrite Tty.terminalWrite
  dsimp only
  rw [hlim, if_neg hlen]
  obtain ⟨con, hcon⟩ := putsScroll_total h (window _ (Keyboard.row s.tty.con.activeTerminal) 26)
  rw [hcon]
  exact ⟨_, _, rfl⟩

/-! ## A failed execute -/

/-- The file named by the first word is missing, or `verify_file` does not accept it. -/
def Rejected (env : Env) (fs : FileSys) (name : List UInt8) : Prop :=
  ∀ d, fs.readDentryByName name = some (some d) → verdict env fs d = none

section

variable {env : Env} {cmd : List UInt8} {n : Nat} (hn : strlen cmd = some n) (hle : n ≤ 128)
  (hbuf : env.fileBuf.length = 4)
include hn hle hbuf

theorem verifyFile_rejected (s : Kernel) :
    ∃ r, verifyFile env cmd s = some (r, s.withArgs (argText (cmd.take n))) ∧
      (r = none ↔ Rejected env s.fs (inFile (cmd.take n))) := by
  obtain ⟨found, hfound, hverify⟩ := verifyFile_eq hn hle hbuf s
  refine ⟨_, hverify, ?_⟩
  unfold Rejected
  rw [hfound]
  cases found with
  | none => simp
  | some d => simp

/-- The three ends of `execute` on a command of at most 128 bytes. -/
theorem execute_ends {o : Outcome} (h : (execute env (some cmd)).result s = some (o, s')) :
    Rejected env s.fs (inFile (cmd.take n)) ∧ o = .returned (-1) ∧
        s' = s.cli.withArgs (argText (cmd.take n)) ∨
      ¬ Rejected env s.fs (inFile (cmd.take n)) ∧
        ((∀ q, s.procState q = true) ∧ o = .returned 0 ∧
            (∃ k, (s.cli.withArgs (argText (cmd.take n))).terminalWrite errMsg 26 = some (k, s')) ∨
          (¬ ∀ q, s.procState q = true) ∧ ∃ v, o = .entered v) := by
  obtain ⟨r, hverify, hiff⟩ := verifyFile_rejected hn hle hbuf s.cli
  have hiff' : r = none ↔ Rejected env s.fs (inFile (cmd.take n)) := hiff
  rw [execute, Prog.result_get_then] at h
  obtain ⟨r', s₁, hverify', hcase⟩ := execute_cases h
  obtain ⟨rfl, rfl⟩ := Prod.mk.inj (Option.some.inj (hverify.symm.trans hverify'))
  rw [← hiff']
  cases r with
  | none => exact .inl ⟨rfl, hcase⟩
  | some v =>
    refine .inr ⟨Option.some_ne_none v, ?_⟩
    rcases hcase with ⟨hfull, ho, hwrite⟩ | ⟨pid, hpid, ho, -⟩
    · exact .inl ⟨getPid_eq_none.mp hfull, ho, hwrite⟩
    · refine .inr ⟨fun hfull => ?_, v, ho⟩
      rw [getPid_eq_none.mpr hfull] at hpid
      cases hpid

theorem execute_total (hshown : s.Shown) :
    ∃ o s', (execute env (some cmd)).result s = some (o, s') := by
  obtain ⟨r, hverify, -⟩ := verifyFile_rejected hn hle hbuf s.cli
  rw [execute, Prog.result_get_then, executeWithTerminalNum, Prog.result_update_then,
    Prog.result_bind, Prog.result_call, hverify, Option.bind_some]
  cases r with
  | none => exact ⟨_, _, rfl⟩
  | some v =>
    dsimp only
    rw [Prog.result_get_then]
    cases (s.cli.withArgs (argText (cmd.take n))).getPid with
    | none =>
      have hargs : Shown (s.cli.withArgs (argText (cmd.take n))) :=
        hshown.draws (Draws.of_con rfl)
      obtain ⟨k, s', hwrite⟩ := errMsg_total hargs
      dsimp only
      rw [Prog.result_bind, Prog.result_call, hwrite]
      exact ⟨_, _, rfl⟩
    | some pid =>
      dsimp only
      rw [Prog.result_bind, launch_result]
      exact ⟨_, _, rfl⟩

end

deriving instance DecidableEq for Outcome

end Kernel

end OS391
