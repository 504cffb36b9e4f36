import OS391.ProcessTree

/-! Turns: how long it takes until the process of a terminal is the current one. -/

namespace OS391
open Library Library.Runs Library.Bytes

namespace Kernel

variable (L : Layout)

/-- No key starts a shell. -/
def NoLaunch (s : Kernel) : Op → Prop
  | .key _ input => s.launchKey input = none
  | _ => True

/-- Roots that end are replaced, and no key starts a shell. -/
def Ordinary (s : Kernel) (op : Op) : Prop := s.RootReplaced op ∧ s.NoLaunch op

def isTick : Op → Bool
  | .tick _ => true
  | _ => false

def ticks (ops : List Op) : Nat := ops.countP isTick

/-- The number of steps from the current terminal on to `u`. -/
def distance (s : Kernel) (u : Terminal) : Nat := (u - s.cur.terminal).val

variable {S : Stacks Terminal Pid} {s s' : Kernel}

theorem distance_eq_zero {u : Terminal} (h : s.distance u = 0) : s.cur.terminal = u := by
  unfold distance at h
  generalize s.cur.terminal = c at h ⊢
  revert c u
  decide

theorem distance_le (s : Kernel) (u : Terminal) : s.distance u ≤ 2 := by
  unfold distance
  omega

/-- The search does not pass a terminal with a process. -/
theorem nextTerminal_distance {t u : Terminal} (h : s.nextTerminal = some t)
    (hu : s.tCurr u ≠ none) (hne : s.cur.terminal ≠ u) :
    (u - t).val < s.distance u := by
  unfold distance
  simp only [nextTerminal, whileLoop, Option.isNone_iff_eq_none] at h
  generalize s.cur.terminal = c at h hne ⊢
  have hfirst : ∀ c u : Terminal, c ≠ u → (u - (c + 1)).val < (u - c).val := by decide
  have hsecond : ∀ c u : Terminal, c ≠ u → u ≠ c + 1 →
      (u - (c + 1 + 1)).val < (u - c).val := by decide
  have hall : ∀ c u : Terminal, c ≠ u → u = c + 1 ∨ u = c + 1 + 1 := by decide
  split_ifs at h with h1 h2 h3
  · obtain rfl | rfl := hall c u hne
    · exact absurd h1 hu
    · exact absurd h2 hu
  · cases h
    refine hsecond c u hne ?_
    rintro rfl
    exact hu h1
  · cases h
    exact hfirst c u hne

/-! ## One step -/

/-- A tick while terminal 0 has a shell. -/
theorem tick_turn (h : Tree S s) {env : Env} (h0 : s.tCurr 0 ≠ none)
    (hs : (pitIntHandler L env).result s = some ((), s')) :
    s.nextTerminal = some s'.cur.terminal ∧ s'.tCurr = s.tCurr := by
  rcases tick_cases L hs with ⟨-, hs⟩ | ⟨hnone, -⟩
  · obtain ⟨t, pid, ht, hpid, rfl⟩ := schedule_cases L hs
    obtain ⟨hid, hterm⟩ := h.ids t pid (List.mem_of_mem_head? ((h.head t).trans hpid ▸ rfl))
    have hids := switched_ids L env pid s.cli
    have hcurr : ((switched L pid s.cli).saved env s.cli.curr).curr = pid := hid
    refine ⟨?_, rfl⟩
    rw [cur, hcurr, (hids pid).2.2]
    exact ht.trans (congrArg some hterm.symm)
  · exact absurd hnone h0

/-- Any other operation leaves the active terminal, and processes on all terminals that have
some. -/
structure Keeps (s s' : Kernel) : Prop where
  active : s'.tty.con.activeTerminal = s.tty.con.activeTerminal
  tCurr : ∀ u, s.tCurr u ≠ none → s'.tCurr u ≠ none

theorem SameProcs.keeps (h : SameProcs s s') : Keeps s s' :=
  ⟨h.active, fun u hu => by rwa [h.tCurr]⟩

theorem Keeps.trans {s₁ s₂ s₃ : Kernel} (h : Keeps s₁ s₂) (h' : Keeps s₂ s₃) : Keeps s₁ s₃ :=
  ⟨h'.active.trans h.active, fun u hu => h'.tCurr u (h.tCurr u hu)⟩

/-- `execute_with_terminal_num` for the active terminal. -/
theorem execute_keeps {env : Env} {cmd : Option (List UInt8)} {t : Terminal} {o : Outcome}
    (ht : s.tty.con.activeTerminal = t)
    (he : (executeWithTerminalNum env cmd t).result s = some (o, s')) : Keeps s s' := by
  rcases execute_outcome he with ⟨pid, args, v, -, -, rfl⟩ | ⟨-, hstill, -⟩
  · refine ⟨?_, fun u hu => ?_⟩
    · rw [launched_tty, ht]
      rfl
    · rw [launched_tCurr, Function.update_apply]
      split
      · exact Option.some_ne_none _
      · exact hu
  · exact hstill.toSameProcs.keeps

theorem halt_keeps (h : Tree S s) (hst : s.started) {env : Env}
    (hs : (halt env).result s = some ((), s')) : Keeps s s' := by
  have hhalted : Keeps s s.halted := by
    refine ⟨rfl, fun u hu => ?_⟩
    rw [halted_tCurr, Function.update_apply]
    split
    · exact Option.some_ne_none _
    · exact hu
  rcases halt_cases hs with ⟨-, -, rfl⟩ | ⟨-, v, he⟩
  · exact hhalted.trans (resumed_same ..).keeps
  · exact hhalted.trans (execute_keeps (h.current hst).2 he)

theorem step_keeps (h : Tree S s) (hst : s.started) {op : Op} (hlaunch : s.NoLaunch op)
    (htick : isTick op = false) (hs : step L s op = some s') : Keeps s s' := by
  obtain ⟨hen, s₁, hs₁, rfl⟩ := step_result L hs
  suffices hmid : Keeps s s₁ from hmid.trans (sti_same s₁).keeps
  cases op with
  | boot env => exact absurd hst hen
  | execute env command =>
    obtain ⟨o, he⟩ := result_ignore hs₁
    rw [Kernel.execute, Prog.result_get_then] at he
    exact execute_keeps (h.current hst).2 he
  | halt env => exact halt_keeps h hst hs₁
  | tick env => cases htick
  | key env input =>
    obtain ⟨tty, htty, ⟨-, rfl⟩ | ⟨t, o, hl, -⟩⟩ := key_cases hs₁
    · exact (keyed_same htty).keeps
    · rw [show s.launchKey input = none from hlaunch] at hl
      cases hl
  | vidmap startScreen =>
    rcases vidmap_cases L hs₁ with ⟨-, rfl⟩ | ⟨-, rfl⟩
    · exact (SameProcs.refl _).keeps
    · exact SameProcs.keeps ⟨rfl, rfl, rfl, fun _ => ⟨rfl, rfl, rfl⟩, rfl, rfl, rfl, rfl⟩
  | openFile | close | read | write | rtc =>
    exact (file_quiet L _ (by trivial) hs₁).toSameProcs.keeps

/-! ## Runs -/

/-- A terminal waits for at most as many ticks as it is away. -/
theorem turn_comes {d : Dentry} {t : Kernel} {ops : List Op} (h : Path (step L) Ordinary s ops t)
    (hinv : (∃ S, Tree S s) ∧ HasShell s.fs d) (h0 : s.tCurr 0 ≠ none) {u : Terminal}
    (hu : s.tCurr u ≠ none) (hticks : s.distance u ≤ ticks ops) :
    ∃ pre s₁, pre <+: ops ∧ run (step L) s pre = some s₁ ∧ s₁.cur.terminal = u ∧
      s₁.tCurr u = some s₁.curr := by
  induction h with
  | nil s =>
    have hhere := distance_eq_zero (Nat.le_zero.mp hticks)
    obtain ⟨⟨S, htree⟩, -⟩ := hinv
    exact ⟨[], s, List.prefix_rfl, rfl, hhere, hhere ▸ (htree.current ⟨0, h0⟩).1⟩
  | @cons s s' t op ops hok ha hrest ih =>
    obtain ⟨⟨S, htree⟩, hd⟩ := hinv
    by_cases hhere : s.cur.terminal = u
    · exact ⟨[], s, List.nil_prefix, rfl, hhere, hhere ▸ (htree.current ⟨0, h0⟩).1⟩
    · obtain ⟨⟨S', htree'⟩, hd'⟩ := htree.step L hd hok.1 ha
      suffices hnext : s'.tCurr 0 ≠ none ∧ s'.tCurr u ≠ none ∧ s'.distance u ≤ ticks ops by
        obtain ⟨pre, s₁, hpre, hrun, hserved⟩ :=
          ih ⟨⟨S', htree'⟩, hd'⟩ hnext.1 hnext.2.1 hnext.2.2
        refine ⟨op :: pre, s₁, List.cons_prefix_cons.mpr ⟨rfl, hpre⟩, ?_, hserved⟩
        rw [run_cons, ha, Option.bind_some, hrun]
      cases htick : isTick op with
      | true =>
        obtain ⟨env, rfl⟩ : ∃ env, op = .tick env := by
          cases op with
          | tick env => exact ⟨env, rfl⟩
          | _ => cases htick
        obtain ⟨-, s₁, hs₁, rfl⟩ := step_result L ha
        obtain ⟨hnext, htCurr⟩ := tick_turn L htree h0 hs₁
        have hcloser := nextTerminal_distance hnext hu hhere
        have hcount : ticks (.tick env :: ops) = ticks ops + 1 := List.countP_cons_of_pos rfl
        refine ⟨?_, ?_, ?_⟩
        · show s₁.tCurr 0 ≠ none
          rwa [htCurr]
        · show s₁.tCurr u ≠ none
          rwa [htCurr]
        · rw [hcount] at hticks
          exact Nat.le_of_lt_succ (Nat.lt_of_lt_of_le hcloser hticks)
      | false =>
        have hkeeps := step_keeps L htree ⟨0, h0⟩ hok.2 htick ha
        have hcount : ticks (op :: ops) = ticks ops :=
          List.countP_cons_of_neg (by rw [htick]; exact Bool.false_ne_true)
        have hterm : s'.cur.terminal = s.cur.terminal := by
          rw [← (htree'.current ⟨0, hkeeps.tCurr 0 h0⟩).2, hkeeps.active]
          exact (htree.current ⟨0, h0⟩).2
        refine ⟨hkeeps.tCurr 0 h0, hkeeps.tCurr u hu, ?_⟩
        rw [distance, hterm, ← hcount]
        exact hticks

instance (s : Kernel) (op : Op) : Decidable (s.NoLaunch op) :=
  match op with
  | .key _ input => inferInstanceAs (Decidable (s.launchKey input = none))
  | .boot _ | .execute _ _ | .halt _ | .tick _ | .vidmap _ | .openFile _ | .close _ | .read _ _ _
  | .write _ _ _ | .rtc => inferInstanceAs (Decidable True)

instance (s : Kernel) (op : Op) : Decidable (s.Ordinary op) :=
  inferInstanceAs (Decidable (_ ∧ _))

end Kernel

end OS391
