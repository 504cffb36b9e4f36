import OS391.Effects

/-! The few changes that every operation is made of, and the rule for relations between the
state before and the state after. -/

namespace OS391
open Library Library.Runs Library.Bytes

namespace Kernel

variable (L : Layout)

/-- An operation of the current process on its own files. -/
def OnFiles : Op → Prop
  | .openFile _ | .close _ | .read _ _ _ | .write _ _ _ => True
  | _ => False

/-- The process tables, the screens and the file system are the same. -/
structure Idle (s s' : Kernel) : Prop where
  tCurr : s'.tCurr = s.tCurr
  procState : s'.procState = s.procState
  curr : s'.curr = s.curr
  pcb : s'.pcb = s.pcb
  con : s'.tty.con = s.tty.con
  fs : s'.fs = s.fs

/-- `R` holds across each of the changes that operations are made of. The end of a process
and the operations on files are left to the user of the rule. -/
structure Carried (R : Kernel → Kernel → Prop) : Prop where
  trans : ∀ {s s' s''}, R s s' → R s' s'' → R s s''
  idle : ∀ {s s'}, Idle s s' → R s s'
  clear : ∀ s, R s s.clear
  wrote : ∀ {s s' mem count n}, s.terminalWrite mem count = some (n, s') → R s s'
  launched : ∀ {s} env pid t, s.getPid = some pid → R s (launched env pid t s)
  switched : ∀ {s t pid} env, s.tCurr t = some pid → R s ((switched L pid s).saved env s.curr)
  keyed : ∀ {s input tty}, s.tty.keyboardByte input = some tty → R s (s.keyed input tty)

namespace Carried

variable {L} {R : Kernel → Kernel → Prop} (hR : Carried L R) {s s' : Kernel}
include hR

theorem execute {env : Env} {cmd : Option (List UInt8)} {t : Terminal} {o : Outcome}
    (h : (executeWithTerminalNum env cmd t).result s = some (o, s')) : R s s' := by
  cases cmd with
  | none => cases h; exact hR.idle ⟨rfl, rfl, rfl, rfl, rfl, rfl⟩
  | some cmd =>
    obtain ⟨r, s₁, hv, h⟩ := execute_cases h
    obtain ⟨n, -, -, rfl⟩ := verifyFile_state hv
    have hargs : R s (s.cli.withArgs (argText (cmd.take n))) :=
      hR.idle ⟨rfl, rfl, rfl, rfl, rfl, rfl⟩
    cases r with
    | none => obtain ⟨-, rfl⟩ := h; exact hargs
    | some v =>
      rcases h with ⟨-, -, n, hw⟩ | ⟨pid, hpid, -, rfl⟩
      · exact hR.trans hargs (hR.wrote hw)
      · exact hR.trans hargs (hR.launched env pid t hpid)

theorem schedule {env : Env} (h : (schedule L env).result s = some ((), s')) : R s s' := by
  obtain ⟨t, pid, -, hpid, rfl⟩ := schedule_cases L h
  exact hR.switched env hpid

theorem tick {env : Env} (h : (pitIntHandler L env).result s = some ((), s')) : R s s' := by
  have hcli : R s s.cli := hR.idle ⟨rfl, rfl, rfl, rfl, rfl, rfl⟩
  rcases tick_cases L h with ⟨-, h⟩ | ⟨-, o, s₁, he, h⟩
  · exact hR.trans hcli (hR.schedule h)
  · have hshell := hR.trans (hR.trans hcli (hR.clear s.cli)) (hR.execute he)
    cases o with
    | entered v => subst h; exact hshell
    | returned v => exact hR.trans hshell (hR.schedule h)

theorem halt {env : Env} (hhalted : R s s.halted)
    (h : (halt env).result s = some ((), s')) : R s s' := by
  rcases halt_cases h with ⟨-, -, rfl⟩ | ⟨-, v, he⟩
  · exact hR.trans hhalted (hR.idle ⟨rfl, rfl, rfl, rfl, rfl, rfl⟩)
  · exact hR.trans hhalted (hR.execute he)

theorem key {env : Env} {input : UInt8}
    (h : (keyboardHandler env input).result s = some ((), s')) : R s s' := by
  obtain ⟨tty, htty, h⟩ := key_cases h
  have hkeyed := hR.keyed htty
  rcases h with ⟨-, rfl⟩ | ⟨t, o, -, he⟩
  · exact hkeyed
  · have hmark : R (s.keyed input tty) ((s.keyed input tty).markRunning t) :=
      hR.idle ⟨rfl, rfl, rfl, rfl, rfl, rfl⟩
    exact hR.trans (hR.trans hkeyed hmark) (hR.execute he)

/-- What every operation carries if `halt` does, and the operations on files. -/
theorem step_of_halt {op : Op}
    (hhalt : ∀ env s₁, op = .halt env → s.started → (Kernel.halt env).result s = some ((), s₁) →
      R s s₁)
    (hfiles : ∀ s₁, OnFiles op → (code L op).result s = some ((), s₁) → R s s₁)
    (h : step L s op = some s') : R s s' := by
  obtain ⟨hen, s₁, hs₁, rfl⟩ := step_result L h
  suffices hmid : R s s₁ from hR.trans hmid (hR.idle ⟨rfl, rfl, rfl, rfl, rfl, rfl⟩)
  cases op with
  | boot env =>
    rw [code, Prog.result_update_then] at hs₁
    obtain ⟨o, he⟩ := result_ignore hs₁
    exact hR.trans (hR.clear s) (hR.execute he)
  | execute env command =>
    obtain ⟨o, he⟩ := result_ignore hs₁
    rw [Kernel.execute, Prog.result_get_then] at he
    exact hR.execute he
  | halt env => exact hhalt env s₁ rfl hen hs₁
  | tick env => exact hR.tick hs₁
  | key env input => exact hR.key hs₁
  | vidmap startScreen =>
    rcases vidmap_cases L hs₁ with ⟨-, rfl⟩ | ⟨-, rfl⟩
    · exact hR.idle ⟨rfl, rfl, rfl, rfl, rfl, rfl⟩
    · exact hR.idle ⟨rfl, rfl, rfl, rfl, rfl, rfl⟩
  | rtc =>
    have hidle : Idle s { s with rtc := s.rtc.rtcIntHandler } := ⟨rfl, rfl, rfl, rfl, rfl, rfl⟩
    cases hs₁
    exact hR.idle hidle
  | openFile | close | read | write => exact hfiles s₁ trivial hs₁

/-- What every operation carries if the end of a process does, and the operations on files. -/
theorem step {op : Op} (hhalted : (∃ env, op = .halt env) → s.started → R s s.halted)
    (hfiles : ∀ s₁, OnFiles op → (code L op).result s = some ((), s₁) → R s s₁)
    (h : Kernel.step L s op = some s') : R s s' :=
  hR.step_of_halt (fun env _ hop hst hs => hR.halt (hhalted ⟨env, hop⟩ hst) hs) hfiles h

end Carried

end Kernel

end OS391
