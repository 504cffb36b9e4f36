import OS391.Process

/-! What the operations come to: the frames of the device routines, and the result of
each program as a function of the state before it. -/

namespace OS391
open Library Library.Runs Library.Bytes

/-! ## Screens and keyboard -/

namespace Console

/-- Drawing changes neither the displayed nor the active terminal. -/
def SameTerminals (s s' : Console) : Prop :=
  s'.displayTerminal = s.displayTerminal ∧ s'.activeTerminal = s.activeTerminal

theorem SameTerminals.trans {s s' s'' : Console} (h : SameTerminals s s')
    (h' : SameTerminals s' s'') : SameTerminals s s'' :=
  ⟨h'.1.trans h.1, h'.2.trans h.2⟩

theorem draw_terminals {s s' : Console} {base : Nat} {t : Terminal} {c : UInt8}
    (h : s.draw base t c = some s') : SameTerminals s s' := by
  obtain ⟨s₁, h₁, h₂⟩ := Option.bind_eq_some_iff.mp h
  unfold store at h₁ h₂
  split_ifs at h₁ h₂
  cases h₁
  cases h₂
  exact ⟨rfl, rfl⟩

theorem scroll_terminals {s s' : Console} {t : Terminal} {shift : Console → Console}
    (hshift : ∀ s, SameTerminals s (shift s)) (h : s.scroll t shift = some s') :
    SameTerminals s s' :=
  (whileLoop_invariant (SameTerminals s) (fun a ha => ha.trans (hshift a)) h ⟨rfl, rfl⟩).1

theorem putcWith_terminals {s s' : Console} {t : Terminal} {base : Nat}
    {shift : Console → Console} {c : UInt8} (hshift : ∀ s, SameTerminals s (shift s))
    (h : s.putcWith t base shift c = some s') : SameTerminals s s' := by
  unfold putcWith at h
  split at h
  · have hscroll := scroll_terminals hshift h
    exact hscroll
  · obtain ⟨s₁, h₁, h⟩ := Option.bind_eq_some_iff.mp h
    obtain ⟨s₂, h₂, rfl⟩ := Option.map_eq_some_iff.mp h
    have hdraw := draw_terminals h₂
    exact (scroll_terminals hshift h₁).trans hdraw

theorem putcScroll_terminals {s s' : Console} {c : UInt8} (h : s.putcScroll c = some s') :
    SameTerminals s s' := by
  obtain ⟨s₁, h₁, rfl⟩ := Option.map_eq_some_iff.mp h
  have hput := putcWith_terminals (fun a => by split <;> exact ⟨rfl, rfl⟩) h₁
  split <;> exact hput

theorem putcScrollDisplay_terminals {s s' : Console} {c : UInt8}
    (h : s.putcScrollDisplay c = some s') : SameTerminals s s' := by
  obtain ⟨s₁, h₁, rfl⟩ := Option.map_eq_some_iff.mp h
  have hshift : ∀ a, SameTerminals a (shiftUpDisplay a) := fun _ => ⟨rfl, rfl⟩
  have hput := putcWith_terminals hshift h₁
  exact hput

theorem deleteC_terminals {s s' : Console} (h : s.deleteC = some s') : SameTerminals s s' := by
  obtain ⟨s₁, h₁, rfl⟩ := Option.map_eq_some_iff.mp h
  have hdraw := draw_terminals h₁
  split at hdraw <;> exact hdraw

end Console

namespace Tty

/-- A change of the screens and lines that leaves the terminals where they are. -/
structure Frame (s s' : Tty) : Prop where
  terminals : Console.SameTerminals s.con s'.con
  running2 : s'.kbd.terminal2Running = s.kbd.terminal2Running
  running3 : s'.kbd.terminal3Running = s.kbd.terminal3Running

theorem Frame.refl (s : Tty) : Frame s s := ⟨⟨rfl, rfl⟩, rfl, rfl⟩

theorem terminalWrite_frame {s s' : Tty} {buf : List UInt8} {count n : Int}
    (h : s.terminalWrite buf count = some (n, s')) : Frame s s' := by
  unfold terminalWrite at h
  simp only at h
  split at h
  · cases h
  · obtain ⟨con, hcon, h⟩ := Option.map_eq_some_iff.mp h
    cases h
    have hputs := foldlM_invariant (Console.SameTerminals s.con)
      (fun a c a' ha hc => ha.trans (Console.putcScroll_terminals hc)) hcon ⟨rfl, rfl⟩
    exact ⟨hputs, rfl, rfl⟩

theorem terminalRead_frame {s s' : Tty} {mem : List UInt8} {count : Nat} {r : ReadOut}
    (h : s.terminalRead mem count = some (r, s')) : Frame s s' := by
  unfold terminalRead at h
  simp only at h
  split at h
  · obtain ⟨buf, -, h⟩ := Option.bind_eq_some_iff.mp h
    obtain ⟨n, -, h⟩ := Option.map_eq_some_iff.mp h
    cases h
    exact ⟨⟨rfl, rfl⟩, rfl, rfl⟩
  · cases h

/-- The terminal that a key puts on display. -/
def displayedBy (s : Tty) (input : UInt8) : Option Terminal :=
  if ¬ s.kbd.pressedKey leftalt then none
  else if input = f1 then some 0 else if input = f2 then some 1
  else if input = f3 then some 2 else none

/-- What a key does to the terminals: it may display another one. -/
structure KeyFrame (s s' : Tty) (input : UInt8) : Prop where
  display : s'.con.displayTerminal = (s.displayedBy input).getD s.con.displayTerminal
  active : s'.con.activeTerminal = s.con.activeTerminal
  running2 : s'.kbd.terminal2Running = s.kbd.terminal2Running
  running3 : s'.kbd.terminal3Running = s.kbd.terminal3Running

theorem Frame.keyFrame {s s' : Tty} {input : UInt8} (h : Frame s s')
    (hd : s.displayedBy input = none) : KeyFrame s s' input :=
  ⟨by rw [hd]; exact h.terminals.1, h.terminals.2, h.running2, h.running3⟩

theorem echo_frame {s s' : Tty} {input : UInt8} (h : s.echo input = some s') : Frame s s' := by
  obtain ⟨con, hcon, rfl⟩ := Option.map_eq_some_iff.mp h
  exact ⟨Console.putcScrollDisplay_terminals hcon, rfl, rfl⟩

theorem charKey_frame {s s' : Tty} {t : Terminal} {input : UInt8}
    (h : s.charKey t input = some s') : Frame s s' := by
  unfold charKey at h
  simp only at h
  split at h
  · split at h
    · exact echo_frame h
    · cases h
      exact Frame.refl s
  · have hecho := echo_frame h
    exact ⟨hecho.terminals, hecho.running2, hecho.running3⟩

theorem clearKey_frame {s s' : Tty} {t : Terminal} (h : s.clearKey t = some s') : Frame s s' := by
  obtain ⟨con, hcon, rfl⟩ := Option.map_eq_some_iff.mp h
  have hprompt := foldlM_invariant (Console.SameTerminals s.con)
    (fun a c a' ha hc => ha.trans (Console.putcScrollDisplay_terminals hc)) hcon ⟨rfl, rfl⟩
  exact ⟨hprompt, rfl, rfl⟩

theorem backspaceKey_frame {s s' : Tty} {t : Terminal} (h : s.backspaceKey t = some s') :
    Frame s s' := by
  unfold backspaceKey at h
  simp only at h
  split at h
  · obtain ⟨con, hcon, rfl⟩ := Option.map_eq_some_iff.mp h
    exact ⟨Console.deleteC_terminals hcon, rfl, rfl⟩
  · cases h
    exact Frame.refl s

theorem displayKey_frame {s : Tty} (halt : s.kbd.pressedKey leftalt) (input : UInt8) :
    KeyFrame s (s.displayKey input) input := by
  have hby : s.displayedBy input = if input = f1 then some 0 else if input = f2 then some 1
      else if input = f3 then some 2 else none := if_neg (by simp [halt])
  unfold displayKey
  split_ifs at hby ⊢ <;> exact ⟨by rw [hby]; rfl, rfl, rfl, rfl⟩

theorem displayedBy_eq_none {s : Tty} {input : UInt8} (h1 : input ≠ f1) (h2 : input ≠ f2)
    (h3 : input ≠ f3) : s.displayedBy input = none := by
  simp [displayedBy, h1, h2, h3]

/-- Pressing a key does not change what it displays. -/
theorem displayedBy_press (s : Tty) (input : UInt8) :
    (s.press input).displayedBy input = s.displayedBy input := by
  by_cases halt : input = 56
  · subst halt
    rw [displayedBy_eq_none (by decide) (by decide) (by decide),
      displayedBy_eq_none (by decide) (by decide) (by decide)]
  · have hne : leftalt ≠ input.toNat := fun h => halt (UInt8.toNat_inj.mp h.symm)
    simp only [displayedBy, press, Function.update_of_ne hne]

theorem typeKey_frame {s s' : Tty} {t : Terminal} {input : UInt8}
    (h : s.typeKey t input = some s') : KeyFrame s s' input := by
  unfold typeKey at h
  split at h
  · rename_i hrel
    cases h
    have hnone : s.displayedBy input = none :=
      displayedBy_eq_none (by rintro rfl; revert hrel; decide) (by rintro rfl; revert hrel; decide)
        (by rintro rfl; revert hrel; decide)
    exact Frame.keyFrame ⟨⟨rfl, rfl⟩, rfl, rfl⟩ hnone
  · unfold pressKey at h
    simp only at h
    split at h
    · rename_i hclear
      have hframe := clearKey_frame h
      have hnone : s.displayedBy input = none := by
        rw [hclear.1]
        exact displayedBy_eq_none (by decide) (by decide) (by decide)
      exact Frame.keyFrame ⟨hframe.terminals, hframe.running2, hframe.running3⟩ hnone
    · split at h
      · rename_i halt
        cases h
        have hkey := displayKey_frame halt input
        exact ⟨hkey.display.trans (by rw [displayedBy_press]; rfl), hkey.active, hkey.running2,
          hkey.running3⟩
      · rename_i halt
        have hnone : s.displayedBy input = none := by
          rw [← displayedBy_press]
          exact if_pos halt
        split at h
        · have hframe := charKey_frame h
          exact Frame.keyFrame ⟨hframe.terminals, hframe.running2, hframe.running3⟩ hnone
        · cases h
          exact Frame.keyFrame ⟨⟨rfl, rfl⟩, rfl, rfl⟩ hnone

theorem keyboardByte_frame {s s' : Tty} {input : UInt8} (h : s.keyboardByte input = some s') :
    KeyFrame s s' input := by
  obtain ⟨typed, htyped, h⟩ := Option.bind_eq_some_iff.mp h
  have htype := typeKey_frame htyped
  have hrest : Frame typed s' := by
    simp only at h
    split at h
    · have hback := backspaceKey_frame h
      split at hback <;> exact ⟨hback.terminals, hback.running2, hback.running3⟩
    · cases h
      split <;> exact ⟨⟨rfl, rfl⟩, rfl, rfl⟩
  exact ⟨hrest.terminals.1.trans htype.display, hrest.terminals.2.trans htype.active,
    hrest.running2.trans htype.running2, hrest.running3.trans htype.running3⟩

end Tty

/-! ## Page tables -/

namespace Kernel

variable (L : Layout)

/-- The page tables after `pid_page_map`. -/
def pidMapped (pid : Pid) (pg : Paging) : Paging :=
  (Paging.pidPageMap pid.val).foldl (fun pg f => f pg) pg

/-- The page tables after `vidMem_page_map` at 132 MB. -/
def vidMapped (shown : Bool) (pg : Paging) : Paging :=
  (Paging.vidMemPageMap L vidMapAddr shown).foldl (fun pg f => f pg) pg

def mapPg (f : Paging → Paging) (s : Kernel) : Kernel := { s with pg := f s.pg }

theorem foldl_mapPg (fs : List (Paging → Paging)) (s : Kernel) :
    (fs.map fun f s => { s with pg := f s.pg : Kernel }).foldl (fun s f => f s) s =
      s.mapPg fun pg => fs.foldl (fun pg f => f pg) pg := by
  induction fs generalizing s with
  | nil => rfl
  | cons f fs ih => exact ih (s.mapPg f)

/-! ## Starting a process -/

/-- The process that `pcb_init` records as the parent. -/
def parentFor (s : Kernel) (pid : Pid) (t : Terminal) : Pid :=
  if s.tCurr t = none then pid else if s.curr = pid then pid else s.cur.pid

/-- The state in which a new process enters its user code. -/
def launched (env : Env) (pid : Pid) (t : Terminal) (s : Kernel) : Kernel :=
  let s := (s.setProcState pid true).pcbInit pid t
  let s := s.setPcb pid fun p => { p with parentEbp := env.ebp, parentEsp := env.esp }
  let s := (s.mapPg (pidMapped pid)).setActiveTerminal t
  let s := { s with tssEsp0 := getEsp pid }
  (s.setPcb pid fun p => { p with currentEbp := getEsp pid, currentEsp := getEsp pid }).sti

theorem launch_result (env : Env) (pid : Pid) (t : Terminal) (s : Kernel) :
    (launch env pid t).result s = some ((), launched env pid t s) := by
  simp only [launch, pidPageMap, Prog.result_bind, Prog.result_update, Prog.result_updates,
    foldl_mapPg, Option.bind_some]
  rfl

section Launched

variable (env : Env) (pid : Pid) (t : Terminal) (s : Kernel)

theorem pcbInit_eq : s.pcbInit pid t =
    { s with
      curr := pid
      tCurr := Function.update s.tCurr t (some pid)
      pcb := (s.pcbInit pid t).pcb } := by
  unfold pcbInit
  dsimp only
  split <;> rfl

theorem pcbInit_pcb_of_ne {q : Pid} (hq : q ≠ pid) : (s.pcbInit pid t).pcb q = s.pcb q := by
  unfold pcbInit
  dsimp only
  split <;> simp [setPcb, Function.update_of_ne hq]

theorem pcbInit_pcb : ∃ esp ebp, (s.pcbInit pid t).pcb pid =
    { (s.pcb pid).initFiles pid with
      pPid := s.parentFor pid t, parentEsp := esp, parentEbp := ebp, terminal := t } := by
  unfold pcbInit parentFor
  dsimp only
  by_cases ht : s.tCurr t = none
  · simp [ht, setPcb]
  · by_cases hc : s.curr = pid
    · simp [ht, hc, setPcb, cur, Pcb.initFiles]
    · simp [ht, hc, setPcb, cur]

theorem launched_eq : launched env pid t s =
    { s with
      tty := { s.tty with con := s.tty.con.setActiveTerminal t }
      pg := if t = s.tty.con.displayTerminal then (pidMapped pid s.pg).setActiveTerminalPaging
        else pidMapped pid s.pg
      tssEsp0 := getEsp pid
      tCurr := Function.update s.tCurr t (some pid)
      procState := Function.update s.procState pid true
      curr := pid
      pcb := (launched env pid t s).pcb
      intr := true } := by
  unfold launched
  rw [pcbInit_eq]
  rfl

@[simp] theorem launched_tCurr :
    (launched env pid t s).tCurr = Function.update s.tCurr t (some pid) := by rw [launched_eq]

@[simp] theorem launched_procState :
    (launched env pid t s).procState = Function.update s.procState pid true := by rw [launched_eq]

@[simp] theorem launched_curr : (launched env pid t s).curr = pid := by rw [launched_eq]

@[simp] theorem launched_tty :
    (launched env pid t s).tty = { s.tty with con := s.tty.con.setActiveTerminal t } := by
  rw [launched_eq]

@[simp] theorem launched_fs : (launched env pid t s).fs = s.fs := by rw [launched_eq]

@[simp] theorem launched_argBuf : (launched env pid t s).argBuf = s.argBuf := by rw [launched_eq]

@[simp] theorem launched_argSize : (launched env pid t s).argSize = s.argSize := by
  rw [launched_eq]

@[simp] theorem launched_pcb_of_ne {q : Pid} (hq : q ≠ pid) :
    (launched env pid t s).pcb q = s.pcb q := by
  have hinit := pcbInit_pcb_of_ne pid t (s.setProcState pid true) hq
  simp only [launched, sti, setPcb, Function.update_of_ne hq, mapPg, setActiveTerminal]
  exact hinit

/-- The control block of a new process. -/
theorem launched_pcb : ∃ pe pb ce cb, (launched env pid t s).pcb pid =
    { (s.pcb pid).initFiles pid with
      pPid := s.parentFor pid t, parentEsp := pe, parentEbp := pb, currentEsp := ce,
      currentEbp := cb, terminal := t } := by
  obtain ⟨esp, ebp, hinit⟩ := pcbInit_pcb pid t (s.setProcState pid true)
  refine ⟨env.esp, env.ebp, getEsp pid, getEsp pid, ?_⟩
  simp only [launched, sti, setPcb, Function.update_self, mapPg, setActiveTerminal, hinit]
  rfl

end Launched

/-- `verify_file` leaves the argument text of its command behind, whatever it returns. -/
theorem verifyFile_state {env : Env} {cmd : List UInt8} {s s' : Kernel}
    {r : Option (List UInt8)} (h : verifyFile env cmd s = some (r, s')) :
    ∃ n, strlen cmd = some n ∧ (argText (cmd.take n)).length ≤ cmdLimit ∧
      s' = s.withArgs (argText (cmd.take n)) := by
  obtain ⟨n, hn, h⟩ := Option.bind_eq_some_iff.mp h
  refine ⟨n, hn, ?_⟩
  simp only at h
  split at h
  · cases h
  · rename_i hfit
    refine ⟨Nat.le_of_not_lt fun hlt => hfit (.inr hlt), ?_⟩
    obtain ⟨d, -, h⟩ := Option.bind_eq_some_iff.mp h
    split at h
    · cases h; rfl
    · obtain ⟨head, -, h⟩ := Option.bind_eq_some_iff.mp h
      obtain ⟨c, -, h⟩ := Option.bind_eq_some_iff.mp h
      split at h
      · cases h; rfl
      · obtain ⟨addr, -, h⟩ := Option.map_eq_some_iff.mp h
        cases h; rfl

/-- The three ends of `execute_with_terminal_num`: the command is no executable, no
process number is free, or the new process runs. -/
theorem execute_cases {env : Env} {cmd : List UInt8} {t : Terminal} {s s' : Kernel} {o : Outcome}
    (h : (executeWithTerminalNum env (some cmd) t).result s = some (o, s')) :
    ∃ r s₁, verifyFile env cmd s.cli = some (r, s₁) ∧
      match r with
      | none => o = .returned (-1) ∧ s' = s₁
      | some v =>
        (s.getPid = none ∧ o = .returned 0 ∧ ∃ n, s₁.terminalWrite errMsg 26 = some (n, s')) ∨
        ∃ pid, s.getPid = some pid ∧ o = .entered v ∧ s' = launched env pid t s₁ := by
  simp only [executeWithTerminalNum, Prog.result_bind, Prog.result_update, Option.bind_some,
    Prog.result_call] at h
  obtain ⟨⟨r, s₁⟩, hv, h⟩ := Option.bind_eq_some_iff.mp h
  refine ⟨r, s₁, hv, ?_⟩
  obtain ⟨n, -, -, hs₁⟩ := verifyFile_state hv
  have hpid : s₁.getPid = s.getPid := by rw [hs₁]; rfl
  cases r with
  | none => cases h; exact ⟨rfl, rfl⟩
  | some v =>
    simp only [Prog.result_bind, Prog.result_get, Option.bind_some, hpid] at h
    cases hg : s.getPid with
    | none =>
      simp only [hg, Prog.result_bind, Prog.result_call] at h
      obtain ⟨⟨n, s₂⟩, hw, h⟩ := Option.bind_eq_some_iff.mp h
      cases h
      exact .inl ⟨rfl, rfl, n, hw⟩
    | some pid =>
      simp only [hg, Prog.result_bind, launch_result, Option.bind_some, Prog.result_pure] at h
      cases h
      exact .inr ⟨pid, rfl, rfl, rfl⟩

/-- A command that enters a process has found a number that is free. -/
theorem entered_cases {env : Env} {cmd : Option (List UInt8)} {t : Terminal} {v : List UInt8}
    {s s' : Kernel} (h : (executeWithTerminalNum env cmd t).result s = some (.entered v, s')) :
    ∃ pid args, s.getPid = some pid ∧ s' = launched env pid t (s.cli.withArgs args) := by
  cases cmd with
  | none => cases h
  | some cmd =>
    obtain ⟨r, s₁, hv, h⟩ := execute_cases h
    obtain ⟨n, -, -, rfl⟩ := verifyFile_state hv
    cases r with
    | none => cases h.1
    | some w =>
      rcases h with ⟨-, ho, -⟩ | ⟨pid, hpid, -, hs'⟩
      · cases ho
      · exact ⟨pid, _, hpid, hs'⟩

/-! ## Ending a process -/

/-- The state in which `halt` has given up the current process. -/
def halted (s : Kernel) : Kernel :=
  let p := s.cur
  let s := (s.cli.setProcState p.pid false).setPcb s.curr Pcb.closeAll
  { s with curr := p.pPid, tCurr := Function.update s.tCurr p.terminal (some p.pPid) }

@[simp] theorem halted_tCurr (s : Kernel) :
    s.halted.tCurr = Function.update s.tCurr s.cur.terminal (some s.cur.pPid) := rfl

@[simp] theorem halted_procState (s : Kernel) :
    s.halted.procState = Function.update s.procState s.cur.pid false := rfl

@[simp] theorem halted_curr (s : Kernel) : s.halted.curr = s.cur.pPid := rfl

@[simp] theorem halted_fs (s : Kernel) : s.halted.fs = s.fs := rfl

def resumed (par : Pid) (parentEsp : Int) (s : Kernel) : Kernel :=
  { s.mapPg (pidMapped (s.pcb par).pid) with tssEsp0 := parentEsp }.sti

@[simp] theorem resumed_fs (par : Pid) (parentEsp : Int) (s : Kernel) :
    (resumed par parentEsp s).fs = s.fs := rfl

theorem resumeParent_result (par : Pid) (parentEsp : Int) (s : Kernel) :
    (resumeParent par parentEsp).result s = some ((), resumed par parentEsp s) := by
  simp only [resumeParent, pidPageMap, Prog.result_bind, Prog.result_get, Prog.result_update,
    Prog.result_updates, foldl_mapPg, Option.bind_some]
  rfl

theorem leaveRoot_result (root : Pid) (parentEsp : Int) (s : Kernel) :
    (leaveRoot root parentEsp).result s = none := by
  rw [leaveRoot, Prog.result_bind, resumeParent_result, Option.bind_some, Prog.result_call]

/-- A process gives way to the parent that waits for it; a root makes way for a new shell. -/
theorem halt_cases {env : Env} {s s' : Kernel} (h : (halt env).result s = some ((), s')) :
    (s.cur.pid ≠ s.cur.pPid ∧ s.ParentWaits s.cur ∧
      s' = resumed s.cur.pPid s.cur.parentEsp s.halted) ∨
    (s.cur.pid = s.cur.pPid ∧ ∃ v,
      (executeWithTerminalNum env shell s.cur.terminal).result s.halted =
        some (.entered v, s')) := by
  simp only [halt, Prog.result_bind, Prog.result_update, Prog.result_get, Option.bind_some] at h
  by_cases hroot : s.cur.pid = s.cur.pPid
  · right
    refine ⟨hroot, ?_⟩
    have hroot' : s.cli.cur.pid = s.cli.cur.pPid := hroot
    rw [if_pos hroot', Prog.result_bind] at h
    obtain ⟨⟨o, s₁⟩, he, h⟩ := Option.bind_eq_some_iff.mp h
    cases o with
    | entered v => cases h; exact ⟨v, he⟩
    | returned v =>
      dsimp only at h
      rw [leaveRoot_result] at h
      cases h
  · left
    have hroot' : ¬ s.cli.cur.pid = s.cli.cur.pPid := hroot
    rw [if_neg hroot'] at h
    by_cases hwaits : s.ParentWaits s.cur
    · have hwaits' : s.cli.ParentWaits s.cli.cur := hwaits
      rw [if_pos hwaits', resumeParent_result] at h
      cases h
      exact ⟨hroot, hwaits, rfl⟩
    · have hwaits' : ¬ s.cli.ParentWaits s.cli.cur := hwaits
      rw [if_neg hwaits', Prog.result_bind, resumeParent_result, Option.bind_some,
        leaveRoot_result] at h
      cases h

/-! ## Switching -/

def switched (pid : Pid) (s : Kernel) : Kernel :=
  let nxt := s.pcb pid
  let s := s.mapPg (pidMapped nxt.pid)
  let s := s.mapPg (vidMapped L (nxt.terminal = s.tty.con.displayTerminal))
  let s := { s with tssEsp0 := getEsp nxt.pid, curr := nxt.pid }
  (s.setActiveTerminal nxt.terminal).sti

theorem switchTo_result (pid : Pid) (s : Kernel) :
    (switchTo L pid).result s = some ((), switched L pid s) := by
  simp only [switchTo, pidPageMap, vidMemPageMap, Prog.result_bind, Prog.result_get,
    Prog.result_update, Prog.result_updates, foldl_mapPg, Option.bind_some]
  rfl

/-- The saved context is a field that no other operation reads. -/
def saved (env : Env) (pid : Pid) (s : Kernel) : Kernel :=
  s.setPcb pid fun p => { p with currentEbp := env.ebp, currentEsp := env.esp }

theorem schedule_cases {env : Env} {s s' : Kernel}
    (h : (schedule L env).result s = some ((), s')) :
    ∃ t pid, s.nextTerminal = some t ∧ s.tCurr t = some pid ∧
      s' = (switched L pid s).saved env s.curr := by
  simp only [schedule, Prog.result_bind, Prog.result_get, Prog.result_call, Option.bind_some] at h
  obtain ⟨⟨pid, s₁⟩, hn, h⟩ := Option.bind_eq_some_iff.mp h
  obtain ⟨t, ht, hn⟩ := Option.bind_eq_some_iff.mp hn
  obtain ⟨pid', hpid, hn⟩ := Option.map_eq_some_iff.mp hn
  cases hn
  simp only [switchTo_result, Option.bind_some, Prog.result_update] at h
  cases h
  exact ⟨t, pid, ht, hpid, rfl⟩

theorem tick_cases {env : Env} {s s' : Kernel}
    (h : (pitIntHandler L env).result s = some ((), s')) :
    (s.tCurr 0 ≠ none ∧ (schedule L env).result s.cli = some ((), s')) ∨
    (s.tCurr 0 = none ∧
      ∃ o s₁, (executeWithTerminalNum env shell 0).result s.cli.clear = some (o, s₁) ∧
        match o with
        | .entered _ => s' = s₁
        | .returned _ => (schedule L env).result s₁ = some ((), s')) := by
  rw [pitIntHandler, Prog.result_update_then, Prog.result_get_then] at h
  by_cases h0 : s.tCurr 0 = none
  · right
    refine ⟨h0, ?_⟩
    have h0' : s.cli.tCurr 0 = none := h0
    rw [if_pos h0', Prog.result_update_then, Prog.result_bind] at h
    obtain ⟨⟨o, s₁⟩, he, h⟩ := Option.bind_eq_some_iff.mp h
    refine ⟨o, s₁, he, ?_⟩
    cases o with
    | entered v => cases h; rfl
    | returned v => exact h
  · left
    have h0' : ¬ s.cli.tCurr 0 = none := h0
    rw [if_neg h0'] at h
    exact ⟨h0, h⟩

/-! ## Keys -/

/-- The state in which a key has been handled, but for the shell it may launch. -/
def keyed (s : Kernel) (input : UInt8) (tty : Tty) : Kernel :=
  s.displayPaging input { s.cli with tty := tty }

/-- A key changes no more than the terminals, the interrupt flag and the page tables. -/
theorem keyed_eq (s : Kernel) (input : UInt8) (tty : Tty) :
    s.keyed input tty = { s.cli with tty := tty, pg := (s.keyed input tty).pg } := by
  unfold keyed displayPaging
  split <;> rfl

/-- A key that launches a shell displays the terminal that it launches it on. -/
theorem launchKey_eq_some {s : Kernel} {input : UInt8} {t : Terminal}
    (h : s.launchKey input = some t) :
    s.getPid ≠ none ∧ s.tty.displayedBy input = some t ∧
      (t = 1 ∧ s.tty.kbd.terminal2Running = false ∨
        t = 2 ∧ s.tty.kbd.terminal3Running = false) := by
  unfold launchKey at h
  unfold Tty.displayedBy
  split_ifs at h with halt h2 h3
  · cases h
    obtain ⟨rfl, hrun⟩ := h2
    rw [if_neg fun hnot => halt (.inl hnot), if_neg (by decide), if_pos rfl]
    exact ⟨fun hnone => halt (.inr hnone), rfl, .inl ⟨rfl, by simpa using hrun⟩⟩
  · cases h
    obtain ⟨rfl, hrun⟩ := h3
    rw [if_neg fun hnot => halt (.inl hnot), if_neg (by decide), if_neg (by decide), if_pos rfl]
    exact ⟨fun hnone => halt (.inr hnone), rfl, .inr ⟨rfl, by simpa using hrun⟩⟩

theorem key_cases {env : Env} {input : UInt8} {s s' : Kernel}
    (h : (keyboardHandler env input).result s = some ((), s')) :
    ∃ tty, s.tty.keyboardByte input = some tty ∧
      (s.launchKey input = none ∧ s' = s.keyed input tty ∨
        ∃ t o, s.launchKey input = some t ∧ (executeWithTerminalNum env shell t).result
          ((s.keyed input tty).markRunning t) = some (o, s')) := by
  rw [keyboardHandler, Prog.result_update_then, Prog.result_get_then, Prog.result_bind,
    Prog.result_call] at h
  obtain ⟨⟨⟨⟩, s₁⟩, hk, h⟩ := Option.bind_eq_some_iff.mp h
  obtain ⟨tty, htty, hk⟩ := Option.map_eq_some_iff.mp hk
  cases hk
  refine ⟨tty, htty, ?_⟩
  rw [Prog.result_update_then] at h
  have hl : s.cli.launchKey input = s.launchKey input := rfl
  rw [hl] at h
  cases hkey : s.launchKey input with
  | none =>
    rw [hkey] at h
    cases h
    exact .inl ⟨rfl, rfl⟩
  | some t =>
    rw [hkey] at h
    dsimp only at h
    rw [Prog.result_update_then, Prog.result_bind] at h
    obtain ⟨⟨o, s₂⟩, he, h⟩ := Option.bind_eq_some_iff.mp h
    cases h
    exact .inr ⟨t, o, rfl, he⟩

/-! ## Operations that start, end and switch no process -/

/-- Nothing has changed in the process and terminal tables. -/
structure SameProcs (s s' : Kernel) : Prop where
  tCurr : s'.tCurr = s.tCurr
  procState : s'.procState = s.procState
  curr : s'.curr = s.curr
  ids : ∀ p, (s'.pcb p).pid = (s.pcb p).pid ∧ (s'.pcb p).pPid = (s.pcb p).pPid ∧
    (s'.pcb p).terminal = (s.pcb p).terminal
  active : s'.tty.con.activeTerminal = s.tty.con.activeTerminal
  running2 : s'.tty.kbd.terminal2Running = s.tty.kbd.terminal2Running
  running3 : s'.tty.kbd.terminal3Running = s.tty.kbd.terminal3Running
  image : s'.fs.image = s.fs.image

/-- Nor in the page tables and in the choice of the displayed terminal. -/
structure Still (s s' : Kernel) : Prop extends SameProcs s s' where
  pg : s'.pg = s.pg
  display : s'.tty.con.displayTerminal = s.tty.con.displayTerminal

/-- Nor in the arguments. -/
structure Quiet (s s' : Kernel) : Prop extends Still s s' where
  argBuf : s'.argBuf = s.argBuf
  argSize : s'.argSize = s.argSize

theorem SameProcs.refl (s : Kernel) : SameProcs s s :=
  ⟨rfl, rfl, rfl, fun _ => ⟨rfl, rfl, rfl⟩, rfl, rfl, rfl, rfl⟩

theorem Still.refl (s : Kernel) : Still s s := ⟨SameProcs.refl s, rfl, rfl⟩

theorem Quiet.refl (s : Kernel) : Quiet s s := ⟨Still.refl s, rfl, rfl⟩

theorem SameProcs.trans {s s' s'' : Kernel} (h : SameProcs s s') (h' : SameProcs s' s'') :
    SameProcs s s'' where
  tCurr := h'.tCurr.trans h.tCurr
  procState := h'.procState.trans h.procState
  curr := h'.curr.trans h.curr
  ids p :=
    have hp := h.ids p
    have hp' := h'.ids p
    ⟨hp'.1.trans hp.1, hp'.2.1.trans hp.2.1, hp'.2.2.trans hp.2.2⟩
  active := h'.active.trans h.active
  running2 := h'.running2.trans h.running2
  running3 := h'.running3.trans h.running3
  image := h'.image.trans h.image

theorem Still.trans {s s' s'' : Kernel} (h : Still s s') (h' : Still s' s'') : Still s s'' :=
  ⟨h.toSameProcs.trans h'.toSameProcs, h'.pg.trans h.pg, h'.display.trans h.display⟩

theorem Quiet.trans {s s' s'' : Kernel} (h : Quiet s s') (h' : Quiet s' s'') : Quiet s s'' :=
  ⟨h.toStill.trans h'.toStill, h'.argBuf.trans h.argBuf, h'.argSize.trans h.argSize⟩

/-- New contents of the devices, framed as `Tty.Frame` has it. -/
theorem Quiet.devices {s : Kernel} {tty : Tty} {fs : FileSys} (rtc : Rtc) (intr : Bool)
    (htty : Tty.Frame s.tty tty) (hfs : fs.image = s.fs.image) :
    Quiet s { s with tty := tty, fs := fs, rtc := rtc, intr := intr } :=
  ⟨⟨⟨rfl, rfl, rfl, fun _ => ⟨rfl, rfl, rfl⟩, htty.terminals.2, htty.running2, htty.running3,
    hfs⟩, rfl, htty.terminals.1⟩, rfl, rfl⟩

/-- New contents of a control block that keep its process numbers and its terminal. -/
theorem Quiet.setPcb (s : Kernel) (pid : Pid) {f : Pcb → Pcb}
    (hf : ∀ p, (f p).pid = p.pid ∧ (f p).pPid = p.pPid ∧ (f p).terminal = p.terminal) :
    Quiet s (s.setPcb pid f) := by
  refine ⟨⟨⟨rfl, rfl, rfl, fun p => ?_, rfl, rfl, rfl, rfl⟩, rfl, rfl⟩, rfl, rfl⟩
  by_cases hp : p = pid
  · subst hp
    simpa [Kernel.setPcb] using hf (s.pcb p)
  · simp [Kernel.setPcb, Function.update_of_ne hp]

theorem terminalWrite_cases {s s' : Kernel} {mem : List UInt8} {count n : Int}
    (h : s.terminalWrite mem count = some (n, s')) :
    ∃ tty, s.tty.terminalWrite mem count = some (n, tty) ∧
      s' = { s with tty := tty, intr := true } := by
  obtain ⟨⟨r, tty⟩, hw, h⟩ := Option.map_eq_some_iff.mp h
  cases h
  exact ⟨tty, hw, rfl⟩

theorem terminalWrite_quiet {s s' : Kernel} {mem : List UInt8} {count n : Int}
    (h : s.terminalWrite mem count = some (n, s')) : Quiet s s' := by
  obtain ⟨tty, hw, rfl⟩ := terminalWrite_cases h
  exact Quiet.devices s.rtc true (Tty.terminalWrite_frame hw) rfl

theorem terminalWrite_pcb {s s' : Kernel} {mem : List UInt8} {count n : Int}
    (h : s.terminalWrite mem count = some (n, s')) : s'.pcb = s.pcb := by
  obtain ⟨tty, -, rfl⟩ := terminalWrite_cases h
  rfl

/-- `open` changes nothing, or opens a file at a descriptor that the bitmap has free. -/
theorem openFile_cases {s s' : Kernel} {filename : Option (List UInt8)} {r : Int}
    (h : s.openFile filename = some (r, s')) :
    r = -1 ∧ s' = s ∨
      ∃ (name : List UInt8) (d : Dentry) (i : Nat), filename = some name ∧
        s.fs.readDentryByName name = some (some d) ∧ (2 ≤ i ∧ i < 8) ∧ s.cur.bitmap i = 0 ∧ r = i ∧
        s' = { s.setPcb s.curr (opened d i) with
          fs := if d.ftype = 1 then s.fs.openDir else s.fs } := by
  cases filename with
  | none => cases h; exact .inl ⟨rfl, rfl⟩
  | some name =>
    unfold openFile at h
    obtain ⟨d, hd, h⟩ := Option.map_eq_some_iff.mp h
    cases d with
    | none => cases h; exact .inl ⟨rfl, rfl⟩
    | some d =>
      dsimp only at h
      split at h
      · cases h; exact .inl ⟨rfl, rfl⟩
      · rename_i i hfind
        cases h
        have hmem := List.mem_of_find?_eq_some hfind
        have hrange : 2 ≤ i ∧ i < 8 := by
          simp only [List.mem_cons, List.not_mem_nil, or_false] at hmem
          omega
        have hfree : s.cur.bitmap i = 0 := by simpa using List.find?_some hfind
        exact .inr ⟨name, d, i, rfl, hd, hrange, hfree, rfl, rfl⟩

theorem openFile_quiet {s s' : Kernel} {filename : Option (List UInt8)} {r : Int}
    (h : s.openFile filename = some (r, s')) : Quiet s s' := by
  rcases openFile_cases h with ⟨-, rfl⟩ | ⟨name, d, i, -, -, -, -, -, rfl⟩
  · exact Quiet.refl _
  · have hfs : (if d.ftype = 1 then s.fs.openDir else s.fs).image = s.fs.image := by
      split <;> rfl
    have hpcb : Quiet s (s.setPcb s.curr (opened d i)) :=
      Quiet.setPcb s s.curr fun _ => ⟨rfl, rfl, rfl⟩
    exact hpcb.trans (Quiet.devices s.rtc s.intr (Tty.Frame.refl s.tty) hfs)

theorem Pcb.close_ids (p : Pcb) (fd : Int) : (p.close fd).2.pid = p.pid ∧
    (p.close fd).2.pPid = p.pPid ∧ (p.close fd).2.terminal = p.terminal := by
  unfold Pcb.close
  split
  · exact ⟨rfl, rfl, rfl⟩
  · split
    · exact ⟨rfl, rfl, rfl⟩
    · unfold Pcb.clearFlagAt
      split <;> exact ⟨rfl, rfl, rfl⟩

theorem Pcb.clearFlagAt_ids (p : Pcb) (i : Nat) : (p.clearFlagAt i).pid = p.pid ∧
    (p.clearFlagAt i).pPid = p.pPid ∧ (p.clearFlagAt i).terminal = p.terminal := by
  unfold Pcb.clearFlagAt
  split <;> exact ⟨rfl, rfl, rfl⟩

theorem Pcb.closeAll_ids (p : Pcb) :
    p.closeAll.pid = p.pid ∧ p.closeAll.pPid = p.pPid ∧ p.closeAll.terminal = p.terminal := by
  unfold Pcb.closeAll
  generalize List.range fdescSize = fds
  induction fds generalizing p with
  | nil => exact ⟨rfl, rfl, rfl⟩
  | cons i fds ih =>
    have hround : (p.closeRound i).pid = p.pid ∧ (p.closeRound i).pPid = p.pPid ∧
        (p.closeRound i).terminal = p.terminal := by
      unfold Pcb.closeRound
      split
      · obtain ⟨h1, h2, h3⟩ := Pcb.clearFlagAt_ids (p.close i).2 i
        obtain ⟨h1', h2', h3'⟩ := Pcb.close_ids p i
        exact ⟨h1.trans h1', h2.trans h2', h3.trans h3'⟩
      · exact Pcb.clearFlagAt_ids p i
    obtain ⟨h1, h2, h3⟩ := ih (p.closeRound i)
    exact ⟨h1.trans hround.1, h2.trans hround.2.1, h3.trans hround.2.2⟩

theorem close_quiet (s : Kernel) (fd : Int) : Quiet s (s.close fd).2 :=
  Quiet.setPcb s s.curr fun p => Pcb.close_ids p fd

/-- A read routine reads a name of the directory, or works on one of the other devices. -/
theorem readHandler_cases {s s' : Kernel} {d : FileDesc} {mem : List UInt8} {nbytes : Int}
    {r : Tty.ReadOut} (h : s.readHandler d mem nbytes = some (r, s')) :
    d.read = .readDir ∧ (r.ret, r.out) = (s.fs.readDir.1, s.fs.readDir.2.1) ∧
        s' = { s with fs := s.fs.readDir.2.2 } ∨
      d.read ≠ .readDir ∧ (s' = s ∨
        (∃ tty, s.tty.terminalRead mem nbytes.toNat = some (r, tty) ∧
          s' = { s with tty := tty, intr := true }) ∨
        ∃ rtc, s' = { s with rtc := rtc }) := by
  unfold readHandler at h
  cases hd : d.read with
  | null => rw [hd] at h; cases h
  | terminalWrong => rw [hd] at h; cases h; exact .inr ⟨by decide, .inl rfl⟩
  | terminalRead =>
    rw [hd] at h
    dsimp only at h
    split at h
    · cases h
    · obtain ⟨⟨r, tty⟩, hr, h⟩ := Option.map_eq_some_iff.mp h
      cases h
      exact .inr ⟨by decide, .inr (.inl ⟨tty, hr, rfl⟩)⟩
  | rtcRead =>
    rw [hd] at h
    obtain ⟨⟨r, rtc⟩, -, h⟩ := Option.map_eq_some_iff.mp h
    cases h
    exact .inr ⟨by decide, .inr (.inr ⟨rtc, rfl⟩)⟩
  | readDir =>
    rw [hd] at h
    dsimp only at h
    split at h
    · cases h
    · cases h
      exact .inl ⟨rfl, rfl, rfl⟩
  | readF =>
    rw [hd] at h
    dsimp only at h
    split at h
    · cases h
    · cases h
      exact .inr ⟨by decide, .inl rfl⟩

theorem readHandler_quiet {s s' : Kernel} {d : FileDesc} {mem : List UInt8} {nbytes : Int}
    {r : Tty.ReadOut} (h : s.readHandler d mem nbytes = some (r, s')) : Quiet s s' := by
  rcases readHandler_cases h with ⟨-, -, rfl⟩ | ⟨-, rfl | ⟨tty, hr, rfl⟩ | ⟨rtc, rfl⟩⟩
  · exact Quiet.devices s.rtc s.intr (Tty.Frame.refl s.tty) s.fs.readDir_image
  · exact Quiet.refl _
  · exact Quiet.devices s.rtc true (Tty.terminalRead_frame hr) rfl
  · exact Quiet.devices rtc s.intr (Tty.Frame.refl s.tty) rfl

/-- A `read` that gets to a routine: the buffer is not NULL, and the descriptor is open. -/
def Reads (s : Kernel) (fd : Int) (buf : Option (List UInt8)) : Prop :=
  buf ≠ none ∧ (0 ≤ fd ∧ fd < 8) ∧ (s.cur.fileArray fd.toNat).flag ≠ 0

theorem read_cases {s s' : Kernel} {fd : Int} {buf : Option (List UInt8)} {nbytes : Int}
    {r : Tty.ReadOut} (h : s.read fd buf nbytes = some (r, s')) :
    ¬ s.Reads fd buf ∧ r = ⟨-1, [], 0⟩ ∧ s' = s ∨
      s.Reads fd buf ∧ ∃ mem r₁ s₁,
        s.readHandler (s.cur.fileArray fd.toNat) mem nbytes = some (r₁, s₁) ∧
          (r₁.ret < 0 ∧ r = { r₁ with ret := -1 } ∧ s' = s₁ ∨
            0 ≤ r₁.ret ∧ r = r₁ ∧ s' = s₁.setPcb s₁.curr (advanced fd.toNat r₁.ret.toNat)) := by
  cases buf with
  | none => cases h; exact .inl ⟨fun hreads => hreads.1 rfl, rfl, rfl⟩
  | some mem =>
    unfold read at h
    dsimp only at h
    split_ifs at h with hrange hflag
    · cases h
      simp only [fdescSize] at hrange
      exact .inl ⟨fun hreads => by have := hreads.2.1; omega, rfl, rfl⟩
    · cases h
      exact .inl ⟨fun hreads => hreads.2.2 hflag, rfl, rfl⟩
    · obtain ⟨⟨r₁, s₁⟩, hr, h⟩ := Option.map_eq_some_iff.mp h
      simp only [fdescSize] at hrange
      refine .inr ⟨⟨Option.some_ne_none mem, by omega, hflag⟩, mem, r₁, s₁, hr, ?_⟩
      dsimp only at h
      split_ifs at h with hneg
      · cases h
        exact .inl ⟨hneg, rfl, rfl⟩
      · cases h
        exact .inr ⟨by omega, rfl, rfl⟩

theorem read_quiet {s s' : Kernel} {fd : Int} {buf : Option (List UInt8)} {nbytes : Int}
    {r : Tty.ReadOut} (h : s.read fd buf nbytes = some (r, s')) : Quiet s s' := by
  rcases read_cases h with ⟨-, -, rfl⟩ | ⟨-, mem, r₁, s₁, hr, ⟨-, -, rfl⟩ | ⟨-, -, rfl⟩⟩
  · exact Quiet.refl _
  · exact readHandler_quiet hr
  · exact (readHandler_quiet hr).trans (Quiet.setPcb s₁ s₁.curr fun _ => ⟨rfl, rfl, rfl⟩)

theorem write_cases {s s' : Kernel} {fd : Int} {buf : Option (List UInt8)} {nbytes r : Int}
    (h : s.write fd buf nbytes = some (r, s')) :
    s' = s ∨ (∃ mem n, s.terminalWrite mem nbytes = some (n, s')) ∨
      ∃ rtc, s' = { s with rtc := rtc, intr := true } := by
  cases buf with
  | none => cases h; exact .inl rfl
  | some mem =>
    unfold write at h
    dsimp only at h
    split_ifs at h
    · cases h; exact .inl rfl
    · cases h; exact .inl rfl
    · obtain ⟨⟨r, s₁⟩, hr, h⟩ := Option.map_eq_some_iff.mp h
      cases h
      unfold writeHandler at hr
      split at hr
      · cases hr
      · cases hr; exact .inl rfl
      · cases hr; exact .inl rfl
      · cases hr; exact .inl rfl
      · exact .inr (.inl ⟨mem, r, hr⟩)
      · obtain ⟨⟨r, rtc⟩, -, hr⟩ := Option.map_eq_some_iff.mp hr
        cases hr
        exact .inr (.inr ⟨rtc, rfl⟩)

theorem write_quiet {s s' : Kernel} {fd : Int} {buf : Option (List UInt8)} {nbytes r : Int}
    (h : s.write fd buf nbytes = some (r, s')) : Quiet s s' := by
  rcases write_cases h with rfl | ⟨mem, n, hw⟩ | ⟨rtc, rfl⟩
  · exact Quiet.refl _
  · exact terminalWrite_quiet hw
  · exact Quiet.devices rtc true (Tty.Frame.refl s.tty) rfl

/-! The programs of the calls on files. -/

variable {L} in
theorem openFile_code {s s' : Kernel} {filename : Option (List UInt8)}
    (h : (code L (.openFile filename)).result s = some ((), s')) :
    ∃ r, s.openFile filename = some (r, s') := by
  obtain ⟨⟨r, s₁⟩, hr, h⟩ := Option.map_eq_some_iff.mp h
  cases h
  exact ⟨r, hr⟩

variable {L} in
theorem read_code {s s' : Kernel} {fd : Int} {buf : Option (List UInt8)} {nbytes : Int}
    (h : (code L (.read fd buf nbytes)).result s = some ((), s')) :
    ∃ r, s.read fd buf nbytes = some (r, s') := by
  obtain ⟨⟨r, s₁⟩, hr, h⟩ := Option.map_eq_some_iff.mp h
  cases h
  exact ⟨r, hr⟩

variable {L} in
theorem write_code {s s' : Kernel} {fd : Int} {buf : Option (List UInt8)} {nbytes : Int}
    (h : (code L (.write fd buf nbytes)).result s = some ((), s')) :
    ∃ r, s.write fd buf nbytes = some (r, s') := by
  obtain ⟨⟨r, s₁⟩, hr, h⟩ := Option.map_eq_some_iff.mp h
  cases h
  exact ⟨r, hr⟩

/-- The operations on files, and the RTC interrupt, are quiet. -/
theorem file_quiet {s s' : Kernel} (op : Op)
    (hop : match op with
      | .openFile _ | .close _ | .read _ _ _ | .write _ _ _ | .rtc => True
      | _ => False)
    (h : (code L op).result s = some ((), s')) : Quiet s s' := by
  cases op with
  | openFile filename =>
    obtain ⟨r, hr⟩ := openFile_code h
    exact openFile_quiet hr
  | close fd => cases h; exact close_quiet s fd
  | read fd buf nbytes =>
    obtain ⟨r, hr⟩ := read_code h
    exact read_quiet hr
  | write fd buf nbytes =>
    obtain ⟨r, hr⟩ := write_code h
    exact write_quiet hr
  | rtc => cases h; exact Quiet.devices s.rtc.rtcIntHandler s.intr (Tty.Frame.refl s.tty) rfl
  | boot | execute | halt | tick | key | vidmap => exact hop.elim

/-! What each of them may change at all. -/

theorem openFile_frame {s s' : Kernel} {filename : Option (List UInt8)} {r : Int}
    (h : s.openFile filename = some (r, s')) : s' = { s with fs := s'.fs, pcb := s'.pcb } := by
  rcases openFile_cases h with ⟨-, rfl⟩ | ⟨name, d, i, -, -, -, -, -, rfl⟩
  · rfl
  · rfl

theorem readHandler_frame {s s' : Kernel} {d : FileDesc} {mem : List UInt8} {nbytes : Int}
    {r : Tty.ReadOut} (h : s.readHandler d mem nbytes = some (r, s')) :
    s' = { s with
      tty := { s.tty with kbd := s'.tty.kbd }, fs := s'.fs, rtc := s'.rtc, intr := s'.intr } := by
  rcases readHandler_cases h with ⟨-, -, rfl⟩ | ⟨-, rfl | ⟨tty, hr, rfl⟩ | ⟨rtc, rfl⟩⟩
  · rfl
  · rfl
  · unfold Tty.terminalRead at hr
    dsimp only at hr
    split at hr
    · obtain ⟨buf, -, hr⟩ := Option.bind_eq_some_iff.mp hr
      obtain ⟨n, -, hr⟩ := Option.map_eq_some_iff.mp hr
      cases hr
      rfl
    · cases hr
  · rfl

theorem read_frame {s s' : Kernel} {fd : Int} {buf : Option (List UInt8)} {nbytes : Int}
    {r : Tty.ReadOut} (h : s.read fd buf nbytes = some (r, s')) :
    s' = { s with
      tty := { s.tty with kbd := s'.tty.kbd }, fs := s'.fs, rtc := s'.rtc, intr := s'.intr,
      pcb := s'.pcb } := by
  rcases read_cases h with ⟨-, -, rfl⟩ | ⟨-, mem, r₁, s₁, hr, ⟨-, -, rfl⟩ | ⟨-, -, rfl⟩⟩
  · rfl
  · rw [readHandler_frame hr]
  · rw [readHandler_frame hr]
    rfl

theorem write_frame {s s' : Kernel} {fd : Int} {buf : Option (List UInt8)} {nbytes r : Int}
    (h : s.write fd buf nbytes = some (r, s')) :
    s' = { s with tty := s'.tty, rtc := s'.rtc, intr := s'.intr } := by
  rcases write_cases h with rfl | ⟨mem, n, hw⟩ | ⟨rtc, rfl⟩
  · rfl
  · obtain ⟨tty, -, rfl⟩ := terminalWrite_cases hw
    rfl
  · rfl

theorem step_result {s s' : Kernel} {op : Op} (h : step L s op = some s') :
    s.enabled op ∧ ∃ s₁, (code L op).result s = some ((), s₁) ∧ s' = s₁.sti := by
  unfold step at h
  split at h
  · refine ⟨‹_›, ?_⟩
    rw [program, Prog.result_bind] at h
    cases hc : (code L op).result s with
    | none => rw [hc] at h; cases h
    | some r => rw [hc] at h; cases h; exact ⟨r.2, rfl, rfl⟩
  · cases h

/-- A program that is called for its effect. -/
theorem result_ignore {α : Type} {p : Prog Kernel α} {s s' : Kernel}
    (h : (do let _ ← p; pure () : Prog Kernel Unit).result s = some ((), s')) :
    ∃ a, p.result s = some (a, s') := by
  rw [Prog.result_bind] at h
  obtain ⟨⟨a, s₁⟩, ha, h⟩ := Option.bind_eq_some_iff.mp h
  cases h
  exact ⟨a, ha⟩

/-- `vidmap` maps the page of the displayed terminal, for whoever calls it. -/
theorem vidmap_cases {startScreen : Nat} {s s' : Kernel}
    (h : (code L (.vidmap startScreen)).result s = some ((), s')) :
    (startScreen = 0 ∨ startScreen = 4 * mb) ∧ s' = s ∨
      ¬ (startScreen = 0 ∨ startScreen = 4 * mb) ∧ s' = s.mapPg (vidMapped L true) := by
  obtain ⟨v, hv⟩ := result_ignore h
  unfold vidmap at hv
  split at hv
  · cases hv
    exact .inl ⟨‹_›, rfl⟩
  · rw [Prog.result_get_then, Prog.result_bind, Prog.result_updates, vidMemPageMap, foldl_mapPg,
      decide_eq_true rfl] at hv
    cases hv
    exact .inr ⟨‹_›, rfl⟩

/-- What `execute_with_terminal_num` may come to: a new process on terminal `t`, or
nothing but other arguments and a message. -/
theorem execute_outcome {env : Env} {cmd : Option (List UInt8)} {t : Terminal} {s s' : Kernel}
    {o : Outcome} (h : (executeWithTerminalNum env cmd t).result s = some (o, s')) :
    (∃ pid args v, s.getPid = some pid ∧ o = .entered v ∧
      s' = launched env pid t (s.cli.withArgs args)) ∨
    (∃ v, o = .returned v) ∧ Still s s' ∧ s'.pcb = s.pcb := by
  cases cmd with
  | none => cases h; exact .inr ⟨⟨_, rfl⟩, Still.refl s, rfl⟩
  | some cmd =>
    obtain ⟨r, s₁, hv, h⟩ := execute_cases h
    obtain ⟨n, -, -, hs₁⟩ := verifyFile_state hv
    have hstill : Still s s₁ := by
      subst hs₁
      exact ⟨⟨rfl, rfl, rfl, fun _ => ⟨rfl, rfl, rfl⟩, rfl, rfl, rfl, rfl⟩, rfl, rfl⟩
    have hpcb : s₁.pcb = s.pcb := by rw [hs₁]; rfl
    cases r with
    | none => obtain ⟨rfl, rfl⟩ := h; exact .inr ⟨⟨_, rfl⟩, hstill, hpcb⟩
    | some v =>
      rcases h with ⟨-, rfl, n, hw⟩ | ⟨pid, hpid, rfl, rfl⟩
      · exact .inr ⟨⟨_, rfl⟩, hstill.trans (terminalWrite_quiet hw).toStill,
          (terminalWrite_pcb hw).trans hpcb⟩
      · exact .inl ⟨pid, _, v, hpid, rfl, by rw [hs₁]⟩

theorem keyed_same {s : Kernel} {input : UInt8} {tty : Tty}
    (h : s.tty.keyboardByte input = some tty) : SameProcs s (s.keyed input tty) := by
  have hframe := Tty.keyboardByte_frame h
  rw [keyed_eq]
  exact ⟨rfl, rfl, rfl, fun _ => ⟨rfl, rfl, rfl⟩, hframe.active, hframe.running2,
    hframe.running3, rfl⟩

/-! ## The shell -/

/-- `shell` is an executable file of the image. -/
structure HasShell (fs : FileSys) (d : Dentry) : Prop where
  found : fs.readDentryByName (inFile (cString (cText "shell"))) = some (some d)
  inode : 0 < d.inode ∧ d.inode < fs.numInodes
  magic : (fs.contents d.inode).take 4 = magicBuf

theorem HasShell.of_image {fs fs' : FileSys} {d : Dentry} (h : HasShell fs d)
    (himg : fs'.image = fs.image) : HasShell fs' d :=
  ⟨(FileSys.readDentryByName_image himg _).trans h.found,
    FileSys.numInodes_image himg ▸ h.inode, (FileSys.contents_image himg _).symm ▸ h.magic⟩

theorem shellOnly_hasShell : HasShell .shellOnly (FileSys.shellOnly.dentry 0) :=
  ⟨by decide +kernel, by decide +kernel, by decide +kernel⟩

theorem HasShell.head {fs : FileSys} {d : Dentry} (h : HasShell fs d) :
    (fs.readData d.inode 0 4).2 = magicBuf := by
  have hlen : 4 ≤ fs.inodeLength d.inode := by
    have hlen := congrArg List.length h.magic
    simp only [FileSys.contents, List.length_take, window_length, magicBuf, List.length_cons,
      List.length_nil] at hlen
    omega
  rw [FileSys.readData_eq h.inode.1 h.inode.2, if_neg (by omega), ← h.magic, FileSys.contents,
    window_take]

/-- `verify_file` accepts the shell, whatever its uninitialised variables hold. -/
theorem HasShell.verify {s s' : Kernel} {d : Dentry} (h : HasShell s.fs d) {env : Env}
    {r : Option (List UInt8)} (hv : verifyFile env (cText "shell") s = some (r, s')) :
    r ≠ none := by
  have htext : strlen (cText "shell") = some 5 := by decide
  have htake : (cText "shell").take 5 = cString (cText "shell") := by decide
  unfold verifyFile at hv
  rw [htext, Option.bind_some, htake] at hv
  dsimp only at hv
  split at hv
  · cases hv
  · have hfs : ∀ args, (s.withArgs args).fs = s.fs := fun _ => rfl
    simp only [hfs, h.found, Option.bind_some, FileSys.readFByName, Option.map_some, h.head,
      reduceCtorEq, if_false] at hv
    have hcmp : ∀ rest, strncmp 4 (magicBuf ++ rest) magicBuf = some 0 := by
      intro rest
      simp [magicBuf, strncmp]
    rw [hcmp] at hv
    cases hv
    exact Option.some_ne_none _

theorem HasShell.spawn {s s' : Kernel} {d : Dentry} (h : HasShell s.fs d) {env : Env}
    {t : Terminal} {o : Outcome}
    (he : (executeWithTerminalNum env shell t).result s = some (o, s')) :
    (∃ pid args v, s.getPid = some pid ∧ o = .entered v ∧
      s' = launched env pid t (s.cli.withArgs args)) ∨
    s.getPid = none ∧ (∃ v, o = .returned v) ∧ Still s s' := by
  rcases execute_outcome he with hnew | ⟨hret, hstill, -⟩
  · exact .inl hnew
  · obtain ⟨r, s₁, hv, hcase⟩ := execute_cases he
    cases r with
    | none => exact absurd rfl (HasShell.verify (s := s.cli) h hv)
    | some v =>
      rcases hcase with ⟨hnone, -⟩ | ⟨pid, -, rfl, -⟩
      · exact .inr ⟨hnone, hret, hstill⟩
      · obtain ⟨v, hv⟩ := hret
        cases hv

/-! ## Process numbers -/

/-- `get_pid` returns the lowest number that is free. -/
theorem getPid_eq_some {s : Kernel} {pid : Pid} :
    s.getPid = some pid ↔ s.procState pid = false ∧ ∀ q < pid, s.procState q = true := by
  unfold getPid
  rw [List.find?_eq_some_iff_getElem]
  constructor
  · rintro ⟨hfree, i, hi, rfl, hlow⟩
    refine ⟨by simpa using hfree, fun q hq => ?_⟩
    have hqi : q.val < i := by simpa using Fin.lt_def.mp hq
    simpa using hlow q.val hqi
  · rintro ⟨hfree, hlow⟩
    refine ⟨by simpa using hfree, pid.val, by simp, by simp, fun j hj => ?_⟩
    have hlt : (⟨j, by omega⟩ : Pid) < pid := hj
    simpa using hlow _ hlt

theorem getPid_eq_none {s : Kernel} : s.getPid = none ↔ ∀ q, s.procState q = true := by
  simp [getPid, List.find?_eq_none]

end Kernel

end OS391
