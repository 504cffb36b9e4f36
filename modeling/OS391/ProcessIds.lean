import OS391.Steps

/-! The process numbers in the control blocks, the rule for invariants of the process tables
that the operations keep, and that no process runs after its end. -/

namespace OS391
open Library Library.Runs Library.Bytes

namespace Kernel

variable (L : Layout)

/-! ## Invariants of the process tables -/

/-- The process tables and control blocks are the same. -/
structure SameTables (s s' : Kernel) : Prop where
  tCurr : s'.tCurr = s.tCurr
  procState : s'.procState = s.procState
  curr : s'.curr = s.curr
  pcb : s'.pcb = s.pcb

theorem SameTables.trans {s s' s'' : Kernel} (h : SameTables s s') (h' : SameTables s' s'') :
    SameTables s s'' :=
  ⟨h'.tCurr.trans h.tCurr, h'.procState.trans h.procState, h'.curr.trans h.curr,
    h'.pcb.trans h.pcb⟩

theorem cli_tables (s : Kernel) : SameTables s s.cli := ⟨rfl, rfl, rfl, rfl⟩

theorem sti_tables (s : Kernel) : SameTables s s.sti := ⟨rfl, rfl, rfl, rfl⟩

theorem clear_tables (s : Kernel) : SameTables s s.clear := ⟨rfl, rfl, rfl, rfl⟩

theorem args_tables (s : Kernel) (args : List UInt8) : SameTables s (s.cli.withArgs args) :=
  ⟨rfl, rfl, rfl, rfl⟩

theorem keyed_tables (s : Kernel) (input : UInt8) (tty : Tty) :
    SameTables s (s.keyed input tty) := by
  rw [keyed_eq]
  exact ⟨rfl, rfl, rfl, rfl⟩

theorem mark_tables (s : Kernel) (t : Terminal) : SameTables s (s.markRunning t) :=
  ⟨rfl, rfl, rfl, rfl⟩

/-- What holds of the process tables, and survives the start of a process and a switch. -/
theorem carried_of_same {L} {P : Kernel → Prop} (hsame : ∀ {s s'}, P s → SameTables s s' → P s')
    (hlaunched : ∀ {s} env pid t, P s → s.getPid = some pid → P (launched env pid t s))
    (hswitched : ∀ {s t pid} env, P s → s.tCurr t = some pid →
      P ((switched L pid s).saved env s.curr)) : Carried L fun s s' => P s → P s' where
  trans h h' hs := h' (h hs)
  idle hi hs := hsame hs ⟨hi.tCurr, hi.procState, hi.curr, hi.pcb⟩
  clear s hs := hsame hs (clear_tables s)
  wrote hw hs :=
    have hquiet := terminalWrite_quiet hw
    hsame hs ⟨hquiet.tCurr, hquiet.procState, hquiet.curr, terminalWrite_pcb hw⟩
  launched env pid t hpid hs := hlaunched env pid t hs hpid
  switched env hpid hs := hswitched env hs hpid
  keyed {s input tty} _ hs := hsame hs (keyed_tables s input tty)

/-- `P` speaks of the process tables, and survives the four ways in which they change. -/
structure Kept (P : Kernel → Prop) : Prop where
  same : ∀ {s s'}, P s → SameTables s s' → P s'
  launched : ∀ {s} env pid t, P s → s.getPid = some pid → P (launched env pid t s)
  halted : ∀ {s}, P s → s.started → P s.halted
  switched : ∀ {s t pid} env, P s → s.tCurr t = some pid → P ((switched L pid s).saved env s.curr)

namespace Kept

variable {L} {P : Kernel → Prop} (hP : Kept L P) {s s' : Kernel}
include hP

theorem carried : Carried L fun s s' => P s → P s' :=
  carried_of_same (fun h hs => hP.same h hs) (fun env pid t h hpid => hP.launched env pid t h hpid)
    fun env h hpid => hP.switched env h hpid

theorem execute {env : Env} {cmd : Option (List UInt8)} {t : Terminal} {o : Outcome} (h : P s)
    (he : (executeWithTerminalNum env cmd t).result s = some (o, s')) : P s' :=
  hP.carried.execute he h

/-- Every operation keeps `P` if those on files do. -/
theorem step {op : Op} (h : P s)
    (hfiles : ∀ s₁, OnFiles op → (code L op).result s = some ((), s₁) → P s₁)
    (hs : Kernel.step L s op = some s') : P s' :=
  hP.carried.step (fun _ hst h => hP.halted h hst) (fun s₁ hop hs₁ _ => hfiles s₁ hop hs₁) hs h

end Kept

/-! ## Process numbers -/

/-- The control block of `q` says that it is that of `q`. -/
def Named (s : Kernel) (q : Pid) : Prop := (s.pcb q).pid = q

/-- Whatever process can come to run, its control block has its number. -/
structure IdsOk (s : Kernel) : Prop where
  tCurr : ∀ t p, s.tCurr t = some p → s.Named p
  current : s.started → s.Named s.curr
  parent : ∀ p, s.Named p → s.Named (s.pcb p).pPid

variable {s s' : Kernel}

theorem idsOk_boot (fs : FileSys) : IdsOk (boot L fs) :=
  ⟨fun _ _ h => (Option.some_ne_none _ h.symm).elim, fun ⟨_, h⟩ => absurd rfl h,
    fun _ _ => rfl⟩

/-- New control blocks with the same process numbers. -/
theorem IdsOk.of_ids (h : IdsOk s) (htCurr : s'.tCurr = s.tCurr) (hcurr : s'.curr = s.curr)
    (hids : ∀ p, (s'.pcb p).pid = (s.pcb p).pid ∧ (s'.pcb p).pPid = (s.pcb p).pPid) :
    IdsOk s' := by
  have hnamed : ∀ p, s'.Named p ↔ s.Named p := fun p => by rw [Named, Named, (hids p).1]
  constructor
  · intro t p hp
    exact (hnamed p).mpr (h.tCurr t p (htCurr ▸ hp))
  · intro hst
    rw [hcurr]
    exact (hnamed _).mpr (h.current (by simpa only [started, htCurr] using hst))
  · intro p hp
    rw [(hids p).2]
    exact (hnamed _).mpr (h.parent p ((hnamed p).mp hp))

theorem IdsOk.same (h : IdsOk s) (hs : SameTables s s') : IdsOk s' :=
  h.of_ids hs.tCurr hs.curr fun p => by rw [hs.pcb]; exact ⟨rfl, rfl⟩

theorem IdsOk.launched (h : IdsOk s) (env : Env) (pid : Pid) (t : Terminal) :
    IdsOk (Kernel.launched env pid t s) := by
  obtain ⟨pe, pb, ce, cb, hpcb⟩ := launched_pcb env pid t s
  have hself : (Kernel.launched env pid t s).Named pid := by
    simp [Named, hpcb, Pcb.initFiles]
  have hold : ∀ p, s.Named p → (Kernel.launched env pid t s).Named p := by
    intro p hp
    by_cases hne : p = pid
    · rw [hne]
      exact hself
    · rw [Named, launched_pcb_of_ne env pid t s hne]
      exact hp
  constructor
  · intro u p hp
    rw [launched_tCurr] at hp
    by_cases hu : u = t
    · rw [hu, Function.update_self] at hp
      cases hp
      exact hself
    · rw [Function.update_of_ne hu] at hp
      exact hold p (h.tCurr u p hp)
  · intro _
    rw [launched_curr]
    exact hself
  · intro p hp
    by_cases hne : p = pid
    · subst hne
      rw [hpcb]
      show (Kernel.launched env p t s).Named (s.parentFor p t)
      unfold parentFor
      split_ifs with ht hc
      · exact hself
      · exact hself
      · have hcur := h.current ⟨t, ht⟩
        rw [Named] at hcur
        rw [cur, hcur]
        exact hold _ hcur
    · rw [launched_pcb_of_ne env pid t s hne]
      refine hold _ (h.parent p ?_)
      rwa [Named, launched_pcb_of_ne env pid t s hne] at hp

theorem halted_ids (s : Kernel) (p : Pid) : (s.halted.pcb p).pid = (s.pcb p).pid ∧
    (s.halted.pcb p).pPid = (s.pcb p).pPid ∧ (s.halted.pcb p).terminal = (s.pcb p).terminal :=
  (Quiet.setPcb (s.cli.setProcState s.cur.pid false) s.curr Pcb.closeAll_ids).ids p

theorem IdsOk.halted (h : IdsOk s) (hst : s.started) : IdsOk s.halted := by
  have hnamed : ∀ p, s.halted.Named p ↔ s.Named p := fun p => by
    rw [Named, Named, (halted_ids s p).1]
  have hparent := h.parent s.curr (h.current hst)
  constructor
  · intro t p hp
    apply (hnamed p).mpr
    have hp' : Function.update s.tCurr s.cur.terminal (some s.cur.pPid) t = some p := hp
    by_cases ht : t = s.cur.terminal
    · rw [ht, Function.update_self] at hp'
      cases hp'
      exact hparent
    · rw [Function.update_of_ne ht] at hp'
      exact h.tCurr t p hp'
  · intro _
    exact (hnamed _).mpr hparent
  · intro p hp
    rw [(halted_ids s p).2.1]
    exact (hnamed _).mpr (h.parent p ((hnamed p).mp hp))

theorem switched_ids (env : Env) (pid : Pid) (s : Kernel) (p : Pid) :
    (((switched L pid s).saved env s.curr).pcb p).pid = (s.pcb p).pid ∧
      (((switched L pid s).saved env s.curr).pcb p).pPid = (s.pcb p).pPid ∧
      (((switched L pid s).saved env s.curr).pcb p).terminal = (s.pcb p).terminal :=
  (Quiet.setPcb (switched L pid s) s.curr
    (f := fun p => { p with currentEbp := env.ebp, currentEsp := env.esp })
    fun _ => ⟨rfl, rfl, rfl⟩).ids p

theorem idsOk_kept : Kept L IdsOk where
  same h hs := h.same hs
  launched env pid t h _ := h.launched env pid t
  halted h hst := h.halted hst
  switched {s t pid} env h hpid := by
    have hid := h.tCurr t pid hpid
    have hnamed : ∀ p, ((Kernel.switched L pid s).saved env s.curr).Named p ↔ s.Named p :=
      fun p => by rw [Named, Named, (switched_ids L env pid s p).1]
    constructor
    · intro t p hp
      exact (hnamed p).mpr (h.tCurr t p hp)
    · intro _
      apply (hnamed _).mpr
      have hcurr : ((Kernel.switched L pid s).saved env s.curr).curr = pid := hid
      rwa [hcurr]
    · intro p hp
      rw [(switched_ids L env pid s p).2.1]
      exact (hnamed _).mpr (h.parent p ((hnamed p).mp hp))

theorem IdsOk.files (h : IdsOk s) {op : Op} (hop : OnFiles op)
    (hs : (code L op).result s = some ((), s')) : IdsOk s' ∧ s'.procState = s.procState := by
  have hquiet : Quiet s s' := by
    cases op with
    | openFile | close | read | write => exact file_quiet L _ trivial hs
    | _ => exact hop.elim
  exact ⟨h.of_ids hquiet.tCurr hquiet.curr fun p => ⟨(hquiet.ids p).1, (hquiet.ids p).2.1⟩,
    hquiet.procState⟩

theorem IdsOk.step (h : IdsOk s) {op : Op} (hs : Kernel.step L s op = some s') : IdsOk s' :=
  (idsOk_kept L).step h (fun _ hop hs₁ => (h.files L hop hs₁).1) hs

/-! ## The processes that run -/

/-- The process of terminal `t` has not ended, and knows its terminal. -/
def Runs (s : Kernel) (t : Terminal) : Prop :=
  ∀ p, s.tCurr t = some p → s.procState p = true ∧ (s.pcb p).terminal = t

/-- No process runs after its end. -/
structure LiveOk (s : Kernel) : Prop extends IdsOk s where
  runs : ∀ t, s.Runs t
  owner : s.started → s.tCurr s.cur.terminal = some s.curr

theorem LiveOk.current_runs (h : LiveOk s) (hst : s.started) : s.procState s.curr = true :=
  (h.runs _ _ (h.owner hst)).1

theorem liveOk_boot (fs : FileSys) : LiveOk (boot L fs) :=
  ⟨idsOk_boot L fs, fun _ _ h => (Option.some_ne_none _ h.symm).elim, fun ⟨_, h⟩ => absurd rfl h⟩

/-- New control blocks with the same numbers and terminals. -/
theorem LiveOk.of_ids (h : LiveOk s) (htCurr : s'.tCurr = s.tCurr) (hcurr : s'.curr = s.curr)
    (hproc : s'.procState = s.procState)
    (hids : ∀ p, (s'.pcb p).pid = (s.pcb p).pid ∧ (s'.pcb p).pPid = (s.pcb p).pPid ∧
      (s'.pcb p).terminal = (s.pcb p).terminal) : LiveOk s' := by
  refine ⟨h.toIdsOk.of_ids htCurr hcurr fun p => ⟨(hids p).1, (hids p).2.1⟩, fun t p hp => ?_,
    fun hst => ?_⟩
  · rw [hproc, (hids p).2.2]
    exact h.runs t p (htCurr ▸ hp)
  · rw [cur, htCurr, hcurr, (hids s.curr).2.2]
    exact h.owner (by simpa only [started, htCurr] using hst)

theorem LiveOk.same (h : LiveOk s) (hs : SameTables s s') : LiveOk s' :=
  h.of_ids hs.tCurr hs.curr hs.procState fun p => by rw [hs.pcb]; exact ⟨rfl, rfl, rfl⟩

/-- The new process takes its terminal over, whatever was there. -/
theorem IdsOk.launched_live (h : IdsOk s) (env : Env) {pid : Pid} {t : Terminal}
    (hpid : s.getPid = some pid) (hruns : ∀ u, u ≠ t → s.Runs u) :
    LiveOk (Kernel.launched env pid t s) := by
  obtain ⟨pe, pb, ce, cb, hpcb⟩ := launched_pcb env pid t s
  have hterm : ((Kernel.launched env pid t s).pcb pid).terminal = t := by rw [hpcb]
  refine ⟨h.launched env pid t, fun u p hp => ?_, fun _ => ?_⟩
  · rw [launched_tCurr] at hp
    rw [launched_procState]
    by_cases hu : u = t
    · rw [hu, Function.update_self] at hp
      cases hp
      exact ⟨Function.update_self .., hterm.trans hu.symm⟩
    · rw [Function.update_of_ne hu] at hp
      obtain ⟨hrun, hown⟩ := hruns u hu p hp
      have hne : p ≠ pid := by
        rintro rfl
        rw [(getPid_eq_some.mp hpid).1] at hrun
        cases hrun
      rw [Function.update_of_ne hne, launched_pcb_of_ne env pid t s hne]
      exact ⟨hrun, hown⟩
  · rw [cur, launched_curr, hterm, launched_tCurr, Function.update_self]

theorem liveOk_carried : Carried L fun s s' => LiveOk s → LiveOk s' := by
  refine carried_of_same (fun h hs => h.same hs)
    (fun env pid t h hpid => h.toIdsOk.launched_live env hpid fun u _ => h.runs u)
    fun {s t pid} env h hpid => ?_
  obtain ⟨hruns, hterm⟩ := h.runs t pid hpid
  have hids := switched_ids L env pid s
  refine ⟨(idsOk_kept L).switched env h.toIdsOk hpid, fun u p hp => ?_, fun _ => ?_⟩
  · rw [(hids p).2.2]
    exact h.runs u p hp
  · have hcurr : ((switched L pid s).saved env s.curr).curr = pid := h.tCurr t pid hpid
    rw [cur, hcurr, (hids pid).2.2, hterm]
    exact hpid

/-- The end of a process leaves the other terminals. -/
theorem LiveOk.halted_runs (h : LiveOk s) (hst : s.started) {u : Terminal}
    (hu : u ≠ s.cur.terminal) : s.halted.Runs u := by
  intro p hp
  rw [halted_tCurr, Function.update_of_ne hu] at hp
  obtain ⟨hrun, hterm⟩ := h.runs u p hp
  have hne : p ≠ s.cur.pid := by
    rintro rfl
    have hid : s.cur.pid = s.curr := h.current hst
    rw [hid] at hterm
    exact hu hterm.symm
  rw [halted_procState, Function.update_of_ne hne, (halted_ids s p).2.2]
  exact ⟨hrun, hterm⟩

theorem LiveOk.halt (h : LiveOk s) (hst : s.started) {env : Env}
    (hs : (Kernel.halt env).result s = some ((), s')) : LiveOk s' := by
  rcases halt_cases hs with ⟨hne, ⟨hrun, hterm⟩, rfl⟩ | ⟨-, v, he⟩
  · suffices hhalted : LiveOk s.halted from hhalted.same ⟨rfl, rfl, rfl, rfl⟩
    refine ⟨h.toIdsOk.halted hst, fun u p hp => ?_, fun _ => ?_⟩
    · by_cases hu : u = s.cur.terminal
      · rw [halted_tCurr, hu, Function.update_self] at hp
        cases hp
        rw [halted_procState, Function.update_of_ne hne.symm, (halted_ids s _).2.2]
        exact ⟨hrun, hterm.trans hu.symm⟩
      · exact h.halted_runs hst hu p hp
    · rw [cur, halted_curr, (halted_ids s _).2.2, hterm, halted_tCurr, Function.update_self]
  · obtain ⟨pid, args, hpid, rfl⟩ := entered_cases he
    have hids := (h.toIdsOk.halted hst).same (args_tables s.halted args)
    exact hids.launched_live env hpid fun u hu => h.halted_runs hst hu

theorem LiveOk.step (h : LiveOk s) {op : Op} (hs : Kernel.step L s op = some s') : LiveOk s' := by
  refine (liveOk_carried L).step_of_halt (fun env s₁ _ hst hs₁ h => h.halt hst hs₁)
    (fun s₁ hop hs₁ h => ?_) hs h
  have hquiet : Quiet s s₁ := by
    cases op with
    | openFile | close | read | write => exact file_quiet L _ trivial hs₁
    | _ => exact hop.elim
  exact h.of_ids hquiet.tCurr hquiet.curr hquiet.procState hquiet.ids

end Kernel

end OS391
