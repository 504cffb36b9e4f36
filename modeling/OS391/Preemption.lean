import OS391.ProcessIds

/-! The timer handler step by step, on the kernel stacks of the processes that it interrupts:
behind its `sti` it can be interrupted itself, before it has saved and loaded the contexts. -/

namespace OS391
open Library Library.Runs Library.Bytes

/-- An activation of `pit_int_handler` with its local variables: the process that it found
running, and the process that it is going to run. -/
inductive Activation where
  /-- Interrupts are disabled. -/
  | entered
  /-- Behind `sti`: the next process is the current one already. -/
  | switched (cur nxt : Pid)
  /-- Behind the save of these registers to the control block of `cur`. -/
  | saved (cur nxt : Pid) (esp ebp : Int)
  deriving DecidableEq

namespace Activation

/-- The activation stopped with this context, and returns when it is loaded. -/
def stoppedAt (esp ebp : Int) : Activation → Bool
  | .saved _ _ esp' ebp' => esp = esp' ∧ ebp = ebp'
  | _ => false

def isSaved : Activation → Bool
  | .saved _ _ _ _ => true
  | _ => false

/-- The handler stands between its `sti` and its load. -/
def inWindow : Activation → Bool
  | .entered => false
  | .switched _ _ | .saved _ _ _ _ => true

end Activation

structure Cpu where
  kernel : Kernel
  /-- The process whose kernel stack is in use. -/
  stack : Pid
  /-- The activations on the stack of each process, the innermost first. -/
  frames : Pid → List Activation
  /-- The process on whose stack the context in a control block lies. -/
  owner : Pid → Pid

/-- What can happen while the timer ticks. -/
inductive TimerEvent where
  /-- The interrupt, and the `cli` of the handler. -/
  | tick
  /-- The handler up to its `sti`. -/
  | switch (env : Kernel.Env)
  | save (esp ebp : Int)
  /-- The load, and the return from the activation that comes with it. -/
  | load

namespace Cpu

variable (L : Layout)

/-- The processor in user code. Of the other processes, the `stopped` ones have been preempted, and
the handler is to return on their stacks with the contexts in their control blocks. -/
def start (k : Kernel) (stopped : Pid → Bool) : Cpu where
  kernel := k
  stack := k.curr
  frames p :=
    if stopped p ∧ p ≠ k.curr then
      [.saved p k.curr (k.pcb p).currentEsp (k.pcb p).currentEbp]
    else []
  owner p := p

def setFrames (m : Cpu) (p : Pid) (l : List Activation) : Cpu :=
  { m with frames := Function.update m.frames p l }

/-- The search for the next process and the switch to it. -/
def select (m : Cpu) (below : List Activation) (k : Kernel) : Option Cpu :=
  (k.nextTerminal.bind k.tCurr).bind fun nxt => ((Kernel.switchTo L nxt).result k).map fun r =>
    { m with kernel := r.2 }.setFrames m.stack (.switched k.curr nxt :: below)

/-- The handler from its `cli` to its `sti`. A shell that it starts runs on its own stack. -/
def switch (m : Cpu) (below : List Activation) (env : Kernel.Env) : Option Cpu :=
  if m.kernel.tCurr 0 = none then
    match (Kernel.executeWithTerminalNum env Kernel.shell 0).result m.kernel.clear with
    | some (.entered _, k) =>
      some ({ m with kernel := k, stack := k.curr, owner := Function.update m.owner k.curr k.curr
        }.setFrames k.curr [])
    | some (.returned _, k) => m.select L below k
    | none => none
  else m.select L below m.kernel

/-- The stack after the return from the activation that stopped with a context (`none`: no
activation did, and the words at `ebp` are no frame of the handler). -/
def afterReturn (esp ebp : Int) : List Activation → Option (List Activation)
  | [] => none
  | a :: below => if a.stoppedAt esp ebp then some below else afterReturn esp ebp below

def step (m : Cpu) : TimerEvent → Option Cpu
  | .tick =>
    if m.kernel.intr then
      some ({ m with kernel := m.kernel.cli }.setFrames m.stack (.entered :: m.frames m.stack))
    else none
  | .switch env => match m.frames m.stack with
    | .entered :: below => m.switch L below env
    | _ => none
  | .save esp ebp => match m.frames m.stack with
    | .switched cur nxt :: below =>
      some ({ m with
        kernel := m.kernel.setPcb cur fun p => { p with currentEbp := ebp, currentEsp := esp }
        owner := Function.update m.owner cur m.stack
        }.setFrames m.stack (.saved cur nxt esp ebp :: below))
    | _ => none
  | .load => match m.frames m.stack with
    | .saved _ nxt _ _ :: _ =>
      let p := m.kernel.pcb nxt
      let q := m.owner nxt
      (afterReturn p.currentEsp p.currentEbp (m.frames q)).map fun below =>
        { m with kernel := m.kernel.sti, stack := q }.setFrames q below
    | _ => none

/-! ## The property -/

/-- The context with which the handler stopped on the stack of `p` is in its control block. -/
def Holds (m : Cpu) (p : Pid) (esp ebp : Int) : Prop :=
  (m.kernel.pcb p).currentEsp = esp ∧ (m.kernel.pcb p).currentEbp = ebp ∧ m.owner p = p

/-- Every process that has been preempted can be resumed where it was. -/
def Intact (m : Cpu) : Prop := ∀ p cur nxt esp ebp below,
  m.frames p = .saved cur nxt esp ebp :: below → m.Holds p esp ebp

/-- The next process runs the code that was interrupted on its stack. -/
def Resumed (m : Cpu) : Prop := m.stack = m.kernel.curr ∧ m.frames m.stack = []

/-- The process whose context the handler is about to load. -/
def loads (m : Cpu) : Option Pid :=
  match m.frames m.stack with
  | .saved _ nxt _ _ :: _ => some nxt
  | _ => none

/-- The handler has preempted `p` and saved its context, and has not returned there since. -/
def Preempted (m : Cpu) (p : Pid) : Prop := (m.frames p).any Activation.isSaved

/-- No tick is delivered to the handler between its `sti` and its load, and what is loaded has
been saved. -/
def Undisturbed (m : Cpu) : TimerEvent → Prop
  | .tick => (m.frames m.stack).all fun a => !a.inWindow
  | .load => ∀ p, m.loads = some p → m.Preempted p
  | _ => True

/-! ## The invariant -/

/-- The stack in use: the handler is at one of its four points, for the process of the stack. -/
inductive Here (m : Cpu) : List Activation → Prop
  | outside (h : m.stack = m.kernel.curr) : Here m []
  | entered (h : m.stack = m.kernel.curr) (hi : m.kernel.intr = false) : Here m [.entered]
  | switched : Here m [.switched m.stack m.kernel.curr]
  | saved (esp ebp : Int) (h : m.Holds m.stack esp ebp) :
    Here m [.saved m.stack m.kernel.curr esp ebp]

/-- A stack that is not in use: its process was not preempted, was left for a new shell, or
can be resumed. -/
inductive Aside (m : Cpu) (p : Pid) : List Activation → Prop
  | none : Aside m p []
  | entered : Aside m p [.entered]
  | saved (cur nxt : Pid) (esp ebp : Int) (h : m.Holds p esp ebp) :
    Aside m p [.saved cur nxt esp ebp]

structure Good (m : Cpu) : Prop where
  ids : m.kernel.IdsOk
  owner : ∀ p, m.owner p = p
  here : m.Here (m.frames m.stack)
  aside : ∀ p, p ≠ m.stack → m.Aside p (m.frames p)

variable {L} {m m' : Cpu}

theorem Good.intact (h : Good m) : m.Intact := by
  intro p cur nxt esp ebp below hp
  by_cases hstack : p = m.stack
  · have hhere := h.here
    rw [← hstack, hp] at hhere
    cases hhere with
    | saved _ _ hholds => exact hstack ▸ hholds
  · have haside := h.aside p hstack
    rw [hp] at haside
    cases haside with
    | saved _ _ _ _ hholds => exact hholds

theorem Good.owner_update (h : Good m) (q p : Pid) : Function.update m.owner q q p = p := by
  by_cases hp : p = q
  · rw [hp, Function.update_self]
  · rw [Function.update_of_ne hp, h.owner]

theorem Holds.same {p : Pid} {esp ebp : Int} (h : m.Holds p esp ebp)
    (hpcb : m'.kernel.pcb p = m.kernel.pcb p) (howner : m'.owner p = p) : m'.Holds p esp ebp :=
  ⟨by rw [hpcb]; exact h.1, by rw [hpcb]; exact h.2.1, howner⟩

theorem Aside.same {p : Pid} {l : List Activation} (h : m.Aside p l)
    (hpcb : m'.kernel.pcb p = m.kernel.pcb p) (howner : m'.owner p = p) : m'.Aside p l := by
  cases h with
  | none => exact .none
  | entered => exact .entered
  | saved cur nxt esp ebp h => exact .saved cur nxt esp ebp (h.same hpcb howner)

@[simp] theorem setFrames_self (m : Cpu) (p : Pid) (l : List Activation) :
    (m.setFrames p l).frames p = l := by
  simp [setFrames]

theorem setFrames_of_ne (m : Cpu) {p q : Pid} (l : List Activation) (h : q ≠ p) :
    (m.setFrames p l).frames q = m.frames q := by
  simp [setFrames, Function.update_of_ne h]

/-- A load of the context with which the handler stopped on a stack clears the stack. -/
theorem afterReturn_self (cur nxt : Pid) (esp ebp : Int) :
    afterReturn esp ebp [.saved cur nxt esp ebp] = some [] := by
  simp [afterReturn, Activation.stoppedAt]

/-- What the load of a saved context finds, on a stack that is not in use. -/
theorem Aside.afterReturn {p : Pid} {l : List Activation} (h : m.Aside p l)
    (hsaved : l.any Activation.isSaved) :
    Cpu.afterReturn (m.kernel.pcb p).currentEsp (m.kernel.pcb p).currentEbp l = some [] := by
  cases h with
  | none => cases hsaved
  | entered => cases hsaved
  | saved cur nxt esp ebp h => rw [h.1, h.2.1, afterReturn_self]

/-! ## The steps -/

theorem Good.tick (h : Good m) (hok : m.Undisturbed .tick) (hs : m.step L .tick = some m') :
    Good m' := by
  have hhere := h.here
  unfold step at hs
  dsimp only at hs
  split at hs
  · rename_i hintr
    cases hs
    have hnil : m.frames m.stack = [] ∧ m.stack = m.kernel.curr := by
      unfold Undisturbed at hok
      generalize m.frames m.stack = l at hhere hok
      cases hhere with
      | outside hcurr => exact ⟨rfl, hcurr⟩
      | entered hcurr hi => rw [hi] at hintr; cases hintr
      | switched => simp [Activation.inWindow] at hok
      | saved => simp [Activation.inWindow] at hok
    constructor
    · exact h.ids.same (Kernel.cli_tables _)
    · exact h.owner
    · simp only [setFrames, Function.update_self, hnil.1]
      exact .entered hnil.2 rfl
    · intro p hp
      have hp : p ≠ m.stack := hp
      rw [setFrames_of_ne _ _ hp]
      exact (h.aside p hp).same rfl (h.owner p)
  · cases hs

/-- The handler finds the process of its stack running and switches to another one. -/
theorem Good.select (h : Good m) (hcurr : m.stack = m.kernel.curr) {k : Kernel}
    (hk : Kernel.SameTables m.kernel k) (hs : m.select L [] k = some m') : Good m' := by
  have hids := h.ids.same hk
  obtain ⟨nxt, hnxt, hs⟩ := Option.bind_eq_some_iff.mp hs
  obtain ⟨t, -, hnxt⟩ := Option.bind_eq_some_iff.mp hnxt
  rw [Kernel.switchTo_result, Option.map_some] at hs
  cases hs
  have hid : (k.pcb nxt).pid = nxt := hids.tCurr t nxt hnxt
  have hpcb : (Kernel.switched L nxt k).pcb = m.kernel.pcb := hk.pcb
  constructor
  · have hnamed : ∀ p, (Kernel.switched L nxt k).Named p ↔ k.Named p := fun p => Iff.rfl
    refine ⟨hids.tCurr, fun _ => ?_, hids.parent⟩
    show (Kernel.switched L nxt k).Named (k.pcb nxt).pid
    rw [hid, hnamed]
    exact hid
  · exact h.owner
  · simp only [setFrames, Function.update_self]
    have hswitched : (Kernel.switched L nxt k).curr = nxt := hid
    have hcur : k.curr = m.stack := hk.curr.trans hcurr.symm
    rw [hcur]
    have hhere := Here.switched (m := { m with kernel := Kernel.switched L nxt k }.setFrames
      m.stack [.switched m.stack nxt])
    simp only [setFrames, hswitched] at hhere
    exact hhere
  · intro p hp
    have hp : p ≠ m.stack := hp
    rw [setFrames_of_ne _ _ hp]
    exact (h.aside p hp).same (congrFun hpcb p) (h.owner p)

/-- The handler leaves its stack for the new shell of terminal 0. -/
theorem Good.launch (h : Good m) (hframes : m.frames m.stack = [.entered]) (env : Kernel.Env)
    (pid : Pid) (args : List UInt8) :
    let k := Kernel.launched env pid 0 ((m.kernel.clear).cli.withArgs args)
    Good ({ m with kernel := k, stack := k.curr, owner := Function.update m.owner k.curr k.curr
      }.setFrames k.curr []) := by
  intro k
  have hcurr : k.curr = pid := Kernel.launched_curr ..
  rw [hcurr]
  constructor
  · exact (h.ids.same
      ((Kernel.clear_tables _).trans (Kernel.args_tables _ args))).launched env pid 0
  · exact h.owner_update pid
  · simp only [setFrames, Function.update_self]
    exact .outside hcurr.symm
  · intro p hp
    have hp : p ≠ pid := hp
    rw [setFrames_of_ne _ _ hp]
    have hpcb := Kernel.launched_pcb_of_ne env pid 0 ((m.kernel.clear).cli.withArgs args) hp
    by_cases hstack : p = m.stack
    · rw [hstack, hframes]
      exact .entered
    · exact (h.aside p hstack).same hpcb (h.owner_update pid p)

theorem Good.switch (h : Good m) {env : Kernel.Env} (hs : m.step L (.switch env) = some m') :
    Good m' := by
  have hhere := h.here
  unfold step at hs
  dsimp only at hs
  split at hs
  · rename_i below hframes
    rw [hframes] at hhere
    cases hhere with
    | entered hcurr hi =>
      unfold Cpu.switch at hs
      split at hs
      · split at hs
        · rename_i v k he
          cases hs
          -- the handler is left for the new shell
          rcases Kernel.execute_outcome he with ⟨pid, args, v', hpid, -, rfl⟩ | ⟨⟨v', hv⟩, -⟩
          · exact h.launch hframes env pid args
          · cases hv
        · rename_i v k he
          rcases Kernel.execute_outcome he with ⟨pid, args, v', -, hv, -⟩ | ⟨-, hstill, hpcb⟩
          · cases hv
          · have hsame : Kernel.SameTables m.kernel k :=
              ⟨hstill.tCurr, hstill.procState, hstill.curr, hpcb⟩
            exact h.select hcurr hsame hs
        · cases hs
      · exact h.select hcurr ⟨rfl, rfl, rfl, rfl⟩ hs
  · cases hs

theorem Good.save (h : Good m) {esp ebp : Int} (hs : m.step L (.save esp ebp) = some m') :
    Good m' := by
  have hhere := h.here
  unfold step at hs
  dsimp only at hs
  split at hs
  · rename_i cur nxt below hframes
    rw [hframes] at hhere
    cases hhere with
    | switched =>
      cases hs
      have howner := h.owner_update m.stack
      constructor
      · refine h.ids.of_ids rfl rfl fun p => ?_
        by_cases hp : p = m.stack
        · subst hp
          simp [setFrames, Kernel.setPcb]
        · simp [setFrames, Kernel.setPcb, Function.update_of_ne hp]
      · exact howner
      · simp only [setFrames, Function.update_self]
        refine .saved esp ebp ⟨?_, ?_, howner _⟩ <;> simp [Kernel.setPcb]
      · intro p hp
        simp only [setFrames] at hp ⊢
        rw [Function.update_of_ne hp]
        refine (h.aside p hp).same ?_ (howner p)
        simp [Kernel.setPcb, Function.update_of_ne hp]
  · cases hs

/-- The process that the handler has chosen is the current one already. -/
theorem Good.loads_curr (h : Good m) {p : Pid} (hp : m.loads = some p) : p = m.kernel.curr := by
  have hhere := h.here
  unfold loads at hp
  split at hp
  · rename_i cur nxt esp ebp below hframes
    rw [hframes] at hhere
    cases hhere
    cases hp
    rfl
  · cases hp

/-- The load resumes the next process where it was preempted. -/
theorem Good.resume (h : Good m) {p : Pid} (hp : m.loads = some p) (hsaved : m.Preempted p) :
    m.step L .load = some ({ m with kernel := m.kernel.sti, stack := p }.setFrames p []) := by
  have hhere := h.here
  have hcurr := h.loads_curr hp
  unfold loads at hp
  split at hp
  · rename_i cur nxt esp ebp below hframes
    cases hp
    have hclear : afterReturn (m.kernel.pcb p).currentEsp (m.kernel.pcb p).currentEbp
        (m.frames p) = some [] := by
      by_cases hself : p = m.stack
      · rw [hframes] at hhere
        cases hhere with
        | saved _ _ hholds =>
          rw [hself, hframes, hholds.1, hholds.2.1, afterReturn_self]
      · exact (h.aside p hself).afterReturn hsaved
    unfold step
    dsimp only
    rw [hframes]
    dsimp only
    rw [h.owner, hclear, Option.map_some]
  · cases hp

theorem Good.load (h : Good m) (hok : m.Undisturbed .load) (hs : m.step L .load = some m') :
    Good m' := by
  cases hp : m.loads with
  | none =>
    unfold loads at hp
    unfold step at hs
    dsimp only at hs
    split at hs
    · rename_i hframes
      rw [hframes] at hp
      cases hp
    · cases hs
  | some p =>
    have hcurr := h.loads_curr hp
    rw [h.resume hp (hok p hp)] at hs
    cases hs
    constructor
    · exact h.ids.same (Kernel.sti_tables _)
    · exact h.owner
    · simp only [setFrames, Function.update_self]
      exact .outside hcurr
    · intro q hq
      have hq : q ≠ p := hq
      rw [setFrames_of_ne _ _ hq]
      by_cases hstack : q = m.stack
      · have hhere := h.here
        unfold loads at hp
        split at hp
        · rename_i cur nxt esp ebp below hframes
          rw [hframes] at hhere
          cases hhere with
          | saved _ _ hholds =>
            show Aside _ q (m.frames q)
            rw [hstack, hframes]
            exact .saved _ _ esp ebp (hholds.same rfl (h.owner _))
        · cases hp
      · exact (h.aside q hstack).same rfl (h.owner q)

theorem Good.step (h : Good m) {e : TimerEvent} (hok : m.Undisturbed e)
    (hs : m.step L e = some m') : Good m' := by
  cases e with
  | tick => exact h.tick hok hs
  | switch env => exact h.switch hs
  | save esp ebp => exact h.save hs
  | load => exact h.load hok hs

theorem switch_of_running (m : Cpu) (below : List Activation) (env : Kernel.Env)
    (h0 : m.kernel.tCurr 0 ≠ none) : m.switch L below env = m.select L below m.kernel :=
  if_neg h0

theorem select_eq (m : Cpu) (below : List Activation) {k : Kernel} {t : Terminal} {nxt : Pid}
    (ht : k.nextTerminal = some t) (hnxt : k.tCurr t = some nxt) : m.select L below k =
      some ({ m with kernel := Kernel.switched L nxt k }.setFrames m.stack
        (.switched k.curr nxt :: below)) := by
  unfold select
  rw [ht, Option.bind_some, hnxt, Option.bind_some, Kernel.switchTo_result, Option.map_some]

theorem step_save (m : Cpu) {cur nxt : Pid} {below : List Activation} (esp ebp : Int)
    (h : m.frames m.stack = .switched cur nxt :: below) : m.step L (.save esp ebp) =
      some ({ m with
        kernel := m.kernel.saved ⟨[], [], esp, ebp⟩ cur
        owner := Function.update m.owner cur m.stack
        }.setFrames m.stack (.saved cur nxt esp ebp :: below)) := by
  unfold step
  dsimp only
  rw [h]
  rfl

/-- A handler that is not disturbed does what the timer operation of the kernel does, where the
processes of the other terminals have been preempted. -/
theorem tick_refines (h : Good m) {env : Kernel.Env} {k : Kernel} (hrest : m.frames m.stack = [])
    (hintr : m.kernel.intr = true) (h0 : m.kernel.tCurr 0 ≠ none)
    (hothers : ∀ t p, m.kernel.tCurr t = some p → p ≠ m.stack → m.Preempted p)
    (hs : Kernel.step L m.kernel (.tick env) = some k) :
    ∃ m', run (step L) m [.tick, .switch env, .save env.esp env.ebp, .load] = some m' ∧
      m'.kernel = k := by
  obtain ⟨-, s₁, hcode, rfl⟩ := Kernel.step_result L hs
  rcases Kernel.tick_cases L hcode with ⟨-, hsched⟩ | ⟨hnone, -⟩
  swap
  · exact absurd hnone h0
  obtain ⟨t, pid, ht, hpid, rfl⟩ := Kernel.schedule_cases L hsched
  let m₁ : Cpu := { m with kernel := m.kernel.cli }.setFrames m.stack [.entered]
  have htick : m.step L .tick = some m₁ := by
    unfold step
    dsimp only
    rw [if_pos hintr, hrest]
  have hswitch : m₁.step L (.switch env) = m₁.select L [] m₁.kernel := by
    unfold step
    dsimp only
    rw [show m₁.frames m₁.stack = [.entered] from setFrames_self ..]
    exact switch_of_running m₁ [] env h0
  rw [select_eq m₁ [] (k := m₁.kernel) ht hpid] at hswitch
  let m₂ : Cpu := { m₁ with kernel := Kernel.switched L pid m₁.kernel }.setFrames m₁.stack
    [.switched m₁.kernel.curr pid]
  have hsave := step_save (L := L) m₂ env.esp env.ebp (setFrames_self ..)
  have hquiet : m.Undisturbed .tick := by
    rw [Undisturbed, hrest]
    rfl
  have hgood := ((h.tick hquiet htick).switch hswitch).save hsave
  let m₃ : Cpu := { m₂ with
    kernel := m₂.kernel.saved ⟨[], [], env.esp, env.ebp⟩ m₁.kernel.curr
    owner := Function.update m₂.owner m₁.kernel.curr m₂.stack
    }.setFrames m₂.stack [.saved m₁.kernel.curr pid env.esp env.ebp]
  have hframes : m₃.frames m.stack = [.saved m₁.kernel.curr pid env.esp env.ebp] :=
    setFrames_self ..
  have hloads : m₃.loads = some pid := by
    unfold loads
    rw [show m₃.frames m₃.stack = [.saved m₁.kernel.curr pid env.esp env.ebp] from hframes]
  have hsaved : m₃.Preempted pid := by
    unfold Preempted
    by_cases hself : pid = m.stack
    · rw [hself, hframes]
      rfl
    · have hother : m₃.frames pid = m.frames pid := by
        simp [m₃, m₂, m₁, setFrames, Function.update_of_ne hself]
      rw [hother]
      exact hothers t pid hpid hself
  have hload : m₃.step L .load =
      some ({ m₃ with kernel := m₃.kernel.sti, stack := pid }.setFrames pid []) :=
    hgood.resume hloads hsaved
  refine ⟨{ m₃ with kernel := m₃.kernel.sti, stack := pid }.setFrames pid [], ?_, rfl⟩
  rw [run_cons, htick, Option.bind_some, run_cons, hswitch, Option.bind_some, run_cons, hsave,
    Option.bind_some, run_cons, hload, Option.bind_some, run_nil]

/-! ## Runs -/

theorem good_start {k : Kernel} (h : k.IdsOk) (stopped : Pid → Bool) : Good (start k stopped) := by
  refine ⟨h, fun _ => rfl, ?_, fun p hp => ?_⟩
  · have hnil : (start k stopped).frames (start k stopped).stack = [] :=
      if_neg fun hstopped => hstopped.2 rfl
    rw [hnil]
    exact .outside rfl
  · unfold start
    dsimp only
    split
    · exact .saved _ _ _ _ ⟨rfl, rfl, rfl⟩
    · exact .none

/-- **Preemption.** While no tick comes between `sti` and load, and what is loaded has been saved,
every saved context stays in its control block, and every load resumes the next process where it
was preempted. -/
theorem preempted_intact {fs : FileSys} {ops : List Kernel.Op} {k : Kernel}
    (hk : run (Kernel.step L) (Kernel.boot L fs) ops = some k) {stopped : Pid → Bool}
    {evs : List TimerEvent} (h : Path (step L) Undisturbed (start k stopped) evs m) :
    m.Intact ∧ ∀ p, m.loads = some p → m.Preempted p →
      ∃ m', m.step L .load = some m' ∧ m'.stack = p ∧ m'.Resumed := by
  have hids := run_invariant Kernel.IdsOk (fun _ _ _ h hs => h.step L hs) hk
    (Kernel.idsOk_boot L fs)
  have hgood := h.invariant Good (fun _ _ _ h hok hs => h.step hok hs) (good_start hids stopped)
  exact ⟨hgood.intact, fun p hp hsaved =>
    ⟨_, hgood.resume hp hsaved, rfl, hgood.loads_curr hp, setFrames_self ..⟩⟩

instance (m : Cpu) (e : TimerEvent) : Decidable (m.Undisturbed e) :=
  match e with
  | .tick => inferInstanceAs (Decidable (_ = true))
  | .load => inferInstanceAs (Decidable (∀ p : Pid, m.loads = some p → _ = true))
  | .switch _ | .save _ _ => inferInstanceAs (Decidable True)

/-- Process 1 has been preempted in favour of process 0, and they take turns. -/
theorem preempted_intact_turns : ∃ k m m',
    run (Kernel.step someLayout) (Kernel.boot someLayout .shellOnly)
      [.boot .zero, .tick .zero, .key .zero 56, .key .zero 60, .tick .zero] = some k ∧
    Path (step someLayout) Undisturbed (start k fun p => p = 1)
      [.tick, .switch .zero, .save 3 4, .load, .tick, .switch .zero, .save 5 6] m ∧
    m.frames 0 = [.saved 0 1 3 4] ∧ m.frames 1 = [.saved 1 0 5 6] ∧ m.Intact ∧
    m.step someLayout .load = some m' ∧ m'.stack = 0 ∧ m'.Resumed := by
  obtain ⟨⟨k, m⟩, hkm, hframes0, hframes1, hloads, hsaved⟩ := exists_of_map_decide
    (fun x : Kernel × Cpu => x.2.frames 0 = [.saved 0 1 3 4] ∧ x.2.frames 1 = [.saved 1 0 5 6] ∧
      x.2.loads = some 0 ∧ (x.2.frames 0).any Activation.isSaved = true)
    (x := (run (Kernel.step someLayout) (Kernel.boot someLayout .shellOnly)
      [.boot .zero, .tick .zero, .key .zero 56, .key .zero 60, .tick .zero]).bind fun k =>
        (guardedRun (step someLayout) Undisturbed (start k fun p => p = 1)
          [.tick, .switch .zero, .save 3 4, .load, .tick, .switch .zero, .save 5 6]).map
            fun m => (k, m)) (by decide +kernel)
  obtain ⟨k', hk, hkm⟩ := Option.bind_eq_some_iff.mp hkm
  obtain ⟨m', hm, hkm⟩ := Option.map_eq_some_iff.mp hkm
  cases hkm
  have hpath := path_of_guardedRun hm
  obtain ⟨hintact, hload⟩ := preempted_intact hk hpath
  obtain ⟨m', hs, hstack, hresumed⟩ := hload 0 hloads hsaved
  exact ⟨k, m, m', hk, hpath, hframes0, hframes1, hintact, hs, hstack, hresumed⟩

/-- A tick behind `sti`: the second handler saves the stack of process 1 to the control block
of process 0, where the context of process 0 waits. -/
theorem context_lost : ∃ k m,
    run (Kernel.step someLayout) (Kernel.boot someLayout .shellOnly)
      [.boot .zero, .tick .zero, .key .zero 56, .key .zero 60, .tick .zero] = some k ∧
    run (step someLayout) (start k fun p => p = 1)
      [.tick, .switch .zero, .save 3 4, .load, .tick, .switch .zero, .tick, .switch .zero,
        .save 5 6] = some m ∧ ¬ m.Intact := by
  obtain ⟨⟨k, m⟩, hkm, hframes, hesp⟩ := exists_of_map_decide
    (fun x : Kernel × Cpu => x.2.frames 0 = [.saved 0 1 3 4] ∧ (x.2.kernel.pcb 0).currentEsp = 5)
    (x := (run (Kernel.step someLayout) (Kernel.boot someLayout .shellOnly)
      [.boot .zero, .tick .zero, .key .zero 56, .key .zero 60, .tick .zero]).bind fun k =>
        (run (step someLayout) (start k fun p => p = 1)
          [.tick, .switch .zero, .save 3 4, .load, .tick, .switch .zero, .tick, .switch .zero,
            .save 5 6]).map fun m => (k, m))
    (by decide +kernel)
  obtain ⟨k', hk, hkm⟩ := Option.bind_eq_some_iff.mp hkm
  obtain ⟨m', hm, hkm⟩ := Option.map_eq_some_iff.mp hkm
  cases hkm
  refine ⟨k, m, hk, hm, fun hintact => ?_⟩
  have hholds := (hintact 0 0 1 3 4 [] hframes).1
  dsimp only at hesp
  rw [hesp] at hholds
  cases hholds

end Cpu

end OS391
