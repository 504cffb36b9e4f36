import OS391.DescriptorTable

/-! The descriptor table of a new process. `pcb_init` clears the flags and leaves the bitmap,
so a fresh table is what the earlier owners of the control block have left. -/

namespace OS391
open Library Library.Runs Library.Bytes

namespace Pcb

/-- Every bit of the bitmap is backed by a flag, which `halt` will find. -/
def Backed (p : Pcb) : Prop := ∀ i, 2 ≤ i → i < 8 → p.bitmap i ≠ 0 → (p.fileArray i).flag ≠ 0

/-- By both records, the open descriptors are those below `n`. -/
def OpenBelow (p : Pcb) (n : Nat) : Prop :=
  ∀ i < 8, (p.bitmap i ≠ 0 ↔ i < n) ∧ ((p.fileArray i).flag ≠ 0 ↔ i < n)

theorem OpenBelow.congr {p q : Pcb} {n : Nat} (h : p.OpenBelow n)
    (hf : q.fileArray = p.fileArray) (hb : q.bitmap = p.bitmap) : q.OpenBelow n := by
  intro i hi
  rw [hf, hb]
  exact h i hi

/-- Whatever `fd` is, `close` takes a bit away with its flag, or a bit alone. -/
theorem Backed.close {p : Pcb} (h : p.Backed) (fd : Int) : (p.close fd).2.Backed := by
  intro i hlo hi hb
  unfold Pcb.close at hb ⊢
  split_ifs at hb ⊢ with hrange hclosed
  · exact h i hlo hi hb
  · exact h i hlo hi hb
  · by_cases hifd : i = fd.toNat
    · rw [hifd] at hb
      simp at hb
    · simp only [Function.update_of_ne hifd] at hb ⊢
      unfold clearFlagAt at hb ⊢
      split_ifs at hb ⊢
      · simp only [Function.update_of_ne hifd]
        exact h i hlo hi hb
      · by_cases hi6 : i = 7 * (fd.toNat - fdescSize) + 6
        · simp [hi6] at hb
        · simp only [Function.update_of_ne hi6] at hb
          exact h i hlo hi hb

theorem AllClosed.openBelow {p : Pcb} (h : p.AllClosed) (pid : Pid) :
    (p.initFiles pid).OpenBelow 2 := by
  intro i hi
  by_cases h0 : i = 0
  · simp [h0, Pcb.initFiles]
  by_cases h1 : i = 1
  · simp [h1, Pcb.initFiles]
  have hb := h i (by omega) hi
  have hlo : ¬ i < 2 := by omega
  simp [Pcb.initFiles, h0, h1, hi, hb, hlo]

theorem OpenBelow.opened {p : Pcb} {n : Nat} (h : p.OpenBelow n) (d : Dentry) :
    (Kernel.opened d n p).OpenBelow (n + 1) := by
  intro i hi
  by_cases hin : i = n
  · subst hin
    simp [Kernel.opened, Kernel.openDesc]
  · have hlt : i < n + 1 ↔ i < n := by omega
    simpa [Kernel.opened, Function.update_of_ne hin, hlt] using h i hi

theorem OpenBelow.advanced {p : Pcb} {n : Nat} (h : p.OpenBelow n) (j k : Nat) :
    (Kernel.advanced j k p).OpenBelow n := by
  intro i hi
  refine ⟨(h i hi).1, ?_⟩
  by_cases hij : i = j
  · subst hij
    simpa [Kernel.advanced] using (h i hi).2
  · simpa [Kernel.advanced, Function.update_of_ne hij] using (h i hi).2

/-- The search of `open` finds the first descriptor above. -/
theorem OpenBelow.find {p : Pcb} {n : Nat} (h : p.OpenBelow n) (hlo : 2 ≤ n) (hn : n < 8) :
    ([2, 3, 4, 5, 6, 7].find? fun i => p.bitmap i = 0) = some n := by
  have hrange : ∀ i, i ∈ [2, 3, 4, 5, 6, 7] ↔ 2 ≤ i ∧ i < 8 := by
    intro i
    simp only [List.mem_cons, List.not_mem_nil, or_false]
    omega
  have hself : p.bitmap n = 0 := by
    by_contra hb
    exact absurd ((h n hn).1.mp hb) (Nat.lt_irrefl n)
  cases hfind : [2, 3, 4, 5, 6, 7].find? fun i => p.bitmap i = 0 with
  | none =>
    have hused := List.find?_eq_none.mp hfind n ((hrange n).mpr ⟨hlo, hn⟩)
    exact absurd (decide_eq_true hself) hused
  | some i =>
    have hi := (hrange i).mp (List.mem_of_find?_eq_some hfind)
    have hfree : p.bitmap i = 0 := by simpa using List.find?_some hfind
    have hge : ¬ i < n := fun hlt => (h i hi.2).1.mpr hlt hfree
    have hle : ¬ n < i := by
      intro hlt
      have hleast := Library.Tables.find?_least (by decide) hfind ((hrange n).mpr ⟨hlo, hn⟩) hlt
      exact absurd hself (of_decide_eq_false hleast)
    rw [Option.some_inj]
    omega

end Pcb

namespace Kernel

variable (L : Layout) {s s' : Kernel}

theorem backed_records : Records Pcb.Backed where
  congr h hf hb := by
    rw [Pcb.Backed, hf, hb]
    exact h
  init {p} pid h := by
    intro i hlo hi hb
    have h0 : i ≠ 0 := by omega
    have h1 : i ≠ 1 := by omega
    have hzero := h i hlo hi
    simp [Pcb.initFiles, h0, h1, hzero] at hb
  opened {p} d {i} h hlo := by
    intro j hj hj8 hb
    by_cases hji : j = i
    · simp [opened, openDesc, hji]
    · simp only [opened, Function.update_of_ne hji] at hb ⊢
      exact h j hj hj8 hb
  advanced {p} i n h := by
    intro j hj hj8 hb
    have hflag := h j hj hj8 hb
    by_cases hji : j = i
    · subst hji
      simpa [advanced] using hflag
    · simpa [advanced, Function.update_of_ne hji] using hflag
  closeAll {p} h := Pcb.ClosedBelow.closeAll fun i hlo hi hb => ⟨Nat.zero_le i, h i hlo hi hb⟩

/-! ## New processes -/

/-- The processes that run when the operation comes to `execute`: `halt` has ended its own. -/
def running (s : Kernel) : Op → Pid → Bool
  | .halt _ => Function.update s.procState s.cur.pid false
  | _ => s.procState

/-- The operation has created a process, which runs now. -/
def Creates (s : Kernel) (op : Op) (s' : Kernel) : Prop :=
  s.running op s'.curr = false ∧ s'.procState s'.curr = true

/-- Of the processes that run, those that did not before have fresh tables. -/
def Fresh (before : Pid → Bool) (s : Kernel) : Prop :=
  ∀ p, before p = false → s.procState p = true → (s.pcb p).OpenBelow 2

theorem fresh_kept (before : Pid → Bool) :
    Kept L fun s => TablesWith Pcb.Backed s ∧ Fresh before s where
  same {s s'} h hs := by
    refine ⟨(TablesWith.kept (L := L) backed_records).same h.1 hs, fun p hp hrun => ?_⟩
    rw [hs.pcb]
    exact h.2 p hp (hs.procState ▸ hrun)
  launched {s} env pid t h hpid := by
    refine ⟨h.1.launched backed_records env t hpid, fun p hp hrun => ?_⟩
    by_cases hne : p = pid
    · subst hne
      obtain ⟨pe, pb, ce, cb, hpcb⟩ := launched_pcb env p t s
      rw [hpcb]
      exact ((h.1.dead p (getPid_eq_some.mp hpid).1).openBelow p).congr rfl rfl
    · rw [launched_procState, Function.update_of_ne hne] at hrun
      rw [launched_pcb_of_ne env pid t s hne]
      exact h.2 p hp hrun
  halted {s} h hst := by
    refine ⟨h.1.halted backed_records hst, fun p hp hrun => ?_⟩
    have hid : s.cur.pid = s.curr := h.1.ids.current hst
    rw [halted_procState, hid] at hrun
    by_cases hne : p = s.curr
    · simp [hne] at hrun
    · rw [Function.update_of_ne hne] at hrun
      have hpcb : s.halted.pcb p = s.pcb p := Function.update_of_ne hne ..
      rw [hpcb]
      exact h.2 p hp hrun
  switched {s t pid} env h hpid := by
    refine ⟨(TablesWith.kept backed_records).switched env h.1 hpid, fun p hp hrun => ?_⟩
    have hwords := saved_words (switched L pid s) env s.curr p
    exact (h.2 p hp hrun).congr hwords.1 hwords.2

/-- A process that an operation has created has a fresh table. -/
theorem Creates.fresh (h : TablesWith Pcb.Backed s) {op : Op} (hs : step L s op = some s')
    (hnew : s.Creates op s') : s'.cur.OpenBelow 2 := by
  by_cases hhalt : ∃ env, op = .halt env
  · obtain ⟨env, rfl⟩ := hhalt
    obtain ⟨hst, s₁, hs₁, rfl⟩ := step_result L hs
    have hkept := fresh_kept L s.halted.procState
    have hhalted : TablesWith Pcb.Backed s.halted ∧ Fresh s.halted.procState s.halted := by
      refine ⟨h.halted backed_records hst, fun p hp hrun => ?_⟩
      rw [hrun] at hp
      cases hp
    have hfresh : Fresh s.halted.procState s₁ := by
      rcases halt_cases hs₁ with ⟨-, -, rfl⟩ | ⟨-, v, he⟩
      · exact (hkept.same hhalted ⟨rfl, rfl, rfl, rfl⟩).2
      · exact (hkept.execute hhalted he).2
    exact hfresh _ hnew.1 hnew.2
  · have hrunning : s.running op = s.procState := by
      cases op with
      | halt env => exact absurd ⟨env, rfl⟩ hhalt
      | _ => rfl
    by_cases hop : OnFiles op
    · obtain ⟨-, s₁, hs₁, rfl⟩ := step_result L hs
      have hproc : s₁.sti.procState = s.procState := (h.ids.files L hop hs₁).2
      have hold := hnew.1
      rw [hrunning, ← hproc, hnew.2] at hold
      cases hold
    · have hfresh := (fresh_kept L s.procState).step
        ⟨h, fun p hp hrun => by rw [hrun] at hp; cases hp⟩
        (fun s₁ hfile _ => absurd hfile hop) hs
      exact hfresh.2 _ (hrunning ▸ hnew.1) hnew.2

/-! ## The first opens of a process -/

/-- What the process `pid` gets from an `open` of a file that exists. -/
def opensOf (pid : Pid) (s : Kernel) : Op → Option Int
  | .openFile filename =>
    if s.curr = pid ∧ (filename.bind s.fs.readDentryByName).join ≠ none then
      (s.openFile filename).map Prod.fst
    else none
  | _ => none

theorem opensOf_eq {pid : Pid} {filename : Option (List UInt8)} {d : Dentry} {r : Int}
    (hcurr : s.curr = pid) (hd : (filename.bind s.fs.readDentryByName).join = some d)
    (hr : s.openFile filename = some (r, s')) : s.opensOf pid (.openFile filename) = some r := by
  have hexists : (filename.bind s.fs.readDentryByName).join ≠ none := by
    rw [hd]
    exact Option.some_ne_none d
  rw [opensOf, if_pos ⟨hcurr, hexists⟩, hr, Option.map_some]

def notedOpens (pid : Pid) (results : List Int) (s : Kernel) (op : Op) : List Int :=
  results ++ (s.opensOf pid op).toList

/-- The process `pid` neither closes anything nor ends. -/
def Holds (pid : Pid) (s : Kernel) : Op → Prop
  | .close _ | .halt _ => s.curr ≠ pid
  | _ => True

/-- The process runs, and the descriptors below `n` are open in it. -/
structure Opened (pid : Pid) (n : Nat) (s : Kernel) : Prop where
  ids : IdsOk s
  runs : s.procState pid = true
  table : (s.pcb pid).OpenBelow n

variable {pid : Pid} {n : Nat}

theorem Opened.of_words (h : Opened pid n s) (hids : IdsOk s') (hproc : s'.procState = s.procState)
    (hf : (s'.pcb pid).fileArray = (s.pcb pid).fileArray)
    (hb : (s'.pcb pid).bitmap = (s.pcb pid).bitmap) : Opened pid n s' :=
  ⟨hids, by rw [hproc]; exact h.runs, h.table.congr hf hb⟩

theorem opened_carried (pid : Pid) (n : Nat) :
    Carried L fun s s' => Opened pid n s → Opened pid n s' := by
  refine carried_of_same (fun h hs => ?_) (fun {s} env q t h hq => ?_) fun {s t q} env h hq => ?_
  · exact h.of_words (h.ids.same hs) hs.procState (by rw [hs.pcb]) (by rw [hs.pcb])
  · have hne : pid ≠ q := by
      rintro rfl
      have hfree := (getPid_eq_some.mp hq).1
      rw [h.runs] at hfree
      cases hfree
    refine ⟨h.ids.launched env q t, ?_, ?_⟩
    · rw [launched_procState, Function.update_of_ne hne]
      exact h.runs
    · rw [launched_pcb_of_ne env q t s hne]
      exact h.table
  · have hwords := saved_words (switched L q s) env s.curr pid
    exact h.of_words ((idsOk_kept L).switched env h.ids hq) rfl hwords.1 hwords.2

/-- The end of another process. -/
theorem Opened.halted (h : Opened pid n s) (hst : s.started) (hne : s.curr ≠ pid) :
    Opened pid n s.halted := by
  have hid : s.cur.pid = s.curr := h.ids.current hst
  have hpcb : s.halted.pcb pid = s.pcb pid := Function.update_of_ne hne.symm ..
  refine ⟨h.ids.halted hst, ?_, by rw [hpcb]; exact h.table⟩
  rw [halted_procState, hid, Function.update_of_ne hne.symm]
  exact h.runs

/-- A call of the current process that changes its own table alone. -/
theorem Opened.of_cur (h : Opened pid n s) {op : Op} (hop : OnFiles op)
    (hs : (code L op).result s = some ((), s')) {f : Pcb → Pcb}
    (hpcb : s'.pcb = (s.setPcb s.curr f).pcb) {m : Nat}
    (hf : s.curr = pid → s.cur.OpenBelow n → (f s.cur).OpenBelow m) (hm : s.curr ≠ pid → m = n) :
    Opened pid m s' := by
  obtain ⟨hids, hproc⟩ := h.ids.files L hop hs
  refine ⟨hids, by rw [hproc]; exact h.runs, ?_⟩
  rw [hpcb]
  by_cases hcurr : s.curr = pid
  · subst hcurr
    have hself : (s.setPcb s.curr f).pcb s.curr = f s.cur := Function.update_self ..
    rw [hself]
    exact hf rfl h.table
  · have hother : (s.setPcb s.curr f).pcb pid = s.pcb pid :=
      Function.update_of_ne (Ne.symm hcurr) ..
    rw [hother, hm hcurr]
    exact h.table

/-- Operations that are not an `open` of the process itself. -/
theorem Opened.step (h : Opened pid n s) {op : Op} (hok : s.Holds pid op)
    (hnone : s.opensOf pid op = none) (hs : step L s op = some s') : Opened pid n s' := by
  refine (opened_carried L pid n).step (fun hhalt hst h => ?_) (fun s₁ hop hs₁ h => ?_) hs h
  · obtain ⟨env, rfl⟩ := hhalt
    exact h.halted hst hok
  have hid (hpcb : s₁.pcb = s.pcb) : s₁.pcb = (s.setPcb s.curr id).pcb := by
    rw [hpcb, setPcb_eq_self rfl]
  cases op with
  | openFile filename =>
    obtain ⟨r, hr⟩ := openFile_code hs₁
    rcases openFile_cases hr with ⟨-, rfl⟩ | ⟨name, d, i, rfl, hd, -, -, -, hstate⟩
    · exact h
    · have hpcb : s₁.pcb = (s.setPcb s.curr (opened d i)).pcb := by rw [hstate]
      have hjoin : ((some name).bind s.fs.readDentryByName).join = some d := by
        rw [Option.bind_some, hd, Option.join_some]
      have hne : s.curr ≠ pid := fun hcurr =>
        Option.some_ne_none r ((opensOf_eq hcurr hjoin hr).symm.trans hnone)
      exact h.of_cur L hop hs₁ hpcb (fun hcurr => absurd hcurr hne) fun _ => rfl
  | close fd =>
    cases hs₁
    have hclosed : (code L (.close fd)).result s = some ((), (s.close fd).2) := rfl
    exact h.of_cur L hop hclosed rfl (fun hcurr => absurd hcurr hok) fun _ => rfl
  | read fd buf nbytes =>
    obtain ⟨r, hr⟩ := read_code hs₁
    rcases read_pcb hr with hpcb | ⟨i, k, hpcb⟩
    · exact h.of_cur L hop hs₁ (hid hpcb) (fun _ ht => ht) fun _ => rfl
    · exact h.of_cur L hop hs₁ hpcb (fun _ ht => ht.advanced i k) fun _ => rfl
  | write fd buf nbytes =>
    obtain ⟨r, hr⟩ := write_code hs₁
    have hpcb : s₁.pcb = s.pcb := by rw [write_frame hr]
    exact h.of_cur L hop hs₁ (hid hpcb) (fun _ ht => ht) fun _ => rfl
  | _ => exact hop.elim

/-- An `open` of the process itself takes the next descriptor, or none is left. -/
theorem Opened.openFile (h : Opened s.curr n s) (hlo : 2 ≤ n) (hn : n ≤ 8)
    {filename : Option (List UInt8)} {r : Int}
    (hopens : s.opensOf s.curr (.openFile filename) = some r)
    (hs : Kernel.step L s (.openFile filename) = some s') :
    (n < 8 → r = n) ∧ Opened s.curr (min (n + 1) 8) s' := by
  obtain ⟨-, s₁, hs₁, rfl⟩ := step_result L hs
  obtain ⟨r', hr⟩ := openFile_code hs₁
  cases hjoin : (filename.bind s.fs.readDentryByName).join with
  | none =>
    rw [opensOf, if_neg fun hopen => hopen.2 hjoin] at hopens
    cases hopens
  | some d =>
  obtain ⟨name, rfl, hd⟩ := Option.bind_eq_some_iff.mp (Option.join_eq_some_iff.mp hjoin)
  have hret : r' = r := Option.some.inj ((opensOf_eq rfl hjoin hr).symm.trans hopens)
  suffices hmid : (n < 8 → r' = n) ∧ Opened s.curr (min (n + 1) 8) s₁ from
    ⟨fun hlt => hret ▸ hmid.1 hlt,
      hmid.2.of_words (hmid.2.ids.same (sti_tables s₁)) rfl rfl rfl⟩
  by_cases hlt : n < 8
  · have htable : s.cur.OpenBelow n := h.table
    have hfree := openFile_free hd (htable.find hlo hlt)
    obtain ⟨hr', hstate⟩ := Prod.mk.inj (Option.some.inj (hr.symm.trans hfree))
    have hpcb : s₁.pcb = (s.setPcb s.curr (opened d n)).pcb := by rw [hstate]
    refine ⟨fun _ => hr', ?_⟩
    rw [Nat.min_eq_left (by omega)]
    have hop : OnFiles (.openFile (some name)) := trivial
    exact h.of_cur L hop hs₁ hpcb (fun _ ht => ht.opened d) fun hne => absurd rfl hne
  · refine ⟨fun hlt' => absurd hlt' hlt, ?_⟩
    rw [show min (n + 1) 8 = n by omega]
    rcases openFile_cases hr with ⟨-, rfl⟩ | ⟨-, -, i, -, -, hi, hfree, -⟩
    · exact h
    · exact absurd hfree ((h.table i hi.2).1.mpr (by omega))

/-- What a run of the process keeps: its first six opens have returned 2, 3, 4 and so on. -/
def InOrder (results : List Int) : Prop :=
  ∀ (k : Nat) (r : Int), k < 6 → results[k]? = some r → r = 2 + k

theorem inOrder_append {results : List Int} {r : Int} (h : InOrder results)
    (hr : results.length < 6 → r = 2 + results.length) : InOrder (results ++ [r]) := by
  intro k r' hk hget
  by_cases hlt : k < results.length
  · rw [List.getElem?_append_left hlt] at hget
    exact h k r' hk hget
  · have hle := (List.getElem?_eq_some_iff.mp hget).1
    rw [List.length_append, List.length_singleton] at hle
    have hkl : k = results.length := by omega
    subst hkl
    rw [List.getElem?_concat_length] at hget
    cases hget
    exact hr hk

/-- Every descriptor taken is backed by its flag, at any time. -/
theorem backed_run {fs : FileSys} {ops : List Op} (hrun : run (step L) (boot L fs) ops = some s) :
    TablesWith Pcb.Backed s := by
  have hinv := run_invariant (fun s => TablesWith Pcb.Backed s ∧ LiveOk s)
    (fun s op s' ⟨h, hlive⟩ hs =>
      ⟨h.step L backed_records hlive (fun fd _ hb => hb.close fd) hs, hlive.step L hs⟩)
    hrun ⟨TablesWith.atBoot fs, liveOk_boot L fs⟩
  exact hinv.1

/-- The opens so far have returned 2, 3, 4 and so on, and as many descriptors are taken. -/
structure Numbered (pid : Pid) (x : Kernel × List Int) : Prop where
  opened : Opened pid (min (2 + x.2.length) 8) x.1
  inOrder : InOrder x.2

theorem Numbered.step {pid : Pid} {x x' : Kernel × List Int} (h : Numbered pid x) {op : Op}
    (hok : x.1.Holds pid op) (hx : recorded (Kernel.step L) (notedOpens pid) x op = some x') :
    Numbered pid x' := by
  obtain ⟨s, results⟩ := x
  obtain ⟨s', results'⟩ := x'
  obtain ⟨hs, rfl⟩ := (recorded_eq_some (Kernel.step L) (notedOpens pid)).mp hx
  obtain ⟨hopened, horder⟩ := h
  dsimp only at hopened horder hok hs
  cases hopens : s.opensOf pid op with
  | none =>
    rw [notedOpens, hopens, Option.toList_none, List.append_nil]
    exact ⟨hopened.step L hok hopens hs, horder⟩
  | some r =>
    rw [notedOpens, hopens, Option.toList_some]
    cases op with
    | openFile filename =>
      obtain rfl : s.curr = pid := by
        by_contra hne
        rw [opensOf, if_neg fun hopen => hne hopen.1] at hopens
        cases hopens
      obtain ⟨hret, hnext⟩ := hopened.openFile L (by omega) (by omega) hopens hs
      have hlen : (results ++ [r]).length = results.length + 1 := List.length_append
      refine ⟨?_, inOrder_append horder fun (hlt : results.length < 6) => ?_⟩
      · dsimp only
        rw [hlen]
        rwa [show min (min (2 + results.length) 8 + 1) 8 = min (2 + (results.length + 1)) 8 by
          omega] at hnext
      · have hlow : r = (min (2 + results.length) 8 : Nat) := hret (by omega)
        show r = 2 + (results.length : Int)
        omega
    | _ => cases hopens

/-- The next open of a file that exists succeeds. -/
theorem Numbered.next {pid : Pid} {results : List Int} (h : Numbered pid (s, results))
    (hcurr : s.curr = pid) (hlen : results.length < 6) {name : List UInt8} {d : Dentry}
    (hd : s.fs.readDentryByName name = some (some d)) :
    (s.openFile (some name)).map Prod.fst = some (2 + (results.length : Int)) := by
  have htable : s.cur.OpenBelow (min (2 + results.length) 8) := by
    rw [cur, hcurr]
    exact h.opened.table
  have hfind := htable.find (by omega) (by omega)
  rw [openFile_free hd hfind, Option.map_some, Nat.min_eq_left (by omega)]
  rfl

instance createsDecidable (s : Kernel) (op : Op) (s' : Kernel) : Decidable (s.Creates op s') :=
  inferInstanceAs (Decidable (_ ∧ _))

instance holdsDecidable (pid : Pid) (s : Kernel) (op : Op) : Decidable (s.Holds pid op) :=
  match op with
  | .close _ | .halt _ => inferInstanceAs (Decidable (s.curr ≠ pid))
  | .boot _ | .execute _ _ | .tick _ | .key _ _ | .vidmap _ | .openFile _ | .read _ _ _
  | .write _ _ _ | .rtc => isTrue trivial

end Kernel

end OS391
