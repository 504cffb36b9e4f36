import OS391.ProcessIds
import OS391.Library.Tables

/-! The descriptor table of a process as a finite map of open files. That a descriptor is
open is recorded twice, in `bitmap` and in `flag`, and the calls look at either. -/

namespace OS391
open Library Library.Runs Library.Bytes Library.Tables

namespace Pcb

/-- The open files, by descriptor. -/
def files (p : Pcb) (i : Nat) : Option FileDesc :=
  if i < 8 ∧ (p.fileArray i).flag ≠ 0 then some (p.fileArray i) else none

/-- The table of a process: the two records of what is open agree. -/
structure Agree (p : Pcb) : Prop where
  words : ∀ i < 8, p.bitmap i = (p.fileArray i).flag
  reserved : p.bitmap 0 ≠ 0 ∧ p.bitmap 1 ≠ 0

/-- What `pcb_init` finds in a control block that is not in use. -/
def AllClosed (p : Pcb) : Prop := ∀ i, 2 ≤ i → i < 8 → p.bitmap i = 0

theorem files_ne_none {p : Pcb} {i : Nat} (hi : i < 8) :
    p.files i ≠ none ↔ (p.fileArray i).flag ≠ 0 := by
  unfold files
  split_ifs with h
  · simp [h.2]
  · simp only [ne_eq, not_true_eq_false, false_iff]
    exact fun hf => h ⟨hi, hf⟩

theorem Agree.files_eq_none {p : Pcb} (h : p.Agree) {i : Nat} (hi : i < 8) :
    p.files i = none ↔ p.bitmap i = 0 := by
  rw [h.words i hi]
  exact not_iff_not.mp (files_ne_none hi)

/-- Words that make the same table. -/
theorem Agree.congr {p q : Pcb} (h : p.Agree) (hf : q.fileArray = p.fileArray)
    (hb : q.bitmap = p.bitmap) : q.Agree :=
  ⟨fun i hi => by rw [hf, hb]; exact h.words i hi, by rw [hb]; exact h.reserved⟩

theorem AllClosed.initFiles {p : Pcb} (h : p.AllClosed) (pid : Pid) : (p.initFiles pid).Agree := by
  refine ⟨fun i hi => ?_, by simp [Pcb.initFiles]⟩
  by_cases h0 : i = 0
  · simp [h0, Pcb.initFiles]
  by_cases h1 : i = 1
  · simp [h1, Pcb.initFiles]
  have hb := h i (by omega) hi
  simp [Pcb.initFiles, h0, h1, hi, hb]

/-! ## Opening and closing -/

theorem Agree.opened {p : Pcb} (h : p.Agree) (d : Dentry) {i : Nat} (hi : 2 ≤ i) :
    (Kernel.opened d i p).Agree := by
  constructor
  · intro j hj
    by_cases hji : j = i
    · subst hji
      simp [Kernel.opened, Kernel.openDesc]
    · simpa [Kernel.opened, Function.update_of_ne hji] using h.words j hj
  · have h0 : 0 ≠ i := by omega
    have h1 : 1 ≠ i := by omega
    simpa [Kernel.opened, Function.update_of_ne h0, Function.update_of_ne h1] using h.reserved

theorem opened_files (p : Pcb) (d : Dentry) {i : Nat} (hi : i < 8) :
    (Kernel.opened d i p).files =
      Function.update p.files i (some (Kernel.openDesc d (p.fileArray i))) := by
  funext j
  by_cases hji : j = i
  · subst hji
    simp [files, Kernel.opened, Kernel.openDesc, hi]
  · simp [files, Kernel.opened, Function.update_of_ne hji]

theorem Agree.advanced {p : Pcb} (h : p.Agree) (i n : Nat) : (Kernel.advanced i n p).Agree := by
  refine ⟨fun j hj => ?_, h.reserved⟩
  by_cases hji : j = i
  · subst hji
    simpa [Kernel.advanced] using h.words j hj
  · simpa [Kernel.advanced, Function.update_of_ne hji] using h.words j hj

/-- What `close` does to a descriptor in range that is open. -/
theorem close_open {p : Pcb} {i : Nat} (hlo : 2 ≤ i) (hi : i < 8)
    (hopen : (p.fileArray i).flag ≠ 0) : p.close i = (0, { p.clearFlagAt i with
      bitmap := Function.update p.bitmap i 0 }) := by
  have hflag : ¬ p.flagAt i = 0 := by
    rw [flagAt, if_pos hi]
    exact hopen
  have hrange : ¬ ((i : Int) > (fdescSize : Nat) ∨ (i : Int) < (minFiles : Nat)) := by
    simp only [fdescSize, minFiles]
    omega
  unfold close
  rw [if_neg hrange, Int.toNat_natCast, if_neg hflag]
  simp [clearFlagAt, hi]

theorem close_closed {p : Pcb} {fd : Int}
    (h : fd < 2 ∨ 8 < fd ∨ p.flagAt fd.toNat = 0) : p.close fd = (-1, p) := by
  unfold close
  split_ifs with hrange hflag
  · rfl
  · rfl
  · simp only [fdescSize, minFiles] at hrange
    omega

theorem clearFlagAt_files (p : Pcb) {i : Nat} (hi : i < 8) (b : Nat → Nat) :
    ({ p.clearFlagAt i with bitmap := b } : Pcb).files = Function.update p.files i none := by
  funext j
  by_cases hji : j = i
  · subst hji
    simp [files, clearFlagAt, hi]
  · simp [files, clearFlagAt, hi, Function.update_of_ne hji]

theorem Agree.clear {p : Pcb} (h : p.Agree) {i : Nat} (hlo : 2 ≤ i) (hi : i < 8) :
    ({ p.clearFlagAt i with bitmap := Function.update p.bitmap i 0 } : Pcb).Agree := by
  constructor
  · intro j hj
    by_cases hji : j = i
    · subst hji
      simp [clearFlagAt, hi]
    · simpa [clearFlagAt, hi, Function.update_of_ne hji] using h.words j hj
  · have h0 : 0 ≠ i := by omega
    have h1 : 1 ≠ i := by omega
    simpa [Function.update_of_ne h0, Function.update_of_ne h1] using h.reserved

/-- What `close` is to do: close exactly `fd`, if that is an open descriptor that may be closed. -/
def CloseSpec (p : Pcb) (fd : Int) : Prop :=
  if 2 ≤ fd ∧ fd ≤ 7 ∧ p.files fd.toNat ≠ none then
    (p.close fd).1 = 0 ∧ (p.close fd).2.files = Function.update p.files fd.toNat none
  else p.close fd = (-1, p)

/-- `close` does so but for 8, which reads bit 6 of the bitmap as a flag. -/
theorem Agree.closeSpec_iff {p : Pcb} (h : p.Agree) (fd : Int) :
    p.CloseSpec fd ↔ ¬ (fd = 8 ∧ p.files 6 ≠ none) := by
  unfold CloseSpec
  split
  · rename_i hopen
    obtain ⟨i, rfl⟩ := Int.eq_ofNat_of_zero_le (show 0 ≤ fd by omega)
    have hi : i < 8 := by omega
    have hlo : 2 ≤ i := by omega
    rw [close_open hlo hi ((files_ne_none hi).mp hopen.2.2)]
    have hfiles := clearFlagAt_files p hi (Function.update p.bitmap i 0)
    exact ⟨fun _ => by omega, fun _ => ⟨rfl, hfiles⟩⟩
  · rename_i hclosed
    by_cases hfd : fd = 8
    · subst hfd
      have hflag : p.flagAt (8 : Int).toNat = p.bitmap 6 := rfl
      have h6 := h.files_eq_none (i := 6) (by decide)
      by_cases hb : p.bitmap 6 = 0
      · have hclose : p.close 8 = (-1, p) := close_closed (.inr (.inr (hflag.trans hb)))
        exact ⟨fun _ hopen => hopen.2 (h6.mpr hb), fun _ => hclose⟩
      · constructor
        · intro hclose
          have hret : (p.close 8).1 = 0 := by
            unfold close
            rw [if_neg (by decide), hflag, if_neg hb]
          rw [hclose] at hret
          cases hret
        · exact fun hnot => absurd ⟨rfl, mt h6.mp hb⟩ hnot
    · refine ⟨fun _ hopen => hfd hopen.1, fun _ => close_closed ?_⟩
      by_cases hin : 2 ≤ fd ∧ fd ≤ 7
      · obtain ⟨i, rfl⟩ := Int.eq_ofNat_of_zero_le (show 0 ≤ fd by omega)
        have hi : i < 8 := by omega
        have hflag : (p.fileArray i).flag = 0 := by
          by_contra hf
          exact hclosed ⟨hin.1, hin.2, (files_ne_none hi).mpr hf⟩
        right; right
        rw [Int.toNat_natCast, flagAt, if_pos hi, hflag]
      · omega

theorem Agree.close {p : Pcb} (h : p.Agree) {fd : Int} (hfd : ¬ (fd = 8 ∧ p.files 6 ≠ none)) :
    (p.close fd).2.Agree := by
  have hspec := (h.closeSpec_iff fd).mpr hfd
  unfold CloseSpec at hspec
  split at hspec
  · rename_i hopen
    obtain ⟨i, rfl⟩ := Int.eq_ofNat_of_zero_le (show 0 ≤ fd by omega)
    have hi : i < 8 := by omega
    have hlo : 2 ≤ i := by omega
    rw [close_open hlo hi ((files_ne_none hi).mp hopen.2.2)]
    exact h.clear hlo hi
  · rw [hspec]
    exact h

theorem AllClosed.close {p : Pcb} (h : p.AllClosed) (fd : Int) : (p.close fd).2.AllClosed := by
  have hzero : ∀ (b : Nat → Nat) (j : Nat), (∀ i, 2 ≤ i → i < 8 → b i = 0) →
      ∀ i, 2 ≤ i → i < 8 → Function.update b j 0 i = 0 := by
    intro b j hb i hlo hi
    by_cases hij : i = j
    · simp [hij]
    · rw [Function.update_of_ne hij]
      exact hb i hlo hi
  unfold Pcb.close
  split_ifs with hrange hflag
  · exact h
  · exact h
  · refine hzero _ fd.toNat ?_
    unfold clearFlagAt
    split
    · exact h
    · exact hzero _ _ h

/-! ## The end of a process -/

/-- A round clears the flag, and the bit if `close` admits the descriptor. -/
theorem closeRound_eq (p : Pcb) {k : Nat} (hk : k < 8) :
    p.closeRound k = { p with
      fileArray := Function.update p.fileArray k { p.fileArray k with flag := 0 }
      bitmap := if 2 ≤ k ∧ (p.fileArray k).flag ≠ 0 then Function.update p.bitmap k 0
        else p.bitmap } := by
  unfold closeRound
  by_cases hopen : (p.fileArray k).flag ≠ 0
  · rw [if_pos hopen]
    by_cases hlo : 2 ≤ k
    · rw [close_open hlo hk hopen, if_pos ⟨hlo, hopen⟩]
      simp [clearFlagAt, hk]
    · rw [close_closed (.inl (by omega)), if_neg fun hnot => hlo hnot.1]
      simp [clearFlagAt, hk]
  · rw [if_neg hopen, if_neg fun hnot => hopen hnot.2]
    simp [clearFlagAt, hk]

/-- What the rounds of the loop keep, each of them counted. -/
theorem closeAll_invariant {I : Nat → Pcb → Prop}
    (hround : ∀ k q, k < 8 → I k q → I (k + 1) (q.closeRound k)) {p : Pcb} (h : I 0 p) :
    I 8 p.closeAll := by
  have hrounds : ∀ k ≤ 8, I k ((List.range k).foldl closeRound p) := by
    intro k hk
    induction k with
    | zero => exact h
    | succ k ih =>
      rw [List.range_succ, List.foldl_append]
      exact hround k _ (by omega) (ih (by omega))
  exact hrounds 8 (Nat.le_refl 8)

/-- After `k` rounds of its loop, `halt` has closed the descriptors below `k`. -/
def ClosedBelow (p : Pcb) (k : Nat) : Prop :=
  ∀ i, 2 ≤ i → i < 8 → p.bitmap i ≠ 0 → k ≤ i ∧ (p.fileArray i).flag ≠ 0

theorem ClosedBelow.round {p : Pcb} {k : Nat} (h : p.ClosedBelow k) (hk : k < 8) :
    (p.closeRound k).ClosedBelow (k + 1) := by
  intro i hlo hi hb
  rw [closeRound_eq p hk] at hb ⊢
  dsimp only at hb ⊢
  by_cases hik : i = k
  · -- a bit that is still set is one of an open descriptor, and has been cleared
    subst hik
    split_ifs at hb with hopen
    · rw [Function.update_self] at hb
      exact absurd rfl hb
    · exact absurd ⟨hlo, (h i hlo hi hb).2⟩ hopen
  · have hbit : p.bitmap i ≠ 0 := by
      split_ifs at hb with hopen
      · rwa [Function.update_of_ne hik] at hb
      · exact hb
    obtain ⟨hki, hflag⟩ := h i hlo hi hbit
    rw [Function.update_of_ne hik]
    exact ⟨by omega, hflag⟩

theorem ClosedBelow.closeAll {p : Pcb} (h : p.ClosedBelow 0) : p.closeAll.AllClosed := by
  have hall : p.closeAll.ClosedBelow 8 :=
    closeAll_invariant (I := fun k q => q.ClosedBelow k) (fun _ _ hk hq => hq.round hk) h
  intro i hlo hi
  by_contra hb
  have hle := (hall i hlo hi hb).1
  omega

theorem Agree.closeAll {p : Pcb} (h : p.Agree) : p.closeAll.AllClosed :=
  ClosedBelow.closeAll fun i _ hi hb => ⟨Nat.zero_le _, h.words i hi ▸ hb⟩

theorem AllClosed.closeAll {p : Pcb} (h : p.AllClosed) : p.closeAll.AllClosed :=
  ClosedBelow.closeAll fun i hlo hi hb => absurd (h i hlo hi) hb

end Pcb

namespace Kernel

variable (L : Layout)

/-! ## The calls -/

/-- What the calls are to do with the table of the process that makes them: `open` takes the
lowest descriptor that is not open, `close` closes exactly the one it is given, and nothing
happens to, or through, a descriptor that is not open. -/
def Meets (s : Kernel) : Op → Prop
  | .openFile none => s.openFile none = some (-1, s)
  | .openFile (some name) => ∀ d, s.fs.readDentryByName name = some d →
    match d with
    | none => s.openFile (some name) = some (-1, s)
    | some d =>
      ((∀ i, 2 ≤ i → i < 8 → s.cur.files i ≠ none) ∧ s.openFile (some name) = some (-1, s)) ∨
      ∃ (i : Nat) (s' : Kernel), (2 ≤ i ∧ i < 8) ∧ s.openFile (some name) = some ((i : Int), s') ∧
        s.cur.files i = none ∧ (∀ j, 2 ≤ j → j < i → s.cur.files j ≠ none) ∧
        s'.cur.files = Function.update s.cur.files i (some (openDesc d (s.cur.fileArray i)))
  | .close fd =>
    if 2 ≤ fd ∧ fd ≤ 7 ∧ s.cur.files fd.toNat ≠ none then
      (s.close fd).1 = 0 ∧ (s.close fd).2.cur.files = Function.update s.cur.files fd.toNat none
    else s.close fd = (-1, s)
  | .read fd buf nbytes => (fd < 0 ∨ 7 < fd ∨ s.cur.files fd.toNat = none) →
    s.read fd buf nbytes = some (⟨-1, [], 0⟩, s)
  | .write fd buf nbytes => (fd < 0 ∨ 7 < fd ∨ s.cur.files fd.toNat = none) →
    s.write fd buf nbytes = some (-1, s)
  | _ => True

/-- Nobody closes 8 while descriptor 6 is open. -/
def TableSafe (s : Kernel) : Op → Prop
  | .close fd => ¬ (fd = 8 ∧ s.cur.files 6 ≠ none)
  | _ => True

variable {s s' : Kernel}

@[simp] theorem setPcb_cur (s : Kernel) (f : Pcb → Pcb) : (s.setPcb s.curr f).cur = f s.cur := by
  simp [cur, setPcb]

theorem setPcb_eq_self {f : Pcb → Pcb} (h : f s.cur = s.cur) : s.setPcb s.curr f = s := by
  have hupd : Function.update s.pcb s.curr (f s.cur) = s.pcb := by
    rw [h]
    exact Function.update_eq_self _ _
  show { s with pcb := Function.update s.pcb s.curr (f s.cur) } = s
  rw [hupd]

theorem openFile_full {name : List UInt8} {d : Dentry}
    (hd : s.fs.readDentryByName name = some (some d))
    (hfind : ([2, 3, 4, 5, 6, 7].find? fun i => s.cur.bitmap i = 0) = none) :
    s.openFile (some name) = some (-1, s) := by
  unfold openFile
  dsimp only
  rw [hd, Option.map_some]
  simp only [hfind]

theorem openFile_free {name : List UInt8} {d : Dentry} {i : Nat}
    (hd : s.fs.readDentryByName name = some (some d))
    (hfind : ([2, 3, 4, 5, 6, 7].find? fun i => s.cur.bitmap i = 0) = some i) :
    s.openFile (some name) = some ((i : Int), { s.setPcb s.curr (opened d i) with
      fs := if d.ftype = 1 then s.fs.openDir else s.fs }) := by
  unfold openFile
  dsimp only
  rw [hd, Option.map_some]
  simp only [hfind]

theorem openFile_meets (h : s.cur.Agree) (filename : Option (List UInt8)) :
    s.Meets (.openFile filename) := by
  cases filename with
  | none => exact rfl
  | some name =>
    intro d hd
    cases d with
    | none =>
      show s.openFile (some name) = _
      unfold openFile
      dsimp only
      rw [hd, Option.map_some]
    | some d =>
      have hrange : ∀ i, i ∈ [2, 3, 4, 5, 6, 7] ↔ 2 ≤ i ∧ i < 8 := by
        intro i
        simp only [List.mem_cons, List.not_mem_nil, or_false]
        omega
      show _ ∨ _
      cases hfind : [2, 3, 4, 5, 6, 7].find? fun i => s.cur.bitmap i = 0 with
      | none =>
        refine .inl ⟨fun i hlo hi => ?_, openFile_full hd hfind⟩
        have hbit := List.find?_eq_none.mp hfind i ((hrange i).mpr ⟨hlo, hi⟩)
        rw [Ne, h.files_eq_none hi]
        simpa using hbit
      | some i =>
        obtain ⟨hlo, hi⟩ := (hrange i).mp (List.mem_of_find?_eq_some hfind)
        refine .inr ⟨i, _, ⟨hlo, hi⟩, openFile_free hd hfind, ?_, fun j hj hji => ?_, ?_⟩
        · rw [h.files_eq_none hi]
          simpa using List.find?_some hfind
        · rw [Ne, h.files_eq_none (by omega)]
          have hj' := (hrange j).mpr ⟨hj, by omega⟩
          simpa using find?_least (by decide) hfind hj' hji
        · exact (congrArg Pcb.files (setPcb_cur s (opened d i))).trans
            (Pcb.opened_files s.cur d hi)

theorem close_meets_iff (h : s.cur.Agree) (fd : Int) :
    s.Meets (.close fd) ↔ s.TableSafe (.close fd) := by
  rw [show s.TableSafe (.close fd) ↔ ¬ (fd = 8 ∧ s.cur.files 6 ≠ none) from Iff.rfl,
    ← h.closeSpec_iff fd]
  by_cases hopen : 2 ≤ fd ∧ fd ≤ 7 ∧ s.cur.files fd.toNat ≠ none
  · simp only [Meets, Pcb.CloseSpec, close, if_pos hopen, setPcb_cur]
  · simp only [Meets, Pcb.CloseSpec, close, if_neg hopen]
    constructor
    · intro heq
      have hcur := congrArg (fun r : Int × Kernel => (r.1, r.2.cur)) heq
      simpa only [setPcb_cur] using hcur
    · intro heq
      rw [setPcb_eq_self (congrArg Prod.snd heq), congrArg Prod.fst heq]

theorem read_meets (fd : Int) (buf : Option (List UInt8)) (nbytes : Int) :
    s.Meets (.read fd buf nbytes) := by
  intro hclosed
  cases buf with
  | none => rfl
  | some mem =>
    unfold read
    dsimp only
    split_ifs with hrange hflag
    · rfl
    · rfl
    · simp only [fdescSize] at hrange
      rcases hclosed with hfd | hfd | hfd
      · omega
      · omega
      · exact absurd hfd ((Pcb.files_ne_none (by omega)).mpr hflag)

theorem write_meets (h : s.cur.Agree) (fd : Int) (buf : Option (List UInt8)) (nbytes : Int) :
    s.Meets (.write fd buf nbytes) := by
  intro hclosed
  cases buf with
  | none => rfl
  | some mem =>
    unfold write
    dsimp only
    split_ifs with hrange hbit
    · rfl
    · rfl
    · simp only [fdescSize] at hrange
      rcases hclosed with hfd | hfd | hfd
      · omega
      · omega
      · exact absurd ((h.files_eq_none (by omega)).mp hfd) hbit

/-- A process whose two records agree gets what it is to get from every call but one. -/
theorem meets_iff (h : s.cur.Agree) (op : Op) : s.Meets op ↔ s.TableSafe op := by
  cases op with
  | openFile filename => exact iff_of_true (openFile_meets h filename) trivial
  | close fd => exact close_meets_iff h fd
  | read fd buf nbytes => exact iff_of_true (read_meets fd buf nbytes) trivial
  | write fd buf nbytes => exact iff_of_true (write_meets h fd buf nbytes) trivial
  | _ => exact Iff.rfl

/-! ## Runs -/

/-- A property of the tables of processes that survives everything but `close`. -/
structure Records (A : Pcb → Prop) : Prop where
  congr : ∀ {p q : Pcb}, A p → q.fileArray = p.fileArray → q.bitmap = p.bitmap → A q
  init : ∀ {p : Pcb} pid, p.AllClosed → A (p.initFiles pid)
  opened : ∀ {p : Pcb} d {i}, A p → 2 ≤ i → A (opened d i p)
  advanced : ∀ {p : Pcb} i n, A p → A (advanced i n p)
  closeAll : ∀ {p : Pcb}, A p → p.closeAll.AllClosed

/-- The tables of all processes have it, and nothing is open where none runs. -/
structure TablesWith (A : Pcb → Prop) (s : Kernel) : Prop where
  ids : IdsOk s
  live : ∀ p, s.procState p = true → A (s.pcb p)
  dead : ∀ p, s.procState p = false → (s.pcb p).AllClosed

theorem saved_words (s : Kernel) (env : Env) (pid p : Pid) :
    ((s.saved env pid).pcb p).fileArray = (s.pcb p).fileArray ∧
      ((s.saved env pid).pcb p).bitmap = (s.pcb p).bitmap := by
  by_cases hp : p = pid
  · subst hp
    simp [saved, setPcb]
  · simp [saved, setPcb, Function.update_of_ne hp]

namespace TablesWith

variable {L} {A : Pcb → Prop}

theorem atBoot (fs : FileSys) : TablesWith A (boot L fs) :=
  ⟨idsOk_boot L fs, fun _ h => Bool.noConfusion h, fun _ _ _ _ _ => rfl⟩

variable (hA : Records A) (h : TablesWith A s)
include hA h

theorem launched (env : Env) {pid : Pid} (t : Terminal) (hpid : s.getPid = some pid) :
    TablesWith A (Kernel.launched env pid t s) := by
  obtain ⟨pe, pb, ce, cb, hpcb⟩ := launched_pcb env pid t s
  have hinit := hA.init pid (h.dead pid (getPid_eq_some.mp hpid).1)
  constructor
  · exact h.ids.launched env pid t
  · intro p hp
    by_cases hne : p = pid
    · rw [hne, hpcb]
      exact hA.congr hinit rfl rfl
    · rw [launched_procState, Function.update_of_ne hne] at hp
      rw [launched_pcb_of_ne env pid t s hne]
      exact h.live p hp
  · intro p hp
    by_cases hne : p = pid
    · simp [hne] at hp
    · rw [launched_procState, Function.update_of_ne hne] at hp
      rw [launched_pcb_of_ne env pid t s hne]
      exact h.dead p hp

theorem halted (hst : s.started) : TablesWith A s.halted := by
  have hid : s.cur.pid = s.curr := h.ids.current hst
  have hproc : s.halted.procState = Function.update s.procState s.curr false := by
    show Function.update s.procState s.cur.pid false = _
    rw [hid]
  have hself : s.halted.pcb s.curr = s.cur.closeAll := Function.update_self ..
  have hother : ∀ p, p ≠ s.curr → s.halted.pcb p = s.pcb p := fun p hp =>
    Function.update_of_ne hp ..
  constructor
  · exact h.ids.halted hst
  · intro p hp
    rw [hproc] at hp
    by_cases hne : p = s.curr
    · simp [hne] at hp
    · rw [Function.update_of_ne hne] at hp
      rw [hother p hne]
      exact h.live p hp
  · intro p hp
    by_cases hne : p = s.curr
    · rw [hne, hself]
      cases hrun : s.procState s.curr with
      | true => exact hA.closeAll (h.live s.curr hrun)
      | false => exact (h.dead s.curr hrun).closeAll
    · rw [hproc, Function.update_of_ne hne] at hp
      rw [hother p hne]
      exact h.dead p hp

/-- New control blocks with the same words in their tables. -/
theorem of_words (hids : IdsOk s') (hproc : s'.procState = s.procState)
    (hwords : ∀ p, (s'.pcb p).fileArray = (s.pcb p).fileArray ∧
      (s'.pcb p).bitmap = (s.pcb p).bitmap) : TablesWith A s' :=
  ⟨hids, fun p hp => hA.congr (h.live p (hproc ▸ hp)) (hwords p).1 (hwords p).2,
    fun p hp i hlo hi => by rw [(hwords p).2]; exact h.dead p (hproc ▸ hp) i hlo hi⟩

omit h in
theorem kept : Kept L (TablesWith A) where
  same h hs := h.of_words hA (h.ids.same hs) hs.procState fun p => by
    rw [hs.pcb]
    exact ⟨rfl, rfl⟩
  launched env pid t h hpid := h.launched hA env t hpid
  halted h hst := h.halted hA hst
  switched {s t pid} env h hpid := by
    have hwords := saved_words (switched L pid s) env s.curr
    exact h.of_words hA ((idsOk_kept L).switched env h.ids hpid) rfl hwords

omit hA in
/-- A call that changes the table of the current process alone. -/
theorem of_cur (hids : IdsOk s') (hproc : s'.procState = s.procState)
    {f : Pcb → Pcb} (hpcb : s'.pcb = (s.setPcb s.curr f).pcb)
    (hlive : s.procState s.curr = true → A s.cur → A (f s.cur))
    (hdead : s.procState s.curr = false → s.cur.AllClosed → (f s.cur).AllClosed) :
    TablesWith A s' := by
  have hself : s'.pcb s.curr = f s.cur := by rw [hpcb]; exact Function.update_self ..
  have hother : ∀ p, p ≠ s.curr → s'.pcb p = s.pcb p := fun p hp => by
    rw [hpcb]
    exact Function.update_of_ne hp ..
  constructor
  · exact hids
  · intro p hp
    rw [hproc] at hp
    by_cases hne : p = s.curr
    · subst hne
      rw [hself]
      exact hlive hp (h.live _ hp)
    · rw [hother p hne]
      exact h.live p hp
  · intro p hp
    rw [hproc] at hp
    by_cases hne : p = s.curr
    · subst hne
      rw [hself]
      exact hdead hp (h.dead _ hp)
    · rw [hother p hne]
      exact h.dead p hp

end TablesWith

theorem read_pcb {fd : Int} {buf : Option (List UInt8)} {nbytes : Int} {r : Tty.ReadOut}
    (h : s.read fd buf nbytes = some (r, s')) :
    s'.pcb = s.pcb ∨ ∃ i n, s'.pcb = (s.setPcb s.curr (advanced i n)).pcb := by
  rcases read_cases h with ⟨-, -, rfl⟩ | ⟨-, mem, r₁, s₁, hr, ⟨-, -, rfl⟩ | ⟨-, -, rfl⟩⟩
  · exact .inl rfl
  · rw [readHandler_frame hr]
    exact .inl rfl
  · rw [readHandler_frame hr]
    exact .inr ⟨fd.toNat, r₁.ret.toNat, rfl⟩

theorem openFile_pcb {filename : Option (List UInt8)} {r : Int}
    (h : s.openFile filename = some (r, s')) :
    s'.pcb = s.pcb ∨ ∃ d i, 2 ≤ i ∧ s'.pcb = (s.setPcb s.curr (opened d i)).pcb := by
  rcases openFile_cases h with ⟨-, rfl⟩ | ⟨name, d, i, -, -, hi, -, -, rfl⟩
  · exact .inl rfl
  · exact .inr ⟨d, i, hi.1, rfl⟩

/-- The tables stay as they are to be if what processes close leaves them so. -/
theorem TablesWith.step {A : Pcb → Prop} (hA : Records A) (h : TablesWith A s) (hlive : LiveOk s)
    {op : Op} (hclose : ∀ fd, op = .close fd → A s.cur → A (s.cur.close fd).2)
    (hs : step L s op = some s') : TablesWith A s' := by
  refine (kept hA).step h (fun s₁ hop hs₁ => ?_) hs
  obtain ⟨hids, hproc⟩ := h.ids.files L hop hs₁
  have hsame (hpcb : s₁.pcb = s.pcb) : TablesWith A s₁ :=
    h.of_words hA hids hproc fun p => by rw [hpcb]; exact ⟨rfl, rfl⟩
  cases op with
  | openFile filename =>
    obtain ⟨r, hr⟩ := openFile_code hs₁
    rcases openFile_pcb hr with hpcb | ⟨d, i, hlo, hpcb⟩
    · exact hsame hpcb
    · refine h.of_cur hids hproc hpcb (fun _ ha => hA.opened d ha hlo) fun hdead => ?_
      rw [hlive.current_runs (step_result L hs).1] at hdead
      cases hdead
  | close fd =>
    cases hs₁
    exact h.of_cur hids hproc rfl (fun _ ha => hclose fd rfl ha) fun _ hc => hc.close fd
  | read fd buf nbytes =>
    obtain ⟨r, hr⟩ := read_code hs₁
    rcases read_pcb hr with hpcb | ⟨i, n, hpcb⟩
    · exact hsame hpcb
    · exact h.of_cur hids hproc hpcb (fun _ ha => hA.advanced i n ha) fun _ hc => hc
  | write fd buf nbytes =>
    obtain ⟨r, hr⟩ := write_code hs₁
    exact hsame (by rw [write_frame hr])
  | _ => exact hop.elim

/-- The tables of all processes, and the control blocks that are not in use. -/
structure TablesOk (s : Kernel) : Prop where
  ids : IdsOk s
  live : ∀ p, s.procState p = true → (s.pcb p).Agree
  dead : ∀ p, s.procState p = false → (s.pcb p).AllClosed

theorem tablesOk_iff : TablesOk s ↔ TablesWith Pcb.Agree s :=
  ⟨fun h => ⟨h.ids, h.live, h.dead⟩, fun h => ⟨h.ids, h.live, h.dead⟩⟩

theorem agree_records : Records Pcb.Agree where
  congr h hf hb := h.congr hf hb
  init pid h := h.initFiles pid
  opened d _ h hlo := h.opened d hlo
  advanced i n h := h.advanced i n
  closeAll h := h.closeAll

theorem TablesOk.step (h : TablesOk s) (hlive : LiveOk s) {op : Op} (hok : s.TableSafe op)
    (hs : Kernel.step L s op = some s') : TablesOk s' := by
  rw [tablesOk_iff] at h ⊢
  refine TablesWith.step L agree_records h hlive (fun fd hop ha => ?_) hs
  subst hop
  exact ha.close hok

/-- **Descriptor tables.** As long as nobody closes 8 with descriptor 6 open, the two records
agree in every process, and every call does what it is to do; that `close` does not. -/
theorem descriptor_table {fs : FileSys} {ops : List Op}
    (h : Path (Kernel.step L) TableSafe (boot L fs) ops s) :
    (∀ p, s.procState p = true → (s.pcb p).Agree) ∧
      (s.started → ∀ op, s.Meets op ↔ s.TableSafe op) := by
  obtain ⟨htables, hlive⟩ := h.invariant (fun s => TablesOk s ∧ LiveOk s)
    (fun _ _ _ ⟨h, hlive⟩ hok hs => ⟨h.step L hlive hok hs, hlive.step L hs⟩)
    ⟨tablesOk_iff.mpr (TablesWith.atBoot fs), liveOk_boot L fs⟩
  exact ⟨htables.live, fun hst op => meets_iff (htables.live _ (hlive.current_runs hst)) op⟩

instance (s : Kernel) (op : Op) : Decidable (s.TableSafe op) :=
  match op with
  | .close fd => inferInstanceAs (Decidable (¬ (fd = 8 ∧ s.cur.files 6 ≠ none)))
  | .boot _ | .execute _ _ | .halt _ | .tick _ | .key _ _ | .vidmap _ | .openFile _
  | .read _ _ _ | .write _ _ _ | .rtc => inferInstanceAs (Decidable True)

theorem descriptor_table_reopened :
    ∃ s, Path (Kernel.step someLayout) TableSafe (boot someLayout .shellOnly)
        [.boot .zero, .openFile shell, .openFile shell, .close 2, .close 8, .openFile shell] s ∧
      s.cur.files 2 ≠ none ∧ s.cur.Agree ∧ s.Meets (.close 2) := by
  obtain ⟨s, hs, hrun, hst, hopen⟩ := exists_of_map_decide
    (fun s : Kernel => s.procState s.curr = true ∧ s.started ∧ s.cur.files 2 ≠ none)
    (x := guardedRun (Kernel.step someLayout) TableSafe (boot someLayout .shellOnly)
      [.boot .zero, .openFile shell, .openFile shell, .close 2, .close 8, .openFile shell])
    (by decide +kernel)
  have hpath := path_of_guardedRun hs
  obtain ⟨hagree, hmeets⟩ := descriptor_table someLayout hpath
  exact ⟨s, hpath, hopen, hagree _ hrun, (hmeets hst _).mpr (by simp [TableSafe])⟩

/-- With five files open, `close` of 8 returns 0 and frees descriptor 6 in the bitmap alone;
the next `open` returns 6, which is still open. -/
theorem close_eight :
    ∃ s, run (Kernel.step someLayout) (boot someLayout .shellOnly)
        [.boot .zero, .openFile shell, .openFile shell, .openFile shell, .openFile shell,
          .openFile shell] = some s ∧
      s.procState s.curr = true ∧ ¬ s.Meets (.close 8) ∧ (s.close 8).2.cur.files 6 ≠ none ∧
      ((s.close 8).2.openFile shell).map Prod.fst = some 6 := by
  obtain ⟨s, hs, hrun, hret, hopen, hagain⟩ := exists_of_map_decide
    (fun s : Kernel => s.procState s.curr = true ∧ (s.close 8).1 = 0 ∧
      (s.close 8).2.cur.files 6 ≠ none ∧ ((s.close 8).2.openFile shell).map Prod.fst = some 6)
    (x := run (Kernel.step someLayout) (boot someLayout .shellOnly)
      [.boot .zero, .openFile shell, .openFile shell, .openFile shell, .openFile shell,
        .openFile shell]) (by decide +kernel)
  refine ⟨s, hs, hrun, fun hmeets => ?_, hopen, hagain⟩
  have hclose : s.close 8 = (-1, s) := hmeets
  rw [hclose] at hret
  cases hret

end Kernel

end OS391
