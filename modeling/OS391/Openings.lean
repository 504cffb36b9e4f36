import OS391.DescriptorTable

/-! What has been opened at every descriptor, and what the reads on it have yielded: a history
beside the state of the kernel, and how the descriptors follow it. -/

namespace OS391
open Library Library.Runs Library.Bytes

/-- One `read` on an open descriptor. -/
structure Access where
  nbytes : Int
  result : Tty.ReadOut

/-- An `open` that has succeeded: the entry it found, and the reads on its descriptor while
that was open. -/
structure Opening where
  entry : Dentry
  reads : List Access

/-- The openings at every descriptor of every process, the last one first. -/
abbrev Openings := Pid → Nat → List Opening

namespace Openings

def none : Openings := fun _ _ => []

def edit (h : Openings) (p : Pid) (i : Nat) (f : List Opening → List Opening) : Openings :=
  Function.update h p (Function.update (h p) i (f (h p i)))

@[simp] theorem edit_self (h : Openings) (p : Pid) (i : Nat) (f : List Opening → List Opening) :
    h.edit p i f p i = f (h p i) := by
  simp [edit]

theorem edit_of_ne (h : Openings) {p q : Pid} {i j : Nat} (f : List Opening → List Opening)
    (hne : q ≠ p ∨ j ≠ i) : h.edit p i f q j = h q j := by
  by_cases hq : q = p
  · subst hq
    have hj : j ≠ i := hne.resolve_left fun hnot => hnot rfl
    rw [edit, Function.update_self, Function.update_of_ne hj]
  · rw [edit, Function.update_of_ne hq]

/-- All openings of a history. -/
def All (h : Openings) (Q : Opening → Prop) : Prop := ∀ p i, ∀ o ∈ h p i, Q o

theorem All.imp {h : Openings} {Q Q' : Opening → Prop} (hall : h.All Q) (himp : ∀ o, Q o → Q' o) :
    h.All Q' := fun p i o ho => himp o (hall p i o ho)

/-- What one entry of a history adds to a property of all openings. -/
theorem all_edit {h : Openings} {p : Pid} {i : Nat} {f : List Opening → List Opening}
    {Q : Opening → Prop} {R : Prop}
    (hf : (∀ o ∈ f (h p i), Q o) ↔ (∀ o ∈ h p i, Q o) ∧ R) :
    (h.edit p i f).All Q ↔ h.All Q ∧ R := by
  constructor
  · intro hall
    have hat := hf.mp fun o ho => hall p i o (by rwa [edit_self])
    refine ⟨fun q j o ho => ?_, hat.2⟩
    by_cases hqj : q = p ∧ j = i
    · obtain ⟨rfl, rfl⟩ := hqj
      exact hat.1 o ho
    · exact hall q j o (by rwa [edit_of_ne h f (not_and_or.mp hqj)])
  · rintro ⟨hall, hR⟩ q j o ho
    by_cases hqj : q = p ∧ j = i
    · obtain ⟨rfl, rfl⟩ := hqj
      rw [edit_self] at ho
      exact hf.mpr ⟨hall q j, hR⟩ o ho
    · rw [edit_of_ne h f (not_and_or.mp hqj)] at ho
      exact hall q j o ho

end Openings

def Opening.add (o : Opening) (a : Access) : Opening := { o with reads := o.reads ++ [a] }

namespace Kernel

variable (L : Layout)

instance readsDecidable (s : Kernel) (fd : Int) (buf : Option (List UInt8)) :
    Decidable (s.Reads fd buf) :=
  inferInstanceAs (Decidable (_ ∧ _ ∧ _))

/-- The descriptor that an `open` returns, and the entry it has found. -/
def openedAt (s : Kernel) (filename : Option (List UInt8)) : Option (Nat × Dentry) :=
  (filename.bind s.fs.readDentryByName).join.bind fun d => (s.openFile filename).bind fun r =>
    if r.1 < 0 then none else some (r.1.toNat, d)

/-- The history after an operation. -/
def noted (h : Openings) (s : Kernel) : Op → Openings
  | .openFile filename =>
    match s.openedAt filename with
    | some (i, d) => h.edit s.curr i fun os => ⟨d, []⟩ :: os
    | none => h
  | .read fd buf nbytes =>
    match s.read fd buf nbytes with
    | some (r, _) =>
      if s.Reads fd buf then
        h.edit s.curr fd.toNat (List.modifyHead fun o => o.add ⟨nbytes, r⟩)
      else h
    | none => h
  | _ => h

/-- The kernel with the history of its descriptors. -/
abbrev track : Kernel × Openings → Op → Option (Kernel × Openings) := recorded (step L) noted

variable {s s' : Kernel}

/-! ## Operations that leave open files alone -/

/-- The file system is as it was, and so is every descriptor that is open. -/
structure Untouched (s s' : Kernel) : Prop where
  fs : s'.fs = s.fs
  entries : ∀ p i, 2 ≤ i → i < 8 → ((s'.pcb p).fileArray i).flag ≠ 0 →
    (s'.pcb p).fileArray i = (s.pcb p).fileArray i

theorem Untouched.of_pcb (hfs : s'.fs = s.fs) (hpcb : s'.pcb = s.pcb) : Untouched s s' :=
  ⟨hfs, fun p i _ _ _ => by rw [hpcb]⟩

theorem untouched_carried : Carried L Untouched where
  trans {s s' s''} h h' := by
    refine ⟨h'.fs.trans h.fs, fun p i hlo hi hflag => ?_⟩
    have hentry := h'.entries p i hlo hi hflag
    rw [hentry] at hflag ⊢
    exact h.entries p i hlo hi hflag
  idle h := Untouched.of_pcb h.fs h.pcb
  clear s := Untouched.of_pcb rfl rfl
  wrote h := by
    obtain ⟨⟨r, tty⟩, -, h⟩ := Option.map_eq_some_iff.mp h
    cases h
    exact Untouched.of_pcb rfl rfl
  launched {s} env pid t _ := by
    refine ⟨launched_fs env pid t s, fun p i hlo hi hflag => ?_⟩
    by_cases hp : p = pid
    · subst hp
      obtain ⟨pe, pb, ce, cb, hpcb⟩ := launched_pcb env p t s
      have h0 : i ≠ 0 := by omega
      have h1 : i ≠ 1 := by omega
      rw [hpcb] at hflag
      simp [Pcb.initFiles, h0, h1, hi] at hflag
    · rw [launched_pcb_of_ne env pid t s hp]
  switched {s t pid} env _ := by
    refine ⟨rfl, fun p i _ _ _ => ?_⟩
    rw [(saved_words (switched L pid s) env s.curr p).1]
    rfl
  keyed {s input tty} _ := by
    rw [keyed_eq]
    exact Untouched.of_pcb rfl rfl

end Kernel

namespace Pcb

/-- The loop of `halt` clears every flag. -/
theorem closeAll_flag (p : Pcb) {i : Nat} (hi : i < 8) : (p.closeAll.fileArray i).flag = 0 := by
  refine closeAll_invariant (I := fun k q => ∀ j < k, (q.fileArray j).flag = 0)
    (fun k q hk hq j hj => ?_) (fun j hj => absurd hj (Nat.not_lt_zero j)) i hi
  rw [closeRound_eq q hk]
  dsimp only
  by_cases hjk : j = k
  · rw [hjk, Function.update_self]
  · rw [Function.update_of_ne hjk]
    exact hq j (by omega)

/-- `close` clears a flag, or does nothing to the descriptors. -/
theorem close_entry (p : Pcb) (fd : Int) {i : Nat}
    (hflag : ((p.close fd).2.fileArray i).flag ≠ 0) :
    (p.close fd).2.fileArray i = p.fileArray i := by
  unfold close at hflag ⊢
  split_ifs at hflag ⊢ with hrange hclosed
  · rfl
  · rfl
  · unfold clearFlagAt at hflag ⊢
    split_ifs at hflag ⊢ with hlt
    · by_cases hij : i = fd.toNat
      · rw [hij] at hflag
        simp at hflag
      · exact Function.update_of_ne hij ..
    · rfl

end Pcb

namespace Kernel

variable {L} {s s' : Kernel}

/-- Only `open` and `read` do anything to files that are open after them. -/
theorem step_untouched {op : Op}
    (hop : match op with
      | .openFile _ | .read _ _ _ => False
      | _ => True)
    (h : step L s op = some s') : Untouched s s' := by
  have hcur (f : Pcb → Pcb) (hf : ∀ i, i < 8 → ((f s.cur).fileArray i).flag ≠ 0 →
      (f s.cur).fileArray i = s.cur.fileArray i) : Untouched s (s.setPcb s.curr f) := by
    refine ⟨rfl, fun p i _ hi hflag => ?_⟩
    by_cases hp : p = s.curr
    · subst hp
      simp only [setPcb, Function.update_self] at hflag ⊢
      exact hf i hi hflag
    · simp [setPcb, Function.update_of_ne hp]
  refine (untouched_carried L).step (fun _ _ => ?_) (fun s₁ hfile hs₁ => ?_) h
  · have hclosed := hcur Pcb.closeAll fun i hi hflag => absurd (s.cur.closeAll_flag hi) hflag
    exact ⟨rfl, hclosed.entries⟩
  · cases op with
    | close fd =>
      cases hs₁
      exact hcur (fun p => (p.close fd).2) fun i _ hflag => s.cur.close_entry fd hflag
    | write fd buf nbytes =>
      obtain ⟨r, hr⟩ := write_code hs₁
      rw [write_frame hr]
      exact Untouched.of_pcb rfl rfl
    | openFile | read => exact hop.elim
    | _ => exact hfile.elim

/-! ## The history of a run -/

/-- Where reads of these byte counts leave the position in the file of an inode. -/
def position (fs : FileSys) (inode : Nat) (counts : List Int) : Nat :=
  counts.foldl (fun (pos : Nat) (n : Int) =>
    let ret := (fs.readData inode pos (n % word32).toNat).1
    if ret < 0 then pos else (pos + ret.toNat) % word32) 0

/-- A descriptor is where its opening, and the reads since, have brought it. -/
structure Follows (fs : FileSys) (o : Opening) (f : FileDesc) : Prop where
  regular : o.entry.ftype = 2 → f.read = .readF ∧ f.inode = o.entry.inode ∧
    f.filePos = position fs o.entry.inode (o.reads.map Access.nbytes)
  directory : o.entry.ftype = 1 → f.read = .readDir

/-- The open descriptors of all processes follow their last openings. -/
structure Accounted (fs : FileSys) (s : Kernel) (h : Openings) : Prop where
  image : s.fs.image = fs.image
  reserved : ∀ p i, i < 2 → h p i = []
  last : ∀ p i, 2 ≤ i → i < 8 → ((s.pcb p).fileArray i).flag ≠ 0 →
    ∃ o os, h p i = o :: os ∧ Follows fs o ((s.pcb p).fileArray i)

theorem accounted_boot (L : Layout) (fs : FileSys) : Accounted fs (boot L fs) .none :=
  ⟨rfl, fun _ _ _ => rfl, fun _ _ _ _ hflag => absurd rfl hflag⟩

variable {fs : FileSys} {h : Openings}

theorem Accounted.untouched (ha : Accounted fs s h) (hs : Untouched s s') :
    Accounted fs s' h := by
  refine ⟨by rw [hs.fs]; exact ha.image, ha.reserved, fun p i hlo hi hflag => ?_⟩
  have hentry := hs.entries p i hlo hi hflag
  rw [hentry] at hflag ⊢
  exact ha.last p i hlo hi hflag

theorem openedAt_eq {filename : Option (List UInt8)} {r : Int}
    (hr : s.openFile filename = some (r, s')) :
    r = -1 ∧ s' = s ∧ s.openedAt filename = none ∨
      ∃ (d : Dentry) (i : Nat), s.openedAt filename = some (i, d) ∧ (2 ≤ i ∧ i < 8) ∧ r = i ∧
        s' = { s.setPcb s.curr (opened d i) with
          fs := if d.ftype = 1 then s.fs.openDir else s.fs } := by
  unfold openedAt
  rw [hr]
  rcases openFile_cases hr with ⟨rfl, rfl⟩ | ⟨name, d, i, rfl, hd, hi, -, rfl, rfl⟩
  · refine .inl ⟨rfl, rfl, ?_⟩
    have hneg : (-1 : Int) < 0 := by decide
    cases (filename.bind s'.fs.readDentryByName).join with
    | none => rw [Option.bind_none]
    | some d => rw [Option.bind_some, Option.bind_some, if_pos hneg]
  · refine .inr ⟨d, i, ?_, hi, rfl, rfl⟩
    have hnneg : ¬ (i : Int) < 0 := by omega
    rw [Option.bind_some, hd, Option.join_some, Option.bind_some, Option.bind_some, if_neg hnneg,
      Int.toNat_natCast]

/-- A change of one entry of the current process, as `open` and `read` make it. -/
theorem setPcb_entry (s : Kernel) {f : Pcb → Pcb} {g : FileDesc → FileDesc} {i : Nat}
    (hf : ∀ p, (f p).fileArray = Function.update p.fileArray i (g (p.fileArray i)))
    (p : Pid) (j : Nat) :
    ((s.setPcb s.curr f).pcb p).fileArray j =
      if p = s.curr ∧ j = i then g (s.cur.fileArray j) else (s.pcb p).fileArray j := by
  by_cases hp : p = s.curr
  · subst hp
    have hself : (s.setPcb s.curr f).pcb s.curr = f s.cur := Function.update_self ..
    rw [hself, hf]
    by_cases hj : j = i
    · subst hj
      rw [if_pos ⟨rfl, rfl⟩, Function.update_self]
    · rw [if_neg fun hat => hj hat.2, Function.update_of_ne hj, cur]
  · have hother : (s.setPcb s.curr f).pcb p = s.pcb p := Function.update_of_ne hp ..
    rw [hother, if_neg fun hat => hp hat.1]

/-- A read goes to the file of the last opening of its descriptor. -/
theorem Accounted.last_read (ha : Accounted fs s h) {fd : Int} {buf : Option (List UInt8)}
    (hreads : s.Reads fd buf) {o : Opening} {os : List Opening}
    (hlast : h s.curr fd.toNat = o :: os) : Follows fs o (s.cur.fileArray fd.toNat) := by
  have hlo : 2 ≤ fd.toNat := by
    by_contra hlt
    rw [ha.reserved _ _ (by omega)] at hlast
    cases hlast
  have hi : fd.toNat < 8 := by
    have hrange := hreads.2.1
    omega
  obtain ⟨o', os', hlast', hf⟩ := ha.last _ _ hlo hi hreads.2.2
  rw [hlast] at hlast'
  cases hlast'
  exact hf

theorem Accounted.openFile (ha : Accounted fs s h) {filename : Option (List UInt8)} {r : Int}
    (hr : s.openFile filename = some (r, s')) :
    Accounted fs s' (noted h s (.openFile filename)) := by
  dsimp only [noted]
  rcases openedAt_eq hr with ⟨-, rfl, hat⟩ | ⟨d, i, hat, hi, -, hs'⟩
  · rw [hat]
    exact ha
  · rw [hat]
    dsimp only
    have hentries (p : Pid) (j : Nat) : (s'.pcb p).fileArray j =
        if p = s.curr ∧ j = i then openDesc d (s.cur.fileArray j)
        else (s.pcb p).fileArray j := by
      rw [hs']
      exact setPcb_entry s (fun _ => rfl) p j
    constructor
    · exact (openFile_quiet hr).image.trans ha.image
    · intro p j hj
      rw [Openings.edit_of_ne h _ (.inr (by omega))]
      exact ha.reserved p j hj
    · intro p j hlo hj hflag
      by_cases hat : p = s.curr ∧ j = i
      · obtain ⟨rfl, rfl⟩ := hat
        refine ⟨⟨d, []⟩, h s.curr j, Openings.edit_self .., ?_⟩
        rw [hentries, if_pos ⟨rfl, rfl⟩]
        constructor
        · intro hreg
          have hreg' : d.ftype = 2 := hreg
          simp [openDesc, hreg', position]
        · intro hdir
          have hdir' : d.ftype = 1 := hdir
          simp [openDesc, hdir']
      · rw [Openings.edit_of_ne h _ (not_and_or.mp hat)]
        rw [hentries, if_neg hat] at hflag ⊢
        exact ha.last p j hlo hj hflag

theorem position_append (fs : FileSys) (inode : Nat) (counts : List Int) (n : Int) :
    position fs inode (counts ++ [n]) =
      let ret := (fs.readData inode (position fs inode counts) (n % word32).toNat).1
      if ret < 0 then position fs inode counts
      else (position fs inode counts + ret.toNat) % word32 := by
  rw [position, List.foldl_append]
  rfl

/-- A read through a descriptor takes it where its account says. -/
theorem Follows.read {o : Opening} {f : FileDesc} (hf : Follows fs o f)
    (himg : s.fs.image = fs.image) {mem : List UInt8} {nbytes : Int} {r : Tty.ReadOut}
    (hr : s.readHandler f mem nbytes = some (r, s')) (a : Access) (hn : a.nbytes = nbytes) :
    Follows fs (o.add a)
      (if r.ret < 0 then f else { f with filePos := (f.filePos + r.ret.toNat) % word32 }) := by
  constructor
  · intro hreg
    obtain ⟨hread, hinode, hpos⟩ := hf.regular hreg
    have hret : r.ret = (fs.readData o.entry.inode f.filePos (nbytes % word32).toNat).1 := by
      rw [readHandler, hread] at hr
      dsimp only at hr
      split at hr
      · cases hr
      · cases hr
        rw [FileSys.readData_image himg, hinode]
    have hnext : position fs o.entry.inode ((o.add a).reads.map Access.nbytes) =
        if r.ret < 0 then f.filePos else (f.filePos + r.ret.toNat) % word32 := by
      rw [Opening.add, List.map_append, List.map_singleton, hn, position_append, ← hpos, hret]
    rw [show (o.add a).entry = o.entry from rfl, hnext]
    split
    · exact ⟨hread, hinode, rfl⟩
    · exact ⟨hread, hinode, rfl⟩
  · intro hdir
    have hread := hf.directory hdir
    split <;> exact hread

theorem Accounted.read (ha : Accounted fs s h) {fd : Int} {buf : Option (List UInt8)}
    {nbytes : Int} {r : Tty.ReadOut} (hr : s.read fd buf nbytes = some (r, s')) :
    Accounted fs s' (noted h s (.read fd buf nbytes)) := by
  have himg := (read_quiet hr).image.trans ha.image
  dsimp only [noted]
  rw [hr]
  dsimp only
  rcases read_cases hr with ⟨hnot, -, rfl⟩ | ⟨hreads, mem, r₁, s₁, hr₁, hcase⟩
  · rw [if_neg hnot]
    exact ha
  rw [if_pos hreads]
  have hframe := readHandler_frame hr₁
  have hpcb₁ : s₁.pcb = s.pcb := by rw [hframe]
  have hcurr₁ : s₁.curr = s.curr := by rw [hframe]
  have hentries (p : Pid) (j : Nat) : (s'.pcb p).fileArray j =
      if p = s.curr ∧ j = fd.toNat then
        if r₁.ret < 0 then s.cur.fileArray j
        else { s.cur.fileArray j with
          filePos := ((s.cur.fileArray j).filePos + r₁.ret.toNat) % word32 }
      else (s.pcb p).fileArray j := by
    rcases hcase with ⟨hneg, -, rfl⟩ | ⟨hnneg, -, rfl⟩
    · rw [if_pos hneg, hpcb₁]
      split
      · rename_i hat
        rw [hat.1, cur]
      · rfl
    · have hentry := setPcb_entry s₁ (f := advanced fd.toNat r₁.ret.toNat)
        (g := fun d => { d with filePos := (d.filePos + r₁.ret.toNat) % word32 }) (fun _ => rfl) p j
      rw [if_neg (Int.not_lt.mpr hnneg), hentry, cur, hcurr₁, hpcb₁, cur]
  constructor
  · exact himg
  · intro p j hj
    by_cases hat : p = s.curr ∧ j = fd.toNat
    · obtain ⟨rfl, rfl⟩ := hat
      rw [Openings.edit_self, ha.reserved _ _ hj, List.modifyHead_nil]
    · rw [Openings.edit_of_ne h _ (not_and_or.mp hat)]
      exact ha.reserved p j hj
  · intro p j hlo hj hflag
    by_cases hat : p = s.curr ∧ j = fd.toNat
    · obtain ⟨rfl, rfl⟩ := hat
      obtain ⟨o, os, hos, hf⟩ := ha.last _ _ hlo hj hreads.2.2
      refine ⟨o.add ⟨nbytes, r⟩, os, ?_, ?_⟩
      · rw [Openings.edit_self, hos, List.modifyHead_cons]
      · have hnext := hf.read ha.image hr₁ ⟨nbytes, r⟩ rfl
        rw [hentries, if_pos ⟨rfl, rfl⟩]
        exact hnext
    · rw [Openings.edit_of_ne h _ (not_and_or.mp hat)]
      rw [hentries, if_neg hat] at hflag ⊢
      exact ha.last p j hlo hj hflag

/-- The descriptors follow the history through every operation of every process. -/
theorem Accounted.step (ha : Accounted fs s h) {op : Op} (hs : step L s op = some s') :
    Accounted fs s' (noted h s op) := by
  cases op with
  | openFile filename =>
    obtain ⟨-, s₁, hs₁, rfl⟩ := step_result L hs
    obtain ⟨r, hr⟩ := openFile_code hs₁
    exact (ha.openFile hr).untouched (Untouched.of_pcb rfl rfl)
  | read fd buf nbytes =>
    obtain ⟨-, s₁, hs₁, rfl⟩ := step_result L hs
    obtain ⟨r, hr⟩ := read_code hs₁
    exact (ha.read hr).untouched (Untouched.of_pcb rfl rfl)
  | _ => exact ha.untouched (step_untouched trivial hs)

theorem accounted_run {ops : List Op}
    (hrun : run (track L) (boot L fs, .none) ops = some (s, h)) : Accounted fs s h :=
  recorded_invariant (step L) noted (Accounted fs) (fun _ _ _ _ ha hs => ha.step hs) hrun
    (accounted_boot L fs)

end Kernel

end OS391
