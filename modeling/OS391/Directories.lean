import OS391.Openings

/-! The descriptors of directories. `read_dir` has one position for all of them, so a listing
is complete only as long as this is where the descriptor's own reads would have it. -/

namespace OS391
open Library Library.Runs Library.Bytes

namespace FileSys

variable (fs : FileSys)

/-- What the `k`-th read from a directory is to yield: the `k`-th name, and nothing in the end. -/
def listing (k : Nat) : Int × List UInt8 :=
  if k < fs.numDentry then (fnameSize, (fs.dentry k).fname) else (0, [])

/-- Reads number `j` and `k` are to yield the same. -/
def SamePlace (j k : Nat) : Prop :=
  j < fs.numDentry ∧ k < fs.numDentry ∧ (fs.dentry j).fname = (fs.dentry k).fname ∨
    fs.numDentry ≤ j ∧ fs.numDentry ≤ k

instance samePlaceDecidable (j k : Nat) : Decidable (fs.SamePlace j k) :=
  inferInstanceAs (Decidable (_ ∧ _ ∧ _ ∨ _ ∧ _))

theorem listing_eq_iff (j k : Nat) : fs.listing j = fs.listing k ↔ fs.SamePlace j k := by
  unfold listing SamePlace
  by_cases hj : j < fs.numDentry
  · by_cases hk : k < fs.numDentry
    · rw [if_pos hj, if_pos hk]
      simp only [hj, hk, true_and, Prod.mk.injEq]
      exact ⟨.inl, fun h => h.resolve_right fun hend => absurd hj (by omega)⟩
    · rw [if_neg hk, if_pos hj]
      simp [hk, fnameSize]
      omega
  · by_cases hk : k < fs.numDentry
    · rw [if_neg hj, if_pos hk]
      simp [hj, fnameSize]
      omega
    · rw [if_neg hj, if_neg hk]
      simp [hj]
      omega

/-- The position of `read_dir` is that of a name, or at the end. -/
structure DirOk : Prop where
  entries : fs.numDentry < 2 ^ 31
  lower : 0 ≤ fs.readDirIndex
  upper : fs.readDirIndex ≤ fs.numDentry

variable {fs}

theorem DirOk.index (h : fs.DirOk) : (fs.readDirIndex % word32).toNat = fs.readDirIndex.toNat := by
  have hlo := h.lower
  have hup := h.upper
  have hlt : fs.readDirIndex < word32 := by
    have hentries := h.entries
    have hword : word32 = 4294967296 := rfl
    omega
  rw [Int.emod_eq_of_lt hlo hlt]

/-- `read_dir` yields what is at its position, and goes on to the next. -/
theorem DirOk.readDir (h : fs.DirOk) :
    (fs.readDir.1, fs.readDir.2.1) = fs.listing fs.readDirIndex.toNat ∧
      fs.readDir.2.2 = { fs with readDirIndex :=
        if fs.readDirIndex.toNat < fs.numDentry then fs.readDirIndex + 1
        else fs.readDirIndex } := by
  have hup := h.upper
  have hin : ¬ fs.readDirIndex > int32 fs.numDentry := by
    rw [int32_of_lt h.entries]
    omega
  unfold FileSys.readDir listing readDentryByIndex
  rw [if_neg hin, h.index]
  by_cases hlt : fs.readDirIndex.toNat < fs.numDentry
  · rw [if_pos hlt, if_pos hlt, if_neg (by omega)]
    exact ⟨rfl, rfl⟩
  · rw [if_neg hlt, if_neg hlt, if_pos (by omega)]
    exact ⟨rfl, rfl⟩

theorem DirOk.next (h : fs.DirOk) : fs.readDir.2.2.DirOk := by
  have hlo := h.lower
  have hup := h.upper
  rw [h.readDir.2]
  by_cases hlt : fs.readDirIndex.toNat < fs.numDentry
  · rw [if_pos hlt]
    have hupper : fs.readDirIndex + 1 ≤ fs.numDentry := by omega
    exact ⟨h.entries, Int.le_add_one hlo, hupper⟩
  · rw [if_neg hlt]
    exact h

/-- A number of entries that is negative as an `int32_t` is none. -/
theorem numDentry_negative (h : ¬ fs.numDentry < 2 ^ 31) : (int32 fs.numDentry).toNat = 0 := by
  have hlt : fs.numDentry < 2 ^ 32 := by
    have hbyte (a : Nat) : (fs.byte a).toNat < 256 := (fs.byte a).toNat_lt
    have h0 := hbyte 0
    have h1 := hbyte (0 + 1)
    have h2 := hbyte (0 + 2)
    have h3 := hbyte (0 + 3)
    unfold numDentry word
    omega
  rw [int32_of_ge (Nat.le_of_not_lt h) hlt]
  omega

/-- A name is found only where the number of entries is not negative. -/
theorem numDentry_of_found {name : List UInt8} {d : Dentry}
    (h : fs.readDentryByName name = some (some d)) : fs.numDentry < 2 ^ 31 := by
  by_contra hlarge
  rw [readDentryByName, numDentry_negative hlarge, dentryLoop] at h
  cases h

end FileSys

/-- The reads on an open directory have listed its names from the first one on. -/
def Opening.Lists (fs : FileSys) (o : Opening) : Prop :=
  ∀ k a, o.reads[k]? = some a → (a.result.ret, a.result.out) = fs.listing k

theorem Opening.lists_add (fs : FileSys) (o : Opening) (a : Access) :
    (o.add a).Lists fs ↔
      o.Lists fs ∧ (a.result.ret, a.result.out) = fs.listing o.reads.length := by
  constructor
  · intro h
    refine ⟨fun k b hk => h k b ?_, h _ a List.getElem?_concat_length⟩
    have hlt := (List.getElem?_eq_some_iff.mp hk).1
    exact (List.getElem?_append_left hlt).trans hk
  · rintro ⟨h, ha⟩ k b hk
    by_cases hlt : k < o.reads.length
    · exact h k b ((List.getElem?_append_left hlt).symm.trans hk)
    · have hle := (List.getElem?_eq_some_iff.mp hk).1
      rw [Opening.add, List.length_append, List.length_singleton] at hle
      have hkl : k = o.reads.length := by omega
      subst hkl
      have hlast : (o.add a).reads[o.reads.length]? = some a := List.getElem?_concat_length
      rw [hlast] at hk
      cases hk
      exact ha

namespace Kernel

variable (L : Layout) (fs : FileSys)

/-- Every listing of a directory has gone as it is to. -/
def Listed (h : Openings) : Prop := h.All fun o => o.entry.ftype = 1 → o.Lists fs

/-- The position of `read_dir` is where the reads since the last opening have got to. -/
def Due (position : Nat) : List Opening → Prop
  | o :: _ => o.entry.ftype = 1 → fs.SamePlace position o.reads.length
  | [] => True

/-- A read from a directory finds the position where its own descriptor has left it. -/
def InStep (x : Kernel × Openings) : Op → Prop
  | .read fd buf _ => x.1.Reads fd buf → Due fs x.1.fs.readDirIndex.toNat (x.2 x.1.curr fd.toNat)
  | _ => True

instance dueDecidable (position : Nat) (os : List Opening) : Decidable (Due fs position os) :=
  match os with
  | o :: _ => inferInstanceAs (Decidable (o.entry.ftype = 1 → fs.SamePlace position o.reads.length))
  | [] => isTrue trivial

instance inStepDecidable (x : Kernel × Openings) (op : Op) : Decidable (InStep fs x op) :=
  match op with
  | .read fd buf _ => inferInstanceAs (Decidable (x.1.Reads fd buf →
      Due fs x.1.fs.readDirIndex.toNat (x.2 x.1.curr fd.toNat)))
  | .boot _ | .execute _ _ | .halt _ | .tick _ | .key _ _ | .vidmap _ | .openFile _ | .close _
  | .write _ _ _ | .rtc => isTrue trivial

variable {L fs} {s s' : Kernel} {h : Openings}

/-- Once a directory has been opened, the position of `read_dir` makes sense. -/
def DirsOk (s : Kernel) (h : Openings) : Prop := h.All fun o => o.entry.ftype = 1 → s.fs.DirOk

theorem readHandler_fs {f : FileDesc} {mem : List UInt8} {nbytes : Int} {r : Tty.ReadOut}
    (hr : s.readHandler f mem nbytes = some (r, s')) :
    f.read = .readDir ∧ s'.fs = s.fs.readDir.2.2 ∧
        (r.ret, r.out) = (s.fs.readDir.1, s.fs.readDir.2.1) ∨
      f.read ≠ .readDir ∧ s'.fs = s.fs := by
  rcases readHandler_cases hr with ⟨hdir, hout, rfl⟩ | ⟨hnot, rfl | ⟨tty, -, rfl⟩ | ⟨rtc, rfl⟩⟩
  · exact .inl ⟨hdir, rfl, hout⟩
  · exact .inr ⟨hnot, rfl⟩
  · exact .inr ⟨hnot, rfl⟩
  · exact .inr ⟨hnot, rfl⟩

theorem DirsOk.openFile (hd : DirsOk s h) {filename : Option (List UInt8)} {r : Int}
    (hr : s.openFile filename = some (r, s')) :
    DirsOk s' (noted h s (.openFile filename)) := by
  have hfound : ∀ d i, s.openedAt filename = some (i, d) → s.fs.numDentry < 2 ^ 31 := by
    intro d i hat
    obtain ⟨d', hname, -⟩ := Option.bind_eq_some_iff.mp hat
    obtain ⟨name, -, hname⟩ := Option.bind_eq_some_iff.mp (Option.join_eq_some_iff.mp hname)
    exact FileSys.numDentry_of_found hname
  dsimp only [noted]
  rcases openedAt_eq hr with ⟨-, rfl, hat⟩ | ⟨d, i, hat, -, -, hs'⟩
  · rw [hat]
    exact hd
  · rw [hat]
    have hopen : s.fs.openDir.DirOk := ⟨hfound d i hat, Int.le_refl 0, Int.natCast_nonneg _⟩
    have hstill (hok : s.fs.DirOk) : s'.fs.DirOk := by
      rw [hs']
      dsimp only
      split
      · exact hopen
      · exact hok
    refine (Openings.all_edit (R := True) ?_).mpr
      ⟨hd.imp fun o ho hdir => hstill (ho hdir), trivial⟩
    rw [List.forall_mem_cons, and_true]
    refine and_iff_right fun hdir => ?_
    have hdir' : d.ftype = 1 := hdir
    rw [hs']
    dsimp only
    rw [if_pos hdir']
    exact hopen

theorem read_dirOk {fd : Int} {buf : Option (List UInt8)} {nbytes : Int} {r : Tty.ReadOut}
    (hr : s.read fd buf nbytes = some (r, s')) (hok : s.fs.DirOk) : s'.fs.DirOk := by
  rcases read_cases hr with ⟨-, -, rfl⟩ | ⟨-, mem, r₁, s₁, hr₁, hcase⟩
  · exact hok
  have hok₁ : s₁.fs.DirOk := by
    rcases readHandler_fs hr₁ with ⟨-, hfs, -⟩ | ⟨-, hfs⟩
    · rw [hfs]
      exact hok.next
    · rw [hfs]
      exact hok
  rcases hcase with ⟨-, -, rfl⟩ | ⟨-, -, rfl⟩
  · exact hok₁
  · exact hok₁

theorem DirsOk.read (hd : DirsOk s h) {fd : Int} {buf : Option (List UInt8)} {nbytes : Int}
    {r : Tty.ReadOut} (hr : s.read fd buf nbytes = some (r, s')) :
    DirsOk s' (noted h s (.read fd buf nbytes)) := by
  have hd' : DirsOk s' h := hd.imp fun o ho hdir => read_dirOk hr (ho hdir)
  dsimp only [noted]
  rw [hr]
  dsimp only
  split
  · refine (Openings.all_edit (R := True) ?_).mpr ⟨hd', trivial⟩
    cases h s.curr fd.toNat with
    | nil => simp
    | cons o os =>
      rw [List.modifyHead_cons, List.forall_mem_cons, List.forall_mem_cons, and_true]
      exact Iff.rfl
  · exact hd'

theorem DirsOk.step (hd : DirsOk s h) {op : Op} (hs : step L s op = some s') :
    DirsOk s' (noted h s op) := by
  cases op with
  | openFile filename =>
    obtain ⟨-, s₁, hs₁, rfl⟩ := step_result L hs
    obtain ⟨r, hr⟩ := openFile_code hs₁
    have hmid : DirsOk s₁ (noted h s (.openFile filename)) := hd.openFile hr
    exact hmid
  | read fd buf nbytes =>
    obtain ⟨-, s₁, hs₁, rfl⟩ := step_result L hs
    obtain ⟨r, hr⟩ := read_code hs₁
    have hmid : DirsOk s₁ (noted h s (.read fd buf nbytes)) := hd.read hr
    exact hmid
  | _ =>
    have hfs := (step_untouched trivial hs).fs
    exact hd.imp fun o ho hdir => hfs ▸ ho hdir

/-- A read on a directory yields the next name of its listing exactly when it is in step. -/
theorem read_listing_iff (ha : Accounted fs s h) (hd : DirsOk s h) {fd : Int}
    {buf : Option (List UInt8)} {nbytes : Int} {r : Tty.ReadOut}
    (hr : s.read fd buf nbytes = some (r, s')) (hreads : s.Reads fd buf) {o : Opening}
    {os : List Opening} (hlast : h s.curr fd.toNat = o :: os) (hdir : o.entry.ftype = 1) :
    (r.ret, r.out) = fs.listing o.reads.length ↔
      fs.SamePlace s.fs.readDirIndex.toNat o.reads.length := by
  have hmem : o ∈ h s.curr fd.toNat := by
    rw [hlast]
    exact List.mem_cons_self
  have hf := ha.last_read hreads hlast
  have himg : s.fs.listing = fs.listing := by
    funext k
    rw [FileSys.listing, FileSys.numDentry, FileSys.word_image ha.image,
      FileSys.dentry_image ha.image, FileSys.listing, FileSys.numDentry]
  rcases read_cases hr with ⟨hnot, -⟩ | ⟨-, mem, r₁, s₁, hr₁, hcase⟩
  · exact absurd hreads hnot
  rcases readHandler_fs hr₁ with ⟨-, -, hout⟩ | ⟨hnot, -⟩
  · rw [(hd _ _ o hmem hdir).readDir.1, himg] at hout
    have hnneg : 0 ≤ r₁.ret := by
      have hret := congrArg Prod.fst hout
      dsimp only at hret
      rw [hret, FileSys.listing]
      split
      · exact Int.natCast_nonneg _
      · exact Int.le_refl 0
    rcases hcase with ⟨hneg, -⟩ | ⟨-, rfl, -⟩
    · omega
    · rw [hout, FileSys.listing_eq_iff]
  · exact absurd (hf.directory hdir) hnot

theorem listed_read_iff (ha : Accounted fs s h) (hd : DirsOk s h) {fd : Int}
    {buf : Option (List UInt8)} {nbytes : Int} {r : Tty.ReadOut}
    (hr : s.read fd buf nbytes = some (r, s')) :
    Listed fs (noted h s (.read fd buf nbytes)) ↔
      Listed fs h ∧ InStep fs (s, h) (.read fd buf nbytes) := by
  dsimp only [noted, InStep]
  rw [hr]
  dsimp only
  by_cases hreads : s.Reads fd buf
  swap
  · rw [if_neg hreads]
    exact (and_iff_left fun hnot => absurd hnot hreads).symm
  rw [if_pos hreads]
  apply Openings.all_edit
  cases hlast : h s.curr fd.toNat with
  | nil => exact (and_iff_left fun _ => trivial).symm
  | cons o os =>
    rw [List.modifyHead_cons, List.forall_mem_cons, List.forall_mem_cons]
    by_cases hdir : o.entry.ftype = 1
    · have hadd := Opening.lists_add fs o ⟨nbytes, r⟩
      rw [read_listing_iff ha hd hr hreads hlast hdir] at hadd
      have hnew : (o.add ⟨nbytes, r⟩).entry = o.entry := rfl
      simp only [Due, hnew, hdir, forall_const, hadd, hreads]
      tauto
    · have hnew : (o.add ⟨nbytes, r⟩).entry = o.entry := rfl
      simp only [Due, hnew, hdir, false_implies, implies_true, true_and, and_true]

/-- **Directory listings.** Over any run, the reads of every directory that has been opened
list its names from the first one to the last, and then nothing, exactly if each of them was
in step with the one position of `read_dir`. -/
theorem listed_iff {ops : List Op} (hrun : run (track L) (boot L fs, .none) ops = some (s, h)) :
    Listed fs h ↔ Path (track L) (InStep fs) (boot L fs, .none) ops (s, h) := by
  have hstep : ∀ x op x', Accounted fs x.1 x.2 ∧ DirsOk x.1 x.2 → track L x op = some x' →
      (Listed fs x'.2 ↔ Listed fs x.2 ∧ InStep fs x op) := by
    rintro ⟨s, h⟩ op ⟨s', h'⟩ ⟨ha, hd⟩ hx
    obtain ⟨hs, rfl⟩ := (recorded_eq_some (step L) noted).mp hx
    cases op with
    | read fd buf nbytes =>
      obtain ⟨-, s₁, hs₁, -⟩ := step_result L hs
      obtain ⟨r, hr⟩ := read_code hs₁
      exact listed_read_iff ha hd hr
    | openFile filename =>
      refine Iff.trans ?_ (and_iff_left trivial).symm
      dsimp only [noted]
      split
      · rw [← and_true (Listed fs h)]
        apply Openings.all_edit
        rw [List.forall_mem_cons, and_true]
        exact and_iff_right fun _ k a hk => by cases hk
      · exact Iff.rfl
    | _ => exact (and_iff_left trivial).symm
  have hinv : ∀ x op x', Accounted fs x.1 x.2 ∧ DirsOk x.1 x.2 → track L x op = some x' →
      Accounted fs x'.1 x'.2 ∧ DirsOk x'.1 x'.2 := by
    rintro x op x' ⟨ha, hd⟩ hx
    obtain ⟨hs, he⟩ := (recorded_eq_some (step L) noted).mp hx
    rw [← he]
    exact ⟨ha.step hs, hd.step hs⟩
  have hnil : ∀ Q, Openings.none.All Q := fun Q p i o ho => by cases ho
  have hdirs : DirsOk (boot L fs) .none := hnil _
  have hiff := path_iff (fun x : Kernel × Openings => Accounted fs x.1 x.2 ∧ DirsOk x.1 x.2)
    (fun x => Listed fs x.2) hinv hstep hrun ⟨accounted_boot L fs, hdirs⟩
  exact hiff.trans (and_iff_right (hnil _))

/-- A name, as a whole. -/
def dot : Option (List UInt8) := some (cText ".")

/-- A file system with a directory, and an executable called `shell`. -/
def withDirectory : FileSys where
  image off := (([(0, 2), (128, 46), (160, 1)] : List (Nat × UInt8)).lookup off).getD
    (FileSys.shellOnly.image off)
  readDirIndex := 0

/-- One listing to its end and beyond, and then another. -/
theorem listed_iff_in_turn : ∃ s h,
    run (track someLayout) (boot someLayout withDirectory, .none)
      [.boot .zero, .openFile dot, .read 2 (some (List.replicate 32 0)) 32,
        .read 2 (some (List.replicate 32 0)) 32, .read 2 (some (List.replicate 32 0)) 32,
        .openFile dot, .read 3 (some (List.replicate 32 0)) 32] = some (s, h) ∧
      Listed withDirectory h := by
  obtain ⟨⟨s, h⟩, hguard⟩ := Option.isSome_iff_exists.mp (show (guardedRun (track someLayout)
      (InStep withDirectory) (boot someLayout withDirectory, .none)
      [.boot .zero, .openFile dot, .read 2 (some (List.replicate 32 0)) 32,
        .read 2 (some (List.replicate 32 0)) 32, .read 2 (some (List.replicate 32 0)) 32,
        .openFile dot, .read 3 (some (List.replicate 32 0)) 32]).isSome from by decide +kernel)
  have hpath := path_of_guardedRun hguard
  exact ⟨s, h, hpath.run_eq, (listed_iff hpath.run_eq).mpr hpath⟩

/-- Of two listings at once, the second begins with the name that the first has left. -/
theorem listings_overlap : ∃ s h,
    run (track someLayout) (boot someLayout withDirectory, .none)
      [.boot .zero, .openFile dot, .openFile dot, .read 2 (some (List.replicate 32 0)) 32,
        .read 3 (some (List.replicate 32 0)) 32] = some (s, h) ∧
      ¬ Listed withDirectory h := by
  obtain ⟨⟨s, h⟩, hrun, hshown⟩ := exists_of_map_decide
    (fun x : Kernel × Openings => (x.2 0 3).map (fun o => (o.entry.ftype,
      o.reads.map fun a => decide ((a.result.ret, a.result.out) = withDirectory.listing 0))) =
        [(1, [false])])
    (x := run (track someLayout) (boot someLayout withDirectory, .none)
      [.boot .zero, .openFile dot, .openFile dot, .read 2 (some (List.replicate 32 0)) 32,
        .read 3 (some (List.replicate 32 0)) 32])
    (by decide +kernel)
  refine ⟨s, h, hrun, fun hlisted => ?_⟩
  obtain ⟨o, os, (hos : h 0 3 = o :: os), ho, -⟩ := List.map_eq_cons_iff.mp hshown
  simp only [Prod.mk.injEq] at ho
  obtain ⟨a, as, has, ha, -⟩ := List.map_eq_cons_iff.mp ho.2
  have hmem : o ∈ h 0 3 := by
    rw [hos]
    exact List.mem_cons_self
  have hfirst := hlisted 0 3 o hmem ho.1 0 a (by rw [has]; rfl)
  exact absurd hfirst (of_decide_eq_false ha)

end Kernel

end OS391
