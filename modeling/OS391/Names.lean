import OS391.Directories

/-! Names of directory entries: what a lookup by name compares, and what a directory read
lists. -/

namespace OS391
open Library Library.Bytes

/-! ## Comparisons -/

theorem toInt8_sub_eq_zero {a b : UInt8} : a.toInt8.toInt - b.toInt8.toInt = 0 ↔ a = b := by
  constructor
  · intro h
    have hint : a.toInt8.toInt = b.toInt8.toInt := by omega
    have h8 := congrArg Int8.toUInt8 (Int8.toInt_inj.mp hint)
    rwa [UInt8.toUInt8_toInt8, UInt8.toUInt8_toInt8] at h8
  · rintro rfl
    exact Int.sub_self _

/-- A comparison inside both areas ends. -/
theorem strncmp_total {n : Nat} {s1 s2 : List UInt8} (h1 : n ≤ s1.length) (h2 : n ≤ s2.length) :
    ∃ c, strncmp n s1 s2 = some c := by
  induction n generalizing s1 s2 with
  | zero => exact ⟨0, rfl⟩
  | succ n ih =>
    cases s1 with
    | nil => cases h1
    | cons a s1 =>
      cases s2 with
      | nil => cases h2
      | cons b s2 =>
        unfold strncmp
        split
        · exact ⟨_, rfl⟩
        · exact ih (Nat.le_of_succ_le_succ h1) (Nat.le_of_succ_le_succ h2)

/-- Against a pattern without a NUL it finds out whether the bytes are the same. -/
theorem strncmp_pattern {n : Nat} {s1 s2 : List UInt8} (h1 : s1.length = n) (h2 : s2.length = n)
    (h0 : 0 ∉ s2) : ∃ c, strncmp n s1 s2 = some c ∧ (c = 0 ↔ s1 = s2) := by
  induction n generalizing s1 s2 with
  | zero =>
    rw [List.length_eq_zero_iff] at h1 h2
    subst h1 h2
    exact ⟨0, rfl, by simp⟩
  | succ n ih =>
    cases s1 with
    | nil => cases h1
    | cons a s1 =>
      cases s2 with
      | nil => cases h2
      | cons b s2 =>
        have hb : b ≠ 0 := fun h => h0 (h ▸ List.mem_cons_self)
        have htail : 0 ∉ s2 := fun h => h0 (List.mem_cons_of_mem _ h)
        by_cases hab : a = b
        · subst hab
          obtain ⟨c, hc, hiff⟩ := ih (Nat.succ.inj h1) (Nat.succ.inj h2) htail
          refine ⟨c, ?_, ?_⟩
          · unfold strncmp
            rw [if_neg (by simp [hb]), hc]
          · rw [hiff, List.cons.injEq, and_iff_right rfl]
        · refine ⟨_, if_pos (.inl hab), ?_⟩
          rw [toInt8_sub_eq_zero, List.cons.injEq]
          simp [hab]

/-- Two strings compare as equal when their first `n` bytes are the same. -/
theorem strncmp_string {n : Nat} {s1 s2 : List UInt8} (h1 : 0 ∈ s1) (h2 : n ≤ s2.length) :
    ∃ c, strncmp n s1 s2 = some c ∧ (c = 0 ↔ (cString s1).take n = (cString s2).take n) := by
  induction n generalizing s1 s2 with
  | zero => exact ⟨0, rfl, by simp⟩
  | succ n ih =>
    cases s1 with
    | nil => cases h1
    | cons a s1 =>
      cases s2 with
      | nil => cases h2
      | cons b s2 =>
        by_cases hab : a = b
        · subst hab
          by_cases h0 : a = 0
          · subst h0
            refine ⟨_, if_pos (.inr rfl), ?_⟩
            simp
          · have hmem : 0 ∈ s1 := (List.mem_cons.mp h1).resolve_left (Ne.symm h0)
            obtain ⟨c, hc, hiff⟩ := ih hmem (Nat.le_of_succ_le_succ h2)
            refine ⟨c, ?_, ?_⟩
            · unfold strncmp
              rw [if_neg (by simp [h0]), hc]
            · rw [hiff]
              simp [h0]
        · refine ⟨_, if_pos (.inl hab), ?_⟩
          rw [toInt8_sub_eq_zero]
          by_cases ha : a = 0
          · have hb : b ≠ 0 := fun hb => hab (ha.trans hb.symm)
            simp [ha, hb, Ne.symm hb]
          · by_cases hb : b = 0
            · simp [ha, hb]
            · simp [ha, hb, hab]

/-- A NUL behind an area ends its string, if nothing in it does. -/
theorem cString_append_nul (l r : List UInt8) : cString (l ++ 0 :: r) = cString l := by
  by_cases h : 0 ∈ l
  · exact cString_append_of_mem h _
  · have hall := cString_append h []
    rw [List.append_nil] at hall
    rw [hall, cString_append h]
    simp

namespace FileSys

/-- The name of an entry: its bytes up to the first NUL, or all of them. -/
def name (fs : FileSys) (i : Nat) : List UInt8 := cString (fs.dentry i).fname

/-- The entries that the loop of `read_dentry_by_name` goes through. -/
def dentryCount (fs : FileSys) : Nat := (int32 fs.numDentry).toNat

/-- `read_dentry_by_name` with its result and the entry at `dentry`, which is `d` before. -/
def readDentryInto (fs : FileSys) (fname : List UInt8) (d : Dentry) : Option (Int × Dentry) :=
  (fs.readDentryByName fname).map fun found =>
    match found with
    | some d' => (0, d')
    | none => (-1, d)

/-- The result and the output of a lookup of `q` are those of the first entry of this name. -/
structure ExactLookup (fs : FileSys) (q : List UInt8) (d : Dentry) (r : Int) (d' : Dentry) :
    Prop where
  found : r = 0 ↔ ∃ i < fs.dentryCount, fs.name i = q
  first : r = 0 → ∃ i < fs.dentryCount, fs.name i = q ∧ (∀ j < i, fs.name j ≠ q) ∧
    d' = fs.dentry i
  missing : r ≠ 0 → r = -1 ∧ d' = d

variable {fs : FileSys} {fname : List UInt8}

theorem fname_length (fs : FileSys) (i : Nat) : (fs.dentry i).fname.length = 32 :=
  window_length ..

theorem name_length_le (fs : FileSys) (i : Nat) : (fs.name i).length ≤ 32 := by
  rw [← fs.fname_length i]
  exact (List.takeWhile_sublist _).length_le

/-- The search compares the first 32 bytes of the query with each name. -/
theorem dentryLoop_eq (h : 0 ∈ fname) (n i : Nat) :
    fs.dentryLoop fname n i =
      some (((List.range' i n).find? fun k => fs.name k = (cString fname).take 32).map
        fs.dentry) := by
  induction n generalizing i with
  | zero => rfl
  | succ n ih =>
    obtain ⟨c, hc, hiff⟩ := strncmp_string h (Nat.le_of_eq (fs.fname_length i).symm)
    have hname : c = 0 ↔ fs.name i = (cString fname).take 32 := by
      have hfull := List.take_of_length_le (fs.name_length_le i)
      rw [name] at hfull
      rw [hiff, hfull, eq_comm]
      rfl
    unfold dentryLoop
    rw [hc, Option.bind_some, List.range'_succ]
    by_cases h0 : c = 0
    · rw [if_pos h0, List.find?_cons_of_pos (by simpa using hname.mp h0)]
      rfl
    · rw [if_neg h0, List.find?_cons_of_neg (by simpa using mt hname.mpr h0), ih]

theorem readDentryByName_eq (h : 0 ∈ fname) :
    fs.readDentryByName fname =
      some (((List.range fs.dentryCount).find? fun k => fs.name k = (cString fname).take 32).map
        fs.dentry) := by
  rw [readDentryByName, dentryLoop_eq h, List.range_eq_range']
  rfl

/-- The entry that has a name: the first, where several do. -/
def Names (fs : FileSys) (word : List UInt8) (d : Dentry) : Prop :=
  ∃ i < fs.dentryCount, fs.name i = word ∧ (∀ j < i, fs.name j ≠ word) ∧ d = fs.dentry i

theorem Names.length_le {word : List UInt8} {d : Dentry} (h : fs.Names word d) :
    word.length ≤ 32 := by
  obtain ⟨i, -, rfl, -⟩ := h
  exact fs.name_length_le i

theorem Names.unique {word : List UInt8} {d d' : Dentry} (h : fs.Names word d)
    (h' : fs.Names word d') : d = d' := by
  obtain ⟨i, -, hi, hfirst, rfl⟩ := h
  obtain ⟨j, -, hj, hfirst', rfl⟩ := h'
  rcases Nat.lt_trichotomy i j with hlt | rfl | hlt
  · exact absurd hi (hfirst' i hlt)
  · rfl
  · exact absurd hj (hfirst j hlt)

/-- What is found is the entry named by the first 32 bytes of the query. -/
theorem readDentryByName_names (h : 0 ∈ fname) : ∃ found, fs.readDentryByName fname = some found ∧
    ∀ d, found = some d ↔ fs.Names ((cString fname).take 32) d := by
  refine ⟨_, readDentryByName_eq h, fun d => ?_⟩
  rw [Option.map_eq_some_iff]
  constructor
  · rintro ⟨i, hfind, rfl⟩
    obtain ⟨hname, hi, hfirst⟩ := List.find?_range_eq_some.mp hfind
    exact ⟨i, by simpa using hi, by simpa using hname, by simpa using hfirst, rfl⟩
  · rintro ⟨i, hi, hname, hfirst, rfl⟩
    refine ⟨i, List.find?_range_eq_some.mpr ⟨by simpa using hname, by simpa using hi, ?_⟩, rfl⟩
    simpa using hfirst

/-! ## Lookup by name -/

/-- **Lookup is exact.** For every query the result and the output are those of the first
entry whose name is the whole query, unless the query is longer than 32 bytes and its first
32 are the name of some entry. -/
theorem lookup_exact_iff (fs : FileSys) {query : List UInt8} (hquery : 0 ∈ query) (d : Dentry) :
    ∃ r d', fs.readDentryInto query d = some (r, d') ∧
      (fs.ExactLookup (cString query) d r d' ↔
        ¬ (32 < (cString query).length ∧
          ∃ i < fs.dentryCount, fs.name i = (cString query).take 32)) := by
  unfold readDentryInto
  rw [readDentryByName_eq hquery, Option.map_some]
  cases hfind : (List.range fs.dentryCount).find? fun k => fs.name k = (cString query).take 32 with
  | none =>
    have hnone : ∀ i < fs.dentryCount, fs.name i ≠ (cString query).take 32 := fun i hi => by
      simpa using List.find?_eq_none.mp hfind i (List.mem_range.mpr hi)
    refine ⟨-1, d, rfl, iff_of_true ⟨?_, fun h => absurd h (by decide), fun _ => ⟨rfl, rfl⟩⟩ ?_⟩
    · refine iff_of_false (by decide) ?_
      rintro ⟨i, hi, hname⟩
      have hle := fs.name_length_le i
      rw [hname] at hle
      exact hnone i hi (by rw [hname, List.take_of_length_le hle])
    · rintro ⟨-, i, hi, hname⟩
      exact hnone i hi hname
  | some i =>
    obtain ⟨hname, hi, hfirst⟩ := List.find?_range_eq_some.mp hfind
    have hname : fs.name i = (cString query).take 32 := by simpa using hname
    have hi : i < fs.dentryCount := by simpa using hi
    refine ⟨0, fs.dentry i, rfl, ?_⟩
    by_cases hlong : 32 < (cString query).length
    · refine iff_of_false (fun h => ?_) fun h => h ⟨hlong, i, hi, hname⟩
      obtain ⟨j, -, hj⟩ := h.found.mp rfl
      have hle := fs.name_length_le j
      rw [hj] at hle
      omega
    · have hwhole : (cString query).take 32 = cString query :=
        List.take_of_length_le (Nat.le_of_not_lt hlong)
      rw [hwhole] at hname
      refine iff_of_true ⟨iff_of_true rfl ⟨i, hi, hname⟩, fun _ => ⟨i, hi, hname, ?_, rfl⟩,
        fun h => absurd rfl h⟩ fun h => hlong h.1
      intro j hj
      rw [hwhole] at hfirst
      simpa using hfirst j hj

theorem lookup_exact_iff_shell : ∃ r d',
    shellOnly.readDentryInto (Kernel.cText "shell") ⟨[], 0, 0, []⟩ = some (r, d') ∧
      shellOnly.ExactLookup (cString (Kernel.cText "shell")) ⟨[], 0, 0, []⟩ r d' := by
  have hquery : 0 ∈ Kernel.cText "shell" := by decide
  obtain ⟨r, d', hlookup, hiff⟩ := shellOnly.lookup_exact_iff hquery ⟨[], 0, 0, []⟩
  exact ⟨r, d', hlookup, hiff.mpr fun h => absurd h.1 (by decide)⟩

/-- An entry whose name has 32 letters is found under the name with one letter more. -/
theorem lookup_full_width :
    let fs : FileSys := { shellOnly with
      image := fill shellOnly.image dentryStartOffset fnameSize 97 }
    let query := List.replicate 33 97 ++ [0]
    fs.dentryCount = 1 ∧ fs.name 0 = List.replicate 32 97 ∧
      fs.readDentryInto query ⟨[], 0, 0, []⟩ = some (0, fs.dentry 0) ∧
      ¬ fs.ExactLookup (cString query) ⟨[], 0, 0, []⟩ 0 (fs.dentry 0) := by
  intro fs query
  have hname : fs.name 0 = List.replicate 32 97 := by decide +kernel
  have hcount : fs.dentryCount = 1 := by decide +kernel
  refine ⟨hcount, hname, by decide +kernel, fun h => ?_⟩
  obtain ⟨i, hi, hfound⟩ := h.found.mp rfl
  have hzero : i = 0 := by omega
  rw [hzero, hname] at hfound
  revert hfound
  decide

/-! ## Lookup of what is listed -/

/-- The file system when the directory has been opened and `k` entries have been read. -/
def afterReads (fs : FileSys) : Nat → FileSys
  | 0 => fs.openDir
  | k + 1 => (afterReads fs k).readDir.2.2

/-- An entry that the search by name goes through is one that the listing goes through. -/
theorem dentryCount_eq {k : Nat} (hk : k < fs.dentryCount) :
    fs.numDentry < 2 ^ 31 ∧ fs.dentryCount = fs.numDentry := by
  have hentries : fs.numDentry < 2 ^ 31 := by
    by_contra hlarge
    rw [dentryCount, numDentry_negative hlarge] at hk
    exact Nat.not_lt_zero k hk
  refine ⟨hentries, ?_⟩
  rw [dentryCount, int32_of_lt hentries, Int.toNat_natCast]

theorem readDir_next (fs : FileSys) {k : Nat} (hentries : fs.numDentry < 2 ^ 31)
    (hk : k < fs.numDentry) :
    FileSys.readDir { fs with readDirIndex := k } =
      (32, (fs.dentry k).fname, { fs with readDirIndex := (k + 1 : Nat) }) := by
  have hdir : DirOk { fs with readDirIndex := k } :=
    ⟨hentries, Int.natCast_nonneg k, Int.ofNat_le.mpr (Nat.le_of_lt hk)⟩
  obtain ⟨hout, hnext⟩ := hdir.readDir
  have hlisting : listing { fs with readDirIndex := k } k = (32, (fs.dentry k).fname) := if_pos hk
  rw [Int.toNat_natCast, hlisting] at hout
  rw [Int.toNat_natCast, if_pos (show k < numDentry { fs with readDirIndex := k } from hk)] at hnext
  obtain ⟨hret, hname⟩ := Prod.mk.inj hout
  exact Prod.ext hret (Prod.ext hname hnext)

theorem afterReads_eq (fs : FileSys) {k : Nat} (hentries : fs.numDentry < 2 ^ 31)
    (hk : k ≤ fs.numDentry) : fs.afterReads k = { fs with readDirIndex := k } := by
  induction k with
  | zero => rfl
  | succ k ih => rw [afterReads, ih (Nat.le_of_succ_le hk), readDir_next fs hentries hk]

/-- **What is listed can be opened.** In an image with different names, the `k`-th read of a
directory delivers 32 bytes that, with a NUL behind them, name the `k`-th entry. -/
theorem listed_name_found (fs : FileSys)
    (hnames : ∀ i < fs.dentryCount, ∀ j < fs.dentryCount, fs.name i = fs.name j → i = j)
    {k : Nat} (hk : k < fs.dentryCount) :
    ∃ out, (fs.afterReads k).readDir = (32, out, fs.afterReads (k + 1)) ∧ out.length = 32 ∧
      fs.readDentryByIndex k = some (fs.dentry k) ∧
      ∀ rest, fs.readDentryByName (out ++ 0 :: rest) = some (fs.readDentryByIndex k) := by
  obtain ⟨hentries, hcount⟩ := dentryCount_eq hk
  have hlt : k < fs.numDentry := hcount ▸ hk
  have hindex : fs.readDentryByIndex k = some (fs.dentry k) := if_neg (Nat.not_le_of_lt hlt)
  refine ⟨(fs.dentry k).fname, ?_, fs.fname_length k, hindex, fun rest => ?_⟩
  · rw [afterReads_eq fs hentries (Nat.le_of_lt hlt), afterReads_eq fs hentries hlt]
    exact readDir_next fs hentries hlt
  · have hfull : (fs.name k).take 32 = fs.name k := List.take_of_length_le (fs.name_length_le k)
    have hquery : cString ((fs.dentry k).fname ++ 0 :: rest) = fs.name k :=
      cString_append_nul _ _
    have hfind : (List.range fs.dentryCount).find? (fun i => fs.name i = fs.name k) = some k := by
      rw [List.find?_range_eq_some]
      refine ⟨by simp, by simpa using hk, fun j hj => ?_⟩
      have hne : fs.name j ≠ fs.name k := fun h =>
        absurd (hnames j (Nat.lt_trans hj hk) k hk h) (Nat.ne_of_lt hj)
      simpa using hne
    rw [readDentryByName_eq (by simp), hquery, hfull, hfind, hindex]
    rfl

/-- `shellOnly` with a second entry, whose name takes all 32 bytes. -/
def longNamed : FileSys where
  image := Function.update (fill shellOnly.image (dentryStartOffset + 64) fnameSize 97) 0 2
  readDirIndex := 0

theorem listed_name_found_longNamed : longNamed.name 0 = [115, 104, 101, 108, 108] ∧
    longNamed.name 1 = List.replicate 32 97 ∧ ∃ out,
    (longNamed.afterReads 1).readDir = (32, out, longNamed.afterReads 2) ∧ out.length = 32 ∧
      longNamed.readDentryByIndex 1 = some (longNamed.dentry 1) ∧
      ∀ rest, longNamed.readDentryByName (out ++ 0 :: rest) =
        some (longNamed.readDentryByIndex 1) := by
  have hcount : longNamed.dentryCount = 2 := by decide +kernel
  have hnames : ∀ i < 2, ∀ j < 2, longNamed.name i = longNamed.name j → i = j := by
    decide +kernel
  refine ⟨by decide +kernel, by decide +kernel, longNamed.listed_name_found ?_ ?_⟩
  · rw [hcount]
    exact hnames
  · rw [hcount]
    exact Nat.lt_succ_self 1

end FileSys

end OS391
