import OS391.Screen

/-! The screen of a terminal as a window on its transcript: the rows without end on which
every character written so far would stand. -/

namespace OS391
open Library.Runs Library.Bytes

/-- Rows of 80 cells, one after another, and the cell where the next character goes. -/
structure Transcript where
  text : Nat → UInt8
  pos : Nat

namespace Transcript

def blank : Transcript := ⟨fun _ => space, 0⟩

def put (tr : Transcript) (c : UInt8) : Transcript :=
  if c = newline ∨ c = carriageReturn then { tr with pos := 80 * (tr.pos / 80 + 1) }
  else ⟨Function.update tr.text tr.pos c, tr.pos + 1⟩

def row (tr : Transcript) (r : Nat) : List UInt8 := window tr.text (80 * r) 80

/-- Nothing has been written from the cursor on. -/
def Fresh (tr : Transcript) : Prop := ∀ i, tr.pos ≤ i → tr.text i = space

theorem Fresh.put {tr : Transcript} (h : tr.Fresh) (c : UInt8) : (tr.put c).Fresh := by
  intro i hi
  unfold Transcript.put at hi ⊢
  by_cases hc : c = newline ∨ c = carriageReturn
  · rw [if_pos hc] at hi ⊢
    dsimp only at hi ⊢
    exact h i (by omega)
  · rw [if_neg hc] at hi ⊢
    dsimp only at hi ⊢
    rw [Function.update_of_ne (by omega)]
    exact h i (by omega)

end Transcript

namespace Screen

/-! ## One screen -/

/-- The cells of the screen are those of the transcript from row `shift` on. -/
structure ShowsFrom (scr : Screen) (tr : Transcript) (shift : Nat) : Prop where
  cells : ∀ i, i < 2000 → scr.page (2 * i) = tr.text (i + 80 * shift)
  cursor : scr.pos + 80 * shift = tr.pos

def IsWindow (scr : Screen) (tr : Transcript) : Prop := ∃ shift, scr.ShowsFrom tr shift

/-- A newline from the place after the last row finds only blanks below the first row. -/
def NewlineOk (scr : Screen) (c : UInt8) : Prop :=
  c = newline ∨ c = carriageReturn → scr.pos = 2000 →
    ∀ i, 80 ≤ i → i < 2000 → scr.page (2 * i) = space

variable {scr : Screen} {tr : Transcript} {shift : Nat}

theorem scrollPage_cell (m : Nat → UInt8) {i : Nat} (hi : i < 2000) :
    scrollPage m (2 * i) = if i < 1920 then m (2 * (i + 80)) else space := by
  unfold scrollPage
  by_cases hrow : i < 1920
  · rw [if_pos (by omega), if_pos (by omega), if_pos hrow]
    congr 1
  · rw [if_neg (by omega), if_pos (by omega), if_pos (by omega), if_neg hrow]

/-- One row further down, if the transcript is blank where the new row comes from. -/
theorem ShowsFrom.scrolled_cells (h : scr.ShowsFrom tr shift) (hf : tr.Fresh)
    (hpos : tr.pos ≤ 2000 + 80 * shift) (i : Nat) (hi : i < 2000) :
    scr.scrolled.page (2 * i) = tr.text (i + 80 * (shift + 1)) := by
  show scrollPage scr.page (2 * i) = _
  rw [scrollPage_cell _ hi]
  by_cases hrow : i < 1920
  · rw [if_pos hrow, h.cells _ (by omega)]
    congr 1
    omega
  · rw [if_neg hrow, hf _ (by omega)]

theorem ShowsFrom.ready (h : scr.ShowsFrom tr shift) (hf : tr.Fresh) :
    ∃ shift', scr.ready.ShowsFrom tr shift' := by
  have hcursor := h.cursor
  unfold Screen.ready
  by_cases hp : scr.pos = 2000
  · rw [if_pos hp]
    refine ⟨shift + 1, h.scrolled_cells hf (by omega), ?_⟩
    show 1920 + 80 * (shift + 1) = tr.pos
    omega
  · rw [if_neg hp]
    exact ⟨shift, h⟩

theorem ShowsFrom.char (h : scr.ShowsFrom tr shift) (hp : scr.pos < 2000) (c : UInt8) :
    ShowsFrom ⟨(scr.write c).page, scr.pos + 1, hp⟩
      ⟨Function.update tr.text tr.pos c, tr.pos + 1⟩ shift := by
  have hcursor := h.cursor
  refine ⟨fun i hi => ?_, ?_⟩
  · show Function.update (Function.update scr.page (2 * scr.pos) c) (2 * scr.pos + 1) attrib
      (2 * i) = Function.update tr.text tr.pos c (i + 80 * shift)
    rw [Function.update_of_ne (by omega)]
    by_cases hc : i = scr.pos
    · rw [hc, Function.update_self, hcursor, Function.update_self]
    · rw [Function.update_of_ne (by omega), Function.update_of_ne (by omega)]
      exact h.cells i hi
  · show scr.pos + 1 + 80 * shift = tr.pos + 1
    omega

/-- Rows that are all like the row below are blank, if blanks come in the end. -/
theorem rows_blank (text : Nat → UInt8) (hrow : ∀ i, 80 ≤ i → i < 2000 → text i = text (i + 80))
    (hend : ∀ i, 2000 ≤ i → text i = space) {i : Nat} (hi : 80 ≤ i) : text i = space := by
  by_cases hlt : i < 2000
  · rw [hrow i hi hlt]
    exact rows_blank text hrow hend (by omega)
  · exact hend i (by omega)
termination_by 2000 - i

/-- A newline that is swallowed shifts by one row where the transcript moves by two. -/
theorem ShowsFrom.scrolled_iff (h : scr.ShowsFrom tr shift) (hf : tr.Fresh)
    (hp : scr.pos = 2000) :
    scr.scrolled.IsWindow { tr with pos := 80 * (tr.pos / 80 + 1) } ↔
      ∀ i, 80 ≤ i → i < 2000 → scr.page (2 * i) = space := by
  have hcursor := h.cursor
  have hdiv : tr.pos / 80 = 25 + shift := by omega
  constructor
  · rintro ⟨shift', hcells, hcursor'⟩ i hlo hi
    have hshift : shift' = shift + 2 := by
      have hpos : 1920 + 80 * shift' = 80 * (tr.pos / 80 + 1) := hcursor'
      omega
    subst hshift
    rw [h.cells i hi]
    refine rows_blank (fun i => tr.text (i + 80 * shift)) (fun j hlo hj => ?_)
      (fun j hj => hf _ (by omega)) hlo
    -- row `j` has come to the place that the row below it should have
    have hcell := hcells (j - 80) (by omega)
    have hscroll : scr.scrolled.page (2 * (j - 80)) = scr.page (2 * j) := by
      show scrollPage scr.page (2 * (j - 80)) = _
      rw [scrollPage_cell _ (by omega), if_pos (by omega), Nat.sub_add_cancel hlo]
    dsimp only at hcell ⊢
    rw [← h.cells j hj, ← hscroll, hcell]
    congr 1
    omega
  · intro hblank
    refine ⟨shift + 2, fun i hi => ?_, ?_⟩
    · show scrollPage scr.page (2 * i) = tr.text _
      have hspace : tr.text (i + 80 * (shift + 2)) = space := by
        by_cases hin : i + 160 < 2000
        · rw [show i + 80 * (shift + 2) = i + 160 + 80 * shift by omega, ← h.cells _ hin]
          exact hblank _ (by omega) hin
        · exact hf _ (by omega)
      rw [scrollPage_cell _ hi, hspace]
      by_cases hrow : i < 1920
      · rw [if_pos hrow]
        exact hblank _ (by omega) (by omega)
      · rw [if_neg hrow]
    · show 1920 + 80 * (shift + 2) = 80 * (tr.pos / 80 + 1)
      omega

/-- A character keeps the window exactly when it is not a newline that is swallowed. -/
theorem put_isWindow_iff (h : scr.IsWindow tr) (hf : tr.Fresh) (c : UInt8) :
    (scr.put c).IsWindow (tr.put c) ↔ scr.NewlineOk c := by
  obtain ⟨shift, hfrom⟩ := h
  have hcursor := hfrom.cursor
  have hpos := scr.onScreen
  unfold put Transcript.put NewlineOk
  by_cases hc : c = newline ∨ c = carriageReturn
  · rw [if_pos hc, if_pos hc]
    by_cases hp : scr.pos = 2000
    · rw [dif_neg (by omega), hfrom.scrolled_iff hf hp]
      exact ⟨fun hblank _ _ => hblank, fun hok => hok hc hp⟩
    · refine iff_of_true ?_ fun _ hp' => absurd hp' hp
      by_cases hrow : scr.pos / 80 < 24
      · rw [dif_pos hrow]
        refine ⟨shift, hfrom.cells, ?_⟩
        show 80 * (scr.pos / 80 + 1) + 80 * shift = 80 * (tr.pos / 80 + 1)
        omega
      · rw [dif_neg hrow]
        refine ⟨shift + 1, hfrom.scrolled_cells hf (by omega), ?_⟩
        show 1920 + 80 * (shift + 1) = 80 * (tr.pos / 80 + 1)
        omega
  · rw [if_neg hc, if_neg hc]
    obtain ⟨shift', hready⟩ := hfrom.ready hf
    exact iff_of_true ⟨shift', hready.char scr.ready_pos_lt c⟩ fun hc' => absurd hc' hc

end Screen

namespace Console

/-! ## A terminal's screen -/

/-- Row `r` of the screen of `t`, as text. -/
def textRow (s : Console) (t : Terminal) (r : Nat) : List UInt8 :=
  (List.range 80).map fun x => s.videoMem (s.pageBase t + 2 * (80 * r + x))

def blankRow : List UInt8 := List.replicate 80 space

/-- The rows of the screen of `t` are those of the transcript from some row on, and its
cursor is the transcript's, as many rows higher. -/
def IsWindow (s : Console) (t : Terminal) (tr : Transcript) : Prop :=
  ∃ shift : Nat, (∀ r < 25, s.textRow t r = tr.row (r + shift)) ∧
    s.screenX t = (tr.pos % 80 : Nat) ∧ s.screenY t + shift = (tr.pos / 80 : Nat)

/-- The state that `clear` leaves the displayed terminal in. -/
structure Cleared (s : Console) (t : Terminal) : Prop where
  rows : ∀ r < 25, s.textRow t r = blankRow
  x : s.screenX t = 0
  y : s.screenY t = 0

/-- The operations that write characters, and those that switch terminals. -/
def Writes : ConsoleOp → Prop
  | .deleteC | .clear => False
  | _ => True

instance : DecidablePred Writes := fun op =>
  match op with
  | .deleteC | .clear => isFalse id
  | .putcScroll _ | .putcScrollDisplay _ | .setActiveTerminal _ | .setDisiplayTerminal _ =>
    isTrue trivial

/-- The character that an operation writes. -/
def character : ConsoleOp → Option UInt8
  | .putcScroll c | .putcScrollDisplay c => some c
  | _ => none

/-- The transcript of terminal `t`, which the characters addressed to `t` go to. -/
def noted (t : Terminal) (tr : Transcript) (s : Console) (op : ConsoleOp) : Transcript :=
  if s.addressee op = some t then ((character op).map tr.put).getD tr else tr

/-- A newline for `t` that finds the cursor on row 25, where a full last row leaves it,
finds rows 1 to 24 blank. -/
def RowKept (t : Terminal) (s : Console) (op : ConsoleOp) : Prop :=
  ∀ c, s.addressee op = some t → character op = some c → c = newline ∨ c = carriageReturn →
    s.screenY t = 25 → ∀ r, 1 ≤ r → r < 25 → s.textRow t r = blankRow

section Shown

variable {s : Console} {t : Terminal} {scr : Screen} (h : Shows s t scr)
include h

theorem Shows.textRow_eq_iff {r : Nat} (hr : r < 25) (f : Nat → UInt8) :
    s.textRow t r = (List.range 80).map f ↔
      ∀ x, x < 80 → scr.page (2 * (80 * r + x)) = f x := by
  have hcell : ∀ x, x < 80 → s.videoMem (s.pageBase t + 2 * (80 * r + x)) =
      scr.page (2 * (80 * r + x)) := fun x hx => h.page _ (by omega)
  unfold textRow
  rw [List.map_inj_left]
  constructor
  · intro hrow x hx
    rw [← hcell x hx]
    exact hrow x (List.mem_range.mpr hx)
  · intro hrow x hx
    rw [hcell x (List.mem_range.mp hx)]
    exact hrow x (List.mem_range.mp hx)

theorem Shows.rows_iff (lo shift : Nat) (text : Nat → UInt8) :
    (∀ r, lo ≤ r → r < 25 →
      s.textRow t r = (List.range 80).map fun x => text (80 * (r + shift) + x)) ↔
      ∀ i, 80 * lo ≤ i → i < 2000 → scr.page (2 * i) = text (i + 80 * shift) := by
  constructor
  · intro hrows i hlo hi
    have hr : i / 80 < 25 := by omega
    have hcell := (h.textRow_eq_iff hr _).mp (hrows _ (by omega) hr) (i % 80) (by omega)
    rw [Nat.div_add_mod] at hcell
    rw [hcell]
    congr 1
    omega
  · intro hcells r hlo hr
    refine (h.textRow_eq_iff hr _).mpr fun x hx => ?_
    rw [hcells _ (by omega) (by omega)]
    congr 1
    omega

theorem Shows.isWindow_iff (tr : Transcript) : s.IsWindow t tr ↔ scr.IsWindow tr := by
  have hrows (shift : Nat) : (∀ r < 25, s.textRow t r = tr.row (r + shift)) ↔
      ∀ i, i < 2000 → scr.page (2 * i) = tr.text (i + 80 * shift) := by
    have hiff := h.rows_iff 0 shift tr.text
    simp only [Nat.mul_zero, Nat.zero_le, true_implies] at hiff
    exact hiff
  have hx := h.x
  have hy := h.y
  have hpos := scr.onScreen
  constructor
  · rintro ⟨shift, hr, hcx, hcy⟩
    exact ⟨shift, (hrows shift).mp hr, by omega⟩
  · rintro ⟨shift, hcells, hcursor⟩
    exact ⟨shift, (hrows shift).mpr hcells, by omega, by omega⟩

theorem Shows.blank_iff (lo : Nat) :
    (∀ r, lo ≤ r → r < 25 → s.textRow t r = blankRow) ↔
      ∀ i, 80 * lo ≤ i → i < 2000 → scr.page (2 * i) = space := by
  have hblank : blankRow = (List.range 80).map fun _ => space := by decide
  rw [hblank]
  exact h.rows_iff lo 0 fun _ => space

theorem Shows.cleared_isWindow (hc : s.Cleared t) : scr.IsWindow .blank := by
  have hcells := (h.blank_iff 0).mp fun r _ hr => hc.rows r hr
  have hx := h.x.symm.trans hc.x
  have hy := h.y.symm.trans hc.y
  refine ⟨0, fun i hi => hcells i (by omega) hi, ?_⟩
  show scr.pos + 80 * 0 = 0
  omega

theorem Shows.newlineOk_iff (c : UInt8) :
    scr.NewlineOk c ↔ (c = newline ∨ c = carriageReturn → s.screenY t = 25 →
      ∀ r, 1 ≤ r → r < 25 → s.textRow t r = blankRow) := by
  have hy := h.y
  have hpos := scr.onScreen
  have hlast : scr.pos = 2000 ↔ s.screenY t = 25 := by omega
  unfold Screen.NewlineOk
  rw [h.blank_iff 1, hlast]

end Shown

/-! ## Runs -/

theorem writes_total {s : Console} {op : ConsoleOp} (hop : Writes op)
    (h : ∀ v, ∃ scr, Shows s v scr) : ∃ s', s.step op = some s' := by
  cases ha : s.addressee op with
  | none =>
    obtain ⟨s', hs', -⟩ := step_switch ha
    exact ⟨s', hs'⟩
  | some t =>
    obtain ⟨scr, hscr⟩ := h t
    obtain ⟨scr', hput⟩ : ∃ scr', scr.step op = some scr' := by
      cases op with
      | deleteC => exact hop.elim
      | _ => exact ⟨_, rfl⟩
    obtain ⟨s', hs', -, -⟩ := step_addressed ha hscr hput
    exact ⟨s', hs'⟩

theorem writes_addressed {s : Console} {op : ConsoleOp} {t : Terminal} (hop : Writes op)
    (ha : s.addressee op = some t) : ∃ c, character op = some c ∧
      ∀ scr : Screen, scr.step op = some (scr.put c) := by
  cases op with
  | putcScroll c => exact ⟨c, rfl, fun _ => rfl⟩
  | putcScrollDisplay c => exact ⟨c, rfl, fun _ => rfl⟩
  | deleteC => exact hop.elim
  | clear => exact hop.elim
  | setActiveTerminal d => cases ha
  | setDisiplayTerminal d => cases ha

theorem noted_fresh {t : Terminal} {tr : Transcript} (h : tr.Fresh) (s : Console)
    (op : ConsoleOp) : (noted t tr s op).Fresh := by
  unfold noted
  split
  · cases character op with
    | none => exact h
    | some c => exact h.put c
  · exact h

/-- One operation keeps the window exactly when it swallows no newline. -/
theorem noted_isWindow_iff {s s' : Console} {t : Terminal} {tr : Transcript} {op : ConsoleOp}
    (hop : Writes op) (h : ∀ v, ∃ scr, Shows s v scr) (hf : tr.Fresh) (hw : s.IsWindow t tr)
    (hs : s.step op = some s') : s'.IsWindow t (noted t tr s op) ↔ RowKept t s op := by
  obtain ⟨scr, hscr⟩ := h t
  have hwin := (hscr.isWindow_iff tr).mp hw
  unfold noted RowKept
  by_cases ha : s.addressee op = some t
  · obtain ⟨c, hc, hput⟩ := writes_addressed hop ha
    obtain ⟨s₁, hs₁, hshow, -⟩ := step_addressed ha hscr (hput scr)
    cases hs.symm.trans hs₁
    rw [if_pos ha, hc, Option.map_some, Option.getD_some, hshow.isWindow_iff,
      Screen.put_isWindow_iff hwin hf, hscr.newlineOk_iff]
    constructor
    · rintro hok c' - hc'
      cases hc'
      exact hok
    · exact fun hok => hok c ha rfl
  · have hshow : Shows s' t scr := hscr.of_logical_eq (step_other h hs ha)
    rw [if_neg ha, hshow.isWindow_iff]
    exact iff_of_true hwin fun _ ha' => absurd ha' ha

/-- What all terminals together keep: a screen each, and a transcript blank from its end on. -/
def Sound (x : Console × Transcript) : Prop := (∀ v, ∃ scr, Shows x.1 v scr) ∧ x.2.Fresh

theorem recorded_sound {t : Terminal} {x y : Console × Transcript} {op : ConsoleOp}
    (h : Sound x) (hs : recorded step (noted t) x op = some y) : Sound y := by
  obtain ⟨hs, htr⟩ := (recorded_eq_some step (noted t)).mp hs
  exact ⟨step_shows h.1 hs, htr ▸ noted_fresh h.2 x.1 op⟩

theorem recorded_total {t : Terminal} {x : Console × Transcript} (h : Sound x)
    {ops : List ConsoleOp} (hops : ∀ op ∈ ops, Writes op) :
    ∃ y, run (recorded step (noted t)) x ops = some y := by
  induction ops generalizing x with
  | nil => exact ⟨x, rfl⟩
  | cons op ops ih =>
    obtain ⟨hop, hops⟩ := List.forall_mem_cons.mp hops
    obtain ⟨s', hs'⟩ := writes_total hop h.1
    have hstep : recorded step (noted t) x op = some (s', noted t x.2 x.1 op) :=
      (recorded_eq_some step (noted t)).mpr ⟨hs', rfl⟩
    obtain ⟨y, hy⟩ := ih (recorded_sound h hstep) hops
    exact ⟨y, by rw [run_cons, hstep, Option.bind_some, hy]⟩

/-- **The screen as a window.** Whatever is written to the terminals, in any order, does not
fault. From a cleared screen on, the screen of `t` is a window on its transcript in every
state if and only if no newline comes while the cursor is on row 25, unless rows 1 to 24
are blank then. -/
theorem screen_isWindow_iff (s : Console) (hs : ∀ v, s.OnScreen v) {t : Terminal}
    (hclear : s.Cleared t) (ops : List ConsoleOp) (hops : ∀ op ∈ ops, Writes op) :
    ∃ y, run (recorded step (noted t)) (s, .blank) ops = some y ∧
      ((∀ pre u tr, pre <+: ops →
          run (recorded step (noted t)) (s, .blank) pre = some (u, tr) → u.IsWindow t tr) ↔
        Path (recorded step (noted t)) (fun x op => RowKept t x.1 op) (s, .blank) ops y) := by
  have hsound : Sound (s, .blank) := ⟨fun v => (hs v).shows, fun _ _ => rfl⟩
  obtain ⟨y, hy⟩ := recorded_total (t := t) hsound hops
  obtain ⟨scr, hscr⟩ := hsound.1 t
  have hwin : s.IsWindow t .blank := (hscr.isWindow_iff _).mpr (hscr.cleared_isWindow hclear)
  refine ⟨y, hy, ?_⟩
  rw [← prefixes_iff Writes Sound (fun x => x.1.IsWindow t x.2)
    (fun _ _ _ _ h hs => recorded_sound h hs) (fun x op z hop h hw hz => ?_) hy hops hsound hwin]
  · exact ⟨fun h pre x hpre hx => h pre x.1 x.2 hpre hx, fun h pre u tr hpre hu => h pre _ hpre hu⟩
  · obtain ⟨hz, htr⟩ := (recorded_eq_some step (noted t)).mp hz
    rw [← htr]
    exact noted_isWindow_iff hop h.1 h.2 hw hz

theorem clear_cleared {s : Console} (h : s.OnScreen s.displayTerminal) :
    s.clear.Cleared s.displayTerminal := by
  obtain ⟨scr, hscr⟩ := h.shows
  have hclear := (clear_shows hscr rfl).1
  have hrows := (hclear.blank_iff 0).mpr fun i _ hi => by
    show (if 2 * i < 4000 then (if 2 * i % 2 = 0 then space else attrib) else _) = space
    rw [if_pos (by omega), if_pos (by omega)]
  have hhome : scr.clear.pos = 0 := rfl
  have hx := hclear.x
  have hy := hclear.y
  rw [hhome] at hx hy
  exact ⟨fun r hr => hrows r (Nat.zero_le r) hr, hx, hy⟩

theorem boot_onScreen (v : Terminal) : boot.OnScreen v := by simp [OnScreen, boot]

theorem boot_clear_onScreen (v : Terminal) : boot.clear.OnScreen v := by
  simp [OnScreen, clear, setCursor, updateCursor, boot]

theorem rowKept_iff (t : Terminal) (s : Console) (op : ConsoleOp) :
    (¬ (s.addressee op = some t ∧ s.screenY t = 25 ∧
        (character op = some newline ∨ character op = some carriageReturn)) ∨
      ∀ r ∈ List.range 25, r = 0 ∨ s.textRow t r = blankRow) ↔ RowKept t s op := by
  rw [← imp_iff_not_or]
  constructor
  · intro h c ha hc hn hy r hr hlt
    have hends : character op = some newline ∨ character op = some carriageReturn := by
      rw [hc]
      exact hn.imp (congrArg some) (congrArg some)
    exact (h ⟨ha, hy, hends⟩ r (List.mem_range.mpr hlt)).resolve_left (by omega)
  · rintro h ⟨ha, hy, hends⟩ r hr
    refine (Nat.eq_zero_or_pos r).imp_right fun hpos => ?_
    obtain hc | hc := hends
    · exact h newline ha hc (.inl rfl) hy r hpos (List.mem_range.mp hr)
    · exact h carriageReturn ha hc (.inr rfl) hy r hpos (List.mem_range.mp hr)

instance (t : Terminal) (s : Console) (op : ConsoleOp) : Decidable (RowKept t s op) :=
  decidable_of_iff _ (rowKept_iff t s op)

/-- An `A`, 24 newlines, and a `B` on the last row, which a newline scrolls up. -/
theorem screen_isWindow_iff_boot :
    let ops : List ConsoleOp := .putcScroll 65 :: List.replicate 24 (.putcScroll newline) ++
      [.putcScroll 66, .putcScroll newline]
    ∃ u tr, run (recorded step (noted 0)) (boot.clear, .blank) ops = some (u, tr) ∧
      u.screenY 0 = 24 ∧ tr.pos = 80 * 25 ∧ (u.textRow 0 23).head? = some 66 ∧ u.IsWindow 0 tr := by
  intro ops
  obtain ⟨x, hx, hy, hpos, hrow⟩ := exists_of_map_decide
    (fun x : Console × Transcript => x.1.screenY 0 = 24 ∧ x.2.pos = 80 * 25 ∧
      (x.1.textRow 0 23).head? = some 66)
    (x := guardedRun (recorded step (noted 0)) (fun x op => RowKept 0 x.1 op)
      (boot.clear, .blank) ops) (by decide +kernel)
  have hclear : boot.clear.Cleared 0 := clear_cleared (boot_onScreen 0)
  have hpath := path_of_guardedRun hx
  obtain ⟨y, hrun, hiff⟩ := screen_isWindow_iff boot.clear boot_clear_onScreen hclear ops
    (by decide)
  cases hrun.symm.trans hpath.run_eq
  exact ⟨x.1, x.2, hrun, hy, hpos, hrow, hiff.mpr hpath _ _ _ List.prefix_rfl hrun⟩

/-- On a full last row a newline scrolls by one row, where anywhere else it would leave a
row blank: the row of `A`s is where the blank row of the transcript should be. -/
theorem newline_swallowed :
    let ops : List ConsoleOp := List.replicate 24 (.putcScroll newline) ++
      List.replicate 80 (.putcScroll 65) ++ [.putcScroll newline]
    boot.clear.Cleared 0 ∧ ∃ u tr,
      run (recorded step (noted 0)) (boot.clear, .blank) ops = some (u, tr) ∧
      u.screenY 0 = 24 ∧ tr.pos = 80 * 26 ∧ (u.textRow 0 23).head? = some 65 ∧
      tr.row 25 = blankRow ∧ ¬ u.IsWindow 0 tr := by
  intro ops
  obtain ⟨⟨u, tr⟩, hrun, hy, hpos, hrow, hblank⟩ := exists_of_map_decide
    (fun x : Console × Transcript => x.1.screenY 0 = 24 ∧ x.2.pos = 80 * 26 ∧
      (x.1.textRow 0 23).head? = some 65 ∧ x.2.row 25 = blankRow)
    (x := run (recorded step (noted 0)) (boot.clear, .blank) ops) (by decide +kernel)
  refine ⟨clear_cleared (boot_onScreen 0), u, tr, hrun, hy, hpos, hrow, hblank, ?_⟩
  rintro ⟨shift, hrows, -, hcursor⟩
  dsimp only at hy hpos hrow hblank
  have hshift : shift = 2 := by
    rw [hy, hpos] at hcursor
    omega
  have hsame := hrows 23 (by decide)
  rw [hsame, hshift, hblank] at hrow
  revert hrow
  decide

end Console

end OS391
