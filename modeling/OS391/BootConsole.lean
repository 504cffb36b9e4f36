import OS391.Console
import OS391.Library.Stores
import OS391.NumberFormat

/-! The console of `lib.c` on which the kernel prints while it boots. It does not scroll. -/

namespace OS391
open Library.Runs Library.Bytes Library.Stores

structure BootConsole where
  /-- The bytes from `video_mem` on. -/
  videoMem : Nat → UInt8
  screenX : Nat
  screenY : Nat

namespace BootConsole

/-- `NUM_COLS` and `NUM_ROWS`, for numbers that are never negative. -/
abbrev columns : Nat := 80
abbrev rows : Nat := 25

/-- At power-up `screen_x` and `screen_y` are 0, whatever is on the screen. -/
def start (videoMem : Nat → UInt8) : BootConsole := ⟨videoMem, 0, 0⟩

def isNewline (b : UInt8) : Bool := b = newline ∨ b = carriageReturn

/-- What `putc` stores at the cell of the cursor. -/
def stores (c : BootConsole) (b : UInt8) : List (Nat × UInt8) :=
  if isNewline b then []
  else
    let off := 2 * (columns * c.screenY + c.screenX)
    [(off, b), (off + 1, attrib)]

/-- `putc`. The column has lost what was carried when the row is computed from it. -/
def putc (c : BootConsole) (b : UInt8) : BootConsole :=
  if isNewline b then { c with screenY := c.screenY + 1, screenX := 0 }
  else
    let screenX := (c.screenX + 1) % columns
    ⟨put c.videoMem (c.stores b), screenX, (c.screenY + screenX / columns) % rows⟩

def puts (c : BootConsole) (m : Nat → UInt8) (s : Nat) : Option BootConsole :=
  (Lib.puts m s).map fun text => text.foldl putc c

def printf (c : BootConsole) (mem : Nat → UInt8) (stack : Nat → Nat → UInt8)
    (format : List UInt8) (esp : List Nat) : Option BootConsole :=
  (Lib.printf mem stack format esp).map fun r => r.1.foldl putc c

/-! ## Characters on the screen -/

def step (c : BootConsole) (b : UInt8) : Option BootConsole := some (c.putc b)

/-- Row and column of the character before, if it was placed. -/
def note (_ : Option (Nat × Nat)) (c : BootConsole) (b : UInt8) : Option (Nat × Nat) :=
  if isNewline b then none else some (c.screenY, c.screenX)

/-- A character leaves all on the screen, and goes on in the next row after column 79. -/
structure OnScreen (x : BootConsole × Option (Nat × Nat)) (b : UInt8) : Prop where
  stores : Within (x.1.stores b) 0 (2 * (rows * columns))
  column : (x.1.putc b).screenX < columns
  row : (x.1.putc b).screenY < rows
  wraps : isNewline b = false → ∀ row, x.2 = some (row, columns - 1) →
    x.1.screenY = (row + 1) % rows ∧ x.1.screenX = 0

/-- A text for one screen: at most 25 lines, of at most 80 characters each. -/
def Fits (text : List UInt8) : Prop :=
  (text.splitOnP isNewline).length ≤ rows ∧
    ∀ line ∈ text.splitOnP isNewline, line.length ≤ columns

instance (text : List UInt8) : Decidable (Fits text) :=
  inferInstanceAs (Decidable (_ ∧ _))

/-- The cursor after `r` characters of the line in row `y`. -/
structure InLine (y r : Nat) (x : BootConsole × Option (Nat × Nat)) : Prop where
  row : x.1.screenY = y
  column : x.1.screenX = r % columns
  last : ∀ row, x.2 = some (row, columns - 1) ↔ row = y ∧ r = columns

theorem inLine_newline {y r : Nat} {x : BootConsole × Option (Nat × Nat)} {b : UInt8}
    (h : InLine y r x) (hb : isNewline b = true) :
    InLine (y + 1) 0 (x.1.putc b, note x.2 x.1 b) ∧ (OnScreen x b ↔ y + 1 < rows) := by
  have hput : x.1.putc b = { x.1 with screenY := x.1.screenY + 1, screenX := 0 } := if_pos hb
  have hnote : note x.2 x.1 b = none := if_pos hb
  have hstores : x.1.stores b = [] := if_pos hb
  rw [hput, hnote]
  refine ⟨⟨congrArg (· + 1) h.row, rfl, fun row => ?_⟩, fun hon => ?_, fun hy => ?_⟩
  · exact iff_of_false nofun fun hr => absurd hr.2 (by decide)
  · have hrow := hon.row
    rw [hput] at hrow
    exact h.row ▸ hrow
  · refine ⟨?_, ?_, ?_, fun hplain => ?_⟩
    · rw [hstores]
      exact nofun
    · rw [hput]
      show 0 < columns
      decide
    · rw [hput]
      exact h.row.symm ▸ hy
    · rw [hb] at hplain
      cases hplain

theorem putc_plain (c : BootConsole) {b : UInt8} (hb : isNewline b = false)
    (hy : c.screenY < rows) :
    (c.putc b).screenX = (c.screenX + 1) % columns ∧ (c.putc b).screenY = c.screenY := by
  have hput : c.putc b = ⟨put c.videoMem (c.stores b), (c.screenX + 1) % columns,
      (c.screenY + (c.screenX + 1) % columns / columns) % rows⟩ := if_neg (by simp [hb])
  have hcarry : (c.screenX + 1) % columns / columns = 0 :=
    Nat.div_eq_of_lt (Nat.mod_lt _ (by decide))
  rw [hput]
  refine ⟨rfl, ?_⟩
  show (c.screenY + (c.screenX + 1) % columns / columns) % rows = c.screenY
  rw [hcarry, Nat.add_zero, Nat.mod_eq_of_lt hy]

theorem inLine_plain {y r : Nat} {x : BootConsole × Option (Nat × Nat)} {b : UInt8}
    (h : InLine y r x) (hy : y < rows) (hr : r ≤ columns) (hb : isNewline b = false) :
    (r < columns → InLine y (r + 1) (x.1.putc b, note x.2 x.1 b)) ∧
      (OnScreen x b ↔ r < columns) := by
  obtain ⟨hrow, hcolumn, hlast⟩ := h
  obtain ⟨hx', hy'⟩ := putc_plain x.1 hb (hrow.symm ▸ hy)
  have hnote : note x.2 x.1 b = some (x.1.screenY, x.1.screenX) := if_neg (by simp [hb])
  have hnowrap : r < columns → x.1.screenX = r := fun hlt =>
    hcolumn.trans (Nat.mod_eq_of_lt hlt)
  refine ⟨fun hlt => ⟨hy'.trans hrow, ?_, fun row => ?_⟩, fun hon => ?_, fun hlt => ?_⟩
  · rw [hx', hnowrap hlt]
  · rw [hnote, hrow, hnowrap hlt, Option.some.injEq, Prod.mk.injEq]
    simp only [columns] at hlt ⊢
    omega
  · -- after a full line the row is still the old one
    by_contra hfull
    have hend : r = columns := Nat.le_antisymm hr (Nat.le_of_not_lt hfull)
    have hnext := (hon.wraps hb y ((hlast y).mpr ⟨rfl, hend⟩)).1
    rw [hrow] at hnext
    simp only [rows] at hy hnext
    omega
  · refine ⟨?_, ?_, ?_, fun _ row hfull => ?_⟩
    · have hstores : x.1.stores b =
          [(2 * (80 * y + r), b)] ++ [(2 * (80 * y + r) + 1, attrib)] := by
        rw [stores, hb, hrow, hnowrap hlt]
        rfl
      rw [hstores, within_append, within_single, within_single]
      simp only [columns, rows] at hlt hy ⊢
      omega
    · rw [hx']
      exact Nat.mod_lt _ (by decide)
    · rw [hy', hrow]
      exact hy
    · exact absurd ((hlast row).mp hfull).2 (Nat.ne_of_lt hlt)

/-! ## Lines of a text -/

/-- Lines that fit from row `y` on, with `r` characters before the first one. -/
def FitsFrom (y r : Nat) : List (List UInt8) → Prop
  | [] => True
  | line :: lines => y + lines.length < rows ∧ r + line.length ≤ columns ∧
      ∀ l ∈ lines, l.length ≤ columns

theorem fitsFrom_newline {y r : Nat} (hr : r ≤ columns) {lines : List (List UInt8)}
    (h : lines ≠ []) : FitsFrom y r ([] :: lines) ↔ y + 1 < rows ∧ FitsFrom (y + 1) 0 lines := by
  obtain ⟨line, lines, rfl⟩ := List.exists_cons_of_ne_nil h
  simp only [FitsFrom, List.length_cons, List.length_nil, List.forall_mem_cons, Nat.zero_add,
    columns, rows] at hr ⊢
  constructor
  · rintro ⟨hrow, -, hall⟩
    exact ⟨by omega, by omega, hall⟩
  · rintro ⟨-, hrow, hall⟩
    exact ⟨by omega, by omega, hall⟩

theorem fitsFrom_plain {y r : Nat} {b : UInt8} {lines : List (List UInt8)} (h : lines ≠ []) :
    FitsFrom y r (lines.modifyHead (List.cons b)) ↔ r < columns ∧ FitsFrom y (r + 1) lines := by
  obtain ⟨line, lines, rfl⟩ := List.exists_cons_of_ne_nil h
  show FitsFrom y r ((b :: line) :: lines) ↔ _
  simp only [FitsFrom, List.length_cons, columns, rows]
  constructor
  · rintro ⟨hrow, hline, hall⟩
    exact ⟨by omega, by omega, by omega, hall⟩
  · rintro ⟨-, hrow, hline, hall⟩
    exact ⟨by omega, by omega, hall⟩

/-- From a place in a line, all stays on the screen if and only if the lines fit. -/
theorem path_iff_fitsFrom {text : List UInt8} {y r : Nat} {x : BootConsole × Option (Nat × Nat)}
    (h : InLine y r x) (hy : y < rows) (hr : r ≤ columns) :
    (∃ e, Path (recorded step note) OnScreen x text (text.foldl putc x.1, e)) ↔
      FitsFrom y r (text.splitOnP isNewline) := by
  induction text generalizing y r x with
  | nil =>
    refine iff_of_true ⟨x.2, .nil _⟩ ⟨hy, hr, nofun⟩
  | cons b text ih =>
    have hcons : (∃ e, Path (recorded step note) OnScreen x (b :: text)
          ((b :: text).foldl putc x.1, e)) ↔
        OnScreen x b ∧ ∃ e, Path (recorded step note) OnScreen (x.1.putc b, note x.2 x.1 b) text
          (text.foldl putc (x.1.putc b), e) := by
      constructor
      · rintro ⟨e, hpath⟩
        cases hpath with
        | cons hon hstep hrest =>
          cases hstep
          exact ⟨hon, e, hrest⟩
      · rintro ⟨hon, e, hrest⟩
        exact ⟨e, .cons hon rfl hrest⟩
    rw [hcons, List.splitOnP_cons_eq_if_modifyHead]
    cases hb : isNewline b with
    | true =>
      obtain ⟨hnext, hon⟩ := inLine_newline h hb
      rw [if_pos rfl, fitsFrom_newline hr (List.splitOnP_ne_nil _ _), hon]
      exact and_congr_right fun hrow => ih hnext hrow (Nat.zero_le _)
    | false =>
      obtain ⟨hnext, hon⟩ := inLine_plain h hy hr hb
      rw [if_neg (by decide), fitsFrom_plain (List.splitOnP_ne_nil _ _), hon]
      exact and_congr_right fun hlt => ih (hnext hlt) hy hlt

theorem fitsFrom_start (text : List UInt8) :
    FitsFrom 0 0 (text.splitOnP isNewline) ↔ Fits text := by
  obtain ⟨line, lines, hlines⟩ :=
    List.exists_cons_of_ne_nil (List.splitOnP_ne_nil isNewline text)
  rw [Fits, hlines, FitsFrom, List.length_cons, List.forall_mem_cons, Nat.zero_add, Nat.zero_add,
    Nat.lt_iff_add_one_le]

theorem inLine_start (videoMem : Nat → UInt8) : InLine 0 0 (start videoMem, none) :=
  ⟨rfl, rfl, fun _ => iff_of_false nofun fun h => absurd h.2 (by decide)⟩

theorem path_iff_fits (videoMem : Nat → UInt8) (text : List UInt8) :
    (∃ e, Path (recorded step note) OnScreen (start videoMem, none) text
      (text.foldl putc (start videoMem), e)) ↔ Fits text :=
  (path_iff_fitsFrom (inLine_start videoMem) (by decide) (by decide)).trans (fitsFrom_start text)

/-! ## What is printed -/

theorem puts_string (c : BootConsole) {m : Nat → UInt8} {s : Nat} {text : List UInt8}
    (h : StringAt m s text) (hlen : text.length < word32) :
    c.puts m s = some (text.foldl putc c) := by
  rw [puts, Lib.puts_eq h hlen, Option.map_some]

theorem printf_text (c : BootConsole) {text : List UInt8} (h : '%'.toUInt8 ∉ text)
    (h0 : 0 ∉ text) (mem : Nat → UInt8) (stack : Nat → Nat → UInt8) (rest : List UInt8)
    (esp : List Nat) :
    c.printf mem stack (text ++ 0 :: rest) esp = some (text.foldl putc c) := by
  have hend : Lib.printf mem stack (0 :: rest) esp = some ([], 0) := rfl
  rw [printf, Lib.printf_literal h h0, hend, Option.map_some, Option.map_some, Lib.ahead,
    List.append_nil]

/-- **The boot console.** A text of any length that is printed by `puts`, or as literal text
by `printf`, stays on the screen and wraps to the next row if and only if it has at most 25
lines of at most 80 characters each. -/
theorem boot_text_iff (videoMem : Nat → UInt8) (text : List UInt8) :
    ∃ t,
      (∀ m s, StringAt m s text → text.length < word32 →
        (start videoMem).puts m s = some t) ∧
      ('%'.toUInt8 ∉ text → 0 ∉ text → ∀ mem stack rest esp,
        (start videoMem).printf mem stack (text ++ 0 :: rest) esp = some t) ∧
      ((∃ e, Path (recorded step note) OnScreen (start videoMem, none) text (t, e)) ↔
        Fits text) :=
  ⟨_, fun _ _ h hlen => puts_string _ h hlen,
    fun h h0 mem stack rest esp => printf_text _ h h0 mem stack rest esp,
    path_iff_fits videoMem text⟩

/-- After 25 newlines a character is stored behind the screen, and after 80 characters the
next one is stored over the first. -/
theorem boot_text_off_screen :
    let screen := start fun _ => 0
    let down := List.replicate 25 newline
    let line := List.replicate 80 65
    ((down.foldl putc screen).screenY = 25 ∧
      (down.foldl putc screen).stores 65 = [(4000, 65), (4001, attrib)] ∧
      ¬ ∃ e, Path (recorded step note) OnScreen (screen, none) (down ++ [65])
        ((down ++ [65]).foldl putc screen, e)) ∧
    (((line.foldl putc screen).screenY, (line.foldl putc screen).screenX) = (0, 0) ∧
      ¬ ∃ e, Path (recorded step note) OnScreen (screen, none) (line ++ [65])
        ((line ++ [65]).foldl putc screen, e)) := by
  intro screen down line
  refine ⟨⟨by decide +kernel, by decide +kernel, fun h => ?_⟩, by decide +kernel, fun h => ?_⟩
  · exact absurd ((path_iff_fits _ _).mp h) (by decide +kernel)
  · exact absurd ((path_iff_fits _ _).mp h) (by decide +kernel)

end BootConsole

end OS391
