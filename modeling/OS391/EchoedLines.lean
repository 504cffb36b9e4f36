import OS391.Coupling

/-! What is echoed and what is read: the line that ENTER commits against the characters
that the terminal has shown for it. -/

namespace OS391
open Library.Runs Library.Bytes

/-! ## Lookups -/

/-- The size of `scan_code`. -/
abbrev numScanCodes : Nat := 255
/-- The size of `shift_convert`. -/
abbrev numConvert : Nat := 80

namespace Keyboard

/-- The elements that `char_match` reads, each with the size of its table. -/
def matchLookups (k : Keyboard) (c : UInt8) : List (Nat × Nat) :=
  let shift := k.pressedKey leftshift || k.pressedKey rightshift
  let res := scanCode c.toNat
  let code := (c.toNat, numScanCodes)
  let convert := (c.toNat, numConvert)
  code :: if res = 0 then [] else code ::
    if k.capStatus ∧ 97 ≤ res ∧ res ≤ 122 then (if shift then [code] else [convert])
    else if shift then [convert] else []

def shiftHeld (k : Keyboard) : Prop := k.pressedKey leftshift ∨ k.pressedKey rightshift

/-- The characters of the line of `t`. -/
def lineOf (k : Keyboard) (t : Terminal) : List UInt8 :=
  window (k.keyboardBuffer t) 0 (k.cursorInd t)

end Keyboard

namespace Tty

/-- The elements of the two tables that `keyboard_handler` reads for a byte. -/
def lookups (s : Tty) (t : Terminal) (input : UInt8) : List (Nat × Nat) :=
  let k := s.kbd.press input
  if input > 127 then []
  else if input = keyL ∧ k.pressedKey leftctrl then []
  else if k.pressedKey leftalt then []
  else (input.toNat, numScanCodes) ::
    if scanCode input.toNat = 0 then []
    else if k.cursorInd t ≥ 128 then (if input = enter then k.matchLookups input else [])
    else k.matchLookups input ++ k.matchLookups input

/-- The key is one of those past the end of `shift_convert`, and is looked up there: a
character of the keypad that Shift has no other meaning for. -/
def PastConvert (s : Tty) (t : Terminal) (input : UInt8) : Prop :=
  80 ≤ input.toNat ∧ scanCode input.toNat ≠ 0 ∧ s.kbd.shiftHeld ∧
    ¬ s.kbd.pressedKey leftalt ∧ s.kbd.cursorInd t < 128

theorem scanCode_eq_zero {i : Nat} (h : 97 ≤ i) : scanCode i = 0 := by
  unfold scanCode tableByte
  have hnone : scanCodeTable.lookup i = none := by
    rw [List.lookup_eq_none_iff]
    intro p hp
    have hall : ∀ p ∈ scanCodeTable, p.1 < 97 := by decide
    have hlt := hall p hp
    simp only [bne_iff_ne, ne_eq]
    omega
  rw [hnone]

/-- No letter is that far in the tables. -/
theorem not_letter {i : Nat} (h : 80 ≤ i) : ¬ (97 ≤ scanCode i ∧ scanCode i ≤ 122) := by
  by_cases hi : i < 97
  · have hall : ∀ j < 97, 80 ≤ j → ¬ (97 ≤ scanCode j ∧ scanCode j ≤ 122) := by decide
    exact hall i hi h
  · rw [scanCode_eq_zero (by omega)]
    decide

theorem matchLookups_inside_iff (k : Keyboard) {c : UInt8} (hc : c.toNat < 128)
    (hscan : scanCode c.toNat ≠ 0) :
    (∀ l ∈ k.matchLookups c, l.1 < l.2) ↔ ¬ (80 ≤ c.toNat ∧ k.shiftHeld) := by
  have hcode : c.toNat < numScanCodes := by
    simp only [numScanCodes]
    omega
  unfold Keyboard.matchLookups Keyboard.shiftHeld
  simp only [if_neg hscan, List.forall_mem_cons]
  by_cases h80 : 80 ≤ c.toNat
  · have hcaps : ¬ (k.capStatus ∧ 97 ≤ scanCode c.toNat ∧ scanCode c.toNat ≤ 122) :=
      fun h => not_letter h80 h.2
    rw [if_neg hcaps]
    split
    · rename_i hshift
      simp only [Bool.or_eq_true] at hshift
      have hout : ¬ c.toNat < 80 := by omega
      simp [h80, hshift, hout, hcode]
    · rename_i hshift
      simp only [Bool.or_eq_true] at hshift
      simp [hcode, hshift]
  · have hconvert : c.toNat < numConvert := by
      simp only [numConvert]
      omega
    simp only [h80, false_and, not_false_eq_true, iff_true]
    refine ⟨hcode, hcode, ?_⟩
    split_ifs <;> simp [hcode, hconvert]

theorem shiftHeld_press (k : Keyboard) {input : UInt8} (h : 80 ≤ input.toNat) :
    (k.press input).shiftHeld ↔ k.shiftHeld := by
  have hleft : leftshift ≠ input.toNat := by
    simp only [leftshift]
    omega
  have hright : rightshift ≠ input.toNat := by
    simp only [rightshift]
    omega
  simp only [Keyboard.shiftHeld, Keyboard.press, Function.update_of_ne hleft,
    Function.update_of_ne hright]

theorem pressedKey_press (k : Keyboard) {input : UInt8} {key : Nat} (h : key ≠ input.toNat) :
    (k.press input).pressedKey key = k.pressedKey key :=
  Function.update_of_ne h _ _

theorem leftalt_press (k : Keyboard) {input : UInt8} (h : 80 ≤ input.toNat) :
    (k.press input).pressedKey leftalt = k.pressedKey leftalt := by
  have hne : leftalt ≠ input.toNat := by
    simp only [leftalt]
    omega
  exact pressedKey_press k hne

/-- Every lookup is inside its table, unless it is past `shift_convert`. -/
theorem lookups_inside_iff (s : Tty) (t : Terminal) (input : UInt8) :
    (∀ l ∈ s.lookups t input, l.1 < l.2) ↔ ¬ s.PastConvert t input := by
  have hcur : (s.kbd.press input).cursorInd = s.kbd.cursorInd := rfl
  unfold lookups PastConvert
  dsimp only
  rw [hcur]
  by_cases hbreak : input > 127
  · have hlarge : 97 ≤ input.toNat := by
      have : 127 < input.toNat := hbreak
      omega
    simp [hbreak, scanCode_eq_zero hlarge]
  · have hsmall : input.toNat < 128 := by
      have : ¬ 127 < input.toNat := hbreak
      omega
    rw [if_neg hbreak]
    by_cases hclear : input = keyL ∧ (s.kbd.press input).pressedKey leftctrl
    · have hfar : ¬ 80 ≤ input.toNat := by
        rw [hclear.1]
        decide
      rw [if_pos hclear]
      exact ⟨fun _ h => hfar h.1, fun _ _ hl => absurd hl List.not_mem_nil⟩
    · rw [if_neg hclear]
      have hsame (h80 : 80 ≤ input.toNat) := leftalt_press s.kbd h80
      by_cases halt : (s.kbd.press input).pressedKey leftalt
      · rw [if_pos halt]
        exact ⟨fun _ h => h.2.2.2.1 (hsame h.1 ▸ halt), fun _ _ hl => absurd hl List.not_mem_nil⟩
      · rw [if_neg halt]
        have hcode : input.toNat < numScanCodes := by
          simp only [numScanCodes]
          omega
        by_cases hscan : scanCode input.toNat = 0
        · simp only [hscan, if_true, List.forall_mem_singleton, hcode, ne_eq, not_true_eq_false,
            false_and, and_false, not_false_eq_true]
        · have hmatch : (∀ l ∈ (s.kbd.press input).matchLookups input, l.1 < l.2) ↔
              ¬ (80 ≤ input.toNat ∧ s.kbd.shiftHeld) := by
            rw [matchLookups_inside_iff _ hsmall hscan]
            exact not_congr (and_congr_right fun h80 => shiftHeld_press _ h80)
          rw [if_neg hscan, List.forall_mem_cons]
          split
          · rename_i hfull
            have hroom : ¬ s.kbd.cursorInd t < 128 := by omega
            simp only [hcode, hroom, and_false, not_false_eq_true, true_and, iff_true]
            split
            · rename_i he
              rw [hmatch, he]
              exact fun h => absurd h.1 (by decide)
            · simp
          · rename_i hfull
            have hroom : s.kbd.cursorInd t < 128 := by omega
            rw [List.forall_mem_append, and_self, hmatch]
            simp only [hcode, true_and, hscan, ne_eq, not_false_eq_true, hroom, and_true]
            exact not_congr ⟨fun h => ⟨h.1, h.2, hsame h.1 ▸ halt⟩, fun h => ⟨h.1, h.2.1⟩⟩

/-! ## The characters echoed -/

/-- The characters that stand for the line after the operations of a byte. Ctrl-L leaves
none: what follows it is the prompt. -/
def echoAfter (l : List UInt8) : List ConsoleOp → List UInt8
  | [] => l
  | .putcScrollDisplay c :: ops => echoAfter (l ++ [c]) ops
  | .deleteC :: ops => echoAfter l.dropLast ops
  | .clear :: _ => []
  | _ :: ops => echoAfter l ops

theorem lineOf_append (k : Keyboard) (t : Terminal) (c : UInt8) :
    (k.append t c).lineOf t = k.lineOf t ++ [c] := by
  have hone : window (Function.update (k.keyboardBuffer t) (k.cursorInd t) c)
      (0 + k.cursorInd t) 1 = [c] := by simp [window]
  simp only [Keyboard.lineOf, Keyboard.append, Function.update_self]
  rw [window_add, hone]
  congr 1
  apply window_congr
  intro i hi
  exact Function.update_of_ne (by omega) _ _

theorem lineOf_dropLast (k : Keyboard) {t : Terminal} (hi : k.cursorInd t ≠ 0) :
    (k.dropLast t).lineOf t = (k.lineOf t).dropLast := by
  obtain ⟨n, hn⟩ : ∃ n, k.cursorInd t = n + 1 := ⟨k.cursorInd t - 1, by omega⟩
  have hone : window (k.keyboardBuffer t) (0 + n) 1 = [k.keyboardBuffer t n] := by simp [window]
  simp only [Keyboard.lineOf, Keyboard.dropLast, Function.update_self, hn, Nat.add_sub_cancel]
  rw [window_add, hone, List.dropLast_concat]
  apply window_congr
  intro i hi
  exact Function.update_of_ne (by omega) _ _

theorem lineOf_clear (k : Keyboard) (t : Terminal) : (k.clearKeyboardBuffer t).lineOf t = [] := by
  simp [Keyboard.lineOf, Keyboard.clearKeyboardBuffer, window]

/-- ENTER finds no place in a full line, but is echoed all the same. -/
def NoRoom (s : Tty) (t : Terminal) : Prop :=
  128 ≤ s.kbd.cursorInd t ∧ ¬ s.kbd.pressedKey leftalt

theorem echoAfter_drawn {s : Tty} {t : Terminal} {input : UInt8}
    (hroom : input = enter → ¬ s.NoRoom t) :
    echoAfter (s.kbd.lineOf t) (s.drawn t input) = (s.kbd.typed t input).lineOf t := by
  have hpress : (s.kbd.press input).lineOf t = s.kbd.lineOf t := rfl
  unfold drawn Keyboard.typed
  dsimp only
  by_cases hclear : input = keyL ∧ (s.kbd.press input).pressedKey leftctrl
  · rw [if_pos hclear, if_pos hclear, lineOf_clear]
    rfl
  · rw [if_neg hclear, if_neg hclear]
    by_cases halt : (s.kbd.press input).pressedKey leftalt
    · rw [if_pos halt, if_pos halt, hpress]
      split_ifs <;> rfl
    · rw [if_neg halt, if_neg halt]
      by_cases hchar : scanCode input.toNat ≠ 0 ∧ (s.kbd.press input).cursorInd t < 128
      · rw [if_pos ⟨hchar.1, .inl hchar.2⟩, if_pos hchar, lineOf_append, hpress]
        rfl
      · have hquiet : ¬ (scanCode input.toNat ≠ 0 ∧
            ((s.kbd.press input).cursorInd t < 128 ∨ input = enter)) := by
          rintro ⟨hscan, hlt | he⟩
          · exact hchar ⟨hscan, hlt⟩
          · have hfull : ¬ (s.kbd.press input).cursorInd t < 128 := fun hlt => hchar ⟨hscan, hlt⟩
            have hne : leftalt ≠ input.toNat := by
              rw [he]
              decide
            rw [pressedKey_press _ hne] at halt
            exact hroom he ⟨Nat.le_of_not_lt hfull, halt⟩
        rw [if_neg hquiet, if_neg hchar, hpress]
        rfl

theorem charMatch_enter (k : Keyboard) : k.charMatch enter = newline := by
  have hscan : scanCode enter.toNat = newline := by decide
  have hletter : ¬ (97 ≤ newline ∧ newline ≤ 122) := by decide
  unfold Keyboard.charMatch
  simp only [hscan, hletter, and_false, if_false, if_true]
  split_ifs <;> first | rfl | contradiction

theorem enter_press (s : Tty) : ¬ (enter = keyL ∧ (s.kbd.press enter).pressedKey leftctrl) ∧
    (s.kbd.press enter).pressedKey leftalt = s.kbd.pressedKey leftalt ∧
    scanCode enter.toNat ≠ 0 := by
  refine ⟨?_, pressedKey_press _ (by decide), by decide⟩
  rintro ⟨h, -⟩
  cases h

theorem echoAfter_drawn_full {s : Tty} {t : Terminal} (h : s.NoRoom t) :
    echoAfter (s.kbd.lineOf t) (s.drawn t enter) = s.kbd.lineOf t ++ [newline] ∧
      (s.kbd.typed t enter).lineOf t = s.kbd.lineOf t := by
  obtain ⟨hkey, halt, hscan⟩ := s.enter_press
  have hfull : ¬ (s.kbd.press enter).cursorInd t < 128 := Nat.not_lt.mpr h.1
  unfold drawn Keyboard.typed
  dsimp only
  rw [if_neg hkey, if_neg hkey, halt, if_neg h.2, if_neg h.2, charMatch_enter]
  constructor
  · rw [if_pos ⟨hscan, .inr rfl⟩]
    rfl
  · rw [if_neg fun hroom => hfull hroom.2]
    rfl

/-- ENTER adds a newline to the line, or nothing. -/
theorem lineOf_enter (s : Tty) (t : Terminal) :
    0 ∈ (s.kbd.typed t enter).lineOf t ↔ 0 ∈ s.kbd.lineOf t := by
  obtain ⟨hkey, -, hscan⟩ := s.enter_press
  have hpress : (s.kbd.press enter).lineOf t = s.kbd.lineOf t := rfl
  unfold Keyboard.typed
  dsimp only
  rw [if_neg hkey]
  split
  · rw [hpress]
  · split
    · have hne : (0 : UInt8) ≠ newline := by decide
      rw [lineOf_append, charMatch_enter, hpress, List.mem_append, List.mem_singleton]
      exact or_iff_left hne
    · rw [hpress]

/-- The line of the displayed terminal is what the screen shows of it. -/
theorem lineOf_edit (s : Tty) {input : UInt8} (he : input ≠ enter) :
    (s.kbd.edit s.con.displayTerminal input).lineOf s.con.displayTerminal =
      echoAfter (s.kbd.lineOf s.con.displayTerminal) (s.screenOps input) := by
  by_cases hb : input = backspace
  · subst hb
    rw [edit_backspace, screenOps_backspace]
    split
    · rename_i hi
      exact lineOf_dropLast _ hi
    · rfl
  · rw [edit_of_ne _ _ hb, screenOps_of_ne s hb, if_neg he]
    split
    · rfl
    · exact (echoAfter_drawn fun h => absurd h he).symm

/-- The string committed is the line, if there is no NUL in it. -/
theorem commitLine_string {k : Keyboard} {t : Terminal} (h : k.Tidy t) :
    cString (window (k.commitLine t).printBuffer (Keyboard.row t) printLim) = k.lineOf t ↔
      0 ∉ k.lineOf t := by
  have hle := h.line
  have hprint : ∀ i, i < printLim →
      (k.commitLine t).printBuffer (Keyboard.row t + i) =
        if i < keyLim then k.keyboardBuffer t i else 0 := by
    intro i hi
    split
    · rename_i hkey
      rw [Session.commitLine_print t k t hkey, if_pos rfl]
    · rename_i hkey
      have hout : ¬ (Keyboard.row t ≤ Keyboard.row t + i ∧
          Keyboard.row t + i < Keyboard.row t + keyLim) := by omega
      have hin : Keyboard.row t ≤ Keyboard.row t + i ∧
          Keyboard.row t + i < Keyboard.row t + printLim := by omega
      simp only [Keyboard.commitLine, blit, fill, if_neg hout, if_pos hin]
  have hline : window (k.commitLine t).printBuffer (Keyboard.row t) (k.cursorInd t) =
      k.lineOf t := by
    apply window_congr
    intro i hi
    have hkey : i < 129 := by omega
    rw [hprint i (Nat.lt_trans hkey (by decide)), if_pos hkey, Nat.zero_add]
  have hrest : ∀ i, k.cursorInd t ≤ i → i < k.cursorInd t + (2050 - k.cursorInd t) →
      (k.commitLine t).printBuffer (Keyboard.row t + i) = 0 := by
    intro i hi hlt
    have hlim : i < 2050 := by omega
    rw [hprint i hlim]
    split
    · rename_i hkey
      exact h.rest i hi (Nat.le_of_lt_succ hkey)
    · rfl
  have hsize : printLim = k.cursorInd t + (2050 - k.cursorInd t) := by
    simp only [printLim]
    omega
  rw [hsize, ← hline]
  exact cString_line_iff (by omega) hrest

end Tty

/-! ## Typing -/

/-- The terminals while one of them stays displayed, with what has been seen of it. -/
structure Typing where
  tty : Tty
  /-- Echoed since the last line was committed or cleared, less what Backspace erased. -/
  echoed : List UInt8
  /-- The string that each ENTER left in `print_buffer`, and what was echoed for it. -/
  commits : List (List UInt8 × List UInt8)
  /-- The elements of `scan_code` and `shift_convert` read, with the sizes of the tables. -/
  lookups : List (Nat × Nat)

namespace Typing

/-- A byte that does not show another terminal. -/
def step (s : Typing) (input : UInt8) : Option Typing :=
  let t := s.tty.con.displayTerminal
  (s.tty.keyboardByte input).bind fun tty =>
    if tty.con.displayTerminal ≠ t then none
    else
      let echoed := Tty.echoAfter s.echoed (s.tty.screenOps input)
      let line := cString (window tty.kbd.printBuffer (Keyboard.row t) printLim)
      some {
        tty := tty
        echoed := if input = enter then [] else echoed
        commits := if input = enter then s.commits ++ [(line, echoed)] else s.commits
        lookups := s.lookups ++ s.tty.lookups t input }

def start (tty : Tty) : Typing := ⟨tty, [], [], []⟩

/-- Every line was committed as it was echoed, and every lookup was inside its table. -/
def Agrees (s : Typing) : Prop :=
  (∀ c ∈ s.commits, c.1 = c.2) ∧ ∀ l ∈ s.lookups, l.1 < l.2

instance (s : Typing) : Decidable s.Agrees :=
  inferInstanceAs (Decidable ((∀ c ∈ s.commits, c.1 = c.2) ∧ ∀ l ∈ s.lookups, l.1 < l.2))

/-- The key is not looked up past `shift_convert`; and ENTER finds a line without a NUL,
with room for the newline unless Alt keeps it from being echoed. -/
def InOrder (s : Typing) (input : UInt8) : Prop :=
  let t := s.tty.con.displayTerminal
  ¬ s.tty.PastConvert t input ∧ (input = enter → 0 ∉ s.tty.kbd.lineOf t ∧ ¬ s.tty.NoRoom t)

structure Inv (s : Typing) : Prop where
  coupled : ∀ t, s.tty.Coupled t
  echoed : s.tty.kbd.lineOf s.tty.con.displayTerminal = s.echoed

variable {s s' : Typing} {input : UInt8}

theorem step_cases (h : s.step input = some s') :
    ∃ tty, s.tty.keyboardByte input = some tty ∧
      tty.con.displayTerminal = s.tty.con.displayTerminal ∧
      tty.kbd = s.tty.kbd.edit s.tty.con.displayTerminal input ∧
      s' = ⟨tty, if input = enter then [] else Tty.echoAfter s.echoed (s.tty.screenOps input),
        if input = enter then s.commits ++
          [(cString (window tty.kbd.printBuffer (Keyboard.row s.tty.con.displayTerminal) printLim),
            Tty.echoAfter s.echoed (s.tty.screenOps input))] else s.commits,
        s.lookups ++ s.tty.lookups s.tty.con.displayTerminal input⟩ := by
  obtain ⟨tty, htty, h⟩ := Option.bind_eq_some_iff.mp h
  have hkey := htty
  rw [Tty.keyboardByte_eq] at hkey
  obtain ⟨con, -, rfl⟩ := Option.map_eq_some_iff.mp hkey
  by_cases hd : con.displayTerminal = s.tty.con.displayTerminal
  · rw [if_neg (not_not_intro hd)] at h
    cases h
    exact ⟨_, htty, hd, rfl, rfl⟩
  · rw [if_pos hd] at h
    cases h

theorem Inv.step (hs : s.Inv) (h : s.step input = some s') : s'.Inv := by
  obtain ⟨tty, htty, hd, hkbd, rfl⟩ := step_cases h
  constructor
  · obtain ⟨-, tty', htty', -, hall⟩ := Tty.event_coupled hs.coupled (.key input)
    rw [Tty.event, htty] at htty'
    cases htty'
    exact hall
  · simp only
    rw [hd, hkbd]
    by_cases he : input = enter
    · subst he
      rw [if_pos rfl, Tty.edit_of_ne _ _ (by decide), if_pos rfl]
      exact Tty.lineOf_clear _ _
    · rw [if_neg he, Tty.lineOf_edit s.tty he, hs.echoed]

/-- ENTER commits what was echoed exactly when it finds the line in order. -/
theorem Inv.commit_iff (hs : s.Inv) {t : Terminal} (ht : s.tty.con.displayTerminal = t) :
    cString (window (s.tty.kbd.edit t enter).printBuffer (Keyboard.row t) printLim) =
        Tty.echoAfter s.echoed (s.tty.screenOps enter) ↔
      0 ∉ s.tty.kbd.lineOf t ∧ ¬ s.tty.NoRoom t := by
  subst ht
  have hne : enter ≠ backspace := by decide
  have hsmall : ¬ enter > 127 := by decide
  have htidy : (s.tty.kbd.typed s.tty.con.displayTerminal enter).Tidy s.tty.con.displayTerminal :=
    (Keyboard.typed_neat _ _ enter).tidy _ (Tty.coupled_iff.mp (hs.coupled _)).2
  have hstring := Tty.commitLine_string htidy
  rw [Tty.edit_of_ne _ _ hne, if_pos rfl, Tty.screenOps_of_ne _ hne, if_neg hsmall, ← hs.echoed]
  by_cases hroom : s.tty.NoRoom s.tty.con.displayTerminal
  · -- the newline is on the screen and not in the line
    obtain ⟨hecho, hline⟩ := Tty.echoAfter_drawn_full hroom
    rw [hecho]
    rw [hline] at hstring
    simp only [hroom, not_true_eq_false, and_false, iff_false]
    intro hcommit
    by_cases hnul : 0 ∈ s.tty.kbd.lineOf s.tty.con.displayTerminal
    · have hmem : (0 : UInt8) ∈ s.tty.kbd.lineOf s.tty.con.displayTerminal ++ [newline] :=
        List.mem_append_left _ hnul
      rw [← hcommit] at hmem
      exact nul_notMem_cString _ hmem
    · rw [hstring.mpr hnul] at hcommit
      simpa using congrArg List.length hcommit
  · rw [Tty.echoAfter_drawn fun _ => hroom, hstring, Tty.lineOf_enter]
    simp [hroom]

theorem Inv.agrees_iff (hs : s.Inv) (h : s.step input = some s') :
    s'.Agrees ↔ s.Agrees ∧ s.InOrder input := by
  obtain ⟨tty, -, -, hkbd, rfl⟩ := step_cases h
  have hlook := Tty.lookups_inside_iff s.tty s.tty.con.displayTerminal input
  unfold Agrees InOrder
  simp only [List.forall_mem_append, hlook, hkbd]
  by_cases he : input = enter
  · subst he
    rw [if_pos rfl, List.forall_mem_append, List.forall_mem_singleton, hs.commit_iff rfl]
    simp only [forall_const]
    tauto
  · rw [if_neg he]
    simp only [he, false_imp_iff, and_true]
    tauto

/-- **What is echoed is what is read.** Whatever is typed while a terminal stays
displayed, beginning with an empty line, every line reaches `print_buffer` as it was
echoed and every lookup stays inside its table, if and only if no byte of the run is out
of order. The handler ends in any case. -/
theorem committed_lines_echoed {tty : Tty} (htty : ∀ t, tty.Coupled t)
    (hline : tty.kbd.cursorInd tty.con.displayTerminal = 0) (bytes : List UInt8)
    (hrun : run step (start tty) bytes = some s') :
    (s'.Agrees ↔ Path step InOrder (start tty) bytes s') ∧
      ∀ input, (s'.tty.keyboardByte input).isSome := by
  have hstart : (start tty).Inv := by
    constructor
    · exact htty
    · show window _ 0 (tty.kbd.cursorInd tty.con.displayTerminal) = []
      rw [hline]
      rfl
  have hempty : (start tty).Agrees :=
    ⟨fun _ hc => absurd hc List.not_mem_nil, fun _ hl => absurd hl List.not_mem_nil⟩
  constructor
  · rw [path_iff Inv Agrees (fun _ _ _ hi hs => hi.step hs) (fun _ _ _ hi hs => hi.agrees_iff hs)
      hrun hstart]
    exact and_iff_right hempty
  · intro input
    have hinv := run_invariant Inv (fun _ _ _ hi hs => hi.step hs) hrun hstart
    obtain ⟨-, tty', htty', -⟩ := Tty.event_coupled hinv.coupled (.key input)
    exact Option.isSome_iff_exists.mpr ⟨tty', htty'⟩

theorem boot_coupled : ∀ t, Tty.Coupled ⟨.boot, .boot⟩ t :=
  Tty.Fresh.coupled ⟨fun _ => ⟨rfl, rfl⟩, fun _ => rfl, fun _ _ _ => rfl⟩

theorem committed_lines_echoed_boot :
    ∃ s', run step (start ⟨.boot, .boot⟩) [35, 23, enter] = some s' ∧
      s'.commits = [([104, 105, 10], [104, 105, 10])] ∧
      Path step InOrder (start ⟨.boot, .boot⟩) [35, 23, enter] s' := by
  obtain ⟨s', hrun, hcommits, hagrees⟩ := exists_of_map_decide
    (x := run step (start ⟨.boot, .boot⟩) [35, 23, enter])
    (fun s' : Typing => s'.commits = [([104, 105, 10], [104, 105, 10])] ∧ s'.Agrees)
    (by decide +kernel)
  exact ⟨s', hrun, hcommits, (committed_lines_echoed boot_coupled rfl _ hrun).1.mp hagrees⟩

/-- Space with Shift, then `a` and ENTER: the line begins with a NUL. -/
theorem shifted_space_cuts_line :
    ∃ s', run step (start ⟨.boot, .boot⟩) [42, 57, 0xAA, 30, enter] = some s' ∧
      s'.commits = [([], [0, 97, 10])] ∧ ¬ s'.Agrees :=
  exists_of_map_decide (fun s' : Typing => s'.commits = [([], [0, 97, 10])] ∧ ¬ s'.Agrees)
    (by decide +kernel)

end Typing

end OS391
