import OS391.Lines
import OS391.Screen

/-! The line editor of `keyboard_handler`, apart from the screen that it draws on: what a
scan code does to the line being typed, and the screen operations that come with it. -/

namespace OS391
open Library.Runs Library.Bytes

/-! ## A byte, in two halves -/

namespace Keyboard

def press (k : Keyboard) (input : UInt8) : Keyboard :=
  { k with
    pressedKey := Function.update k.pressedKey input.toNat true
    capStatus := if input = capslock then !k.capStatus else k.capStatus }

def release (k : Keyboard) (input : UInt8) : Keyboard :=
  { k with pressedKey := Function.update k.pressedKey (input.toNat - 128) false }

/-- The line of `t` with one more character. -/
def append (k : Keyboard) (t : Terminal) (c : UInt8) : Keyboard :=
  { k with
    keyboardBuffer := Function.update k.keyboardBuffer t
      (Function.update (k.keyboardBuffer t) (k.cursorInd t) c)
    cursorInd := Function.update k.cursorInd t (k.cursorInd t + 1) }

/-- The line of `t` without its last character. -/
def dropLast (k : Keyboard) (t : Terminal) : Keyboard :=
  { k with
    keyboardBuffer := Function.update k.keyboardBuffer t
      (Function.update (k.keyboardBuffer t) (k.cursorInd t - 1) 0)
    cursorInd := Function.update k.cursorInd t (k.cursorInd t - 1) }

/-- A make code, up to the tests for ENTER and Backspace. -/
def typed (k : Keyboard) (t : Terminal) (input : UInt8) : Keyboard :=
  let k := k.press input
  if input = keyL ∧ k.pressedKey leftctrl then k.clearKeyboardBuffer t
  else if k.pressedKey leftalt then k
  else if scanCode input.toNat ≠ 0 ∧ k.cursorInd t < 128 then k.append t (k.charMatch input)
  else k

/-- What a byte does to the state of the keyboard. -/
def edit (k : Keyboard) (t : Terminal) (input : UInt8) : Keyboard :=
  let k := if input > 127 then k.release input else k.typed t input
  let k := if input = enter then k.commitLine t else k
  if input = backspace ∧ k.cursorInd t ≠ 0 then k.dropLast t else k

end Keyboard

namespace Tty

def prompt : List UInt8 := "391OS> ".toList.map fun c => c.toNat.toUInt8

/-- What a make code does to the screens, up to the test for Backspace. -/
def drawn (s : Tty) (t : Terminal) (input : UInt8) : List ConsoleOp :=
  let k := s.kbd.press input
  if input = keyL ∧ k.pressedKey leftctrl then .clear :: prompt.map .putcScrollDisplay
  else if k.pressedKey leftalt then
    if input = f1 then [.setDisiplayTerminal 0]
    else if input = f2 then [.setDisiplayTerminal 1]
    else if input = f3 then [.setDisiplayTerminal 2]
    else []
  else if scanCode input.toNat ≠ 0 ∧ (k.cursorInd t < 128 ∨ input = enter) then
    [.putcScrollDisplay (k.charMatch input)]
  else []

/-- What a byte does to the screens. -/
def screenOps (s : Tty) (input : UInt8) : List ConsoleOp :=
  let t := s.con.displayTerminal
  (if input > 127 then [] else s.drawn t input) ++
    if input = backspace ∧ s.kbd.cursorInd t ≠ 0 then [.deleteC] else []

theorem typed_backspace (k : Keyboard) (t : Terminal) :
    k.typed t backspace = k.press backspace := by
  have hkey : ¬ (backspace = keyL ∧ (k.press backspace).pressedKey leftctrl) := by
    rintro ⟨h, -⟩
    cases h
  have hscan : scanCode backspace.toNat = 0 := by decide
  unfold Keyboard.typed
  dsimp only
  rw [if_neg hkey, hscan]
  simp

theorem drawn_backspace (s : Tty) (t : Terminal) : s.drawn t backspace = [] := by
  have hkey : ¬ (backspace = keyL ∧ (s.kbd.press backspace).pressedKey leftctrl) := by
    rintro ⟨h, -⟩
    cases h
  have hscan : scanCode backspace.toNat = 0 := by decide
  have hf1 : backspace ≠ f1 := by decide
  have hf2 : backspace ≠ f2 := by decide
  have hf3 : backspace ≠ f3 := by decide
  unfold drawn
  dsimp only
  rw [if_neg hkey, if_neg hf1, if_neg hf2, if_neg hf3, hscan]
  simp

theorem edit_backspace (k : Keyboard) (t : Terminal) : k.edit t backspace =
    if k.cursorInd t ≠ 0 then (k.press backspace).dropLast t else k.press backspace := by
  have hsmall : ¬ backspace > 127 := by decide
  have hne : backspace ≠ enter := by decide
  unfold Keyboard.edit
  dsimp only
  rw [if_neg hne, if_neg hsmall, typed_backspace]
  exact if_congr (and_iff_right rfl) rfl rfl

theorem edit_of_ne (k : Keyboard) (t : Terminal) {input : UInt8} (hb : input ≠ backspace) :
    k.edit t input =
      if input = enter then (k.typed t enter).commitLine t
      else if input > 127 then k.release input else k.typed t input := by
  unfold Keyboard.edit
  dsimp only
  rw [if_neg fun h => hb h.1]
  by_cases he : input = enter
  · have hsmall : ¬ enter > 127 := by decide
    subst he
    rw [if_pos rfl, if_pos rfl, if_neg hsmall]
  · rw [if_neg he, if_neg he]

theorem screenOps_backspace (s : Tty) : s.screenOps backspace =
    if s.kbd.cursorInd s.con.displayTerminal ≠ 0 then [.deleteC] else [] := by
  have hsmall : ¬ backspace > 127 := by decide
  unfold screenOps
  dsimp only
  rw [if_neg hsmall, drawn_backspace, List.nil_append]
  exact if_congr (and_iff_right rfl) rfl rfl

theorem screenOps_of_ne (s : Tty) {input : UInt8} (hb : input ≠ backspace) :
    s.screenOps input = if input > 127 then [] else s.drawn s.con.displayTerminal input := by
  have hback : ¬ (input = backspace ∧ s.kbd.cursorInd s.con.displayTerminal ≠ 0) :=
    fun h => hb h.1
  unfold screenOps
  dsimp only
  rw [if_neg hback, List.append_nil]

theorem run_single (con : Console) (op : ConsoleOp) :
    run Console.step con [op] = con.step op := by
  rw [run_cons]
  cases con.step op <;> rfl

theorem charKey_eq (s : Tty) (t : Terminal) (input : UInt8) :
    s.charKey t input =
      (run Console.step s.con
        (if s.kbd.cursorInd t < 128 ∨ input = enter then
          [.putcScrollDisplay (s.kbd.charMatch input)] else [])).map fun con =>
        ⟨con,
          if s.kbd.cursorInd t < 128 then s.kbd.append t (s.kbd.charMatch input) else s.kbd⟩ := by
  unfold charKey
  dsimp only
  by_cases hi : s.kbd.cursorInd t < 128
  · have hroom : ¬ s.kbd.cursorInd t ≥ 128 := by omega
    have hecho : s.kbd.cursorInd t < 128 ∨ input = enter := .inl hi
    rw [if_neg hroom, if_pos hecho, if_pos hi, run_single]
    rfl
  · have hfull : s.kbd.cursorInd t ≥ 128 := by omega
    rw [if_pos hfull, if_neg hi]
    by_cases he : input = enter
    · have hecho : s.kbd.cursorInd t < 128 ∨ input = enter := .inr he
      rw [if_pos he, if_pos hecho, run_single]
      rfl
    · rw [if_neg he, if_neg (by simp [hi, he])]
      rfl

theorem pressKey_eq (s : Tty) (t : Terminal) (input : UInt8) :
    s.pressKey t input =
      (run Console.step s.con (s.drawn t input)).map fun con => ⟨con, s.kbd.typed t input⟩ := by
  have hpress : s.press input = ⟨s.con, s.kbd.press input⟩ := rfl
  unfold pressKey drawn Keyboard.typed
  dsimp only
  rw [hpress]
  by_cases hclear : input = keyL ∧ (s.kbd.press input).pressedKey leftctrl
  · rw [if_pos hclear, if_pos hclear, if_pos hclear, run_cons]
    have hprompt := run_map Console.step .putcScrollDisplay s.con.clear prompt
    show (List.foldlM (fun (con : Console) c => con.step (.putcScrollDisplay c)) s.con.clear
      prompt).map _ = _
    rw [← hprompt]
    rfl
  · rw [if_neg hclear, if_neg hclear, if_neg hclear]
    by_cases halt : (s.kbd.press input).pressedKey leftalt
    · rw [if_pos halt, if_pos halt, if_pos halt]
      unfold displayKey
      split_ifs <;> rfl
    · rw [if_neg halt, if_neg halt, if_neg halt]
      by_cases hscan : scanCode input.toNat = 0
      · simp only [hscan, ne_eq, not_true_eq_false, false_and, if_false]
        rfl
      · simp only [hscan, ne_eq, not_false_eq_true, true_and, if_true]
        exact charKey_eq _ t input

/-- A byte draws on the screens, and edits the line of the terminal that is displayed. -/
theorem keyboardByte_eq (s : Tty) (input : UInt8) :
    s.keyboardByte input =
      (run Console.step s.con (s.screenOps input)).map fun con =>
        ⟨con, s.kbd.edit s.con.displayTerminal input⟩ := by
  have htype : s.typeKey s.con.displayTerminal input =
      (run Console.step s.con
        (if input > 127 then [] else s.drawn s.con.displayTerminal input)).map fun con =>
        ⟨con, if input > 127 then s.kbd.release input
          else s.kbd.typed s.con.displayTerminal input⟩ := by
    unfold typeKey
    split
    · rfl
    · exact pressKey_eq s _ input
  unfold keyboardByte
  dsimp only
  rw [htype]
  by_cases hb : input = backspace
  · have hsmall : ¬ backspace > 127 := by decide
    have hne : backspace ≠ enter := by decide
    subst hb
    rw [if_neg hsmall, if_neg hsmall, screenOps_backspace, edit_backspace, drawn_backspace,
      typed_backspace, run_nil]
    simp only [Option.map_some, Option.bind_some, if_neg hne, if_true]
    unfold backspaceKey
    dsimp only
    have hcur : (s.kbd.press backspace).cursorInd = s.kbd.cursorInd := rfl
    rw [hcur]
    split
    · rw [run_single]
      rfl
    · rfl
  · rw [screenOps_of_ne s hb, edit_of_ne _ _ hb]
    cases run Console.step s.con
        (if input > 127 then [] else s.drawn s.con.displayTerminal input) with
    | none => rfl
    | some con =>
      simp only [Option.map_some, Option.bind_some, if_neg hb]
      by_cases he : input = enter
      · have hsmall : ¬ enter > 127 := by decide
        subst he
        rw [if_pos rfl, if_pos rfl, if_neg hsmall]
      · rw [if_neg he, if_neg he]

end Tty

end OS391
