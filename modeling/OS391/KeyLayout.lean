import Mathlib.Data.List.Induction
import OS391.EchoedLines

/-! Keys and characters: which keys are held after any sequence of scan codes, and the character
that a key types then. -/

namespace OS391
open Library.Runs Library.Bytes

/-! ## The keys of a keyboard -/

/-- The key that a scan code is about: its break code is its make code with bit 7 set. -/
def keyOf (b : UInt8) : Nat := b.toNat % 128

/-- The last scan code of key `i` is its make code. -/
def held (sent : List UInt8) (i : Nat) : Bool :=
  (sent.reverse.find? fun b => keyOf b = i).any fun b => b.toNat < 128

/-- CapsLock was pressed an odd number of times. -/
def capsOn (sent : List UInt8) : Bool := sent.count capslock % 2 = 1

def shiftOn (sent : List UInt8) : Bool := held sent leftshift || held sent rightshift

def isLetter (c : UInt8) : Prop := 97 ≤ c ∧ c ≤ 122

instance (c : UInt8) : Decidable (isLetter c) := inferInstanceAs (Decidable (_ ∧ _))

/-- The character of a key: Shift and CapsLock cancel on a letter, and CapsLock is for letters. -/
def layoutChar (shift caps : Bool) (c : UInt8) : UInt8 :=
  let plain := scanCode c.toNat
  if isLetter plain then (if shift = caps then plain else plain - 32)
  else if plain = 0 ∨ c = enter then plain
  else if shift then tableByte shiftConvertTable c.toNat
  else plain

theorem held_snoc (sent : List UInt8) (b : UInt8) (i : Nat) :
    held (sent ++ [b]) i = if keyOf b = i then decide (b.toNat < 128) else held sent i := by
  unfold held
  rw [List.reverse_append, List.reverse_singleton, List.singleton_append, List.find?_cons]
  by_cases h : keyOf b = i
  · rw [decide_eq_true h, if_pos h]
    rfl
  · rw [decide_eq_false h, if_neg h]

theorem capsOn_snoc (sent : List UInt8) (b : UInt8) :
    capsOn (sent ++ [b]) = if b = capslock then !capsOn sent else capsOn sent := by
  unfold capsOn
  rw [List.count_append, List.count_singleton]
  by_cases h : b = capslock
  · subst h
    rw [if_pos rfl, beq_self_eq_true, if_pos rfl]
    grind
  · have hne : (b == capslock) = false := beq_eq_false_iff_ne.mpr h
    rw [if_neg h, hne, if_neg Bool.false_ne_true, Nat.add_zero]

namespace Keyboard

/-- A key goes down or up. -/
def moved (k : Keyboard) (b : UInt8) : Keyboard := if b > 127 then k.release b else k.press b

theorem typed_keys (k : Keyboard) (t : Terminal) (b : UInt8) :
    (k.typed t b).pressedKey = (k.press b).pressedKey ∧
      (k.typed t b).capStatus = (k.press b).capStatus := by
  unfold typed
  dsimp only
  split_ifs <;> exact ⟨rfl, rfl⟩

/-- Editing the line moves no key but the one that the byte is about. -/
theorem edit_keys (k : Keyboard) (t : Terminal) (b : UInt8) :
    (k.edit t b).pressedKey = (k.moved b).pressedKey ∧
      (k.edit t b).capStatus = (k.moved b).capStatus := by
  have hfirst : (if b > 127 then k.release b else k.typed t b).pressedKey = (k.moved b).pressedKey ∧
      (if b > 127 then k.release b else k.typed t b).capStatus = (k.moved b).capStatus := by
    unfold moved
    split
    · exact ⟨rfl, rfl⟩
    · exact k.typed_keys t b
  unfold edit
  generalize (if b > 127 then k.release b else k.typed t b) = k₁ at hfirst ⊢
  dsimp only
  split_ifs <;> exact hfirst

/-- The keyboard knows the keys of `sent`. -/
structure Knows (k : Keyboard) (sent : List UInt8) : Prop where
  keys : ∀ i, k.pressedKey i = held sent i
  caps : k.capStatus = capsOn sent

theorem initKeyboard_knows (k : Keyboard) : k.initKeyboard.Knows [] := ⟨fun _ => rfl, rfl⟩

theorem Knows.moved {k : Keyboard} {sent : List UInt8} (h : k.Knows sent) (b : UInt8) :
    (k.moved b).Knows (sent ++ [b]) := by
  unfold Keyboard.moved
  split
  · rename_i hbig
    have hlt := b.toNat_lt
    have hge : 128 ≤ b.toNat := UInt8.lt_iff_toNat_lt.mp hbig
    have hkey : keyOf b = b.toNat - 128 := by
      unfold keyOf
      omega
    have hcaps : b ≠ capslock := by
      rintro rfl
      exact absurd hge (by decide)
    refine ⟨fun i => ?_, ?_⟩
    · rw [held_snoc, hkey, decide_eq_false (Nat.not_lt.mpr hge), ← h.keys]
      show Function.update k.pressedKey (b.toNat - 128) false i = _
      rw [Function.update_apply]
      exact if_congr eq_comm rfl rfl
    · rw [capsOn_snoc, if_neg hcaps]
      exact h.caps
  · rename_i hsmall
    have hlt : b.toNat < 128 := by
      have hle : b.toNat ≤ 127 := UInt8.le_iff_toNat_le.mp (UInt8.not_lt.mp hsmall)
      omega
    have hkey : keyOf b = b.toNat := Nat.mod_eq_of_lt hlt
    refine ⟨fun i => ?_, ?_⟩
    · rw [held_snoc, hkey, decide_eq_true hlt, ← h.keys]
      show Function.update k.pressedKey b.toNat true i = _
      rw [Function.update_apply]
      exact if_congr eq_comm rfl rfl
    · rw [capsOn_snoc, ← h.caps]
      rfl

theorem Knows.edit {k : Keyboard} {sent : List UInt8} (h : k.Knows sent) (t : Terminal)
    (b : UInt8) : (k.edit t b).Knows (sent ++ [b]) := by
  obtain ⟨hkeys, hcaps⟩ := k.edit_keys t b
  have hmoved := h.moved b
  exact ⟨fun i => by rw [hkeys, hmoved.keys], by rw [hcaps, hmoved.caps]⟩

/-- The letters of the two tables differ by 32. -/
theorem letters (c : UInt8) : isLetter (scanCode c.toNat) →
    c.toNat < 80 ∧ c ≠ enter ∧ tableByte shiftConvertTable c.toNat = scanCode c.toNat - 32 := by
  have hall : ∀ i < 256, isLetter (scanCode i) →
      i < 80 ∧ i ≠ 28 ∧ tableByte shiftConvertTable i = scanCode i - 32 := by decide +kernel
  intro h
  obtain ⟨hlt, hne, hupper⟩ := hall c.toNat c.toNat_lt h
  refine ⟨hlt, ?_, hupper⟩
  rintro rfl
  exact hne rfl

/-- `char_match` is the layout, on the keys that `shift_convert` has an entry for. -/
theorem charMatch_layout {k : Keyboard} {shift : Bool} {c : UInt8}
    (hshift : (k.pressedKey leftshift || k.pressedKey rightshift) = shift) (hc : c.toNat < 80) :
    k.charMatch c = layoutChar shift k.capStatus c := by
  have hconvert : k.shiftConvert c.toNat = tableByte shiftConvertTable c.toNat := if_pos hc
  unfold charMatch layoutChar
  dsimp only
  rw [hshift, hconvert]
  by_cases hl : isLetter (scanCode c.toNat)
  · obtain ⟨-, hne, hupper⟩ := letters c hl
    have hzero : scanCode c.toNat ≠ 0 := by
      intro h
      rw [h] at hl
      exact absurd hl (by decide)
    rw [if_neg hzero, if_pos hl, if_neg hne, if_neg hne, hupper]
    have hl' : 97 ≤ scanCode c.toNat ∧ scanCode c.toNat ≤ 122 := hl
    cases k.capStatus <;> cases shift <;> simp [hl'.1, hl'.2]
  · have hcaps : ¬ (k.capStatus = true ∧ 97 ≤ scanCode c.toNat ∧ scanCode c.toNat ≤ 122) :=
      fun h => hl h.2
    rw [if_neg hl, if_neg hcaps]
    by_cases hzero : scanCode c.toNat = 0
    · rw [if_pos hzero, if_pos (Or.inl hzero), hzero]
    · rw [if_neg hzero]
      by_cases he : c = enter
      · have hplain : scanCode enter.toNat = newline := by decide
        subst he
        rw [if_pos (Or.inr rfl), if_pos rfl, hplain, ite_self]
      · rw [if_neg (not_or.mpr ⟨hzero, he⟩), if_neg he]

/-- A key that types a letter, or any other character, is not a Shift key. -/
theorem press_shift {k : Keyboard} {c : UInt8} (hc : scanCode c.toNat ≠ 0) :
    ((k.press c).pressedKey leftshift || (k.press c).pressedKey rightshift) =
      (k.pressedKey leftshift || k.pressedKey rightshift) := by
  have hleft : scanCode leftshift = 0 := by decide
  have hright : scanCode rightshift = 0 := by decide
  have hl : leftshift ≠ c.toNat := fun h => hc (h ▸ hleft)
  have hr : rightshift ≠ c.toNat := fun h => hc (h ▸ hright)
  rw [Tty.pressedKey_press _ hl, Tty.pressedKey_press _ hr]

theorem press_caps {k : Keyboard} {c : UInt8} (hc : scanCode c.toNat ≠ 0) :
    (k.press c).capStatus = k.capStatus := by
  have hcaps : c ≠ capslock := by
    rintro rfl
    exact hc (by decide)
  exact if_neg hcaps

end Keyboard

namespace Tty

/-- Whatever was sent, whichever terminals were displayed meanwhile. -/
theorem run_knows {s s' : Tty} {sent : List UInt8} (h : s.kbd.Knows [])
    (hrun : run keyboardByte s sent = some s') : s'.kbd.Knows sent := by
  induction sent using List.reverseRecOn generalizing s' with
  | nil =>
    cases hrun
    exact h
  | append_singleton sent b ih =>
    rw [run_append] at hrun
    obtain ⟨s₁, hs₁, hb⟩ := Option.bind_eq_some_iff.mp hrun
    obtain ⟨s₂, hs₂, hnil⟩ := Option.bind_eq_some_iff.mp hb
    cases hnil
    rw [keyboardByte_eq] at hs₂
    obtain ⟨con, -, rfl⟩ := Option.map_eq_some_iff.mp hs₂
    exact (ih hs₁).edit s₁.con.displayTerminal b

/-- After the scan codes of `sent`, key `c` is one that types a character: it has an entry in the
tables, no command key is held, and the line has room. -/
structure Types (s : Tty) (sent : List UInt8) (c : UInt8) : Prop where
  small : c.toNat < 80
  scan : scanCode c.toNat ≠ 0
  notEnter : c ≠ enter
  ctrl : held sent leftctrl = false
  alt : held sent leftalt = false
  room : s.kbd.cursorInd s.con.displayTerminal < 128

instance (s : Tty) (sent : List UInt8) (c : UInt8) : Decidable (s.Types sent c) :=
  decidable_of_iff (c.toNat < 80 ∧ scanCode c.toNat ≠ 0 ∧ c ≠ enter ∧ held sent leftctrl = false ∧
      held sent leftalt = false ∧ s.kbd.cursorInd s.con.displayTerminal < 128)
    ⟨fun ⟨h₁, h₂, h₃, h₄, h₅, h₆⟩ => ⟨h₁, h₂, h₃, h₄, h₅, h₆⟩,
      fun ⟨h₁, h₂, h₃, h₄, h₅, h₆⟩ => ⟨h₁, h₂, h₃, h₄, h₅, h₆⟩⟩

/-- The character of a key is the one of the layout. -/
theorem knows_charMatch {k : Keyboard} {sent : List UInt8} {c : UInt8} (h : k.Knows sent)
    (hc : c.toNat < 80) (hscan : scanCode c.toNat ≠ 0) :
    (k.press c).charMatch c = layoutChar (shiftOn sent) (capsOn sent) c := by
  have hshift : ((k.press c).pressedKey leftshift || (k.press c).pressedKey rightshift) =
      shiftOn sent := by
    rw [Keyboard.press_shift hscan, h.keys, h.keys]
    rfl
  rw [Keyboard.charMatch_layout hshift hc, Keyboard.press_caps hscan, h.caps]

/-- What such a key does: one character on the line, and the same one on the screen. -/
theorem types_step {s : Tty} {sent : List UInt8} {c : UInt8} (hknows : s.kbd.Knows sent)
    (h : s.Types sent c) :
    s.screenOps c = [.putcScrollDisplay (layoutChar (shiftOn sent) (capsOn sent) c)] ∧
      (s.kbd.edit s.con.displayTerminal c).lineOf s.con.displayTerminal =
        s.kbd.lineOf s.con.displayTerminal ++ [layoutChar (shiftOn sent) (capsOn sent) c] := by
  have hsmall : ¬ c > 127 := by
    have := h.small
    rw [gt_iff_lt, UInt8.lt_iff_toNat_lt]
    show ¬ 127 < c.toNat
    omega
  have hback : c ≠ backspace := by
    rintro rfl
    exact h.scan (by decide)
  have hctrl : ¬ (c = keyL ∧ (s.kbd.press c).pressedKey leftctrl) := by
    rintro ⟨rfl, hctrl⟩
    have hne : leftctrl ≠ keyL.toNat := by decide
    rw [pressedKey_press _ hne, hknows.keys, h.ctrl] at hctrl
    exact Bool.false_ne_true hctrl
  have halt : ¬ (s.kbd.press c).pressedKey leftalt = true := by
    have hne : leftalt ≠ c.toNat := by
      intro heq
      have hscan : scanCode leftalt = 0 := by decide
      exact h.scan (heq ▸ hscan)
    rw [pressedKey_press _ hne, hknows.keys, h.alt]
    exact Bool.false_ne_true
  have hchar := knows_charMatch hknows h.small h.scan
  have hroom : (s.kbd.press c).cursorInd s.con.displayTerminal < 128 := h.room
  constructor
  · rw [screenOps_of_ne s hback, if_neg hsmall]
    unfold drawn
    dsimp only
    rw [if_neg hctrl, if_neg halt, if_pos ⟨h.scan, .inl hroom⟩, hchar]
  · rw [edit_of_ne _ _ hback, if_neg h.notEnter, if_neg hsmall]
    unfold Keyboard.typed
    dsimp only
    rw [if_neg hctrl, if_neg halt, if_pos ⟨h.scan, hroom⟩, lineOf_append, hchar]
    rfl

/-- **Typed characters.** After any scan codes from `init_keyboard` on, a key that types puts one
character on the line and on the screen of the displayed terminal: the one that the layout has for
it under the Shift keys that are held and the number of times that CapsLock was pressed. -/
theorem typed_character {s s' s'' : Tty} {k : Keyboard} {sent : List UInt8} {c : UInt8}
    (hinit : s.kbd = k.initKeyboard) (hrun : run keyboardByte s sent = some s')
    (h : s'.Types sent c) (hb : s'.keyboardByte c = some s'') :
    s''.kbd.lineOf s'.con.displayTerminal = s'.kbd.lineOf s'.con.displayTerminal ++
        [layoutChar (shiftOn sent) (capsOn sent) c] ∧
      s'.con.putcScrollDisplay (layoutChar (shiftOn sent) (capsOn sent) c) = some s''.con := by
  have hknows := run_knows (hinit ▸ k.initKeyboard_knows) hrun
  obtain ⟨hops, hline⟩ := types_step hknows h
  rw [keyboardByte_eq] at hb
  obtain ⟨con, hcon, rfl⟩ := Option.map_eq_some_iff.mp hb
  refine ⟨hline, ?_⟩
  rw [hops, run_single] at hcon
  exact hcon

/-- Both Shift keys down, one of them up again, CapsLock, and then `q`. -/
theorem typed_character_q : ∃ s' s'', run keyboardByte ⟨.boot, Keyboard.boot.initKeyboard⟩
      [42, 54, 182, 58, 186] = some s' ∧ s'.keyboardByte 16 = some s'' ∧
    s''.kbd.lineOf s'.con.displayTerminal = s'.kbd.lineOf s'.con.displayTerminal ++
        [layoutChar true true 16] ∧
      s'.con.putcScrollDisplay (layoutChar true true 16) = some s''.con := by
  obtain ⟨s', hs', htypes, hsome⟩ := exists_of_map_decide
    (fun s' : Tty => s'.Types [42, 54, 182, 58, 186] 16 ∧ (s'.keyboardByte 16).isSome = true)
    (x := run keyboardByte ⟨.boot, Keyboard.boot.initKeyboard⟩ [42, 54, 182, 58, 186])
    (by decide +kernel)
  obtain ⟨s'', hs''⟩ := Option.isSome_iff_exists.mp hsome
  exact ⟨s', s'', hs', hs'', typed_character (k := Keyboard.boot) rfl hs' htypes hs''⟩

end Tty

end OS391
