import OS391.LineEditor

/-! The line being typed and the cursor of its terminal: Backspace goes back over the screen
as far as the line goes back, and never out of it. -/

namespace OS391
open Library.Runs Library.Bytes

/-! ## The cells of a page -/

namespace Console

/-- No byte differs outside the 25 rows of 80 cells of the page at `base`. -/
def Cells (base : Nat) (s s' : Console) : Prop :=
  ∀ i, i < base ∨ base + 4000 ≤ i → s'.videoMem i = s.videoMem i

theorem Cells.trans {base : Nat} {s s' s'' : Console} (h : Cells base s s')
    (h' : Cells base s' s'') : Cells base s s'' :=
  fun i hi => (h' i hi).trans (h i hi)

theorem shiftOf_cells (s : Console) (t : Terminal) : Cells (s.pageBase t) s (shiftOf t s) := by
  intro i hi
  show shiftPage (s.pageBase t) s.videoMem i = s.videoMem i
  rw [shiftPage_eq]
  split
  · rename_i hin
    have hlast : ¬ i - s.pageBase t < 3840 := by omega
    have hend : ¬ i - s.pageBase t < 4000 := by omega
    rw [Screen.scrollPage, if_neg hlast, if_neg hend, Nat.add_sub_cancel' hin.1]
  · rfl

theorem draw_cells {s s' : Console} {t : Terminal} {scr : Screen} (h : Shows s t scr)
    (hp : scr.pos < 2000) {c : UInt8} (hs : s.draw (s.pageBase t) t c = some s') :
    Cells (s.pageBase t) s s' := by
  rw [draw_eq h hp c] at hs
  cases hs
  intro i hi
  have hchar : i ≠ s.pageBase t + 2 * scr.pos := by omega
  have hattr : i ≠ s.pageBase t + (2 * scr.pos + 1) := by omega
  simp only [Function.update_of_ne hattr, Function.update_of_ne hchar]

theorem putcWith_cells {s s' : Console} {t : Terminal} {scr : Screen} (h : Shows s t scr)
    {shift : Console → Console} {c : UInt8}
    (hshift : ∀ s', s'.activeTerminal = s.activeTerminal →
      s'.displayTerminal = s.displayTerminal → shift s' = shiftOf t s')
    (hs : s.putcWith t (s.pageBase t) shift c = some s') : Cells (s.pageBase t) s s' := by
  unfold putcWith at hs
  split at hs
  · have hnext := hshift (s.setCursor t 0 (s.screenY t + 1)) rfl rfl
    rw [scroll_eq _ t shift hnext] at hs
    cases hs
    split
    · exact shiftOf_cells (s.setCursor t 0 (s.screenY t + 1)) t
    · exact fun _ _ => rfl
  · obtain ⟨s₁, hs₁, hshow, hframe, hscroll⟩ := scroll_ready h shift (hshift _ rfl rfl)
    rw [hs₁, Option.bind_some] at hs
    obtain ⟨s₂, hs₂, hput⟩ := Option.map_eq_some_iff.mp hs
    have hfirst : Cells (s.pageBase t) s s₁ := by
      rcases hscroll with rfl | rfl
      · exact fun _ _ => rfl
      · exact shiftOf_cells s t
    rw [← hframe.pageBase t] at hs₂ hfirst ⊢
    have hdraw := draw_cells hshow scr.ready_pos_lt hs₂
    rw [← hput]
    exact hfirst.trans hdraw

theorem deleteC_cells {s s' : Console} {scr : Screen} (h : Shows s s.displayTerminal scr)
    (hs : s.deleteC = some s') : Cells 0 s s' := by
  by_cases hp : scr.pos = 0
  · rw [deleteC_home h rfl (dif_pos hp)] at hs
    cases hs
  · have hpos := scr.onScreen
    obtain ⟨s₁, hs₁, hshow, hframe, hmem⟩ := h.back hp (by omega)
    obtain ⟨s₂, hs₂, hs⟩ := Option.map_eq_some_iff.mp hs
    rw [hs₁] at hs₂
    have hbase : s₁.pageBase s.displayTerminal = 0 := by simp [pageBase, hframe.display]
    rw [← hbase] at hs₂
    have hdraw := draw_cells hshow (by simp only; omega) hs₂
    rw [hbase] at hdraw
    rw [← hs]
    exact fun i hi => (hdraw i hi).trans (congrFun hmem i)

/-- Every operation but a switch of the display stays inside the cells of its page. -/
theorem step_cells {s s' : Console} {op : ConsoleOp} {t : Terminal} {scr : Screen}
    (ht : s.addressee op = some t) (h : Shows s t scr) (hs : s.step op = some s') :
    Cells (s.pageBase t) s s' := by
  cases op with
  | putcScroll c =>
    cases ht
    obtain ⟨s₁, hs₁, hs⟩ := Option.map_eq_some_iff.mp hs
    have hput : Cells (s.pageBase s.activeTerminal) s s₁ := by
      refine putcWith_cells h (fun s₁ ha hd => ?_) hs₁
      by_cases he : s.activeTerminal = s.displayTerminal
      · simp [shiftUpDisplay, shiftOf, pageBase, ha, hd, he]
      · simp [shiftUp, shiftOf, pageBase, ha, hd, he]
    rw [← hs]
    split
    · exact hput
    · exact hput
  | putcScrollDisplay c =>
    cases ht
    obtain ⟨s₁, hs₁, hs⟩ := Option.map_eq_some_iff.mp hs
    have hbase : s.pageBase s.displayTerminal = 0 := if_pos rfl
    rw [← hbase] at hs₁
    have hput : Cells (s.pageBase s.displayTerminal) s s₁ :=
      putcWith_cells h (fun s₁ _ hd => by simp [shiftUpDisplay, shiftOf, pageBase, hd]) hs₁
    rw [← hs]
    exact hput
  | deleteC =>
    cases ht
    have hbase : s.pageBase s.displayTerminal = 0 := if_pos rfl
    rw [hbase]
    exact deleteC_cells h hs
  | clear =>
    cases ht
    cases hs
    intro i hi
    have hbase : s.pageBase s.displayTerminal = 0 := if_pos rfl
    rw [hbase] at hi
    simp only [clear, updateCursor, setCursor, blankRows_eq]
    exact if_neg (by omega)
  | setActiveTerminal d => cases ht
  | setDisiplayTerminal d => cases ht

/-! ## How far a screen has been written -/

/-- At least `n` cells of the screen of `t` lie before its cursor. -/
def Ahead (con : Console) (t : Terminal) (n : Nat) : Prop := ∃ scr, Shows con t scr ∧ n ≤ scr.pos

theorem Ahead.mono {con : Console} {t : Terminal} {m n : Nat} (h : Ahead con t n) (hm : m ≤ n) :
    Ahead con t m := by
  obtain ⟨scr, hshow, hn⟩ := h
  exact ⟨scr, hshow, Nat.le_trans hm hn⟩

/-- Every operation of the list ends, inside the cells of the page it is addressed to. -/
def RunsInside : Console → List ConsoleOp → Prop
  | _, [] => True
  | con, op :: ops => ∃ con', con.step op = some con' ∧
    (∀ t, con.addressee op = some t → Cells (con.pageBase t) con con') ∧ RunsInside con' ops

/-- The list runs inside the cells, and leaves the screens written as far as `n'` says. -/
def Leads (con : Console) (ops : List ConsoleOp) (n' : Terminal → Nat) : Prop :=
  RunsInside con ops ∧ ∃ con', run step con ops = some con' ∧ ∀ u, Ahead con' u (n' u)

end Console

namespace Screen

theorem put_pos (scr : Screen) (c : UInt8) : min (scr.pos + 1) 1920 ≤ (scr.put c).pos := by
  have hpos := scr.onScreen
  unfold put
  split
  · split
    · simp only
      omega
    · exact Nat.min_le_right _ _
  · unfold ready
    split
    · simp only [scrolled]
      omega
    · exact Nat.min_le_left _ _

/-- The cells before the cursor, if there were `n`. -/
def aheadAfter (n : Nat) : ConsoleOp → Nat
  | .putcScroll _ | .putcScrollDisplay _ => n + 1
  | .deleteC => n - 1
  | .clear => 0
  | .setActiveTerminal _ | .setDisiplayTerminal _ => n

theorem step_pos {scr : Screen} {n : Nat} (h : n ≤ scr.pos) (hn : n < 1920) {op : ConsoleOp}
    (hdel : op = .deleteC → 0 < n) :
    ∃ scr', scr.step op = some scr' ∧ aheadAfter n op ≤ scr'.pos := by
  cases op with
  | putcScroll c =>
    have hput := scr.put_pos c
    exact ⟨_, rfl, by simp only [aheadAfter]; omega⟩
  | putcScrollDisplay c =>
    have hput := scr.put_pos c
    exact ⟨_, rfl, by simp only [aheadAfter]; omega⟩
  | deleteC =>
    have hpos : ¬ scr.pos = 0 := by
      have := hdel rfl
      omega
    exact ⟨_, dif_neg hpos, Nat.sub_le_sub_right h 1⟩
  | clear => exact ⟨_, rfl, Nat.zero_le _⟩
  | setActiveTerminal d => exact ⟨_, rfl, h⟩
  | setDisiplayTerminal d => exact ⟨_, rfl, h⟩

end Screen

namespace Console

variable {con : Console} {n n' : Terminal → Nat}

theorem step_ahead (h : ∀ u, Ahead con u (n u)) (hn : ∀ u, n u < 1920) (op : ConsoleOp)
    (hdel : op = .deleteC → 0 < n con.displayTerminal) :
    ∃ con', con.step op = some con' ∧
      (∀ t, con.addressee op = some t → Cells (con.pageBase t) con con') ∧
      ∀ u, Ahead con' u
        (if con.addressee op = some u then Screen.aheadAfter (n u) op else n u) := by
  cases ha : con.addressee op with
  | none =>
    obtain ⟨con', hstep, hshows⟩ := step_switch ha
    refine ⟨con', hstep, fun t ht => absurd ht (Option.some_ne_none t).symm, fun u => ?_⟩
    obtain ⟨scr, hscr, hle⟩ := h u
    exact ⟨scr, hshows u scr hscr, by simpa using hle⟩
  | some t =>
    obtain ⟨scr, hscr, hle⟩ := h t
    have hback : op = .deleteC → 0 < n t := by
      intro he
      subst he
      cases ha
      exact hdel rfl
    obtain ⟨scr', hscr', hle'⟩ := Screen.step_pos hle (hn t) hback
    obtain ⟨con', hstep, hshow, hframe⟩ := step_addressed ha hscr hscr'
    refine ⟨con', hstep, fun u hu => ?_, fun u => ?_⟩
    · cases hu
      exact step_cells ha hscr hstep
    · by_cases hu : u = t
      · subst hu
        rw [if_pos rfl]
        exact ⟨scr', hshow, hle'⟩
      · rw [if_neg fun he => hu (Option.some.inj he).symm]
        obtain ⟨scru, hscru, hleu⟩ := h u
        exact ⟨scru, hframe.shows hu hscru, hleu⟩

theorem Leads.nil (h : ∀ u, Ahead con u (n u)) : Leads con [] n := ⟨trivial, con, rfl, h⟩

theorem Leads.cons (h : ∀ u, Ahead con u (n u)) (hn : ∀ u, n u < 1920) {op : ConsoleOp}
    {ops : List ConsoleOp} (hdel : op = .deleteC → 0 < n con.displayTerminal)
    (hrest : ∀ con', (∀ u, Ahead con' u
      (if con.addressee op = some u then Screen.aheadAfter (n u) op else n u)) →
      Leads con' ops n') : Leads con (op :: ops) n' := by
  obtain ⟨con₁, hstep, hcells, hahead⟩ := step_ahead h hn op hdel
  obtain ⟨hin, con₂, hrun, hall⟩ := hrest con₁ hahead
  refine ⟨⟨con₁, hstep, hcells, hin⟩, con₂, ?_, hall⟩
  rw [run_cons, hstep, Option.bind_some, hrun]

theorem Leads.single (h : ∀ u, Ahead con u (n u)) (hn : ∀ u, n u < 1920) {op : ConsoleOp}
    (hdel : op = .deleteC → 0 < n con.displayTerminal)
    (hle : ∀ u, n' u ≤ if con.addressee op = some u then Screen.aheadAfter (n u) op else n u) :
    Leads con [op] n' :=
  Leads.cons h hn hdel fun _ hahead => Leads.nil fun u => (hahead u).mono (hle u)

/-- A text written to the displayed terminal. -/
theorem Leads.text (l : List UInt8) (h : ∀ u, Ahead con u (n u)) (hn : ∀ u, n u < 1920) :
    Leads con (l.map .putcScrollDisplay) n := by
  induction l generalizing con with
  | nil => exact Leads.nil h
  | cons c l ih =>
    apply Leads.cons h hn (by simp)
    intro con' hahead
    apply ih
    intro u
    apply (hahead u).mono
    split
    · exact Nat.le_succ _
    · exact Nat.le_refl _

theorem Leads.mono {n'' : Terminal → Nat} {ops : List ConsoleOp} (h : Leads con ops n')
    (hle : ∀ u, n'' u ≤ n' u) : Leads con ops n'' := by
  obtain ⟨hin, con', hrun, hall⟩ := h
  exact ⟨hin, con', hrun, fun u => (hall u).mono (hle u)⟩

end Console

/-! ## The line being typed -/

namespace Keyboard

/-- The line of `t` ends inside its row, and the row holds zeros from its end on. -/
structure Tidy (k : Keyboard) (t : Terminal) : Prop where
  line : k.cursorInd t ≤ 128
  rest : ∀ i, k.cursorInd t ≤ i → i ≤ 128 → k.keyboardBuffer t i = 0

/-- An edit that stores inside the rows of `keyboard_buffer` and keeps them tidy. -/
structure Neat (k k' : Keyboard) : Prop where
  tidy : ∀ t, k.Tidy t → k'.Tidy t
  inside : ∀ t i, keyLim ≤ i → k'.keyboardBuffer t i = k.keyboardBuffer t i

theorem Neat.refl (k : Keyboard) : Neat k k := ⟨fun _ h => h, fun _ _ _ => rfl⟩

theorem Neat.trans {k k' k'' : Keyboard} (h : Neat k k') (h' : Neat k' k'') : Neat k k'' :=
  ⟨fun t ht => h'.tidy t (h.tidy t ht), fun t i hi => (h'.inside t i hi).trans (h.inside t i hi)⟩

/-- An edit of the line of one terminal. -/
theorem Neat.of_update {k k' : Keyboard} {t : Terminal} {line : Nat → UInt8} {n : Nat}
    (hbuf : k'.keyboardBuffer = Function.update k.keyboardBuffer t line)
    (hcur : k'.cursorInd = Function.update k.cursorInd t n)
    (hline : k.Tidy t → n ≤ 128 ∧ ∀ i, n ≤ i → i ≤ 128 → line i = 0)
    (hin : ∀ i, keyLim ≤ i → line i = k.keyboardBuffer t i) : Neat k k' := by
  constructor
  · intro u hu
    by_cases he : u = t
    · subst he
      obtain ⟨hn, hrest⟩ := hline hu
      constructor
      · simpa [hcur] using hn
      · simpa [hcur, hbuf] using hrest
    · constructor
      · simpa [hcur, Function.update_of_ne he] using hu.line
      · simpa [hcur, hbuf, Function.update_of_ne he] using hu.rest
  · intro u i hi
    by_cases he : u = t
    · subst he
      simpa [hbuf] using hin i hi
    · simp [hbuf, Function.update_of_ne he]

theorem append_neat {k : Keyboard} {t : Terminal} (hi : k.cursorInd t < 128) (c : UInt8) :
    Neat k (k.append t c) := by
  apply Neat.of_update (t := t) rfl rfl
  · intro h
    refine ⟨hi, fun i hle hlt => ?_⟩
    rw [Function.update_of_ne (by omega)]
    exact h.rest i (by omega) hlt
  · intro i hge
    have hge' : 129 ≤ i := hge
    exact Function.update_of_ne (by omega) _ _

theorem dropLast_neat {k : Keyboard} {t : Terminal} (hle : k.cursorInd t ≤ 128) :
    Neat k (k.dropLast t) := by
  apply Neat.of_update (t := t) rfl rfl
  · intro h
    refine ⟨by omega, fun i hle hlt => ?_⟩
    by_cases he : i = k.cursorInd t - 1
    · rw [he, Function.update_self]
    · rw [Function.update_of_ne he]
      exact h.rest i (by omega) hlt
  · intro i hge
    have hge' : 129 ≤ i := hge
    exact Function.update_of_ne (by omega) _ _

theorem clearKeyboardBuffer_neat (k : Keyboard) (t : Terminal) :
    Neat k (k.clearKeyboardBuffer t) := by
  apply Neat.of_update (t := t) rfl rfl
  · intro _
    refine ⟨Nat.zero_le _, fun i _ hlt => if_pos ?_⟩
    simp only [keyLim]
    omega
  · intro i hge
    apply if_neg
    omega

theorem commitLine_neat (k : Keyboard) (t : Terminal) : Neat k (k.commitLine t) :=
  (clearKeyboardBuffer_neat k t).trans ⟨fun _ h => ⟨h.line, h.rest⟩, fun _ _ _ => rfl⟩

theorem press_neat (k : Keyboard) (input : UInt8) : Neat k (k.press input) :=
  ⟨fun _ h => ⟨h.line, h.rest⟩, fun _ _ _ => rfl⟩

theorem release_neat (k : Keyboard) (input : UInt8) : Neat k (k.release input) :=
  ⟨fun _ h => ⟨h.line, h.rest⟩, fun _ _ _ => rfl⟩

theorem typed_neat (k : Keyboard) (t : Terminal) (input : UInt8) : Neat k (k.typed t input) := by
  have hpress := press_neat k input
  unfold typed
  dsimp only
  split
  · exact hpress.trans (clearKeyboardBuffer_neat _ t)
  · split
    · exact hpress
    · split
      · rename_i hchar
        exact hpress.trans (append_neat hchar.2 _)
      · exact hpress

theorem edit_neat {k : Keyboard} {t : Terminal} (hle : k.cursorInd t ≤ 128) (input : UInt8) :
    Neat k (k.edit t input) := by
  by_cases hb : input = backspace
  · subst hb
    rw [Tty.edit_backspace]
    split
    · exact (press_neat k backspace).trans (dropLast_neat hle)
    · exact press_neat k backspace
  · rw [Tty.edit_of_ne k t hb]
    split
    · exact (typed_neat k t enter).trans (commitLine_neat _ t)
    · split
      · exact release_neat k input
      · exact typed_neat k t input

end Keyboard

/-! ## A byte -/

namespace Tty
open Console Keyboard

/-- How far the screen of each terminal has been written, by its line at least. -/
def Covered (s : Tty) : Prop :=
  ∀ u, Ahead s.con u (s.kbd.cursorInd u) ∧ s.kbd.cursorInd u ≤ 128

variable {s : Tty}

theorem Covered.lt (h : s.Covered) (u : Terminal) : s.kbd.cursorInd u < 1920 :=
  Nat.lt_of_le_of_lt (h u).2 (by decide)

/-- After Ctrl-L the line is empty, and the prompt moves the cursor away from it. -/
theorem Covered.cleared (h : s.Covered) :
    Leads s.con (.clear :: prompt.map .putcScrollDisplay)
      (Function.update s.kbd.cursorInd s.con.displayTerminal 0) := by
  have hprompt : ∀ u, Function.update s.kbd.cursorInd s.con.displayTerminal 0 u < 1920 := by
    intro u
    rw [Function.update_apply]
    split
    · decide
    · exact h.lt u
  apply Leads.cons (fun u => (h u).1) h.lt
  · simp
  · intro con' hahead'
    apply (Leads.text prompt _ hprompt).mono (fun _ => Nat.le_refl _)
    intro u
    apply (hahead' u).mono
    by_cases hu : u = s.con.displayTerminal
    · rw [hu, Function.update_self]
      exact Nat.zero_le _
    · have hother : s.con.addressee .clear ≠ some u := fun he => hu (Option.some.inj he).symm
      exact Nat.le_of_eq (by rw [Function.update_of_ne hu, if_neg hother])

/-- The screen goes as far as the line, whatever a make code does to both. -/
theorem Covered.drawn (h : s.Covered) (input : UInt8) :
    Leads s.con (s.drawn s.con.displayTerminal input)
      (s.kbd.typed s.con.displayTerminal input).cursorInd := by
  have hahead : ∀ u, Ahead s.con u (s.kbd.cursorInd u) := fun u => (h u).1
  unfold Tty.drawn Keyboard.typed
  dsimp only
  by_cases hclear : input = keyL ∧ (s.kbd.press input).pressedKey leftctrl
  · rw [if_pos hclear, if_pos hclear]
    exact h.cleared
  · rw [if_neg hclear, if_neg hclear]
    by_cases halt : (s.kbd.press input).pressedKey leftalt
    · rw [if_pos halt, if_pos halt]
      have hswitch : ∀ d, Leads s.con [.setDisiplayTerminal d] (s.kbd.press input).cursorInd :=
        fun d => Leads.single hahead h.lt (by simp) fun u => Nat.le_refl _
      split_ifs
      · exact hswitch 0
      · exact hswitch 1
      · exact hswitch 2
      · exact Leads.nil hahead
    · rw [if_neg halt, if_neg halt]
      have hcur : (s.kbd.press input).cursorInd = s.kbd.cursorInd := rfl
      rw [hcur]
      by_cases hchar : scanCode input.toNat ≠ 0 ∧ s.kbd.cursorInd s.con.displayTerminal < 128
      · rw [if_pos ⟨hchar.1, .inl hchar.2⟩, if_pos hchar]
        apply Leads.single hahead h.lt
        · simp
        · intro u
          by_cases hu : u = s.con.displayTerminal
          · subst hu
            simp [Keyboard.append, hcur, addressee, Screen.aheadAfter]
          · simp [Keyboard.append, hcur, addressee, Function.update_of_ne hu, Ne.symm hu]
      · rw [if_neg hchar]
        split
        · apply Leads.single hahead h.lt
          · simp
          · intro u
            rw [hcur]
            split
            · exact Nat.le_succ _
            · exact Nat.le_refl _
        · exact Leads.nil hahead

/-- Backspace erases on the screen what it takes from the line. -/
theorem Covered.erased (h : s.Covered) {t : Terminal} (ht : t = s.con.displayTerminal)
    (hi : s.kbd.cursorInd t ≠ 0) :
    Leads s.con [.deleteC] ((s.kbd.press backspace).dropLast t).cursorInd := by
  subst ht
  apply Leads.single (fun u => (h u).1) h.lt
  · intro _
    omega
  · intro u
    have hcur : (s.kbd.press backspace).cursorInd = s.kbd.cursorInd := rfl
    by_cases hu : u = s.con.displayTerminal
    · subst hu
      simp [Keyboard.dropLast, hcur, addressee, Screen.aheadAfter]
    · simp [Keyboard.dropLast, hcur, addressee, Function.update_of_ne hu, Ne.symm hu]

theorem Covered.leads (h : s.Covered) (input : UInt8) :
    Leads s.con (s.screenOps input) (s.kbd.edit s.con.displayTerminal input).cursorInd := by
  have hahead : ∀ u, Ahead s.con u (s.kbd.cursorInd u) := fun u => (h u).1
  by_cases hb : input = backspace
  · subst hb
    rw [screenOps_backspace, edit_backspace]
    split
    · rename_i hi
      exact h.erased rfl hi
    · exact Leads.nil hahead
  · rw [screenOps_of_ne s hb, edit_of_ne _ _ hb]
    by_cases he : input = enter
    · have hsmall : ¬ enter > 127 := by decide
      subst he
      rw [if_pos rfl, if_neg hsmall]
      apply (h.drawn enter).mono
      intro u
      simp only [Keyboard.commitLine, Keyboard.clearKeyboardBuffer, Function.update_apply]
      split
      · exact Nat.zero_le _
      · exact Nat.le_refl _
    · rw [if_neg he]
      split
      · exact Leads.nil hahead
      · exact h.drawn input

/-! ## Any interleaving -/

/-- A byte from the keyboard, a byte of a process, or another terminal that is made the
active or the displayed one. -/
inductive TtyEvent where
  | key (input : UInt8)
  | output (c : UInt8)
  | activate (t : Terminal)
  | display (t : Terminal)

def event (s : Tty) : TtyEvent → Option Tty
  | .key input => s.keyboardByte input
  | .output c => (s.con.putcScroll c).map fun con => { s with con := con }
  | .activate t => some { s with con := s.con.setActiveTerminal t }
  | .display t => some { s with con := s.con.setDisiplayTerminal t }

/-- The routines of `lib.c` that an event calls, in order. -/
def eventOps (s : Tty) : TtyEvent → List ConsoleOp
  | .key input => s.screenOps input
  | .output c => [.putcScroll c]
  | .activate t => [.setActiveTerminal t]
  | .display t => [.setDisiplayTerminal t]

def eventLine (s : Tty) : TtyEvent → Keyboard
  | .key input => s.kbd.edit s.con.displayTerminal input
  | _ => s.kbd

theorem event_eq (s : Tty) (e : TtyEvent) :
    s.event e = (run Console.step s.con (s.eventOps e)).map fun con => ⟨con, s.eventLine e⟩ := by
  cases e with
  | key input => exact s.keyboardByte_eq input
  | output c => rw [eventOps, run_single]; rfl
  | activate t => rfl
  | display t => rfl

/-- The cursor of `t` is on its screen, the line of `t` in its row, and the screen goes
at least as far as the line. -/
structure Coupled (s : Tty) (t : Terminal) : Prop where
  column : 0 ≤ s.con.screenX t ∧ s.con.screenX t < 80
  row : 0 ≤ s.con.screenY t ∧ s.con.screenY t ≤ 25
  below : s.con.screenY t = 25 → s.con.screenX t = 0
  line : s.kbd.cursorInd t ≤ 128
  rest : ∀ i, s.kbd.cursorInd t ≤ i → i ≤ 128 → s.kbd.keyboardBuffer t i = 0
  ahead : (s.kbd.cursorInd t : Int) ≤ 80 * s.con.screenY t + s.con.screenX t

theorem coupled_iff {t : Terminal} :
    s.Coupled t ↔ Ahead s.con t (s.kbd.cursorInd t) ∧ s.kbd.Tidy t := by
  constructor
  · intro h
    obtain ⟨hx, hx'⟩ := h.column
    obtain ⟨hy, hy'⟩ := h.row
    have hbelow := h.below
    have hahead := h.ahead
    have hon : s.con.OnScreen t := ⟨hx, hx', hy, by omega⟩
    obtain ⟨scr, hscr⟩ := hon.shows
    have hcol := hscr.x
    have hrow := hscr.y
    exact ⟨⟨scr, hscr, by omega⟩, h.line, h.rest⟩
  · rintro ⟨⟨scr, hscr, hle⟩, htidy⟩
    have hcol := hscr.x
    have hrow := hscr.y
    have hpos := scr.onScreen
    constructor
    · omega
    · omega
    · omega
    · exact htidy.line
    · exact htidy.rest
    · omega

theorem eventOps_leads (h : ∀ t, s.Coupled t) (e : TtyEvent) :
    Leads s.con (s.eventOps e) (s.eventLine e).cursorInd := by
  have hcov : s.Covered := fun t => ⟨(coupled_iff.mp (h t)).1, (h t).line⟩
  have hahead : ∀ u, Ahead s.con u (s.kbd.cursorInd u) := fun u => (hcov u).1
  cases e with
  | key input => exact hcov.leads input
  | output c =>
    apply Leads.single hahead hcov.lt
    · simp
    · intro u
      split
      · exact Nat.le_succ _
      · exact Nat.le_refl _
  | activate t => exact Leads.single hahead hcov.lt (by simp) fun u => Nat.le_refl _
  | display t => exact Leads.single hahead hcov.lt (by simp) fun u => Nat.le_refl _

theorem eventLine_neat (h : ∀ t, s.Coupled t) (e : TtyEvent) : Neat s.kbd (s.eventLine e) := by
  cases e with
  | key input => exact edit_neat (h _).line input
  | output c => exact Neat.refl _
  | activate t => exact Neat.refl _
  | display t => exact Neat.refl _

/-- From coupled terminals every event ends, and leaves them coupled. -/
theorem event_coupled (h : ∀ t, s.Coupled t) (e : TtyEvent) :
    RunsInside s.con (s.eventOps e) ∧
      ∃ s', s.event e = some s' ∧ s'.kbd = s.eventLine e ∧ ∀ t, s'.Coupled t := by
  obtain ⟨hin, con, hrun, hahead⟩ := eventOps_leads h e
  refine ⟨hin, ⟨con, s.eventLine e⟩, ?_, rfl, fun t => coupled_iff.mpr ⟨hahead t, ?_⟩⟩
  · rw [event_eq, hrun, Option.map_some]
  · exact (eventLine_neat h e).tidy t (coupled_iff.mp (h t)).2

/-- No character typed, and every cursor in its first cell. -/
structure Fresh (s : Tty) : Prop where
  cursor : ∀ t, s.con.screenX t = 0 ∧ s.con.screenY t = 0
  line : ∀ t, s.kbd.cursorInd t = 0
  empty : ∀ t i, i ≤ 128 → s.kbd.keyboardBuffer t i = 0

theorem Fresh.coupled (h : s.Fresh) (t : Terminal) : s.Coupled t := by
  obtain ⟨hx, hy⟩ := h.cursor t
  have hline := h.line t
  constructor
  · omega
  · omega
  · intro _
    exact hx
  · omega
  · intro i _ hi
    exact h.empty t i hi
  · omega

/-- **The line and the cursor are coupled.** From fresh terminals, in every state that
typing, output and switches of terminals lead to, each line stays in its row and the
screen goes at least as far as the line. So whatever happens next ends, with no store
outside a row of `keyboard_buffer` or outside the cells of the screen it is meant for. -/
theorem line_and_cursor_coupled (hs : s.Fresh) (events : List TtyEvent) {s' : Tty}
    (hrun : run event s events = some s') :
    (∀ t, s'.Coupled t) ∧
    ∀ e, RunsInside s'.con (s'.eventOps e) ∧ ∃ s'', s'.event e = some s'' ∧
      ∀ t i, keyLim ≤ i → s''.kbd.keyboardBuffer t i = s'.kbd.keyboardBuffer t i := by
  have hcoupled : ∀ t, s'.Coupled t := by
    refine run_invariant (fun s => ∀ t, Coupled s t) (fun s e s₁ h he => ?_) hrun hs.coupled
    obtain ⟨-, s₂, hs₂, -, hall⟩ := event_coupled h e
    rw [he] at hs₂
    cases hs₂
    exact hall
  refine ⟨hcoupled, fun e => ?_⟩
  obtain ⟨hin, s'', hs'', hkbd, -⟩ := event_coupled hcoupled e
  refine ⟨hin, s'', hs'', fun t i hi => ?_⟩
  rw [hkbd]
  exact (eventLine_neat hcoupled e).inside t i hi

theorem line_and_cursor_coupled_boot :
    let s : Tty := ⟨.boot, .boot⟩
    let events := [.key 30, .activate 1, .output 10, .display 1, .key 31, .key backspace]
    (run event s events).isSome ∧ ∀ s', run event s events = some s' → ∀ t, s'.Coupled t := by
  intro s events
  have hs : s.Fresh := ⟨fun _ => ⟨rfl, rfl⟩, fun _ => rfl, fun _ _ _ => rfl⟩
  exact ⟨by decide +kernel, fun s' hs' => (line_and_cursor_coupled hs events hs').1⟩

end Tty

end OS391
