import OS391.Console

/-! What a terminal's screen is for: a page of 25 rows of 80 cells and a cursor
that moves over them. `Console` keeps three of them in one video memory and shows
one; every routine of `lib.c` acts on one terminal's screen and on no other. -/

namespace OS391
open Library.Runs Library.Bytes

/-- A terminal's own screen: its page, and its cursor as a cell number. Cell 2000
is the place after the last row, from where the next character scrolls first. -/
@[ext] structure Screen where
  page : Nat → UInt8
  pos : Nat
  onScreen : pos ≤ 2000

namespace Screen

/-- Rows move up by one, the last row becomes blank. -/
def scrollPage (m : Nat → UInt8) : Nat → UInt8 := fun i =>
  if i < 3840 then (if i % 2 = 0 then m (i + 160) else attrib)
  else if i < 4000 then (if i % 2 = 0 then space else attrib)
  else m i

def scrolled (scr : Screen) : Screen := ⟨scrollPage scr.page, 1920, by omega⟩

def write (scr : Screen) (c : UInt8) : Screen :=
  { scr with page :=
      Function.update (Function.update scr.page (2 * scr.pos) c) (2 * scr.pos + 1) attrib }

/-- The cursor, moved off the place after the last row. -/
def ready (scr : Screen) : Screen := if scr.pos = 2000 then scr.scrolled else scr

theorem ready_pos_lt (scr : Screen) : scr.ready.pos < 2000 := by
  have := scr.onScreen
  unfold ready
  split
  · simp [scrolled]
  · omega

def put (scr : Screen) (c : UInt8) : Screen :=
  if c = newline ∨ c = carriageReturn then
    if h : scr.pos / 80 < 24 then ⟨scr.page, 80 * (scr.pos / 80 + 1), by omega⟩ else scr.scrolled
  else ⟨(scr.ready.write c).page, scr.ready.pos + 1, scr.ready_pos_lt⟩

/-- Backspace; before the first cell there is no memory to erase. -/
def erase (scr : Screen) : Option Screen :=
  if h : scr.pos = 0 then none
  else some (Screen.write ⟨scr.page, scr.pos - 1, by have := scr.onScreen; omega⟩ space)

def clear (scr : Screen) : Screen :=
  ⟨fun i => if i < 4000 then (if i % 2 = 0 then space else attrib) else scr.page i, 0, by omega⟩

end Screen

/-! ## The loops over a page -/

namespace Console

theorem shiftRow_eq (base y n : Nat) (m : Nat → UInt8) (hn : n ≤ 80) :
    (List.range n).foldl (shiftCell base y) m = fun i =>
      if base + 160 * y ≤ i ∧ i < base + 160 * y + 2 * n then
        if (i - base) % 2 = 0 then m (i + 160) else attrib
      else m i := by
  induction n with
  | zero => funext i; rw [if_neg (by omega)]; rfl
  | succ n ih =>
    rw [List.range_succ, List.foldl_append, ih (by omega)]
    funext i
    simp only [List.foldl_cons, List.foldl_nil, shiftCell, Function.update_apply]
    grind

theorem blankRow_eq (base y n : Nat) (m : Nat → UInt8) (hn : n ≤ 80) :
    (List.range n).foldl (blankCell base y) m = fun i =>
      if base + 160 * y ≤ i ∧ i < base + 160 * y + 2 * n then
        if (i - base) % 2 = 0 then space else attrib
      else m i := by
  induction n with
  | zero => funext i; rw [if_neg (by omega)]; rfl
  | succ n ih =>
    rw [List.range_succ, List.foldl_append, ih (by omega)]
    funext i
    simp only [List.foldl_cons, List.foldl_nil, blankCell, Function.update_apply]
    grind

theorem shiftRows_eq (base n : Nat) (m : Nat → UInt8) :
    (List.range n).foldl (fun m y => (List.range 80).foldl (shiftCell base y) m) m = fun i =>
      if base ≤ i ∧ i < base + 160 * n then
        if (i - base) % 2 = 0 then m (i + 160) else attrib
      else m i := by
  induction n with
  | zero => funext i; rw [if_neg (by omega)]; rfl
  | succ n ih =>
    rw [List.range_succ (n := n), List.foldl_append, ih, List.foldl_cons, List.foldl_nil,
      shiftRow_eq _ _ _ _ (Nat.le_refl 80)]
    funext i
    grind

theorem blankRows_eq (base n : Nat) (m : Nat → UInt8) :
    (List.range n).foldl (fun m y => (List.range 80).foldl (blankCell base y) m) m = fun i =>
      if base ≤ i ∧ i < base + 160 * n then
        if (i - base) % 2 = 0 then space else attrib
      else m i := by
  induction n with
  | zero => funext i; rw [if_neg (by omega)]; rfl
  | succ n ih =>
    rw [List.range_succ (n := n), List.foldl_append, ih, List.foldl_cons, List.foldl_nil,
      blankRow_eq _ _ _ _ (Nat.le_refl 80)]
    funext i
    grind

/-- The scroll loops move the rows of one page and touch no byte outside it. -/
theorem shiftPage_eq (base : Nat) (m : Nat → UInt8) (i : Nat) :
    shiftPage base m i =
      if base ≤ i ∧ i < base + 4096 then Screen.scrollPage (fun j => m (base + j)) (i - base)
      else m i := by
  unfold shiftPage Screen.scrollPage
  rw [shiftRows_eq, blankRow_eq _ _ _ _ (Nat.le_refl 80)]
  grind

/-! ## Which page is whose -/

/-- Offset of the page that holds the screen of `t`: the VGA page while `t` is
displayed, its backing page otherwise. -/
def pageBase (s : Console) (t : Terminal) : Nat :=
  if t = s.displayTerminal then 0 else terminalMem t

theorem pageBase_add_lt (s : Console) (t : Terminal) {i : Nat} (hi : i < 4096) :
    s.pageBase t + i < videoBytes := by
  simp only [pageBase, terminalMem, kb4, videoBytes]
  split <;> omega

theorem pageBase_apart (s : Console) {t u : Terminal} (h : t ≠ u) {i j : Nat} (hi : i < 4096)
    (hj : j < 4096) : s.pageBase t + i ≠ s.pageBase u + j := by
  have hv : t.val ≠ u.val := fun e => h (Fin.ext e)
  simp only [pageBase, terminalMem, kb4]
  by_cases ht : t = s.displayTerminal
  · rw [if_pos ht, if_neg (fun hu => h (ht.trans hu.symm))]
    omega
  · rw [if_neg ht]
    split <;> omega

/-- The page and the cursor of `t` are those of `scr`. -/
structure Shows (s : Console) (t : Terminal) (scr : Screen) : Prop where
  page : ∀ i, i < 4096 → s.videoMem (s.pageBase t + i) = scr.page i
  x : s.screenX t = (scr.pos % 80 : Nat)
  y : s.screenY t = (scr.pos / 80 : Nat)

/-- Nothing but the screen of `t` differs between `s` and `s'`. -/
structure Frame (s s' : Console) (t : Terminal) : Prop where
  display : s'.displayTerminal = s.displayTerminal
  active : s'.activeTerminal = s.activeTerminal
  page : ∀ u, u ≠ t → ∀ i, i < 4096 →
    s'.videoMem (s.pageBase u + i) = s.videoMem (s.pageBase u + i)
  x : ∀ u, u ≠ t → s'.screenX u = s.screenX u
  y : ∀ u, u ≠ t → s'.screenY u = s.screenY u

theorem Frame.pageBase {s s' : Console} {t : Terminal} (h : Frame s s' t) (u : Terminal) :
    s'.pageBase u = s.pageBase u := by
  simp only [Console.pageBase, h.display]

theorem Frame.trans {s s' s'' : Console} {t : Terminal} (h : Frame s s' t) (h' : Frame s' s'' t) :
    Frame s s'' t where
  display := h'.display.trans h.display
  active := h'.active.trans h.active
  page u hu i hi := by
    have := h'.page u hu i hi
    rw [h.pageBase] at this
    exact this.trans (h.page u hu i hi)
  x u hu := (h'.x u hu).trans (h.x u hu)
  y u hu := (h'.y u hu).trans (h.y u hu)

theorem Frame.shows {s s' : Console} {t u : Terminal} {scr : Screen} (h : Frame s s' t)
    (hu : u ≠ t) (hs : Shows s u scr) : Shows s' u scr where
  page i hi := by rw [h.pageBase, h.page u hu i hi]; exact hs.page i hi
  x := (h.x u hu).trans hs.x
  y := (h.y u hu).trans hs.y

/-! ## One routine, one screen -/

theorem setCursor_frame (s : Console) (t : Terminal) (x y : Int) :
    Frame s (s.setCursor t x y) t where
  display := rfl
  active := rfl
  page _ _ _ _ := rfl
  x u hu := by simp [setCursor, hu]
  y u hu := by simp [setCursor, hu]

theorem updateCursor_frame (s : Console) (t : Terminal) (x y : Int) :
    Frame s (s.updateCursor x y) t :=
  ⟨rfl, rfl, fun _ _ _ _ => rfl, fun _ _ => rfl, fun _ _ => rfl⟩

theorem Shows.updateCursor {s : Console} {t : Terminal} {scr : Screen} (h : Shows s t scr)
    (x y : Int) : Shows (s.updateCursor x y) t scr := ⟨h.page, h.x, h.y⟩

theorem Shows.setCursor {s : Console} {t : Terminal} {scr : Screen} (h : Shows s t scr)
    {x y : Int} (pos : Nat) (hp : pos ≤ 2000) (hx : x = (pos % 80 : Nat))
    (hy : y = (pos / 80 : Nat)) : Shows (s.setCursor t x y) t ⟨scr.page, pos, hp⟩ where
  page := h.page
  x := by simp [Console.setCursor, hx]
  y := by simp [Console.setCursor, hy]

theorem store_page (s : Console) (t : Terminal) {k : Nat} (hk : k < 4096) (b : UInt8) :
    s.store ((s.pageBase t + k : Nat) : Int) b =
      some { s with videoMem := Function.update s.videoMem (s.pageBase t + k) b } := by
  have := s.pageBase_add_lt t hk
  unfold store
  rw [if_pos ⟨by omega, by omega⟩, Int.toNat_natCast]

/-- The two bytes that a character is stored in. -/
theorem draw_eq {s : Console} {t : Terminal} {scr : Screen} (h : Shows s t scr)
    (hp : scr.pos < 2000) (c : UInt8) :
    s.draw (s.pageBase t) t c = some { s with
      videoMem := Function.update (Function.update s.videoMem (s.pageBase t + 2 * scr.pos) c)
        (s.pageBase t + (2 * scr.pos + 1)) attrib } := by
  have hoff : (s.pageBase t : Int) + 2 * (numCols * s.screenY t + s.screenX t) =
      ((s.pageBase t + 2 * scr.pos : Nat) : Int) := by
    rw [h.x, h.y]
    simp only [numCols]
    omega
  have hoff' : ((s.pageBase t + 2 * scr.pos : Nat) : Int) + 1 =
      ((s.pageBase t + (2 * scr.pos + 1) : Nat) : Int) := by omega
  simp only [draw, hoff, hoff']
  rw [store_page s t (by omega), Option.bind_some]
  exact store_page { s with videoMem := _ } t (by omega) attrib

theorem draw_shows {s : Console} {t : Terminal} {scr : Screen} (h : Shows s t scr)
    (hp : scr.pos < 2000) (c : UInt8) :
    ∃ s', s.draw (s.pageBase t) t c = some s' ∧ Shows s' t (scr.write c) ∧ Frame s s' t := by
  let m₀ := Function.update s.videoMem (s.pageBase t + 2 * scr.pos) c
  let m := Function.update m₀ (s.pageBase t + (2 * scr.pos + 1)) attrib
  refine ⟨_, draw_eq h hp c, ⟨fun i hi => ?_, h.x, h.y⟩, rfl, rfl, fun u hu i hi => ?_,
    fun _ _ => rfl, fun _ _ => rfl⟩
  · show m (s.pageBase t + i) = _
    simp only [m, m₀, Screen.write, Function.update_apply, Nat.add_left_cancel_iff, h.page i hi]
  · have h1 := s.pageBase_apart hu hi (show 2 * scr.pos < 4096 by omega)
    have h2 := s.pageBase_apart hu hi (show 2 * scr.pos + 1 < 4096 by omega)
    simp [h1, h2]

/-- The scroll routine of terminal `t`, whichever page `t` is on. -/
def shiftOf (t : Terminal) (s : Console) : Console :=
  { s with videoMem := shiftPage (s.pageBase t) s.videoMem }.setCursor t 0 (numRows - 1)

theorem shiftOf_shows {s : Console} {t : Terminal} {scr : Screen} (h : Shows s t scr) :
    Shows (shiftOf t s) t scr.scrolled ∧ Frame s (shiftOf t s) t := by
  have hpage : ∀ u i, i < 4096 → (shiftOf t s).videoMem (s.pageBase u + i) =
      if u = t then Screen.scrollPage scr.page i else s.videoMem (s.pageBase u + i) := by
    intro u i hi
    simp only [shiftOf, setCursor, shiftPage_eq]
    by_cases hu : u = t
    · subst hu
      rw [if_pos ⟨by omega, by omega⟩, if_pos rfl, Nat.add_sub_cancel_left]
      simp only [Screen.scrollPage]
      split
      · split
        · exact h.page _ (by omega)
        · rfl
      · split
        · rfl
        · exact h.page i hi
    · rw [if_neg hu, if_neg]
      rintro ⟨hlo, hhi⟩
      have := s.pageBase_apart hu hi (show s.pageBase u + i - s.pageBase t < 4096 by omega)
      omega
  refine ⟨⟨fun i hi => ?_, ?_, ?_⟩, rfl, rfl, fun u hu i hi => ?_, ?_, ?_⟩
  · exact (hpage t i hi).trans (if_pos rfl)
  · simp [shiftOf, setCursor, Screen.scrolled]
  · simp [shiftOf, setCursor, Screen.scrolled]
  · exact (hpage u i hi).trans (if_neg hu)
  · exact (setCursor_frame _ t _ _).x
  · exact (setCursor_frame _ t _ _).y

/-- The scroll loops end, after one shift at most. -/
theorem scroll_eq (s : Console) (t : Terminal) (shift : Console → Console)
    (hshift : shift s = shiftOf t s) :
    s.scroll t shift = some (if s.screenY t ≥ 25 then shiftOf t s else s) := by
  unfold scroll
  by_cases h : s.screenY t ≥ 25
  · rw [whileLoop_round 1 (by simpa using h), hshift,
      whileLoop_exit 0 (by simp [shiftOf, setCursor]), if_pos h]
  · rw [whileLoop_exit 1 (by simpa using h), if_neg h]

/-- The scroll loop in front of a character. -/
theorem scroll_ready {s : Console} {t : Terminal} {scr : Screen} (h : Shows s t scr)
    (shift : Console → Console) (hshift : shift s = shiftOf t s) :
    ∃ s', s.scroll t shift = some s' ∧ Shows s' t scr.ready ∧ Frame s s' t ∧
      (s' = s ∨ s' = shiftOf t s) := by
  have hpos := scr.onScreen
  rw [scroll_eq _ _ _ hshift]
  unfold Screen.ready
  by_cases hp : scr.pos = 2000
  · rw [if_pos hp, if_pos (by rw [h.y]; omega)]
    exact ⟨_, rfl, (shiftOf_shows h).1, (shiftOf_shows h).2, .inr rfl⟩
  · rw [if_neg hp, if_neg (by rw [h.y]; omega)]
    exact ⟨_, rfl, h, ⟨rfl, rfl, fun _ _ _ _ => rfl, fun _ _ => rfl, fun _ _ => rfl⟩, .inl rfl⟩

theorem putcWith_shows {s : Console} {t : Terminal} {scr : Screen} (h : Shows s t scr)
    (shift : Console → Console) (c : UInt8)
    (hshift : ∀ s', s'.activeTerminal = s.activeTerminal →
      s'.displayTerminal = s.displayTerminal → shift s' = shiftOf t s') :
    ∃ s', s.putcWith t (s.pageBase t) shift c = some s' ∧ Shows s' t (scr.put c) ∧
      Frame s s' t := by
  have hpos := scr.onScreen
  unfold putcWith Screen.put
  by_cases hc : c = newline ∨ c = carriageReturn
  · rw [if_pos hc, if_pos hc,
      scroll_eq (s.setCursor t 0 (s.screenY t + 1)) t shift (hshift _ rfl rfl)]
    have hy' : (s.setCursor t 0 (s.screenY t + 1)).screenY t = s.screenY t + 1 := by
      simp [setCursor]
    rw [hy', h.y]
    by_cases hrow : scr.pos / 80 < 24
    · rw [if_neg (by omega), dif_pos hrow]
      exact ⟨_, rfl, h.setCursor _ _ (by omega) (by omega), setCursor_frame s t _ _⟩
    · rw [if_pos (by omega), dif_neg hrow]
      -- the shift overwrites the row that the newline was about to enter
      have hs : ∀ y, shiftOf t (s.setCursor t 0 y) = shiftOf t s := by
        intro y
        simp only [shiftOf, setCursor, pageBase, Function.update_idem]
        rfl
      rw [hs]
      exact ⟨_, rfl, shiftOf_shows h⟩
  · obtain ⟨s₁, hs₁, hshow, hframe, -⟩ := scroll_ready h shift (hshift _ rfl rfl)
    have hlt := scr.ready_pos_lt
    obtain ⟨s₂, hs₂, hshow₂, hframe₂⟩ := draw_shows hshow hlt c
    rw [if_neg hc, if_neg hc, hs₁, Option.bind_some, ← hframe.pageBase, hs₂, Option.map_some]
    refine ⟨_, rfl, ?_, (hframe.trans hframe₂).trans (setCursor_frame s₂ t _ _)⟩
    have hx₂ := hshow₂.x
    have hy₂ := hshow₂.y
    simp only [Screen.write] at hx₂ hy₂
    refine hshow₂.setCursor (scr.ready.pos + 1) hlt ?_ ?_
    · rw [hx₂, Int.tmod_eq_emod_of_nonneg (by omega), numCols]
      omega
    · rw [hx₂, hy₂, Int.tdiv_eq_ediv_of_nonneg (by omega), numCols]
      omega

theorem putcScroll_shows {s : Console} {t : Terminal} {scr : Screen} (h : Shows s t scr)
    (ht : s.activeTerminal = t) (c : UInt8) :
    ∃ s', s.putcScroll c = some s' ∧ Shows s' t (scr.put c) ∧ Frame s s' t := by
  subst ht
  obtain ⟨s', hs', hshow, hframe⟩ := putcWith_shows h
    (fun s => if s.activeTerminal = s.displayTerminal then s.shiftUpDisplay else s.shiftUp) c (by
      intro s₁ ha hd
      by_cases he : s.activeTerminal = s.displayTerminal
      · simp [shiftUpDisplay, shiftOf, pageBase, ha, hd, he]
      · simp [shiftUp, shiftOf, pageBase, ha, hd, he])
  simp only [pageBase] at hs'
  simp only [putcScroll, hs', Option.map_some]
  split
  · exact ⟨_, rfl, hshow.updateCursor _ _, hframe.trans (updateCursor_frame _ _ _ _)⟩
  · exact ⟨_, rfl, hshow, hframe⟩

theorem putcScrollDisplay_shows {s : Console} {t : Terminal} {scr : Screen} (h : Shows s t scr)
    (ht : s.displayTerminal = t) (c : UInt8) :
    ∃ s', s.putcScrollDisplay c = some s' ∧ Shows s' t (scr.put c) ∧ Frame s s' t := by
  subst ht
  obtain ⟨s', hs', hshow, hframe⟩ := putcWith_shows h shiftUpDisplay c (by
    intro s₁ _ hd
    simp [shiftUpDisplay, shiftOf, pageBase, hd])
  rw [show s.pageBase s.displayTerminal = 0 from if_pos rfl] at hs'
  simp only [putcScrollDisplay, hs', Option.map_some]
  exact ⟨_, rfl, hshow.updateCursor _ _, hframe.trans (updateCursor_frame _ _ _ _)⟩

/-- One cell back, over the end of the row above when the cursor is in column 0. -/
theorem Shows.back {s : Console} {t : Terminal} {scr : Screen} (h : Shows s t scr)
    (hp : scr.pos ≠ 0) (hpos : scr.pos - 1 ≤ 2000) :
    ∃ s', (if s.screenX t = 0 then s.setCursor t (numCols - 1) (s.screenY t - 1)
        else s.setCursor t (s.screenX t - 1) (s.screenY t)) = s' ∧
      Shows s' t ⟨scr.page, scr.pos - 1, hpos⟩ ∧ Frame s s' t ∧ s'.videoMem = s.videoMem := by
  rw [h.x, h.y]
  split
  · exact ⟨_, rfl, h.setCursor _ _ (by simp only [numCols]; omega) (by omega),
      setCursor_frame _ _ _ _, rfl⟩
  · exact ⟨_, rfl, h.setCursor _ _ (by omega) (by omega), setCursor_frame _ _ _ _, rfl⟩

theorem deleteC_shows {s : Console} {t : Terminal} {scr scr' : Screen} (h : Shows s t scr)
    (ht : s.displayTerminal = t) (he : scr.erase = some scr') :
    ∃ s', s.deleteC = some s' ∧ Shows s' t scr' ∧ Frame s s' t := by
  subst ht
  have hpos := scr.onScreen
  unfold Screen.erase at he
  split at he
  · cases he
  rename_i hp
  cases he
  obtain ⟨s₁, hs₁, hshow, hframe, -⟩ := h.back hp (by omega)
  obtain ⟨s₂, hs₂, hshow₂, hframe₂⟩ := draw_shows hshow (by simp only; omega) space
  have hb : s₁.pageBase s.displayTerminal = 0 := by simp [pageBase, hframe.display]
  rw [hb] at hs₂
  unfold deleteC
  simp only
  rw [hs₁, hs₂, Option.map_some]
  exact ⟨_, rfl, hshow₂.updateCursor _ _,
    (hframe.trans hframe₂).trans (updateCursor_frame _ _ _ _)⟩

/-- Backspace with the cursor in the first cell: the store lies before `video_mem`. -/
theorem deleteC_home {s : Console} {t : Terminal} {scr : Screen} (h : Shows s t scr)
    (ht : s.displayTerminal = t) (he : scr.erase = none) : s.deleteC = none := by
  subst ht
  unfold Screen.erase at he
  split at he
  · rename_i hp
    have hx := h.x
    have hy := h.y
    rw [hp] at hx hy
    simp [deleteC, draw, store, setCursor, hx, hy]
  · cases he

theorem clear_shows {s : Console} {t : Terminal} {scr : Screen} (h : Shows s t scr)
    (ht : s.displayTerminal = t) : Shows s.clear t scr.clear ∧ Frame s s.clear t := by
  subst ht
  have hm : ∀ i, s.clear.videoMem i =
      if i < 4000 then (if i % 2 = 0 then space else attrib) else s.videoMem i := by
    intro i
    simp [clear, updateCursor, setCursor, blankRows_eq]
  have hd : s.pageBase s.displayTerminal = 0 := if_pos rfl
  refine ⟨⟨fun i hi => ?_, ?_, ?_⟩, rfl, rfl, fun u hu i hi => ?_, fun u hu => ?_, fun u hu => ?_⟩
  · have := h.page i hi
    rw [hd, Nat.zero_add] at this
    rw [show s.clear.pageBase s.displayTerminal = 0 from if_pos rfl, Nat.zero_add, hm, this]
    rfl
  · simp [clear, updateCursor, setCursor, Screen.clear]
  · simp [clear, updateCursor, setCursor, Screen.clear]
  · have hb : 4096 ≤ s.pageBase u := by
      simp only [pageBase, if_neg hu, terminalMem, kb4]
      omega
    rw [hm, if_neg (by omega)]
  · simp [clear, updateCursor, setCursor, hu]
  · simp [clear, updateCursor, setCursor, hu]

/-- A switch of the display moves pages, and every terminal keeps its screen. -/
theorem setDisiplayTerminal_shows {s : Console} {u : Terminal} {scr : Screen} (d : Terminal)
    (h : Shows s u scr) : Shows (s.setDisiplayTerminal d) u scr where
  page i hi := by
    have hp := h.page i hi
    have hd := s.displayTerminal.isLt
    have hv : ∀ t t' : Terminal, t = t' ↔ t.val = t'.val := fun _ _ => Fin.ext_iff
    simp only [pageBase, setDisiplayTerminal, setActiveTerminal, updateCursor, blit, terminalMem,
      kb4, hv] at hp ⊢
    grind
  x := h.x
  y := h.y

/-! ## Any interleaving -/

end Console

/-- What processes, the keyboard and the scheduler do to the screens. -/
inductive ConsoleOp where
  | putcScroll (c : UInt8)
  | putcScrollDisplay (c : UInt8)
  | deleteC
  | clear
  | setActiveTerminal (t : Terminal)
  | setDisiplayTerminal (t : Terminal)

namespace Console

def step (s : Console) : ConsoleOp → Option Console
  | .putcScroll c => s.putcScroll c
  | .putcScrollDisplay c => s.putcScrollDisplay c
  | .deleteC => s.deleteC
  | .clear => some s.clear
  | .setActiveTerminal t => some (s.setActiveTerminal t)
  | .setDisiplayTerminal t => some (s.setDisiplayTerminal t)

/-- The terminal an operation writes to: the active one for process output, the
displayed one for the keyboard, none for a switch. -/
def addressee (s : Console) : ConsoleOp → Option Terminal
  | .putcScroll _ => some s.activeTerminal
  | .putcScrollDisplay _ | .deleteC | .clear => some s.displayTerminal
  | .setActiveTerminal _ | .setDisiplayTerminal _ => none

/-- The operation itself, for the terminal it is addressed to. -/
def addressedTo (t : Terminal) (s : Console) (op : ConsoleOp) : Option ConsoleOp :=
  if s.addressee op = some t then some op else none

/-- The VGA page if `t` is displayed and its backing page otherwise, with the cursor of `t`. -/
def logical (s : Console) (t : Terminal) : (Fin 4096 → UInt8) × Int × Int :=
  (fun i => s.videoMem (s.pageBase t + i), s.screenX t, s.screenY t)

/-- The cursor of `t` is on one of its cells or just after the last. -/
def OnScreen (s : Console) (t : Terminal) : Prop :=
  0 ≤ s.screenX t ∧ s.screenX t < 80 ∧ 0 ≤ s.screenY t ∧ 80 * s.screenY t + s.screenX t ≤ 2000

end Console

def Screen.step (scr : Screen) : ConsoleOp → Option Screen
  | .putcScroll c | .putcScrollDisplay c => some (scr.put c)
  | .deleteC => scr.erase
  | .clear => some scr.clear
  | .setActiveTerminal _ | .setDisiplayTerminal _ => some scr

namespace Console

theorem OnScreen.shows {s : Console} {t : Terminal} (h : s.OnScreen t) :
    ∃ scr, Shows s t scr := by
  obtain ⟨hx, hx', hy, hpos⟩ := h
  refine ⟨⟨fun i => s.videoMem (s.pageBase t + i), (80 * s.screenY t + s.screenX t).toNat,
    by omega⟩, fun _ _ => rfl, ?_, ?_⟩
  · simp only; omega
  · simp only; omega

theorem Shows.logical_eq {s u : Console} {t : Terminal} {scr : Screen} (hs : Shows s t scr)
    (hu : Shows u t scr) : u.logical t = s.logical t := by
  simp only [logical, Prod.mk.injEq]
  refine ⟨?_, hu.x.trans hs.x.symm, hu.y.trans hs.y.symm⟩
  funext i
  rw [hs.page i i.isLt, hu.page i i.isLt]

theorem Shows.of_logical_eq {s u : Console} {t : Terminal} {scr : Screen} (hs : Shows s t scr)
    (h : u.logical t = s.logical t) : Shows u t scr := by
  simp only [logical, Prod.mk.injEq] at h
  refine ⟨fun i hi => ?_, h.2.1.trans hs.x, h.2.2.trans hs.y⟩
  exact (congrFun h.1 ⟨i, hi⟩).trans (hs.page i hi)

/-- An addressed operation acts as on a screen of its own, and on that screen only. -/
theorem step_addressed {s : Console} {op : ConsoleOp} {t : Terminal} {scr scr' : Screen}
    (ht : s.addressee op = some t) (h : Shows s t scr) (hop : scr.step op = some scr') :
    ∃ s', s.step op = some s' ∧ Shows s' t scr' ∧ Frame s s' t := by
  cases op with
  | putcScroll c => cases hop; exact putcScroll_shows h (Option.some.inj ht) c
  | putcScrollDisplay c => cases hop; exact putcScrollDisplay_shows h (Option.some.inj ht) c
  | deleteC => exact deleteC_shows h (Option.some.inj ht) hop
  | clear => cases hop; exact ⟨_, rfl, clear_shows h (Option.some.inj ht)⟩
  | setActiveTerminal d => cases ht
  | setDisiplayTerminal d => cases ht

theorem step_addressed_stuck {s : Console} {op : ConsoleOp} {t : Terminal} {scr : Screen}
    (ht : s.addressee op = some t) (h : Shows s t scr) (hop : scr.step op = none) :
    s.step op = none := by
  cases op with
  | deleteC => exact deleteC_home h (Option.some.inj ht) hop
  | putcScroll c => cases hop
  | putcScrollDisplay c => cases hop
  | clear => cases hop
  | setActiveTerminal d => cases hop
  | setDisiplayTerminal d => cases hop

theorem step_switch {s : Console} {op : ConsoleOp} (ht : s.addressee op = none) :
    ∃ s', s.step op = some s' ∧ ∀ t scr, Shows s t scr → Shows s' t scr := by
  cases op with
  | setActiveTerminal d => exact ⟨_, rfl, fun _ _ h => ⟨h.page, h.x, h.y⟩⟩
  | setDisiplayTerminal d => exact ⟨_, rfl, fun _ _ h => setDisiplayTerminal_shows d h⟩
  | putcScroll c => cases ht
  | putcScrollDisplay c => cases ht
  | deleteC => cases ht
  | clear => cases ht

/-- Some screen is shown for every terminal, before and after any step. -/
theorem step_shows {s s' : Console} {op : ConsoleOp} (h : ∀ t, ∃ scr, Shows s t scr)
    (hop : s.step op = some s') : ∀ t, ∃ scr, Shows s' t scr := by
  intro t
  obtain ⟨scr, hscr⟩ := h t
  cases ha : s.addressee op with
  | none =>
    obtain ⟨s₁, hs₁, hall⟩ := step_switch ha
    rw [hop] at hs₁
    cases hs₁
    exact ⟨scr, hall t scr hscr⟩
  | some a =>
    obtain ⟨scra, hscra⟩ := h a
    cases hstep : scra.step op with
    | none => rw [step_addressed_stuck ha hscra hstep] at hop; cases hop
    | some scr' =>
      obtain ⟨s₁, hs₁, hshow, hframe⟩ := step_addressed ha hscra hstep
      rw [hop] at hs₁
      cases hs₁
      by_cases hta : t = a
      · exact ⟨scr', hta ▸ hshow⟩
      · exact ⟨scr, hframe.shows hta hscr⟩

/-- `u` is a console that shows terminal `t` all the time, with the screen `t` has in `s`. -/
structure Alone (t : Terminal) (s u : Console) : Prop where
  display : u.displayTerminal = t
  active : u.activeTerminal = t
  all : ∀ v, ∃ scr, Shows s v scr
  same : ∃ scr, Shows s t scr ∧ Shows u t scr

theorem Alone.addressee {t : Terminal} {s u : Console} (h : Alone t s u) {op : ConsoleOp}
    (ht : s.addressee op = some t) : u.addressee op = some t := by
  cases op <;> simp_all [Console.addressee, h.display, h.active]

theorem Alone.step {t : Terminal} {s s' u : Console} {op : ConsoleOp} (h : Alone t s u)
    (hop : s.step op = some s') :
    ∃ u', run Console.step u (addressedTo t s op).toList = some u' ∧ Alone t s' u' := by
  have hall := step_shows h.all hop
  obtain ⟨scr, hs, hu⟩ := h.same
  cases ha : s.addressee op with
  | none =>
    obtain ⟨s₁, hs₁, hshows⟩ := step_switch ha
    rw [hop] at hs₁
    cases hs₁
    exact ⟨u, by simp [addressedTo, ha], h.display, h.active, hall, scr, hshows t scr hs, hu⟩
  | some a =>
    obtain ⟨scra, hscra⟩ := h.all a
    by_cases hat : a = t
    · subst hat
      cases hstep : scr.step op with
      | none => rw [step_addressed_stuck ha hs hstep] at hop; cases hop
      | some scr' =>
        obtain ⟨s₁, hs₁, hshow, -⟩ := step_addressed ha hs hstep
        obtain ⟨u₁, hu₁, hushow, huframe⟩ := step_addressed (h.addressee ha) hu hstep
        rw [hop] at hs₁
        cases hs₁
        exact ⟨u₁, by simp [addressedTo, ha, hu₁], huframe.display.trans h.display,
          huframe.active.trans h.active, hall, scr', hshow, hushow⟩
    · cases hstep : scra.step op with
      | none => rw [step_addressed_stuck ha hscra hstep] at hop; cases hop
      | some scr' =>
        obtain ⟨s₁, hs₁, -, hframe⟩ := step_addressed ha hscra hstep
        rw [hop] at hs₁
        cases hs₁
        exact ⟨u, by simp [addressedTo, ha, hat], h.display, h.active, hall, scr,
          hframe.shows (Ne.symm hat) hs, hu⟩

theorem Alone.of_logical {t : Terminal} {s u : Console} (hs : ∀ v, s.OnScreen v)
    (hd : u.displayTerminal = t) (ha : u.activeTerminal = t) (hl : u.logical t = s.logical t) :
    Alone t s u := by
  obtain ⟨scr, hscr⟩ := (hs t).shows
  exact ⟨hd, ha, fun v => (hs v).shows, scr, hscr, hscr.of_logical_eq hl⟩

/-- A step that is not addressed to `t` leaves its screen. -/
theorem step_other {s s' : Console} {op : ConsoleOp} {t : Terminal}
    (h : ∀ v, ∃ scr, Shows s v scr) (hop : s.step op = some s') (ht : s.addressee op ≠ some t) :
    s'.logical t = s.logical t := by
  obtain ⟨scr, hscr⟩ := h t
  suffices hs' : Shows s' t scr from hscr.logical_eq hs'
  cases ha : s.addressee op with
  | none =>
    obtain ⟨s₁, hs₁, hshows⟩ := step_switch ha
    rw [hop] at hs₁
    cases hs₁
    exact hshows t scr hscr
  | some a =>
    obtain ⟨scra, hscra⟩ := h a
    cases hstep : scra.step op with
    | none => rw [step_addressed_stuck ha hscra hstep] at hop; cases hop
    | some scr' =>
      obtain ⟨s₁, hs₁, -, hframe⟩ := step_addressed ha hscra hstep
      rw [hop] at hs₁
      cases hs₁
      exact hframe.shows (fun hta => ht (hta ▸ ha)) hscr

/-- **Screens are independent.** Run any interleaving from a console whose cursors
are on their screens. The screen and cursor of each terminal `t` end as they do when
the operations addressed to `t`, and no others, run on a console that shows `t` all
the time; no step after it alters a screen it is not addressed to; and the
interleaving faults only when one of the separate runs does. -/
theorem screens_independent (s : Console) (hs : ∀ t, s.OnScreen t) (ops : List ConsoleOp) :
    (∀ s', run step s ops = some s' → ∀ t u, u.displayTerminal = t → u.activeTerminal = t →
      u.logical t = s.logical t →
      ∃ u', run step u (project step (addressedTo t) s ops) = some u' ∧
        u'.logical t = s'.logical t) ∧
    (∀ s' op s'' t, run step s ops = some s' → s'.step op = some s'' →
      s'.addressee op ≠ some t → s''.logical t = s'.logical t) ∧
    (run step s ops = none → ∃ t, ∀ u, u.displayTerminal = t → u.activeTerminal = t →
      u.logical t = s.logical t →
      run step u (project step (addressedTo t) s ops) = none) := by
  have hsim : ∀ t a op a' u, Alone t a u → a.step op = some a' →
      ∃ u', run step u (addressedTo t a op).toList = some u' ∧ Alone t a' u' :=
    fun _ _ _ _ _ h hop => h.step hop
  refine ⟨?_, ?_, ?_⟩
  · intro s' hrun t u hd ha hl
    obtain ⟨u', hu', halone⟩ := project_run step step (addressedTo t) (Alone t) (hsim t) s s' u
      ops (Alone.of_logical hs hd ha hl) hrun
    obtain ⟨scr, hshow, hushow⟩ := halone.same
    exact ⟨u', hu', hshow.logical_eq hushow⟩
  · intro s' op s'' t hrun hop ht
    have hall := run_invariant (fun a => ∀ t, ∃ scr, Shows a t scr)
      (fun _ _ _ h hop => step_shows h hop) hrun fun t => (hs t).shows
    exact step_other hall hop ht
  · intro hrun
    obtain ⟨pre, op, a, hpre, hop, hproj⟩ : ∃ pre op a, run step s pre = some a ∧
        a.step op = none ∧ ∀ here : Console → ConsoleOp → Option ConsoleOp,
          project step here s ops = project step here s pre ++ (here a op).toList :=
      run_stuck step s ops hrun
    cases hat : a.addressee op with
    | none =>
      obtain ⟨a', ha', -⟩ := step_switch hat
      rw [hop] at ha'
      cases ha'
    | some t =>
      refine ⟨t, fun u hd ha hl => ?_⟩
      obtain ⟨v, hv, halone⟩ := project_run step step (addressedTo t) (Alone t) (hsim t) s a u
        pre (Alone.of_logical hs hd ha hl) hpre
      obtain ⟨scr, hshow, hvshow⟩ := halone.same
      have hstuck : scr.step op = none := by
        cases hstep : scr.step op with
        | none => rfl
        | some scr' =>
          obtain ⟨a', ha', -⟩ := step_addressed hat hshow hstep
          rw [hop] at ha'
          cases ha'
      have hvop := step_addressed_stuck (halone.addressee hat) hvshow hstuck
      rw [hproj, run_append, hv]
      simp [addressedTo, hat, hvop]

theorem screens_independent_boot :
    let ops := [.putcScroll 65, .setActiveTerminal 1, .setDisiplayTerminal 1, .putcScroll 66,
      .deleteC]
    (run step boot ops).isSome ∧
      ∀ s', run step boot ops = some s' → ∀ t, ∃ u',
        run step { boot with displayTerminal := t, activeTerminal := t }
          (project step (addressedTo t) boot ops) = some u' ∧ u'.logical t = s'.logical t := by
  intro ops
  refine ⟨by decide, fun s' hs' t => ?_⟩
  exact (screens_independent boot (fun t => by simp [OnScreen, boot]) ops).1 s' hs' t
    { boot with displayTerminal := t, activeTerminal := t } rfl rfl rfl

end Console

end OS391
