import OS391.Keyboard

/-! Typed lines, from ENTER to `terminal_read`: `print_buffer[t]` holds the line
that waits for the reader of terminal `t`, and the output of `terminal_write`. -/

namespace OS391
open Library.Runs Library.Bytes

/-! ## The line editor -/

namespace Keyboard

/-- Every line being typed ends inside its row of `keyboard_buffer`. -/
def LineOk (k : Keyboard) : Prop :=
  ∀ u, k.cursorInd u ≤ 128 ∧ k.keyboardBuffer u 128 = 0

/-- An edit of the lines being typed, which leaves the lines already committed. -/
structure Edited (k k' : Keyboard) : Prop where
  print : k'.printBuffer = k.printBuffer
  ready : k'.terminalReadReady = k.terminalReadReady
  lineOk : k.LineOk → k'.LineOk

theorem Edited.refl (k : Keyboard) : Edited k k := ⟨rfl, rfl, id⟩

theorem Edited.trans {k k' k'' : Keyboard} (h : Edited k k') (h' : Edited k' k'') :
    Edited k k'' :=
  ⟨h'.print.trans h.print, h'.ready.trans h.ready, h'.lineOk ∘ h.lineOk⟩

theorem clearKeyboardBuffer_edited (k : Keyboard) (t : Terminal) :
    Edited k (k.clearKeyboardBuffer t) := by
  refine ⟨rfl, rfl, fun h u => ?_⟩
  by_cases hu : u = t
  · subst hu
    simp [clearKeyboardBuffer, fill]
  · simpa [clearKeyboardBuffer, Function.update_of_ne hu] using h u

end Keyboard

namespace Tty
open Keyboard

theorem charKey_edited {s s' : Tty} {t : Terminal} {input : UInt8}
    (h : s.charKey t input = some s') : Edited s.kbd s'.kbd := by
  unfold charKey at h
  simp only at h
  split at h
  · split at h
    · obtain ⟨con, -, rfl⟩ := Option.map_eq_some_iff.mp h
      exact Edited.refl _
    · cases h
      exact Edited.refl _
  · rename_i hi
    obtain ⟨con, -, rfl⟩ := Option.map_eq_some_iff.mp h
    refine ⟨rfl, rfl, fun hok u => ?_⟩
    by_cases hu : u = t
    · subst hu
      have hne : (128 : Nat) ≠ s.kbd.cursorInd u := by omega
      simp only [Function.update_self, Function.update_of_ne hne]
      exact ⟨by omega, (hok u).2⟩
    · simpa [Function.update_of_ne hu] using hok u

theorem typeKey_edited {s s' : Tty} {t : Terminal} {input : UInt8}
    (h : s.typeKey t input = some s') : Edited s.kbd s'.kbd := by
  unfold typeKey at h
  split at h
  · cases h
    exact ⟨rfl, rfl, id⟩
  · unfold pressKey at h
    simp only at h
    have hpress : Edited s.kbd (s.press input).kbd := ⟨rfl, rfl, id⟩
    split at h
    · obtain ⟨con, -, rfl⟩ := Option.map_eq_some_iff.mp h
      exact hpress.trans (clearKeyboardBuffer_edited _ t)
    · split at h
      · cases h
        unfold displayKey
        split_ifs <;> exact hpress
      · split at h
        · exact hpress.trans (charKey_edited h)
        · cases h
          exact hpress

theorem backspaceKey_edited {s s' : Tty} {t : Terminal}
    (h : s.backspaceKey t = some s') : Edited s.kbd s'.kbd := by
  unfold backspaceKey at h
  simp only at h
  split at h
  · obtain ⟨con, -, rfl⟩ := Option.map_eq_some_iff.mp h
    refine ⟨rfl, rfl, fun hok u => ?_⟩
    by_cases hu : u = t
    · subst hu
      have hu := hok u
      have hne : (128 : Nat) ≠ s.kbd.cursorInd u - 1 := by omega
      simp only [Function.update_self, Function.update_of_ne hne]
      exact ⟨by omega, hu.2⟩
    · simpa [Function.update_of_ne hu] using hok u
  · cases h
    exact Edited.refl _

/-- A key that is not ENTER edits; ENTER commits the line of the displayed terminal. -/
theorem keyboardByte_cases {s s' : Tty} {input : UInt8} (h : s.keyboardByte input = some s') :
    ∃ typed, s.typeKey s.con.displayTerminal input = some typed ∧
      (input ≠ enter → Edited s.kbd s'.kbd) ∧
      (input = enter → s'.kbd = typed.kbd.commitLine s.con.displayTerminal) := by
  obtain ⟨typed, htyped, h⟩ := Option.bind_eq_some_iff.mp h
  refine ⟨typed, htyped, fun hne => ?_, fun he => ?_⟩
  · rw [if_neg hne] at h
    split at h
    · exact (typeKey_edited htyped).trans (backspaceKey_edited h)
    · cases h
      exact typeKey_edited htyped
  · rw [if_pos he, if_neg (by rw [he]; decide)] at h
    cases h
    rfl

end Tty

/-! ## Sessions -/

/-- A `terminal_read` whose waiting loop has ended. -/
structure Reading where
  /-- The caller's memory from `buf` on. -/
  mem : List UInt8
  count : Nat
  /-- What `memcpy` has copied so far. -/
  got : List UInt8

/-- The terminals, and what ENTER and the readers of one of them have done so far. -/
structure Session where
  tty : Tty
  reading : Option Reading
  /-- `keyboard_buffer[t]` at each ENTER. -/
  committed : List (List UInt8)
  /-- For each return of `terminal_read`, as many bytes of the buffer and the result. -/
  delivered : List (List UInt8 × Nat)

/-- What happens around terminal `t`; the reads are by the process on `t`, and
`readCopy n` is the progress that `memcpy` makes between two interrupts. -/
inductive LineEvent where
  | key (input : UInt8)
  | display (d : Terminal)
  | write (u : Terminal) (buf : List UInt8) (count : Nat)
  | readBegin (mem : List UInt8) (extra : Nat)
  | readCopy (n : Nat)
  | readDone

namespace Session

variable (t : Terminal)

def keyEvent (s : Session) (input : UInt8) : Option Session :=
  let d := s.tty.con.displayTerminal
  (s.tty.typeKey d input).bind fun typed => (s.tty.keyboardByte input).map fun tty =>
    { s with
      tty := tty
      committed := if input = enter ∧ d = t
        then s.committed ++ [window (typed.kbd.keyboardBuffer t) 0 keyLim] else s.committed }

def step (s : Session) : LineEvent → Option Session
  | .key input => s.keyEvent t input
  | .display d => some { s with tty.con := s.tty.con.setDisiplayTerminal d }
  | .write u buf count =>
    ({ s.tty with con := s.tty.con.setActiveTerminal u }.terminalWrite buf count).map
      fun (r : Int × Tty) => { s with tty := r.2 }
  | .readBegin mem extra =>
    if s.reading.isNone ∧ s.tty.kbd.terminalReadReady t then
      some { s with
        tty.con := s.tty.con.setActiveTerminal t
        reading := some ⟨mem, keyLim + extra, []⟩ }
    else none
  | .readCopy n => s.reading.bind fun r =>
    let n := min n (r.count - r.got.length)
    if r.mem.length < r.got.length + n then none
    else
      let got := r.got ++ window s.tty.kbd.printBuffer (Keyboard.row t + r.got.length) n
      some { s with reading := some { r with got := got } }
  | .readDone => s.reading.bind fun r =>
    if r.got.length = r.count then
      let buf := r.got ++ r.mem.drop r.count
      (strlen buf).map fun n =>
        { s with
          tty := s.tty.readDone t
          reading := none
          delivered := s.delivered ++ [(buf.take keyLim, n)] }
    else none

/-- The session that `init_keyboard` starts. -/
def start (con : Console) (k : Keyboard) : Session := ⟨⟨con, k.initKeyboard⟩, none, [], []⟩

/-- The lines returned are the first of the lines committed, byte for byte, each with
its length as a string, and none is missing once no line is waiting. -/
def Intact (s : Session) : Prop :=
  s.delivered.map Prod.fst <+: s.committed ∧
  (∀ d ∈ s.delivered, d.2 = (cString d.1).length) ∧
  (s.tty.kbd.terminalReadReady t = false → s.delivered.map Prod.fst = s.committed)

def got (s : Session) : List UInt8 :=
  match s.reading with
  | some r => r.got
  | none => []

/-- The event does not touch a line that waits: there is no second ENTER before the
reader has returned, and no `terminal_write` stores into a byte still to be copied. -/
def Undisturbed (s : Session) : LineEvent → Prop
  | .key input => input = enter → s.tty.con.displayTerminal = t →
    s.tty.kbd.terminalReadReady t = false
  | .write u _ count => s.tty.kbd.terminalReadReady t = true →
    ∀ i < keyLim, s.got.length ≤ i →
      ¬ (Keyboard.row u ≤ Keyboard.row t + i ∧
        Keyboard.row t + i ≤ Keyboard.row u + min count printLim)
  | _ => True

/-- The line that a reader of `t` has in hand or will find. -/
def waiting (s : Session) : List UInt8 :=
  window (fun i => s.got.getD i (s.tty.kbd.printBuffer (Keyboard.row t + i))) 0 keyLim

structure Inv (s : Session) : Prop where
  lineOk : s.tty.kbd.LineOk
  rets : ∀ d ∈ s.delivered, d.2 = (cString d.1).length
  idle : s.tty.kbd.terminalReadReady t = false →
    s.delivered.map Prod.fst = s.committed ∧ s.reading = none
  ready : s.tty.kbd.terminalReadReady t = true →
    s.delivered.map Prod.fst ++ [s.waiting t] = s.committed ∧ 0 ∈ s.waiting t
  count : ∀ r ∈ s.reading, keyLim ≤ r.count

theorem Inv.intact {s : Session} (h : Inv t s) : Intact t s := by
  refine ⟨?_, h.rets, fun hr => (h.idle hr).1⟩
  cases hr : s.tty.kbd.terminalReadReady t with
  | false => exact (h.idle hr).1 ▸ List.prefix_refl _
  | true => exact ⟨_, (h.ready hr).1⟩

theorem start_inv (con : Console) (k : Keyboard) : Inv t (start con k) :=
  ⟨fun _ => ⟨Nat.zero_le _, rfl⟩, fun _ h => absurd h (List.not_mem_nil),
    fun _ => ⟨rfl, rfl⟩, fun h => absurd h (by simp [start, Keyboard.initKeyboard]),
    fun _ h => by simp [start] at h⟩

theorem waiting_congr {s s' : Session} (hgot : s'.got = s.got)
    (hprint : ∀ i < keyLim, s.got.length ≤ i →
      s'.tty.kbd.printBuffer (Keyboard.row t + i) = s.tty.kbd.printBuffer (Keyboard.row t + i)) :
    s'.waiting t = s.waiting t := by
  refine window_congr fun i hi => ?_
  simp only [Nat.zero_add, hgot]
  by_cases hlt : i < s.got.length
  · rw [List.getD_eq_getElem _ _ hlt, List.getD_eq_getElem _ _ hlt]
  · rw [hprint i hi (by omega)]

/-- Events that commit and deliver nothing and leave the waiting line. -/
theorem Inv.frame {s s' : Session} (h : Inv t s) (hline : s'.tty.kbd.LineOk)
    (hread : s'.reading = s.reading) (hcom : s'.committed = s.committed)
    (hdel : s'.delivered = s.delivered)
    (hready : s'.tty.kbd.terminalReadReady t = s.tty.kbd.terminalReadReady t)
    (hprint : s.tty.kbd.terminalReadReady t = true → ∀ i < keyLim, s.got.length ≤ i →
      s'.tty.kbd.printBuffer (Keyboard.row t + i) = s.tty.kbd.printBuffer (Keyboard.row t + i)) :
    Inv t s' := by
  have hgot : s'.got = s.got := by simp only [got, hread]
  constructor
  · exact hline
  · exact hdel ▸ h.rets
  · intro hr
    rw [hcom, hdel, hread]
    exact h.idle (hready ▸ hr)
  · intro hr
    have hr' := hready ▸ hr
    rw [waiting_congr t hgot (hprint hr'), hcom, hdel]
    exact h.ready hr'
  · exact hread ▸ h.count

theorem commitLine_print (k : Keyboard) (d : Terminal) {i : Nat} (hi : i < keyLim) :
    (k.commitLine d).printBuffer (Keyboard.row t + i) =
      if d = t then k.keyboardBuffer d i else k.printBuffer (Keyboard.row t + i) := by
  have hi' : i < 129 := hi
  by_cases hd : d = t
  · subst hd
    have hin : Keyboard.row d ≤ Keyboard.row d + i ∧
        Keyboard.row d + i < Keyboard.row d + keyLim := by omega
    simp only [Keyboard.commitLine, blit, if_pos hin, if_pos]
    congr 1
    omega
  · have hne : d.val ≠ t.val := fun h => hd (Fin.ext h)
    have hout : ¬ (Keyboard.row d ≤ Keyboard.row t + i ∧
        Keyboard.row t + i < Keyboard.row d + printLim) := by
      simp only [Keyboard.row, printLim]
      omega
    have hout' : ¬ (Keyboard.row d ≤ Keyboard.row t + i ∧
        Keyboard.row t + i < Keyboard.row d + keyLim) := by
      simp only [Keyboard.row, printLim, keyLim] at hout ⊢
      omega
    simp only [Keyboard.commitLine, blit, fill, if_neg hout', if_neg hout, if_neg hd]

theorem commitLine_lineOk {k : Keyboard} {d : Terminal} (h : k.LineOk) :
    (k.commitLine d).LineOk :=
  (Keyboard.clearKeyboardBuffer_edited k d).lineOk h

theorem Inv.key {s s' : Session} (h : Inv t s) {input : UInt8}
    (hok : s.Undisturbed t (.key input)) (hs : s.keyEvent t input = some s') : Inv t s' := by
  obtain ⟨typed, htyped, hs⟩ := Option.bind_eq_some_iff.mp hs
  obtain ⟨tty, htty, rfl⟩ := Option.map_eq_some_iff.mp hs
  obtain ⟨typed', htyped', hedit, hcommit⟩ := Tty.keyboardByte_cases htty
  rw [htyped] at htyped'
  cases htyped'
  have htype := Tty.typeKey_edited htyped
  by_cases he : input = enter
  · have hkbd := hcommit he
    have hlineOk := htype.lineOk h.lineOk
    by_cases hd : s.tty.con.displayTerminal = t
    · -- the line typed on `t` takes the place that its reader has left
      have hidle := h.idle (hok he hd)
      constructor
      · exact hkbd ▸ commitLine_lineOk hlineOk
      · exact h.rets
      · intro hr
        simp [hkbd, Keyboard.commitLine, hd] at hr
      · intro _
        have hw : Session.waiting t ⟨tty, s.reading,
            s.committed ++ [window (typed.kbd.keyboardBuffer t) 0 keyLim], s.delivered⟩ =
            window (typed.kbd.keyboardBuffer t) 0 keyLim := by
          refine window_congr fun i hi => ?_
          simp only [got, hidle.2, List.getD_nil, Nat.zero_add, hkbd]
          rw [commitLine_print t _ _ hi, if_pos hd, hd]
        simp only [he, hd, and_self, if_true]
        rw [hw, hidle.1]
        exact ⟨rfl, mem_window.mpr ⟨128, by decide, by simpa using (hlineOk t).2⟩⟩
      · simp [hidle.2]
    · refine h.frame t (hkbd ▸ commitLine_lineOk hlineOk) rfl ?_ rfl ?_ fun _ i hi _ => ?_
      · simp [hd]
      · rw [hkbd]
        simp only [Keyboard.commitLine]
        rw [Function.update_of_ne (Ne.symm hd), htype.ready]
      · simp only [hkbd]
        rw [commitLine_print t _ _ hi, if_neg hd, htype.print]
  · have hedit := hedit he
    refine h.frame t (hedit.lineOk h.lineOk) rfl ?_ rfl ?_ fun _ i _ _ => ?_
    · simp [he]
    · rw [hedit.ready]
    · rw [hedit.print]

theorem Inv.write {s s' : Session} (h : Inv t s) {u : Terminal} {buf : List UInt8} {count : Nat}
    (hok : s.Undisturbed t (.write u buf count)) (hs : s.step t (.write u buf count) = some s') :
    Inv t s' := by
  simp only [step] at hs
  obtain ⟨⟨n, tty⟩, hw, rfl⟩ := Option.map_eq_some_iff.mp hs
  have hneg : ¬ ((count : Int) < 0) := by omega
  have hlim : Tty.writeLim count = min count printLim := by
    unfold Tty.writeLim
    split <;> omega
  unfold Tty.terminalWrite at hw
  simp only [hlim] at hw
  split at hw
  · cases hw
  · obtain ⟨con, -, hw⟩ := Option.map_eq_some_iff.mp hw
    cases hw
    refine h.frame t h.lineOk ?_ ?_ ?_ ?_ fun hr i hi hgot => ?_
    iterate 4 rfl
    have hout := hok hr i hi hgot
    have hne : Keyboard.row t + i ≠ Keyboard.row u + min count printLim := by omega
    simp only [Console.setActiveTerminal, Function.update_of_ne hne, blit]
    exact if_neg (by omega)

theorem Inv.readBegin {s s' : Session} (h : Inv t s) {mem : List UInt8} {extra : Nat}
    (hs : s.step t (.readBegin mem extra) = some s') : Inv t s' := by
  simp only [step] at hs
  split at hs
  · rename_i hc
    cases hs
    have hgot : s.got = [] := by simp [got, Option.isNone_iff_eq_none.mp hc.1]
    have hw : waiting t ⟨{ s.tty with con := s.tty.con.setActiveTerminal t },
        some ⟨mem, keyLim + extra, []⟩, s.committed, s.delivered⟩ = s.waiting t :=
      window_congr fun i _ => by simp [got, Option.isNone_iff_eq_none.mp hc.1]
    constructor
    · exact h.lineOk
    · exact h.rets
    · intro hr
      rw [hc.2] at hr
      cases hr
    · intro hr
      exact hw ▸ h.ready hr
    · intro r hr
      cases hr
      exact Nat.le_add_right _ _
  · cases hs

theorem Inv.readCopy {s s' : Session} (h : Inv t s) {n : Nat}
    (hs : s.step t (.readCopy n) = some s') : Inv t s' := by
  obtain ⟨r, hr, hs⟩ := Option.bind_eq_some_iff.mp hs
  simp only at hs
  split at hs
  · cases hs
  · cases hs
    have hw : waiting t ⟨s.tty, some ⟨r.mem, r.count, r.got ++
        window s.tty.kbd.printBuffer (Keyboard.row t + r.got.length)
          (min n (r.count - r.got.length))⟩, s.committed, s.delivered⟩ = s.waiting t := by
      refine window_congr fun i _ => ?_
      simp only [got, hr, Nat.zero_add]
      exact getD_append_window r.got s.tty.kbd.printBuffer (Keyboard.row t) _ i
    constructor
    · exact h.lineOk
    · exact h.rets
    · intro hidle
      have hnone := (h.idle hidle).2
      rw [hr] at hnone
      cases hnone
    · intro hready
      exact hw ▸ h.ready hready
    · intro r' hr'
      cases hr'
      exact h.count r hr

theorem Inv.readDone {s s' : Session} (h : Inv t s) (hs : s.step t .readDone = some s') :
    Inv t s' := by
  obtain ⟨r, hr, hs⟩ := Option.bind_eq_some_iff.mp hs
  split at hs
  · rename_i hlen
    obtain ⟨n, hn, rfl⟩ := Option.map_eq_some_iff.mp hs
    have hcount := h.count r hr
    have hready : s.tty.kbd.terminalReadReady t = true := by
      cases hready : s.tty.kbd.terminalReadReady t with
      | true => rfl
      | false => rw [(h.idle hready).2] at hr; cases hr
    have hline : (r.got ++ r.mem.drop r.count).take keyLim = s.waiting t := by
      rw [List.take_append_of_le_length (by omega)]
      simp only [waiting, got, hr]
      exact take_eq_window (by omega) _
    obtain ⟨hcom, hnul⟩ := h.ready hready
    constructor
    · exact h.lineOk
    · intro d hd
      rcases List.mem_append.mp hd with hd | hd
      · exact h.rets d hd
      · cases List.mem_singleton.mp hd
        rw [← hline] at hnul
        rw [← List.take_append_drop keyLim (r.got ++ r.mem.drop r.count),
          strlen_append_of_mem hnul, strlen_of_mem hnul] at hn
        exact (Option.some.inj hn).symm
    · intro _
      rw [List.map_append, ← hcom, ← hline]
      exact ⟨rfl, rfl⟩
    · intro hr'
      simp [Tty.readDone] at hr'
    · intro _ hr'
      cases hr'
  · cases hs

theorem Inv.step {s s' : Session} (h : Inv t s) {e : LineEvent} (hok : s.Undisturbed t e)
    (hs : s.step t e = some s') : Inv t s' := by
  cases e with
  | key input => exact h.key t hok hs
  | display d => cases hs; exact h.frame t h.lineOk rfl rfl rfl rfl fun _ _ _ _ => rfl
  | write u buf count => exact h.write t hok hs
  | readBegin mem extra => exact h.readBegin t hs
  | readCopy n => exact h.readCopy t hs
  | readDone => exact h.readDone t hs

/-- **Typed lines are delivered intact** as long as no event touches a waiting line. -/
theorem lines_intact (con : Console) (k : Keyboard) (es : List LineEvent) (s : Session)
    (h : Path (step t) (Undisturbed t) (start con k) es s) : Intact t s :=
  (h.invariant (Inv t) (fun _ _ _ hi hok hs => hi.step t hok hs) (start_inv t con k)).intact

instance (s : Session) (e : LineEvent) : Decidable (s.Undisturbed t e) :=
  match e with
  | .key input => inferInstanceAs (Decidable (input = enter → _))
  | .write _ _ _ => inferInstanceAs (Decidable (_ = true → _))
  | .display _ | .readBegin _ _ | .readCopy _ | .readDone => inferInstanceAs (Decidable True)

/-- A line typed while a program is between two reads arrives. -/
theorem lines_intact_typed :
    ∃ s, Path (step 0) (Undisturbed 0) (start .boot .boot)
        [.write 0 [88, 89] 2, .key 30, .key enter, .display 2,
          .readBegin (List.replicate 130 7) 1, .readCopy 100, .write 0 [88, 89] 2, .readCopy 30,
          .readDone] s ∧
      s.delivered.length = 1 ∧ Intact 0 s := by
  obtain ⟨s, hs, hlen⟩ := exists_of_map_decide (fun s : Session => s.delivered.length = 1)
    (x := guardedRun (step 0) (Undisturbed 0) (start .boot .boot)
      [.write 0 [88, 89] 2, .key 30, .key enter, .display 2,
        .readBegin (List.replicate 130 7) 1, .readCopy 100, .write 0 [88, 89] 2, .readCopy 30,
        .readDone]) (by decide +kernel)
  have hpath := path_of_guardedRun hs
  exact ⟨s, hpath, hlen, lines_intact 0 _ _ _ s hpath⟩

/-- Output between ENTER and the read reaches the reader in place of the line. -/
theorem write_spoils_line :
    ∃ s, run (step 0) (start .boot .boot)
        [.key 30, .key enter, .write 0 [88] 1, .readBegin (List.replicate 129 7) 0,
          .readCopy 129, .readDone] = some s ∧
      ¬ s.delivered.map Prod.fst <+: s.committed :=
  exists_of_map_decide _ (by decide +kernel)

/-- `terminal_read` without interrupts is one way through the three events of a read. -/
theorem terminalRead_run {s : Session} (hread : s.reading = none)
    (hact : s.tty.con.activeTerminal = t) {mem : List UInt8} {extra : Nat} {r : Tty.ReadOut}
    {tty : Tty} (h : s.tty.terminalRead mem (keyLim + extra) = some (r, tty)) :
    run (step t) s [.readBegin mem extra, .readCopy (keyLim + extra), .readDone] =
      some { s with
        tty := tty
        delivered := s.delivered ++ [(r.out.take keyLim, r.ret.toNat)] } := by
  subst hact
  unfold Tty.terminalRead at h
  simp only at h
  split at h
  · rename_i hready
    obtain ⟨buf, hbuf, h⟩ := Option.bind_eq_some_iff.mp h
    obtain ⟨n, hn, h⟩ := Option.map_eq_some_iff.mp h
    cases h
    unfold Tty.readCopy at hbuf
    split at hbuf
    · cases hbuf
    · rename_i hmem
      cases hbuf
      have hcon : s.tty.con.setActiveTerminal s.tty.con.activeTerminal = s.tty.con := rfl
      simp [step, hread, hready, hcon, hmem, hn, List.take_append_of_le_length]
  · cases h

end Session

end OS391
