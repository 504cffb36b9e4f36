import OS391.FailedExecute
import OS391.Library.Stores

/-! What `terminal_write` shows, what it returns, and where in `print_buffer` it stores. -/

namespace OS391
open Library Library.Runs Library.Bytes Library.Stores

namespace Tty

/-- The stores of `terminal_write` to `print_buffer`, whose rows are one after another: the
`memcpy`, and the NUL behind it. -/
def writeStores (s : Tty) (buf : List UInt8) (count : Int) : List (Nat × UInt8) :=
  let idx := Keyboard.row s.con.activeTerminal
  copy idx (fun i => buf.getD i 0) (writeLim count) ++ [(idx + writeLim count, 0)]

/-- What `terminal_write` promises of a buffer of `count` bytes. -/
structure WritesOut (s : Tty) (buf : List UInt8) (count r : Int) (s' : Tty) : Prop where
  /-- The first `r` bytes are displayed on the active terminal. -/
  shown : s.con.putsScroll (buf.take r.toNat) = some s'.con
  others : ∀ t, t ≠ s.con.activeTerminal → s'.con.logical t = s.con.logical t
  inRow : Within (s.writeStores buf count) (Keyboard.row s.con.activeTerminal) printLim

variable {s s' : Tty} {buf : List UInt8} {count : Int}

/-- The stores are those of the call. -/
theorem terminalWrite_stores {r : Int} (h : s.terminalWrite buf count = some (r, s')) :
    s'.kbd.printBuffer = put s.kbd.printBuffer (s.writeStores buf count) := by
  unfold terminalWrite at h
  dsimp only at h
  split at h
  · cases h
  · obtain ⟨con, -, h⟩ := Option.map_eq_some_iff.mp h
    cases h
    rw [writeStores, put_append, put_copy]
    rfl

/-- The bytes that are shown are those that fit a row, whatever is returned. -/
theorem terminalWrite_eq (hs : ∀ t, ∃ scr, Console.Shows s.con t scr) (hcount : 0 ≤ count)
    (hbuf : writeLim count ≤ buf.length) :
    ∃ s', s.terminalWrite buf count = some (count, s') ∧
      s.con.putsScroll (buf.take (writeLim count)) = some s'.con := by
  have hbytes (p : Nat → UInt8) (idx : Nat) :
      window (Function.update (blit p idx (fun i => buf.getD i 0) (writeLim count))
        (idx + writeLim count) 0) idx (writeLim count) = buf.take (writeLim count) := by
    rw [take_eq_window hbuf fun _ => 0]
    refine window_congr fun i hi => ?_
    rw [Function.update_of_ne (by omega), Nat.zero_add, blit, if_pos (by omega),
      Nat.add_sub_cancel_left]
  obtain ⟨con, hcon⟩ := Kernel.putsScroll_total hs (buf.take (writeLim count))
  unfold terminalWrite
  dsimp only
  rw [if_neg (by omega), hbytes, hcon]
  exact ⟨_, rfl, rfl⟩

/-- Output goes to the active terminal, and the other screens stay. -/
theorem putsScroll_others {con con' : Console} {bytes : List UInt8}
    (hs : ∀ t, ∃ scr, Console.Shows con t scr) (h : con.putsScroll bytes = some con')
    {t : Terminal} (ht : t ≠ con.activeTerminal) : con'.logical t = con.logical t := by
  have hinv := foldlM_invariant
    (fun a => (∀ v, ∃ scr, Console.Shows a v scr) ∧ a.activeTerminal = con.activeTerminal ∧
      a.logical t = con.logical t) (fun a c a' ha hc => ?_) h ⟨hs, rfl, rfl⟩
  · exact hinv.2.2
  · obtain ⟨hall, hactive, hsame⟩ := ha
    have hstep : a.step (.putcScroll c) = some a' := hc
    have hto : a.addressee (.putcScroll c) ≠ some t := fun h =>
      ht ((Option.some.inj h).symm.trans hactive)
    exact ⟨Console.step_shows hall hstep, (Console.putcScroll_terminals hc).2.trans hactive,
      (Console.step_other hall hstep hto).trans hsame⟩

/-- The row takes the bytes and the NUL behind them up to a count of 2049. -/
theorem writeStores_within (hcount : 0 ≤ count) :
    Within (s.writeStores buf count) (Keyboard.row s.con.activeTerminal) printLim ↔
      count < printLim := by
  unfold writeStores writeLim
  dsimp only
  rw [within_append, within_copy, within_single]
  by_cases hlt : count < printLim
  · rw [if_pos hlt]
    refine iff_of_true ?_ hlt
    simp only [printLim] at hlt ⊢
    omega
  · rw [if_neg hlt]
    refine iff_of_false ?_ hlt
    simp only [printLim]
    omega

theorem terminalWrite_writesOut_iff (hs : ∀ t, ∃ scr, Console.Shows s.con t scr)
    (hcount : 0 ≤ count) (hbuf : count ≤ buf.length) :
    (∃ r s', s.terminalWrite buf count = some (r, s') ∧ s.WritesOut buf count r s') ↔
      count < printLim := by
  constructor
  · rintro ⟨r, s', -, hout⟩
    exact (writeStores_within hcount).mp hout.inRow
  · intro hlt
    have hlim : writeLim count = count.toNat := if_pos hlt
    have hroom : writeLim count ≤ buf.length := by omega
    obtain ⟨s', hwrite, hshown⟩ := terminalWrite_eq hs hcount hroom
    exact ⟨count, s', hwrite, hlim ▸ hshown, fun t ht => putsScroll_others hs hshown ht,
      (writeStores_within hcount).mpr hlt⟩

theorem put_writeStores_nul (s : Tty) (buf : List UInt8) (count : Int) (m : Nat → UInt8) :
    put m (s.writeStores buf count)
      (Keyboard.row s.con.activeTerminal + writeLim count) = 0 := by
  rw [writeStores, put_append]
  exact Function.update_self ..

/-- From the size of a row on, as many bytes are shown as fit one, all are reported, and the
NUL goes into the byte behind the row. -/
theorem terminalWrite_long (hs : ∀ t, ∃ scr, Console.Shows s.con t scr)
    (hlong : (printLim : Int) ≤ count) (hbuf : count ≤ buf.length) :
    ∃ s', s.terminalWrite buf count = some (count, s') ∧
      s.con.putsScroll (buf.take printLim) = some s'.con ∧
      s'.kbd.printBuffer (Keyboard.row s.con.activeTerminal + printLim) = 0 := by
  have hlim : writeLim count = printLim := if_neg (by omega)
  have hcount : 0 ≤ count := by omega
  have hroom : writeLim count ≤ buf.length := by omega
  obtain ⟨s', hwrite, hshown⟩ := terminalWrite_eq hs hcount hroom
  have hnul := put_writeStores_nul s buf count s.kbd.printBuffer
  rw [← terminalWrite_stores hwrite, hlim] at hnul
  exact ⟨s', hwrite, hlim ▸ hshown, hnul⟩

end Tty

namespace Kernel

variable (L : Layout)

/-- **What `terminal_write` reports.** In every state of the kernel, a buffer of `count`
bytes is displayed on the active terminal as far as the result says, with no store outside
the terminal's row of `print_buffer`, if and only if `count` is less than the row's size. -/
theorem terminal_write_iff {fs : FileSys} {ops : List Op} {s : Kernel}
    (h : run (step L) (boot L fs) ops = some s) {buf : List UInt8} {count : Int}
    (hcount : 0 ≤ count) (hbuf : count ≤ buf.length) :
    (∃ r tty, s.tty.terminalWrite buf count = some (r, tty) ∧
      s.tty.WritesOut buf count r tty) ↔ count < printLim :=
  Tty.terminalWrite_writesOut_iff (shown_run L h) hcount hbuf

theorem boot_active : ∃ s, run (step someLayout) (boot someLayout .shellOnly) [.boot .zero] =
    some s ∧ s.tty.con.activeTerminal = 0 :=
  exists_of_map_decide (fun s : Kernel => s.tty.con.activeTerminal = 0) (by decide +kernel)

theorem terminal_write_iff_boot : ∃ s r tty,
    run (step someLayout) (boot someLayout .shellOnly) [.boot .zero] = some s ∧
      s.tty.terminalWrite [72, 105] 2 = some (r, tty) ∧ s.tty.WritesOut [72, 105] 2 r tty := by
  obtain ⟨s, hs, -⟩ := boot_active
  have hroom : (2 : Int) ≤ ([72, 105] : List UInt8).length := by decide
  obtain ⟨r, tty, hwrite, hout⟩ :=
    (terminal_write_iff someLayout hs (by decide) hroom).mpr (by decide)
  exact ⟨s, r, tty, hs, hwrite, hout⟩

/-- Of 2051 bytes 2050 are shown and 2051 are reported, and the first byte of the row of
another terminal becomes a NUL. -/
theorem terminal_write_past_row : ∃ s tty,
    run (step someLayout) (boot someLayout .shellOnly) [.boot .zero] = some s ∧
      s.tty.con.activeTerminal = 0 ∧
      s.tty.terminalWrite (List.replicate 2051 65) 2051 = some (2051, tty) ∧
      s.tty.con.putsScroll (List.replicate 2050 65) = some tty.con ∧
      (Keyboard.row 1, 0) ∈ s.tty.writeStores (List.replicate 2051 65) 2051 ∧
      tty.kbd.printBuffer (Keyboard.row 1) = 0 ∧
      ¬ s.tty.WritesOut (List.replicate 2051 65) 2051 2051 tty := by
  obtain ⟨s, hs, hactive⟩ := boot_active
  have hlen : ((2051 : Int)) ≤ (List.replicate 2051 (65 : UInt8)).length := by
    rw [List.length_replicate]
    decide
  obtain ⟨tty, hwrite, hshown, hnul⟩ :=
    Tty.terminalWrite_long (shown_run someLayout hs) (by decide) hlen
  rw [List.take_replicate] at hshown
  rw [hactive] at hnul
  refine ⟨s, tty, hs, hactive, hwrite, hshown, ?_, hnul, fun hout => ?_⟩
  · rw [Tty.writeStores, hactive]
    exact List.mem_append_right _ (List.mem_singleton_self _)
  · exact absurd ((Tty.writeStores_within (by decide)).mp hout.inRow) (by decide)

end Kernel

end OS391
