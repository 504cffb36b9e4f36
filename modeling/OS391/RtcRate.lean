import OS391.Effects

/-! The rate of the clock. It is set by `rtc_init` and by every `rtc_write`, for everybody;
the `open` of the clock's file leaves it as it is. -/

namespace OS391
open Library Library.Runs

namespace Rtc

def rtcSetRate (r : Rtc) (bits : UInt8) : Rtc := { r with regA := (r.regA &&& rateMask) ||| bits }

/-- The frequency that `rtc_write` takes from a buffer, if it accepts the call. -/
def accepted (buf : List UInt8) (nbytes : Int) : Option Nat :=
  if nbytes ≠ 4 then none
  else match buf with
    | a :: b :: c :: d :: _ =>
      let freq := a.toNat + 256 * b.toNat + 65536 * c.toNat + 16777216 * d.toNat
      if convertFreq freq = none then none else some freq
    | _ => none

/-- The clock after a write that takes frequency `freq` (`none`: it is refused). -/
def tuned (r : Rtc) (freq : Option Nat) : Rtc :=
  match freq.bind convertFreq with
  | some bits => r.rtcSetRate bits
  | none => r

theorem rtcWrite_tuned {r r' : Rtc} {buf : List UInt8} {nbytes n : Int}
    (h : r.rtcWrite buf nbytes = some (n, r')) : r' = r.tuned (accepted buf nbytes) := by
  unfold rtcWrite at h
  unfold accepted tuned
  by_cases hn : nbytes ≠ 4
  · rw [if_pos hn] at h ⊢
    cases h
    rfl
  · rw [if_neg hn] at h ⊢
    split at h
    · rename_i a b c d rest
      dsimp only
      cases hfreq : convertFreq
          (a.toNat + 256 * b.toNat + 65536 * c.toNat + 16777216 * d.toNat) with
      | none =>
        rw [hfreq] at h
        cases h
        rfl
      | some bits =>
        rw [hfreq] at h
        cases h
        rw [if_neg (Option.some_ne_none bits), Option.bind_some, hfreq]
        rfl
    · cases h

/-- A rate is four bits, and the one of 2 Hz is the rate of no other frequency. -/
theorem convertFreq_bits {freq : Nat} {bits : UInt8} (h : convertFreq freq = some bits) :
    bits &&& 0xF0 = 0 ∧ bits &&& 0x0F = bits ∧ (bits = freq2Hz ↔ freq = 2) := by
  obtain ⟨before, after, htable, -⟩ := List.lookup_eq_some_iff.mp h
  have hall : ∀ entry ∈ before ++ (freq, bits) :: after, entry.2 &&& 0xF0 = 0 ∧
      entry.2 &&& 0x0F = entry.2 ∧ (entry.2 = freq2Hz ↔ entry.1 = 2) := by
    rw [← htable]
    decide
  exact hall (freq, bits) (by simp)

theorem or_and (a b m : UInt8) : (a ||| b) &&& m = (a &&& m) ||| (b &&& m) :=
  UInt8.toBitVec_inj.mp (by simp [BitVec.and_or_distrib_right])

/-- What is behind the mask is the rate, and what is before it stays. -/
theorem rtcSetRate_nibbles (r : Rtc) {bits : UInt8} (hhigh : bits &&& 0xF0 = 0)
    (hlow : bits &&& 0x0F = bits) :
    (r.rtcSetRate bits).regA &&& 0xF0 = r.regA &&& 0xF0 ∧
      (r.rtcSetRate bits).regA &&& 0x0F = bits := by
  have hmask : (rateMask &&& 0xF0 : UInt8) = 0xF0 := by decide
  have hzero : (rateMask &&& 0x0F : UInt8) = 0 := by decide
  unfold rtcSetRate
  constructor
  · rw [or_and, UInt8.and_assoc, hmask, hhigh, UInt8.or_zero]
  · rw [or_and, UInt8.and_assoc, hzero, hlow, UInt8.and_zero, UInt8.zero_or]

/-- A frequency that is accepted has a rate. -/
theorem accepted_rate {buf : List UInt8} {nbytes : Int} {freq : Nat}
    (h : accepted buf nbytes = some freq) : ∃ bits, convertFreq freq = some bits := by
  unfold accepted at h
  split_ifs at h
  split at h
  · dsimp only at h
    split_ifs at h with hfreq
    cases h
    exact Option.ne_none_iff_exists'.mp hfreq
  · cases h

end Rtc

namespace Kernel

variable (L : Layout)

/-- The frequency that an operation sets, when it is a `write` that gets to `rtc_write`. -/
def frequency (s : Kernel) : Op → Option Nat
  | .write fd (some mem) nbytes =>
    if fd ≥ fdescSize ∨ fd < 0 then none
    else if s.cur.bitmap fd.toNat = 0 then none
    else if (s.cur.fileArray fd.toNat).write = .rtcWrite then Rtc.accepted mem nbytes
    else none
  | _ => none

variable {L} {s s' : Kernel}

/-! ## What leaves the clock as it is -/

theorem launched_rtc (env : Env) (pid : Pid) (t : Terminal) (s : Kernel) :
    (launched env pid t s).rtc = s.rtc := by rw [launched_eq]

theorem terminalWrite_rtc {mem : List UInt8} {count n : Int}
    (h : s.terminalWrite mem count = some (n, s')) : s'.rtc = s.rtc := by
  obtain ⟨tty, -, rfl⟩ := terminalWrite_cases h
  rfl

theorem execute_rtc {env : Env} {cmd : Option (List UInt8)} {t : Terminal} {o : Outcome}
    (h : (executeWithTerminalNum env cmd t).result s = some (o, s')) : s'.rtc = s.rtc := by
  cases cmd with
  | none => cases h; rfl
  | some cmd =>
    obtain ⟨r, s₁, hv, h⟩ := execute_cases h
    obtain ⟨n, -, -, hs₁⟩ := verifyFile_state hv
    have hrtc : s₁.rtc = s.rtc := by rw [hs₁]; rfl
    cases r with
    | none => rw [h.2, hrtc]
    | some v =>
      rcases h with ⟨-, -, n, hw⟩ | ⟨pid, -, -, rfl⟩
      · rw [terminalWrite_rtc hw, hrtc]
      · rw [launched_rtc, hrtc]

theorem schedule_rtc {env : Env} (h : (schedule L env).result s = some ((), s')) :
    s'.rtc = s.rtc := by
  obtain ⟨t, pid, -, -, rfl⟩ := schedule_cases L h
  rfl

theorem tick_rtc {env : Env} (h : (pitIntHandler L env).result s = some ((), s')) :
    s'.rtc = s.rtc := by
  rcases tick_cases L h with ⟨-, hs⟩ | ⟨-, o, s₁, he, hs⟩
  · rw [schedule_rtc hs]
    rfl
  · have hshell := execute_rtc he
    cases o with
    | entered v =>
      rw [hs, hshell]
      rfl
    | returned v =>
      rw [schedule_rtc hs, hshell]
      rfl

theorem halt_rtc {env : Env} (h : (halt env).result s = some ((), s')) : s'.rtc = s.rtc := by
  rcases halt_cases h with ⟨-, -, rfl⟩ | ⟨-, v, he⟩
  · rfl
  · rw [execute_rtc he]
    rfl

theorem key_rtc {env : Env} {input : UInt8}
    (h : (keyboardHandler env input).result s = some ((), s')) : s'.rtc = s.rtc := by
  obtain ⟨tty, -, ⟨-, rfl⟩ | ⟨t, o, -, he⟩⟩ := key_cases h
  · rw [keyed_eq]
    rfl
  · rw [execute_rtc he, markRunning, keyed_eq]
    rfl

theorem rtcRead_regA {r r' : Rtc} {n : Int} (h : r.rtcRead = some (n, r')) :
    r'.regA = r.regA := by
  unfold Rtc.rtcRead at h
  split at h
  · cases h
    rfl
  · cases h

theorem readHandler_regA {d : FileDesc} {mem : List UInt8} {nbytes : Int} {r : Tty.ReadOut}
    (h : s.readHandler d mem nbytes = some (r, s')) : s'.rtc.regA = s.rtc.regA := by
  unfold readHandler at h
  split at h
  · cases h
  · cases h
    rfl
  · split at h
    · cases h
    · obtain ⟨⟨n, tty⟩, -, h⟩ := Option.map_eq_some_iff.mp h
      cases h
      rfl
  · obtain ⟨⟨n, rtc⟩, hr, h⟩ := Option.map_eq_some_iff.mp h
    cases h
    exact rtcRead_regA hr
  · dsimp only at h
    split at h
    · cases h
    · cases h
      rfl
  · dsimp only at h
    split at h
    · cases h
    · cases h
      rfl

theorem read_regA {fd : Int} {buf : Option (List UInt8)} {nbytes : Int} {r : Tty.ReadOut}
    (h : s.read fd buf nbytes = some (r, s')) : s'.rtc.regA = s.rtc.regA := by
  rcases read_cases h with ⟨-, -, rfl⟩ | ⟨-, mem, r₁, s₁, hr, ⟨-, -, rfl⟩ | ⟨-, -, rfl⟩⟩
  · rfl
  · exact readHandler_regA hr
  · have hkeep := readHandler_regA hr
    exact hkeep

/-! ## What sets its rate -/

/-- A `write` sets the rate to the frequency that `rtc_write` accepts, if it gets there. -/
theorem write_rtc {fd : Int} {buf : Option (List UInt8)} {nbytes r : Int}
    (h : s.write fd buf nbytes = some (r, s')) :
    s'.rtc = s.rtc.tuned (s.frequency (.write fd buf nbytes)) := by
  cases buf with
  | none =>
    cases h
    rfl
  | some mem =>
    unfold write at h
    unfold frequency
    dsimp only at h ⊢
    by_cases hrange : fd ≥ fdescSize ∨ fd < 0
    · rw [if_pos hrange] at h ⊢
      cases h
      rfl
    · rw [if_neg hrange] at h ⊢
      by_cases hfree : s.cur.bitmap fd.toNat = 0
      · rw [if_pos hfree] at h ⊢
        cases h
        rfl
      · rw [if_neg hfree] at h ⊢
        obtain ⟨⟨n, s₁⟩, hw, h⟩ := Option.map_eq_some_iff.mp h
        cases h
        unfold writeHandler at hw
        cases hd : (s.cur.fileArray fd.toNat).write with
        | rtcWrite =>
          rw [hd] at hw
          obtain ⟨⟨n, rtc⟩, hr, hw⟩ := Option.map_eq_some_iff.mp hw
          cases hw
          rw [if_pos rfl]
          exact Rtc.rtcWrite_tuned hr
        | terminalWrite =>
          rw [hd] at hw
          rw [if_neg (by decide)]
          exact terminalWrite_rtc hw
        | null =>
          rw [hd] at hw
          cases hw
        | terminalWrong | writeDir | writeF =>
          rw [hd] at hw
          cases hw
          rw [if_neg (by decide)]
          rfl

/-- The rate after an operation: it is set by the writes of frequencies, and by nothing else. -/
theorem step_regA {op : Op} (h : step L s op = some s') :
    s'.rtc.regA = (s.rtc.tuned (s.frequency op)).regA := by
  obtain ⟨-, s₁, hs₁, rfl⟩ := step_result L h
  change s₁.rtc.regA = _
  cases op with
  | boot env =>
    rw [code, Prog.result_update_then] at hs₁
    obtain ⟨o, he⟩ := result_ignore hs₁
    rw [execute_rtc he]
    rfl
  | execute env command =>
    obtain ⟨o, he⟩ := result_ignore hs₁
    rw [Kernel.execute, Prog.result_get_then] at he
    rw [execute_rtc he]
    rfl
  | halt env =>
    rw [halt_rtc hs₁]
    rfl
  | tick env =>
    rw [tick_rtc hs₁]
    rfl
  | key env input =>
    rw [key_rtc hs₁]
    rfl
  | vidmap startScreen =>
    rcases vidmap_cases L hs₁ with ⟨-, rfl⟩ | ⟨-, rfl⟩
    · rfl
    · rfl
  | openFile filename =>
    obtain ⟨r, hr⟩ := openFile_code hs₁
    rw [openFile_frame hr]
    rfl
  | close fd =>
    cases hs₁
    rfl
  | read fd buf nbytes =>
    obtain ⟨r, hr⟩ := read_code hs₁
    rw [read_regA hr]
    rfl
  | write fd buf nbytes =>
    obtain ⟨r, hr⟩ := write_code hs₁
    rw [write_rtc hr]
  | rtc =>
    cases hs₁
    rfl

/-! ## Opens of the clock's file -/

/-- The last frequency that has been set. -/
def noteFrequency (last : Option Nat) (s : Kernel) (op : Op) : Option Nat :=
  (s.frequency op).or last

/-- The state at the end of `entry`, for any contents of the clock before `rtc_init`. -/
def bootClock (L : Layout) (fs : FileSys) (r : Rtc) : Kernel :=
  { boot L fs with rtc := r.rtcInit }

/-- An `open` by the name of an entry of type RTC returns a descriptor. -/
structure OpensRtc (s : Kernel) (filename : List UInt8) (fd : Int) (s' : Kernel) : Prop where
  entry : ∃ d, s.fs.readDentryByName filename = some (some d) ∧ d.ftype = 0
  opened : s.openFile (some filename) = some (fd, s')
  returned : fd ≠ -1

/-- The rate of 2 Hz, and the bits above it as they were before. -/
def Rate2Hz (s s' : Kernel) : Prop :=
  s'.rtc.regA &&& 0x0F = Rtc.freq2Hz ∧ s'.rtc.regA &&& 0xF0 = s.rtc.regA &&& 0xF0

/-- The rate is that of the last frequency, and 2 Hz before the first. -/
def Rated (s : Kernel) (last : Option Nat) : Prop :=
  ∃ bits, Rtc.convertFreq (last.getD 2) = some bits ∧ s.rtc.regA &&& 0x0F = bits

theorem bootClock_rated (fs : FileSys) (r : Rtc) : (bootClock L fs r).Rated none := by
  have hbits : Rtc.convertFreq 2 = some Rtc.freq2Hz := rfl
  obtain ⟨hhigh, hlow, -⟩ := Rtc.convertFreq_bits hbits
  exact ⟨Rtc.freq2Hz, hbits, (r.rtcSetRate_nibbles hhigh hlow).2⟩

/-- Only `rtc_write` has a frequency. -/
theorem frequency_rate {op : Op} {freq : Nat} (h : s.frequency op = some freq) :
    ∃ bits, Rtc.convertFreq freq = some bits := by
  unfold frequency at h
  split at h
  · split_ifs at h
    exact Rtc.accepted_rate h
  · cases h

theorem step_rated {last : Option Nat} {op : Op} (h : step L s op = some s')
    (hrated : s.Rated last) : s'.Rated (noteFrequency last s op) := by
  have hreg := step_regA h
  unfold noteFrequency
  cases hop : s.frequency op with
  | none =>
    rw [hop] at hreg
    obtain ⟨bits, hbits, hlow⟩ := hrated
    exact ⟨bits, hbits, hreg ▸ hlow⟩
  | some freq =>
    obtain ⟨bits, hbits⟩ := frequency_rate hop
    obtain ⟨hhigh, hlow, -⟩ := Rtc.convertFreq_bits hbits
    rw [hop, Rtc.tuned, Option.bind_some, hbits] at hreg
    exact ⟨bits, hbits, hreg ▸ (s.rtc.rtcSetRate_nibbles hhigh hlow).2⟩

/-- **Opens of the clock.** `open` never calls `rtc_open`: whoever opens the clock gets it at
2 Hz if and only if no frequency has been accepted so far, or the last one was 2 Hz. -/
theorem rtc_open_rate_iff {fs : FileSys} {r : Rtc} {ops : List Op} {last : Option Nat}
    (h : run (recorded (step L) noteFrequency) (bootClock L fs r, none) ops = some (s, last))
    {filename : List UInt8} {fd : Int} (hopen : s.OpensRtc filename fd s') :
    Rate2Hz s s' ↔ last = none ∨ last = some 2 := by
  obtain ⟨bits, hbits, hlow⟩ := recorded_invariant (step L) noteFrequency Rated
    (fun s last op s' hrated hstep => step_rated hstep hrated) h (bootClock_rated fs r)
  have hsame : s'.rtc = s.rtc := by rw [openFile_frame hopen.opened]
  have htwo := (Rtc.convertFreq_bits hbits).2.2
  unfold Rate2Hz
  rw [hsame, hlow, and_iff_left rfl, htwo]
  cases last with
  | none => simp
  | some freq => simp

/-- A file system with a shell and the clock's file. -/
def shellAndRtc : FileSys where
  image off :=
    ([(0, 2), (128, 114), (129, 116), (130, 99)].lookup off).getD (FileSys.shellOnly.image off)
  readDirIndex := 0

/-- A user comes after another one, who sets 1024 Hz and then 2 Hz again. -/
theorem rtc_open_rate_iff_after : ∃ s s',
    run (recorded (step someLayout) noteFrequency)
      (bootClock someLayout shellAndRtc .boot, none)
      [.boot .zero, .openFile (some (cText "rtc")), .write 2 (some [0, 4, 0, 0]) 4,
        .write 2 (some [2, 0, 0, 0]) 4, .close 2] = some (s, some 2) ∧
      s.OpensRtc (cText "rtc") 2 s' ∧ Rate2Hz s s' := by
  obtain ⟨⟨⟨s, last⟩, fd, s'⟩, hrun, hlast, hfd, hfs⟩ := exists_of_map_decide
    (fun x : (Kernel × Option Nat) × Int × Kernel => x.1.2 = some 2 ∧ x.2.1 = 2 ∧
      x.1.1.fs.readDentryByName (cText "rtc") = some (some (shellAndRtc.dentry 1)))
    (x := (run (recorded (step someLayout) noteFrequency)
      (bootClock someLayout shellAndRtc .boot, none)
      [.boot .zero, .openFile (some (cText "rtc")), .write 2 (some [0, 4, 0, 0]) 4,
        .write 2 (some [2, 0, 0, 0]) 4, .close 2]).bind fun x =>
      (x.1.openFile (some (cText "rtc"))).map fun y => (x, y)) (by decide +kernel)
  obtain ⟨x, hx, hrun⟩ := Option.bind_eq_some_iff.mp hrun
  obtain ⟨y, hy, hrun⟩ := Option.map_eq_some_iff.mp hrun
  cases hrun
  subst hlast hfd
  have hopen : s.OpensRtc (cText "rtc") 2 s' :=
    ⟨⟨shellAndRtc.dentry 1, hfs, by decide +kernel⟩, hy, by decide⟩
  exact ⟨s, s', hx, hopen, (rtc_open_rate_iff hx hopen).mpr (.inr rfl)⟩

/-- A user comes after another one, who has set 1024 Hz: the clock that `open` returns is at
1024 Hz. -/
theorem rtc_open_keeps_rate : ∃ s s',
    run (step someLayout) (bootClock someLayout shellAndRtc .boot)
      [.boot .zero, .openFile (some (cText "rtc")), .write 2 (some [0, 4, 0, 0]) 4, .close 2] =
        some s ∧
      s.OpensRtc (cText "rtc") 2 s' ∧ s'.rtc.regA &&& 0x0F = 0x06 ∧ ¬ Rate2Hz s s' := by
  obtain ⟨⟨s, fd, s'⟩, hrun, hfd, hfs, hrate⟩ := exists_of_map_decide
    (fun x : Kernel × Int × Kernel => x.2.1 = 2 ∧
      x.1.fs.readDentryByName (cText "rtc") = some (some (shellAndRtc.dentry 1)) ∧
      x.2.2.rtc.regA &&& 0x0F = 0x06)
    (x := (run (step someLayout) (bootClock someLayout shellAndRtc .boot)
      [.boot .zero, .openFile (some (cText "rtc")), .write 2 (some [0, 4, 0, 0]) 4,
        .close 2]).bind fun s =>
      (s.openFile (some (cText "rtc"))).map fun y => (s, y)) (by decide +kernel)
  obtain ⟨x, hx, hrun⟩ := Option.bind_eq_some_iff.mp hrun
  obtain ⟨y, hy, hrun⟩ := Option.map_eq_some_iff.mp hrun
  cases hrun
  subst hfd
  refine ⟨s, s', hx, ⟨⟨shellAndRtc.dentry 1, hfs, by decide +kernel⟩, hy, by decide⟩, hrate, ?_⟩
  rintro ⟨h2Hz, -⟩
  rw [hrate] at h2Hz
  revert h2Hz
  decide

end Kernel

end OS391
