import Mathlib.Tactic.Common

/-! `rtc.c`: the interrupt flag that readers wait for, and the rate register. -/

namespace OS391

structure Rtc where
  flag : Bool
  /-- Status register A of the chip. -/
  regA : UInt8

namespace Rtc

def boot : Rtc := ⟨false, 0⟩

def rateMask : UInt8 := 0xF0

def freq2Hz : UInt8 := 0x0F

/-- `rtc_init` selects 2 Hz, and no interrupt is noted. -/
def rtcInit (r : Rtc) : Rtc := ⟨false, (r.regA &&& rateMask) ||| freq2Hz⟩

/-- The handler sets the flag for whoever reads next. -/
def rtcIntHandler (r : Rtc) : Rtc := { r with flag := true }

/-- `rtc_read` from the end of its waiting loop on (`none`: still waiting). -/
def rtcRead (r : Rtc) : Option (Int × Rtc) :=
  if r.flag then some (0, { r with flag := false }) else none

/-- `convert_freq`, where `none` is its -1. -/
def convertFreq (freq : Nat) : Option UInt8 :=
  [(2, freq2Hz), (4, 0x0E), (8, 0x0D), (16, 0x0C), (32, 0x0B), (64, 0x0A), (128, 0x02),
    (256, 0x01), (512, 0x07), (1024, 0x06)].lookup freq

/-- `rtc_write` of a buffer that is not NULL; it reads the four bytes of the frequency. -/
def rtcWrite (r : Rtc) (buf : List UInt8) (nbytes : Int) : Option (Int × Rtc) :=
  if nbytes ≠ 4 then some (-1, r)
  else match buf with
    | a :: b :: c :: d :: _ =>
      match convertFreq (a.toNat + 256 * b.toNat + 65536 * c.toNat + 16777216 * d.toNat) with
      | none => some (-1, r)
      | some bits => some (nbytes, { r with regA := (r.regA &&& rateMask) ||| bits })
    | _ => none

end Rtc

end OS391
