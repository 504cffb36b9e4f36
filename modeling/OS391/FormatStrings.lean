import OS391.BootConsole

/-! Whole format strings of `printf`: text and conversions in any order and number. -/

namespace OS391.Lib
open Library Library.Runs Library.Bytes Library.Numerals

/-- The characters that `printf` knows after a `%`. -/
def specifiers : List UInt8 := "%#xudcs".toList.map fun c => c.toUInt8

/-- A part of a format string with its argument; `hashes` is the number of `#` in it. -/
inductive Item (mem : Nat → UInt8) where
  | byte (c : UInt8) (nul : c ≠ 0) (plain : c ≠ '%'.toUInt8)
  | percent (hashes : Nat)
  | hex (hashes : Nat) (v : BitVec 32)
  | unsigned (hashes : Nat) (v : BitVec 32)
  | signed (hashes : Nat) (v : BitVec 32)
  | char (hashes : Nat) (v : BitVec 32)
  | string (hashes : Nat) (s : Nat) (text : List UInt8) (there : StringAt mem s text)
    (short : text.length < word32)
  | ignored (hashes : Nat) (c : UInt8) (nul : c ≠ 0) (unknown : c ∉ specifiers)

namespace Item

variable {mem : Nat → UInt8}

def spec (hashes : Nat) (c : UInt8) : List UInt8 :=
  '%'.toUInt8 :: List.replicate hashes '#'.toUInt8 ++ [c]

/-- The part of the format. -/
def format : Item mem → List UInt8
  | byte c _ _ => [c]
  | percent hashes => spec hashes '%'.toUInt8
  | hex hashes _ => spec hashes 'x'.toUInt8
  | unsigned hashes _ => spec hashes 'u'.toUInt8
  | signed hashes _ => spec hashes 'd'.toUInt8
  | char hashes _ => spec hashes 'c'.toUInt8
  | string hashes _ _ _ _ => spec hashes 's'.toUInt8
  | ignored hashes c _ _ => spec hashes c

/-- The argument on the stack. -/
def args : Item mem → List Nat
  | byte _ _ _ | percent _ | ignored _ _ _ _ => []
  | hex _ v | unsigned _ v | signed _ v | char _ v => [v.toNat]
  | string _ s _ _ _ => [s]

/-- What is to be printed. -/
def text : Item mem → List UInt8
  | byte c _ _ => [c]
  | percent _ => ['%'.toUInt8]
  | hex hashes v =>
    let digits := numeral 16 symbol v.toNat
    if hashes = 0 then digits else List.replicate (8 - digits.length) (symbol 0) ++ digits
  | unsigned _ v => numeral 10 symbol v.toNat
  | signed _ v =>
    let digits := numeral 10 symbol v.toInt.natAbs
    if v.toInt < 0 then '-'.toUInt8 :: digits else digits
  | char _ v => [v.toNat.toUInt8]
  | string _ _ text _ _ => text
  | ignored _ _ _ _ => []

end Item

variable {mem : Nat → UInt8}

theorem signedText_toInt (mem : Nat → UInt8) (v : BitVec 32) (convBuf : Nat → UInt8) :
    signedText convBuf v.toNat = some (Item.signed 0 v : Item mem).text := by
  have hint : int32 v.toNat = v.toInt := (BitVec.toInt_eq_toNat_bmod v).symm
  have hlt := v.isLt
  have hcond := BitVec.toInt_eq_toNat_cond v
  rw [signedText_eq hlt, hint]
  simp only [Item.text]
  by_cases h : v.toInt < 0
  · have habs : (4294967296 - v.toNat) % 4294967296 = v.toInt.natAbs := by
      split at hcond <;> omega
    rw [if_pos h, if_pos h, show word32 = 4294967296 from rfl, habs]
  · have habs : v.toNat = v.toInt.natAbs := by
      split at hcond <;> omega
    rw [if_neg h, if_neg h, ← habs]

section Conversions

variable (convBuf : Nat → UInt8) (alternate : Bool) (esp : List Nat)

theorem conversion_x : conversion mem convBuf alternate 'x'.toUInt8 esp =
    converted (hexText convBuf alternate) esp := by
  rw [conversion, if_neg (by decide), if_pos rfl]

theorem conversion_u : conversion mem convBuf alternate 'u'.toUInt8 esp =
    converted (unsignedText convBuf) esp := by
  rw [conversion, if_neg (by decide), if_neg (by decide), if_pos rfl]

theorem conversion_d : conversion mem convBuf alternate 'd'.toUInt8 esp =
    converted (signedText convBuf) esp := by
  rw [conversion, if_neg (by decide), if_neg (by decide), if_neg (by decide), if_pos rfl]

theorem conversion_s : conversion mem convBuf alternate 's'.toUInt8 esp =
    converted (fun v => puts mem v) esp := by
  rw [conversion, if_neg (by decide), if_neg (by decide), if_neg (by decide),
    if_neg (by decide), if_neg (by decide), if_pos rfl]

/-- Anything else prints nothing. -/
theorem conversion_unknown {c : UInt8} (h : c ∉ specifiers) :
    conversion mem convBuf alternate c esp = some ([], esp) := by
  have hne (d : UInt8) (hd : d ∈ specifiers) : c ≠ d := fun hc => h (hc ▸ hd)
  rw [conversion, if_neg (hne _ (by decide)), if_neg (hne _ (by decide)),
    if_neg (hne _ (by decide)), if_neg (hne _ (by decide)), if_neg (hne _ (by decide)),
    if_neg (hne _ (by decide))]

end Conversions

/-- After the `#` of a conversion, `alternate` tells whether there was one. -/
theorem printf_hashes (stack : Nat → Nat → UInt8) (hashes : Nat) (alternate : Bool)
    (rest : List UInt8) (esp : List Nat) :
    printfFrom mem stack (some alternate) (List.replicate hashes '#'.toUInt8 ++ rest) esp =
      (printfFrom mem stack (some (alternate || hashes ≠ 0)) rest esp).map (ahead [] hashes) := by
  induction hashes generalizing alternate with
  | zero =>
    have hid : ahead [] 0 = id := funext fun r => Prod.ext rfl (Nat.zero_add _)
    simp [hid]
  | succ n ih =>
    rw [List.replicate_succ, List.cons_append, printfFrom, if_pos rfl, ih, map_ahead, Nat.add_comm]
    simp

/-- A conversion prints its text, and leaves the arguments behind its own. -/
theorem printf_spec {hashes : Nat} {c : UInt8} (hc : c ≠ '#'.toUInt8) {text : List UInt8}
    {esp esp' : List Nat}
    (hconv : ∀ convBuf, conversion mem convBuf (hashes ≠ 0) c esp = some (text, esp'))
    (stack : Nat → Nat → UInt8) (rest : List UInt8) :
    printf mem stack (Item.spec hashes c ++ rest) esp =
      (printf mem stack rest esp').map (ahead text (Item.spec hashes c).length) := by
  have hlen : (Item.spec hashes c).length = 1 + (hashes + 1) := by
    simp [Item.spec]
    omega
  have hpercent : printf mem stack (Item.spec hashes c ++ rest) esp =
      (printfFrom mem stack (some false) (List.replicate hashes '#'.toUInt8 ++ c :: rest)
        esp).map (ahead [] 1) := by
    simp only [Item.spec, List.cons_append, List.append_assoc, List.nil_append]
    rfl
  rw [hpercent, printf_hashes, Bool.false_or, printfFrom, if_neg hc, hconv, Option.bind_some,
    map_ahead, map_ahead, hlen]
  rfl

/-- **One part.** -/
theorem printf_item (item : Item mem) (stack : Nat → Nat → UInt8) (rest : List UInt8)
    (esp : List Nat) :
    printf mem stack (item.format ++ rest) (item.args ++ esp) =
      (printf mem stack rest esp).map (ahead item.text item.format.length) := by
  cases item with
  | byte c nul plain =>
    have hplain : '%'.toUInt8 ∉ [c] := by simpa using plain.symm
    have hnul : 0 ∉ [c] := by simpa using nul.symm
    exact printf_literal hplain hnul mem stack rest esp
  | percent hashes => exact printf_spec (by decide) (fun _ => rfl) stack rest
  | hex hashes v =>
    refine printf_spec (by decide) (fun convBuf => ?_) stack rest
    refine (conversion_x ..).trans (converted_eq ?_ esp)
    by_cases h : hashes = 0
    · simp only [Item.text, h]
      exact hexText_eq v.isLt convBuf
    · simp only [Item.text, h, if_false, ne_eq, not_false_eq_true, decide_true]
      exact hexText_alternate v.isLt convBuf
  | unsigned hashes v =>
    refine printf_spec (by decide) (fun convBuf => ?_) stack rest
    exact (conversion_u ..).trans (converted_eq (unsignedText_eq v.isLt convBuf) esp)
  | signed hashes v =>
    refine printf_spec (by decide) (fun convBuf => ?_) stack rest
    exact (conversion_d ..).trans (converted_eq (signedText_toInt mem v convBuf) esp)
  | char hashes v => exact printf_spec (by decide) (fun _ => rfl) stack rest
  | string hashes s text there short =>
    refine printf_spec (by decide) (fun convBuf => ?_) stack rest
    exact (conversion_s ..).trans (converted_eq (puts_eq there short) esp)
  | ignored hashes c nul unknown =>
    have hhash : c ≠ '#'.toUInt8 := by
      rintro rfl
      exact unknown (by decide)
    exact printf_spec hhash (fun convBuf => conversion_unknown convBuf _ esp unknown) stack rest

/-- **Format strings.** Whatever text and conversions a format string is made of, and whatever the
conversion buffers hold, `printf` prints their texts one after another, each conversion with the
argument at its place, and returns the length of the format. -/
theorem printf_items (mem : Nat → UInt8) (stack : Nat → Nat → UInt8) (items : List (Item mem))
    (rest : List UInt8) (esp : List Nat) :
    printf mem stack (items.flatMap Item.format ++ 0 :: rest) (items.flatMap Item.args ++ esp) =
      some (items.flatMap Item.text, (items.flatMap Item.format).length) := by
  induction items with
  | nil => rfl
  | cons item items ih =>
    simp only [List.flatMap_cons, List.append_assoc]
    rw [printf_item, ih, Option.map_some, ahead, List.length_append]

end OS391.Lib
