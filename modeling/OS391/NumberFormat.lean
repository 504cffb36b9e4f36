import OS391.Library.Numerals
import OS391.Library.Runs
import OS391.FileSystem

/-! Numbers as text in `lib.c`: `itoa` with the routines it uses, and `printf`. -/

namespace OS391.Lib
open Library Library.Runs Library.Bytes Library.Numerals

/-- `strlen`; `none` without a NUL in the address space. -/
def strlen (m : Nat → UInt8) (s : Nat) : Option Nat :=
  whileLoop (fun len => m (s + len) ≠ 0) (fun len => len + 1) word32 0

/-- The variables of the loop of `strrev`, and the memory it works on. -/
structure Reversal where
  mem : Nat → UInt8
  beg : Int
  endAt : Int

def swapRound (s : Nat) (r : Reversal) : Reversal :=
  let tmp := r.mem (s + r.endAt).toNat
  let mem := Function.update r.mem (s + r.endAt).toNat (r.mem (s + r.beg).toNat)
  ⟨Function.update mem (s + r.beg).toNat tmp, r.beg + 1, r.endAt - 1⟩

/-- `strrev`. The length is unsigned, and 1 is taken off before it becomes an `int32_t`. -/
def strrev (m : Nat → UInt8) (s : Nat) : Option (Nat → UInt8) :=
  (strlen m s).bind fun len =>
    (whileLoop (fun r => r.beg < r.endAt) (swapRound s) word32
      ⟨m, 0, int32 (len + (word32 - 1))⟩).map Reversal.mem

def lookup : List UInt8 :=
  "0123456789ABCDEFGHIJKLMNOPQRSTUVWXYZ".toList.map (fun c => c.toUInt8) ++ [0]

/-- The digit loop of `itoa`: the memory behind it and `newbuf`. A division by 0 faults. -/
def digitLoop (radix : Nat) : Nat → (Nat → UInt8) → Nat → Nat → Option ((Nat → UInt8) × Nat)
  | 0, _, _, _ => none
  | fuel + 1, m, newbuf, newval =>
    if newval > 0 then
      if radix = 0 then none
      else lookup[newval % radix]?.bind fun c =>
        digitLoop radix fuel (Function.update m newbuf c) (newbuf + 1) (newval / radix)
    else some (m, newbuf)

/-- `itoa`, for words; a radix from 2 on brings a word to 0 in 32 rounds. -/
def itoa (m : Nat → UInt8) (value buf radix : Nat) : Option (Nat → UInt8) :=
  if value = 0 then
    some (Function.update (Function.update m buf '0'.toUInt8) (buf + 1) 0)
  else (digitLoop radix 33 m buf value).bind fun r =>
    strrev (Function.update r.1 r.2 0) buf

def putsLoop (m : Nat → UInt8) (s : Nat) : Nat → Nat → Option (List UInt8)
  | 0, _ => none
  | fuel + 1, index =>
    if m (s + index) ≠ 0 then (putsLoop m s fuel (index + 1)).map (m (s + index) :: ·)
    else some []

/-- The characters that `puts` hands to `putc`. -/
def puts (m : Nat → UInt8) (s : Nat) : Option (List UInt8) := putsLoop m s word32 0

/-! ## Conversions -/

/-- `%x` and `%#x`. Nothing has set `convBuf` before. -/
def hexText (convBuf : Nat → UInt8) (alternate : Bool) (v : Nat) : Option (List UInt8) :=
  if alternate = false then (itoa convBuf v 0 16).bind fun m => puts m 0
  else
    (itoa convBuf v 8 16).bind fun m =>
      (strlen m 8).bind fun startingIndex =>
        puts (fill m startingIndex (8 - startingIndex) '0'.toUInt8) startingIndex

def unsignedText (convBuf : Nat → UInt8) (v : Nat) : Option (List UInt8) :=
  (itoa convBuf v 0 10).bind fun m => puts m 0

def signedText (convBuf : Nat → UInt8) (v : Nat) : Option (List UInt8) :=
  if int32 v < 0 then
    (itoa (Function.update convBuf 0 '-'.toUInt8) ((word32 - v) % word32) 1 10).bind fun m =>
      puts m 0
  else (itoa convBuf v 0 10).bind fun m => puts m 0

/-- A conversion that takes a word from the stack. -/
def converted (text : Nat → Option (List UInt8)) :
    List Nat → Option (List UInt8 × List Nat)
  | [] => none
  | v :: esp => (text v).map fun t => (t, esp)

/-- What the conversion with specifier `c` prints, and the arguments it leaves. -/
def conversion (mem convBuf : Nat → UInt8) (alternate : Bool) (c : UInt8) (esp : List Nat) :
    Option (List UInt8 × List Nat) :=
  if c = '%'.toUInt8 then some (['%'.toUInt8], esp)
  else if c = 'x'.toUInt8 then converted (hexText convBuf alternate) esp
  else if c = 'u'.toUInt8 then converted (unsignedText convBuf) esp
  else if c = 'd'.toUInt8 then converted (signedText convBuf) esp
  else if c = 'c'.toUInt8 then converted (fun v => some [v.toUInt8]) esp
  else if c = 's'.toUInt8 then converted (fun v => puts mem v) esp
  else some ([], esp)

/-- The result of a rest of the format, with `text` printed for `n` of its bytes in front. -/
def ahead (text : List UInt8) (n : Nat) (r : List UInt8 × Nat) : List UInt8 × Nat :=
  (text ++ r.1, n + r.2)

/-- `printf` from a place in the format: what it hands to `putc`, and how far it gets. After
a `%` it is at `format_char_switch`, with a value of `alternate`. Neither the format, up to the
end of its area, nor the arguments may run out; `stack` is what a conversion finds in its
buffer, for each place. -/
def printfFrom (mem : Nat → UInt8) (stack : Nat → Nat → UInt8) :
    Option Bool → List UInt8 → List Nat → Option (List UInt8 × Nat)
  | _, [], _ => none
  | none, c :: format, esp =>
    if c = 0 then some ([], 0)
    else if c = '%'.toUInt8 then
      (printfFrom mem stack (some false) format esp).map (ahead [] 1)
    else (printfFrom mem stack none format esp).map (ahead [c] 1)
  | some alternate, c :: format, esp =>
    if c = '#'.toUInt8 then (printfFrom mem stack (some true) format esp).map (ahead [] 1)
    else
      (conversion mem (stack format.length) alternate c esp).bind fun (text, esp) =>
        (printfFrom mem stack none format esp).map (ahead text 1)

def printf (mem : Nat → UInt8) (stack : Nat → Nat → UInt8) (format : List UInt8)
    (esp : List Nat) : Option (List UInt8 × Nat) :=
  printfFrom mem stack none format esp

/-! ## Reading numbers -/

/-- The digit that a character stands for, 36 for none. -/
def digitValue (c : UInt8) : Nat :=
  if 48 ≤ c.toNat ∧ c.toNat ≤ 57 then c.toNat - 48
  else if 65 ≤ c.toNat ∧ c.toNat ≤ 90 then c.toNat - 55
  else 36

/-- The number that a text of digits stands for. -/
def parse (radix : Nat) (text : List UInt8) : Option Nat :=
  if text.isEmpty then none
  else if text.all fun c => digitValue c < radix then some (value radix digitValue text)
  else none

/-- The same with a sign in front, to base 10. -/
def parseSigned (text : List UInt8) : Option Int :=
  if text.head? = some '-'.toUInt8 then (parse 10 text.tail).map fun n : Nat => -(n : Int)
  else (parse 10 text).map fun n : Nat => (n : Int)

/-! ## Strings -/

variable {text : List UInt8}

theorem strlen_eq (h : StringAt m s text) (hlen : text.length < word32) :
    strlen m s = some text.length := by
  have hround : ∀ n, n ≤ text.length → decide (m (s + n) ≠ 0) = true →
      n + 1 ≤ text.length ∧ text.length - (n + 1) < text.length - n := by
    intro n hn hne
    have hbefore : n ≠ text.length := by
      rintro rfl
      exact of_decide_eq_true hne h.nul
    omega
  obtain ⟨n, hn, hle, hnul⟩ := whileLoop_total (fun n => n ≤ text.length)
    (fun n => text.length - n) hround (Nat.zero_le _) (Nat.lt_of_le_of_lt (Nat.sub_le _ _) hlen)
  have hend : n = text.length := by
    by_contra hne
    exact of_decide_eq_false hnul (h.byte_ne (Nat.lt_of_le_of_ne hle hne))
  exact hn.trans (congrArg some hend)

theorem putsLoop_eq (h : StringAt m s text) {fuel index : Nat} (hindex : index ≤ text.length)
    (hfuel : text.length - index < fuel) :
    putsLoop m s fuel index = some (text.drop index) := by
  induction fuel generalizing index with
  | zero => exact absurd hfuel (Nat.not_lt_zero _)
  | succ fuel ih =>
    unfold putsLoop
    rcases Nat.eq_or_lt_of_le hindex with rfl | hlt
    · rw [if_neg (not_not_intro h.nul), List.drop_length]
    · rw [if_pos (h.byte_ne hlt), ih hlt (by omega), h.byte hlt, Option.map_some,
        List.getElem_cons_drop]

theorem puts_eq (h : StringAt m s text) (hlen : text.length < word32) : puts m s = some text :=
  putsLoop_eq h (Nat.zero_le _) hlen

/-- Between the rounds of `strrev`: the bytes before `beg` and behind `end` are in place. -/
structure Reversed (m : Nat → UInt8) (s n : Nat) (r : Reversal) : Prop where
  sum : r.beg + r.endAt = n - 1
  beg : 0 ≤ r.beg
  met : r.beg ≤ r.endAt + 1
  mem : ∀ a : Nat, r.mem a =
    if s ≤ a ∧ a < s + r.beg ∨ s + r.endAt < a ∧ a < s + n then m (2 * s + n - 1 - a) else m a

theorem reversed_round {r : Reversal} (h : Reversed m s n r) (hlt : r.beg < r.endAt) :
    Reversed m s n (swapRound s r) := by
  obtain ⟨mem, beg, endAt⟩ := r
  obtain ⟨hsum, hbeg, hmet, hmem⟩ := h
  dsimp only at hsum hbeg hmet hmem hlt
  obtain ⟨b, rfl⟩ := Int.eq_ofNat_of_zero_le hbeg
  obtain ⟨e, rfl⟩ := Int.eq_ofNat_of_zero_le (show 0 ≤ endAt by omega)
  have hb : ((s : Int) + b).toNat = s + b := by omega
  have he : ((s : Int) + e).toNat = s + e := by omega
  have hatEnd : mem (s + e) = m (s + e) := (hmem _).trans (if_neg (by omega))
  have hatBeg : mem (s + b) = m (s + b) := (hmem _).trans (if_neg (by omega))
  refine ⟨?_, ?_, ?_, fun a => ?_⟩
  · show (b : Int) + 1 + (e - 1) = n - 1
    omega
  · show (0 : Int) ≤ b + 1
    omega
  · show (b : Int) + 1 ≤ e - 1 + 1
    omega
  · simp only [swapRound, hb, he, hatEnd, hatBeg]
    by_cases hab : a = s + b
    · rw [hab, Function.update_self, if_pos (by omega)]
      congr 1
      omega
    · rw [Function.update_of_ne hab]
      by_cases hae : a = s + e
      · rw [hae, Function.update_self, if_pos (by omega)]
        congr 1
        omega
      · rw [Function.update_of_ne hae, hmem]
        exact if_congr (by omega) rfl rfl

/-- When the two indices have met, all bytes are in place. -/
theorem Reversed.done {r : Reversal} (h : Reversed m s n r) (hstop : r.endAt ≤ r.beg) (a : Nat) :
    r.mem a = if s ≤ a ∧ a < s + n then m (2 * s + n - 1 - a) else m a := by
  obtain ⟨hsum, hbeg, hmet, hmem⟩ := h
  rw [hmem]
  by_cases hin : s ≤ a ∧ a < s + n
  · rw [if_pos hin]
    split
    · rfl
    · congr 1
      omega
  · rw [if_neg hin, if_neg (by omega)]

theorem putString_reverse (h : StringAt m s text) (a : Nat) :
    putString m s text.reverse a =
      if s ≤ a ∧ a < s + text.length then m (2 * s + text.length - 1 - a) else m a := by
  have hstored : StringAt (putString m s text.reverse) s text.reverse :=
    stringAt_putString m s (mt List.mem_reverse.mp h.noNul)
  by_cases hin : s ≤ a ∧ a < s + text.length
  · obtain ⟨i, rfl⟩ := Nat.exists_eq_add_of_le hin.1
    have hi : i < text.reverse.length := by rw [List.length_reverse]; omega
    have hmirror : 2 * s + text.length - 1 - (s + i) = s + (text.length - 1 - i) := by omega
    have hlast : text.length - 1 - i < text.length := by omega
    rw [if_pos hin, hstored.byte hi, List.getElem_reverse, hmirror, h.byte hlast]
  · rw [if_neg hin]
    by_cases hend : a = s + text.length
    · have hnul := hstored.nul
      rw [List.length_reverse] at hnul
      rw [hend, hnul, h.nul]
    · exact putString_outside m (by rw [List.length_reverse]; omega)

theorem int32_pred (h : n < 2 ^ 31) : int32 (n + (word32 - 1)) = (n : Int) - 1 := by
  have hword : word32 = 4294967296 := rfl
  unfold int32
  rw [hword, Int.bmod_def]
  omega

theorem strrev_eq (h : StringAt m s text) (hlen : text.length < 2 ^ 31) :
    strrev m s = some (putString m s text.reverse) := by
  have hword : text.length < word32 := Nat.lt_trans hlen (by decide)
  have hinit : Reversed m s text.length ⟨m, 0, text.length - 1⟩ := by
    refine ⟨Int.zero_add _, Int.le_refl 0, ?_, fun a => (if_neg ?_).symm⟩
    · show (0 : Int) ≤ text.length - 1 + 1
      omega
    · show ¬ (s ≤ a ∧ (a : Int) < s + 0 ∨ (s : Int) + (text.length - 1) < a ∧ a < s + text.length)
      omega
  have hround : ∀ r, Reversed m s text.length r → decide (r.beg < r.endAt) = true →
      Reversed m s text.length (swapRound s r) ∧
        ((swapRound s r).endAt + 1).toNat < (r.endAt + 1).toNat := by
    intro r hr hlt
    have hlt := of_decide_eq_true hlt
    have hbeg := hr.beg
    refine ⟨reversed_round hr hlt, ?_⟩
    show (r.endAt - 1 + 1).toNat < (r.endAt + 1).toNat
    omega
  have hfuel : ((text.length : Int) - 1 + 1).toNat < word32 := by
    rwa [Int.sub_add_cancel, Int.toNat_natCast]
  obtain ⟨r, hr, hend, hstop⟩ := whileLoop_total (Reversed m s text.length)
    (fun r => (r.endAt + 1).toNat) hround hinit hfuel
  unfold strrev
  rw [strlen_eq h hword, Option.bind_some, int32_pred hlen, hr, Option.map_some]
  refine congrArg some (funext fun a => ?_)
  rw [hend.done (Int.not_lt.mp (of_decide_eq_false hstop)), putString_reverse h]

/-! ## Digits -/

variable {radix v : Nat}

/-- The symbol of a digit. -/
def symbol (d : Nat) : UInt8 := lookup.getD d 0

theorem symbol_spec {d : Nat} (h : d < 36) :
    lookup[d]? = some (symbol d) ∧ digitValue (symbol d) = d ∧
      symbol d ≠ 0 ∧ symbol d ≠ '-'.toUInt8 := by
  have hall : ∀ d < 36, lookup[d]? = some (symbol d) ∧ digitValue (symbol d) = d ∧
      symbol d ≠ 0 ∧ symbol d ≠ '-'.toUInt8 := by decide
  exact hall d h

theorem digitLoop_eq (hr : 1 < radix) (hr36 : radix ≤ 36) {fuel newval : Nat}
    (hfuel : (Nat.digits radix newval).length < fuel) (m : Nat → UInt8) (newbuf : Nat) :
    digitLoop radix fuel m newbuf newval =
      some (blit m newbuf (fun i => ((Nat.digits radix newval).map symbol).getD i 0)
          ((Nat.digits radix newval).map symbol).length,
        newbuf + ((Nat.digits radix newval).map symbol).length) := by
  induction fuel generalizing newval m newbuf with
  | zero => exact absurd hfuel (Nat.not_lt_zero _)
  | succ fuel ih =>
    unfold digitLoop
    rcases Nat.eq_zero_or_pos newval with rfl | hpos
    · rw [if_neg (Nat.lt_irrefl 0), Nat.digits_zero, List.map_nil, List.length_nil, blit_zero,
        Nat.add_zero]
    · have hdigit : newval % radix < 36 := by
        have := Nat.mod_lt newval (show 0 < radix by omega)
        omega
      have hdigits := Nat.digits_def' hr hpos
      rw [hdigits, List.length_cons] at hfuel
      rw [if_pos hpos, if_neg (by omega), (symbol_spec hdigit).1, Option.bind_some,
        ih (Nat.lt_of_succ_lt_succ hfuel), hdigits, List.map_cons, blit_cons, List.length_cons,
        Nat.add_assoc, Nat.add_comm 1]

/-- The text of a number holds digits. -/
theorem numeral_digits (hr : 1 < radix) (hr36 : radix ≤ 36) {c : UInt8}
    (h : c ∈ numeral radix symbol v) : digitValue c < radix ∧ c ≠ 0 ∧ c ≠ '-'.toUInt8 := by
  obtain ⟨d, hd, rfl⟩ := mem_numeral hr h
  obtain ⟨-, hvalue, hnul, hminus⟩ := symbol_spec (Nat.lt_of_lt_of_le hd hr36)
  exact ⟨hvalue.symm ▸ hd, hnul, hminus⟩

theorem putString_putString (m : Nat → UInt8) (a : Nat) {text text' : List UInt8}
    (h : text.length = text'.length) :
    putString (putString m a text) a text' = putString m a text' := by
  funext i
  unfold putString blit
  rw [List.length_append, List.length_append, h]
  split
  · rfl
  · rfl

/-- `itoa` leaves the text of the value in the buffer, and changes nothing else. -/
theorem itoa_eq (hr : 1 < radix) (hr36 : radix ≤ 36) (hv : v < word32) (m : Nat → UInt8)
    (buf : Nat) : itoa m v buf radix = some (putString m buf (numeral radix symbol v)) := by
  unfold itoa numeral
  by_cases h0 : v = 0
  · rw [if_pos h0, if_pos h0, putString_eq, ← blit_cons, List.length_nil, blit_zero]
    rfl
  · have hlen : (Nat.digits radix v).length ≤ 32 := by
      refine (Nat.digits_length_le_iff hr v).mpr (Nat.lt_of_lt_of_le hv ?_)
      exact Nat.pow_le_pow_left hr 32
    have htext : 0 ∉ (Nat.digits radix v).map symbol := by
      intro hmem
      have hnumeral : 0 ∈ numeral radix symbol v := by
        rw [numeral, if_neg h0]
        exact List.mem_reverse.mpr hmem
      exact (numeral_digits hr hr36 hnumeral).2.1 rfl
    rw [if_neg h0, if_neg h0, digitLoop_eq hr hr36 (Nat.lt_succ_of_le hlen), Option.bind_some]
    dsimp only
    rw [← putString_eq, strrev_eq (stringAt_putString m buf htext), putString_putString]
    · rw [List.length_reverse]
    · rw [List.length_map]
      exact Nat.lt_of_le_of_lt hlen (by decide)

/-! ## Texts of the conversions -/

theorem stringAt_itoa (hr : 1 < radix) (hr36 : radix ≤ 36) (v : Nat) (m : Nat → UInt8)
    (buf : Nat) :
    StringAt (putString m buf (numeral radix symbol v)) buf (numeral radix symbol v) :=
  stringAt_putString m buf fun h => (numeral_digits hr hr36 h).2.1 rfl

theorem numeral_length (hr : 1 < radix) (hv : v < word32) :
    (numeral radix symbol v).length ≤ 32 :=
  numeral_length_le hr (by decide) (Nat.lt_of_lt_of_le hv (Nat.pow_le_pow_left hr 32))

theorem parse_eq (hne : text ≠ []) (hdigits : ∀ c ∈ text, digitValue c < radix) :
    parse radix text = some (value radix digitValue text) := by
  have hall : (text.all fun c => digitValue c < radix) = true :=
    List.all_eq_true.mpr fun c hc => decide_eq_true (hdigits c hc)
  rw [parse, if_neg (by simpa using hne), if_pos hall]

theorem value_text (hr : 1 < radix) (hr36 : radix ≤ 36) :
    value radix digitValue (numeral radix symbol v) = v :=
  value_numeral hr fun _ hd => (symbol_spec (Nat.lt_of_lt_of_le hd hr36)).2.1

theorem parse_numeral (hr : 1 < radix) (hr36 : radix ≤ 36) :
    parse radix (numeral radix symbol v) = some v := by
  rw [parse_eq numeral_ne_nil fun c hc => (numeral_digits hr hr36 hc).1, value_text hr hr36]

/-- A number printed at the start of a buffer. -/
theorem itoa_puts (hr : 1 < radix) (hr36 : radix ≤ 36) (hv : v < word32) (m : Nat → UInt8) :
    ((itoa m v 0 radix).bind fun m => puts m 0) = some (numeral radix symbol v) := by
  rw [itoa_eq hr hr36 hv, Option.bind_some]
  refine puts_eq (stringAt_itoa hr hr36 v m 0) ?_
  exact Nat.lt_of_le_of_lt (numeral_length hr hv) (by decide)

theorem unsignedText_eq (hv : v < word32) (convBuf : Nat → UInt8) :
    unsignedText convBuf v = some (numeral 10 symbol v) :=
  itoa_puts (by decide) (by decide) hv convBuf

theorem hexText_eq (hv : v < word32) (convBuf : Nat → UInt8) :
    hexText convBuf false v = some (numeral 16 symbol v) :=
  itoa_puts (by decide) (by decide) hv convBuf

/-- The digits of `%#x` are at index 8, and the zeros fill what is missing to 8 digits from
the index on that is the number of digits. -/
theorem hexText_alternate (hv : v < word32) (convBuf : Nat → UInt8) :
    hexText convBuf true v =
      some (List.replicate (8 - (numeral 16 symbol v).length) (symbol 0) ++
        numeral 16 symbol v) := by
  have hlen : (numeral 16 symbol v).length ≤ 8 := numeral_length_le (by decide) (by decide) hv
  have hword : ∀ n ≤ 8, n < word32 := fun n hn => Nat.lt_of_le_of_lt hn (by decide)
  have hdigits : StringAt (putString convBuf 8 (numeral 16 symbol v)) 8 (numeral 16 symbol v) :=
    stringAt_itoa (by decide) (by decide) v convBuf 8
  unfold hexText
  rw [if_neg (by decide), itoa_eq (by decide) (by decide) hv, Option.bind_some,
    strlen_eq hdigits (hword _ hlen), Option.bind_some]
  refine puts_eq (StringAt.fill_front ?_ (by decide)) (hword _ ?_)
  · rwa [Nat.add_sub_cancel' hlen]
  · rw [List.length_append, List.length_replicate, Nat.sub_add_cancel hlen]

example : hexText (fun _ => 7) true 0xE = some ("0000000E".toList.map fun c => c.toUInt8) := by
  decide +kernel

theorem signedText_eq (hv : v < word32) (convBuf : Nat → UInt8) :
    signedText convBuf v =
      some (if int32 v < 0 then '-'.toUInt8 :: numeral 10 symbol ((word32 - v) % word32)
        else numeral 10 symbol v) := by
  unfold signedText
  split
  · have hneg : (word32 - v) % word32 < word32 := Nat.mod_lt _ (by decide)
    generalize (word32 - v) % word32 = n at hneg ⊢
    generalize hbuf : Function.update convBuf 0 '-'.toUInt8 = m
    have hdigits : StringAt (putString m 1 (numeral 10 symbol n)) (0 + 1) (numeral 10 symbol n) :=
      stringAt_itoa (by decide) (by decide) n m 1
    have hsign : window (putString m 1 (numeral 10 symbol n)) 0 1 = ['-'.toUInt8] := by
      rw [window, List.range_one, List.map_singleton, putString_outside _ (.inl (by decide)),
        ← hbuf]
      exact congrArg (fun c => [c]) (Function.update_self ..)
    have hnul : (0 : UInt8) ∉ ['-'.toUInt8] := by decide
    have hlen : (numeral 10 symbol n).length + 1 < word32 :=
      Nat.lt_of_le_of_lt (Nat.succ_le_succ (numeral_length (by decide) hneg)) (by decide)
    rw [itoa_eq (by decide) (by decide) hneg, Option.bind_some]
    exact puts_eq (StringAt.append hdigits hsign hnul) hlen
  · exact itoa_puts (by decide) (by decide) hv convBuf

/-- The text of a negative number is that of its negation, after a sign. -/
theorem parseSigned_signedText (hv : v < word32) :
    parseSigned (if int32 v < 0 then '-'.toUInt8 :: numeral 10 symbol ((word32 - v) % word32)
      else numeral 10 symbol v) = some (int32 v) := by
  rcases Nat.lt_or_ge v (2 ^ 31) with hsmall | hlarge
  · have hvalue := int32_of_lt hsmall
    have hsign : (numeral 10 symbol v).head? ≠ some '-'.toUInt8 := fun h =>
      (numeral_digits (by decide) (by decide) (List.mem_of_mem_head? h)).2.2 rfl
    rw [if_neg (by omega), parseSigned, if_neg hsign, parse_numeral (by decide) (by decide),
      Option.map_some, hvalue]
  · have hword : v < 2 ^ 32 := hv
    have hvalue := int32_of_ge hlarge hv
    have hnegated : (word32 - v) % word32 = 2 ^ 32 - v :=
      Nat.mod_eq_of_lt (Nat.sub_lt (by decide) (Nat.lt_of_lt_of_le (by decide) hlarge))
    rw [if_pos (by omega), parseSigned, List.head?_cons, if_pos rfl, List.tail_cons,
      parse_numeral (by decide) (by decide), Option.map_some, hnegated, hvalue]
    exact congrArg some (by omega)

/-! ## The text of `printf` -/

theorem ahead_ahead (t t' : List UInt8) (n n' : Nat) (r : List UInt8 × Nat) :
    ahead t n (ahead t' n' r) = ahead (t ++ t') (n + n') r :=
  Prod.ext (List.append_assoc ..).symm (Nat.add_assoc ..).symm

theorem map_ahead (t t' : List UInt8) (n n' : Nat) (r : Option (List UInt8 × Nat)) :
    (r.map (ahead t' n')).map (ahead t n) = r.map (ahead (t ++ t') (n + n')) := by
  rw [Option.map_map]
  exact congrFun (congrArg Option.map (funext fun r => ahead_ahead t t' n n' r)) r

/-- Literal text is printed as it is. -/
theorem printf_literal {pre : List UInt8} (h : '%'.toUInt8 ∉ pre) (h0 : 0 ∉ pre)
    (mem : Nat → UInt8) (stack : Nat → Nat → UInt8) (format : List UInt8) (esp : List Nat) :
    printf mem stack (pre ++ format) esp =
      (printf mem stack format esp).map (ahead pre pre.length) := by
  induction pre with
  | nil =>
    have hid : ahead [] 0 = id := funext fun r => Prod.ext rfl (Nat.zero_add _)
    rw [List.length_nil, hid, Option.map_id]
    rfl
  | cons c pre ih =>
    rw [List.mem_cons, not_or] at h h0
    show printfFrom mem stack none (c :: (pre ++ format)) esp = _
    rw [printfFrom, if_neg (Ne.symm h0.1), if_neg (Ne.symm h.1), List.length_cons, Nat.add_comm]
    exact (congrArg (Option.map (ahead [c] 1)) (ih h.2 h0.2)).trans (map_ahead _ _ _ _ _)

/-- What follows a `%`, up to the specifier. -/
theorem printf_conversion {c : UInt8} (hc : c ≠ '#'.toUInt8) {text : List UInt8} {v : Nat}
    (mem : Nat → UInt8) (stack : Nat → Nat → UInt8) (format : List UInt8) (esp : List Nat)
    (alternate : Bool)
    (hconv : conversion mem (stack format.length) alternate c (v :: esp) = some (text, esp)) :
    printfFrom mem stack (some alternate) (c :: format) (v :: esp) =
      (printf mem stack format esp).map (ahead text 1) := by
  rw [printfFrom, if_neg hc, hconv]
  rfl

theorem converted_eq {f : Nat → Option (List UInt8)} {v : Nat} {text : List UInt8}
    (h : f v = some text) (esp : List Nat) : converted f (v :: esp) = some (text, esp) := by
  rw [converted, h, Option.map_some]

/-- `printf` prints a text for a conversion with an argument, whatever is in the buffer of
the conversion, and goes on with the rest of the format and of the arguments. -/
def PrintsAs (spec : List UInt8) (v : Nat) (text : List UInt8) : Prop :=
  ∀ mem stack format esp, printf mem stack (spec ++ format) (v :: esp) =
    (printf mem stack format esp).map (ahead text spec.length)

theorem printsAs_plain {c : UInt8} {v : Nat} {text : List UInt8} (hc : c ≠ '#'.toUInt8)
    (hconv : ∀ mem convBuf esp, conversion mem convBuf false c (v :: esp) = some (text, esp)) :
    PrintsAs ['%'.toUInt8, c] v text := by
  intro mem stack format esp
  have hrest := printf_conversion hc mem stack format esp false (hconv mem _ esp)
  show (printfFrom mem stack (some false) (c :: format) (v :: esp)).map (ahead [] 1) = _
  rw [hrest, map_ahead]
  rfl

theorem printsAs_alternate {c : UInt8} {v : Nat} {text : List UInt8} (hc : c ≠ '#'.toUInt8)
    (hconv : ∀ mem convBuf esp, conversion mem convBuf true c (v :: esp) = some (text, esp)) :
    PrintsAs ['%'.toUInt8, '#'.toUInt8, c] v text := by
  intro mem stack format esp
  have hrest := printf_conversion hc mem stack format esp true (hconv mem _ esp)
  show ((printfFrom mem stack (some true) (c :: format) (v :: esp)).map (ahead [] 1)).map
    (ahead [] 1) = _
  rw [hrest, map_ahead, map_ahead]
  rfl

/-- What `itoa` is to leave at `buf` for a value, in a memory that was `m` before. -/
structure Formats (m m' : Nat → UInt8) (buf radix v : Nat) (text : List UInt8) : Prop where
  string : StringAt m' buf text
  size : text.length + 1 ≤ 33
  leading : v ≠ 0 → text.head? ≠ some '0'.toUInt8
  digits : parse radix text = some v
  frame : ∀ a, a < buf ∨ buf + 33 ≤ a → m' a = m a

/-- The texts of a word. -/
structure ExactTexts (v : Nat) : Prop where
  itoa : ∀ radix, 2 ≤ radix → radix ≤ 36 → ∀ m buf,
    ∃ m' text, itoa m v buf radix = some m' ∧ Formats m m' buf radix v text
  unsigned : ∃ text, PrintsAs ['%'.toUInt8, 'u'.toUInt8] v text ∧ parse 10 text = some v
  hex : ∃ text, PrintsAs ['%'.toUInt8, 'x'.toUInt8] v text ∧ parse 16 text = some v
  signed : ∃ text, PrintsAs ['%'.toUInt8, 'd'.toUInt8] v text ∧
    parseSigned text = some (int32 v)
  padded : ∃ text, PrintsAs ['%'.toUInt8, '#'.toUInt8, 'x'.toUInt8] v text ∧
    text.length = 8 ∧ parse 16 text = some v

theorem itoa_formats (hr : 1 < radix) (hr36 : radix ≤ 36) (hv : v < word32)
    (m : Nat → UInt8) (buf : Nat) :
    Formats m (putString m buf (numeral radix symbol v)) buf radix v (numeral radix symbol v) := by
  have hlen := numeral_length hr hv
  refine ⟨stringAt_itoa hr hr36 v m buf, Nat.succ_le_succ hlen, fun h0 hhead => ?_,
    parse_numeral hr hr36, fun a ha => putString_outside m (by omega)⟩
  have hfirst : ∃ d, 0 < d ∧ d < radix ∧ (numeral radix symbol v).head? = some (symbol d) :=
    numeral_head hr h0
  obtain ⟨d, hd, hdr, hsymbol⟩ := hfirst
  have hzero : digitValue '0'.toUInt8 = 0 := by decide
  rw [hsymbol] at hhead
  have hvalue := (symbol_spec (Nat.lt_of_lt_of_le hdr hr36)).2.1
  rw [Option.some.inj hhead, hzero] at hvalue
  exact Nat.ne_of_lt hd hvalue

theorem parse_padded {k : Nat} :
    parse 16 (List.replicate k (symbol 0) ++ numeral 16 symbol v) = some v := by
  have hzero : digitValue (symbol 0) = 0 := by decide
  have hdigits : ∀ c ∈ List.replicate k (symbol 0) ++ numeral 16 symbol v, digitValue c < 16 := by
    intro c hc
    rcases List.mem_append.mp hc with hpad | hdigit
    · rw [List.eq_of_mem_replicate hpad, hzero]
      decide
    · exact (numeral_digits (by decide) (by decide) hdigit).1
  rw [parse_eq (List.append_ne_nil_of_right_ne_nil _ numeral_ne_nil) hdigits, value_zeros hzero,
    value_text (by decide) (by decide)]

/-- **Numbers as text.** For every word `itoa` leaves its digits to each radix from 2 to 36,
with a NUL, in at most 33 bytes, and `printf` prints texts that read back as the unsigned or
the signed value, with 8 digits for `%#x`. -/
theorem numbers_exact {v : Nat} (hv : v < word32) : ExactTexts v where
  itoa radix hr hr36 m buf :=
    ⟨_, _, itoa_eq hr hr36 hv m buf, itoa_formats hr hr36 hv m buf⟩
  unsigned := by
    refine ⟨_, printsAs_plain (by decide) fun mem convBuf esp => ?_,
      parse_numeral (by decide) (by decide)⟩
    exact converted_eq (unsignedText_eq hv convBuf) esp
  hex := by
    refine ⟨_, printsAs_plain (by decide) fun mem convBuf esp => ?_,
      parse_numeral (by decide) (by decide)⟩
    exact converted_eq (hexText_eq hv convBuf) esp
  signed := by
    refine ⟨_, printsAs_plain (by decide) fun mem convBuf esp => ?_, parseSigned_signedText hv⟩
    exact converted_eq (signedText_eq hv convBuf) esp
  padded := by
    have hlen : (numeral 16 symbol v).length ≤ 8 := numeral_length_le (by decide) (by decide) hv
    refine ⟨List.replicate (8 - (numeral 16 symbol v).length) (symbol 0) ++ numeral 16 symbol v,
      printsAs_alternate (by decide) fun mem convBuf esp => ?_, ?_, parse_padded⟩
    · exact converted_eq (hexText_alternate hv convBuf) esp
    · rw [List.length_append, List.length_replicate, Nat.sub_add_cancel hlen]

/-- The most negative number. -/
theorem numbers_exact_least : ExactTexts (2 ^ 31) := numbers_exact (by decide)

end OS391.Lib
