import Mathlib.Algebra.GroupWithZero.Nat
import Mathlib.Data.List.GetD
import Mathlib.Logic.Function.Basic
import Mathlib.Tactic.Common

/-! Byte memories as functions of the address, with the block operations of a
C library, and NUL-terminated strings. -/

namespace Library.Bytes

variable {β : Type}

/-- `n` cells from address `a` set to `v`. -/
def fill (m : Nat → β) (a n : Nat) (v : β) : Nat → β :=
  fun i => if a ≤ i ∧ i < a + n then v else m i

/-- `n` cells from address `a` overwritten by the first `n` cells of `src`. -/
def blit (m : Nat → β) (a : Nat) (src : Nat → β) (n : Nat) : Nat → β :=
  fun i => if a ≤ i ∧ i < a + n then src (i - a) else m i

/-- The `n` cells from address `a`. -/
def window (m : Nat → β) (a n : Nat) : List β := (List.range n).map fun i => m (a + i)

@[simp] theorem window_length (m : Nat → β) (a n : Nat) : (window m a n).length = n := by
  simp [window]

theorem window_getElem (m : Nat → β) (a n i : Nat) (h : i < (window m a n).length) :
    (window m a n)[i] = m (a + i) := by
  simp [window]

theorem window_congr {m m' : Nat → β} {a a' n : Nat}
    (h : ∀ i, i < n → m (a + i) = m' (a' + i)) : window m a n = window m' a' n := by
  unfold window
  exact List.map_congr_left fun i hi => h i (List.mem_range.mp hi)

theorem window_add (m : Nat → β) (a n k : Nat) :
    window m a (n + k) = window m a n ++ window m (a + n) k := by
  simp [window, List.range_add, Nat.add_assoc]

theorem mem_window {m : Nat → β} {a n : Nat} {b : β} :
    b ∈ window m a n ↔ ∃ i, i < n ∧ m (a + i) = b := by
  simp [window]

theorem window_take (m : Nat → β) (a n k : Nat) :
    (window m a n).take k = window m a (min k n) := by
  simp [window, ← List.map_take, List.take_range]

theorem window_drop (m : Nat → β) (a n k : Nat) :
    (window m a n).drop k = window m (a + k) (n - k) := by
  refine List.ext_getElem (by simp) fun i hi hi' => ?_
  rw [List.getElem_drop, window_getElem, window_getElem, Nat.add_assoc]

theorem take_eq_window {l : List β} {n : Nat} (h : n ≤ l.length) (d : Nat → β) :
    l.take n = window (fun i => l.getD i (d i)) 0 n := by
  refine List.ext_getElem (by simp [h]) fun i hi hi' => ?_
  rw [window_getElem, List.getElem_take, Nat.zero_add, List.getD_eq_getElem]

/-- A list copied to a memory is there. -/
theorem window_blit (m : Nat → β) (a : Nat) (l : List β) (d : β) :
    window (blit m a (fun i => l.getD i d) l.length) a l.length = l := by
  have hall := take_eq_window (Nat.le_refl l.length) fun _ => d
  rw [List.take_length] at hall
  conv => rhs; rw [hall]
  refine window_congr fun i hi => ?_
  rw [blit, if_pos (by omega), Nat.add_sub_cancel_left, Nat.zero_add]

/-- A list with its first cells set is the memory with these cells set. -/
theorem window_fill {l : List β} {n : Nat} (h : n ≤ l.length) (d v : β) :
    window (fill (fun i => l.getD i d) 0 n v) 0 l.length = List.replicate n v ++ l.drop n := by
  refine List.ext_getElem (by simp; omega) fun i hi hi' => ?_
  rw [window_length] at hi
  rw [window_getElem, Nat.zero_add, fill]
  by_cases hin : i < n
  · rw [if_pos ⟨Nat.zero_le i, by omega⟩, List.getElem_append_left (by simpa using hin),
      List.getElem_replicate]
  · rw [if_neg (by omega), List.getElem_append_right (by simpa using hin), List.getElem_drop,
      List.getD_eq_getElem _ _ hi]
    congr 1
    simp
    omega

/-- Cells among those that have been set. -/
theorem window_fill_within (m : Nat → β) (v : β) {a n b k : Nat} (hlo : a ≤ b)
    (hhi : b + k ≤ a + n) : window (fill m a n v) b k = List.replicate k v := by
  refine List.ext_getElem (by simp) fun i hi hi' => ?_
  rw [window_length] at hi
  rw [window_getElem, List.getElem_replicate, fill, if_pos (by omega)]

/-- Cells of `m` read behind a prefix already at hand. -/
theorem getD_append_window (l : List β) (m : Nat → β) (a n i : Nat) :
    (l ++ window m (a + l.length) n).getD i (m (a + i)) = l.getD i (m (a + i)) := by
  by_cases hi : i < l.length
  · simp [List.getD, List.getElem?_append_left hi]
  · by_cases hn : i < l.length + n
    · rw [List.getD_eq_getElem _ _ (by simpa using hn), List.getElem_append_right (by omega),
        window_getElem, List.getD_eq_default _ _ (by omega)]
      congr 1
      omega
    · rw [List.getD_eq_default _ _ (by simp; omega), List.getD_eq_default _ _ (by omega)]

/-- The string in a memory area: its bytes before the first NUL. -/
def cString (l : List UInt8) : List UInt8 := l.takeWhile (· ≠ 0)

@[simp] theorem cString_nil : cString [] = [] := rfl

@[simp] theorem cString_nul (l : List UInt8) : cString (0 :: l) = [] := rfl

@[simp] theorem cString_cons {b : UInt8} (h : b ≠ 0) (l : List UInt8) :
    cString (b :: l) = b :: cString l := List.takeWhile_cons_of_pos (decide_eq_true h)

/-- Index of the first NUL of an area, `none` when the scan leaves the area. -/
def strlen (l : List UInt8) : Option Nat := l.findIdx? (· = 0)

theorem strlen_of_mem {l : List UInt8} (h : 0 ∈ l) : strlen l = some (cString l).length := by
  induction l with
  | nil => cases h
  | cons b l ih =>
    by_cases hb : b = 0
    · simp [strlen, cString, List.findIdx?_cons, hb]
    · have hl : 0 ∈ l := (List.mem_cons.mp h).resolve_left (Ne.symm hb)
      have ih := ih hl
      simp only [strlen, cString] at ih
      simp [strlen, cString, List.findIdx?_cons, hb, ih]

/-- The string is what is before the first NUL. -/
theorem strlen_take {l : List UInt8} {n : Nat} (h : strlen l = some n) :
    l.take n = cString l := by
  induction l generalizing n with
  | nil => cases h
  | cons b l ih =>
    unfold strlen at h
    rw [List.findIdx?_cons] at h
    by_cases hb : b = 0
    · subst hb
      cases h
      rfl
    · rw [if_neg (by simpa using hb)] at h
      obtain ⟨k, hk, rfl⟩ := Option.map_eq_some_iff.mp h
      rw [List.take_succ_cons, ih hk, cString_cons hb]

theorem cString_length_lt {l : List UInt8} (h : 0 ∈ l) : (cString l).length < l.length := by
  induction l with
  | nil => cases h
  | cons b l ih =>
    by_cases hb : b = 0
    · simp [hb]
    · have ih := ih ((List.mem_cons.mp h).resolve_left (Ne.symm hb))
      simpa [hb] using ih

/-- The string ends below `n` when there is a NUL below `n`. -/
theorem cString_length_lt_iff {l : List UInt8} {n : Nat} (h : n ≤ l.length) :
    (cString l).length < n ↔ 0 ∈ l.take n := by
  induction l generalizing n with
  | nil =>
    cases Nat.le_zero.mp h
    simp
  | cons b l ih =>
    cases n with
    | zero => simp
    | succ n =>
      rw [List.take_succ_cons, List.mem_cons]
      by_cases hb : b = 0
      · rw [hb, cString_nul]
        exact iff_of_true (Nat.succ_pos n) (.inl rfl)
      · rw [cString_cons hb, List.length_cons, Nat.succ_lt_succ_iff, or_iff_right (Ne.symm hb)]
        exact ih (Nat.le_of_succ_le_succ h)

theorem nul_notMem_cString (l : List UInt8) : 0 ∉ cString l := fun h => by
  simpa using List.all_eq_true.mp List.all_takeWhile 0 h

/-- A string that does not end in its first area goes on in the next. -/
theorem cString_append {l : List UInt8} (h : 0 ∉ l) (r : List UInt8) :
    cString (l ++ r) = l ++ cString r :=
  List.takeWhile_append_of_pos fun _ hb => decide_eq_true fun h0 => h (h0 ▸ hb)

theorem cString_append_of_mem {l : List UInt8} (h : 0 ∈ l) (r : List UInt8) :
    cString (l ++ r) = cString l := by
  have hall : ¬ ∀ b ∈ l, decide (b ≠ 0) = true := fun hl => by simpa using hl 0 h
  unfold cString
  rw [List.takeWhile_append, if_neg]
  intro hlen
  exact hall fun b hb => List.all_eq_true.mp List.all_takeWhile b
    ((List.takeWhile_prefix _).eq_of_length hlen ▸ hb)

/-- A line in an area that holds zeros behind it is the string of the area exactly when
there is no NUL in the line itself. -/
theorem cString_line_iff {m : Nat → UInt8} {a n k : Nat} (hk : 0 < k)
    (hrest : ∀ i, n ≤ i → i < n + k → m (a + i) = 0) :
    cString (window m a (n + k)) = window m a n ↔ 0 ∉ window m a n := by
  rw [window_add]
  constructor
  · intro h hmem
    have hlt := cString_length_lt hmem
    rw [cString_append_of_mem hmem] at h
    rw [h] at hlt
    exact Nat.lt_irrefl _ hlt
  · intro hmem
    obtain ⟨j, rfl⟩ : ∃ j, k = 1 + j := ⟨k - 1, by omega⟩
    have hzero : m (a + n) = 0 := hrest n (Nat.le_refl n) (by omega)
    have hone : window m (a + n) 1 = [0] := by simp [window, hzero]
    rw [cString_append hmem, window_add, hone]
    simp

theorem strlen_eq_none {l : List UInt8} (h : 0 ∉ l) : strlen l = none :=
  List.findIdx?_eq_none_iff.mpr fun _ hb => decide_eq_false fun h0 => h (h0 ▸ hb)

theorem strlen_lt {l : List UInt8} {n : Nat} (h : strlen l = some n) : n < l.length := by
  obtain ⟨hlt, -⟩ := List.findIdx?_eq_some_iff_getElem.mp h
  exact hlt

theorem strlen_append_of_mem {l r : List UInt8} (h : 0 ∈ l) :
    strlen (l ++ r) = strlen l := by
  unfold strlen
  rw [List.findIdx?_append]
  cases hl : List.findIdx? (fun x => decide (x = 0)) l with
  | some i => rfl
  | none => exact absurd (List.findIdx?_eq_none_iff.mp hl 0 h) (by simp)

/-! ## Strings in a memory -/

/-- A text with a NUL behind it is at address `a`. -/
structure StringAt (m : Nat → UInt8) (a : Nat) (text : List UInt8) : Prop where
  bytes : window m a (text.length + 1) = text ++ [0]
  noNul : 0 ∉ text

/-- A text and a NUL written from address `a` on. -/
def putString (m : Nat → UInt8) (a : Nat) (text : List UInt8) : Nat → UInt8 :=
  blit m a (fun i => (text ++ [0]).getD i 0) (text ++ [0]).length

theorem blit_zero (m : Nat → β) (a : Nat) (src : Nat → β) : blit m a src 0 = m := by
  funext i
  exact if_neg (by omega)

/-- A block and the block behind it, at an address that matters when there is one. -/
theorem blit_append (m : Nat → β) {a a' : Nat} (src : Nat → β) {n k : Nat}
    (h : k ≠ 0 → a' = a + n) :
    blit (blit m a src n) a' (fun i => src (n + i)) k = blit m a src (n + k) := by
  rcases Nat.eq_zero_or_pos k with rfl | hk
  · exact blit_zero _ _ _
  rw [h (Nat.ne_of_gt hk)]
  funext i
  unfold blit
  by_cases hi : a + n ≤ i ∧ i < a + n + k
  · rw [if_pos hi, if_pos (by omega)]
    exact congrArg src (by omega)
  · rw [if_neg hi]
    exact if_congr (by omega) rfl rfl

theorem blit_snoc (m : Nat → β) (a : Nat) (src : Nat → β) (n : Nat) :
    Function.update (blit m a src n) (a + n) (src n) = blit m a src (n + 1) := by
  funext i
  rw [Function.update_apply]
  unfold blit
  by_cases hi : i = a + n
  · subst hi
    rw [if_pos rfl, if_pos (by omega), Nat.add_sub_cancel_left]
  · rw [if_neg hi]
    exact if_congr (by omega) rfl rfl

theorem blit_congr (m : Nat → β) (a : Nat) {src src' : Nat → β} {n : Nat}
    (h : ∀ i, i < n → src i = src' i) : blit m a src n = blit m a src' n := by
  funext i
  unfold blit
  by_cases hi : a ≤ i ∧ i < a + n
  · rw [if_pos hi, if_pos hi, h _ (by omega)]
  · rw [if_neg hi, if_neg hi]

/-- A block moved upwards in two parts: what the first part writes is not read by the second. -/
theorem blit_move {m m' : Nat → β} {a a' s s' n k : Nat} (h : a ≤ s ∨ s + (n + k) ≤ a)
    (hm' : m' = blit m a (fun i => m (s + i)) n) (ha : k ≠ 0 → a' = a + n)
    (hs : k ≠ 0 → s' = s + n) :
    blit m' a' (fun i => m' (s' + i)) k = blit m a (fun i => m (s + i)) (n + k) := by
  rw [hm', ← blit_append m _ ha]
  refine blit_congr _ _ fun i hi => ?_
  rw [hs (by omega), blit, if_neg (by omega), Nat.add_assoc]

/-- A block moved from its last cell down. -/
theorem blit_move_down {m m' : Nat → β} {a s k : Nat} (h : s ≤ a ∨ a + k < s)
    (hm' : m' = Function.update m (a + k) (m (s + k))) :
    blit m' a (fun i => m' (s + i)) k = blit m a (fun i => m (s + i)) (k + 1) := by
  subst hm'
  funext i
  unfold blit
  rcases Nat.lt_trichotomy i (a + k) with hlt | rfl | hgt
  · by_cases hi : a ≤ i
    · rw [if_pos ⟨hi, hlt⟩, if_pos (by omega)]
      exact Function.update_of_ne (by omega) ..
    · rw [if_neg (by omega), if_neg (by omega), Function.update_of_ne (Nat.ne_of_lt hlt)]
  · rw [if_neg (by omega), if_pos (by omega), Function.update_self, Nat.add_sub_cancel_left]
  · rw [if_neg (by omega), if_neg (by omega), Function.update_of_ne (Nat.ne_of_gt hgt)]

/-- A byte and what follows it. -/
theorem blit_cons (m : Nat → β) (a : Nat) (c d : β) (l : List β) :
    blit (Function.update m a c) (a + 1) (fun i => l.getD i d) l.length =
      blit m a (fun i => (c :: l).getD i d) (c :: l).length := by
  funext i
  unfold blit
  rw [List.length_cons]
  rcases Nat.lt_trichotomy i a with hlt | rfl | hgt
  · rw [if_neg (by omega), if_neg (by omega), Function.update_of_ne (Nat.ne_of_lt hlt)]
  · rw [if_neg (by omega), if_pos (by omega), Function.update_self, Nat.sub_self]
    rfl
  · obtain ⟨k, rfl⟩ := Nat.exists_eq_add_of_lt hgt
    rw [Function.update_of_ne (Nat.ne_of_gt hgt)]
    refine if_congr (by omega) ?_ rfl
    rw [show a + k + 1 - (a + 1) = k by omega, show a + k + 1 - a = k + 1 by omega]
    exact List.getD_cons_succ.symm

theorem putString_eq (m : Nat → UInt8) (a : Nat) (text : List UInt8) :
    putString m a text =
      Function.update (blit m a (fun i => text.getD i 0) text.length) (a + text.length) 0 := by
  induction text generalizing m a with
  | nil =>
    rw [putString, List.nil_append, ← blit_cons, List.length_nil, blit_zero, blit_zero,
      Nat.add_zero]
  | cons c text ih =>
    rw [putString, List.cons_append, ← blit_cons, ← blit_cons, List.length_cons,
      Nat.add_comm text.length 1, ← Nat.add_assoc]
    exact ih _ _

theorem stringAt_putString (m : Nat → UInt8) (a : Nat) {text : List UInt8} (h : 0 ∉ text) :
    StringAt (putString m a text) a text := by
  have hlen : (text ++ [0]).length = text.length + 1 := List.length_append
  refine ⟨?_, h⟩
  rw [← hlen]
  exact window_blit m a (text ++ [0]) 0

theorem putString_outside (m : Nat → UInt8) {a i : Nat} {text : List UInt8}
    (h : i < a ∨ a + text.length < i) : putString m a text i = m i := by
  unfold putString blit
  rw [if_neg]
  rw [List.length_append, List.length_singleton]
  omega

theorem StringAt.byte {m : Nat → UInt8} {a i : Nat} {text : List UInt8} (h : StringAt m a text)
    (hi : i < text.length) : m (a + i) = text[i] := by
  have hbytes := congrArg (fun l => l[i]?) h.bytes
  rw [List.getElem?_append_left hi, List.getElem?_eq_getElem hi,
    List.getElem?_eq_getElem (by rw [window_length]; omega), window_getElem] at hbytes
  exact Option.some.inj hbytes

theorem StringAt.nul {m : Nat → UInt8} {a : Nat} {text : List UInt8} (h : StringAt m a text) :
    m (a + text.length) = 0 := by
  have hbytes := congrArg (fun l => l[text.length]?) h.bytes
  rw [List.getElem?_concat_length,
    List.getElem?_eq_getElem (by rw [window_length]; omega), window_getElem] at hbytes
  exact Option.some.inj hbytes

theorem StringAt.byte_ne {m : Nat → UInt8} {a i : Nat} {text : List UInt8}
    (h : StringAt m a text) (hi : i < text.length) : m (a + i) ≠ 0 := by
  rw [h.byte hi]
  exact fun h0 => h.noNul (h0 ▸ List.getElem_mem hi)

/-- Bytes in front of a string are a part of it. -/
theorem StringAt.append {m : Nat → UInt8} {a : Nat} {pre text : List UInt8}
    (h : StringAt m (a + pre.length) text) (hpre : window m a pre.length = pre)
    (h0 : 0 ∉ pre) : StringAt m a (pre ++ text) := by
  refine ⟨?_, fun hmem => (List.mem_append.mp hmem).elim h0 h.noNul⟩
  rw [List.length_append, Nat.add_assoc, window_add, hpre, h.bytes, List.append_assoc]

theorem StringAt.congr {m m' : Nat → UInt8} {a : Nat} {text : List UInt8} (h : StringAt m a text)
    (hm : ∀ i, i < text.length + 1 → m' (a + i) = m (a + i)) : StringAt m' a text :=
  ⟨(window_congr hm).trans h.bytes, h.noNul⟩

/-- Cells set in front of a string. -/
theorem StringAt.fill_front {m : Nat → UInt8} {a n : Nat} {text : List UInt8} {c : UInt8}
    (h : StringAt m (a + n) text) (hc : c ≠ 0) :
    StringAt (fill m a n c) a (List.replicate n c ++ text) := by
  have hbehind : StringAt (fill m a n c) (a + n) text :=
    h.congr fun i _ => if_neg (by omega)
  have hfront : window (fill m a n c) a n = List.replicate n c :=
    window_fill_within m c (Nat.le_refl a) (Nat.le_refl _)
  refine StringAt.append ?_ ?_ fun hmem => hc (List.eq_of_mem_replicate hmem).symm
  · rwa [List.length_replicate]
  · rwa [List.length_replicate]

end Library.Bytes
