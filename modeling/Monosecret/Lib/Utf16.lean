/-
  Monosecret.Lib.Utf16 — text as UTF-16 code units and as their bytes, little end first.

  A character of the basic plane is one unit; any other is a high and a low surrogate.
  Decoding accepts exactly the encodings of texts (`decode_utf16_iff`), and so does reading
  bytes (`decode_utf16le_iff`). No text begins with a low surrogate (`encode_utf16_head`).
-/

import Mathlib.Data.Nat.Notation
import Mathlib.Tactic.SplitIfs

namespace Lib

/-! ## Code units -/

def is_surrogate (u : UInt16) : Bool := 0xD800 ≤ u.toNat && u.toNat ≤ 0xDFFF

def is_low_surrogate (u : UInt16) : Bool := 0xDC00 ≤ u.toNat && u.toNat ≤ 0xDFFF

def encode_char (c : Char) : List UInt16 :=
  if c.toNat < 0x10000 then [UInt16.ofNat c.toNat]
  else [UInt16.ofNat (0xD800 + (c.toNat - 0x10000) / 0x400), UInt16.ofNat (0xDC00 + (c.toNat - 0x10000) % 0x400)]

def encode_utf16 (text : List Char) : List UInt16 := text.flatMap encode_char

def surrogate_pair (high low : UInt16) : Char :=
  Char.ofNat (0x10000 + (high.toNat - 0xD800) * 0x400 + (low.toNat - 0xDC00))

/-- The text, unless a surrogate is not part of a pair. -/
def decode_utf16 : List UInt16 → Option (List Char)
  | [] => some []
  | [u] => if is_surrogate u then none else some [Char.ofNat u.toNat]
  | u :: low :: rest =>
    if is_surrogate u then
      if is_low_surrogate u || !is_low_surrogate low then none
      else (decode_utf16 rest).map (surrogate_pair u low :: ·)
    else (decode_utf16 (low :: rest)).map (Char.ofNat u.toNat :: ·)

theorem toNat_ofNat_char {n : Nat} (h : n < 0xD800 ∨ (0xDFFF < n ∧ n < 0x110000)) : (Char.ofNat n).toNat = n := by
  have hv : n.isValidChar := h
  rw [Char.ofNat, dif_pos hv]
  rfl

theorem char_range (c : Char) : c.toNat < 0xD800 ∨ (0xDFFF < c.toNat ∧ c.toNat < 0x110000) := c.valid

theorem toNat_unit {n : Nat} (h : n < 0x10000) : (UInt16.ofNat n).toNat = n := by
  rw [UInt16.toNat_ofNat']
  exact Nat.mod_eq_of_lt h

theorem decode_encode_char (c : Char) (un : List UInt16) :
    decode_utf16 (encode_char c ++ un) = (decode_utf16 un).map (c :: ·) := by
  have hc := char_range c
  unfold encode_char
  split_ifs with hb
  · have hu := toNat_unit hb
    have hn : is_surrogate (UInt16.ofNat c.toNat) = false := by
      unfold is_surrogate
      rw [hu]
      simp
      omega
    cases un with
    | nil | cons low r => simp [decode_utf16, hn, hu]
  · have hg := toNat_unit (n := 0xD800 + (c.toNat - 0x10000) / 0x400) (by omega)
    have hl := toNat_unit (n := 0xDC00 + (c.toNat - 0x10000) % 0x400) (by omega)
    have hs : is_surrogate (UInt16.ofNat (0xD800 + (c.toNat - 0x10000) / 0x400)) := by
      unfold is_surrogate
      rw [hg]
      simp
      omega
    have hnot_low : is_low_surrogate (UInt16.ofNat (0xD800 + (c.toNat - 0x10000) / 0x400)) = false := by
      unfold is_low_surrogate
      rw [hg]
      simp
      omega
    have his_low : is_low_surrogate (UInt16.ofNat (0xDC00 + (c.toNat - 0x10000) % 0x400)) := by
      unfold is_low_surrogate
      rw [hl]
      simp
      omega
    have hp : surrogate_pair (UInt16.ofNat (0xD800 + (c.toNat - 0x10000) / 0x400))
        (UInt16.ofNat (0xDC00 + (c.toNat - 0x10000) % 0x400)) = c := by
      have hm : 0x10000 + (0xD800 + (c.toNat - 0x10000) / 0x400 - 0xD800) * 0x400 +
          (0xDC00 + (c.toNat - 0x10000) % 0x400 - 0xDC00) = c.toNat := by omega
      rw [surrogate_pair, hg, hl, hm, Char.ofNat_toNat]
    simp only [List.cons_append, List.nil_append, decode_utf16, hs, hnot_low, his_low, hp]
    simp

theorem decode_encode_utf16 (text : List Char) : decode_utf16 (encode_utf16 text) = some text := by
  induction text with
  | nil => rfl
  | cons c text ih =>
    rw [encode_utf16, List.flatMap_cons, decode_encode_char]
    rw [encode_utf16] at ih
    rw [ih]
    rfl

theorem encode_unit {u : UInt16} (h : is_surrogate u = false) : encode_char (Char.ofNat u.toNat) = [u] := by
  have hu := u.toNat_lt
  have hn : u.toNat < 0xD800 ∨ (0xDFFF < u.toNat ∧ u.toNat < 0x110000) := by
    simp [is_surrogate] at h
    omega
  rw [encode_char, toNat_ofNat_char hn, if_pos (by omega), UInt16.ofNat_toNat]

theorem encode_pair {high l : UInt16} (hg : is_surrogate high) (ht : is_low_surrogate high = false)
    (hl : is_low_surrogate l) : encode_char (surrogate_pair high l) = [high, l] := by
  simp only [is_surrogate, is_low_surrogate, Bool.and_eq_true, Bool.and_eq_false_iff, decide_eq_true_eq,
    decide_eq_false_iff_not] at hg ht hl
  have hn : (surrogate_pair high l).toNat = 0x10000 + (high.toNat - 0xD800) * 0x400 + (l.toNat - 0xDC00) :=
    toNat_ofNat_char (by omega)
  have hf : 0xD800 + ((surrogate_pair high l).toNat - 0x10000) / 0x400 = high.toNat := by omega
  have hs : 0xDC00 + ((surrogate_pair high l).toNat - 0x10000) % 0x400 = l.toNat := by omega
  rw [encode_char, if_neg (by omega)]
  simp only [hf, hs, UInt16.ofNat_toNat]

variable {un : List UInt16} {text : List Char}

theorem encode_of_decode (h : decode_utf16 un = some text) : un = encode_utf16 text := by
  fun_induction decode_utf16 un generalizing text with
  | case1 => cases h; rfl
  | case2 => cases h
  | case3 u hu =>
    cases h
    rw [encode_utf16, List.flatMap_singleton, encode_unit (by simpa using hu)]
  | case4 => cases h
  | case5 u l r hu hl ih =>
    obtain ⟨m, hm, rfl⟩ := Option.map_eq_some_iff.mp h
    rw [Bool.or_eq_true, not_or, Bool.not_eq_true, Bool.not_eq_true, Bool.not_eq_false'] at hl
    rw [encode_utf16, List.flatMap_cons, encode_pair hu hl.1 hl.2, ← encode_utf16, ← ih hm]
    rfl
  | case6 u l r hu ih =>
    obtain ⟨m, hm, rfl⟩ := Option.map_eq_some_iff.mp h
    rw [encode_utf16, List.flatMap_cons, encode_unit (by simpa using hu), ← encode_utf16, ← ih hm]
    rfl

theorem decode_utf16_iff : decode_utf16 un = some text ↔ un = encode_utf16 text :=
  ⟨encode_of_decode, fun h => h ▸ decode_encode_utf16 text⟩

theorem encode_utf16_head {u : UInt16} {r : List UInt16} (h : encode_utf16 text = u :: r) :
    is_low_surrogate u = false := by
  cases hu : is_low_surrogate u with
  | false => rfl
  | true =>
    have hd := decode_encode_utf16 text
    have hs : is_surrogate u := by
      simp only [is_surrogate, is_low_surrogate, Bool.and_eq_true, decide_eq_true_eq] at hu ⊢
      omega
    rw [h] at hd
    cases r <;> simp [decode_utf16, hu, hs] at hd

/-! ## Bytes -/

def to_le_bytes (u : UInt16) : List UInt8 := [UInt8.ofNat (u.toNat % 256), UInt8.ofNat (u.toNat / 256)]

def from_le_bytes (first second : UInt8) : UInt16 := UInt16.ofNat (first.toNat + 256 * second.toNat)

/-- The units of whole pairs of bytes. -/
def units_of_bytes : List UInt8 → Option (List UInt16)
  | [] => some []
  | [_] => none
  | first :: second :: rest => (units_of_bytes rest).map (from_le_bytes first second :: ·)

theorem toNat_byte {n : Nat} (h : n < 256) : (UInt8.ofNat n).toNat = n := by
  rw [UInt8.toNat_ofNat']
  exact Nat.mod_eq_of_lt h

theorem from_to_le_bytes (u : UInt16) (r : List UInt8) :
    units_of_bytes (to_le_bytes u ++ r) = (units_of_bytes r).map (u :: ·) := by
  have hu := u.toNat_lt
  have hn : from_le_bytes (UInt8.ofNat (u.toNat % 256)) (UInt8.ofNat (u.toNat / 256)) = u := by
    rw [from_le_bytes, toNat_byte (by omega), toNat_byte (by omega), Nat.mod_add_div, UInt16.ofNat_toNat]
  simp only [to_le_bytes, List.cons_append, List.nil_append, units_of_bytes, hn]

theorem to_from_le_bytes (first s : UInt8) : to_le_bytes (from_le_bytes first s) = [first, s] := by
  have hf := first.toNat_lt
  have hs := s.toNat_lt
  have hu : (from_le_bytes first s).toNat = first.toNat + 256 * s.toNat := toNat_unit (by omega)
  rw [to_le_bytes, hu, show (first.toNat + 256 * s.toNat) % 256 = first.toNat by omega,
    show (first.toNat + 256 * s.toNat) / 256 = s.toNat by omega, UInt8.ofNat_toNat, UInt8.ofNat_toNat]

theorem units_of_bytes_iff {b : List UInt8} :
    units_of_bytes b = some un ↔ b = un.flatMap to_le_bytes := by
  constructor
  · intro h
    fun_induction units_of_bytes b generalizing un with
    | case1 => cases h; rfl
    | case2 => cases h
    | case3 first s r ih =>
      obtain ⟨m, hm, rfl⟩ := Option.map_eq_some_iff.mp h
      rw [List.flatMap_cons, to_from_le_bytes, ← ih hm]
      rfl
  · rintro rfl
    induction un with
    | nil => rfl
    | cons u un ih => rw [List.flatMap_cons, from_to_le_bytes, ih]; rfl

def encode_utf16le (text : List Char) : List UInt8 := (encode_utf16 text).flatMap to_le_bytes

def decode_utf16le (bytes : List UInt8) : Option (List Char) := (units_of_bytes bytes).bind decode_utf16

theorem decode_utf16le_iff {b : List UInt8} : decode_utf16le b = some text ↔ b = encode_utf16le text := by
  unfold decode_utf16le encode_utf16le
  rw [Option.bind_eq_some_iff]
  constructor
  · rintro ⟨un, hu, ht⟩
    rw [units_of_bytes_iff.mp hu, decode_utf16_iff.mp ht]
  · exact fun h => ⟨encode_utf16 text, units_of_bytes_iff.mpr h, decode_encode_utf16 text⟩

end Lib
