/-
  Monosecret.Lib.Rfc4648 — bytes as text over an alphabet (base64 and base16).

  Base64 turns three bytes into four symbols; a rest of one or two bytes becomes two or three
  symbols, padded to four or not. Decoding goes block by block, refuses trailing bits that
  are set, and with padding accepts padded blocks only. What was encoded decodes to itself
  (`Base64.decode_encode`, `Base16.decode_encode`); a text without padding that the padded
  decoding accepts is accepted without padding, with the same bytes (`Base64.decode_unpadded`).
-/

import Mathlib.Data.List.Nodup

namespace Lib

open Option (bind_eq_bind bind_some)

/-- Digits as symbols. Reading may accept more symbols than are written. -/
structure Alphabet (n : Nat) where
  symbol : Fin n → UInt8
  value : UInt8 → Option (Fin n)
  value_symbol : ∀ d, value (symbol d) = some d

namespace Alphabet

variable {n : Nat}

/-- The symbols of a list, each its position. -/
def of_list (symbols : List UInt8) (hlength : symbols.length = n) (hnodup : symbols.Nodup) : Alphabet n where
  symbol d := symbols.get (d.cast hlength.symm)
  value c := if h : symbols.idxOf c < n then some ⟨symbols.idxOf c, h⟩ else none
  value_symbol d := by
    have hidx : symbols.idxOf (symbols.get (d.cast hlength.symm)) = d := by
      rw [List.get_eq_getElem, hnodup.idxOf_getElem]
      rfl
    have hlt : symbols.idxOf (symbols.get (d.cast hlength.symm)) < n := hidx ▸ d.isLt
    rw [dif_pos hlt]
    exact congrArg some (Fin.ext hidx)

def IsSymbol (alphabet : Alphabet n) (c : UInt8) : Prop := ∃ d, alphabet.symbol d = c

end Alphabet

/-! ## Base64 -/

namespace Base64

variable (alphabet : Alphabet 64) (pad : UInt8)

def digit (n : Nat) : Fin 64 := ⟨n % 64, Nat.mod_lt _ (by decide)⟩

def padding (padded : Bool) (n : Nat) : List UInt8 := if padded then List.replicate n pad else []

/-- Three bytes as one number. -/
def joined (a b c : UInt8) : Nat := a.toNat * 65536 + b.toNat * 256 + c.toNat

/-- The symbol of the digit at `unit`, of the four that 24 bits have. -/
def symbol_at (unit n : Nat) : UInt8 := alphabet.symbol (digit (n / unit))

def encode (padded : Bool) : List UInt8 → List UInt8
  | a :: b :: c :: rest =>
    symbol_at alphabet 262144 (joined a b c) :: symbol_at alphabet 4096 (joined a b c) ::
      symbol_at alphabet 64 (joined a b c) :: symbol_at alphabet 1 (joined a b c) :: encode padded rest
  | [a, b] =>
    [symbol_at alphabet 262144 (joined a b 0), symbol_at alphabet 4096 (joined a b 0), symbol_at alphabet 64 (joined a b 0)] ++
      padding pad padded 1
  | [a] => [symbol_at alphabet 262144 (joined a 0 0), symbol_at alphabet 4096 (joined a 0 0)] ++ padding pad padded 2
  | [] => []

def bits (p q r s : Fin 64) : Nat := p * 262144 + q * 4096 + r * 64 + s

def read_four (w x y z : UInt8) : Option (List UInt8) := do
  let n := bits (← alphabet.value w) (← alphabet.value x) (← alphabet.value y) (← alphabet.value z)
  some [UInt8.ofNat (n / 65536), UInt8.ofNat (n / 256), UInt8.ofNat n]

/-- The last two bits carry nothing. -/
def read_three (w x y : UInt8) : Option (List UInt8) := do
  let n := bits (← alphabet.value w) (← alphabet.value x) (← alphabet.value y) 0
  if n % 256 = 0 then some [UInt8.ofNat (n / 65536), UInt8.ofNat (n / 256)] else none

/-- The last four bits carry nothing. -/
def read_two (w x : UInt8) : Option (List UInt8) := do
  let n := bits (← alphabet.value w) (← alphabet.value x) 0 0
  if n % 65536 = 0 then some [UInt8.ofNat (n / 65536)] else none

def read_block (padded : Bool) (w x y z : UInt8) : Option (List UInt8) :=
  if padded = true ∧ z = pad then
    if y = pad then read_two alphabet w x else read_three alphabet w x y
  else read_four alphabet w x y z

def decode (padded : Bool) : List UInt8 → Option (List UInt8)
  | w :: x :: y :: z :: rest => do
    let block ← read_block alphabet pad padded w x y z
    let bytes ← decode padded rest
    some (block ++ bytes)
  | [w, x, y] => if padded then none else read_three alphabet w x y
  | [w, x] => if padded then none else read_two alphabet w x
  | [_] => none
  | [] => some []

variable {alphabet pad}

theorem bits_digits {n : Nat} (h : n < 16777216) :
    bits (digit (n / 262144)) (digit (n / 4096)) (digit (n / 64)) (digit (n / 1)) = n := by
  simp only [bits, digit]
  omega

theorem bits_three (p q r : Fin 64) : bits p q r 0 = p * 262144 + q * 4096 + r * 64 := by
  simp only [bits, Fin.val_zero, Nat.add_zero]

theorem bits_two (p q : Fin 64) : bits p q 0 0 = p * 262144 + q * 4096 := by
  simp only [bits, Fin.val_zero, Nat.zero_mul, Nat.add_zero]

theorem bits_three_digits {n : Nat} (h : n < 16777216) (hr : n % 64 = 0) :
    bits (digit (n / 262144)) (digit (n / 4096)) (digit (n / 64)) 0 = n := by
  rw [bits_three]
  simp only [digit]
  omega

theorem bits_two_digits {n : Nat} (h : n < 16777216) (hr : n % 4096 = 0) :
    bits (digit (n / 262144)) (digit (n / 4096)) 0 0 = n := by
  rw [bits_two]
  simp only [digit]
  omega

theorem ofNat_eq {n : Nat} {b : UInt8} (h : n % 256 = b.toNat) : UInt8.ofNat n = b := by
  apply UInt8.toNat_inj.mp
  rw [UInt8.toNat_ofNat']
  exact h

/-! ### What was encoded -/

section

variable {w x y : UInt8} {p q r : Fin 64}

theorem read_three_values (hw : alphabet.value w = some p) (hx : alphabet.value x = some q) (hy : alphabet.value y = some r) :
    read_three alphabet w x y =
      if bits p q r 0 % 256 = 0 then some [UInt8.ofNat (bits p q r 0 / 65536), UInt8.ofNat (bits p q r 0 / 256)] else none := by
  unfold read_three
  rw [hw, hx, hy, bind_eq_bind, bind_some, bind_some, bind_some]

theorem read_two_values (hw : alphabet.value w = some p) (hx : alphabet.value x = some q) :
    read_two alphabet w x = if bits p q 0 0 % 65536 = 0 then some [UInt8.ofNat (bits p q 0 0 / 65536)] else none := by
  unfold read_two
  rw [hw, hx, bind_eq_bind, bind_some, bind_some]

end

section

variable {a b c : UInt8}

theorem joined_lt : joined a b c < 16777216 := by
  have ha := a.toNat_lt
  have hb := b.toNat_lt
  have hc := c.toNat_lt
  unfold joined
  omega

theorem first_byte : UInt8.ofNat (joined a b c / 65536) = a := by
  have ha := a.toNat_lt
  have hb := b.toNat_lt
  have hc := c.toNat_lt
  exact ofNat_eq (by unfold joined; omega)

theorem second_byte : UInt8.ofNat (joined a b c / 256) = b := by
  have ha := a.toNat_lt
  have hb := b.toNat_lt
  have hc := c.toNat_lt
  exact ofNat_eq (by unfold joined; omega)

theorem third_byte : UInt8.ofNat (joined a b c) = c := by
  have hc := c.toNat_lt
  exact ofNat_eq (by unfold joined; omega)

theorem read_four_digits : read_four alphabet (symbol_at alphabet 262144 (joined a b c)) (symbol_at alphabet 4096 (joined a b c))
    (symbol_at alphabet 64 (joined a b c)) (symbol_at alphabet 1 (joined a b c)) = some [a, b, c] := by
  simp only [read_four, symbol_at, alphabet.value_symbol, bind_eq_bind, bind_some]
  rw [bits_digits joined_lt, first_byte, second_byte, third_byte]

theorem read_three_digits : read_three alphabet (symbol_at alphabet 262144 (joined a b 0))
    (symbol_at alphabet 4096 (joined a b 0)) (symbol_at alphabet 64 (joined a b 0)) = some [a, b] := by
  have hr : joined a b 0 % 256 = 0 := by
    simp only [joined, UInt8.toNat_zero]
    omega
  have hb := bits_three_digits (n := joined a b 0) joined_lt (by omega)
  simp only [symbol_at]
  rw [read_three_values (alphabet.value_symbol _) (alphabet.value_symbol _) (alphabet.value_symbol _), hb, if_pos hr,
    first_byte, second_byte]

theorem read_two_digits : read_two alphabet (symbol_at alphabet 262144 (joined a 0 0))
    (symbol_at alphabet 4096 (joined a 0 0)) = some [a] := by
  have hr : joined a 0 0 % 65536 = 0 := by
    simp only [joined, UInt8.toNat_zero]
    omega
  have hb := bits_two_digits (n := joined a 0 0) joined_lt (by omega)
  simp only [symbol_at]
  rw [read_two_values (alphabet.value_symbol _) (alphabet.value_symbol _), hb, if_pos hr, first_byte]

end

variable (hpad : alphabet.value pad = none)

include hpad in
theorem symbol_ne_pad (d : Fin 64) : alphabet.symbol d ≠ pad := by
  intro h
  have hv := alphabet.value_symbol d
  rw [h, hpad] at hv
  cases hv

include hpad in
/-- What was encoded decodes to itself. -/
theorem decode_encode (pd : Bool) (bytes : List UInt8) :
    decode alphabet pad pd (encode alphabet pad pd bytes) = some bytes := by
  induction bytes using encode.induct with
  | case1 a b c rs ih =>
    have hn : ¬ (pd ∧ symbol_at alphabet 1 (joined a b c) = pad) := fun h => symbol_ne_pad hpad _ h.2
    simp only [encode, decode, read_block, if_neg hn, read_four_digits, ih, bind_eq_bind, bind_some]
    rfl
  | case2 a b =>
    cases pd with
    | false => exact read_three_digits
    | true =>
      have hn : symbol_at alphabet 64 (joined a b 0) ≠ pad := symbol_ne_pad hpad _
      show (read_block alphabet pad true _ _ _ pad >>= fun bl => some (bl ++ [])) = _
      rw [read_block, if_pos ⟨rfl, rfl⟩, if_neg hn, read_three_digits]
      rfl
  | case3 a =>
    cases pd with
    | false => exact read_two_digits
    | true =>
      show (read_block alphabet pad true _ _ pad pad >>= fun bl => some (bl ++ [])) = _
      rw [read_block, if_pos ⟨rfl, rfl⟩, if_pos rfl, read_two_digits]
      rfl
  | case4 => rfl

/-- Every byte of a text is a symbol or padding. -/
theorem mem_encode {pd : Bool} {bt : List UInt8} {c : UInt8} (h : c ∈ encode alphabet pad pd bt) :
    alphabet.IsSymbol c ∨ pd ∧ c = pad := by
  have hp : ∀ n, c ∈ padding pad pd n → pd ∧ c = pad := by
    intro n hn
    unfold padding at hn
    cases pd with
    | false => cases hn
    | true => exact ⟨rfl, List.eq_of_mem_replicate hn⟩
  induction bt using encode.induct with
  | case1 a b c' rs ih =>
    simp only [encode, List.mem_cons] at h
    rcases h with rfl | rfl | rfl | rfl | h
    · exact .inl ⟨_, rfl⟩
    · exact .inl ⟨_, rfl⟩
    · exact .inl ⟨_, rfl⟩
    · exact .inl ⟨_, rfl⟩
    · exact ih h
  | case2 a b =>
    simp only [encode, List.mem_append, List.mem_cons, List.not_mem_nil, or_false] at h
    rcases h with (rfl | rfl | rfl) | h
    · exact .inl ⟨_, rfl⟩
    · exact .inl ⟨_, rfl⟩
    · exact .inl ⟨_, rfl⟩
    · exact .inr (hp _ h)
  | case3 a =>
    simp only [encode, List.mem_append, List.mem_cons, List.not_mem_nil, or_false] at h
    rcases h with (rfl | rfl) | h
    · exact .inl ⟨_, rfl⟩
    · exact .inl ⟨_, rfl⟩
    · exact .inr (hp _ h)
  | case4 => cases h

/-- Text without padding that the padded decoding accepts decodes the same without it. -/
theorem decode_unpadded {t bytes : List UInt8} (hp : pad ∉ t) (h : decode alphabet pad true t = some bytes) :
    decode alphabet pad false t = some bytes := by
  induction t using decode.induct true generalizing bytes with
  | case1 w x y z rest ih =>
    have hz : z ≠ pad := fun hz => hp (by simp [hz])
    have hs : pad ∉ rest := fun hr => hp (by simp [hr])
    simp only [decode, read_block, hz, and_false, if_false, bind_eq_bind] at h ⊢
    obtain ⟨bl, hb, h⟩ := Option.bind_eq_some_iff.mp h
    obtain ⟨tl, ht, h⟩ := Option.bind_eq_some_iff.mp h
    rw [hb, bind_some, ih hs ht, bind_some, h]
  | case2 w x y _ => cases h
  | case3 w x y hf => exact absurd rfl hf
  | case4 w x _ => cases h
  | case5 w x hf => exact absurd rfl hf
  | case6 w => cases h
  | case7 => exact h

end Base64

/-! ## Base16 -/

namespace Base16

variable (alphabet : Alphabet 16)

def encode : List UInt8 → List UInt8
  | [] => []
  | b :: rest =>
    alphabet.symbol ⟨b.toNat / 16, by have := b.toNat_lt; omega⟩ :: alphabet.symbol ⟨b.toNat % 16, Nat.mod_lt _ (by decide)⟩ ::
      encode rest

def decode : List UInt8 → Option (List UInt8)
  | [] => some []
  | [_] => none
  | high :: low :: rest => do
    let high ← alphabet.value high
    let low ← alphabet.value low
    let bytes ← decode rest
    some (UInt8.ofNat (high * 16 + low) :: bytes)

/-- A reader that reads every written symbol reads back what was written. -/
theorem decode_encode {wr read : Alphabet 16} (h : ∀ d, read.value (wr.symbol d) = some d) (bytes : List UInt8) :
    decode read (encode wr bytes) = some bytes := by
  induction bytes with
  | nil => rfl
  | cons b rs ih =>
    simp only [encode, decode, h, ih, bind_eq_bind, bind_some]
    have hb := b.toNat_lt
    rw [Base64.ofNat_eq (b := b) (by omega)]

theorem mem_encode {alphabet : Alphabet 16} {bt : List UInt8} {c : UInt8} (h : c ∈ encode alphabet bt) :
    alphabet.IsSymbol c := by
  induction bt with
  | nil => cases h
  | cons b rs ih =>
    simp only [encode, List.mem_cons] at h
    rcases h with rfl | rfl | h
    · exact ⟨_, rfl⟩
    · exact ⟨_, rfl⟩
    · exact ih h

end Base16

end Lib
