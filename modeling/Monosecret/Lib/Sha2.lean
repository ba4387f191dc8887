/-
  Monosecret.Lib.Sha2 — SHA-256 as the standard defines it.

  A message is a list of bits. It is padded to blocks of 512 bits, each read as sixteen
  words; `W` indexes the message schedule by the round. The constants are the fractional
  parts of roots of the first primes.
-/

import Mathlib.Data.Nat.NthRoot.Defs
import Mathlib.Data.Nat.Prime.Basic
import Mathlib.Tactic.Ring
import Monosecret.Lib.LengthPrefix

namespace Lib.Sha2

abbrev Word := UInt32

/-! ## Bits -/

/-- The `w` lowest bits of a number, the highest of them first. -/
def bits : Nat → Nat → List Bool
  | 0, _ => []
  | w + 1, n => bits w (n / 2) ++ [n % 2 == 1]

def number (l : List Bool) : Nat := l.foldl (fun n b => 2 * n + b.toNat) 0

def word (l : List Bool) : Word := UInt32.ofNat (number l)

def byte_bits (l : List UInt8) : List Bool := l.flatMap fun b => bits 8 b.toNat

/-! ## Functions and constants -/

def ROTR (n : Nat) (x : Word) : Word := x >>> UInt32.ofNat n ||| x <<< UInt32.ofNat (32 - n)

def SHR (n : Nat) (x : Word) : Word := x >>> UInt32.ofNat n

def Ch (x y z : Word) : Word := (x &&& y) ^^^ (~~~x &&& z)

def Maj (x y z : Word) : Word := (x &&& y) ^^^ (x &&& z) ^^^ (y &&& z)

def Sigma0 (x : Word) : Word := ROTR 2 x ^^^ ROTR 13 x ^^^ ROTR 22 x

def Sigma1 (x : Word) : Word := ROTR 6 x ^^^ ROTR 11 x ^^^ ROTR 25 x

def sigma0 (x : Word) : Word := ROTR 7 x ^^^ ROTR 18 x ^^^ SHR 3 x

def sigma1 (x : Word) : Word := ROTR 17 x ^^^ ROTR 19 x ^^^ SHR 10 x

def is_prime (p : Nat) : Bool := decide (2 ≤ p) && (List.range p).all fun d => decide (d < 2) || p % d != 0

/-- The first 64 primes. -/
def primes : List Nat := (List.range 312).filter is_prime

/-- The first 32 bits of the fractional part of the `n`-th root. -/
def root_bits (n p : Nat) : Word := UInt32.ofNat (Nat.nthRoot n (p * 2 ^ (32 * n)))

def K (t : Nat) : Word := (primes.map (root_bits 3)).getD t 0

/-- A hash value, or the eight working variables. -/
structure Hash where
  a : Word
  b : Word
  c : Word
  d : Word
  e : Word
  f : Word
  g : Word
  h : Word
  deriving DecidableEq

namespace Hash

def initial : Hash :=
  ⟨root_bits 2 2, root_bits 2 3, root_bits 2 5, root_bits 2 7, root_bits 2 11, root_bits 2 13, root_bits 2 17,
    root_bits 2 19⟩

def words (v : Hash) : List Word := [v.a, v.b, v.c, v.d, v.e, v.f, v.g, v.h]

def add (v w : Hash) : Hash :=
  ⟨v.a + w.a, v.b + w.b, v.c + w.c, v.d + w.d, v.e + w.e, v.f + w.f, v.g + w.g, v.h + w.h⟩

end Hash

/-! ## Computation -/

/-- How many zeros follow the one bit. -/
def zeros (l : Nat) : Nat := (448 + 512 - (l + 1) % 512) % 512

def pad (m : List Bool) : List Bool := m ++ true :: List.replicate (zeros m.length) false ++ bits 64 m.length

/-- Word `t` of block `i`. -/
def M (padded : List Bool) (i t : Nat) : Word := word ((padded.drop (512 * i + 32 * t)).take 32)

/-- The message schedule of a block. -/
def W (block : Nat → Word) (t : Nat) : Word :=
  if t < 16 then block t
  else sigma1 (W block (t - 2)) + W block (t - 7) + sigma0 (W block (t - 15)) + W block (t - 16)
termination_by t

def round (k w : Word) (v : Hash) : Hash :=
  let t1 := v.h + Sigma1 v.e + Ch v.e v.f v.g + k + w
  let t2 := Sigma0 v.a + Maj v.a v.b v.c
  ⟨t1 + t2, v.a, v.b, v.c, v.d + t1, v.e, v.f, v.g⟩

def rounds (block : Nat → Word) (v : Hash) : Hash := (List.range 64).foldl (fun v t => round (K t) (W block t) v) v

def hash (padded : List Bool) : Hash :=
  (List.range (padded.length / 512)).foldl (fun v i => v.add (rounds (M padded i) v)) Hash.initial

def sha256 (m : List Bool) : List Bool := (hash (pad m)).words.flatMap fun w => bits 32 w.toNat

/-! ## What the definitions say -/

theorem W_first {block : Nat → Word} {t : Nat} (h : t < 16) : W block t = block t := by
  rw [W, if_pos h]

theorem W_next (block : Nat → Word) (t : Nat) :
    W block (t + 16) = sigma1 (W block (t + 14)) + W block (t + 9) + sigma0 (W block (t + 1)) + W block t := by
  rw [W, if_neg (by omega)]
  rfl

/-! ## Bits of bytes -/

@[simp] theorem bits_length (w n : Nat) : (bits w n).length = w := by
  induction w generalizing n with
  | zero => rfl
  | succ w ih => simp [bits, ih]

theorem bits_add (w v n : Nat) : bits (w + v) n = bits w (n / 2 ^ v) ++ bits v n := by
  induction v generalizing n with
  | zero => simp [bits]
  | succ v ih =>
    rw [← Nat.add_assoc, bits, bits, ih, Nat.div_div_eq_div_mul, Nat.pow_succ', List.append_assoc]

theorem bits_mod (w n : Nat) : bits w (n % 2 ^ w) = bits w n := by
  induction w generalizing n with
  | zero => rfl
  | succ w ih =>
    have hd : n % 2 ^ (w + 1) / 2 = n / 2 % 2 ^ w := by
      rw [Nat.pow_succ', Nat.mod_mul_right_div_self]
    have hm : n % 2 ^ (w + 1) % 2 = n % 2 := by
      rw [Nat.pow_succ', Nat.mod_mul_right_mod]
    rw [bits, bits, hd, hm, ih]

/-- Reading the bits of a number on from another. -/
theorem foldl_bits (w n start : Nat) :
    (bits w n).foldl (fun n b => 2 * n + b.toNat) start = start * 2 ^ w + n % 2 ^ w := by
  induction w generalizing n with
  | zero => simp [bits, Nat.mod_one]
  | succ w ih =>
    have hm : n % 2 ^ (w + 1) = 2 * (n / 2 % 2 ^ w) + n % 2 := by
      rw [Nat.pow_succ', Nat.mod_mul]
      omega
    have hb : (n % 2 == 1).toNat = n % 2 := by
      rcases Nat.mod_two_eq_zero_or_one n with h | h <;> simp [h]
    rw [bits, List.foldl_append, ih, hm, Nat.pow_succ]
    simp only [List.foldl_cons, List.foldl_nil, hb]
    ring

@[simp] theorem byte_bits_nil : byte_bits [] = [] := rfl

theorem byte_bits_cons (b : UInt8) (l : List UInt8) : byte_bits (b :: l) = bits 8 b.toNat ++ byte_bits l := by
  simp [byte_bits]

theorem byte_bits_append (l m : List UInt8) : byte_bits (l ++ m) = byte_bits l ++ byte_bits m := by
  simp [byte_bits]

@[simp] theorem byte_bits_length (l : List UInt8) : (byte_bits l).length = 8 * l.length := by
  induction l with
  | nil => rfl
  | cons b l ih => rw [byte_bits_cons, List.length_append, bits_length, ih, List.length_cons]; omega

theorem byte_bits_drop (n : Nat) (l : List UInt8) : byte_bits (l.drop n) = (byte_bits l).drop (8 * n) := by
  conv_rhs => rw [← List.take_append_drop n l, byte_bits_append]
  rcases Nat.le_total n l.length with h | h
  · rw [List.drop_left' (by rw [byte_bits_length, List.length_take_of_le h])]
  · rw [List.drop_of_length_le h, List.take_of_length_le h]
    simp
    omega

theorem byte_bits_take (n : Nat) (l : List UInt8) : byte_bits (l.take n) = (byte_bits l).take (8 * n) := by
  conv_rhs => rw [← List.take_append_drop n l, byte_bits_append]
  rcases Nat.le_total n l.length with h | h
  · rw [List.take_left' (by rw [byte_bits_length, List.length_take_of_le h])]
  · rw [List.drop_of_length_le h, List.take_of_length_le h, byte_bits_nil, List.append_nil, List.take_of_length_le]
    rw [byte_bits_length]
    omega

theorem byte_bits_replicate_zero (n : Nat) : byte_bits (List.replicate n 0) = List.replicate (8 * n) false := by
  induction n with
  | zero => rfl
  | succ n ih =>
    have hz : bits 8 (0 : UInt8).toNat = List.replicate 8 false := rfl
    rw [List.replicate_succ, byte_bits_cons, ih, hz, List.replicate_append_replicate]
    congr 1
    omega

/-- A number is written by its bytes as by its bits. -/
theorem byte_bits_be_bytes (w n : Nat) : byte_bits (be_bytes w n) = bits (8 * w) n := by
  induction w generalizing n with
  | zero => rfl
  | succ w ih =>
    have hb : be_bytes (w + 1) n = be_bytes w (n / 256) ++ [UInt8.ofNat (n % 256)] := by
      simp [be_bytes, le_bytes, digits]
    have ht : (UInt8.ofNat (n % 256)).toNat = n % 2 ^ 8 := by
      simp
    rw [hb, byte_bits_append, ih, byte_bits_cons, byte_bits_nil, List.append_nil, ht, bits_mod]
    exact (bits_add (8 * w) 8 n).symm

/-- Bytes are read as their bits are. -/
theorem number_byte_bits (l : List UInt8) : number (byte_bits l) = l.foldl (fun n b => 256 * n + b.toNat) 0 := by
  have hf : ∀ start, (byte_bits l).foldl (fun n b => 2 * n + b.toNat) start =
      l.foldl (fun n b => 256 * n + b.toNat) start := by
    induction l with
    | nil => exact fun _ => rfl
    | cons b l ih =>
      intro start
      have hb : b.toNat % 2 ^ 8 = b.toNat := Nat.mod_eq_of_lt b.toNat_lt
      rw [byte_bits_cons, List.foldl_append, foldl_bits, ih, hb, List.foldl_cons, Nat.mul_comm]
      rfl
  exact hf 0

end Lib.Sha2
