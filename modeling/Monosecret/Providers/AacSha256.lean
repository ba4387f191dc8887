/-
  Monosecret.Providers.AacSha256 — the SHA-256 that signs Azure App Configuration requests
  (`sha256` in `monosecret/src/provider/aac.rs`).

  The schedule is filled from a window of the last sixteen words, rotated by one word for
  each slot; the message is padded by resizing it to whole blocks. `usize` has 64 bits.

  Proved, for every input of fewer than 2^61 bytes: the bits of the result are the standard's
  digest of the bits of the input (`sha256_standard`), its padding is the standard's, in
  whole blocks that end with the length in bits; and for every block the words are the
  schedule the standard indexes by the round, and the rounds are its rounds.
-/

import Monosecret.Lib.Sha2

namespace Monosecret.Providers.Aac

open Lib
open Sha2 (byte_bits W M Word Hash pad byte_bits_append ROTR byte_bits_be_bytes)

structure State where
  aa : UInt32
  bb : UInt32
  cc : UInt32
  dd : UInt32
  ee : UInt32
  ff : UInt32
  gg : UInt32
  hh : UInt32
  deriving DecidableEq

def INITIAL : State :=
  ⟨0x6a09e667, 0xbb67ae85, 0x3c6ef372, 0xa54ff53a, 0x510e527f, 0x9b05688c, 0x1f83d9ab, 0x5be0cd19⟩

def K : List UInt32 := [
  0x428a2f98, 0x71374491, 0xb5c0fbcf, 0xe9b5dba5, 0x3956c25b, 0x59f111f1, 0x923f82a4, 0xab1c5ed5,
  0xd807aa98, 0x12835b01, 0x243185be, 0x550c7dc3, 0x72be5d74, 0x80deb1fe, 0x9bdc06a7, 0xc19bf174,
  0xe49b69c1, 0xefbe4786, 0x0fc19dc6, 0x240ca1cc, 0x2de92c6f, 0x4a7484aa, 0x5cb0a9dc, 0x76f988da,
  0x983e5152, 0xa831c66d, 0xb00327c8, 0xbf597fc7, 0xc6e00bf3, 0xd5a79147, 0x06ca6351, 0x14292967,
  0x27b70a85, 0x2e1b2138, 0x4d2c6dfc, 0x53380d13, 0x650a7354, 0x766a0abb, 0x81c2c92e, 0x92722c85,
  0xa2bfe8a1, 0xa81a664b, 0xc24b8b70, 0xc76c51a3, 0xd192e819, 0xd6990624, 0xf40e3585, 0x106aa070,
  0x19a4c116, 0x1e376c08, 0x2748774c, 0x34b0bcb5, 0x391c0cb3, 0x4ed8aa4a, 0x5b9cca4f, 0x682e6ff3,
  0x748f82ee, 0x78a5636f, 0x84c87814, 0x8cc70208, 0x90befffa, 0xa4506ceb, 0xbef9a3f7, 0xc67178f2]

/-! ## Slices and words -/

/-- `as_chunks::<n>().0`. -/
def as_chunks {α : Type} (n : Nat) (l : List α) : List (List α) :=
  (List.range (l.length / n)).map fun i => (l.drop (n * i)).take n

/-- `Vec::resize`. -/
def resize {α : Type} (l : List α) (n : Nat) (value : α) : List α := l.take n ++ List.replicate (n - l.length) value

/-- `for (slot, value) in slots.iter_mut().zip(values) { *slot = value }`. -/
def write {α : Type} (slots values : List α) : List α := values.take slots.length ++ slots.drop values.length

def div_ceil (n d : Nat) : Nat := (n + d - 1) / d

def from_be_bytes (bytes : List UInt8) : UInt32 := UInt32.ofNat (bytes.foldl (fun n b => 256 * n + b.toNat) 0)

def to_be_bytes (word : UInt32) : List UInt8 := be_bytes 4 word.toNat

def rotate_right (x : UInt32) (n : Nat) : UInt32 := ⟨x.toBitVec.rotateRight n⟩

/-! ## Digest -/

def padded_len (len : Nat) : Nat := div_ceil (len + 9) 64 * 64

/-- The input, a one bit, zeros and the length in bits, which wraps. -/
def message (input : List UInt8) : List UInt8 :=
  let bit_len := UInt64.ofNat input.length * 8
  resize (input ++ [0x80]) (padded_len input.length - 8) 0 ++ be_bytes 8 bit_len.toNat

/-- The word that the last sixteen give. -/
def next_word (window : List UInt32) : UInt32 :=
  let at_ (i : Nat) : UInt32 := window.getD i 0
  let s0 := rotate_right (at_ 1) 7 ^^^ rotate_right (at_ 1) 18 ^^^ (at_ 1 >>> 3)
  let s1 := rotate_right (at_ 14) 17 ^^^ rotate_right (at_ 14) 19 ^^^ (at_ 14 >>> 10)
  at_ 0 + s0 + at_ 9 + s1

/-- The slots that are left, filled from the window as it slides over the words. -/
def fill : List UInt32 → List UInt32 → List UInt32
  | [], _ => []
  | _ :: slots, window =>
    let word := next_word window
    word :: fill slots ((window.rotateLeft 1).set 15 word)

def schedule (chunk : List UInt8) : List UInt32 :=
  let words := write (List.replicate 64 0) ((as_chunks 4 chunk).map from_be_bytes)
  let window := write (List.replicate 16 0) words
  words.take 16 ++ fill (words.drop 16) window

def round (s : State) (constant word : UInt32) : State :=
  let sum1 := rotate_right s.ee 6 ^^^ rotate_right s.ee 11 ^^^ rotate_right s.ee 25
  let choice := (s.ee &&& s.ff) ^^^ (~~~s.ee &&& s.gg)
  let temp1 := s.hh + sum1 + choice + constant + word
  let sum0 := rotate_right s.aa 2 ^^^ rotate_right s.aa 13 ^^^ rotate_right s.aa 22
  let majority := (s.aa &&& s.bb) ^^^ (s.aa &&& s.cc) ^^^ (s.bb &&& s.cc)
  let temp2 := sum0 + majority
  ⟨temp1 + temp2, s.aa, s.bb, s.cc, s.dd + temp1, s.ee, s.ff, s.gg⟩

def rounds (words : List UInt32) (s : State) : State := (K.zip words).foldl (fun s kw => round s kw.1 kw.2) s

def compress (s : State) (chunk : List UInt8) : State :=
  let t := rounds (schedule chunk) s
  ⟨s.aa + t.aa, s.bb + t.bb, s.cc + t.cc, s.dd + t.dd, s.ee + t.ee, s.ff + t.ff, s.gg + t.gg, s.hh + t.hh⟩

def sha256 (input : List UInt8) : List UInt8 :=
  let s := (as_chunks 64 (message input)).foldl compress INITIAL
  [s.aa, s.bb, s.cc, s.dd, s.ee, s.ff, s.gg, s.hh].flatMap to_be_bytes

/-- The eight words as the standard's hash value. -/
def State.hash (s : State) : Hash := ⟨s.aa, s.bb, s.cc, s.dd, s.ee, s.ff, s.gg, s.hh⟩

/-- Block `i` of a message. -/
def chunk (message : List UInt8) (i : Nat) : List UInt8 := (message.drop (64 * i)).take 64

/-- The digest of the input is the standard's, and so is each step to it. -/
structure Standard (input : List UInt8) : Prop where
  digest : byte_bits (sha256 input) = Sha2.sha256 (byte_bits input)
  length : (sha256 input).length = 32
  padding : byte_bits (message input) = pad (byte_bits input)
  whole : (message input).length % 64 = 0
  last : (message input).drop ((message input).length - 8) = be_bytes 8 (8 * input.length)
  schedule : ∀ i < (message input).length / 64,
    schedule (chunk (message input) i) = (List.range 64).map (W (M (byte_bits (message input)) i))
  rounds : ∀ i < (message input).length / 64, ∀ s,
    (rounds (Aac.schedule (chunk (message input) i)) s).hash = Sha2.rounds (M (byte_bits (message input)) i) s.hash

/-! ## Constants and functions -/

theorem INITIAL_roots : INITIAL.hash = Hash.initial := by decide +kernel

theorem K_roots : K = Sha2.primes.map (Sha2.root_bits 3) := by decide +kernel

theorem K_rounds : K = (List.range 64).map Sha2.K := by
  have hg : ∀ t, Sha2.K t = K.getD t 0 := fun t => by rw [Sha2.K, ← K_roots]
  simp only [funext hg]
  rfl

theorem rotate_right_eq (x : UInt32) {n : Nat} (h0 : 0 < n) (h32 : n < 32) : rotate_right x n = ROTR n x := by
  apply UInt32.toBitVec_inj.mp
  have hn : n % 32 = n := Nat.mod_eq_of_lt h32
  have hm : (32 - n) % 32 = 32 - n := Nat.mod_eq_of_lt (by omega)
  simp [rotate_right, ROTR, BitVec.rotateRight_def, hn, hm]

/-- One step of the rounds. -/
theorem round_hash (s : State) (k w : UInt32) : (round s k w).hash = Sha2.round k w s.hash := by
  simp only [round, State.hash, Sha2.round, Sha2.Sigma0, Sha2.Sigma1, Sha2.Ch, Sha2.Maj, rotate_right_eq, Nat.reduceLT]

/-! ## Padding -/

theorem bit_len_eq {len : Nat} (h : len < 2 ^ 61) : (UInt64.ofNat len * 8).toNat = 8 * len := by
  rw [UInt64.toNat_mul, UInt64.toNat_ofNat_of_lt' (by omega : len < 2 ^ 64)]
  simp
  omega

theorem message_eq {i : List UInt8} (h : i.length < 2 ^ 61) :
    message i = i ++ 0x80 :: List.replicate (padded_len i.length - 9 - i.length) 0 ++
      be_bytes 8 (8 * i.length) := by
  have hl : i.length + 9 ≤ padded_len i.length := by
    unfold padded_len div_ceil
    omega
  simp only [message, resize, bit_len_eq h]
  rw [List.take_of_length_le (by simp; omega), List.length_append, List.length_singleton, List.append_assoc i,
    List.singleton_append]
  congr 4
  omega

theorem message_length {i : List UInt8} (h : i.length < 2 ^ 61) :
    (message i).length = padded_len i.length := by
  rw [message_eq h]
  simp
  unfold padded_len div_ceil
  omega

theorem message_bits {i : List UInt8} (h : i.length < 2 ^ 61) :
    byte_bits (message i) = pad (byte_bits i) := by
  have ho : Sha2.bits 8 (0x80 : UInt8).toNat = true :: List.replicate 7 false := rfl
  rw [message_eq h, pad, byte_bits_append, byte_bits_append, Sha2.byte_bits_cons,
    Sha2.byte_bits_replicate_zero, byte_bits_be_bytes, ho, List.cons_append, List.replicate_append_replicate,
    Sha2.byte_bits_length]
  congr 4
  unfold Sha2.zeros padded_len div_ceil
  omega

/-! ## Schedule -/

theorem from_be_bytes_word (b : List UInt8) : from_be_bytes b = Sha2.word (byte_bits b) := by
  rw [from_be_bytes, Sha2.word, Sha2.number_byte_bits]

/-- The standard's words of a block are those of its bytes. -/
theorem M_chunk (m : List UInt8) (i : Nat) {t : Nat} (ht : t < 16) :
    M (byte_bits m) i t = from_be_bytes (((chunk m i).drop (4 * t)).take 4) := by
  have hb : ((chunk m i).drop (4 * t)).take 4 = (m.drop (64 * i + 4 * t)).take 4 := by
    rw [chunk, List.drop_take, List.drop_drop, List.take_take]
    congr 1
    omega
  rw [hb, from_be_bytes_word, Sha2.byte_bits_take, Sha2.byte_bits_drop, M]
  congr 3
  omega

/-- The word after a window of the schedule is the schedule's next. -/
theorem next_word_W (b : Nat → Word) (k : Nat) :
    next_word ((List.range 16).map fun i => W b (k + i)) = W b (k + 16) := by
  have hw : ∀ i < 16, ((List.range 16).map fun i => W b (k + i)).getD i 0 = W b (k + i) := by
    intro i hi
    simp [List.getD_eq_getElem?_getD, hi]
  rw [Sha2.W_next]
  simp only [next_word, hw, Nat.reduceLT, rotate_right_eq, Sha2.sigma0, Sha2.sigma1, Sha2.SHR, Nat.add_zero]
  ac_rfl

/-- Rotated by one and with that word at its end, it is the next window. -/
theorem slide_W (b : Nat → Word) (k : Nat) :
    (((List.range 16).map fun i => W b (k + i)).rotateLeft 1).set 15 (W b (k + 16)) =
      (List.range 16).map fun i => W b (k + 1 + i) := by
  have hn : ∀ i, k + 1 + i = k + (i + 1) := fun i => by omega
  simp only [hn]
  rfl

/-- From a window at word `k`, the slots are filled with the words from `k + 16` on. -/
theorem fill_W (b : Nat → Word) (s : List UInt32) (k : Nat) :
    fill s ((List.range 16).map fun i => W b (k + i)) =
      (List.range s.length).map fun i => W b (k + 16 + i) := by
  induction s generalizing k with
  | nil => rfl
  | cons sl s ih =>
    have hn : ∀ i, k + 1 + 16 + i = k + 16 + (i + 1) := fun i => by omega
    rw [fill, next_word_W, slide_W, ih, List.length_cons, List.range_succ_eq_map, List.map_cons, List.map_map]
    simp only [hn, Function.comp_def, Nat.add_zero]

/-- The words of a block are the standard's schedule. -/
theorem schedule_W {bt : List UInt8} (h : bt.length = 64) {b : Nat → Word}
    (hb : ∀ t < 16, b t = from_be_bytes ((bt.drop (4 * t)).take 4)) :
    schedule bt = (List.range 64).map (W b) := by
  have hf : (as_chunks 4 bt).map from_be_bytes = (List.range 16).map (W b) := by
    rw [as_chunks, h, List.map_map]
    refine List.map_congr_left fun t ht => ?_
    have ht16 : t < 16 := List.mem_range.mp ht
    rw [Sha2.W_first ht16, hb t ht16]
    rfl
  let words := write (List.replicate 64 0) ((List.range 16).map (W b))
  have hk : words.take 16 = (List.range 16).map (W b) := rfl
  have hd : words.drop 16 = List.replicate 48 0 := rfl
  have hw : write (List.replicate 16 0) words = (List.range 16).map fun i => W b (0 + i) := by
    simp only [Nat.zero_add]
    rfl
  have ha : List.range 64 = List.range 16 ++ (List.range 48).map fun i => 16 + i := by decide
  simp only [schedule, hf]
  rw [hk, hd, hw, fill_W, ha, List.map_append, List.map_map]
  simp only [List.length_replicate, Nat.zero_add, Function.comp_def]

/-! ## Blocks -/

theorem rounds_hash (w : Nat → UInt32) (s : State) :
    (rounds ((List.range 64).map w) s).hash = (List.range 64).foldl (fun v t => Sha2.round (Sha2.K t) (w t) v) s.hash := by
  rw [rounds, K_rounds, List.zip_map', List.foldl_map]
  exact (List.foldl_hom State.hash fun s t => (round_hash s _ _).symm).symm

theorem compress_hash {m : List UInt8} {i : Nat} (h : (chunk m i).length = 64) (s : State) :
    (compress s (chunk m i)).hash = s.hash.add (Sha2.rounds (M (byte_bits m) i) s.hash) := by
  have hr := rounds_hash (W (M (byte_bits m) i)) s
  rw [← schedule_W h fun t ht => M_chunk m i ht] at hr
  rw [Sha2.rounds, ← hr]
  rfl

theorem chunk_length {m : List UInt8} {i : Nat} (h : i < m.length / 64) : (chunk m i).length = 64 := by
  rw [chunk, List.length_take, List.length_drop]
  omega

/-- All blocks, one after the other. -/
theorem blocks_hash (m : List UInt8) (n : Nat) (h : n ≤ m.length / 64) (s : State) :
    (((List.range n).map (chunk m)).foldl compress s).hash =
      (List.range n).foldl (fun v i => v.add (Sha2.rounds (M (byte_bits m) i) v)) s.hash := by
  induction n with
  | zero => rfl
  | succ n ih =>
    rw [List.range_succ, List.map_append, List.foldl_append, List.foldl_append, ← ih (by omega)]
    exact compress_hash (chunk_length (by omega)) _

theorem digest_bits (i : List UInt8) :
    byte_bits (sha256 i) =
      (Sha2.hash (byte_bits (message i))).words.flatMap fun w => Sha2.bits 32 w.toNat := by
  have hb := blocks_hash (message i) ((message i).length / 64) le_rfl INITIAL
  have hn : (byte_bits (message i)).length / 512 = (message i).length / 64 := by
    rw [Sha2.byte_bits_length]
    omega
  have hw : ∀ w : UInt32, byte_bits (to_be_bytes w) = Sha2.bits 32 w.toNat := fun w =>
    byte_bits_be_bytes 4 w.toNat
  rw [Sha2.hash, hn, ← INITIAL_roots, ← hb]
  simp only [sha256, as_chunks, List.flatMap_cons, List.flatMap_nil, byte_bits_append, hw, Hash.words,
    State.hash, Sha2.byte_bits_nil]
  rfl

/-- Every input of fewer than 2^61 bytes. -/
theorem sha256_standard (input : List UInt8) (h : input.length < 2 ^ 61) : Standard input where
  digest := by rw [digest_bits, message_bits h, Sha2.sha256]
  length := by simp [sha256, to_be_bytes]
  padding := message_bits h
  whole := by
    rw [message_length h, padded_len]
    omega
  last := by
    rw [message_eq h, List.drop_left']
    simp
    omega
  schedule := fun i hi => schedule_W (chunk_length hi) fun t ht => M_chunk (message input) i ht
  rounds := by
    intro i hi s
    rw [schedule_W (chunk_length hi) fun t ht => M_chunk (message input) i ht]
    exact rounds_hash _ s

/-- The digest of no bytes. -/
theorem sha256_empty : ([] : List UInt8).length < 2 ^ 61 ∧ Standard [] := ⟨by decide, sha256_standard [] (by decide)⟩

end Monosecret.Providers.Aac
