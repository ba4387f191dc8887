/-
  Monosecret.Lib.Sha256 — SHA-256 over bytes, printed in lowercase hexadecimal.
-/

import Mathlib.Algebra.GroupWithZero.Nat
import Mathlib.Data.List.Basic

namespace Lib.Sha256

def rotr (x n : UInt32) : UInt32 := x >>> n ||| x <<< (32 - n)

/-- The fractional parts of the cube roots of the first 64 primes. -/
def round_constants : List UInt32 := [
  0x428a2f98, 0x71374491, 0xb5c0fbcf, 0xe9b5dba5, 0x3956c25b, 0x59f111f1, 0x923f82a4, 0xab1c5ed5,
  0xd807aa98, 0x12835b01, 0x243185be, 0x550c7dc3, 0x72be5d74, 0x80deb1fe, 0x9bdc06a7, 0xc19bf174,
  0xe49b69c1, 0xefbe4786, 0x0fc19dc6, 0x240ca1cc, 0x2de92c6f, 0x4a7484aa, 0x5cb0a9dc, 0x76f988da,
  0x983e5152, 0xa831c66d, 0xb00327c8, 0xbf597fc7, 0xc6e00bf3, 0xd5a79147, 0x06ca6351, 0x14292967,
  0x27b70a85, 0x2e1b2138, 0x4d2c6dfc, 0x53380d13, 0x650a7354, 0x766a0abb, 0x81c2c92e, 0x92722c85,
  0xa2bfe8a1, 0xa81a664b, 0xc24b8b70, 0xc76c51a3, 0xd192e819, 0xd6990624, 0xf40e3585, 0x106aa070,
  0x19a4c116, 0x1e376c08, 0x2748774c, 0x34b0bcb5, 0x391c0cb3, 0x4ed8aa4a, 0x5b9cca4f, 0x682e6ff3,
  0x748f82ee, 0x78a5636f, 0x84c87814, 0x8cc70208, 0x90befffa, 0xa4506ceb, 0xbef9a3f7, 0xc67178f2]

structure State where
  a : UInt32
  b : UInt32
  c : UInt32
  d : UInt32
  e : UInt32
  f : UInt32
  g : UInt32
  h : UInt32
  deriving DecidableEq

def initial : State :=
  ⟨0x6a09e667, 0xbb67ae85, 0x3c6ef372, 0xa54ff53a, 0x510e527f, 0x9b05688c, 0x1f83d9ab, 0x5be0cd19⟩

def big_endian (bytes : List UInt8) : UInt32 := bytes.foldl (fun word byte => word <<< 8 ||| byte.toUInt32) 0

/-- The message schedule, the last word first. -/
def extend (words : List UInt32) : List UInt32 :=
  let word (i : Nat) : UInt32 := words.getD i 0
  let s0 := rotr (word 14) 7 ^^^ rotr (word 14) 18 ^^^ (word 14 >>> 3)
  let s1 := rotr (word 1) 17 ^^^ rotr (word 1) 19 ^^^ (word 1 >>> 10)
  (word 15 + s0 + word 6 + s1) :: words

def schedule (block : List UInt8) : List UInt32 :=
  let first := (List.range 16).map fun i => big_endian ((block.drop (4 * i)).take 4)
  ((List.range 48).foldl (fun words _ => extend words) first.reverse).reverse

def round (s : State) (k w : UInt32) : State :=
  let s1 := rotr s.e 6 ^^^ rotr s.e 11 ^^^ rotr s.e 25
  let ch := (s.e &&& s.f) ^^^ (~~~s.e &&& s.g)
  let t1 := s.h + s1 + ch + k + w
  let s0 := rotr s.a 2 ^^^ rotr s.a 13 ^^^ rotr s.a 22
  let maj := (s.a &&& s.b) ^^^ (s.a &&& s.c) ^^^ (s.b &&& s.c)
  ⟨t1 + (s0 + maj), s.a, s.b, s.c, s.d + t1, s.e, s.f, s.g⟩

def compress (s : State) (block : List UInt8) : State :=
  let t := (round_constants.zip (schedule block)).foldl (fun t kw => round t kw.1 kw.2) s
  ⟨s.a + t.a, s.b + t.b, s.c + t.c, s.d + t.d, s.e + t.e, s.f + t.f, s.g + t.g, s.h + t.h⟩

/-- A one bit, zeros, and the length in bits, to a multiple of 64 bytes. -/
def pad (message : List UInt8) : List UInt8 :=
  let zeros := (119 - message.length % 64) % 64
  let bits := 8 * message.length
  message ++ 0x80 :: List.replicate zeros 0 ++ (List.range 8).map fun i => UInt8.ofNat (bits / 256 ^ (7 - i))

def blocks : Nat → List UInt8 → State → State
  | 0, _, s => s
  | n + 1, bytes, s => blocks n (bytes.drop 64) (compress s (bytes.take 64))

def digest (message : List UInt8) : List UInt32 :=
  let padded := pad message
  let s := blocks (padded.length / 64) padded initial
  [s.a, s.b, s.c, s.d, s.e, s.f, s.g, s.h]

def hex_digit (n : Nat) : Char := if n < 10 then Char.ofNat (48 + n) else Char.ofNat (87 + n)

def hex_word (word : UInt32) : List Char := (List.range 8).map fun i => hex_digit (word.toNat / 16 ^ (7 - i) % 16)

def hex_bytes (bytes : List UInt8) : String := String.ofList ((digest bytes).flatMap hex_word)

theorem hex_bytes_length (b : List UInt8) : (hex_bytes b).toList.length = 64 := by
  simp [hex_bytes, digest, hex_word]

def hex (text : String) : String := String.ofList ((digest text.toByteArray.data.toList).flatMap hex_word)

example : digest [] = [0xe3b0c442, 0x98fc1c14, 0x9afbf4c8, 0x996fb924, 0x27ae41e4, 0x649b934c, 0xa495991b, 0x7852b855] := by
  decide +kernel

end Lib.Sha256
