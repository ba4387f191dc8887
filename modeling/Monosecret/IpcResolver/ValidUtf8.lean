/-
  Monosecret.IpcResolver.ValidUtf8 — the UTF-8 check of the C client (`valid_utf8` in
  `monosecret_ipc_resolver/src/session.c`).

  Bytes are natural numbers below 256 and codes fit in 32 bits: at most three steps of six
  bits. A byte is read by its index (`data[index]?`); none is a read past the end.

  Proved (`valid_utf8_iff`), for every data: no read is past the end, and what is accepted is
  exactly the encodings of characters, one after the other; `Char` is the Unicode scalar
  values and `String.utf8EncodeChar` their UTF-8.
-/

import Mathlib.Data.FinEnum
import Mathlib.Tactic.SplitIfs

namespace Monosecret.IpcResolver.ValidUtf8

open List (take_succ_cons foldl_cons forall_mem_cons length_cons take_zero foldl_nil)

/-- What the first byte of a sequence says: the code's bits, how many bytes follow, and the least code they are for. -/
def lead (first : Nat) : Option (Nat × Nat × Nat) :=
  if first &&& 0xe0 = 0xc0 then some (first &&& 0x1f, 1, 0x80)
  else if first &&& 0xf0 = 0xe0 then some (first &&& 0x0f, 2, 0x800)
  else if first &&& 0xf8 = 0xf0 then some (first &&& 0x07, 3, 0x10000)
  else none

/-- The inner loop: the code and the index behind it, or a byte that does not continue. -/
def continuation (data : List UInt8) : Nat → Nat → Nat → Option (Option (Nat × Nat))
  | 0, code, index => some (some (code, index))
  | remaining + 1, code, index => do
    let next ← data[index]?
    if next.toNat &&& 0xc0 ≠ 0x80 then return none
    else continuation data remaining (code <<< 6 ||| next.toNat &&& 0x3f) (index + 1)

/-- One turn of the outer loop: the next index, or false. -/
def turn (data : List UInt8) (index : Nat) : Option (Option Nat) := do
  let first ← data[index]?
  if first.toNat < 0x80 then return some (index + 1)
  else
    match lead first.toNat with
    | none => return none
    | some (code, remaining, minimum) =>
      if remaining > data.length - (index + 1) then return none
      else
        match ← continuation data remaining code (index + 1) with
        | none => return none
        | some (code, index) =>
          if code < minimum ∨ (code ≥ 0xd800 ∧ code ≤ 0xdfff) ∨ code > 0x10ffff then return none else return some index

/-- The loop; a unit of fuel for each turn. -/
def valid_utf8_from (data : List UInt8) : Nat → Nat → Option Bool
  | 0, index => if data.length ≤ index then some true else none
  | fuel + 1, index =>
    if data.length ≤ index then some true
    else do
      match ← turn data index with
      | none => return false
      | some index => valid_utf8_from data fuel index

def valid_utf8 (data : List UInt8) : Option Bool := valid_utf8_from data data.length 0

example : valid_utf8 [0x61, 0xe2, 0x82, 0xac, 0xed, 0xa0, 0x80] = some false := by decide

/-! ## Bytes -/

/-- What the masks keep of a byte. -/
theorem masks : ∀ b < 256, (b &&& 0xe0 = 0xc0 ↔ 192 ≤ b ∧ b < 224) ∧ (b &&& 0xf0 = 0xe0 ↔ 224 ≤ b ∧ b < 240) ∧
    (b &&& 0xf8 = 0xf0 ↔ 240 ≤ b ∧ b < 248) ∧ (b &&& 0xc0 = 0x80 ↔ 128 ≤ b ∧ b < 192) ∧
    b &&& 0x1f = b % 32 ∧ b &&& 0x0f = b % 16 ∧ b &&& 0x07 = b % 8 ∧ b &&& 0x3f = b % 64 := by
  decide +kernel

/-- The code grows by six bits. -/
theorem shifted (c : Nat) {b : Nat} (hb : b < 256) : c <<< 6 ||| b &&& 0x3f = c * 64 + b % 64 := by
  rw [(masks b hb).2.2.2.2.2.2.2, ← Nat.shiftLeft_add_eq_or_of_lt (Nat.mod_lt b (by decide)) c, Nat.shiftLeft_eq]

/-- A byte that continues a sequence. -/
def Continues (b : UInt8) : Prop := 128 ≤ b.toNat ∧ b.toNat < 192

instance (b : UInt8) : Decidable (Continues b) := inferInstanceAs (Decidable (_ ∧ _))

def grow (code : Nat) (b : UInt8) : Nat := code * 64 + b.toNat % 64

variable {data : List UInt8}

theorem continuation_eq {n c i : Nat} (h : i + n ≤ data.length) : continuation data n c i =
    some (if ∀ b ∈ (data.drop i).take n, Continues b then
      some (((data.drop i).take n).foldl grow c, i + n) else none) := by
  induction n generalizing c i with
  | zero => simp [continuation]
  | succ n ih =>
    have hi : i < data.length := by omega
    have hb : data[i].toNat < 256 := data[i].toNat_lt
    rw [continuation, List.getElem?_eq_getElem hi, List.drop_eq_getElem_cons hi, take_succ_cons, foldl_cons]
    simp only [Option.bind_eq_bind, Option.bind_some, shifted c hb, forall_mem_cons]
    by_cases hc : Continues data[i]
    · rw [if_neg (not_not_intro ((masks _ hb).2.2.2.1.mpr hc)), ih (by omega)]
      simp only [hc, true_and, Nat.add_comm n 1, Nat.add_assoc]
      rfl
    · rw [if_pos fun hm => hc ((masks _ hb).2.2.2.1.mp hm), if_neg fun ha => hc ha.1]
      rfl

/-- A sequence of a first byte and the bytes behind it: how many it has, if it is one. -/
def sequence (first : UInt8) (rest : List UInt8) : Option Nat :=
  if first.toNat < 0x80 then some 1
  else
    match lead first.toNat with
    | none => none
    | some (code, remaining, minimum) =>
      if rest.length < remaining then none
      else if ∀ b ∈ rest.take remaining, Continues b then
        let code := (rest.take remaining).foldl grow code
        if code < minimum ∨ (code ≥ 0xd800 ∧ code ≤ 0xdfff) ∨ code > 0x10ffff then none else some (1 + remaining)
      else none

theorem turn_eq {i : Nat} {first : UInt8} {rs : List UInt8} (h : data.drop i = first :: rs) :
    turn data i = some ((sequence first rs).map (i + ·)) := by
  have hi : i < data.length := by
    have hn := congrArg List.length h
    rw [List.length_drop, length_cons] at hn
    omega
  rw [List.drop_eq_getElem_cons hi] at h
  obtain ⟨rfl, rfl⟩ := List.cons.inj h
  rw [turn, List.getElem?_eq_getElem hi, Option.bind_eq_bind, Option.bind_some, sequence, List.length_drop]
  split
  · rfl
  · cases hl : lead data[i].toNat with
    | none => rfl
    | some l =>
      obtain ⟨c, r, m⟩ := l
      dsimp only
      split
      · rfl
      · rw [continuation_eq (by omega), Option.bind_eq_bind, Option.bind_some]
        by_cases ha : ∀ b ∈ (data.drop (i + 1)).take r, Continues b
        · rw [if_pos ha, if_pos ha]
          dsimp only
          split
          · rfl
          · simp only [Option.map_some, Nat.add_assoc]
            rfl
        · rw [if_neg ha, if_neg ha]
          rfl

/-! ## Characters -/

/-- The bytes of a code, as numbers. -/
def units (v : Nat) : List Nat :=
  if v ≤ 0x7f then [v]
  else if v ≤ 0x7ff then [v / 64 % 32 + 192, v % 64 + 128]
  else if v ≤ 0xffff then [v / 4096 % 16 + 224, v / 64 % 64 + 128, v % 64 + 128]
  else [v / 262144 % 8 + 240, v / 4096 % 64 + 128, v / 64 % 64 + 128, v % 64 + 128]

theorem encode_eq (c : Char) : String.utf8EncodeChar c = (units c.toNat).map UInt8.ofNat := by
  simp only [String.utf8EncodeChar, units, Char.toNat]
  split_ifs <;> rfl

theorem valid_code (c : Char) : c.toNat < 0xd800 ∨ 0xdfff < c.toNat ∧ c.toNat < 0x110000 := c.valid

/-- The character of a code that is no surrogate. -/
theorem char_of {v : Nat} (h : v < 0xd800 ∨ 0xdfff < v ∧ v < 0x110000) : ∃ c : Char, c.toNat = v := by
  have hv : v < 0x110000 := by omega
  exact ⟨⟨UInt32.ofNatLT v (Nat.lt_trans hv (by decide)), h⟩, rfl⟩

theorem small {n : Nat} (h : n < 256) : (UInt8.ofNat n).toNat = n := by
  rw [UInt8.toNat_ofNat', Nat.mod_eq_of_lt h]

theorem tail_continues (m : Nat) : Continues (UInt8.ofNat (m % 64 + 128)) := by
  rw [Continues, small (by omega)]
  omega

theorem grow_tail (c m : Nat) : grow c (UInt8.ofNat (m % 64 + 128)) = c * 64 + m % 64 := by
  rw [grow, small (by omega)]
  omega

theorem lead_eq (b : UInt8) : lead b.toNat =
    if 192 ≤ b.toNat ∧ b.toNat < 224 then some (b.toNat % 32, 1, 0x80)
    else if 224 ≤ b.toNat ∧ b.toNat < 240 then some (b.toNat % 16, 2, 0x800)
    else if 240 ≤ b.toNat ∧ b.toNat < 248 then some (b.toNat % 8, 3, 0x10000)
    else none := by
  obtain ⟨ht, hth, hf, -, hv, hw, hl, -⟩ := masks b.toNat b.toNat_lt
  simp only [lead, ht, hth, hf, hv, hw, hl]

theorem spelled {v : Nat} (hv : v < 0xd800 ∨ 0xdfff < v ∧ v < 0x110000) {l : List UInt8}
    (hl : l.map UInt8.toNat = units v) (m : List UInt8) :
    ∃ c mr, l ++ m = String.utf8EncodeChar c ++ mr ∧ l.length = (String.utf8EncodeChar c).length := by
  obtain ⟨c, rfl⟩ := char_of hv
  have he : l = String.utf8EncodeChar c := by
    rw [encode_eq, ← hl, List.map_map]
    exact (List.map_id'' (fun b => UInt8.ofNat_toNat) l).symm
  exact ⟨c, m, by rw [he], by rw [he]⟩

/-- What is taken for a sequence is the encoding of a character. -/
theorem sequence_sound {first : UInt8} {r : List UInt8} {n : Nat} (h : sequence first r = some n) :
    ∃ c mr, first :: r = String.utf8EncodeChar c ++ mr ∧ n = (String.utf8EncodeChar c).length := by
  unfold sequence at h
  split at h
  · rename_i ha
    cases h
    exact spelled (v := first.toNat) (l := [first]) (by omega) (by rw [units, if_pos (by omega)]; rfl) r
  · rw [lead_eq] at h
    split_ifs at h with ht hth hf <;> dsimp only at h <;> split_ifs at h with hs hn hd <;> cases h
    · match r with
      | [] => simp at hs
      | b1 :: mr =>
        simp only [take_succ_cons, take_zero, forall_mem_cons, Continues] at hn
        simp only [take_succ_cons, take_zero, foldl_cons, foldl_nil, grow] at hd
        refine spelled (v := first.toNat % 32 * 64 + b1.toNat % 64) (l := [first, b1]) (by omega) ?_ mr
        rw [units, if_neg (by omega), if_pos (by omega)]
        simp only [List.map, List.cons.injEq, and_true]
        omega
    · match r with
      | [] | [_] => simp at hs
      | b1 :: b2 :: mr =>
        simp only [take_succ_cons, take_zero, forall_mem_cons, Continues] at hn
        simp only [take_succ_cons, take_zero, foldl_cons, foldl_nil, grow] at hd
        refine spelled (v := (first.toNat % 16 * 64 + b1.toNat % 64) * 64 + b2.toNat % 64) (l := [first, b1, b2])
          (by omega) ?_ mr
        rw [units, if_neg (by omega), if_neg (by omega), if_pos (by omega)]
        simp only [List.map, List.cons.injEq, and_true]
        omega
    · match r with
      | [] | [_] | [_, _] => simp at hs
      | b1 :: b2 :: b3 :: mr =>
        simp only [take_succ_cons, take_zero, forall_mem_cons, Continues] at hn
        simp only [take_succ_cons, take_zero, foldl_cons, foldl_nil, grow] at hd
        refine spelled (v := ((first.toNat % 8 * 64 + b1.toNat % 64) * 64 + b2.toNat % 64) * 64 + b3.toNat % 64)
          (l := [first, b1, b2, b3]) (by omega) ?_ mr
        rw [units, if_neg (by omega), if_neg (by omega), if_neg (by omega)]
        simp only [List.map, List.cons.injEq, and_true]
        omega

theorem sequence_complete (c : Char) {m r : List UInt8} {first : UInt8}
    (h : first :: r = String.utf8EncodeChar c ++ m) : sequence first r = some (String.utf8EncodeChar c).length := by
  have hv := valid_code c
  rw [encode_eq] at h ⊢
  generalize c.toNat = v at hv h ⊢
  unfold units at h ⊢
  split_ifs at h ⊢ with ho ht hth <;>
    simp only [List.map_cons, List.map_nil, List.cons_append, List.nil_append, List.cons.injEq] at h <;>
    obtain ⟨rfl, rfl⟩ := h
  · rw [sequence, small (by omega), if_pos (by omega)]
    rfl
  on_goal 1 => rw [sequence, lead_eq, small (by omega), if_neg (by omega), if_pos (by omega)]
  on_goal 2 => rw [sequence, lead_eq, small (by omega), if_neg (by omega), if_neg (by omega), if_pos (by omega)]
  on_goal 3 =>
    rw [sequence, lead_eq, small (by omega), if_neg (by omega), if_neg (by omega), if_neg (by omega), if_pos (by omega)]
  all_goals
    simp only [take_succ_cons, take_zero, forall_mem_cons, foldl_cons, foldl_nil, tail_continues, grow_tail, length_cons]
    rw [if_neg (by omega), if_pos (by simp), if_neg (by omega)]
    rfl

theorem valid_from (f i : Nat) (hf : data.length ≤ i + f) :
    ∃ b, valid_utf8_from data f i = some b ∧
      (b = true ↔ ∃ ch : List Char, data.drop i = ch.flatMap String.utf8EncodeChar) := by
  have ht : data.length ≤ i → ∃ ch : List Char, data.drop i = ch.flatMap String.utf8EncodeChar :=
    fun he => ⟨[], List.drop_of_length_le he⟩
  induction f generalizing i with
  | zero => exact ⟨true, if_pos hf, iff_of_true rfl (ht hf)⟩
  | succ f ih =>
    rw [valid_utf8_from]
    by_cases he : data.length ≤ i
    · exact ⟨true, if_pos he, iff_of_true rfl (ht he)⟩
    · obtain ⟨first, r, hd⟩ := List.exists_cons_of_ne_nil fun hn => he (List.drop_eq_nil_iff.mp hn)
      rw [if_neg he, turn_eq hd, Option.bind_eq_bind, Option.bind_some, hd]
      cases hs : sequence first r with
      | none =>
        refine ⟨false, rfl, iff_of_false nofun fun ⟨ch, hch⟩ => ?_⟩
        cases ch with
        | nil => cases hch
        | cons c ch =>
          rw [sequence_complete c hch] at hs
          cases hs
      | some n =>
        obtain ⟨c, more, hc, rfl⟩ := sequence_sound hs
        have hp : 0 < (String.utf8EncodeChar c).length := by
          rw [String.length_utf8EncodeChar]
          exact c.utf8Size_pos
        have hm : data.drop (i + (String.utf8EncodeChar c).length) = more := by
          rw [← List.drop_drop, hd, hc, List.drop_left]
        obtain ⟨b, hb, hi⟩ := ih (i + (String.utf8EncodeChar c).length) (by omega)
          fun he => ⟨[], List.drop_of_length_le he⟩
        refine ⟨b, hb, hi.trans ?_⟩
        rw [hm, hc]
        constructor
        · rintro ⟨ch, rfl⟩
          exact ⟨c :: ch, rfl⟩
        · rintro ⟨ch, hch⟩
          cases ch with
          | nil =>
            rw [(List.append_eq_nil_iff.mp hch).1] at hp
            cases hp
          | cons d ch =>
            -- the sequence has one length, whichever character it is read as
            have hl := hs.symm.trans (sequence_complete d (hc.trans hch))
            exact ⟨ch, (List.append_inj hch (Option.some.inj hl)).2⟩

/-- No read is past the end; accepted is what is a text's UTF-8. -/
theorem valid_utf8_iff (data : List UInt8) :
    (valid_utf8 data).isSome = true ∧
    (valid_utf8 data = some true ↔ ∃ chars : List Char, data = chars.flatMap String.utf8EncodeChar) := by
  obtain ⟨b, hb, hi⟩ := @valid_from data data.length 0 (by omega)
  rw [valid_utf8, hb]
  exact ⟨rfl, by rw [Option.some.injEq, hi, List.drop_zero]⟩

end Monosecret.IpcResolver.ValidUtf8
