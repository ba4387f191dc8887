/-
  Monosecret.Integration.TargetPath — what the canonical path of a Git target keeps
  (`canonical_target_path` in `monosecret/src/integration/git.rs`).

  The source scans the bytes of the path by an index and slices the text there; a slice inside
  a character panics (`Slices.str_from`). Every escape that it reads is of ASCII characters, so the
  index it goes on from is the end of a character (`scan_from`).

  Proved (`canonical_path_kept`), for every path: the scan does not panic; its result is
  canonical already, decodes to the same bytes, and has the separators of the path, the
  canonical parts between them.
-/

import Monosecret.Integration.GitTarget
import Monosecret.Lib.Slices

namespace Monosecret.Integration.Git

open Lib.Slices

/-! ## The scan -/

def as_bytes (text : List Char) : List UInt8 := text.flatMap String.utf8EncodeChar

/-- The byte of an escape that the text starts with. -/
def leading_escape (bytes : List UInt8) : Option Nat :=
  match bytes with
  | 37 :: high_byte :: low_byte :: _ =>
    match hex_value (Char.ofNat high_byte.toNat), hex_value (Char.ofNat low_byte.toNat) with
    | some high, some low => some (high * 16 + low)
    | _, _ => none
  | _ => none

/-- `canonical_target_path` by bytes; a unit of fuel for each turn of its loop. -/
def canonical_scan (path : List Char) : Nat → Nat → Option (List Char)
  | fuel, index =>
    if byte_length path ≤ index then some []
    else
      match fuel with
      | 0 => none
      | fuel + 1 => do
        let remaining ← str_from path index
        match leading_escape (as_bytes remaining) with
        | some byte =>
          let rest ← canonical_scan path fuel (index + 3)
          return (if unreserved byte then [Char.ofNat byte] else escape byte) ++ rest
        | none =>
          let character ← remaining.head?
          let rest ← canonical_scan path fuel (index + character.utf8Size)
          return utf8_percent_encode character ++ rest

theorem ascii_size {c : Char} (hc : c.toNat < 0x80) : c.utf8Size = 1 :=
  Char.utf8Size_eq_one_iff.mpr (UInt32.le_iff_toNat_le.mpr (Nat.le_of_lt_succ hc))

theorem ascii_bytes {c : Char} (hc : c.toNat < 0x80) : String.utf8EncodeChar c = [UInt8.ofNat c.toNat] := by
  unfold String.utf8EncodeChar
  exact if_pos (Nat.le_of_lt_succ hc)

theorem ascii_byte {c : Char} (hc : c.toNat < 0x80) : (UInt8.ofNat c.toNat).toNat = c.toNat := by
  rw [UInt8.toNat_ofNat', Nat.mod_eq_of_lt (by omega)]

/-- A byte of ASCII at the front is the first character. -/
theorem ascii_front {c : Char} {t : List Char} {b : UInt8} {bt : List UInt8} (hb : b.toNat < 128)
    (h : as_bytes (c :: t) = b :: bt) : c = Char.ofNat b.toNat ∧ as_bytes t = bt ∧ c.utf8Size = 1 := by
  rw [as_bytes, List.flatMap_cons] at h
  by_cases hc : c.toNat < 0x80
  · rw [ascii_bytes hc] at h
    obtain ⟨rfl, rfl⟩ := List.cons.inj h
    rw [ascii_byte hc, Char.ofNat_toNat]
    exact ⟨rfl, rfl, ascii_size hc⟩
  · have hg := encode_high hc
    have hl := String.length_utf8EncodeChar c
    have hp := c.utf8Size_pos
    cases he : String.utf8EncodeChar c with
    | nil =>
      rw [he, List.length_nil] at hl
      omega
    | cons first m =>
      rw [he, List.cons_append] at h
      have hf := hg first (he ▸ List.mem_cons_self)
      rw [(List.cons.inj h).1] at hf
      omega

/-- What is said of each byte below, in one table. -/
theorem byte_table : ∀ b < 256, ((hex_value (Char.ofNat b)).isSome = true → b < 128) ∧ (unreserved b = true →
    String.utf8EncodeChar (Char.ofNat b) = [UInt8.ofNat b] ∧ Char.ofNat b ≠ '/') := by
  decide +kernel

theorem hex_pair_lt {high l : Char} {m n : Nat} (hm : hex_value high = some m) (hn : hex_value l = some n) :
    m * 16 + n < 256 := by
  have hg := hex_value_lt hm
  have hl := hex_value_lt hn
  omega

theorem hex_ascii {c : Char} {n : Nat} (h : hex_value c = some n) : c.toNat < 0x80 := by
  have toNat_le : ∀ {a b : Char}, a ≤ b → a.toNat ≤ b.toNat := id
  unfold hex_value at h
  split_ifs at h with hd hl hu
  · exact Nat.lt_of_le_of_lt (toNat_le hd.2) (by decide)
  · exact Nat.lt_of_le_of_lt (toNat_le hl.2) (by decide)
  · exact Nat.lt_of_le_of_lt (toNat_le hu.2) (by decide)

/-- No escape at the front: the first character is taken. -/
theorem canonical_cons {c : Char} {rest : List Char} (h : ∀ high l t, c = '%' → rest = high :: l :: t →
    ∀ m n, hex_value high = some m → hex_value l = some n → False) :
    canonical_target_path (c :: rest) = utf8_percent_encode c ++ canonical_target_path rest := by
  rw [canonical_target_path.eq_def (c :: rest)]
  split
  · rename_i he
    cases he
  · rename_i high l t he
    cases he
    split
    · rename_i hh hl
      exact (h high l t rfl rfl _ _ hh hl).elim
    · rfl
  · rename_i he
    cases he
    rfl

theorem canonical_escape {high l : Char} {m n : Nat} (hm : hex_value high = some m) (hn : hex_value l = some n)
    (rest : List Char) : canonical_target_path ('%' :: high :: l :: rest) =
      (if unreserved (m * 16 + n) then [Char.ofNat (m * 16 + n)] else escape (m * 16 + n)) ++ canonical_target_path rest := by
  rw [canonical_target_path, hm, hn]

theorem leading_escape_bytes {high l : Char} {m n : Nat} (hm : hex_value high = some m) (hn : hex_value l = some n)
    (r : List Char) : leading_escape (as_bytes ('%' :: high :: l :: r)) = some (m * 16 + n) := by
  have hp : String.utf8EncodeChar '%' = [37] := by decide
  simp only [as_bytes, List.flatMap_cons, hp, ascii_bytes (hex_ascii hm), ascii_bytes (hex_ascii hn),
    List.singleton_append]
  simp only [leading_escape, ascii_byte (hex_ascii hm), ascii_byte (hex_ascii hn), Char.ofNat_toNat, hm, hn]

/-- An escape read by bytes is one of three characters of a byte each. -/
theorem leading_escape_some {c : Char} {r : List Char} {bt : Nat} (h : leading_escape (as_bytes (c :: r)) = some bt) :
    ∃ high l t m n, c = '%' ∧ r = high :: l :: t ∧ hex_value high = some m ∧ hex_value l = some n ∧
      bt = m * 16 + n ∧ byte_length ['%', high, l] = 3 := by
  unfold leading_escape at h
  split at h
  · rename_i high_byte lw mr hb
    split at h
    · rename_i m n hm hn
      have small : ∀ b : UInt8, ∀ k, hex_value (Char.ofNat b.toNat) = some k → b.toNat < 128 := fun b k hk =>
        (byte_table b.toNat b.toNat_lt).1 (by rw [hk]; rfl)
      obtain ⟨rfl, hb, -⟩ := ascii_front (by decide) hb
      match r with
      | [] => cases hb
      | [high] =>
        obtain ⟨-, hl, -⟩ := ascii_front (small _ _ hm) hb
        cases hl
      | high :: l :: t =>
        obtain ⟨rfl, hb, ho⟩ := ascii_front (small _ _ hm) hb
        obtain ⟨rfl, -, ht⟩ := ascii_front (small _ _ hn) hb
        refine ⟨_, _, t, m, n, rfl, rfl, hm, hn, (Option.some.inj h).symm, ?_⟩
        simp [byte_length, ho, ht]
        decide
    · cases h
  · cases h

theorem scan_from {pt : List Char} {f : Nat} (p rest : List Char) (hp : pt = p ++ rest) (hf : rest.length < f) :
    canonical_scan pt f (byte_length p) = some (canonical_target_path rest) := by
  induction f generalizing p rest with
  | zero => cases hf
  | succ f ih =>
    have hl : byte_length pt = byte_length p + byte_length rest := by rw [hp, byte_length_append]
    cases rest with
    | nil =>
      unfold canonical_scan
      exact if_pos (Nat.le_of_eq hl)
    | cons c rest =>
      have hs := c.utf8Size_pos
      have hc := byte_length_cons c rest
      rw [canonical_scan, if_neg (by omega), hp, str_from_append, ← hp]
      simp only [Option.bind_eq_bind, Option.bind_some]
      cases he : leading_escape (as_bytes (c :: rest)) with
      | some b =>
        obtain ⟨high, l, t, m, n, rfl, rfl, hm, hn, rfl, ht⟩ := leading_escape_some he
        have hx := ih (p ++ ['%', high, l]) t (by simp [hp]) (by simp at hf; omega)
        rw [byte_length_append, ht] at hx
        simp only [hx, canonical_escape hm hn]
        rfl
      | none =>
        have hx := ih (p ++ [c]) rest (by simp [hp]) (by simp at hf; omega)
        have ho : byte_length [c] = c.utf8Size := by simp [byte_length]
        rw [byte_length_append, ho] at hx
        have hcn : canonical_target_path (c :: rest) = utf8_percent_encode c ++ canonical_target_path rest :=
          canonical_cons fun high l t hc hr m n hm hn => by
            rw [hc, hr, leading_escape_bytes hm hn] at he
            cases he
        simp only [List.head?_cons, Option.bind_some, hx, hcn]
        rfl

/-! ## Decoding -/

/-- The bytes of a path; a percent sign that no two digits follow stands for itself. -/
def percent_decode : List Char → List UInt8
  | [] => []
  | '%' :: high :: low :: rest =>
    match hex_value high, hex_value low with
    | some high, some low => UInt8.ofNat (high * 16 + low) :: percent_decode rest
    | _, _ => 37 :: percent_decode (high :: low :: rest)
  | c :: rest => String.utf8EncodeChar c ++ percent_decode rest

theorem decode_plain {c : Char} (hc : c ≠ '%') (rest : List Char) :
    percent_decode (c :: rest) = String.utf8EncodeChar c ++ percent_decode rest := by
  rw [percent_decode]
  exact fun _ _ _ h => absurd h hc

theorem decode_escape {b : Nat} (hb : b < 256) (rest : List Char) :
    percent_decode (escape b ++ rest) = UInt8.ofNat b :: percent_decode rest := by
  have hg := (hex_digit_value (b / 16) (by omega)).1
  have hl := (hex_digit_value (b % 16) (by omega)).1
  show percent_decode ('%' :: hex_digit (b / 16) :: hex_digit (b % 16) :: rest) = _
  rw [percent_decode, hg, hl]
  simp only [Nat.div_add_mod']

theorem decode_encoded (c : Char) (rest : List Char) :
    percent_decode (utf8_percent_encode c ++ rest) = String.utf8EncodeChar c ++ percent_decode rest := by
  unfold utf8_percent_encode
  split
  · rename_i hk
    refine decode_plain (fun hc => ?_) rest
    subst hc
    exact absurd hk (by decide)
  · induction String.utf8EncodeChar c with
    | nil => rfl
    | cons b bt ih =>
      rw [List.flatMap_cons, List.append_assoc, decode_escape b.toNat_lt, ih, UInt8.ofNat_toNat]
      rfl

theorem canonical_decoded (path : List Char) : percent_decode (canonical_target_path path) = percent_decode path := by
  fun_induction canonical_target_path path with
  | case1 => rfl
  | case2 high l r m n hm hn b ih =>
    have hb : b < 256 := hex_pair_lt hn hm
    rw [percent_decode, hm, hn]
    split
    · rename_i hu
      rw [List.singleton_append, decode_plain (unreserved_plain hb hu).1, ((byte_table b hb).2 hu).1, ih]
      rfl
    · rw [decode_escape hb, ih]
  | case3 high l r h ih =>
    rw [decode_encoded, ih, percent_decode]
    split
    · rename_i hm hn
      exact (h _ _ hm hn).elim
    · rfl
  | case4 c r h ih =>
    rw [decode_encoded, ih, percent_decode]
    exact h

/-! ## Separators -/

theorem canonical_slash (a b : List Char) :
    canonical_target_path (a ++ '/' :: b) = canonical_target_path a ++ '/' :: canonical_target_path b := by
  have hs : hex_value '/' = none := by decide
  fun_induction canonical_target_path a with
  | case1 => exact canonical_cons fun _ _ _ h => absurd h (by decide)
  | case2 high l r m n hm hn bt ih =>
    rw [List.append_assoc, ← ih]
    exact canonical_escape hn hm _
  | case3 high l r h ih =>
    rw [List.append_assoc, ← ih]
    refine canonical_cons fun hi' l' t _ hr m n hm hn => ?_
    cases hr
    exact h m n hm hn
  | case4 c r h ih =>
    rw [List.append_assoc, ← ih]
    refine canonical_cons fun high l t hc hr m n hm hn => ?_
    rcases r with - | ⟨x, - | ⟨y, r⟩⟩
    · cases hr
      rw [hs] at hm
      cases hm
    · cases hr
      rw [hs] at hn
      cases hn
    · exact h x y r hc rfl

theorem slash_not_mem_escape {byte : Nat} (hb : byte < 256) : '/' ∉ escape byte := by
  have hg := (hex_digit_value (byte / 16) (by omega)).2
  have hl := (hex_digit_value (byte % 16) (by omega)).2
  simp [escape, hg.symm, hl.symm]

theorem slash_of_encoded {c : Char} (h : '/' ∈ utf8_percent_encode c) : c = '/' := by
  unfold utf8_percent_encode at h
  split at h
  · exact (List.mem_singleton.mp h).symm
  · obtain ⟨b, -, hb⟩ := List.mem_flatMap.mp h
    exact absurd hb (slash_not_mem_escape b.toNat_lt)

theorem slash_not_mem_canonical {a : List Char} (h : '/' ∉ a) : '/' ∉ canonical_target_path a := by
  fun_induction canonical_target_path a with
  | case1 => exact h
  | case2 high l rest m n hm hn b ih =>
    have hb : b < 256 := hex_pair_lt hn hm
    have hr : '/' ∉ rest := fun hmm => h (by simp [hmm])
    refine List.not_mem_append ?_ (ih hr)
    split
    · rename_i hu
      exact fun hmm => ((byte_table b hb).2 hu).2 (List.mem_singleton.mp hmm).symm
    · exact slash_not_mem_escape hb
  | case3 high l rest hne ih =>
    exact List.not_mem_append (fun hmm => absurd (slash_of_encoded hmm) (by decide))
      (ih fun hmm => h (List.mem_cons_of_mem _ hmm))
  | case4 c rest hne ih =>
    exact List.not_mem_append (fun hmm => h (slash_of_encoded hmm ▸ List.mem_cons_self))
      (ih fun hmm => h (List.mem_cons_of_mem _ hmm))

theorem canonical_segments (p : List Char) :
    (canonical_target_path p).splitOn '/' = (p.splitOn '/').map canonical_target_path := by
  induction hn : p.length using Nat.strongRecOn generalizing p with
  | _ n ih =>
    by_cases h : '/' ∈ p
    · obtain ⟨a, b, rfl, ha⟩ := List.eq_append_cons_of_mem h
      rw [canonical_slash, List.splitOn_append_cons_self_of_not_mem (slash_not_mem_canonical ha),
        List.splitOn_append_cons_self_of_not_mem ha, List.map_cons]
      rw [ih b.length (by rw [← hn, List.length_append, List.length_cons]; omega) b rfl]
    · rw [List.splitOn_eq_singleton (slash_not_mem_canonical h), List.splitOn_eq_singleton h]
      rfl

/-- The scan ends without a panic; its result is canonical, of the same bytes, part by part. -/
theorem canonical_path_kept (path : List Char) :
    canonical_scan path (path.length + 1) 0 = some (canonical_target_path path) ∧
    canonical_target_path (canonical_target_path path) = canonical_target_path path ∧
    percent_decode (canonical_target_path path) = percent_decode path ∧
    (canonical_target_path path).splitOn '/' = (path.splitOn '/').map canonical_target_path :=
  ⟨scan_from [] path rfl path.length.lt_succ_self, (canonical_path_canonical path).fixed, canonical_decoded path,
    canonical_segments path⟩

end Monosecret.Integration.Git
