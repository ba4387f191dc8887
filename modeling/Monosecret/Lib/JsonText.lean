/-
  Monosecret.Lib.JsonText — compact JSON text.

  A tree is written without white space, control characters in strings escaped, so that a
  text is one line (`render_one_line`). What was written is read back (`parse_render`), for
  trees without fractions: a number that is no integer is not written.
-/

import Mathlib.Algebra.Group.Int.Defs
import Monosecret.Lib.Json
import Monosecret.Lib.LengthPrefix

namespace Lib.JsonText

open Json
open List (append_assoc append_nil cons_append length_append length_cons)

/-! ## Strings -/

def hex_digit (n : Nat) : Char := if n < 10 then Char.ofNat (48 + n) else Char.ofNat (87 + n)

def escape (c : Char) : List Char :=
  if c = '\x22' ∨ c = '\x5c' then ['\x5c', c]
  else if c = '\x08' then ['\x5c', 'b']
  else if c = '\t' then ['\x5c', 't']
  else if c = '\n' then ['\x5c', 'n']
  else if c = '\x0c' then ['\x5c', 'f']
  else if c = '\r' then ['\x5c', 'r']
  else if c.toNat < 32 then ['\x5c', 'u', '0', '0', hex_digit (c.toNat / 16), hex_digit (c.toNat % 16)]
  else [c]

def render_string (s : String) : List Char := '\x22' :: s.toList.flatMap escape ++ ['\x22']

def unhex (c : Char) : Option Nat :=
  if 48 ≤ c.toNat ∧ c.toNat ≤ 57 then some (c.toNat - 48)
  else if 97 ≤ c.toNat ∧ c.toNat ≤ 102 then some (c.toNat - 87)
  else none

def unescape (c : Char) : Option Char :=
  if c = '\x22' ∨ c = '\x5c' ∨ c = '/' then some c
  else if c = 'b' then some '\x08'
  else if c = 't' then some '\t'
  else if c = 'n' then some '\n'
  else if c = 'f' then some '\x0c'
  else if c = 'r' then some '\r'
  else none

/-- The characters up to the closing quote, and what follows it. -/
def parse_chars : List Char → Option (List Char × List Char)
  | [] => none
  | c :: rest =>
    if c = '\x22' then some ([], rest)
    else if c = '\x5c' then
      match rest with
      | [] => none
      | e :: rest =>
        if e = 'u' then
          match rest with
          | a :: b :: h :: l :: rest =>
            match unhex h, unhex l with
            | some high, some low =>
              if a = '0' ∧ b = '0' then (parse_chars rest).map fun p => (Char.ofNat (high * 16 + low) :: p.1, p.2) else none
            | _, _ => none
          | _ => none
        else
          match unescape e with
          | some c => (parse_chars rest).map fun p => (c :: p.1, p.2)
          | none => none
    else if c.toNat < 32 then none
    else (parse_chars rest).map fun p => (c :: p.1, p.2)

def parse_string (text : List Char) : Option (String × List Char) :=
  (parse_chars text).map fun p => (String.ofList p.1, p.2)

/-! ## Integers -/

def render_int : Int → List Char
  | .ofNat n => Nat.toDigits 10 n
  | .negSucc n => '-' :: Nat.toDigits 10 (n + 1)

def parse_nat (text : List Char) : Option (Nat × List Char) :=
  if text.takeWhile Char.isDigit = [] then none
  else some (Nat.ofDigitChars 10 (text.takeWhile Char.isDigit) 0, text.dropWhile Char.isDigit)

def parse_int (text : List Char) : Option (Int × List Char) :=
  match text with
  | [] => none
  | c :: rest =>
    if c = '-' then (parse_nat rest).map fun parsed => (-(parsed.1 : Int), parsed.2)
    else (parse_nat text).map fun parsed => ((parsed.1 : Int), parsed.2)

/-! ## Trees -/

mutual

def render : Json → List Char
  | .null => ['n', 'u', 'l', 'l']
  | .bool true => ['t', 'r', 'u', 'e']
  | .bool false => ['f', 'a', 'l', 's', 'e']
  | .int n => render_int n
  | .real _ => ['n', 'u', 'l', 'l']
  | .str s => render_string s
  | .arr [] => ['[', ']']
  | .arr (item :: items) => '[' :: (render item ++ render_items items)
  | .obj [] => ['\x7b', '\x7d']
  | .obj ((key, member) :: members) => '\x7b' :: (render_string key ++ ':' :: render member ++ render_members members)

def render_items : List Json → List Char
  | [] => [']']
  | item :: items => ',' :: (render item ++ render_items items)

def render_members : List (String × Json) → List Char
  | [] => ['\x7d']
  | (key, member) :: members => ',' :: (render_string key ++ ':' :: render member ++ render_members members)

end

/-- The text after a literal. -/
def after : List Char → List Char → Option (List Char)
  | [], text => some text
  | _ :: _, [] => none
  | c :: literal, d :: text => if c = d then after literal text else none

mutual

def parse_value : Nat → List Char → Option (Json × List Char)
  | 0, _ => none
  | _ + 1, [] => none
  | fuel + 1, c :: rest =>
    if c = 'n' then (after ['u', 'l', 'l'] rest).map fun rest => (.null, rest)
    else if c = 't' then (after ['r', 'u', 'e'] rest).map fun rest => (.bool true, rest)
    else if c = 'f' then (after ['a', 'l', 's', 'e'] rest).map fun rest => (.bool false, rest)
    else if c = '\x22' then (parse_string rest).map fun parsed => (.str parsed.1, parsed.2)
    else if c = '[' then
      if rest.head? = some ']' then some (.arr [], rest.tail)
      else do
        let (item, rest) ← parse_value fuel rest
        let (items, rest) ← parse_items fuel rest
        some (.arr (item :: items), rest)
    else if c = '\x7b' then
      if rest.head? = some '\x7d' then some (.obj [], rest.tail)
      else do
        let (member, rest) ← parse_member fuel rest
        let (members, rest) ← parse_members fuel rest
        some (.obj (member :: members), rest)
    else (parse_int (c :: rest)).map fun parsed => (.int parsed.1, parsed.2)

def parse_items : Nat → List Char → Option (List Json × List Char)
  | 0, _ => none
  | _ + 1, [] => none
  | fuel + 1, c :: rest =>
    if c = ']' then some ([], rest)
    else if c = ',' then do
      let (item, rest) ← parse_value fuel rest
      let (items, rest) ← parse_items fuel rest
      some (item :: items, rest)
    else none

def parse_member : Nat → List Char → Option ((String × Json) × List Char)
  | 0, _ => none
  | fuel + 1, text => do
    let rest ← after ['\x22'] text
    let (key, rest) ← parse_string rest
    let rest ← after [':'] rest
    let (member, rest) ← parse_value fuel rest
    some ((key, member), rest)

def parse_members : Nat → List Char → Option (List (String × Json) × List Char)
  | 0, _ => none
  | _ + 1, [] => none
  | fuel + 1, c :: rest =>
    if c = '\x7d' then some ([], rest)
    else if c = ',' then do
      let (member, rest) ← parse_member fuel rest
      let (members, rest) ← parse_members fuel rest
      some (member :: members, rest)
    else none

end

def parse (text : List Char) : Option Json :=
  match parse_value (text.length + 1) text with
  | some (value, []) => some value
  | _ => none

mutual

/-- A tree every reader hands back as it was written: whole numbers of 64 bits, no key twice. -/
def Plain : Json → Prop
  | .int n => -2 ^ 63 ≤ n ∧ n < 2 ^ 64
  | .real _ => False
  | .arr items => PlainItems items
  | .obj members => PlainMembers members ∧ (members.map Prod.fst).Nodup
  | _ => True

def PlainItems : List Json → Prop
  | [] => True
  | item :: items => Plain item ∧ PlainItems items

def PlainMembers : List (String × Json) → Prop
  | [] => True
  | (_, member) :: members => Plain member ∧ PlainMembers members

end

/-! ## Strings are read back -/

theorem unhex_hex : ∀ n < 16, unhex (hex_digit n) = some n := by decide

theorem parse_chars_quote (rest : List Char) : parse_chars ('\x22' :: rest) = some ([], rest) := by
  unfold parse_chars
  rw [if_pos rfl]

theorem parse_chars_short {e c : Char} (he : e ≠ 'u') (hc : unescape e = some c) (rest : List Char) :
    parse_chars ('\x5c' :: e :: rest) = (parse_chars rest).map fun p => (c :: p.1, p.2) := by
  rw [parse_chars.eq_def]
  simp only [he, hc, if_false, if_true, Char.reduceEq]

theorem parse_chars_control {h l : Char} {high lw : Nat} (hh : unhex h = some high) (hl : unhex l = some lw)
    (rest : List Char) : parse_chars ('\x5c' :: 'u' :: '0' :: '0' :: h :: l :: rest) =
      (parse_chars rest).map fun p => (Char.ofNat (high * 16 + lw) :: p.1, p.2) := by
  rw [parse_chars.eq_def]
  simp only [hh, hl, and_self, if_true, reduceIte, Char.reduceEq]

theorem parse_chars_other {c : Char} (hq : c ≠ '\x22') (hb : c ≠ '\x5c') (hc : ¬c.toNat < 32) (rest : List Char) :
    parse_chars (c :: rest) = (parse_chars rest).map fun p => (c :: p.1, p.2) := by
  rw [parse_chars.eq_def]
  simp only [hq, hb, hc, if_false]

theorem parse_chars_escape (c : Char) (rest : List Char) :
    parse_chars (escape c ++ rest) = (parse_chars rest).map fun p => (c :: p.1, p.2) := by
  unfold escape
  split_ifs with ht hc htb hl hf hr hn
  · rcases ht with rfl | rfl <;> exact parse_chars_short (by decide) rfl rest
  · exact hc ▸ parse_chars_short (by decide) rfl rest
  · exact htb ▸ parse_chars_short (by decide) rfl rest
  · exact hl ▸ parse_chars_short (by decide) rfl rest
  · exact hf ▸ parse_chars_short (by decide) rfl rest
  · exact hr ▸ parse_chars_short (by decide) rfl rest
  · have hg := unhex_hex (c.toNat / 16) (by omega)
    have hw := unhex_hex (c.toNat % 16) (by omega)
    have hd : Char.ofNat (c.toNat / 16 * 16 + c.toNat % 16) = c := by
      rw [Nat.div_add_mod', Char.ofNat_toNat]
    rw [cons_append, cons_append, cons_append, cons_append, cons_append, cons_append,
      List.nil_append, parse_chars_control hg hw rest, hd]
  · obtain ⟨hq, hb⟩ := not_or.mp ht
    exact parse_chars_other hq hb hn rest

theorem parse_chars_flatMap (cs rest : List Char) :
    parse_chars (cs.flatMap escape ++ '\x22' :: rest) = some (cs, rest) := by
  induction cs with
  | nil => exact parse_chars_quote rest
  | cons c cs ih => rw [List.flatMap_cons, append_assoc, parse_chars_escape, ih, Option.map_some]

theorem parse_string_render (s : String) (rest : List Char) :
    parse_string (s.toList.flatMap escape ++ '\x22' :: rest) = some (s, rest) := by
  unfold parse_string
  rw [parse_chars_flatMap, Option.map_some, String.ofList_toList]

/-! ## Integers are read back -/

/-- What follows a tree in its text: no digit that would run on. -/
def Apart (rest : List Char) : Prop := ∀ c ∈ rest.head?, c.isDigit = false

variable {rest : List Char}

theorem takeWhile_digits {n : Nat} (h : Apart rest) :
    (Nat.toDigits 10 n ++ rest).takeWhile Char.isDigit = Nat.toDigits 10 n := by
  rw [List.takeWhile_append_of_pos fun c hc => Nat.isDigit_of_mem_toDigits (by decide) (by decide) hc]
  cases rest with
  | nil => rw [List.takeWhile_nil, append_nil]
  | cons c rest => rw [List.takeWhile_cons, h c rfl, if_neg Bool.false_ne_true, append_nil]

theorem dropWhile_digits {n : Nat} (h : Apart rest) : (Nat.toDigits 10 n ++ rest).dropWhile Char.isDigit = rest := by
  rw [List.dropWhile_append_of_pos fun c hc => Nat.isDigit_of_mem_toDigits (by decide) (by decide) hc]
  cases rest with
  | nil => rfl
  | cons c rest => rw [List.dropWhile_cons, h c rfl, if_neg Bool.false_ne_true]

theorem parse_nat_digits {n : Nat} (h : Apart rest) : parse_nat (Nat.toDigits 10 n ++ rest) = some (n, rest) := by
  unfold parse_nat
  rw [takeWhile_digits h, dropWhile_digits h, if_neg Nat.toDigits_ne_nil, Nat.ofDigitChars_ten_toDigits]

theorem toDigits_cons (n : Nat) : ∃ c cs, Nat.toDigits 10 n = c :: cs ∧ c.isDigit := by
  cases h : Nat.toDigits 10 n with
  | nil => exact absurd h Nat.toDigits_ne_nil
  | cons c cs =>
    exact ⟨c, cs, rfl, Nat.isDigit_of_mem_toDigits (by decide) (by decide) (h ▸ List.mem_cons_self)⟩

theorem parse_int_render (n : Int) (h : Apart rest) : parse_int (render_int n ++ rest) = some (n, rest) := by
  cases n with
  | ofNat n =>
    have hp := parse_nat_digits (n := n) h
    obtain ⟨c, cs, hs, hc⟩ := toDigits_cons n
    have hn : c ≠ '-' := fun he => absurd (he ▸ hc) (by decide)
    simp only [render_int, hs, cons_append] at hp ⊢
    simp only [parse_int, hn, if_false, hp]
    rfl
  | negSucc n =>
    simp only [render_int, cons_append, parse_int, if_true, parse_nat_digits h]
    rfl

/-! ## Trees are read back -/

theorem after_append (l rest : List Char) : after l (l ++ rest) = some rest := by
  induction l with
  | nil => rfl
  | cons c l ih => rw [cons_append, after, if_pos rfl, ih]

theorem apart_items (i : List Json) (rest : List Char) : Apart (render_items i ++ rest) := by
  intro c hc
  cases i with
  | nil | cons it i => cases hc; decide

theorem apart_members (m : List (String × Json)) (rest : List Char) : Apart (render_members m ++ rest) := by
  intro c hc
  cases m with
  | nil | cons e m => cases hc; decide

/-- An integer's text starts no other tree. -/
theorem render_int_cons (n : Int) : ∃ c cs, render_int n = c :: cs ∧ (c.isDigit ∨ c = '-') := by
  cases n with
  | ofNat n =>
    obtain ⟨c, cs, hs, hc⟩ := toDigits_cons n
    exact ⟨c, cs, hs, .inl hc⟩
  | negSucc n => exact ⟨'-', _, rfl, .inr rfl⟩

theorem render_head (v : Json) : ∃ c cs, render v = c :: cs ∧ c ≠ ']' := by
  cases v with
  | int n =>
    obtain ⟨c, cs, hs, hc⟩ := render_int_cons n
    refine ⟨c, cs, hs, ?_⟩
    rintro rfl
    revert hc
    decide
  | bool b => cases b <;> exact ⟨_, _, rfl, by decide⟩
  | arr i => cases i <;> exact ⟨_, _, rfl, by decide⟩
  | obj m => cases m <;> exact ⟨_, _, rfl, by decide⟩
  | _ => exact ⟨_, _, rfl, by decide⟩

theorem render_string_append (s : String) (rest : List Char) :
    render_string s ++ rest = '\x22' :: (s.toList.flatMap escape ++ '\x22' :: rest) := by
  simp [render_string]

theorem parse_member_render (k : String) {m : Json} {f : Nat}
    (hv : parse_value f (render m ++ rest) = some (m, rest)) :
    parse_member (f + 1) (render_string k ++ ':' :: (render m ++ rest)) = some ((k, m), rest) := by
  have hc := after_append [':'] (render m ++ rest)
  have hq := after_append ['\x22'] (k.toList.flatMap escape ++ '\x22' :: ':' :: (render m ++ rest))
  rw [render_string_append, parse_member]
  simp only [cons_append, List.nil_append] at hq hc
  simp only [hq, parse_string_render, hc, hv, Option.bind_eq_bind, Option.bind_some]

mutual

theorem parse_value_render (v : Json) (hv : Plain v) (fuel : Nat) (rest : List Char) (hr : Apart rest)
    (hf : (render v).length ≤ fuel) : parse_value fuel (render v ++ rest) = some (v, rest) := by
  obtain _ | fuel := fuel
  · obtain ⟨c, cs, hs, -⟩ := render_head v
    rw [hs] at hf
    exact absurd hf (by simp)
  cases v with
  | null => rfl
  | bool b => cases b <;> rfl
  | real r => exact absurd hv id
  | int n =>
    obtain ⟨c, cs, hs, hc⟩ := render_int_cons n
    have hn := parse_int_render n hr
    simp only [render, hs, cons_append] at hn ⊢
    have hne : ∀ d : Char, ¬(d.isDigit ∨ d = '-') → c ≠ d := fun d hd he => hd (he ▸ hc)
    simp only [parse_value, hne 'n' (by decide), hne 't' (by decide), hne 'f' (by decide), hne '\x22' (by decide),
      hne '[' (by decide), hne '\x7b' (by decide), if_false, hn]
    rfl
  | str s =>
    simp only [render, render_string_append, parse_value, parse_string_render, Char.reduceEq, if_false, if_true]
    rfl
  | arr i =>
    cases i with
    | nil => rfl
    | cons it i =>
      obtain ⟨hi, hm⟩ := hv
      rw [render, length_cons, length_append] at hf
      have hfr := parse_value_render it hi fuel (render_items i ++ rest) (apart_items i rest) (by omega)
      have ho := parse_items_render i hm fuel rest hr (by omega)
      obtain ⟨c, cs, hs, hc⟩ := render_head it
      have hhd : (render it ++ (render_items i ++ rest)).head? ≠ some ']' := by
        rw [hs]
        exact fun he => hc (Option.some.inj he)
      simp only [render, cons_append, append_assoc, parse_value, Char.reduceEq, if_false, if_true, hhd,
        hfr, ho, Option.bind_eq_bind, Option.bind_some]
  | obj m =>
    cases m with
    | nil => rfl
    | cons e m =>
      obtain ⟨k, mm⟩ := e
      obtain ⟨⟨hb, hmm⟩, -⟩ := hv
      rw [render, length_cons, length_append, length_append, length_cons] at hf
      obtain _ | fuel := fuel
      · exact absurd hf (by omega)
      have hl := parse_value_render mm hb fuel (render_members m ++ rest) (apart_members m rest)
        (by omega)
      have hfr := parse_member_render k hl
      have ho := parse_members_render m hmm (fuel + 1) rest hr (by omega)
      have hhd : (render_string k ++ ':' :: (render mm ++ (render_members m ++ rest))).head? ≠ some '\x7d' := by
        rw [render_string_append]
        exact fun he => absurd (Option.some.inj he) (by decide)
      simp only [render, cons_append, append_assoc, parse_value, Char.reduceEq, if_false, if_true, hhd,
        hfr, ho, Option.bind_eq_bind, Option.bind_some]

theorem parse_items_render (i : List Json) (hm : PlainItems i) (fuel : Nat) (rest : List Char)
    (hr : Apart rest) (hf : (render_items i).length ≤ fuel) :
    parse_items fuel (render_items i ++ rest) = some (i, rest) := by
  obtain _ | fuel := fuel
  · cases i <;> exact absurd hf (by simp [render_items])
  cases i with
  | nil => rfl
  | cons it i =>
    obtain ⟨hi, hm⟩ := hm
    rw [render_items, length_cons, length_append] at hf
    have hfr := parse_value_render it hi fuel (render_items i ++ rest) (apart_items i rest) (by omega)
    have ho := parse_items_render i hm fuel rest hr (by omega)
    simp only [render_items, cons_append, append_assoc, parse_items, Char.reduceEq, if_false, if_true, hfr,
      ho, Option.bind_eq_bind, Option.bind_some]

theorem parse_members_render (m : List (String × Json)) (hm : PlainMembers m) (fuel : Nat)
    (rest : List Char) (hr : Apart rest) (hf : (render_members m).length ≤ fuel) :
    parse_members fuel (render_members m ++ rest) = some (m, rest) := by
  obtain _ | fuel := fuel
  · cases m <;> exact absurd hf (by simp [render_members])
  cases m with
  | nil => rfl
  | cons e m =>
    obtain ⟨k, mm⟩ := e
    obtain ⟨hb, hm⟩ := hm
    rw [render_members, length_cons, length_append, length_append, length_cons] at hf
    obtain _ | fuel := fuel
    · exact absurd hf (by omega)
    have hv := parse_value_render mm hb fuel (render_members m ++ rest) (apart_members m rest)
      (by omega)
    have hfr := parse_member_render k hv
    have ho := parse_members_render m hm (fuel + 1) rest hr (by omega)
    simp only [render_members, cons_append, append_assoc, parse_members, Char.reduceEq, if_false, if_true,
      hfr, ho, Option.bind_eq_bind, Option.bind_some]

end

theorem parse_render {v : Json} (hv : Plain v) : parse (render v) = some v := by
  have hl := parse_value_render v hv ((render v).length + 1) [] nofun (Nat.le_succ _)
  rw [append_nil] at hl
  unfold parse
  rw [hl]

/-! ## Bytes -/

def to_bytes (v : Json) : List UInt8 := (String.ofList (render v)).toByteArray.data.toList

def of_bytes (bytes : List UInt8) : Option Json := (String.fromUTF8? ⟨bytes.toArray⟩).bind fun text => parse text.toList

theorem of_bytes_to_bytes {v : Json} (hv : Plain v) : of_bytes (to_bytes v) = some v := by
  rw [of_bytes, to_bytes, from_utf8_bytes, Option.bind_some, String.toList_ofList, parse_render hv]

/-! ## One line -/

/-- No line break. -/
def OneLine (text : List Char) : Prop := '\n' ∉ text ∧ '\r' ∉ text

theorem OneLine.append {xs ys : List Char} (hx : OneLine xs) (hy : OneLine ys) : OneLine (xs ++ ys) :=
  ⟨fun h => (List.mem_append.mp h).elim hx.1 hy.1, fun h => (List.mem_append.mp h).elim hx.2 hy.2⟩

theorem OneLine.cons {c : Char} {xs : List Char} (hc : c ≠ '\n' ∧ c ≠ '\r') (hx : OneLine xs) : OneLine (c :: xs) :=
  ⟨fun h => (List.mem_cons.mp h).elim (fun he => hc.1 he.symm) hx.1,
    fun h => (List.mem_cons.mp h).elim (fun he => hc.2 he.symm) hx.2⟩

theorem one_line_nil : OneLine [] := ⟨List.not_mem_nil, List.not_mem_nil⟩

theorem one_line_hex : ∀ n < 16, hex_digit n ≠ '\n' ∧ hex_digit n ≠ '\r' := by decide

theorem one_line_escape (c : Char) : OneLine (escape c) := by
  unfold escape
  split_ifs with hq hb ht hl hf hr hc
  · rcases hq with rfl | rfl <;> exact ⟨by decide, by decide⟩
  · exact ⟨by decide, by decide⟩
  · exact ⟨by decide, by decide⟩
  · exact ⟨by decide, by decide⟩
  · exact ⟨by decide, by decide⟩
  · exact ⟨by decide, by decide⟩
  · have hg := one_line_hex (c.toNat / 16) (by omega)
    have hw := one_line_hex (c.toNat % 16) (by omega)
    have hd : OneLine ['\x5c', 'u', '0', '0'] := ⟨by decide, by decide⟩
    exact hd.append (.cons hg (.cons hw one_line_nil))
  · exact .cons ⟨hl, hr⟩ one_line_nil

theorem one_line_string (s : String) : OneLine (render_string s) := by
  have hi : OneLine (s.toList.flatMap escape) := by
    refine ⟨fun h => ?_, fun h => ?_⟩
    · obtain ⟨c, -, hc⟩ := List.mem_flatMap.mp h
      exact (one_line_escape c).1 hc
    · obtain ⟨c, -, hc⟩ := List.mem_flatMap.mp h
      exact (one_line_escape c).2 hc
  have hl : OneLine ['\x22'] := ⟨by decide, by decide⟩
  exact .append (.cons ⟨by decide, by decide⟩ hi) hl

theorem one_line_null : OneLine ['n', 'u', 'l', 'l'] := ⟨by decide, by decide⟩

theorem one_line_digits (n : Nat) : OneLine (Nat.toDigits 10 n) :=
  ⟨fun h => absurd (Nat.isDigit_of_mem_toDigits (by decide) (by decide) h) (by decide),
    fun h => absurd (Nat.isDigit_of_mem_toDigits (by decide) (by decide) h) (by decide)⟩

theorem one_line_int (n : Int) : OneLine (render_int n) := by
  cases n with
  | ofNat n => exact one_line_digits n
  | negSucc n => exact .cons ⟨by decide, by decide⟩ (one_line_digits (n + 1))

mutual

theorem render_one_line (v : Json) : OneLine (render v) := by
  cases v with
  | null => exact ⟨by decide, by decide⟩
  | bool b => cases b <;> exact ⟨by decide, by decide⟩
  | int n => exact one_line_int n
  | real r => exact one_line_null
  | str s => exact one_line_string s
  | arr i =>
    cases i with
    | nil => exact ⟨by decide, by decide⟩
    | cons it i =>
      have ht := (render_one_line it).append (items_one_line i)
      exact .cons ⟨by decide, by decide⟩ ht
  | obj m =>
    cases m with
    | nil => exact ⟨by decide, by decide⟩
    | cons e m =>
      have hv : OneLine (':' :: render e.2) := .cons ⟨by decide, by decide⟩ (render_one_line e.2)
      have ht := ((one_line_string e.1).append hv).append (members_one_line m)
      exact .cons ⟨by decide, by decide⟩ ht

theorem items_one_line (i : List Json) : OneLine (render_items i) := by
  cases i with
  | nil => exact ⟨by decide, by decide⟩
  | cons it i =>
    have ht := (render_one_line it).append (items_one_line i)
    exact .cons ⟨by decide, by decide⟩ ht

theorem members_one_line (m : List (String × Json)) : OneLine (render_members m) := by
  cases m with
  | nil => exact ⟨by decide, by decide⟩
  | cons e m =>
    have hv : OneLine (':' :: render e.2) := .cons ⟨by decide, by decide⟩ (render_one_line e.2)
    have ht := ((one_line_string e.1).append hv).append (members_one_line m)
    exact .cons ⟨by decide, by decide⟩ ht

end

end Lib.JsonText
