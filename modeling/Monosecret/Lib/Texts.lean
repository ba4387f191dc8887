/-
  Monosecret.Lib.Texts — texts cut at their ends and at a separator, and decimal numbers.

  Texts are lists of characters. Each cut has one lemma for the text it leaves alone and one
  for the text it cuts, and a decimal number reads back as itself (`parse_unsigned_digits`).
-/

import Mathlib.Data.List.Infix
import Mathlib.Data.List.DropRight

namespace Lib.Texts

variable {p : Char → Bool} {c : Char} {l : List Char}

/-! ## Ends -/

/-- Without the characters of a kind at both ends. -/
def trim (p : Char → Bool) (l : List Char) : List Char := (l.dropWhile p).rdropWhile p

theorem rdropWhile_apart (h : ∀ c ∈ l, p c = false) : l.rdropWhile p = l :=
  List.rdropWhile_eq_self_iff.mpr fun hn hp => by simp [h _ (List.getLast_mem hn)] at hp

theorem dropWhile_apart (h : ∀ c ∈ l, p c = false) : l.dropWhile p = l :=
  List.dropWhile_eq_self_iff.mpr fun hl hp => by simp [h _ (List.getElem_mem hl)] at hp

theorem trim_apart (h : ∀ c ∈ l, p c = false) : trim p l = l := by
  rw [trim, dropWhile_apart h, rdropWhile_apart h]

theorem takeWhile_split (h : ∀ d ∈ l, p d) (hc : p c = false) (r : List Char) :
    (l ++ c :: r).takeWhile p = l := by
  rw [List.takeWhile_append_of_pos h, List.takeWhile_cons, hc, if_neg Bool.false_ne_true, List.append_nil]

theorem dropWhile_split (h : ∀ d ∈ l, p d) (hc : p c = false) (rest : List Char) :
    (l ++ c :: rest).dropWhile p = c :: rest := by
  rw [List.dropWhile_append_of_pos h, List.dropWhile_cons, hc, if_neg Bool.false_ne_true]

/-! ## Separators -/

/-- Around the first occurrence of a text. -/
def split_once (separator : List Char) : List Char → Option (List Char × List Char)
  | [] => if separator = [] then some ([], []) else none
  | c :: l =>
    if separator.isPrefixOf (c :: l) then some ([], (c :: l).drop separator.length)
    else (split_once separator l).map fun halves => (c :: halves.1, halves.2)

/-- Around the last occurrence of a character. -/
def rsplit_once (separator : Char) : List Char → Option (List Char × List Char)
  | [] => none
  | c :: l =>
    match rsplit_once separator l with
    | some halves => some (c :: halves.1, halves.2)
    | none => if c = separator then some ([], l) else none

/-- A text that lacks a character of the separator is not split. -/
theorem split_once_none {s : List Char} (hs : c ∈ s) (h : c ∉ l) : split_once s l = none := by
  induction l with
  | nil =>
    rw [split_once, if_neg (List.ne_nil_of_mem hs)]
  | cons d l ih =>
    have hr : s.isPrefixOf (d :: l) = false := by
      rw [Bool.eq_false_iff]
      intro hp
      exact h ((List.isPrefixOf_iff_prefix.mp hp).subset hs)
    rw [split_once, hr, if_neg Bool.false_ne_true, ih (List.not_mem_of_not_mem_cons h), Option.map_none]

theorem split_once_first (h : c ∉ l) (r : List Char) : split_once [c] (l ++ c :: r) = some (l, r) := by
  induction l with
  | nil => simp [split_once]
  | cons d l ih =>
    rw [List.mem_cons, not_or] at h
    obtain ⟨hn, hr⟩ := h
    rw [List.cons_append, split_once, ih hr]
    simp [hn]

theorem rsplit_once_none (h : c ∉ l) : rsplit_once c l = none := by
  induction l with
  | nil => rfl
  | cons d l ih =>
    rw [rsplit_once, ih (List.not_mem_of_not_mem_cons h)]
    exact if_neg (List.ne_of_not_mem_cons h).symm

theorem rsplit_once_last {r : List Char} (h : c ∉ r) : rsplit_once c (l ++ c :: r) = some (l, r) := by
  induction l with
  | nil =>
    rw [List.nil_append, rsplit_once, rsplit_once_none h]
    exact if_pos rfl
  | cons d l ih => rw [List.cons_append, rsplit_once, ih]

/-! ## Decimal numbers -/

/-- `str::parse` of an unsigned integer below a bound. -/
def parse_unsigned (bound : Nat) (l : List Char) : Option Nat :=
  let digits := if l.head? = some '+' then l.tail else l
  if digits ≠ [] ∧ digits.all Char.isDigit then (some (Nat.ofDigitChars 10 digits 0)).filter (· < bound) else none

theorem isDigit_of_mem_digits {n : Nat} (h : c ∈ Nat.toDigits 10 n) : c.isDigit :=
  Nat.isDigit_of_mem_toDigits (by decide) (by decide) h

theorem parse_unsigned_digits {n b : Nat} (h : n < b) : parse_unsigned b (Nat.toDigits 10 n) = some n := by
  have hp : ¬ (Nat.toDigits 10 n).head? = some '+' := fun he =>
    absurd (isDigit_of_mem_digits (List.mem_of_mem_head? he)) (by decide)
  have ha : (Nat.toDigits 10 n).all Char.isDigit := List.all_eq_true.mpr fun _ hc => isDigit_of_mem_digits hc
  simp only [parse_unsigned, if_neg hp, ha, Nat.toDigits_ne_nil, Nat.ofDigitChars_ten_toDigits, ne_eq,
    not_false_eq_true, and_self, if_true, Option.filter_some, h, decide_true]

end Lib.Texts
