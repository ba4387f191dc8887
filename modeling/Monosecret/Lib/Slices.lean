/-
  Monosecret.Lib.Slices — texts cut at byte positions.

  A position counts the bytes before it, and a cut inside a character panics (`split_at` is
  none). The positions that `find` and `rfind` return are between characters, so what they
  are found in is cut there as it is written (`split_at_append`).
-/
import Mathlib.Algebra.GroupWithZero.Nat

namespace Lib.Slices

def byte_length (text : List Char) : Nat := (text.map Char.utf8Size).sum

/-- `&text[..index]` and `&text[index..]`. -/
def split_at : List Char → Nat → Option (List Char × List Char)
  | text, 0 => some ([], text)
  | [], _ + 1 => none
  | c :: text, index + 1 =>
    if c.utf8Size ≤ index + 1 then (split_at text (index + 1 - c.utf8Size)).map fun halves => (c :: halves.1, halves.2)
    else none

def str_to (text : List Char) (index : Nat) : Option (List Char) := (split_at text index).map Prod.fst

def str_from (text : List Char) (index : Nat) : Option (List Char) := (split_at text index).map Prod.snd

/-- `str::find` of a kind of character. -/
def find (p : Char → Bool) : List Char → Option Nat
  | [] => none
  | c :: text => if p c then some 0 else (find p text).map (c.utf8Size + ·)

def rfind (p : Char → Bool) : List Char → Option Nat
  | [] => none
  | c :: text =>
    match rfind p text with
    | some index => some (c.utf8Size + index)
    | none => if p c then some 0 else none

theorem byte_length_cons (c : Char) (text : List Char) : byte_length (c :: text) = c.utf8Size + byte_length text := by
  simp [byte_length]

theorem byte_length_append (a b : List Char) : byte_length (a ++ b) = byte_length a + byte_length b := by
  simp [byte_length]

theorem split_at_append (a b : List Char) : split_at (a ++ b) (byte_length a) = some (a, b) := by
  induction a with
  | nil => cases b <;> rfl
  | cons c a ih =>
    have hp := c.utf8Size_pos
    have hc := byte_length_cons c a
    obtain ⟨n, hn⟩ : ∃ n, byte_length (c :: a) = n + 1 := ⟨byte_length (c :: a) - 1, by omega⟩
    rw [hn, List.cons_append, split_at, if_pos (by omega), ← hn, hc, Nat.add_sub_cancel_left, ih]
    rfl

theorem str_to_append (a b : List Char) : str_to (a ++ b) (byte_length a) = some a := by
  rw [str_to, split_at_append, Option.map_some]

theorem str_from_append (a b : List Char) : str_from (a ++ b) (byte_length a) = some b := by
  rw [str_from, split_at_append, Option.map_some]

variable {p : Char → Bool}

theorem find_none {t : List Char} (h : ∀ c ∈ t, p c = false) : find p t = none := by
  induction t with
  | nil => rfl
  | cons c t ih =>
    obtain ⟨hc, ht⟩ := List.forall_mem_cons.mp h
    rw [find, hc, if_neg Bool.false_ne_true, ih ht, Option.map_none]

theorem find_first {a : List Char} {c : Char} (h : ∀ c ∈ a, p c = false) (hc : p c = true) (b : List Char) :
    find p (a ++ c :: b) = some (byte_length a) := by
  induction a with
  | nil => exact if_pos hc
  | cons d a ih =>
    obtain ⟨hd, ha⟩ := List.forall_mem_cons.mp h
    rw [List.cons_append, find, hd, if_neg Bool.false_ne_true, ih ha, byte_length_cons, Option.map_some]

theorem rfind_none {t : List Char} (h : ∀ c ∈ t, p c = false) : rfind p t = none := by
  induction t with
  | nil => rfl
  | cons c t ih =>
    obtain ⟨hc, ht⟩ := List.forall_mem_cons.mp h
    rw [rfind, ih ht, hc]
    rfl

theorem rfind_last (a : List Char) {b : List Char} {c : Char} (h : ∀ c ∈ b, p c = false) (hc : p c = true) :
    rfind p (a ++ c :: b) = some (byte_length a) := by
  induction a with
  | nil =>
    rw [List.nil_append, rfind, rfind_none h]
    exact if_pos hc
  | cons d a ih => rw [List.cons_append, rfind, ih, byte_length_cons]

/-- Around the first character of a kind, or there is none. -/
theorem first_cases (p : Char → Bool) (t : List Char) :
    (∀ c ∈ t, p c = false) ∨ ∃ a c b, t = a ++ c :: b ∧ (∀ c ∈ a, p c = false) ∧ p c = true := by
  induction t with
  | nil => exact .inl nofun
  | cons d t ih =>
    cases hd : p d with
    | true => exact .inr ⟨[], d, t, rfl, nofun, hd⟩
    | false =>
      rcases ih with h | ⟨a, c, b, rfl, ha, hc⟩
      · exact .inl (List.forall_mem_cons.mpr ⟨hd, h⟩)
      · exact .inr ⟨d :: a, c, b, rfl, List.forall_mem_cons.mpr ⟨hd, ha⟩, hc⟩

theorem last_cases (p : Char → Bool) (t : List Char) :
    (∀ c ∈ t, p c = false) ∨ ∃ a c b, t = a ++ c :: b ∧ (∀ c ∈ b, p c = false) ∧ p c = true := by
  rcases first_cases p t.reverse with h | ⟨b, c, a, ht, hb, hc⟩
  · exact .inl fun c hc => h c (List.mem_reverse.mpr hc)
  · refine .inr ⟨a.reverse, c, b.reverse, ?_, fun c hc => hb c (List.mem_reverse.mp hc), hc⟩
    rw [← List.reverse_reverse t, ht]
    simp

end Lib.Slices
