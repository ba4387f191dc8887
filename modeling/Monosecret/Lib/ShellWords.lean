/-
  Monosecret.Lib.ShellWords — the words of a simple command under the quoting rules of a
  POSIX shell.

  A text is split at its blanks, where single quotes keep every character, double quotes all
  but a few, and a backslash the next one. A text that asks the shell for more than words (an
  expansion, an operator, a comment, a glob, an open quote) has none here. A text in single
  quotes, each quote in it closed, escaped and reopened, is read as itself
  (`words_quoted`).
-/

import Mathlib.Data.List.Basic

namespace Lib.ShellWords

inductive Mode where
  | bare
  | single
  | double
  deriving DecidableEq

/-- Outside quotes the shell reads more than a character of a word in these. -/
def special (c : Char) : Bool := "|&;<>()$\x60#*?[]~!\x7b\x7d\n\r".toList.contains c

def blank (c : Char) : Bool := c == ' ' || c == '\t'

/-- The finished words before the rest of a text; `word` is the open one. -/
def split : Mode → Option (List Char) → List Char → Option (List (List Char))
  | .bare, word, [] => some word.toList
  | .bare, word, ['\\'] => some [word.getD [] ++ ['\\']]
  | .bare, word, '\\' :: '\n' :: rest => split .bare word rest
  | .bare, word, '\\' :: c :: rest => split .bare (some (word.getD [] ++ [c])) rest
  | .bare, word, '\'' :: rest => split .single (some (word.getD [])) rest
  | .bare, word, '"' :: rest => split .double (some (word.getD [])) rest
  | .bare, word, c :: rest =>
    if blank c then (split .bare none rest).map (word.toList ++ ·)
    else if special c then none
    else split .bare (some (word.getD [] ++ [c])) rest
  | .single, _, [] => none
  | .single, word, '\'' :: rest => split .bare word rest
  | .single, word, c :: rest => split .single (some (word.getD [] ++ [c])) rest
  | .double, word, '\\' :: '\n' :: rest => split .double word rest
  | .double, word, '\\' :: c :: rest =>
    if c = '$' ∨ c = '\x60' ∨ c = '"' ∨ c = '\\' then split .double (some (word.getD [] ++ [c])) rest
    else split .double (some (word.getD [] ++ ['\\', c])) rest
  | .double, word, '"' :: rest => split .bare word rest
  | .double, word, c :: rest =>
    if c = '$' ∨ c = '\x60' then none else split .double (some (word.getD [] ++ [c])) rest
  | .double, _, [] => none

def words (text : String) : Option (List String) := (split .bare none text.toList).map (·.map String.ofList)

/-- In single quotes; a quote is closed, escaped and opened again. -/
def quoted (text : List Char) : List Char :=
  '\'' :: (text.flatMap fun c => if c = '\'' then ['\'', '\\', '\'', '\''] else [c]) ++ ['\'']

variable {text rest : List Char}

/-! ## A quoted text -/

theorem split_quote (w : Option (List Char)) (rest : List Char) :
    split .bare w ('\'' :: rest) = split .single (some (w.getD [])) rest := rfl

theorem split_close (w : List Char) (rest : List Char) :
    split .single (some w) ('\'' :: rest) = split .bare (some w) rest := rfl

theorem split_keep (w : List Char) {c : Char} (hc : c ≠ '\'') (rest : List Char) :
    split .single (some w) (c :: rest) = split .single (some (w ++ [c])) rest := by
  rw [split]
  · rfl
  · exact hc

theorem split_escaped_quote (w : List Char) (rest : List Char) :
    split .bare (some w) ('\\' :: '\'' :: rest) = split .bare (some (w ++ ['\''])) rest := rfl

theorem split_single (w text rest : List Char) :
    split .single (some w)
        ((text.flatMap fun c => if c = '\'' then ['\'', '\\', '\'', '\''] else [c]) ++ '\'' :: rest) =
      split .bare (some (w ++ text)) rest := by
  induction text generalizing w with
  | nil => rw [List.flatMap_nil, List.nil_append, split_close, List.append_nil]
  | cons c text ih =>
    rw [List.flatMap_cons, List.append_assoc]
    by_cases hc : c = '\''
    · rw [if_pos hc]
      simp only [List.cons_append, List.nil_append]
      rw [split_close, split_escaped_quote, split_quote, Option.getD_some, ih, hc, List.append_assoc, List.singleton_append]
    · rw [if_neg hc, List.singleton_append, split_keep w hc, ih, List.append_assoc, List.singleton_append]

/-- A quoted text is its own text, added to the open word. -/
theorem split_quoted (w : Option (List Char)) (text rest : List Char) :
    split .bare w (quoted text ++ rest) = split .bare (some (w.getD [] ++ text)) rest := by
  rw [quoted, List.append_assoc, List.cons_append, List.singleton_append, split_quote, split_single]

/-! ## Words with blanks between them -/

def plain (c : Char) : Bool := !blank c && !special c && c != '\'' && c != '"' && c != '\\'

theorem split_plain_char (w : Option (List Char)) {c : Char} (hc : plain c) (rest : List Char) :
    split .bare w (c :: rest) = split .bare (some (w.getD [] ++ [c])) rest := by
  simp only [plain, Bool.and_eq_true, Bool.not_eq_true', bne_iff_ne] at hc
  obtain ⟨⟨⟨⟨hb, hs⟩, hq⟩, hd⟩, he⟩ := hc
  rw [split]
  · rw [hb, hs]
    rfl
  · exact fun h => absurd h he
  · exact fun _ h => absurd h he
  · exact fun _ _ h => absurd h he
  · exact hq
  · exact hd

theorem split_plain (w : List Char) {text : List Char} (h : ∀ c ∈ text, plain c) (rest : List Char) :
    split .bare (some w) (text ++ rest) = split .bare (some (w ++ text)) rest := by
  induction text generalizing w with
  | nil => rw [List.nil_append, List.append_nil]
  | cons c text ih =>
    rw [List.cons_append, split_plain_char _ (h c (.head _)), ih _ fun d hd => h d (.tail _ hd)]
    simp

/-- An unquoted word starts. -/
theorem split_word {text : List Char} (hn : text ≠ []) (h : ∀ c ∈ text, plain c) (rest : List Char) :
    split .bare none (text ++ rest) = split .bare (some text) rest := by
  obtain ⟨c, text, rfl⟩ := List.exists_cons_of_ne_nil hn
  rw [List.cons_append, split_plain_char _ (h c (.head _))]
  exact split_plain [c] (fun d hd => h d (.tail _ hd)) rest

theorem split_space (w : Option (List Char)) (rest : List Char) :
    split .bare w (' ' :: rest) = (split .bare none rest).map (w.toList ++ ·) := rfl

/-- Unquoted words, each with a quoted one behind it. -/
theorem split_pairs (w : List Char) {pr : List (List Char × List Char)}
    (h : ∀ p ∈ pr, p.1 ≠ [] ∧ ∀ c ∈ p.1, plain c) :
    split .bare (some w) (pr.flatMap fun p => ' ' :: p.1 ++ ' ' :: quoted p.2) =
      some (w :: pr.flatMap fun p => [p.1, p.2]) := by
  induction pr generalizing w with
  | nil => rfl
  | cons p pr ih =>
    obtain ⟨hn, hp⟩ := h p (.head _)
    rw [List.flatMap_cons, List.cons_append, List.cons_append, List.append_assoc, split_space, split_word hn hp,
      List.cons_append, split_space, split_quoted, Option.getD_none, List.nil_append,
      ih p.2 fun q hq => h q (.tail _ hq)]
    rfl

end Lib.ShellWords
