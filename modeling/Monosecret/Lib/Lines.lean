/-
  Monosecret.Lib.Lines — the lines of a text.

  A line ends at a line feed, which is not part of it, nor is a carriage return right before
  it; what follows the last line feed is a line if it is not empty. A line that is added to a
  text that ends a line is one more line (`lines_append`).
-/

import Mathlib.Data.String.Basic

namespace Lib

def strip_return (line : List Char) : List Char := if line.getLast? = some '\r' then line.dropLast else line

/-- The lines of a text, the first of which has begun. -/
def pieces : List Char → List Char → List (List Char)
  | begun, [] => if begun = [] then [] else [begun]
  | begun, c :: rest => if c = '\n' then strip_return begun :: pieces [] rest else pieces (begun ++ [c]) rest

def lines (text : String) : List String := (pieces [] text.toList).map String.ofList

/-- A text that ends no line is empty. -/
def Ended (text : List Char) : Prop := text = [] ∨ ∃ body, text = body ++ ['\n']

theorem pieces_append (b bd rest : List Char) :
    pieces b (bd ++ '\n' :: rest) = pieces b (bd ++ ['\n']) ++ pieces [] rest := by
  induction bd generalizing b with
  | nil => simp [pieces]
  | cons c bd ih =>
    simp only [List.cons_append, pieces]
    split
    · rw [ih, List.cons_append]
    · exact ih (b ++ [c])

theorem pieces_ended {t : List Char} (h : Ended t) (rest : List Char) :
    pieces [] (t ++ rest) = pieces [] t ++ pieces [] rest := by
  rcases h with rfl | ⟨b, rfl⟩
  · rfl
  · rw [List.append_assoc]
    exact pieces_append [] b rest

theorem pieces_line {l : List Char} (hf : '\n' ∉ l) (b : List Char) :
    pieces b (l ++ ['\n']) = [strip_return (b ++ l)] := by
  induction l generalizing b with
  | nil => simp [pieces]
  | cons c l ih =>
    obtain ⟨hc, hl⟩ := not_or.mp fun h => hf (List.mem_cons.mpr h)
    rw [List.cons_append, pieces, if_neg (Ne.symm hc), ih hl, List.append_assoc]
    rfl

theorem lines_append {t l : String} (h : Ended t.toList) (hf : '\n' ∉ l.toList) (hr : '\r' ∉ l.toList) :
    lines (t ++ l ++ "\n") = lines t ++ [l] := by
  have hs : strip_return l.toList = l.toList :=
    if_neg fun he => hr (List.mem_of_getLast? he)
  have hl : (t ++ l ++ "\n").toList = t.toList ++ (l.toList ++ ['\n']) := by
    rw [String.toList_append, String.toList_append, List.append_assoc]
    rfl
  unfold lines
  rw [hl, pieces_ended h, pieces_line hf, List.nil_append, hs, List.map_append, List.map_singleton,
    String.ofList_toList]

theorem lines_empty : lines "" = [] := rfl

end Lib
