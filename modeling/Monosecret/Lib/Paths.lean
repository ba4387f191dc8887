/-
  Monosecret.Lib.Paths — Unix paths by their components.

  Empty components and `.` do not count, except a `.` that comes first. So a separator at the
  end or after another one says nothing (`components_slash`, `components_slashes`), the root
  is what a first separator says (`root_mem`), and no letter of a name is lost
  (`count_components`).
-/

import Mathlib.Data.List.Basic
import Mathlib.Tactic.SplitIfs

namespace Lib.Paths

inductive Component where
  | RootDir
  | CurDir
  | ParentDir
  | Normal (name : List Char)
  deriving DecidableEq

def inner_component (part : List Char) : Option Component :=
  if part = [] ∨ part = ['.'] then none else some (if part = ['.', '.'] then .ParentDir else .Normal part)

def inner (path : List Char) : List Component := (path.splitOn '/').filterMap inner_component

/-- What only the start of a path says. -/
def first (path : List Char) : List Component :=
  if path.head? = some '/' then [.RootDir] else if (path.splitOn '/').head? = some ['.'] then [.CurDir] else []

/-- `Path::components`. -/
def components (path : List Char) : List Component := first path ++ inner path

/-- `Path::join`. -/
def join (directory path : List Char) : List Char :=
  if path.head? = some '/' then path
  else if directory = [] ∨ directory.getLast? = some '/' then directory ++ path
  else directory ++ '/' :: path

variable {a : List Char}

theorem splitOn_slash (a b : List Char) : (a ++ '/' :: b).splitOn '/' = a.splitOn '/' ++ b.splitOn '/' :=
  List.splitOn_append_cons_of_beq a b rfl

theorem inner_append (a b : List Char) : inner (a ++ '/' :: b) = inner a ++ inner b := by
  rw [inner, splitOn_slash, List.filterMap_append]
  rfl

theorem first_append (ha : a ≠ []) (b : List Char) : first (a ++ '/' :: b) = first a := by
  rw [first, splitOn_slash, List.head?_append_of_ne_nil _ ha, List.head?_append_of_ne_nil _ (List.splitOn_ne_nil _ _)]
  rfl

theorem components_slash (ha : a ≠ []) : components (a ++ ['/']) = components a := by
  rw [components, first_append ha, inner_append]
  exact congrArg (first a ++ ·) (List.append_nil _)

theorem components_slashes (a b : List Char) : components (a ++ '/' :: '/' :: b) = components (a ++ '/' :: b) := by
  have hi : inner ('/' :: b) = inner b := inner_append [] b
  by_cases ha : a = []
  · subst ha
    have hn : inner ('/' :: '/' :: b) = inner ('/' :: b) := inner_append [] ('/' :: b)
    rw [components, components, List.nil_append, List.nil_append, hn]
    rfl
  · rw [components, components, first_append ha, first_append ha, inner_append, inner_append, hi]

theorem inner_component_root (p : List Char) : inner_component p ≠ some .RootDir := by
  unfold inner_component
  split_ifs <;> simp

theorem root_mem (path : List Char) : .RootDir ∈ components path ↔ path.head? = some '/' := by
  have hi : .RootDir ∉ inner path := by
    intro hm
    obtain ⟨p, -, hp⟩ := List.mem_filterMap.mp hm
    exact inner_component_root p hp
  rw [components, List.mem_append, or_iff_left hi, first]
  split_ifs with hs hd
  · simp [hs]
  · simp [hs]
  · simp [hs]

/-! ## Letters -/

def Component.letters : Component → List Char
  | .Normal name => name
  | _ => []

theorem count_part {c : Char} (hc : c ≠ '.') {p : List Char} (hp : '/' ∉ p) :
    ((inner p).flatMap Component.letters).count c = p.count c := by
  rw [inner, List.splitOn_eq_singleton hp]
  by_cases he : p = [] ∨ p = ['.']
  · rw [List.filterMap_cons_none (show inner_component p = none from if_pos he)]
    rcases he with rfl | rfl
    · rfl
    · simp [Ne.symm hc]
  · rw [List.filterMap_cons_some (show inner_component p = some _ from if_neg he)]
    by_cases hd : p = ['.', '.']
    · simp [hd, Component.letters, Ne.symm hc]
    · simp [hd, Component.letters]

theorem count_inner {c : Char} (hc : c ≠ '.') (hs : c ≠ '/') (p : List Char) :
    ((inner p).flatMap Component.letters).count c = p.count c := by
  by_cases hm : '/' ∈ p
  · obtain ⟨a, b, rfl, ha⟩ := List.eq_append_cons_of_mem hm
    rw [inner_append, List.flatMap_append, List.count_append, List.count_append, count_part hc ha, count_inner hc hs b,
      List.count_cons_of_ne hs.symm]
  · exact count_part hc hm
termination_by p.length
decreasing_by simp [*]; omega

theorem count_components {c : Char} (hc : c ≠ '.') (hs : c ≠ '/') (p : List Char) :
    ((components p).flatMap Component.letters).count c = p.count c := by
  have hf : (first p).flatMap Component.letters = [] := by
    unfold first
    split_ifs <;> rfl
  rw [components, List.flatMap_append, hf, List.nil_append, count_inner hc hs]

end Lib.Paths
