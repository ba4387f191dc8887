/-
  Monosecret.Providers.SopsTemplates — the path templates of the SOPS provider
  (`split_template_path` in `provider/sops/config.rs`, `provider/sops/pattern.rs`).

  A path is split at the last separator before its first brace; the pattern is checked, and
  filled in with one pass over it. Paths are those of Unix.

  A template is spelled by pieces, a text and a placeholder each, and a tail. `WellFormed`
  says that no brace stands outside the placeholders, and that both kinds are there or none.

  Proved (`templates_exactly`): split path and pattern are the path again exactly when the
  separator is not the root's and not a backslash (`Lost`); exactly the well-formed templates
  are accepted, except those with a closing brace in front of a placeholder (`Stray`); and
  filling in is `expand`, all placeholders at once. `root_lost` is a path whose root is gone.
-/

import Monosecret.Lib.Except
import Monosecret.Lib.Paths
import Monosecret.Lib.Placeholder
import Monosecret.Lib.Slices
import Monosecret.Lib.Texts

namespace Monosecret.Providers.Sops

open Lib Lib.Slices Lib.Paths Lib.Placeholder
open Lib.Except (bind_ok)

def separator (c : Char) : Bool := c == '/' || c == '\\'

def split_template_path (path : List Char) : Option (List Char × List Char) :=
  match find (· == '{') path with
  | none => some (path, [])
  | some idx => do
    match rfind separator (← str_to path idx) with
    | some index => return (← str_to path index, ← str_from path (index + 1))
    | none => return ([], path)

inductive Scanned
  | tail
  | unclosed
  | piece (before placeholder rest : List Char)

/-- To the next brace, and to the one that closes it. -/
def scan (remainder : List Char) : Scanned :=
  match Texts.split_once ['{'] remainder with
  | none => .tail
  | some (before, after_start) =>
    match Texts.split_once ['}'] after_start with
    | none => .unclosed
    | some (placeholder, rest) => .piece before placeholder rest

theorem split_brace {c : Char} {t before rest : List Char} (h : Texts.split_once [c] t = some (before, rest)) :
    t = before ++ c :: rest ∧ c ∉ before := by
  by_cases hc : c ∈ t
  · obtain ⟨a, b, rfl, ha⟩ := List.eq_append_cons_of_mem hc
    rw [Texts.split_once_first ha] at h
    cases h
    exact ⟨rfl, ha⟩
  · rw [Texts.split_once_none (List.mem_singleton_self c) hc] at h
    cases h

theorem scan_tail {remainder : List Char} : scan remainder = .tail ↔ '{' ∉ remainder := by
  constructor
  · intro hs hm
    obtain ⟨a, b, rfl, ha⟩ := List.eq_append_cons_of_mem hm
    rw [scan, Texts.split_once_first ha] at hs
    simp only at hs
    split at hs <;> cases hs
  · intro hn
    rw [scan, Texts.split_once_none (List.mem_singleton_self '{') hn]

theorem scan_piece {r before placeholder rest : List Char} : scan r = .piece before placeholder rest ↔
    r = before ++ '{' :: (placeholder ++ '}' :: rest) ∧ '{' ∉ before ∧ '}' ∉ placeholder := by
  constructor
  · intro hs
    unfold scan at hs
    split at hs
    · cases hs
    · rename_i ho
      split at hs
      · cases hs
      · rename_i hc
        cases hs
        obtain ⟨rfl, hb⟩ := split_brace ho
        obtain ⟨rfl, hn⟩ := split_brace hc
        exact ⟨rfl, hb, hn⟩
  · rintro ⟨rfl, ho, hc⟩
    rw [scan, Texts.split_once_first ho]
    simp only [Texts.split_once_first hc]

theorem scan_shorter {r before p rest : List Char} (h : scan r = .piece before p rest) :
    rest.length < r.length := by
  obtain ⟨rfl, -⟩ := scan_piece.mp h
  simp
  omega

def extract_from (template : String) (remainder : List Char) : Except String (List String) :=
  match _h : scan remainder with
  | .tail => if '}' ∈ remainder then .error s!"Unexpected closing brace in SOPS path '{template}'" else .ok []
  | .unclosed => .error s!"Unclosed placeholder in SOPS path '{template}'"
  | .piece _ placeholder rest => do return .ofList placeholder :: (← extract_from template rest)
termination_by remainder.length
decreasing_by exact scan_shorter _h

def extract_placeholders (template : String) : Except String (List String) := extract_from template template.toList

def take_placeholder (expected : List String) (placeholder : String) : Except String (List String) :=
  if placeholder = "profile" ∨ placeholder = "project" then .ok (expected.filter (· ≠ placeholder))
  else .error s!"Unknown placeholder '\x7b{placeholder}\x7d' in SOPS path"

def validate_template (template : String) : Except String Unit := do
  let placeholders ← extract_placeholders template
  if placeholders ≠ [] then
    let expected ← placeholders.foldlM take_placeholder ["profile", "project"]
    let missing := ", ".intercalate (expected.map fun p => s!"\x7b{p}\x7d")
    if expected ≠ [] then .error s!"SOPS provider URL missing templating placeholders: {missing}"

/-- A template that was checked. -/
structure SopsPathPattern where
  template : String
  valid : validate_template template = .ok ()

/-- What is put in place of a placeholder. -/
def value_of (project profile : List Char) (placeholder : String) : List Char :=
  if placeholder = "project" then project
  else if placeholder = "profile" then profile
  else '{' :: (placeholder.toList ++ ['}'])

def render_from (project profile remainder : List Char) : List Char :=
  match _h : scan remainder with
  | .tail | .unclosed => remainder
  | .piece before placeholder rest =>
    before ++ (value_of project profile (.ofList placeholder) ++ render_from project profile rest)
termination_by remainder.length
decreasing_by exact scan_shorter _h

def SopsPathPattern.render (pattern : SopsPathPattern) (project profile : List Char) : List Char :=
  render_from project profile pattern.template.toList

/-! ## Meaning -/

/-- The path that a split path stands for, by its components. -/
def denoted (halves : List Char × List Char) : List Component := components (join halves.1 halves.2)

/-- The last separator before the first brace is the root's, or a backslash. -/
def Lost (path : List Char) : Prop :=
  ∃ directory sep rest tail, path = directory ++ sep :: rest ++ '{' :: tail ∧ '{' ∉ directory ++ sep :: rest ∧
    separator sep = true ∧ (∀ c ∈ rest, separator c = false) ∧ (directory = [] ∨ sep = '\\')

abbrev Pieces := List (List Char × String)

def written (pieces : Pieces) (tail : List Char) : List Char :=
  pieces.flatMap (fun p => p.1 ++ '{' :: (p.2.toList ++ ['}'])) ++ tail

def known (name : String) : Prop := name = "profile" ∨ name = "project"

/-- Both kinds of placeholders and no other, or none. -/
def Both (names : List String) : Prop := names = [] ∨ (∀ name ∈ names, known name) ∧ "profile" ∈ names ∧ "project" ∈ names

structure Spells (template : String) (pieces : Pieces) (tail : List Char) : Prop where
  text : template.toList = written pieces tail
  opens : ∀ p ∈ pieces, '{' ∉ p.1
  names : Both (pieces.map Prod.snd)
  tail : '{' ∉ tail ∧ '}' ∉ tail

def WellFormed (template : String) : Prop := ∃ pieces tail, Spells template pieces tail ∧ ∀ p ∈ pieces, '}' ∉ p.1

/-- A closing brace stands in front of a placeholder. -/
def Stray (template : String) : Prop := ∃ pieces tail, Spells template pieces tail ∧ ∃ p ∈ pieces, '}' ∈ p.1

def substs (project profile : List Char) : Substs Char :=
  [("{project}".toList, project), ("{profile}".toList, profile)]

/-! ## Splitting -/

section

variable {directory rest tail : List Char} {sep : Char}

theorem separator_cases (hs : separator sep = true) : sep = '/' ∨ sep = '\\' := by
  simpa [separator] using hs

theorem separator_size (hs : separator sep = true) : sep.utf8Size = 1 := by
  rcases separator_cases hs with rfl | rfl <;> rfl

theorem brace_first {before : List Char} (h : '{' ∉ before) : find (· == '{') (before ++ '{' :: tail) = some (byte_length before) :=
  find_first (fun c hc => beq_false_of_ne fun he => h (by rwa [← he])) rfl tail

theorem split_at_separator (hb : '{' ∉ directory ++ sep :: rest) (hs : separator sep = true)
    (hr : ∀ c ∈ rest, separator c = false) :
    split_template_path (directory ++ sep :: rest ++ '{' :: tail) = some (directory, rest ++ '{' :: tail) := by
  have ht : str_to (directory ++ sep :: rest ++ '{' :: tail) (byte_length directory) = some directory := by
    rw [List.append_assoc, str_to_append]
  have hf : str_from (directory ++ sep :: rest ++ '{' :: tail) (byte_length directory + 1) = some (rest ++ '{' :: tail) := by
    have h := str_from_append (directory ++ [sep]) (rest ++ '{' :: tail)
    rw [byte_length_append, byte_length_cons, separator_size hs] at h
    simpa [byte_length] using h
  rw [split_template_path, brace_first hb]
  simp only [str_to_append, rfind_last directory hr hs, ht, hf, Option.bind_eq_bind, Option.bind_some]
  rfl

theorem join_relative (directory : List Char) {path : List Char} (hp : path.head? ≠ some '/') :
    directory ≠ [] ∧ components (join directory path) = components (directory ++ '/' :: path) ∨
      directory = [] ∧ join directory path = path := by
  rw [join, if_neg hp]
  by_cases hd : directory = []
  · exact .inr ⟨hd, by simp [hd]⟩
  · refine .inl ⟨hd, ?_⟩
    by_cases hl : directory.getLast? = some '/'
    · obtain ⟨d, rfl⟩ := List.getLast?_eq_some_iff.mp hl
      rw [if_pos (.inr hl), List.append_assoc, List.append_assoc, List.singleton_append, List.singleton_append,
        components_slashes]
    · rw [if_neg (not_or.mpr ⟨hd, hl⟩)]

theorem count_join (directory : List Char) {p : List Char} (hp : p.head? ≠ some '/') :
    (join directory p).count '\\' = directory.count '\\' + p.count '\\' := by
  rw [join, if_neg hp]
  split_ifs
  · exact List.count_append
  · rw [List.count_append, List.count_cons_of_ne (by decide)]

/-- What is behind the last separator is relative. -/
theorem relative_behind (tail : List Char) (hr : ∀ c ∈ rest, separator c = false) : (rest ++ '{' :: tail).head? ≠ some '/' := by
  cases rest with
  | nil => simp
  | cons c rest =>
    rintro ⟨⟩
    exact absurd (hr '/' List.mem_cons_self) (by decide)

theorem denoted_cut (hs : separator sep = true) (hr : ∀ c ∈ rest, separator c = false) :
    denoted (directory, rest ++ '{' :: tail) = components (directory ++ sep :: rest ++ '{' :: tail) ↔
      ¬(directory = [] ∨ sep = '\\') := by
  have hl := relative_behind tail hr
  unfold denoted
  rw [List.append_assoc, List.cons_append]
  rcases separator_cases hs with rfl | rfl
  · rw [or_iff_left (by decide : '/' ≠ '\\')]
    rcases join_relative directory hl with ⟨hd, hj⟩ | ⟨rfl, hj⟩
    · exact iff_of_true hj hd
    · -- the root is lost
      refine iff_of_false (fun he => ?_) (not_not.mpr rfl)
      have hm := (root_mem ('/' :: (rest ++ '{' :: tail))).mpr rfl
      rw [hj, List.nil_append] at he
      rw [← he] at hm
      exact hl ((root_mem _).mp hm)
  · -- a backslash is lost
    refine iff_of_false (fun he => ?_) (not_not.mpr (.inr rfl))
    have hc := congrArg (fun l => (l.flatMap Component.letters).count '\\') he
    simp only [count_components (by decide : '\\' ≠ '.') (by decide), count_join _ hl] at hc
    simp at hc

theorem split_exactly (path : List Char) : (split_template_path path).map denoted = some (components path) ↔ ¬Lost path := by
  constructor
  · rintro hd ⟨directory, sep, rest, tail, rfl, hb, hs, hr, hl⟩
    rw [split_at_separator hb hs hr, Option.map_some, Option.some.injEq, denoted_cut hs hr] at hd
    exact hd hl
  · intro hl
    by_cases hm : '{' ∈ path
    · obtain ⟨before, tail, rfl, hb⟩ := List.eq_append_cons_of_mem hm
      rcases last_cases separator before with hn | ⟨directory, sep, rest, rfl, hr, hs⟩
      · rw [split_template_path, brace_first hb]
        simp only [str_to_append, rfind_none hn, Option.bind_eq_bind, Option.bind_some]
        have hj : join [] (before ++ '{' :: tail) = before ++ '{' :: tail := by simp [join]
        exact congrArg (fun path => some (components path)) hj
      · rw [split_at_separator hb hs hr, Option.map_some, Option.some.injEq, denoted_cut hs hr]
        exact fun hd => hl ⟨directory, sep, rest, tail, rfl, hb, hs, hr, hd⟩
    · rw [split_template_path, find_none fun c hc => beq_false_of_ne fun he => hm (by rwa [← he])]
      show some (components (join path [])) = _
      rw [join, if_neg nofun]
      split_ifs with hd
      · rw [List.append_nil]
      · rw [components_slash (not_or.mp hd).1]

end

/-! ## Checking and filling in -/

section

variable {pieces : Pieces} {tail : List Char}

theorem written_cons (p : List Char × String) :
    written (p :: pieces) tail = p.1 ++ '{' :: (p.2.toList ++ '}' :: written pieces tail) := by
  simp [written]

theorem scan_written (pieces : Pieces) (tail : List Char) {p : List Char × String} (ho : '{' ∉ p.1) (hc : '}' ∉ p.2.toList) :
    scan (written (p :: pieces) tail) = .piece p.1 p.2.toList (written pieces tail) :=
  scan_piece.mpr ⟨written_cons p, ho, hc⟩

theorem extract_written (t : String) (hp : ∀ p ∈ pieces, '{' ∉ p.1 ∧ '}' ∉ p.2.toList) (ht : '{' ∉ tail ∧ '}' ∉ tail) :
    extract_from t (written pieces tail) = .ok (pieces.map Prod.snd) := by
  induction pieces with
  | nil =>
    have hs : scan (written [] tail) = .tail := scan_tail.mpr ht.1
    unfold extract_from
    split <;> rename_i h <;> cases hs.symm.trans h
    exact if_neg ht.2
  | cons p pieces ih =>
    obtain ⟨⟨ho, hc⟩, hp⟩ := List.forall_mem_cons.mp hp
    have hs := scan_written pieces tail ho hc
    unfold extract_from
    split <;> rename_i h <;> cases hs.symm.trans h
    rw [ih hp, String.ofList_toList]
    rfl

theorem extract_pieces {tm : String} {t : List Char} {names : List String} (h : extract_from tm t = .ok names) :
    ∃ pieces tail, t = written pieces tail ∧ (∀ p ∈ pieces, '{' ∉ p.1) ∧ ('{' ∉ tail ∧ '}' ∉ tail) ∧
      names = pieces.map Prod.snd := by
  fun_induction extract_from tm t generalizing names with
  | case1 t hs hc => cases h
  | case2 t hs hc =>
    cases h
    exact ⟨[], t, rfl, nofun, ⟨scan_tail.mp hs, hc⟩, rfl⟩
  | case3 t hs => cases h
  | case4 t before n rest hs ih =>
    obtain ⟨n', hn, h⟩ := bind_ok h
    cases h
    obtain ⟨pieces, tail, rfl, hp, ht, rfl⟩ := ih hn
    obtain ⟨rfl, ho, hc⟩ := scan_piece.mp hs
    refine ⟨(before, .ofList n) :: pieces, tail, ?_, List.forall_mem_cons.mpr ⟨ho, hp⟩, ht, rfl⟩
    rw [written_cons, String.toList_ofList]

theorem take_all {e left names : List String} : names.foldlM take_placeholder e = .ok left ↔
    (∀ n ∈ names, known n) ∧ left = e.filter (· ∉ names) := by
  induction names generalizing e with
  | nil => simp [pure, Except.pure, eq_comm]
  | cons n names ih =>
    rw [List.foldlM_cons, List.forall_mem_cons]
    unfold take_placeholder
    by_cases hk : known n
    · rw [if_pos (show _ ∨ _ from hk)]
      refine ih.trans ?_
      simp [hk, List.filter_filter, not_or, and_comm, Bool.and_comm]
    · rw [if_neg (show ¬(_ ∨ _) from hk)]
      simp [hk, bind, Except.bind]

theorem validate_names {t : String} {names : List String} (h : extract_placeholders t = .ok names) :
    validate_template t = .ok () ↔ Both names := by
  rw [validate_template, h]
  show (if names ≠ [] then _ else _) = _ ↔ _
  by_cases hn : names = []
  · simp [hn, pure, Except.pure, Both]
  · rw [if_pos hn, Both, or_iff_right hn]
    constructor
    · intro hv
      obtain ⟨left, hl, hv⟩ := bind_ok hv
      obtain ⟨hk, rfl⟩ := take_all.mp hl
      have he := not_not.mp (Except.check_ok hv)
      simp at he
      exact ⟨hk, he⟩
    · rintro ⟨hk, hf, hj⟩
      rw [take_all.mpr ⟨hk, rfl⟩]
      simp [hf, hj, bind, Except.bind]
      rfl

theorem Spells.known {t : String} (h : Spells t pieces tail) (p : List Char × String) (hp : p ∈ pieces) :
    known p.2 := by
  rcases h.names with hn | ⟨hk, -⟩
  · rw [List.map_eq_nil_iff.mp hn] at hp
    cases hp
  · exact hk _ (List.mem_map_of_mem hp)

/-- A placeholder of either name has no braces. -/
theorem known_plain {n : String} (h : known n) : n.toList.count '{' = 0 ∧ n.toList.count '}' = 0 := by
  rcases h with rfl | rfl <;> decide

theorem known_closes {n : String} (h : known n) : '}' ∉ n.toList := List.count_eq_zero.mp (known_plain h).2

theorem accepted_iff {template : String} : validate_template template = .ok () ↔ ∃ pieces tail, Spells template pieces tail := by
  constructor
  · intro hv
    obtain ⟨names, hn, -⟩ := bind_ok hv
    obtain ⟨pieces, tail, ht, hp, hb, rfl⟩ := extract_pieces hn
    exact ⟨pieces, tail, ht, hp, (validate_names hn).mp hv, hb⟩
  · rintro ⟨pieces, tail, h⟩
    refine (validate_names ?_).mpr h.names
    rw [extract_placeholders, h.text]
    exact extract_written template (fun p hp => ⟨h.opens p hp, known_closes (h.known p hp)⟩) h.tail

/-- Each placeholder opens and closes, so what closes too often are the texts. -/
theorem Spells.count {t : String} (h : Spells t pieces tail) :
    t.toList.count '}' = t.toList.count '{' + (pieces.flatMap Prod.fst).count '}' := by
  rw [h.text]
  have ho := h.opens
  have hk := h.known
  have ht := h.tail
  clear h
  induction pieces with
  | nil => simp [written, List.count_eq_zero_of_not_mem ht.1, List.count_eq_zero_of_not_mem ht.2]
  | cons p pieces ih =>
    rw [List.forall_mem_cons] at ho hk
    simp only [written_cons, List.flatMap_cons, List.count_append, List.count_cons_self, ih ho.2 hk.2, known_plain hk.1,
      List.count_eq_zero_of_not_mem ho.1, List.count_cons_of_ne (by decide : '{' ≠ '}'),
      List.count_cons_of_ne (by decide : '}' ≠ '{')]
    omega

/-- Exactly the well-formed templates are accepted, unless a closing brace strays. -/
theorem accepted_exactly (template : String) :
    (validate_template template = .ok () ↔ WellFormed template) ↔ ¬Stray template := by
  rw [accepted_iff]
  constructor
  · rintro h ⟨pieces, tail, hs, p, hp, hc⟩
    obtain ⟨p', t', hs', hn⟩ := h.mp ⟨pieces, tail, hs⟩
    have hno : (p'.flatMap Prod.fst).count '}' = 0 := by simpa [List.count_eq_zero] using hn
    have hi := List.count_pos_iff.mpr (List.mem_flatMap.mpr ⟨p, hp, hc⟩)
    have := hs.count
    have := hs'.count
    omega
  · intro h
    constructor
    · rintro ⟨pieces, tail, hs⟩
      exact ⟨pieces, tail, hs, fun p hp hc => h ⟨pieces, tail, hs, p, hp, hc⟩⟩
    · rintro ⟨pieces, tail, hs, -⟩
      exact ⟨pieces, tail, hs⟩

variable (project profile : List Char)

theorem expand_text {before : List Char} (h : '{' ∉ before) (rest : List Char) :
    expand (substs project profile) (before ++ rest) = before ++ expand (substs project profile) rest := by
  induction before with
  | nil => rfl
  | cons c before ih =>
    rw [List.mem_cons, not_or] at h
    have hn : first_match (substs project profile) (c :: (before ++ rest)) = none := by
      rw [first_match_none]
      intro s hs hp
      obtain ⟨r', he⟩ := hp
      rcases List.mem_cons.mp hs with rfl | hs
      · exact h.1 (List.cons.inj he).1
      · cases List.mem_singleton.mp hs
        exact h.1 (List.cons.inj he).1
    rw [List.cons_append, expand_miss hn, ih h.2, List.cons_append]

theorem expand_placeholder {p : String} (h : known p) (rest : List Char) :
    expand (substs project profile) ('{' :: (p.toList ++ '}' :: rest)) =
      value_of project profile p ++ expand (substs project profile) rest := by
  rcases h with rfl | rfl
  · have he : '{' :: ("profile".toList ++ '}' :: rest) = "{profile}".toList ++ rest := by simp
    have hn : ¬"{project}".toList <+: "{profile}".toList ++ rest := by simp
    have hm : first_match (substs project profile) ("{profile}".toList ++ rest) = some ("{profile}".toList, profile) :=
      (first_match_cons_of_neg hn).trans (List.find?_cons_of_pos (decide_eq_true (List.prefix_append _ _)))
    rw [he]
    exact expand_hit (s := ("{profile}".toList, profile)) (List.cons_ne_nil _ _) hm
  · exact expand_hit (s := ("{project}".toList, project)) (List.cons_ne_nil _ _)
      (List.find?_cons_of_pos (decide_eq_true (List.prefix_append _ _)))

theorem render_written (ho : ∀ p ∈ pieces, '{' ∉ p.1) (hk : ∀ p ∈ pieces, known p.2)
    (ht : '{' ∉ tail) : render_from project profile (written pieces tail) = expand (substs project profile) (written pieces tail) := by
  induction pieces with
  | nil =>
    have hx := expand_text project profile ht []
    rw [List.append_nil] at hx
    have hs : scan (written [] tail) = .tail := scan_tail.mpr ht
    unfold render_from
    split <;> rename_i h <;> cases hs.symm.trans h
    exact (List.append_nil tail).symm.trans hx.symm
  | cons p pieces ih =>
    rw [List.forall_mem_cons] at ho hk
    have hs := scan_written pieces tail ho.1 (known_closes hk.1)
    unfold render_from
    split <;> rename_i h <;> cases hs.symm.trans h
    rw [written_cons, expand_text project profile ho.1, expand_placeholder project profile hk.1, ih ho.2 hk.2, String.ofList_toList]

end

theorem render_expand (p : SopsPathPattern) (project profile : List Char) :
    p.render project profile = expand (substs project profile) p.template.toList := by
  obtain ⟨pieces, tail, h⟩ := accepted_iff.mp p.valid
  rw [SopsPathPattern.render, h.text]
  exact render_written project profile h.opens h.known h.tail.1

/-- Splitting is right unless the separator is lost, checking unless a brace strays, and filling in always. -/
theorem templates_exactly (path project profile : List Char) (t : String) (p : SopsPathPattern) :
    ((split_template_path path).map denoted = some (components path) ↔ ¬Lost path) ∧
      ((validate_template t = .ok () ↔ WellFormed t) ↔ ¬Stray t) ∧
      p.render project profile = expand (substs project profile) p.template.toList :=
  ⟨split_exactly path, accepted_exactly t, render_expand p project profile⟩

/-- A template at the root becomes one in the working directory. -/
theorem root_lost : (split_template_path "/{project}/{profile}.yaml".toList).map denoted ≠
    some (components "/{project}/{profile}.yaml".toList) := by
  decide

end Monosecret.Providers.Sops
