/-
  Monosecret.Manifest.Pointers — JSON pointers into a structured value (`validate_json_pointer`
  in `monosecret/src/config.rs`, `pointer_parts` in `ini_field.rs`, `pointer_segment` in
  `provider/ejson.rs`).

  A segment is written with `~0` for `~` and `~1` for `/`, and read with the two replacements
  in the other order, so that the zero of a `~01` is not taken for an escape of its own. JSON
  documents are followed by `serde_json`, INI documents by `pointer_parts`.

  Proved (`pointers_agree`): any segments that are written are accepted and read back, for INI
  one or two that are not empty; and what is accepted is exactly the grammar and, for INI, the
  depth that `pointer_parts` follows.
-/

import Mathlib.Data.List.Infix
import Monosecret.Lib.Placeholder
import Monosecret.Lib.Texts
import Monosecret.Manifest.Validate

namespace Monosecret.Manifest.Pointers

open Lib Placeholder

def pointer_segment (value : List Char) : List Char := replace ['/'] ['~', '1'] (replace ['~'] ['~', '0'] value)

def unescape_segment (segment : List Char) : List Char := replace ['~', '0'] ['~'] (replace ['~', '1'] ['/'] segment)

/-- The section and the key of a pointer into an INI document. -/
def pointer_parts (pointer : String) : Option (Option (List Char) × List Char) :=
  match pointer.toList with
  | '/' :: path =>
    let (section_, key) := match Texts.split_once ['/'] path with
      | some (section_, key) => (some section_, key)
      | none => (none, path)
    if section_ = some [] ∨ key = [] ∨ '/' ∈ key then none else some (section_.map unescape_segment, unescape_segment key)
  | _ => none

/-- What `serde_json::Value::pointer` looks up, one after the other. -/
def segments (pointer : String) : List (List Char) := (pointer.toList.splitOn '/').tail.map unescape_segment

def rendered (parts : List (List Char)) : List Char := parts.flatMap fun part => '/' :: pointer_segment part

/-! ## Segments -/

theorem replace_char (c : Char) (n t : List Char) :
    replace [c] n t = t.flatMap fun d => if d = c then n else [d] := by
  induction t with
  | nil => rfl
  | cons d t ih =>
    by_cases hd : d = c
    · subst hd
      rw [List.flatMap_cons, if_pos rfl, ← ih]
      exact replace_hit (List.cons_ne_nil _ _) t
    · rw [List.flatMap_cons, if_neg hd, ← ih]
      exact replace_miss fun hp => hd (List.cons_prefix_cons.mp hp).1.symm

/-- How one character is written. -/
def written (c : Char) : List Char := if c = '~' then ['~', '0'] else if c = '/' then ['~', '1'] else [c]

theorem pointer_segment_eq (value : List Char) : pointer_segment value = value.flatMap written := by
  rw [pointer_segment, replace_char, replace_char, List.flatMap_assoc]
  refine congrArg (fun f => value.flatMap f) (funext fun c => ?_)
  unfold written
  by_cases hc : c = '~'
  · subst hc
    rfl
  · rw [if_neg hc, if_neg hc, List.flatMap_singleton]

theorem slash_not_mem (value : List Char) : '/' ∉ pointer_segment value := by
  rw [pointer_segment_eq]
  intro h
  obtain ⟨c, -, hc⟩ := List.mem_flatMap.mp h
  unfold written at hc
  split_ifs at hc with ht hs
  · exact absurd hc (by decide)
  · exact absurd hc (by decide)
  · exact hs (List.mem_singleton.mp hc).symm

theorem tildes_back (value : List Char) : replace ['~', '0'] ['~'] (replace ['~'] ['~', '0'] value) = value := by
  rw [replace_char]
  induction value with
  | nil => rfl
  | cons c value ih =>
    rw [List.flatMap_cons]
    split_ifs with ht
    · subst ht
      exact (replace_hit (List.cons_ne_nil _ _) _).trans (congrArg _ ih)
    · exact (replace_miss fun hp => ht (List.cons_prefix_cons.mp hp).1.symm).trans (congrArg _ ih)

/-- The slashes come back first. -/
theorem unescape_written (value : List Char) : unescape_segment (pointer_segment value) = value := by
  have hl : replace ['~', '1'] ['/'] (pointer_segment value) = replace ['~'] ['~', '0'] value := by
    rw [pointer_segment_eq, replace_char]
    induction value with
    | nil => rfl
    | cons c value ih =>
      rw [List.flatMap_cons, List.flatMap_cons, ← ih]
      unfold written
      split_ifs with ht hs
      · exact (replace_miss (by simp)).trans (congrArg _ (replace_miss (by simp)))
      · subst hs
        exact replace_hit (List.cons_ne_nil _ _) _
      · exact replace_miss fun hp => ht (List.cons_prefix_cons.mp hp).1.symm
  rw [unescape_segment, hl, tildes_back]

theorem splitOn_rendered {first : List Char} (h : '/' ∉ first) (p : List (List Char)) :
    (first ++ rendered p).splitOn '/' = first :: p.map pointer_segment := by
  induction p generalizing first with
  | nil => rw [rendered, List.flatMap_nil, List.append_nil, List.splitOn_eq_singleton h, List.map_nil]
  | cons pr p ih =>
    rw [rendered, List.flatMap_cons, List.cons_append, List.splitOn_append_cons_self_of_not_mem h]
    exact congrArg _ (ih (slash_not_mem pr))

theorem segments_rendered (parts : List (List Char)) : segments (.ofList (rendered parts)) = parts := by
  rw [segments, String.toList_ofList, ← List.nil_append (rendered parts), splitOn_rendered List.not_mem_nil, List.tail_cons,
    List.map_map]
  exact List.map_congr_left (g := id) (fun p _ => unescape_written p) |>.trans (List.map_id _)

/-! ## Grammar -/

/-- Every tilde has a zero or a one behind it. -/
def Escapes (text : List Char) : Prop :=
  ∀ before after, text = before ++ '~' :: after → after.head? = some '0' ∨ after.head? = some '1'

theorem escapes_cons {c : Char} {text : List Char} :
    Escapes (c :: text) ↔ (c = '~' → text.head? = some '0' ∨ text.head? = some '1') ∧ Escapes text := by
  constructor
  · exact fun h => ⟨fun hc => h [] text (by rw [hc]; rfl), fun before a ht => h (c :: before) a (by rw [ht]; rfl)⟩
  · rintro ⟨hf, hr⟩ before a ht
    cases before with
    | nil =>
      obtain ⟨rfl, rfl⟩ := List.cons.inj ht
      exact hf rfl
    | cons d before => exact hr before a (List.cons.inj ht).2

theorem check_escapes_iff (i : Nat) (text : List Char) : check_escapes i text = .ok () ↔ Escapes text := by
  fun_induction check_escapes i text with
  | case1 => exact iff_of_true rfl fun before a h => by cases before <;> cases h
  | case2 i r ih | case3 i r ih =>
    rw [ih, escapes_cons, escapes_cons]
    simp
  | case4 i r h0 h1 =>
    refine iff_of_false nofun fun h => ?_
    rcases (escapes_cons.mp h).1 rfl with hd | hd
    · obtain ⟨r', rfl⟩ := List.head?_eq_some_iff.mp hd
      exact h0 r' rfl
    · obtain ⟨r', rfl⟩ := List.head?_eq_some_iff.mp hd
      exact h1 r' rfl
  | case5 i c r h0 h1 h2 ih =>
    rw [ih, escapes_cons]
    exact ⟨fun h => ⟨fun hc => (h2 hc).elim, h⟩, fun h => h.2⟩

theorem validate_iff (p : String) : validate_json_pointer p = .ok () ↔
    (p.toList = [] ∨ p.toList.head? = some '/') ∧ Escapes p.toList := by
  unfold validate_json_pointer
  split
  · rename_i hn
    rw [hn]
    exact iff_of_true rfl ⟨.inl rfl, fun before a h => by cases before <;> cases h⟩
  · rename_i r hr
    rw [hr, check_escapes_iff, escapes_cons]
    simp
  · rename_i c r hs hr
    rw [hr]
    refine iff_of_false nofun fun h => ?_
    rcases h.1 with h | h
    · cases h
    · exact hs (Option.some.inj h)

theorem escapes_rendered (p : List (List Char)) : Escapes (rendered p) := by
  have hg : ∀ (value r : List Char), Escapes r → Escapes (pointer_segment value ++ r) := by
    intro value r hr
    rw [pointer_segment_eq]
    induction value with
    | nil => exact hr
    | cons c value ih =>
      rw [List.flatMap_cons, List.append_assoc]
      unfold written
      split_ifs with ht hs
      · exact escapes_cons.mpr ⟨fun _ => .inl rfl, escapes_cons.mpr ⟨nofun, ih⟩⟩
      · exact escapes_cons.mpr ⟨fun _ => .inr rfl, escapes_cons.mpr ⟨nofun, ih⟩⟩
      · exact escapes_cons.mpr ⟨fun hc => (ht hc).elim, ih⟩
  induction p with
  | nil => exact fun before a h => by cases before <;> cases h
  | cons pr p ih =>
    rw [rendered, List.flatMap_cons]
    exact escapes_cons.mpr ⟨nofun, hg pr _ ih⟩

/-! ## INI documents -/

theorem validate_ini_iff (p : String) : SecretExtract.validate ⟨.Ini, p⟩ = .ok () ↔
    is_ini_pointer p = true ∧ validate_json_pointer p = .ok () := by
  unfold SecretExtract.validate
  cases is_ini_pointer p with
  | true => exact ⟨fun h => ⟨rfl, h⟩, fun h => h.2⟩
  | false => exact ⟨nofun, nofun⟩

theorem parts_key {p : String} {k : List Char} (h : p.toList = '/' :: k) (hk : '/' ∉ k) :
    pointer_parts p = if k = [] then none else some (none, unescape_segment k) := by
  unfold pointer_parts
  rw [h]
  simp [Texts.split_once_none List.mem_cons_self hk, hk]

theorem parts_section {p : String} {s k : List Char} (h : p.toList = '/' :: (s ++ '/' :: k))
    (hs : '/' ∉ s) : pointer_parts p =
      if s = [] ∨ k = [] ∨ '/' ∈ k then none else some (some (unescape_segment s), unescape_segment k) := by
  unfold pointer_parts
  rw [h]
  simp [Texts.split_once_first hs]

theorem pointer_parts_some (pointer : String) : (pointer_parts pointer).isSome = is_ini_pointer pointer := by
  by_cases hl : ∃ p, pointer.toList = '/' :: p
  · obtain ⟨p, hp⟩ := hl
    unfold is_ini_pointer
    by_cases hs : '/' ∈ p
    · obtain ⟨s, k, rfl, hc⟩ := List.eq_append_cons_of_mem hs
      rw [parts_section hp hc, hp]
      simp only [List.splitOn_append_cons_self_of_not_mem hc]
      by_cases hk : '/' ∈ k
      · obtain ⟨f, back, rfl, hf⟩ := List.eq_append_cons_of_mem hk
        rw [if_pos (.inr (.inr hk)), List.splitOn_append_cons_self_of_not_mem hf]
        cases hb : back.splitOn '/' with
        | nil => exact absurd hb (List.splitOn_ne_nil _ _)
        | cons pt pr => rfl
      · rw [List.splitOn_eq_singleton hk]
        cases s <;> cases k <;> simp [hk]
    · rw [parts_key hp hs, hp]
      simp only [List.splitOn_eq_singleton hs]
      cases p <;> rfl
  · have hn : pointer_parts pointer = none := by
      unfold pointer_parts
      split
      · rename_i p hp
        exact (hl ⟨p, hp⟩).elim
      · rfl
    unfold is_ini_pointer
    rw [hn]
    split
    · rename_i p hp
      exact (hl ⟨p, hp⟩).elim
    · rfl

theorem pointer_segment_nil {value : List Char} (h : pointer_segment value = []) : value = [] := by
  have hb := unescape_written value
  rw [h] at hb
  exact hb.symm

theorem pointer_parts_rendered {s : Option (List Char)} {key : List Char} (hs : s ≠ some []) (hk : key ≠ []) :
    pointer_parts (.ofList (rendered (s.toList ++ [key]))) = some (s, key) := by
  have hy : pointer_segment key ≠ [] := fun h => hk (pointer_segment_nil h)
  cases s with
  | none =>
    have hp : (String.ofList (rendered [key])).toList = '/' :: pointer_segment key := by simp [rendered]
    exact (parts_key hp (slash_not_mem key)).trans (by rw [if_neg hy, unescape_written])
  | some s =>
    have hc : pointer_segment s ≠ [] := fun h => hs (congrArg some (pointer_segment_nil h))
    have hp : (String.ofList (rendered [s, key])).toList =
        '/' :: (pointer_segment s ++ '/' :: pointer_segment key) := by simp [rendered]
    refine (parts_section hp (slash_not_mem s)).trans ?_
    rw [if_neg (not_or.mpr ⟨hc, not_or.mpr ⟨hy, slash_not_mem key⟩⟩), unescape_written, unescape_written]

/-- What is written is accepted and read back; what is accepted is the grammar, for INI with the depth. -/
theorem pointers_agree :
    (∀ value, unescape_segment (pointer_segment value) = value) ∧
    (∀ parts, validate_json_pointer (.ofList (rendered parts)) = .ok () ∧ segments (.ofList (rendered parts)) = parts) ∧
    (∀ pointer, validate_json_pointer pointer = .ok () ↔
      (pointer.toList = [] ∨ pointer.toList.head? = some '/') ∧ Escapes pointer.toList) ∧
    (∀ (section_ : Option (List Char)) (key : List Char), section_ ≠ some [] → key ≠ [] →
      SecretExtract.validate ⟨.Ini, .ofList (rendered (section_.toList ++ [key]))⟩ = .ok () ∧
      pointer_parts (.ofList (rendered (section_.toList ++ [key]))) = some (section_, key)) ∧
    ∀ pointer, SecretExtract.validate ⟨.Ini, pointer⟩ = .ok () ↔ (pointer_parts pointer).isSome = true ∧ Escapes pointer.toList := by
  have ha : ∀ parts, validate_json_pointer (.ofList (rendered parts)) = .ok () := fun parts => by
    rw [validate_iff, String.toList_ofList]
    refine ⟨?_, escapes_rendered parts⟩
    cases parts with
    | nil => exact .inl rfl
    | cons p parts => exact .inr rfl
  refine ⟨unescape_written, fun parts => ⟨ha parts, segments_rendered parts⟩, validate_iff, fun section_ key hs hk => ?_,
    fun pointer => ?_⟩
  · have hp := pointer_parts_rendered hs hk
    exact ⟨(validate_ini_iff _).mpr ⟨by rw [← pointer_parts_some, hp]; rfl, ha _⟩, hp⟩
  · rw [validate_ini_iff, pointer_parts_some, validate_iff]
    refine and_congr_right fun hi => and_iff_right (.inr ?_)
    unfold is_ini_pointer at hi
    split at hi
    · rename_i pt ht
      rw [ht]
      rfl
    · cases hi

end Monosecret.Manifest.Pointers
