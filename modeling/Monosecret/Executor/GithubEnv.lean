/-
  Monosecret.Executor.GithubEnv — the environment file and the masks of a workflow run
  (`write_gha` in `monosecret/src/secrets.rs`, `render` for GitHub and
  `github_mask_commands` in `monosecret/src/cli/shell.rs`).

  The runner reads the file by lines: one declares a value behind `=`, or opens the lines up
  to the delimiter behind `<<`. `write_gha` does the latter for values of several lines only,
  and draws delimiters until one is no line of the value; `render` always does, and counts
  until one is nowhere in it.

  Proved (`environment_reads_back`): whatever either writes reads back as the pairs, both
  searches end (that of `write_gha` when its draws do not repeat), and the masks are the
  lines of the values. A search takes one of its fuel for each delimiter it tries.
-/

import Mathlib.Data.List.Infix
import Mathlib.Data.List.Sublists
import Monosecret.Executor.Render
import Monosecret.Lib.Lines

namespace Monosecret.Executor.GithubEnv

open Lib
open Render (Identifier Pair is_identifier name_char name_chars replace replace_append replace_cons strip strip_append)

abbrev Text := List Char

/-! ## Masks -/

/-- `%` first, so that what the value has of it is not read as an escape. -/
def gha_escape_data (value : Text) : Text :=
  replace '\n' "%0A".toList (replace '\r' "%0D".toList (replace '%' "%25".toList value))

def ADD_MASK : String := "::add-mask::"

def mask (line : Text) : Text := ADD_MASK.toList ++ gha_escape_data line ++ ['\n']

/-- `write_gha` prints the same. -/
def github_mask_commands (pairs : List Pair) : Text :=
  pairs.flatMap fun (_, value) => ((value.splitOn '\n').filter (· ≠ [])).flatMap mask

/-- What the runner makes of the data of a command. -/
def unescape : Text → Text
  | '%' :: '2' :: '5' :: rest => '%' :: unescape rest
  | '%' :: '0' :: 'D' :: rest => '\r' :: unescape rest
  | '%' :: '0' :: 'A' :: rest => '\n' :: unescape rest
  | c :: rest => c :: unescape rest
  | [] => []

def masked (output : Text) : List Text :=
  (output.splitOn '\n').filterMap fun line => (strip ADD_MASK line).map unescape

theorem gha_escape_data_cons (c : Char) (value : Text) :
    gha_escape_data (c :: value) = gha_escape_data [c] ++ gha_escape_data value := by
  rw [gha_escape_data, replace_cons, replace_append, replace_append]
  simp [gha_escape_data]

theorem unescape_escape (value : Text) : unescape (gha_escape_data value) = value := by
  induction value with
  | nil => rfl
  | cons c value ih =>
    rw [gha_escape_data_cons]
    by_cases hp : c = '%'
    · subst hp
      exact congrArg _ ih
    · by_cases hr : c = '\r'
      · subst hr
        exact congrArg _ ih
      · by_cases hn : c = '\n'
        · subst hn
          exact congrArg _ ih
        · have hl : gha_escape_data [c] = [c] := by simp [gha_escape_data, hp, hr, hn]
          rw [hl, List.singleton_append, unescape, ih]
          all_goals exact fun _ h => absurd h hp

theorem feed_not_mem_escape (value : Text) : '\n' ∉ gha_escape_data value := by
  rw [gha_escape_data, replace, List.mem_flatMap]
  rintro ⟨c, -, hc⟩
  split at hc
  · exact absurd hc (by decide)
  · next hn => exact hn (List.mem_singleton.mp hc).symm

theorem feed_not_mem_mask (line : Text) : '\n' ∉ ADD_MASK.toList ++ gha_escape_data line := by
  rw [List.mem_append]
  rintro (h | h)
  · exact absurd h (by decide)
  · exact feed_not_mem_escape line h

theorem masked_masks (lines : List Text) : masked (lines.flatMap mask) = lines := by
  induction lines with
  | nil =>
    have hs : strip ADD_MASK [] = none := if_neg fun h => absurd (List.prefix_nil.mp h) (by decide)
    rw [List.flatMap_nil, masked, List.splitOn_nil, List.filterMap_cons, hs]
    rfl
  | cons l lines ih =>
    have ht : (l :: lines).flatMap mask = ADD_MASK.toList ++ gha_escape_data l ++ '\n' :: lines.flatMap mask := by
      rw [List.flatMap_cons, mask, List.append_assoc _ ['\n'], List.singleton_append]
    rw [ht, masked, List.splitOn_append_cons_self_of_not_mem (feed_not_mem_mask l), List.filterMap_cons, strip_append,
      ← masked, ih]
    exact congrArg (· :: lines) (unescape_escape l)

/-! ## Delimiters -/

/-- The first candidate that is not taken, from the `n`th on. -/
def first_unused (taken : Text → Bool) (candidate : Nat → Text) : Nat → Nat → Option Text
  | 0, _ => none
  | fuel + 1, n => if taken (candidate n) then first_unused taken candidate fuel (n + 1) else some (candidate n)

def BASE : Text := "__MONOSECRET_ENV_EOF__".toList

def numbered (n : Nat) : Text := BASE ++ '_' :: (Nat.toDigits 10 n ++ ['_'])

def github_delimiter (fuel : Nat) (value : Text) : Option Text :=
  if BASE <:+: value then first_unused (fun candidate => decide (candidate <:+: value)) numbered fuel 1 else some BASE

/-- The simple form of a UUID. -/
abbrev Uuid := { text : Text // text.length = 32 ∧ ∀ c ∈ text, c.isAlphanum = true }

def drawn (draws : Nat → Uuid) (n : Nat) : Text := "ghadelimiter_".toList ++ (draws n).1

def gha_heredoc_delimiter (fuel : Nat) (draws : Nat → Uuid) (value : Text) : Option Text :=
  first_unused (fun delimiter => (pieces [] value).contains delimiter) (drawn draws) fuel 0

section

variable {taken : Text → Bool} {candidate : Nat → Text} {fuel n : Nat} {delimiter value : Text}

theorem first_unused_some (h : first_unused taken candidate fuel n = some delimiter) :
    taken delimiter = false ∧ ∃ i, delimiter = candidate i := by
  induction fuel generalizing n with
  | zero => cases h
  | succ fuel ih =>
    rw [first_unused] at h
    split at h
    · exact ih h
    · next hf =>
      cases h
      exact ⟨Bool.eq_false_iff.mpr hf, n, rfl⟩

theorem first_unused_none (h : first_unused taken candidate fuel n = none) : ∀ i < fuel, taken (candidate (n + i)) := by
  induction fuel generalizing n with
  | zero => exact nofun
  | succ fuel ih =>
    rw [first_unused] at h
    split at h
    · next ht =>
      rintro (_ | i) hi
      · exact ht
      · rw [Nat.add_comm i, ← Nat.add_assoc]
        exact ih h i (Nat.lt_of_succ_lt_succ hi)
    · cases h

/-- What is taken is held, and the candidates outnumber that. -/
theorem first_unused_ends {held : List Text} (hl : ∀ i, taken (candidate i) → candidate i ∈ held)
    (hn : ∀ i ≤ held.length, ∀ j ≤ held.length, candidate (n + i) = candidate (n + j) → i = j) (hf : held.length < fuel) :
    (first_unused taken candidate fuel n).isSome := by
  by_contra hnn
  have ha := first_unused_none (Option.not_isSome_iff_eq_none.mp hnn)
  have hd : ((List.range (held.length + 1)).map fun i => candidate (n + i)).Nodup := by
    refine List.Nodup.map_on (fun i hi j hj => ?_) List.nodup_range
    exact hn i (Nat.lt_succ_iff.mp (List.mem_range.mp hi)) j (Nat.lt_succ_iff.mp (List.mem_range.mp hj))
  have hs : ((List.range (held.length + 1)).map fun i => candidate (n + i)) ⊆ held := by
    intro t ht
    obtain ⟨i, hi, rfl⟩ := List.mem_map.mp ht
    exact hl _ (ha i (by have := List.mem_range.mp hi; omega))
  have hln := (hd.subperm hs).length_le
  rw [List.length_map, List.length_range] at hln
  omega

theorem numbered_injective {i j : Nat} (h : numbered i = numbered j) : i = j := by
  have hd := (List.append_left_inj _).mp (List.cons.inj ((List.append_right_inj _).mp h)).2
  have hr := congrArg (fun d => Nat.ofDigitChars 10 d 0) hd
  simpa only [Nat.ofDigitChars_ten_toDigits] using hr

theorem github_delimiter_ends (hf : 2 ^ value.length < fuel) : (github_delimiter fuel value).isSome := by
  unfold github_delimiter
  split
  · rw [← List.length_sublists] at hf
    refine first_unused_ends (fun i h => ?_) (fun i _ j _ h => Nat.add_left_cancel (numbered_injective h)) hf
    exact List.mem_sublists.mpr (of_decide_eq_true h).sublist
  · rfl

theorem gha_heredoc_delimiter_ends {d : Nat → Uuid} (hf : (pieces [] value).length < fuel)
    (hn : ∀ i ≤ (pieces [] value).length, ∀ j ≤ (pieces [] value).length, d i = d j → i = j) :
    (gha_heredoc_delimiter fuel d value).isSome := by
  refine first_unused_ends (fun i h => List.contains_iff_mem.mp h) (fun i hi j hj h => hn i hi j hj ?_) hf
  rw [Nat.zero_add, Nat.zero_add] at h
  exact Subtype.ext ((List.append_right_inj _).mp h)

/-! ## Delimiters and lines -/

/-- A delimiter that ends a heredoc of the value where the writer put it. -/
structure Delimits (delimiter value : Text) : Prop where
  feed : '\n' ∉ delimiter
  line : delimiter ∉ value.splitOn '\n'

theorem infix_intercalate {s line : Text} {lines : List Text} (h : line ∈ lines) :
    line <:+: s.intercalate lines := by
  induction lines with
  | nil => cases h
  | cons first lines ih =>
    cases lines with
    | nil =>
      obtain rfl := List.mem_singleton.mp h
      have hs : s.intercalate [line] = line := List.intercalate_singleton
      exact ⟨[], [], by rw [hs, List.nil_append, List.append_nil]⟩
    | cons sc lines =>
      rw [List.intercalate_cons_cons]
      rcases List.mem_cons.mp h with rfl | h
      · rw [List.append_assoc]
        exact (List.prefix_append ..).isInfix
      · exact (ih h).trans (List.suffix_append _ _).isInfix

theorem infix_of_line {l : Text} (h : l ∈ value.splitOn '\n') : l <:+: value := by
  have hj : ['\n'].intercalate (value.splitOn '\n') = value := List.intercalate_splitOn '\n'
  rw [← hj]
  exact infix_intercalate h

theorem github_delimits (h : github_delimiter fuel value = some delimiter) : Delimits delimiter value := by
  unfold github_delimiter at h
  split at h
  · obtain ⟨hf, i, rfl⟩ := first_unused_some h
    refine ⟨fun hd => ?_, fun hl => of_decide_eq_false hf (infix_of_line hl)⟩
    rcases List.mem_append.mp hd with hb | hd
    · exact absurd hb (by decide)
    · have hg : '\n' ∈ Nat.toDigits 10 i := by simpa using hd
      exact absurd (Texts.isDigit_of_mem_digits hg) (by decide)
  · next hf =>
    cases h
    exact ⟨by decide, fun hl => hf (infix_of_line hl)⟩

/-- A line without a carriage return is one that `lines` gives, too. -/
theorem mem_pieces {l begun text : Text} (hn : l ≠ []) (hr : '\r' ∉ l) (hb : '\n' ∉ begun)
    (h : l ∈ (begun ++ text).splitOn '\n') : l ∈ pieces begun text := by
  induction text generalizing begun with
  | nil =>
    rw [List.append_nil, List.splitOn_eq_singleton hb, List.mem_singleton] at h
    rw [pieces, if_neg (h ▸ hn), h]
    exact .head _
  | cons c text ih =>
    rw [pieces]
    split
    · next hc =>
      rw [hc, List.splitOn_append_cons_self_of_not_mem hb] at h
      rcases List.mem_cons.mp h with rfl | h
      · rw [strip_return, if_neg fun hl => hr (List.mem_of_getLast? hl)]
        exact .head _
      · exact .tail _ (ih (List.not_mem_nil) h)
    · next hc =>
      rw [List.append_cons] at h
      exact ih (by simp [hb, Ne.symm hc]) h

theorem gha_delimits {draws : Nat → Uuid} (h : gha_heredoc_delimiter fuel draws value = some delimiter) :
    Delimits delimiter value := by
  obtain ⟨hf, i, rfl⟩ := first_unused_some h
  have hm : ∀ c, c.isAlphanum = false → c ∉ "ghadelimiter_".toList → c ∉ drawn draws i := by
    intro c hc hx hm
    rcases List.mem_append.mp hm with hm | hm
    · exact hx hm
    · rw [(draws i).2.2 c hm] at hc
      cases hc
  refine ⟨hm _ (by decide) (by decide), fun hl => ?_⟩
  have hn : drawn draws i ≠ [] := List.append_ne_nil_of_left_ne_nil (by decide) _
  have hp := mem_pieces hn (hm _ (by decide) (by decide)) List.not_mem_nil hl
  rw [List.contains_iff_mem.mpr hp] at hf
  cases hf

end

/-! ## The environment file -/

def heredoc (entry : Pair) (delimiter : Text) : Text :=
  entry.1.1 ++ '<' :: '<' :: delimiter ++ '\n' :: (entry.2 ++ '\n' :: (delimiter ++ ['\n']))

/-- `render` for GitHub. -/
def render_github (fuel : Nat) (pairs : List Pair) : Option Text :=
  (pairs.mapM fun pair => (github_delimiter fuel pair.2).map (heredoc pair)).map List.flatten

def gha_entry (fuel : Nat) (pair : Pair) (draws : Nat → Uuid) : Option Text :=
  if '\n' ∈ pair.2 then (gha_heredoc_delimiter fuel draws pair.2).map (heredoc pair)
  else some (pair.1.1 ++ '=' :: pair.2 ++ ['\n'])

/-- The block `write_gha` appends; an entry comes with the draws of its search. -/
def write_gha (fuel : Nat) (entries : List (Pair × (Nat → Uuid))) : Option Text :=
  (entries.mapM fun entry => gha_entry fuel entry.1 entry.2).map List.flatten

/-- A heredoc with its lines so far. -/
structure Begun where
  key : Identifier
  delimiter : Text
  body : List Text

/-- What the lines of the file declare; the runner skips empty ones. -/
def assignments : Option Begun → List Text → Option (List Pair)
  | none, [] => some []
  | some _, [] => none
  | some begun, line :: lines =>
    if line = begun.delimiter then (assignments none lines).map ((begun.key, ['\n'].intercalate begun.body) :: ·)
    else assignments (some { begun with body := begun.body ++ [line] }) lines
  | none, line :: lines =>
    if line = [] then assignments none lines
    else if h : is_identifier (line.takeWhile name_char) = true then
      match line.dropWhile name_char with
      | '=' :: value => (assignments none lines).map ((⟨_, h⟩, value) :: ·)
      | '<' :: '<' :: delimiter => assignments (some ⟨⟨_, h⟩, delimiter, []⟩) lines
      | _ => none
    else none

def environment (file : Text) : Option (List Pair) := assignments none (file.splitOn '\n')

/-- The text is one more declaration to whatever follows it. -/
def Declares (pair : Pair) (text : Text) : Prop :=
  ∀ rest, environment (text ++ rest) = (environment rest).map (pair :: ·)

theorem feed_not_mem_key (k : Identifier) : '\n' ∉ k.1 := fun h => by
  have := name_chars k _ h
  cases this

theorem line_declares {p : Pair} (h : '\n' ∉ p.2) : Declares p (p.1.1 ++ '=' :: p.2 ++ ['\n']) := by
  intro r
  have hf : '\n' ∉ p.1.1 ++ '=' :: p.2 := by simp [feed_not_mem_key, h]
  rw [List.append_assoc, List.singleton_append, environment, List.splitOn_append_cons_self_of_not_mem hf, assignments,
    if_neg (by simp)]
  simp only [Texts.takeWhile_split (name_chars p.1) (by decide : name_char '=' = false),
    Texts.dropWhile_split (name_chars p.1) (by decide : name_char '=' = false), p.1.2, dif_pos]
  rfl

theorem assignments_body (begun : Begun) {l : List Text} (h : begun.delimiter ∉ l) (r : List Text) :
    assignments (some begun) (l ++ begun.delimiter :: r) =
      (assignments none r).map ((begun.key, ['\n'].intercalate (begun.body ++ l)) :: ·) := by
  induction l generalizing begun with
  | nil => rw [List.nil_append, assignments, if_pos rfl, List.append_nil]
  | cons ln l ih =>
    obtain ⟨hl, hn⟩ := not_or.mp fun hm => h (List.mem_cons.mpr hm)
    rw [List.cons_append, assignments, if_neg (Ne.symm hl)]
    refine (ih { begun with body := begun.body ++ [ln] } hn).trans ?_
    rw [List.append_assoc]
    rfl

theorem heredoc_declares {p : Pair} {delimiter : Text} (h : Delimits delimiter p.2) :
    Declares p (heredoc p delimiter) := by
  intro r
  have hf : '\n' ∉ p.1.1 ++ '<' :: '<' :: delimiter := by simp [feed_not_mem_key, h.feed]
  have ht : heredoc p delimiter ++ r =
      p.1.1 ++ '<' :: '<' :: delimiter ++ '\n' :: (p.2 ++ '\n' :: (delimiter ++ '\n' :: r)) := by simp [heredoc]
  rw [ht, environment, List.splitOn_append_cons_self_of_not_mem hf, List.splitOn_append_cons_self,
    List.splitOn_append_cons_self_of_not_mem h.feed, assignments, if_neg (by simp)]
  simp only [Texts.takeWhile_split (name_chars p.1) (by decide : name_char '<' = false),
    Texts.dropWhile_split (name_chars p.1) (by decide : name_char '<' = false), p.1.2, dif_pos]
  refine (assignments_body ⟨p.1, delimiter, []⟩ h.line _).trans ?_
  rw [List.nil_append, List.intercalate_splitOn]
  rfl

theorem environment_flatten {α : Type} {write : α → Option Text} (p : α → Pair)
    (h : ∀ en t, write en = some t → Declares (p en) t) {e : List α} {file : Text}
    (hf : (e.mapM write).map List.flatten = some file) : environment file = some (e.map p) := by
  obtain ⟨tx, ht, rfl⟩ := Option.map_eq_some_iff.mp hf
  induction e generalizing tx with
  | nil =>
    cases ht
    rfl
  | cons en e ih =>
    simp only [List.mapM_cons, Option.bind_eq_bind, Option.bind_eq_some_iff] at ht
    obtain ⟨t, htt, tx, ht, hp⟩ := ht
    cases hp
    rw [List.flatten_cons, h en t htt, ih tx ht (by rw [ht]; rfl)]
    rfl

theorem flatten_ends {α : Type} {write : α → Option Text} {e : List α}
    (h : ∀ en ∈ e, (write en).isSome) : ((e.mapM write).map List.flatten).isSome := by
  rw [Option.isSome_map]
  induction e with
  | nil => rfl
  | cons en e ih =>
    obtain ⟨he, hn⟩ := List.forall_mem_cons.mp h
    obtain ⟨tx, ht⟩ := Option.isSome_iff_exists.mp he
    obtain ⟨t, hx⟩ := Option.isSome_iff_exists.mp (ih hn)
    rw [List.mapM_cons, ht, hx]
    rfl

theorem gha_entry_declares {fuel : Nat} {pair : Pair} {d : Nat → Uuid} {text : Text}
    (h : gha_entry fuel pair d = some text) : Declares pair text := by
  unfold gha_entry at h
  split at h
  · obtain ⟨delimiter, hd, rfl⟩ := Option.map_eq_some_iff.mp h
    exact heredoc_declares (gha_delimits hd)
  · next hl =>
    cases h
    exact line_declares hl

/-- Both writers' files read back as the pairs; the searches end; the masks are the values' lines. -/
theorem environment_reads_back (entries : List (Pair × (Nat → Uuid))) (fuel : Nat) :
    (∀ file, write_gha fuel entries = some file → environment file = some (entries.map Prod.fst)) ∧
    (∀ file, render_github fuel (entries.map Prod.fst) = some file → environment file = some (entries.map Prod.fst)) ∧
    ((∀ entry ∈ entries, (pieces [] entry.1.2).length < fuel ∧ ∀ i ≤ (pieces [] entry.1.2).length,
      ∀ j ≤ (pieces [] entry.1.2).length, entry.2 i = entry.2 j → i = j) → (write_gha fuel entries).isSome = true) ∧
    ((∀ entry ∈ entries, 2 ^ entry.1.2.length < fuel) → (render_github fuel (entries.map Prod.fst)).isSome = true) ∧
    masked (github_mask_commands (entries.map Prod.fst)) =
      (entries.map Prod.fst).flatMap fun pair => (pair.2.splitOn '\n').filter (· ≠ []) := by
  refine ⟨fun file h => environment_flatten _ (fun entry _ => gha_entry_declares) h, fun file h => ?_, fun h => ?_, fun h => ?_, ?_⟩
  · refine (environment_flatten id (fun pair t ht => ?_) h).trans (by rw [List.map_id])
    obtain ⟨delimiter, hd, rfl⟩ := Option.map_eq_some_iff.mp ht
    exact heredoc_declares (github_delimits hd)
  · refine flatten_ends fun entry he => ?_
    unfold gha_entry
    split
    · rw [Option.isSome_map]
      exact gha_heredoc_delimiter_ends (h entry he).1 (h entry he).2
    · rfl
  · refine flatten_ends fun pair hp => ?_
    obtain ⟨entry, he, rfl⟩ := List.mem_map.mp hp
    rw [Option.isSome_map]
    exact github_delimiter_ends (h entry he)
  · rw [github_mask_commands, ← List.flatMap_assoc]
    exact masked_masks _

end Monosecret.Executor.GithubEnv
