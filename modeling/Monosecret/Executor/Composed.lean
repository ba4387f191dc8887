/-
  Monosecret.Executor.Composed — what a composed template says
  (`monosecret/src/composition.rs`: `Template::parse`, `Template::render`).

  A template is a sequence of pieces: characters, `$$`, and `${NAME}`. A `$` before anything
  else is a character. `template_exact`: what is accepted is spelled by pieces with at least
  one reference, and rendering puts a value in the place of each reference and a `$` in the
  place of each `$$`, values being taken as they are. `written_read_back`: texts whose `$`
  are doubled, with references between them, are given back.

  A template without a reference is refused, so a text that is escaped on its own is not
  given back (`plain_text_refused`).
-/

import Monosecret.Executor.Run

namespace Monosecret.Executor

open Lib Manifest
open Resolve (MAX_RENDERED_BYTES)
open String (append_assoc append_empty empty_append)

/-! ## The grammar -/

inductive Piece where
  | char (c : Char)
  | dollar
  | reference (name : String)

def Piece.text : Piece → List Char
  | .char c => [c]
  | .dollar => ['$', '$']
  | .reference name => '$' :: '{' :: (name.toList ++ ['}'])

def spelled (pieces : List Piece) : List Char := pieces.flatMap Piece.text

/-- A reference has a valid name, and a `$` on its own stands before no `$` and no `{`. -/
inductive Grammar : List Piece → Prop where
  | nil : Grammar []
  | char (c : Char) {pieces : List Piece} (alone : c = '$' → ∀ d ∈ (spelled pieces).head?, d ≠ '$' ∧ d ≠ '{')
      (h : Grammar pieces) : Grammar (.char c :: pieces)
  | dollar {pieces : List Piece} (h : Grammar pieces) : Grammar (.dollar :: pieces)
  | reference (name : String) (valid : is_valid_reference_name name = true) {pieces : List Piece} (h : Grammar pieces) :
      Grammar (.reference name :: pieces)

/-- One pass: each piece stands for its own text. -/
def Piece.filled (value : String → String) : Piece → String
  | .char c => String.singleton c
  | .dollar => "$"
  | .reference name => value name

def substituted (value : String → String) (pieces : List Piece) : String :=
  pieces.foldr (fun piece text => piece.filled value ++ text) ""

/-! ## Parsing -/

/-- The parts that pieces come to, after `parts` and the literal read so far. -/
def emitted (parts : List Part) (literal : List Char) : List Piece → List Part
  | [] => push_literal parts literal
  | .char c :: pieces => emitted parts (literal ++ [c]) pieces
  | .dollar :: pieces => emitted parts (literal ++ ['$']) pieces
  | .reference name :: pieces => emitted (push_literal parts literal ++ [.Reference name]) [] pieces

theorem name_no_brace {n : String} (h : is_valid_reference_name n) : ∀ c ∈ n.toList, c ≠ '}' ∧ c ≠ '{' := by
  intro c hc
  unfold is_valid_reference_name at h
  have hs : c.isUpper ∨ c.isDigit ∨ c = '_' := by
    split at h
    · cases h
    · rename_i first rest hn
      rw [hn] at hc
      obtain ⟨hf, hr⟩ := Bool.and_eq_true_iff.mp h
      rcases List.mem_cons.mp hc with rfl | hc
      · exact .inl hf
      · simpa [or_assoc] using List.all_eq_true.mp hr c hc
  refine ⟨?_, ?_⟩ <;> rintro rfl <;> revert hs <;> decide

variable {parts : List Part} {literal text rest : List Char} {pieces : List Piece}

theorem parse_reference {n : String} (hv : is_valid_reference_name n) (m : List Char) (read : List Char)
    (hn : read ++ m = n.toList) :
    parse_parts parts literal (some read) (m ++ '}' :: rest) = parse_parts (parts ++ [.Reference n]) [] none rest := by
  induction m generalizing read with
  | nil =>
    rw [List.append_nil] at hn
    rw [List.nil_append, parse_parts, hn, String.ofList_toList, if_pos rfl, if_pos hv]
  | cons c m ih =>
    obtain ⟨hc, ho⟩ := name_no_brace hv c (hn ▸ List.mem_append_right _ (.head _))
    rw [List.cons_append, parse_parts, if_neg hc, if_neg ho, ih (read ++ [c])]
    rw [List.append_assoc, List.singleton_append, hn]

/-- A `$` that opens nothing is a character. -/
theorem parse_char {c : Char} (alone : c = '$' → ∀ m, text ≠ '$' :: m ∧ text ≠ '{' :: m) :
    parse_parts parts literal none (c :: text) = parse_parts parts (literal ++ [c]) none text := by
  rw [parse_parts]
  · intro m hc he
    exact (alone hc m).1 he
  · intro m hc he
    exact (alone hc m).2 he

theorem parse_spelled (h : Grammar pieces) (parts : List Part) (literal : List Char) :
    parse_parts parts literal none (spelled pieces) = .ok (emitted parts literal pieces) := by
  induction h generalizing parts literal with
  | nil => rfl
  | @char c pieces alone h ih =>
    have ha : c = '$' → ∀ more, spelled pieces ≠ '$' :: more ∧ spelled pieces ≠ '{' :: more := by
      intro hc more
      refine ⟨fun he => ?_, fun he => ?_⟩
      · exact (alone hc '$' (by rw [he]; rfl)).1 rfl
      · exact (alone hc '{' (by rw [he]; rfl)).2 rfl
    exact (parse_char ha).trans (ih _ _)
  | dollar h ih => exact ih _ _
  | reference n valid h ih =>
    show parse_parts parts literal none ('$' :: '{' :: (n.toList ++ ['}'] ++ spelled _)) = _
    rw [parse_parts, List.append_assoc, List.singleton_append, parse_reference valid n.toList [] (List.nil_append _)]
    exact ih _ _

theorem grammar_of_char (h : Grammar pieces) {c : Char} (hc : c = '$' → ∀ rest, spelled pieces ≠ '$' :: rest ∧ spelled pieces ≠ '{' :: rest) :
    Grammar (.char c :: pieces) := by
  refine .char c (fun he d hd => ?_) h
  cases hs : spelled pieces with
  | nil =>
    rw [hs] at hd
    cases hd
  | cons first rest =>
    rw [hs] at hd
    cases hd
    refine ⟨?_, ?_⟩
    · rintro rfl
      exact (hc he rest).1 hs
    · rintro rfl
      exact (hc he rest).2 hs

/-- What the loop accepts, inside a reference or not. -/
theorem parse_grammar {out : List Part} {n : Option (List Char)} (h : parse_parts parts literal n text = .ok out) :
    match n with
    | none => ∃ pieces, Grammar pieces ∧ spelled pieces = text
    | some read => ∃ f pieces, is_valid_reference_name f ∧ Grammar pieces ∧
        ∃ more, read ++ more = f.toList ∧ text = more ++ '}' :: spelled pieces := by
  induction parts, literal, n, text using parse_parts.induct with
  | case1 parts literal => exact ⟨[], .nil, rfl⟩
  | case2 parts literal rest ih =>
    rw [parse_parts] at h
    obtain ⟨pieces, hg, hs⟩ := ih h
    exact ⟨.dollar :: pieces, .dollar hg, by rw [← hs]; rfl⟩
  | case3 parts literal rest ih =>
    rw [parse_parts] at h
    obtain ⟨f, pieces, hv, hg, more, hn, ht⟩ := ih h
    rw [List.nil_append] at hn
    refine ⟨.reference f :: pieces, .reference f hv hg, ?_⟩
    rw [ht, hn]
    show '$' :: '{' :: (f.toList ++ ['}'] ++ spelled pieces) = _
    rw [List.append_assoc, List.singleton_append]
  | case4 parts literal c rest hd ho ih =>
    have ha : c = '$' → ∀ more, rest ≠ '$' :: more ∧ rest ≠ '{' :: more :=
      fun hc more => ⟨fun he => hd more hc he, fun he => ho more hc he⟩
    rw [parse_char ha] at h
    obtain ⟨pieces, hg, rfl⟩ := ih h
    exact ⟨.char c :: pieces, grammar_of_char hg ha, rfl⟩
  | case5 => cases h
  | case6 parts literal n rest hv ih =>
    rw [parse_parts, if_pos rfl, if_pos hv] at h
    obtain ⟨pieces, hg, hs⟩ := ih h
    exact ⟨String.ofList n, pieces, hv, hg, [], by simp, by rw [hs]; rfl⟩
  | case7 parts literal n rest hv =>
    rw [parse_parts, if_pos rfl, if_neg hv] at h
    cases h
  | case8 parts literal n rest hl =>
    rw [parse_parts, if_neg hl, if_pos rfl] at h
    cases h
  | case9 parts literal n c rest hl ho ih =>
    rw [parse_parts, if_neg hl, if_neg ho] at h
    obtain ⟨f, pieces, hv, hg, more, hn, ht⟩ := ih h
    refine ⟨f, pieces, hv, hg, c :: more, ?_, by rw [ht]; rfl⟩
    rw [← hn, List.append_assoc, List.singleton_append]

/-- The references the pieces make. -/
def referenced (pieces : List Piece) : List String :=
  pieces.filterMap fun piece =>
    match piece with
    | .reference name => some name
    | _ => none

theorem mem_referenced {n : String} : n ∈ referenced pieces ↔ Piece.reference n ∈ pieces := by
  constructor
  · intro h
    obtain ⟨p, hp, hn⟩ := List.mem_filterMap.mp h
    cases p with
    | reference other =>
      cases hn
      exact hp
    | char c | dollar => cases hn
  · exact fun h => List.mem_filterMap.mpr ⟨_, h, rfl⟩

theorem references_push_literal : references (push_literal parts literal) = references parts := by
  unfold push_literal
  split
  · rfl
  · simp [references]

theorem references_emitted (pieces : List Piece) (parts : List Part) (literal : List Char) :
    references (emitted parts literal pieces) = references parts ++ referenced pieces := by
  induction pieces generalizing parts literal with
  | nil => rw [emitted, references_push_literal]; exact (List.append_nil _).symm
  | cons p pieces ih =>
    cases p with
    | char c => exact ih parts (literal ++ [c])
    | dollar => exact ih parts (literal ++ ['$'])
    | reference n =>
      rw [emitted, ih]
      rw [references, List.filterMap_append, ← references, references_push_literal, List.append_assoc]
      rfl

/-! ## Rendering -/

/-- What one part stands for. -/
def Part.filled (value : String → String) : Part → String
  | .Literal text => text
  | .Reference name => value name

def joined (value : String → String) (parts : List Part) : String :=
  parts.foldr (fun part text => Part.filled value part ++ text) ""

theorem joined_append (value : String → String) (parts more : List Part) :
    joined value (parts ++ more) = joined value parts ++ joined value more := by
  induction parts with
  | nil => exact (empty_append).symm
  | cons p parts ih =>
    show Part.filled value p ++ joined value (parts ++ more) = Part.filled value p ++ joined value parts ++ joined value more
    rw [ih, append_assoc]

theorem joined_push_literal (value : String → String) :
    joined value (push_literal parts literal) = joined value parts ++ String.ofList literal := by
  unfold push_literal
  split
  · rename_i hn
    obtain rfl := List.isEmpty_iff.mp hn
    exact (append_empty).symm
  · rw [joined_append]
    exact congrArg (joined value parts ++ ·) append_empty

theorem joined_emitted (value : String → String) (pieces : List Piece) (parts : List Part) (literal : List Char) :
    joined value (emitted parts literal pieces) = joined value parts ++ (String.ofList literal ++ substituted value pieces) := by
  induction pieces generalizing parts literal with
  | nil =>
    show joined value (push_literal parts literal) = _ ++ (_ ++ "")
    rw [joined_push_literal, append_empty]
  | cons p pieces ih =>
    cases p with
    | char c | dollar =>
      rw [emitted, ih, String.ofList_append, append_assoc]
      rfl
    | reference n =>
      rw [emitted, ih, joined_append, joined_push_literal]
      show joined value parts ++ String.ofList literal ++ (value n ++ "") ++ ("" ++ substituted value pieces) = _
      rw [append_empty, empty_append]
      simp only [append_assoc]
      rfl

/-- One turn of the loop of `render`. -/
def render_part (lookup : String → Option String) (rendered : String) (part : Part) : Except String String := do
  let value ←
    match part with
    | .Literal text => .ok text
    | .Reference name =>
      match lookup name with
      | some value => .ok value
      | none => .error s!"composed dependency `{name}` is not resolved"
  if MAX_RENDERED_BYTES < rendered.utf8ByteSize + value.utf8ByteSize then
    .error s!"composed value exceeds the {MAX_RENDERED_BYTES / 1024 / 1024} MiB limit"
  else .ok (rendered ++ value)

theorem render_eq (t : Template) (lookup : String → Option String) :
    Template.render t lookup = t.parts.foldlM (render_part lookup) "" := rfl

variable {lookup : String → Option String} {out : String}

/-- A part that has a value and leaves room for it is added. -/
theorem render_part_ok {r : String} {p : Part} :
    render_part lookup r p = .ok out ↔
      (∀ n, p = .Reference n → (lookup n).isSome) ∧
        out = r ++ Part.filled (fun n => (lookup n).getD "") p ∧ out.utf8ByteSize ≤ MAX_RENDERED_BYTES := by
  have hr (value : String) : ((if MAX_RENDERED_BYTES < r.utf8ByteSize + value.utf8ByteSize then
      .error s!"composed value exceeds the {MAX_RENDERED_BYTES / 1024 / 1024} MiB limit"
      else .ok (r ++ value) : Except String String) = .ok out) ↔
      out = r ++ value ∧ out.utf8ByteSize ≤ MAX_RENDERED_BYTES := by
    rw [← String.utf8ByteSize_append]
    by_cases hl : MAX_RENDERED_BYTES < (r ++ value).utf8ByteSize
    · rw [if_pos hl]
      refine ⟨fun h => (by cases h), ?_⟩
      rintro ⟨rfl, hs⟩
      omega
    · rw [if_neg hl]
      constructor
      · intro h
        cases h
        exact ⟨rfl, by omega⟩
      · rintro ⟨rfl, -⟩
        rfl
  cases p with
  | Literal text =>
    exact (hr text).trans ⟨fun h => ⟨fun _ he => (by cases he), h⟩, fun h => h.2⟩
  | Reference n =>
    cases hv : lookup n with
    | none =>
      refine ⟨fun h => ?_, fun h => ?_⟩
      · simp only [render_part, hv] at h
        cases h
      · have hso := h.1 n rfl
        rw [hv] at hso
        cases hso
    | some value =>
      have hf : Part.filled (fun n => (lookup n).getD "") (.Reference n) = value := by
        simp [Part.filled, hv]
      have hso : ∀ other, Part.Reference n = .Reference other → (lookup other).isSome := by
        intro other he
        obtain rfl := Part.Reference.inj he
        rw [hv]
        rfl
      rw [hf]
      simp only [render_part, hv]
      exact (hr value).trans ⟨fun h => ⟨hso, h⟩, fun h => h.2⟩

theorem mem_references {n : String} : n ∈ references parts ↔ Part.Reference n ∈ parts := by
  constructor
  · intro h
    obtain ⟨p, hp, hn⟩ := List.mem_filterMap.mp h
    cases p with
    | Reference other =>
      cases hn
      exact hp
    | Literal text => cases hn
  · exact fun h => List.mem_filterMap.mpr ⟨_, h, rfl⟩

theorem size_le_of_append {a b : String} {n : Nat} (h : (a ++ b).utf8ByteSize ≤ n) : a.utf8ByteSize ≤ n := by
  rw [String.utf8ByteSize_append] at h
  omega

/-- The loop of `render`. The limit on the whole bounds what was read before. -/
theorem render_parts (parts : List Part) {r : String} (hs : r.utf8ByteSize ≤ MAX_RENDERED_BYTES) :
    parts.foldlM (render_part lookup) r = .ok out ↔
      (∀ n ∈ references parts, (lookup n).isSome) ∧
        out = r ++ joined (fun n => (lookup n).getD "") parts ∧ out.utf8ByteSize ≤ MAX_RENDERED_BYTES := by
  induction parts generalizing r with
  | nil =>
    show Except.ok r = .ok out ↔ _ ∧ out = r ++ "" ∧ _
    rw [append_empty]
    constructor
    · intro h
      cases h
      exact ⟨fun _ hn => (by cases hn), rfl, hs⟩
    · rintro ⟨-, rfl, -⟩
      rfl
  | cons p parts ih =>
    rw [List.foldlM_cons]
    constructor
    · intro h
      obtain ⟨next, hp, hr⟩ := Except.bind_ok h
      obtain ⟨hf, hx, hm⟩ := render_part_ok.mp hp
      obtain ⟨hmr, ho, hl⟩ := (ih hm).mp hr
      refine ⟨fun n hn => ?_, ?_, hl⟩
      · rcases List.mem_cons.mp (mem_references.mp hn) with he | hn
        · exact hf n he.symm
        · exact hmr n (mem_references.mpr hn)
      · rw [ho, hx, append_assoc]
        rfl
    · rintro ⟨hf, ho, hl⟩
      have ha : out = (r ++ Part.filled (fun n => (lookup n).getD "") p) ++
          joined (fun n => (lookup n).getD "") parts := by
        rw [ho, append_assoc]
        rfl
      have hm := size_le_of_append (ha ▸ hl)
      rw [render_part_ok.mpr ⟨fun n he => hf n (mem_references.mpr (he ▸ List.mem_cons_self)), rfl, hm⟩]
      exact (ih hm).mpr ⟨fun n hn => hf n (mem_references.mpr (.tail _ (mem_references.mp hn))),
        ha, hl⟩

/-! ## Accepted templates -/

theorem sorted_set_isEmpty {names : List String} : (sorted_set names).isEmpty ↔ names = [] := by
  rw [List.isEmpty_iff, List.eq_nil_iff_forall_not_mem, List.eq_nil_iff_forall_not_mem]
  exact forall_congr' fun n => not_congr mem_sorted_set

variable {input : String}

theorem parse_ok (h : Grammar pieces) (hs : spelled pieces = input.toList) :
    Template.parse input =
      if referenced pieces = [] then .error "a composed template must reference at least one declared secret"
      else .ok ⟨emitted [] [] pieces, sorted_set (referenced pieces)⟩ := by
  have hp := parse_spelled h [] []
  rw [hs] at hp
  have hr : references (emitted [] [] pieces) = referenced pieces := references_emitted pieces [] []
  unfold Template.parse
  rw [hp]
  show (if (sorted_set (references (emitted [] [] pieces))).isEmpty then _ else _) = _
  rw [hr]
  simp only [sorted_set_isEmpty]

theorem parse_ok_iff :
    (∃ t, Template.parse input = .ok t) ↔
      ∃ pieces, Grammar pieces ∧ spelled pieces = input.toList ∧ referenced pieces ≠ [] := by
  constructor
  · rintro ⟨t, h⟩
    obtain ⟨parts, hp, -⟩ := Except.bind_ok (id h : (parse_parts [] [] none input.toList >>= _) = .ok t)
    obtain ⟨pieces, hg, hs⟩ := parse_grammar hp
    refine ⟨pieces, hg, hs, fun hn => ?_⟩
    rw [parse_ok hg hs, if_pos hn] at h
    cases h
  · rintro ⟨pieces, hg, hs, hm⟩
    exact ⟨_, (parse_ok hg hs).trans (if_neg hm)⟩

theorem parts_of_parse (h : Grammar pieces) (hs : spelled pieces = input.toList) {t : Template}
    (hp : Template.parse input = .ok t) : t = ⟨emitted [] [] pieces, sorted_set (referenced pieces)⟩ := by
  rw [parse_ok h hs] at hp
  split at hp
  · cases hp
  · exact (Except.ok.inj hp).symm

theorem render_ok_iff (h : Grammar pieces) (hs : spelled pieces = input.toList) {t : Template}
    (hp : Template.parse input = .ok t) :
    Template.render t lookup = .ok out ↔
      (∀ n ∈ referenced pieces, (lookup n).isSome) ∧
        out = substituted (fun n => (lookup n).getD "") pieces ∧ out.utf8ByteSize ≤ MAX_RENDERED_BYTES := by
  obtain rfl := parts_of_parse h hs hp
  have hj : joined (fun n => (lookup n).getD "") (emitted [] [] pieces) =
      substituted (fun n => (lookup n).getD "") pieces := by
    rw [joined_emitted]
    show "" ++ ("" ++ _) = _
    rw [empty_append, empty_append]
  rw [render_eq, render_parts _ (Nat.zero_le _), hj, references_emitted, empty_append]
  rfl

/-! ## Escaping -/

/-- A text with its `$` doubled. -/
def escape (text : List Char) : List Char := text.flatMap fun c => if c = '$' then ['$', '$'] else [c]

/-- What a template is written from: texts, and names for values. -/
inductive Segment where
  | text (text : String)
  | value (name : String)

def Segment.written : Segment → List Char
  | .text text => escape text.toList
  | .value name => '$' :: '{' :: (name.toList ++ ['}'])

def Segment.read (value : String → String) : Segment → String
  | .text text => text
  | .value name => value name

def Segment.name : Segment → Option String
  | .text _ => none
  | .value name => some name

def Segment.spelling : Segment → List Piece
  | .text text => text.toList.map fun c => if c = '$' then .dollar else .char c
  | .value name => [.reference name]

variable {segments : List Segment}

theorem spelled_append (more : List Piece) : spelled (pieces ++ more) = spelled pieces ++ spelled more := List.flatMap_append

theorem segment_spelled (s : Segment) : spelled s.spelling = s.written := by
  cases s with
  | value n => exact List.append_nil _
  | text text =>
    show (text.toList.map _).flatMap Piece.text = text.toList.flatMap _
    rw [List.flatMap_map]
    refine List.flatMap_congr fun c _ => ?_
    by_cases hc : c = '$'
    · rw [if_pos hc, if_pos hc]
      rfl
    · rw [if_neg hc, if_neg hc]
      rfl

theorem segments_spelled (segments : List Segment) : spelled (segments.flatMap Segment.spelling) = segments.flatMap Segment.written := by
  induction segments with
  | nil => rfl
  | cons s segments ih => rw [List.flatMap_cons, spelled_append, segment_spelled, ih, List.flatMap_cons]

/-- A text that is escaped has no `$` on its own. -/
theorem grammar_text (text : List Char) (h : Grammar pieces) :
    Grammar (text.map (fun c => if c = '$' then .dollar else .char c) ++ pieces) := by
  induction text with
  | nil => exact h
  | cons c text ih =>
    rw [List.map_cons, List.cons_append]
    by_cases hc : c = '$'
    · rw [if_pos hc]
      exact .dollar ih
    · rw [if_neg hc]
      exact .char c (fun he => absurd he hc) ih

theorem grammar_segments (h : ∀ s ∈ segments, ∀ n ∈ s.name, is_valid_reference_name n) :
    Grammar (segments.flatMap Segment.spelling) := by
  induction segments with
  | nil => exact .nil
  | cons s segments ih =>
    have hr := ih fun other ho => h other (.tail _ ho)
    cases s with
    | text text => exact grammar_text text.toList hr
    | value n => exact .reference n (h _ (.head _) n rfl) hr

theorem referenced_segments (segments : List Segment) : referenced (segments.flatMap Segment.spelling) = segments.filterMap Segment.name := by
  induction segments with
  | nil => rfl
  | cons s segments ih =>
    rw [List.flatMap_cons, referenced, List.filterMap_append, ← referenced, ← referenced, ih]
    cases s with
    | value n => rfl
    | text text =>
      have hn : referenced (Segment.text text).spelling = [] := by
        refine List.eq_nil_iff_forall_not_mem.mpr fun n hm => ?_
        obtain ⟨c, -, hc⟩ := List.mem_map.mp (mem_referenced.mp hm)
        split at hc
        all_goals cases hc
      rw [hn]
      rfl

theorem substituted_append (value : String → String) (more : List Piece) :
    substituted value (pieces ++ more) = substituted value pieces ++ substituted value more := by
  induction pieces with
  | nil => exact empty_append.symm
  | cons p pieces ih =>
    show p.filled value ++ substituted value (pieces ++ more) = p.filled value ++ substituted value pieces ++ _
    rw [ih, append_assoc]

theorem substituted_text (value : String → String) (text : List Char) :
    substituted value (text.map fun c => if c = '$' then .dollar else .char c) = String.ofList text := by
  induction text with
  | nil => rfl
  | cons c text ih =>
    show Piece.filled value (if c = '$' then .dollar else .char c) ++ substituted value _ = _
    rw [ih]
    have hc : Piece.filled value (if c = '$' then .dollar else .char c) = String.singleton c := by
      split
      · rename_i hc
        rw [hc]
        rfl
      · rfl
    rw [hc]
    apply String.toList_inj.mp
    simp

theorem substituted_segments (value : String → String) (segments : List Segment) :
    substituted value (segments.flatMap Segment.spelling) = segments.foldr (fun s text => s.read value ++ text) "" := by
  induction segments with
  | nil => rfl
  | cons s segments ih =>
    rw [List.flatMap_cons, substituted_append, ih]
    refine congrArg (· ++ _) ?_
    cases s with
    | text text => exact (substituted_text value text.toList).trans String.ofList_toList
    | value n => exact append_empty

/-! ## What a template says -/

theorem template_exact :
    (∀ input, (∃ template, Template.parse input = .ok template) ↔
      ∃ pieces, Grammar pieces ∧ spelled pieces = input.toList ∧ referenced pieces ≠ []) ∧
    (∀ input template pieces, Template.parse input = .ok template → Grammar pieces → spelled pieces = input.toList →
      template.dependencies.Nodup ∧ (∀ name, name ∈ template.dependencies ↔ name ∈ referenced pieces) ∧
        ∀ lookup out, Template.render template lookup = .ok out ↔
          (∀ name ∈ referenced pieces, (lookup name).isSome = true) ∧
            out = substituted (fun name => (lookup name).getD "") pieces ∧ out.utf8ByteSize ≤ MAX_RENDERED_BYTES) ∧
    ∀ segments : List Segment, (∀ segment ∈ segments, ∀ name ∈ segment.name, is_valid_reference_name name = true) →
      segments.filterMap Segment.name ≠ [] →
      ∃ template, Template.parse (String.ofList (segments.flatMap Segment.written)) = .ok template ∧
        ∀ lookup out, Template.render template lookup = .ok out ↔
          (∀ name ∈ segments.filterMap Segment.name, (lookup name).isSome = true) ∧
            out = segments.foldr (fun segment text => segment.read (fun name => (lookup name).getD "") ++ text) "" ∧
            out.utf8ByteSize ≤ MAX_RENDERED_BYTES := by
  refine ⟨fun input => parse_ok_iff, ?_, ?_⟩
  · intro input template pieces hp hg hs
    refine ⟨?_, fun name => ?_, fun lookup out => render_ok_iff hg hs hp⟩
    · rw [parts_of_parse hg hs hp]
      exact sorted_set_nodup _
    · rw [parts_of_parse hg hs hp]
      exact mem_sorted_set
  · intro segments hv hm
    have hg := grammar_segments hv
    have hs : spelled (segments.flatMap Segment.spelling) = (String.ofList (segments.flatMap Segment.written)).toList := by
      rw [segments_spelled, String.toList_ofList]
    have hp := (parse_ok hg hs).trans (if_neg (by rw [referenced_segments]; exact hm))
    refine ⟨_, hp, fun lookup out => ?_⟩
    rw [render_ok_iff hg hs hp, referenced_segments, substituted_segments]

theorem price_of_key :
    ∃ template, Template.parse "$$5 for $\x7bKEY\x7d" = .ok template ∧
      Template.render template (fun name => if name = "KEY" then some "$\x7bOTHER\x7d" else none) = .ok "$5 for $\x7bOTHER\x7d" := by
  obtain ⟨template, hp, hr⟩ :=
    template_exact.2.2 [.text "$5 for ", .value "KEY"] (by decide +kernel) (by decide)
  exact ⟨template, hp, (hr _ _).mpr ⟨by decide, by decide +kernel, by decide +kernel⟩⟩

/-- Escaping a text on its own writes no reference, and a template makes at least one. -/
theorem plain_text_refused :
    ¬∀ text : String, ∃ template, Template.parse (String.ofList (escape text.toList)) = .ok template ∧
      Template.render template (fun _ => none) = .ok text := by
  intro h
  obtain ⟨template, hp, -⟩ := h "abc"
  have hr : (Template.parse (String.ofList (escape "abc".toList))).toOption = none := by decide +kernel
  rw [hp] at hr
  cases hr

end Monosecret.Executor
