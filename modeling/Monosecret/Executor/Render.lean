/-
  Monosecret.Executor.Render — the declarations `env` and `export` print for a shell
  (`monosecret/src/cli/shell.rs`, `shell_single_quote` in `monosecret/src/secrets.rs`).

  A script is read as its shell reads it: declarations of a name and a string literal, and
  nothing else. Bash joins single quotes and escaped characters to a word; fish and Nushell
  have a backslash escape inside their quotes; PowerShell doubles a quote inside its quotes,
  and takes four typographic ones for quotes too. What is printed reads back as exactly the
  pairs, except that PowerShell's needs values without those four (`read_render_iff`): such
  a value ends its literal, and the rest of it is read as script
  (`typographic_quote_closes`).

  A text is its characters. The CI formats (`github`, `gitlab`, `dotenv`) are left out.
-/

import Monosecret.Lib.ShellWords
import Monosecret.Lib.Texts

namespace Monosecret.Executor.Render

open Lib

abbrev Text := List Char

def name_char (c : Char) : Bool := c.isAlphanum || c == '_'

/-- Keys are validated upstream; `emit` refuses those that are not ASCII. -/
def is_identifier (name : Text) : Bool :=
  name.all name_char && name.head?.any fun first => !first.isDigit

abbrev Identifier := { name : Text // is_identifier name = true }

abbrev Pair := Identifier × Text

/-! ## Rendering -/

inductive Shell where
  | bash
  | fish
  | powershell
  | nushell
  deriving DecidableEq

def replace (c : Char) (new text : Text) : Text := text.flatMap fun d => if d = c then new else [d]

def bash_quote (value : Text) : Text := '\'' :: replace '\'' ['\'', '\\', '\'', '\''] value ++ ['\'']

/-- Backslashes first, then the quote. -/
def backslash_quote (quote : Char) (value : Text) : Text :=
  quote :: replace quote ['\\', quote] (replace '\\' ['\\', '\\'] value) ++ [quote]

def fish_quote (value : Text) : Text := backslash_quote '\'' value

def ps_quote (value : Text) : Text := '\'' :: replace '\'' ['\'', '\''] value ++ ['\'']

def nu_quote (value : Text) : Text := backslash_quote '"' value

def render (shell : Shell) (pairs : List Pair) : Text :=
  (pairs.flatMap fun (key, value) =>
    match shell with
    | .bash => "export ".toList ++ key.1 ++ "=".toList ++ bash_quote value ++ ";\n".toList
    | .fish => "set -gx ".toList ++ key.1 ++ " ".toList ++ fish_quote value ++ ";\n".toList
    | .powershell => "$env:".toList ++ key.1 ++ "=".toList ++ ps_quote value ++ ";\n".toList
    | .nushell => []) ++
  if shell = .nushell then
    "load-env \x7b\n".toList ++
      (pairs.flatMap fun (key, value) => "    ".toList ++ key.1 ++ ": ".toList ++ nu_quote value ++ "\n".toList) ++
      "\x7d\n".toList
  else []

def shell_single_quote (value : Text) : Text :=
  '\'' :: (value.flatMap fun ch => if ch = '\'' then ['\'', '\\', '\'', '\''] else [ch]) ++ ['\'']

/-- `write_export` in the shell format. -/
def write_export (entries : List Pair) : Text :=
  entries.flatMap fun (key, value) => "export ".toList ++ key.1 ++ "=".toList ++ shell_single_quote value ++ "\n".toList

/-! ## Reading -/

/-- A string literal at the start of a text, and what follows it. -/
abbrev Reader := Text → Option (Text × Text)

def keep (text : Text) : Option (Text × Text) → Option (Text × Text) := Option.map fun (value, rest) => (text ++ value, rest)

/-- A POSIX word, `true` between single quotes. -/
def word : Bool → Reader
  | true, [] => none
  | true, c :: rest => if c = '\'' then word false rest else keep [c] (word true rest)
  | false, [] => some ([], [])
  | false, '\\' :: c :: rest => keep (if c = '\n' then [] else [c]) (word false rest)
  | false, c :: rest =>
    if c = '\'' then word true rest
    else if ShellWords.plain c then keep [c] (word false rest)
    else if c = ';' ∨ c = '\n' ∨ ShellWords.blank c then some ([], c :: rest)
    else none

/-- Up to the closing quote, where `escape` says what a character behind a backslash means. -/
def backslash_body (quote : Char) (escape : Char → Option Text) : Reader
  | [] => none
  | c :: rest =>
    if c = quote then some ([], rest)
    else if c = '\\' then
      match rest with
      | [] => none
      | d :: rest => (escape d).bind fun text => keep text (backslash_body quote escape rest)
    else keep [c] (backslash_body quote escape rest)

def fish_escape (c : Char) : Option Text := some (if c = '\\' ∨ c = '\'' then [c] else ['\\', c])

/-- The one-letter escapes; a code point's is left out. -/
def nu_escape (c : Char) : Option Text :=
  if "\"'\\/()\x7b\x7d$^#|~".toList.contains c then some [c]
  else match c with
    | 'a' => some ['\x07']
    | 'b' => some ['\x08']
    | 'e' => some ['\x1b']
    | 'f' => some ['\x0c']
    | 'n' => some ['\n']
    | 'r' => some ['\r']
    | 't' => some ['\t']
    | _ => none

/-- U+2018 to U+201B. -/
def typographic (c : Char) : Bool := c == '\u2018' || c == '\u2019' || c == '\u201a' || c == '\u201b'

def single_quote (c : Char) : Bool := c == '\'' || typographic c

/-- Two quotes of any kind are the second one. -/
def ps_body : Reader
  | [] => none
  | c :: rest =>
    if single_quote c then
      match rest with
      | [] => some ([], [])
      | d :: rest => if single_quote d then keep [d] (ps_body rest) else some ([], d :: rest)
    else keep [c] (ps_body rest)

def opened (quote : Char → Bool) (body : Reader) : Reader
  | [] => none
  | c :: rest => if quote c then body rest else none

/-- The texts around the declarations of a script, and around the name and the literal of each. -/
structure Grammar where
  opening : String
  start : String
  middle : String
  literal : Reader
  finish : String
  closing : String

def Shell.grammar : Shell → Grammar
  | .bash => ⟨"", "export ", "=", word false, ";\n", ""⟩
  | .fish => ⟨"", "set -gx ", " ", opened (· == '\'') (backslash_body '\'' fish_escape), ";\n", ""⟩
  | .powershell => ⟨"", "$env:", "=", opened single_quote ps_body, ";\n", ""⟩
  | .nushell => ⟨"load-env \x7b\n", "    ", ": ", opened (· == '"') (backslash_body '"' nu_escape), "\n", "\x7d\n"⟩

def export_grammar : Grammar := ⟨"", "export ", "=", word false, "\n", ""⟩

def strip (text : String) (input : Text) : Option Text :=
  if text.toList <+: input then some (input.drop text.toList.length) else none

namespace Grammar

variable (g : Grammar)

def declaration (input : Text) : Option (Pair × Text) :=
  (strip g.start input).bind fun input =>
    let name := input.takeWhile name_char
    if h : is_identifier name = true then
      (strip g.middle (input.dropWhile name_char)).bind fun input =>
        (g.literal input).bind fun (value, input) => (strip g.finish input).map fun rest => ((⟨name, h⟩, value), rest)
    else none

/-- The declarations up to the closing text; each takes some of the fuel. -/
def declarations : Nat → Text → Option (List Pair)
  | 0, _ => none
  | fuel + 1, input =>
    if input = g.closing.toList then some []
    else (g.declaration input).bind fun (pair, rest) => (declarations fuel rest).map (pair :: ·)

/-- The pairs a script declares, if it does nothing else. -/
def script (input : Text) : Option (List Pair) := (strip g.opening input).bind (g.declarations (input.length + 1))

end Grammar

theorem strip_append (t : String) (rest : Text) : strip t (t.toList ++ rest) = some rest := by
  rw [strip, if_pos (List.prefix_append ..), List.drop_left]

/-! ## A script of declarations -/

section

variable {g : Grammar} {quote : Text → Text} {good : Text → Prop}

/-- The declarations of a rendering, each value in a quoting. -/
def body (g : Grammar) (quote : Text → Text) (pairs : List Pair) : Text :=
  pairs.flatMap fun (key, value) =>
    g.start.toList ++ key.1 ++ g.middle.toList ++ quote value ++ g.finish.toList

/-- A quoting whose literals are read back as their values exactly when those are good. -/
structure Reads (g : Grammar) (quote : Text → Text) (good : Text → Prop) : Prop where
  middle : ∃ c rest, g.middle.toList = c :: rest ∧ name_char c = false
  start : ∀ rest, g.start.toList ++ rest ≠ g.closing.toList
  back : ∀ value rest, good value →
    g.literal (quote value ++ (g.finish.toList ++ rest)) = some (value, g.finish.toList ++ rest)
  only : ∀ value rest tail, g.literal (quote value ++ (g.finish.toList ++ rest)) = some (value, tail) → good value

theorem name_chars (k : Identifier) : ∀ d ∈ k.1, name_char d := by
  have h := k.2
  rw [is_identifier, Bool.and_eq_true, List.all_eq_true] at h
  exact h.1

theorem declaration_text (r : Reads g quote good) (k : Identifier) (i : Text) :
    g.declaration (g.start.toList ++ (k.1 ++ (g.middle.toList ++ i))) =
      (g.literal i).bind fun (value, i) => (strip g.finish i).map fun rs => ((k, value), rs) := by
  obtain ⟨c, m, hm, hc⟩ := r.middle
  have ht := Texts.takeWhile_split (name_chars k) hc (m ++ i)
  have hd := Texts.dropWhile_split (name_chars k) hc (m ++ i)
  rw [← List.cons_append, ← hm] at ht hd
  rw [Grammar.declaration, strip_append, Option.bind_some]
  simp only [ht, hd, k.2, dif_pos, strip_append, Option.bind_some]

/-- One declaration takes one step of the fuel; a value that is not good is not read back. -/
theorem declarations_iff (r : Reads g quote good) (pr : List Pair) {f : Nat} (hf : pr.length < f) :
    g.declarations f (body g quote pr ++ g.closing.toList) = some pr ↔ ∀ p ∈ pr, good p.2 := by
  induction pr generalizing f with
  | nil =>
    obtain ⟨f, rfl⟩ := Nat.exists_eq_succ_of_ne_zero (Nat.ne_of_gt hf)
    simp [body, Grammar.declarations]
  | cons p pr ih =>
    obtain ⟨f, rfl⟩ := Nat.exists_eq_succ_of_ne_zero (Nat.ne_zero_of_lt hf)
    rw [body, List.flatMap_cons, ← body]
    simp only [List.append_assoc]
    rw [Grammar.declarations, if_neg (r.start _), declaration_text r, List.forall_mem_cons]
    by_cases hg : good p.2
    · rw [r.back _ _ hg]
      simp [strip_append, hg, ih (Nat.lt_of_succ_lt_succ hf)]
    · refine iff_of_false (fun h => hg ?_) fun h => hg h.1
      simp only [Option.bind_eq_some_iff, Option.map_eq_some_iff] at h
      obtain ⟨_, ⟨⟨value, t⟩, hl, _, _, rfl⟩, _, _, hp⟩ := h
      have hv : value = p.2 := congrArg Prod.snd (List.cons.inj hp).1
      exact r.only _ _ _ (hv ▸ hl)

theorem length_body (r : Reads g quote good) (pr : List Pair) : pr.length ≤ (body g quote pr).length := by
  obtain ⟨c, m, hm, _⟩ := r.middle
  induction pr with
  | nil => exact Nat.zero_le _
  | cons p pr ih =>
    rw [body, List.flatMap_cons, ← body, hm]
    simp only [List.length_append, List.length_cons]
    omega

theorem script_iff (r : Reads g quote good) (pr : List Pair) :
    g.script (g.opening.toList ++ (body g quote pr ++ g.closing.toList)) = some pr ↔ ∀ p ∈ pr, good p.2 := by
  have hl := length_body r pr
  rw [Grammar.script, strip_append, Option.bind_some]
  refine declarations_iff r pr ?_
  simp only [List.length_append]
  omega

end

/-! ## Literals -/

theorem keep_keep (first s : Text) (read : Option (Text × Text)) :
    keep first (keep s read) = keep (first ++ s) read := by
  cases read <;> simp [keep]

@[simp] theorem replace_nil (c : Char) (n : Text) : replace c n [] = [] := rfl

@[simp] theorem replace_cons (c : Char) (new : Text) (d : Char) (text : Text) :
    replace c new (d :: text) = (if d = c then new else [d]) ++ replace c new text := rfl

theorem replace_append (c : Char) (new first second : Text) :
    replace c new (first ++ second) = replace c new first ++ replace c new second := List.flatMap_append

theorem word_single (value rest : Text) :
    word true (replace '\'' ['\'', '\\', '\'', '\''] value ++ '\'' :: rest) = keep value (word false rest) := by
  induction value with
  | nil => cases h : word false rest <;> simp [word, keep, h]
  | cons c value ih =>
    rw [replace_cons]
    by_cases hc : c = '\'' <;> simp [hc, word, ih, keep_keep]

theorem word_opened (rest : Text) : word false ('\'' :: rest) = word true rest := by simp [word]

theorem word_quoted (value : Text) {c : Char} (hc : c = ';' ∨ c = '\n') (r : Text) :
    word false (bash_quote value ++ c :: r) = some (value, c :: r) := by
  rw [bash_quote, List.append_assoc, List.cons_append, List.singleton_append, word_opened, word_single]
  obtain rfl | rfl := hc <;> simp [word, keep, ShellWords.plain, ShellWords.blank, ShellWords.special]

section

variable {quote : Char} {escape : Char → Option Text}

theorem backslash_close (r : Text) : backslash_body quote escape (quote :: r) = some ([], r) := by
  cases r <;> simp [backslash_body]

theorem backslash_keep {c : Char} (hq : c ≠ quote) (hc : c ≠ '\\') (r : Text) :
    backslash_body quote escape (c :: r) = keep [c] (backslash_body quote escape r) := by
  cases r <;> simp [backslash_body, hq, hc]

theorem backslash_quoted (hq : quote ≠ '\\')
    (hs : escape quote = some [quote]) (hb : escape '\\' = some ['\\']) (value r : Text) :
    opened (· == quote) (backslash_body quote escape) (backslash_quote quote value ++ r) = some (value, r) := by
  rw [backslash_quote, List.append_assoc, List.cons_append, opened, if_pos (beq_self_eq_true _), List.singleton_append]
  induction value with
  | nil => exact backslash_close r
  | cons c value ih =>
    rw [replace_cons, replace_append]
    by_cases hc : c = '\\'
    · simp [hc, backslash_body, hb, ih, keep, hq.symm]
    · by_cases hcq : c = quote
      · subst hcq
        simp [hc, backslash_body, hs, ih, keep, hq.symm]
      · simp [hc, hcq, backslash_keep, ih, keep]

end

/-! ## PowerShell's quotes -/

theorem keep_cons {c d : Char} {read : Option (Text × Text)} {value r : Text} (h : keep [c] read = some (d :: value, r)) :
    c = d ∧ read = some (value, r) := by
  obtain ⟨⟨t, tl⟩, hr, he⟩ := Option.map_eq_some_iff.mp h
  cases he
  exact ⟨rfl, hr⟩

theorem ps_close {c : Char} (hc : single_quote c = false) (r : Text) :
    ps_body ('\'' :: c :: r) = some ([], c :: r) := by
  simp [ps_body, show single_quote '\'' from rfl, hc]

theorem ps_two {c d : Char} (hc : single_quote c) (hd : single_quote d) (r : Text) :
    ps_body (c :: d :: r) = keep [d] (ps_body r) := by
  rw [ps_body, if_pos hc]
  simp [hd]

theorem ps_keep {c : Char} (hc : single_quote c = false) (r : Text) : ps_body (c :: r) = keep [c] (ps_body r) := by
  cases r <;> simp [ps_body, hc]

/-- A character that is not typographic is read as itself. -/
theorem ps_replaced {c : Char} (hc : typographic c = false) (r : Text) :
    ps_body ((if c = '\'' then ['\'', '\''] else [c]) ++ r) = keep [c] (ps_body r) := by
  by_cases hq : c = '\''
  · rw [if_pos hq, hq]
    exact ps_two rfl rfl r
  · rw [if_neg hq]
    exact ps_keep (by simp [single_quote, hq, hc]) r

theorem ps_literal (value r : Text) :
    opened single_quote ps_body (ps_quote value ++ (";\n".toList ++ r)) =
      ps_body (replace '\'' ['\'', '\''] value ++ '\'' :: ';' :: '\n' :: r) := by
  simp [ps_quote, opened, single_quote]

theorem ps_quoted {value : Text} (h : ∀ c ∈ value, typographic c = false) (r : Text) :
    ps_body (replace '\'' ['\'', '\''] value ++ '\'' :: ';' :: r) = some (value, ';' :: r) := by
  induction value with
  | nil => exact ps_close rfl r
  | cons c value ih =>
    rw [List.forall_mem_cons] at h
    rw [replace_cons, List.append_assoc, ps_replaced h.1, ih h.2]
    rfl

/-- A typographic quote is lost: the character read for it is the next one, a quote too. -/
theorem ps_lost {c e : Char} (hc : typographic c) (he : typographic e) {value more rest tail : Text}
    (h : ps_body (c :: (replace '\'' ['\'', '\''] value ++ '\'' :: rest)) = some (e :: more, tail)) :
    ∃ v', value = e :: v' ∧
      ps_body (replace '\'' ['\'', '\''] v' ++ '\'' :: rest) = some (more, tail) := by
  have hq : single_quote c := by simp [single_quote, hc]
  have he' : '\'' ≠ e := fun heq => by simp [← heq, typographic] at he
  cases value with
  | nil =>
    rw [replace_nil, List.nil_append, ps_two hq rfl] at h
    exact absurd (keep_cons h).1 he'
  | cons d value =>
    rw [replace_cons] at h
    by_cases hd : d = '\''
    · rw [if_pos hd, List.cons_append, List.cons_append, ps_two hq rfl] at h
      exact absurd (keep_cons h).1 he'
    · rw [if_neg hd, List.singleton_append, List.cons_append] at h
      cases ht : typographic d with
      | true =>
        rw [ps_two hq (by simp [single_quote, ht])] at h
        exact ⟨value, by rw [(keep_cons h).1], (keep_cons h).2⟩
      | false =>
        rw [ps_body, if_pos hq, if_neg (by simp [single_quote, hd, ht])] at h
        cases h

/-- What is read stays behind by the typographic quotes before it. -/
theorem ps_lag (lag value : Text) {r t : Text} (hl : ∀ c ∈ lag, typographic c)
    (h : ps_body (replace '\'' ['\'', '\''] value ++ '\'' :: ';' :: r) = some (lag ++ value, t)) :
    lag = [] ∧ ∀ c ∈ value, typographic c = false := by
  induction hn : value.length using Nat.strongRecOn generalizing lag value with
  | _ n ih =>
    subst hn
    cases value with
    | nil =>
      rw [replace_nil, List.nil_append, ps_close rfl] at h
      cases lag with
      | nil => exact ⟨rfl, nofun⟩
      | cons => cases h
    | cons c value =>
      rw [replace_cons, List.append_assoc] at h
      cases hc : typographic c with
      | false =>
        rw [ps_replaced hc] at h
        cases lag with
        | nil => exact ⟨rfl, List.forall_mem_cons.mpr ⟨hc, (ih _ (Nat.lt_succ_self _) [] value nofun (keep_cons h).2 rfl).2⟩⟩
        | cons e lag =>
          cases (keep_cons h).1
          exact absurd (hl c List.mem_cons_self) (by simp [hc])
      | true =>
        have hne : c ≠ '\'' := fun he => by simp [he, typographic] at hc
        have ha : ∀ d ∈ lag ++ [c], typographic d := by simpa [or_imp, forall_and, hc] using hl
        rw [if_neg hne, List.singleton_append, List.append_cons lag] at h
        obtain ⟨e, m, hm⟩ := List.exists_cons_of_ne_nil (List.append_ne_nil_of_right_ne_nil lag (List.cons_ne_nil c []))
        rw [hm, List.forall_mem_cons] at ha
        rw [hm] at h
        obtain ⟨v', rfl, h⟩ := ps_lost hc ha.1 h
        have hr := h.trans (congrArg (fun tx => some (tx, t)) (List.append_cons m e v'))
        have hl' : ∀ d ∈ m ++ [e], typographic d := by simpa [or_imp, forall_and, ha.1] using ha.2
        have hs : v'.length < (c :: e :: v').length := (Nat.lt_succ_self _).trans (Nat.lt_succ_self _)
        have hnl := (ih _ hs _ v' hl' hr rfl).1
        exact absurd hnl (List.append_ne_nil_of_right_ne_nil m (List.cons_ne_nil e []))

/-! ## Every shell -/

def Readable (shell : Shell) (value : Text) : Prop := shell = .powershell → ∀ c ∈ value, typographic c = false

def Shell.quote : Shell → Text → Text
  | .bash => bash_quote
  | .fish => fish_quote
  | .powershell => ps_quote
  | .nushell => nu_quote

theorem render_eq (s : Shell) (p : List Pair) :
    render s p =
      s.grammar.opening.toList ++ (body s.grammar s.quote p ++ s.grammar.closing.toList) := by
  cases s <;> simp [render, body, Shell.grammar, Shell.quote]

theorem shell_reads (s : Shell) : Reads s.grammar s.quote (Readable s) := by
  cases s with
  | bash =>
    refine ⟨⟨'=', [], rfl, rfl⟩, nofun, fun value r _ => word_quoted value (.inl rfl) _, fun _ _ _ _ => nofun⟩
  | fish =>
    refine ⟨⟨' ', [], rfl, rfl⟩, nofun, fun value r _ => ?_, fun _ _ _ _ => nofun⟩
    exact backslash_quoted (by decide : '\'' ≠ '\\') rfl rfl value _
  | powershell =>
    refine ⟨⟨'=', [], rfl, rfl⟩, nofun, fun value r h => ?_, fun value r t h _ => ?_⟩
    · exact (ps_literal value _).trans (ps_quoted (h rfl) _)
    · exact (ps_lag [] value nofun ((ps_literal value r).symm.trans h)).2
  | nushell =>
    refine ⟨⟨':', [' '], rfl, rfl⟩, nofun, fun value r _ => ?_, fun _ _ _ _ => nofun⟩
    exact backslash_quoted (by decide : '"' ≠ '\\') rfl rfl value _

theorem export_reads : Reads export_grammar shell_single_quote fun _ => True := by
  refine ⟨⟨'=', [], rfl, rfl⟩, nofun, fun value r _ => ?_, fun _ _ _ _ => trivial⟩
  exact word_quoted value (.inr rfl) _

/-- What is printed for a shell is read by it as the pairs and nothing else, unless the shell
    is PowerShell and a value has a typographic single quote. -/
theorem read_render_iff (shell : Shell) (pairs : List Pair) :
    (shell.grammar.script (render shell pairs) = some pairs ↔
        (shell = .powershell → ∀ p ∈ pairs, ∀ c ∈ p.2, typographic c = false)) ∧
      export_grammar.script (write_export pairs) = some pairs := by
  constructor
  · rw [render_eq, script_iff (shell_reads shell)]
    exact ⟨fun h hs p hp => h p hp hs, fun h p hp hs => h hs p hp⟩
  · have h := (script_iff export_reads pairs).mpr fun _ _ => trivial
    simpa [write_export, body, export_grammar] using h

/-- The value of `A` ends at its quote, and declares `PATH`. -/
theorem typographic_quote_closes :
    let pairs : List Pair := [(⟨"A".toList, rfl⟩, "x\u2019;\n$env:PATH=\u2018y".toList)]
    let read := Shell.powershell.grammar.script (render .powershell pairs)
    read = some [(⟨"A".toList, rfl⟩, "x".toList), (⟨"PATH".toList, rfl⟩, "y".toList)] ∧ read ≠ some pairs := by
  decide +kernel

end Monosecret.Executor.Render
