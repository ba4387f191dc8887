/-
  Monosecret.Lib.CommandLine — a command line of options with one value each and positional
  arguments, as `clap` reads it.

  A value stands in the word of its option (`--name=value`, `-nvalue`) or is the next word,
  which must not itself be read as an option; after `--` every word is positional. Whether a
  lone `-` is a value is left open (`stdio`). Options written as a word and a value, each
  once, are read back exactly when no value is read as an option (`parse_spelled`,
  `parse_refused`).
-/

import Mathlib.Data.List.Nodup

namespace Lib.CommandLine

structure Opt where
  long : String
  short : Option Char := none
  deriving DecidableEq

inductive Error where
  | UnknownArgument (word : String)
  | InvalidValue (name : String)
  | ArgumentConflict (name : String)
  | MissingRequiredArgument (name : String)
  /-- `--help` and `--version` print and stop. -/
  | Display
  deriving DecidableEq

structure Matches where
  values : List (String × String) := []
  positionals : List String := []
  deriving DecidableEq

inductive Token where
  | escape
  | positional
  | option (name : String) (value : Option String)
  | error (error : Error)
  deriving DecidableEq

variable (stdio : Bool)

/-- A word that is not taken as the value of an option before it. -/
def is_option (word : String) : Bool :=
  match word.toList with
  | ['-'] => !stdio
  | '-' :: _ => true
  | _ => false

variable (opts : List Opt)

/-- The name of a long option and the value behind its `=`. -/
def long_parts (text : List Char) : String × Option String :=
  match text.dropWhile (· != '=') with
  | '=' :: value => (String.ofList (text.takeWhile (· != '=')), some (String.ofList value))
  | _ => (String.ofList text, none)

def short_value : List Char → Option String
  | [] => none
  | '=' :: value => some (String.ofList value)
  | value => some (String.ofList value)

def token (word : String) : Token :=
  match word.toList with
  | ['-', '-'] => .escape
  | '-' :: '-' :: text =>
    let (name, value) := long_parts text
    match opts.find? fun o => o.long = name with
    | some o => .option o.long value
    | none => .error (if name = "help" ∨ name = "version" then .Display else .UnknownArgument word)
  | ['-'] => if stdio then .positional else .error (.UnknownArgument word)
  | '-' :: c :: text =>
    match opts.find? fun o => o.short = some c with
    | some o => .option o.long (short_value text)
    | none => .error (if c = 'h' ∨ c = 'V' then .Display else .UnknownArgument word)
  | _ => .positional

/-- An option is given once. -/
def Matches.set (m : Matches) (name value : String) : Except Error Matches :=
  if m.values.any fun p => p.1 = name then .error (.ArgumentConflict name)
  else .ok { m with values := m.values ++ [(name, value)] }

def parse (m : Matches) : List String → Except Error Matches
  | [] => .ok m
  | word :: rest =>
    match token stdio opts word with
    | .escape => .ok { m with positionals := m.positionals ++ rest }
    | .positional => parse { m with positionals := m.positionals ++ [word] } rest
    | .option name (some value) => do
      let m ← m.set name value
      parse m rest
    | .option name none =>
      match rest with
      | [] => .error (.InvalidValue name)
      | value :: rest =>
        if is_option stdio value then .error (.InvalidValue name)
        else do
          let m ← m.set name value
          parse m rest
    | .error error => .error error

def Matches.get (m : Matches) (name : String) : Option String := m.values.lookup name

variable {stdio opts} {m : Matches}

theorem Matches.set_new {n value : String} (h : n ∉ m.values.map Prod.fst) :
    m.set n value = .ok { m with values := m.values ++ [(n, value)] } := by
  refine if_neg fun ha => ?_
  obtain ⟨p, hp, hn⟩ := List.any_eq_true.mp ha
  exact h (of_decide_eq_true hn ▸ List.mem_map_of_mem hp)

/-- Each option as a word of its own, its value as the next. -/
def spelled (pairs : List (String × String)) : List String := pairs.flatMap fun p => ["--" ++ p.1, p.2]

theorem parse_option {name value : String} {rest : List String} (ht : token stdio opts ("--" ++ name) = .option name none)
    (hn : name ∉ m.values.map Prod.fst) :
    parse stdio opts m (("--" ++ name) :: value :: rest) =
      if is_option stdio value then .error (.InvalidValue name)
      else parse stdio opts { m with values := m.values ++ [(name, value)] } rest := by
  rw [parse, ht]
  dsimp only
  rw [Matches.set_new hn]
  rfl

/-- No value is read as an option: the options are read back, and parsing goes on. -/
theorem parse_spelled {pairs : List (String × String)} {rest : List String}
    (ht : ∀ p ∈ pairs, token stdio opts ("--" ++ p.1) = .option p.1 none)
    (hn : ((m.values ++ pairs).map Prod.fst).Nodup) (hv : ∀ p ∈ pairs, is_option stdio p.2 = false) :
    parse stdio opts m (spelled pairs ++ rest) = parse stdio opts { m with values := m.values ++ pairs } rest := by
  induction pairs generalizing m with
  | nil => rw [spelled, List.flatMap_nil, List.nil_append, List.append_nil]
  | cons p pairs ih =>
    have hw : p.1 ∉ m.values.map Prod.fst := fun hp => by
      rw [List.map_append, List.nodup_append] at hn
      exact hn.2.2 _ hp _ (.head _) rfl
    have hs : m.values ++ p :: pairs = (m.values ++ [p]) ++ pairs := by simp
    show parse stdio opts m (("--" ++ p.1) :: p.2 :: (spelled pairs ++ rest)) = _
    rw [parse_option (ht p (.head _)) hw, hv p (.head _), if_neg Bool.false_ne_true, hs]
    rw [hs] at hn
    exact ih (fun q hq => ht q (.tail _ hq)) hn fun q hq => hv q (.tail _ hq)

/-- A value that is read as an option is refused. -/
theorem parse_refused {pairs : List (String × String)} {rest : List String}
    (ht : ∀ p ∈ pairs, token stdio opts ("--" ++ p.1) = .option p.1 none)
    (hn : ((m.values ++ pairs).map Prod.fst).Nodup) (hv : ∃ p ∈ pairs, is_option stdio p.2) :
    ∃ name, parse stdio opts m (spelled pairs ++ rest) = .error (.InvalidValue name) := by
  induction pairs generalizing m with
  | nil =>
    obtain ⟨p, hp, -⟩ := hv
    cases hp
  | cons p pairs ih =>
    have hw : p.1 ∉ m.values.map Prod.fst := fun hp => by
      rw [List.map_append, List.nodup_append] at hn
      exact hn.2.2 _ hp _ (.head _) rfl
    have hs : m.values ++ p :: pairs = (m.values ++ [p]) ++ pairs := by simp
    show ∃ name, parse stdio opts m (("--" ++ p.1) :: p.2 :: (spelled pairs ++ rest)) = _
    rw [parse_option (ht p (.head _)) hw]
    cases hp : is_option stdio p.2 with
    | true => exact ⟨p.1, rfl⟩
    | false =>
      rw [hs] at hn
      refine ih (m := { m with values := m.values ++ [(p.1, p.2)] }) (fun q hq => ht q (.tail _ hq)) hn ?_
      obtain ⟨q, hq, ho⟩ := hv
      rcases List.mem_cons.mp hq with rfl | hq
      · rw [hp] at ho
        cases ho
      · exact ⟨q, hq, ho⟩

theorem is_option_of_head {w : String} (h : w.toList.head? ≠ some '-') : is_option stdio w = false := by
  unfold is_option
  split
  · rename_i hw
    exact absurd (congrArg List.head? hw) h
  · rename_i hw
    exact absurd (congrArg List.head? hw) h
  · rfl

theorem token_positional {w : String} (h : is_option stdio w = false) : token stdio opts w = .positional := by
  unfold is_option at h
  unfold token
  split at h
  · rename_i hw
    rw [hw]
    simp only [Bool.not_eq_false'] at h
    simp [h]
  · cases h
  · rename_i hl hd
    split <;> simp_all

/-- The last word, a positional one. -/
theorem parse_last {w : String} (h : token stdio opts w = .positional) :
    parse stdio opts m [w] = .ok { m with positionals := m.positionals ++ [w] } := by
  rw [parse, h]
  dsimp only
  rw [parse]

end Lib.CommandLine
