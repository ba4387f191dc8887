/-
  Monosecret.Providers.ParameterStore — discovery in AWS Systems Manager Parameter Store
  (`AwspsProvider` in `monosecret/src/provider/awsps.rs`).

  A template ends in the key. The convention fills in project, profile and key one after the
  other; discovery fills in the first two and lists the path before the key. Each checks what
  it made. The pages of a listing together hold the entries that stand directly under the
  path, in any split and order.

  Proved, when discovery succeeds: a name that a secret can have is declared exactly when the
  entry under the path is listed, which is then its convention address if Parameter Store
  can hold the name; and another project or profile addresses a declared entry by the same
  name, and exactly when the template makes both hierarchies alike (`reflection_agrees`).
-/

import Monosecret.Providers.AppConfiguration
import Monosecret.Providers.Convention

namespace Monosecret.Providers.ParameterStore

open Lib Lib.Placeholder Manifest
open Convention (str_replace PROJECT PROFILE KEY last_slash)
open AppConfiguration (DiscoveryContext is_ascii is_valid_secret_name required text_after text_after_eq_some OnAscii
  valid_secret_name_plain)
open Lib.Except (bind_ok bind_unit_ok rest_ok)

/-! ## Names -/

structure AwspsConfig where
  prefix_ : Option String
  template : Option String
  deriving DecidableEq

def DEFAULT_PARAMETER_TEMPLATE : String := "/monosecret/" ++ PROJECT ++ "/" ++ PROFILE ++ "/" ++ KEY

def trim_slashes (text : String) : String := .ofList (Texts.trim (· == '/') text.toList)

def effective_template (config : AwspsConfig) : Except String String :=
  match config.prefix_, config.template with
  | some _, some _ =>
    .error ("awsps \x60prefix\x60 and \x60template\x60 are mutually exclusive: \x60prefix\x60 prepends the default layout, " ++
      "while \x60template\x60 replaces it")
  | _, some template => .ok template
  | folder, none =>
    let folder := trim_slashes (folder.getD "")
    .ok (if folder = "" then DEFAULT_PARAMETER_TEMPLATE else "/" ++ folder ++ DEFAULT_PARAMETER_TEMPLATE)

def is_parameter_char (c : Char) : Bool := c.isAlphanum || "_.-/".toList.contains c

/-- `trim_start_matches('/')`. -/
def path_of (name : String) : List Char := name.toList.dropWhile (· == '/')

def starts_reserved (part : List Char) : Bool :=
  let lower := part.map Char.toLower
  "aws".toList.isPrefixOf lower || "ssm".toList.isPrefixOf lower

/-- The naming constraints of Parameter Store, but for those of one account. -/
def validate_parameter_name (name : String) : Except String Unit := do
  let parts := (path_of name).splitOn '/'
  let first := parts.head?.getD []
  refuse (decide (1011 < name.utf8ByteSize))
    s!"Parameter name too long: {name.utf8ByteSize} characters (maximum 1011 before AWS applies its ARN-specific limit)"
  refuse first.isEmpty "Parameter name cannot be empty"
  refuse (starts_reserved first) s!"Parameter name '{name}' cannot start with the reserved prefix 'aws' or 'ssm'"
  refuse (decide (15 < parts.length)) s!"Parameter hierarchy has {parts.length} levels (maximum 15)"
  refuse (parts.any List.isEmpty) s!"Parameter name '{name}' contains an empty hierarchy level"
  match (path_of name).find? fun c => !is_parameter_char c with
  | some character => .error s!"Parameter name '{name}' contains invalid character '{character}'"
  | none => .ok ()

/-- The loop over the braces of a template: outside of them, or after an opening one with what was read since. -/
def count_keys (template : String) : Option (List Char) → Nat → List Char → Except String Nat
  | none, key_count, [] => .ok key_count
  | some _, _, [] => .error s!"awsps template '{template}' contains an unmatched \x60\x7b\x60"
  | none, key_count, c :: rest =>
    if c = '\x7b' then count_keys template (some []) key_count rest
    else if c = '\x7d' then .error s!"awsps template '{template}' contains an unmatched \x60\x7d\x60"
    else count_keys template none key_count rest
  | some placeholder, key_count, c :: rest =>
    if c = '\x7d' then
      if placeholder = "project".toList ∨ placeholder = "profile".toList then count_keys template none key_count rest
      else if placeholder = "key".toList then count_keys template none (key_count + 1) rest
      else
        .error ("unknown awsps template placeholder '\x7b" ++ String.ofList placeholder ++ "\x7d': expected " ++ PROJECT ++ ", " ++
          PROFILE ++ ", or " ++ KEY)
    else count_keys template (some (placeholder ++ [c])) key_count rest

/-- The last segment of a template. -/
def LAST : String := "/" ++ KEY

/-- `str::strip_suffix`. -/
def text_before (text last : String) : Option String :=
  if last.toList <:+ text.toList then some (.ofList (text.toList.take (text.toList.length - last.toList.length))) else none

def validate_template (template : String) : Except String Unit := do
  refuse (template.toList.head? != some '/') "awsps template must start with \x60/\x60"
  let key_count ← count_keys template none 0 template.toList
  refuse (key_count != 1 || (text_before template LAST).isNone)
    ("awsps template must contain \x60" ++ KEY ++ "\x60 exactly once as its final path segment")
  refuse (template == LAST) ("awsps template must include a bounded parent path before \x60" ++ LAST ++ "\x60")
  validate_parameter_name
    (str_replace (str_replace (str_replace template PROJECT "project") PROFILE "profile") KEY "KEY")

def format_parameter_name (config : AwspsConfig) (project profile key : String) : Except String String := do
  refuse (project == "") "project cannot be empty"
  refuse (profile == "") "profile cannot be empty"
  refuse (key == "") "key cannot be empty"
  let template ← effective_template config
  validate_template template
  let parameter_name := str_replace (str_replace (str_replace template PROJECT project) PROFILE profile) KEY key
  validate_parameter_name parameter_name
  return parameter_name

def convention_address (config : AwspsConfig) (project profile key : String) : Except String NativeAddress := do
  let item ← format_parameter_name config project profile key
  return ⟨item, none, none, none, none⟩

def discovery_path (config : AwspsConfig) (context : DiscoveryContext) : Except String String := do
  refuse (context.project == "") "discovery project cannot be empty"
  refuse (context.profile == "") "discovery profile cannot be empty"
  let template ← effective_template config
  validate_template template
  let rendered := str_replace (str_replace template PROJECT context.project) PROFILE context.profile
  match text_before rendered LAST with
  | some path => do
    validate_parameter_name path
    return path
  -- A panic in the source; names filled in leave the last segment of a template (`rendered_last`).
  | none => .error s!"validated template ends in {LAST}"

/-! ## Pages -/

inductive Reply where
  | Failed (error : String)
  | Page (parameters : List (Option String)) (next_token : Option String)

section

variable (rules : Rules)

def declaration_from_parameter (path name : String) : Except String (Option (String × Secret)) :=
  match text_after (path ++ "/") name with
  | none => .ok none
  | some key =>
    if key = "" ∨ '/' ∈ key.toList then .ok none
    else if is_valid_identifier rules key then .ok (some (key, required s!"{key} secret"))
    else
      .error (s!"Parameter Store parameter '{name}' maps to invalid Monosecret name '{key}': names must be alphanumeric and " ++
        "underscores and cannot start with a number")

def declare_parameters (path : String) : List (Option String) → Table Secret → Except String (Table Secret)
  | [], declarations => .ok declarations
  | none :: parameters, declarations => declare_parameters path parameters declarations
  | some name :: parameters, declarations => do
    match ← declaration_from_parameter rules path name with
    | none => declare_parameters path parameters declarations
    | some (key, declaration) => declare_parameters path parameters (declarations.insert key declaration)

/-- The loop over the pages; none while another page is to come. -/
def reflect_pages (path : String) : List Reply → Table Secret → Option (Except String (Table Secret))
  | [], _ => none
  | .Failed error :: _, _ => some (.error error)
  | .Page parameters next_token :: replies, declarations =>
    match declare_parameters rules path parameters declarations with
    | .error error => some (.error error)
    | .ok declarations =>
      match next_token with
      | none => some (.ok declarations)
      | some _ => reflect_pages path replies declarations

def reflect_async (config : AwspsConfig) (context : DiscoveryContext) (replies : List Reply) :
    Option (Except String (Table Secret)) :=
  match discovery_path config context with
  | .error error => some (.error error)
  | .ok path => reflect_pages rules path replies ∅

end

/-- The names in the pages, up to the last one. -/
def listed : List Reply → List String
  | [] => []
  | .Failed _ :: _ => []
  | .Page parameters none :: _ => parameters.filterMap id
  | .Page parameters (some _) :: replies => parameters.filterMap id ++ listed replies

/-! ## Agreement -/

/-- What `GetParametersByPath` lists under a path without recursion. -/
def selects (path name : String) : Prop := ∃ child, name = path ++ "/" ++ child ∧ child ≠ "" ∧ '/' ∉ child.toList

def Listed (store : List String) (path : String) (replies : List Reply) : Prop :=
  ∀ name, name ∈ listed replies ↔ name ∈ store ∧ selects path name

/-- The template without its last segment, filled in. -/
def hierarchy (config : AwspsConfig) (context : DiscoveryContext) (key : String) : Option String := do
  let template ← (effective_template config).toOption
  let parent ← text_before template LAST
  return str_replace (str_replace (str_replace parent PROJECT context.project) PROFILE context.profile) KEY key

/-- A name that a secret can have is declared when the entry under the path is listed. That entry is its convention
address, if Parameter Store can hold the name, and another project or profile addresses it by the same name and the same
hierarchy only. -/
structure Agrees (rules : Rules) (config : AwspsConfig) (context : DiscoveryContext) (store : List String) (path : String)
    (declarations : Table Secret) : Prop where
  entries : ∀ name, is_valid_secret_name rules name = true → (name ∈ declarations ↔ path ++ "/" ++ name ∈ store)
  addressed : ∀ name, is_valid_secret_name rules name = true →
    convention_address config context.project context.profile name =
      (validate_parameter_name (path ++ "/" ++ name)).map fun _ => ⟨path ++ "/" ++ name, none, none, none, none⟩
  declared : ∀ name, is_valid_secret_name rules name = true → validate_parameter_name (path ++ "/" ++ name) = .ok () →
    (name ∈ declarations ↔
      ∃ address, convention_address config context.project context.profile name = .ok address ∧ address.item ∈ store)
  apart : ∀ name ∈ declarations, ∀ other key address, is_valid_secret_name rules key = true →
    convention_address config other.project other.profile key = .ok address →
      (address.item = path ++ "/" ++ name ↔ key = name ∧ hierarchy config other key = some path)

/-! ## Templates -/

variable {rules : Rules} {config : AwspsConfig} {context : DiscoveryContext}

theorem text_before_eq_some {t last r : String} : text_before t last = some r ↔ t = r ++ last := by
  unfold text_before
  constructor
  · intro h
    split at h
    · rename_i hp
      obtain ⟨before, hb⟩ := hp
      have hr := Option.some.inj h
      rw [← hb, List.length_append, Nat.add_sub_cancel, List.take_left] at hr
      rw [← hr, ← String.toList_inj, String.toList_append, String.toList_ofList, hb]
    · cases h
  · rintro rfl
    rw [String.toList_append, if_pos (List.suffix_append _ _), List.length_append, Nat.add_sub_cancel, List.take_left,
      String.ofList_toList]

theorem validate_template_ok {t : String} (h : validate_template t = .ok ()) : ∃ parent, t = parent ++ LAST := by
  replace h := rest_ok h
  obtain ⟨k, -, h⟩ := bind_ok h
  obtain ⟨hl, -⟩ := bind_unit_ok h
  have hs := (Bool.or_eq_false_iff.mp (refuse_ok hl)).2
  rw [Option.isNone_eq_false_iff] at hs
  obtain ⟨parent, hp⟩ := Option.isSome_iff_exists.mp hs
  exact ⟨parent, text_before_eq_some.mp hp⟩

/-- Filling in a placeholder other than the key's leaves the last segment. -/
theorem replace_last {t value : String} (ht : t.toList ≠ []) (hs : '/' ∉ t.toList)
    (hk : ¬t.toList <:+: KEY.toList) (parent : String) :
    str_replace (parent ++ LAST) t value = str_replace parent t value ++ LAST := by
  have hl : LAST.toList = '/' :: KEY.toList := by decide
  rw [← String.toList_inj, String.toList_append, str_replace, str_replace, String.toList_ofList, String.toList_ofList,
    String.toList_append, hl, replace_apart ht hs, replace_absent hk]

theorem replace_key (parent value : String) :
    str_replace (parent ++ LAST) KEY value = str_replace parent KEY value ++ "/" ++ value := by
  have hl : LAST.toList = '/' :: KEY.toList := by decide
  have hs : "/".toList = ['/'] := rfl
  have hw : replace KEY.toList value.toList (KEY.toList ++ []) = value.toList ++ replace KEY.toList value.toList [] :=
    replace_hit (by decide) []
  rw [List.append_nil, replace_nil, List.append_nil] at hw
  rw [← String.toList_inj]
  simp only [str_replace, String.toList_append, String.toList_ofList, hl, hs]
  rw [replace_apart (by decide) (by decide), hw]
  simp

/-- The template without its last segment, with project and profile filled in. -/
def rendered_parent (context : DiscoveryContext) (parent : String) : String :=
  str_replace (str_replace parent PROJECT context.project) PROFILE context.profile

theorem rendered_last (context : DiscoveryContext) (parent : String) :
    str_replace (str_replace (parent ++ LAST) PROJECT context.project) PROFILE context.profile =
      rendered_parent context parent ++ LAST := by
  rw [replace_last (by decide) (by decide) (by decide), replace_last (by decide) (by decide) (by decide), rendered_parent]

theorem named_parameter (context : DiscoveryContext) (parent key : String) :
    str_replace (str_replace (str_replace (parent ++ LAST) PROJECT context.project) PROFILE context.profile) KEY key =
      str_replace (rendered_parent context parent) KEY key ++ "/" ++ key := by
  rw [rendered_last, replace_key]

/-- A name that is accepted has no braces. -/
theorem validate_parameter_name_ok {name : String} (h : validate_parameter_name name = .ok ()) : '\x7b' ∉ name.toList := by
  unfold validate_parameter_name at h
  simp only at h
  replace h := rest_ok h
  replace h := rest_ok h
  replace h := rest_ok h
  replace h := rest_ok h
  replace h := rest_ok h
  split at h
  · cases h
  rename_i hn
  intro hb
  have hp : '\x7b' ∈ path_of name := by
    rw [path_of]
    rw [← List.takeWhile_append_dropWhile (p := (· == '/')) (l := name.toList)] at hb
    rcases List.mem_append.mp hb with hs | hr
    · exact absurd (List.mem_takeWhile_imp hs) (by decide)
    · exact hr
  exact List.find?_eq_none.mp hn _ hp (by decide)

theorem refuse_of_ne {t m : String} (h : t ≠ "") : refuse (t == "") m = .ok () := by
  rw [beq_false_of_ne h]
  rfl

variable {path : String}

/-- The path is the template's parent filled in, and has no placeholder left. -/
theorem discovery_path_ok (h : discovery_path config context = .ok path) :
    context.project ≠ "" ∧ context.profile ≠ "" ∧ ∃ parent, effective_template config = .ok (parent ++ LAST) ∧
      validate_template (parent ++ LAST) = .ok () ∧ path = rendered_parent context parent ∧ '\x7b' ∉ path.toList := by
  obtain ⟨hp, h⟩ := bind_unit_ok h
  obtain ⟨hf, h⟩ := bind_unit_ok h
  obtain ⟨t, ht, h⟩ := bind_ok h
  obtain ⟨hv, h⟩ := bind_unit_ok h
  obtain ⟨parent, rfl⟩ := validate_template_ok hv
  simp only [rendered_last, text_before_eq_some.mpr rfl] at h
  obtain ⟨hn, h⟩ := bind_unit_ok h
  cases h
  exact ⟨by simpa using refuse_ok hp, by simpa using refuse_ok hf, parent, ht, hv, rfl,
    validate_parameter_name_ok hn⟩

theorem format_parameter_name_eq {parent key : String} (hp : context.project ≠ "") (hf : context.profile ≠ "")
    (hk : key ≠ "") (ht : effective_template config = .ok (parent ++ LAST))
    (hv : validate_template (parent ++ LAST) = .ok ()) :
    format_parameter_name config context.project context.profile key =
      (validate_parameter_name (str_replace (rendered_parent context parent) KEY key ++ "/" ++ key)).map
        fun _ => str_replace (rendered_parent context parent) KEY key ++ "/" ++ key := by
  have hn := named_parameter context parent key
  unfold format_parameter_name
  rw [refuse_of_ne hp, refuse_of_ne hf, refuse_of_ne hk, ht]
  simp only [bind, Except.bind, hv, hn]
  cases validate_parameter_name (str_replace (rendered_parent context parent) KEY key ++ "/" ++ key) with
  | ok _ | error _ => rfl

/-- With nothing to fill in, the convention's name is the key under the path. -/
theorem convention_address_eq (h : discovery_path config context = .ok path) {k : String} (hk : k ≠ "") :
    convention_address config context.project context.profile k =
      (validate_parameter_name (path ++ "/" ++ k)).map fun _ => ⟨path ++ "/" ++ k, none, none, none, none⟩ := by
  obtain ⟨hp, hf, parent, ht, hv, rfl, hb⟩ := discovery_path_ok h
  have ha : ¬KEY.toList <:+: (rendered_parent context parent).toList := fun hi => hb (hi.subset (by decide))
  have hn : str_replace (rendered_parent context parent) KEY k = rendered_parent context parent := by
    rw [str_replace, replace_absent ha, String.ofList_toList]
  rw [convention_address, format_parameter_name_eq hp hf hk ht hv, hn]
  cases validate_parameter_name (rendered_parent context parent ++ "/" ++ k) with
  | ok _ | error _ => rfl

/-- A convention's name is its key under the hierarchy. -/
theorem convention_address_ok {p pr key : String} {a : NativeAddress} (h : convention_address config p pr key = .ok a) :
    ∃ parent, hierarchy config ⟨p, pr⟩ key = some parent ∧ a.item = parent ++ "/" ++ key := by
  obtain ⟨i, hi, h⟩ := bind_ok h
  cases h
  replace hi := rest_ok hi
  replace hi := rest_ok hi
  replace hi := rest_ok hi
  obtain ⟨t, ht, hi⟩ := bind_ok hi
  obtain ⟨hv, hi⟩ := bind_unit_ok hi
  replace hi := rest_ok hi
  obtain ⟨parent, rfl⟩ := validate_template_ok hv
  refine ⟨str_replace (rendered_parent ⟨p, pr⟩ parent) KEY key, ?_, ?_⟩
  · simp [hierarchy, ht, Except.toOption, text_before_eq_some.mpr rfl, rendered_parent]
  · exact (Except.ok.inj hi).symm.trans (named_parameter ⟨p, pr⟩ parent key)

/-! ## Declared parameters -/

theorem declaration_from_parameter_some {n k : String} {d : Secret}
    (h : declaration_from_parameter rules path n = .ok (some (k, d))) :
    n = path ++ "/" ++ k ∧ '/' ∉ k.toList := by
  unfold declaration_from_parameter at h
  split at h
  · cases h
  · rename_i c ha
    split at h
    · cases h
    · rename_i hc
      split at h
      · obtain ⟨rfl, -⟩ := Prod.mk.inj (Option.some.inj (Except.ok.inj h))
        exact ⟨text_after_eq_some.mp ha, (not_or.mp hc).2⟩
      · cases h

theorem declaration_from_parameter_child {child : String} (hn : child ≠ "") (hs : '/' ∉ child.toList)
    {found : Option (String × Secret)} (h : declaration_from_parameter rules path (path ++ "/" ++ child) = .ok found) :
    ∃ d, found = some (child, d) := by
  have ha : text_after (path ++ "/") (path ++ "/" ++ child) = some child := text_after_eq_some.mpr rfl
  unfold declaration_from_parameter at h
  simp only [ha, if_neg (not_or.mpr ⟨hn, hs⟩)] at h
  split at h
  · exact ⟨_, (Except.ok.inj h).symm⟩
  · cases h

theorem declare_parameters_ok {p : List (Option String)} {d declared : Table Secret}
    (h : declare_parameters rules path p d = .ok declared) :
    (∀ n ∈ p.filterMap id, ∃ found, declaration_from_parameter rules path n = .ok found) ∧
      ∀ k, k ∈ declared ↔ k ∈ d ∨ ∃ n ∈ p.filterMap id, ∃ dc,
        declaration_from_parameter rules path n = .ok (some (k, dc)) := by
  induction p generalizing d with
  | nil =>
    rw [declare_parameters] at h
    simp [Except.ok.inj h]
  | cons pr p ih =>
    cases pr with
    | none =>
      rw [declare_parameters] at h
      exact ih h
    | some n =>
      rw [declare_parameters] at h
      obtain ⟨found, hf, h⟩ := bind_ok h
      have hr : ∃ before, declare_parameters rules path p before = .ok declared ∧
          ∀ k, k ∈ before ↔ k ∈ d ∨ ∃ dc, found = some (k, dc) := by
        cases found with
        | none => exact ⟨d, h, by simp⟩
        | some e =>
          refine ⟨_, h, fun k => ?_⟩
          rw [AList.mem_insert, or_comm]
          simp [Prod.ext_iff, eq_comm]
      obtain ⟨before, hb, hk⟩ := hr
      obtain ⟨ha, hd⟩ := ih hb
      refine ⟨?_, fun k => ?_⟩
      · simp only [List.filterMap_cons, id, List.mem_cons, forall_eq_or_imp]
        exact ⟨⟨found, hf⟩, ha⟩
      · rw [hd, hk, or_assoc]
        simp only [List.filterMap_cons, id, List.mem_cons, exists_eq_or_imp, hf, Except.ok.injEq]

theorem reflect_pages_ok {r : List Reply} {d declared : Table Secret}
    (h : reflect_pages rules path r d = some (.ok declared)) :
    (∀ n ∈ listed r, ∃ found, declaration_from_parameter rules path n = .ok found) ∧
      ∀ k, k ∈ declared ↔ k ∈ d ∨ ∃ n ∈ listed r, ∃ dc,
        declaration_from_parameter rules path n = .ok (some (k, dc)) := by
  induction r generalizing d with
  | nil => cases h
  | cons rp r ih =>
    cases rp with
    | Failed error => cases h
    | Page p next_token =>
      rw [reflect_pages] at h
      split at h
      · cases h
      · rename_i now hn
        obtain ⟨ha, hk⟩ := declare_parameters_ok hn
        cases next_token with
        | none =>
          obtain rfl := Except.ok.inj (Option.some.inj h)
          exact ⟨ha, hk⟩
        | some t =>
          obtain ⟨hl, hm⟩ := ih h
          refine ⟨fun n hnm => ?_, fun k => ?_⟩
          · exact (List.mem_append.mp hnm).elim (ha n) (hl n)
          · simp only [hm, hk, listed, List.mem_append, or_and_right, exists_or, or_assoc]

theorem reflection_agrees (hr : OnAscii rules) (hp : discovery_path config context = .ok path)
    {store : List String} {r : List Reply} {declarations : Table Secret}
    (h : reflect_async rules config context r = some (.ok declarations)) (hl : Listed store path r) :
    Agrees rules config context store path declarations := by
  simp only [reflect_async, hp] at h
  obtain ⟨ht, hk⟩ := reflect_pages_ok h
  have hn : ∀ n, is_valid_secret_name rules n → n ≠ "" ∧ '/' ∉ n.toList := by
    intro n hv
    refine ⟨?_, valid_secret_name_plain hr hv (by decide)⟩
    rintro rfl
    cases hv
  have he : ∀ n, is_valid_secret_name rules n → (n ∈ declarations ↔ path ++ "/" ++ n ∈ store) := by
    intro n hv
    obtain ⟨hne, hs⟩ := hn n hv
    rw [hk]
    constructor
    · rintro (hm | ⟨p, hpr, d, hf⟩)
      · exact absurd hm (AList.notMem_empty n)
      · obtain ⟨rfl, -⟩ := declaration_from_parameter_some hf
        exact ((hl _).mp hpr).1
    · intro hst
      have hpr := (hl _).mpr ⟨hst, n, rfl, hne, hs⟩
      obtain ⟨found, hf⟩ := ht _ hpr
      obtain ⟨d, rfl⟩ := declaration_from_parameter_child hne hs hf
      exact .inr ⟨_, hpr, d, hf⟩
  have ha := fun n hv => convention_address_eq hp (hn n hv).1
  constructor
  case entries => exact he
  case addressed => exact ha
  case declared =>
    intro n hv hhl
    rw [he n hv, ha n hv, hhl]
    constructor
    · exact fun hst => ⟨_, rfl, hst⟩
    · rintro ⟨a, ho, hst⟩
      cases ho
      exact hst
  case apart =>
    intro n hd other k a hv hoh
    have hs : '/' ∉ n.toList := by
      rcases (hk n).mp hd with hm | ⟨p, -, d, hf⟩
      · exact absurd hm (AList.notMem_empty n)
      · exact (declaration_from_parameter_some hf).2
    obtain ⟨parent, hpn, hi⟩ := convention_address_ok hoh
    have hmr : "/".toList = ['/'] := rfl
    rw [hi, hpn, Option.some.injEq, ← String.toList_inj]
    simp only [String.toList_append, hmr, List.append_assoc, List.singleton_append]
    rw [last_slash (hn k hv).2 hs, String.toList_inj, String.toList_inj, and_comm]

end Monosecret.Providers.ParameterStore
