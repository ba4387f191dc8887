/-
  Monosecret.Manifest.Toml — a manifest as a TOML document (how `Config` and the types in it
  are deserialized in `monosecret/src/config.rs`).

  A table has its keys in order, whatever the text says. Reading a text is the library's
  (`TomlEdit`), and so are the fields that no command writes (`Deserializer`).

  A profile's secrets stand beside the key `defaults`, so no secret has that name. A document
  is read entry by entry: `Config.read_replaced` says what becomes of a configuration when
  one profile's table is another.
-/

import Monosecret.Manifest.Loader

namespace Monosecret.Manifest

/-! ## Tables -/

section

variable {α β : Type}

/-- `Table::insert`. -/
def insert_entry (key : String) (value : α) : List (String × α) → List (String × α)
  | [] => [(key, value)]
  | entry :: entries =>
    if key < entry.1 then (key, value) :: entry :: entries
    else if key = entry.1 then (key, value) :: entries
    else entry :: insert_entry key value entries

/-- What a table has under a key is another value. -/
def replace_entry (key : String) (value : α) (entries : List (String × α)) : List (String × α) :=
  entries.map fun entry => if entry.1 = key then (key, value) else entry

/-- The entries under no key of `keys`. -/
def others (keys : List String) (entries : List (String × α)) : List (String × α) :=
  entries.filter fun entry => !keys.contains entry.1

variable {key : String} {value : α} {entries : List (String × α)}

theorem lookup_entry (e : String × α) (entries : List (String × α)) (key : String) :
    (e :: entries).lookup key = if key = e.1 then some e.2 else entries.lookup key := by
  rw [List.lookup_cons]
  by_cases h : key = e.1
  · rw [if_pos h, h, beq_self_eq_true]
  · rw [if_neg h, beq_false_of_ne h]

theorem mem_of_lookup (h : entries.lookup key = some value) : (key, value) ∈ entries := by
  induction entries with
  | nil => cases h
  | cons e entries ih =>
    rw [lookup_entry] at h
    split_ifs at h with hk
    · cases h
      rw [hk]
      exact .head _
    · exact .tail _ (ih h)

theorem lookup_insert_entry (other : String) :
    (insert_entry key value entries).lookup other = if other = key then some value else entries.lookup other := by
  induction entries with
  | nil => exact lookup_entry (key, value) [] other
  | cons e entries ih =>
    rw [insert_entry]
    by_cases hl : key < e.1
    · rw [if_pos hl]
      exact lookup_entry (key, value) (e :: entries) other
    rw [if_neg hl]
    by_cases hk : key = e.1
    · rw [if_pos hk, lookup_entry, lookup_entry]
      by_cases ho : other = key
      · rw [if_pos ho, if_pos ho]
      · rw [if_neg ho, if_neg ho, if_neg (hk ▸ ho)]
    · rw [if_neg hk, lookup_entry, lookup_entry, ih]
      by_cases ho : other = key
      · rw [if_pos ho, if_neg (ho ▸ hk), if_pos ho]
      · rw [if_neg ho, if_neg ho]

theorem mem_insert_entry {e : String × α} (h : e ∈ insert_entry key value entries) :
    e = (key, value) ∨ e ∈ entries := by
  induction entries with
  | nil => exact .inl (List.mem_singleton.mp h)
  | cons first entries ih =>
    rw [insert_entry] at h
    split_ifs at h with hl he
    · exact List.mem_cons.mp h
    · exact (List.mem_cons.mp h).imp_right (List.mem_cons_of_mem _)
    · rcases List.mem_cons.mp h with rfl | h
      · exact .inr (.head _)
      · exact (ih h).imp_right (List.mem_cons_of_mem _)

theorem lookup_replace_entry (other : String) :
    (replace_entry key value entries).lookup other =
      if other = key then (entries.lookup key).map fun _ => value else entries.lookup other := by
  induction entries with
  | nil => exact (ite_self _).symm
  | cons e entries ih =>
    have hc : replace_entry key value (e :: entries) =
        (if e.1 = key then (key, value) else e) :: replace_entry key value entries := rfl
    rw [hc, lookup_entry, lookup_entry, lookup_entry, ih]
    by_cases hn : e.1 = key
    · rw [if_pos hn, if_pos hn.symm, hn]
      split_ifs <;> rfl
    · rw [if_neg hn, if_neg (Ne.symm hn)]
      by_cases ho : other = key
      · rw [if_neg (ho ▸ Ne.symm hn), if_pos ho, if_pos ho]
      · rw [if_neg ho, if_neg ho]

theorem mem_replace_entry {e : String × α} (h : e ∈ replace_entry key value entries) :
    e = (key, value) ∨ e ∈ entries := by
  obtain ⟨first, hf, rfl⟩ := List.mem_map.mp h
  split_ifs with hk
  · exact .inl rfl
  · exact .inr hf

theorem others_replace_entry {keys : List String} (hk : key ∈ keys) :
    others keys (replace_entry key value entries) = others keys entries := by
  induction entries with
  | nil => rfl
  | cons e entries ih =>
    have hc : replace_entry key value (e :: entries) =
        (if e.1 = key then (key, value) else e) :: replace_entry key value entries := rfl
    rw [hc, others, others, List.filter_cons, List.filter_cons]
    by_cases hn : e.1 = key
    · rw [if_pos hn, if_neg (by simpa using hk), if_neg (by simpa [hn] using hk)]
      exact ih
    · rw [if_neg hn]
      split_ifs
      · exact congrArg (e :: ·) ih
      · exact ih

theorem lookup_others {k : List String} (h : key ∉ k) : (others k entries).lookup key = entries.lookup key := by
  induction entries with
  | nil => rfl
  | cons e entries ih =>
    rw [others, List.filter_cons, lookup_entry]
    by_cases hk : key = e.1
    · have hp : (!k.contains e.1) := by simpa [← hk] using h
      rw [if_pos hp, lookup_entry, if_pos hk, if_pos hk]
    · rw [if_neg hk]
      split_ifs
      · rw [lookup_entry, if_neg hk]
        exact ih
      · exact ih

theorem lookup_others_of_mem {k : List String} (h : key ∈ k) : (others k entries).lookup key = none := by
  induction entries with
  | nil => rfl
  | cons e entries ih =>
    rw [others, List.filter_cons]
    split_ifs with hk
    · have hn : key ≠ e.1 := by
        rintro rfl
        simp [h] at hk
      rw [lookup_entry, if_neg hn]
      exact ih
    · exact ih

/-- Every value of a table is read, or none is. -/
def read_entries (read : α → Option β) : List (String × α) → Option (Table β)
  | [] => some ∅
  | entry :: entries => do
    let table ← read_entries read entries
    let value ← read entry.2
    return table.insert entry.1 value

variable {read : α → Option β}

theorem read_entries_lookup {t : Table β} (h : read_entries read entries = some t) (key : String) :
    t.lookup key = (entries.lookup key).bind read := by
  induction entries generalizing t with
  | nil =>
    cases h
    rfl
  | cons e entries ih =>
    obtain ⟨later, hl, h⟩ := Option.bind_eq_some_iff.mp h
    obtain ⟨value, hv, h⟩ := Option.bind_eq_some_iff.mp h
    cases h
    rw [lookup_entry]
    by_cases hk : key = e.1
    · rw [if_pos hk, hk, AList.lookup_insert]
      exact hv.symm
    · rw [if_neg hk, AList.lookup_insert_ne hk]
      exact ih hl

theorem read_entries_mem {t : Table β} (h : read_entries read entries = some t) :
    ∀ e ∈ entries, (read e.2).isSome := by
  induction entries generalizing t with
  | nil => exact fun _ h => absurd h List.not_mem_nil
  | cons e entries ih =>
    obtain ⟨later, hl, h⟩ := Option.bind_eq_some_iff.mp h
    obtain ⟨value, hv, -⟩ := Option.bind_eq_some_iff.mp h
    intro other ho
    rcases List.mem_cons.mp ho with rfl | ho
    · rw [hv]
      rfl
    · exact ih hl other ho

theorem read_entries_some (h : ∀ e ∈ entries, (read e.2).isSome) :
    ∃ table, read_entries read entries = some table := by
  induction entries with
  | nil => exact ⟨∅, rfl⟩
  | cons e entries ih =>
    obtain ⟨table, ht⟩ := ih fun other ho => h other (.tail _ ho)
    obtain ⟨value, hv⟩ := Option.isSome_iff_exists.mp (h e (.head _))
    exact ⟨table.insert e.1 value, by simp [read_entries, ht, hv]⟩

end

/-! ## Values -/

inductive Toml where
  | Text (value : String)
  | Boolean (value : Bool)
  /-- A number or a date, as it is spelled. -/
  | Other (spelled : String)
  | Array (items : List Toml)
  | Table (entries : List (String × Toml))

namespace Toml

def as_text : Toml → Option String
  | .Text value => some value
  | _ => none

def as_entries : Toml → Option (List (String × Toml))
  | .Table entries => some entries
  | _ => none

theorem as_entries_some {value : Toml} {entries : List (String × Toml)} (h : value.as_entries = some entries) :
    value = .Table entries := by
  cases value with
  | Table other => exact congrArg _ (Option.some.inj h)
  | _ => cases h

def as_texts : Toml → Option (List String)
  | .Array items => items.mapM as_text
  | _ => none

end Toml

/-- A key that may be left out. -/
def optional_key {α : Type} (read : Toml → Option α) : Option Toml → Option (Option α)
  | none => some none
  | some value => (read value).map some

/-- The tables of a document beside its project and its profiles. -/
structure OtherTables where
  defaults : Option ProjectDefaults
  providers : Option (Table ProviderConfig)
  groups : Option (Table String)
  scopes : Option (Table Scope)

/-- How what no command writes is read. -/
structure Deserializer where
  require_reason : Toml → Option RequireReason
  profile_defaults : Toml → Option ProfileDefaults
  secret_fields : List (String × Toml) → Secret → Option Secret
  tables : List (String × Toml) → Option OtherTables
  /-- The reader's words for a document it refuses. -/
  refusal : List (String × Toml) → String
  no_fields : ∀ secret : Secret, secret_fields [] secret = some secret
  no_tables : tables [] = some ⟨none, none, none, none⟩

/-! ## Secrets -/

def NativeAddress.read : Toml → Option NativeAddress
  | .Table entries => do
    let item ← (entries.lookup "item").bind Toml.as_text
    let field ← optional_key Toml.as_text (entries.lookup "field")
    let vault ← optional_key Toml.as_text (entries.lookup "vault")
    let section_ ← optional_key Toml.as_text (entries.lookup "section")
    let version ← optional_key Toml.as_text (entries.lookup "version")
    if others ["item", "field", "vault", "section", "version"] entries = [] then
      some ⟨item, field, vault, section_, version⟩
    else none
  | _ => none

/-- `deserialize_group_names`. -/
def group_names : Toml → Option (List String)
  | .Text name => some [name]
  | value => value.as_texts

/-- A boolean, or a table of presence groups. -/
structure RequiredSetting where
  required : Option Bool
  at_least_one : Option (List String)
  exactly_one : Option (List String)

def RequiredSetting.read : Toml → Option RequiredSetting
  | .Boolean required => some ⟨some required, none, none⟩
  | .Table entries => do
    let at_least_one ← optional_key group_names (entries.lookup "at_least_one")
    let exactly_one ← optional_key group_names (entries.lookup "exactly_one")
    if others ["at_least_one", "exactly_one"] entries = [] ∧ (at_least_one.isSome ∨ exactly_one.isSome) then
      some ⟨none, at_least_one, exactly_one⟩
    else none
  | _ => none

variable (serde : Deserializer)

def Secret.read : Toml → Option Secret
  | .Table entries => do
    let description ← optional_key Toml.as_text (entries.lookup "description")
    let setting ← optional_key RequiredSetting.read (entries.lookup "required")
    let default ← optional_key Toml.as_text (entries.lookup "default")
    let composed ← optional_key Toml.as_text (entries.lookup "composed")
    let reference ← optional_key NativeAddress.read (entries.lookup "ref")
    serde.secret_fields (others ["description", "required", "default", "composed", "ref"] entries)
      { Secret.empty with
        description
        required := setting.bind RequiredSetting.required
        at_least_one := setting.bind RequiredSetting.at_least_one
        exactly_one := setting.bind RequiredSetting.exactly_one
        default
        composed
        reference }
  | _ => none

/-! ## Documents -/

/-- Every key but `defaults` is a secret. -/
def Profile.read : Toml → Option Profile
  | .Table entries => do
    let defaults ← optional_key serde.profile_defaults (entries.lookup "defaults")
    let secrets ← read_entries (Secret.read serde) (others ["defaults"] entries)
    return ⟨defaults, secrets⟩
  | _ => none

def Project.read : Toml → Option Project
  | .Table entries => do
    let name ← (entries.lookup "name").bind Toml.as_text
    let revision ← (entries.lookup "revision").bind Toml.as_text
    let extends_ ← optional_key Toml.as_texts (entries.lookup "extends")
    let require_reason ← optional_key serde.require_reason (entries.lookup "require_reason")
    return ⟨name, revision, extends_, require_reason⟩
  | _ => none

def Config.read (document : List (String × Toml)) : Option Config := do
  let project ← (document.lookup "project").bind (Project.read serde)
  let profiles ← (document.lookup "profiles").bind Toml.as_entries
  let profiles ← read_entries (Profile.read serde) profiles
  let tables ← serde.tables (others ["project", "profiles"] document)
  return ⟨project, profiles, tables.defaults, tables.providers, tables.groups, tables.scopes⟩

/-- The library that reads a text and edits a document in place. -/
structure TomlEdit where
  parse : String → Except String (List (String × Toml))
  /-- A document as text, with the comments and blanks of `layout`. -/
  to_string : (layout : String) → List (String × Toml) → String

/-- `toml::from_str`. -/
def toml_from_str (toml : TomlEdit) (content : String) : Except ParseError Config :=
  match toml.parse content with
  | .error message => .error (.Toml message)
  | .ok document =>
    match Config.read serde document with
    | some config => .ok config
    | none => .error (.Toml (serde.refusal document))

end Monosecret.Manifest
