/-
  Monosecret.Manifest.Written — the manifests that commands write are read again
  (`generate_toml_with_comments`, `Commands::Init` and `Commands::Add` in
  `monosecret/src/cli/mod.rs`).

  `init` writes one profile with the reflected declarations whose names are identifiers.
  Reflected declarations are as providers build them (`Reflected`): a description, whether
  the secret is required, and sometimes a reference.

  `written_manifests_load`: what `add` writes loads, and every effective secret is as it was
  but for the new one, which has its description and what `[defaults]` supply; what `init`
  writes loads, and declares the reflected names. What was not a value source of the
  declaration's own may still be one (`default_supplied`).
-/

import Monosecret.Manifest.Added

namespace Monosecret.Manifest.SpecEdit

open Lib
open Option (bind_some map_some)

/-! ## Generated documents -/

def insert_option {α : Type} (key : String) (value : Option α) (entries : List (String × α)) : List (String × α) :=
  match value with
  | some value => insert_entry key value entries
  | none => entries

def memberships : List String → Toml
  | [membership] => .Text membership
  | groups => .Array (groups.map .Text)

def required_entry (secret : Secret) : Option Toml :=
  match secret.required with
  | some required => some (.Boolean required)
  | none =>
    if secret.at_least_one.isSome || secret.exactly_one.isSome then
      some (.Table (insert_option "exactly_one" (secret.exactly_one.map memberships)
        (insert_option "at_least_one" (secret.at_least_one.map memberships) [])))
    else none

def native_address (reference : NativeAddress) : List (String × Toml) :=
  reference.coordinates.foldl (fun entries coordinate => insert_option coordinate.1 (coordinate.2.map .Text) entries) []

/-- A secret's inline table. -/
def secret_entry (secret : Secret) : List (String × Toml) :=
  let inline := insert_entry "description" (.Text (secret.description.getD "")) []
  let inline := insert_option "required" (required_entry secret) inline
  let inline := insert_option "default" (secret.default.map .Text) inline
  let inline := insert_option "composed" (secret.composed.map .Text) inline
  insert_option "ref" (secret.reference.map fun reference => .Table (native_address reference)) inline

def project_entries (project : Project) : List (String × Toml) :=
  let entries := insert_entry "name" (.Text project.name) []
  let entries := insert_entry "revision" (.Text project.revision) entries
  insert_option "extends" (project.extends_.map fun extends_ => .Array (extends_.map .Text)) entries

def generated_document (config : Config) : List (String × Toml) :=
  let profiles := config.profiles.sorted.map fun profile =>
    (profile.1, Toml.Table (profile.2.secrets.sorted.map fun secret => (secret.1, Toml.Table (secret_entry secret.2))))
  insert_entry "profiles" (.Table profiles) (insert_entry "project" (.Table (project_entries config.project)) [])

/-- The comment before the first profile. -/
def extends_comment (config : Config) : String :=
  if config.project.extends_.isNone && !config.profiles.is_empty then
    "\n# Extend configurations from subdirectories\n# extends = [ \"subdir1\", \"subdir2\" ]\n\n"
  else ""

def generate_toml_with_comments (toml : TomlEdit) (config : Config) : String :=
  "#:schema https://ifiokjr.github.io/monosecret/schema/monosecret.schema.json\n\n" ++
    toml.to_string (extends_comment config) (generated_document config)

def get_example_toml : String :=
  "# DATABASE_URL = \x7b description = \"Database connection string\", required = true \x7d

# [profiles.development]
# Development profile inherits all secrets from default profile
# Only define secrets here that need different values or settings than default
# DATABASE_URL = \x7b default = \"sqlite:///dev.db\" \x7d
#
# New secrets
# REDIS_URL = \x7b description = \"Redis connection URL for caching\", required = false, default = \"redis://localhost:6379\" \x7d
"

/-! ## Init -/

/-- The entries whose keys are kept. -/
def Table.retain {β : Type} (keep : String → Bool) (table : Table β) : Table β :=
  ⟨table.entries.filter fun entry => keep entry.1, table.nodupKeys.sublist List.filter_sublist⟩

def init_config (rules : Rules) (project_name profile : String) (reflected : Table Secret) : Config where
  project := ⟨project_name, "1.0", none, none⟩
  profiles := AList.insert profile ⟨none, Table.retain (is_valid_identifier rules) reflected⟩ ∅
  defaults := none
  providers := none
  groups := none
  scopes := none

/-- `Commands::Init`: the text it writes for what the provider reflected. -/
def init (rules : Rules) (toml : TomlEdit) (project_name profile : String) (reflected : Table Secret) : Except String String := do
  refuse (project_name == "") "init project cannot be empty"
  refuse (profile == "") "init profile cannot be empty"
  .ok (generate_toml_with_comments toml (init_config rules project_name profile reflected) ++ get_example_toml)

/-! ## Reading it again -/

section

variable {α : Type} {key : String} {value : Option α} {entries : List (String × α)}

theorem lookup_insert_option (other : String) :
    (insert_option key value entries).lookup other = if other = key then value.or (entries.lookup key) else entries.lookup other := by
  cases value with
  | none => by_cases h : other = key <;> simp [insert_option, h]
  | some value =>
    show (insert_entry key value entries).lookup other = _
    rw [lookup_insert_entry]
    rfl

theorem mem_insert_option {entry : String × α} (h : entry ∈ insert_option key value entries) :
    entry.1 = key ∨ entry ∈ entries := by
  cases value with
  | none => exact .inr h
  | some value =>
    rcases mem_insert_entry h with rfl | h
    · exact .inl rfl
    · exact .inr h

theorem keys_insert_option {k : List String} (hk : key ∈ k) (h : ∀ entry ∈ entries, entry.1 ∈ k) :
    ∀ entry ∈ insert_option key value entries, entry.1 ∈ k := by
  intro entry he
  rcases mem_insert_option he with rfl | he
  · exact hk
  · exact h entry he

theorem others_eq_nil {k : List String} (h : ∀ entry ∈ entries, entry.1 ∈ k) : others k entries = [] := by
  refine List.filter_eq_nil_iff.mpr fun entry he => ?_
  simpa using h entry he

end

theorem optional_text (value : Option String) : optional_key Toml.as_text (value.map .Text) = some value := by
  cases value <;> rfl

theorem read_native_address (reference : NativeAddress) :
    NativeAddress.read (.Table (native_address reference)) = some reference := by
  obtain ⟨item, field, vault, section_, version⟩ := reference
  have hl (key : String) : (native_address ⟨item, field, vault, section_, version⟩).lookup key =
      if key = "version" then version.map .Text
      else if key = "field" then field.map .Text
      else if key = "section" then section_.map .Text
      else if key = "item" then some (.Text item)
      else if key = "vault" then vault.map .Text
      else none := by
    simp only [native_address, NativeCoordinates.coordinates, List.foldl_cons, List.foldl_nil, lookup_insert_option]
    split_ifs <;> simp_all
  have ho : others ["item", "field", "vault", "section", "version"]
      (native_address ⟨item, field, vault, section_, version⟩) = [] := by
    refine others_eq_nil ?_
    simp only [native_address, NativeCoordinates.coordinates, List.foldl_cons, List.foldl_nil]
    iterate 5 refine keys_insert_option (by simp) ?_
    exact List.forall_mem_nil _
  unfold NativeAddress.read
  simp [hl, ho, optional_text, Toml.as_text]

/-- `Secret::required` or `Secret::optional`, with a reference. -/
def reflected_secret (description : String) (required : Bool) (reference : Option NativeAddress) : Secret :=
  { Secret.empty with description := some description, required := some required, reference }

/-- A declaration as providers build it. -/
inductive Reflected : Secret → Prop where
  | built (description : String) (required : Bool) (reference : Option NativeAddress) (described : description ≠ "")
      (addressed : ∀ address, reference = some address → ∀ coordinate ∈ address.coordinates, coordinate.2.any is_blank = false) :
      Reflected (reflected_secret description required reference)

variable {serde : Deserializer}

theorem read_secret_entry (description : String) (required : Bool) (reference : Option NativeAddress) :
    Secret.read serde (.Table (secret_entry (reflected_secret description required reference))) =
      some (reflected_secret description required reference) := by
  have hl (key : String) : (secret_entry (reflected_secret description required reference)).lookup key =
      if key = "ref" then reference.map fun reference => .Table (native_address reference)
      else if key = "required" then some (.Boolean required)
      else if key = "description" then some (.Text description)
      else none := by
    simp only [secret_entry, required_entry, reflected_secret, Secret.empty, lookup_insert_option, lookup_insert_entry]
    split_ifs <;> simp_all
  have ho : others ["description", "required", "default", "composed", "ref"]
      (secret_entry (reflected_secret description required reference)) = [] := by
    refine others_eq_nil ?_
    simp only [secret_entry]
    iterate 4 refine keys_insert_option (by simp) ?_
    intro entry he
    rcases mem_insert_entry he with rfl | he
    · simp
    · cases he
  have hr : optional_key NativeAddress.read (reference.map fun reference => .Table (native_address reference)) =
      some reference := by
    cases reference with
    | none => rfl
    | some reference => exact congrArg (Option.map some) (read_native_address reference)
  unfold Secret.read
  simp only [hl, ho, String.reduceEq, if_true, if_false, hr]
  simp [optional_key, Toml.as_text, RequiredSetting.read, serde.no_fields, Secret.empty, reflected_secret]

theorem lookup_retain {β : Type} (keep : String → Bool) (t : Table β) (key : String) :
    (Table.retain keep t).lookup key = if keep key then t.lookup key else none := by
  show (t.entries.filter fun entry => keep entry.1).dlookup key = if keep key then t.entries.dlookup key else none
  induction t.entries with
  | nil => simp
  | cons entry entries ih =>
    obtain ⟨n, value⟩ := entry
    rw [List.filter_cons]
    by_cases hk : key = n
    · subst hk
      by_cases hp : keep key
      · rw [if_pos hp, if_pos hp, List.dlookup_cons_eq, List.dlookup_cons_eq]
      · rw [if_neg hp, ih, if_neg hp, if_neg hp]
    · rw [List.dlookup_cons_ne _ _ hk, ← ih]
      split_ifs
      · exact List.dlookup_cons_ne _ _ hk
      · rfl

/-- A table in key order. -/
theorem lookup_map_sorted {β γ : Type} (f : β → γ) (t : Table β) (key : String) :
    (t.sorted.map fun entry => (entry.1, f entry.2)).lookup key = (t.lookup key).map f := by
  rw [lookup_map_snd (fun _ => f), Table.lookup_sorted]

/-- What may be reflected: declarations as providers build them, under names that do not
    collide and are not reserved. -/
structure Reflectable (rules : Rules) (reflected : Table Secret) : Prop where
  some_valid : ∃ name ∈ reflected, is_valid_identifier rules name = true
  built : ∀ name secret, reflected.lookup name = some secret → is_valid_identifier rules name = true → Reflected secret
  unreserved : ∀ name ∈ reflected, is_valid_identifier rules name = true → name ≠ "defaults"
  case_distinct : CaseDistinct rules (reflected.keys.filter (is_valid_identifier rules))

section

variable {rules : Rules} {project_name profile : String} {reflected : Table Secret}

/-- The manifest that is read back: the profile with these secrets. -/
structure ReadBack (rules : Rules) (project_name profile : String) (reflected : Table Secret) (config : Config) : Prop where
  project : config.project = ⟨project_name, "1.0", none, none⟩
  defaults : config.defaults = none
  providers : config.providers = none
  groups : config.groups = none
  scopes : config.scopes = none
  profiles : ∃ entry : Profile, entry.defaults = none ∧
    (∀ name, entry.secrets.lookup name = if is_valid_identifier rules name then reflected.lookup name else none) ∧
      ∀ p, config.profiles.lookup p = if p = profile then some entry else none

theorem lookup_single (entry : Profile) (p : String) :
    (AList.insert profile entry ∅ : Table Profile).lookup p = if p = profile then some entry else none := by
  split_ifs with h
  · rw [h, AList.lookup_insert]
  · rw [AList.lookup_insert_ne h]
    rfl

/-- The secrets of the profile, as they are written. -/
def written_secrets (rules : Rules) (reflected : Table Secret) : List (String × Toml) :=
  (Table.retain (is_valid_identifier rules) reflected).sorted.map fun secret => (secret.1, Toml.Table (secret_entry secret.2))

variable (serde) in
theorem read_written_secrets (h : Reflectable rules reflected) :
    ∃ entry : Profile, Profile.read serde (.Table (written_secrets rules reflected)) = some entry ∧ entry.defaults = none ∧
      ∀ name, entry.secrets.lookup name = if is_valid_identifier rules name then reflected.lookup name else none := by
  have he : ∀ entry ∈ written_secrets rules reflected, ∃ secret, Reflected secret ∧ entry.1 ≠ "defaults" ∧
      entry.2 = .Table (secret_entry secret) := by
    intro entry hm
    obtain ⟨⟨name, secret⟩, hi, rfl⟩ := List.mem_map.mp hm
    have hl := Table.mem_sorted.mp hi
    rw [lookup_retain] at hl
    split_ifs at hl with hv
    exact ⟨secret, h.built name secret hl hv,
      h.unreserved name (AList.lookup_isSome.mp (by rw [hl]; rfl)) hv, rfl⟩
  have hr : ∀ {secret}, Reflected secret → Secret.read serde (.Table (secret_entry secret)) = some secret := by
    rintro _ ⟨d, rq, r, -, -⟩
    exact read_secret_entry d rq r
  have ho : others ["defaults"] (written_secrets rules reflected) = written_secrets rules reflected := by
    refine List.filter_eq_self.mpr fun entry hm => ?_
    obtain ⟨-, -, hn, -⟩ := he entry hm
    simpa using hn
  have ha : ∀ entry ∈ written_secrets rules reflected, (Secret.read serde entry.2).isSome := by
    intro entry hm
    obtain ⟨secret, hb, -, hva⟩ := he entry hm
    rw [hva, hr hb]
    rfl
  have hd : (written_secrets rules reflected).lookup "defaults" = none := by
    cases hl : (written_secrets rules reflected).lookup "defaults" with
    | none => rfl
    | some value =>
      obtain ⟨-, -, hn, -⟩ := he _ (mem_of_lookup hl)
      exact absurd rfl hn
  obtain ⟨s, hs⟩ := read_entries_some ha
  refine ⟨⟨none, s⟩, ?_, rfl, fun name => ?_⟩
  · simp [Profile.read, hd, ho, hs, optional_key]
  · show s.lookup name = _
    rw [read_entries_lookup hs, written_secrets, lookup_map_sorted fun secret => Toml.Table (secret_entry secret),
      lookup_retain]
    split_ifs with hv
    · cases hl : reflected.lookup name with
      | none => rfl
      | some secret => exact hr (h.built name secret hl hv)
    · rfl

variable (serde project_name profile) in
theorem read_generated (h : Reflectable rules reflected) :
    ∃ config, Config.read serde (generated_document (init_config rules project_name profile reflected)) = some config ∧
      ReadBack rules project_name profile reflected config := by
  obtain ⟨entry, hr, hd, hs⟩ := read_written_secrets serde h
  have hp : Project.read serde (.Table (project_entries ⟨project_name, "1.0", none, none⟩)) =
      some ⟨project_name, "1.0", none, none⟩ := by
    simp [Project.read, project_entries, insert_option, lookup_insert_entry, optional_key, Toml.as_text]
  let tables := (init_config rules project_name profile reflected).profiles.sorted.map fun profile =>
    (profile.1, Toml.Table (profile.2.secrets.sorted.map fun secret => (secret.1, Toml.Table (secret_entry secret.2))))
  have hl (p : String) : tables.lookup p = if p = profile then some (.Table (written_secrets rules reflected)) else none := by
    refine (lookup_map_sorted (fun entry : Profile =>
      Toml.Table (entry.secrets.sorted.map fun secret => (secret.1, Toml.Table (secret_entry secret.2)))) _ p).trans ?_
    rw [init_config, lookup_single]
    split_ifs <;> rfl
  have ha : ∀ entry ∈ tables, (Profile.read serde entry.2).isSome := by
    intro table hm
    obtain ⟨⟨p, found⟩, hi, rfl⟩ := List.mem_map.mp hm
    have hf := Table.mem_sorted.mp hi
    rw [init_config, lookup_single] at hf
    split_ifs at hf
    cases hf
    exact Option.isSome_iff_exists.mpr ⟨entry, hr⟩
  obtain ⟨profiles, hpr⟩ := read_entries_some ha
  have hc : generated_document (init_config rules project_name profile reflected) =
      insert_entry "profiles" (.Table tables) (insert_entry "project" (.Table (project_entries ⟨project_name, "1.0", none, none⟩)) []) :=
    rfl
  have ho : others ["project", "profiles"] (generated_document (init_config rules project_name profile reflected)) = [] := by
    refine others_eq_nil fun entry hm => ?_
    rw [hc] at hm
    rcases mem_insert_entry hm with rfl | hm
    · simp
    · rcases mem_insert_entry hm with rfl | hm
      · simp
      · cases hm
  refine ⟨⟨⟨project_name, "1.0", none, none⟩, profiles, none, none, none, none⟩, ?_, rfl, rfl, rfl, rfl, rfl,
    entry, hd, hs, fun p => ?_⟩
  · unfold Config.read
    rw [ho, serde.no_tables, hc]
    simp [lookup_insert_entry, hp, hpr, Toml.as_entries]
  · show profiles.lookup p = _
    rw [read_entries_lookup hpr, hl]
    split_ifs
    · exact hr
    · rfl

/-! ## The generated manifest is accepted -/

theorem resolved_reflected (d : String) (rq : Bool) (r : Option NativeAddress) :
    Secret.resolved (some (reflected_secret d rq r)) none none none =
      some (reflected_secret d rq r) := by
  cases r <;> simp [Secret.resolved, inherit, chosen, inherited_credentials, reflected_secret, Secret.empty,
    Secret.has_required_setting, Secret.is_addressed, Option.filter]

theorem reflected_valid {s : Secret} (h : Reflected s) : s.validate_effective rules = .ok () := by
  obtain ⟨d, rq, r, hd, hr⟩ := h
  have hs : (reflected_secret d rq r).validate_description = .ok () := by
    unfold Secret.validate_description reflected_secret
    split
    · rename_i he
      exact absurd (Option.some.inj he) hd
    · rename_i hn
      cases hn
    · rfl
  have hg : (reflected_secret d rq r).validate_groups = .ok () := by
    show refuse (_ && false) _ = _
    rw [Bool.and_false]
    rfl
  have hf : (reflected_secret d rq r).validate_references = .ok () := by
    cases r with
    | none => rfl
    | some a =>
      have ha : Secret.validate_address "ref" a = .ok () :=
        Except.forM_ok_iff.mpr fun c hc => refuse_eq_ok.mpr (hr a rfl c hc)
      exact Except.bind_unit_eq_ok.mpr ⟨ha, rfl⟩
  unfold Secret.validate_effective Secret.validate_semantics
  rw [hs, hg, hf]
  rfl

section

variable {config : Config} {entry : Profile}

theorem inherited_nothing (hp : ∀ p, config.profiles.lookup p = if p = profile then some entry else none) :
    inherited config profile entry = none := by
  unfold inherited
  split_ifs with hc
  · rw [hp, if_neg]
    rintro rfl
    simp at hc
  · rfl

/-- The effective secrets are the reflected ones. -/
theorem effective_reflected (h : Reflectable rules reflected) (hd : entry.defaults = none) (hc : config.defaults = none)
    (hp : ∀ p, config.profiles.lookup p = if p = profile then some entry else none)
    (hs : ∀ name, entry.secrets.lookup name = if is_valid_identifier rules name then reflected.lookup name else none)
    (name : String) :
    effective_secret config profile entry name = if is_valid_identifier rules name then reflected.lookup name else none := by
  rw [effective_secret, inherited_nothing hp, hd, hc, hs]
  split_ifs with hv
  · cases hl : reflected.lookup name with
    | none => rfl
    | some s =>
      obtain ⟨d, rq, r, -, -⟩ := h.built name s hl hv
      exact resolved_reflected d rq r
  · rfl

end

theorem reflected_needs {s : Secret} (h : Reflected s) (d : String) : ¬ Needs (compile_secret s) d := by
  obtain ⟨ds, rq, r, -, -⟩ := h
  rintro (⟨hc, -⟩ | hs | hb)
  · cases hc
  · cases hs
  · cases hb

theorem reflected_ungrouped {s : Secret} (h : Reflected s) :
    s.at_least_one = none ∧ s.exactly_one = none ∧ s.groups = none ∧ s.validate_required_default = .ok () := by
  obtain ⟨d, rq, r, -, -⟩ := h
  refine ⟨rfl, rfl, rfl, ?_⟩
  show refuse (_ && false) _ = _
  rw [Bool.and_false]
  rfl

theorem constraint_groups_none {g : Secret → Option (List String)} {entries : List (String × Secret)}
    (h : ∀ entry ∈ entries, g entry.2 = none) : constraint_groups g entries = [] := by
  rw [← constraint_groups_filter (fun entry he (_ : (fun _ : String × Secret => false) entry = false) => h entry he),
    List.filter_false]
  rfl

section

variable {config : Config} {entry : Profile}

/-- An effective secret is one that was reflected. -/
def Effective (rules : Rules) (reflected : Table Secret) (config : Config) (profile : String) (entry : Profile) : Prop :=
  ∀ name secret, effective_secret config profile entry name = some secret →
    is_valid_identifier rules name = true ∧ reflected.lookup name = some secret ∧ Reflected secret

theorem reflected_checked (h : Effective rules reflected config profile entry) :
    validate_compiled_profile rules profile (compile_profile config profile entry) = .ok () := by
  have he : ∀ secret ∈ effective config profile entry, Reflected secret.2 :=
    fun secret hm => (h secret.1 secret.2 (mem_keyed.mp hm).2).2.2
  have ho : (compile_profile config profile entry).at_least_one = [] :=
    constraint_groups_none fun secret hm => (reflected_ungrouped (he secret hm)).1
  have hec : (compile_profile config profile entry).exactly_one = [] :=
    constraint_groups_none fun secret hm => (reflected_ungrouped (he secret hm)).2.1
  have hn : ∀ n secret, (compile_profile config profile entry).get n = some secret → ∀ d, ¬ Needs secret d := by
    intro n secret hg d
    rw [compiled_get] at hg
    obtain ⟨found, hf, rfl⟩ := Option.map_eq_some_iff.mp hg
    exact reflected_needs (h n found hf).2.2 d
  refine Except.bind_unit_eq_ok.mpr ⟨?_, Except.bind_unit_eq_ok.mpr ⟨?_, ?_⟩⟩
  · refine Except.forM_ok_iff.mpr fun c hm => Except.mapError_ok.mpr ?_
    obtain ⟨secret, hi, rfl⟩ := List.mem_map.mp hm
    exact reflected_valid (he secret hi)
  · unfold validate_profile_constraints
    rw [ho, hec]
    rfl
  · refine (composition_graph_checked profile _).1.mpr ⟨fun n secret hm => ?_, fun n hy => ?_⟩
    · have hg := CompiledProfile.get_of_mem (compile_profile_nodup config profile entry) hm
      refine ⟨fun d hd => absurd hd (hn n secret hg d), fun d _ hs => absurd (.source hs) (hn n secret hg d),
        fun _ d _ hc => absurd (.credential hc) (hn n secret hg d)⟩
    · obtain ⟨d, ⟨secret, hg, hd⟩, -⟩ := Relation.TransGen.head'_iff.mp hy
      exact hn n secret hg d hd

theorem reflected_raw (h : Reflectable rules reflected)
    (hs : ∀ n, entry.secrets.lookup n = if is_valid_identifier rules n then reflected.lookup n else none) :
    entry.validate_raw rules false = .ok () := by
  have hm : ∀ s ∈ entry.secrets.sorted, is_valid_identifier rules s.1 ∧
      reflected.lookup s.1 = some s.2 := by
    intro s hi
    have hl := Table.mem_sorted.mp hi
    rw [hs] at hl
    split_ifs at hl with hv
    exact ⟨hv, hl⟩
  have hk : ∀ n ∈ entry.secrets.sorted.map Prod.fst, n ∈ reflected.keys.filter (is_valid_identifier rules) := by
    intro n hi
    obtain ⟨s, hr, rfl⟩ := List.mem_map.mp hi
    obtain ⟨hv, hl⟩ := hm s hr
    exact List.mem_filter.mpr ⟨AList.mem_keys.mp (AList.lookup_isSome.mp (by rw [hl]; rfl)), hv⟩
  refine Except.bind_unit_eq_ok.mpr ⟨?_, validate_names_of (fun s hi => ?_) ?_ fun _ _ _ he => ?_⟩
  · obtain ⟨n, hn, hv⟩ := h.some_valid
    have hem : entry.secrets.is_empty = false := by
      cases hem : entry.secrets.is_empty with
      | false => rfl
      | true =>
        have hl := hs n
        rw [Table.is_empty_iff.mp hem, if_pos hv] at hl
        have hsm := AList.lookup_isSome.mpr hn
        rw [← hl] at hsm
        cases hsm
    rw [hem]
    rfl
  · obtain ⟨hv, hl⟩ := hm s hi
    exact ⟨hv, (reflected_ungrouped (h.built _ _ hl hv)).2.2.2⟩
  · exact fun a ha b hb => h.case_distinct a (hk a ha) b (hk b hb)
  · cases he

/-- What `init` writes is accepted, and its one profile has the reflected names. -/
theorem read_back_accepted (h : Reflectable rules reflected)
    (hb : ReadBack rules project_name profile reflected config) (hj : project_name ≠ "") :
    config.validate_and_compile rules = .ok (.compile config) ∧
      ∀ p name, (((CompiledSpec.compile config).profile p).bind (·.get name)).isSome ↔
        p = profile ∧ name ∈ reflected ∧ is_valid_identifier rules name := by
  obtain ⟨entry, hd, hc, hp⟩ := hb.profiles
  have he := effective_reflected h hd hb.defaults hp hc
  have hl : Effective rules reflected config profile entry := by
    intro name s hs
    rw [he] at hs
    split_ifs at hs with hv
    exact ⟨hv, hs, h.built name s hs hv⟩
  have hn : ∀ {p found}, config.profiles.lookup p = some found → p = profile ∧ found = entry := by
    intro p found hf
    rw [hp] at hf
    split_ifs at hf with hq
    exact ⟨hq, (Option.some.inj hf).symm⟩
  have hv : Config.validate_profile rules (.compile config) profile entry false = .ok () := by
    refine Except.bind_unit_eq_ok.mpr ⟨?_, ?_⟩
    · rw [reflected_raw h hc]
      rfl
    · rw [compile_lookup, hp, if_pos rfl]
      exact reflected_checked hl
  constructor
  · have hm : (refuse config.project.name.isEmpty "Project name cannot be empty").mapError ParseError.Validation = .ok () := by
      refine Except.mapError_ok.mpr (refuse_eq_ok.mpr ?_)
      rw [hb.project]
      simpa using hj
    have hr : (refuse config.profiles.is_empty "At least one profile must be defined").mapError ParseError.Validation =
        .ok () := by
      refine Except.mapError_ok.mpr (refuse_eq_ok.mpr ?_)
      cases hem : config.profiles.is_empty with
      | false => rfl
      | true =>
        have ht := hp profile
        rw [Table.is_empty_iff.mp hem, if_pos rfl] at ht
        exact absurd (show (none : Option Profile) = some entry from ht) nofun
    have hdl : ((config.profiles.lookup "default").forM fun profile =>
        Config.validate_profile rules (.compile config) "default" profile false) = .ok () := by
      cases hf : config.profiles.lookup "default" with
      | none => rfl
      | some found =>
        obtain ⟨hm, rfl⟩ := hn hf
        rw [← hm] at hv
        exact hv
    have hoh : ((config.profiles.sorted.filter fun profile => profile.1 != "default").forM fun profile =>
        Config.validate_profile rules (.compile config) profile.1 profile.2
          ((config.profiles.lookup "default").isSome && profile.2.inherits_default)) = .ok () := by
      refine Except.forM_ok_iff.mpr fun found hf => ?_
      obtain ⟨hmm, ho⟩ := List.mem_filter.mp hf
      obtain ⟨hm, hsm⟩ := hn (Table.mem_sorted.mp hmm)
      have hnn : config.profiles.lookup "default" = none := by
        rw [hp, if_neg]
        rintro rfl
        simp [hm] at ho
      rw [hm, hsm, hnn]
      exact hv
    have hg : Config.validate_filter_groups config (.compile config) = .ok () := by
      refine Except.forM_ok_iff.mpr fun c hmm => Except.forM_ok_iff.mpr fun s hi => ?_
      obtain ⟨found, hf, hcm⟩ := mem_compiled_profiles.mp hmm
      obtain ⟨hm, rfl⟩ := hn hf
      rw [hcm, hm] at hi
      obtain ⟨declared, hs, hsr⟩ := mem_compiled.mp hi
      have hu := (reflected_ungrouped (hl _ _ hs).2.2).2.2.1
      have hg : s.2.config.groups = none := by
        rw [hsr]
        exact hu
      simp only [hg]
      rfl
    have hsp : Config.validate_scopes config (.compile config) = .ok () := by
      rw [Config.validate_scopes, hb.scopes]
      rfl
    have hdp : Config.validate_provider_dependencies config (.compile config) = .ok () := by
      rw [Config.validate_provider_dependencies, hb.providers]
      rfl
    have hproject_defaults : (config.defaults.forM fun d => d.validate.mapError ParseError.Validation) = .ok () := by
      rw [hb.defaults]
      rfl
    unfold Config.validate_and_compile
    simp only [hm, hr, hproject_defaults, hdl, hoh, hg, hsp, hdp, bind, Except.bind]
  · intro p name
    rw [compile_lookup, hp]
    by_cases hq : p = profile
    · rw [if_pos hq, hq, map_some, bind_some, compiled_get, Option.isSome_map, he]
      by_cases hvalid_name : is_valid_identifier rules name
      · rw [if_pos hvalid_name, AList.lookup_isSome]
        simp [hvalid_name]
      · rw [if_neg hvalid_name]
        simp [hvalid_name]
    · rw [if_neg hq]
      simp [hq]

end

end

/-! ## Written manifests -/

section

open ConfigGraphLoader

variable {Path : Type} [DecidableEq Path] {fs : FileSystem Path}

theorem load_root {p file : Path} (hp : fs.canonicalize p = .ok file) {c : String}
    (hr : fs.read_to_string file = .ok c) {root : Config} (hpr : parse_document fs c = .ok root)
    (he : root.project.extends_ = none) (f : Nat) : load fs (f + 1) p = .ok root := by
  have hn : visit_extends fs (ConfigGraphLoader.visit fs f) root (fs.parent p)
      { (empty : ConfigGraphLoader Path) with active := [file] } = .ok { (empty : ConfigGraphLoader Path) with active := [file] } := by
    rw [visit_extends, he]
    rfl
  have hv : ConfigGraphLoader.visit fs (f + 1) p empty = .ok ⟨[file].erase file, [file], [root]⟩ := by
    unfold ConfigGraphLoader.visit
    simp only [hp, hr, hpr]
    rw [if_neg (show file ∉ empty.emitted from List.not_mem_nil), if_neg (show file ∉ empty.active from List.not_mem_nil)]
    exact congrArg (· >>= _) hn
  simp only [load, hv, bind, Except.bind]
  rfl

theorem read_written (fs : FileSystem Path) (file : Path) (text : String) :
    (FileSystem.write fs file text).read_to_string file = .ok text :=
  if_pos rfl

theorem written_reader (fs : FileSystem Path) (file : Path) (t : String) :
    (FileSystem.write fs file t).toml_from_str = fs.toml_from_str :=
  rfl

/-- What `add` writes for an accepted manifest loads, and every effective secret is as it was
    but for the new one; what `init` writes loads, and declares the reflected names. -/
theorem written_manifests_load (rules : Rules) (serde : Deserializer) (toml : TomlEdit) (fs : FileSystem Path)
    (hreader : fs.toml_from_str = toml_from_str serde toml) (path file : Path) (hpath : fs.canonicalize path = .ok file)
    (fuel : Nat) :
    (∀ (app : Secrets rules) (config : Config) (source : String) (profile : Option String) (name description updated : String),
      load fs fuel path = .ok config → config.validate_and_compile rules = .ok app.manifest.spec →
      fs.read_to_string file = .ok source →
      add app config toml source profile name description = .ok updated →
      (∀ document edited, toml.parse source = .ok document →
        insert_declaration document (app.resolve_profile_name profile) name [("description", .Text (trimmed description))] = .ok edited →
          toml.parse (toml.to_string source edited) = .ok edited) →
      CaseApart rules config (app.resolve_profile_name profile) name →
      RoutesApart config (app.resolve_profile_name profile) name →
      ∃ after entry, load (FileSystem.write fs file updated) fuel path = .ok after ∧
        after.validate_and_compile rules = .ok (.compile after) ∧
        (∀ p, ((CompiledSpec.compile after).profile p).isSome = (app.manifest.spec.profile p).isSome) ∧
        (∀ p other, other ≠ name →
          ((CompiledSpec.compile after).profile p).bind (·.get other) = (app.manifest.spec.profile p).bind (·.get other)) ∧
        (∀ p secret, (app.manifest.spec.profile p).bind (·.get name) = some secret →
          ((CompiledSpec.compile after).profile p).bind (·.get name) = some secret) ∧
        config.profiles.lookup (app.resolve_profile_name profile) = some entry ∧
        ((CompiledSpec.compile after).profile (app.resolve_profile_name profile)).bind (·.get name) =
          some (compile_secret (supplied config entry (trimmed description)))) ∧
    (∀ (project_name profile : String) (reflected : Table Secret) (content : String),
      init rules toml project_name profile reflected = .ok content →
      toml.parse content = .ok (generated_document (init_config rules project_name profile reflected)) →
      Reflectable rules reflected →
      ∃ config, load (FileSystem.write fs file content) (fuel + 1) path = .ok config ∧
        config.validate_and_compile rules = .ok (.compile config) ∧
        ∀ p name, (((CompiledSpec.compile config).profile p).bind (·.get name)).isSome = true ↔
          p = profile ∧ name ∈ reflected ∧ is_valid_identifier rules name = true) := by
  constructor
  · intro app config source profile name description updated hl hv hr hd hp hap ht
    have ha := add_accepted hd
    obtain ⟨document, edited, hps, hn, hu⟩ := ha.edited
    have he : toml.parse updated = .ok edited := hu ▸ hp document edited hps hn
    obtain ⟨after, hf, hc⟩ := load_written hreader hpath hr hps he
      (fun r hro => read_inserted hro ha.named (read_description (trimmed description)) hn) hl
    have het : Extended rules config after app.manifest.spec (app.resolve_profile_name profile) name (trimmed description) :=
      ⟨hv, hc, ha.profile_there, ha.undeclared, ha.valid, ha.described, hap, ht⟩
    have hm := (validated hv).compiled
    obtain ⟨entry, hen⟩ := Option.isSome_iff_exists.mp ha.profile_there
    -- a profile and its effective secrets, before and after
    have hb : ∀ p, (config.profiles.lookup p = none ∧ after.profiles.lookup p = none) ∨
        ∃ before now, config.profiles.lookup p = some before ∧ after.profiles.lookup p = some now ∧
          Kept (app.resolve_profile_name profile) name (only_described (trimmed description)) p before now := by
      intro p
      cases hbf : config.profiles.lookup p with
      | some before =>
        obtain ⟨now, hw, hk⟩ := kept_of_before hc hbf
        exact .inr ⟨before, now, rfl, hw, hk⟩
      | none =>
        refine .inl ⟨rfl, ?_⟩
        cases hw : after.profiles.lookup p with
        | none => rfl
        | some now =>
          obtain ⟨before, hsm, -⟩ := kept_of_now hc ha.profile_there hw
          rw [hbf] at hsm
          cases hsm
    refine ⟨after, entry, hf, het.accepted, fun p => ?_, fun p other ho => ?_, fun p secret hs => ?_, hen, ?_⟩
    · rw [hm, compile_lookup, compile_lookup]
      rcases hb p with ⟨hbf, hw⟩ | ⟨before, now, hbf, hw, -⟩
      all_goals
        rw [hbf, hw]
        rfl
    · rw [hm, compile_lookup, compile_lookup]
      rcases hb p with ⟨hbf, hw⟩ | ⟨before, now, hbf, hw, hk⟩
      · rw [hbf, hw]
        rfl
      · rw [hbf, hw, map_some, map_some, bind_some, bind_some, compiled_get, compiled_get,
          effective_added hv hc ha.profile_there ha.undeclared hbf hk, if_neg fun hand => ho hand.1]
    · rw [hm, compile_lookup] at hs
      rw [compile_lookup]
      rcases hb p with ⟨hbf, hw⟩ | ⟨before, now, hbf, hw, hk⟩
      · rw [hbf] at hs
        cases hs
      · rw [hbf, map_some, bind_some, compiled_get] at hs
        rw [hw, map_some, bind_some, compiled_get]
        obtain ⟨declared, hdl, rfl⟩ := Option.map_eq_some_iff.mp hs
        rw [het.secret_kept hbf hk hdl]
        rfl
    · obtain ⟨now, hw, hk⟩ := kept_of_before hc hen
      have hnn : effective_secret config (app.resolve_profile_name profile) entry name = none := by
        have hun := ha.undeclared
        rw [hm, compile_lookup, hen, map_some, bind_some, compiled_get, Option.map_eq_none_iff] at hun
        exact hun
      rw [compile_lookup, hw, map_some, bind_some, compiled_get,
        effective_added hv hc ha.profile_there ha.undeclared hen hk,
        if_pos ⟨rfl, .inl rfl, hnn⟩]
      rfl
  · intro project_name profile reflected content hi hps hrf
    obtain ⟨hpr, -⟩ := Except.bind_unit_ok hi
    have hpr := refuse_ok hpr
    obtain ⟨config, hcn, hbc⟩ := read_generated serde project_name profile hrf
    have hdm : parse_document (FileSystem.write fs file content) content = .ok config := by
      refine parse_document_ok.mpr ⟨?_, by rw [hbc.project]⟩
      show fs.toml_from_str content = .ok config
      rw [hreader]
      exact (toml_from_str_ok hps).mpr hcn
    obtain ⟨hac, hdl⟩ := read_back_accepted hrf hbc (by simpa using hpr)
    refine ⟨config, load_root ?_ (read_written fs file content) hdm (by rw [hbc.project]) fuel, hac, hdl⟩
    exact hpath

end

/-! ## A manifest -/

/-- Reads what a document of one profile and its defaults needs. -/
def small_serde : Deserializer where
  require_reason _ := none
  profile_defaults
    | .Table [("default", .Text value)] => some ⟨none, none, some value, none⟩
    | _ => none
  secret_fields
    | [], secret => some secret
    | _, _ => none
  tables
    | [] => some ⟨none, none, none, none⟩
    | _ => none
  refusal _ := "data did not match"
  no_fields _ := rfl
  no_tables := rfl

def project_table : Toml := .Table [("name", .Text "app"), ("revision", .Text "1.0")]

def described_entry (description : String) : Toml := .Table [("description", .Text description)]

/-- A document whose `default` profile has these entries. -/
def app_entries (entries : List (String × Toml)) : List (String × Toml) :=
  [("profiles", .Table [("default", .Table entries)]), ("project", project_table)]

def db_entry : String × Toml := ("DB", described_entry "the database")

def token_entry : String × Toml := ("TOKEN", described_entry "the token")

def defaults_entry : String × Toml := ("defaults", .Table [("default", .Text "dev")])

def app_text : String :=
  "[project]
name = \"app\"
revision = \"1.0\"

[profiles.default]
DB = \x7b description = \"the database\" \x7d
defaults = \x7b default = \"dev\" \x7d
"

def added_text : String := app_text ++ "TOKEN = \x7b description = \"the token\" \x7d\n"

def reflected_db : Table Secret := AList.insert "DB" (reflected_secret "DB secret" true none) ∅

def generated_config : Config := init_config ascii "app" "default" reflected_db

def generated_text : String :=
  "[project]
name = \"app\"
revision = \"1.0\"

# Extend configurations from subdirectories
# extends = [ \"subdir1\", \"subdir2\" ]

[profiles.default]
DB = \x7b description = \"DB secret\", required = true \x7d
"

def init_text : String :=
  "#:schema https://ifiokjr.github.io/monosecret/schema/monosecret.schema.json\n\n" ++ generated_text ++ get_example_toml

/-- What the library makes of these texts. -/
def small_toml : TomlEdit where
  parse text :=
    if text = app_text then .ok (app_entries [db_entry, defaults_entry])
    else if text = added_text then .ok (app_entries [db_entry, token_entry, defaults_entry])
    else if text = init_text then .ok (generated_document generated_config)
    else .error "expected a key"
  to_string layout _ := if layout = app_text then added_text else generated_text

theorem texts_differ : added_text ≠ app_text ∧ init_text ≠ app_text ∧ init_text ≠ added_text ∧
    extends_comment generated_config ≠ app_text := by
  decide +kernel

theorem parse_app : small_toml.parse app_text = .ok (app_entries [db_entry, defaults_entry]) := by
  simp only [small_toml, if_true]

theorem parse_added : small_toml.parse added_text = .ok (app_entries [db_entry, token_entry, defaults_entry]) := by
  simp only [small_toml, if_neg texts_differ.1, if_true]

theorem parse_init : small_toml.parse init_text = .ok (generated_document generated_config) := by
  simp only [small_toml, if_neg texts_differ.2.1, if_neg texts_differ.2.2.1, if_true]

/-- One file, with this text. -/
def one_file (text : String) : FileSystem Nat where
  canonicalize path := .ok path
  is_there _ := true
  parent path := path
  join _ _ := 0
  display path := s!"{path}"
  read_to_string _ := .ok text
  toml_from_str := toml_from_str small_serde small_toml
  canonical_self := ConfigGraphLoader.ok_self
  same_extends h _ := by cases h; exact ⟨rfl, rfl⟩

theorem one_file_reader (t : String) : (one_file t).toml_from_str = toml_from_str small_serde small_toml := by
  simp only [one_file]

def dev_defaults : ProfileDefaults := ⟨none, none, some "dev", none⟩

def dev_entry : Profile := ⟨some dev_defaults, AList.insert "DB" (only_described "the database") ∅⟩

def dev_config : Config where
  project := ⟨"app", "1.0", none, none⟩
  profiles := AList.insert "default" dev_entry ∅
  defaults := none
  providers := none
  groups := none
  scopes := none

/-- What the validators say of these names and texts. -/
theorem dev_checks : (dev_config.validate_and_compile ascii).toOption.isSome ∧ validate_secret_name ascii "TOKEN" = .ok () ∧
    trimmed " the token" = "the token" ∧ is_blank "the token" = false ∧
    ascii.to_lowercase "DB" ≠ ascii.to_lowercase "TOKEN" ∧ is_valid_identifier ascii "DB" := by
  decide +kernel

theorem dev_accepted : dev_config.validate_and_compile ascii = .ok (.compile dev_config) := by
  obtain ⟨s, hs⟩ := Except.ok_of_isSome dev_checks.1
  rw [hs, (validated hs).compiled]

def dev_app : Secrets ascii where
  manifest := ⟨.compile dev_config, dev_config, dev_accepted⟩
  profile := none
  ignore_ambient_profile := false
  ambient := ⟨none, none, none⟩

theorem load_dev : ConfigGraphLoader.load (one_file app_text) 1 0 = .ok dev_config := by
  have hr : Config.read small_serde (app_entries [db_entry, defaults_entry]) = some dev_config := rfl
  have hp : ConfigGraphLoader.parse_document (one_file app_text) app_text = .ok dev_config := by
    refine parse_document_ok.mpr ⟨?_, rfl⟩
    rw [one_file_reader]
    exact (toml_from_str_ok parse_app).mpr hr
  exact load_root (show (one_file app_text).canonicalize 0 = .ok 0 from rfl) rfl hp rfl 0

theorem edited_dev : insert_declaration (app_entries [db_entry, defaults_entry]) "default" "TOKEN"
    [("description", .Text "the token")] = .ok (app_entries [db_entry, token_entry, defaults_entry]) :=
  rfl

theorem add_dev : add dev_app dev_config small_toml app_text none "TOKEN" " the token" = .ok added_text := by
  obtain ⟨-, hn, hd, hb, -⟩ := dev_checks
  have ht : validate_add_target dev_app dev_config "default" "TOKEN" = .ok () := rfl
  have hp : dev_app.resolve_profile_name none = "default" := rfl
  have hpn : small_toml.to_string app_text (app_entries [db_entry, token_entry, defaults_entry]) = added_text := by
    simp only [small_toml, if_true]
  simp only [add, add_description, insert, hp, ht, hd, hn, hb, parse_app, edited_dev, hpn,
    refuse, Except.mapError, bind, Except.bind]
  rfl

theorem case_apart_dev : CaseApart ascii dev_config "default" "TOKEN" := by
  intro entry he o ho
  obtain rfl : dev_entry = entry := Option.some.inj he
  obtain rfl : o = "DB" := List.mem_singleton.mp ho
  exact dev_checks.2.2.2.2.1

theorem reflectable_db : Reflectable ascii reflected_db := by
  have hk : ∀ n ∈ reflected_db, n = "DB" := fun n hn => List.mem_singleton.mp (AList.mem_keys.mp hn)
  refine ⟨⟨"DB", AList.mem_keys.mpr (List.mem_singleton.mpr rfl), dev_checks.2.2.2.2.2⟩, fun n secret hs hv => ?_, ?_, ?_⟩
  · obtain rfl := hk n (AList.lookup_isSome.mp (by rw [hs]; rfl))
    obtain rfl : reflected_secret "DB secret" true none = secret := Option.some.inj hs
    exact .built "DB secret" true none (by decide) nofun
  · rintro n hn -
    rw [hk n hn]
    decide
  · intro a ha b hb _
    rw [hk a (AList.mem_keys.mpr (List.mem_filter.mp ha).1), hk b (AList.mem_keys.mpr (List.mem_filter.mp hb).1)]

theorem init_db : init ascii small_toml "app" "default" reflected_db = .ok init_text := by
  have hp : ∀ d, small_toml.to_string (extends_comment generated_config) d = generated_text := by
    intro d
    simp only [small_toml, if_neg texts_differ.2.2.2]
  show Except.ok ("#:schema https://ifiokjr.github.io/monosecret/schema/monosecret.schema.json\n\n" ++
    small_toml.to_string (extends_comment generated_config) (generated_document generated_config) ++ get_example_toml) = _
  rw [hp]
  rfl

theorem written_manifests_load_dev :
    (∃ after, ConfigGraphLoader.load (FileSystem.write (one_file app_text) 0 added_text) 1 0 = .ok after ∧
      after.validate_and_compile ascii = .ok (.compile after) ∧
      ((CompiledSpec.compile after).profile "default").bind (·.get "TOKEN") =
        some (compile_secret (supplied dev_config dev_entry (trimmed " the token")))) ∧
    ∃ config, ConfigGraphLoader.load (FileSystem.write (one_file app_text) 0 init_text) 2 0 = .ok config ∧
      (((CompiledSpec.compile config).profile "default").bind (·.get "DB")).isSome = true := by
  obtain ⟨ha, hi⟩ := written_manifests_load ascii small_serde small_toml (one_file app_text) (one_file_reader app_text) 0 0 rfl 1
  have hp : ∀ d edited, small_toml.parse app_text = .ok d →
      insert_declaration d "default" "TOKEN" [("description", .Text (trimmed " the token"))] = .ok edited →
        small_toml.parse (small_toml.to_string app_text edited) = .ok edited := by
    intro d edited hs hn
    obtain rfl := Except.ok.inj (parse_app.symm.trans hs)
    rw [dev_checks.2.2.1, edited_dev] at hn
    cases hn
    rw [show small_toml.to_string app_text (app_entries [db_entry, token_entry, defaults_entry]) = added_text by
      simp only [small_toml, if_true]]
    exact parse_added
  constructor
  · obtain ⟨after, entry, hl, hc, -, -, -, he, hsc⟩ :=
      ha dev_app dev_config app_text none "TOKEN" " the token" added_text load_dev dev_accepted rfl add_dev hp
        case_apart_dev nofun
    obtain rfl : dev_entry = entry := Option.some.inj he
    exact ⟨after, hl, hc, hsc⟩
  · obtain ⟨config, hl, -, hd⟩ := hi "app" "default" reflected_db init_text init_db parse_init reflectable_db
    exact ⟨config, hl, (hd "default" "DB").mpr ⟨rfl, AList.mem_keys.mpr (List.mem_singleton.mpr rfl), dev_checks.2.2.2.2.2⟩⟩

/-- The new secret of an accepted `add` has a default value, from the profile's `[defaults]`. -/
theorem default_supplied :
    ConfigGraphLoader.load (one_file app_text) 1 0 = .ok dev_config ∧
    add dev_app dev_config small_toml app_text none "TOKEN" " the token" = .ok added_text ∧
    ∃ after secret, ConfigGraphLoader.load (FileSystem.write (one_file app_text) 0 added_text) 1 0 = .ok after ∧
      ((CompiledSpec.compile after).profile "default").bind (·.get "TOKEN") = some secret ∧
      secret.config.default = some "dev" := by
  let entry : Profile := ⟨some dev_defaults,
    AList.insert "DB" (only_described "the database") (AList.insert "TOKEN" (only_described "the token") ∅)⟩
  let after : Config := { dev_config with profiles := AList.insert "default" entry ∅ }
  have hr : Config.read small_serde (app_entries [db_entry, token_entry, defaults_entry]) = some after := rfl
  have hp : ConfigGraphLoader.parse_document (FileSystem.write (one_file app_text) 0 added_text) added_text = .ok after := by
    refine parse_document_ok.mpr ⟨?_, rfl⟩
    rw [written_reader, one_file_reader]
    exact (toml_from_str_ok parse_added).mpr hr
  refine ⟨load_dev, add_dev, after, compile_secret (supplied dev_config dev_entry "the token"), ?_, rfl, rfl⟩
  exact load_root (show (FileSystem.write (one_file app_text) 0 added_text).canonicalize 0 = .ok 0 from rfl)
    (read_written (one_file app_text) 0 added_text) hp rfl 0

end Monosecret.Manifest.SpecEdit
