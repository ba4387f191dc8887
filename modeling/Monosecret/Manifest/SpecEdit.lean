/-
  Monosecret.Manifest.SpecEdit — a declaration added to the text of a manifest
  (`validate_secret_name`, `add_description` and `insert` in `monosecret/src/spec_edit.rs`;
  `validate_add_target` and `Commands::Add` in `monosecret/src/cli/mod.rs`).

  The edit is made in the root document, and the name is looked for in everything the root
  extends. What was read before reads on: the edited document says what it said, and one
  declaration more (`read_inserted`), and so does the merge with the documents it extends
  (`load_written`).
-/

import Monosecret.Manifest.Selection
import Monosecret.Manifest.Toml

namespace Monosecret.Manifest.SpecEdit

open Lib
open Lib.Except (bind_ok bind_unit_ok rest_ok)

/-- Reject names that cannot occupy a flattened secret key in a profile. -/
def validate_secret_name (rules : Rules) (name : String) : Except String Unit := do
  refuse (!is_valid_identifier rules name)
    s!"Invalid secret name '{name}': must be a valid identifier (alphanumeric and underscores, not starting with a number)"
  refuse (name == "defaults") "Secret name 'defaults' is reserved for profile defaults"

/-- A profile that has no table gets an empty one. -/
def with_profile (profile : String) (profiles : List (String × Toml)) : List (String × Toml) :=
  if (profiles.lookup profile).isSome then profiles else insert_entry profile (.Table []) profiles

/-- The edit of a document. -/
def insert_declaration (document : List (String × Toml)) (profile name : String) (declaration : List (String × Toml)) :
    Except String (List (String × Toml)) :=
  match document.lookup "profiles" with
  | some (.Table profiles) =>
    let profiles := with_profile profile profiles
    match profiles.lookup profile with
    | some (.Table table) =>
      if (table.lookup name).isSome then .error s!"Secret '{name}' is already declared in profile '{profile}'"
      else
        let table := insert_entry name (.Table declaration) table
        .ok (replace_entry "profiles" (.Table (replace_entry profile (.Table table) profiles)) document)
    | _ => .error s!"Profile '{profile}' is not a TOML table"
  | _ => .error "monosecret.toml does not contain a [profiles] table"

def insert (rules : Rules) (toml : TomlEdit) (source profile name : String) (declaration : List (String × Toml)) :
    Except String String := do
  validate_secret_name rules name
  let document ← (toml.parse source).mapError fun _ => "Failed to parse monosecret.toml for editing"
  let edited ← insert_declaration document profile name declaration
  .ok (toml.to_string source edited)

/-- The description-only declaration used by `monosecret add`. -/
def add_description (rules : Rules) (toml : TomlEdit) (source profile name description : String) : Except String String := do
  validate_secret_name rules name
  refuse (is_blank description) "Secret description cannot be empty"
  insert rules toml source profile name [("description", .Text description)]

section

variable {rules : Rules} (app : Secrets rules) (config : Config)

/-- `add` will create a new effective declaration in an existing profile. -/
def validate_add_target (profile name : String) : Except String Unit := do
  validate_secret_name rules name
  let available := ", ".intercalate (sorted config.profiles.keys)
  refuse (config.profiles.lookup profile).isNone
    s!"Profile '{profile}' is not defined in monosecret.toml. Available profiles: {available}"
  refuse (app.resolve_secret_config name (some profile)).isSome
    s!"Secret '{name}' is already declared for profile '{profile}'"

/-- `Commands::Add`: the text it writes for the source it read. -/
def add (toml : TomlEdit) (source : String) (profile : Option String) (name description : String) : Except String String := do
  let profile := app.resolve_profile_name profile
  validate_add_target app config profile name
  let description := trimmed description
  refuse (description == "") "Secret description cannot be empty"
  add_description rules toml source profile name description

end

/-! ## What was accepted -/

theorem valid_secret_name {rules : Rules} {name : String} (h : validate_secret_name rules name = .ok ()) :
    is_valid_identifier rules name ∧ name ≠ "defaults" := by
  obtain ⟨hv, h⟩ := Except.bind_unit_eq_ok.mp h
  have hv := refuse_ok hv
  have hr := refuse_ok h
  exact ⟨by simpa using hv, by simpa using hr⟩

/-- What `add` has checked and done when it has a text. -/
structure AddAccepted (rules : Rules) (config : Config) (spec : CompiledSpec) (toml : TomlEdit)
    (source profile name description updated : String) : Prop where
  valid : is_valid_identifier rules name = true
  named : name ≠ "defaults"
  profile_there : (config.profiles.lookup profile).isSome = true
  undeclared : (spec.profile profile).bind (·.get name) = none
  described : description ≠ ""
  edited : ∃ document edited, toml.parse source = .ok document ∧
    insert_declaration document profile name [("description", .Text description)] = .ok edited ∧
      updated = toml.to_string source edited

theorem add_accepted {rules : Rules} {app : Secrets rules} {config : Config} {t : TomlEdit} {s : String}
    {profile : Option String} {name d updated : String} (h : add app config t s profile name d = .ok updated) :
    AddAccepted rules config app.manifest.spec t s (app.resolve_profile_name profile) name (trimmed d) updated := by
  obtain ⟨ht, h⟩ := bind_unit_ok h
  obtain ⟨hd, h⟩ := bind_unit_ok h
  obtain ⟨hn, ht⟩ := bind_unit_ok ht
  obtain ⟨hth, hu⟩ := Except.bind_unit_eq_ok.mp ht
  replace h := rest_ok h
  replace h := rest_ok h
  replace h := rest_ok h
  obtain ⟨dc, hp, h⟩ := bind_ok h
  obtain ⟨edited, hi, h⟩ := bind_ok h
  obtain ⟨hv, hm⟩ := valid_secret_name hn
  have hth := refuse_ok hth
  have hu := refuse_ok hu
  have hd := refuse_ok hd
  refine ⟨hv, hm, ?_, ?_, by simpa using hd, dc, edited, Except.mapError_ok.mp hp, hi, ?_⟩
  · simpa using hth
  · rw [Option.isSome_eq_false_iff, Option.isNone_iff_eq_none] at hu
    rw [Option.bind_eq_none_iff]
    intro c hc
    cases hg : c.get name with
    | none => rfl
    | some secret =>
      have hs : app.resolve_profile_name (some (app.resolve_profile_name profile)) = app.resolve_profile_name profile := rfl
      unfold Secrets.resolve_secret_config at hu
      simp [hs, hc, hg] at hu
  · exact (Except.ok.inj h).symm

/-! ## The edited document -/

/-- A secret with a description and nothing else. -/
def only_described (description : String) : Secret := { Secret.empty with description := some description }

/-- One configuration says what another does, and declares one more secret in a profile. -/
structure Declares (config after : Config) (profile name : String) (secret : Secret) : Prop where
  project : after.project = config.project
  defaults : after.defaults = config.defaults
  providers : after.providers = config.providers
  groups : after.groups = config.groups
  scopes : after.scopes = config.scopes
  others : ∀ other, other ≠ profile → after.profiles.lookup other = config.profiles.lookup other
  target : ∃ target, after.profiles.lookup profile = some target ∧
    target.defaults = (config.profiles.lookup profile).bind Profile.defaults ∧
      ∀ other, target.secrets.lookup other =
        if other = name then some secret else (config.profiles.lookup profile).bind fun before => before.secrets.lookup other

section

variable {sr : Deserializer}

theorem read_description (description : String) :
    Secret.read sr (.Table [("description", .Text description)]) = some (only_described description) :=
  sr.no_fields (only_described description)

variable {table : List (String × Toml)} {name : String} {value : Toml} {secret : Secret}

theorem read_profile_inserted {before : Profile} (h : Profile.read sr (.Table table) = some before)
    (hn : name ≠ "defaults") (hv : Secret.read sr value = some secret) :
    ∃ after, Profile.read sr (.Table (insert_entry name value table)) = some after ∧ after.defaults = before.defaults ∧
      ∀ other, after.secrets.lookup other = if other = name then some secret else before.secrets.lookup other := by
  obtain ⟨defaults, hd, h⟩ := Option.bind_eq_some_iff.mp h
  obtain ⟨secrets, hs, h⟩ := Option.bind_eq_some_iff.mp h
  cases h
  have ha : ∀ entry ∈ others ["defaults"] (insert_entry name value table), (Secret.read sr entry.2).isSome := by
    intro entry he
    obtain ⟨he, hk⟩ := List.mem_filter.mp he
    rcases mem_insert_entry he with rfl | he
    · exact Option.isSome_iff_exists.mpr ⟨_, hv⟩
    · exact read_entries_mem hs entry (List.mem_filter.mpr ⟨he, hk⟩)
  obtain ⟨inserted, hi⟩ := read_entries_some ha
  refine ⟨⟨defaults, inserted⟩, ?_, rfl, ?_⟩
  · have hk : (insert_entry name value table).lookup "defaults" = table.lookup "defaults" := by
      rw [lookup_insert_entry, if_neg (Ne.symm hn)]
    simp [Profile.read, hk, hd, hi]
  · intro other
    rw [read_entries_lookup hi, read_entries_lookup hs]
    by_cases ho : other = "defaults"
    · rw [lookup_others_of_mem (by simp [ho]), lookup_others_of_mem (by simp [ho]), if_neg (ho ▸ Ne.symm hn)]
    · rw [lookup_others (by simpa using ho), lookup_others (by simpa using ho), lookup_insert_entry]
      split_ifs
      · exact hv
      · rfl

variable {entries : List (String × Toml)} {profile : String}

/-- The table a declaration goes into has what the profile says. -/
theorem read_with_profile {p : Table Profile} (h : read_entries (Profile.read sr) entries = some p)
    (ht : (with_profile profile entries).lookup profile = some (.Table table)) :
    ∃ before, Profile.read sr (.Table table) = some before ∧
      before.defaults = (p.lookup profile).bind Profile.defaults ∧
      ∀ other, before.secrets.lookup other = (p.lookup profile).bind fun before => before.secrets.lookup other := by
  have hl := read_entries_lookup h profile
  unfold with_profile at ht
  cases hth : entries.lookup profile with
  | some value =>
    rw [hth, Option.isSome_some, if_pos rfl, hth] at ht
    cases ht
    obtain ⟨before, hb⟩ := Option.isSome_iff_exists.mp (read_entries_mem h _ (mem_of_lookup hth))
    rw [hth, Option.bind_some, hb] at hl
    exact ⟨before, hb, by rw [hl]; rfl, fun other => by rw [hl]; rfl⟩
  | none =>
    rw [hth, Option.isSome_none, if_neg Bool.false_ne_true, lookup_insert_entry, if_pos rfl] at ht
    obtain rfl := Toml.Table.inj (Option.some.inj ht)
    rw [hth] at hl
    exact ⟨⟨none, ∅⟩, rfl, by rw [hl]; rfl, fun other => by rw [hl]; rfl⟩

theorem mem_with_profile {e : String × Toml} (h : e ∈ with_profile profile entries) :
    e = (profile, .Table []) ∨ e ∈ entries := by
  unfold with_profile at h
  split_ifs at h
  · exact .inr h
  · exact mem_insert_entry h

theorem lookup_with_profile {other : String} (h : other ≠ profile) :
    (with_profile profile entries).lookup other = entries.lookup other := by
  unfold with_profile
  split_ifs
  · rfl
  · rw [lookup_insert_entry, if_neg h]

theorem read_inserted {document edited : List (String × Toml)} {root : Config}
    (h : Config.read sr document = some root) {declaration : List (String × Toml)} (hn : name ≠ "defaults")
    (hv : Secret.read sr (.Table declaration) = some secret)
    (he : insert_declaration document profile name declaration = .ok edited) :
    ∃ after, Config.read sr edited = some after ∧ Declares root after profile name secret := by
  obtain ⟨project, hp, h⟩ := Option.bind_eq_some_iff.mp h
  obtain ⟨entries, het, h⟩ := Option.bind_eq_some_iff.mp h
  obtain ⟨profiles, hr, h⟩ := Option.bind_eq_some_iff.mp h
  obtain ⟨tables, hb, h⟩ := Option.bind_eq_some_iff.mp h
  cases h
  obtain ⟨value, hd, hvalue_entries⟩ := Option.bind_eq_some_iff.mp het
  obtain rfl := Toml.as_entries_some hvalue_entries
  unfold insert_declaration at he
  rw [hd] at he
  obtain ⟨table, ht, rfl⟩ : ∃ table, (with_profile profile entries).lookup profile = some (.Table table) ∧
      edited = replace_entry "profiles"
        (.Table (replace_entry profile (.Table (insert_entry name (.Table declaration) table)) (with_profile profile entries)))
        document := by
    simp only at he
    generalize with_profile profile entries = opened at he ⊢
    split at he
    · rename_i table ht
      split_ifs at he
      exact ⟨table, ht, (Except.ok.inj he).symm⟩
    · cases he
  obtain ⟨before, hf, hdf, hs⟩ := read_with_profile hr ht
  obtain ⟨target, htr, htarget_defaults, htarget_secrets⟩ := read_profile_inserted hf hn hv
  have ha : ∀ entry ∈ replace_entry profile (.Table (insert_entry name (.Table declaration) table)) (with_profile profile entries),
      (Profile.read sr entry.2).isSome := by
    intro entry hen
    rcases mem_replace_entry hen with rfl | hen
    · exact Option.isSome_iff_exists.mpr ⟨_, htr⟩
    · rcases mem_with_profile hen with rfl | hen
      · rfl
      · exact read_entries_mem hr entry hen
  obtain ⟨after, haf⟩ := read_entries_some ha
  refine ⟨⟨project, after, tables.defaults, tables.providers, tables.groups, tables.scopes⟩, ?_, rfl, rfl, rfl, rfl, rfl, ?_, ?_⟩
  · have hproject_kept : (replace_entry "profiles" (.Table (replace_entry profile
        (.Table (insert_entry name (.Table declaration) table)) (with_profile profile entries))) document).lookup "project" =
        document.lookup "project" := by
      rw [lookup_replace_entry, if_neg (by decide)]
    have hprofiles_set : (replace_entry "profiles" (.Table (replace_entry profile
        (.Table (insert_entry name (.Table declaration) table)) (with_profile profile entries))) document).lookup "profiles" =
        some (.Table (replace_entry profile (.Table (insert_entry name (.Table declaration) table)) (with_profile profile entries))) := by
      rw [lookup_replace_entry, if_pos rfl, hd]
      rfl
    unfold Config.read
    rw [hproject_kept, hp, hprofiles_set, others_replace_entry (by decide), hb]
    simp [Toml.as_entries, haf]
  · intro other ho
    show after.lookup other = profiles.lookup other
    rw [read_entries_lookup haf, read_entries_lookup hr, lookup_replace_entry, if_neg ho, lookup_with_profile ho]
  · refine ⟨target, ?_, htarget_defaults.trans hdf, ?_⟩
    · show after.lookup profile = _
      rw [read_entries_lookup haf, lookup_replace_entry, if_pos rfl, ht]
      exact htr
    · intro other
      rw [htarget_secrets]
      split_ifs
      · rfl
      · exact hs other

end

/-! ## The merge -/

section

variable {config after : Config} {profile name : String} {secret : Secret}

/-- A document that declares one more secret adds it to what it is laid over. -/
theorem overlay_declares (h : Declares config after profile name secret) (e : Config) :
    Declares (e.overlay_with config) (e.overlay_with after) profile name secret := by
  have hl (later : Config) (other : String) : (e.overlay_with later).profiles.lookup other =
      overlay_option (e.profiles.lookup other) (later.profiles.lookup other) :=
    lookup_overlay_profiles e.profiles later.profiles other
  refine ⟨?_, ?_, ?_, ?_, ?_, ?_, ?_⟩
  · show ({ after.project with require_reason := after.project.require_reason.or _ } : Project) = _
    rw [h.project]
    rfl
  · show after.defaults.or _ = config.defaults.or _
    rw [h.defaults]
  · show extend_option _ after.providers = extend_option _ config.providers
    rw [h.providers]
  · show extend_option _ after.groups = extend_option _ config.groups
    rw [h.groups]
  · show extend_option _ after.scopes = extend_option _ config.scopes
    rw [h.scopes]
  · intro other ho
    rw [hl, hl, h.others other ho]
  obtain ⟨t, ht, hd, hs⟩ := h.target
  rw [hl, hl, ht]
  cases he : e.profiles.lookup profile with
  | none =>
    refine ⟨t, rfl, ?_, ?_⟩
    · rw [hd]
      cases config.profiles.lookup profile <;> rfl
    · intro other
      rw [hs]
      cases config.profiles.lookup profile <;> rfl
  | some first =>
    refine ⟨first.overlay_with t, rfl, ?_, ?_⟩
    · cases hr : config.profiles.lookup profile with
      | none =>
        rw [hr, Option.bind_none] at hd
        show (first.overlay_with t).defaults = first.defaults
        rw [Profile.overlay_with, hd]
      | some r =>
        rw [hr, Option.bind_some] at hd
        show (first.overlay_with t).defaults = (first.overlay_with r).defaults
        rw [Profile.overlay_with, Profile.overlay_with, hd]
    · intro other
      show (first.secrets.extend t.secrets).lookup other = _
      rw [lookup_extend, hs]
      by_cases ho : other = name
      · rw [if_pos ho, if_pos ho]
        rfl
      · rw [if_neg ho, if_neg ho]
        cases hr : config.profiles.lookup profile with
        | none => rfl
        | some r =>
          show _ = (first.secrets.extend r.secrets).lookup other
          rw [lookup_extend]
          rfl

end

/-! ## The file -/

section

open ConfigGraphLoader

variable {Path : Type} [DecidableEq Path]

/-- `write_manifest_atomically`. -/
def FileSystem.write (fs : FileSystem Path) (file : Path) (content : String) : FileSystem Path :=
  { fs with read_to_string := fun path => if path = file then .ok content else fs.read_to_string path }

variable {fs : FileSystem Path} {file : Path}

abbrev Visit (Path : Type) : Type := Path → ConfigGraphLoader Path → Except LoadStop (ConfigGraphLoader Path)

omit [DecidableEq Path] in
theorem extends_active {v : Visit Path}
    (hv : ∀ p l next, v p l = .ok next → next.active = l.active) {b : Path}
    {entries : List String} {l next : ConfigGraphLoader Path}
    (h : entries.foldlM (visit_extend fs v b) l = .ok next) : next.active = l.active := by
  induction entries generalizing l with
  | nil =>
    cases h
    rfl
  | cons e entries ih =>
    rw [List.foldlM_cons] at h
    obtain ⟨m, ho, h⟩ := bind_ok h
    unfold visit_extend at ho
    split_ifs at ho
    exact (ih h).trans (hv _ _ _ ho)

/-- A visit ends inside the files it began in. -/
theorem visit_active {f : Nat} {p : Path} {l next : ConfigGraphLoader Path}
    (h : ConfigGraphLoader.visit fs f p l = .ok next) : next.active = l.active := by
  induction f generalizing p l next with
  | zero => cases h
  | succ f ih =>
    unfold ConfigGraphLoader.visit at h
    cases hc : fs.canonicalize p with
    | error e =>
      rw [hc] at h
      cases h
    | ok c =>
      simp only [hc] at h
      split_ifs at h
      · cases h
        rfl
      cases hr : fs.read_to_string c with
      | error e =>
        rw [hr] at h
        cases h
      | ok cn =>
        simp only [hr] at h
        cases hp : parse_document fs cn with
        | error e =>
          rw [hp] at h
          cases h
        | ok config =>
          simp only [hp] at h
          obtain ⟨i, hi, h⟩ := bind_ok h
          cases h
          rw [extends_active (fun _ _ _ => ih) hi, List.erase_cons_head]

variable (fs) in
theorem extends_written (c : String) (visit v' : Visit Path)
    (ha : ∀ p loader next, visit p loader = .ok next → next.active = loader.active)
    (hv : ∀ p loader, file ∈ loader.active → v' p loader = visit p loader) (base_dir : Path)
    (entries : List String) (loader : ConfigGraphLoader Path) (h : file ∈ loader.active) :
    entries.foldlM (visit_extend (FileSystem.write fs file c) v' base_dir) loader =
      entries.foldlM (visit_extend fs visit base_dir) loader := by
  induction entries generalizing loader with
  | nil => rfl
  | cons extend_path entries ih =>
    have ho : visit_extend (FileSystem.write fs file c) v' base_dir loader extend_path =
        visit_extend fs visit base_dir loader extend_path := by
      show (if fs.is_there (full_path fs.join base_dir extend_path) then _ else _) = _
      rw [hv _ _ h]
      rfl
    rw [List.foldlM_cons, List.foldlM_cons, ho]
    cases hn : visit_extend fs visit base_dir loader extend_path with
    | error s => rfl
    | ok next =>
      refine ih next ?_
      unfold visit_extend at hn
      split_ifs at hn
      rw [ha _ _ _ hn]
      exact h

/-- A file is not read again inside of itself. -/
theorem visit_written (c : String) {fuel : Nat} {path : Path} {loader : ConfigGraphLoader Path}
    (h : file ∈ loader.active) :
    ConfigGraphLoader.visit (FileSystem.write fs file c) fuel path loader = ConfigGraphLoader.visit fs fuel path loader := by
  induction fuel generalizing path loader with
  | zero => rfl
  | succ fuel ih =>
    unfold ConfigGraphLoader.visit
    rw [show (FileSystem.write fs file c).canonicalize path = fs.canonicalize path from rfl]
    cases hc : fs.canonicalize path with
    | error e => rfl
    | ok canonical_path =>
      simp only
      by_cases he : canonical_path ∈ loader.emitted
      · rw [if_pos he, if_pos he]
      rw [if_neg he, if_neg he]
      by_cases ha : canonical_path ∈ loader.active
      · rw [if_pos ha, if_pos ha]
        rfl
      rw [if_neg ha, if_neg ha]
      have ho : canonical_path ≠ file := by
        rintro rfl
        exact ha h
      have hr : (FileSystem.write fs file c).read_to_string canonical_path = fs.read_to_string canonical_path :=
        if_neg ho
      rw [hr]
      cases fs.read_to_string canonical_path with
      | error e => rfl
      | ok t =>
        simp only
        rw [show parse_document (FileSystem.write fs file c) t = parse_document fs t from rfl]
        cases parse_document fs t with
        | error e => rfl
        | ok config =>
          simp only
          have hi := extends_written fs c (ConfigGraphLoader.visit fs fuel)
            (ConfigGraphLoader.visit (FileSystem.write fs file c) fuel) (fun _ _ _ => visit_active) (fun _ _ => ih)
            (fs.parent path) (config.project.extends_.getD []) { loader with active := canonical_path :: loader.active }
            (.tail _ h)
          exact congrArg (· >>= _) hi

variable {config : Config}

omit [DecidableEq Path] in
theorem parse_document_ok {c : String} :
    parse_document fs c = .ok config ↔ fs.toml_from_str c = .ok config ∧ config.project.revision = "1.0" := by
  unfold parse_document
  constructor
  · intro h
    obtain ⟨read, hr, h⟩ := bind_ok h
    by_cases hv : read.project.revision = "1.0"
    · simp only [hv, ne_eq, not_true_eq_false, if_false] at h
      cases h
      exact ⟨hr, hv⟩
    · simp only [ne_eq, hv, not_false_eq_true, if_true] at h
      cases h
  · rintro ⟨hr, hv⟩
    rw [hr]
    show (if config.project.revision ≠ "1.0" then _ else _) = _
    simp [hv, pure, Except.pure]

theorem toml_from_str_ok {rules : Deserializer} {t : TomlEdit} {c : String} {d : List (String × Toml)}
    (hp : t.parse c = .ok d) :
    toml_from_str rules t c = .ok config ↔ Config.read rules d = some config := by
  unfold toml_from_str
  simp only [hp]
  cases hr : Config.read rules d with
  | none => exact iff_of_false nofun nofun
  | some read => exact ⟨fun h => congrArg some (Except.ok.inj h), fun h => congrArg Except.ok (Option.some.inj h)⟩

/-- The root declares one secret more, and so does everything it is laid over. -/
theorem load_written {rules : Deserializer} {t : TomlEdit} (hr : fs.toml_from_str = toml_from_str rules t)
    {p : Path} (hp : fs.canonicalize p = .ok file) {s content : String}
    (hs : fs.read_to_string file = .ok s) {d edited : List (String × Toml)}
    (hpr : t.parse s = .ok d) (he : t.parse content = .ok edited) {profile name : String}
    {secret : Secret} (hre : ∀ r, Config.read rules d = some r →
      ∃ after, Config.read rules edited = some after ∧ Declares r after profile name secret) {f : Nat}
    (hl : load fs f p = .ok config) :
    ∃ after, load (FileSystem.write fs file content) f p = .ok after ∧ Declares config after profile name secret := by
  obtain ⟨l, hv, hm⟩ := bind_ok hl
  cases f with
  | zero => cases hv
  | succ f =>
    unfold ConfigGraphLoader.visit at hv
    simp only [hp, hs] at hv
    rw [if_neg (show file ∉ empty.emitted from List.not_mem_nil), if_neg (show file ∉ empty.active from List.not_mem_nil)] at hv
    cases ht : parse_document fs s with
    | error e =>
      rw [ht] at hv
      cases hv
    | ok r =>
      rw [ht] at hv
      obtain ⟨inner, hi, hv⟩ := bind_ok hv
      cases hv
      obtain ⟨ht, hrv⟩ := parse_document_ok.mp ht
      rw [hr, toml_from_str_ok hpr] at ht
      obtain ⟨after, ha, hd⟩ := hre r ht
      have hdm : parse_document (FileSystem.write fs file content) content = .ok after := by
        refine parse_document_ok.mpr ⟨?_, by rw [hd.project]; exact hrv⟩
        show fs.toml_from_str content = .ok after
        rw [hr]
        exact (toml_from_str_ok he).mpr ha
      have hn := extends_written fs content (ConfigGraphLoader.visit fs f)
        (ConfigGraphLoader.visit (FileSystem.write fs file content) f) (fun _ _ _ => visit_active)
        (fun _ _ => visit_written content) (fs.parent p) (r.project.extends_.getD [])
        { (empty : ConfigGraphLoader Path) with active := [file] } List.mem_cons_self
      have het : visit_extends (FileSystem.write fs file content)
          (ConfigGraphLoader.visit (FileSystem.write fs file content) f) after (fs.parent p)
          { (empty : ConfigGraphLoader Path) with active := [file] } = .ok inner := by
        rw [visit_extends, hd.project]
        exact hn.trans hi
      have hv : ConfigGraphLoader.visit (FileSystem.write fs file content) (f + 1) p empty =
          .ok ⟨inner.active.erase file, inner.emitted ++ [file], inner.documents ++ [after]⟩ := by
        have hw : (FileSystem.write fs file content).read_to_string file = .ok content := if_pos rfl
        have hrs : (FileSystem.write fs file content).canonicalize p = .ok file := hp
        unfold ConfigGraphLoader.visit
        simp only [hrs, hw, hdm]
        rw [if_neg (show file ∉ empty.emitted from List.not_mem_nil), if_neg (show file ∉ empty.active from List.not_mem_nil)]
        exact congrArg (· >>= _) het
      simp only [merge_snoc] at hm
      cases hm
      simp only [load, hv, bind, Except.bind, merge_snoc, pure, Except.pure]
      cases merge inner.documents with
      | none => exact ⟨after, rfl, hd⟩
      | some merged => exact ⟨merged.overlay_with after, rfl, overlay_declares hd merged⟩

end

end Monosecret.Manifest.SpecEdit
