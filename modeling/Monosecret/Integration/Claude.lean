/-
  Monosecret.Integration.Claude — the API credential that Claude Code reads through Monosecret
  (`monosecret/src/cli/claude.rs`).

  As in `Monosecret.Integration.Docker`, a command is one call in any `World`. An entry has an
  identifier, drawn when its settings file is configured first and kept from then on; reading
  an identifier is the parser of the `uuid` crate, a parameter. The output is left out.

  (1) A written state is read back, and accepted when it is `Good` (`accepted_iff`).
  (2) `configure` replaces the entry of its settings file or adds it. With a fresh identifier,
      the state it writes is accepted exactly when the options are `sound` (`configured_iff`):
      what it does not check is a typed provider, and the profile of a custom manifest.
  (3) `unconfigure` only marks an entry (`unconfigure_accepted`).
-/

import Monosecret.Integration.State

namespace Monosecret.Integration.Claude

open Lib Manifest Rpc
open Lib.Except (bind_ok bind_unit_ok rest_ok)

/-! ## The state file -/

def STATE_VERSION : Nat := 1
def DEFAULT_REASON : String := "Claude Code model authentication"

inductive CredentialSource where
  | Embedded
  | Manifest (manifest profile token_secret : String)
  deriving DecidableEq

structure ManagedSetting where
  id : String
  settings : String
  helper : String
  provider : Option String
  reason : String
  resource : String
  source : CredentialSource
  configured : Bool
  deriving DecidableEq

structure ManagedState where
  version : Nat
  settings : List ManagedSetting

def ManagedState.default : ManagedState := ⟨STATE_VERSION, []⟩

def CredentialSource.to_value : CredentialSource → Json
  | .Embedded => .obj [("kind", .str "embedded")]
  | .Manifest manifest profile token_secret =>
    .obj [("kind", .str "manifest"), ("manifest", .str manifest), ("profile", .str profile), ("token_secret", .str token_secret)]

def ManagedSetting.to_value (setting : ManagedSetting) : Json :=
  .obj [("configured", .bool setting.configured), ("helper", .str setting.helper), ("id", .str setting.id),
        ("provider", nullable_text setting.provider), ("reason", .str setting.reason), ("resource", .str setting.resource),
        ("settings", .str setting.settings), ("source", setting.source.to_value)]

def ManagedState.to_value (state : ManagedState) : Json :=
  .obj [("settings", .arr (state.settings.map ManagedSetting.to_value)), ("version", .int state.version)]

def CredentialSource.from_value (value : Json) : Option CredentialSource := do
  let kind ← (value.get "kind").bind string
  if kind = "embedded" then
    match state_fields ["kind"] value with
    | some [_] => some .Embedded
    | _ => none
  else if kind = "manifest" then
    match state_fields ["kind", "manifest", "profile", "token_secret"] value with
    | some [_, manifest, profile, token_secret] => do
      let manifest ← manifest.bind string
      let profile ← profile.bind string
      let token_secret ← token_secret.bind string
      some (.Manifest manifest profile token_secret)
    | _ => none
  else none

def ManagedSetting.from_value (value : Json) : Option ManagedSetting :=
  match state_fields ["configured", "helper", "id", "provider", "reason", "resource", "settings", "source"] value with
  | some [configured, helper, id, provider, reason, resource, settings, source] => do
    let configured ← configured.bind boolean
    let helper ← helper.bind string
    let id ← id.bind string
    let provider ← optional_text provider
    let reason ← reason.bind string
    let resource ← resource.bind string
    let settings ← settings.bind string
    let source ← source.bind CredentialSource.from_value
    some { id, settings, helper, provider, reason, resource, source, configured }
  | _ => none

def ManagedState.from_value (value : Json) : Option ManagedState :=
  match state_fields ["settings", "version"] value with
  | some [settings, version] => do
    let settings ← settings.bind (list ManagedSetting.from_value)
    let version ← version.bind fun value => (u64 value).filter (· < 2 ^ 8)
    some { version, settings }
  | _ => none

theorem CredentialSource.read_back (source : CredentialSource) : from_value source.to_value = some source := by
  cases source <;> rfl

theorem ManagedSetting.read_back (setting : ManagedSetting) : from_value setting.to_value = some setting := by
  have hf := state_fields_written ["configured", "helper", "id", "provider", "reason", "resource", "settings", "source"]
    [.bool setting.configured, .str setting.helper, .str setting.id, nullable_text setting.provider, .str setting.reason,
     .str setting.resource, .str setting.settings, setting.source.to_value] (by decide) rfl
  simp only [List.zip_cons_cons, List.zip_nil_right, List.map_cons, List.map_nil] at hf
  rw [to_value, from_value, hf]
  simp [string, boolean, CredentialSource.read_back setting.source]

theorem ManagedState.read_back {state : ManagedState} (h : state.version < 2 ^ 8) :
    from_value state.to_value = some state := by
  have hf := state_fields_written ["settings", "version"]
    [.arr (state.settings.map ManagedSetting.to_value), .int state.version] (by decide) rfl
  simp only [List.zip_cons_cons, List.zip_nil_right, List.map_cons, List.map_nil] at hf
  rw [to_value, from_value, hf]
  simp only [Option.bind_some, Option.bind_eq_bind, list_map ManagedSetting.read_back, u8_read_back h]

/-! ## Loading it -/

def helper_command (id : String) : String := s!"monosecret claude credential --configuration {id}"

def valid_resource (resource : String) : Bool := !is_blank resource && !has_control resource

def validate_resource (resource : String) : Except String Unit :=
  if valid_resource resource then .ok ()
  else .error "Claude Code audit resource cannot be empty or contain control characters"

def valid_provider (provider : String) : Bool := !is_blank provider && !has_control provider

def valid_source : CredentialSource → Bool
  | .Embedded => true
  | .Manifest manifest profile token_secret => is_absolute manifest && !is_blank profile && !is_blank token_secret

section

variable (parse_uuid : String → Bool) (path : String)

/-- One entry, after those with these identifiers and settings files. -/
def check_setting (ids paths : List String) (setting : ManagedSetting) : Except String Unit := do
  refuse (!parse_uuid setting.id) s!"Invalid Claude Code configuration identifier in {path}"
  refuse (ids.contains setting.id || paths.contains setting.settings) s!"Duplicate Claude Code integration entry in {path}"
  refuse (setting.helper != helper_command setting.id) s!"Invalid Claude Code helper command in {path}"
  refuse (!is_absolute setting.settings) s!"Claude Code settings path in {path} must be absolute"
  validate_resource setting.resource
  refuse (is_blank setting.reason) s!"Invalid empty Claude Code access reason in {path}"
  refuse (setting.provider.any fun provider => !valid_provider provider) s!"Invalid Claude Code provider in {path}"
  refuse (!valid_source setting.source) s!"Invalid Claude Code manifest credential source in {path}"

def check_settings (ids paths : List String) : List ManagedSetting → Except String Unit
  | [] => .ok ()
  | setting :: settings => do
    check_setting parse_uuid path ids paths setting
    check_settings (setting.id :: ids) (setting.settings :: paths) settings

def parse_state (file : Option Json) : Except String ManagedState :=
  match file with
  | none => .ok .default
  | some value =>
    match ManagedState.from_value value with
    | none => .error s!"Failed to parse {path}"
    | some state => do
      if state.version ≠ STATE_VERSION then
        throw s!"Unsupported Claude Code integration state version {state.version} in {path}"
      check_settings parse_uuid path [] [] state.settings
      return state

/-- An entry that is accepted on its own. -/
structure Valid (setting : ManagedSetting) : Prop where
  id : parse_uuid setting.id = true
  helper : setting.helper = helper_command setting.id
  settings : is_absolute setting.settings = true
  resource : valid_resource setting.resource = true
  reason : is_blank setting.reason = false
  provider : ∀ provider, setting.provider = some provider → valid_provider provider = true
  source : valid_source setting.source = true

structure Good (state : ManagedState) : Prop where
  version : state.version = STATE_VERSION
  valid : ∀ setting ∈ state.settings, Valid parse_uuid setting
  ids : (state.settings.map ManagedSetting.id).Nodup
  paths : (state.settings.map ManagedSetting.settings).Nodup

variable {parse_uuid path}

theorem validate_resource_iff {resource : String} : validate_resource resource = .ok () ↔ valid_resource resource := by
  unfold validate_resource
  split
  · exact iff_of_true rfl ‹_›
  · exact iff_of_false nofun ‹_›

theorem check_setting_iff {i paths : List String} {setting : ManagedSetting} :
    check_setting parse_uuid path i paths setting = .ok () ↔
      Valid parse_uuid setting ∧ setting.id ∉ i ∧ setting.settings ∉ paths := by
  have hp : (setting.provider.any fun provider => !valid_provider provider) = false ↔
      ∀ provider, setting.provider = some provider → valid_provider provider := by
    cases setting.provider <;> simp
  simp only [check_setting, Except.bind_unit_eq_ok, refuse_eq_ok, validate_resource_iff, hp, Bool.not_eq_false',
    Bool.or_eq_false_iff, bne_eq_false_iff_eq, List.contains_eq_mem, decide_eq_false_iff_not]
  constructor
  · rintro ⟨hd, ⟨hi, ht⟩, hl, hs, hr, hn, hp, hsr⟩
    exact ⟨⟨hd, hl, hs, hr, hn, hp, hsr⟩, hi, ht⟩
  · rintro ⟨h, hi, ht⟩
    exact ⟨h.id, ⟨hi, ht⟩, h.helper, h.settings, h.resource, h.reason, h.provider, h.source⟩

theorem check_settings_iff {i p : List String} {s : List ManagedSetting} :
    check_settings parse_uuid path i p s = .ok () ↔
      (∀ setting ∈ s, Valid parse_uuid setting) ∧
        ((s.map ManagedSetting.id).Nodup ∧ ∀ setting ∈ s, setting.id ∉ i) ∧
        ((s.map ManagedSetting.settings).Nodup ∧ ∀ setting ∈ s, setting.settings ∉ p) := by
  induction s generalizing i p with
  | nil => simp [check_settings]
  | cons setting s ih =>
    rw [check_settings, Except.bind_unit_eq_ok, check_setting_iff, ih, distinct_cons, distinct_cons, List.forall_mem_cons]
    tauto

variable {state : ManagedState}

theorem checked_iff :
    state.version = STATE_VERSION ∧ check_settings parse_uuid path [] [] state.settings = .ok () ↔ Good parse_uuid state := by
  rw [check_settings_iff]
  exact ⟨fun h => ⟨h.1, h.2.1, h.2.2.1.1, h.2.2.2.1⟩, fun h => ⟨h.version, h.valid,
    ⟨h.ids, fun _ _ => List.not_mem_nil⟩, h.paths, fun _ _ => List.not_mem_nil⟩⟩

/-- What parsing yields is good. -/
theorem parse_state_good {file : Option Json} (h : parse_state parse_uuid path file = .ok state) :
    Good parse_uuid state := by
  cases file with
  | none =>
    cases h
    exact ⟨rfl, fun _ hm => absurd hm List.not_mem_nil, List.nodup_nil, List.nodup_nil⟩
  | some value =>
    rw [parse_state] at h
    cases hr : ManagedState.from_value value with
    | none => simp [hr] at h
    | some read =>
      simp only [hr] at h
      by_cases hv : read.version = STATE_VERSION
      · simp only [hv, ne_eq, not_true_eq_false, if_false] at h
        obtain ⟨hc, h⟩ := bind_unit_ok h
        cases h
        exact checked_iff.mp ⟨hv, hc⟩
      · rw [if_pos hv] at h
        cases h

/-- Where the file lies is only told in errors. -/
theorem parse_state_path {file : Option Json} (h : parse_state parse_uuid path file = .ok state) (other : String) :
    parse_state parse_uuid other file = .ok state := by
  have hg := (@checked_iff parse_uuid other state).mpr (parse_state_good h)
  cases file with
  | none => exact h
  | some value =>
    rw [parse_state] at h ⊢
    cases hr : ManagedState.from_value value with
    | none => simp [hr] at h
    | some read =>
      simp only [hr] at h ⊢
      by_cases hv : read.version = STATE_VERSION
      · simp only [hv, ne_eq, not_true_eq_false, if_false] at h ⊢
        replace h := rest_ok h
        obtain rfl := Except.ok.inj h
        exact (congrArg (· >>= fun _ => pure read) hg.2).trans rfl
      · rw [if_pos hv] at h
        cases h

/-- No command fails on the file. -/
def Accepted (parse_uuid : String → Bool) (file : Option Json) : Prop :=
  ∀ path, ∃ state, parse_state parse_uuid path file = .ok state

/-- A state of this version is accepted when it is good. -/
theorem accepted_iff (hv : state.version = STATE_VERSION) :
    Accepted parse_uuid (some state.to_value) ↔ Good parse_uuid state := by
  have hr : ManagedState.from_value state.to_value = some state := ManagedState.read_back (by rw [hv]; decide)
  have hp : ∀ path, (∃ p, parse_state parse_uuid path (some state.to_value) = .ok p) ↔ Good parse_uuid state := by
    intro path
    simp only [parse_state, hr, hv, ne_eq, not_true_eq_false, if_false]
    rw [← @checked_iff parse_uuid path]
    cases check_settings parse_uuid path [] [] state.settings with
    | ok => exact iff_of_true ⟨state, rfl⟩ ⟨hv, rfl⟩
    | error m => exact iff_of_false nofun fun h => nomatch h.2
  exact ⟨fun h => (hp "").mp (h ""), fun h path => (hp path).mpr h⟩

end

/-! ## The settings of Claude Code -/

def api_key_helper (settings : Json) (path : String) : Except String (Option String) :=
  match settings.get "apiKeyHelper" with
  | none => .ok none
  | some (.str helper) => .ok (some helper)
  | some _ => .error s!"Claude Code apiKeyHelper in {path} must be a string"

def set_api_key_helper (settings : Json) (helper path : String) : Except String Json :=
  match settings with
  | .obj members => .ok (.obj (Audit.insert "apiKeyHelper" (.str helper) members))
  | _ => .error s!"Claude Code settings in {path} must be an object"

def remove_api_key_helper (settings : Json) (path : String) : Except String Json :=
  match settings with
  | .obj members => .ok (.obj (Audit.remove "apiKeyHelper" members))
  | _ => .error s!"Claude Code settings in {path} must be an object"

/-! ## The commands -/

abbrev Uuid := BitVec 128

/-- `Uuid::simple`. -/
def simple (id : Uuid) : String := .ofList ((List.range 32).reverse.map fun i => JsonText.hex_digit (id.toNat / 16 ^ i % 16))

/-- What a command finds and what its file operations answer; `id` is the identifier it would
    draw. -/
structure World (rules : Rules) where
  settings_path : Except String AbsolutePath
  current_dir : Except String AbsolutePath
  load_from : AbsolutePath → Except String (Loaded rules)
  load_global : Except String Unit
  ambient : Ambient
  settings : Except String Contents
  state_path : Except String String
  id : Uuid
  terminal : Bool
  answer : Except String Bool
  settings_unchanged : Except String Unit
  state_unchanged : Except String Unit
  write_settings : Except String Unit
  write_state : Except String Unit
  restore : Except String Unit

structure ConfigureOptions where
  token_secret : Option String
  profile : Option String
  provider : Option String
  resource : String
  is_global : Bool
  yes : Bool
  file : Option String
  reason : Option String
  typed : TypedArgs

section

variable {rules : Rules} (parse_uuid : String → Bool) (world : World rules)

def manifest_profile (options : ConfigureOptions) : Except String String :=
  if options.typed.profile then
    options.profile.elim (.error "--profile was selected without a profile value") Except.ok
  else do
    world.load_global
    return world.ambient.global_profile.getD "default"

def manifest_source (options : ConfigureOptions) (file : String) : Except String CredentialSource := do
  let token_secret ← options.token_secret.elim
    (.error "--token-secret is required when --file selects a custom manifest") Except.ok
  let manifest ← manifest_path world.current_dir file
  let loaded ← world.load_from manifest
  let profile ← manifest_profile world options
  let secrets : Secrets rules := ⟨loaded, none, false, world.ambient⟩
  validate_secret "Claude Code" (secrets.set_profile profile) token_secret profile
  return .Manifest manifest.text profile token_secret

def credential_source (options : ConfigureOptions) : Except String CredentialSource :=
  match options.file with
  | some file => manifest_source world options file
  | none =>
    if options.token_secret.isSome ∨ options.typed.profile then
      .error "--token-secret and --profile require --file; the embedded Claude Code credential store uses its built-in declaration"
    else .ok .Embedded

def reason (options : ConfigureOptions) : Except String String :=
  if options.typed.reason then
    (options.reason.filter fun reason => !is_blank reason).elim (.error "--reason cannot be empty") Except.ok
  else .ok DEFAULT_REASON

/-- The helper of a managed settings file is the recorded one, and any other file has none. -/
def check_helper (path : String) (existing : Option ManagedSetting) (helper : Option String) : Except String Unit :=
  match existing, helper with
  | _, none => .ok ()
  | some setting, some helper =>
    if helper = setting.helper then .ok ()
    else .error s!"Claude Code apiKeyHelper in {path} changed outside Monosecret; refusing to replace it"
  | none, some _ => .error s!"Claude Code apiKeyHelper in {path} is not managed by Monosecret; refusing to replace it"

def refusal : String :=
  "refusing to change user-level Claude Code settings without confirmation; pass --yes for non-interactive use"

/-- Only the settings of the user are confirmed. -/
def confirmed (is_global yes : Bool) : Except String Bool :=
  if is_global then confirm refusal yes world.terminal world.answer else .ok true

def manages (path : String) (setting : ManagedSetting) : Bool := setting.settings == path

/-- What is to be written, or how the command ends without writing. -/
inductive Plan where
  | Keep (done : Done)
  | Write (state : Option ManagedState) (settings : Option Json)

def ManagedState.record (state : ManagedState) (setting : ManagedSetting) : ManagedState :=
  ⟨state.version, upsert (manages setting.settings) setting state.settings⟩

def ConfigureOptions.setting (options : ConfigureOptions) (id path reason : String) (source : CredentialSource) : ManagedSetting where
  id
  settings := path
  helper := helper_command id
  provider := if options.typed.provider then options.provider else none
  reason
  resource := options.resource
  source
  configured := true

def configure_plan (options : ConfigureOptions) (file : Option Json) : Except String Plan := do
  validate_resource options.resource
  let settings_path ← world.settings_path
  let source ← credential_source world options
  let reason ← reason options
  let contents ← world.settings
  let settings ← parse_object s!"Failed to parse {settings_path.text}"
    s!"Claude Code settings in {settings_path.text} must be a JSON object" contents
  let path ← world.state_path
  let state ← parse_state parse_uuid path file
  let existing := state.settings.find? (manages settings_path.text)
  let desired := options.setting (existing.elim (simple world.id) ManagedSetting.id) settings_path.text reason source
  let existing_helper ← api_key_helper settings settings_path.text
  check_helper settings_path.text existing existing_helper
  if existing = some desired ∧ existing_helper = some desired.helper then return .Keep .AlreadyConfigured
  let confirmed ← confirmed world options.is_global options.yes
  if confirmed = false then return .Keep .Cancelled
  world.settings_unchanged
  world.state_unchanged
  let settings ← set_api_key_helper settings desired.helper settings_path.text
  return .Write (if existing = some desired then none else some (state.record desired))
    (if existing_helper = some desired.helper then none else some settings)

/-- When the settings cannot be replaced, the state is restored. -/
def configure (options : ConfigureOptions) (file : Option Json) : Except String Done × Option Json :=
  match configure_plan parse_uuid world options file with
  | .error message => (.error message, file)
  | .ok (.Keep done) => (.ok done, file)
  | .ok (.Write none settings) => ((settings.elim (.ok ()) fun _ => world.write_settings).map fun _ => .Configured, file)
  | .ok (.Write (some state) settings) =>
    match world.write_state with
    | .error message => (.error message, file)
    | .ok () =>
      match settings.elim (.ok ()) fun _ => world.write_settings with
      | .ok () => (.ok .Configured, some state.to_value)
      | .error message =>
        match world.restore with
        | .ok () => (.error message, file)
        | .error _ => (.error message, some state.to_value)

inductive Removal where
  | Keep (done : Done)
  | Write (state : ManagedState) (settings : Option Json)

def unconfigure_plan (is_global yes : Bool) (file : Option Json) : Except String Removal := do
  let settings_path ← world.settings_path
  let path ← world.state_path
  let state ← parse_state parse_uuid path file
  match state.settings.find? (manages settings_path.text) with
  | none => return .Keep .NothingFound
  | some managed =>
    if managed.configured = false then return .Keep .NothingFound
    let contents ← world.settings
    let settings ← parse_object s!"Failed to parse {settings_path.text}"
      s!"Claude Code settings in {settings_path.text} must be a JSON object" contents
    let existing_helper ← api_key_helper settings settings_path.text
    refuse (existing_helper.any fun helper => helper != managed.helper)
      s!"Claude Code apiKeyHelper in {settings_path.text} changed outside Monosecret; refusing to remove it"
    let confirmed ← confirmed world is_global yes
    if confirmed = false then return .Keep .Cancelled
    world.settings_unchanged
    world.state_unchanged
    let settings ← remove_api_key_helper settings settings_path.text
    return .Write (state.record { managed with configured := false }) (if existing_helper.isSome then some settings else none)

def unconfigure (is_global yes : Bool) (file : Option Json) : Except String Done × Option Json :=
  match unconfigure_plan parse_uuid world is_global yes file with
  | .error message => (.error message, file)
  | .ok (.Keep done) => (.ok done, file)
  | .ok (.Write state settings) =>
    match settings.elim (.ok ()) fun _ => world.write_settings with
    | .error message => (.error message, file)
    | .ok () =>
      match world.write_state with
      | .ok () => (.ok .Removed, some state.to_value)
      | .error message => (.error message, file)

end

/-! ## What a command records -/

section

variable {rules : Rules} {parse_uuid : String → Bool} {world : World rules} {options : ConfigureOptions} {file : Option Json}

theorem Good.record {state : ManagedState} {setting : ManagedSetting} (h : Good parse_uuid state)
    (hd : ∀ other ∈ state.settings, other.settings = setting.settings → other.id = setting.id)
    (hn : (∀ other ∈ state.settings, other.settings ≠ setting.settings) → setting.id ∉ state.settings.map ManagedSetting.id) :
    Good parse_uuid (state.record setting) ↔ Valid parse_uuid setting := by
  have hs : ∀ other ∈ state.settings, manages setting.settings other → other.settings = setting.settings :=
    fun other _ hm => eq_of_beq hm
  have hoh : (∀ other ∈ state.settings, manages setting.settings other = false) →
      ∀ other ∈ state.settings, other.settings ≠ setting.settings :=
    fun hno other ho => ne_of_beq_false (hno other ho)
  have hi := @upsert_nodup _ _ _ _ _ ManagedSetting.id (fun other ho hm => hd other ho (hs other ho hm))
    (fun hno => hn (hoh hno)) h.ids
  have hp := @upsert_nodup _ _ _ _ _ ManagedSetting.settings hs
    (fun hno hmm => by
      obtain ⟨other, ho, hk⟩ := List.mem_map.mp hmm
      exact hoh hno other ho hk) h.paths
  rw [← @forall_upsert _ (manages setting.settings) setting _ _ h.valid]
  exact ⟨fun h => h.valid, fun hv => ⟨h.version, hv, hi, hp⟩⟩

/-- The entry `configure` puts in the state it found. -/
structure Recorded (parse_uuid : String → Bool) (world : World rules) (options : ConfigureOptions) (file : Option Json)
    (old : ManagedState) (setting : ManagedSetting) : Prop where
  parsed : ∃ path, parse_state parse_uuid path file = .ok old
  id : setting.id = (old.settings.find? (manages setting.settings)).elim (simple world.id) ManagedSetting.id
  helper : setting.helper = helper_command setting.id
  settings : is_absolute setting.settings = true
  resource : valid_resource setting.resource = true
  reason : is_blank setting.reason = false
  provider : setting.provider = if options.typed.provider then options.provider else none
  source : credential_source world options = .ok setting.source

/-- The profile that is recorded with a manifest. -/
def ConfigureOptions.recorded_profile (options : ConfigureOptions) (ambient : Ambient) : Option String :=
  if options.typed.profile then options.profile else some (ambient.global_profile.getD "default")

/-- What `configure` does not check. -/
def ConfigureOptions.sound (options : ConfigureOptions) (ambient : Ambient) : Bool :=
  (!options.typed.provider || options.provider.all valid_provider) &&
    (options.file.isNone || (options.recorded_profile ambient).all fun profile => !is_blank profile)

theorem manifest_profile_ok {profile : String} (h : manifest_profile world options = .ok profile) :
    options.recorded_profile world.ambient = some profile := by
  unfold manifest_profile at h
  unfold ConfigureOptions.recorded_profile
  split at h
  · rename_i ht
    rw [if_pos ht]
    cases hp : options.profile with
    | none => simp [hp] at h
    | some t =>
      rw [hp] at h
      exact congrArg some (Except.ok.inj h)
  · rename_i ht
    rw [if_neg ht]
    replace h := rest_ok h
    exact congrArg some (Except.ok.inj h)

theorem credential_source_valid (hletters : ∀ c, rules.is_alphabetic c → is_whitespace c = false)
    {s : CredentialSource} (h : credential_source world options = .ok s) :
    valid_source s ↔
      (options.file.isNone || (options.recorded_profile world.ambient).all fun p => !is_blank p) := by
  unfold credential_source at h
  cases hf : options.file with
  | none =>
    rw [hf] at h
    dsimp only at h
    split at h
    · cases h
    · cases h
      exact iff_of_true rfl rfl
  | some path =>
    rw [hf] at h
    obtain ⟨t, -, h⟩ := bind_ok h
    obtain ⟨m, -, h⟩ := bind_ok h
    obtain ⟨l, -, h⟩ := bind_ok h
    obtain ⟨p, hp, h⟩ := bind_ok h
    obtain ⟨hs, h⟩ := bind_unit_ok h
    cases h
    -- a declared secret has a name that is not blank
    have hn := identifier_not_blank hletters (Secrets.declared_identifier _ (validate_secret_ok hs).2)
    simp [valid_source, m.absolute, hn, manifest_profile_ok hp]

theorem reason_ok {text : String} (h : reason options = .ok text) : is_blank text = false := by
  unfold reason at h
  split at h
  · cases hr : options.reason.filter fun reason => !is_blank reason with
    | none => simp [hr] at h
    | some g =>
      rw [hr] at h
      cases h
      simpa using (Option.filter_eq_some_iff.mp hr).2
  · cases h
    decide

theorem configure_plan_cases {plan : Plan} (h : configure_plan parse_uuid world options file = .ok plan) :
    plan = .Keep .AlreadyConfigured ∨ plan = .Keep .Cancelled ∨
      ∃ old setting state settings, plan = .Write state settings ∧ Recorded parse_uuid world options file old setting ∧
        (state = some (old.record setting) ∨ state = none ∧ setting ∈ old.settings) := by
  obtain ⟨hr, h⟩ := bind_unit_ok h
  obtain ⟨settings_path, -, h⟩ := bind_ok h
  obtain ⟨source, hs, h⟩ := bind_ok h
  obtain ⟨text, hn, h⟩ := bind_ok h
  obtain ⟨contents, -, h⟩ := bind_ok h
  obtain ⟨found, -, h⟩ := bind_ok h
  obtain ⟨path, -, h⟩ := bind_ok h
  obtain ⟨old, hp, h⟩ := bind_ok h
  obtain ⟨existing_helper, -, h⟩ := bind_ok h
  replace h := rest_ok h
  split at h
  · exact .inl (Except.ok.inj h).symm
  · obtain ⟨confirmed, -, h⟩ := bind_ok h
    split at h
    · exact .inr (.inl (Except.ok.inj h).symm)
    · replace h := rest_ok h
      replace h := rest_ok h
      obtain ⟨settings, -, h⟩ := bind_ok h
      have hc : Recorded parse_uuid world options file old
          (options.setting ((old.settings.find? (manages settings_path.text)).elim (simple world.id) ManagedSetting.id)
            settings_path.text text source) :=
        { parsed := ⟨path, hp⟩, id := rfl, helper := rfl, settings := settings_path.absolute
          resource := validate_resource_iff.mp hr, reason := reason_ok hn, provider := rfl, source := hs }
      refine .inr (.inr ⟨old, _, _, _, (Except.ok.inj h).symm, hc, ?_⟩)
      split
      · rename_i he
        exact .inr ⟨rfl, List.mem_of_find?_eq_some he⟩
      · exact .inl rfl

variable {old : ManagedState} {setting : ManagedSetting}

/-- A drawn identifier is none of those in the file. -/
def fresh (parse_uuid : String → Bool) (id : Uuid) (file : Option Json) : Bool :=
  match parse_state parse_uuid "" file with
  | .ok state => !(state.settings.map ManagedSetting.id).contains (simple id)
  | .error _ => true

namespace Recorded

variable (r : Recorded parse_uuid world options file old setting)

include r

theorem good : Good parse_uuid old := r.parsed.elim fun _ => parse_state_good

theorem accepted : Accepted parse_uuid file := r.parsed.elim fun _ h path => ⟨old, parse_state_path h path⟩

theorem valid_iff (hsimple : ∀ id, parse_uuid (simple id))
    (hletters : ∀ c, rules.is_alphabetic c → is_whitespace c = false) :
    Valid parse_uuid setting ↔ options.sound world.ambient := by
  have hi : parse_uuid setting.id := by
    rw [r.id]
    cases hf : old.settings.find? (manages setting.settings) with
    | none => exact hsimple _
    | some e => exact (r.good.valid e (List.mem_of_find?_eq_some hf)).id
  have hp : (∀ p, setting.provider = some p → valid_provider p) ↔
      (!options.typed.provider || options.provider.all valid_provider) := by
    rw [r.provider]
    cases options.typed.provider with
    | false => simp
    | true => cases options.provider <;> simp
  rw [ConfigureOptions.sound, Bool.and_eq_true, ← hp, ← credential_source_valid hletters r.source]
  exact ⟨fun h => ⟨h.provider, h.source⟩, fun h => ⟨hi, r.helper, r.settings, r.resource, r.reason, h.1, h.2⟩⟩

theorem record_good_iff (hfresh : fresh parse_uuid world.id file) :
    Good parse_uuid (old.record setting) ↔ Valid parse_uuid setting := by
  have hn := r.good.paths
  refine r.good.record (fun other ho hs => ?_) fun hno => ?_
  · have hf : old.settings.find? (manages setting.settings) = some other := by
      exact (find?_key hn ho setting.settings).mpr hs
    rw [r.id, hf]
    rfl
  · have hf : old.settings.find? (manages setting.settings) = none :=
      List.find?_eq_none.mpr fun other ho hm => hno other ho (eq_of_beq hm)
    rw [r.id, hf]
    obtain ⟨path, hp⟩ := r.parsed
    rw [fresh, parse_state_path hp ""] at hfresh
    simpa using hfresh

end Recorded

/-- The file is kept, or the recorded state is written. -/
theorem configure_cases (parse_uuid : String → Bool) (world : World rules) (options : ConfigureOptions) (file : Option Json) :
    (configure parse_uuid world options file).2 = file ∧ (configure parse_uuid world options file).1 ≠ .ok .Configured ∨
      ∃ old setting, Recorded parse_uuid world options file old setting ∧
        ((configure parse_uuid world options file).2 = some (old.record setting).to_value ∨
          (configure parse_uuid world options file).2 = file ∧ setting ∈ old.settings) := by
  unfold configure
  cases hp : configure_plan parse_uuid world options file with
  | error m => exact .inl ⟨rfl, nofun⟩
  | ok p =>
    rcases configure_plan_cases hp with rfl | rfl | ⟨old, setting, state, s, rfl, r, rfl | ⟨rfl, hm⟩⟩
    · exact .inl ⟨rfl, nofun⟩
    · exact .inl ⟨rfl, nofun⟩
    · dsimp only
      cases world.write_state with
      | error m => exact .inl ⟨rfl, nofun⟩
      | ok =>
        dsimp only
        cases s.elim (.ok ()) fun _ => world.write_settings with
        | ok => exact .inr ⟨old, setting, r, .inl rfl⟩
        | error m =>
          dsimp only
          cases world.restore with
          | ok => exact .inl ⟨rfl, nofun⟩
          | error other => exact .inr ⟨old, setting, r, .inl rfl⟩
    · exact .inr ⟨old, setting, r, .inr ⟨rfl, hm⟩⟩

section

variable (hsimple : ∀ id, parse_uuid (simple id) = true)
  (hletters : ∀ c, rules.is_alphabetic c = true → is_whitespace c = false) (hfresh : fresh parse_uuid world.id file = true)

include hsimple hletters hfresh

theorem Recorded.record_accepted_iff (r : Recorded parse_uuid world options file old setting) :
    Accepted parse_uuid (some (old.record setting).to_value) ↔ options.sound world.ambient := by
  have hv : (old.record setting).version = STATE_VERSION := r.good.version
  rw [accepted_iff hv, r.record_good_iff hfresh, r.valid_iff hsimple hletters]

/-- A command that configured a settings file leaves an accepted state exactly when its options
    are sound. -/
theorem configured_iff (h : (configure parse_uuid world options file).1 = .ok .Configured) :
    Accepted parse_uuid (configure parse_uuid world options file).2 ↔ options.sound world.ambient := by
  rcases configure_cases parse_uuid world options file with ⟨-, hk⟩ | ⟨old, setting, r, hw | ⟨hk, hm⟩⟩
  · exact absurd h hk
  · rw [hw]
    exact r.record_accepted_iff hsimple hletters hfresh
  · rw [hk]
    exact iff_of_true r.accepted ((r.valid_iff hsimple hletters).mp (r.good.valid setting hm))

theorem configure_accepted (h : Accepted parse_uuid file) (hs : options.sound world.ambient) :
    Accepted parse_uuid (configure parse_uuid world options file).2 := by
  rcases configure_cases parse_uuid world options file with ⟨hk, -⟩ | ⟨old, setting, r, hw | ⟨hk, -⟩⟩
  · rw [hk]
    exact h
  · rw [hw]
    exact (r.record_accepted_iff hsimple hletters hfresh).mpr hs
  · rw [hk]
    exact h

end

end

/-! ## What a command drops -/

section

variable {rules : Rules} {parse_uuid : String → Bool} {world : World rules} {is_global yes : Bool} {file : Option Json}

theorem unconfigure_plan_good {state : ManagedState} {st : Option Json}
    (h : unconfigure_plan parse_uuid world is_global yes file = .ok (.Write state st)) : Good parse_uuid state := by
  obtain ⟨s, -, h⟩ := bind_ok h
  obtain ⟨path, -, h⟩ := bind_ok h
  obtain ⟨old, hp, h⟩ := bind_ok h
  cases hf : old.settings.find? (manages s.text) with
  | none =>
    rw [hf] at h
    cases h
  | some managed =>
    rw [hf] at h
    dsimp only at h
    split at h
    · cases h
    · obtain ⟨ct, -, h⟩ := bind_ok h
      obtain ⟨found, -, h⟩ := bind_ok h
      obtain ⟨e, -, h⟩ := bind_ok h
      replace h := rest_ok h
      obtain ⟨cn, -, h⟩ := bind_ok h
      split at h
      · cases h
      · replace h := rest_ok h
        replace h := rest_ok h
        obtain ⟨st, -, h⟩ := bind_ok h
        obtain ⟨rfl, -⟩ := Removal.Write.inj (Except.ok.inj h)
        have hg := parse_state_good hp
        have hm := List.mem_of_find?_eq_some hf
        refine (Good.record hg (fun other ho hs => ?_) fun hn => ?_).mpr ?_
        · have hsm : other = managed := List.inj_on_of_nodup_map hg.paths ho hm hs
          rw [hsm]
        · exact absurd rfl (hn managed hm)
        · have hv := hg.valid managed hm
          exact ⟨hv.id, hv.helper, hv.settings, hv.resource, hv.reason, hv.provider, hv.source⟩

theorem unconfigure_accepted (h : Accepted parse_uuid file) :
    Accepted parse_uuid (unconfigure parse_uuid world is_global yes file).2 := by
  unfold unconfigure
  cases hp : unconfigure_plan parse_uuid world is_global yes file with
  | error m => exact h
  | ok p =>
    cases p with
    | Keep done => exact h
    | Write state s =>
      have hg := unconfigure_plan_good hp
      dsimp only
      split
      · exact h
      · split
        · exact (accepted_iff hg.version).mpr hg
        · exact h

end

end Monosecret.Integration.Claude
