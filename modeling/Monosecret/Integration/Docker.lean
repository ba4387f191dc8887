/-
  Monosecret.Integration.Docker — the registry credentials that Docker reads through
  Monosecret (`monosecret/src/integration/docker.rs`, `cli/docker.rs`).

  `configure` and `unconfigure` read the state file through `load_state`, decide on the new
  state and write it, beside the Docker configuration. What the process finds and what each
  file operation answers is a `World`, so a step is one call of a command in any world. The
  output is left out.

  (1) A written state is read back, and accepted when it is `Good` (`accepted_iff`).
  (2) `configure` replaces the entry of its registry and Docker configuration or adds it, and
      the state it writes is accepted exactly when the options are `sound`
      (`configured_iff`): what it does not check is a registry that slips through as
      a host of Docker Hub, and a typed profile that is empty.
  (3) `unconfigure` only drops entries (`unconfigure_accepted`).
-/

import Monosecret.Integration.State

namespace Monosecret.Integration.Docker

open Lib Manifest Rpc
open Lib.Except (bind_ok bind_unit_ok rest_ok)

/-! ## The state file -/

def HELPER_NAME : String := "monosecret"
def STATE_VERSION : Nat := 1

inductive UsernameSource where
  | Literal (username : String)
  | Secret (name : String)
  deriving DecidableEq

inductive CredentialSource where
  | Embedded (username : String)
  | Manifest (manifest : String) (profile : Option String) (username : UsernameSource) (password_secret : String)
  deriving DecidableEq

structure ManagedCredential where
  registry : String
  docker_config : String
  provider : Option String
  reason : Option String
  source : CredentialSource
  deriving DecidableEq

structure ManagedState where
  version : Nat
  credentials : List ManagedCredential

def ManagedState.default : ManagedState := ⟨STATE_VERSION, []⟩

def UsernameSource.to_value : UsernameSource → Json
  | .Literal username => .obj [("source", .str "literal"), ("value", .str username)]
  | .Secret name => .obj [("source", .str "secret"), ("value", .str name)]

def CredentialSource.to_value : CredentialSource → Json
  | .Embedded username => .obj [("kind", .str "embedded"), ("username", .str username)]
  | .Manifest manifest profile username password_secret =>
    .obj [("kind", .str "manifest"), ("manifest", .str manifest), ("password_secret", .str password_secret),
          ("profile", nullable_text profile), ("username", username.to_value)]

def ManagedCredential.to_value (credential : ManagedCredential) : Json :=
  .obj [("docker_config", .str credential.docker_config), ("provider", nullable_text credential.provider),
        ("reason", nullable_text credential.reason), ("registry", .str credential.registry),
        ("source", credential.source.to_value)]

def ManagedState.to_value (state : ManagedState) : Json :=
  .obj [("credentials", .arr (state.credentials.map ManagedCredential.to_value)), ("version", .int state.version)]

def UsernameSource.from_value (value : Json) : Option UsernameSource :=
  match state_fields ["source", "value"] value with
  | some [source, value] => do
    let source ← source.bind string
    let value ← value.bind string
    if source = "literal" then some (.Literal value) else if source = "secret" then some (.Secret value) else none
  | _ => none

def CredentialSource.from_value (value : Json) : Option CredentialSource := do
  let kind ← (value.get "kind").bind string
  if kind = "embedded" then
    match state_fields ["kind", "username"] value with
    | some [_, username] => (username.bind string).map .Embedded
    | _ => none
  else if kind = "manifest" then
    match state_fields ["kind", "manifest", "password_secret", "profile", "username"] value with
    | some [_, manifest, password_secret, profile, username] => do
      let manifest ← manifest.bind string
      let password_secret ← password_secret.bind string
      let profile ← optional_text profile
      let username ← username.bind UsernameSource.from_value
      some (.Manifest manifest profile username password_secret)
    | _ => none
  else none

def ManagedCredential.from_value (value : Json) : Option ManagedCredential :=
  match state_fields ["docker_config", "provider", "reason", "registry", "source"] value with
  | some [docker_config, provider, reason, registry, source] => do
    let docker_config ← docker_config.bind string
    let provider ← optional_text provider
    let reason ← optional_text reason
    let registry ← registry.bind string
    let source ← source.bind CredentialSource.from_value
    some { registry, docker_config, provider, reason, source }
  | _ => none

def ManagedState.from_value (value : Json) : Option ManagedState :=
  match state_fields ["credentials", "version"] value with
  | some [credentials, version] => do
    let credentials ← credentials.bind (list ManagedCredential.from_value)
    let version ← version.bind fun value => (u64 value).filter (· < 2 ^ 8)
    some { version, credentials }
  | _ => none

theorem UsernameSource.read_back (source : UsernameSource) : from_value source.to_value = some source := by
  cases source <;> rfl

theorem CredentialSource.read_back (source : CredentialSource) : from_value source.to_value = some source := by
  cases source with
  | Embedded username => rfl
  | Manifest manifest profile username password_secret =>
    have hf := state_fields_written ["kind", "manifest", "password_secret", "profile", "username"]
      [.str "manifest", .str manifest, .str password_secret, nullable_text profile, username.to_value] (by decide) rfl
    have hk : ((to_value (.Manifest manifest profile username password_secret)).get "kind").bind string = some "manifest" := rfl
    unfold from_value
    rw [hk]
    simp only [to_value, Option.bind_eq_bind, Option.bind_some, List.zip_cons_cons, List.zip_nil_right, List.map_cons,
      List.map_nil] at hf ⊢
    rw [hf]
    simp [string, UsernameSource.read_back username]

theorem ManagedCredential.read_back (credential : ManagedCredential) : from_value credential.to_value = some credential := by
  have hf := state_fields_written ["docker_config", "provider", "reason", "registry", "source"]
    [.str credential.docker_config, nullable_text credential.provider, nullable_text credential.reason,
     .str credential.registry, credential.source.to_value] (by decide) rfl
  simp only [List.zip_cons_cons, List.zip_nil_right, List.map_cons, List.map_nil] at hf
  rw [to_value, from_value, hf]
  simp [string, CredentialSource.read_back credential.source]

theorem ManagedState.read_back {state : ManagedState} (h : state.version < 2 ^ 8) :
    from_value state.to_value = some state := by
  have hf := state_fields_written ["credentials", "version"]
    [.arr (state.credentials.map ManagedCredential.to_value), .int state.version] (by decide) rfl
  simp only [List.zip_cons_cons, List.zip_nil_right, List.map_cons, List.map_nil] at hf
  rw [to_value, from_value, hf]
  simp only [Option.bind_some, Option.bind_eq_bind, list_map ManagedCredential.read_back, u8_read_back h]

/-! ## Loading it -/

def valid_username (username : String) : Bool := username ≠ "" && !has_control username

def valid_username_source : UsernameSource → Bool
  | .Literal username => valid_username username
  | .Secret secret => secret ≠ ""

def valid_source : CredentialSource → Bool
  | .Embedded username => valid_username username
  | .Manifest manifest profile username password_secret =>
    is_absolute manifest && profile.all (· ≠ "") && password_secret ≠ "" && valid_username_source username

def key (credential : ManagedCredential) : String × String := (credential.docker_config, credential.registry)

section

variable (parse : UrlParser) (path : String)

def check_credentials (configurations : List (String × String)) : List ManagedCredential → Except String Unit
  | [] => .ok ()
  | credential :: credentials =>
    if (canonical_registry parse credential.registry).toOption ≠ some credential.registry ∨
        is_absolute credential.docker_config = false ∨ valid_source credential.source = false then
      .error s!"Invalid entry in Docker credential configuration {path}"
    else if key credential ∈ configurations then
      .error s!"Duplicate registry and Docker configuration in managed credential state {path}"
    else check_credentials (key credential :: configurations) credentials

def load_state (file : Option Json) : Except String ManagedState :=
  match file with
  | none => .ok .default
  | some value =>
    match ManagedState.from_value value with
    | none => .error s!"Failed to parse {path}"
    | some state => do
      if state.version ≠ STATE_VERSION then
        throw s!"Unsupported Docker credential configuration version {state.version} in {path}"
      check_credentials parse path [] state.credentials
      return state

/-- An entry that is read back as it is. -/
structure Valid (credential : ManagedCredential) : Prop where
  registry : canonical_registry parse credential.registry = .ok credential.registry
  docker_config : is_absolute credential.docker_config = true
  source : valid_source credential.source = true

structure Good (state : ManagedState) : Prop where
  version : state.version = STATE_VERSION
  valid : ∀ credential ∈ state.credentials, Valid parse credential
  distinct : (state.credentials.map key).Nodup

variable {parse path}

theorem check_credentials_iff {configurations : List (String × String)} {c : List ManagedCredential} :
    check_credentials parse path configurations c = .ok () ↔
      (∀ credential ∈ c, Valid parse credential) ∧ (c.map key).Nodup ∧
        ∀ credential ∈ c, key credential ∉ configurations := by
  induction c generalizing configurations with
  | nil => simp [check_credentials]
  | cons credential c ih =>
    have hv : ¬ ((canonical_registry parse credential.registry).toOption ≠ some credential.registry ∨
        is_absolute credential.docker_config = false ∨ valid_source credential.source = false) ↔ Valid parse credential := by
      rw [not_or, not_or, not_not, Except.toOption_eq_some_iff, Bool.not_eq_false, Bool.not_eq_false]
      exact ⟨fun h => ⟨h.1, h.2.1, h.2.2⟩, fun h => ⟨h.registry, h.docker_config, h.source⟩⟩
    rw [check_credentials]
    split
    · rename_i hb
      refine iff_of_false nofun fun h => ?_
      exact (not_iff_not.mpr hv).mp (not_not_intro hb) (h.1 _ (.head _))
    · rename_i hg
      have he := hv.mp hg
      split
      · rename_i hs
        exact iff_of_false nofun fun h => h.2.2 _ (.head _) hs
      · rename_i hn
        rw [ih, distinct_cons, List.forall_mem_cons]
        exact ⟨fun h => ⟨⟨he, h.1⟩, hn, h.2⟩, fun h => ⟨h.1.2, h.2.2⟩⟩

variable {state : ManagedState}

theorem checked_iff :
    state.version = STATE_VERSION ∧ check_credentials parse path [] state.credentials = .ok () ↔ Good parse state := by
  rw [check_credentials_iff]
  exact ⟨fun h => ⟨h.1, h.2.1, h.2.2.1⟩, fun h => ⟨h.version, h.valid, h.distinct, fun _ _ => List.not_mem_nil⟩⟩

/-- What loading yields is good. -/
theorem load_state_good {file : Option Json} (h : load_state parse path file = .ok state) : Good parse state := by
  cases file with
  | none =>
    cases h
    exact ⟨rfl, fun _ hm => absurd hm List.not_mem_nil, List.nodup_nil⟩
  | some value =>
    rw [load_state] at h
    cases hr : ManagedState.from_value value with
    | none => simp [hr] at h
    | some read =>
      simp only [hr] at h
      by_cases hv : read.version = STATE_VERSION
      · simp only [hv, ne_eq, not_true_eq_false, if_false] at h
        obtain ⟨hc, h⟩ := bind_unit_ok h
        cases h
        exact checked_iff.mp ⟨hv, hc⟩
      · rw [if_pos hv] at h
        cases h

/-- No command fails on the file. -/
def Accepted (parse : UrlParser) (file : Option Json) : Prop := ∀ path, ∃ state, load_state parse path file = .ok state

/-- A state of this version is accepted when it is good. -/
theorem accepted_iff (hv : state.version = STATE_VERSION) :
    Accepted parse (some state.to_value) ↔ Good parse state := by
  have hr : ManagedState.from_value state.to_value = some state := ManagedState.read_back (by rw [hv]; decide)
  have hl : ∀ path, (∃ l, load_state parse path (some state.to_value) = .ok l) ↔ Good parse state := by
    intro path
    simp only [load_state, hr, hv, ne_eq, not_true_eq_false, if_false]
    rw [← @checked_iff parse path]
    cases check_credentials parse path [] state.credentials with
    | ok => exact iff_of_true ⟨state, rfl⟩ ⟨hv, rfl⟩
    | error m => exact iff_of_false nofun fun h => nomatch h.2
  exact ⟨fun h => (hl "").mp (h ""), fun h path => (hl path).mpr h⟩

end

/-! ## The Docker configuration -/

def credential_helpers (config : Json) : Except String (Option (List (String × Json))) :=
  match config.get "credHelpers" with
  | some (.obj helpers) => .ok (some helpers)
  | some _ => .error "Docker config field 'credHelpers' must be an object"
  | none => .ok none

def credential_helper (config : Json) (registry : String) : Except String (Option String) := do
  let helpers ← credential_helpers config
  match helpers.bind fun helpers => helpers.lookup registry with
  | none => return none
  | some (.str helper) => return some helper
  | some _ => throw s!"Docker credential helper for '{registry}' must be a string"

def set_credential_helper (config : Json) (registry helper : String) : Except String Json :=
  match config with
  | .obj members =>
    match (members.lookup "credHelpers").getD (.obj []) with
    | .obj helpers => .ok (.obj (Audit.insert "credHelpers" (.obj (Audit.insert registry (.str helper) helpers)) members))
    | _ => .error "Docker config field 'credHelpers' must be an object"
  | _ => .error "Docker configuration must be an object"

def remove_credential_helper (config : Json) (registry : String) : Except String Json :=
  match config with
  | .obj members =>
    match members.lookup "credHelpers" with
    | some (.obj helpers) =>
      let helpers := Audit.remove registry helpers
      if helpers = [] then .ok (.obj (Audit.remove "credHelpers" members))
      else .ok (.obj (Audit.insert "credHelpers" (.obj helpers) members))
    | some _ => .error "Docker config field 'credHelpers' must be an object"
    | none => .ok (.obj members)
  | _ => .error "Docker configuration must be an object"

/-! ## The commands -/

/-- What a command finds and what its file operations answer. -/
structure World (rules : Rules) where
  docker_config_path : Except String AbsolutePath
  current_dir : Except String AbsolutePath
  load_secrets : AbsolutePath → Except String (Loaded rules)
  load_embedded : Except String Unit
  ambient : Ambient
  docker : Except String Contents
  state_path : Except String String
  state_entry_is_symlink : Bool
  terminal : Bool
  answer : Except String Bool
  docker_unchanged : Except String Unit
  state_unchanged : Except String Unit
  write_docker : Except String Unit
  write_state : Except String Unit
  recheck : Except String Unit
  restore : Except String Unit

structure ConfigureOptions where
  registry : String
  token_secret : Option String
  username : Option String
  username_secret : Option String
  profile : Option String
  provider : Option String
  yes : Bool
  file : Option String
  reason : Option String
  typed : TypedArgs

section

variable {rules : Rules} (parse : UrlParser) (world : World rules)

def validate_literal_username (username : String) : Except String Unit :=
  if valid_username username then .ok () else .error "Docker username cannot be empty or contain control characters"

def username_source (options : ConfigureOptions) : Except String UsernameSource :=
  match options.username, options.username_secret with
  | some username, none => do
    validate_literal_username username
    return .Literal username
  | none, some secret => .ok (.Secret secret)
  | none, none => .error "--username or --username-secret is required when --file selects a custom manifest"
  | some _, some _ => .error "clap rejects conflicting username options"

def validate_username_secret (secrets : Secrets rules) (profile : String) : UsernameSource → Except String Unit
  | .Literal _ => .ok ()
  | .Secret secret => validate_secret "Docker" secrets secret profile

def manifest_source (options : ConfigureOptions) (file : String) : Except String CredentialSource := do
  let token_secret ← options.token_secret.elim
    (.error "--token-secret is required when --file selects a custom manifest") Except.ok
  let username ← username_source options
  let manifest ← manifest_path world.current_dir file
  let loaded ← world.load_secrets manifest
  let secrets : Secrets rules := ⟨loaded, none, false, world.ambient⟩
  let secrets := options.profile.elim secrets secrets.set_profile
  let resolved_profile := secrets.resolve_profile_name none
  validate_secret "Docker" secrets token_secret resolved_profile
  validate_username_secret secrets resolved_profile username
  return .Manifest manifest.text (if options.typed.profile then options.profile else none) username token_secret

def embedded_source (options : ConfigureOptions) : Except String CredentialSource := do
  if options.token_secret.isSome ∨ options.username_secret.isSome ∨ options.typed.profile then
    throw "--token-secret, --username-secret, and --profile require --file; the embedded Docker credential store uses PASSWORD and the default profile"
  let username ← options.username.elim
    (.error "--username is required when using the embedded Docker credential store") Except.ok
  validate_literal_username username
  world.load_embedded
  return .Embedded username

def credential_source (options : ConfigureOptions) : Except String CredentialSource :=
  match options.file with
  | some file => manifest_source world options file
  | none => embedded_source world options

/-- What is to be written, or how the command ends without writing. -/
inductive Plan where
  | Keep (done : Done)
  | Write (state : ManagedState) (docker : Json)

def refusal : String :=
  "refusing to change Docker configuration without confirmation; pass --yes for non-interactive use"

/-- The entry is managed, or the registry names no helper. -/
def check_helper (registry : String) (managed : Bool) (helper : Option String) : Except String Unit :=
  match helper with
  | none => .ok ()
  | some helper =>
    if helper ≠ HELPER_NAME then
      .error s!"Docker registry '{registry}' already uses credential helper '{helper}'; refusing to replace it"
    else if managed = false then
      .error s!"Docker registry '{registry}' already names the Monosecret helper but is not managed by this configuration; remove that entry manually before configuring it"
    else .ok ()

def manages (registry docker_config : String) (credential : ManagedCredential) : Bool :=
  credential.registry == registry && credential.docker_config == docker_config

/-- Only what was typed is recorded. -/
def ConfigureOptions.credential (options : ConfigureOptions) (registry docker_config : String) (source : CredentialSource) :
    ManagedCredential where
  registry
  docker_config
  provider := if options.typed.provider then options.provider else none
  reason := if options.typed.reason then options.reason else none
  source

def configure_plan (options : ConfigureOptions) (file : Option Json) : Except String Plan := do
  let registry ← canonical_registry parse options.registry
  let docker_config ← world.docker_config_path
  let source ← credential_source world options
  let contents ← world.docker
  let docker ← parse_object s!"Failed to parse {docker_config.text}" s!"{docker_config.text} must contain a JSON object" contents
  let existing_helper ← credential_helper docker registry
  let path ← world.state_path
  let state ← load_state parse path file
  let existing := state.credentials.find? (manages registry docker_config.text)
  check_helper registry existing.isSome existing_helper
  let credential := options.credential registry docker_config.text source
  if existing = some credential ∧ existing_helper = some HELPER_NAME then return .Keep .AlreadyConfigured
  let confirmed ← confirm refusal options.yes world.terminal world.answer
  if confirmed = false then return .Keep .Cancelled
  world.docker_unchanged
  world.state_unchanged
  let docker ← set_credential_helper docker registry HELPER_NAME
  return .Write ⟨state.version, upsert (manages registry docker_config.text) credential state.credentials⟩ docker

/-- Each file is replaced at once; when the second cannot be, the first is restored. -/
def configure (options : ConfigureOptions) (file : Option Json) : Except String Done × Option Json :=
  match configure_plan parse world options file with
  | .error message => (.error message, file)
  | .ok (.Keep done) => (.ok done, file)
  | .ok (.Write state _) =>
    match world.write_state with
    | .error message => (.error message, file)
    | .ok () =>
      match world.recheck >>= fun _ => world.write_docker with
      | .ok () => (.ok .Configured, some state.to_value)
      | .error message =>
        match world.restore with
        | .ok () => (.error message, file)
        | .error message => (.error message, some state.to_value)

def check_selected (docker : Json) (registry : String) : Except String Bool := do
  let helper ← credential_helper docker registry
  match helper with
  | none => return false
  | some helper =>
    if helper = HELPER_NAME then return true
    else throw s!"Docker credential helper for '{registry}' changed to '{helper}'; refusing to modify it"

/-- The credentials that stay, and the Docker configuration if it is to be written. -/
inductive Removal where
  | Keep (done : Done)
  | Write (state : ManagedState) (docker : Option Json)

def unconfigure_plan (registry : Option String) (all yes : Bool) (file : Option Json) : Except String Removal := do
  let registry ← registry.mapM (canonical_registry parse)
  let docker_config ← world.docker_config_path
  let contents ← world.docker
  let docker ← parse_object s!"Failed to parse {docker_config.text}" s!"{docker_config.text} must contain a JSON object" contents
  let path ← world.state_path
  let state ← load_state parse path file
  let selected := (state.credentials.filter fun credential =>
    credential.docker_config == docker_config.text && (all || registry == some credential.registry)).map ManagedCredential.registry
  if selected = [] then return .Keep .NothingFound
  let configured ← selected.filterM (check_selected docker)
  let confirmed ← confirm refusal yes world.terminal world.answer
  if confirmed = false then return .Keep .Cancelled
  world.docker_unchanged
  world.state_unchanged
  let docker ← configured.foldlM remove_credential_helper docker
  let credentials := state.credentials.filter fun credential =>
    credential.docker_config != docker_config.text || !selected.contains credential.registry
  return .Write ⟨state.version, credentials⟩ (if configured = [] then none else some docker)

/-- An empty state is removed, unless its entry is a link. -/
def unconfigure (registry : Option String) (all yes : Bool) (file : Option Json) : Except String Done × Option Json :=
  match unconfigure_plan parse world registry all yes file with
  | .error message => (.error message, file)
  | .ok (.Keep done) => (.ok done, file)
  | .ok (.Write state docker) =>
    match docker.elim (.ok ()) fun _ => world.write_docker with
    | .error message => (.error message, file)
    | .ok () =>
      match world.recheck >>= fun _ => world.write_state with
      | .ok () =>
        (.ok .Removed, if state.credentials = [] ∧ world.state_entry_is_symlink = false then none else some state.to_value)
      | .error message =>
        match docker.elim (.ok ()) fun _ => world.restore with
        | .ok () => (.error message, file)
        | .error message => (.error message, file)

end

/-! ## What a command records -/

section

variable {rules : Rules} {parse : UrlParser} {world : World rules} {options : ConfigureOptions} {file : Option Json}

/-- An empty profile, recorded with a manifest. -/
def ConfigureOptions.names_no_profile (options : ConfigureOptions) : Bool :=
  options.file.isSome && options.typed.profile && options.profile == some ""

/-- What `configure` does not check. -/
def ConfigureOptions.sound (parse : UrlParser) (options : ConfigureOptions) : Bool :=
  !hub_slips_through parse options.registry && !options.names_no_profile

theorem validate_literal_username_ok {username : String} (h : validate_literal_username username = .ok ()) :
    valid_username username := by
  unfold validate_literal_username at h
  split at h
  · assumption
  · cases h

theorem username_source_ok {s : Secrets rules} {p : String} {username : UsernameSource}
    (h : username_source options = .ok username) (hv : validate_username_secret s p username = .ok ()) :
    valid_username_source username := by
  cases username with
  | Literal username =>
    unfold username_source at h
    split at h
    · obtain ⟨hl, h⟩ := bind_unit_ok h
      obtain rfl := UsernameSource.Literal.inj (Except.ok.inj h)
      exact validate_literal_username_ok hl
    all_goals cases h
  | Secret sc => exact decide_eq_true (validate_secret_ok hv).1

variable {source : CredentialSource}

theorem manifest_source_valid {path : String} (h : manifest_source world options path = .ok source) :
    valid_source source ↔ ¬ (options.typed.profile ∧ options.profile = some "") := by
  obtain ⟨t, -, h⟩ := bind_ok h
  obtain ⟨u, hu, h⟩ := bind_ok h
  obtain ⟨m, -, h⟩ := bind_ok h
  obtain ⟨l, -, h⟩ := bind_ok h
  obtain ⟨ht, h⟩ := bind_unit_ok h
  obtain ⟨hs, h⟩ := bind_unit_ok h
  cases h
  have hn := username_source_ok hu hs
  have ht := (validate_secret_ok ht).1
  simp only [valid_source, m.absolute, ht, hn, ne_eq, not_false_eq_true, decide_true, Bool.true_and, Bool.and_true]
  cases options.typed.profile with
  | false => simp
  | true => cases options.profile <;> simp

theorem embedded_source_valid (h : embedded_source world options = .ok source) : valid_source source := by
  unfold embedded_source at h
  split at h
  · cases h
  · obtain ⟨u, -, h⟩ := bind_ok h
    obtain ⟨hv, h⟩ := bind_unit_ok h
    replace h := rest_ok h
    cases h
    exact validate_literal_username_ok hv

theorem credential_source_valid (h : credential_source world options = .ok source) :
    valid_source source ↔ options.names_no_profile = false := by
  unfold credential_source at h
  cases hf : options.file with
  | none =>
    rw [hf] at h
    exact iff_of_true (embedded_source_valid h) (by simp [ConfigureOptions.names_no_profile, hf])
  | some path =>
    rw [hf] at h
    rw [manifest_source_valid h]
    simp [ConfigureOptions.names_no_profile, hf]

/-- The entry `configure` writes, in the state it found. -/
structure Recorded (parse : UrlParser) (options : ConfigureOptions) (file : Option Json) (state : ManagedState) where
  path : String
  old : ManagedState
  credential : ManagedCredential
  loaded : load_state parse path file = .ok old
  written : state = ⟨old.version, upsert (manages credential.registry credential.docker_config) credential old.credentials⟩
  registry : canonical_registry parse options.registry = .ok credential.registry
  docker_config : is_absolute credential.docker_config = true
  source : valid_source credential.source = true ↔ options.names_no_profile = false

theorem configure_plan_cases {p : Plan} (h : configure_plan parse world options file = .ok p) :
    p = .Keep .AlreadyConfigured ∨ p = .Keep .Cancelled ∨
      ∃ state dc, p = .Write state dc ∧ Nonempty (Recorded parse options file state) := by
  obtain ⟨registry, hr, h⟩ := bind_ok h
  obtain ⟨d, -, h⟩ := bind_ok h
  obtain ⟨source, hs, h⟩ := bind_ok h
  obtain ⟨cn, -, h⟩ := bind_ok h
  obtain ⟨found, -, h⟩ := bind_ok h
  obtain ⟨e, -, h⟩ := bind_ok h
  obtain ⟨path, -, h⟩ := bind_ok h
  obtain ⟨o, hl, h⟩ := bind_ok h
  replace h := rest_ok h
  dsimp only at h
  split at h
  · exact .inl (Except.ok.inj h).symm
  · obtain ⟨c, -, h⟩ := bind_ok h
    split at h
    · exact .inr (.inl (Except.ok.inj h).symm)
    · replace h := rest_ok h
      replace h := rest_ok h
      obtain ⟨dc, -, h⟩ := bind_ok h
      exact .inr (.inr ⟨_, dc, (Except.ok.inj h).symm,
        ⟨⟨path, o, options.credential registry d.text source, hl, rfl, hr, d.absolute,
          credential_source_valid hs⟩⟩⟩)

/-- The written state is accepted when the options are sound. -/
theorem Recorded.good_iff (w : Whatwg parse) {state : ManagedState} (r : Recorded parse options file state) :
    Good parse state ↔ options.sound parse := by
  have hold := load_state_good r.loaded
  have he : Valid parse r.credential ↔ options.sound parse := by
    have hc := canonical_registry_iff w r.registry
    rw [ConfigureOptions.sound, Bool.and_eq_true, Bool.not_eq_true', Bool.not_eq_true', ← r.source, ← hc]
    exact ⟨fun h => ⟨h.registry, h.source⟩, fun h => ⟨h.1, r.docker_config, h.2⟩⟩
  have hs : ∀ other ∈ r.old.credentials, manages r.credential.registry r.credential.docker_config other →
      key other = key r.credential := by
    intro other _ hm
    obtain ⟨hr, hf⟩ := Bool.and_eq_true_iff.mp hm
    exact Prod.ext (eq_of_beq hf) (eq_of_beq hr)
  have hn : (∀ other ∈ r.old.credentials, manages r.credential.registry r.credential.docker_config other = false) →
      key r.credential ∉ r.old.credentials.map key := by
    intro hno hmm
    obtain ⟨other, ho, hk⟩ := List.mem_map.mp hmm
    have hp := Prod.mk.inj hk
    have hm : manages r.credential.registry r.credential.docker_config other := by
      rw [manages, hp.1, hp.2, beq_self_eq_true, beq_self_eq_true, Bool.and_self]
    rw [hno other ho] at hm
    cases hm
  have hd := upsert_nodup hs hn hold.distinct
  rw [r.written, ← he, 
    ← @forall_upsert _ (manages r.credential.registry r.credential.docker_config) _ _ _ hold.valid]
  exact ⟨fun h => h.valid, fun h => ⟨hold.version, h, hd⟩⟩

theorem Recorded.version {state : ManagedState} (r : Recorded parse options file state) : state.version = STATE_VERSION := by
  rw [r.written]
  exact (load_state_good r.loaded).version

/-- The file is kept, or the recorded state is written. -/
theorem configure_cases (parse : UrlParser) (world : World rules) (options : ConfigureOptions) (file : Option Json) :
    (configure parse world options file).2 = file ∧ (configure parse world options file).1 ≠ .ok .Configured ∨
      ∃ state, Nonempty (Recorded parse options file state) ∧ (configure parse world options file).2 = some state.to_value := by
  unfold configure
  cases hp : configure_plan parse world options file with
  | error m => exact .inl ⟨rfl, nofun⟩
  | ok p =>
    rcases configure_plan_cases hp with rfl | rfl | ⟨state, d, rfl, hr⟩
    · exact .inl ⟨rfl, nofun⟩
    · exact .inl ⟨rfl, nofun⟩
    · dsimp only
      cases world.write_state with
      | error m => exact .inl ⟨rfl, nofun⟩
      | ok =>
        dsimp only
        cases world.recheck >>= fun _ => world.write_docker with
        | ok => exact .inr ⟨state, hr, rfl⟩
        | error m =>
          dsimp only
          cases world.restore with
          | ok => exact .inl ⟨rfl, nofun⟩
          | error m => exact .inr ⟨state, hr, rfl⟩

/-- A command that configured a credential leaves an accepted state exactly when its options
    are sound. -/
theorem configured_iff (w : Whatwg parse) (h : (configure parse world options file).1 = .ok .Configured) :
    Accepted parse (configure parse world options file).2 ↔ options.sound parse := by
  rcases configure_cases parse world options file with ⟨-, hk⟩ | ⟨state, ⟨r⟩, hw⟩
  · exact absurd h hk
  · rw [hw, accepted_iff r.version, r.good_iff w]

theorem configure_accepted (w : Whatwg parse) (h : Accepted parse file) (hs : options.sound parse) :
    Accepted parse (configure parse world options file).2 := by
  rcases configure_cases parse world options file with ⟨hk, -⟩ | ⟨state, ⟨r⟩, hw⟩
  · rw [hk]
    exact h
  · rw [hw, accepted_iff r.version, r.good_iff w]
    exact hs

end

/-! ## What a command drops -/

section

variable {rules : Rules} {parse : UrlParser} {world : World rules} {registry : Option String} {all yes : Bool} {file : Option Json}

theorem Good.filter {state : ManagedState} (h : Good parse state) (keep : ManagedCredential → Bool) :
    Good parse ⟨state.version, state.credentials.filter keep⟩ where
  version := h.version
  valid credential hm := h.valid credential (List.mem_of_mem_filter hm)
  distinct := h.distinct.sublist ((List.filter_sublist).map key)

theorem unconfigure_plan_good {state : ManagedState} {d : Option Json}
    (h : unconfigure_plan parse world registry all yes file = .ok (.Write state d)) : Good parse state := by
  obtain ⟨registry, -, h⟩ := bind_ok h
  obtain ⟨dc, -, h⟩ := bind_ok h
  obtain ⟨ct, -, h⟩ := bind_ok h
  obtain ⟨found, -, h⟩ := bind_ok h
  obtain ⟨path, -, h⟩ := bind_ok h
  obtain ⟨old, hl, h⟩ := bind_ok h
  dsimp only at h
  split at h
  · cases h
  · obtain ⟨c, -, h⟩ := bind_ok h
    obtain ⟨cn, -, h⟩ := bind_ok h
    split at h
    · cases h
    · replace h := rest_ok h
      replace h := rest_ok h
      obtain ⟨d, -, h⟩ := bind_ok h
      obtain ⟨rfl, -⟩ := Removal.Write.inj (Except.ok.inj h)
      exact (load_state_good hl).filter _

theorem unconfigure_accepted (h : Accepted parse file) : Accepted parse (unconfigure parse world registry all yes file).2 := by
  unfold unconfigure
  cases hp : unconfigure_plan parse world registry all yes file with
  | error m => exact h
  | ok p =>
    cases p with
    | Keep done => exact h
    | Write state d =>
      have hg := unconfigure_plan_good hp
      dsimp only
      split
      · exact h
      · split
        · dsimp only
          split
          · exact fun path => ⟨.default, rfl⟩
          · exact (accepted_iff hg.version).mpr hg
        · split <;> exact h

end

end Monosecret.Integration.Docker
