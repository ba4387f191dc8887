/-
  Monosecret.Manifest.Validate — what a configuration must say to be accepted
  (`Config::validate_and_compile` and `Secret::validate_effective` in `monosecret/src/config.rs`).

  Raw declarations are checked profile by profile, effective secrets on the compiled view.
  `Rules` holds what the checks ask of Unicode, and the checks of a generator's options,
  which depend on its type and only refuse.

  Both passes over the profiles reach every profile (`validated`). The names of a profile do
  not collide in a case-insensitive environment exactly when none of its own collides with
  one it inherits (`distinct_names`): only the own names are compared (`folded_twice`).
-/

import Monosecret.Lib.Map
import Monosecret.Manifest.Compile
import Monosecret.Manifest.Loader

namespace Monosecret.Manifest

open Lib
open Lib.Except (bind_unit_ok rest_ok)

structure Rules where
  is_alphabetic : Char → Bool
  is_alphanumeric : Char → Bool
  to_lowercase : String → String
  check_options : String → GenerateConfig → Except String Unit

def refuse (bad : Bool) (message : String) : Except String Unit := if bad then .error message else .ok ()

theorem refuse_ok {b : Bool} {m : String} (h : refuse b m = .ok ()) : b = false := by
  cases b with
  | true => cases h
  | false => rfl

variable (rules : Rules)

/-- Letters, digits and underscores, not starting with a digit. -/
def is_valid_identifier (name : String) : Bool :=
  match name.toList with
  | [] => false
  | first :: rest =>
    (rules.is_alphabetic first || first == '_') && rest.all fun c => rules.is_alphanumeric c || c == '_'

/-! ## Pointers -/

def check_escapes (index : Nat) : List Char → Except String Unit
  | [] => .ok ()
  | '~' :: '0' :: rest | '~' :: '1' :: rest => check_escapes (index + 2) rest
  | '~' :: _ =>
    .error s!"`extract.pointer` has an invalid `~` escape at byte {index}; use `~0` for `~` or `~1` for `/`"
  | ch :: rest => check_escapes (index + ch.utf8Size) rest

def validate_json_pointer (pointer : String) : Except String Unit :=
  match pointer.toList with
  | [] => .ok ()
  | '/' :: rest => check_escapes 1 rest
  | _ :: _ => .error "`extract.pointer` must be empty or start with `/` (RFC 6901)"

/-- `/key` or `/section/key`. -/
def is_ini_pointer (pointer : String) : Bool :=
  match pointer.toList with
  | '/' :: path =>
    match path.splitOn '/' with
    | [key] => !key.isEmpty
    | [section_, key] => !section_.isEmpty && !key.isEmpty
    | _ => false
  | _ => false

def SecretExtract.validate (extract : SecretExtract) : Except String Unit :=
  match extract.format with
  | .Json => validate_json_pointer extract.pointer
  | .Ini => do
    refuse (!is_ini_pointer extract.pointer)
      "`extract.pointer` for INI must be `/key` for an unsectioned key or `/section/key` for a named section"
    validate_json_pointer extract.pointer

/-! ## One effective secret -/

namespace Secret

variable (secret : Secret)

def validate_description : Except String Unit :=
  match secret.description with
  | some "" => .error "description cannot be empty"
  | none => .error "missing description"
  | some _ => .ok ()

/-- On raw entries only. -/
def validate_required_default : Except String Unit :=
  refuse (secret.required == some true && secret.default.isSome) "Required secrets cannot have default values"

def validate_group_names (field : String) (unique : List String) : List String → Except String Unit
  | [] => .ok ()
  | group :: groups => do
    refuse (is_blank group) s!"`{field}` group name cannot be empty or whitespace"
    refuse (unique.contains group) s!"`{field}` contains duplicate group name '{group}'"
    validate_group_names field (group :: unique) groups

def validate_group_field (field : String) (groups : Option (List String)) : Except String Unit :=
  groups.forM fun groups => do
    refuse groups.isEmpty s!"`{field}` must name at least one group"
    validate_group_names field [] groups

def validate_groups : Except String Unit := do
  validate_group_field "at_least_one" secret.at_least_one
  validate_group_field "exactly_one" secret.exactly_one
  refuse (secret.required == some true && (secret.at_least_one.isSome || secret.exactly_one.isSome))
    "`required = true` cannot be combined with `at_least_one` or `exactly_one`; group membership governs the secret's presence, so drop `required` or set it to false"

def validate_composed : Except String Unit :=
  secret.composed.forM fun composed => do
    let _ ← Template.parse composed
    refuse (secret.default.isSome || secret.providers.isSome || secret.reference.isSome || secret.refs.isSome ||
        secret.encoding.isSome || secret.extract.isSome || secret.secret_type.isSome || secret.format.isSome ||
        secret.source.isSome || secret.credentials.isSome || secret.would_generate || secret.prompts)
      "`composed` secrets cannot also set `default`, `providers`, `ref`, `refs`, `encoding`, `extract`, `type`, `format`, `from`, `credentials`, enabled `generate`, or `prompt = true`"

def validate_format : Except String (Option Format) :=
  match secret.typed_contract, secret.format, secret.secret_type with
  | some contract, format, _ => contract.format format
  | none, none, _ => .ok none
  | none, some _, some name =>
    .error s!"`format` is not valid for type = \"{name}\"; only `pkcs8_private_key` and `x509_certificate` accept `pem` or `der`"
  | none, some _, none =>
    .error "`format` requires a `type` that accepts formats: `pkcs8_private_key` or `x509_certificate`"

def validate_credential (contract : TypeContract) (binding : String × String) : Except String Unit := do
  let role := binding.1
  let expected := ", ".intercalate (contract.roles.map fun role => s!"`{role}`")
  refuse (!contract.accepts_role role)
    (if contract.roles.isEmpty then s!"type = \"{contract.name}\" accepts no credentials; unknown role `{role}`"
     else s!"unknown credential role `{role}` for type = \"{contract.name}\"; expected {expected}")
  refuse (!is_valid_identifier rules binding.2)
    s!"credential `{role}` must name a declared secret using a valid identifier"

def validate_credentials : Except String Unit :=
  if secret.credential_secrets.isEmpty then .ok ()
  else
    match secret.typed_contract, secret.secret_type with
    | none, some name =>
      .error s!"`credentials` is not valid for type = \"{name}\"; only `x509_identity` and `pkcs12` accept a `password` credential"
    | none, none => .error "`credentials` requires a `type` that accepts credentials: `x509_identity` or `pkcs12`"
    | some contract, _ => do
      secret.credential_secrets.forM (validate_credential rules contract)
      refuse (contract.is_stored && secret.would_generate)
        s!"`credentials` cannot be combined with enabled `generate` for type = \"{contract.name}\"; a generated identity is stored with an empty password and the provider is its boundary"

/-- A `from` secret either selects or converts. -/
def validate_derivation : Except String Unit :=
  match secret.typed_contract, secret.extract, secret.secret_type with
  | some contract, none, _ =>
    refuse contract.is_stored s!"type = \"{contract.name}\" is stored by a provider and cannot be derived with `from`"
  | some _, some _, _ =>
    .error "`from` either selects with `extract` or converts with a derivable `type`, not both"
  | none, some _, some _ => .error "`from` with `extract` cannot also set `type`"
  | none, some _, none => .ok ()
  | none, none, some name =>
    let derivable := ", ".intercalate (derivable_type_names.map fun name => s!"`{name}`")
    .error s!"type = \"{name}\" cannot be derived with `from`; derivable types are {derivable}"
  | none, none, none =>
    .error "`from` requires `extract` to select from the source or a derivable `type` to convert it"

def validate_source (source : String) (format : Option Format) : Except String Unit := do
  refuse (!is_valid_identifier rules source) "`from` must name a declared secret using a valid identifier"
  validate_derivation secret
  refuse (secret.default.isSome || secret.providers.isSome || secret.reference.isSome || secret.refs.isSome ||
      secret.would_generate || secret.prompts)
    "`from` secrets cannot also set `default`, `providers`, `ref`, `refs`, enabled `generate`, or `prompt = true`; the source declaration owns storage"
  refuse (secret.encoding.isSome && !(secret.typed_contract.any fun contract => contract.is_binary format))
    "`encoding` on a `from` secret is valid only when the result is binary: a `pkcs12` or a `der` format"

def validate_stored (contract : TypeContract) : Except String Unit := do
  refuse (!contract.is_stored)
    s!"type = \"{contract.name}\" requires `from`; it is derived from a declared `x509_identity`"
  refuse secret.extract.isSome
    s!"`extract` is not valid for stored type = \"{contract.name}\"; its value is a binary archive"
  refuse (secret.default.isSome || secret.prompts)
    s!"`type = \"{contract.name}\"` cannot be combined with `default` or `prompt = true`; its value is a binary archive"

def validate_typed : Except String Unit := do
  let format ← validate_format secret
  validate_credentials rules secret
  match secret.source, secret.typed_contract with
  | some source, _ => validate_source rules secret source format
  | none, some contract => validate_stored secret contract
  | none, none => .ok ()

def validate_prompt : Except String Unit :=
  if secret.prompts then do
    refuse (secret.required == some false || secret.at_least_one.isSome || secret.exactly_one.isSome)
      "`prompt = true` secrets must be individually required; omit `required` or set `required = true`"
    refuse (secret.default.isSome || secret.would_generate || secret.extract.isSome)
      "`prompt = true` cannot be combined with `default`, enabled `generate`, or `extract`"
  else .ok ()

def validate_extract : Except String Unit :=
  secret.extract.forM fun extract => do
    extract.validate
    refuse secret.would_generate
      "`extract` cannot be combined with enabled `generate`; extracted secrets are read-only"

/-- `field` is how an error names the address. -/
def validate_address (field : String) (address : NativeAddress) : Except String Unit :=
  address.coordinates.forM fun coordinate =>
    let name := coordinate.1
    refuse (coordinate.2.any is_blank) s!"`{field}` coordinate `{name}` cannot be empty or whitespace"

def validate_references : Except String Unit := do
  secret.reference.forM (validate_address "ref")
  refuse (secret.reference.isSome && secret.refs.isSome)
    "`ref` and `refs` cannot both be set; use `refs` for provider-scoped addresses or keep the legacy route-wide `ref`"
  secret.refs.forM fun references => do
    refuse references.is_empty "`refs` must name at least one provider alias"
    references.entries.forM fun entry => do
      refuse (is_blank entry.1) "`refs` provider alias cannot be empty or whitespace"
      validate_address ("refs." ++ entry.1) entry.2

def known_types : List String :=
  ["password", "hex", "base64", "uuid", "command", "rsa_private_key", "openpgp_private_key", "ssh_private_key",
   "passphrase", "mnemonic", "wireguard_private_key", "jwk_private_key", "age_identity", "x509_identity"]

def validate_known_type (secret_type : String) : Except String Unit :=
  refuse (!(known_types.contains secret_type || (contract secret_type).isSome)) s!"unknown secret type '{secret_type}'"

def validate_generate : Except String Unit :=
  secret.generate.forM fun config =>
    if config.is_enabled then
      match secret.secret_type with
      | none => .error "'generate' requires 'type' to be set (e.g., type = \"password\")"
      | some secret_type => do
        refuse secret.default.isSome "'generate' and 'default' cannot both be set"
        rules.check_options secret_type config
        validate_known_type secret_type
    else .ok ()

def validate_type : Except String Unit :=
  secret.secret_type.forM fun secret_type =>
    if secret.would_generate then .ok () else validate_known_type secret_type

def validate_semantics : Except String Unit := do
  validate_groups secret
  validate_composed secret
  validate_typed rules secret
  validate_prompt secret
  validate_extract secret
  validate_references secret
  validate_generate rules secret
  validate_type secret

def validate_effective : Except String Unit := do
  validate_description secret
  validate_semantics rules secret

/-- One declaration on its own. -/
def validate : Except String Unit := do
  validate_description secret
  validate_required_default secret
  validate_semantics rules secret

end Secret

/-! ## One compiled profile -/

section

variable (profile_name : String) (profile : CompiledProfile)

def validate_group_sizes (kind : String) (groups : List CompiledConstraintGroup) : Except ParseError Unit :=
  groups.forM fun group =>
    let name := group.name
    (refuse (group.members.length < 2)
      s!"Profile '{profile_name}': {kind} group '{name}' must contain at least two secrets").mapError .Validation

def validate_profile_constraints : Except ParseError Unit := do
  (profile.exactly_one.find? fun group => (profile.at_least_one.map CompiledConstraintGroup.name).contains group.name).forM
    fun group =>
      let name := group.name
      .error (.Validation s!"Profile '{profile_name}': group '{name}' cannot mix at_least_one and exactly_one membership")
  validate_group_sizes profile_name "at_least_one" profile.at_least_one
  validate_group_sizes profile_name "exactly_one" profile.exactly_one

def CompiledProfile.get (name : String) : Option CompiledSecret := profile.secrets.lookup name

def validate_dependency (name dependency : String) : Except String Unit := do
  refuse (dependency == name) "cannot depend on itself"
  refuse (profile.get dependency).isNone s!"dependency '{dependency}' does not name a declared secret"

/-- The declaration of a dependency. `validate_dependency` comes first, so there is one
    (`AcceptedProfile.dependency_declared`). -/
def dependency_config (name : String) : Except String Secret :=
  match profile.get name with
  | some secret => .ok secret.config
  | none => .error s!"dependency '{name}' does not name a declared secret"

/-- A conversion takes an identity, a selection a text. -/
def validate_source_type (config : Secret) (source : String) : Except String Unit := do
  let source_config ← dependency_config profile source
  match config.typed_contract with
  | some contract =>
    let declared := match source_config.secret_type with
      | some source_type => s!"type = \"{source_type}\""
      | none => "no `type`"
    let derives := " or ".intercalate (contract.sources.map fun source => s!"type = \"{source}\"")
    refuse (!contract.accepts_source source_config.secret_type)
      s!"`from` source '{source}' has {declared}, but type = \"{contract.name}\" derives from {derives}"
  | none =>
    let source_type := source_config.secret_type.getD ""
    refuse source_config.is_binary_value
      s!"`extract` cannot select from '{source}' because its type = \"{source_type}\" is binary"

/-- Credentials are text values. -/
def validate_credential_type (binding : String × String) : Except String Unit := do
  let role := binding.1
  let credential := binding.2
  let credential_config ← dependency_config profile credential
  refuse (credential_config.as_path == some true)
    s!"credential `{role}` names '{credential}', which is delivered as a path; credentials must be text values"
  let credential_type := credential_config.secret_type.getD ""
  refuse credential_config.is_binary_value
    s!"credential `{role}` names '{credential}', whose type = \"{credential_type}\" is binary; credentials must be text values"

def validate_dependencies (name : String) (secret : CompiledSecret) : Except String Unit := do
  secret.dependencies.forM (validate_dependency profile name)
  secret.config.source.forM (validate_source_type profile secret.config)
  secret.config.credential_secrets.forM (validate_credential_type profile)

/-- The edges a search follows: a name without dependencies is no node. -/
def composition_graph (name : String) : List String :=
  match profile.get name with
  | some secret => secret.dependencies.filter fun dependency =>
      (profile.get dependency).any fun other => !other.dependencies.isEmpty
  | none => []

def composition_nodes : List String :=
  (profile.secrets.filter fun entry => !entry.2.dependencies.isEmpty).map Prod.fst

/-- The three-colour visit; `stack` is what it is inside of, innermost first. An error is the
    cycle found. -/
def visit (next : String → List String) : Nat → String → List String → List String → Except (List String) (List String)
  | 0, _, _, _ => .error []
  | fuel + 1, name, stack, done =>
    if name ∈ done then .ok done
    else if name ∈ stack then .error (name :: (stack.takeWhile (· != name)).reverse ++ [name])
    else do
      let done ← (next name).foldlM (fun done dependency => visit next fuel dependency (name :: stack) done) done
      .ok (done ++ [name])

def validate_composition_graph : Except ParseError Unit := do
  profile.secrets.forM fun entry =>
    let name := entry.1
    (validate_dependencies profile name entry.2).mapError fun message =>
      .Validation s!"Profile '{profile_name}': Secret '{name}': {message}"
  match (composition_nodes profile).foldlM (fun done name =>
      visit (composition_graph profile) (profile.secrets.length + 1) name [] done) [] with
  | .ok _ => .ok ()
  | .error cycle =>
    let shown := " -> ".intercalate cycle
    .error (.Validation s!"Profile '{profile_name}': derived secret cycle: {shown}")

def validate_compiled_profile : Except ParseError Unit := do
  profile.secrets.forM fun entry =>
    let name := entry.1
    (entry.2.config.validate_effective rules).mapError fun message =>
      .Validation s!"Profile '{profile_name}': Secret '{name}': {message}"
  validate_profile_constraints profile_name profile
  validate_composition_graph profile_name profile

end

/-! ## The whole configuration -/

/-- Names that differ only by case are one name to a case-insensitive environment; `folded`
    has the last name of each lower-case form. -/
def Profile.validate_names (folded : Map String String) : List (String × Secret) → Except String Unit
  | [] => .ok ()
  | (name, secret) :: entries => do
    refuse (!is_valid_identifier rules name)
      s!"Invalid secret name '{name}': must be a valid identifier (alphanumeric and underscores, not starting with a number)"
    (folded (rules.to_lowercase name)).forM fun existing =>
      refuse (existing != name)
        s!"Secret names '{existing}' and '{name}' differ only by case; the Windows environment treats them as one variable"
    secret.validate_required_default.mapError fun e => s!"Secret '{name}': {e}"
    validate_names (folded.insert (rules.to_lowercase name) name) entries

/-- The declarations of one profile, before inheritance. -/
def Profile.validate_raw (profile : Profile) (can_inherit_secrets : Bool) : Except String Unit := do
  refuse (profile.secrets.is_empty && !can_inherit_secrets) "Profile must define at least one secret"
  Profile.validate_names rules .empty profile.secrets.sorted

def ProjectDefaults.validate (defaults : ProjectDefaults) : Except String Unit := do
  refuse defaults.providers.isEmpty "project defaults must name at least one provider"
  refuse (defaults.providers.any fun provider => is_blank provider.provider_alias)
    "project default providers cannot be empty or whitespace"

def ProviderConfig.depends_on : ProviderConfig → List ProviderDependency
  | .Alias _ => []
  | .Structured config => config.depends_on

namespace Config

variable (config : Config) (compiled : CompiledSpec)

def validate_profile (profile_name : String) (profile : Profile) (can_inherit_secrets : Bool) : Except ParseError Unit := do
  (profile.validate_raw rules can_inherit_secrets).mapError fun e => .Validation s!"Profile '{profile_name}': {e}"
  match compiled.profile profile_name with
  | some compiled_profile => validate_compiled_profile rules profile_name compiled_profile
  | none => .error (.Validation "compiled profiles mirror parsed profiles")

def validate_filter_groups : Except ParseError Unit :=
  compiled.profiles.forM fun profile =>
    profile.2.secrets.forM fun secret =>
      let profile_name := profile.1
      let secret_name := secret.1
      secret.2.config.groups.forM fun groups =>
        match config.groups with
        | none => .error (.Validation
            s!"Secret '{profile_name}.{secret_name}' references groups but no top-level [groups] table is declared")
        | some declared =>
          groups.forM fun group => (refuse (declared.lookup group).isNone
            s!"Secret '{profile_name}.{secret_name}' references undeclared group '{group}'").mapError .Validation

def validate_scope_secrets (scope_name : String) (seen : List String) : List String → Except String Unit
  | [] => .ok ()
  | secret :: secrets => do
    refuse (is_blank secret) s!"Scope '{scope_name}' lists an empty secret name"
    refuse (seen.contains secret) s!"Scope '{scope_name}' lists secret '{secret}' more than once"
    refuse (!((compiled.profiles.flatMap fun profile => profile.2.names).contains secret))
      s!"Scope '{scope_name}' references secret '{secret}', which is not declared in any profile"
    validate_scope_secrets scope_name (secret :: seen) secrets

def validate_scope (scope_name : String) (scope : Scope) : Except String Unit := do
  refuse (is_blank scope_name) "Scope names cannot be empty"
  refuse scope.secrets.isEmpty s!"Scope '{scope_name}' lists no secrets; a scope must name at least one"
  validate_scope_secrets compiled scope_name [] scope.secrets

def validate_scopes : Except ParseError Unit :=
  config.scopes.forM fun scopes => scopes.sorted.forM fun scope =>
    (validate_scope compiled scope.1 scope.2).mapError .Validation

/-- A provider that is built from a secret routed through that provider. -/
def validate_provider_dependency (alias_name : String) (dependency : ProviderDependency) : Except ParseError Unit :=
  compiled.profiles.forM fun profile =>
    let profile_name := profile.1
    let secret_name := dependency.secret
    (profile.2.get dependency.secret).forM fun secret =>
      (refuse ((secret.config.providers.getD []).any fun reference => reference.provider_alias == alias_name)
        s!"Profile '{profile_name}': provider '{alias_name}' depends on secret '{secret_name}' which routes through '{alias_name}' (provider dependency cycle)").mapError
        .Validation

def validate_provider_dependencies : Except ParseError Unit :=
  config.providers.forM fun providers => providers.sorted.forM fun provider =>
    provider.2.depends_on.forM (validate_provider_dependency compiled provider.1)

def validate_and_compile : Except ParseError CompiledSpec := do
  (refuse config.project.name.isEmpty "Project name cannot be empty").mapError .Validation
  (refuse config.profiles.is_empty "At least one profile must be defined").mapError .Validation
  config.defaults.forM fun defaults => defaults.validate.mapError .Validation
  let compiled := CompiledSpec.compile config
  let default_profile := config.profiles.lookup "default"
  default_profile.forM fun profile => validate_profile rules compiled "default" profile false
  (config.profiles.sorted.filter fun profile => profile.1 != "default").forM fun profile =>
    validate_profile rules compiled profile.1 profile.2 (default_profile.isSome && profile.2.inherits_default)
  validate_filter_groups config compiled
  validate_scopes config compiled
  validate_provider_dependencies config compiled
  .ok compiled

end Config

/-! ## What was accepted -/

/-- What validation leaves true of every profile. -/
structure Validated (config : Config) (spec : CompiledSpec) : Prop where
  compiled : spec = CompiledSpec.compile config
  raw : ∀ profile_name profile, config.profiles.lookup profile_name = some profile →
    ∃ can_inherit_secrets, profile.validate_raw rules can_inherit_secrets = .ok ()
  checked : ∀ profile_name compiled_profile, spec.profile profile_name = some compiled_profile →
    validate_compiled_profile rules profile_name compiled_profile = .ok ()

variable {rules} {config : Config} {spec : CompiledSpec}

theorem validate_profile_ok {profile_name : String} {profile : Profile} {cn : Bool}
    (h : Config.validate_profile rules spec profile_name profile cn = .ok ()) :
    profile.validate_raw rules cn = .ok () ∧
      ∀ c, spec.profile profile_name = some c →
        validate_compiled_profile rules profile_name c = .ok () := by
  obtain ⟨hr, h⟩ := bind_unit_ok h
  refine ⟨Except.mapError_ok.mp hr, ?_⟩
  intro c hc
  rw [hc] at h
  exact h

/-- Both passes over the profiles together reach every profile. -/
theorem validated (h : config.validate_and_compile rules = .ok spec) : Validated rules config spec := by
  replace h := rest_ok h
  replace h := rest_ok h
  replace h := rest_ok h
  obtain ⟨hd, h⟩ := bind_unit_ok h
  obtain ⟨ho, h⟩ := bind_unit_ok h
  replace h := rest_ok h
  replace h := rest_ok h
  replace h := rest_ok h
  cases h
  have ha : ∀ profile_name profile, config.profiles.lookup profile_name = some profile →
      ∃ c,
        Config.validate_profile rules (.compile config) profile_name profile c = .ok () := by
    intro profile_name profile hp
    by_cases hn : profile_name = "default"
    · subst hn
      exact ⟨false, Except.option_forM_ok hd hp⟩
    · refine ⟨_, Except.forM_ok_iff.mp ho (profile_name, profile) (List.mem_filter.mpr ⟨?_, ?_⟩)⟩
      · exact Table.mem_sorted.mpr hp
      · simpa using hn
  refine ⟨rfl, ?_, ?_⟩
  · intro profile_name profile hp
    obtain ⟨c, hv⟩ := ha profile_name profile hp
    exact ⟨c, (validate_profile_ok hv).1⟩
  · intro profile_name cm hc
    have hp := hc
    rw [compile_lookup] at hp
    obtain ⟨profile, hp, -⟩ := Option.map_eq_some_iff.mp hp
    obtain ⟨c, hv⟩ := ha profile_name profile hp
    exact (validate_profile_ok hv).2 cm hc

/-! ## Names that differ only by case -/

/-- A case-insensitive environment keeps these names apart. -/
def CaseDistinct (rules : Rules) (names : List String) : Prop :=
  ∀ a ∈ names, ∀ b ∈ names, rules.to_lowercase a = rules.to_lowercase b → a = b

/-- Names that went through are distinct from each other and from those folded before. -/
theorem validate_names_ok {f : Map String String} {en : List (String × Secret)}
    (h : Profile.validate_names rules f en = .ok ()) : CaseDistinct rules (en.map Prod.fst) ∧
      ∀ a ∈ en.map Prod.fst, ∀ e, f (rules.to_lowercase a) = some e → e = a := by
  induction en generalizing f with
  | nil => exact ⟨fun a ha => absurd ha List.not_mem_nil, fun a ha => absurd ha List.not_mem_nil⟩
  | cons et en ih =>
    obtain ⟨name, secret⟩ := et
    replace h := rest_ok h
    obtain ⟨hf, h⟩ := bind_unit_ok h
    replace h := rest_ok h
    obtain ⟨hd, ht⟩ := ih h
    have hn : ∀ e, f (rules.to_lowercase name) = some e → e = name := by
      intro e he
      simpa using refuse_ok (Except.option_forM_ok hf he)
    have hhd : ∀ a ∈ en.map Prod.fst, rules.to_lowercase a = rules.to_lowercase name → name = a := by
      intro a ha hl
      exact ht a ha name (by rw [hl, Map.insert_self])
    constructor
    · intro a ha b hb hl
      rcases List.mem_cons.mp ha with rfl | ha'
      · rcases List.mem_cons.mp hb with rfl | hb'
        · rfl
        · exact hhd b hb' hl.symm
      · rcases List.mem_cons.mp hb with rfl | hb'
        · exact (hhd a ha' hl).symm
        · exact hd a ha' b hb' hl
    · intro a ha e he
      rcases List.mem_cons.mp ha with rfl | ha
      · exact hn e he
      · by_cases hl : rules.to_lowercase a = rules.to_lowercase name
        · rw [hl] at he
          rw [hn e he]
          exact hhd a ha hl
        · exact ht a ha e (by rw [Map.insert_of_ne hl]; exact he)

theorem validate_raw_ok {profile : Profile} {c : Bool}
    (h : profile.validate_raw rules c = .ok ()) : CaseDistinct rules profile.secrets.keys := by
  replace h := rest_ok h
  have hd := (validate_names_ok h).1
  rw [Table.sorted_keys] at hd
  intro a ha b hb
  exact hd a (mem_sorted.mpr ha) b (mem_sorted.mpr hb)

/-- The names of an accepted profile are distinct to a case-insensitive environment exactly
    when none of its own collides with one it inherits. -/
theorem distinct_names (h : config.validate_and_compile rules = .ok spec) {profile_name : String} {profile : Profile}
    (hp : config.profiles.lookup profile_name = some profile) :
    ∃ compiled_profile, spec.profile profile_name = some compiled_profile ∧
      (CaseDistinct rules compiled_profile.names ↔
        ∀ a ∈ profile.secrets, ∀ b ∈ inherited_names config profile_name profile,
          rules.to_lowercase a = rules.to_lowercase b → a = b) := by
  have hc := validated h
  refine ⟨compile_profile config profile_name profile, by rw [hc.compiled, compile_lookup, hp]; rfl, ?_⟩
  have ho : CaseDistinct rules profile.secrets.keys := (hc.raw _ _ hp).elim fun _ hr => validate_raw_ok hr
  have hf : CaseDistinct rules (inherited_names config profile_name profile) := by
    intro a ha b hb
    unfold inherited_names at ha hb
    cases hd : inherited config profile_name profile with
    | none =>
      rw [hd] at ha
      cases ha
    | some default =>
      rw [hd] at ha hb
      unfold inherited at hd
      by_cases hi : (profile_name != "default" && profile.inherits_default)
      · rw [if_pos hi] at hd
        exact (hc.raw _ _ hd).elim fun _ hr => validate_raw_ok hr a ha b hb
      · rw [if_neg hi] at hd
        cases hd
  rw [compile_profile_names]
  constructor
  · intro hal a ha b hb
    exact hal a ((mem_effective_names ..).mpr (.inl ha)) b ((mem_effective_names ..).mpr (.inr hb))
  · intro hcr a ha b hb hl
    rcases (mem_effective_names ..).mp ha with ha | ha
    · rcases (mem_effective_names ..).mp hb with hb | hb
      · exact ho a (AList.mem_keys.mpr ha) b (AList.mem_keys.mpr hb) hl
      · exact hcr a ha b hb hl
    · rcases (mem_effective_names ..).mp hb with hb | hb
      · exact (hcr b hb a ha hl.symm).symm
      · exact hf a ha b hb hl

/-- Rules for ASCII names and no generator options. -/
def ascii : Rules where
  is_alphabetic := Char.isAlpha
  is_alphanumeric := Char.isAlphanum
  to_lowercase name := String.ofList (name.toList.map Char.toLower)
  check_options _ _ := .ok ()

def described : Secret := { Secret.empty with description := some "the database password" }

/-- `default` declares `DB_PASSWORD`, `production` inherits and declares the name. -/
def with_production (name : String) : Config where
  project := ⟨"app", "1.0", none, none⟩
  profiles := AList.insert "production" ⟨none, AList.insert name described ∅⟩
    (AList.insert "default" ⟨none, AList.insert "DB_PASSWORD" described ∅⟩ ∅)
  defaults := none
  providers := none
  groups := none
  scopes := none

theorem distinct_names_api_key : ∃ spec compiled_profile,
    Config.validate_and_compile ascii (with_production "API_KEY") = .ok spec ∧
      spec.profile "production" = some compiled_profile ∧ CaseDistinct ascii compiled_profile.names := by
  obtain ⟨spec, hs⟩ := Except.ok_of_isSome (x := Config.validate_and_compile ascii (with_production "API_KEY")) (by decide +kernel)
  obtain ⟨compiled_profile, hc, hd⟩ :=
    distinct_names hs (show (with_production "API_KEY").profiles.lookup "production" = some _ from rfl)
  refine ⟨spec, compiled_profile, hs, hc, hd.mpr ?_⟩
  decide +kernel

/-- Each profile is folded on its own. -/
theorem folded_twice : ¬ ∀ (config : Config) (spec : CompiledSpec), Config.validate_and_compile ascii config = .ok spec →
    ∀ profile_name compiled_profile, spec.profile profile_name = some compiled_profile →
      CaseDistinct ascii compiled_profile.names := by
  intro h
  obtain ⟨spec, hs⟩ := Except.ok_of_isSome (x := Config.validate_and_compile ascii (with_production "db_password")) (by decide +kernel)
  have hc : spec.profile "production" = some (compile_profile (with_production "db_password") "production"
      ⟨none, AList.insert "db_password" described ∅⟩) := by
    rw [(validated hs).compiled, compile_lookup]
    rfl
  have hd := h _ _ hs _ _ hc
  rw [compile_profile_names] at hd
  have hm := hd "DB_PASSWORD" (by decide +kernel) "db_password" (by decide +kernel) (by decide +kernel)
  revert hm
  decide +kernel

end Monosecret.Manifest
