/-
  Monosecret.Manifest.Compile — the effective view of a configuration
  (`monosecret/src/compiled_spec.rs`).

  Inheritance and the behaviour of a missing value are decided once, for every profile. A
  profile's effective names are its own and, unless it is `default` or declines, those of
  `default` (`mem_effective_names`).
-/

import Monosecret.Manifest.Secret

namespace Monosecret.Manifest

/-- What resolution does when no provider returns a value. -/
inductive MissingPolicy where
  | Error
  | Omit
  | UseDefault
  | Generate
  | Prompt
  deriving DecidableEq

/-! ## Compiled secrets -/

structure CompiledSecret where
  config : Secret
  missing : MissingPolicy
  declared_required : Bool
  composition : Option Template

namespace CompiledSecret

/-- A default or a presence group makes an omitted `required` false. -/
def new (config : Secret) (conditionally_required : Bool) : CompiledSecret :=
  let declared_required := config.required.getD (config.default.isNone && !conditionally_required)
  { config
    missing :=
      if config.prompts then .Prompt
      else if config.would_generate then .Generate
      else if config.default.isSome then .UseDefault
      else if declared_required then .Error
      else .Omit
    declared_required
    composition := config.composed.bind fun source => (Template.parse source).toOption }

variable (secret : CompiledSecret)

/-- Every declared secret this one must resolve first. -/
def dependencies : List String :=
  ((secret.composition.map Template.dependencies).getD []) ++ secret.config.source.toList ++
    secret.config.credential_secrets.map Prod.snd

end CompiledSecret

/-! ## Compiled profiles -/

structure CompiledConstraintGroup where
  name : String
  members : List String
  deriving DecidableEq

/-- The secrets are in name order. -/
structure CompiledProfile where
  secrets : List (String × CompiledSecret)
  at_least_one : List CompiledConstraintGroup
  exactly_one : List CompiledConstraintGroup

structure CompiledSpec where
  project : String
  profiles : List (String × CompiledProfile)

def CompiledProfile.names (profile : CompiledProfile) : List String := profile.secrets.map Prod.fst

def CompiledSpec.profile (spec : CompiledSpec) (name : String) : Option CompiledProfile := spec.profiles.lookup name

def Profile.inherits_default (profile : Profile) : Bool := (profile.defaults.bind ProfileDefaults.inherit).getD true

section

variable (config : Config) (profile_name : String) (profile : Profile)

/-- The profile whose secrets this one inherits. -/
def inherited : Option Profile :=
  if profile_name != "default" && profile.inherits_default then config.profiles.lookup "default" else none

def inherited_names : List String :=
  match inherited config profile_name profile with
  | some default => default.secrets.keys
  | none => []

def effective_names : List String := sorted_set (profile.secrets.keys ++ inherited_names config profile_name profile)

def effective_secret (name : String) : Option Secret :=
  Secret.resolved (profile.secrets.lookup name)
    ((inherited config profile_name profile).bind fun default => default.secrets.lookup name) profile.defaults
    config.defaults

def effective : List (String × Secret) :=
  keyed (effective_secret config profile_name profile) (effective_names config profile_name profile)

/-- The groups a field names, in order, each with a member for every time a secret names it. -/
def constraint_groups (groups : Secret → Option (List String)) (secrets : List (String × Secret)) :
    List CompiledConstraintGroup :=
  (sorted_set (secrets.flatMap fun entry => (groups entry.2).getD [])).map fun group =>
    ⟨group, secrets.flatMap fun entry => (((groups entry.2).getD []).filter fun name => name = group).map fun _ => entry.1⟩

def names_groups (groups : Option (List String)) : Bool := groups.any fun groups => !groups.isEmpty

def compile_secret (secret : Secret) : CompiledSecret :=
  .new secret (names_groups secret.at_least_one || names_groups secret.exactly_one)

def compile_profile : CompiledProfile :=
  let effective := effective config profile_name profile
  { secrets := effective.map fun entry => (entry.1, compile_secret entry.2)
    at_least_one := constraint_groups Secret.at_least_one effective
    exactly_one := constraint_groups Secret.exactly_one effective }

def CompiledSpec.compile : CompiledSpec where
  project := config.project.name
  profiles := config.profiles.sorted.map fun entry => (entry.1, compile_profile config entry.1 entry.2)

/-! ## Names -/

theorem mem_effective_names {n : String} :
    n ∈ effective_names config profile_name profile ↔
      n ∈ profile.secrets ∨ n ∈ inherited_names config profile_name profile := by
  rw [effective_names, mem_sorted_set, List.mem_append, AList.mem_keys]

/-- An effective name comes from the profile or from `default`. -/
theorem effective_secret_isSome {n : String} (h : n ∈ effective_names config profile_name profile) :
    (effective_secret config profile_name profile n).isSome := by
  refine Secret.resolved_isSome ?_ _ _
  rcases (mem_effective_names config profile_name profile).mp h with h | h
  · exact .inl (AList.lookup_isSome.mpr h)
  · right
    unfold inherited_names at h
    cases hd : inherited config profile_name profile with
    | none =>
      rw [hd] at h
      cases h
    | some default =>
      rw [hd] at h
      exact AList.lookup_isSome.mpr (AList.mem_keys.mp h)

theorem effective_fst : (effective config profile_name profile).map Prod.fst = effective_names config profile_name profile :=
  keyed_fst fun _ => effective_secret_isSome config profile_name profile

theorem compile_profile_names :
    (compile_profile config profile_name profile).names = effective_names config profile_name profile := by
  rw [← effective_fst, CompiledProfile.names, compile_profile, List.map_map]
  rfl

end

theorem lookup_map_snd {β γ : Type} (f : String → β → γ) (e : List (String × β)) (k : String) :
    (e.map fun en => (en.1, f en.1 en.2)).lookup k = (e.lookup k).map (f k) := by
  induction e with
  | nil => rfl
  | cons en e ih =>
    obtain ⟨n, value⟩ := en
    rw [List.map_cons, List.lookup_cons, List.lookup_cons]
    by_cases hk : k = n
    · simp [hk]
    · simp [beq_false_of_ne hk, ih]

/-- A compiled profile is the compilation of the profile of that name. -/
theorem compile_lookup (config : Config) (profile_name : String) :
    (CompiledSpec.compile config).profile profile_name =
      (config.profiles.lookup profile_name).map (compile_profile config profile_name) := by
  rw [CompiledSpec.profile, CompiledSpec.compile, lookup_map_snd, Table.lookup_sorted]

end Monosecret.Manifest
