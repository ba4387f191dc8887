/-
  Monosecret.Resolve.Construct — building a provider for use (`build_provider_for_use` and
  what it calls in `monosecret/src/secrets.rs`).

  A provider's credentials come from source providers, which are built without credentials
  of their own; its `depends_on` secrets are looked up by name, and the lookup builds the
  providers of their routes. The chain of what is being built on this thread is an argument
  here. What providers and stores answer is `Registry` and `Backend`; a memo of providers or
  credentials answers what building again would.

  A construction calls constructions on longer chains of declared providers, so it ends
  after as many levels as there are declarations: `build_provider_for_use` is the source's
  recursion (`build_provider_for_use_eq`), and more fuel changes nothing.
-/

import Monosecret.Lib.Descent
import Monosecret.Resolve.Named

namespace Monosecret.Resolve

open Lib Plan Cache

/-! ## What is asked of providers -/

/-- A secret needed to construct a provider. -/
structure ProviderDependency where
  secret : Text
  as_name : Option Text
  deriving DecidableEq

def ProviderDependency.effective_as (dependency : ProviderDependency) : Text := dependency.as_name.getD dependency.secret

structure CredentialSource where
  provider : Text
  reference : Option NativeAddress
  deriving DecidableEq

inductive ProducedValuePersistence where
  | Persist
  | Ephemeral
  deriving DecidableEq

inductive CachedEntry where
  | Fresh (value : ProviderValue) (refresh_at_unix_ms : Option UInt64)
  | Stale
  | Foreign
  deriving DecidableEq

/-- Provider code: what a spec builds and how a built provider takes what it needs.
    `delete_capability` is what is known of a spec without building it. -/
structure Registry (Provider : Type) where
  spec_uses_dynamic_credentials : Text → Except MonosecretError Bool
  provider_from_spec : Text → List (Text × SecretBytes) → Except MonosecretError Provider
  external_provider_from_spec : Text → List (Text × CredentialSource × Provider) → Except MonosecretError Provider
  get_credential : Provider → CredentialSource → Text → Except MonosecretError (Option SecretBytes)
  location : CredentialSource → Text → String
  configure_dependency_secrets : Provider → List (Text × SecretBytes) → Except MonosecretError Provider
  delete_capability : Text → Option Bool
  supports_delete : Provider → Bool
  redact_uri_strict : Text → Text
  override_display_uri : Text → Except MonosecretError Text

/-- What a built provider answers during a pass. `ambient` answers what no provider is
    asked. -/
structure Backend (Provider Identity : Type) where
  uri : Provider → Text
  cached_entry : Provider → PlannedSecret → Option CachedEntry
  resolve_coords : Provider → Option Text → PlannedSecret → Except MonosecretError Unit
  get_many : Provider → Option Text → List PlannedSecret → Except MonosecretError (PlannedSecret → Option ProviderValue)
  get_with_metadata : Provider → Text → PlannedSecret → Except MonosecretError (Option ProviderValue)
  try_prompt : Provider → PlannedSecret → Except MonosecretError SecretBytes
  generate : PlannedSecret → Except MonosecretError GeneratedValue
  generated_binary : ∀ planned bytes, planned.secret.is_derived = false → generate planned = .ok (.Binary bytes) →
    planned.secret.is_typed_stored = true
  generated_value_persistence : Provider → ProducedValuePersistence
  save_generated : Provider → PlannedSecret → GeneratedValue → Except MonosecretError Unit
  ambient : Answers Identity

/-- `providers` are the project's entries that declare dependencies, `credentials` an
    alias's credentials in name order, `config` what of a secret decides its route, and
    `visible` the names the session offers. -/
structure Session (Provider Identity : Type) where
  secrets : Secrets
  providers : List (Text × List ProviderDependency)
  credentials : Text → List (Text × CredentialSource)
  registry : Registry Provider
  backend : Backend Provider Identity
  profile_name : Text
  profile : CompiledProfile
  config : CompiledSecret → Plan.PlannedSecret
  validate_scoped_refs : CompiledSecret → Except MonosecretError Unit
  ensure_reason : Except MonosecretError Unit
  visible : Except MonosecretError (List Text)
  declared : ∀ names, visible = .ok names → ∀ name ∈ names, name ∈ profile.names

inductive ChainEntry where
  | Provider (spec : Text)
  | Secret (name : Text)
  deriving DecidableEq

def ChainEntry.text : ChainEntry → String
  | .Provider spec => spec.text
  | .Secret name => name.text

def ChainEntry.provider : ChainEntry → Option Text
  | .Provider spec => some spec
  | .Secret _ => none

/-- One construction: the chain it is entered with, its spec and its use. -/
structure Construction where
  chain : List ChainEntry
  spec : Text
  allow_inline_cached : Bool
  deriving DecidableEq

/-- A lookup inside a construction fails the construction. -/
def LookupError.error : LookupError → MonosecretError
  | .failed error => error
  | .SecretNotText name reason => .Other s!"Secret '{name}' is not usable as text: {reason}"
  | .ValidationFailed _ => .Other "Validation failed"

abbrev Build (Provider : Type) := Construction → Except MonosecretError Provider

namespace Session

variable {Provider Identity : Type} (s : Session Provider Identity)

/-! ## One leaf -/

/-- Only a planned route may unwrap an inline cached alias. -/
def ensure_provider_use_allowed (spec : Text) (allow_inline_cached : Bool) : Except MonosecretError Unit :=
  if (s.secrets.cached_alias spec).any fun entry => !allow_inline_cached || entry.authoritative_uri.isNone then
    .error (.ProviderOperationFailed
      (s!"cached provider alias '{spec}' is a complete route; select it through a secret's providers list, the " ++
        "default provider, or --provider"))
  else .ok ()

def explain_unknown_provider (resolved : Text) (error : MonosecretError) : MonosecretError :=
  match error with
  | .ProviderNotFound _ =>
    if contains_chars [':'] resolved.text.toList || s.secrets.known_provider_aliases.isEmpty then error
    else
      let known := ", ".intercalate (s.secrets.known_provider_aliases.map Text.text)
      .ProviderNotFound s!"{resolved} (not a known provider or alias; available aliases: {known})"
  | _ => error

def build_provider_with_credentials (spec : Text) (credentials : List (Text × SecretBytes))
    (allow_inline_cached : Bool) : Except MonosecretError Provider := do
  s.ensure_provider_use_allowed spec allow_inline_cached
  let resolved := s.secrets.resolve_provider_spec spec
  (s.registry.provider_from_spec resolved credentials).mapError (s.explain_unknown_provider resolved)

/-- Without the credentials the spec declares, so that credential chains are one hop. -/
def build_source_provider (spec : Text) : Except MonosecretError Provider :=
  s.build_provider_with_credentials spec [] false

def resolve_credential (spec : Text) (credential : Text × CredentialSource) :
    Except MonosecretError (Text × SecretBytes) := do
  let (name, source) := credential
  let location := s.registry.location source name
  let provider ← s.build_source_provider source.provider
  match ← s.registry.get_credential provider source name with
  | some value =>
    if value.isEmpty then
      .error (.ProviderOperationFailed
        (s!"credential '{name}' for provider '{spec}' resolved to an empty value from {location}; store a non-empty " ++
          s!"value with `monosecret config provider login {spec}` or remove the credential to use the provider's " ++
          "environment fallback"))
    else .ok (name, value)
  | none =>
    .error (.ProviderOperationFailed
      (s!"credential '{name}' for provider '{spec}' was not found in {location}; store it there with " ++
        s!"`monosecret config provider login {spec}`"))

def resolve_provider_credentials (spec : Text) : Except MonosecretError (List (Text × SecretBytes)) :=
  if (s.credentials spec).isEmpty then .ok []
  else do
    s.secrets.validate_credential_sources spec
    (s.credentials spec).mapM (s.resolve_credential spec)

/-- An external provider asks for its credentials itself. -/
def external_provider_credential_broker (spec : Text) : Except MonosecretError (List (Text × CredentialSource × Provider)) := do
  s.secrets.validate_credential_sources spec
  (s.credentials spec).mapM fun credential =>
    (s.build_source_provider credential.2.provider).map fun provider => (credential.1, credential.2, provider)

/-- The provider before its dependencies. -/
def build_leaf (spec : Text) (allow_inline_cached : Bool) : Except MonosecretError Provider := do
  s.ensure_provider_use_allowed spec allow_inline_cached
  let resolved := s.secrets.resolve_provider_spec spec
  match ← s.registry.spec_uses_dynamic_credentials resolved with
  | true => do
    let broker ← s.external_provider_credential_broker spec
    (s.registry.external_provider_from_spec resolved broker).mapError (s.explain_unknown_provider resolved)
  | false => do
    let credentials ← s.resolve_provider_credentials spec
    s.build_provider_with_credentials spec credentials allow_inline_cached

/-! ## What a pass asks of the providers it builds -/

section

variable (explicit_spec : Option Text) (build : Text → Bool → Except MonosecretError Provider)

def default_provider_spec (key : Option Text) : Except MonosecretError Text :=
  match (key.or explicit_spec).or s.secrets.configured_default_provider_spec with
  | some spec => .ok spec
  | none =>
    .error (.Other
      ("No provider backend configured.\n\nTo fix this, either:\n  1. Run 'monosecret config global init' to set up " ++
        "your default provider\n  2. Use --provider flag (e.g., 'monosecret check --provider keyring')"))

def get_route_provider (key : Option Text) : Except MonosecretError Provider := do
  build (← s.default_provider_spec explicit_spec key) true

/-- The store that would take a value produced for the secret. -/
def write_provider (planned : PlannedSecret) : Except MonosecretError Provider :=
  match planned.route with
  | some route => s.get_route_provider explicit_spec build (group_key route)
  | none => .error (.Other "a generating secret is provider-backed")

def cached_found (planned : PlannedSecret) : Option (ProviderValue × Text × Option UInt64) :=
  match planned.route.bind Route.cache with
  | none => none
  | some cache =>
    match build cache.spec false with
    | .error _ => none
    | .ok provider =>
      match s.backend.cached_entry provider planned with
      | some (.Fresh value refresh) => some (value, s.backend.uri provider, refresh)
      | _ => none

def generated_value_is_stored (planned : PlannedSecret) : Bool :=
  match s.write_provider explicit_spec build planned with
  | .ok provider => s.backend.generated_value_persistence provider == .Persist
  | .error _ => true

/-- The value is minted first, and kept where the store keeps such values. -/
def try_generate_secret (planned : PlannedSecret) : Except MonosecretError GeneratedValue := do
  let value ← s.backend.generate planned
  let provider ← s.write_provider explicit_spec build planned
  match s.backend.generated_value_persistence provider with
  | .Ephemeral => .ok value
  | .Persist => (s.backend.save_generated provider planned value).map fun _ => value

theorem try_generate_ok {p : PlannedSecret} {value : GeneratedValue}
    (h : s.try_generate_secret explicit_spec build p = .ok value) : s.backend.generate p = .ok value := by
  obtain ⟨m, hm, h⟩ := Except.bind_ok h
  obtain ⟨pr, -, h⟩ := Except.bind_ok h
  rw [hm]
  cases hp : s.backend.generated_value_persistence pr with
  | Ephemeral =>
    rw [hp] at h
    exact h
  | Persist =>
    rw [hp] at h
    cases hs : s.backend.save_generated pr p m with
    | error e =>
      rw [hs] at h
      cases h
    | ok _ =>
      rw [hs] at h
      exact h

/-- What a pass is answered, given how providers are built. -/
def answers (report : Except MonosecretError Text) : Answers Identity :=
  { s.backend.ambient with
    cached := s.cached_found build
    get_route_provider := fun key => (s.get_route_provider explicit_spec build key).map s.backend.uri
    resolve_coords := fun key planned =>
      match s.get_route_provider explicit_spec build key with
      | .ok provider => s.backend.resolve_coords provider key planned
      | .error _ => .ok ()
    get_many := fun key members => do
      s.backend.get_many (← s.get_route_provider explicit_spec build key) key members
    resolve_one_provider := s.secrets.resolve_one_provider
    shared_provider := fun spec => (build spec false).map s.backend.uri
    get_with_metadata := fun spec planned => do
      s.backend.get_with_metadata (← build spec false) spec planned
    try_prompt_secret := fun planned => do
      s.backend.try_prompt (← s.write_provider explicit_spec build planned) planned
    try_generate_secret := s.try_generate_secret explicit_spec build
    generated_binary := fun planned bytes hd h =>
      s.backend.generated_binary planned bytes hd (s.try_generate_ok explicit_spec build h)
    generated_value_is_stored := s.generated_value_is_stored explicit_spec build
    report_provider_uri := report }

def least : List Text → Option Text
  | [] => none
  | uri :: uris => some (uris.foldl (fun a b => if b.text < a.text then b else a) uri)

/-- The URI a result names: the override's, the least primary's, or the default provider's. -/
def validation_report_provider_uri (plan : ResolutionPlan) : Except MonosecretError Text :=
  match plan.override_uri with
  | some uri => .ok (s.registry.redact_uri_strict uri)
  | none =>
    match ((plan.secrets.filterMap PlannedSecret.route).mapM fun route : Route => route.primary.map ResolvedPrimary.uri).bind least with
    | some uri => .ok (s.registry.redact_uri_strict uri)
    | none => do
      let spec ← s.default_provider_spec explicit_spec none
      if (s.secrets.cached_alias spec).isSome then
        (s.registry.override_display_uri spec).map s.registry.redact_uri_strict
      else (build spec false).map s.backend.uri

end

/-! ## Planning -/

section

variable (explicit_spec : Option Text) (build : Text → Bool → Except MonosecretError Provider)

def provider_supports_delete (spec : Text) : Except MonosecretError Bool :=
  match s.registry.delete_capability (s.secrets.resolve_provider_spec spec) with
  | some supports_delete => .ok supports_delete
  | none => (build spec false).map s.registry.supports_delete

def plan_route (secret : CompiledSecret) : Except MonosecretError Route := do
  s.validate_scoped_refs secret
  { s.secrets with provider_supports_delete := s.provider_supports_delete build }.route_for (s.config secret) explicit_spec

def manager : Manager where
  profile_name := s.profile_name
  profile := s.profile
  route_for := s.plan_route explicit_spec build
  override_uri :=
    match explicit_spec with
    | some spec => (s.registry.override_display_uri spec).map some
    | none => .ok none
  ensure_reason := s.ensure_reason
  visible := s.visible
  declared := s.declared

end

/-! ## Construction -/

def depends_on (spec : Text) : List ProviderDependency := (s.providers.lookup spec).getD []

variable (build : Build Provider)

/-- How a lookup inside the construction of `chain` builds providers. -/
def nested (chain : List ChainEntry) (spec : Text) (allow_inline_cached : Bool) : Except MonosecretError Provider :=
  build ⟨chain, spec, allow_inline_cached⟩

/-- A lookup of one name that ignores the session's explicit provider. -/
def lookup (build : Text → Bool → Except MonosecretError Provider) (name : Text) :
    Except LookupError (NamedResolution SecretBytes) :=
  let manager := s.manager none build
  let report := manager.named_plan name >>= s.validation_report_provider_uri none build
  resolve_named_owned_within (fun _ value => .ok value) (s.answers none build report) manager .Values name

/-- The lookup of an offered name with a plan. -/
theorem lookup_eq {build : Text → Bool → Except MonosecretError Provider} {n : Text} {visible : List Text}
    {p : ResolutionPlan} (hr : s.ensure_reason = .ok ()) (hv : s.visible = .ok visible) (hn : n ∈ visible)
    (hp : (s.manager none build).named_plan n = .ok p) :
    s.lookup build n =
      ((execute_plan (s.answers none build (s.validation_report_provider_uri none build p)) p .Values none
        s.profile).mapError LookupError.failed >>= finish_named (fun _ value => .ok value) n) := by
  unfold lookup resolve_named_owned_within
  have hr' : (s.manager none build).ensure_reason = .ok () := hr
  have hv' : (s.manager none build).visible = .ok visible := hv
  simp only [hr', hv', hp, resolve_planned_eq hp, Except.mapError, bind, Except.bind, if_pos hn]
  rfl

/-- `resolve_named_bytes`, inside a construction. -/
def resolve_named_bytes (chain : List ChainEntry) (name : Text) : Except MonosecretError (NamedResolution SecretBytes) :=
  (s.lookup (nested build chain) name).mapError LookupError.error

def resolve_dependency (chain : List ChainEntry) (spec : Text) (dependency : ProviderDependency) :
    Except MonosecretError (Text × SecretBytes) := do
  match ← s.resolve_named_bytes build (chain ++ [.Secret dependency.secret]) dependency.secret with
  | .Value value _ => .ok (dependency.effective_as, value)
  | _ =>
    .error (.ProviderOperationFailed s!"provider '{spec}' requires secret '{dependency.secret}' but it was not found")

def cycle_error (chain : List ChainEntry) (spec : Text) : MonosecretError :=
  let rendered := " -> ".intercalate (chain.map ChainEntry.text ++ [spec.text])
  .ProviderOperationFailed s!"provider dependency cycle: {rendered}"

/-- One level of `build_provider_for_use`; the constructions inside it are `build`'s. -/
def build_step (c : Construction) : Except MonosecretError Provider :=
  if .Provider c.spec ∈ c.chain then .error (cycle_error c.chain c.spec)
  else do
    let provider ← s.build_leaf c.spec c.allow_inline_cached
    let dependencies ← (s.depends_on c.spec).mapM (s.resolve_dependency build (c.chain ++ [.Provider c.spec]) c.spec)
    s.registry.configure_dependency_secrets provider dependencies

/-- The source has no bound; `build_provider_for_use_eq` is its recursion. -/
def build_provider_for_use : Build Provider :=
  Descent.run s.build_step (.error (.Other "stack overflow")) (s.providers.length + 1)

/-! ## It ends -/

/-- The declarations that are not being built. -/
def size (c : Construction) : Nat :=
  (s.providers.map Prod.fst).countP fun spec => decide (.Provider spec ∉ c.chain)

variable {s}

theorem declared_of_dependency {sp : Text} {d : ProviderDependency} (h : d ∈ s.depends_on sp) :
    sp ∈ s.providers.map Prod.fst := by
  unfold depends_on at h
  cases hl : s.providers.lookup sp with
  | none =>
    rw [hl] at h
    cases h
  | some dp =>
    obtain ⟨pre, p, hs, -⟩ := List.lookup_eq_some_iff.mp hl
    rw [hs, List.map_append]
    exact List.mem_append_right _ (.head _)

theorem size_le (c : Construction) : s.size c ≤ s.providers.length := by
  unfold size
  exact Nat.le_trans List.countP_le_length (Nat.le_of_eq (List.length_map _))

/-- A construction inside a declared provider leaves one declaration less. -/
theorem size_nested {c : Construction} (hf : .Provider c.spec ∉ c.chain) (hd : c.spec ∈ s.providers.map Prod.fst)
    (m : List ChainEntry) (sp : Text) (a : Bool) :
    s.size ⟨c.chain ++ .Provider c.spec :: m, sp, a⟩ < s.size c := by
  unfold size
  refine countP_lt_countP ?_ hd (by simpa using hf) (by simp)
  intro other _ h
  simp only [decide_eq_true_eq] at h ⊢
  exact fun hm => h (List.mem_append_left _ hm)

theorem build_step_descends : Descent.Descends s.build_step s.size := by
  intro f g c hf
  unfold build_step
  by_cases he : .Provider c.spec ∈ c.chain
  · rw [if_pos he, if_pos he]
  · rw [if_neg he, if_neg he]
    have hd : (s.depends_on c.spec).mapM (s.resolve_dependency f (c.chain ++ [.Provider c.spec]) c.spec) =
        (s.depends_on c.spec).mapM (s.resolve_dependency g (c.chain ++ [.Provider c.spec]) c.spec) := by
      refine Except.mapM_congr fun d hn => ?_
      have hs : nested f (c.chain ++ [.Provider c.spec] ++ [.Secret d.secret]) =
          nested g (c.chain ++ [.Provider c.spec] ++ [.Secret d.secret]) := by
        funext spec allow_inline_cached
        refine hf _ ?_
        rw [List.append_assoc]
        exact size_nested he (declared_of_dependency hn) _ _ _
      unfold resolve_dependency resolve_named_bytes
      rw [hs]
    rw [hd]

/-- However much more fuel there is, and whatever running out of it would give, a
    construction comes to the same. -/
theorem build_provider_for_use_enough (o : Except MonosecretError Provider) {f : Nat}
    (h : s.providers.length < f) (c : Construction) :
    Descent.run s.build_step o f c = s.build_provider_for_use c :=
  Descent.run_enough build_step_descends o _ (Nat.lt_of_le_of_lt (size_le c) h) (Nat.lt_succ_of_le (size_le c))

/-- The recursion of the source. -/
theorem build_provider_for_use_eq (c : Construction) : s.build_provider_for_use c = s.build_step s.build_provider_for_use c :=
  Descent.run_fixed build_step_descends _ (fun c => Nat.lt_succ_of_le (size_le c)) c

end Session

end Monosecret.Resolve
