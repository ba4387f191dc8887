/-
  Monosecret.Plan.Route — where a secret reads and writes (`monosecret/src/plan.rs`):
  provider specs, cached aliases and the route each expands to.

  A cached alias is a whole route. In the fallback form it lists its sources; in the inline
  form it names one URI itself. `cached_route` resolves the sources, checks the cache store
  against them and fingerprints the route. What needs a provider's own code is a field of
  `Secrets`: which specs name a provider, the credential checks, the canonical URI and the
  storage identity of a spec, and what a store can do.
-/

import Monosecret.Lib.Except
import Monosecret.Plan.Fingerprint

namespace Monosecret.Plan

open Lib

inductive MonosecretError where
  | ProviderOperationFailed (message : String)
  | ProviderNotFound (message : String)
  | SecretNotFound (message : String)
  | CompositionFailed (message : String)
  | CredentialInvalid (name role reason : String)
  | Other (message : String)
  deriving DecidableEq

/-- `max_age` is parsed once, at construction. -/
structure ProviderCache where
  provider : Text
  max_age_secs : UInt64
  allow_plaintext : Bool
  deriving DecidableEq

structure ProviderAlias where
  uri : Text
  reference_template : Option NativeAddressTemplate
  fallback : List Text
  cache : Option ProviderCache
  deriving DecidableEq

namespace ProviderAlias

def is_cached (entry : ProviderAlias) : Bool := entry.cache.isSome

/-- The single authoritative URI this alias names, if it names one. -/
def authoritative_uri (entry : ProviderAlias) : Option Text := if entry.uri = Text.of "" then none else some entry.uri

end ProviderAlias

/-- The configuration, and what it asks of the provider registry. -/
structure Secrets where
  lookup_provider_alias_entry : Text → Option ProviderAlias
  known_provider_aliases : List Text
  configured_default_provider_spec : Option Text
  spec_names_known_provider : Text → Except MonosecretError Bool
  validate_credential_sources : Text → Except MonosecretError Unit
  canonical_storage_identity : Text → Except MonosecretError Text
  canonical_provider_uri : Text → Except MonosecretError Text
  provider_supports_delete : Text → Except MonosecretError Bool
  provider_encrypts_at_rest : Text → Bool
  redact_uri_strict : Text → String
  deleting_provider_names : List String
  encrypted_provider_names : List String

structure ResolvedPrimary where
  spec : Text
  uri : Text
  deriving DecidableEq

structure ResolvedCache where
  alias_name : Text
  spec : Text
  uri : Text
  max_age_secs : UInt64
  route_fingerprint : Text
  deriving DecidableEq

structure Route where
  primary : Option ResolvedPrimary
  fallback : List Text
  cache : Option ResolvedCache
  deriving DecidableEq

/-- What of a secret's configuration decides its route and its cache fingerprint. -/
structure PlannedSecret where
  name : Text
  providers : Option (List Text)
  reference : Option NativeAddress
  refs : Option (List (Text × NativeAddress))
  deriving DecidableEq

/-! ## Fingerprint of a secret's entry -/

def scoped_ref_parts : Text × NativeAddress → List Text
  | (name, reference) =>
    [Text.of "scoped-ref", name, coordinate_fingerprint (Text.of "native-ref") reference.coordinates]

def PlannedSecret.address_fingerprint (planned : PlannedSecret) : Text :=
  match planned.reference with
  | some reference => coordinate_fingerprint (Text.of "legacy-ref") reference.coordinates
  | none =>
    match planned.refs with
    | some references =>
      let entries := references.mergeSort fun a b => decide (a.1.text ≤ b.1.text)
      stable_fingerprint
        (Text.of "scoped-refs" :: entries.map fun reference => stable_fingerprint (scoped_ref_parts reference))
    | none => Text.of "convention"

def PlannedSecret.cache_parts (planned : PlannedSecret) (cache : ResolvedCache) (project profile : Text) : List Text :=
  [project, profile, cache.route_fingerprint, planned.name, planned.address_fingerprint]

def PlannedSecret.cache_fingerprint (planned : PlannedSecret) (cache : ResolvedCache) (project profile : Text) : Text :=
  stable_fingerprint (planned.cache_parts cache project profile)

/-! ## Resolving one spec -/

/-- `str::contains`. -/
def contains_chars (pattern : List Char) : List Char → Bool
  | [] => pattern.isEmpty
  | c :: cs => pattern.isPrefixOf (c :: cs) || contains_chars pattern cs

namespace Secrets

variable (s : Secrets)

def lookup_provider_alias (spec : Text) : Option Text :=
  (s.lookup_provider_alias_entry spec).bind ProviderAlias.authoritative_uri

def cached_alias (spec : Text) : Option ProviderAlias :=
  (s.lookup_provider_alias_entry spec).filter ProviderAlias.is_cached

def resolve_provider_spec (spec : Text) : Text := (s.lookup_provider_alias spec).getD spec

def resolve_one_provider (spec : Text) : Except MonosecretError Text :=
  if contains_chars "://".toList spec.text.toList then .ok spec
  else if (s.cached_alias spec).isSome then
    .error (.ProviderOperationFailed
      s!"cached provider alias '{spec}' is a complete route and cannot be used where a leaf provider is required")
  else match s.lookup_provider_alias spec with
    | some uri => .ok uri
    | none => do
      if ← s.spec_names_known_provider spec then .ok spec
      else if s.known_provider_aliases.isEmpty then
        .error (.ProviderNotFound
          s!"Provider alias '{spec}' is not defined. Declare it in [providers] in monosecret.toml or in the global config.")
      else
        let known := ", ".intercalate (s.known_provider_aliases.map Text.text)
        .error (.ProviderNotFound s!"Provider alias '{spec}' is not defined. Available aliases: {known}")

/-! ## Expanding a cached entry -/

/-- The specs a cached alias reads from, in order, each with its resolved URI. The inline
    form builds under the alias's own name, so that its credentials apply. -/
def cached_sources (name : Text) (entry : ProviderAlias) : Except MonosecretError (List (Text × Text)) :=
  match entry.authoritative_uri with
  | some uri => do
    s.validate_credential_sources name
    let uri ← s.resolve_one_provider uri
    .ok [(name, uri)]
  | none =>
    entry.fallback.mapM fun spec => do
      let uri ← s.resolve_one_provider spec
      s.validate_credential_sources spec
      .ok (spec, uri)

def declared_template (spec : Text) : Option NativeAddressTemplate :=
  (s.lookup_provider_alias_entry spec).bind ProviderAlias.reference_template

def template_fingerprint (template : Option NativeAddressTemplate) : Text :=
  match template with
  | some template => coordinate_fingerprint (Text.of "ref-template") template.coordinates
  | none => Text.of "convention"

def source_route_parts : Text × Text → List Text
  | (spec, uri) => [Text.of "source-route", spec, uri, template_fingerprint (s.declared_template spec)]

/-- What `route_fingerprint` hashes: one part for each fallback spec, zipped with the
    canonical URIs. -/
def source_route_fingerprints (entry : ProviderAlias) (source_route_uris : List Text) : List Text :=
  (entry.fallback.zip source_route_uris).map fun source => stable_fingerprint (s.source_route_parts source)

/-- The checks on the store a cached alias caches into. -/
def check_cache_store (name : Text) (entry : ProviderAlias) (cache : ProviderCache) (cache_uri : Text)
    (source_identities : List Text) (cache_identity : Text) : Except MonosecretError Unit := do
  match source_identities.findIdx? fun identity => identity == cache_identity with
  | some shared =>
    let uri := s.redact_uri_strict cache_uri
    let source := ((entry.authoritative_uri.or entry.fallback[shared]?).map s.redact_uri_strict).getD ""
    .error (.ProviderOperationFailed
      (s!"cached provider alias '{name}' caches into '{uri}', which is also its authoritative source '{source}'. A " ++
        "cache must be a distinct store, otherwise refreshing it overwrites the secret it caches."))
  | none => .ok ()
  let supports_delete ← s.provider_supports_delete cache.provider
  if supports_delete = false then
    let uri := s.redact_uri_strict cache_uri
    let supported := ", ".intercalate s.deleting_provider_names
    .error (.ProviderOperationFailed
      (s!"cached provider alias '{name}' caches into '{uri}', which cannot delete secrets, so its entries could never " ++
        "be invalidated. Cache into an external provider advertising `provider.delete`, or one of: " ++
        s!"{supported}."))
  if cache.allow_plaintext = false ∧ s.provider_encrypts_at_rest cache.provider = false then
    let uri := s.redact_uri_strict cache_uri
    let supported := ", ".intercalate s.encrypted_provider_names
    .error (.ProviderOperationFailed
      (s!"cached provider alias '{name}' caches into '{uri}', which does not store values encrypted at rest, so the " ++
        "cache would be a plaintext copy of every secret it serves. Cache into an encrypted provider " ++
        s!"({supported}), or set cache.allow_plaintext = true on the alias if that is acceptable here."))

/-- A cached alias has one form, and everything it names is a leaf. -/
def check_leaves (name : Text) (entry : ProviderAlias) (cache : ProviderCache) : Except MonosecretError Unit :=
  if entry.authoritative_uri.isSome ∧ entry.fallback ≠ [] then
    .error (.ProviderOperationFailed s!"cached provider alias '{name}' cannot declare both uri and fallback")
  else match (entry.fallback ++ [cache.provider]).find? fun spec => (s.cached_alias spec).isSome with
    | some spec =>
      .error (.ProviderOperationFailed
        (s!"cached provider alias '{name}' cannot use cached alias '{spec}' as a fallback or cache provider; " ++
          "cached aliases may contain only leaf providers"))
    | none => .ok ()

def cached_route (name : Text) (entry : ProviderAlias) : Except MonosecretError Route :=
  match entry.cache with
  | none => .error (.ProviderOperationFailed s!"provider alias '{name}' does not declare a cache policy")
  | some cache => do
    s.check_leaves name entry cache
    let sources ← s.cached_sources name entry
    let cache_uri ← s.resolve_one_provider cache.provider
    s.validate_credential_sources cache.provider
    let source_identities ← (sources.map Prod.snd).mapM s.canonical_storage_identity
    let source_route_uris ← (sources.map Prod.snd).mapM s.canonical_provider_uri
    let cache_identity ← s.canonical_storage_identity cache_uri
    s.check_cache_store name entry cache cache_uri source_identities cache_identity
    match sources with
    | [] =>
      .error (.ProviderOperationFailed s!"cached provider alias '{name}' requires at least one authoritative source")
    | (first, first_uri) :: rest =>
      .ok
        { primary := some { spec := first, uri := first_uri }
          fallback := rest.map Prod.fst
          cache := some
            { alias_name := name
              spec := cache.provider
              uri := cache_uri
              max_age_secs := cache.max_age_secs
              route_fingerprint := stable_fingerprint (s.source_route_fingerprints entry source_route_uris) } }

/-! ## The route of a secret -/

def route_for (planned : PlannedSecret) (override_spec : Option Text) : Except MonosecretError Route :=
  match override_spec with
  | some spec =>
    match s.cached_alias spec with
    | some entry => s.cached_route spec entry
    | none => do
      s.validate_credential_sources spec
      .ok { primary := some { spec, uri := s.resolve_provider_spec spec }, fallback := [], cache := none }
  | none =>
    match planned.providers with
    | some (first :: fallback) =>
      match (first :: fallback).find? fun spec => (s.cached_alias spec).isSome with
      | some spec =>
        if fallback ≠ [] then
          .error (.ProviderOperationFailed
            (s!"cached provider alias '{spec}' is a complete route and cannot be combined with additional entries in " ++
              "a secret's providers list"))
        else match s.cached_alias spec with
          | some entry => s.cached_route spec entry
          | none => .error (.Other "the spec was just found to be a cached alias")
      | none => do
        let uri ← s.resolve_one_provider first
        s.validate_credential_sources first
        .ok { primary := some { spec := first, uri }, fallback, cache := none }
    | _ =>
      match s.configured_default_provider_spec.bind fun spec => (s.cached_alias spec).map (spec, ·) with
      | some (spec, entry) => s.cached_route spec entry
      | none => .ok { primary := none, fallback := [], cache := none }

/-! ## What a cached route was made of -/

variable {s}
variable {name : Text} {entry : ProviderAlias}

theorem cached_sources_map_fst {sr : List (Text × Text)} (h : s.cached_sources name entry = .ok sr) :
    sr.map Prod.fst = if entry.authoritative_uri.isSome then [name] else entry.fallback := by
  unfold cached_sources at h
  cases hu : entry.authoritative_uri with
  | some u =>
    rw [hu] at h
    replace h := Except.rest_ok h
    obtain ⟨u', -, h⟩ := Except.bind_ok h
    cases h
    rfl
  | none =>
    rw [hu] at h
    refine Except.mapM_ok_map ?_ h
    intro sp sc hs
    obtain ⟨u, -, hs⟩ := Except.bind_ok hs
    replace hs := Except.rest_ok hs
    cases hs
    rfl

/-- Everything a cached alias was expanded from. -/
structure Expanded (s : Secrets) (name : Text) (entry : ProviderAlias) (route : Route) (cache : ProviderCache)
    (sources : List (Text × Text)) (source_route_uris : List Text) (cache_uri : Text) : Prop where
  policy : entry.cache = some cache
  one_form : entry.authoritative_uri.isSome = true → entry.fallback = []
  leaves : ∀ spec ∈ entry.fallback ++ [cache.provider], s.cached_alias spec = none
  from_sources : s.cached_sources name entry = .ok sources
  canonical : (sources.map Prod.snd).mapM s.canonical_provider_uri = .ok source_route_uris
  store : s.resolve_one_provider cache.provider = .ok cache_uri
  primary : route.primary = sources.head?.map fun source => ⟨source.1, source.2⟩
  primary_some : route.primary.isSome = true
  fallback : route.fallback = sources.tail.map Prod.fst
  resolved : route.cache = some ⟨name, cache.provider, cache_uri, cache.max_age_secs,
    stable_fingerprint (s.source_route_fingerprints entry source_route_uris)⟩

theorem check_leaves_ok {c : ProviderCache} (h : s.check_leaves name entry c = .ok ()) :
    (entry.authoritative_uri.isSome → entry.fallback = []) ∧
      ∀ sp ∈ entry.fallback ++ [c.provider], s.cached_alias sp = none := by
  unfold check_leaves at h
  split at h
  · cases h
  · rename_i hf
    constructor
    · intro hs
      by_contra hn
      exact hf ⟨hs, hn⟩
    · split at h
      · cases h
      · rename_i hfn
        intro sp hp
        simpa using List.find?_eq_none.mp hfn sp hp

theorem cached_route_ok {route : Route} (h : s.cached_route name entry = .ok route) :
    ∃ cache sources source_route_uris cache_uri, Expanded s name entry route cache sources source_route_uris cache_uri := by
  unfold cached_route at h
  cases hc : entry.cache with
  | none => rw [hc] at h; cases h
  | some cache =>
    rw [hc] at h
    obtain ⟨hl, h⟩ := Except.bind_unit_ok h
    obtain ⟨sources, hs, h⟩ := Except.bind_ok h
    obtain ⟨cache_uri, hcache_uri, h⟩ := Except.bind_ok h
    replace h := Except.rest_ok h
    obtain ⟨sr, -, h⟩ := Except.bind_ok h
    obtain ⟨source_route_uris, hu, h⟩ := Except.bind_ok h
    obtain ⟨c, -, h⟩ := Except.bind_ok h
    replace h := Except.rest_ok h
    obtain ⟨ho, hf⟩ := check_leaves_ok hl
    cases sources with
    | nil => cases h
    | cons sc r =>
      cases h
      exact ⟨cache, sc :: r, source_route_uris, cache_uri, hc, ho, hf, hs, hu, hcache_uri,
        rfl, rfl, rfl, rfl⟩

/-- Of what a store can do, only whether a cache store deletes is asked here. -/
theorem cached_route_congr {f g : Text → Except MonosecretError Bool}
    (h : ∀ cache, entry.cache = some cache → f cache.provider = g cache.provider) :
    ({ s with provider_supports_delete := f } : Secrets).cached_route name entry =
      ({ s with provider_supports_delete := g } : Secrets).cached_route name entry := by
  unfold cached_route
  cases hc : entry.cache with
  | none => rfl
  | some cache =>
    have hch : ({ s with provider_supports_delete := f } : Secrets).check_cache_store name entry cache =
        ({ s with provider_supports_delete := g } : Secrets).check_cache_store name entry cache := by
      funext cache_uri source_identities cache_identity
      unfold check_cache_store
      simp only [h cache hc]
    simp only [hch]
    rfl

end Secrets

end Monosecret.Plan
