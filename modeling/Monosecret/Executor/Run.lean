/-
  Monosecret.Executor.Run — one resolution pass over a plan (`ResolutionExecution` in
  `monosecret/src/secrets.rs`), with every branch it expects not to reach.

  Such a branch panics (`Attempt.expect`, `Attempt.unreachable`). What providers, stores, the
  generator, the terminal, the file system, the codecs and the X.509 code answer is `World`;
  any of them may fail. Kept is what decides which branch is taken. What a pass reports
  besides (deadlines, revisions, addresses, provenance) is in `Resolve.Execute`; cache
  refreshes, audit records and the owners of temp files do not come back into the pass.
-/

import Monosecret.Executor.Plan
import Monosecret.Resolve.Construct

namespace Monosecret.Executor

open Lib Manifest
open Plan (MonosecretError Route ResolvedCache)
open Cache (SecretBytes ProviderValue utf8)
open Resolve (Materialize ResolutionStatus ResolvedRepresentation GeneratedValue PendingTyped CachedEntry
  ProducedValuePersistence utf8_text)

structure FallbackRead where
  value : Option ProviderValue
  provider_uri : Option String

inductive ProjectedValue where
  | Text (value : String)
  | Binary (bytes : SecretBytes)
  deriving DecidableEq

/-- What the pass asks. `native` is whether an address has coordinates of its own,
    `read_file` reads a file back that the pass wrote, and `utf8_error` says what is wrong
    with bytes that are no text. -/
structure World (Provider Address Identity : Type) where
  build_provider : Lib.Text → Except MonosecretError Provider
  get_many : Provider → List String → Except MonosecretError (Map String SecretBytes)
  cached_entry : PlannedSecret → ResolvedCache → SecretBytes → CachedEntry
  uri : Provider → String
  get_route_provider : Option Lib.Text → Except MonosecretError Provider
  address_for_spec : PlannedSecret → Option Lib.Text → Except MonosecretError Address
  native : Address → Bool
  resolve_coords : Provider → Address → Except MonosecretError Unit
  get_many_with_metadata : Provider → List (String × Address) → Except MonosecretError (Map String ProviderValue)
  read_fallback_chain : PlannedSecret → List Lib.Text → Except MonosecretError FallbackRead
  generate : String → GenerateConfig → Except MonosecretError SecretBytes
  generate_identity : GenerateConfig → Except MonosecretError SecretBytes
  generated_value_persistence : Provider → ProducedValuePersistence
  prompted_value_persistence : Provider → ProducedValuePersistence
  ensure_produced_write_allowed : String → Except MonosecretError Unit
  check_writable : Provider → Address → Except MonosecretError Unit
  preflight_write : PlannedSecret → Provider → Except MonosecretError Unit
  prompt_run_secret : String → Option String → Except MonosecretError SecretBytes
  set : Provider → Address → SecretBytes → Except MonosecretError Unit
  decode_stored_value : SecretEncoding → String → SecretBytes → Except MonosecretError SecretBytes
  encode_logical_bytes : SecretEncoding → SecretBytes → SecretBytes
  extract_stored_value : SecretExtract → String → String → Except MonosecretError SecretBytes
  write_secret_to_temp_file : SecretBytes → Except MonosecretError String
  read_file : String → Except MonosecretError SecretBytes
  validate_credential_value : String → String → Except String Unit
  decode_identity : SecretBytes → Option String → String → Except MonosecretError Identity
  to_pkcs12 : Identity → Option String → String → Except MonosecretError SecretBytes
  key_der : Identity → SecretBytes
  certificate_der : Identity → SecretBytes
  secret_pem : String → SecretBytes → String
  chain_der : Identity → List SecretBytes
  utf8_error : SecretBytes → String
  validation_report_provider_uri : ResolutionPlan → Except MonosecretError String

/-- What a pass keeps. -/
structure Execution (Identity : Type) where
  values : Map String SecretBytes
  missing_required : List String
  missing_optional : List String
  resolution : List (String × ResolutionStatus)
  group_uris : Map (Option Lib.Text) String
  fetched_values : Map String ProviderValue
  failed_primary_uris : Map (Option Lib.Text) MonosecretError
  cached_uris : Map String String
  fallback_results : Map String (Except MonosecretError FallbackRead)
  pending_typed : Map String PendingTyped
  identities : Map String Identity

def Execution.init {Identity : Type} : Execution Identity :=
  ⟨.empty, [], [], [], .empty, .empty, .empty, .empty, .empty, .empty, .empty⟩

/-- The names an operation exposes; none when nothing is filtered. -/
abbrev OutputFilter := Option (List String)

def OutputFilter.admits (filter : OutputFilter) (name : String) : Bool :=
  match filter with
  | some names => decide (name ∈ names)
  | none => true

def diagnostic_secret_name (name : String) (filter : OutputFilter) : String :=
  if filter.admits name then name else Resolve.HIDDEN_SECRET_LABEL

def SecretEncoding.as_str : SecretEncoding → String
  | .Base64 => "base64"
  | .Base64Url => "base64url"
  | .Hex => "hex"

def ExtractFormat.as_str : ExtractFormat → String
  | .Json => "json"
  | .Ini => "ini"

def decode_failed (name encoding reason : String) : MonosecretError :=
  .Other s!"Failed to decode secret '{name}' using {encoding}: {reason}"

variable {Provider Address Identity : Type} (world : World Provider Address Identity)

/-! ## Values -/

section

variable (filter : OutputFilter) (planned : PlannedSecret)

/-- Decoding and extraction apply to values that crossed a storage boundary. -/
def decode_and_extract (value : SecretBytes) (representation : ResolvedRepresentation) :
    Except MonosecretError SecretBytes := do
  let name := diagnostic_secret_name planned.name filter
  match representation with
  | .Logical => .ok value
  | .Stored => do
    let decoded ←
      match planned.encoding with
      | some encoding => world.decode_stored_value encoding name value
      | none => .ok value
    match planned.extract with
    | none => .ok decoded
    | some extract =>
      match utf8_text decoded, planned.encoding with
      | some text, _ => world.extract_stored_value extract name text
      | none, some encoding =>
        .error (decode_failed name (SecretEncoding.as_str encoding)
          (s!"decoded bytes are not valid UTF-8 and cannot be extracted as {ExtractFormat.as_str extract.format} " ++
            s!"({world.utf8_error decoded})"))
      | none, none =>
        .error (decode_failed name (ExtractFormat.as_str extract.format)
          (s!"stored bytes are not valid UTF-8 and cannot be extracted as {ExtractFormat.as_str extract.format} " ++
            s!"({world.utf8_error decoded})"))

/-- The value itself, or the path of an owner-only file that holds it. -/
def prepare_resolved (value : SecretBytes) (representation : ResolvedRepresentation) : Except MonosecretError SecretBytes := do
  let bytes ← decode_and_extract world filter planned value representation
  if planned.as_path then (world.write_secret_to_temp_file bytes).map utf8 else .ok bytes

def insert_resolved (value : SecretBytes) (representation : ResolvedRepresentation) (st : Execution Identity) :
    Attempt MonosecretError (Execution Identity) := do
  let delivered ← Attempt.call (prepare_resolved world filter planned value representation)
  .ok { st with values := st.values.insert planned.name delivered }

/-- A registry-typed stored value is parked until its credentials have resolved. -/
def insert_stored (value : SecretBytes) (st : Execution Identity) : Attempt MonosecretError (Execution Identity) :=
  if planned.is_typed_stored then .ok { st with pending_typed := st.pending_typed.insert planned.name (.Stored value) }
  else insert_resolved world filter planned value .Stored st

def insert_generated (value : GeneratedValue) (st : Execution Identity) : Attempt MonosecretError (Execution Identity) :=
  match value with
  | .Text value => insert_resolved world filter planned value .Logical st
  | .Binary bytes => .ok { st with pending_typed := st.pending_typed.insert planned.name (.Logical bytes) }

/-- Bytes are delivered as a file or in their encoding. -/
def deliver_bytes (bytes : SecretBytes) (st : Execution Identity) : Attempt MonosecretError (Execution Identity) :=
  if planned.as_path then do
    let path ← Attempt.call (world.write_secret_to_temp_file bytes)
    .ok { st with values := st.values.insert planned.name (utf8 path) }
  else do
    let encoding ← Attempt.expect "binary values always carry an encoding" planned.encoding
    .ok { st with values := st.values.insert planned.name (world.encode_logical_bytes encoding bytes) }

/-! ## Producing a value -/

def generated_value_is_stored : Bool :=
  match planned.route with
  | none => true
  | some route =>
    match world.get_route_provider (group_key route) with
    | .ok backend => world.generated_value_persistence backend == .Persist
    | .error _ => true

/-- The bytes a store keeps for a generated value. -/
def stored_form (value : GeneratedValue) : Attempt MonosecretError SecretBytes := do
  let encoded ←
    match value with
    | .Text value => .ok (planned.encoding.map fun encoding => world.encode_logical_bytes encoding value)
    | .Binary bytes => do
      let encoding ← Attempt.expect "binary generators require a validated encoding" planned.encoding
      .ok (some (world.encode_logical_bytes encoding bytes))
  match value, encoded with
  | _, some stored => .ok stored
  | .Text value, none => .ok value
  | .Binary _, none => Attempt.unreachable "binary generators require a stored encoding"

/-- Mint a value of the declared type. -/
def mint (config : GenerateConfig) (secret_type : String) : Except MonosecretError GeneratedValue :=
  if secret_type = "x509_identity" then (world.generate_identity config).map .Binary
  else (world.generate secret_type config).map .Text

/-- None when no generator is enabled. -/
def try_generate_secret : Attempt MonosecretError (Option GeneratedValue) :=
  match planned.config.generate.filter GenerateConfig.is_enabled with
  | none => .ok none
  | some config =>
    if planned.extract.isSome then
      .error (.failed (.Other
        s!"Secret '{planned.name}' uses `extract` and is read-only; update its containing document in the source provider instead"))
    else
      match planned.config.secret_type with
      | none =>
        .error (.failed (.Other s!"Secret generation failed: Secret '{planned.name}' has generate config but no type"))
      | some secret_type => do
        let value ← Attempt.call (mint world config secret_type)
        let route ← Attempt.expect "a generating secret is provider-backed" planned.route
        let address ← Attempt.call (world.address_for_spec planned (group_key route))
        let backend ← Attempt.call (world.get_route_provider (group_key route))
        if world.generated_value_persistence backend = .Ephemeral then .ok (some value)
        else do
          Attempt.call (world.ensure_produced_write_allowed planned.name)
          Attempt.call (world.check_writable backend address)
          let stored ← stored_form world planned value
          Attempt.call (world.set backend address stored)
          let _ ← Attempt.expect "a generating secret is provider-backed" planned.route
          .ok (some value)

def try_prompt_secret : Attempt MonosecretError SecretBytes := do
  let route ← Attempt.expect "a prompted secret is provider-backed" planned.route
  let address ← Attempt.call (world.address_for_spec planned (group_key route))
  let backend ← Attempt.call (world.get_route_provider (group_key route))
  if world.prompted_value_persistence backend = .Persist then do
    Attempt.call (world.ensure_produced_write_allowed planned.name)
    Attempt.call (world.preflight_write planned backend)
    let value ← Attempt.call (world.prompt_run_secret planned.name (some (world.uri backend)))
    let stored := (planned.encoding.map fun encoding => world.encode_logical_bytes encoding value).getD value
    Attempt.call (world.set backend address stored)
    .ok value
  else Attempt.call (world.prompt_run_secret planned.name none)

end

/-! ## Reading the sources -/

/-- Fresh cache entries by name, with the URI of the store that serves them. -/
abbrev Cached := Map String (ProviderValue × String)

/-- A stale entry is evicted, a foreign one left alone. -/
def read_cached_entry (uri : String) (stored : Map String SecretBytes) (cached : Cached) (planned : PlannedSecret) :
    Attempt MonosecretError Cached :=
  match stored planned.name with
  | none => .ok cached
  | some entry => do
    let cache ← Attempt.expect "the group was built from secrets with a cached route" (planned.route.bind Route.cache)
    match world.cached_entry planned cache entry with
    | .Fresh value _ => .ok (cached.insert planned.name (value, uri))
    | .Stale => .ok cached
    | .Foreign => .ok cached

/-- A cache store that cannot be used is passed over with a warning. -/
def read_cached_store (cached : Cached) (group : Lib.Text × List PlannedSecret) : Attempt MonosecretError Cached :=
  match world.build_provider group.1 with
  | .error _ => .ok cached
  | .ok provider =>
    match world.get_many provider (group.2.map PlannedSecret.name) with
    | .error _ => .ok cached
    | .ok stored => group.2.foldlM (read_cached_entry world (world.uri provider) stored) cached

def read_cached_values (plan : ResolutionPlan) (st : Execution Identity) : Attempt MonosecretError (Execution Identity) := do
  let cached ← plan.cache_groups.foldlM (read_cached_store world) .empty
  .ok { st with
    cached_uris := fun name => (cached name).map Prod.snd
    fetched_values := fun name => (cached name).map Prod.fst }

structure GroupFetch (Provider : Type) where
  key : Option Lib.Text
  group : List PlannedSecret
  provider : Provider

/-- A store that cannot be built has failed for its group. -/
def construct_group (constructed : Execution Identity × List (GroupFetch Provider))
    (group : Option Lib.Text × List PlannedSecret) : Execution Identity × List (GroupFetch Provider) :=
  let (st, fetches) := constructed
  let members := group.2.filter fun planned => (st.cached_uris planned.name).isNone
  if members.isEmpty then constructed
  else
    match world.get_route_provider group.1 with
    | .ok provider =>
      ({ st with group_uris := st.group_uris.insert group.1 (world.uri provider) }, fetches ++ [⟨group.1, members, provider⟩])
    | .error e => ({ st with failed_primary_uris := st.failed_primary_uris.insert group.1 e }, fetches)

def check_single_store_ref_coords (fetch : GroupFetch Provider) : Attempt MonosecretError PUnit :=
  fetch.group.forM fun planned =>
    match planned.route with
    | none => .ok ⟨⟩
    | some route =>
      if (fallback_specs route).isSome then .ok ⟨⟩
      else do
        let address ← Attempt.call (world.address_for_spec planned fetch.key)
        if world.native address then Attempt.call (world.resolve_coords fetch.provider address) else .ok ⟨⟩

def fetch_group (fetch : GroupFetch Provider) : Except MonosecretError (Map String ProviderValue) := do
  let requests ← fetch.group.mapM fun planned =>
    (world.address_for_spec planned fetch.key).map fun address => (planned.name, address)
  world.get_many_with_metadata fetch.provider requests

/-- Groups are fetched on threads of their own when there are several. -/
def fetch_on_thread (fetch : GroupFetch Provider) :
    Attempt MonosecretError (Option Lib.Text × Except MonosecretError (Map String ProviderValue)) :=
  (Attempt.join "group fetch thread panicked" (Attempt.call (fetch_group world fetch))).map fun result => (fetch.key, result)

def take_fetch (st : Execution Identity) (result : Option Lib.Text × Except MonosecretError (Map String ProviderValue)) :
    Execution Identity :=
  match result.2 with
  | .ok batch => { st with fetched_values := fun name => (batch name).or (st.fetched_values name) }
  | .error e => { st with failed_primary_uris := st.failed_primary_uris.insert result.1 e }

def fetch_primary_values (plan : ResolutionPlan) (st : Execution Identity) : Attempt MonosecretError (Execution Identity) := do
  let (st, fetches) := plan.groups.foldl (construct_group world) (st, [])
  fetches.forM (check_single_store_ref_coords world)
  let results ← fetches.mapM (fetch_on_thread world)
  .ok (results.foldl take_fetch st)

def pending_fallback (st : Execution Identity) (planned : PlannedSecret) : Bool :=
  (st.fetched_values planned.name).isNone && (planned.route.bind fallback_specs).isSome

def read_fallback (planned : PlannedSecret) : Attempt MonosecretError (String × Except MonosecretError FallbackRead) := do
  let route ← Attempt.expect "pending fallback has a provider route" planned.route
  let fallback ← Attempt.expect "pending fallback has fallback specs" (fallback_specs route)
  .ok (planned.name, world.read_fallback_chain planned fallback)

def fetch_fallback_values (plan : ResolutionPlan) (st : Execution Identity) : Attempt MonosecretError (Execution Identity) := do
  let results ← (plan.secrets.filter (pending_fallback st)).mapM (read_fallback world)
  .ok { st with fallback_results := fun name => results.lookup name }

/-! ## The provider pass -/

section

variable (materialize : Materialize) (filter : OutputFilter)

def push (planned : PlannedSecret) (status : ResolutionStatus) (st : Execution Identity) : Execution Identity :=
  { st with resolution := st.resolution ++ [(planned.name, status)] }

def miss (planned : PlannedSecret) (required : Bool) (st : Execution Identity) : Execution Identity :=
  if required then push planned .MissingRequired { st with missing_required := st.missing_required ++ [planned.name] }
  else push planned .MissingOptional { st with missing_optional := st.missing_optional ++ [planned.name] }

def keep_found (planned : PlannedSecret) (value : ProviderValue) (st : Execution Identity) :
    Attempt MonosecretError (Execution Identity) := do
  let st ← if materialize.values then insert_stored world filter planned value.value st else .ok st
  .ok (push planned .Resolved st)

def apply_missing (planned : PlannedSecret) (st : Execution Identity) : Attempt MonosecretError (Execution Identity) :=
  match planned.secret.missing with
  | .Prompt =>
    if materialize.prompts && filter.admits planned.name then do
      let prompted ← try_prompt_secret world planned
      let st ← insert_resolved world filter planned prompted .Logical st
      .ok (push planned .Resolved st)
    else .ok (miss planned planned.required st)
  | .Generate =>
    if materialize.values then do
      let generated ← try_generate_secret world planned
      let value ← Attempt.expect "compiled Generate policy has a generator" generated
      let st ← insert_generated world filter planned value st
      .ok (push planned .Resolved st)
    else if planned.required && generated_value_is_stored world planned then .ok (miss planned true st)
    else .ok (push planned .Resolved st)
  | .UseDefault => do
    let value ← Attempt.expect "compiled UseDefault policy has a default" planned.config.default
    let st ← if materialize.values then insert_resolved world filter planned (utf8 value) .Logical st else .ok st
    .ok (push planned .Resolved st)
  | .Error => .ok (miss planned true st)
  | .Omit => .ok (miss planned false st)

/-- A primary that failed rather than lacked the secret, when nothing else has it. -/
def primary_error (key : Option Lib.Text) (st : Execution Identity) : Attempt MonosecretError (Execution Identity) := do
  let e ← Attempt.expect "primary_failed implies entry present" (st.failed_primary_uris key)
  .error (.failed e)

/-- What the fallback walk came to, or nothing without one. -/
def take_fallback (planned : PlannedSecret) (route : Route) (st : Execution Identity) :
    Attempt MonosecretError (FallbackRead × Execution Identity) :=
  let primary_failed := (st.failed_primary_uris (group_key route)).isSome
  match fallback_specs route with
  | some _ => do
    let result ← Attempt.expect "primary miss with fallback was prefetched" (st.fallback_results planned.name)
    let resolved ← Attempt.call result
    let st := { st with fallback_results := st.fallback_results.remove planned.name }
    if resolved.value.isNone && primary_failed then do
      let st ← primary_error (group_key route) st
      .ok (resolved, st)
    else .ok (resolved, st)
  | none =>
    if primary_failed then do
      let st ← primary_error (group_key route) st
      .ok (⟨none, none⟩, st)
    else .ok (⟨none, none⟩, st)

def resolve_provider_backed (st : Execution Identity) (planned : PlannedSecret) :
    Attempt MonosecretError (Execution Identity) :=
  match planned.route with
  | none => .ok st
  | some route =>
    match st.fetched_values planned.name with
    | some value =>
      keep_found world materialize filter planned value
        { st with
          fetched_values := st.fetched_values.remove planned.name
          cached_uris := st.cached_uris.remove planned.name }
    | none => do
      let (resolved, st) ← take_fallback planned route st
      match resolved.value with
      | some value => keep_found world materialize filter planned value st
      | none => apply_missing world materialize filter planned st

end

/-! ## The derived pass -/

def is_node (planned : PlannedSecret) : Bool := planned.is_derived || planned.is_typed_stored

/-- Depth first, every node after its dependencies. -/
def ResolutionPlan.ordered (plan : ResolutionPlan) : List PlannedSecret :=
  Schedule.ordered PlannedSecret.name PlannedSecret.dependencies (plan.secrets.filter is_node)

/-- Render once; values are appended as they are. -/
def Template.render (template : Template) (lookup : String → Option String) : Except String String :=
  template.parts.foldlM (fun rendered part => do
    let value ←
      match part with
      | .Literal text => .ok text
      | .Reference name =>
        match lookup name with
        | some value => .ok value
        | none => .error s!"composed dependency `{name}` is not resolved"
    if Resolve.MAX_RENDERED_BYTES < rendered.utf8ByteSize + value.utf8ByteSize then
      .error s!"composed value exceeds the {Resolve.MAX_RENDERED_BYTES / 1024 / 1024} MiB limit"
    else .ok (rendered ++ value)) ""

def text_input (name : String) (value : SecretBytes) : Except MonosecretError String :=
  match utf8_text value with
  | some text => .ok text
  | none => .error (.CompositionFailed
      s!"dependency '{name}' is not valid UTF-8; declare `as_path = true` to compose its file path")

def compose (filter : OutputFilter) (template : Template) (values : Map String SecretBytes) :
    Except MonosecretError String := do
  let inputs ← (template.dependencies.filterMap fun name => (values name).map fun value => (name, value)).mapM fun input =>
    (text_input (diagnostic_secret_name input.1 filter) input.2).map fun text => (input.1, text)
  (Template.render template fun name => inputs.lookup name).mapError .CompositionFailed

section

variable (plan : ResolutionPlan) (materialize : Materialize) (filter : OutputFilter)

/-- The value bound to one credential role; none when the role is unbound. -/
def credential_value (planned : PlannedSecret) (role : String) (values : Map String SecretBytes) :
    Attempt MonosecretError (Option String) :=
  match planned.credential role with
  | none => .ok none
  | some credential => do
    let name := diagnostic_secret_name planned.name filter
    let value ←
      match values credential with
      | some value => .ok value
      | none =>
        .error (.failed (.CredentialInvalid name role
          s!"depends on '{diagnostic_secret_name credential filter}', which did not resolve"))
    match utf8_text value with
    | none => .error (.failed (.CredentialInvalid name role "credential is not valid UTF-8"))
    | some text => do
      Attempt.call ((world.validate_credential_value role text).mapError (.CredentialInvalid name role))
      let text ← Attempt.expect "validated credential" (utf8_text value)
      .ok (some text)

/-- The bytes a typed value was parked with. -/
def pending_bytes (planned : PlannedSecret) : PendingTyped → Attempt MonosecretError SecretBytes
  | .Stored value => do
    let encoding ← Attempt.expect "binary stored types always carry an encoding" planned.encoding
    Attempt.call (world.decode_stored_value encoding (diagnostic_secret_name planned.name filter) value)
  | .Logical bytes => .ok bytes

def finalize_typed_stored (planned : PlannedSecret) (st : Execution Identity) :
    Attempt MonosecretError (Execution Identity) := do
  let pending ← Attempt.expect "a resolved typed stored secret parked its value" (st.pending_typed planned.name)
  let st := { st with pending_typed := st.pending_typed.remove planned.name }
  let bytes ← pending_bytes world filter planned pending
  let password ← credential_value world filter planned "password" st.values
  let identity ← Attempt.call (world.decode_identity bytes password (diagnostic_secret_name planned.name filter))
  let st ← deliver_bytes world planned bytes st
  .ok { st with identities := st.identities.insert planned.name identity }

/-- `Identity::project`. -/
def project (identity : Identity) (projection : Projection) (format : Option Format) (password : Option String)
    (name : String) : Except MonosecretError ProjectedValue :=
  match projection, format.getD .Pem with
  | .Pkcs12, _ => (world.to_pkcs12 identity password name).map .Binary
  | .Pkcs8PrivateKey, .Der => .ok (.Binary (world.key_der identity))
  | .Pkcs8PrivateKey, .Pem => .ok (.Text (world.secret_pem "PRIVATE KEY" (world.key_der identity)))
  | .Certificate, .Der => .ok (.Binary (world.certificate_der identity))
  | .Certificate, .Pem => .ok (.Text (world.secret_pem "CERTIFICATE" (world.certificate_der identity)))
  | .CertificateChain, _ =>
    .ok (.Text (String.join
      ((world.certificate_der identity :: world.chain_der identity).map (world.secret_pem "CERTIFICATE"))))
  | .IssuerChain, _ => .ok (.Text (String.join ((world.chain_der identity).map (world.secret_pem "CERTIFICATE"))))

/-- The source's text: of the file when the source is delivered as one. -/
def source_text (planned source_planned : PlannedSecret) (source : SecretBytes) (extract : SecretExtract) :
    Attempt MonosecretError String := do
  let bytes ←
    if source_planned.as_path then do
      let path ← Attempt.expect "materialized path is UTF-8" (utf8_text source)
      Attempt.call (world.read_file path)
    else .ok source
  match utf8_text bytes with
  | some text => .ok text
  | none =>
    .error (.failed (decode_failed (diagnostic_secret_name planned.name filter) (ExtractFormat.as_str extract.format)
      s!"source value is not valid UTF-8: {world.utf8_error bytes}"))

/-- Select from the source's text. -/
def select_from (planned : PlannedSecret) (source_name : String) (extract : SecretExtract) (st : Execution Identity) :
    Attempt MonosecretError (Execution Identity) := do
  let source_planned ← Attempt.expect "validated `from` source is in the resolution plan" (plan.find source_name)
  let source ← Attempt.expect "a resolved `from` source has a value" (st.values source_name)
  let text ← source_text world filter planned source_planned source extract
  let value ← Attempt.call (world.extract_stored_value extract (diagnostic_secret_name planned.name filter) text)
  insert_resolved world filter planned value .Logical st

/-- Convert the source's identity. -/
def convert_from (planned : PlannedSecret) (source_name : String) (st : Execution Identity) :
    Attempt MonosecretError (Execution Identity) := do
  let contract ← Attempt.expect "a converting `from` secret has a registry type" planned.config.typed_contract
  let projection ← Attempt.expect "derivable registry types define a projection" contract.projection
  let password ← credential_value world filter planned "password" st.values
  let identity ← Attempt.expect "an x509_identity source is decoded before its projections" (st.identities source_name)
  match ← Attempt.call (project world identity projection planned.config.typed_format password
      (diagnostic_secret_name planned.name filter)) with
  | .Text value => insert_resolved world filter planned (utf8 value) .Logical st
  | .Binary bytes => deliver_bytes world planned bytes st

def resolve_from (planned : PlannedSecret) (st : Execution Identity) : Attempt MonosecretError (Execution Identity) := do
  let source_name ← Attempt.expect "a `from` secret names its source" planned.source
  match planned.extract with
  | some extract => select_from world plan filter planned source_name extract st
  | none => convert_from world filter planned source_name st

/-- The derived pass: the execution so far and the status of every secret decided. -/
structure Deriving (Identity : Type) where
  st : Execution Identity
  statuses : Map String ResolutionStatus

namespace Deriving

def start (st : Execution Identity) : Deriving Identity := ⟨st, fun name => st.resolution.lookup name⟩

def dependencies_resolved (planned : PlannedSecret) (d : Deriving Identity) : Bool :=
  planned.dependencies.all fun name => d.statuses name == some .Resolved

/-- Missing under its own policy: the provider pass had found it. -/
def lose_typed_stored (planned : PlannedSecret) (d : Deriving Identity) : Deriving Identity :=
  let status := if planned.secret.missing = .Omit then ResolutionStatus.MissingOptional else .MissingRequired
  let st := { d.st with
    pending_typed := d.st.pending_typed.remove planned.name
    resolution := d.st.resolution.map fun entry : String × ResolutionStatus => if entry.1 = planned.name then (entry.1, status) else entry }
  { st :=
      if planned.secret.missing = .Omit then { st with missing_optional := st.missing_optional ++ [planned.name] }
      else { st with missing_required := st.missing_required ++ [planned.name] }
    statuses := d.statuses.insert planned.name status }

def derive_typed (planned : PlannedSecret) (d : Deriving Identity) : Attempt MonosecretError (Deriving Identity) :=
  if d.statuses planned.name = some .Resolved then
    if d.dependencies_resolved planned then
      if materialize.values then (finalize_typed_stored world filter planned d.st).map fun st => ⟨st, d.statuses⟩
      else .ok d
    else .ok (d.lose_typed_stored planned)
  else .ok d

/-- The value of a derived secret. -/
def derive_value (planned : PlannedSecret) (st : Execution Identity) : Attempt MonosecretError (Execution Identity) :=
  match planned.secret.composition with
  | some template => do
    let rendered ← Attempt.call (compose filter template st.values)
    insert_resolved world filter planned (utf8 rendered) .Logical st
  | none => resolve_from world plan filter planned st

def decide_derived (planned : PlannedSecret) (d : Deriving Identity) :
    Attempt MonosecretError (ResolutionStatus × Execution Identity) :=
  if d.dependencies_resolved planned then do
    let st ← if materialize.values then derive_value world plan filter planned d.st else .ok d.st
    .ok (.Resolved, st)
  else
    match planned.secret.missing with
    | .Error => .ok (.MissingRequired, { d.st with missing_required := d.st.missing_required ++ [planned.name] })
    | .Omit => .ok (.MissingOptional, { d.st with missing_optional := d.st.missing_optional ++ [planned.name] })
    | .Generate | .UseDefault | .Prompt => Attempt.unreachable "derived source conflicts are rejected at load time"

/-- How the value was derived. -/
def derivation (planned : PlannedSecret) : Attempt MonosecretError Resolve.Derivation :=
  if planned.is_composed then .ok .Composed
  else
    match planned.source with
    | some source =>
      let shown := diagnostic_secret_name source filter
      .ok (if planned.extract.isSome then .SelectedFrom shown else .ConvertedFrom shown)
    | none => Attempt.unreachable "derived nodes are composed or converted"

def derive_derived (planned : PlannedSecret) (d : Deriving Identity) : Attempt MonosecretError (Deriving Identity) := do
  let (status, st) ← decide_derived world plan materialize filter planned d
  let _ ← derivation filter planned
  .ok ⟨push planned status st, d.statuses.insert planned.name status⟩

def derive_one (d : Deriving Identity) (planned : PlannedSecret) : Attempt MonosecretError (Deriving Identity) :=
  if planned.is_typed_stored then derive_typed world materialize filter planned d
  else derive_derived world plan materialize filter planned d

end Deriving

end

/-! ## Finishing -/

structure Outcome where
  provider : String
  values : Map String SecretBytes
  resolution : List (String × ResolutionStatus)
  missing_required : List String
  missing_optional : List String
  violations : List String

def apply_output_filter (filter : OutputFilter) (st : Execution Identity) : Execution Identity :=
  match filter with
  | none => st
  | some names =>
    { st with
      values := st.values.retain fun name => decide (name ∈ names)
      resolution := st.resolution.filter fun entry => decide (entry.1 ∈ names)
      missing_required := st.missing_required.filter fun name => decide (name ∈ names)
      missing_optional := st.missing_optional.filter fun name => decide (name ∈ names) }

/-- The groups that are broken, of those with a member the filter admits. -/
def violated (filter : OutputFilter) (resolution : List (String × ResolutionStatus)) (broken : List String → Bool)
    (groups : List CompiledConstraintGroup) : List String :=
  (groups.filter fun group =>
    let members := group.members.filter fun name => filter.admits name
    let present := members.filter fun name => decide ((name, ResolutionStatus.Resolved) ∈ resolution)
    !members.isEmpty && broken present).map CompiledConstraintGroup.name

def constraint_violations (spec : CompiledSpec) (plan : ResolutionPlan) (filter : OutputFilter) (st : Execution Identity) :
    Attempt MonosecretError (List String) := do
  let profile ← Attempt.expect "profile is validated before execution" (spec.profile plan.profile)
  if filter.isSome || plan.secrets.length == profile.secrets.length then
    .ok (violated filter st.resolution List.isEmpty profile.at_least_one ++
      violated filter st.resolution (fun present => present.length != 1) profile.exactly_one)
  else .ok []

def finish (spec : CompiledSpec) (plan : ResolutionPlan) (filter : OutputFilter) (st : Execution Identity) :
    Attempt MonosecretError Outcome := do
  let provider ← Attempt.call (world.validation_report_provider_uri plan)
  let st := apply_output_filter filter st
  let violations ← constraint_violations spec plan filter st
  .ok ⟨provider, st.values, st.resolution, st.missing_required, st.missing_optional, violations⟩

/-! ## The whole pass -/

section

variable (spec : CompiledSpec) (plan : ResolutionPlan) (materialize : Materialize) (filter : OutputFilter)

/-- Everything the sources answer, before any of it is used. -/
def read_sources : Attempt MonosecretError (Execution Identity) := do
  let st ← read_cached_values world plan .init
  let st ← fetch_primary_values world plan st
  fetch_fallback_values world plan st

def provider_pass : Attempt MonosecretError (Execution Identity) := do
  let st ← read_sources world plan
  plan.secrets.foldlM (resolve_provider_backed world materialize filter) st

def derived_pass (st : Execution Identity) : Attempt MonosecretError (Deriving Identity) :=
  plan.ordered.foldlM (Deriving.derive_one world plan materialize filter) (.start st)

def execute_plan : Attempt MonosecretError Outcome :=
  if plan.secrets.isEmpty then .ok ⟨"", .empty, [], [], [], []⟩
  else do
    let st ← provider_pass world plan materialize filter
    let d ← derived_pass world plan materialize filter st
    finish world spec plan filter d.st

end

/-- Plan a selection of a profile and run the plan. -/
def resolve (planner : Planner) (spec : CompiledSpec) (profile_name : String) (names : List String)
    (materialize : Materialize) (filter : OutputFilter) : Attempt MonosecretError Outcome := do
  let plan ← build_plan_from_names planner spec profile_name names
  execute_plan world spec plan materialize filter

end Monosecret.Executor
