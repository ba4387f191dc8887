/-
  Monosecret.Resolve.Execute — one resolution pass (`ResolutionExecution` in
  `monosecret/src/secrets.rs`).

  The provider pass takes every routed secret in name order: what its sources answered, or
  its missing policy. The derived pass then evaluates composed, `from` and registry-typed
  secrets in dependency order, and `finish` filters the output and checks the presence
  groups. Cache refreshes and audit addresses do not come back into the pass and are left
  out, as are the owners of temp files.
-/

import Monosecret.Resolve.Read

namespace Monosecret.Resolve

open Lib Plan Cache

inductive ResolutionStatus where
  | Resolved
  | MissingRequired
  | MissingOptional
  deriving DecidableEq

inductive Derivation where
  | Composed
  | ConvertedFrom (source : String)
  | SelectedFrom (source : String)
  deriving DecidableEq

structure SecretResolution where
  name : Text
  status : ResolutionStatus
  required : Bool
  source_provider : Option Text
  default_applied : Bool
  generated : Bool
  composed : Bool
  derivation : Option Derivation
  as_path : Bool
  deriving DecidableEq

/-- `Values` mints and writes, `Run` also prompts, `None` only reports. -/
inductive Materialize where
  | Values
  | Run
  | None
  deriving DecidableEq

def Materialize.values (m : Materialize) : Bool := m != .None

def Materialize.prompts (m : Materialize) : Bool := m == .Run

structure Execution (Identity : Type) where
  values : Map Text SecretBytes
  missing_required : List Text
  missing_optional : List Text
  with_defaults : List (Text × Text)
  resolution : List SecretResolution
  secret_expiries : Map Text UInt64
  refreshes : Map Text UInt64
  revisions : Map Text Revision
  pending_typed : Map Text PendingTyped
  identities : Map Text Identity

/-- The names an operation exposes; none when nothing is filtered. -/
abbrev OutputFilter := Option (List Text)

def OutputFilter.admits (filter : OutputFilter) (name : Text) : Bool :=
  match filter with
  | some names => decide (name ∈ names)
  | none => true

def HIDDEN_SECRET_LABEL : String := "a hidden derived-secret input"

def diagnostic_secret_name (name : Text) (filter : OutputFilter) : String :=
  if filter.admits name then name.text else HIDDEN_SECRET_LABEL

namespace Execution

variable {Identity : Type}

def init : Execution Identity :=
  ⟨.empty, [], [], [], [], .empty, .empty, .empty, .empty, .empty⟩

variable (answers : Answers Identity) (materialize : Materialize) (filter : OutputFilter)

/-! ## The provider pass -/

def insert_resolved (planned : PlannedSecret) (value : SecretBytes) (representation : ResolvedRepresentation)
    (st : Execution Identity) : Except MonosecretError (Execution Identity) := do
  let delivered ← answers.prepare_resolved planned value representation
  .ok { st with values := st.values.insert planned.name delivered }

/-- A registry-typed stored value is parked until its credentials have resolved. -/
def insert_stored (planned : PlannedSecret) (value : SecretBytes) (st : Execution Identity) :
    Except MonosecretError (Execution Identity) :=
  if planned.secret.is_typed_stored then
    .ok { st with pending_typed := st.pending_typed.insert planned.name (.Stored value) }
  else st.insert_resolved answers planned value .Stored

def insert_generated (planned : PlannedSecret) (value : GeneratedValue) (st : Execution Identity) :
    Except MonosecretError (Execution Identity) :=
  match value with
  | .Text value => st.insert_resolved answers planned value .Logical
  | .Binary bytes => .ok { st with pending_typed := st.pending_typed.insert planned.name (.Logical bytes) }

def push_provider (planned : PlannedSecret) (status : ResolutionStatus) (source_provider : Option Text)
    (default_applied generated : Bool) (st : Execution Identity) : Execution Identity :=
  { st with
    resolution := st.resolution ++ [⟨planned.name, status, planned.secret.declared_required, source_provider,
      default_applied, generated, false, none, planned.secret.as_path⟩] }

def miss_required (planned : PlannedSecret) (st : Execution Identity) : Execution Identity :=
  push_provider planned .MissingRequired none false false
    { st with missing_required := st.missing_required ++ [planned.name] }

def miss_optional (planned : PlannedSecret) (st : Execution Identity) : Execution Identity :=
  push_provider planned .MissingOptional none false false
    { st with missing_optional := st.missing_optional ++ [planned.name] }

def record_metadata (planned : PlannedSecret) (found : Found) (st : Execution Identity) : Execution Identity :=
  { st with
    secret_expiries := st.secret_expiries.insert_option planned.name found.value.expires_at_unix_ms
    refreshes := st.refreshes.insert_option planned.name found.refresh
    revisions := st.revisions.insert_option planned.name
      (found.value.revision.map fun revision => answers.effective_revision revision planned) }

def store_found (planned : PlannedSecret) (value : SecretBytes) (st : Execution Identity) :
    Except MonosecretError (Execution Identity) :=
  if materialize.values then st.insert_stored answers planned value else .ok st

def record_found (planned : PlannedSecret) (found : Found) (st : Execution Identity) :
    Except MonosecretError (Execution Identity) := do
  let st ← (st.record_metadata answers planned found).store_found answers materialize planned found.value.value
  .ok (st.push_provider planned .Resolved found.source_provider false false)

def apply_missing (planned : PlannedSecret) (st : Execution Identity) :
    Except MonosecretError (Execution Identity) :=
  match planned.secret.missing with
  | .Prompt =>
    if materialize.prompts && filter.admits planned.name then do
      let prompted ← answers.try_prompt_secret planned
      let st ← st.insert_resolved answers planned prompted .Logical
      .ok (st.push_provider planned .Resolved none false false)
    else if planned.secret.declared_required then .ok (st.miss_required planned)
    else .ok (st.miss_optional planned)
  | .Generate =>
    if materialize.values then do
      let generated ← answers.try_generate_secret planned
      let st ← st.insert_generated answers planned generated
      .ok (st.push_provider planned .Resolved none false true)
    else if planned.secret.declared_required && answers.generated_value_is_stored planned then
      .ok (st.miss_required planned)
    else .ok (st.push_provider planned .Resolved none false true)
  | .UseDefault =>
    match planned.secret.default with
    | none => .error (.Other "compiled UseDefault policy has a default")
    | some value =>
      if materialize.values then do
        let st ← st.insert_resolved answers planned value.bytes .Logical
        .ok (push_provider planned .Resolved none true false
          { st with with_defaults := st.with_defaults ++ [(planned.name, value)] })
      else .ok (st.push_provider planned .Resolved none true false)
  | .Error => .ok (st.miss_required planned)
  | .Omit => .ok (st.miss_optional planned)

def resolve_provider_backed (fetches : List GroupFetch) (st : Execution Identity) (planned : PlannedSecret) :
    Except MonosecretError (Execution Identity) :=
  match planned.route with
  | none => .ok st
  | some route => do
    match ← read_source answers fetches planned route with
    | some found => st.record_found answers materialize planned found
    | none => st.apply_missing answers materialize filter planned

/-! ## The derived pass -/

end Execution

/-- The secrets the derived pass evaluates. -/
def ResolutionPlan.nodes (plan : ResolutionPlan) : List PlannedSecret :=
  plan.secrets.filter fun planned => planned.secret.is_node

/-- The dependencies of a node that are nodes themselves. -/
def ResolutionPlan.next (plan : ResolutionPlan) (name : Text) : List Text :=
  match plan.nodes.find? fun planned => planned.name = name with
  | some planned => planned.dependencies.filter fun d => decide (d ∈ plan.nodes.map PlannedSecret.name)
  | none => []

/-- Depth first, every node after its dependencies. -/
def ResolutionPlan.ordered (plan : ResolutionPlan) : List PlannedSecret :=
  (Walk.visit_all plan.next (plan.nodes.length + 1) (plan.nodes.map PlannedSecret.name) .empty).ordered.filterMap
    fun name => plan.nodes.find? fun planned => planned.name = name

def text_input (name : String) (value : SecretBytes) : Except MonosecretError String :=
  match String.fromUTF8? ⟨value.toArray⟩ with
  | some text => .ok text
  | none => .error (.CompositionFailed
      s!"dependency '{name}' is not valid UTF-8; declare `as_path = true` to compose its file path")

/-- The texts of the dependencies that have a value. -/
def compose_inputs (filter : OutputFilter) (template : Template) (values : Map Text SecretBytes) :
    Except MonosecretError (List (Text × String)) :=
  (template.dependencies.filterMap fun name => (values name).map fun value => (name, value)).mapM fun input =>
    (text_input (diagnostic_secret_name input.1 filter) input.2).map fun text => (input.1, text)

def compose (filter : OutputFilter) (template : Template) (values : Map Text SecretBytes) :
    Except MonosecretError String := do
  let inputs ← compose_inputs filter template values
  match template.render fun name => (inputs.find? fun input => input.1 = name).map Prod.snd with
  | .ok rendered => .ok rendered
  | .error message => .error (.CompositionFailed message)

section

variable {Identity : Type} (answers : Answers Identity) (plan : ResolutionPlan) (filter : OutputFilter)

/-- The value bound to one credential role; none when the role is unbound. -/
def credential_value (planned : PlannedSecret) (role : Text) (values : Map Text SecretBytes) :
    Except MonosecretError (Option SecretBytes) :=
  match planned.secret.credential role with
  | none => .ok none
  | some credential =>
    match values credential with
    | none =>
      let shown := diagnostic_secret_name credential filter
      .error (.CredentialInvalid (diagnostic_secret_name planned.name filter) role.text
        s!"depends on '{shown}', which did not resolve")
    | some value => (answers.validate_credential role value).map some

/-- Select from the source's text, or convert the source's identity. -/
def from_value (planned : PlannedSecret) (source : Text) (values : Map Text SecretBytes) (identities : Map Text Identity) :
    Except MonosecretError SecretBytes :=
  if planned.secret.extracts then
    match plan.get source, values source with
    | some source_planned, some value => do
      let text ← answers.extract_source planned source_planned value
      answers.prepare_resolved planned text .Logical
    | none, _ => .error (.Other "validated `from` source is in the resolution plan")
    | _, none => .error (.Other "a resolved `from` source has a value")
  else do
    let password ← credential_value answers filter planned (Text.of "password") values
    match identities source with
    | some identity => answers.project identity planned password
    | none => .error (.Other "an x509_identity source is decoded before its projections")

/-- The value of a derived secret. -/
def derive_value (planned : PlannedSecret) (values : Map Text SecretBytes) (identities : Map Text Identity) :
    Except MonosecretError SecretBytes :=
  match planned.secret.composition with
  | some template => do
    let rendered ← compose filter template values
    answers.prepare_resolved planned (utf8 rendered) .Logical
  | none =>
    match planned.secret.source with
    | some source => from_value answers plan filter planned source values identities
    | none => .error (.Other "a `from` secret names its source")

end

def derivation_of (filter : OutputFilter) (planned : PlannedSecret) : Option Derivation :=
  if planned.secret.is_composed then some .Composed
  else planned.secret.source.map fun source =>
    if planned.secret.extracts then .SelectedFrom (diagnostic_secret_name source filter)
    else .ConvertedFrom (diagnostic_secret_name source filter)

/-- Keep the earlier of a secret's own deadline and every dependency's. -/
def merge_deadline (planned : PlannedSecret) (deadlines : Map Text UInt64) : Map Text UInt64 :=
  match (planned.dependencies.filterMap deadlines).min? with
  | none => deadlines
  | some deadline =>
    deadlines.insert planned.name (match deadlines planned.name with | some own => min own deadline | none => deadline)

/-- The derived pass: the execution so far and the status of every secret decided. -/
structure Deriving (Identity : Type) where
  st : Execution Identity
  statuses : Map Text ResolutionStatus

namespace Deriving

variable {Identity : Type} (answers : Answers Identity) (plan : ResolutionPlan) (materialize : Materialize)
  (filter : OutputFilter)

def start (st : Execution Identity) : Deriving Identity :=
  ⟨st, fun name => (st.resolution.find? fun entry => entry.name = name).map SecretResolution.status⟩

def dependencies_resolved (planned : PlannedSecret) (d : Deriving Identity) : Bool :=
  planned.dependencies.all fun name => d.statuses name == some .Resolved

def merge_deadlines (planned : PlannedSecret) (d : Deriving Identity) : Execution Identity :=
  if d.dependencies_resolved planned then
    { d.st with
      secret_expiries := merge_deadline planned d.st.secret_expiries
      refreshes := merge_deadline planned d.st.refreshes }
  else d.st

def pending_bytes (planned : PlannedSecret) : PendingTyped → Except MonosecretError SecretBytes
  | .Stored value => answers.decode_stored_value planned value
  | .Logical bytes => .ok bytes

def finalize_typed_stored (planned : PlannedSecret) (st : Execution Identity) :
    Except MonosecretError (Execution Identity) :=
  match st.pending_typed planned.name with
  | none => .error (.Other "a resolved typed stored secret parked its value")
  | some pending => do
    let bytes ← pending_bytes answers planned pending
    let password ← credential_value answers filter planned (Text.of "password") st.values
    let identity ← answers.decode_identity planned bytes password
    let delivered ← answers.deliver_bytes planned bytes
    .ok { st with
      pending_typed := st.pending_typed.remove planned.name
      values := st.values.insert planned.name delivered
      identities := st.identities.insert planned.name identity }

/-- Missing under its own policy: the provider pass had found it. -/
def lose_typed_stored (planned : PlannedSecret) (d : Deriving Identity) (st : Execution Identity) : Deriving Identity :=
  let status := if planned.secret.missing = .Omit then ResolutionStatus.MissingOptional else .MissingRequired
  let resolution := st.resolution.map fun entry => if entry.name = planned.name then { entry with status } else entry
  { st :=
      if planned.secret.missing = .Omit then
        { st with
          pending_typed := st.pending_typed.remove planned.name, resolution
          missing_optional := st.missing_optional ++ [planned.name] }
      else
        { st with
          pending_typed := st.pending_typed.remove planned.name, resolution
          missing_required := st.missing_required ++ [planned.name] }
    statuses := d.statuses.insert planned.name status }

def push_derived (planned : PlannedSecret) (status : ResolutionStatus) (st : Execution Identity) (d : Deriving Identity) :
    Deriving Identity :=
  { st :=
      { st with
        resolution := st.resolution ++ [⟨planned.name, status, planned.secret.declared_required, none, false, false,
          true, derivation_of filter planned, planned.secret.as_path⟩] }
    statuses := d.statuses.insert planned.name status }

def derive_typed (planned : PlannedSecret) (d : Deriving Identity) : Except MonosecretError (Deriving Identity) :=
  let st := d.merge_deadlines planned
  if d.statuses planned.name == some .Resolved then
    if d.dependencies_resolved planned then
      if materialize.values then (finalize_typed_stored answers filter planned st).map fun st => ⟨st, d.statuses⟩
      else .ok ⟨st, d.statuses⟩
    else .ok (lose_typed_stored planned d st)
  else .ok ⟨st, d.statuses⟩

def derive_derived (planned : PlannedSecret) (d : Deriving Identity) : Except MonosecretError (Deriving Identity) :=
  let st := d.merge_deadlines planned
  if d.dependencies_resolved planned then
    if materialize.values then
      (derive_value answers plan filter planned st.values st.identities).map fun value =>
        push_derived filter planned .Resolved { st with values := st.values.insert planned.name value } d
    else .ok (push_derived filter planned .Resolved st d)
  else if planned.secret.missing = .Error then
    .ok (push_derived filter planned .MissingRequired
      { st with missing_required := st.missing_required ++ [planned.name] } d)
  else
    .ok (push_derived filter planned .MissingOptional
      { st with missing_optional := st.missing_optional ++ [planned.name] } d)

def derive_one (d : Deriving Identity) (planned : PlannedSecret) : Except MonosecretError (Deriving Identity) :=
  if planned.secret.is_typed_stored then derive_typed answers materialize filter planned d
  else derive_derived answers plan materialize filter planned d

end Deriving

/-! ## Finishing -/

inductive ConstraintKind where
  | AtLeastOne
  | ExactlyOne
  deriving DecidableEq

structure ConstraintViolation where
  kind : ConstraintKind
  group : Text
  secrets : List Text
  present : List Text
  deriving DecidableEq

structure ValidatedSecrets where
  values : Map Text SecretBytes
  provider : Text
  profile : Text
  missing_optional : List Text
  with_defaults : List (Text × Text)
  resolution : List SecretResolution
  secret_expiries : Map Text UInt64
  refreshes : Map Text UInt64
  revisions : Map Text Revision

structure ValidationErrors where
  missing_required : List Text
  missing_optional : List Text
  with_defaults : List (Text × Text)
  provider : Text
  profile : Text
  resolution : List SecretResolution
  constraint_violations : List ConstraintViolation

abbrev Outcome := Except ValidationErrors ValidatedSecrets

section

variable {Identity : Type}

def apply_output_filter (filter : OutputFilter) (st : Execution Identity) : Execution Identity :=
  match filter with
  | none => st
  | some names =>
    { st with
      values := st.values.retain fun name => decide (name ∈ names)
      secret_expiries := st.secret_expiries.retain fun name => decide (name ∈ names)
      refreshes := st.refreshes.retain fun name => decide (name ∈ names)
      resolution := st.resolution.filter fun entry => decide (entry.name ∈ names)
      missing_required := st.missing_required.filter fun name => decide (name ∈ names)
      missing_optional := st.missing_optional.filter fun name => decide (name ∈ names)
      with_defaults := st.with_defaults.filter fun default => decide (default.1 ∈ names) }

def resolved_names (resolution : List SecretResolution) : List Text :=
  (resolution.filter fun entry => entry.status = .Resolved).map SecretResolution.name

def visible_members (filter : OutputFilter) (members : List Text) : List Text :=
  members.filter fun name => filter.admits name

def violations_of (kind : ConstraintKind) (broken : List Text → Bool) (filter : OutputFilter)
    (resolution : List SecretResolution) (constraints : List ConstraintGroup) : List ConstraintViolation :=
  constraints.filterMap fun group =>
    let members := visible_members filter group.members
    let present := members.filter fun name => decide (name ∈ resolved_names resolution)
    if !members.isEmpty && broken present then some ⟨kind, group.name, members, present⟩ else none

/-- Groups are judged for a filtered pass and for a pass over the whole profile. -/
def evaluates_constraints (profile : CompiledProfile) (plan : ResolutionPlan) (filter : OutputFilter) : Bool :=
  filter.isSome || plan.secrets.length == profile.secrets.length

def constraint_violations (profile : CompiledProfile) (plan : ResolutionPlan) (filter : OutputFilter)
    (resolution : List SecretResolution) : List ConstraintViolation :=
  if evaluates_constraints profile plan filter then
    violations_of .AtLeastOne (fun present => present.isEmpty) filter resolution profile.at_least_one ++
      violations_of .ExactlyOne (fun present => present.length != 1) filter resolution profile.exactly_one
  else []

def finish (answers : Answers Identity) (profile : CompiledProfile) (plan : ResolutionPlan) (filter : OutputFilter)
    (st : Execution Identity) : Except MonosecretError Outcome := do
  let provider ← answers.report_provider_uri
  let st := apply_output_filter filter st
  let violations := constraint_violations profile plan filter st.resolution
  if !st.missing_required.isEmpty || !violations.isEmpty then
    .ok (.error ⟨st.missing_required, st.missing_optional, st.with_defaults, provider, plan.profile, st.resolution,
      violations⟩)
  else
    .ok (.ok ⟨st.values, provider, plan.profile, st.missing_optional, st.with_defaults, st.resolution,
      st.secret_expiries, st.refreshes, st.revisions⟩)

end

/-! ## The whole pass -/

section

variable {Identity : Type} (answers : Answers Identity) (plan : ResolutionPlan) (materialize : Materialize)
  (filter : OutputFilter)

def provider_pass : Except MonosecretError (Execution Identity) := do
  let fetches ← fetch_primary_values answers plan
  plan.secrets.foldlM (Execution.resolve_provider_backed answers materialize filter fetches) .init

def derived_pass (st : Execution Identity) : Except MonosecretError (Deriving Identity) :=
  plan.ordered.foldlM (Deriving.derive_one answers plan materialize filter) (.start st)

def execute_plan (profile : CompiledProfile) : Except MonosecretError Outcome :=
  if plan.secrets.isEmpty then
    .ok (.ok ⟨.empty, Text.of "", plan.profile, [], [], [], .empty, .empty, .empty⟩)
  else do
    let st ← provider_pass answers plan materialize filter
    let d ← derived_pass answers plan materialize filter st
    finish answers profile plan filter d.st

end

end Monosecret.Resolve
