/-
  Monosecret.Providers.Railway — variables of Railway environments and services
  (`monosecret/src/provider/railway.rs`).

  Configurations are those `try_from` accepts. The service has the variables of an
  environment, or of a service in one, each by its ID, and finds the IDs of environments and
  services by name; a sealed variable is there without a value. `skip_deploys` changes
  nothing that is read, and is left out.

  Proved: operations reach each other exactly where the scopes come to the same IDs and the
  keys are the same (`reaches_iff`), and are reported exactly where the scopes are spelled
  alike, too (`isolated_iff`).
-/

import Monosecret.Providers.Variables

namespace Monosecret.Providers

open Lib Cache

namespace Railway

def RESERVED_PREFIX : String := "RAILWAY_"

inductive EnvironmentRef where
  | Id (id : String)
  | Name (name : String)
  deriving DecidableEq

inductive ServiceRef where
  | Id (id : String)
  | Name (name : String)
  deriving DecidableEq

def validate_railway_id (label value : String) : Except String Unit :=
  if value = "" ∨ 64 < value.utf8ByteSize ∨ ¬value.toList.all (fun c => c.isAlphanum || c == '-') then
    .error s!"Railway {label} must be at most 64 ASCII letters, digits, or hyphens"
  else .ok ()

/-- `char::is_control`. -/
def is_control (c : Char) : Bool := c.val ≤ 0x1F || (0x7F ≤ c.val && c.val ≤ 0x9F)

def validate_railway_name (label value : String) : Except String Unit :=
  if value = "" ∨ 255 < value.utf8ByteSize ∨ value.toList.any is_control then
    .error s!"Railway {label} names are non-empty, at most 255 characters, and contain no control characters"
  else .ok ()

def EnvironmentRef.validate : EnvironmentRef → Except String Unit
  | .Id id => validate_railway_id "environment ID" id
  | .Name name => validate_railway_name "environment" name

def ServiceRef.validate : ServiceRef → Except String Unit
  | .Id id => validate_railway_id "service ID" id
  | .Name name => validate_railway_name "service" name

structure RailwayConfig where
  project_id : String
  environment : EnvironmentRef
  service : Option ServiceRef
  project_valid : validate_railway_id "project ID" project_id = .ok ()
  environment_valid : environment.validate = .ok ()
  service_valid : ∀ s ∈ service, s.validate = .ok ()

structure NamedNode where
  id : String
  name : String
  deriving DecidableEq

structure ProjectNode where
  environments : List NamedNode
  services : List NamedNode
  deriving DecidableEq

abbrev Projects := String → Option ProjectNode

/-- The project, the environment, the service or none for the shared variables, and the name. -/
abbrev Place := String × String × Option String × String

/-- A variable that is there without a value is sealed. -/
abbrev Remote := Cells Projects Place (Option (Option String))

/-- The first of the name. -/
def find_named (connection : List NamedNode) (name label : String) : Except String String :=
  match connection.find? fun node => node.name = name with
  | some node => .ok node.id
  | none => .error s!"Railway {label} '{name}' was not found in the project"

namespace RailwayConfig

variable (c : RailwayConfig)

def project (projects : Projects) : Except String ProjectNode :=
  match projects c.project_id with
  | some project => .ok project
  | none => .error s!"Railway project '{c.project_id}' was not found"

def environment_id (projects : Projects) : Except String String :=
  match c.environment with
  | .Id id => .ok id
  | .Name name => do
    let project ← c.project projects
    find_named project.environments name "environment"

def service_id (projects : Projects) : Except String (Option String) :=
  match c.service with
  | none => .ok none
  | some (.Id id) => .ok (some id)
  | some (.Name name) => do
    let project ← c.project projects
    return some (← find_named project.services name "service")

def resolve_scope (projects : Projects) : Except String (String × Option String) := do
  let environment_id ← c.environment_id projects
  let service_id ← c.service_id projects
  return (environment_id, service_id)

def environment_text : String :=
  match c.environment with
  | .Id id => id
  | .Name name => name

def service_text : String :=
  match c.service with
  | none => "shared"
  | some (.Id id) => id
  | some (.Name name) => name

def storage_identity : String := "railway://" ++ (c.project_id ++ "/" ++ (c.environment_text ++ "/" ++ c.service_text))

def provider : Provider String := variable_provider "railway" c.storage_identity

def refuse_reserved (name : String) : Except String Unit :=
  if RESERVED_PREFIX.toList.isPrefixOf name.toList then
    .error
      (s!"'{name}' starts with the reserved {RESERVED_PREFIX} prefix: Railway provides those variables itself, so " ++
        "they cannot be written or deleted")
  else .ok ()

def secret_name (addr : Address) : Except String String := do
  let name ← c.provider.flat_item addr
  refuse_reserved name
  checked_name "Railway" name

def place (key : String) (projects : Projects) : Except String Place := do
  let (environment_id, service_id) ← c.resolve_scope projects
  return (c.project_id, environment_id, service_id, key)

/-- What a variable of the scope reads as. -/
def read_variable (key : String) : Option (Option String) → Except String (Option SecretBytes)
  | none => .ok none
  | some none =>
    .error
      (s!"Railway variable '{key}' is sealed, so its value is readable only inside Railway builds and deployments; " ++
        "unseal it in the Railway dashboard or use another provider for readable values")
  | some (some value) => .ok (some (utf8 value))

def get_async (key : String) (remote : Remote) : Except String (Option SecretBytes) := do
  let place ← c.place key remote.names
  read_variable key (remote.held place)

def set_async (key value : String) (remote : Remote) : Except String Remote := do
  let place ← c.place key remote.names
  return remote.put place (some (some value))

def delete_async (key : String) (remote : Remote) : Except String (Bool × Remote) := do
  let place ← c.place key remote.names
  if (remote.held place).isNone then return (false, remote) else return (true, remote.put place none)

def store : Store String Remote where
  toProvider := c.provider
  get addr remote := do
    let name ← c.secret_name addr
    c.get_async name remote
  set addr value remote := do
    let name ← c.secret_name addr
    let value ← require_utf8 "railway" value
    c.set_async name value remote
  delete addr remote := do
    let name ← c.secret_name addr
    c.delete_async name remote

theorem place_ok {k : String} {p : Projects} {at_ : Place} :
    c.place k p = .ok at_ ↔ c.resolve_scope p = .ok (at_.2.1, at_.2.2.1) ∧ c.project_id = at_.1 ∧
      k = at_.2.2.2 := by
  obtain ⟨pr, e, s, n⟩ := at_
  unfold place
  constructor
  · intro h
    obtain ⟨sc, hs, h⟩ := Except.bind_ok h
    simp only [pure, Except.pure, Except.ok.injEq, Prod.mk.injEq] at h
    obtain ⟨rfl, rfl, rfl, rfl⟩ := h
    exact ⟨hs, rfl, rfl⟩
  · rintro ⟨hs, rfl, rfl⟩
    rw [hs]
    rfl

/-- One reaches the other where the scopes come to the same IDs and the keys are the same. -/
theorem reaches_iff {first sc : RailwayConfig} {a b : Address} {r : Remote} :
    Reaches first.store a sc.store b r ↔ ∃ k, first.secret_name a = .ok k ∧ sc.secret_name b = .ok k ∧
      first.project_id = sc.project_id ∧
        ∃ scope, first.resolve_scope r.names = .ok scope ∧ sc.resolve_scope r.names = .ok scope := by
  have hd : ∀ s, first.store.delete a s = (do
      let k ← first.secret_name a
      let p ← first.place k s.names
      return ((s.held p).isSome, s.put p none)) := by
    intro s
    cases hn : first.secret_name a with
    | error e => simp [store, hn, bind, Except.bind]
    | ok k =>
      cases hp : first.place k s.names with
      | error e => simp [store, hn, delete_async, hp, bind, Except.bind]
      | ok p =>
        cases hv : s.held p with
        | none => simp [store, hn, delete_async, hp, hv, s.put_held hv, bind, Except.bind, pure, Except.pure]
        | some var => simp [store, hn, delete_async, hp, hv, bind, Except.bind, pure, Except.pure]
  rw [reaches_iff_named first.place sc.place (fun _ t _ => some (some t)) (fun _ cl => (cl.isSome, none))
    read_variable (fun _ _ => rfl) hd (fun _ => rfl)]
  constructor
  · rintro ⟨k, key', at_, hk, hk', hp, hp', -⟩
    obtain ⟨hs, hr, hn⟩ := (place_ok first).mp hp
    obtain ⟨hs', hr', hn'⟩ := (place_ok sc).mp hp'
    obtain rfl : k = key' := hn.trans hn'.symm
    exact ⟨k, hk, hk', hr.trans hr'.symm, _, hs, hs'⟩
  · rintro ⟨k, hk, hk', hr, scope, hs, hs'⟩
    refine ⟨k, k, (first.project_id, scope.1, scope.2, k), hk, hk', (place_ok first).mpr ⟨hs, rfl, rfl⟩,
      (place_ok sc).mpr ⟨hs', hr.symm, rfl⟩, ?_⟩
    cases hv : r.held (first.project_id, scope.1, scope.2, k) with
    | none => exact .inl ⟨"", by simp [read_variable]⟩
    | some value => exact .inr (by cases value <;> simp [read_variable])

theorem project_no_slash : '/' ∉ c.project_id.toList := by
  have hv := c.project_valid
  unfold validate_railway_id at hv
  split at hv
  · cases hv
  · next h =>
    intro hm
    simp only [not_or, not_not, List.all_eq_true] at h
    exact absurd (h.2.2 '/' hm) (by decide)

theorem storage_identity_iff {first s : RailwayConfig} :
    first.storage_identity = s.storage_identity ↔ first.project_id = s.project_id ∧
      first.environment_text ++ "/" ++ first.service_text = s.environment_text ++ "/" ++ s.service_text := by
  rw [storage_identity, storage_identity, String.append_right_inj,
    slash_joined_iff first.project_no_slash s.project_no_slash]

theorem secret_name_ok {c : RailwayConfig} {a : Address} {key : String} (h : c.secret_name a = .ok key) :
    c.provider.flat_item a = .ok key := by
  obtain ⟨n, hn, h⟩ := Except.bind_ok h
  replace h := Except.rest_ok h
  rw [hn, checked_name_ok h]

/-- One that reaches the other is reported exactly where the scopes are spelled alike. -/
theorem isolated_iff (f : Files String) {first s : RailwayConfig} {a b : Address} {r : Remote} :
    Isolated f first.store a s.store b r ↔
      ∀ k, first.secret_name a = .ok k → s.secret_name b = .ok k → first.project_id = s.project_id →
        ∀ sc, first.resolve_scope r.names = .ok sc → s.resolve_scope r.names = .ok sc →
          first.environment_text ++ "/" ++ first.service_text = s.environment_text ++ "/" ++ s.service_text := by
  rw [isolated_iff_named f rfl rfl (fun _ => secret_name_ok) (fun _ => secret_name_ok) reaches_iff]
  simp only [storage_identity_iff]
  constructor
  · intro h k hk hk' hp sc hs hs'
    exact (h k hk hk' ⟨hp, sc, hs, hs'⟩).2
  · rintro h k hk hk' ⟨hp, sc, hs, hs'⟩
    exact ⟨hp, h k hk hk' hp sc hs hs'⟩

end RailwayConfig

end Railway

end Monosecret.Providers
