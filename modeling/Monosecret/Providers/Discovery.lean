/-
  Monosecret.Providers.Discovery — finding the program that serves a provider scheme
  (`ProviderDiscovery` in `monosecret/src/provider/external.rs`, on Unix).

  An endpoint is given by the embedder, by a registration in the user's directory, by one in
  the system's, or by a program on the search path, in this order. A registration is a regular
  file; it and the program it names must be safe all the way up from where they really are.
-/

import Monosecret.Lib.Json
import Monosecret.Lib.Unix
import Monosecret.Manifest.Selection

namespace Monosecret.Providers.Discovery

open Lib Lib.Unix
open Manifest (is_whitespace)

/-! ## Endpoints -/

structure ProviderEndpoint where
  scheme : String
  executable : PathBuf
  arguments : List String
  environment : List String
  deriving DecidableEq

structure ProviderClaim where
  executable : PathBuf
  environment : List String

structure ProviderDiscovery where
  explicit : Map String ProviderEndpoint
  user_directory : Option PathBuf
  system_directory : Option PathBuf
  allow_path : Bool

inductive RegistrationScope
  | Explicit
  | User
  | System
  | Path
  deriving DecidableEq

inductive Refusal
  | Io
  | Scheme
  | SchemeMismatch
  | Pattern
  | NotAbsolute
  | NotRegular
  | Writable (executable : Bool)
  | Owner
  | NotExecutable
  | ComponentNotDirectory
  | DirectoryWritable
  | DirectoryOwner
  | NoParent
  | RegistrationNotRegular
  | RegistrationTooLarge
  | ChangedWhileOpened
  | ChangedDuringValidation
  | InvalidRegistration
  | Filename
  deriving DecidableEq

def refuse (c : Bool) (refusal : Refusal) : Except Refusal Unit := if c then .error refusal else .ok ()

def discovery_io {α : Type} : Except Errno α → Except Refusal α
  | .ok found => .ok found
  | .error _ => .error .Io

/-! ## Claims -/

def strings : List Json → Option (List String)
  | [] => some []
  | .str text :: items => (strings items).map (text :: ·)
  | _ :: _ => none

/-- The optional list of a claim. -/
def patterns : Option Json → Option (List String)
  | none => some []
  | some (.arr items) => strings items
  | some _ => none

/-- A derived reader takes an object, unknown members aside, or the fields in order. -/
def ProviderClaim.of_json : Json → Option ProviderClaim
  | .obj members =>
    if 1 < (members.map Prod.fst).count "executable" ∨ 1 < (members.map Prod.fst).count "environment" then none
    else
      match members.lookup "executable" with
      | some (.str executable) => (patterns (members.lookup "environment")).map (ProviderClaim.mk (.of_text executable))
      | _ => none
  | .arr [.str executable] => some ⟨.of_text executable, []⟩
  | .arr [.str executable, environment] => (patterns (some environment)).map (ProviderClaim.mk (.of_text executable))
  | _ => none

def is_pattern_char (c : Char) : Bool := !(c == '=' || c == '*' || c == '\x00' || is_whitespace c)

def strip_star (pattern : List Char) : List Char := if pattern.getLast? = some '*' then pattern.dropLast else pattern

def validate_environment_pattern (pattern : String) : Except Refusal Unit :=
  let name := strip_star pattern.toList
  refuse (name.isEmpty || !name.all is_pattern_char) .Pattern

def is_valid_scheme (value : String) : Bool :=
  match value.toList with
  | [] => false
  | first :: rest => first.isLower && rest.all fun c => c.isLower || c.isDigit || c == '-'

def validate_scheme (value : String) : Except Refusal Unit := refuse (!is_valid_scheme value) .Scheme

/-! ## Trust -/

def STICKY_BIT : Nat := 0o1000

def OTHERS_WRITE : Nat := 0o022

def ANY_EXECUTE : Nat := 0o111

/-- The process that resolves, and the files as it may use them. -/
structure Host where
  files : FileSystem
  effective_uid : Nat
  real_uid : Nat
  effective_gid : Nat
  real_gid : Nat

namespace Host

variable (host : Host)

def is_privileged_process : Bool :=
  host.effective_uid == 0 || host.effective_uid != host.real_uid || host.effective_gid != host.real_gid

def owner_is_trusted (uid : Nat) : RegistrationScope → Bool
  | .System => uid == 0
  | .Explicit | .User | .Path => uid == host.effective_uid || uid == 0

def check_file_security (path : PathBuf) (scope : RegistrationScope) (executable : Bool) : Except Refusal Unit := do
  let resolved ← discovery_io (host.files.canonicalize path)
  let metadata ← discovery_io (host.files.symlink_metadata resolved)
  refuse (!metadata.is_file || metadata.mode &&& OTHERS_WRITE != 0) (.Writable executable)
  refuse (!host.owner_is_trusted metadata.uid scope) .Owner
  refuse (executable && metadata.mode &&& ANY_EXECUTE == 0) .NotExecutable

def check_ancestor (scope : RegistrationScope) (ancestor : List String) : Except Refusal Unit := do
  let metadata ← discovery_io (host.files.symlink_metadata ⟨true, ancestor⟩)
  refuse (!metadata.is_dir) .ComponentNotDirectory
  refuse (metadata.mode &&& OTHERS_WRITE != 0 && metadata.mode &&& STICKY_BIT == 0) .DirectoryWritable
  refuse (!host.owner_is_trusted metadata.uid scope) .DirectoryOwner

def check_parent_security (path : PathBuf) (scope : RegistrationScope) : Except Refusal Unit := do
  let resolved ← discovery_io (host.files.canonicalize path)
  (ancestors resolved.components).forM (host.check_ancestor scope)
  refuse (ancestors resolved.components).isEmpty .NoParent

def check_registration (path : PathBuf) (scope : RegistrationScope) : Except Refusal Unit := do
  host.check_file_security path scope false
  host.check_parent_security path scope

def check_executable (path : PathBuf) (scope : RegistrationScope) : Except Refusal Unit := do
  host.check_file_security path scope true
  host.check_parent_security path scope

def validate_endpoint (endpoint : ProviderEndpoint) (expected_scheme : String) (scope : RegistrationScope) : Except Refusal ProviderEndpoint := do
  refuse (endpoint.scheme != expected_scheme) .SchemeMismatch
  validate_scheme endpoint.scheme
  endpoint.environment.forM validate_environment_pattern
  refuse (!endpoint.executable.absolute) .NotAbsolute
  let executable ← discovery_io (host.files.canonicalize endpoint.executable)
  refuse (!host.files.is_file executable) .NotRegular
  host.check_executable executable scope
  return { endpoint with executable }

end Host

/-! ## Registrations -/

def REGISTRATION_MAX_BYTES : Nat := 64 * 1024

def content_of (node : Node) : List UInt8 :=
  match node.kind with
  | .Regular content => content
  | _ => []

def same_file_metadata (left right : Node) : Bool := left.ino == right.ino

def registration_name (scheme : String) : String := s!"{scheme}.monosecret.json"

def registration (directory : PathBuf) (scheme : String) : PathBuf := directory.join (registration_name scheme)

def file_name (path : PathBuf) : Option String :=
  (path.components.filter fun name => name ≠ "" ∧ name ≠ ".").getLast?.filter (· ≠ "..")

def required {α : Type} (refusal : Refusal) : Option α → Except Refusal α
  | some value => .ok value
  | none => .error refusal

namespace Host

variable (from_slice : List UInt8 → Option Json) (host : Host)

def load_registration (path : PathBuf) (scheme : String) (scope : RegistrationScope) : Except Refusal ProviderEndpoint := do
  let metadata ← discovery_io (host.files.symlink_metadata path)
  refuse (metadata.is_symlink || !metadata.is_file) .RegistrationNotRegular
  refuse (REGISTRATION_MAX_BYTES < (content_of metadata).length) .RegistrationTooLarge
  let opened ← discovery_io (host.files.open_file path)
  refuse (!same_file_metadata metadata opened) .ChangedWhileOpened
  host.check_registration path scope
  let current ← discovery_io (host.files.symlink_metadata path)
  refuse (current.is_symlink || !same_file_metadata metadata current) .ChangedDuringValidation
  let bytes := (content_of opened).take (REGISTRATION_MAX_BYTES + 1)
  refuse (REGISTRATION_MAX_BYTES < bytes.length) .RegistrationTooLarge
  let claim ← required .InvalidRegistration ((from_slice bytes).bind ProviderClaim.of_json)
  refuse (file_name path != some (registration_name scheme)) .Filename
  host.validate_endpoint ⟨scheme, claim.executable, ["provider"], claim.environment⟩ scheme scope

end Host

/-! ## Discovery -/

def split_paths (search_path : String) : List PathBuf := (split_at ':' search_path.toList).map PathBuf.of_text

def candidates (search_path : Option String) (scheme : String) : List PathBuf :=
  (search_path.toList.flatMap split_paths).map fun directory => directory.join s!"monosecret-provider-{scheme}"

namespace ProviderDiscovery

variable (from_slice : List UInt8 → Option Json) (host : Host) (discovery : ProviderDiscovery)

def on_search_path (search_path : Option String) (scheme : String) : Except Refusal (Option ProviderEndpoint) :=
  if !discovery.allow_path || host.is_privileged_process then .ok none
  else
    match (candidates search_path scheme).find? host.files.is_file with
    | none => .ok none
    | some path => (host.validate_endpoint ⟨scheme, path, ["provider"], []⟩ scheme .Path).map some

/-- The registration directories in order, and what comes after them. -/
def registered (scheme : String) (otherwise : Except Refusal (Option ProviderEndpoint)) :
    List (Option PathBuf × RegistrationScope) → Except Refusal (Option ProviderEndpoint)
  | [] => otherwise
  | (none, _) :: rest => registered scheme otherwise rest
  | (some directory, scope) :: rest =>
    match discovery_io (host.files.try_exists (registration directory scheme)) with
    | .error refusal => .error refusal
    | .ok true => (host.load_registration from_slice (registration directory scheme) scheme scope).map some
    | .ok false => registered scheme otherwise rest

/-- `resolve_with_security_and_search_path` of the platform's own security. -/
def resolve (search_path : Option String) (scheme : String) : Except Refusal (Option ProviderEndpoint) := do
  validate_scheme scheme
  match discovery.explicit scheme with
  | some endpoint => (host.validate_endpoint endpoint scheme .Explicit).map some
  | none =>
    registered from_slice host scheme (discovery.on_search_path host search_path scheme)
      [(discovery.user_directory, .User), (discovery.system_directory, .System)]

/-- A name that can be no scheme is not discovered. -/
def discover (search_path : Option String) (scheme : String) : Except Refusal (Option ProviderEndpoint) :=
  if !is_valid_scheme scheme then .ok none else discovery.resolve from_slice host search_path scheme

end ProviderDiscovery

end Monosecret.Providers.Discovery
