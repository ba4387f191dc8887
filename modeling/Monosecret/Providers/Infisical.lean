/-
  Monosecret.Providers.Infisical — reads of Infisical secrets, one by one and in batches
  (`InfisicalProvider` in `monosecret/src/provider/infisical.rs`).

  An environment has folders of secrets, and a folder imports others. Of the secrets under one
  key the folder's own comes first, then those of the imports, the last import before the
  others. A single read answers with the first; a listing with all, in place. A batch reads
  pinned versions one by one, and lists each folder once for the rest.
-/

import Monosecret.Lib.Json
import Monosecret.Manifest.Selection
import Monosecret.Providers.Listings
import Monosecret.Providers.SameEntries

namespace Monosecret.Providers.Infisical

open Lib Manifest
open Cache (SecretBytes utf8)

/-! ## The service -/

/-- What the caller gets to see of a secret. -/
inductive Held
  | Given (text : String)
  | Without
  | Withheld
  deriving DecidableEq

structure Secret where
  key : String
  current : Held
  version : String → Option Held

structure Folder where
  direct : List Secret
  distinct : (direct.map Secret.key).Nodup
  /-- The secrets of each import, in the order of the imports. -/
  imports : List (List Secret)

/-- The secrets of a folder by precedence. -/
def Folder.ranked (folder : Folder) : List Secret := folder.direct ++ folder.imports.reverse.flatten

def has_key (key : String) (secret : Secret) : Bool := secret.key == key

def Folder.winner (folder : Folder) (key : String) : Option Secret := folder.ranked.find? (has_key key)

structure Environment where
  folders : String → Option Folder
  root : (folders "/").isSome

structure Location where
  environment : String
  secret_path : String
  key : String
  deriving DecidableEq

structure Server where
  environments : String → Option Environment

/-- The secret object of an answer. -/
def secret_json (key : String) : Held → Json
  | .Given text => .obj [("secretKey", .str key), ("secretValue", .str text), ("secretValueHidden", .bool false)]
  | .Without => .obj [("secretKey", .str key), ("secretValue", .null), ("secretValueHidden", .bool false)]
  | .Withheld =>
    .obj [("secretKey", .str key), ("secretValue", .str "<hidden-by-infisical>"), ("secretValueHidden", .bool true)]

def Secret.json (secret : Secret) : Json := secret_json secret.key secret.current

def Server.folder (server : Server) (environment secret_path : String) : Option Folder :=
  (server.environments environment).bind fun found => found.folders secret_path

/-- The secret a single read finds. -/
def Server.held (server : Server) (loc : Location) (version : Option String) : Option Held :=
  (server.folder loc.environment loc.secret_path).bind fun folder =>
    (folder.winner loc.key).bind fun secret =>
      match version with
      | none => some secret.current
      | some version => secret.version version

/-- None is a 404. -/
def Server.read (server : Server) (loc : Location) (version : Option String) : Option Json :=
  (server.held loc version).map fun held => .obj [("secret", secret_json loc.key held)]

def Server.list (server : Server) (environment secret_path : String) : Option Json :=
  (server.folder environment secret_path).map fun folder =>
    .obj [("secrets", .arr (folder.direct.map Secret.json)),
      ("imports", .arr (folder.imports.map fun secrets => .obj [("secrets", .arr (secrets.map Secret.json))]))]

/-! ## Addresses -/

structure InfisicalConfig where
  project_id : String
  environment : Option String
  path : String

structure InfisicalProvider where
  config : InfisicalConfig
  profile : Option String

def trim_end_slashes (text : List Char) : List Char := text.rdropWhile (· == '/')

def join_slash_path (left right : String) : String :=
  String.ofList (trim_end_slashes left.toList) ++ "/" ++ String.ofList (right.toList.dropWhile (· == '/'))

def refuse_empty (name : String × String) : Except String Unit :=
  if name.2 = "" then .error s!"{name.1} cannot be empty" else .ok ()

def refuse_folder (name : String × String) : Except String Unit :=
  if name.2.toList.all fun c => c.isAlphanum || c == '-' || c == '_' then .ok ()
  else
    .error
      (s!"{name.1} '{name.2}' cannot name an Infisical folder: only letters, digits, dashes and underscores are " ++
        "allowed. Rename it in monosecret.toml, or address these secrets by their own coordinates with " ++
        "ref = \x7b item = \"/folder/KEY\" \x7d.")

def refuse_slash (key : String) : Except String Unit :=
  if '/' ∈ key.toList then
    .error s!"Invalid key '{key}': Infisical addresses folders by path, so a '/' would move the secret to another folder."
  else .ok ()

namespace InfisicalProvider

variable (provider : InfisicalProvider)

def convention_address (project profile key : String) : Except String NativeAddress := do
  [("project", project), ("profile", profile), ("key", key)].forM refuse_empty
  refuse_slash key
  [("Project", project), ("Profile", profile)].forM refuse_folder
  return ⟨s!"{provider.config.path}/{project}/{profile}/{key}", none, none, none, none⟩

def entries : Provider Unit where
  name := "infisical"
  supported_coords := ["version"]
  convention_address := provider.convention_address
  physical_store_path := none
  entry_container_identity := s!"infisical:///{provider.config.project_id}"

def session_profile : Option String := (provider.profile.map trimmed).filter (· ≠ "")

def environment_of (addr : Address) : Except String String :=
  match provider.config.environment, addr with
  | some environment, _ => .ok environment
  | none, .Convention _ profile _ => .ok profile
  | none, .Native _ =>
    match provider.session_profile with
    | some profile => .ok profile
    | none =>
      .error
        ("No Infisical environment for this ref. Name one in the provider URI, e.g. " ++
          "infisical://app.infisical.com/\x7bproject-id\x7d?env=prod. A provider credential is resolved without a " ++
          "profile, so its ref always needs one.")

/-- The folder and the key an item names. -/
def place_in (item : String) : String × String :=
  match Texts.rsplit_once '/' item.toList with
  | some (folder, key) =>
    let folder := trim_end_slashes folder
    let secret_path :=
      if folder = [] then "/"
      else if folder.head? ≠ some '/' then join_slash_path provider.config.path (String.ofList folder)
      else String.ofList folder
    (secret_path, String.ofList key)
  | none => (provider.config.path, item)

def refuse_keyless (item key : String) : Except String Unit :=
  if key = "" then .error s!"Invalid Infisical ref '{item}': it names a folder, not a secret." else .ok ()

def locate (addr : Address) : Except String Location := do
  let coords ← provider.entries.resolve_coords addr
  let environment ← provider.environment_of addr
  let (secret_path, key) := provider.place_in coords.item
  refuse_keyless coords.item key
  return ⟨environment, secret_path, key⟩

def version_of : Address → Option String
  | .Native native => native.version
  | .Convention .. => none

/-! ## Reads -/

def missing_environment_error (environment : String) : String :=
  let source := if provider.config.environment.isSome then "The provider URI selected it with `?env=`."
    else "The active Monosecret profile selected it because the provider URI does not pin an environment with `?env=`."
  s!"Infisical could not find environment '{environment}' in project {provider.config.project_id} (or the project " ++
    s!"itself is unavailable). {source}"

end InfisicalProvider

def as_str : Json → Option String
  | .str text => some text
  | _ => none

def as_array : Json → Option (List Json)
  | .arr items => some items
  | _ => none

def hidden (secret : Json) : Bool :=
  match secret.get "secretValueHidden" with
  | some (.bool hidden) => hidden
  | _ => false

def secret_value (secret : Json) (key : String) : Except String (Option SecretBytes) :=
  if hidden secret then
    .error
      (s!"Infisical withheld the value of '{key}': this identity may see that the secret exists but not read it. " ++
        "Grant it permission to read secret values.")
  else .ok (((secret.get "secretValue").bind as_str).map utf8)

inductive SecretRead
  | Response (value : Option SecretBytes)
  | NotFound
  deriving DecidableEq

namespace InfisicalProvider

variable (provider : InfisicalProvider) (server : Server)

def get_async (loc : Location) (version : Option String) : Except String SecretRead :=
  match server.read loc version with
  | some body => (secret_value ((body.get "secret").getD .null) loc.key).map .Response
  | none => .ok .NotFound

/-- A listing of the root. -/
def ensure_environment_exists (environment : String) : Except String Unit :=
  if (server.list environment "/").isSome then .ok () else .error (provider.missing_environment_error environment)

def get (addr : Address) : Except String (Option SecretBytes) := do
  let loc ← provider.locate addr
  match ← get_async server loc (version_of addr) with
  | .Response value => .ok value
  | .NotFound =>
    provider.ensure_environment_exists server loc.environment
    return none

end InfisicalProvider

/-! ## Listings -/

def list_direct : List Json → Map String SecretBytes → Except String (Map String SecretBytes)
  | [], listed => .ok listed
  | secret :: secrets, listed =>
    match (secret.get "secretKey").bind as_str with
    | none => list_direct secrets listed
    | some key =>
      match secret_value secret key with
      | .error error => .error error
      | .ok value => list_direct secrets (listed.insert_option key value)

/-- The secrets of one import, of keys not listed yet. -/
def list_imported : List Json → Map String SecretBytes → Except String (Map String SecretBytes)
  | [], listed => .ok listed
  | secret :: secrets, listed =>
    match (secret.get "secretKey").bind as_str with
    | none => list_imported secrets listed
    | some key =>
      if (listed key).isSome then list_imported secrets listed
      else
        match secret_value secret key with
        | .error error => .error error
        | .ok value => list_imported secrets (listed.insert_option key value)

def list_imports : List Json → Map String SecretBytes → Except String (Map String SecretBytes)
  | [], listed => .ok listed
  | imported :: imports, listed =>
    match (imported.get "secrets").bind as_array with
    | none => list_imports imports listed
    | some secrets =>
      match list_imported secrets listed with
      | .error error => .error error
      | .ok listed => list_imports imports listed

def merge_imports (parsed : Json) (listed : Map String SecretBytes) : Except String (Map String SecretBytes) :=
  match (parsed.get "imports").bind as_array with
  | none => .ok listed
  | some imports => list_imports imports.reverse listed

def parse_listing (parsed : Json) : Except String (Map String SecretBytes) :=
  match (parsed.get "secrets").bind as_array with
  | none => .error "Infisical list response missing `secrets`"
  | some secrets => do
    let listed ← list_direct secrets .empty
    merge_imports parsed listed

namespace InfisicalProvider

variable (provider : InfisicalProvider) (server : Server)

/-- None where the folder is not there. -/
def list_async (environment secret_path : String) : Except String (Option (Map String SecretBytes)) :=
  match server.list environment secret_path with
  | some parsed => (parse_listing parsed).map some
  | none => .ok none

/-- A folder of a batch: the root is there or the environment is not. -/
def list_folder (folder : String × String) : Except String (Map String SecretBytes) :=
  match list_async server folder.1 folder.2 with
  | .error error => .error error
  | .ok (some listed) => .ok listed
  | .ok none => if folder.2 = "/" then .error (provider.missing_environment_error folder.1) else .ok .empty

def pinned (request : String × Address) : Bool := (version_of request.2).isSome

/-- A pinned read of a batch, whose misses are not looked into yet. -/
def fetch_pinned (addr : Address) : Except String (Option SecretBytes) := do
  let loc ← provider.locate addr
  match ← get_async server loc (version_of addr) with
  | .Response value => .ok value
  | .NotFound => .ok none

/-- Where a pinned read finds nothing. -/
def missed_environment (request : String × Address) : Option String :=
  match provider.locate request.2 with
  | .error _ => none
  | .ok loc => if get_async server loc (version_of request.2) = .ok .NotFound then some loc.environment else none

def place_of (addr : Address) : Except String ((String × String) × String) :=
  (provider.locate addr).map fun loc => ((loc.environment, loc.secret_path), loc.key)

def listed_folder (folder : String × String) : Bool := (server.list folder.1 folder.2).isSome

/-- The environments nothing has shown to exist. -/
def uncertain (versioned : List (String × Address)) (wanted : List (Wanted (String × String) String)) : List String :=
  let missed := versioned.filterMap (provider.missed_environment server)
  let unlisted := (wanted.map Wanted.place).filter fun folder => !listed_folder server folder
  let known := ((wanted.map Wanted.place).filter (listed_folder server)).map Prod.fst
  (missed ++ unlisted.map Prod.fst).filter fun environment => !known.contains environment

/-- Orders of the hash maps of a batch. -/
structure Orders where
  addresses : HashOrder (Address × List String)
  folders : HashOrder ((String × String) × List (Wanted (String × String) String))

/-- Only when nothing at all was found. -/
def probe_missing (requests : List (String × Address)) (wanted : List (Wanted (String × String) String)) (resolved : Map String SecretBytes) :
    Except String Unit :=
  if (requests.map Prod.fst).all fun name => (resolved name).isNone then
    (provider.uncertain server (requests.filter pinned) wanted).forM (provider.ensure_environment_exists server)
  else .ok ()

def get_many (orders : Orders) (requests : List (String × Address)) : Except String (Map String SecretBytes) := do
  let resolved ← get_each_with orders.addresses (requests.filter pinned) (provider.fetch_pinned server)
  let wanted ← locate_all provider.place_of (requests.filter fun request => !pinned request)
  let resolved ← get_listed orders.folders wanted (fun folder _ => provider.list_folder server folder) resolved
  provider.probe_missing server requests wanted resolved
  return resolved

end InfisicalProvider

end Monosecret.Providers.Infisical
