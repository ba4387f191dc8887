/-
  Monosecret.Providers.Doppler — reads of Doppler secrets, one by one and in batches
  (`DopplerProvider` in `monosecret/src/provider/doppler.rs`).

  The server has configs of named secret objects, of any JSON shape, or refuses every request
  to a config. A single read answers with the object, with nulls for a secret that is not
  there; a listing with the objects its filter names, and with all of them when it names none.
  A batch is grouped by config and lists each one in filters of bounded length. What is sent
  is kept beside what is returned.
-/

import Monosecret.Lib.Json
import Monosecret.Lib.Texts
import Monosecret.Manifest.Secret
import Monosecret.Providers.Listings
import Monosecret.Providers.SameEntries

namespace Monosecret.Providers.Doppler

open Lib Manifest
open Cache (SecretBytes utf8)

/-! ## Names -/

def RESERVED_NAMES : List String := ["DOPPLER_PROJECT", "DOPPLER_CONFIG", "DOPPLER_ENVIRONMENT"]

def is_reserved (name : String) : Bool := RESERVED_NAMES.contains name

def is_secret_char (c : Char) : Bool := c.isUpper || c.isDigit || c == '_'

def validate_secret_name (name : String) : Except String Unit :=
  if name = "" then .error "Invalid Doppler secret name: the name is empty."
  else if name.toList.head?.any Char.isDigit then
    .error
      (s!"Invalid Doppler secret name '{name}': names may not start with a number. Rename the secret in " ++
        "monosecret.toml -- Doppler cannot store this name, so Monosecret refuses it rather than storing it under a " ++
        "different one.")
  else if name.toList.all is_secret_char then .ok ()
  else
    .error
      (s!"Invalid Doppler secret name '{name}': names may only contain uppercase letters, numbers, and underscores. " ++
        "Rename the secret in monosecret.toml -- Doppler cannot store this name, so Monosecret refuses it rather " ++
        "than storing it under a different one.")

/-- Where the name of a config came from. -/
inductive ConfigSource
  | Uri
  | Profile
  | Ref
  deriving DecidableEq

def ConfigSource.attribution : ConfigSource → String
  | .Uri => ""
  | .Profile => " (named by the Monosecret profile)"
  | .Ref => " (named by the secret's ref)"

def ConfigSource.fix : ConfigSource → String
  | .Uri => "Correct the config in the provider URI, e.g. doppler://myapp/prd."
  | .Profile => "Rename the profile, or pin a config in the provider URI, e.g. doppler://myapp/prd."
  | .Ref => "Correct the config in the ref, e.g. item = \"prd/API_KEY\"."

def is_doppler_slug (name : String) : Bool :=
  name ≠ "" && name.toList.all fun c => c.isLower || c.isDigit || c == '_' || c == '-'

def validate_config_name (config : String) (source : ConfigSource) : Except String Unit :=
  if is_doppler_slug config then .ok ()
  else
    .error
      (s!"Invalid Doppler config '{config}'{source.attribution}: config names may only contain lowercase letters, " ++
        s!"numbers, underscores and hyphens. {source.fix}")

/-- The config and the name in an item. -/
def item_parts (item : String) (fallback : Option (String × ConfigSource)) : Except String (String × String × ConfigSource) :=
  match Texts.split_once ['/'] item.toList with
  | some (config, name) => .ok (String.ofList config, String.ofList name, .Ref)
  | none =>
    match fallback with
    | some (config, source) => .ok (config, item, source)
    | none =>
      .error
        (s!"No Doppler config for the ref '{item}'. Name one in the ref as item = \"config/{item}\", pin one in the " ++
          "provider URI, e.g. doppler://myapp/prd, or select a profile to name it.")

def parse_item (item : String) (fallback : Option (String × ConfigSource)) : Except String (String × String) := do
  let (config, name, source) ← item_parts item fallback
  validate_config_name config source
  validate_secret_name name
  return (config, name)

/-! ## Secret objects -/

def json_type : Json → String
  | .null => "null"
  | .bool _ => "a boolean"
  | .int _ | .real _ => "a number"
  | .str _ => "a string"
  | .arr _ => "an array"
  | .obj _ => "an object"

def as_str : Json → Option String
  | .str text => some text
  | _ => none

def visibility (value : Json) : Option String :=
  ((value.get "computedVisibility").bind as_str).or ((value.get "rawVisibility").bind as_str)

/-- A secret object without a value. -/
def null_value (value : Json) (name : String) : Except String (Option SecretBytes) :=
  match visibility value with
  | some visibility =>
    .error
      (s!"Doppler withheld the value of '{name}': the secret exists with visibility '{visibility}' but Doppler " ++
        "returned no value for it, so this token may see that it exists but not read it. Doppler does not serve a " ++
        "'restricted' value to a token tied to a user identity, so use a service token (dp.st.) or a service " ++
        "account token (dp.sa.) rather than a personal (dp.pt.) or CLI (dp.ct.) one, or lower the secret's " ++
        "visibility in Doppler.")
  | none =>
    if ((value.get "raw").bind as_str).isSome then
      .error
        (s!"Doppler's answer for '{name}' carries a raw value but no computed one, which is not a shape this provider " ++
          "recognizes -- an absent secret nulls every field. Monosecret refuses it rather than reading it as a " ++
          "secret that is not set.")
    else .ok none

def secret_value (value : Json) (name : String) : Except String (Option SecretBytes) :=
  if value.is_obj then
    match value.get "computed" with
    | none => .error s!"Doppler's answer for '{name}' carries no `computed` field, which is not a shape this provider recognizes."
    | some (.str computed) => .ok (some (utf8 computed))
    | some .null => null_value value name
    | some other =>
      .error
        (s!"Doppler returned {json_type other} rather than a string as the value of '{name}', which Monosecret cannot " ++
          "hand to a process as an environment variable. Store the secret as a string in Doppler.")
  else .error s!"Doppler's answer for '{name}' is not a secret object."

def quoted_messages (body : Json) : String :=
  match body.get "messages" with
  | some (.arr messages) =>
    let texts := messages.filterMap as_str
    if texts = [] then "" else " Doppler said: " ++ "; ".intercalate texts
  | _ => ""

def parse_secret_value (body : Json) (name : String) : Except String (Option SecretBytes) :=
  match (body.get "value").filter Json.is_obj with
  | some value => secret_value value name
  | none => .error s!"Doppler's response for '{name}' carries no `value` object.{quoted_messages body}"

def collect_secrets (config : String) : List (String × Json) → Map String SecretBytes → Except String (Map String SecretBytes)
  | [], listed => .ok listed
  | (name, value) :: secrets, listed =>
    if is_reserved name then collect_secrets config secrets listed
    else if value.is_obj then
      match secret_value value name with
      | .error error => .error error
      | .ok found => collect_secrets config secrets (listed.insert_option name found)
    else
      .error
        (s!"Doppler's listing of config '{config}' carries {json_type value} rather than a secret object under " ++
          s!"'{name}'.")

def parse_config_secrets (body : Json) (config : String) : Except String (Map String SecretBytes) :=
  match body.get "secrets" with
  | some (.obj secrets) => collect_secrets config secrets .empty
  | _ => .error s!"Doppler's listing of config '{config}' carries no `secrets` object."

/-! ## Requests -/

structure Location where
  project : String
  config : String
  name : String
  deriving DecidableEq

inductive Call
  | Read (loc : Location)
  | List (project config names : String)
  | Write (loc : Location) (value : Option String)
  deriving DecidableEq

/-- The one secret a call is about. -/
def Call.location : Call → Option Location
  | .Read loc | .Write loc _ => some loc
  | .List .. => none

/-- A status that is not success, and what the body says. -/
structure Refusal where
  status : Nat
  message : String

/-- The secrets of a config. -/
structure Stored where
  secrets : List (String × Json)
  distinct : (secrets.map Prod.fst).Nodup

/-- The configs of the project, and the requests refused. -/
structure Server where
  config : String → Except Refusal Stored
  write : Location → Option String → Except Refusal Unit

def absent_object : Json :=
  .obj [("raw", .null), ("computed", .null), ("note", .null), ("rawVisibility", .null), ("computedVisibility", .null)]

def names_of (names : String) : List String := (names.toList.splitOn ',').map String.ofList

def Server.read (server : Server) (loc : Location) : Except Refusal Json :=
  (server.config loc.config).map fun stored =>
    .obj [("name", .str loc.name), ("value", (stored.secrets.lookup loc.name).getD absent_object), ("success", .bool true)]

def Server.list (server : Server) (config names : String) : Except Refusal Json :=
  (server.config config).map fun stored =>
    .obj [("secrets", .obj (if names = "" then stored.secrets
      else stored.secrets.filter fun secret => (names_of names).contains secret.1)), ("success", .bool true)]

def http_error (project : String) (refusal : Refusal) (action : String) : String :=
  match refusal.status with
  | 401 =>
    s!"Doppler rejected the token (401) while {action}: {refusal.message}. Check the token credential or DOPPLER_TOKEN."
  | 400 =>
    s!"Doppler refused the request (400) while {action}: {refusal.message}. This provider addresses project " ++
      s!"'{project}' explicitly; a service account token reaches only what its grants cover, and a service token " ++
      "(dp.st.) only the one project and config it is pinned to."
  | 404 =>
    s!"Doppler has no such project or config (404) while {action}: {refusal.message}. Projects and configs must " ++
      "already exist -- Monosecret does not create them."
  | 429 => s!"Doppler rate limit exceeded (429) while {action}: {refusal.message}."
  | status => s!"Doppler returned HTTP {status} while {action}: {refusal.message}"

inductive AbsentConfig
  | IsAnError
  | HoldsNothing
  deriving DecidableEq

def interpret_read (loc : Location) (response : Except Refusal Json) (absent_config : AbsentConfig) :
    Except String (Option SecretBytes) :=
  match response with
  | .ok body => parse_secret_value body loc.name
  | .error refusal =>
    if refusal.status = 404 ∧ absent_config = .HoldsNothing then .ok none
    else .error (http_error loc.project refusal s!"reading '{loc.name}'")

def interpret_listing (project config : String) (response : Except Refusal Json) : Except String (Map String SecretBytes) :=
  match response with
  | .ok body => parse_config_secrets body config
  | .error refusal => .error (http_error project refusal s!"listing config '{config}'")

/-! ## Filters -/

def MAX_FILTER_BYTES : Nat := 4 * 1024

/-- The chunks that are full, and the one being filled. -/
def push_name (chunks : List String × String) (name : String) : List String × String :=
  let chunks := if chunks.2 ≠ "" ∧ chunks.2.utf8ByteSize + 1 + name.utf8ByteSize > MAX_FILTER_BYTES then
    (chunks.1 ++ [chunks.2], "") else chunks
  (chunks.1, (if chunks.2 ≠ "" then chunks.2 ++ "," else chunks.2) ++ name)

def filter_chunks (wanted : List String) : List String :=
  let (chunks, chunk) := wanted.foldl push_name ([], "")
  chunks ++ [chunk]

/-! ## The provider -/

structure DopplerConfig where
  project : String
  config : Option String

structure DopplerProvider where
  config : DopplerConfig
  /-- The profile of the session. -/
  profile : Option String

namespace DopplerProvider

variable (provider : DopplerProvider)

def session_profile : Option String := provider.profile.filter (· ≠ "")

def implied_config (profile : Option String) : Option (String × ConfigSource) :=
  match provider.config.config, profile with
  | some config, _ => some (config, .Uri)
  | none, some profile => some (profile, .Profile)
  | none, none => none

def config_for_profile (profile : String) : Except String String := do
  let (config, source) := (provider.implied_config (some profile)).getD (profile, .Profile)
  if source = .Profile then validate_config_name config source else .ok ()
  return config

def convention_address (_project profile key : String) : Except String NativeAddress := do
  validate_secret_name key
  let config ← provider.config_for_profile profile
  return ⟨s!"{config}/{key}", none, none, none, none⟩

def entries : Provider Unit where
  name := "doppler"
  supported_coords := []
  convention_address := provider.convention_address
  physical_store_path := none
  entry_container_identity := s!"doppler://{provider.config.project}"

def locate (addr : Address) : Except String Location := do
  let item ← provider.entries.flat_item addr
  let (config, name) ← parse_item item (provider.implied_config provider.session_profile)
  return ⟨provider.config.project, config, name⟩

def configured_entry_coordinates (addr : Address) : Except String NativeAddress := do
  let loc ← provider.locate addr
  return ⟨s!"{loc.config}/{loc.name}", none, none, none, none⟩

def refuse_reserved (name : String) : Except String Unit :=
  if is_reserved name then
    .error
      (s!"Doppler reserves the secret name '{name}' for itself and refuses to store one under it, so Monosecret cannot " ++
        "either -- and a read of it can only ever return Doppler's own injected value. Rename the secret in " ++
        "monosecret.toml.")
  else .ok ()

def locate_writable (addr : Address) : Except String Location := do
  let loc ← provider.locate addr
  refuse_reserved loc.name
  return loc

def validate_secret_value (name value : String) : Except String Unit :=
  if ['$', '\x7b'] <:+: value.toList then
    .error
      (s!"Doppler cannot store the value of '{name}' unchanged: it contains '$\x7b', which Doppler reads as a reference to " ++
        "another secret. Doppler refuses a reference it cannot resolve and rewrites one it can, so such a value never " ++
        "reads back as it was written. Store the value in a provider that keeps it verbatim, or remove the '$\x7b'.")
  else .ok ()

variable (server : Server)

/-! What an operation sends, and what it returns. -/

def get_async (loc : Location) (absent_config : AbsentConfig) : List Call × Except String (Option SecretBytes) :=
  if is_reserved loc.name then ([], .ok none)
  else ([.Read loc], interpret_read loc (server.read loc) absent_config)

def get (addr : Address) : List Call × Except String (Option SecretBytes) :=
  match provider.locate addr with
  | .error error => ([], .error error)
  | .ok loc => get_async server loc .IsAnError

def write_async (loc : Location) (value : Option String) : List Call × Except String Unit :=
  let action := match value with
    | some _ => s!"writing '{loc.name}'"
    | none => s!"deleting '{loc.name}'"
  ([.Write loc value], (server.write loc value).mapError fun refusal => http_error loc.project refusal action)

def storable (loc : Location) (value : SecretBytes) : Except String String := do
  let value ← require_utf8 "doppler" value
  validate_secret_value loc.name value
  return value

def set (addr : Address) (value : SecretBytes) : List Call × Except String Unit :=
  match provider.locate_writable addr with
  | .error error => ([], .error error)
  | .ok loc =>
    match storable loc value with
    | .error error => ([], .error error)
    | .ok value => write_async server loc (some value)

def delete (addr : Address) : List Call × Except String Bool :=
  match provider.locate_writable addr with
  | .error error => ([], .error error)
  | .ok loc =>
    match get_async server loc .HoldsNothing with
    | (calls, .error error) => (calls, .error error)
    | (calls, .ok none) => (calls, .ok false)
    | (calls, .ok (some _)) =>
      let (written, result) := write_async server loc none
      (calls ++ written, result.map fun _ => true)

def list_chunks (config : String) : List String → Map String SecretBytes → List Call × Except String (Map String SecretBytes)
  | [], listed => ([], .ok listed)
  | names :: filters, listed =>
    match interpret_listing provider.config.project config (server.list config names) with
    | .error error => ([.List provider.config.project config names], .error error)
    | .ok more =>
      let (calls, result) := list_chunks config filters fun name => (more name).or (listed name)
      (.List provider.config.project config names :: calls, result)

def list_async (config : String) (wanted : List String) : List Call × Except String (Map String SecretBytes) :=
  provider.list_chunks server config (filter_chunks wanted) .empty

/-- The names to ask for, of the keys wanted in a config. -/
def filter_names (keys : List String) : List String := sorted_set (keys.filter fun key => !is_reserved key)

def list_group (config : String) (keys : List String) : List Call × Except String (Map String SecretBytes) :=
  if filter_names keys = [] then ([], .ok .empty) else provider.list_async server config (filter_names keys)

def place_of (addr : Address) : Except String (String × String) := (provider.locate addr).map fun loc => (loc.config, loc.name)

def get_many (hash : HashOrder (String × List (Wanted String String))) (requests : List (String × Address)) :
    List Call × Except String (Map String SecretBytes) :=
  if requests = [] then ([], .ok .empty)
  else
    match locate_all provider.place_of requests with
    | .error error => ([], .error error)
    | .ok wanted =>
      ((hash.order (groups_by_place wanted)).flatMap fun group =>
          (provider.list_group server group.1 (group.2.map Wanted.key)).1,
        get_listed hash wanted (fun config keys => (provider.list_group server config keys).2) .empty)

end DopplerProvider

end Monosecret.Providers.Doppler
