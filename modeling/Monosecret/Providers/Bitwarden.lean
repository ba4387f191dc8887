/-
  Monosecret.Providers.Bitwarden — reads and writes of the fields of Bitwarden items
  (`BitwardenProvider` in `monosecret/src/provider/bw.rs`).

  An item has a type, a body of notes, custom fields, and a member object of its type. A
  selector names a built-in member of the type, a note's body or a custom field; without one a
  write goes to the type's default field and a read looks there first. A write updates the JSON
  of the item addressed, or creates one from a template.
-/

import Monosecret.Lib.JsonFields
import Monosecret.Lib.Map
import Monosecret.Providers.SameEntries

namespace Monosecret.Providers.Bitwarden

open Lib Lib.Json
open Cache (SecretBytes utf8)

/-! ## Items -/

inductive BitwardenItemType
  | Login
  | SecureNote
  | Card
  | Identity
  | SshKey
  deriving DecidableEq

namespace BitwardenItemType

def to_u8 : BitwardenItemType → Int
  | .Login => 1
  | .SecureNote => 2
  | .Card => 3
  | .Identity => 4
  | .SshKey => 5

def from_u8 : Int → Option BitwardenItemType
  | 1 => some .Login
  | 2 => some .SecureNote
  | 3 => some .Card
  | 4 => some .Identity
  | 5 => some .SshKey
  | _ => none

def default_field : BitwardenItemType → String
  | .Login => "password"
  | .SecureNote => "value"
  | .Card => "number"
  | .Identity => "email"
  | .SshKey => "private_key"

/-- The lowercase spelling of a type. -/
def from_str : String → Option BitwardenItemType
  | "login" => some .Login
  | "securenote" | "note" | "secure_note" => some .SecureNote
  | "card" => some .Card
  | "identity" => some .Identity
  | "sshkey" | "ssh_key" | "ssh" => some .SshKey
  | _ => none

/-- The member object of a type; a note has none. -/
def object_key : BitwardenItemType → String
  | .Login => "login"
  | .SecureNote => "secureNote"
  | .Card => "card"
  | .Identity => "identity"
  | .SshKey => "sshKey"

/-- The members a reader takes from the type's object. -/
def members : BitwardenItemType → List String
  | .Login => ["username", "password", "totp"]
  | .SecureNote => []
  | .Card => ["cardholderName", "number", "brand", "expMonth", "expYear", "code"]
  | .Identity => ["title", "firstName", "middleName", "lastName", "username", "company", "email", "phone"]
  | .SshKey => ["privateKey", "publicKey", "keyFingerprint"]

end BitwardenItemType

structure BitwardenField where
  name : Option String
  value : Option String
  field_type : Int

abbrev Members := Map String String

structure BitwardenItem where
  id : String
  name : String
  item_type : BitwardenItemType
  fields : Option (List BitwardenField)
  notes : Option String
  login : Option Members
  card : Option Members
  identity : Option Members
  ssh_key : Option Members

/-- The object of the item's type. -/
def BitwardenItem.object (item : BitwardenItem) : Option Members :=
  match item.item_type with
  | .Login => item.login
  | .SecureNote => none
  | .Card => item.card
  | .Identity => item.identity
  | .SshKey => item.ssh_key

def BitwardenItem.custom_fields (item : BitwardenItem) : List BitwardenField := item.fields.getD []

/-! ## Reading JSON -/

def field_type_of : Option Json → Option Int
  | some (.int n) => if 0 ≤ n ∧ n ≤ 3 then some n else none
  | _ => none

def BitwardenField.of_json (json : Json) : Option BitwardenField := do
  let name ← optional_str (json.get "name")
  let value ← optional_str (json.get "value")
  let field_type ← field_type_of (json.get "type")
  return ⟨name, value, field_type⟩

def item_type_of : Option Json → Option BitwardenItemType
  | some (.int n) => BitwardenItemType.from_u8 n
  | _ => none

def fields_of : Option Json → Option (Option (List BitwardenField))
  | none => some none
  | some .null => some none
  | some (.arr items) => (each BitwardenField.of_json items).map some
  | some _ => none

/-- A member object of optional texts. -/
def members_of (keys : List String) : Option Json → Option (Option Members)
  | none => some none
  | some .null => some none
  | some (.obj entries) =>
    if keys.all fun key => (optional_str (entries.lookup key)).isSome then
      some (some fun key => if key ∈ keys then (optional_str (entries.lookup key)).join else none)
    else none
  | some _ => none

def BitwardenItem.of_json (json : Json) : Option BitwardenItem := do
  let id ← required_str (json.get "id")
  let name ← required_str (json.get "name")
  let item_type ← item_type_of (json.get "type")
  let fields ← fields_of (json.get "fields")
  let notes ← optional_str (json.get "notes")
  let login ← members_of BitwardenItemType.Login.members (json.get "login")
  let card ← members_of BitwardenItemType.Card.members (json.get "card")
  let identity ← members_of BitwardenItemType.Identity.members (json.get "identity")
  let ssh_key ← members_of BitwardenItemType.SshKey.members (json.get "sshKey")
  return ⟨id, name, item_type, fields, notes, login, card, identity, ssh_key⟩

/-! ## Names -/

/-- `str::eq_ignore_ascii_case`. -/
def eq_ignore_ascii_case (a b : String) : Bool := a.toList.map Char.toLower == b.toList.map Char.toLower

/-- `str::contains`. -/
def contains (text pattern : List Char) : Bool :=
  match text with
  | [] => pattern.isEmpty
  | c :: rest => pattern.isPrefixOf (c :: rest) || contains rest pattern

def is_note_body_field (field : String) : Bool := eq_ignore_ascii_case field "notes"

def is_ascii (text : String) : Bool := text.toList.all fun c => c.val < 128

/-- The `bw` CLI, and what a name is in lowercase or as an item's identifier. -/
structure Cli where
  to_lowercase : String → String
  parse_uuid : String → Option String
  /-- What `--search` lets through: every item of the name, if it is one of ASCII. -/
  search : String → Json → Bool
  search_covers : ∀ term json item, is_ascii term = true → BitwardenItem.of_json json = some item →
    to_lowercase item.name = to_lowercase term → search term json = true
  lowercase_ascii : ∀ text, is_ascii text = true → to_lowercase text = String.ofList (text.toList.map Char.toLower)
  /-- The identifier of the next item. -/
  fresh_id : List Json → String

section

variable (to_lowercase : String → String)

def login_member : String → Option String
  | "password" => some "password"
  | "username" => some "username"
  | "totp" => some "totp"
  | _ => none

def card_member : String → Option String
  | "number" => some "number"
  | "code" | "cvv" | "cvc" => some "code"
  | "cardholder" | "name" => some "cardholderName"
  | "brand" => some "brand"
  | "expmonth" | "exp_month" => some "expMonth"
  | "expyear" | "exp_year" => some "expYear"
  | _ => none

def identity_member : String → Option String
  | "email" => some "email"
  | "username" => some "username"
  | "phone" => some "phone"
  | "firstname" | "first_name" => some "firstName"
  | "lastname" | "last_name" => some "lastName"
  | "company" => some "company"
  | _ => none

def ssh_key_member : String → Option String
  | "private_key" | "privatekey" | "private" => some "privateKey"
  | "public_key" | "publickey" | "public" => some "publicKey"
  | "fingerprint" | "key_fingerprint" => some "keyFingerprint"
  | _ => none

def builtin_member (item_type : BitwardenItemType) (field : String) : Option String :=
  match item_type with
  | .Login => login_member (to_lowercase field)
  | .Card => card_member (to_lowercase field)
  | .Identity => identity_member (to_lowercase field)
  | .SshKey => ssh_key_member (to_lowercase field)
  | .SecureNote => none

def hidden_words : List String := ["password", "secret", "token", "key", "value", "code", "cvv", "cvc"]

/-- Text or hidden. -/
def for_field_name (field_name : String) : Int :=
  if hidden_words.any fun word => contains (to_lowercase field_name).toList word.toList then 1 else 0

/-! ## Reads -/

def has_name (field_name : String) (field : BitwardenField) : Bool :=
  match field.name with
  | some name => eq_ignore_ascii_case name field_name
  | none => false

def has_name_with (field_name : String) (field : BitwardenField) : Bool :=
  match field.name with
  | some name => contains (to_lowercase name).toList (to_lowercase field_name).toList
  | none => false

def extract_from_custom_fields (item : BitwardenItem) (field_name : String) : Option String :=
  match item.custom_fields.find? (has_name field_name) with
  | some field => field.value
  | none =>
    match item.custom_fields.find? (has_name_with to_lowercase field_name) with
    | some field => field.value
    | none => none

/-- The reads of the four types with a member object: a selector names a member or a custom
    field, and without one the preferred members come first. -/
def extract_from_object (item : BitwardenItem) (object : Option Members) (member_of : String → Option String) (preferred : List String)
    (resolved_field : Option String) : Option String :=
  match object with
  | some members =>
    match resolved_field with
    | some field_name =>
      match member_of (to_lowercase field_name) with
      | some member => members member
      | none => extract_from_custom_fields to_lowercase item field_name
    | none =>
      match preferred.findSome? fun member => members member with
      | some value => some value
      | none => extract_from_custom_fields to_lowercase item "value"
  | none => extract_from_custom_fields to_lowercase item "value"

def extract_from_login_item (item : BitwardenItem) (resolved_field : Option String) : Option String :=
  extract_from_object to_lowercase item item.login login_member ["password", "username"] resolved_field

def extract_from_card_item (item : BitwardenItem) (resolved_field : Option String) : Option String :=
  extract_from_object to_lowercase item item.card card_member ["number"] resolved_field

def extract_from_identity_item (item : BitwardenItem) (resolved_field : Option String) : Option String :=
  extract_from_object to_lowercase item item.identity identity_member ["email", "username"] resolved_field

def extract_from_ssh_key_item (item : BitwardenItem) (resolved_field : Option String) : Option String :=
  extract_from_object to_lowercase item item.ssh_key ssh_key_member ["privateKey"] resolved_field

def extract_from_secure_note_item (item : BitwardenItem) (resolved_field : Option String) : Option String :=
  match resolved_field with
  | some field_name =>
    if is_note_body_field field_name then item.notes else extract_from_custom_fields to_lowercase item field_name
  | none =>
    match extract_from_custom_fields to_lowercase item "value" with
    | some value => some value
    | none => item.notes

def extract_from_item (item : BitwardenItem) (resolved_field : Option String) : Option String :=
  match item.item_type with
  | .Login => extract_from_login_item to_lowercase item resolved_field
  | .SecureNote => extract_from_secure_note_item to_lowercase item resolved_field
  | .Card => extract_from_card_item to_lowercase item resolved_field
  | .Identity => extract_from_identity_item to_lowercase item resolved_field
  | .SshKey => extract_from_ssh_key_item to_lowercase item resolved_field

/-! ## Updates -/

/-- A member of the type's object, which has to be there. -/
def update_member (item_json : Json) (object member value : String) : Except String Json :=
  match item_json, item_json.get object with
  | .obj entries, some (.obj members) => .ok (.obj (insert object (.obj (insert member (.str value) members)) entries))
  | _, _ => .error s!"Bitwarden item template has no `{object}` object"

def names_field (field : String) (field_obj : Json) : Bool :=
  match (field_obj.get "name").bind as_str with
  | some name => eq_ignore_ascii_case name field
  | none => false

def set_value (value : String) : Json → Json
  | .obj members => .obj (insert "value" (.str value) members)
  | other => other

def new_field (field value : String) : Json :=
  .obj [("name", .str field), ("value", .str value), ("type", .int (for_field_name to_lowercase field))]

/-- The first field of the name, or a new one. -/
def set_field (field value : String) : List Json → List Json
  | [] => [new_field to_lowercase field value]
  | field_obj :: rest =>
    if names_field field field_obj then set_value value field_obj :: rest else field_obj :: set_field field value rest

def update_custom_field_in_json (item_json : Json) (field value : String) : Except String Json :=
  match item_json with
  | .obj entries =>
    match (entries.lookup "fields").getD (.arr []) with
    | .null => .ok (.obj (insert "fields" (.arr (set_field to_lowercase field value [])) entries))
    | .arr fields => .ok (.obj (insert "fields" (.arr (set_field to_lowercase field value fields)) entries))
    | _ => .error "Invalid fields array"
  | _ => .error "Bitwarden item template is not a JSON object"

def update_object_item_json (item_type : BitwardenItemType) (item_json : Json) (field value : String) : Except String Json :=
  match builtin_member to_lowercase item_type field with
  | some member => update_member item_json item_type.object_key member value
  | none => update_custom_field_in_json to_lowercase item_json field value

def update_login_item_json : Json → String → String → Except String Json := update_object_item_json to_lowercase .Login

def update_card_item_json : Json → String → String → Except String Json := update_object_item_json to_lowercase .Card

def update_identity_item_json : Json → String → String → Except String Json := update_object_item_json to_lowercase .Identity

def update_ssh_key_item_json : Json → String → String → Except String Json := update_object_item_json to_lowercase .SshKey

def update_secure_note_item_json (item_json : Json) (field value : String) : Except String Json :=
  if is_note_body_field field then
    match item_json with
    | .obj entries => .ok (.obj (insert "notes" (.str value) entries))
    | _ => .error "Bitwarden item template is not a JSON object"
  else update_custom_field_in_json to_lowercase item_json field value

def update_item_json : BitwardenItemType → Json → String → String → Except String Json
  | .Login => update_login_item_json to_lowercase
  | .SecureNote => update_secure_note_item_json to_lowercase
  | .Card => update_card_item_json to_lowercase
  | .Identity => update_identity_item_json to_lowercase
  | .SshKey => update_ssh_key_item_json to_lowercase

/-! ## Templates -/

structure ItemPlacement where
  organization_id : Option String
  collection_ids : Option (List String)

def optional_json : Option String → Json
  | some text => .str text
  | none => .null

def ids_json : Option (List String) → Json
  | some ids => .arr (ids.map .str)
  | none => .null

def managed (item_name : String) : String := s!"Monosecret managed secret: {item_name}"

def template (item_type : BitwardenItemType) (item_name notes : String) (object : Json) (fields : List Json) (placement : ItemPlacement) : Json :=
  .obj [("type", .int item_type.to_u8), ("name", .str item_name), ("notes", .str notes), (item_type.object_key, object),
    ("fields", .arr fields), ("organizationId", optional_json placement.organization_id),
    ("collectionIds", ids_json placement.collection_ids)]

/-- A template of a type with a member object: the value is one of its members or a custom field. -/
def object_template (item_type : BitwardenItemType) (blank : List (String × Json)) (item_name value field : String)
    (placement : ItemPlacement) : Json :=
  match builtin_member to_lowercase item_type field with
  | some member => template item_type item_name (managed item_name) (.obj (insert member (.str value) blank)) [] placement
  | none => template item_type item_name (managed item_name) (.obj blank) [new_field to_lowercase field value] placement

def blank_login : List (String × Json) := [("username", .null), ("password", .null), ("totp", .null), ("uris", .arr [])]

def blank_card : List (String × Json) :=
  [("number", .null), ("code", .null), ("cardholderName", .null), ("brand", .null), ("expMonth", .null), ("expYear", .null)]

def blank_identity : List (String × Json) :=
  [("title", .null), ("firstName", .null), ("middleName", .null), ("lastName", .null), ("username", .null), ("company", .null),
    ("email", .null), ("phone", .null)]

def SSH_KEY_FIELD_UNSET : String := "(not set by Monosecret)"

def blank_ssh_key : List (String × Json) :=
  [("privateKey", .str SSH_KEY_FIELD_UNSET), ("publicKey", .str SSH_KEY_FIELD_UNSET), ("keyFingerprint", .str SSH_KEY_FIELD_UNSET)]

def login_template : String → String → String → ItemPlacement → Json := object_template to_lowercase .Login blank_login

def card_template : String → String → String → ItemPlacement → Json := object_template to_lowercase .Card blank_card

def identity_template : String → String → String → ItemPlacement → Json := object_template to_lowercase .Identity blank_identity

def ssh_key_template : String → String → String → ItemPlacement → Json := object_template to_lowercase .SshKey blank_ssh_key

def secure_note_template (item_name value field : String) (placement : ItemPlacement) : Json :=
  if is_note_body_field field then template .SecureNote item_name value (.obj [("type", .int 0)]) [] placement
  else template .SecureNote item_name (managed item_name) (.obj [("type", .int 0)]) [new_field to_lowercase field value] placement

def creation_template : BitwardenItemType → String → String → String → ItemPlacement → Json
  | .Login => login_template to_lowercase
  | .Card => card_template to_lowercase
  | .Identity => identity_template to_lowercase
  | .SecureNote => secure_note_template to_lowercase
  | .SshKey => ssh_key_template to_lowercase

end

/-! ## The vault -/

def id_of (json : Json) : Option String := required_str (json.get "id")

def list_items (items : List Json) : Except String (List BitwardenItem) :=
  match each BitwardenItem.of_json items with
  | some listed => .ok listed
  | none => .error "Bitwarden listed an item Monosecret cannot read"

/-- `bw get item`. -/
def get_item_as_template (items : List Json) (id : String) : Except String Json :=
  match items.find? fun json => id_of json == some id with
  | some json => .ok json
  | none => .error s!"`bw get item {id}` failed"

/-- `bw edit item`. -/
def update_item_with_json (items : List Json) (id : String) (item_json : Json) : List Json :=
  items.map fun json => if id_of json = some id then item_json else json

def with_id (id : String) : Json → Json
  | .obj entries => .obj (insert "id" (.str id) entries)
  | other => other

/-- `bw create item`: the server names it. -/
def create_item_from_template (cli : Cli) (items : List Json) (item_json : Json) : List Json :=
  items ++ [with_id (cli.fresh_id items) item_json]

/-! ## The provider -/

/-- The configuration and the environment of a provider. -/
structure BitwardenProvider where
  default_field : Option String
  default_item_type : Option BitwardenItemType
  env_default_field : Option String
  env_default_type : Option String
  placement : ItemPlacement

namespace Cli

variable (cli : Cli)

def parse_item_type (value source : String) : Except String BitwardenItemType :=
  match BitwardenItemType.from_str (cli.to_lowercase value) with
  | some item_type => .ok item_type
  | none =>
    .error
      (s!"Unknown Bitwarden item type '{value}' in {source}. Valid types are login, note (or securenote, secure_note), card, " ++
        "identity, and ssh (or sshkey, ssh_key).")

def of_type (require_type : Option BitwardenItemType) (item : BitwardenItem) : Bool :=
  match require_type with
  | some wanted_type => item.item_type = wanted_type
  | none => true

def candidates (items : List BitwardenItem) (item_reference : String) (require_type : Option BitwardenItemType) : List BitwardenItem :=
  (items.filter fun item => cli.to_lowercase item.name == cli.to_lowercase item_reference).filter (of_type require_type)

def find_by_id (items : List BitwardenItem) (item_reference : String) : Option BitwardenItem :=
  (cli.parse_uuid item_reference).bind fun id => items.find? fun item => eq_ignore_ascii_case item.id id

def type_name : BitwardenItemType → String
  | .Login => "Login"
  | .SecureNote => "SecureNote"
  | .Card => "Card"
  | .Identity => "Identity"
  | .SshKey => "SshKey"

def ambiguous (item_reference : String) (several : List BitwardenItem) : String :=
  s!"{several.length} Bitwarden items are named '{item_reference}'. Rename them, or point the secret at one of these ids with " ++
    "ref = \x7b item = \"<id>\" \x7d:\n" ++
    "\n".intercalate (several.map fun item => "  " ++ item.id ++ " (" ++ type_name item.item_type ++ ")")

def find_addressed_item (items : List BitwardenItem) (item_reference : String) (require_type : Option BitwardenItemType) :
    Except String (Option BitwardenItem) :=
  match cli.find_by_id items item_reference with
  | some item => .ok (some item)
  | none =>
    match cli.candidates items item_reference require_type with
    | [] => .ok none
    | [only] => .ok (some only)
    | several => .error (ambiguous item_reference several)

end Cli

namespace BitwardenProvider

variable (cli : Cli) (provider : BitwardenProvider)

def resolved_item_type : Except String (Option BitwardenItemType) :=
  match provider.env_default_type with
  | some raw => (cli.parse_item_type raw "BITWARDEN_DEFAULT_TYPE").map some
  | none => .ok provider.default_item_type

/-- A field the caller, the environment or the configuration names. -/
def resolved_field (field : Option String) : Option String := (field.or provider.env_default_field).or provider.default_field

def extract_value_from_item (item : BitwardenItem) (field_hint : Option String) : Option SecretBytes :=
  (extract_from_item cli.to_lowercase item (provider.resolved_field field_hint)).map utf8

def lookup_in (items : List BitwardenItem) (item_name : String) (field_hint : Option String) : Except String (Option SecretBytes) := do
  let require_type ← provider.resolved_item_type cli
  let found ← cli.find_addressed_item items item_name require_type
  return found.bind fun item => provider.extract_value_from_item cli item field_hint

/-- The first look at a name `bw` can search for. -/
def searched (items : List Json) (item_name : String) : Except String (Option BitwardenItem) := do
  let narrowed ← list_items (items.filter (cli.search item_name))
  let require_type ← provider.resolved_item_type cli
  cli.find_addressed_item narrowed item_name require_type

def get (items : List Json) (item_name : String) (field_hint : Option String) : Except String (Option SecretBytes) :=
  if (cli.parse_uuid item_name).isNone && is_ascii item_name then
    match provider.searched cli items item_name with
    | .error error => .error error
    | .ok (some item) => .ok (provider.extract_value_from_item cli item field_hint)
    | .ok none => (list_items items).bind fun listed => provider.lookup_in cli listed item_name field_hint
  else (list_items items).bind fun listed => provider.lookup_in cli listed item_name field_hint

def update_existing_item (items : List Json) (item : BitwardenItem) (target_field : Option String) (value : String) :
    Except String (List Json) := do
  let field := (provider.resolved_field target_field).getD item.item_type.default_field
  let item_json ← get_item_as_template items item.id
  let item_json ← update_item_json cli.to_lowercase item.item_type item_json field value
  return update_item_with_json items item.id item_json

def create_new_item (items : List Json) (item_name : String) (target_field : Option String) (value : String) : Except String (List Json) := do
  let require_type ← provider.resolved_item_type cli
  let item_type := require_type.getD .Login
  let field := (provider.resolved_field target_field).getD item_type.default_field
  return create_item_from_template cli items (creation_template cli.to_lowercase item_type item_name value field provider.placement)

/-- An identifier addresses an item that is there. -/
def refuse_unknown_id (item_name : String) : Except String Unit :=
  match cli.parse_uuid item_name with
  | some id =>
    .error
      (s!"no Bitwarden item with id '{id}' is visible in this vault scope; check the id, or address the item by name to " ++
        "create it")
  | none => .ok ()

def set (items : List Json) (item_name : String) (target_field : Option String) (value : SecretBytes) : Except String (List Json) := do
  let listed ← list_items items
  let require_type ← provider.resolved_item_type cli
  match ← cli.find_addressed_item listed item_name require_type with
  | some item =>
    let text ← require_utf8 "bw" value
    provider.update_existing_item cli items item target_field text
  | none =>
    refuse_unknown_id cli item_name
    let text ← require_utf8 "bw" value
    provider.create_new_item cli items item_name target_field text

end BitwardenProvider

end Monosecret.Providers.Bitwarden
