/-
  Monosecret.Manifest.Secret — declared secrets (`monosecret/src/composition.rs`, `typed.rs`,
  and `Secret` in `config.rs`).

  Composed templates, the registry of typed contracts, what a secret's fields say about it,
  and the merge of a profile's entry with the entry and the defaults it inherits
  (`Secret.resolved`). A file suffix is no part of a contract here.
-/

import Mathlib.Data.List.Sort
import Mathlib.Data.List.Dedup
import Monosecret.Manifest.Document

namespace Monosecret.Manifest

/-! ## Sorted names -/

def sorted (names : List String) : List String := names.insertionSort (· ≤ ·)

/-- A `BTreeSet` of names. -/
def sorted_set (names : List String) : List String := sorted names.dedup

variable {names : List String}

theorem mem_sorted {n : String} : n ∈ sorted names ↔ n ∈ names :=
  List.mem_insertionSort _

theorem sorted_nodup (h : names.Nodup) : (sorted names).Nodup :=
  (List.perm_insertionSort _ names).nodup_iff.mpr h

theorem mem_sorted_set {n : String} : n ∈ sorted_set names ↔ n ∈ names := by
  rw [sorted_set, mem_sorted, List.mem_dedup]

theorem sorted_set_nodup (names : List String) : (sorted_set names).Nodup := sorted_nodup (List.nodup_dedup names)

/-- Each key with what `find` has for it. -/
def keyed {β : Type} (find : String → Option β) (keys : List String) : List (String × β) :=
  keys.filterMap fun key => (find key).map fun value => (key, value)

section

variable {β : Type} {find : String → Option β}
variable {keys : List String}

theorem mem_keyed {e : String × β} : e ∈ keyed find keys ↔ e.1 ∈ keys ∧ find e.1 = some e.2 := by
  unfold keyed
  rw [List.mem_filterMap]
  constructor
  · rintro ⟨key, hk, h⟩
    obtain ⟨value, hv, rfl⟩ := Option.map_eq_some_iff.mp h
    exact ⟨hk, hv⟩
  · rintro ⟨hk, h⟩
    exact ⟨e.1, hk, by rw [h]; rfl⟩

theorem keyed_cons (keys : List String) {k : String} (h : (find k).isSome) :
    ∃ value, find k = some value ∧ keyed find (k :: keys) = (k, value) :: keyed find keys := by
  obtain ⟨value, hv⟩ := Option.isSome_iff_exists.mp h
  exact ⟨value, hv, by rw [keyed, List.filterMap_cons, hv]; rfl⟩

theorem keyed_fst (h : ∀ ky ∈ keys, (find ky).isSome) : (keyed find keys).map Prod.fst = keys := by
  induction keys with
  | nil => rfl
  | cons ky keys ih =>
    obtain ⟨value, -, hc⟩ := keyed_cons keys (h ky (.head _))
    rw [hc, List.map_cons, ih fun k hk => h k (.tail _ hk)]

theorem keyed_lookup (h : ∀ key ∈ keys, (find key).isSome) (key : String) :
    (keyed find keys).lookup key = if key ∈ keys then find key else none := by
  induction keys with
  | nil => rfl
  | cons other keys ih =>
    obtain ⟨value, hv, hc⟩ := keyed_cons keys (h other (.head _))
    rw [hc, List.lookup_cons, ih fun k hk => h k (.tail _ hk)]
    by_cases hk : key = other
    · subst hk
      simp [hv]
    · simp [beq_false_of_ne hk, hk]

end

/-- The entries of a table in the order of their keys. -/
def Table.sorted {β : Type} (table : Table β) : List (String × β) := keyed table.lookup (Manifest.sorted table.keys)

section

variable {β : Type} {table : Table β}

theorem Table.found {k : String} (h : k ∈ Manifest.sorted table.keys) : (table.lookup k).isSome :=
  AList.lookup_isSome.mpr (AList.mem_keys.mp (Manifest.mem_sorted.mp h))

theorem Table.mem_sorted {e : String × β} : e ∈ table.sorted ↔ table.lookup e.1 = some e.2 := by
  rw [Table.sorted, mem_keyed, and_iff_right_of_imp]
  intro h
  exact Manifest.mem_sorted.mpr (AList.mem_keys.mpr (AList.lookup_isSome.mp (by rw [h]; rfl)))

theorem Table.sorted_keys : table.sorted.map Prod.fst = Manifest.sorted table.keys := keyed_fst fun _ => Table.found

theorem Table.lookup_sorted (key : String) : table.sorted.lookup key = table.lookup key := by
  rw [Table.sorted, keyed_lookup fun _ => Table.found]
  by_cases hk : key ∈ Manifest.sorted table.keys
  · rw [if_pos hk]
  · rw [if_neg hk]
    symm
    rw [AList.lookup_eq_none]
    exact fun h => hk (Manifest.mem_sorted.mpr (AList.mem_keys.mpr h))

end

/-! ## Composed templates -/

inductive Part where
  | Literal (text : String)
  | Reference (name : String)
  deriving DecidableEq

structure Template where
  parts : List Part
  dependencies : List String
  deriving DecidableEq

/-- `[A-Z][A-Z0-9_]*`. -/
def is_valid_reference_name (name : String) : Bool :=
  match name.toList with
  | [] => false
  | first :: rest => first.isUpper && rest.all fun c => c.isUpper || c.isDigit || c == '_'

def push_literal (parts : List Part) (literal : List Char) : List Part :=
  if literal.isEmpty then parts else parts ++ [.Literal (String.ofList literal)]

/-- The loop over the characters; the third argument is the name read so far inside a
    reference. -/
def parse_parts : List Part → List Char → Option (List Char) → List Char → Except String (List Part)
  | parts, literal, none, [] => .ok (push_literal parts literal)
  | parts, literal, none, '$' :: '$' :: rest => parse_parts parts (literal ++ ['$']) none rest
  | parts, literal, none, '$' :: '{' :: rest => parse_parts (push_literal parts literal) [] (some []) rest
  | parts, literal, none, ch :: rest => parse_parts parts (literal ++ [ch]) none rest
  | _, _, some _, [] => .error "unclosed `$\x7b` in composed template; references use `$\x7bUPPERCASE_NAME\x7d`"
  | parts, literal, some name, ch :: rest =>
    if ch = '}' then
      if is_valid_reference_name (String.ofList name) then
        parse_parts (parts ++ [.Reference (String.ofList name)]) [] none rest
      else
        .error ("invalid composed reference `$\x7b" ++ String.ofList name ++ "\x7d`; names must match `[A-Z][A-Z0-9_]*`")
    else if ch = '{' then
      .error "nested `\x7b` in a composed reference; references use `$\x7bUPPERCASE_NAME\x7d`"
    else parse_parts parts literal (some (name ++ [ch])) rest

def references (parts : List Part) : List String :=
  parts.filterMap fun part =>
    match part with
    | .Literal _ => none
    | .Reference name => some name

def Template.parse (input : String) : Except String Template := do
  let parts ← parse_parts [] [] none input.toList
  let dependencies := sorted_set (references parts)
  if dependencies.isEmpty then .error "a composed template must reference at least one declared secret"
  else .ok ⟨parts, dependencies⟩

/-! ## Typed contracts -/

def X509_IDENTITY : String := "x509_identity"

/-- A serialization for a typed value whose type offers more than one. -/
inductive Format where
  | Pem
  | Der
  deriving DecidableEq

def Format.parse (value : String) : Option Format :=
  match value with
  | "pem" => some .Pem
  | "der" => some .Der
  | _ => none

def Format.as_str : Format → String
  | .Pem => "pem"
  | .Der => "der"

def Format.is_binary : Format → Bool
  | .Pem => false
  | .Der => true

/-- What a derived registry type makes of the identity it comes from. -/
inductive Projection where
  | Pkcs12
  | Pkcs8PrivateKey
  | Certificate
  | CertificateChain
  | IssuerChain
  deriving DecidableEq

/-- `formats` has the default first and is empty for a fixed representation; a stored type
    has no projection. -/
structure TypeContract where
  name : String
  formats : List Format
  sources : List String
  roles : List String
  projection : Option Projection
  fixed_binary : Bool
  deriving DecidableEq

namespace TypeContract

variable (contract : TypeContract)

def is_stored : Bool := contract.projection.isNone

def format (requested : Option String) : Except String (Option Format) :=
  match requested, contract.formats with
  | none, formats => .ok formats.head?
  | some _, [] => .error s!"`format` is not valid for type = \"{contract.name}\"; its representation is fixed"
  | some requested, _ :: _ =>
    match (Format.parse requested).filter fun format => contract.formats.contains format with
    | some format => .ok (some format)
    | none =>
      let expected := " or ".intercalate (contract.formats.map fun format => s!"`{format.as_str}`")
      .error s!"unknown format '{requested}' for type = \"{contract.name}\"; expected {expected}"

/-- Whether the value is bytes rather than text. -/
def is_binary (format : Option Format) : Bool :=
  match format with
  | some format => format.is_binary
  | none => contract.fixed_binary

def default_encoding (format : Option Format) : Option SecretEncoding :=
  if contract.is_binary format then some .Base64 else none

def accepts_source (source_type : Option String) : Bool :=
  match source_type with
  | some source_type => contract.sources.contains source_type
  | none => false

def accepts_role (role : String) : Bool := contract.roles.contains role

end TypeContract

def CONTRACTS : List TypeContract :=
  [⟨X509_IDENTITY, [], [], ["password"], none, true⟩,
   ⟨"pkcs12", [], [X509_IDENTITY], ["password"], some .Pkcs12, true⟩,
   ⟨"pkcs8_private_key", [.Pem, .Der], [X509_IDENTITY], [], some .Pkcs8PrivateKey, false⟩,
   ⟨"x509_certificate", [.Pem, .Der], [X509_IDENTITY], [], some .Certificate, false⟩,
   ⟨"x509_certificate_chain", [.Pem], [X509_IDENTITY], [], some .CertificateChain, false⟩,
   ⟨"x509_issuer_chain", [.Pem], [X509_IDENTITY], [], some .IssuerChain, false⟩]

/-- The contract of a registry type; informational types have none. -/
def contract (type_name : String) : Option TypeContract := CONTRACTS.find? fun contract => contract.name = type_name

def derivable_type_names : List String :=
  (CONTRACTS.filter fun contract => !contract.is_stored).map TypeContract.name

theorem contract_some {type_name : String} {c : TypeContract} (h : contract type_name = some c) :
    c ∈ CONTRACTS ∧ c.name = type_name :=
  ⟨List.mem_of_find?_eq_some h, by simpa using List.find?_some h⟩

/-! ## What the fields of a secret say -/

namespace Secret

variable (secret : Secret)

def would_generate : Bool := secret.generate.any GenerateConfig.is_enabled

def prompts : Bool := secret.prompt == some true

def typed_contract : Option TypeContract := secret.secret_type.bind contract

/-- The declared format or the type's default; none also when the format is invalid. -/
def typed_format : Option Format :=
  secret.typed_contract.bind fun contract =>
    match contract.format secret.format with
    | .ok format => format
    | .error _ => none

def is_binary_value : Bool := secret.typed_contract.any fun contract => contract.is_binary secret.typed_format

/-- The codec used wherever the value must be text. -/
def effective_encoding : Option SecretEncoding :=
  secret.encoding.or (secret.typed_contract.bind fun contract => contract.default_encoding secret.typed_format)

/-- The roles bound through `credentials` and the secrets they name, in role order. -/
def credential_secrets : List (String × String) :=
  match secret.credentials with
  | some bindings => bindings.sorted
  | none => []

def is_derived : Bool := secret.composed.isSome || secret.source.isSome

def has_required_setting : Bool := secret.required.isSome || secret.at_least_one.isSome || secret.exactly_one.isSome

def is_addressed : Bool := secret.reference.isSome || secret.refs.isSome

end Secret

/-! ## Merging -/

/-- A field of the profile's entry, otherwise of the default profile's. -/
def inherit {α : Type} (current default : Option Secret) (field : Secret → Option α) : Option α :=
  (current.bind field).or (default.bind field)

/-- The first of the two entries that takes part in a choice made as a whole. -/
def chosen (current default : Option Secret) (sets : Secret → Bool) : Option Secret :=
  (current.filter sets).or (default.filter sets)

/-- An empty table clears an inherited binding. -/
def inherited_credentials (current default : Option Secret) : Option (Table String) :=
  match current.bind Secret.credentials with
  | some bindings => if bindings.is_empty then none else some bindings
  | none => default.bind Secret.credentials

/-- The effective declaration a resolver acts on: the profile's entry, then the default
    profile's, then what the `[defaults]` tables supply. Derived values inherit neither
    storage routes nor defaults. -/
def Secret.resolved (current default : Option Secret) (defaults : Option ProfileDefaults)
    (project_defaults : Option ProjectDefaults) : Option Secret :=
  if current.isNone && default.isNone then none
  else
    let composed := inherit current default Secret.composed
    let required_source := chosen current default Secret.has_required_setting
    let source := inherit current default Secret.source
    let derived := composed.isSome || source.isSome
    let storage_defaults := if derived then none else defaults
    let project_providers := if derived then none else project_defaults.map ProjectDefaults.providers
    let reference_source := chosen current default Secret.is_addressed
    some
      { description := inherit current default Secret.description
        required :=
          match required_source with
          | some secret => secret.required
          | none => defaults.bind ProfileDefaults.required
        at_least_one := required_source.bind Secret.at_least_one
        exactly_one := required_source.bind Secret.exactly_one
        default := (inherit current default Secret.default).or (storage_defaults.bind ProfileDefaults.default)
        groups := inherit current default Secret.groups
        composed
        providers :=
          ((inherit current default Secret.providers).or (storage_defaults.bind ProfileDefaults.providers)).or
            project_providers
        reference := reference_source.bind Secret.reference
        refs := reference_source.bind Secret.refs
        as_path := inherit current default Secret.as_path
        encoding := inherit current default Secret.encoding
        extract := inherit current default Secret.extract
        secret_type := inherit current default Secret.secret_type
        format := inherit current default Secret.format
        source
        credentials := inherited_credentials current default
        generate := inherit current default Secret.generate
        prompt := inherit current default Secret.prompt }

theorem Secret.resolved_isSome {current default : Option Secret} (h : current.isSome ∨ default.isSome)
    (d : Option ProfileDefaults) (p : Option ProjectDefaults) :
    (Secret.resolved current default d p).isSome := by
  unfold Secret.resolved
  rw [if_neg (by rcases h with h | h <;> simp [Option.isSome_iff_ne_none.mp h])]
  rfl

end Monosecret.Manifest
