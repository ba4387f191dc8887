/-
  Monosecret.Manifest.Document — what one configuration document says
  (`monosecret/src/config.rs`), and the overlay of a later document on an earlier one.

  A field a document leaves out is `none`; a table is a map of its entries.

  `Field` names what a document can set on its own, and `overlay_get` says what an overlay
  makes of each: the later document's value where it sets one, otherwise the earlier one's. A
  secret, an alias, a group and a scope are set as a whole.
-/

import Mathlib.Data.List.AList
import Mathlib.Data.List.Induction

namespace Monosecret.Manifest

/-! ## Tables and texts -/

/-- A `HashMap` with string keys. -/
abbrev Table (β : Type) := AList fun _ : String => β

def Table.is_empty {β : Type} (map : Table β) : Bool := map.entries.isEmpty

theorem Table.is_empty_iff {β : Type} {map : Table β} : map.is_empty ↔ map = ∅ := by
  rw [Table.is_empty, List.isEmpty_iff]
  constructor
  · intro h
    exact AList.ext h
  · rintro rfl
    rfl

/-- `char::is_whitespace`. -/
def is_whitespace (c : Char) : Bool :=
  (0x9 ≤ c.val && c.val ≤ 0xD) || c.val == 0x20 || c.val == 0x85 || c.val == 0xA0 || c.val == 0x1680 ||
    (0x2000 ≤ c.val && c.val ≤ 0x200A) || c.val == 0x2028 || c.val == 0x2029 || c.val == 0x202F || c.val == 0x205F ||
    c.val == 0x3000

/-- `text.trim().is_empty()`. -/
def is_blank (text : String) : Bool := text.toList.all is_whitespace

theorem is_blank_empty : is_blank "" := by decide

/-- `NativeAddress` and `NativeAddressTemplate` have the same five coordinates. -/
structure NativeCoordinates where
  item : String
  field : Option String
  vault : Option String
  section_ : Option String
  version : Option String
  deriving DecidableEq

abbrev NativeAddress := NativeCoordinates

abbrev NativeAddressTemplate := NativeCoordinates

/-- Outer scope first. -/
def NativeCoordinates.coordinates (address : NativeCoordinates) : List (String × Option String) :=
  [("vault", address.vault), ("item", some address.item), ("section", address.section_), ("field", address.field),
   ("version", address.version)]

/-! ## Providers -/

structure CredentialSource where
  provider : String
  reference : Option NativeAddress
  deriving DecidableEq

structure ProviderCache where
  provider : String
  max_age : String
  allow_plaintext : Bool
  max_age_secs : UInt64
  deriving DecidableEq

/-- A secret needed to construct a provider. -/
structure ProviderDependency where
  secret : String
  as_name : Option String
  deriving DecidableEq

structure ProviderConfigStructured where
  uri : String
  depends_on : List ProviderDependency
  credentials : Table CredentialSource
  reference_template : Option NativeAddressTemplate
  fallback : List String
  cache : Option ProviderCache

inductive ProviderConfig where
  | Alias (uri : String)
  | Structured (config : ProviderConfigStructured)

/-- A provider on a secret or in a chain of defaults. -/
inductive ProviderRef where
  | Alias (provider : String)
  | Detail (provider : String) (path : Option (List String)) (key : Option String)
  deriving DecidableEq

def ProviderRef.provider_alias : ProviderRef → String
  | .Alias provider => provider
  | .Detail provider _ _ => provider

/-! ## Secrets -/

inductive SecretEncoding where
  | Base64
  | Base64Url
  | Hex
  deriving DecidableEq

inductive ExtractFormat where
  | Json
  | Ini
  deriving DecidableEq

structure SecretExtract where
  format : ExtractFormat
  pointer : String
  deriving DecidableEq

structure GenerateOptions where
  length : Option Nat
  bytes : Option Nat
  charset : Option String
  command : Option String
  bits : Option Nat
  algorithm : Option String
  user_id : Option String
  capabilities : Option (List String)
  comment : Option String
  words : Option Nat
  separator : Option String
  language : Option String
  kid : Option String
  issuer : Option String
  san : Option (List String)
  usages : Option (List String)
  valid_for : Option String
  deriving DecidableEq

inductive GenerateConfig where
  | Flag (enabled : Bool)
  | Options (options : GenerateOptions)
  deriving DecidableEq

def GenerateConfig.is_enabled : GenerateConfig → Bool
  | .Flag enabled => enabled
  | .Options _ => true

/-- A credential binding is the name of a declared secret. -/
structure Secret where
  description : Option String
  required : Option Bool
  at_least_one : Option (List String)
  exactly_one : Option (List String)
  default : Option String
  groups : Option (List String)
  composed : Option String
  providers : Option (List ProviderRef)
  reference : Option NativeAddress
  refs : Option (Table NativeAddress)
  as_path : Option Bool
  encoding : Option SecretEncoding
  extract : Option SecretExtract
  secret_type : Option String
  format : Option String
  source : Option String
  credentials : Option (Table String)
  generate : Option GenerateConfig
  prompt : Option Bool

/-- Nothing set. -/
def Secret.empty : Secret :=
  ⟨none, none, none, none, none, none, none, none, none, none, none, none, none, none, none, none, none, none, none⟩

/-! ## Documents -/

inductive RequireReason where
  | Never
  | Agents
  | Always
  deriving DecidableEq

structure Project where
  name : String
  revision : String
  extends_ : Option (List String)
  require_reason : Option RequireReason
  deriving DecidableEq

structure ProjectDefaults where
  providers : List ProviderRef
  deriving DecidableEq

structure ProfileDefaults where
  inherit : Option Bool
  required : Option Bool
  default : Option String
  providers : Option (List ProviderRef)
  deriving DecidableEq

structure Profile where
  defaults : Option ProfileDefaults
  secrets : Table Secret

structure Scope where
  secrets : List String
  deriving DecidableEq

structure Config where
  project : Project
  profiles : Table Profile
  defaults : Option ProjectDefaults
  providers : Option (Table ProviderConfig)
  groups : Option (Table String)
  scopes : Option (Table Scope)

/-! ## Overlays -/

/-- `HashMap::extend`. -/
def Table.extend {β : Type} (table later : Table β) : Table β := later ∪ table

/-- `get_or_insert_with(HashMap::new).extend(later)` when there is a later table. -/
def extend_option {β : Type} (table later : Option (Table β)) : Option (Table β) :=
  match later with
  | some later => some ((table.getD ∅).extend later)
  | none => table

def ProfileDefaults.inherit_missing_from (defaults earlier : ProfileDefaults) : ProfileDefaults where
  inherit := defaults.inherit.or earlier.inherit
  required := defaults.required.or earlier.required
  default := defaults.default.or earlier.default
  providers := defaults.providers.or earlier.providers

def Profile.overlay_with (profile later : Profile) : Profile where
  defaults :=
    match later.defaults with
    | some later_defaults =>
      match profile.defaults with
      | some earlier_defaults => some (later_defaults.inherit_missing_from earlier_defaults)
      | none => some later_defaults
    | none => profile.defaults
  secrets := profile.secrets.extend later.secrets

/-- The loop over the later document's profiles. -/
def overlay_profiles (profiles : Table Profile) (later : List (Sigma fun _ : String => Profile)) : Table Profile :=
  later.foldl (fun profiles entry =>
    match profiles.lookup entry.1 with
    | some profile => profiles.insert entry.1 (profile.overlay_with entry.2)
    | none => profiles.insert entry.1 entry.2) profiles

def Config.overlay_with (config later : Config) : Config where
  project := { later.project with require_reason := later.project.require_reason.or config.project.require_reason }
  profiles := overlay_profiles config.profiles later.profiles.entries
  defaults := later.defaults.or config.defaults
  providers := extend_option config.providers later.providers
  groups := extend_option config.groups later.groups
  scopes := extend_option config.scopes later.scopes

/-! ## Fields -/

/-- What a document can set on its own. -/
inductive Field where
  | name
  | revision
  | extends_
  | require_reason
  | profile (profile : String)
  | profile_defaults (profile : String)
  | inherit (profile : String)
  | required (profile : String)
  | default (profile : String)
  | profile_providers (profile : String)
  | secret (profile secret : String)
  | defaults
  | providers
  | provider (alias_name : String)
  | groups
  | group (name : String)
  | scopes
  | scope (name : String)

/-- A table that is there. -/
def present {α : Type} (table : Option α) : Option Unit := table.map fun _ => ()

def Field.Value : Field → Type
  | .name | .revision => String
  | .extends_ => List String
  | .require_reason => RequireReason
  | .profile _ | .profile_defaults _ | .providers | .groups | .scopes => Unit
  | .inherit _ | .required _ => Bool
  | .default _ => String
  | .profile_providers _ => List ProviderRef
  | .secret _ _ => Secret
  | .defaults => ProjectDefaults
  | .provider _ => ProviderConfig
  | .group _ => String
  | .scope _ => Scope

/-- The value a document sets. -/
def Field.get : (field : Field) → Config → Option field.Value
  | .name, config => some config.project.name
  | .revision, config => some config.project.revision
  | .extends_, config => config.project.extends_
  | .require_reason, config => config.project.require_reason
  | .profile p, config => present (config.profiles.lookup p)
  | .profile_defaults p, config => present ((config.profiles.lookup p).bind Profile.defaults)
  | .inherit p, config => ((config.profiles.lookup p).bind Profile.defaults).bind ProfileDefaults.inherit
  | .required p, config => ((config.profiles.lookup p).bind Profile.defaults).bind ProfileDefaults.required
  | .default p, config => ((config.profiles.lookup p).bind Profile.defaults).bind ProfileDefaults.default
  | .profile_providers p, config => ((config.profiles.lookup p).bind Profile.defaults).bind ProfileDefaults.providers
  | .secret p s, config => (config.profiles.lookup p).bind fun entry => entry.secrets.lookup s
  | .defaults, config => config.defaults
  | .providers, config => present config.providers
  | .provider a, config => config.providers.bind fun table => table.lookup a
  | .groups, config => present config.groups
  | .group g, config => config.groups.bind fun table => table.lookup g
  | .scopes, config => present config.scopes
  | .scope s, config => config.scopes.bind fun table => table.lookup s

theorem lookup_extend {β : Type} (t later : Table β) (k : String) :
    (t.extend later).lookup k = (later.lookup k).or (t.lookup k) := by
  unfold Table.extend
  by_cases h : k ∈ later
  · rw [AList.lookup_union_left h]
    obtain ⟨value, hv⟩ := Option.isSome_iff_exists.mp (AList.lookup_isSome.mpr h)
    rw [hv]
    rfl
  · rw [AList.lookup_union_right h, AList.lookup_eq_none.mpr h]
    rfl

theorem bind_extend_option {β : Type} (t later : Option (Table β)) (k : String) :
    ((extend_option t later).bind fun t => t.lookup k) =
      (later.bind fun t => t.lookup k).or (t.bind fun t => t.lookup k) := by
  cases later with
  | none => rfl
  | some later =>
    cases t with
    | none | some t => simp [extend_option, lookup_extend]

theorem present_extend_option {β : Type} (t later : Option (Table β)) :
    present (extend_option t later) = (present later).or (present t) := by
  cases later with
  | none | some later => rfl

/-- Two definitions of one profile. -/
def overlay_option (profile later : Option Profile) : Option Profile :=
  match later, profile with
  | some later, some profile => some (profile.overlay_with later)
  | some later, none => some later
  | none, profile => profile

theorem lookup_overlay_entries (later : List (Sigma fun _ : String => Profile)) (hn : later.NodupKeys)
    (p : Table Profile) (k : String) :
    (overlay_profiles p later).lookup k = overlay_option (p.lookup k) (later.dlookup k) := by
  induction later generalizing p with
  | nil => rfl
  | cons en later ih =>
    obtain ⟨n, pr⟩ := en
    obtain ⟨hf, hn⟩ := List.nodupKeys_cons.mp hn
    have hs : overlay_profiles p (⟨n, pr⟩ :: later) =
        overlay_profiles (match p.lookup n with
          | some e => p.insert n (e.overlay_with pr)
          | none => p.insert n pr) later := rfl
    rw [hs, ih hn]
    by_cases hk : k = n
    · subst hk
      rw [List.dlookup_cons_eq, List.dlookup_eq_none.mpr hf]
      cases hp : p.lookup k with
      | none | some e => exact AList.lookup_insert _
    · rw [List.dlookup_cons_ne _ _ hk]
      cases hp : p.lookup n with
      | none | some e => simp only [AList.lookup_insert_ne hk]

theorem lookup_overlay_profiles (p later : Table Profile) (k : String) :
    (overlay_profiles p later.entries).lookup k = overlay_option (p.lookup k) (later.lookup k) :=
  lookup_overlay_entries later.entries later.nodupKeys p k

theorem overlay_defaults {α : Type} (g : ProfileDefaults → Option α)
    (hg : ∀ d e : ProfileDefaults, g (d.inherit_missing_from e) = (g d).or (g e))
    (p later : Option Profile) :
    ((overlay_option p later).bind Profile.defaults).bind g =
      ((later.bind Profile.defaults).bind g).or ((p.bind Profile.defaults).bind g) := by
  cases later with
  | none => rfl
  | some later =>
    cases p with
    | none => simp [overlay_option]
    | some p =>
      obtain ⟨l, _⟩ := later
      obtain ⟨d, _⟩ := p
      cases l with
      | none => rfl
      | some l =>
        cases d with
        | none => simp [overlay_option, Profile.overlay_with]
        | some d => exact hg l d

theorem overlay_present_defaults (p later : Option Profile) :
    present ((overlay_option p later).bind Profile.defaults) =
      (present (later.bind Profile.defaults)).or (present (p.bind Profile.defaults)) := by
  have hp : ∀ d : Option ProfileDefaults, present d = d.bind fun _ => some () := by
    intro d
    cases d <;> rfl
  simp only [hp]
  exact overlay_defaults (fun _ => some ()) (fun _ _ => rfl) p later

theorem overlay_secret (p later : Option Profile) (s : String) :
    ((overlay_option p later).bind fun e => e.secrets.lookup s) =
      (later.bind fun e => e.secrets.lookup s).or (p.bind fun e => e.secrets.lookup s) := by
  cases later with
  | none => rfl
  | some later =>
    cases p with
    | none => simp [overlay_option]
    | some p => simp [overlay_option, Profile.overlay_with, lookup_extend]

/-- Every field but `extends` takes the later document's value where it sets one. -/
theorem overlay_get (c later : Config) (f : Field) (hf : f ≠ .extends_) :
    f.get (c.overlay_with later) = (f.get later).or (f.get c) := by
  cases f with
  | extends_ => exact absurd rfl hf
  | name | revision | require_reason => rfl
  | profile p =>
    simp only [Field.get, Config.overlay_with, lookup_overlay_profiles]
    cases later.profiles.lookup p <;> cases c.profiles.lookup p <;> rfl
  | profile_defaults p =>
    simp only [Field.get, Config.overlay_with, lookup_overlay_profiles]
    exact overlay_present_defaults _ _
  | inherit p =>
    simp only [Field.get, Config.overlay_with, lookup_overlay_profiles]
    exact overlay_defaults ProfileDefaults.inherit (fun _ _ => rfl) _ _
  | required p =>
    simp only [Field.get, Config.overlay_with, lookup_overlay_profiles]
    exact overlay_defaults ProfileDefaults.required (fun _ _ => rfl) _ _
  | default p =>
    simp only [Field.get, Config.overlay_with, lookup_overlay_profiles]
    exact overlay_defaults ProfileDefaults.default (fun _ _ => rfl) _ _
  | profile_providers p =>
    simp only [Field.get, Config.overlay_with, lookup_overlay_profiles]
    exact overlay_defaults ProfileDefaults.providers (fun _ _ => rfl) _ _
  | secret p s =>
    simp only [Field.get, Config.overlay_with, lookup_overlay_profiles]
    exact overlay_secret _ _ s
  | defaults => rfl
  | providers => exact present_extend_option c.providers later.providers
  | provider a => exact bind_extend_option c.providers later.providers a
  | groups => exact present_extend_option c.groups later.groups
  | group g => exact bind_extend_option c.groups later.groups g
  | scopes => exact present_extend_option c.scopes later.scopes
  | scope s => exact bind_extend_option c.scopes later.scopes s

/-- The value of a field in the last document that sets it. -/
def last_set (field : Field) (documents : List Config) : Option field.Value := documents.reverse.findSome? field.get

theorem last_set_snoc (f : Field) (dc : List Config) (d : Config) :
    last_set f (dc ++ [d]) = (f.get d).or (last_set f dc) := by
  unfold last_set
  rw [List.reverse_append, List.reverse_singleton, List.singleton_append, List.findSome?_cons]
  cases f.get d <;> rfl

/-- Documents folded in order: each field has the value of the last document that sets it. -/
theorem overlay_all_get (first : Config) (r : List Config) (f : Field) (hf : f ≠ .extends_) :
    f.get (r.foldl Config.overlay_with first) = last_set f (first :: r) := by
  induction r using List.reverseRecOn with
  | nil =>
    simp only [List.foldl_nil, last_set, List.reverse_singleton, List.findSome?_cons, List.findSome?_nil]
    cases f.get first <;> rfl
  | append_singleton r d ih =>
    rw [List.foldl_append, List.foldl_cons, List.foldl_nil, overlay_get _ _ _ hf, ih, ← List.cons_append, last_set_snoc]

end Monosecret.Manifest
