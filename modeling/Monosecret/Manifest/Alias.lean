/-
  Monosecret.Manifest.Alias — provider aliases (`monosecret/src/config.rs`) and their lookup
  (`lookup_provider_alias_entry` in `secrets.rs`).

  An alias is a URI or a table of `uri`, `credentials`, `ref`, `fallback` and `cache`. The
  user-global configuration reads it with `ProviderAlias::deserialize`. The project's
  reads it into a `ProviderConfig`, which accepts every such table, and converts it with
  `to_alias` at each lookup. The values of the fields are read by the same code for both
  and stand here as they are after it; `depends_on` is an option of the project's entries
  and of no alias.

  A lookup drops a conversion's error and goes on to the user-global aliases:
  `lookup_declared` says when the project's own entry is found, `redirected` is an entry
  that is not. `readers_agree_iff` says which tables only one reader takes.
-/

import Monosecret.Manifest.Document
import Monosecret.Lib.Except

namespace Monosecret.Manifest

open Lib

/-! ## Ref templates -/

/-- The loop of `expand_address_template` on what is left of the template. -/
def expand_rest (template project profile key : String) (rest : List Char) : Except String (List Char) :=
  match _ho : rest.dropWhile (· != '{') with
  | [] => if '}' ∈ rest then .error s!"template '{template}' contains an unmatched `\x7d`" else .ok rest
  | _ :: after_open =>
    if '}' ∈ rest.takeWhile (· != '{') then .error s!"template '{template}' contains an unmatched `\x7d`"
    else
      match _hc : after_open.dropWhile (· != '}') with
      | [] => .error s!"template '{template}' contains an unmatched `\x7b`"
      | _ :: after_close =>
        let placeholder := String.ofList (after_open.takeWhile (· != '}'))
        let value :=
          if placeholder = "project" then some project
          else if placeholder = "profile" then some profile
          else if placeholder = "key" then some key
          else none
        match value with
        | none =>
          .error (s!"unknown placeholder `\x7b{placeholder}\x7d` in template '{template}'; expected " ++
            "\x7bproject\x7d, \x7bprofile\x7d, or \x7bkey\x7d")
        | some value =>
          (expand_rest template project profile key after_close).map fun tail =>
            rest.takeWhile (· != '{') ++ value.toList ++ tail
termination_by rest.length
decreasing_by
  have hopen := (List.dropWhile_sublist (l := rest) (· != '{')).length_le
  have hclose := (List.dropWhile_sublist (l := after_open) (· != '}')).length_le
  rw [_ho] at hopen
  rw [_hc] at hclose
  simp only [List.length_cons] at hopen hclose
  omega

def expand_address_template (template project profile key : String) : Except String String :=
  (expand_rest template project profile key template.toList).map String.ofList

/-- Every coordinate and placeholder. -/
def NativeCoordinates.validate (template : NativeAddressTemplate) : Except String Unit :=
  template.coordinates.forM fun (name, value) =>
    match value with
    | none => .ok ()
    | some value =>
      if is_blank value then .error s!"provider ref template coordinate `{name}` cannot be empty or whitespace"
      else match expand_address_template value "project" "profile" "KEY" with
        | .ok _ => .ok ()
        | .error error => .error s!"invalid provider ref template coordinate `{name}`: {error}"

/-! ## Aliases -/

structure ProviderAlias where
  uri : String
  credentials : Table CredentialSource
  reference_template : Option NativeAddressTemplate
  fallback : List String
  cache : Option ProviderCache

namespace ProviderAlias

def from_uri (uri : String) : ProviderAlias := ⟨uri, ∅, none, [], none⟩

/-- A cached route. -/
def cached (fallback : List String) (cache : ProviderCache) : Except String ProviderAlias :=
  if fallback = [] ∨ fallback.any is_blank then
    .error "a cached provider alias requires at least one non-empty fallback"
  else .ok ⟨"", ∅, none, fallback, some cache⟩

end ProviderAlias

/-! ## The user's reader -/

structure ProviderAliasTable where
  uri : Option String
  credentials : Option (Table CredentialSource)
  reference_template : Option NativeAddressTemplate
  fallback : Option (List String)
  cache : Option ProviderCache

/-- What stands behind an alias name in TOML. -/
inductive AliasValue where
  | str (uri : String)
  | map (table : ProviderAliasTable)

def validate_template (template : Option NativeAddressTemplate) : Except String Unit :=
  match template with
  | some template => template.validate
  | none => .ok ()

def visit_map (table : ProviderAliasTable) : Except String ProviderAlias :=
  match table.uri, table.fallback, table.cache with
  | some uri, none, cache => do
    validate_template table.reference_template
    if cache.isSome && table.reference_template.isSome then
      throw "an inline cached provider alias cannot declare a ref template"
    return ⟨uri, table.credentials.getD ∅, table.reference_template, [], cache⟩
  | none, some fallback, some cache => do
    if table.credentials.isSome then
      throw ("a cached provider alias cannot declare credentials; " ++ "put credentials on its leaf fallback aliases")
    if table.reference_template.isSome then
      throw "a cached provider alias cannot declare a ref template; put templates on its leaf aliases"
    ProviderAlias.cached fallback cache
  | some _, some _, _ =>
    .error ("a provider alias must use either \x7b uri, credentials, ref, cache \x7d or " ++
      "\x7b fallback, cache \x7d, not both")
  | none, some _, none => .error "a cached provider alias with fallback also requires cache"
  | none, none, some _ => .error "a cached provider alias with cache also requires uri or fallback"
  | none, none, none => .error "a provider alias table requires uri or fallback plus cache"

/-- `ProviderAlias::deserialize`. -/
def ProviderAlias.deserialize : AliasValue → Except String ProviderAlias
  | .str uri => .ok (.from_uri uri)
  | .map table => visit_map table

/-! ## The project's reader -/

/-- Absent fields take their defaults; nothing is refused. -/
def ProviderConfig.deserialize : AliasValue → ProviderConfig
  | .str uri => .Alias uri
  | .map table =>
    .Structured ⟨table.uri.getD "", [], table.credentials.getD ∅, table.reference_template, table.fallback.getD [], table.cache⟩

def ProviderConfigStructured.to_alias (config : ProviderConfigStructured) : Except String ProviderAlias := do
  if config.fallback ≠ [] then
    if config.uri ≠ "" then throw "a provider alias cannot set both `uri` and `fallback`"
    if !Table.is_empty config.credentials || config.reference_template.isSome then
      throw "a cached fallback alias cannot declare credentials or a ref template"
    match config.cache with
    | none => throw "a cached fallback alias also requires `cache`"
    | some cache => ProviderAlias.cached config.fallback cache
  else
    if is_blank config.uri then throw "a structured provider requires a non-empty `uri`"
    if config.cache.isSome && config.reference_template.isSome then
      throw "an inline cached provider alias cannot declare a ref template"
    validate_template config.reference_template
    return ⟨config.uri, config.credentials, config.reference_template, [], config.cache⟩

def ProviderConfig.to_alias : ProviderConfig → Except String ProviderAlias
  | .Alias uri => .ok (.from_uri uri)
  | .Structured config => config.to_alias

/-- The alias the project's side makes of a value. -/
def read_project_alias (value : AliasValue) : Except String ProviderAlias := (ProviderConfig.deserialize value).to_alias

/-! ## Lookup -/

/-- The provider tables of the two loaded configurations. -/
structure ProviderTables where
  project : Option (Table ProviderConfig)
  global : Option (Table ProviderAlias)

namespace ProviderTables

def project_entry (tables : ProviderTables) (alias_name : String) : Option ProviderConfig :=
  tables.project.bind fun providers => providers.lookup alias_name

def global_entry (tables : ProviderTables) (alias_name : String) : Option ProviderAlias :=
  tables.global.bind fun providers => providers.lookup alias_name

def lookup_provider_alias_entry (tables : ProviderTables) (alias_name : String) : Option ProviderAlias :=
  ((tables.project_entry alias_name).bind fun config => config.to_alias.toOption).or (tables.global_entry alias_name)

end ProviderTables

/-! ## What each reader takes -/

/-- What both readers ask of a leaf: no cache beside a template, and a valid template. -/
structure Leaf (reference_template : Option NativeAddressTemplate) (cache : Option ProviderCache) : Prop where
  single : cache = none ∨ reference_template = none
  template : validate_template reference_template = .ok ()

/-- What both ask of a cached route. -/
structure CachedRoute (reference_template : Option NativeAddressTemplate) (fallback : List String)
    (cache : Option ProviderCache) : Prop where
  no_template : reference_template = none
  sources : fallback ≠ []
  named : fallback.any is_blank = false
  stored : cache.isSome = true

variable {entry : ProviderAlias}

theorem cached_ok {f : List String} {c : ProviderCache} :
    ProviderAlias.cached f c = .ok entry ↔
      (f ≠ [] ∧ f.any is_blank = false) ∧ (⟨"", ∅, none, f, some c⟩ : ProviderAlias) = entry := by
  unfold ProviderAlias.cached
  by_cases hf : f = []
  · simp [hf]
  · cases hb : f.any is_blank <;> simp [hf]

/-- What `to_alias` converts. -/
inductive Convertible : ProviderConfig → ProviderAlias → Prop
  | str (uri : String) : Convertible (.Alias uri) (.from_uri uri)
  | leaf {config : ProviderConfigStructured} : config.fallback = [] → is_blank config.uri = false →
      Leaf config.reference_template config.cache →
      Convertible (.Structured config) ⟨config.uri, config.credentials, config.reference_template, [], config.cache⟩
  | route {config : ProviderConfigStructured} : config.uri = "" → config.credentials = ∅ →
      CachedRoute config.reference_template config.fallback config.cache →
      Convertible (.Structured config) ⟨"", ∅, none, config.fallback, config.cache⟩

theorem to_alias_leaf {config : ProviderConfigStructured} (h : config.fallback = []) :
    config.to_alias = .ok entry ↔ is_blank config.uri = false ∧ Leaf config.reference_template config.cache ∧
      (⟨config.uri, config.credentials, config.reference_template, [], config.cache⟩ : ProviderAlias) = entry := by
  unfold ProviderConfigStructured.to_alias
  rw [if_neg (by simp [h])]
  by_cases hb : is_blank config.uri
  · rw [if_pos hb]
    constructor
    · intro h; cases h
    · rintro ⟨hn, -⟩
      rw [hb] at hn
      cases hn
  · rw [if_neg hb]
    by_cases hs : (config.cache.isSome && config.reference_template.isSome)
    · rw [if_pos hs]
      simp only [Bool.and_eq_true, Option.isSome_iff_ne_none] at hs
      constructor
      · intro h; cases h
      · rintro ⟨-, hl, -⟩
        rcases hl.single with hn | hn
        · exact absurd hn hs.1
        · exact absurd hn hs.2
    · rw [if_neg hs]
      constructor
      · intro h
        obtain ⟨⟨⟩, ht, h⟩ := Except.bind_ok h
        cases h
        refine ⟨by simpa using hb, ⟨?_, ht⟩, rfl⟩
        cases hc : config.cache <;> cases hr : config.reference_template <;> simp_all
      · rintro ⟨-, hl, rfl⟩
        simp only [hl.template]
        rfl

theorem to_alias_route {config : ProviderConfigStructured} (h : config.fallback ≠ []) :
    config.to_alias = .ok entry ↔ config.uri = "" ∧ config.credentials = ∅ ∧
      CachedRoute config.reference_template config.fallback config.cache ∧
      (⟨"", ∅, none, config.fallback, config.cache⟩ : ProviderAlias) = entry := by
  unfold ProviderConfigStructured.to_alias
  rw [if_pos h]
  by_cases hu : config.uri = ""
  · rw [if_neg (by simpa using hu)]
    by_cases hd : (!Table.is_empty config.credentials || config.reference_template.isSome)
    · rw [if_pos hd]
      constructor
      · intro h; cases h
      · rintro ⟨-, hc, hr, -⟩
        rw [Table.is_empty_iff.mpr hc, hr.no_template] at hd
        cases hd
    · rw [if_neg hd]
      rw [Bool.not_eq_true, Bool.or_eq_false_iff, Bool.not_eq_false'] at hd
      have hcr := Table.is_empty_iff.mp hd.1
      have hf : config.reference_template = none := by simpa using hd.2
      cases hcc : config.cache with
      | none =>
        constructor
        · intro h; cases h
        · rintro ⟨-, -, hr, -⟩
          exact absurd hr.stored (by simp)
      | some c =>
        refine cached_ok.trans ?_
        constructor
        · rintro ⟨⟨-, hb⟩, rfl⟩
          exact ⟨hu, hcr, ⟨hf, h, hb, rfl⟩, rfl⟩
        · rintro ⟨-, -, hr, rfl⟩
          exact ⟨⟨hr.sources, hr.named⟩, rfl⟩
  · rw [if_pos hu]
    constructor
    · intro h; cases h
    · rintro ⟨he, -⟩
      exact absurd he hu

theorem to_alias_ok {config : ProviderConfig} : config.to_alias = .ok entry ↔ Convertible config entry := by
  cases config with
  | Alias u =>
    constructor
    · intro h; cases h; exact .str u
    · intro h; cases h; rfl
  | Structured config =>
    by_cases hf : config.fallback = []
    · refine (to_alias_leaf hf).trans ⟨?_, ?_⟩
      · rintro ⟨hb, hl, rfl⟩
        exact .leaf hf hb hl
      · intro h
        cases h with
        | leaf _ hb hl => exact ⟨hb, hl, rfl⟩
        | route _ _ hr => exact absurd hf hr.sources
    · refine (to_alias_route hf).trans ⟨?_, ?_⟩
      · rintro ⟨hu, hc, hr, rfl⟩
        exact .route hu hc hr
      · intro h
        cases h with
        | leaf hf' _ _ => exact absurd hf' hf
        | route hu hc hr => exact ⟨hu, hc, hr, rfl⟩

/-- What the user's reader takes. -/
inductive Accepted : AliasValue → ProviderAlias → Prop
  | str (uri : String) : Accepted (.str uri) (.from_uri uri)
  | leaf {uri : String} {credentials : Option (Table CredentialSource)} {reference_template : Option NativeAddressTemplate}
      {cache : Option ProviderCache} : Leaf reference_template cache →
      Accepted (.map ⟨uri, credentials, reference_template, none, cache⟩)
        ⟨uri, credentials.getD ∅, reference_template, [], cache⟩
  | route {fallback : List String} {cache : Option ProviderCache} : CachedRoute none fallback cache →
      Accepted (.map ⟨none, none, none, some fallback, cache⟩) ⟨"", ∅, none, fallback, cache⟩

variable {value : AliasValue}

theorem deserialize_ok : ProviderAlias.deserialize value = .ok entry ↔ Accepted value entry := by
  cases value with
  | str u =>
    constructor
    · intro h; cases h; exact .str u
    · intro h; cases h; rfl
  | map tb =>
    obtain ⟨u, cr, t, f, c⟩ := tb
    unfold ProviderAlias.deserialize visit_map
    cases u with
    | some u =>
      cases f with
      | some f => exact ⟨fun h => (by cases h), fun h => (by cases h)⟩
      | none =>
        constructor
        · intro h
          obtain ⟨⟨⟩, ht, h⟩ := Except.bind_ok h
          by_cases hs : (c.isSome && t.isSome)
          · rw [if_pos hs] at h
            cases h
          · rw [if_neg hs] at h
            cases h
            refine .leaf ⟨?_, ht⟩
            cases c <;> cases t <;> simp_all
        · intro h
          cases h with
          | leaf hl =>
            have hs : (c.isSome && t.isSome) = false := by
              rcases hl.single with rfl | rfl <;> simp
            simp [hl.template, hs]
    | none =>
      cases f with
      | none => cases c <;> exact ⟨fun h => (by cases h), fun h => (by cases h)⟩
      | some f =>
        cases c with
        | none =>
          refine ⟨fun h => (by cases h), fun h => ?_⟩
          cases h with
          | route hr => exact absurd hr.stored (by simp)
        | some c =>
          cases cr with
          | some cr => exact ⟨fun h => (by cases h), fun h => (by cases h)⟩
          | none =>
            cases t with
            | some t => exact ⟨fun h => (by cases h), fun h => (by cases h)⟩
            | none =>
              refine cached_ok.trans ⟨?_, ?_⟩
              · rintro ⟨⟨hs, hb⟩, rfl⟩
                exact .route ⟨rfl, hs, hb, rfl⟩
              · intro h
                cases h with
                | route hr => exact ⟨⟨hr.sources, hr.named⟩, rfl⟩

/-! ## Tables that one reader takes -/

/-- A table of which the two readers do not make the same. -/
inductive ReadOnce : AliasValue → Prop
  /-- Only the user's reader takes a URI of whitespace. -/
  | blank_uri {uri : String} {credentials : Option (Table CredentialSource)} {template : Option NativeAddressTemplate}
      {cache : Option ProviderCache} : is_blank uri = true → Leaf template cache →
      ReadOnce (.map ⟨some uri, credentials, template, none, cache⟩)
  /-- Only the project's takes an empty `fallback` beside a URI, -/
  | empty_fallback {uri : String} {credentials : Option (Table CredentialSource)} {template : Option NativeAddressTemplate}
      {cache : Option ProviderCache} : is_blank uri = false → Leaf template cache →
      ReadOnce (.map ⟨some uri, credentials, template, some [], cache⟩)
  /-- an empty URI beside a `fallback` -/
  | empty_uri {credentials : Option (Table CredentialSource)} {fallback : List String} {cache : Option ProviderCache} :
      credentials.getD ∅ = ∅ → CachedRoute none fallback cache →
      ReadOnce (.map ⟨some "", credentials, none, some fallback, cache⟩)
  /-- and an empty table of credentials beside one. -/
  | empty_credentials {fallback : List String} {cache : Option ProviderCache} : CachedRoute none fallback cache →
      ReadOnce (.map ⟨none, some ∅, none, some fallback, cache⟩)

theorem ReadOnce.only_one (h : ReadOnce value) :
    ¬ ∀ entry, Accepted value entry ↔ Convertible (ProviderConfig.deserialize value) entry := by
  intro hs
  cases h with
  | blank_uri hb hl =>
    have hn := (to_alias_leaf rfl).mp (to_alias_ok.mpr ((hs _).mp (.leaf hl)))
    exact absurd (hb.symm.trans hn.1) (by decide)
  | @empty_fallback uri credentials template cache hb hl =>
    have ha := deserialize_ok.mpr ((hs ⟨uri, credentials.getD ∅, template, [], cache⟩).mpr (.leaf rfl hb hl))
    cases ha
  | @empty_uri credentials fallback cache hc hr =>
    have ha := deserialize_ok.mpr ((hs ⟨"", ∅, none, fallback, cache⟩).mpr (.route rfl hc hr))
    cases ha
  | @empty_credentials fallback cache hr =>
    have ha := deserialize_ok.mpr ((hs ⟨"", ∅, none, fallback, cache⟩).mpr (.route rfl rfl hr))
    cases cache <;> cases ha

theorem readers_agree (h : ¬ ReadOnce value) (entry : ProviderAlias) :
    Accepted value entry ↔ Convertible (ProviderConfig.deserialize value) entry := by
  constructor
  · intro ha
    cases ha with
    | str u => exact .str u
    | @leaf u c t cc hl =>
      cases hb : is_blank u with
      | true => exact absurd (.blank_uri hb hl) h
      | false => exact .leaf rfl hb hl
    | route hr => exact .route rfl rfl hr
  · intro hn
    cases value with
    | str u => cases hn; exact .str u
    | map tb =>
      obtain ⟨u, c, t, f, cc⟩ := tb
      cases hn with
      | leaf hf hb hl =>
        cases u with
        | none => simp [is_blank_empty] at hb
        | some u =>
          cases f with
          | none => exact .leaf hl
          | some f =>
            have hf : f = [] := hf
            subst hf
            exact absurd (.empty_fallback hb hl) h
      | route hu hc hr =>
        obtain rfl : t = none := hr.no_template
        cases f with
        | none => exact absurd rfl hr.sources
        | some f =>
          cases u with
          | some u =>
            obtain rfl : u = "" := hu
            exact absurd (.empty_uri hc hr) h
          | none =>
            cases c with
            | none => exact .route hr
            | some c =>
              obtain rfl : c = ∅ := hc
              exact absurd (.empty_credentials hr) h

/-- The readers make the same of a value exactly when it is not one of those. -/
theorem readers_agree_iff (value : AliasValue) :
    (ProviderAlias.deserialize value).toOption = (read_project_alias value).toOption ↔ ¬ ReadOnce value := by
  rw [Except.toOption_eq]
  simp only [deserialize_ok, read_project_alias, to_alias_ok]
  constructor
  · intro hs h
    exact h.only_one hs
  · exact readers_agree

/-! ## What a lookup finds -/

namespace ProviderTables

variable {tables : ProviderTables} {alias_name : String} {config : ProviderConfig}

/-- An entry that converts is the one found. -/
theorem lookup_converted (hp : tables.project_entry alias_name = some config) {entry : ProviderAlias}
    (h : config.to_alias = .ok entry) : tables.lookup_provider_alias_entry alias_name = some entry := by
  simp [lookup_provider_alias_entry, hp, h, Except.toOption]

/-- One that does not is passed over for the user's. -/
theorem lookup_refused (hp : tables.project_entry alias_name = some config) {error : String}
    (h : config.to_alias = .error error) :
    tables.lookup_provider_alias_entry alias_name = tables.global_entry alias_name := by
  simp [lookup_provider_alias_entry, hp, h, Except.toOption]

end ProviderTables

/-- A declared entry is what its lookup returns when it converts; otherwise the user's
    entry of that name is, if there is one. The readers agree on the tables of both. -/
theorem lookup_declared (tables : ProviderTables) (alias_name : String) (value : AliasValue) :
    (∀ config, tables.project_entry alias_name = some config →
      ((∃ entry, config.to_alias = .ok entry ∧ tables.lookup_provider_alias_entry alias_name = some entry) ↔
        ∃ entry, Convertible config entry) ∧
      ((¬ ∃ entry, Convertible config entry) →
        tables.lookup_provider_alias_entry alias_name = tables.global_entry alias_name)) ∧
    ((ProviderAlias.deserialize value).toOption = (read_project_alias value).toOption ↔ ¬ ReadOnce value) := by
  refine ⟨?_, readers_agree_iff value⟩
  intro config hp
  constructor
  · constructor
    · rintro ⟨entry, h, -⟩
      exact ⟨entry, to_alias_ok.mp h⟩
    · rintro ⟨entry, h⟩
      have ho := to_alias_ok.mpr h
      exact ⟨entry, ho, tables.lookup_converted hp ho⟩
  · intro hn
    cases h : config.to_alias with
    | ok entry => exact absurd ⟨entry, to_alias_ok.mp h⟩ hn
    | error error => exact tables.lookup_refused hp h

/-- A route without a cache, and the user's alias of the same name. -/
def vault_route : ProviderConfig := .Structured ⟨"", [], ∅, none, ["team"], none⟩

def vault_tables : ProviderTables where
  project := some (AList.insert "vault" vault_route ∅)
  global := some (AList.insert "vault" (.from_uri "keyring://") ∅)

theorem lookup_declared_leaf :
    ∃ entry, (ProviderConfig.Alias "onepassword://Team").to_alias = .ok entry ∧
      ({ vault_tables with project := some (AList.insert "vault" (.Alias "onepassword://Team") ∅) } :
        ProviderTables).lookup_provider_alias_entry "vault" = some entry :=
  ((lookup_declared _ "vault" (.str "")).1 (.Alias "onepassword://Team") rfl).1.mpr ⟨_, .str _⟩

/-- The project's secrets go to the user's store; and a blank URI is an alias to one reader. -/
theorem redirected :
    vault_tables.project_entry "vault" = some vault_route ∧
    vault_tables.lookup_provider_alias_entry "vault" = vault_tables.global_entry "vault" ∧
    vault_tables.lookup_provider_alias_entry "vault" = some (.from_uri "keyring://") ∧
    (∃ entry, ProviderAlias.deserialize (.map ⟨some "", none, none, none, none⟩) = .ok entry) ∧
    ∀ entry, read_project_alias (.map ⟨some "", none, none, none, none⟩) ≠ .ok entry := by
  refine ⟨rfl, rfl, rfl, ⟨_, rfl⟩, ?_⟩
  intro entry h
  cases h

end Monosecret.Manifest
