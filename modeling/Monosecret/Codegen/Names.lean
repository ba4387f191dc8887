/-
  Monosecret.Codegen.Names — the Rust names `declare_secrets!` declares
  (`monosecret_derive/src/lib.rs`).

  A secret becomes a field under its lower-cased name, in the union struct and in the variant
  of each profile that has it; a profile becomes a variant under its capitalized name.
  `validate_config_for_codegen` checks the fields profile by profile and each variant on its
  own. What `char` says of letters, what Rust lexes as an identifier, its reserved words and
  the normal form it compares identifiers in are parameters.

  A validated IR declares identifiers, each once, exactly when its names are spelled apart
  over all profiles and in characters the two notions of a letter agree on
  (`declares_iff`). The validation says so of one profile only: two profiles with names that
  differ by case are accepted, and the union struct declares one field twice
  (`declared_twice`).
-/

import Monosecret.Codegen.Ir
import Monosecret.Manifest.Validate

namespace Monosecret.Codegen

open Lib Manifest

structure Language extends Rules where
  to_uppercase : Char → List Char
  xid_start : Char → Bool
  xid_continue : Char → Bool
  reserved : String → Bool
  /-- The form in which two identifiers are compared. -/
  normal : String → String
  underscore_not_alphabetic : is_alphabetic '_' = false
  underscore_not_start : xid_start '_' = false
  underscore_continues : xid_continue '_' = true

variable (lang : Language)

/-! ## Validation -/

def rust_keywords : List String :=
  ["as", "async", "await", "break", "const", "continue", "crate", "dyn", "else", "enum", "extern", "false", "fn", "for",
    "if", "impl", "in", "let", "loop", "match", "mod", "move", "mut", "pub", "ref", "return", "self", "Self", "static",
    "struct", "super", "trait", "true", "type", "unsafe", "use", "where", "while", "abstract", "become", "box", "do",
    "final", "macro", "override", "priv", "typeof", "unsized", "virtual", "yield", "try"]

def is_valid_rust_identifier (s : String) : Bool :=
  match s.toList with
  | [] => false
  | first :: rest =>
    if !lang.is_alphabetic first && first != '_' then false
    else rest.all fun c => lang.is_alphanumeric c || c == '_'

def capitalize (s : String) : String :=
  match s.toList with
  | [] => ""
  | first :: rest => String.ofList (lang.to_uppercase first ++ rest)

/-- `field_name_ident`. -/
def field_name (name : String) : String := lang.to_lowercase name

/-- The errors of a profile's fields, after those whose field names are `profile_field_names`. -/
def field_errors (profile_name : String) (profile_field_names : List String) : List IrField → List String
  | [] => []
  | field :: fields =>
    let secret_name := field.name
    let field_name := field_name lang secret_name
    (if !is_valid_rust_identifier lang field_name then
      [s!"Secret '{secret_name}' in profile '{profile_name}' produces invalid Rust field name '{field_name}'"]
    else []) ++
    (if rust_keywords.contains field_name then
      [s!"Secret '{secret_name}' in profile '{profile_name}' produces Rust keyword '{field_name}' as field name"]
    else []) ++
    (if profile_field_names.contains field_name then
      [s!"Profile '{profile_name}' has multiple secrets that produce the same field name '{field_name}' (names are case-insensitive)"]
    else []) ++
    field_errors profile_name (field_name :: profile_field_names) fields

def validate_rust_identifiers (ir : CodegenIr) : List String :=
  ir.profile_fields.flatMap fun profile => field_errors lang profile.name [] profile.fields

def validate_profile_identifiers (ir : CodegenIr) : List String :=
  ir.profiles.flatMap fun profile_name =>
    let variant_name := capitalize lang profile_name
    if !is_valid_rust_identifier lang variant_name then
      [s!"Profile '{profile_name}' produces invalid Rust enum variant '{variant_name}'"]
    else []

def validate_config_for_codegen (ir : CodegenIr) : Except (List String) Unit :=
  let errors := validate_rust_identifiers lang ir ++ validate_profile_identifiers lang ir
  if errors.isEmpty then .ok () else .error errors

/-! ## What is declared -/

/-- The fields of the `Monosecret` struct. -/
def struct_fields (ir : CodegenIr) : List String := ir.union.map fun field => field_name lang field.name

/-- The fields of a profile's `MonosecretProfile` variant, and of its `load_profile` arm. -/
def variant_fields (profile : IrProfile) : List String := profile.fields.map fun field => field_name lang field.name

/-- The variants of `Profile`. -/
def profile_variants (ir : CodegenIr) : List String := ir.profiles.map (capitalize lang)

/-- The variants of `MonosecretProfile`. -/
def profile_enum_variants (ir : CodegenIr) : List String :=
  ir.profile_fields.map fun profile => capitalize lang profile.name

/-- Rust's `IDENTIFIER`, reserved words apart. -/
def is_identifier (s : String) : Bool :=
  match s.toList with
  | [] => false
  | first :: rest => (lang.xid_start first || first == '_' && !rest.isEmpty) && rest.all lang.xid_continue

/-- What `format_ident!` makes an identifier of; `_` and reserved words are among it. -/
def format_ident (s : String) : Bool :=
  match s.toList with
  | [] => false
  | first :: rest => (lang.xid_start first || first == '_') && rest.all lang.xid_continue

/-- The names of one type: identifiers, none of them twice. -/
structure Declarable (names : List String) : Prop where
  identifiers : ∀ name ∈ names, is_identifier lang name = true ∧ lang.reserved name = false
  formats : ∀ name ∈ names, format_ident lang name = true
  distinct : (names.map lang.normal).Nodup

structure Declares (ir : CodegenIr) : Prop where
  struct_fields : Declarable lang (struct_fields lang ir)
  variant_fields : ∀ profile ∈ ir.profile_fields, Declarable lang (variant_fields lang profile)
  profile_variants : Declarable lang (profile_variants lang ir)
  profile_enum_variants : Declarable lang (profile_enum_variants lang ir)

/-! ## The names of a manifest -/

def secret_names (spec : CompiledSpec) : List String := spec.profiles.flatMap fun profile => profile.2.names

def profile_names (spec : CompiledSpec) : List String :=
  if spec.profiles = [] then ["default"] else spec.profiles.map Prod.fst

/-- The letters and digits of a name are those of an identifier, and it is not `_`. -/
def Lettered (name : String) : Prop :=
  name ≠ "_" ∧ (∀ c ∈ name.toList.head?, lang.is_alphabetic c = true → lang.xid_start c = true) ∧
    ∀ c ∈ name.toList.tail, lang.is_alphanumeric c = true → lang.xid_continue c = true

structure SpelledApart (spec : CompiledSpec) : Prop where
  field_letters : ∀ name ∈ secret_names spec, Lettered lang (field_name lang name)
  variant_letters : ∀ name ∈ profile_names spec, Lettered lang (capitalize lang name)
  /-- A reserved word is one the validation lists. -/
  field_words : ∀ name ∈ secret_names spec,
    lang.reserved (field_name lang name) = true → field_name lang name ∈ rust_keywords
  variant_words : ∀ name ∈ profile_names spec, lang.reserved (capitalize lang name) = false
  /-- Whatever profiles two secrets are in. -/
  fields_apart : ∀ a ∈ secret_names spec, ∀ b ∈ secret_names spec,
    lang.normal (field_name lang a) = lang.normal (field_name lang b) → a = b
  variants_apart : ∀ a ∈ profile_names spec, ∀ b ∈ profile_names spec,
    lang.normal (capitalize lang a) = lang.normal (capitalize lang b) → a = b

variable {lang}

theorem format_of_identifier {s : String} (h : is_identifier lang s) : format_ident lang s := by
  unfold is_identifier at h
  unfold format_ident
  split at h
  · cases h
  · rename_i first r he
    simp only [Bool.and_eq_true, Bool.or_eq_true] at h ⊢
    exact ⟨h.1.imp_right And.left, h.2⟩

/-- Of what the validation takes for an identifier, Rust takes what is lettered. -/
theorem identifier_iff {s : String} (h : is_valid_rust_identifier lang s) :
    is_identifier lang s ↔ Lettered lang s := by
  unfold is_valid_rust_identifier at h
  split at h
  · cases h
  · rename_i first r he
    split at h
    · cases h
    · rename_i hf
      have hs : s = String.ofList (first :: r) := by rw [← he, String.ofList_toList]
      have hf : lang.is_alphabetic first ∨ first = '_' := by
        simpa [or_iff_not_imp_left] using hf
      have hr : ∀ c ∈ r, lang.is_alphanumeric c ∨ c = '_' := by simpa using h
      simp only [is_identifier, Lettered, he, Bool.and_eq_true, Bool.or_eq_true, List.all_eq_true, List.head?_cons,
        Option.mem_def, Option.some.injEq, List.tail_cons, beq_iff_eq, Bool.not_eq_true', List.isEmpty_eq_false_iff,
        forall_eq']
      constructor
      · rintro ⟨ht, hn⟩
        refine ⟨fun hu => ?_, fun ha => ?_, fun c hc _ => hn c hc⟩
        · -- `_` alone starts nothing and is followed by nothing
          rw [hu] at he
          obtain ⟨rfl, rfl⟩ : first = '_' ∧ r = [] := by simpa using he.symm
          rcases ht with ht | ⟨-, hne⟩
          · rw [lang.underscore_not_start] at ht
            cases ht
          · exact hne rfl
        · rcases ht with ht | ⟨rfl, -⟩
          · exact ht
          · rw [lang.underscore_not_alphabetic] at ha
            cases ha
      · rintro ⟨hne, ht, hn⟩
        refine ⟨?_, fun c hc => ?_⟩
        · rcases hf with ha | rfl
          · exact .inl (ht ha)
          · exact .inr ⟨rfl, fun hl => hne (by rw [hs, hl])⟩
        · rcases hr c hc with ha | rfl
          · exact hn c hc ha
          · exact lang.underscore_continues

/-! ## What the validation says -/

theorem field_errors_nil {p : String} {seen : List String} {fl : List IrField} :
    field_errors lang p seen fl = [] ↔
      (∀ fd ∈ fl, is_valid_rust_identifier lang (field_name lang fd.name) ∧
        field_name lang fd.name ∉ rust_keywords) ∧
      (fl.map fun fd => field_name lang fd.name).Nodup ∧
      ∀ fd ∈ fl, field_name lang fd.name ∉ seen := by
  induction fl generalizing seen with
  | nil => simp [field_errors]
  | cons fd fl ih =>
    simp only [field_errors, List.append_eq_nil_iff, ite_eq_right_iff, List.cons_ne_self, imp_false, ih,
      Bool.not_eq_true', Bool.not_eq_false, List.contains_iff_mem, List.mem_cons, forall_eq_or_imp, List.map_cons,
      List.nodup_cons, List.mem_map, not_exists, not_and, not_or]
    constructor
    · rintro ⟨⟨⟨hv, hw⟩, hs⟩, hl, hn, ht⟩
      exact ⟨⟨⟨hv, hw⟩, hl⟩, ⟨fun f hf => (ht f hf).1, hn⟩, hs, fun f hf => (ht f hf).2⟩
    · rintro ⟨⟨⟨hv, hw⟩, hl⟩, ⟨hnw, hn⟩, hs, ht⟩
      exact ⟨⟨⟨hv, hw⟩, hs⟩, hl, hn, fun f hf => ⟨hnw f hf, ht f hf⟩⟩

/-- Every profile is checked on its own. -/
theorem validated_ir {ir : CodegenIr} (h : validate_config_for_codegen lang ir = .ok ()) :
    (∀ p ∈ ir.profile_fields,
      (∀ f ∈ p.fields, is_valid_rust_identifier lang (field_name lang f.name) ∧
        field_name lang f.name ∉ rust_keywords) ∧
      (variant_fields lang p).Nodup) ∧
    ∀ n ∈ ir.profiles, is_valid_rust_identifier lang (capitalize lang n) := by
  unfold validate_config_for_codegen at h
  dsimp only at h
  split at h
  · rename_i hl
    rw [List.isEmpty_iff, List.append_eq_nil_iff] at hl
    obtain ⟨hf, hr⟩ := hl
    constructor
    · intro p hp
      have hl := List.flatMap_eq_nil_iff.mp hf p hp
      obtain ⟨hv, hd, -⟩ := field_errors_nil.mp hl
      exact ⟨hv, hd⟩
    · intro n hn
      have hl := List.flatMap_eq_nil_iff.mp hr n hn
      simpa using hl
  · cases h

/-! ## The names of an IR -/

variable {spec : CompiledSpec}

theorem build_ir_profiles : (build_ir spec).profiles = profile_names spec := by
  unfold build_ir profile_names
  dsimp only
  split
  · rfl
  · rw [List.map_map]
    rfl

theorem declarations_names : (declarations spec).map Prod.fst = secret_names spec := by
  unfold declarations secret_names CompiledProfile.names
  rw [List.map_flatMap]

theorem struct_fields_eq :
    struct_fields lang (build_ir spec) = (sorted_set (secret_names spec)).map (field_name lang) := by
  unfold struct_fields
  have hu : (build_ir spec).union = build_union spec := rfl
  rw [hu, build_union, List.map_map, declarations_names]
  rfl

/-- A variant has the fields of its profile, or those of the union. -/
theorem mem_profile_fields {p : IrProfile} (h : p ∈ (build_ir spec).profile_fields) :
    p = ⟨"default", build_union spec⟩ ∧ spec.profiles = [] ∨
      ∃ c ∈ spec.profiles, p = ⟨c.1, build_profile_fields c.2.secrets⟩ := by
  unfold build_ir at h
  dsimp only at h
  split at h
  · rename_i hn
    exact .inl ⟨List.mem_singleton.mp h, hn⟩
  · obtain ⟨c, hc, rfl⟩ := List.mem_map.mp h
    exact .inr ⟨c, hc, rfl⟩

theorem variant_fields_eq (n : String) (c : CompiledProfile) :
    variant_fields lang ⟨n, build_profile_fields c.secrets⟩ = c.names.map (field_name lang) := by
  unfold variant_fields build_profile_fields CompiledProfile.names
  rw [List.map_map, List.map_map]
  rfl

/-- Each secret is a field of some variant. -/
theorem secret_variant {name : String} (h : name ∈ secret_names spec) :
    ∃ p ∈ (build_ir spec).profile_fields, ∃ fl ∈ p.fields, fl.name = name := by
  obtain ⟨c, hc, hn⟩ := List.mem_flatMap.mp h
  obtain ⟨e, he, rfl⟩ := List.mem_map.mp hn
  have hne : spec.profiles ≠ [] := List.ne_nil_of_mem hc
  refine ⟨⟨c.1, build_profile_fields c.2.secrets⟩, ?_, _, List.mem_map_of_mem he, rfl⟩
  unfold build_ir
  dsimp only
  rw [if_neg hne]
  exact List.mem_map_of_mem (f := fun c : String × CompiledProfile =>
    (⟨c.1, build_profile_fields c.2.secrets⟩ : IrProfile)) hc

/-! ## The result -/

/-- Validated names are declared as they are when they are lettered, not reserved and apart. -/
theorem declarable_of {names : List String} (f : String → String) (hv : ∀ n ∈ names,
      is_valid_rust_identifier lang (f n)) (hl : ∀ n ∈ names, Lettered lang (f n))
    (hw : ∀ n ∈ names, lang.reserved (f n) = false) (hd : names.Nodup)
    (hp : ∀ a ∈ names, ∀ b ∈ names, lang.normal (f a) = lang.normal (f b) → a = b) :
    Declarable lang (names.map f) := by
  have hi : ∀ n ∈ names, is_identifier lang (f n) := fun n hn =>
    (identifier_iff (hv n hn)).mpr (hl n hn)
  refine ⟨fun _ h => ?_, fun _ h => ?_, ?_⟩
  · obtain ⟨n, hn, rfl⟩ := List.mem_map.mp h
    exact ⟨hi n hn, hw n hn⟩
  · obtain ⟨n, hn, rfl⟩ := List.mem_map.mp h
    exact format_of_identifier (hi n hn)
  · rw [List.map_map]
    exact List.Nodup.map_on (fun a ha b hb => hp a ha b hb) hd

/-- What is declared once tells its names apart. -/
theorem Declarable.apart {names : List String} {f : String → String} (h : Declarable lang (names.map f)) {a b : String}
    (ha : a ∈ names) (hb : b ∈ names) (hab : lang.normal (f a) = lang.normal (f b)) : a = b := by
  have hn := h.distinct
  rw [List.map_map] at hn
  exact List.inj_on_of_nodup_map hn ha hb hab

theorem profile_names_nodup {r : Rules} {c : Config} (h : c.validate_and_compile r = .ok spec) :
    (profile_names spec).Nodup := by
  unfold profile_names
  split
  · exact List.nodup_singleton _
  · have hm : spec.profiles.map Prod.fst = c.profiles.sorted.map Prod.fst := by
      rw [(validated h).compiled, CompiledSpec.compile, List.map_map]
      rfl
    rw [hm, Table.sorted_keys]
    exact sorted_nodup c.profiles.nodupKeys

/-- A validated IR of a loaded manifest declares identifiers, each once in its type, exactly
    when the manifest's names are spelled apart. -/
theorem declares_iff (lang : Language) (config : Config) (spec : CompiledSpec)
    (hload : config.validate_and_compile lang.toRules = .ok spec)
    (hvalid : validate_config_for_codegen lang (build_ir spec) = .ok ()) :
    Declares lang (build_ir spec) ↔ SpelledApart lang spec := by
  obtain ⟨hd, hpr⟩ := validated_ir hvalid
  rw [build_ir_profiles] at hpr
  have hl : ∀ n ∈ secret_names spec,
      is_valid_rust_identifier lang (field_name lang n) ∧ field_name lang n ∉ rust_keywords :=
    fun n hn => by
      obtain ⟨p, hp, f, hf, rfl⟩ := secret_variant hn
      exact (hd p hp).1 f hf
  have hv : profile_enum_variants lang (build_ir spec) = profile_variants lang (build_ir spec) := by
    unfold profile_enum_variants profile_variants
    rw [show (build_ir spec).profiles = (build_ir spec).profile_fields.map IrProfile.name from rfl, List.map_map]
    rfl
  constructor
  · intro h
    have hs := h.struct_fields
    have he := h.profile_variants
    rw [struct_fields_eq] at hs
    rw [profile_variants, build_ir_profiles] at he
    have hse : ∀ n ∈ secret_names spec, n ∈ sorted_set (secret_names spec) := fun _ => mem_sorted_set.mpr
    exact {
      field_letters := fun n hn =>
        (identifier_iff (hl n hn).1).mp (hs.identifiers _ (List.mem_map_of_mem (hse n hn))).1
      variant_letters := fun n hn =>
        (identifier_iff (hpr n hn)).mp (he.identifiers _ (List.mem_map_of_mem hn)).1
      field_words := fun n hn hr => by
        rw [(hs.identifiers _ (List.mem_map_of_mem (hse n hn))).2] at hr
        cases hr
      variant_words := fun n hn => (he.identifiers _ (List.mem_map_of_mem hn)).2
      fields_apart := fun a ha b hb => hs.apart (hse a ha) (hse b hb)
      variants_apart := fun a ha b hb => he.apart ha hb }
  · intro h
    have hw : ∀ n ∈ secret_names spec, lang.reserved (field_name lang n) = false := fun n hn =>
      Bool.eq_false_iff.mpr fun hr => (hl n hn).2 (h.field_words n hn hr)
    have he : Declarable lang (profile_variants lang (build_ir spec)) := by
      rw [profile_variants, build_ir_profiles]
      exact declarable_of _ hpr h.variant_letters h.variant_words (profile_names_nodup hload) h.variants_apart
    have hs : Declarable lang (struct_fields lang (build_ir spec)) := by
      rw [struct_fields_eq]
      exact declarable_of _ (fun n hn => (hl n (mem_sorted_set.mp hn)).1)
        (fun n hn => h.field_letters n (mem_sorted_set.mp hn)) (fun n hn => hw n (mem_sorted_set.mp hn))
        (sorted_set_nodup _) fun a ha b hb => h.fields_apart a (mem_sorted_set.mp ha) b (mem_sorted_set.mp hb)
    refine ⟨hs, fun p hp => ?_, he, hv ▸ he⟩
    rcases mem_profile_fields hp with ⟨rfl, -⟩ | ⟨c, hc, rfl⟩
    · exact hs
    · have hm : ∀ n ∈ c.2.names, n ∈ secret_names spec := fun n hn =>
        List.mem_flatMap.mpr ⟨c, hc, hn⟩
      have hnd := (hd _ hp).2
      rw [variant_fields_eq] at hnd ⊢
      exact declarable_of _ (fun n hn => (hl n (hm n hn)).1)
        (fun n hn => h.field_letters n (hm n hn)) (fun n hn => hw n (hm n hn))
        hnd.of_map fun a ha b hb => h.fields_apart a (hm a ha) b (hm b hb)

/-! ## Manifests -/

/-- ASCII letters, and the reserved words of the 2024 edition. -/
def ascii_rust : Language where
  toRules := ascii
  to_uppercase c := [c.toUpper]
  xid_start := Char.isAlpha
  xid_continue c := c.isAlphanum || c == '_'
  reserved word := rust_keywords.contains word || word == "gen"
  normal := id
  underscore_not_alphabetic := rfl
  underscore_not_start := rfl
  underscore_continues := rfl

/-- Two profiles that inherit nothing, with a secret each. -/
def two_profiles (ci dev : String) : Config where
  project := ⟨"app", "1.0", none, none⟩
  profiles := AList.insert "ci" ⟨none, AList.insert ci described ∅⟩
    (AList.insert "dev" ⟨none, AList.insert dev described ∅⟩ ∅)
  defaults := none
  providers := none
  groups := none
  scopes := none

theorem declares_iff_two_names :
    ∃ spec, (two_profiles "API_KEY" "DB_URL").validate_and_compile ascii = .ok spec ∧
      validate_config_for_codegen ascii_rust (build_ir spec) = .ok () ∧
      (Declares ascii_rust (build_ir spec) ↔ SpelledApart ascii_rust spec) := by
  obtain ⟨spec, hs⟩ := Except.ok_of_isSome (x := (two_profiles "API_KEY" "DB_URL").validate_and_compile ascii)
    (by decide +kernel)
  have hv : validate_config_for_codegen ascii_rust (build_ir spec) = .ok () := by
    rw [(validated hs).compiled]
    decide +kernel
  exact ⟨spec, hs, hv, declares_iff ascii_rust _ spec hs hv⟩

/-- `API_KEY` in one profile and `api_key` in another: the union struct has `api_key` twice. -/
theorem declared_twice : ¬ ∀ (lang : Language) (config : Config) (spec : CompiledSpec),
    config.validate_and_compile lang.toRules = .ok spec → validate_config_for_codegen lang (build_ir spec) = .ok () →
      Declares lang (build_ir spec) := by
  intro h
  obtain ⟨spec, hs⟩ := Except.ok_of_isSome (x := (two_profiles "API_KEY" "api_key").validate_and_compile ascii)
    (by decide +kernel)
  have hv : validate_config_for_codegen ascii_rust (build_ir spec) = .ok () := by
    rw [(validated hs).compiled]
    decide +kernel
  have hd := (h ascii_rust _ spec hs hv).struct_fields.distinct
  rw [(validated hs).compiled] at hd
  revert hd
  decide +kernel

end Monosecret.Codegen
