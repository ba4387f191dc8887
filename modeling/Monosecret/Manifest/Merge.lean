/-
  Monosecret.Manifest.Merge — where each field of an effective secret comes from
  (`Secret::resolved`, `Secret::validate_semantics` in `monosecret/src/config.rs`).

  The layers of a field are the profile's entry, the default profile's entry, the profile's
  `[defaults]` table and the project's, and the field has the value of the first that has
  one (`Precedence`). Presence and address are several fields read from one entry
  (`Together`).

  `merge_law`: what every merge gives, and what it leaves of a derived secret in an accepted
  configuration. A derived secret takes no default and no route from the tables; whether it
  is required is still the profile table's to say (`derived_required`).
-/

import Monosecret.Manifest.Accepted

namespace Monosecret.Manifest

open Lib

/-! ## Layers -/

section

variable {α : Type}

/-- The result is the value of the first layer that has one. -/
def Precedence (layers : List (Option α)) (result : Option α) : Prop :=
  ∀ v, result = some v ↔ ∃ above below, layers = above ++ some v :: below ∧ ∀ layer ∈ above, layer = none

theorem precedence_nil : Precedence [] (none : Option α) := by
  intro v
  constructor
  · exact nofun
  · rintro ⟨above, b, h, -⟩
    exact absurd h.symm (List.append_ne_nil_of_right_ne_nil above (List.cons_ne_nil _ b))

theorem precedence_cons {l : List (Option α)} {r : Option α} (h : Precedence l r) (ly : Option α) :
    Precedence (ly :: l) (ly.or r) := by
  intro v
  cases ly with
  | some w =>
    constructor
    · intro he
      cases he
      exact ⟨[], l, rfl, fun _ hl => (by cases hl)⟩
    · rintro ⟨above, b, he, hn⟩
      cases above with
      | nil => exact (List.cons.inj he).1
      | cons first above =>
        obtain ⟨rfl, -⟩ := List.cons.inj he
        exact absurd (hn _ (.head _)) (Option.some_ne_none w)
  | none =>
    rw [Option.none_or, h v]
    constructor
    · rintro ⟨above, b, rfl, hn⟩
      exact ⟨none :: above, b, rfl, List.forall_mem_cons.mpr ⟨rfl, hn⟩⟩
    · rintro ⟨above, b, he, hn⟩
      cases above with
      | nil => cases (List.cons.inj he).1
      | cons first above =>
        obtain ⟨rfl, rfl⟩ := List.cons.inj he
        exact ⟨above, b, rfl, (List.forall_mem_cons.mp hn).2⟩

theorem precedence_two (a b : Option α) : Precedence [a, b] (a.or b) := by
  have h := precedence_cons (precedence_cons precedence_nil b) a
  rwa [Option.or_none] at h

end

/-- Fields read as a whole from the first of two entries that sets one of them. -/
structure Together {γ : Type} (sets : Secret → Bool) (fields : Secret → γ) (current default : Option Secret) (rest result : γ) :
    Prop where
  first : ∀ secret, current = some secret → sets secret = true → result = fields secret
  second : (∀ secret, current = some secret → sets secret = false) →
    ∀ secret, default = some secret → sets secret = true → result = fields secret
  neither : (∀ secret, current = some secret → sets secret = false) → (∀ secret, default = some secret → sets secret = false) →
    result = rest

variable {current default : Option Secret}

theorem chosen_of_unset {sets : Secret → Bool} (h : ∀ secret, current = some secret → sets secret = false) :
    chosen current default sets = default.filter sets := by
  have hn : current.filter sets = none := by
    cases current with
    | none => rfl
    | some secret => rw [Option.filter_some, if_neg (by rw [h secret rfl]; exact Bool.false_ne_true)]
  rw [chosen, hn, Option.none_or]

theorem together_chosen {γ : Type} (s : Secret → Bool) (f : Secret → γ) (r : γ) :
    Together s f current default r (((chosen current default s).map f).getD r) := by
  refine ⟨?_, ?_, ?_⟩
  · rintro secret rfl hs
    rw [chosen, Option.filter_some, if_pos hs]
    rfl
  · rintro hu secret rfl hs
    rw [chosen_of_unset hu, Option.filter_some, if_pos hs]
    rfl
  · intro hu hd
    rw [chosen_of_unset hu]
    cases default with
    | none => rfl
    | some secret =>
      rw [Option.filter_some, if_neg (by rw [hd secret rfl]; exact Bool.false_ne_true)]
      rfl

/-! ## One merge -/

/-- An entry's own layers. -/
def entries {α : Type} (current default : Option Secret) (field : Secret → Option α) : List (Option α) :=
  [current.bind field, default.bind field]

structure Merged (current default : Option Secret) (defaults : Option ProfileDefaults) (project_defaults : Option ProjectDefaults)
    (effective : Secret) : Prop where
  description : Precedence (entries current default Secret.description) effective.description
  groups : Precedence (entries current default Secret.groups) effective.groups
  composed : Precedence (entries current default Secret.composed) effective.composed
  source : Precedence (entries current default Secret.source) effective.source
  as_path : Precedence (entries current default Secret.as_path) effective.as_path
  encoding : Precedence (entries current default Secret.encoding) effective.encoding
  extract : Precedence (entries current default Secret.extract) effective.extract
  secret_type : Precedence (entries current default Secret.secret_type) effective.secret_type
  format : Precedence (entries current default Secret.format) effective.format
  generate : Precedence (entries current default Secret.generate) effective.generate
  prompt : Precedence (entries current default Secret.prompt) effective.prompt
  default_value : Precedence
    (entries current default Secret.default ++
      if effective.is_derived then [] else [defaults.bind ProfileDefaults.default]) effective.default
  routes : Precedence
    (entries current default Secret.providers ++
      if effective.is_derived then [] else [defaults.bind ProfileDefaults.providers, project_defaults.map ProjectDefaults.providers])
    effective.providers
  presence : Together Secret.has_required_setting (fun secret => (secret.required, secret.at_least_one, secret.exactly_one))
    current default (defaults.bind ProfileDefaults.required, none, none)
    (effective.required, effective.at_least_one, effective.exactly_one)
  address : Together Secret.is_addressed (fun secret => (secret.reference, secret.refs)) current default (none, none)
    (effective.reference, effective.refs)
  cleared : ∀ bindings, current.bind Secret.credentials = some bindings → bindings.is_empty = true → effective.credentials = none
  bound : ∀ bindings, current.bind Secret.credentials = some bindings → bindings.is_empty = false →
    effective.credentials = some bindings
  inherited : current.bind Secret.credentials = none → effective.credentials = default.bind Secret.credentials

variable {defaults : Option ProfileDefaults} {project_defaults : Option ProjectDefaults} {effective : Secret}

theorem credentials_cleared {b : Table String} (h : current.bind Secret.credentials = some b)
    (he : b.is_empty) : inherited_credentials current default = none := by
  unfold inherited_credentials
  rw [h]
  exact if_pos he

theorem credentials_bound {bindings : Table String} (h : current.bind Secret.credentials = some bindings)
    (he : bindings.is_empty = false) : inherited_credentials current default = some bindings := by
  unfold inherited_credentials
  rw [h]
  exact if_neg (by rw [he]; exact Bool.false_ne_true)

theorem credentials_inherited (h : current.bind Secret.credentials = none) :
    inherited_credentials current default = default.bind Secret.credentials := by
  unfold inherited_credentials
  rw [h]

/-- A storage field: nothing below the two entries for a derived secret. -/
theorem precedence_default (d : Bool) (a b : Option String) :
    Precedence ([a, b] ++ if d then [] else [defaults.bind ProfileDefaults.default])
      ((a.or b).or ((if d then none else defaults).bind ProfileDefaults.default)) := by
  cases d with
  | true =>
    show Precedence [a, b] ((a.or b).or none)
    rw [Option.or_none]
    exact precedence_two a b
  | false =>
    rw [Option.or_assoc]
    exact precedence_cons (precedence_two b _) a

theorem precedence_providers (d : Bool) (a b : Option (List ProviderRef)) :
    Precedence
      ([a, b] ++ if d then [] else [defaults.bind ProfileDefaults.providers, project_defaults.map ProjectDefaults.providers])
      (((a.or b).or ((if d then none else defaults).bind ProfileDefaults.providers)).or
        (if d then none else project_defaults.map ProjectDefaults.providers)) := by
  cases d with
  | true =>
    show Precedence [a, b] (((a.or b).or none).or none)
    rw [Option.or_none, Option.or_none]
    exact precedence_two a b
  | false =>
    rw [Option.or_assoc, Option.or_assoc]
    exact precedence_cons (precedence_cons (precedence_two _ _) b) a

theorem resolved_merged (h : Secret.resolved current default defaults project_defaults = some effective) :
    Merged current default defaults project_defaults effective := by
  unfold Secret.resolved at h
  split at h
  · cases h
  · cases h
    have hp := @together_chosen current default _ Secret.has_required_setting
      (fun secret => (secret.required, secret.at_least_one, secret.exactly_one)) (defaults.bind ProfileDefaults.required, none, none)
    have ha := @together_chosen current default _ Secret.is_addressed (fun secret => (secret.reference, secret.refs)) (none, none)
    exact
      { description := precedence_two _ _
        groups := precedence_two _ _
        composed := precedence_two _ _
        source := precedence_two _ _
        as_path := precedence_two _ _
        encoding := precedence_two _ _
        extract := precedence_two _ _
        secret_type := precedence_two _ _
        format := precedence_two _ _
        generate := precedence_two _ _
        prompt := precedence_two _ _
        default_value := precedence_default _ _ _
        routes := precedence_providers _ _ _
        presence := by
          cases hc : chosen current default Secret.has_required_setting <;> rw [hc] at hp <;> exact hp
        address := by
          cases hc : chosen current default Secret.is_addressed <;> rw [hc] at ha <;> exact ha
        cleared := fun b hb he => credentials_cleared hb he
        bound := fun b hb he => credentials_bound hb he
        inherited := credentials_inherited }

/-! ## Accepted secrets -/

/-- Nothing stores the value or stands in for it. -/
structure Unstored (secret : Secret) : Prop where
  default : secret.default = none
  providers : secret.providers = none
  reference : secret.reference = none
  refs : secret.refs = none
  generate : secret.would_generate = false
  prompt : secret.prompts = false

def Exclusive (secret : Secret) : Prop :=
  secret.required = some true → secret.at_least_one = none ∧ secret.exactly_one = none

variable {rules : Rules} {secret : Secret}

theorem composed_unstored (h : secret.validate_composed = .ok ()) (hc : secret.composed.isSome) : Unstored secret := by
  obtain ⟨c, hc⟩ := Option.isSome_iff_exists.mp hc
  obtain ⟨_, -, hr⟩ := Except.bind_ok (Except.option_forM_ok h hc)
  have hn := refuse_ok hr
  simp only [Bool.or_eq_false_iff, Option.isSome_eq_false_iff, Option.isNone_iff_eq_none] at hn
  exact ⟨by tauto, by tauto, by tauto, by tauto, by tauto, by tauto⟩

theorem source_unstored (h : secret.validate_typed rules = .ok ()) (hs : secret.source.isSome) : Unstored secret := by
  obtain ⟨s, hs⟩ := Option.isSome_iff_exists.mp hs
  obtain ⟨f, -, ht⟩ := Except.bind_ok h
  replace ht := Except.rest_ok ht
  rw [hs] at ht
  replace ht := Except.rest_ok ht
  replace ht := Except.rest_ok ht
  obtain ⟨hr, -⟩ := Except.bind_unit_ok ht
  have hn := refuse_ok hr
  simp only [Bool.or_eq_false_iff, Option.isSome_eq_false_iff, Option.isNone_iff_eq_none] at hn
  exact ⟨by tauto, by tauto, by tauto, by tauto, by tauto, by tauto⟩

theorem groups_exclusive (h : secret.validate_groups = .ok ()) : Exclusive secret := by
  replace h := Except.rest_ok h
  replace h := Except.rest_ok h
  have hr := refuse_ok h
  intro hq
  rw [hq] at hr
  simpa using hr

theorem semantics_unstored (h : secret.validate_semantics rules = .ok ()) (hd : secret.is_derived) : Unstored secret := by
  have hm := Secret.semantics h
  rcases Bool.or_eq_true_iff.mp hd with hc | hs
  · exact composed_unstored hm.composed hc
  · exact source_unstored hm.typed hs

variable {config : Config} {spec : CompiledSpec} {profile_name name : String} {profile : Profile}

theorem mem_of_effective_secret (h : effective_secret config profile_name profile name = some secret) :
    name ∈ effective_names config profile_name profile := by
  rw [mem_effective_names]
  by_contra ho
  obtain ⟨hn, hin⟩ := not_or.mp ho
  have hc : profile.secrets.lookup name = none := AList.lookup_eq_none.mpr hn
  have hd : ((inherited config profile_name profile).bind fun default => default.secrets.lookup name) = none := by
    unfold inherited_names at hin
    cases hi : inherited config profile_name profile with
    | none => rfl
    | some default =>
      rw [hi] at hin
      exact AList.lookup_eq_none.mpr fun hm => hin (AList.mem_keys.mp hm)
  rw [effective_secret, hc, hd] at h
  cases h

/-- Validation reads every effective secret. -/
theorem effective_semantics (h : config.validate_and_compile rules = .ok spec) (hp : config.profiles.lookup profile_name = some profile)
    (hs : effective_secret config profile_name profile name = some secret) : secret.validate_semantics rules = .ok () := by
  have hv := validated h
  have hc : spec.profile profile_name = some (compile_profile config profile_name profile) := by
    rw [hv.compiled, compile_lookup, hp]
    rfl
  obtain ⟨he, -⟩ := Except.bind_unit_ok (hv.checked profile_name _ hc)
  have hm : (name, compile_secret secret) ∈ (compile_profile config profile_name profile).secrets :=
    List.mem_map.mpr ⟨(name, secret), mem_keyed.mpr ⟨mem_of_effective_secret hs, hs⟩, rfl⟩
  exact (Except.bind_unit_ok (Except.mapError_ok.mp (Except.forM_ok_iff.mp he _ hm))).2

/-! ## The merge -/

theorem merge_law :
    (∀ current default defaults project_defaults,
      (Secret.resolved current default defaults project_defaults = none ↔ current = none ∧ default = none) ∧
      ∀ effective, Secret.resolved current default defaults project_defaults = some effective →
        Merged current default defaults project_defaults effective) ∧
    ∀ (rules : Rules) (config : Config) (spec : CompiledSpec), config.validate_and_compile rules = .ok spec →
      ∀ profile_name profile, config.profiles.lookup profile_name = some profile →
        ∀ name secret, effective_secret config profile_name profile name = some secret →
          (secret.is_derived = true → Unstored secret) ∧ Exclusive secret := by
  refine ⟨fun current default defaults project_defaults => ⟨?_, fun effective => resolved_merged⟩, ?_⟩
  · constructor
    · intro h
      by_contra ho
      have hso : current.isSome ∨ default.isSome := by
        rw [Option.isSome_iff_ne_none, Option.isSome_iff_ne_none]
        tauto
      have := Secret.resolved_isSome hso defaults project_defaults
      rw [h] at this
      cases this
    · rintro ⟨rfl, rfl⟩
      rfl
  · intro rules config spec h profile_name profile hp name secret hs
    have hm := effective_semantics h hp hs
    exact ⟨semantics_unstored hm, groups_exclusive (Except.bind_unit_ok hm).1⟩

namespace Sample

def url : Secret := { Secret.empty with description := some "the database", composed := some "postgres://$\x7bDB_PASSWORD\x7d" }

def optional : ProfileDefaults := ⟨none, some false, some "postgres", none⟩

def composing : Profile := ⟨some optional, AList.insert "URL" url (AList.insert "DB_PASSWORD" described ∅)⟩

/-- `default` composes `URL` from `DB_PASSWORD`, and its `[defaults]` say `required = false` and a default. -/
def with_url : Config where
  project := ⟨"app", "1.0", none, none⟩
  profiles := AList.insert "default" composing ∅
  defaults := none
  providers := none
  groups := none
  scopes := none

end Sample

theorem merge_law_with_url : ∃ secret,
    effective_secret Sample.with_url "default" Sample.composing "URL" = some secret ∧ Unstored secret ∧ Exclusive secret ∧
      Merged (some Sample.url) none (some Sample.optional) none secret := by
  obtain ⟨spec, hp⟩ := Except.ok_of_isSome (x := Sample.with_url.validate_and_compile ascii) (by decide +kernel)
  obtain ⟨secret, hs⟩ := Option.isSome_iff_exists.mp
    (show (effective_secret Sample.with_url "default" Sample.composing "URL").isSome from rfl)
  have hd : secret.is_derived := by
    cases hs
    rfl
  obtain ⟨hu, he⟩ := merge_law.2 ascii _ spec hp "default" _ rfl "URL" secret hs
  exact ⟨secret, hs, hu hd, he, (merge_law.1 _ _ _ _).2 secret hs⟩

/-- A composed secret is optional because the profile's table says so. -/
theorem derived_required : ¬∀ (current default : Option Secret) (defaults : Option ProfileDefaults)
    (project_defaults : Option ProjectDefaults) (effective : Secret),
    Secret.resolved current default defaults project_defaults = some effective → effective.is_derived = true →
      Secret.resolved current default none none = some effective := by
  intro h
  have hs := h (some Sample.url) none (some Sample.optional) none _ rfl rfl
  have hr := congrArg Secret.required (Option.some.inj hs)
  revert hr
  decide

end Monosecret.Manifest
