/-
  Monosecret.Manifest.Accepted — what an accepted configuration guarantees the resolver.

  Validation refuses combinations of fields one check at a time, on the merged declaration of
  every profile. Read together they say what each compiled secret looks like: a derived one
  has no policy but to fail or to be left out (`derived_missing`), a generator has a type, a
  conversion takes a stored identity (`converts`), a binary value has an encoding
  (`stored_encoding`, `projected_encoding`). The dependencies of a profile are declared, and
  a rank decreases along them (`AcceptedProfile.acyclic`).
-/

import Monosecret.Manifest.Composition

namespace Monosecret.Manifest

open Lib
open Lib.Except (bind_ok bind_unit_ok rest_ok)

/-! ## Contracts -/

theorem stored_contract : ∀ c ∈ CONTRACTS, c.is_stored → c.name = X509_IDENTITY ∧ c.formats = [] ∧ c.fixed_binary := by
  decide

theorem accepted_sources : ∀ c ∈ CONTRACTS, ∀ sc ∈ c.sources, sc = X509_IDENTITY := by decide

/-- What a projection yields. -/
def Projection.is_binary (projection : Projection) (format : Format) : Bool :=
  match projection, format with
  | .Pkcs12, _ => true
  | .Pkcs8PrivateKey, .Der => true
  | .Certificate, .Der => true
  | _, _ => false

theorem contract_default_encoding : ∀ c ∈ CONTRACTS, ∀ p, c.projection = some p →
    ∀ fr : Option Format, (∀ f, fr = some f → f ∈ c.formats) →
      p.is_binary (fr.getD .Pem) → (c.default_encoding fr).isSome := by
  intro c hc p hp fr hf hb
  have ha : ∀ c ∈ CONTRACTS, ∀ fr ∈ none :: c.formats.map some,
      (c.projection.any fun p => p.is_binary (fr.getD .Pem)) →
        (c.default_encoding fr).isSome := by decide
  refine ha c hc fr ?_ (by rw [hp]; exact hb)
  cases fr with
  | none => exact .head _
  | some f => exact .tail _ (List.mem_map_of_mem (hf f rfl))

namespace Secret

variable {secret : Secret}
variable {c : TypeContract}

variable (h : secret.typed_contract = some c)

include h

theorem typed_contract_some : c ∈ CONTRACTS ∧ secret.secret_type = some c.name := by
  obtain ⟨name, hn, hc⟩ := Option.bind_eq_some_iff.mp h
  obtain ⟨hm, he⟩ := contract_some hc
  exact ⟨hm, by rw [hn, he]⟩

theorem typed_format_mem {f : Format} (hf : secret.typed_format = some f) : f ∈ c.formats := by
  unfold typed_format at hf
  rw [h] at hf
  simp only [Option.bind_some] at hf
  unfold TypeContract.format at hf
  cases hr : secret.format with
  | none =>
    rw [hr] at hf
    exact List.mem_of_head? hf
  | some r =>
    rw [hr] at hf
    cases hfr : c.formats with
    | nil =>
      rw [hfr] at hf
      cases hf
    | cons first rs =>
      rw [hfr] at hf
      simp only at hf
      rw [← hfr] at hf ⊢
      cases hp : (Format.parse r).filter fun f => c.formats.contains f with
      | none =>
        rw [hp] at hf
        cases hf
      | some p =>
        rw [hp] at hf
        cases hf
        obtain ⟨-, hm⟩ := Option.filter_eq_some_iff.mp hp
        simpa using hm

/-- A value that a projection yields as bytes has an encoding. -/
theorem projected_encoding {p : Projection} (hp : c.projection = some p) (hb : p.is_binary (secret.typed_format.getD .Pem)) :
    secret.effective_encoding.isSome := by
  have hd := contract_default_encoding c (typed_contract_some h).1 p hp secret.typed_format
    (fun _ hf => typed_format_mem h hf) hb
  unfold effective_encoding
  rw [h, Option.bind_some]
  cases secret.encoding with
  | none => rwa [Option.none_or]
  | some e => rfl

/-- A stored registry value has an encoding. -/
theorem stored_encoding (hs : c.is_stored) : secret.effective_encoding.isSome := by
  obtain ⟨-, hr, hb⟩ := stored_contract c (typed_contract_some h).1 hs
  have hfm : secret.typed_format = none := by
    cases hf : secret.typed_format with
    | none => rfl
    | some f =>
      have hm := typed_format_mem h hf
      rw [hr] at hm
      cases hm
  have hd : c.default_encoding secret.typed_format = some .Base64 := by
    rw [hfm]
    exact if_pos hb
  unfold effective_encoding
  rw [h, Option.bind_some, hd]
  cases secret.encoding <;> rfl

end Secret

/-! ## One secret -/

variable {rules : Rules}

namespace Secret

variable {secret : Secret}

structure Semantics (rules : Rules) (secret : Secret) : Prop where
  composed : secret.validate_composed = .ok ()
  typed : secret.validate_typed rules = .ok ()
  prompt : secret.validate_prompt = .ok ()
  extract : secret.validate_extract = .ok ()
  generate : secret.validate_generate rules = .ok ()

theorem semantics (h : secret.validate_semantics rules = .ok ()) : Semantics rules secret := by
  replace h := rest_ok h
  obtain ⟨hc, h⟩ := bind_unit_ok h
  obtain ⟨ht, h⟩ := bind_unit_ok h
  obtain ⟨hp, h⟩ := bind_unit_ok h
  obtain ⟨he, h⟩ := bind_unit_ok h
  replace h := rest_ok h
  obtain ⟨hn, -⟩ := bind_unit_ok h
  exact ⟨hc, ht, hp, he, hn⟩

/-- Nothing stands in for a missing value. -/
structure Bare (secret : Secret) : Prop where
  default : secret.default = none
  generate : secret.would_generate = false
  prompt : secret.prompts = false

namespace Semantics

variable (h : Semantics rules secret)

include h in
theorem of_composed {cm : String} (hc : secret.composed = some cm) :
    (∃ t, Template.parse cm = .ok t) ∧ Bare secret ∧ secret.source = none := by
  have hm := Except.option_forM_ok h.composed hc
  obtain ⟨t, hp, hr⟩ := bind_ok hm
  have hn := refuse_ok hr
  simp only [Bool.or_eq_false_iff, Option.isSome_eq_false_iff, Option.isNone_iff_eq_none] at hn
  exact ⟨⟨t, hp⟩, ⟨by tauto, by tauto, by tauto⟩, by tauto⟩

variable {sc : String}

include h in
theorem of_source (hs : secret.source = some sc) : Bare secret ∧ secret.validate_derivation = .ok () := by
  obtain ⟨f, -, ht⟩ := bind_ok h.typed
  replace ht := rest_ok ht
  rw [hs] at ht
  replace ht := rest_ok ht
  obtain ⟨hd, ht⟩ := bind_unit_ok ht
  obtain ⟨hr, -⟩ := bind_unit_ok ht
  have hn := refuse_ok hr
  simp only [Bool.or_eq_false_iff, Option.isSome_eq_false_iff, Option.isNone_iff_eq_none] at hn
  exact ⟨⟨by tauto, by tauto, by tauto⟩, hd⟩

include h in
/-- A `from` secret without `extract` has a type that an identity is converted to. -/
theorem converts (hs : secret.source = some sc) (hx : secret.extract = none) :
    ∃ cn projection, secret.typed_contract = some cn ∧ cn.projection = some projection := by
  have hd := (h.of_source hs).2
  unfold validate_derivation at hd
  rw [hx] at hd
  cases hc : secret.typed_contract with
  | none =>
    rw [hc] at hd
    cases ht : secret.secret_type with
    | none | some name =>
      rw [ht] at hd
      cases hd
  | some cn =>
    rw [hc] at hd
    have hst := refuse_ok hd
    cases hp : cn.projection with
    | none =>
      rw [TypeContract.is_stored, hp] at hst
      cases hst
    | some projection => exact ⟨cn, projection, rfl, hp⟩

include h in
/-- A `from` secret has no stored type. -/
theorem source_not_stored (hs : secret.source = some sc) {cn : TypeContract}
    (hc : secret.typed_contract = some cn) : cn.is_stored = false := by
  have hd := (h.of_source hs).2
  unfold validate_derivation at hd
  rw [hc] at hd
  cases hx : secret.extract with
  | none =>
    rw [hx] at hd
    exact refuse_ok hd
  | some extract =>
    rw [hx] at hd
    cases hd

include h in
theorem of_stored {cn : TypeContract} (hs : secret.source = none) (hc : secret.typed_contract = some cn) :
    cn.is_stored ∧ secret.default = none ∧ secret.prompts = false := by
  obtain ⟨f, -, ht⟩ := bind_ok h.typed
  replace ht := rest_ok ht
  rw [hs, hc] at ht
  obtain ⟨hst, ht⟩ := bind_unit_ok ht
  obtain ⟨-, hr⟩ := bind_unit_ok ht
  have hn := refuse_ok hr
  simp only [Bool.or_eq_false_iff, Option.isSome_eq_false_iff, Option.isNone_iff_eq_none] at hn
  exact ⟨by simpa using refuse_ok hst, hn.1, hn.2⟩

end Semantics

end Secret

namespace CompiledSecret

/-- A policy has what it uses. -/
theorem new_missing (cf : Secret) (cn : Bool) :
    match (new cf cn).missing with
    | .Prompt => cf.prompts
    | .Generate => cf.would_generate
    | .UseDefault => cf.default.isSome
    | .Error | .Omit => True := by
  unfold new
  simp only
  by_cases hp : cf.prompts
  · simp [hp]
  · by_cases hg : cf.would_generate
    · simp [hp, hg]
    · by_cases hd : cf.default.isSome
      · simp [hp, hg, hd]
      · by_cases hr : cf.required.getD (cf.default.isNone && !cn)
        · simp [hp, hg, hd, hr]
        · simp [hp, hg, hd, hr]

end CompiledSecret

/-! ## One profile -/

variable {profile : CompiledProfile} {name : String}

theorem declared_of_valid {secret : CompiledSecret} (h : validate_dependencies profile name secret = .ok ())
    {d : String} (hd : d ∈ secret.dependencies) : ∃ other, profile.get d = some other :=
  ((validate_dependencies_ok.mp h).declared d (mem_dependencies.mp hd)).2

/-- An accepted profile. -/
structure AcceptedProfile (rules : Rules) (profile : CompiledProfile) : Prop where
  nodup : profile.names.Nodup
  compiled : ∀ name secret, profile.get name = some secret → ∃ conditional, secret = .new secret.config conditional
  semantics : ∀ name secret, profile.get name = some secret → secret.config.Semantics rules
  dependencies : ∀ name secret, profile.get name = some secret → validate_dependencies profile name secret = .ok ()
  acyclic : ∃ rank : String → Nat, ∀ name secret, profile.get name = some secret → ∀ d ∈ secret.dependencies, rank d < rank name

namespace AcceptedProfile

variable {profile : CompiledProfile} (h : AcceptedProfile rules profile) {name : String} {secret : CompiledSecret}
  (hg : profile.get name = some secret)

include h hg in
/-- Only a composed secret has a template. -/
theorem composition_isSome : secret.composition.isSome = secret.config.composed.isSome := by
  obtain ⟨cn, hn⟩ := h.compiled name secret hg
  rw [hn]
  show (secret.config.composed.bind fun sc => (Template.parse sc).toOption).isSome = secret.config.composed.isSome
  cases hc : secret.config.composed with
  | none => rfl
  | some cm =>
    obtain ⟨⟨t, hp⟩, -⟩ := (h.semantics name secret hg).of_composed hc
    rw [Option.bind_some, hp]
    rfl

include h hg in
theorem derived_bare (hd : secret.composition.isSome ∨ secret.config.source.isSome) : secret.config.Bare := by
  rcases hd with hc | hs
  · rw [h.composition_isSome hg] at hc
    obtain ⟨cm, hc⟩ := Option.isSome_iff_exists.mp hc
    exact ((h.semantics name secret hg).of_composed hc).2.1
  · obtain ⟨sc, hs⟩ := Option.isSome_iff_exists.mp hs
    exact ((h.semantics name secret hg).of_source hs).1

include h hg in
/-- A derived secret is never defaulted, generated or prompted. -/
theorem derived_missing (hd : secret.composition.isSome ∨ secret.config.source.isSome) :
    secret.missing = .Error ∨ secret.missing = .Omit := by
  obtain ⟨hf, hn, hp⟩ := h.derived_bare hg hd
  obtain ⟨cn, hw⟩ := h.compiled name secret hg
  have hs := CompiledSecret.new_missing secret.config cn
  rw [← hw] at hs
  cases hm : secret.missing with
  | Error => exact .inl rfl
  | Omit => exact .inr rfl
  | UseDefault => simp [hm, hf] at hs
  | Generate => simp [hm, hn] at hs
  | Prompt => simp [hm, hp] at hs

include h hg in
theorem dependency_declared {d : String} (hd : d ∈ secret.dependencies) : ∃ other, profile.get d = some other :=
  declared_of_valid (h.dependencies name secret hg) hd

include h hg in
/-- A conversion starts from a stored identity. -/
theorem converts_stored {sc : String} (hs : secret.config.source = some sc) {cn : TypeContract}
    (hc : secret.config.typed_contract = some cn) :
    ∃ other, profile.get sc = some other ∧ other.config.source = none ∧
      ∃ st, other.config.typed_contract = some st ∧ st.is_stored := by
  obtain ⟨-, hv⟩ := bind_unit_ok (h.dependencies name secret hg)
  obtain ⟨hr, -⟩ := bind_unit_ok hv
  obtain ⟨sr, hn, hf⟩ := bind_ok (Except.option_forM_ok hr hs)
  unfold dependency_config at hn
  cases hp : profile.get sc with
  | none =>
    rw [hp] at hn
    cases hn
  | some other =>
    rw [hp] at hn
    cases hn
    rw [hc] at hf
    have ha := refuse_ok hf
    simp only [Bool.not_eq_false'] at ha
    unfold TypeContract.accepts_source at ha
    cases ht : other.config.secret_type with
    | none =>
      rw [ht] at ha
      cases ha
    | some s =>
      rw [ht] at ha
      have hx509 := accepted_sources cn (Secret.typed_contract_some hc).1 s (by simpa using ha)
      subst hx509
      have hst : other.config.typed_contract = some ⟨X509_IDENTITY, [], [], ["password"], none, true⟩ := by
        unfold Secret.typed_contract
        rw [ht]
        decide
      refine ⟨other, rfl, ?_, _, hst, rfl⟩
      cases hfr : other.config.source with
      | none => rfl
      | some _ => exact absurd ((h.semantics sc other hp).source_not_stored hfr hst) (by decide)

end AcceptedProfile

/-! ## The dependency graph -/

section

variable {profile : CompiledProfile}

/-- A graph without a derived cycle has a rank that decreases along every dependency. -/
theorem graph_rank {done : List String} (h : (composition_nodes profile).foldlM (fun done name =>
    visit (composition_graph profile) (profile.secrets.length + 1) name [] done) [] = .ok done)
    (hc : ∀ name secret, profile.get name = some secret → ∀ d ∈ secret.dependencies, ∃ other, profile.get d = some other) :
    ∃ rank : String → Nat, ∀ name secret, profile.get name = some secret → ∀ d ∈ secret.dependencies, rank d < rank name := by
  have hl : profile.names.length < profile.secrets.length + 1 := by simp [CompiledProfile.names]
  have hou := @Search.search_all_outcome String _ (composition_graph profile) profile.names (composition_nodes profile) _
    (fun _ _ _ hb => graph_declared hb) (fun _ => composition_node_declared) hl
  have hm := visits_mirror (composition_graph profile) (profile.secrets.length + 1) (composition_nodes profile) []
  rw [h] at hm
  rw [show Search.search_all (composition_graph profile) (profile.secrets.length + 1) (composition_nodes profile) .empty =
    .ok ⟨[], done⟩ from hm] at hou
  -- A name with dependencies stands where the search finished it, any other below them all.
  refine ⟨fun name => if (profile.get name).any fun secret => !secret.dependencies.isEmpty then done.idxOf name + 1 else 0, ?_⟩
  intro name secret hg d hd
  have hn : secret.dependencies ≠ [] := List.ne_nil_of_mem hd
  have hnm : ((profile.get name).any fun secret => !secret.dependencies.isEmpty) := by simpa [hg] using hn
  simp only [if_pos hnm]
  obtain ⟨other, ho⟩ := hc name secret hg d hd
  by_cases hod : other.dependencies = []
  · have hf : ¬ ((profile.get d).any fun secret => !secret.dependencies.isEmpty) := by simp [ho, hod]
    rw [if_neg hf]
    exact Nat.succ_pos _
  · have hnd : ((profile.get d).any fun secret => !secret.dependencies.isEmpty) := by simpa [ho] using hod
    rw [if_pos hnd]
    have hr : name ∈ done := hou.reached name (mem_composition_nodes hg hn)
    have hw := (Search.idxOf_lt_of_topological hou.inv.nodup hou.inv.topological hr (graph_edge hg hd ho hod)).2
    exact Nat.succ_lt_succ hw

end

/-! ## An accepted configuration -/

variable {cf : Config} {spec : CompiledSpec}

theorem compile_profile_nodup (cf : Config) (p : String) (profile : Profile) :
    (compile_profile cf p profile).names.Nodup := by
  rw [compile_profile_names]
  exact sorted_set_nodup _

/-- Every profile of an accepted configuration is accepted. -/
theorem accepted_profile (h : cf.validate_and_compile rules = .ok spec) {p : String}
    (hp : spec.profile p = some profile) : AcceptedProfile rules profile := by
  have hl := validated h
  have hc := hl.checked p profile hp
  rw [hl.compiled, compile_lookup] at hp
  obtain ⟨r, -, rfl⟩ := Option.map_eq_some_iff.mp hp
  have hn := compile_profile_nodup cf p r
  obtain ⟨hf, hc⟩ := bind_unit_ok hc
  obtain ⟨-, hr⟩ := bind_unit_ok hc
  obtain ⟨hdp, hy⟩ := bind_unit_ok hr
  have hde : ∀ name secret, (compile_profile cf p r).get name = some secret →
      validate_dependencies (compile_profile cf p r) name secret = .ok () := by
    intro name secret hg
    exact Except.mapError_ok.mp (Except.forM_ok_iff.mp hdp _ (CompiledProfile.get_mem hg))
  refine ⟨hn, ?_, ?_, hde, ?_⟩
  · intro name secret hg
    obtain ⟨e, -, he⟩ := List.mem_map.mp (CompiledProfile.get_mem hg)
    cases he
    exact ⟨_, rfl⟩
  · intro name secret hg
    obtain ⟨-, hs⟩ := bind_unit_ok
      (Except.mapError_ok.mp (Except.forM_ok_iff.mp hf _ (CompiledProfile.get_mem hg)))
    exact Secret.semantics hs
  · cases hv : (composition_nodes (compile_profile cf p r)).foldlM (fun done name =>
        visit (composition_graph (compile_profile cf p r))
          ((compile_profile cf p r).secrets.length + 1) name [] done) [] with
    | ok done => exact graph_rank hv fun name secret hg _ hd => declared_of_valid (hde name secret hg) hd
    | error cy =>
      rw [hv] at hy
      cases hy

/-! ## Names -/

theorem validate_names_valid {f : Map String String} {e : List (String × Secret)}
    (h : Profile.validate_names rules f e = .ok ()) : ∀ en ∈ e, is_valid_identifier rules en.1 := by
  induction e generalizing f with
  | nil => exact fun _ hm => absurd hm List.not_mem_nil
  | cons en e ih =>
    obtain ⟨name, secret⟩ := en
    obtain ⟨hn, h⟩ := bind_unit_ok h
    replace h := rest_ok h
    replace h := rest_ok h
    exact List.forall_mem_cons.mpr ⟨by simpa using refuse_ok hn, ih h⟩

theorem raw_names_valid {profile : Profile} {cn : Bool}
    (h : profile.validate_raw rules cn = .ok ()) (hn : name ∈ profile.secrets) : is_valid_identifier rules name := by
  replace h := rest_ok h
  have hk : name ∈ profile.secrets.sorted.map Prod.fst := by
    rw [Table.sorted_keys]
    exact mem_sorted.mpr (AList.mem_keys.mpr hn)
  obtain ⟨e, he, rfl⟩ := List.mem_map.mp hk
  exact validate_names_valid h e he

/-- Every name of an accepted profile is an identifier, whether declared or inherited. -/
theorem accepted_names (h : cf.validate_and_compile rules = .ok spec) {p : String}
    (hp : spec.profile p = some profile) (hn : name ∈ profile.names) :
    is_valid_identifier rules name := by
  have ha := validated h
  rw [ha.compiled, compile_lookup] at hp
  obtain ⟨declared, hc, rfl⟩ := Option.map_eq_some_iff.mp hp
  rw [compile_profile_names, mem_effective_names] at hn
  rcases hn with hn | hn
  · exact (ha.raw _ _ hc).elim fun _ hr => raw_names_valid hr hn
  · unfold inherited_names at hn
    cases hd : inherited cf p declared with
    | none =>
      rw [hd] at hn
      exact absurd hn List.not_mem_nil
    | some default =>
      rw [hd] at hn
      unfold inherited at hd
      split at hd
      · exact (ha.raw _ _ hd).elim fun _ hr => raw_names_valid hr (AList.mem_keys.mp hn)
      · cases hd

theorem accepted_project (h : cf.validate_and_compile rules = .ok spec) : cf.project.name ≠ "" := by
  obtain ⟨hn, -⟩ := bind_unit_ok h
  intro he
  rw [he] at hn
  cases hn

end Monosecret.Manifest
