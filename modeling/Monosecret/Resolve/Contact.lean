/-
  Monosecret.Resolve.Contact — which providers a lookup may build.

  `contacted` reads them off the declarations: what the providers a secret names stand for,
  and the default provider. Builds that agree there give the same plan, the same answers and
  the same lookup (`lookup_congr`).
-/

import Monosecret.Resolve.Construct

namespace Monosecret.Resolve

open Lib Plan Cache

namespace Session

variable {Provider Identity : Type} (s : Session Provider Identity)

/-! ## What a lookup contacts -/

/-- What a named provider stands for: a cached alias's sources and its cache store. -/
def alias_specs (spec : Text) : List Text :=
  match s.secrets.cached_alias spec with
  | some entry =>
    (if entry.authoritative_uri.isSome then [spec] else entry.fallback) ++ (entry.cache.map ProviderCache.provider).toList
  | none => [spec]

/-- The providers a secret names, or the ones it falls back on without any. -/
def named_specs (explicit_spec : Option Text) (secret : CompiledSecret) : List Text :=
  match explicit_spec with
  | some spec => [spec]
  | none =>
    match (s.config secret).providers with
    | some (first :: fallback) => first :: fallback
    | _ => s.secrets.configured_default_provider_spec.toList

def routed_specs (explicit_spec : Option Text) (secret : CompiledSecret) : List Text :=
  (s.named_specs explicit_spec secret).flatMap s.alias_specs

def default_specs (explicit_spec : Option Text) : List Text :=
  (explicit_spec.or s.secrets.configured_default_provider_spec).toList

/-- Every provider that planning and resolving these names may build. -/
def contacted (explicit_spec : Option Text) (names : List Text) : List Text :=
  ((names.filterMap s.profile.get).filter fun secret => !secret.is_derived).flatMap (s.routed_specs explicit_spec) ++
    s.default_specs explicit_spec

variable {s} {explicit_spec : Option Text} {build build' : Text → Bool → Except MonosecretError Provider}

/-- A route names this spec: as its primary, a fallback or its cache. -/
inductive Names (route : Route) (spec : Text) : Prop
  | primary (key : group_key route = some spec)
  | fallback (mem : spec ∈ route.fallback)
  | cache (cache : ResolvedCache) (caches : route.cache = some cache) (eq : cache.spec = spec)

variable {route : Route} {spec : Text}

theorem cached_route_names {f : Text → Except MonosecretError Bool} {name : Text} {e : ProviderAlias}
    (ha : s.secrets.cached_alias name = some e)
    (h : ({ s.secrets with provider_supports_delete := f } : Secrets).cached_route name e = .ok route)
    (hn : Names route spec) : spec ∈ s.alias_specs name := by
  obtain ⟨cache, sr, u, cc, hx⟩ := Secrets.cached_route_ok h
  have hs := Secrets.cached_sources_map_fst hx.from_sources
  unfold alias_specs
  rw [ha]
  simp only [hx.policy, Option.map_some, Option.toList_some, ← hs, List.mem_append, List.mem_singleton]
  cases hn with
  | primary k =>
    left
    rw [group_key, hx.primary] at k
    cases sr with
    | nil => cases k
    | cons sc rs =>
      cases k
      exact .head _
  | fallback m =>
    left
    rw [hx.fallback] at m
    exact List.mem_of_mem_tail (List.map_tail ▸ m)
  | cache c' c eq =>
    right
    rw [hx.resolved] at c
    cases c
    exact eq.symm

theorem alias_specs_leaf (h : s.secrets.cached_alias spec = none) : s.alias_specs spec = [spec] := by
  unfold alias_specs
  rw [h]

/-- The route of a secret that names no provider. -/
theorem default_route_names {f : Text → Except MonosecretError Bool}
    (h : (match s.secrets.configured_default_provider_spec.bind fun spec => (s.secrets.cached_alias spec).map (spec, ·) with
      | some (spec, e) => ({ s.secrets with provider_supports_delete := f } : Secrets).cached_route spec e
      | none => .ok { primary := none, fallback := [], cache := none }) = .ok route) (hn : Names route spec) :
    spec ∈ s.secrets.configured_default_provider_spec.toList.flatMap s.alias_specs := by
  cases hb : s.secrets.configured_default_provider_spec.bind fun spec => (s.secrets.cached_alias spec).map (spec, ·) with
  | some named =>
    obtain ⟨named, e⟩ := named
    rw [hb] at h
    obtain ⟨default, hd, he⟩ := Option.bind_eq_some_iff.mp hb
    obtain ⟨found, hc, hq⟩ := Option.map_eq_some_iff.mp he
    cases hq
    rw [hd]
    exact List.mem_flatMap.mpr ⟨named, List.mem_singleton_self named, cached_route_names hc h hn⟩
  | none =>
    rw [hb] at h
    cases h
    rcases hn with k | mem | ⟨_, c, -⟩
    · cases k
    · cases mem
    · cases c

variable {secret : CompiledSecret}

/-- A planned route names what the secret's declaration stands for. -/
theorem plan_route_names (h : s.plan_route explicit_spec build secret = .ok route) (hn : Names route spec) :
    spec ∈ s.routed_specs explicit_spec secret := by
  replace h := Except.rest_ok h
  have hl : ∀ (first : Text) (rest : List Text) (u : Text), Names ⟨some ⟨first, u⟩, rest, none⟩ spec →
      spec = first ∨ spec ∈ rest := by
    rintro first rest u (k | mem | ⟨_, c, -⟩)
    · cases k
      exact .inl rfl
    · exact .inr mem
    · cases c
  have ha : ∀ name, ({ s.secrets with provider_supports_delete := s.provider_supports_delete build } : Secrets).cached_alias
      name = s.secrets.cached_alias name := fun _ => rfl
  unfold routed_specs named_specs
  unfold Secrets.route_for at h
  simp only [ha] at h
  cases explicit_spec with
  | some f =>
    simp only [List.flatMap_singleton] at h ⊢
    cases hc : s.secrets.cached_alias f with
    | some e =>
      rw [hc] at h
      exact cached_route_names hc h hn
    | none =>
      rw [hc] at h
      replace h := Except.rest_ok h
      cases h
      rw [alias_specs_leaf hc, List.mem_singleton]
      exact (hl f [] _ hn).resolve_right List.not_mem_nil
  | none =>
    simp only at h ⊢
    cases hp : (s.config secret).providers with
    | none =>
      rw [hp] at h
      exact default_route_names h hn
    | some named =>
      rw [hp] at h
      cases named with
      | nil => exact default_route_names h hn
      | cons first fallback =>
        simp only at h ⊢
        split at h
        · rename_i named hf
          split at h
          · cases h
          · split at h
            · rename_i e hc
              exact List.mem_flatMap.mpr ⟨named, List.mem_of_find?_eq_some hf, cached_route_names hc h hn⟩
            · cases h
        · rename_i hf
          obtain ⟨u, -, h⟩ := Except.bind_ok h
          replace h := Except.rest_ok h
          cases h
          have hm : spec ∈ first :: fallback := List.mem_cons.mpr (hl first fallback u hn)
          have hnn : s.secrets.cached_alias spec = none := by
            simpa using List.find?_eq_none.mp hf spec hm
          exact List.mem_flatMap.mpr ⟨spec, hm, by rw [alias_specs_leaf hnn]; exact List.mem_singleton_self spec⟩

/-- Builds that agree on these specs. -/
def AgreeAt (build build' : Text → Bool → Except MonosecretError Provider) (specs : List Text) : Prop :=
  ∀ spec ∈ specs, build spec = build' spec

theorem default_route_congr {f g : Text → ProviderAlias → Except MonosecretError Route}
    {route : Except MonosecretError Route} (h : ∀ spec, s.secrets.configured_default_provider_spec = some spec →
      ∀ e, s.secrets.cached_alias spec = some e → f spec e = g spec e) :
    (match s.secrets.configured_default_provider_spec.bind fun spec => (s.secrets.cached_alias spec).map (spec, ·) with
      | some (spec, e) => f spec e
      | none => route) =
    match s.secrets.configured_default_provider_spec.bind fun spec => (s.secrets.cached_alias spec).map (spec, ·) with
      | some (spec, e) => g spec e
      | none => route := by
  cases hb : s.secrets.configured_default_provider_spec.bind fun spec => (s.secrets.cached_alias spec).map (spec, ·) with
  | none => rfl
  | some named =>
    obtain ⟨named, e⟩ := named
    obtain ⟨spec, hd, he⟩ := Option.bind_eq_some_iff.mp hb
    obtain ⟨found, hc, hq⟩ := Option.map_eq_some_iff.mp he
    cases hq
    exact h named hd e hc

/-- Planning builds the cache stores of the aliases a secret names. -/
theorem plan_route_congr (h : AgreeAt build build' (s.routed_specs explicit_spec secret)) :
    s.plan_route explicit_spec build secret = s.plan_route explicit_spec build' secret := by
  have hcc : ∀ name ∈ s.named_specs explicit_spec secret, ∀ entry, s.secrets.cached_alias name = some entry →
      ({ s.secrets with provider_supports_delete := s.provider_supports_delete build } : Secrets).cached_route name entry =
        ({ s.secrets with provider_supports_delete := s.provider_supports_delete build' } : Secrets).cached_route name
          entry := by
    intro name hn entry ha
    refine Secrets.cached_route_congr fun c hc => ?_
    have hm : c.provider ∈ s.alias_specs name := by
      unfold alias_specs
      rw [ha]
      simp [hc]
    unfold provider_supports_delete
    rw [h c.provider (List.mem_flatMap.mpr ⟨name, hn, hm⟩)]
  have hl : ∀ build name, ({ s.secrets with provider_supports_delete := s.provider_supports_delete build } :
      Secrets).cached_alias name = s.secrets.cached_alias name := fun _ _ => rfl
  unfold plan_route
  congr 1
  funext _
  unfold named_specs at hcc
  unfold Secrets.route_for
  simp only [hl]
  cases explicit_spec with
  | some f =>
    simp only at hcc ⊢
    cases hc : s.secrets.cached_alias f with
    | some entry => exact hcc f (List.mem_singleton_self f) entry hc
    | none => rfl
  | none =>
    simp only at hcc ⊢
    cases hp : (s.config secret).providers with
    | none =>
      rw [hp] at hcc
      exact default_route_congr fun spec hd entry hc => hcc spec (Option.mem_toList.mpr hd) entry hc
    | some named =>
      rw [hp] at hcc
      cases named with
      | nil => exact default_route_congr fun spec hd entry hc => hcc spec (Option.mem_toList.mpr hd) entry hc
      | cons first fl =>
        simp only
        split
        · rename_i named hf
          split
          · rfl
          · split
            · rename_i entry hc
              exact hcc named (List.mem_of_find?_eq_some hf) entry hc
            · rfl
        · rfl

theorem default_provider_spec_mem {k : Option Text} (h : s.default_provider_spec explicit_spec k = .ok spec) :
    k = some spec ∨ spec ∈ s.default_specs explicit_spec := by
  unfold default_provider_spec at h
  unfold default_specs
  cases k with
  | some k =>
    cases h
    exact .inl rfl
  | none =>
    rw [Option.none_or] at h
    cases hd : explicit_spec.or s.secrets.configured_default_provider_spec with
    | none =>
      rw [hd] at h
      cases h
    | some default =>
      rw [hd] at h
      cases h
      exact .inr (List.mem_singleton_self _)

section

variable (h : AgreeAt build build' (s.default_specs explicit_spec))

include h in
theorem get_route_provider_congr {route : Route} (hr : ∀ spec, Names route spec → build spec = build' spec) :
    s.get_route_provider explicit_spec build (group_key route) =
      s.get_route_provider explicit_spec build' (group_key route) := by
  unfold get_route_provider
  cases hd : s.default_provider_spec explicit_spec (group_key route) with
  | error e => rfl
  | ok spec =>
    show build spec true = build' spec true
    rcases default_provider_spec_mem hd with hk | hm
    · rw [hr spec (.primary hk)]
    · rw [h spec hm]

include h in
theorem validation_report_congr (plan : ResolutionPlan) :
    s.validation_report_provider_uri explicit_spec build plan = s.validation_report_provider_uri explicit_spec build' plan := by
  unfold validation_report_provider_uri
  cases hd : s.default_provider_spec explicit_spec none with
  | error e => rfl
  | ok spec =>
    have hm := (default_provider_spec_mem hd).resolve_left (by simp)
    simp only [bind, Except.bind, h spec hm]

include h in
/-- Builds that agree on what a plan's routes name answer the plan alike. -/
theorem answers_same {p : ResolutionPlan}
    (hl : ∀ planned ∈ p.secrets, ∀ route, planned.route = some route → ∀ spec, Names route spec → build spec = build' spec)
    (rp : Except MonosecretError Text) :
    (s.answers explicit_spec build rp).Same p (s.answers explicit_spec build' rp) := by
  have ht : ∀ planned ∈ p.secrets, ∀ route, planned.route = some route →
      s.get_route_provider explicit_spec build (group_key route) =
        s.get_route_provider explicit_spec build' (group_key route) :=
    fun planned hp route hr => get_route_provider_congr h (hl planned hp route hr)
  have hw : ∀ planned ∈ p.secrets, s.write_provider explicit_spec build planned =
      s.write_provider explicit_spec build' planned := by
    intro planned hp
    unfold write_provider
    cases hr : planned.route with
    | none => rfl
    | some route => exact ht planned hp route hr
  constructor
  · intro planned hp
    show s.cached_found build planned = s.cached_found build' planned
    unfold cached_found
    cases hr : planned.route with
    | none => rfl
    | some route =>
      simp only [Option.bind_some]
      cases hc : route.cache with
      | none => rfl
      | some c => simp only [hl planned hp route hr c.spec (.cache c hc rfl)]
  · intro planned hp route hr
    exact congrArg (Except.map s.backend.uri) (ht planned hp route hr)
  · intro planned hp route hr
    simp only [answers, ht planned hp route hr]
  · intro planned hp route hr m _
    simp only [answers, ht planned hp route hr]
  · rfl
  · intro planned hp route hr spec hs
    simp only [answers, hl planned hp route hr spec (.fallback hs)]
  · intro planned hp route hr spec hs
    simp only [answers, hl planned hp route hr spec (.fallback hs)]
  · intro planned hp
    simp only [answers, hw planned hp]
  · intro planned hp
    simp only [answers, try_generate_secret, hw planned hp]
  · intro planned hp
    simp only [answers, generated_value_is_stored, hw planned hp]
  · rfl
  · rfl

end

/-! ## One lookup -/

variable {profile : CompiledProfile} {r : CompiledSecret → Except MonosecretError Route}

/-- A plan depends on the routes of its underived secrets. -/
theorem plan_secrets_congr {r' : CompiledSecret → Except MonosecretError Route} {names : List Text}
    (h : ∀ name ∈ names, ∀ secret, profile.get name = some secret → secret.is_derived = false →
      r secret = r' secret) : plan_secrets profile r names = plan_secrets profile r' names := by
  refine Except.mapM_congr fun name hn => ?_
  cases hg : profile.get name with
  | none => rfl
  | some secret =>
    unfold plan_one_secret
    by_cases hd : secret.is_derived
    · simp only [hd, dif_pos]
    · simp only [h name hn secret hg (Bool.eq_false_iff.mpr hd)]

theorem build_plan_congr {profile_name : Text} {r' : CompiledSecret → Except MonosecretError Route}
    {override_uri : Except MonosecretError (Option Text)} {names : ClosedNames profile}
    (h : plan_secrets profile r names.names = plan_secrets profile r' names.names) :
    build_plan_from_names profile_name profile r override_uri names =
      build_plan_from_names profile_name profile r' override_uri names := by
  unfold build_plan_from_names
  split
  · rename_i e he
    split
    · rename_i e' he'
      rw [h, he'] at he
      cases he
      rfl
    · rename_i sc hs
      rw [h, hs] at he
      cases he
  · rename_i sc hs
    split
    · rename_i e he
      rw [← h, hs] at he
      cases he
    · rename_i s' hs'
      rw [h, hs'] at hs
      cases hs
      rfl

variable {planned : PlannedSecret}

theorem plan_one_secret_routed (h : plan_one_secret r secret = .ok planned) (hr : planned.route = some route) :
    planned.secret.is_derived = false ∧ r planned.secret = .ok route := by
  unfold plan_one_secret at h
  by_cases hd : secret.is_derived
  · rw [dif_pos hd] at h
    cases h
    cases hr
  · rw [dif_neg hd] at h
    cases ht : r secret with
    | error e =>
      rw [ht] at h
      cases h
    | ok r' =>
      rw [ht] at h
      cases h
      cases hr
      exact ⟨Bool.eq_false_iff.mpr hd, ht⟩

/-- The routes of a plan, as planned. -/
theorem planned_route {p : Text} {o : Except MonosecretError (Option Text)}
    {names : ClosedNames profile} {pl : ResolutionPlan}
    (h : build_plan_from_names p profile r o names = .ok pl) (hp : planned ∈ pl.secrets)
    (hr : planned.route = some route) : planned.secret.is_derived = false ∧ r planned.secret = .ok route := by
  have hc : plan_secrets profile r names.names = .ok pl.secrets := by
    unfold build_plan_from_names at h
    split at h
    · cases h
    · rename_i sc hs
      cases o with
      | error e => cases h
      | ok uri =>
        cases h
        exact hs
  obtain ⟨name, -, ho⟩ := Except.mapM_ok_mem hc hp
  cases hg : profile.get name with
  | none =>
    rw [hg] at ho
    cases ho
  | some secret =>
    rw [hg] at ho
    exact plan_one_secret_routed ho hr

/-- What the routes of a plan name is contacted. -/
theorem plan_contacts {names : ClosedNames s.profile} {p : ResolutionPlan}
    (h : build_plan_from_names s.profile_name s.profile (s.plan_route explicit_spec build)
      (s.manager explicit_spec build).override_uri names = .ok p) (hp : planned ∈ p.secrets)
    (hr : planned.route = some route) (hn : Names route spec) : spec ∈ s.contacted explicit_spec names.names := by
  obtain ⟨hd, ht⟩ := planned_route h hp hr
  obtain ⟨hm, -, hg⟩ := build_plan_ok h
  refine List.mem_append_left _ (List.mem_flatMap.mpr ⟨planned.secret, ?_, plan_route_names ht hn⟩)
  exact List.mem_filter.mpr ⟨List.mem_filterMap.mpr ⟨planned.name, hm ▸ List.mem_map_of_mem hp, hg planned hp⟩,
    by rw [hd]; rfl⟩

section

variable {name : Text} (h : AgreeAt build build' (s.contacted none (s.profile.accessed_names [name])))

include h in
theorem named_plan_congr : (s.manager none build).named_plan name = (s.manager none build').named_plan name := by
  unfold Manager.named_plan
  by_cases hn : name ∈ s.profile.names
  · have hn₁ : name ∈ (s.manager none build).profile.names := hn
    have hn₂ : name ∈ (s.manager none build').profile.names := hn
    rw [dif_pos hn₁, dif_pos hn₂]
    refine build_plan_congr (plan_secrets_congr fun other ho secret hg hd => ?_)
    refine plan_route_congr fun spec hs => h spec (List.mem_append_left _ (List.mem_flatMap.mpr ⟨secret, ?_, hs⟩))
    exact List.mem_filter.mpr ⟨List.mem_filterMap.mpr ⟨other, ho, hg⟩, by rw [hd]; rfl⟩
  · have hn₁ : name ∉ (s.manager none build).profile.names := hn
    have hn₂ : name ∉ (s.manager none build').profile.names := hn
    rw [dif_neg hn₁, dif_neg hn₂]

include h in
/-- A lookup depends on the builds of what it contacts only. -/
theorem lookup_congr : s.lookup build name = s.lookup build' name := by
  have hd : AgreeAt build build' (s.default_specs none) := fun spec hs => h spec (List.mem_append_right _ hs)
  have hl : resolve_planned (fun _ value => Except.ok value)
      (s.answers none build ((s.manager none build).named_plan name >>= s.validation_report_provider_uri none build))
      (s.manager none build) .Values name =
      resolve_planned (fun _ value => Except.ok value)
      (s.answers none build' ((s.manager none build').named_plan name >>= s.validation_report_provider_uri none build'))
      (s.manager none build') .Values name := by
    have hrr : s.validation_report_provider_uri none build = s.validation_report_provider_uri none build' :=
      funext (validation_report_congr hd)
    rw [hrr]
    cases hpn : (s.manager none build').named_plan name with
    | error e =>
      unfold resolve_planned
      rw [named_plan_congr h, hpn]
      rfl
    | ok p =>
      have hp' := (named_plan_congr h).trans hpn
      rw [resolve_planned_eq hpn, resolve_planned_eq hp', hp']
      have hm : ∀ planned ∈ p.secrets, ∀ route, planned.route = some route → ∀ spec, Names route spec →
          build spec = build' spec := by
        intro planned hp route hr spec hn
        unfold Manager.named_plan at hpn
        by_cases hmm : name ∈ (s.manager none build').profile.names
        · rw [dif_pos hmm] at hpn
          exact h spec (plan_contacts hpn hp hr hn)
        · rw [dif_neg hmm] at hpn
          cases hpn
      rw [(answers_same hd hm _).execute_plan]
      rfl
  unfold lookup resolve_named_owned_within
  simp only [hl]
  rfl

end

end Session

end Monosecret.Resolve
