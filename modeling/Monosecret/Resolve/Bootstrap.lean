/-
  Monosecret.Resolve.Bootstrap — what building a provider enters.

  The bootstrap graph leads from a provider to its `depends_on` secrets and from a secret to
  the providers a lookup of it may build. The constructions inside a construction are paths
  of it from the outermost provider (`Entered`), and nothing else decides its result. A path
  enters no provider twice, so it is no longer than the declarations; the construction that
  would enter one again fails with the path, whose end is a cycle (`provider_construction`).
  The outermost construction need not fail: a lookup in between may have a fallback
  (`a_cycle_is_survived`).
-/

import Mathlib.Data.List.Chain
import Monosecret.Resolve.Contact

namespace Monosecret.Resolve

open Lib Plan Cache

namespace Session

variable {Provider Identity : Type} (s : Session Provider Identity)

/-! ## The bootstrap graph -/

/-- What looking one secret up may build. -/
def looked_up (name : Text) : List Text := s.contacted none (s.profile.accessed_names [name])

inductive Edge : ChainEntry → ChainEntry → Prop
  | bootstrap {spec : Text} (dependency : ProviderDependency) (declared : dependency ∈ s.depends_on spec) :
    Edge (.Provider spec) (.Secret dependency.secret)
  | contact {name spec : Text} (contact : spec ∈ s.looked_up name) : Edge (.Secret name) (.Provider spec)

/-- The constructions inside the one of `root`, each with its chain. -/
inductive Entered (root : Text) : List ChainEntry → Text → Prop
  | root : Entered root [] root
  | nested {chain : List ChainEntry} {spec : Text} (outer : Entered root chain spec) (fresh : .Provider spec ∉ chain)
    (dependency : ProviderDependency) (declared : dependency ∈ s.depends_on spec) (inner : Text)
    (contact : inner ∈ s.looked_up dependency.secret) :
    Entered root (chain ++ [.Provider spec, .Secret dependency.secret]) inner

/-- A chain comes back to where it starts. -/
structure IsCycle (cycle : List ChainEntry) : Prop where
  edges : cycle.IsChain s.Edge
  long : 1 < cycle.length
  closed : cycle.head? = cycle.getLast?

variable {s} {root : Text} {chain : List ChainEntry} {spec : Text}

section

variable (h : s.Entered root chain spec)

include h

theorem entered_path : (chain ++ [ChainEntry.Provider spec]).IsChain s.Edge := by
  induction h with
  | root => exact .singleton _
  | @nested chain spec outer fresh dependency declared inner contact ih =>
    have he : [ChainEntry.Provider spec, .Secret dependency.secret, .Provider inner].IsChain s.Edge :=
      .cons_cons (.bootstrap dependency declared) (.cons_cons (.contact contact) (.singleton _))
    have ha := List.IsChain.append_overlap ih he (by simp)
    simpa using ha

/-- No provider is entered twice, and every one that encloses another declares dependencies. -/
theorem entered_once : (chain.filterMap ChainEntry.provider).Nodup ∧
      ∀ o ∈ chain.filterMap ChainEntry.provider, o ∈ s.providers.map Prod.fst := by
  induction h with
  | root => exact ⟨List.nodup_nil, fun _ h => absurd h List.not_mem_nil⟩
  | @nested chain spec o fresh dependency declared inner contact ih =>
    have hp : (chain ++ [ChainEntry.Provider spec, .Secret dependency.secret]).filterMap ChainEntry.provider =
        chain.filterMap ChainEntry.provider ++ [spec] := by
      rw [List.filterMap_append]
      rfl
    have hf : spec ∉ chain.filterMap ChainEntry.provider := by
      intro hm
      obtain ⟨e, he, hs⟩ := List.mem_filterMap.mp hm
      cases e with
      | Provider other =>
        cases hs
        exact fresh he
      | Secret n => cases hs
    rw [hp]
    constructor
    · exact List.nodup_append.mpr ⟨ih.1, List.nodup_singleton spec, by
        intro a ha b hb hab
        rw [List.mem_singleton] at hb
        exact hf (hb ▸ hab ▸ ha)⟩
    · intro other hm
      rcases List.mem_append.mp hm with hm | hm
      · exact ih.2 other hm
      · rw [List.mem_singleton.mp hm]
        exact declared_of_dependency declared

theorem entered_length : (chain.filterMap ChainEntry.provider).length ≤ s.providers.length := by
  obtain ⟨hn, hd⟩ := entered_once h
  have hl := (hn.subperm hd).length_le
  rwa [List.length_map] at hl

/-- Where a path comes back to a provider, its end is a cycle. -/
theorem entered_cycle (ha : .Provider spec ∈ chain) :
    ∃ l cycle, chain ++ [.Provider spec] = l ++ cycle ∧ cycle.head? = some (.Provider spec) ∧ s.IsCycle cycle := by
  obtain ⟨l, r, hs⟩ := List.append_of_mem ha
  have he : chain ++ [.Provider spec] = l ++ (.Provider spec :: r ++ [.Provider spec]) := by
    rw [hs, List.append_assoc]
  refine ⟨l, .Provider spec :: r ++ [.Provider spec], he, rfl, ?_, by simp, by rw [List.getLast?_concat]; rfl⟩
  have hp := entered_path h
  rw [he] at hp
  exact hp.right_of_append

end

/-! ## Construction -/

/-- Builds that agree on what is entered below a construction build it alike. -/
theorem build_step_congr {f g : Build Provider} {c : Construction}
    (h : .Provider c.spec ∉ c.chain → ∀ d ∈ s.depends_on c.spec, ∀ i ∈ s.looked_up d.secret,
      ∀ a, f ⟨c.chain ++ [.Provider c.spec, .Secret d.secret], i, a⟩ =
        g ⟨c.chain ++ [.Provider c.spec, .Secret d.secret], i, a⟩) :
    s.build_step f c = s.build_step g c := by
  unfold build_step
  by_cases he : .Provider c.spec ∈ c.chain
  · rw [if_pos he, if_pos he]
  · rw [if_neg he, if_neg he]
    have hd : (s.depends_on c.spec).mapM (s.resolve_dependency f (c.chain ++ [.Provider c.spec]) c.spec) =
        (s.depends_on c.spec).mapM (s.resolve_dependency g (c.chain ++ [.Provider c.spec]) c.spec) := by
      refine Except.mapM_congr fun d hn => ?_
      have hl : s.lookup (nested f (c.chain ++ [.Provider c.spec] ++ [.Secret d.secret])) d.secret =
          s.lookup (nested g (c.chain ++ [.Provider c.spec] ++ [.Secret d.secret])) d.secret := by
        refine lookup_congr fun i hi => funext fun a => ?_
        unfold nested
        rw [List.append_assoc]
        exact h he d hn i hi a
      unfold resolve_dependency resolve_named_bytes
      rw [hl]
    rw [hd]

theorem build_entered {c : Construction} (h : .Provider c.spec ∈ c.chain) :
    s.build_provider_for_use c = .error (cycle_error c.chain c.spec) := by
  rw [build_provider_for_use_eq]
  exact if_pos h

theorem build_fresh {c : Construction} (h : .Provider c.spec ∉ c.chain) :
    s.build_provider_for_use c = (do
      let provider ← s.build_leaf c.spec c.allow_inline_cached
      let dependencies ← (s.depends_on c.spec).mapM
        (s.resolve_dependency s.build_provider_for_use (c.chain ++ [.Provider c.spec]) c.spec)
      s.registry.configure_dependency_secrets provider dependencies) := by
  rw [build_provider_for_use_eq]
  exact if_neg h

/-- A construction is decided by the recursion on what it enters. -/
theorem build_unique {b : Build Provider}
    (hb : ∀ chain spec a, s.Entered root chain spec →
      b ⟨chain, spec, a⟩ = s.build_step b ⟨chain, spec, a⟩)
    (h : s.Entered root chain spec) (a : Bool) :
    b ⟨chain, spec, a⟩ = s.build_provider_for_use ⟨chain, spec, a⟩ := by
  generalize hn : s.size ⟨chain, spec, a⟩ = n
  induction n using Nat.strong_induction_on generalizing chain spec a with
  | _ n ih =>
    rw [hb chain spec a h, build_provider_for_use_eq]
    refine build_step_congr fun hf d hd i hi al => ?_
    refine ih _ ?_ (.nested h hf d hd i hi) al rfl
    rw [← hn]
    exact size_nested hf (declared_of_dependency hd) _ _ _

end Session

/-- Building a provider comes to an end: its result is decided by the recursion on the
    constructions it enters, and no fuel beyond the number of declarations changes it. On the
    way no provider is entered twice; a construction that would is refused, and its error
    names a path whose end is a cycle. -/
theorem provider_construction {Provider Identity : Type} (s : Session Provider Identity) (root : Text) :
    (∀ overflow fuel c, s.providers.length < fuel →
      Descent.run s.build_step overflow fuel c = s.build_provider_for_use c) ∧
    (∀ build : Build Provider, (∀ chain spec allow_inline_cached, s.Entered root chain spec →
        build ⟨chain, spec, allow_inline_cached⟩ = s.build_step build ⟨chain, spec, allow_inline_cached⟩) →
      ∀ allow_inline_cached, build ⟨[], root, allow_inline_cached⟩ =
        s.build_provider_for_use ⟨[], root, allow_inline_cached⟩) ∧
    ∀ chain spec, s.Entered root chain spec →
      (chain.filterMap ChainEntry.provider).Nodup ∧
      (chain.filterMap ChainEntry.provider).length ≤ s.providers.length ∧
      (.Provider spec ∈ chain →
        (∀ allow_inline_cached, s.build_provider_for_use ⟨chain, spec, allow_inline_cached⟩ =
          .error (Session.cycle_error chain spec)) ∧
        ∃ lead cycle, chain ++ [.Provider spec] = lead ++ cycle ∧ cycle.head? = some (.Provider spec) ∧ s.IsCycle cycle) := by
  refine ⟨fun overflow fuel c h => Session.build_provider_for_use_enough overflow h c, ?_, ?_⟩
  · intro build hb allow_inline_cached
    exact Session.build_unique hb .root allow_inline_cached
  · intro chain spec h
    refine ⟨(Session.entered_once h).1, Session.entered_length h, fun ha => ⟨?_, Session.entered_cycle h ha⟩⟩
    exact fun allow_inline_cached => Session.build_entered ha

namespace Sample

def ring : List Text := [Text.of "S1", Text.of "S2"]

def ring_secret (name : Text) : CompiledSecret := stored name .Error must

def ring_profile : CompiledProfile where
  secrets := ring.map ring_secret
  at_least_one := []
  exactly_one := []
  nodup := by decide
  closed := by decide
  acyclic := ⟨fun _ => 0, by decide⟩
  grouped := by simp

/-- S1 is read from B and then C, S2 from A. -/
def ring_route (secret : CompiledSecret) : List Text :=
  if secret.name = Text.of "S1" then [Text.of "B", Text.of "C"] else [Text.of "A"]

def plain_secrets : Secrets where
  lookup_provider_alias_entry _ := none
  known_provider_aliases := []
  configured_default_provider_spec := none
  spec_names_known_provider _ := .ok true
  validate_credential_sources _ := .ok ()
  canonical_storage_identity := .ok
  canonical_provider_uri := .ok
  provider_supports_delete _ := .ok true
  provider_encrypts_at_rest _ := true
  redact_uri_strict := Text.text
  deleting_provider_names := []
  encrypted_provider_names := []

/-- Providers that are their specs. -/
def plain_registry : Registry Text where
  spec_uses_dynamic_credentials _ := .ok false
  provider_from_spec spec _ := .ok spec
  external_provider_from_spec spec _ := .ok spec
  get_credential _ _ _ := .ok none
  location _ _ := ""
  configure_dependency_secrets provider _ := .ok provider
  delete_capability _ := some true
  supports_delete _ := true
  redact_uri_strict := id
  override_display_uri := .ok

/-- Every store answers every secret with the same byte. -/
def plain_backend : Backend Text Unit where
  uri := id
  cached_entry _ _ := none
  resolve_coords _ _ _ := .ok ()
  get_many _ _ _ := .ok fun _ => some ⟨[1], none, none⟩
  get_with_metadata _ _ _ := .ok (some ⟨[1], none, none⟩)
  try_prompt _ _ := .error (.Other "no terminal")
  generate _ := .ok (.Text [103])
  generated_binary _ _ _ h := by cases h
  generated_value_persistence _ := .Persist
  save_generated _ _ _ := .ok ()
  ambient := answers (.ok fun _ => none) fun _ => .ok none

/-- A needs S1 and B needs S2. -/
def ring_session : Session Text Unit where
  secrets := plain_secrets
  providers := [(Text.of "A", [⟨Text.of "S1", none⟩]), (Text.of "B", [⟨Text.of "S2", none⟩])]
  credentials _ := []
  registry := plain_registry
  backend := plain_backend
  profile_name := Text.of "default"
  profile := ring_profile
  config secret := ⟨secret.name, some (ring_route secret), none, none⟩
  validate_scoped_refs _ := .ok ()
  ensure_reason := .ok ()
  visible := .ok ring
  declared := by
    rintro _ ⟨⟩
    decide

/-- B cannot be built. -/
def without_b (error : MonosecretError) (spec : Text) (_ : Bool) : Except MonosecretError Text :=
  if spec = Text.of "B" then .error error else .ok spec

def ring_plan (name : Text) (providers : List Text) (first : Text) : ResolutionPlan :=
  plan_of ⟨ring_secret name, some ⟨some ⟨first, first⟩, providers, none⟩, rfl⟩ rfl

theorem accessed_alone {n : Text} (h : n = Text.of "S1" ∨ n = Text.of "S2") :
    ring_profile.accessed_names [n] = [n] := by
  rcases h with rfl | rfl
  all_goals exact List.mergeSort_of_pairwise (by decide)

theorem ring_planned (b : Text → Bool → Except MonosecretError Text) {n : Text}
    (h : n = Text.of "S1" ∨ n = Text.of "S2") {plan : ResolutionPlan} (hp : plan.profile = Text.of "default")
    (hu : plan.override_uri = none)
    (hl : plan_secrets ring_profile (ring_session.plan_route none b) [n] = .ok plan.secrets) :
    (ring_session.manager none b).named_plan n = .ok plan := by
  unfold Manager.named_plan
  have hn : n ∈ (ring_session.manager none b).profile.names := by
    show n ∈ ring
    rcases h with rfl | rfl
    · decide
    · decide
  rw [dif_pos hn]
  have hm : plan_secrets ring_profile (ring_session.plan_route none b) (ring_profile.accessed_names [n]) =
      .ok plan.secrets := by
    rw [accessed_alone h]
    exact hl
  have hb := @build_plan_eq (ring_session.plan_route none b) ring_profile plan (Selection.named n hn).names hm
  rw [hp, hu] at hb
  exact hb

/-- S1 has a fallback beside B. -/
theorem s1_found (error : MonosecretError) :
    ∃ p, ring_session.lookup (without_b error) (Text.of "S1") = .ok (.Value [1] p) := by
  have hp : (ring_session.manager none (without_b error)).named_plan (Text.of "S1") =
      .ok (ring_plan (Text.of "S1") [Text.of "C"] (Text.of "B")) := ring_planned _ (.inl rfl) rfl rfl rfl
  rw [Session.lookup_eq ring_session rfl rfl (show Text.of "S1" ∈ ring by decide) hp]
  exact ⟨_, rfl⟩

/-- S2 has none beside A. -/
theorem s2_lost (error : MonosecretError) :
    ring_session.lookup (fun _ _ => .error error) (Text.of "S2") = .error (.failed error) := by
  have hp : (ring_session.manager none fun _ _ => .error error).named_plan (Text.of "S2") =
      .ok (ring_plan (Text.of "S2") [] (Text.of "A")) := ring_planned _ (.inr rfl) rfl rfl rfl
  rw [Session.lookup_eq ring_session rfl rfl (show Text.of "S2" ∈ ring by decide) hp]
  rfl

theorem s1_contacts : ring_session.looked_up (Text.of "S1") = [Text.of "B", Text.of "C"] := by
  unfold Session.looked_up
  rw [show ring_session.profile = ring_profile from rfl, accessed_alone (.inl rfl)]
  rfl

theorem s2_contacts : ring_session.looked_up (Text.of "S2") = [Text.of "A"] := by
  unfold Session.looked_up
  rw [show ring_session.profile = ring_profile from rfl, accessed_alone (.inr rfl)]
  rfl

def lead : List ChainEntry := [.Provider (Text.of "A"), .Secret (Text.of "S1")]

def around : List ChainEntry := lead ++ [.Provider (Text.of "B"), .Secret (Text.of "S2")]

theorem ring_entered : ring_session.Entered (Text.of "A") around (Text.of "A") := by
  have hl : ring_session.Entered (Text.of "A") lead (Text.of "B") :=
    .nested .root (by decide) ⟨Text.of "S1", none⟩ (by decide) _ (by rw [s1_contacts]; decide)
  exact .nested hl (by decide) ⟨Text.of "S2", none⟩ (by decide) _ (by rw [s2_contacts]; decide)

/-- What a construction with one dependency comes to. -/
theorem ring_built {chain : List ChainEntry} {spec n : Text} (hf : ChainEntry.Provider spec ∉ chain)
    (hd : ring_session.depends_on spec = [⟨n, none⟩]) (a : Bool)
    {found : Except LookupError (NamedResolution SecretBytes)}
    (hn : ring_session.lookup (Session.nested ring_session.build_provider_for_use
      (chain ++ [.Provider spec] ++ [.Secret n])) n = found) :
    (∀ e, found = .error e → ring_session.build_provider_for_use ⟨chain, spec, a⟩ = .error e.error) ∧
    ∀ v p, found = .ok (.Value v p) → ring_session.build_provider_for_use ⟨chain, spec, a⟩ = .ok spec := by
  have hl : ring_session.build_leaf spec a = .ok spec := rfl
  rw [Session.build_fresh (c := ⟨chain, spec, a⟩) hf]
  simp only [hl, hd, List.mapM_cons]
  unfold Session.resolve_dependency Session.resolve_named_bytes
  rw [hn]
  constructor
  · rintro e rfl
    rfl
  · rintro v p rfl
    rfl

/-- Inside A, B fails with the cycle. -/
theorem b_refused (a : Bool) :
    ring_session.build_provider_for_use ⟨lead, Text.of "B", a⟩ =
      .error (Session.cycle_error around (Text.of "A")) := by
  have hl : ring_session.lookup (Session.nested ring_session.build_provider_for_use around) (Text.of "S2") =
      .error (.failed (Session.cycle_error around (Text.of "A"))) := by
    rw [← s2_lost]
    refine Session.lookup_congr fun spec hs => funext fun al => ?_
    have hs' : spec ∈ ring_session.looked_up (Text.of "S2") := hs
    rw [s2_contacts, List.mem_singleton] at hs'
    rw [hs']
    have ha : ChainEntry.Provider (Text.of "A") ∈ around := by decide
    exact Session.build_entered (c := ⟨around, Text.of "A", al⟩) ha
  have hf : ChainEntry.Provider (Text.of "B") ∉ lead := by decide
  exact (ring_built hf rfl a hl).1 _ rfl

/-- A is built with what the fallback holds. -/
theorem a_built (a : Bool) :
    ring_session.build_provider_for_use ⟨[], Text.of "A", a⟩ = .ok (Text.of "A") := by
  have hl : ring_session.lookup (Session.nested ring_session.build_provider_for_use lead) (Text.of "S1") =
      ring_session.lookup (without_b (Session.cycle_error around (Text.of "A"))) (Text.of "S1") := by
    refine Session.lookup_congr fun spec hs => funext fun al => ?_
    have hs' : spec ∈ ring_session.looked_up (Text.of "S1") := hs
    rw [s1_contacts] at hs'
    rcases List.mem_pair.mp hs' with rfl | rfl
    · exact b_refused al
    · have hf : ChainEntry.Provider (Text.of "C") ∉ lead := by decide
      exact Session.build_fresh (c := ⟨lead, Text.of "C", al⟩) hf
  obtain ⟨p, hn⟩ := s1_found (Session.cycle_error around (Text.of "A"))
  exact (ring_built List.not_mem_nil rfl a (hl.trans hn)).2 _ _ rfl

end Sample

open Sample in
/-- A needs a secret whose lookup builds B, and B one whose lookup builds A. The lookup passes
    over B to its fallback, and A is built. -/
theorem a_cycle_is_survived :
    (∃ cycle, cycle.head? = some (.Provider (Text.of "A")) ∧ ring_session.IsCycle cycle) ∧
      ring_session.build_provider_for_use ⟨[], Text.of "A", true⟩ = .ok (Text.of "A") := by
  obtain ⟨_, cycle, -, hd, hc⟩ := Session.entered_cycle ring_entered (by decide)
  exact ⟨⟨cycle, hd, hc⟩, a_built true⟩

end Monosecret.Resolve
