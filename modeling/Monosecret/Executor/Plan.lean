/-
  Monosecret.Executor.Plan — the plan of a resolution over compiled declarations
  (`monosecret/src/plan.rs`).

  Names and declarations are the manifest's own here, so that a plan can be followed from
  what validation accepted. A plan covers the whole profile or the dependency closure of
  what is visible (`Selection`): either way it holds declared secrets, each once, with
  everything they depend on (`Planned`).
-/

import Monosecret.Lib.Panic
import Monosecret.Manifest.Accepted
import Monosecret.Plan.Route

namespace Monosecret.Executor

open Lib Manifest
open Plan (MonosecretError Route ResolvedPrimary ResolvedCache)

structure PlannedSecret where
  name : String
  secret : CompiledSecret
  route : Option Route

namespace PlannedSecret

variable (planned : PlannedSecret)

abbrev config : Secret := planned.secret.config

def required : Bool := planned.secret.declared_required

def as_path : Bool := planned.config.as_path.getD false

def encoding : Option SecretEncoding := planned.config.effective_encoding

def extract : Option SecretExtract := planned.config.extract

def is_composed : Bool := planned.secret.composition.isSome

def source : Option String := planned.config.source

def is_derived : Bool := planned.is_composed || planned.source.isSome

def is_typed_stored : Bool := planned.source.isNone && planned.config.typed_contract.any TypeContract.is_stored

def dependencies : List String := planned.secret.dependencies

def credential (role : String) : Option String :=
  (planned.config.credential_secrets.find? fun binding => binding.1 = role).map Prod.snd

variable {planned} in
theorem mem_dependencies {source : String} (h : planned.source = some source) : source ∈ planned.dependencies := by
  unfold dependencies CompiledSecret.dependencies
  refine List.mem_append_left _ (List.mem_append_right _ ?_)
  rw [show planned.secret.config.source = some source from h]
  exact List.mem_singleton_self source

end PlannedSecret

structure ResolutionPlan where
  profile : String
  override_uri : Option String
  secrets : List PlannedSecret

/-- `Route::group_key`: none for the default provider. -/
def group_key (route : Route) : Option Lib.Text := route.primary.map ResolvedPrimary.spec

/-- None when only one store is consulted. -/
def fallback_specs (route : Route) : Option (List Lib.Text) := if route.fallback.isEmpty then none else some route.fallback

namespace ResolutionPlan

variable (plan : ResolutionPlan)

/-- Primary-store groups in first-seen order. -/
def groups : List (Option Lib.Text × List PlannedSecret) :=
  (plan.secrets.filterMap fun planned => planned.route.map group_key).eraseDups.map fun key =>
    (key, plan.secrets.filter fun planned => planned.route.map group_key = some key)

/-- One group for each cache store, by its spec. -/
def cache_groups : List (Lib.Text × List PlannedSecret) :=
  ((plan.secrets.filterMap fun planned => (planned.route.bind Route.cache).map ResolvedCache.spec).eraseDups.mergeSort
      fun a b => decide (a.text ≤ b.text)).map fun spec =>
    (spec, plan.secrets.filter fun planned => (planned.route.bind Route.cache).map ResolvedCache.spec = some spec)

def find (name : String) : Option PlannedSecret := plan.secrets.find? fun planned => planned.name = name

end ResolutionPlan

/-! ## Planning -/

/-- What planning one secret asks: its addresses, its route, and whether its cache entry is
    its own source. -/
structure Planner where
  validate_scoped_refs : String → Secret → Except MonosecretError Unit
  route_for : Secret → Except MonosecretError Route
  refuse_cache_overlapping_source : PlannedSecret → Except MonosecretError Unit
  override_uri : Except MonosecretError (Option String)

section

variable (planner : Planner)

/-- A derived secret routes to no store. -/
def plan_one_secret (name : String) (secret : CompiledSecret) : Attempt MonosecretError PlannedSecret := do
  Attempt.call (planner.validate_scoped_refs name secret.config)
  let route ←
    if secret.composition.isSome || secret.config.source.isSome then .ok none
    else (Attempt.call (planner.route_for secret.config)).map some
  let planned : PlannedSecret := ⟨name, secret, route⟩
  Attempt.call (planner.refuse_cache_overlapping_source planned)
  .ok planned

def plan_named (profile : CompiledProfile) (name : String) : Attempt MonosecretError PlannedSecret := do
  let secret ← Attempt.expect "planned names come from the compiled profile" (profile.get name)
  plan_one_secret planner name secret

def build_plan_from_names (spec : CompiledSpec) (profile_name : String) (names : List String) :
    Attempt MonosecretError ResolutionPlan := do
  let profile ← Attempt.expect "profile names are validated before planning" (spec.profile profile_name)
  let secrets ← names.mapM (plan_named planner profile)
  let override_uri ← Attempt.call planner.override_uri
  .ok ⟨profile_name, override_uri, secrets⟩

end

/-! ## What a plan covers -/

def dependencies_of (profile : CompiledProfile) (name : String) : List String :=
  ((profile.get name).map CompiledSecret.dependencies).getD []

/-- The visible names and everything they transitively depend on. -/
def accessed_names (profile : CompiledProfile) (visible : List String) : List String :=
  sorted (Walk.visit_all (dependencies_of profile) ((visible ++ profile.names).length + 1) visible .empty).visited

/-- The whole profile, or the closure of the names a scope or a lookup makes visible. -/
inductive Selection (profile : CompiledProfile) where
  | whole
  | closure (visible : List String) (declared : ∀ name ∈ visible, name ∈ profile.names)

def Selection.names {profile : CompiledProfile} : Selection profile → List String
  | .whole => profile.names
  | .closure visible _ => accessed_names profile visible

section

variable {rules : Rules} {profile : CompiledProfile} (h : AcceptedProfile rules profile)

include h in
theorem dependencies_declared {n d : String} (hd : d ∈ dependencies_of profile n) : d ∈ profile.names := by
  unfold dependencies_of at hd
  cases hg : profile.get n with
  | none =>
    rw [hg] at hd
    cases hd
  | some s =>
    rw [hg] at hd
    obtain ⟨other, ho⟩ := h.dependency_declared hg hd
    exact CompiledProfile.get_isSome.mp (by rw [ho]; rfl)

include h in
theorem universe_closed (v : List String) :
    ∀ a ∈ v ++ profile.names, ∀ b ∈ dependencies_of profile a, b ∈ v ++ profile.names :=
  fun _ _ _ hb => List.mem_append_right _ (dependencies_declared h hb)

include h in
theorem selection_nodup (s : Selection profile) : s.names.Nodup := by
  cases s with
  | whole => exact h.nodup
  | closure v declared =>
    refine sorted_nodup ?_
    exact (Walk.visit_all_from (universe_closed h v) (fun a ha => List.mem_append_left _ ha)
      (Nat.lt_succ_self _)).1.visited_nodup

include h in
theorem mem_accessed_names {v : List String} (name : String) :
    name ∈ accessed_names profile v ↔
      ∃ root ∈ v, Relation.ReflTransGen (fun a b => b ∈ dependencies_of profile a) root name := by
  rw [accessed_names, mem_sorted]
  exact Walk.mem_visited_iff (universe_closed h v) (fun a ha => List.mem_append_left _ ha) (Nat.lt_succ_self _) name

include h in
theorem selection_declared (s : Selection profile) : ∀ n ∈ s.names, n ∈ profile.names := by
  cases s with
  | whole => exact fun _ hn => hn
  | closure v declared =>
    intro n hn
    obtain ⟨r, ht, hr⟩ := (mem_accessed_names h n).mp hn
    cases hr with
    | refl => exact declared _ ht
    | tail _ hd => exact dependencies_declared h hd

include h in
theorem selection_closed (s : Selection profile) :
    ∀ n ∈ s.names, ∀ d ∈ dependencies_of profile n, d ∈ s.names := by
  cases s with
  | whole => exact fun _ _ d hd => dependencies_declared h hd
  | closure v declared =>
    intro n hn d hd
    obtain ⟨r, ht, hr⟩ := (mem_accessed_names h n).mp hn
    exact (mem_accessed_names h d).mpr ⟨r, ht, hr.tail hd⟩

end

/-! ## What a plan is -/

/-- A plan of an accepted profile. -/
structure Planned (profile : CompiledProfile) (plan : ResolutionPlan) : Prop where
  nodup : (plan.secrets.map PlannedSecret.name).Nodup
  declared : ∀ planned ∈ plan.secrets, profile.get planned.name = some planned.secret
  routed : ∀ planned ∈ plan.secrets, planned.route.isSome = !planned.is_derived
  closed : ∀ planned ∈ plan.secrets, ∀ d ∈ planned.dependencies, ∃ other ∈ plan.secrets, other.name = d

theorem plan_one_secret_safe (planner : Planner) (n : String) (secret : CompiledSecret) :
    Attempt.Safe (plan_one_secret planner n secret) fun planned =>
      planned.name = n ∧ planned.secret = secret ∧ planned.route.isSome = !planned.is_derived := by
  unfold plan_one_secret
  refine .bind (.call _) fun _ _ => ?_
  by_cases hd : (secret.composition.isSome || secret.config.source.isSome)
  · rw [if_pos hd]
    refine .bind (.ok (p := (· = none)) rfl) fun r hr => ?_
    refine .bind (.call _) fun _ _ => .ok ⟨rfl, rfl, ?_⟩
    rw [hr]
    show false = !(secret.composition.isSome || secret.config.source.isSome)
    rw [hd]
    rfl
  · rw [if_neg hd]
    refine .bind (.map (.call _) (q := fun r => r.isSome) fun _ _ => rfl) fun r hr => ?_
    refine .bind (.call _) fun _ _ => .ok ⟨rfl, rfl, ?_⟩
    rw [hr]
    show true = !(secret.composition.isSome || secret.config.source.isSome)
    rw [Bool.eq_false_iff.mpr hd]
    rfl

/-- The plan of an accepted profile is found, and it is one. -/
theorem build_plan_safe {rules : Rules} {sp : CompiledSpec} {p : String} {profile : CompiledProfile}
    (hp : sp.profile p = some profile) (h : AcceptedProfile rules profile) (planner : Planner)
    (s : Selection profile) :
    Attempt.Safe (build_plan_from_names planner sp p s.names) fun plan =>
      plan.profile = p ∧ Planned profile plan := by
  unfold build_plan_from_names
  refine .bind (.expect hp) fun found hf => ?_
  subst hf
  have he : ∀ n ∈ s.names, Attempt.Safe (plan_named planner found n) fun planned =>
      planned.name = n ∧ found.get n = some planned.secret ∧ planned.route.isSome = !planned.is_derived := by
    intro n hn
    obtain ⟨sr, hg⟩ := Option.isSome_iff_exists.mp (CompiledProfile.get_isSome.mpr (selection_declared h s n hn))
    unfold plan_named
    refine .bind (.expect hg) fun g ht => ?_
    subst ht
    exact (plan_one_secret_safe planner n g).mono fun planned ⟨hna, hs, hr⟩ =>
      ⟨hna, by rw [hg, hs], hr⟩
  refine .bind (.mapM he) fun sc hc => ?_
  refine .bind (.call _) fun _ _ => .ok ⟨rfl, ?_⟩
  obtain ⟨hnm, ha⟩ : sc.map PlannedSecret.name = s.names ∧ ∀ planned ∈ sc,
      found.get planned.name = some planned.secret ∧ planned.route.isSome = !planned.is_derived := by
    clear he
    generalize s.names = names at hc ⊢
    induction hc with
    | nil => exact ⟨rfl, fun _ hm => absurd hm List.not_mem_nil⟩
    | cons hb _ ih =>
      obtain ⟨hna, hge, hr⟩ := hb
      refine ⟨by rw [List.map_cons, hna, ih.1], fun planned hm => ?_⟩
      rcases List.mem_cons.mp hm with rfl | hm
      · exact ⟨hna ▸ hge, hr⟩
      · exact ih.2 planned hm
  refine ⟨hnm ▸ selection_nodup h s, fun planned hm => (ha planned hm).1,
    fun planned hm => (ha planned hm).2, ?_⟩
  intro planned hm d hd
  have hmm : d ∈ s.names := by
    refine selection_closed h s planned.name (hnm ▸ List.mem_map_of_mem hm) d ?_
    unfold dependencies_of
    rw [(ha planned hm).1]
    exact hd
  rw [← hnm] at hmm
  exact List.mem_map.mp hmm

end Monosecret.Executor
