/-
  Monosecret.Resolve.Profile — compiled profiles and the plan of one resolution
  (`monosecret/src/compiled_spec.rs`, `composition.rs`, `plan.rs`).

  A compiled secret carries what loading has validated about it, a profile that its
  dependency graph is closed and acyclic, and a plan inherits both from the names it was
  built from. `accessed_names` closes the visible names under dependencies.
-/

import Monosecret.Lib.Dfs
import Monosecret.Plan.Route

namespace Monosecret.Resolve

open Lib Plan

/-! ## Templates -/

inductive Part where
  | Literal (text : String)
  | Reference (name : Text)
  deriving DecidableEq

def MAX_RENDERED_BYTES : Nat := 16 * 1024 * 1024

structure Template where
  parts : List Part
  dependencies : List Text
  references : ∀ name, Part.Reference name ∈ parts ↔ name ∈ dependencies

def part_text (lookup : Text → Option String) : Part → Except String String
  | .Literal text => .ok text
  | .Reference name =>
    match lookup name with
    | some value => .ok value
    | none => .error s!"composed dependency `{name}` is not resolved"

/-- Render once; values are appended as they are. -/
def Template.render (template : Template) (lookup : Text → Option String) : Except String String :=
  template.parts.foldlM (fun rendered part => do
    let value ← part_text lookup part
    if MAX_RENDERED_BYTES < rendered.utf8ByteSize + value.utf8ByteSize then
      .error s!"composed value exceeds the {MAX_RENDERED_BYTES / 1024 / 1024} MiB limit"
    else .ok (rendered ++ value)) ""

/-! ## Compiled secrets -/

/-- What resolution does when no provider returns a value. -/
inductive MissingPolicy where
  | Error
  | Omit
  | UseDefault
  | Generate
  | Prompt
  deriving DecidableEq

/-- What of a secret's effective configuration the executor reads. `source` is its `from`,
    `stored_type` a registry type that a provider stores. The proofs are what
    `validate_semantics` and `CompiledSecret::new` establish. -/
structure CompiledSecret where
  name : Text
  missing : MissingPolicy
  declared_required : Bool
  composition : Option Template
  source : Option Text
  credentials : List (Text × Text)
  stored_type : Bool
  extracts : Bool
  as_path : Bool
  default : Option Text
  derived_missing : composition.isSome || source.isSome → missing = .Error ∨ missing = .Omit
  derived_type : composition.isSome || source.isSome → stored_type = false
  composed_alone : composition.isSome → source = none ∧ credentials = []
  typed_credentials : credentials ≠ [] → stored_type ∨ source.isSome
  optional : missing = .Omit → declared_required = false
  prompted : missing = .Prompt → declared_required = true
  defaulted : missing = .UseDefault → default.isSome

namespace CompiledSecret

variable (c : CompiledSecret)

def is_composed : Bool := c.composition.isSome

def is_derived : Bool := c.is_composed || c.source.isSome

/-- A registry type stored by a provider: the type contract decodes it once its credentials
    have resolved. -/
def is_typed_stored : Bool := c.source.isNone && c.stored_type

/-- Evaluated by the derived pass. -/
def is_node : Bool := c.is_derived || c.is_typed_stored

/-- Every declared secret this one must resolve first. -/
def dependencies : List Text :=
  ((c.composition.map Template.dependencies).getD []) ++ c.source.toList ++ c.credentials.map Prod.snd

/-- The declared secret bound to a credential role. -/
def credential (role : Text) : Option Text := (c.credentials.find? fun binding => binding.1 = role).map Prod.snd

variable {c}

theorem dependencies_of_leaf (h : c.is_node = false) : c.dependencies = [] := by
  obtain ⟨hd, ht⟩ := Bool.or_eq_false_iff.mp h
  obtain ⟨hc, hs⟩ := Bool.or_eq_false_iff.mp hd
  have hm : c.composition = none := by simpa [is_composed] using hc
  have hr : c.source = none := by simpa using hs
  have hy : c.stored_type = false := by simpa [is_typed_stored, hr] using ht
  have hcr : c.credentials = [] := by
    by_contra hn
    rcases c.typed_credentials hn with h | h
    · simp [hy] at h
    · simp [hr] at h
  simp [dependencies, hm, hr, hcr]

theorem derived_not_typed (h : c.is_derived) : c.is_typed_stored = false := by
  have ht := c.derived_type h
  simp [is_typed_stored, ht]

end CompiledSecret

/-! ## Profiles -/

/-- One named presence group. -/
structure ConstraintGroup where
  name : Text
  members : List Text
  nodup : members.Nodup
  deriving DecidableEq

def find_secret (secrets : List CompiledSecret) (name : Text) : Option CompiledSecret :=
  secrets.find? fun secret => secret.name = name

structure CompiledProfile where
  secrets : List CompiledSecret
  at_least_one : List ConstraintGroup
  exactly_one : List ConstraintGroup
  nodup : (secrets.map CompiledSecret.name).Nodup
  closed : ∀ secret ∈ secrets, ∀ name ∈ secret.dependencies, name ∈ secrets.map CompiledSecret.name
  acyclic : ∃ rank : Text → Nat, ∀ secret ∈ secrets, ∀ name ∈ secret.dependencies, rank name < rank secret.name
  grouped : ∀ group ∈ at_least_one ++ exactly_one, ∀ name ∈ group.members, name ∈ secrets.map CompiledSecret.name

variable {secret : CompiledSecret}

theorem find_secret_some {s : List CompiledSecret} {name : Text} (h : find_secret s name = some secret) :
    secret ∈ s ∧ secret.name = name :=
  ⟨List.mem_of_find?_eq_some h, by simpa using List.find?_some h⟩

theorem find_secret_of_mem {s : List CompiledSecret} (hn : (s.map CompiledSecret.name).Nodup)
    (h : secret ∈ s) : find_secret s secret.name = some secret := by
  cases hf : find_secret s secret.name with
  | none =>
    have hnn := List.find?_eq_none.mp hf secret h
    simp at hnn
  | some other =>
    obtain ⟨hm, hnm⟩ := find_secret_some hf
    rw [List.inj_on_of_nodup_map hn hm h hnm]

namespace CompiledProfile

variable (profile : CompiledProfile)

def names : List Text := profile.secrets.map CompiledSecret.name

def get (name : Text) : Option CompiledSecret := find_secret profile.secrets name

def dependencies_of (name : Text) : List Text := ((profile.get name).map CompiledSecret.dependencies).getD []

/-- One name needs another, directly. -/
def Needs (a b : Text) : Prop := b ∈ profile.dependencies_of a

/-- The transitive dependency closure. -/
def InClosure (roots : List Text) (name : Text) : Prop := ∃ root ∈ roots, Relation.ReflTransGen profile.Needs root name

/-- The visible names and everything they transitively depend on, sorted. -/
def accessed_names (visible : List Text) : List Text :=
  let universe_ := visible ++ profile.names
  (Walk.visit_all profile.dependencies_of (universe_.length + 1) visible .empty).visited.mergeSort
    fun a b => decide (a.text ≤ b.text)

variable {profile}

theorem dependencies_declared {n d : Text} (h : d ∈ profile.dependencies_of n) : d ∈ profile.names := by
  unfold dependencies_of at h
  cases hg : profile.get n with
  | none =>
    rw [hg] at h
    cases h
  | some secret =>
    rw [hg] at h
    exact profile.closed secret (find_secret_some hg).1 d h

theorem universe_closed (v : List Text) :
    ∀ a ∈ v ++ profile.names, ∀ b ∈ profile.dependencies_of a, b ∈ v ++ profile.names :=
  fun _ _ _ hb => List.mem_append_right _ (dependencies_declared hb)

/-- Exactly the closure of what is visible is accessed. -/
theorem mem_accessed_names (visible : List Text) (name : Text) :
    name ∈ profile.accessed_names visible ↔ profile.InClosure visible name := by
  rw [accessed_names, List.mem_mergeSort]
  exact Walk.mem_visited_iff (universe_closed visible) (fun a ha => List.mem_append_left _ ha) (Nat.lt_succ_self _) name

theorem closure_declared {v : List Text} (hv : ∀ n ∈ v, n ∈ profile.names) {n : Text}
    (h : profile.InClosure v n) : n ∈ profile.names := by
  obtain ⟨r, ht, hr⟩ := h
  cases hr with
  | refl => exact hv _ ht
  | tail _ hd => exact dependencies_declared hd

end CompiledProfile

/-! ## Plans -/

/-- A secret with its route: none when its value is derived. -/
structure PlannedSecret where
  secret : CompiledSecret
  route : Option Route
  routed : route.isSome = !secret.is_derived

namespace PlannedSecret

abbrev name (planned : PlannedSecret) : Text := planned.secret.name

abbrev dependencies (planned : PlannedSecret) : List Text := planned.secret.dependencies

end PlannedSecret

structure ResolutionPlan where
  profile : Text
  override_uri : Option Text
  secrets : List PlannedSecret
  nodup : (secrets.map PlannedSecret.name).Nodup
  closed : ∀ planned ∈ secrets, ∀ name ∈ planned.dependencies, name ∈ secrets.map PlannedSecret.name
  acyclic : ∃ rank : Text → Nat, ∀ planned ∈ secrets, ∀ name ∈ planned.dependencies, rank name < rank planned.name

namespace ResolutionPlan

variable (plan : ResolutionPlan)

def names : List Text := plan.secrets.map PlannedSecret.name

def get (name : Text) : Option PlannedSecret := plan.secrets.find? fun planned => planned.name = name

/-- One planned secret needs another, directly. -/
def Needs (a b : Text) : Prop := ∃ planned ∈ plan.secrets, planned.name = a ∧ b ∈ planned.dependencies

variable {plan}
variable {planned : PlannedSecret}

theorem get_some {name : Text} (h : plan.get name = some planned) : planned ∈ plan.secrets ∧ planned.name = name :=
  ⟨List.mem_of_find?_eq_some h, by simpa using List.find?_some h⟩

theorem eq_of_name {a b : PlannedSecret} (ha : a ∈ plan.secrets) (hb : b ∈ plan.secrets) (h : a.name = b.name) : a = b :=
  List.inj_on_of_nodup_map plan.nodup ha hb h

theorem get_of_mem (h : planned ∈ plan.secrets) : plan.get planned.name = some planned := by
  cases hg : plan.get planned.name with
  | none =>
    have hn := List.find?_eq_none.mp hg planned h
    simp at hn
  | some other => rw [eq_of_name (get_some hg).1 h (get_some hg).2]

theorem exists_of_dependency (h : planned ∈ plan.secrets) {d : Text} (hd : d ∈ planned.dependencies) :
    ∃ other ∈ plan.secrets, other.name = d :=
  List.mem_map.mp (plan.closed planned h d hd)

end ResolutionPlan

/-- The per-secret decision: a derived secret routes to no store. -/
def plan_one_secret (route_for : CompiledSecret → Except MonosecretError Route) (secret : CompiledSecret) :
    Except MonosecretError PlannedSecret :=
  if h : secret.is_derived = true then .ok ⟨secret, none, by simp [h]⟩
  else (route_for secret).map fun route => ⟨secret, some route, by simp [h]⟩

variable {route_for : CompiledSecret → Except MonosecretError Route}

theorem plan_one_secret_ok {planned : PlannedSecret} (h : plan_one_secret route_for secret = .ok planned) :
    planned.secret = secret := by
  unfold plan_one_secret at h
  split at h
  · cases h
    rfl
  · cases hr : route_for secret with
    | error e => rw [hr] at h; cases h
    | ok r =>
      rw [hr] at h
      cases h
      rfl

/-- Names of a profile, each once, with the dependencies of every one. -/
structure ClosedNames (profile : CompiledProfile) where
  names : List Text
  nodup : names.Nodup
  declared : ∀ name ∈ names, name ∈ profile.names
  closed : ∀ name ∈ names, ∀ d ∈ profile.dependencies_of name, d ∈ names

/-- The whole profile. -/
def CompiledProfile.all_names (profile : CompiledProfile) : ClosedNames profile :=
  ⟨profile.names, profile.nodup, fun _ h => h, fun _ _ _ hd => CompiledProfile.dependencies_declared hd⟩

/-- The closure of the visible names. -/
def CompiledProfile.accessed (profile : CompiledProfile) (visible : List Text) (hv : ∀ name ∈ visible, name ∈ profile.names) :
    ClosedNames profile where
  names := profile.accessed_names visible
  nodup := by
    refine (List.mergeSort_perm _ _).nodup_iff.mpr ?_
    exact (Walk.visit_all_from (CompiledProfile.universe_closed visible)
      (fun a ha => List.mem_append_left _ ha) (Nat.lt_succ_self _)).1.visited_nodup
  declared name h :=
    CompiledProfile.closure_declared hv ((CompiledProfile.mem_accessed_names visible name).mp h)
  closed name h d hd := by
    obtain ⟨root, hroot, hr⟩ := (CompiledProfile.mem_accessed_names visible name).mp h
    exact (CompiledProfile.mem_accessed_names visible d).mpr ⟨root, hroot, hr.tail hd⟩

/-- Plan the named secrets of a profile. -/
def plan_secrets (profile : CompiledProfile) (route_for : CompiledSecret → Except MonosecretError Route)
    (names : List Text) : Except MonosecretError (List PlannedSecret) :=
  names.mapM fun name =>
    match profile.get name with
    | some secret => plan_one_secret route_for secret
    | none => .error (.Other "planned names come from the compiled profile")

variable {profile : CompiledProfile}

theorem plan_secrets_ok {names : List Text} {s : List PlannedSecret}
    (h : plan_secrets profile route_for names = .ok s) :
    s.map PlannedSecret.name = names ∧
      ∀ planned ∈ s, profile.get planned.name = some planned.secret := by
  have ht : ∀ n planned,
      (match profile.get n with
        | some secret => plan_one_secret route_for secret
        | none => .error (.Other "planned names come from the compiled profile")) = Except.ok planned →
      planned.name = n ∧ profile.get planned.name = some planned.secret := by
    intro n planned hp
    cases hg : profile.get n with
    | none => rw [hg] at hp; cases hp
    | some secret =>
      rw [hg] at hp
      have hs := plan_one_secret_ok hp
      have hn := (find_secret_some hg).2
      constructor
      · rw [PlannedSecret.name, hs, hn]
      · rw [PlannedSecret.name, hs, hn, hg]
  refine ⟨Except.mapM_ok_map (fun n planned hp => (ht n planned hp).1) h, ?_⟩
  have ha := Except.mapM_ok h
  clear h
  induction ha with
  | nil => intro planned hp; cases hp
  | cons hb _ ih =>
    intro planned hp
    rcases List.mem_cons.mp hp with rfl | hp
    · exact (ht _ _ hb).2
    · exact ih planned hp

def build_plan_from_names (profile_name : Text) (profile : CompiledProfile)
    (route_for : CompiledSecret → Except MonosecretError Route) (override_uri : Except MonosecretError (Option Text))
    (names : ClosedNames profile) : Except MonosecretError ResolutionPlan :=
  match h : plan_secrets profile route_for names.names with
  | .error e => .error e
  | .ok secrets =>
    override_uri.map fun override_uri =>
      { profile := profile_name, override_uri, secrets
        nodup := (plan_secrets_ok h).1 ▸ names.nodup
        closed := by
          obtain ⟨hnames, hget⟩ := plan_secrets_ok h
          intro planned hp d hd
          rw [hnames]
          refine names.closed planned.name (hnames ▸ List.mem_map_of_mem hp) d ?_
          rw [CompiledProfile.dependencies_of, hget planned hp]
          exact hd
        acyclic := by
          obtain ⟨-, hget⟩ := plan_secrets_ok h
          obtain ⟨rank, hrank⟩ := profile.acyclic
          exact ⟨rank, fun planned hp d hd => hrank planned.secret (find_secret_some (hget planned hp)).1 d hd⟩ }

theorem build_plan_ok {p : Text} {o : Except MonosecretError (Option Text)}
    {names : ClosedNames profile} {plan : ResolutionPlan}
    (h : build_plan_from_names p profile route_for o names = .ok plan) :
    plan.names = names.names ∧ plan.profile = p ∧
      ∀ planned ∈ plan.secrets, profile.get planned.name = some planned.secret := by
  unfold build_plan_from_names at h
  split at h
  · cases h
  · rename_i s hs
    cases o with
    | error e => cases h
    | ok uri =>
      cases h
      exact ⟨(plan_secrets_ok hs).1, rfl, (plan_secrets_ok hs).2⟩

/-- A plan is its fields. -/
theorem ResolutionPlan.eq_of {a b : ResolutionPlan} (hp : a.profile = b.profile) (hu : a.override_uri = b.override_uri)
    (hs : a.secrets = b.secrets) : a = b := by
  cases a
  cases b
  cases hp
  cases hu
  cases hs
  rfl

/-- A plan whose secrets route is built of them. -/
theorem build_plan_eq {plan : ResolutionPlan} {names : ClosedNames profile}
    (h : plan_secrets profile route_for names.names = .ok plan.secrets) :
    build_plan_from_names plan.profile profile route_for (.ok plan.override_uri) names = .ok plan := by
  unfold build_plan_from_names
  split
  · rename_i e he
    rw [h] at he
    cases he
  · rename_i other ho
    rw [h] at ho
    cases ho
    exact congrArg Except.ok (ResolutionPlan.eq_of rfl rfl rfl)

end Monosecret.Resolve
