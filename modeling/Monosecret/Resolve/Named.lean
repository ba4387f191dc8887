/-
  Monosecret.Resolve.Named — reading one secret by name (`Secrets::resolve_named` and its
  variants in `monosecret/src/secrets.rs`).

  A name the surface offers is planned with all it transitively depends on, and the plan is
  run without an output filter. Audit records and the owners of files are left out. Stores
  are compared through `Stores`; the providers of the routes, the operator and the generator
  are the same in both runs.

  (1) Stores that agree on the dependency closure of a name give the same outcome
      (`resolve_named_reading`).
  (2) Presence groups: taking them from the profile changes nothing for a name whose closure
      is not the whole profile. Where it is, a lookup that returns without them returns the
      same exactly when every group holds of what the stores supply (`named_closure`);
      otherwise it fails validation (`a_group_fails_the_lookup`).
-/

import Monosecret.Resolve.Same
import Monosecret.Resolve.Supplied

namespace Monosecret.Resolve

open Lib Plan Cache

/-! ## The lookup -/

inductive ResolvedSource where
  | Generated
  | Default
  | Composed
  | Provider
  deriving DecidableEq

def resolved_source (entry : SecretResolution) : ResolvedSource :=
  if entry.generated then .Generated
  else if entry.default_applied then .Default
  else if entry.composed then .Composed
  else .Provider

/-- What a lookup returns of a value beside it. -/
structure Provenance where
  source : ResolvedSource
  source_provider : Option Text
  expires_at_unix_ms : Option UInt64
  refresh_at_unix_ms : Option UInt64
  revision : Option Revision
  deriving DecidableEq

inductive NamedResolution (T : Type) where
  | Undeclared
  | Missing (required : Bool)
  | Value (value : T) (provenance : Provenance)
  | File (path : String) (provenance : Provenance)
  deriving DecidableEq

inductive LookupError where
  | failed (error : MonosecretError)
  | SecretNotText (name reason : String)
  | ValidationFailed (errors : ValidationErrors)

def utf8_text (value : SecretBytes) : Option String := String.fromUTF8? ⟨value.toArray⟩

/-- The length of the longest prefix that is text. -/
def valid_up_to (value : SecretBytes) : Nat :=
  ((List.range value.length).reverse.find? fun n => (utf8_text (value.take n)).isSome).getD 0

def try_as_utf8_for (name : Text) (value : SecretBytes) : Except LookupError String :=
  match utf8_text value with
  | some text => .ok text
  | none =>
    let offset := valid_up_to value
    .error (.SecretNotText name.text
      s!"it contains bytes that are not valid UTF-8 (first invalid byte at offset {offset}); declare `as_path = true` to receive a file path or resolve it as bytes")

/-- A manager with its profile and scope chosen. `visible` are the names the surface
    offers. -/
structure Manager where
  profile_name : Text
  profile : CompiledProfile
  route_for : CompiledSecret → Except MonosecretError Route
  override_uri : Except MonosecretError (Option Text)
  ensure_reason : Except MonosecretError Unit
  visible : Except MonosecretError (List Text)
  declared : ∀ names, visible = .ok names → ∀ name ∈ names, name ∈ profile.names

namespace Manager

variable (manager : Manager)

/-- The name and all it transitively depends on. -/
def named_plan (name : Text) : Except MonosecretError ResolutionPlan :=
  if h : name ∈ manager.profile.names then
    build_plan_from_names manager.profile_name manager.profile manager.route_for manager.override_uri
      (Selection.named name h).names
  else .error (.Other "invariant: visited names come from the compiled profile graph")

/-- Without presence groups. -/
def ungrouped : Manager :=
  { manager with profile := { manager.profile with at_least_one := [], exactly_one := [], grouped := by simp } }

end Manager

section

variable {T : Type} (convert : Text → SecretBytes → Except LookupError T)

def deliver_named (name : Text) (validated : ValidatedSecrets) : Except LookupError (NamedResolution T) :=
  match validated.resolution.find? fun entry => entry.name = name with
  | none => .error (.failed (.Other "the planned target always has a resolution entry"))
  | some entry =>
    if entry.status ≠ .Resolved then .ok (.Missing entry.required)
    else
      match validated.values name with
      | none => .error (.failed (.Other "a Resolved entry always has a value"))
      | some raw =>
        let provenance := ⟨resolved_source entry, entry.source_provider, validated.secret_expiries name,
          validated.refreshes name, validated.revisions name⟩
        if entry.as_path then (try_as_utf8_for name raw).map fun path => .File path provenance
        else (convert name raw).map fun value => .Value value provenance

/-- The source takes a violation here for a change of mind and surfaces it. -/
def report_named (name : Text) (errors : ValidationErrors) : Except LookupError (NamedResolution T) :=
  if errors.constraint_violations ≠ [] then .error (.ValidationFailed errors)
  else .ok (.Missing ((errors.resolution.find? fun entry => entry.name = name).all SecretResolution.required))

def finish_named (name : Text) : Outcome → Except LookupError (NamedResolution T)
  | .ok validated => deliver_named convert name validated
  | .error errors => report_named name errors

variable {Identity : Type} (answers : Answers Identity) (manager : Manager) (materialize : Materialize) (name : Text)

/-- The lookup of a name that is offered. -/
def resolve_planned : Except LookupError (NamedResolution T) := do
  let plan ← (manager.named_plan name).mapError .failed
  let outcome ← (execute_plan answers plan materialize none manager.profile).mapError .failed
  finish_named convert name outcome

def resolve_named_owned_within : Except LookupError (NamedResolution T) := do
  manager.ensure_reason.mapError .failed
  let visible ← manager.visible.mapError .failed
  if name ∈ visible then resolve_planned convert answers manager materialize name else .ok .Undeclared

end

def resolve_named {Identity : Type} (answers : Answers Identity) (manager : Manager) (name : Text) :
    Except LookupError (NamedResolution String) :=
  resolve_named_owned_within try_as_utf8_for answers manager .Values name

/-! ## Two stores -/

/-- What reading the stores gives; everything else a pass asks stays as it is. -/
structure Stores where
  cached : PlannedSecret → Option (ProviderValue × Text × Option UInt64)
  get_many : Option Text → List PlannedSecret → Except MonosecretError (PlannedSecret → Option ProviderValue)
  get_with_metadata : Text → PlannedSecret → Except MonosecretError (Option ProviderValue)

def Answers.reading {Identity : Type} (answers : Answers Identity) (stores : Stores) : Answers Identity :=
  { answers with
    cached := stores.cached
    get_many := stores.get_many
    get_with_metadata := stores.get_with_metadata }

/-- The same answers for the secrets of these names. -/
structure Stores.Agree (names : Text → Prop) (a b : Stores) : Prop where
  cached : ∀ planned, names planned.name → a.cached planned = b.cached planned
  get_many : ∀ key members, (∀ planned ∈ members, names planned.name) →
    (a.get_many key members).map (fun values => members.map values) =
      (b.get_many key members).map fun values => members.map values
  get_with_metadata : ∀ spec planned, names planned.name → a.get_with_metadata spec planned = b.get_with_metadata spec planned

/-- A plan of the names the stores agree on cannot tell them apart. -/
theorem reading_same {Identity : Type} {answers : Answers Identity} {plan : ResolutionPlan} {names : Text → Prop}
    {a b : Stores} (ha : a.Agree names b) (hn : ∀ planned ∈ plan.secrets, names planned.name) :
    (answers.reading a).Same plan (answers.reading b) where
  cached planned hp := ha.cached planned (hn planned hp)
  get_route_provider _ _ _ _ := rfl
  resolve_coords _ _ _ _ := rfl
  get_many _ _ _ _ members hmm :=
    ha.get_many _ members fun other hm => hn other (hmm other hm).1
  resolve_one_provider := rfl
  shared_provider _ _ _ _ _ _ := rfl
  get_with_metadata planned hp _ _ spec _ := ha.get_with_metadata spec planned (hn planned hp)
  try_prompt_secret _ _ := rfl
  try_generate_secret _ _ := rfl
  generated_value_is_stored _ _ := rfl
  report_provider_uri := rfl
  ambient := rfl

/-! ## The plan of a name -/

section

variable {manager : Manager} {name : Text} {plan : ResolutionPlan}

theorem named_plan_ok (h : manager.named_plan name = .ok plan) :
    plan.names = manager.profile.accessed_names [name] ∧ name ∈ manager.profile.names ∧
      ∀ other ∈ plan.names, other ∈ manager.profile.names := by
  unfold Manager.named_plan at h
  by_cases hn : name ∈ manager.profile.names
  · rw [dif_pos hn] at h
    have hm := (build_plan_ok h).1
    exact ⟨hm, hn, fun other ho => (Selection.named name hn).names.declared other (hm ▸ ho)⟩
  · rw [dif_neg hn] at h
    cases h

theorem mem_named_plan (h : manager.named_plan name = .ok plan) (other : Text) :
    other ∈ plan.names ↔ manager.profile.InClosure [name] other := by
  rw [(named_plan_ok h).1, CompiledProfile.mem_accessed_names]

/-- The closure of the name is the whole profile. -/
def Covers (profile : CompiledProfile) (name : Text) : Prop := ∀ other ∈ profile.names, profile.InClosure [name] other

/-- The comparison of two sizes tells whether the plan is the whole profile. -/
theorem evaluates_iff_covers (h : manager.named_plan name = .ok plan) :
    evaluates_constraints manager.profile plan none ↔ Covers manager.profile name := by
  have hl : evaluates_constraints manager.profile plan none ↔
      plan.names.length = manager.profile.names.length := by
    simp [evaluates_constraints, ResolutionPlan.names, CompiledProfile.names]
  have hs : plan.names.Subperm manager.profile.names := plan.nodup.subperm (named_plan_ok h).2.2
  rw [hl]
  constructor
  · intro hg other ho
    exact (mem_named_plan h other).mp ((hs.perm_of_length_le (by omega)).mem_iff.mpr ho)
  · intro hc
    have hb : manager.profile.names.Subperm plan.names :=
      manager.profile.nodup.subperm fun other ho => (mem_named_plan h other).mpr (hc other ho)
    have hle := hs.length_le
    have hge := hb.length_le
    omega

theorem named_plan_nonempty (h : manager.named_plan name = .ok plan) : plan.secrets.isEmpty = false := by
  have hm : name ∈ plan.names := (mem_named_plan h name).mpr ⟨name, List.mem_singleton_self name, .refl⟩
  obtain ⟨p, hp, -⟩ := List.mem_map.mp hm
  exact List.isEmpty_eq_false_iff.mpr (List.ne_nil_of_mem hp)

theorem named_plan_ungrouped : manager.ungrouped.named_plan name = manager.named_plan name := rfl

end

section

variable {T : Type} {convert : Text → SecretBytes → Except LookupError T} {Identity : Type} {answers : Answers Identity}
  {manager : Manager} {materialize : Materialize} {name : Text}

variable {plan : ResolutionPlan}

theorem resolve_planned_eq (hp : manager.named_plan name = .ok plan) :
    resolve_planned convert answers manager materialize name =
      ((execute_plan answers plan materialize none manager.profile).mapError LookupError.failed >>=
        finish_named convert name) := by
  unfold resolve_planned
  rw [hp]
  rfl

/-- A lookup depends on the stores only through the closure of its name. -/
theorem resolve_named_reading {a b : Stores} (ha : a.Agree (manager.profile.InClosure [name]) b) :
    resolve_named_owned_within convert (answers.reading a) manager materialize name =
      resolve_named_owned_within convert (answers.reading b) manager materialize name := by
  have hl : resolve_planned convert (answers.reading a) manager materialize name =
      resolve_planned convert (answers.reading b) manager materialize name := by
    cases hpl : manager.named_plan name with
    | error e =>
      unfold resolve_planned
      rw [hpl]
      rfl
    | ok plan =>
      have hn : ∀ p ∈ plan.secrets, manager.profile.InClosure [name] p.name :=
        fun p hp => (mem_named_plan hpl p.name).mp (List.mem_map_of_mem hp)
      rw [resolve_planned_eq hpl, resolve_planned_eq hpl, (reading_same ha hn).execute_plan]
  unfold resolve_named_owned_within
  rw [hl]

/-! ## Presence groups -/

/-- Every group holds of the names that are present. -/
def GroupsHold (profile : CompiledProfile) (present : Text → Prop) : Prop :=
  (∀ group ∈ profile.at_least_one, group.members ≠ [] → ∃ name ∈ group.members, present name) ∧
    ∀ group ∈ profile.exactly_one, group.members ≠ [] → ∃! name, name ∈ group.members ∧ present name

theorem visible_members_none (members : List Text) : visible_members none members = members := by
  simp [visible_members, OutputFilter.admits]

variable {profile : CompiledProfile} {resolution : List SecretResolution}

theorem satisfied_iff : Satisfied profile none resolution ↔ GroupsHold profile (ResolvedIn resolution) := by
  simp only [Satisfied, AtLeastOne, ExactlyOne, GroupsHold, visible_members_none]

theorem groups_hold_congr {p q : Text → Prop} (h : ∀ name, p name ↔ q name) :
    GroupsHold profile p ↔ GroupsHold profile q := by
  rw [funext fun name => propext (h name)]

/-- No violation is found exactly when the groups, if they are judged, hold. -/
theorem violations_nil_iff :
    constraint_violations profile plan none resolution = [] ↔
      (evaluates_constraints profile plan none → GroupsHold profile (ResolvedIn resolution)) := by
  constructor
  · intro hn he
    obtain ⟨hl, hc, -⟩ := @violations_iff profile plan none resolution he
    rw [hn] at hl hc
    rw [← satisfied_iff]
    constructor
    · intro g hg
      by_contra hb
      obtain ⟨_, hm, -⟩ := hl g hg hb
      cases hm
    · intro g hg
      by_contra hb
      obtain ⟨_, hm, -⟩ := hc g hg hb
      cases hm
  · intro hhl
    by_cases he : evaluates_constraints profile plan none
    · exact (violations_iff he).2.2 (satisfied_iff.mpr (hhl he))
    · exact if_neg he

theorem ungrouped_violations : constraint_violations manager.ungrouped.profile plan none resolution = [] :=
  violations_nil_iff.mpr fun _ => ⟨fun _ hg => absurd hg List.not_mem_nil, fun _ hg => absurd hg List.not_mem_nil⟩

variable {st : Execution Identity}

/-- Finishing without violations is finishing without groups. -/
theorem finish_clean (h : constraint_violations manager.profile plan none st.resolution = []) :
    finish answers manager.profile plan none st = finish answers manager.ungrouped.profile plan none st := by
  unfold finish
  simp only [apply_output_filter, h, ungrouped_violations]

variable (convert name) in
/-- A violation fails the lookup, whatever became of the name. -/
theorem finish_violated {o : Outcome} (h : constraint_violations manager.profile plan none st.resolution ≠ [])
    (hf : finish answers manager.profile plan none st = .ok o) :
    ∃ e, finish_named convert name o = .error (.ValidationFailed e) := by
  cases finish_ok hf with
  | validated p c s => exact absurd s h
  | failed p f => exact ⟨_, if_pos h⟩

theorem execute_plan_eq (hp : manager.named_plan name = .ok plan) {f : Deriving Identity}
    (hr : provider_pass answers plan materialize none = .ok st)
    (hd : derived_pass answers plan materialize none st = .ok f) :
    execute_plan answers plan materialize none profile = finish answers profile plan none f.st := by
  unfold execute_plan
  rw [named_plan_nonempty hp, if_neg Bool.false_ne_true, hr]
  show (derived_pass answers plan materialize none st >>= _) = _
  rw [hd]
  rfl

theorem execute_plan_finish (hp : manager.named_plan name = .ok plan) {outcome : Outcome}
    (h : execute_plan answers plan materialize none profile = .ok outcome) :
    ∃ st f, provider_pass answers plan materialize none = .ok st ∧
      derived_pass answers plan materialize none st = .ok f ∧
      finish answers profile plan none f.st = .ok outcome := by
  unfold execute_plan at h
  rw [named_plan_nonempty hp, if_neg Bool.false_ne_true] at h
  obtain ⟨st, hr, h⟩ := Except.bind_ok h
  obtain ⟨f, hd, h⟩ := Except.bind_ok h
  exact ⟨st, f, hr, hd, h⟩

/-- What is returned without groups is returned with them exactly when no group is broken. -/
theorem resolve_planned_iff (hp : manager.named_plan name = .ok plan) {r : NamedResolution T}
    (hr : resolve_planned convert answers manager.ungrouped materialize name = .ok r) :
    resolve_planned convert answers manager materialize name = .ok r ↔
      (Covers manager.profile name → GroupsHold manager.profile (Supplied answers plan materialize none)) := by
  have hn := hr
  rw [resolve_planned_eq (named_plan_ungrouped.trans hp)] at hn
  obtain ⟨o, hn, hr⟩ := Except.bind_ok hn
  rw [Except.mapError_ok] at hn
  obtain ⟨st, f, hpr, hd, hfn⟩ := execute_plan_finish hp hn
  have hc : constraint_violations manager.profile plan none f.st.resolution = [] ↔
      (Covers manager.profile name → GroupsHold manager.profile (Supplied answers plan materialize none)) := by
    rw [violations_nil_iff, evaluates_iff_covers hp,
      groups_hold_congr (p := ResolvedIn f.st.resolution) (resolves_iff_supplied hpr hd)]
  rw [resolve_planned_eq hp, execute_plan_eq hp hpr hd, ← hc]
  by_cases hv : constraint_violations manager.profile plan none f.st.resolution = []
  · rw [finish_clean hv, hfn]
    exact iff_of_true hr hv
  · refine iff_of_false (fun hs => ?_) hv
    obtain ⟨o', hf, hm⟩ := Except.bind_ok hs
    obtain ⟨e, he⟩ := finish_violated convert name hv (Except.mapError_ok.mp hf)
    rw [he] at hm
    cases hm

end

/-- A lookup depends on the stores only through the closure of its name; and what it returns
    without presence groups it returns with them exactly when its closure is not the whole
    profile or every group holds of what is supplied. -/
theorem named_closure {T : Type} (convert : Text → SecretBytes → Except LookupError T) {Identity : Type}
    (answers : Answers Identity) (manager : Manager) (materialize : Materialize) (name : Text) :
    (∀ a b : Stores, a.Agree (manager.profile.InClosure [name]) b →
      resolve_named_owned_within convert (answers.reading a) manager materialize name =
        resolve_named_owned_within convert (answers.reading b) manager materialize name) ∧
    ∀ visible, manager.visible = .ok visible → name ∈ visible → ∀ plan, manager.named_plan name = .ok plan →
      ∀ r, resolve_named_owned_within convert answers manager.ungrouped materialize name = .ok r →
        (resolve_named_owned_within convert answers manager materialize name = .ok r ↔
          (Covers manager.profile name → GroupsHold manager.profile (Supplied answers plan materialize none))) := by
  refine ⟨fun a b ha => resolve_named_reading ha, ?_⟩
  intro visible hs hn plan hp r hr
  obtain ⟨hrs, -⟩ := Except.bind_unit_ok hr
  have hl : ∀ m : Manager, m.ensure_reason = manager.ensure_reason → m.visible = manager.visible →
      resolve_named_owned_within convert answers m materialize name =
        resolve_planned convert answers m materialize name := by
    intro m hm hv
    unfold resolve_named_owned_within
    rw [hm, hv, hs, show manager.ensure_reason = .ok () from Except.mapError_ok.mp hrs]
    exact if_pos hn
  rw [hl manager rfl rfl]
  rw [hl manager.ungrouped rfl rfl] at hr
  exact resolve_planned_iff hp hr

namespace Sample

/-- A secret of a presence group: the group decides whether it may be absent. -/
def member (secret : CompiledSecret) : CompiledSecret :=
  { secret with
    missing := .Omit
    declared_required := false
    derived_missing := fun _ => .inr rfl
    optional := fun _ => rfl
    prompted := by simp
    defaulted := by simp }

def pair_names : List Text := [Text.of "HOST", Text.of "URL"]

/-- The URL needs the host; `exactly_one` is the group of both. -/
def pair_profile (exactly_one : List ConstraintGroup)
    (h : ∀ group ∈ exactly_one, ∀ name ∈ group.members, name ∈ pair_names) : CompiledProfile where
  secrets := [member host.secret, member url.secret]
  at_least_one := []
  exactly_one
  nodup := by decide
  closed := by decide
  acyclic := ⟨fun name => if name = Text.of "URL" then 1 else 0, by decide⟩
  grouped := by
    intro group hg name hn
    exact h group (by simpa using hg) name hn

def pair_manager (profile : CompiledProfile) (h : ∀ name ∈ pair_names, name ∈ profile.names) : Manager where
  profile_name := Text.of "default"
  profile
  route_for _ := .ok (chain_route [])
  override_uri := .ok none
  ensure_reason := .ok ()
  visible := .ok pair_names
  declared := by
    rintro _ ⟨⟩
    exact h

def pair_group : ConstraintGroup := ⟨Text.of "endpoint", pair_names, by decide⟩

def grouped_pair : Manager := pair_manager (pair_profile [pair_group] (by decide)) (by decide)

def pair_plan : ResolutionPlan where
  profile := Text.of "default"
  override_uri := none
  secrets := [⟨member host.secret, some (chain_route []), .refl true⟩, ⟨member url.secret, none, .refl false⟩]
  nodup := by decide
  closed := by decide
  acyclic := ⟨fun name => if name = Text.of "URL" then 1 else 0, by decide⟩

theorem pair_closure : grouped_pair.profile.accessed_names [Text.of "URL"] = pair_names :=
  List.mergeSort_of_pairwise (by decide)

theorem pair_planned : grouped_pair.named_plan (Text.of "URL") = .ok pair_plan := by
  unfold Manager.named_plan
  rw [dif_pos (show Text.of "URL" ∈ grouped_pair.profile.names by decide)]
  refine @build_plan_eq _ _ pair_plan _ ?_
  show plan_secrets _ _ (grouped_pair.profile.accessed_names [Text.of "URL"]) = _
  rw [pair_closure]
  rfl

theorem pair_lookup (answers : Answers Unit) (manager : Manager) (hp : manager.named_plan (Text.of "URL") = .ok pair_plan)
    (hr : manager.ensure_reason = .ok ()) (hv : manager.visible = .ok pair_names) :
    resolve_named answers manager (Text.of "URL") =
      ((execute_plan answers pair_plan .Values none manager.profile).mapError LookupError.failed >>=
        finish_named try_as_utf8_for (Text.of "URL")) := by
  unfold resolve_named resolve_named_owned_within
  rw [hr, hv, resolve_planned_eq hp]
  have ho : Text.of "URL" ∈ pair_names := by decide
  simp only [Except.mapError, bind, Except.bind, if_pos ho]

/-- The host alone is not the whole profile. -/
theorem host_covers_little : ¬ Covers grouped_pair.profile (Text.of "HOST") := by
  intro h
  obtain ⟨r, hr, hp⟩ := h (Text.of "URL") (by decide)
  cases List.mem_singleton.mp hr
  cases hp.cases_head with
  | inl he => exact absurd he (by decide)
  | inr hs =>
    obtain ⟨next, hn, -⟩ := hs
    cases hn

def host_plan : ResolutionPlan where
  profile := Text.of "default"
  override_uri := none
  secrets := [⟨member host.secret, some (chain_route []), .refl true⟩]
  nodup := by decide
  closed := by decide
  acyclic := ⟨fun _ => 0, by decide⟩

theorem host_planned : grouped_pair.named_plan (Text.of "HOST") = .ok host_plan := by
  unfold Manager.named_plan
  rw [dif_pos (show Text.of "HOST" ∈ grouped_pair.profile.names by decide)]
  refine @build_plan_eq _ _ host_plan _ ?_
  show plan_secrets _ _ (grouped_pair.profile.accessed_names [Text.of "HOST"]) = _
  rw [show grouped_pair.profile.accessed_names [Text.of "HOST"] = [Text.of "HOST"] from
    List.mergeSort_of_pairwise (by decide)]
  rfl

end Sample

open Sample in
theorem named_closure_host : ∃ r,
    resolve_named_owned_within try_as_utf8_for host_stored grouped_pair.ungrouped .Values (Text.of "HOST") = .ok r ∧
      resolve_named_owned_within try_as_utf8_for host_stored grouped_pair .Values (Text.of "HOST") = .ok r := by
  have ht : ∃ r, resolve_named_owned_within try_as_utf8_for host_stored grouped_pair.ungrouped .Values
      (Text.of "HOST") = .ok r := by
    unfold resolve_named_owned_within
    rw [resolve_planned_eq (named_plan_ungrouped.trans host_planned)]
    exact ⟨_, rfl⟩
  obtain ⟨r, hr⟩ := ht
  exact ⟨r, hr, ((named_closure try_as_utf8_for host_stored grouped_pair .Values (Text.of "HOST")).2 pair_names rfl
    (by decide) host_plan host_planned r hr).mpr fun h => absurd h host_covers_little⟩

open Sample in
/-- Both secrets are stored and the lookup of the URL, whose closure is the whole profile,
    fails because of their group. -/
theorem a_group_fails_the_lookup :
    (∃ errors, resolve_named host_stored grouped_pair (Text.of "URL") = .error (.ValidationFailed errors)) ∧
      ∃ r, resolve_named host_stored grouped_pair.ungrouped (Text.of "URL") = .ok r := by
  rw [pair_lookup host_stored grouped_pair pair_planned rfl rfl,
    pair_lookup host_stored grouped_pair.ungrouped pair_planned rfl rfl]
  exact ⟨⟨_, rfl⟩, ⟨_, rfl⟩⟩

end Monosecret.Resolve
