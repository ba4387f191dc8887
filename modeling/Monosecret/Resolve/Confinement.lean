/-
  Monosecret.Resolve.Confinement — what a scoped resolution tells of the secrets outside
  its scope (`apply_output_filter`, `diagnostic_secret_name`).

  A scope is planned with everything it transitively depends on, so hidden secrets are read
  and then dropped from the output. `scope_confinement`: stores are asked for names of the
  closure only, errors mention visible names only, and validated secrets do so exactly when
  no hidden secret is served with a revision: the filter leaves `revisions` alone
  (`a_hidden_revision_escapes`).
-/

import Monosecret.Resolve.Deadlines

namespace Monosecret.Resolve

open Lib Plan Cache

/-- The source a derivation names. -/
def Derivation.source : Derivation → Option String
  | .Composed => none
  | .ConvertedFrom source => some source
  | .SelectedFrom source => some source

/-- Entries of visible secrets, which name visible sources or none. -/
structure ConfinedResolution (visible : List Text) (resolution : List SecretResolution) : Prop where
  names : ∀ entry ∈ resolution, entry.name ∈ visible
  sources : ∀ entry ∈ resolution, ∀ source, entry.derivation.bind Derivation.source = some source →
    source = HIDDEN_SECRET_LABEL ∨ ∃ name ∈ visible, source = name.text

structure ConfinedErrors (visible : List Text) (e : ValidationErrors) : Prop where
  missing_required : ∀ name ∈ e.missing_required, name ∈ visible
  missing_optional : ∀ name ∈ e.missing_optional, name ∈ visible
  with_defaults : ∀ default ∈ e.with_defaults, default.1 ∈ visible
  resolution : ConfinedResolution visible e.resolution
  constraint_violations : ∀ violation ∈ e.constraint_violations,
    (∀ name ∈ violation.secrets, name ∈ visible) ∧ ∀ name ∈ violation.present, name ∈ visible

structure ConfinedSecrets (visible : List Text) (v : ValidatedSecrets) : Prop where
  values : ∀ name value, v.values name = some value → name ∈ visible
  missing_optional : ∀ name ∈ v.missing_optional, name ∈ visible
  with_defaults : ∀ default ∈ v.with_defaults, default.1 ∈ visible
  resolution : ConfinedResolution visible v.resolution
  secret_expiries : ∀ name expiry, v.secret_expiries name = some expiry → name ∈ visible
  refreshes : ∀ name refresh, v.refreshes name = some refresh → name ∈ visible
  revisions : ∀ name revision, v.revisions name = some revision → name ∈ visible

section

variable {Identity : Type} (answers : Answers Identity) (plan : ResolutionPlan)

/-- The revision of the value a secret's route serves. -/
def served_revision (planned : PlannedSecret) : Option Revision :=
  match planned.route with
  | none => none
  | some route =>
    match source_result answers plan planned route with
    | .value served => served.revision.map fun revision => answers.effective_revision revision planned
    | _ => none

/-- Every name a store is asked for: its cache entry, its primary's batch, its fallbacks. -/
def asked_names : List Text :=
  ((plan.secrets.filter fun planned => planned.route.isSome).map PlannedSecret.name) ++
    ((pending_groups answers plan).flatMap fun group => group.2.map PlannedSecret.name) ++
    ((plan.secrets.filter fun planned => ((planned.route.map Route.fallback).getD []) ≠ []).map PlannedSecret.name)

variable {answers plan} {materialize : Materialize} {filter : OutputFilter} {st : Execution Identity}
  {f : Deriving Identity}

/-! ## What is asked -/

theorem asked_planned {nm : Text} (h : nm ∈ asked_names answers plan) : nm ∈ plan.names := by
  have hf : ∀ p : PlannedSecret → Bool, ∀ n ∈ (plan.secrets.filter p).map PlannedSecret.name, n ∈ plan.names := by
    intro p n hn
    obtain ⟨planned, hp, rfl⟩ := List.mem_map.mp hn
    exact List.mem_map_of_mem (List.mem_filter.mp hp).1
  rcases List.mem_append.mp h with h | h
  · rcases List.mem_append.mp h with h | h
    · exact hf _ nm h
    · obtain ⟨g, hg, hm⟩ := List.mem_flatMap.mp h
      obtain ⟨planned, hl, rfl⟩ := List.mem_map.mp hm
      obtain ⟨whole, hw, rfl⟩ := List.mem_map.mp (List.mem_filter.mp hg).1
      exact List.mem_map_of_mem (groups_members plan.secrets hw (List.mem_filter.mp hl).1).1
  · exact hf _ nm h

/-! ## Revisions -/

variable {planned : PlannedSecret}

theorem provided_revision {rt : Route} (ht : planned.route = some rt) {r : Record Identity}
    (hr : Provided answers plan materialize filter planned rt r) :
    r.revision = served_revision answers plan planned := by
  cases hr with
  | served found read refresh record | missed read record =>
    simp only [served_revision, ht, read]
    cases record <;> rfl

/-- The derived pass adds no revision. -/
theorem evaluated_revision {d : Deriving Identity} {s s' : Option ResolutionStatus} {r r' : Record Identity}
    (h : Evaluated answers plan materialize filter d planned s r s' r') : r'.revision = r.revision := by
  have hm : (d.merged planned r).revision = r.revision := by
    unfold Deriving.merged
    by_cases hr : d.dependencies_resolved planned
    · rw [if_pos hr]
    · rw [if_neg hr]
  cases h with
  | unfetched | kept | finalized => exact hm
  | lost_optional | lost_required => rfl
  | valued | reported => exact hm
  | required | optional => rfl

theorem final_revision (hprovided : provider_pass answers plan materialize filter = .ok st)
    (h : derived_pass answers plan materialize filter st = .ok f) (hp : planned ∈ plan.secrets) :
    f.st.revisions planned.name = served_revision answers plan planned := by
  have hs : (st.record planned.name).revision = served_revision answers plan planned := by
    cases hr : planned.route with
    | none =>
      rw [underived_record hprovided hp hr]
      simp only [served_revision, hr]
      rfl
    | some r => exact provided_revision hr (provided_record hprovided hp hr)
  change (f.st.record planned.name).revision = _
  by_cases hn : planned ∈ plan.nodes
  · exact (evaluated_revision (node_evaluated h hn)).trans hs
  · have hm : f.st.record planned.name = st.record planned.name :=
      congrArg Prod.snd (leaf_untouched h fun hnm => hn (node_name hp hnm))
    rw [hm]
    exact hs

/-! ## Derivations -/

/-- The entries show what `derivation_of` shows. -/
def Masked (filter : OutputFilter) (r : Record Identity) : Prop :=
  ∀ entry ∈ r.entries, entry.derivation = none ∨ ∃ planned, entry.derivation = derivation_of filter planned

theorem provided_masked {rt : Route} {r : Record Identity}
    (hr : Provided answers plan materialize filter planned rt r) : Masked filter r := by
  have ho : ∀ {r : Record Identity} {e : SecretResolution}, r.entries = [e] → e.derivation = none →
      Masked filter r := by
    intro r e he hn other hm
    rw [he, List.mem_singleton] at hm
    exact .inl (hm ▸ hn)
  cases hr with
  | served _ _ _ record | missed _ record => cases record <;> exact ho rfl rfl

theorem evaluated_masked {d : Deriving Identity} {s s' : Option ResolutionStatus} {r r' : Record Identity}
    (hr : Masked filter r) (h : Evaluated answers plan materialize filter d planned s r s' r') : Masked filter r' := by
  have hmr : Masked filter (d.merged planned r) := by
    intro entry hm
    rw [merged_entries] at hm
    exact hr entry hm
  have hw : ∀ status, ∀ entry ∈ r.entries.map (fun entry => { entry with status }),
      entry.derivation = none ∨ ∃ planned, entry.derivation = derivation_of filter planned := by
    intro status entry hm
    obtain ⟨other, ho, rfl⟩ := List.mem_map.mp hm
    exact hr other ho
  have ha : ∀ en : List SecretResolution,
      (∀ entry ∈ en, entry.derivation = none ∨ ∃ planned, entry.derivation = derivation_of filter planned) →
      ∀ status, ∀ entry ∈ en ++ [derived_entry filter planned status],
        entry.derivation = none ∨ ∃ planned, entry.derivation = derivation_of filter planned := by
    intro en he status entry hm
    rcases List.mem_append.mp hm with hm | hm
    · exact he entry hm
    · rw [List.mem_singleton] at hm
      exact .inr ⟨planned, by rw [hm]; rfl⟩
  cases h with
  | unfetched | kept | finalized => exact hmr
  | lost_optional | lost_required => exact hw _
  | valued | reported => exact ha _ hmr _
  | required | optional => exact ha _ hr _

theorem final_masked (hprovided : provider_pass answers plan materialize filter = .ok st)
    (h : derived_pass answers plan materialize filter st = .ok f) (hp : planned ∈ plan.secrets) :
    Masked filter (f.st.record planned.name) := by
  have hs : Masked filter (st.record planned.name) := by
    cases hr : planned.route with
    | none =>
      rw [underived_record hprovided hp hr]
      exact nofun
    | some r => exact provided_masked (provided_record hprovided hp hr)
  by_cases hn : planned ∈ plan.nodes
  · exact evaluated_masked hs (node_evaluated h hn)
  · have hm : f.st.record planned.name = st.record planned.name :=
      congrArg Prod.snd (leaf_untouched h fun hnm => hn (node_name hp hnm))
    rw [hm]
    exact hs

theorem derivation_source {visible : List Text} {source : String}
    (h : (derivation_of (some visible) planned).bind Derivation.source = some source) :
    source = HIDDEN_SECRET_LABEL ∨ ∃ n ∈ visible, source = n.text := by
  have hsh : ∀ n : Text, diagnostic_secret_name n (some visible) = HIDDEN_SECRET_LABEL ∨
      ∃ s ∈ visible, diagnostic_secret_name n (some visible) = s.text := by
    intro n
    unfold diagnostic_secret_name OutputFilter.admits
    by_cases hv : n ∈ visible
    · exact .inr ⟨n, hv, by simp [hv]⟩
    · exact .inl (by simp [hv])
  unfold derivation_of at h
  split at h
  · cases h
  · cases hs : planned.secret.source with
    | none =>
      rw [hs] at h
      cases h
    | some n =>
      rw [hs] at h
      have hn : diagnostic_secret_name n (some visible) = source := by
        cases hx : planned.secret.extracts with
        | true | false => simpa [hx, Derivation.source] using h
      exact hn ▸ hsh n

/-! ## The filter -/

theorem admits_some {visible : List Text} {n : Text} :
    OutputFilter.admits (some visible) n ↔ n ∈ visible := decide_eq_true_iff

section

variable {visible : List Text} {profile : CompiledProfile}
  (hprovided : provider_pass answers plan materialize (some visible) = .ok st)
  (h : derived_pass answers plan materialize (some visible) st = .ok f)

include hprovided h in
theorem confined_resolution :
    ConfinedResolution visible (apply_output_filter (some visible) f.st).resolution := by
  constructor
  · exact fun e hm => admits_some.mp (mem_shown_resolution.mp hm).2
  · intro e hm s hs
    obtain ⟨hmm, -⟩ := mem_shown_resolution.mp hm
    obtain ⟨planned, hp, hn⟩ := planned_of_entry hprovided h hmm
    rcases final_masked hprovided h hp e (mem_entries.mpr ⟨hmm, hn.symm⟩) with hnn | ⟨other, ho⟩
    · rw [hnn] at hs
      cases hs
    · rw [ho] at hs
      exact derivation_source hs

theorem confined_violations {r : List SecretResolution} {v : ConstraintViolation}
    (hm : v ∈ constraint_violations profile plan (some visible) r) :
    (∀ n ∈ v.secrets, n ∈ visible) ∧ ∀ n ∈ v.present, n ∈ visible := by
  have ho : ∀ k b g, v ∈ violations_of k b (some visible) r g →
      (∀ n ∈ v.secrets, n ∈ visible) ∧ ∀ n ∈ v.present, n ∈ visible := by
    intro k b g hm
    obtain ⟨gr, -, -, -, rfl⟩ := mem_violations.mp hm
    have hmm : ∀ n ∈ visible_members (some visible) gr.members, n ∈ visible :=
      fun n hn => admits_some.mp (List.mem_filter.mp hn).2
    exact ⟨hmm, fun n hn => hmm n (mem_present.mp hn).1⟩
  unfold constraint_violations at hm
  split at hm
  · rcases List.mem_append.mp hm with hm | hm
    · exact ho _ _ _ hm
    · exact ho _ _ _ hm
  · cases hm

include hprovided h in
theorem finished_errors {e : ValidationErrors} (hf : Finished profile plan (some visible) f.st (.error e)) :
    ConfinedErrors visible e := by
  cases hf
  exact {
    missing_required := fun n hm => admits_some.mp (mem_shown_required.mp hm).2
    missing_optional := fun n hm => admits_some.mp (mem_shown_optional.mp hm).2
    with_defaults := fun default hm => admits_some.mp (mem_shown_defaults.mp hm).2
    resolution := confined_resolution hprovided h
    constraint_violations := fun violation (hm : violation ∈ constraint_violations profile plan (some visible)
      (apply_output_filter (some visible) f.st).resolution) => confined_violations hm }

/-- A map that the filter went over holds visible names only. -/
theorem shown_visible {α : Type} {m : Option α} {n : Text} {value : α}
    (hm : (if OutputFilter.admits (some visible) n then m else none) = some value) : n ∈ visible := by
  by_cases hv : OutputFilter.admits (some visible) n
  · exact admits_some.mp hv
  · rw [if_neg hv] at hm
    cases hm

include hprovided h in
/-- Only the revisions can tell of a hidden secret. -/
theorem finished_secrets {v : ValidatedSecrets} (hf : Finished profile plan (some visible) f.st (.ok v)) :
    ConfinedSecrets visible v ↔
      ∀ planned ∈ plan.secrets, planned.name ∉ visible → served_revision answers plan planned = none := by
  cases hf
  constructor
  · intro hc planned hp hd
    cases hr : served_revision answers plan planned with
    | none => rfl
    | some revision =>
      refine absurd (hc.revisions planned.name revision ?_) hd
      exact (final_revision hprovided h hp).trans hr
  · intro hnn
    exact {
      values := fun n value hm => shown_visible ((shown_maps (some visible) f.st n).1.symm.trans hm)
      missing_optional := fun n hm => admits_some.mp (mem_shown_optional.mp hm).2
      with_defaults := fun default hm => admits_some.mp (mem_shown_defaults.mp hm).2
      resolution := confined_resolution hprovided h
      secret_expiries := fun n e hm =>
        shown_visible ((shown_maps (some visible) f.st n).2.1.symm.trans hm)
      refreshes := fun n r hm =>
        shown_visible ((shown_maps (some visible) f.st n).2.2.symm.trans hm)
      revisions := by
        intro n revision hm
        have hfn : (f.st.record n).revision = some revision := hm
        by_contra hd
        by_cases hn : n ∈ plan.names
        · obtain ⟨planned, hp, rfl⟩ := List.mem_map.mp hn
          have hs := final_revision hprovided h hp
          rw [hnn planned hp hd] at hs
          rw [show f.st.revisions planned.name = some revision from hm] at hs
          cases hs
        · rw [unplanned_final hprovided h hn] at hfn
          cases hfn }

end

end

theorem empty_confined {visible : List Text} {p profile : Text} :
    ConfinedSecrets visible ⟨.empty, p, profile, [], [], [], .empty, .empty, .empty⟩ where
  values name value hm := by cases hm
  missing_optional name hm := by cases hm
  with_defaults default hm := by cases hm
  resolution := ⟨fun e hm => (by cases hm), fun e hm => (by cases hm)⟩
  secret_expiries name expiry hm := by cases hm
  refreshes name refresh hm := by cases hm
  revisions name revision hm := by cases hm

/-- A scope asks for its closure only, and tells of nothing outside but a hidden revision. -/
theorem scope_confinement {Identity : Type} {answers : Answers Identity} {profile_name : Text}
    {profile : CompiledProfile} {route_for : CompiledSecret → Except MonosecretError Route}
    {override_uri : Except MonosecretError (Option Text)} {visible : List Text}
    {declared : ∀ name ∈ visible, name ∈ profile.names} {materialize : Materialize} {plan : ResolutionPlan}
    (hplan : build_plan_from_names profile_name profile route_for override_uri
      (Selection.filtered visible declared).names = .ok plan) :
    (∀ name ∈ asked_names answers plan, profile.InClosure visible name) ∧
    (∀ e, resolve answers profile_name profile route_for override_uri (.filtered visible declared) materialize =
      .ok (.error e) → ConfinedErrors visible e) ∧
    (∀ v, resolve answers profile_name profile route_for override_uri (.filtered visible declared) materialize =
      .ok (.ok v) →
        (ConfinedSecrets visible v ↔
          ∀ planned ∈ plan.secrets, planned.name ∉ visible → served_revision answers plan planned = none)) := by
  have hr : resolve answers profile_name profile route_for override_uri (.filtered visible declared) materialize =
      execute_plan answers plan materialize (some visible) profile := by
    unfold resolve
    rw [hplan]
    rfl
  rw [hr]
  refine ⟨?_, ?_, ?_⟩
  · intro name hn
    have hl := asked_planned hn
    rw [(build_plan_ok hplan).1] at hl
    exact (CompiledProfile.mem_accessed_names visible name).mp hl
  · intro e h
    rcases execute_plan_ok h with ⟨-, he⟩ | ⟨st, f, hprovided, hd, hf⟩
    · cases he
    · exact finished_errors hprovided hd hf
  · intro v h
    rcases execute_plan_ok h with ⟨hs, he⟩ | ⟨st, f, hprovided, hd, hf⟩
    · cases he
      rw [hs]
      exact iff_of_true empty_confined fun _ hp => by cases hp
    · exact finished_secrets hprovided hd hf

/-! ## The counterexample -/

namespace Sample

/-- The host is stored with a revision. -/
def host_revised : Answers Unit :=
  answers (.ok fun _ => some ⟨[104], none, some (Text.of "version-7")⟩) fun _ => .ok none

theorem url_declared : ∀ n ∈ [Text.of "URL"], n ∈ url_profile.names := by decide

/-- The scope of the URL alone. -/
def url_scope : Selection url_profile := .filtered [Text.of "URL"] url_declared

theorem url_scope_names : url_scope.names.names = [Text.of "HOST", Text.of "URL"] :=
  List.mergeSort_of_pairwise (by decide)

/-- The scope's plan: the URL and the host it hides. -/
def url_scope_plan : ResolutionPlan where
  profile := Text.of "default"
  override_uri := none
  secrets := [host, url]
  nodup := by decide
  closed := by decide
  acyclic := ⟨fun name => if name = Text.of "URL" then 1 else 0, by decide⟩

theorem url_scope_planned : build_plan_from_names (Text.of "default") url_profile (fun _ => .ok (chain_route []))
    (.ok none) url_scope.names = .ok url_scope_plan := by
  refine @build_plan_eq _ _ url_scope_plan _ ?_
  rw [url_scope_names]
  rfl

def resolve_url (answers : Answers Unit) : Except MonosecretError Outcome :=
  resolve answers (Text.of "default") url_profile (fun _ => .ok (chain_route [])) (.ok none) url_scope .Values

theorem resolve_url_eq (answers : Answers Unit) :
    resolve_url answers = execute_plan answers url_scope_plan .Values (some [Text.of "URL"]) url_profile := by
  unfold resolve_url resolve
  rw [url_scope_planned]
  rfl

end Sample

open Sample in
/-- A scope that shows the URL reports the revision of the host it hides. -/
theorem a_hidden_revision_escapes : ∃ v, resolve_url host_revised = .ok (.ok v) ∧
    v.revisions (Text.of "HOST") = some (Text.of "version-7") ∧ ¬ ConfinedSecrets [Text.of "URL"] v := by
  have hr : (resolve_url host_revised).map (fun o => o.toOption.map fun v =>
      v.revisions (Text.of "HOST")) = .ok (some (some (Text.of "version-7"))) := by
    rw [resolve_url_eq]
    rfl
  cases h : resolve_url host_revised with
  | error e =>
    rw [h] at hr
    cases hr
  | ok o =>
    rw [h] at hr
    cases o with
    | error e => cases hr
    | ok v =>
      have he : v.revisions (Text.of "HOST") = some (Text.of "version-7") :=
        Option.some.inj (Except.ok.inj hr)
      exact ⟨v, rfl, he, fun hc => absurd (hc.revisions _ _ he) (by decide)⟩

open Sample in
/-- Without a hidden revision the same scope is confined. -/
theorem url_scope_confined : ∃ v, resolve_url host_stored = .ok (.ok v) ∧ ConfinedSecrets [Text.of "URL"] v := by
  have hv : (resolve_url host_stored).map (fun o => o.toOption.isSome) = .ok true := by
    rw [resolve_url_eq]
    rfl
  cases h : resolve_url host_stored with
  | error e =>
    rw [h] at hv
    cases hv
  | ok o =>
    rw [h] at hv
    cases o with
    | error e => cases hv
    | ok v =>
      refine ⟨v, rfl, ((scope_confinement url_scope_planned).2.2 v h).mpr ?_⟩
      intro planned hp _
      rcases List.mem_cons.mp hp with rfl | hp
      · rfl
      · rw [List.mem_singleton.mp hp]
        rfl

end Monosecret.Resolve
