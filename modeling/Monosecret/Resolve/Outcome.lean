/-
  Monosecret.Resolve.Outcome — what a resolution returns (`finish`, and
  `validate_audited_outcome_with` and the single-secret read, which plan for it).

  A `Selection` is what an operation exposes; it is planned with everything it transitively
  depends on. `execution_guarantee`: a resolution that validates has resolved every visible
  secret but the omitted ones, with a value when the pass materializes values, and every
  presence group it evaluates holds; one that reports errors names each visible secret and
  each group that failed. A value-free pass validates without values
  (`value_free_pass_has_no_value`).
-/

import Monosecret.Resolve.Dependencies

namespace Monosecret.Resolve

open Lib Plan Cache

/-! ## What an operation exposes -/

inductive Selection (profile : CompiledProfile) where
  | whole
  | filtered (visible : List Text) (declared : ∀ name ∈ visible, name ∈ profile.names)
  | named (name : Text) (declared : name ∈ profile.names)

namespace Selection

variable {profile : CompiledProfile} (selection : Selection profile)

/-- The names planned: the whole profile, or what is exposed and all it depends on. -/
def names : ClosedNames profile :=
  match selection with
  | whole => profile.all_names
  | filtered visible declared => profile.accessed visible declared
  | named name declared => profile.accessed [name] (by simpa using declared)

def filter : OutputFilter :=
  match selection with
  | filtered visible _ => some visible
  | _ => none

/-- Planned, and shown. -/
def Visible (name : Text) : Prop := name ∈ selection.names.names ∧ selection.filter.admits name = true

/-- Groups are judged for a scope and for a plan of the whole profile. -/
def evaluates : Bool := selection.filter.isSome || selection.names.names.length == profile.secrets.length

end Selection

/-- Plan a selection and run the plan. -/
def resolve {Identity : Type} (answers : Answers Identity) (profile_name : Text) (profile : CompiledProfile)
    (route_for : CompiledSecret → Except MonosecretError Route) (override_uri : Except MonosecretError (Option Text))
    (selection : Selection profile) (materialize : Materialize) : Except MonosecretError Outcome := do
  let plan ← build_plan_from_names profile_name profile route_for override_uri selection.names
  execute_plan answers plan materialize selection.filter profile

/-! ## The output filter -/

section

variable {Identity : Type} {filter : OutputFilter} {st : Execution Identity}

theorem mem_shown_resolution {e : SecretResolution} :
    e ∈ (apply_output_filter filter st).resolution ↔ e ∈ st.resolution ∧ filter.admits e.name := by
  cases filter with
  | none | some names => simp [apply_output_filter, OutputFilter.admits]

theorem mem_shown_required {name : Text} :
    name ∈ (apply_output_filter filter st).missing_required ↔ name ∈ st.missing_required ∧ filter.admits name := by
  cases filter with
  | none | some names => simp [apply_output_filter, OutputFilter.admits]

theorem mem_shown_optional {name : Text} :
    name ∈ (apply_output_filter filter st).missing_optional ↔ name ∈ st.missing_optional ∧ filter.admits name := by
  cases filter with
  | none | some names => simp [apply_output_filter, OutputFilter.admits]

theorem mem_shown_defaults {default : Text × Text} :
    default ∈ (apply_output_filter filter st).with_defaults ↔
      default ∈ st.with_defaults ∧ filter.admits default.1 := by
  cases filter with
  | none | some names => simp [apply_output_filter, OutputFilter.admits]

variable (filter st) in
/-- What the filter keeps of the three maps it filters. -/
theorem shown_maps (name : Text) :
    (apply_output_filter filter st).values name = (if filter.admits name then st.values name else none) ∧
    (apply_output_filter filter st).secret_expiries name =
      (if filter.admits name then st.secret_expiries name else none) ∧
    (apply_output_filter filter st).refreshes name = (if filter.admits name then st.refreshes name else none) := by
  cases filter with
  | none => simp [apply_output_filter, OutputFilter.admits]
  | some names => simp [apply_output_filter, OutputFilter.admits, Map.retain]

end

/-! ## Taking a resolution apart -/

/-- An entry says that a name resolved. -/
def ResolvedIn (resolution : List SecretResolution) (name : Text) : Prop :=
  ∃ entry ∈ resolution, entry.name = name ∧ entry.status = .Resolved

theorem mem_resolved_names {resolution : List SecretResolution} {name : Text} :
    name ∈ resolved_names resolution ↔ ResolvedIn resolution name := by
  simp only [resolved_names, ResolvedIn, List.mem_map, List.mem_filter, decide_eq_true_eq]
  constructor
  · rintro ⟨e, ⟨hm, hs⟩, hn⟩
    exact ⟨e, hm, hn, hs⟩
  · rintro ⟨e, hm, hn, hs⟩
    exact ⟨e, ⟨hm, hs⟩, hn⟩

/-- What `finish` makes of an execution. -/
inductive Finished {Identity : Type} (profile : CompiledProfile) (plan : ResolutionPlan) (filter : OutputFilter)
    (st : Execution Identity) : Outcome → Prop
  | validated (provider : Text) (complete : (apply_output_filter filter st).missing_required = [])
    (satisfied : constraint_violations profile plan filter (apply_output_filter filter st).resolution = []) :
    Finished profile plan filter st (.ok
      { values := (apply_output_filter filter st).values
        provider, profile := plan.profile
        missing_optional := (apply_output_filter filter st).missing_optional
        with_defaults := (apply_output_filter filter st).with_defaults
        resolution := (apply_output_filter filter st).resolution
        secret_expiries := (apply_output_filter filter st).secret_expiries
        refreshes := (apply_output_filter filter st).refreshes
        revisions := (apply_output_filter filter st).revisions })
  | failed (provider : Text) (failure : (apply_output_filter filter st).missing_required ≠ [] ∨
      constraint_violations profile plan filter (apply_output_filter filter st).resolution ≠ []) :
    Finished profile plan filter st (.error
      { missing_required := (apply_output_filter filter st).missing_required
        missing_optional := (apply_output_filter filter st).missing_optional
        with_defaults := (apply_output_filter filter st).with_defaults
        provider, profile := plan.profile
        resolution := (apply_output_filter filter st).resolution
        constraint_violations :=
          constraint_violations profile plan filter (apply_output_filter filter st).resolution })

section

variable {Identity : Type} {answers : Answers Identity} {profile : CompiledProfile} {plan : ResolutionPlan}
  {materialize : Materialize} {filter : OutputFilter}

theorem finish_ok {st : Execution Identity} {outcome : Outcome}
    (h : finish answers profile plan filter st = .ok outcome) : Finished profile plan filter st outcome := by
  obtain ⟨p, -, h⟩ := Except.bind_ok h
  simp only at h
  split at h
  · rename_i hf
    cases h
    refine .failed p ?_
    rw [Bool.or_eq_true] at hf
    exact hf.imp (by simp) (by simp)
  · rename_i hc
    cases h
    rw [Bool.or_eq_true, not_or] at hc
    exact .validated p (by simpa using hc.1) (by simpa using hc.2)

/-- A plan without secrets resolves to nothing; any other runs the two passes. -/
theorem execute_plan_ok {outcome : Outcome} (h : execute_plan answers plan materialize filter profile = .ok outcome) :
    (plan.secrets = [] ∧ outcome = .ok ⟨.empty, Text.of "", plan.profile, [], [], [], .empty, .empty, .empty⟩) ∨
    ∃ st fn, provider_pass answers plan materialize filter = .ok st ∧
      derived_pass answers plan materialize filter st = .ok fn ∧ Finished profile plan filter fn.st outcome := by
  unfold execute_plan at h
  by_cases he : plan.secrets.isEmpty
  · rw [if_pos he] at h
    cases h
    exact .inl ⟨by simpa using he, rfl⟩
  · rw [if_neg he] at h
    obtain ⟨st, hprovided, h⟩ := Except.bind_ok h
    obtain ⟨fn, hd, h⟩ := Except.bind_ok h
    exact .inr ⟨st, fn, hprovided, hd, finish_ok h⟩

end

/-! ## What is recorded -/

section

variable {Identity : Type} {answers : Answers Identity} {plan : ResolutionPlan} {materialize : Materialize}
  {filter : OutputFilter} {st : Execution Identity} {fn : Deriving Identity}
  (hprovided : provider_pass answers plan materialize filter = .ok st)
  (h : derived_pass answers plan materialize filter st = .ok fn)

include hprovided h in
/-- Everything recorded was planned. -/
theorem planned_of_entry {e : SecretResolution} (hm : e ∈ fn.st.resolution) :
    ∃ pl ∈ plan.secrets, pl.name = e.name := by
  by_contra hnn
  have hu : e.name ∉ plan.names := fun hn => hnn (List.mem_map.mp hn)
  have hi : e ∈ (fn.st.record e.name).entries := mem_entries.mpr ⟨hm, rfl⟩
  rw [unplanned_final hprovided h hu] at hi
  cases hi

theorem mem_missing_required {st : Execution Identity} {name : Text} :
    name ∈ st.missing_required ↔ name ∈ (st.record name).required := by
  simp [Execution.record]

include hprovided h in
theorem planned_of_missing {name : Text} (hm : name ∈ fn.st.missing_required) :
    ∃ pl ∈ plan.secrets, pl.name = name := by
  by_contra hnn
  have hu : name ∉ plan.names := fun hn => hnn (List.mem_map.mp hn)
  rw [mem_missing_required, unplanned_final hprovided h hu] at hm
  cases hm

variable {pl : PlannedSecret}

include hprovided h in
theorem settled_entry (hp : pl ∈ plan.secrets) {e : SecretResolution} (hm : e ∈ fn.st.resolution)
    (hn : e.name = pl.name) :
    (e.status = .Resolved) ∨
    (e.status = .MissingRequired ∧ pl.secret.missing ≠ .Omit ∧ pl.name ∈ fn.st.missing_required) ∨
    (e.status = .MissingOptional ∧ pl.secret.missing = .Omit ∧ e.required = false) := by
  have hi : e ∈ (fn.st.record pl.name).entries := mem_entries.mpr ⟨hm, hn⟩
  cases settled hprovided h hp with
  | resolved other he _ hs =>
    rw [he, List.mem_singleton] at hi
    exact .inl (hi ▸ hs)
  | required other he _ hs hl hr =>
    rw [he, List.mem_singleton] at hi
    refine .inr (.inl ⟨hi ▸ hs, hl, mem_missing_required.mpr ?_⟩)
    rw [hr]
    exact List.mem_singleton_self _
  | omitted other he hd hs hl =>
    rw [he, List.mem_singleton] at hi
    exact .inr (.inr ⟨hi ▸ hs, hl, by rw [hi, hd]; exact pl.secret.optional hl⟩)

include hprovided h in
/-- A planned secret resolved, is listed as missing, or is omitted. -/
theorem settled_name (hp : pl ∈ plan.secrets) (hl : pl.secret.missing ≠ .Omit) :
    Resolves fn.st pl.name ∨ (¬ Resolves fn.st pl.name ∧ pl.name ∈ fn.st.missing_required) := by
  obtain ⟨e, he⟩ := one_entry hprovided h hp
  have hi : e ∈ (fn.st.record pl.name).entries := by rw [he]; exact List.mem_singleton_self e
  obtain ⟨hm, hn⟩ := mem_entries.mp hi
  rcases settled_entry hprovided h hp hm hn with hs | ⟨hs, -, hms⟩ | ⟨-, ho, -⟩
  · exact .inl ⟨e, hm, hn, hs⟩
  · refine .inr ⟨?_, hms⟩
    rintro ⟨other, hoh, hon, hos⟩
    have hoi : other ∈ (fn.st.record pl.name).entries := mem_entries.mpr ⟨hoh, hon⟩
    rw [he, List.mem_singleton] at hoi
    rw [hoi, hs] at hos
    cases hos
  · exact absurd ho hl

include hprovided h in
theorem settled_value (hp : pl ∈ plan.secrets) (hps : materialize.values)
    (hr : Resolves fn.st pl.name) : ∃ value, fn.st.values pl.name = some value := by
  obtain ⟨e, hm, hn, hs⟩ := hr
  have hi : e ∈ (fn.st.record pl.name).entries := mem_entries.mpr ⟨hm, hn⟩
  cases settled hprovided h hp with
  | resolved other _ _ _ _ _ value => exact value hps
  | required other he _ hs' | omitted other he _ hs' =>
    rw [he, List.mem_singleton] at hi
    rw [hi, hs'] at hs
    cases hs

end

/-! ## Presence groups -/

/-- Of the members an operation sees, one at least resolved. -/
def AtLeastOne (filter : OutputFilter) (resolution : List SecretResolution) (group : ConstraintGroup) : Prop :=
  visible_members filter group.members ≠ [] →
    ∃ name ∈ visible_members filter group.members, ResolvedIn resolution name

/-- Of the members an operation sees, one resolved and no other. -/
def ExactlyOne (filter : OutputFilter) (resolution : List SecretResolution) (group : ConstraintGroup) : Prop :=
  visible_members filter group.members ≠ [] →
    ∃! name, name ∈ visible_members filter group.members ∧ ResolvedIn resolution name

/-- Every group of the profile holds. -/
def Satisfied (profile : CompiledProfile) (filter : OutputFilter) (resolution : List SecretResolution) : Prop :=
  (∀ group ∈ profile.at_least_one, AtLeastOne filter resolution group) ∧
    ∀ group ∈ profile.exactly_one, ExactlyOne filter resolution group

section

variable {profile : CompiledProfile} {plan : ResolutionPlan} {filter : OutputFilter} {resolution : List SecretResolution}

/-- The members that resolved. -/
def present (filter : OutputFilter) (resolution : List SecretResolution) (group : ConstraintGroup) : List Text :=
  (visible_members filter group.members).filter fun name => decide (name ∈ resolved_names resolution)

variable {group : ConstraintGroup}

theorem mem_present {name : Text} :
    name ∈ present filter resolution group ↔
      name ∈ visible_members filter group.members ∧ ResolvedIn resolution name := by
  rw [present, List.mem_filter, decide_eq_true_eq, mem_resolved_names]

theorem at_least_one_iff (hv : visible_members filter group.members ≠ []) :
    AtLeastOne filter resolution group ↔ present filter resolution group ≠ [] := by
  constructor
  · intro h
    obtain ⟨name, hm, hr⟩ := h hv
    exact List.ne_nil_of_mem (mem_present.mpr ⟨hm, hr⟩)
  · intro h _
    obtain ⟨name, hn⟩ := List.exists_mem_of_ne_nil _ h
    obtain ⟨hm, hr⟩ := mem_present.mp hn
    exact ⟨name, hm, hr⟩

theorem exactly_one_iff (hv : visible_members filter group.members ≠ []) :
    ExactlyOne filter resolution group ↔ (present filter resolution group).length = 1 := by
  have hn : (present filter resolution group).Nodup := (group.nodup.filter _).filter _
  rw [List.length_eq_one_iff]
  constructor
  · intro h
    obtain ⟨name, hm, hu⟩ := h hv
    exact ⟨name, eq_singleton_of_nodup hn (mem_present.mpr hm) fun other ho => hu other (mem_present.mp ho)⟩
  · rintro ⟨name, hm⟩ _
    have hmm : ∀ other, other ∈ present filter resolution group ↔ other = name := by
      intro other
      rw [hm, List.mem_singleton]
    exact ⟨name, mem_present.mp ((hmm name).mpr rfl), fun other ho => (hmm other).mp (mem_present.mpr ho)⟩

/-- A group that some member is seen of and that is broken is reported. -/
theorem mem_violations {k : ConstraintKind} {b : List Text → Bool} {g : List ConstraintGroup}
    {v : ConstraintViolation} :
    v ∈ violations_of k b filter resolution g ↔
      ∃ group ∈ g, visible_members filter group.members ≠ [] ∧ b (present filter resolution group) ∧
        v = ⟨k, group.name, visible_members filter group.members, present filter resolution group⟩ := by
  unfold violations_of
  rw [List.mem_filterMap]
  constructor
  · rintro ⟨group, hm, hg⟩
    simp only at hg
    split at hg
    · rename_i hb
      cases hg
      rw [Bool.and_eq_true] at hb
      exact ⟨group, hm, by simpa using hb.1, hb.2, rfl⟩
    · cases hg
  · rintro ⟨group, hm, hv, hb, rfl⟩
    refine ⟨group, hm, ?_⟩
    simp only
    rw [if_pos]
    · rfl
    · rw [Bool.and_eq_true]
      exact ⟨by simpa using hv, hb⟩

end

/-! ## The guarantee -/

/-- What a resolution promises of its outcome. -/
inductive Guarantee (profile : CompiledProfile) (selection : Selection profile) (materialize : Materialize) :
    Outcome → Prop
  | validated (v : ValidatedSecrets)
    (resolved : ∀ secret ∈ profile.secrets, selection.Visible secret.name → secret.missing ≠ .Omit →
      ResolvedIn v.resolution secret.name)
    (value : materialize.values = true → ∀ name, ResolvedIn v.resolution name → ∃ value, v.values name = some value)
    (required : ∀ entry ∈ v.resolution, entry.status ≠ .MissingRequired ∧ (entry.required = true → entry.status = .Resolved))
    (groups : selection.evaluates = true → Satisfied profile selection.filter v.resolution) :
    Guarantee profile selection materialize (.ok v)
  | failed (e : ValidationErrors)
    (failure : (∃ secret ∈ profile.secrets, selection.Visible secret.name ∧ secret.missing ≠ .Omit ∧
        ¬ ResolvedIn e.resolution secret.name) ∨
      selection.evaluates = true ∧ ¬ Satisfied profile selection.filter e.resolution)
    (named : ∀ secret ∈ profile.secrets, selection.Visible secret.name → secret.missing ≠ .Omit →
      ¬ ResolvedIn e.resolution secret.name → secret.name ∈ e.missing_required)
    (at_least_one : selection.evaluates = true → ∀ group ∈ profile.at_least_one,
      ¬ AtLeastOne selection.filter e.resolution group →
        ∃ violation ∈ e.constraint_violations, violation.kind = .AtLeastOne ∧ violation.group = group.name)
    (exactly_one : selection.evaluates = true → ∀ group ∈ profile.exactly_one,
      ¬ ExactlyOne selection.filter e.resolution group →
        ∃ violation ∈ e.constraint_violations, violation.kind = .ExactlyOne ∧ violation.group = group.name) :
    Guarantee profile selection materialize (.error e)

section

variable {Identity : Type} {answers : Answers Identity} {profile : CompiledProfile} {selection : Selection profile}
  {materialize : Materialize} {plan : ResolutionPlan} {st : Execution Identity} {fn : Deriving Identity}

/-- What the groups that are evaluated come to. -/
theorem violations_iff {filter : OutputFilter} {resolution : List SecretResolution}
    (he : evaluates_constraints profile plan filter) :
    (∀ group ∈ profile.at_least_one, ¬ AtLeastOne filter resolution group →
      ∃ v ∈ constraint_violations profile plan filter resolution,
        v.kind = .AtLeastOne ∧ v.group = group.name) ∧
    (∀ group ∈ profile.exactly_one, ¬ ExactlyOne filter resolution group →
      ∃ v ∈ constraint_violations profile plan filter resolution,
        v.kind = .ExactlyOne ∧ v.group = group.name) ∧
    (Satisfied profile filter resolution → constraint_violations profile plan filter resolution = []) := by
  have hl : constraint_violations profile plan filter resolution =
      violations_of .AtLeastOne (fun p => p.isEmpty) filter resolution profile.at_least_one ++
        violations_of .ExactlyOne (fun p => p.length != 1) filter resolution profile.exactly_one :=
    if_pos he
  rw [hl]
  refine ⟨?_, ?_, ?_⟩
  · intro group hg hr
    have hv : visible_members filter group.members ≠ [] := fun hn => hr fun hne => absurd hn hne
    rw [at_least_one_iff hv, not_not] at hr
    refine ⟨_, List.mem_append_left _ (mem_violations.mpr ⟨group, hg, hv, ?_, rfl⟩), rfl, rfl⟩
    rw [hr]
    rfl
  · intro group hg hr
    have hv : visible_members filter group.members ≠ [] := fun hn => hr fun hne => absurd hn hne
    rw [exactly_one_iff hv] at hr
    exact ⟨_, List.mem_append_right _ (mem_violations.mpr ⟨group, hg, hv, bne_iff_ne.mpr hr, rfl⟩), rfl, rfl⟩
  · rintro ⟨hs, hc⟩
    rw [List.append_eq_nil_iff]
    constructor
    · refine List.eq_nil_iff_forall_not_mem.mpr fun v hm => ?_
      obtain ⟨group, hg, hv, hb, -⟩ := mem_violations.mp hm
      exact (at_least_one_iff hv).mp (hs group hg) (List.isEmpty_iff.mp hb)
    · refine List.eq_nil_iff_forall_not_mem.mpr fun v hm => ?_
      obtain ⟨group, hg, hv, hb, -⟩ := mem_violations.mp hm
      exact bne_iff_ne.mp hb ((exactly_one_iff hv).mp (hc group hg))

variable (hprovided : provider_pass answers plan materialize selection.filter = .ok st)
  (h : derived_pass answers plan materialize selection.filter st = .ok fn)
  (hnames : plan.names = selection.names.names)
  (hget : ∀ pl ∈ plan.secrets, profile.get pl.name = some pl.secret)

include hnames hget in
/-- A visible secret of the profile is planned. -/
theorem planned_of_visible {secret : CompiledSecret} (hs : secret ∈ profile.secrets)
    (hv : selection.Visible secret.name) : ∃ pl ∈ plan.secrets, pl.secret = secret := by
  have hn := hv.1
  rw [← hnames] at hn
  obtain ⟨pl, hp, hpn⟩ := List.mem_map.mp hn
  have hl := hget pl hp
  rw [hpn, CompiledProfile.get, find_secret_of_mem profile.nodup hs] at hl
  exact ⟨pl, hp, (Option.some.inj hl).symm⟩

theorem resolvedIn_shown {name : Text} (hv : selection.filter.admits name) :
    ResolvedIn (apply_output_filter selection.filter fn.st).resolution name ↔ Resolves fn.st name := by
  constructor
  · rintro ⟨e, hm, hn, hs⟩
    exact ⟨e, (mem_shown_resolution.mp hm).1, hn, hs⟩
  · rintro ⟨e, hm, hn, hs⟩
    exact ⟨e, mem_shown_resolution.mpr ⟨hm, by rw [hn]; exact hv⟩, hn, hs⟩

include hnames in
theorem evaluates_eq : evaluates_constraints profile plan selection.filter = selection.evaluates := by
  unfold evaluates_constraints Selection.evaluates
  rw [← hnames, ResolutionPlan.names, List.length_map]

include hprovided h hnames hget in
theorem finished_guarantee {outcome : Outcome} (hf : Finished profile plan selection.filter fn.st outcome) :
    Guarantee profile selection materialize outcome := by
  have hev : selection.evaluates → evaluates_constraints profile plan selection.filter :=
    fun he => (evaluates_eq hnames).trans he
  have hvs : ∀ secret ∈ profile.secrets, selection.Visible secret.name → secret.missing ≠ .Omit →
      ResolvedIn (apply_output_filter selection.filter fn.st).resolution secret.name ∨
      (¬ ResolvedIn (apply_output_filter selection.filter fn.st).resolution secret.name ∧
        secret.name ∈ (apply_output_filter selection.filter fn.st).missing_required) := by
    intro secret hs hv hl
    obtain ⟨pl, hp, rfl⟩ := planned_of_visible hnames hget hs hv
    rw [resolvedIn_shown hv.2, mem_shown_required]
    exact (settled_name hprovided h hp hl).imp id (And.imp id fun hm => ⟨hm, hv.2⟩)
  cases hf with
  | validated p c s =>
    refine .validated _ ?_ ?_ ?_ ?_
    · intro secret hs hv hl
      refine (hvs secret hs hv hl).resolve_right fun hms => ?_
      rw [c] at hms
      cases hms.2
    · rintro hps name ⟨e, hm, hn, hs⟩
      obtain ⟨hmm, ha⟩ := mem_shown_resolution.mp hm
      obtain ⟨pl, hp, hpm⟩ := planned_of_entry hprovided h hmm
      have hpn : pl.name = name := hpm.trans hn
      obtain ⟨value, hva⟩ := settled_value hprovided h hp hps ⟨e, hmm, hpm.symm, hs⟩
      have hsh := (shown_maps selection.filter fn.st name).1
      rw [if_pos (hn ▸ ha)] at hsh
      exact ⟨value, hsh.trans (hpn ▸ hva)⟩
    · intro e hm
      obtain ⟨hmm, ha⟩ := mem_shown_resolution.mp hm
      obtain ⟨pl, hp, hpm⟩ := planned_of_entry hprovided h hmm
      rcases settled_entry hprovided h hp hmm hpm.symm with hs | ⟨hs, -, hms⟩ | ⟨hs, -, hd⟩
      · exact ⟨by rw [hs]; simp, fun _ => hs⟩
      · have hsh := mem_shown_required.mpr ⟨hms, hpm ▸ ha⟩
        rw [c] at hsh
        cases hsh
      · refine ⟨by rw [hs]; simp, fun hr => ?_⟩
        rw [hd] at hr
        cases hr
    · intro he
      obtain ⟨hls, hc, -⟩ := @violations_iff _ _ _ (apply_output_filter selection.filter fn.st).resolution
        (hev he)
      rw [s] at hls hc
      constructor
      · intro group hg
        by_contra hb
        obtain ⟨_, hm, -⟩ := hls group hg hb
        cases hm
      · intro group hg
        by_contra hb
        obtain ⟨_, hm, -⟩ := hc group hg hb
        cases hm
  | failed p f =>
    refine .failed _ ?_ ?_ ?_ ?_
    · rcases f with hms | hvl
      · obtain ⟨name, hn⟩ := List.exists_mem_of_ne_nil _ hms
        obtain ⟨hmm, ha⟩ := mem_shown_required.mp hn
        obtain ⟨pl, hp, rfl⟩ := planned_of_missing hprovided h hmm
        have hq := mem_missing_required.mp hmm
        have hdc := find_secret_some (hget pl hp)
        refine .inl ⟨pl.secret, hdc.1, ⟨?_, ha⟩, ?_⟩
        · rw [← hnames]
          exact List.mem_map_of_mem hp
        · rw [resolvedIn_shown ha]
          cases settled hprovided h hp with
          | resolved _ _ _ _ hr =>
            rw [hr] at hq
            cases hq
          | required other he _ hs hl =>
            refine ⟨hl, ?_⟩
            rintro ⟨e, hm, hn, ht⟩
            have hi : e ∈ (fn.st.record pl.name).entries := mem_entries.mpr ⟨hm, hn⟩
            rw [he, List.mem_singleton] at hi
            rw [hi, hs] at ht
            cases ht
          | omitted _ _ _ _ _ hr =>
            rw [hr] at hq
            cases hq
      · have he : evaluates_constraints profile plan selection.filter := by
          by_contra hne
          exact hvl (if_neg hne)
        refine .inr ⟨(evaluates_eq hnames).symm.trans he, fun hsa => hvl ?_⟩
        exact (violations_iff he).2.2 hsa
    · intro secret hs hv hl hms
      exact ((hvs secret hs hv hl).resolve_left hms).2
    · exact fun he => (violations_iff (hev he)).1
    · exact fun he => (violations_iff (hev he)).2.1

/-- Without secrets to plan nothing is visible, and no group is judged. -/
theorem empty_guarantee (hem : selection.names.names = []) (pr p : Text) :
    Guarantee profile selection materialize (.ok
      ⟨.empty, pr, p, [], [], [], .empty, .empty, .empty⟩) := by
  have hmm : selection.evaluates → ∀ group ∈ profile.at_least_one ++ profile.exactly_one,
      visible_members selection.filter group.members = [] := by
    intro he group hr
    refine List.filter_eq_nil_iff.mpr fun name hn ha => ?_
    have hd := profile.grouped group hr name hn
    cases selection with
    | whole =>
      have hnn : profile.names = [] := hem
      rw [CompiledProfile.names] at hnn
      rw [hnn] at hd
      cases hd
    | filtered visible declared =>
      have hi : name ∈ profile.accessed_names visible :=
        (CompiledProfile.mem_accessed_names visible name).mpr ⟨name, of_decide_eq_true ha, .refl⟩
      have hnn : profile.accessed_names visible = [] := hem
      rw [hnn] at hi
      cases hi
    | named t declared =>
      have hi : t ∈ profile.accessed_names [t] :=
        (CompiledProfile.mem_accessed_names [t] t).mpr ⟨t, List.mem_singleton_self _, .refl⟩
      have hnn : profile.accessed_names [t] = [] := hem
      rw [hnn] at hi
      cases hi
  refine .validated _ ?_ ?_ ?_ ?_
  · intro secret _ hv
    have hn := hv.1
    rw [hem] at hn
    cases hn
  · rintro - name ⟨e, hm, -⟩
    cases hm
  · intro e hm
    cases hm
  · intro he
    constructor
    · exact fun group hg hne => absurd (hmm he group (List.mem_append_left _ hg)) hne
    · exact fun group hg hne => absurd (hmm he group (List.mem_append_right _ hg)) hne

end

/-- Every resolution that returns keeps its promise. -/
theorem execution_guarantee {Identity : Type} {answers : Answers Identity} {profile_name : Text}
    {profile : CompiledProfile} {route_for : CompiledSecret → Except MonosecretError Route}
    {override_uri : Except MonosecretError (Option Text)} {selection : Selection profile} {materialize : Materialize}
    {outcome : Outcome}
    (h : resolve answers profile_name profile route_for override_uri selection materialize = .ok outcome) :
    Guarantee profile selection materialize outcome := by
  obtain ⟨plan, hp, hr⟩ := Except.bind_ok h
  obtain ⟨hnames, -, hget⟩ := build_plan_ok hp
  rcases execute_plan_ok hr with ⟨he, rfl⟩ | ⟨st, fn, hprovided, hd, hf⟩
  · refine empty_guarantee ?_ _ _
    rw [← hnames, ResolutionPlan.names, he]
    rfl
  · exact finished_guarantee hprovided hd hnames hget hf

namespace Sample

def token_profile : CompiledProfile := profile_of (stored (Text.of "TOKEN") .Error must) rfl

/-- The token is stored. -/
def token_stored : Answers Unit := answers (.ok fun _ => some ⟨[104], none, none⟩) fun _ => .ok none

def resolve_token (materialize : Materialize) : Except MonosecretError Outcome :=
  resolve token_stored (Text.of "default") token_profile (fun _ => .ok (chain_route [])) (.ok none) .whole materialize

end Sample

open Sample in
/-- The pass of a report validates a required secret it holds no value of. -/
theorem value_free_pass_has_no_value :
    (resolve_token .None).map (fun outcome => outcome.toOption.map fun v =>
      (v.resolution.map fun entry => (entry.name, entry.status), v.values (Text.of "TOKEN"))) =
      .ok (some ([(Text.of "TOKEN", .Resolved)], none)) := rfl

open Sample in
theorem token_guarantee : ∃ outcome, resolve_token .Values = .ok outcome ∧
    Guarantee token_profile .whole .Values outcome := by
  cases h : resolve_token .Values with
  | error e => cases h
  | ok outcome => exact ⟨outcome, rfl, execution_guarantee h⟩

end Monosecret.Resolve
