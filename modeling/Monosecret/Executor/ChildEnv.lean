/-
  Monosecret.Executor.ChildEnv — the environment `run` gives its child
  (`run_command_with_selection` in `monosecret/src/secrets.rs`).

  The child inherits the parent's environment; what was resolved is set in it, and the
  declared names of every profile that the surface does not admit are taken out. The three
  never meet (`child_environment`): a pass exposes admitted names only, and a name is taken
  out only when it is not admitted.

  An environment is a map of byte strings, as on Unix. Spawning, signals and audit records
  are left out.
-/

import Monosecret.Executor.Returned

namespace Monosecret.Executor

open Lib Manifest
open Plan (MonosecretError)
open Cache (SecretBytes utf8)
open Resolve (Materialize ResolutionStatus utf8_text)

abbrev OsString := List UInt8

abbrev Environment := Map OsString OsString

theorem utf8_injective {a b : String} (h : utf8 a = utf8 b) : a = b := by
  have hr := utf8_text_utf8 a
  rw [h, utf8_text_utf8] at hr
  exact (Option.some.inj hr).symm

/-! ## What a session exposes -/

/-- The members of the active scope and what an include or group filter selects; none when
    there is no scope, or no filter. -/
structure Surface where
  scope : Option (List String)
  selected : Option (List String)

namespace Surface

variable (surface : Surface)

def admits (name : String) : Bool :=
  surface.scope.all (fun members => decide (name ∈ members)) && surface.selected.all fun names => decide (name ∈ names)

def filtered : Bool := surface.scope.isSome || surface.selected.isSome

/-- `resolve_profile_secret_names`, and what is selected of it. -/
def visible (profile : CompiledProfile) : List String := profile.names.filter surface.admits

def selection (profile : CompiledProfile) : Selection profile :=
  if surface.filtered then .closure (surface.visible profile) fun _ hn => (List.mem_filter.mp hn).1 else .whole

def output_filter (profile : CompiledProfile) : OutputFilter :=
  if surface.filtered then some (surface.visible profile) else none

/-- The declared names, of all profiles, that are not admitted. -/
def excluded_names (spec : CompiledSpec) : List String :=
  if surface.filtered then
    sorted_set ((spec.profiles.flatMap fun profile => profile.2.names).filter fun name => !surface.admits name)
  else []

end Surface

/-! ## The child -/

/-- What a command changes of the environment it inherits. -/
structure Command where
  changes : Map OsString (Option OsString)

namespace Command

def envs (vars : Environment) (command : Command) : Command := ⟨fun key => ((vars key).map some).or (command.changes key)⟩

def env_remove (key : OsString) (command : Command) : Command := ⟨command.changes.insert key none⟩

def environment (parent : Environment) (command : Command) : Environment := fun key =>
  match command.changes key with
  | some change => change
  | none => parent key

end Command

/-- Secrets overwrite variables of the same name. -/
def child_env_from (vars : Environment) (secrets : List (String × OsString)) : Environment :=
  secrets.foldl (fun env secret => env.insert (utf8 secret.1) secret.2) vars

def try_as_env_value_for (name : String) (value : SecretBytes) : Except MonosecretError OsString :=
  if 0 ∈ value then
    .error (.Other
      s!"Secret '{name}' is not usable as text: it contains a NUL byte, which cannot be passed in a process environment")
  else .ok value

/-- What a pass returned, when nothing required is missing. -/
def validated_outcome (outcome : Outcome) : Except MonosecretError Outcome :=
  if !outcome.violations.isEmpty then .error (.Other ("Secret constraints failed: " ++ String.intercalate "; " outcome.violations))
  else if !outcome.missing_required.isEmpty then
    .error (.Other ("Secret '" ++ String.intercalate ", " outcome.missing_required ++ "' is required but not set"))
  else .ok outcome

/-- The resolved secrets of a profile as environment values. -/
def env_values (profile : CompiledProfile) (outcome : Outcome) : Except MonosecretError (List (String × OsString)) :=
  (profile.names.filterMap fun name => (outcome.values name).map fun value => (name, value)).mapM fun secret =>
    (try_as_env_value_for secret.1 secret.2).map fun value => (secret.1, value)

section

variable {Provider Address Identity : Type} (world : World Provider Address Identity) (planner : Planner) (spec : CompiledSpec)
  (profile_name : String) (profile : CompiledProfile) (surface : Surface)

/-- `ensure_reason` is the session's reason policy. -/
def run_environment (ensure_reason : Except MonosecretError Unit) (parent : Environment) : Attempt MonosecretError Environment := do
  Attempt.call ensure_reason
  let outcome ← resolve world planner spec profile_name (surface.selection profile).names .Run (surface.output_filter profile)
  let outcome ← Attempt.call (validated_outcome outcome)
  let values ← Attempt.call (env_values profile outcome)
  let command := Command.envs (child_env_from parent values) ⟨.empty⟩
  let command := (surface.excluded_names spec).foldl (fun command name => command.env_remove (utf8 name)) command
  .ok (command.environment parent)

end

/-! ## What is where -/

theorem child_env_from_absent {s : List (String × OsString)} {vars : Environment} {key : OsString}
    (h : ∀ sc ∈ s, key ≠ utf8 sc.1) : child_env_from vars s key = vars key := by
  unfold child_env_from
  induction s generalizing vars with
  | nil => rfl
  | cons sc s ih =>
    rw [List.foldl_cons, ih fun other ho => h other (.tail _ ho)]
    exact Map.insert_of_ne (h sc (.head _)) _ _

theorem child_env_from_set {s : List (String × OsString)} (hn : (s.map Prod.fst).Nodup) {v : Environment}
    {sc : String × OsString} (h : sc ∈ s) : child_env_from v s (utf8 sc.1) = some sc.2 := by
  unfold child_env_from
  induction s generalizing v with
  | nil => cases h
  | cons first s ih =>
    rw [List.map_cons, List.nodup_cons] at hn
    rw [List.foldl_cons]
    rcases List.mem_cons.mp h with rfl | h
    · refine (child_env_from_absent fun other ho he => ?_).trans (Map.insert_self _ _ _)
      exact hn.1 (utf8_injective he ▸ List.mem_map_of_mem ho)
    · exact ih hn.2 h

theorem removed_environment (names : List String) (parent : Environment) (c : Command) (key : OsString) :
    (names.foldl (fun c name => c.env_remove (utf8 name)) c).environment parent key =
      if key ∈ names.map utf8 then none else c.environment parent key := by
  induction names generalizing c with
  | nil => rfl
  | cons name names ih =>
    rw [List.foldl_cons, ih, List.map_cons]
    have hr : (c.env_remove (utf8 name)).environment parent key =
        if key = utf8 name then none else c.environment parent key := by
      unfold Command.environment
      by_cases hk : key = utf8 name
      · have hc : (c.env_remove (utf8 name)).changes key = some none := hk ▸ Map.insert_self _ _ _
        rw [if_pos hk, hc]
      · have hc : (c.env_remove (utf8 name)).changes key = c.changes key := Map.insert_of_ne hk _ _
        rw [if_neg hk, hc]
    rw [hr]
    by_cases hn : key ∈ names.map utf8
    · rw [if_pos hn, if_pos (.tail _ hn)]
    · rw [if_neg hn]
      by_cases hk : key = utf8 name
      · rw [if_pos hk, if_pos (hk ▸ List.mem_cons_self)]
      · rw [if_neg hk, if_neg fun hm => (List.mem_cons.mp hm).elim hk hn]

theorem envs_environment (v parent : Environment) (k : OsString) :
    (Command.envs v ⟨.empty⟩).environment parent k = (v k).or (parent k) := by
  have hc : (Command.envs v ⟨.empty⟩).changes k = (v k).map some := Option.or_none
  unfold Command.environment
  rw [hc]
  cases v k <;> rfl

namespace Surface

variable {surface : Surface} {spec : CompiledSpec}

theorem mem_excluded_names {name : String} : name ∈ surface.excluded_names spec ↔
    surface.admits name = false ∧ ∃ e ∈ spec.profiles, name ∈ e.2.names := by
  unfold excluded_names
  by_cases hf : surface.filtered
  · rw [if_pos hf, mem_sorted_set, List.mem_filter, List.mem_flatMap, Bool.not_eq_true', and_comm]
  · rw [if_neg hf]
    refine ⟨fun h => (nomatch h), fun ⟨h, _⟩ => ?_⟩
    have hn : surface.scope = none ∧ surface.selected = none := by
      unfold filtered at hf
      simpa using hf
    unfold admits at h
    rw [hn.1, hn.2] at h
    cases h

end Surface

/-! ## What a pass exposes -/

section

variable {Provider Address Identity : Type} {world : World Provider Address Identity} {pn : ResolutionPlan}
  {m : Materialize} {filter : OutputFilter} {spec : CompiledSpec} {name : String}

theorem provider_pass_elsewhere (hn : name ∉ pn.secrets.map PlannedSecret.name) :
    Attempt.Yields (provider_pass world pn m filter) fun st => st.values name = none := by
  unfold provider_pass
  refine .bind (.self _) fun read hr => ?_
  have hd := ((read_sources_safe world pn).returned hr).1
  refine .foldlM (fun _ (st : Execution Identity) => st.values name = none) (fun pre p ps st hs hnn => ?_) ?_
  · refine (resolve_provider_backed_beside world m filter).mono fun st' hb => ?_
    rw [hb.values name, hnn]
    rintro rfl
    exact hn (List.mem_map_of_mem (hs ▸ List.mem_append_right _ (.head _)))
  · rw [show read.values = .empty from congrArg (Prod.fst ∘ Prod.snd) hd]
    rfl

/-- A pass has values of planned secrets only, and exposes admitted ones only. -/
theorem execute_plan_exposes {profile : CompiledProfile} (hp : Planned profile pn) {o : Outcome}
    (h : execute_plan world spec pn m filter = .ok o) {value : SecretBytes}
    (hv : o.values name = some value) : name ∈ pn.secrets.map PlannedSecret.name ∧ filter.admits name := by
  by_contra ho
  have hn : Attempt.Yields (execute_plan world spec pn m filter) fun o => o.values name = none := by
    unfold execute_plan
    by_cases he : pn.secrets.isEmpty
    · rw [if_pos he]
      exact .ok rfl
    · rw [if_neg he]
      refine .bind (p := fun st => name ∉ pn.secrets.map PlannedSecret.name → st.values name = none) ?_ fun st hs => ?_
      · intro st hs hm
        exact provider_pass_elsewhere hm st hs
      · refine .bind (p := fun d => name ∉ pn.secrets.map PlannedSecret.name → d.st.values name = none) ?_ fun d hd => ?_
        · unfold derived_pass
          refine .foldlM (fun _ (d : Deriving Identity) => name ∉ pn.secrets.map PlannedSecret.name → d.st.values name = none)
            (fun pre pl ps d hsp hn => ?_) hs
          refine derive_one_beside.mono fun d' hb hm => ?_
          rw [hb.1.values name, hn hm]
          rintro rfl
          have hnd : pl ∈ pn.ordered := hsp ▸ List.mem_append_right _ (.head _)
          exact hm (List.mem_map_of_mem ((mem_nodes hp pl).mp hnd).1)
        · unfold finish
          refine .bind (.self _) fun pr _ => .bind (.self _) fun v _ => .ok ?_
          by_cases hm : name ∈ pn.secrets.map PlannedSecret.name
          · have ham : filter.admits name ≠ true := fun ha => ho ⟨hm, ha⟩
            cases filter with
            | none => exact absurd rfl ham
            | some names => exact if_neg ham
          · cases filter with
            | none => exact hd hm
            | some names =>
              show (d.st.values.retain fun name => decide (name ∈ names)) name = none
              unfold Map.retain
              rw [hd hm, ite_self]
  rw [hn o h] at hv
  cases hv

end

theorem env_values_ok {profile : CompiledProfile} (hn : profile.names.Nodup) {o : Outcome}
    {v : List (String × OsString)} (h : env_values profile o = .ok v) :
    (v.map Prod.fst).Nodup ∧
      ∀ name value, (name, value) ∈ v ↔ name ∈ profile.names ∧ o.values name = some value := by
  unfold env_values at h
  have hs := Except.mapM_ok_map (g := id) (fun s c hc => ?_) h
  · rw [List.map_id] at hs
    subst hs
    constructor
    · rw [List.map_filterMap]
      have hk : (profile.names.filterMap fun name => ((o.values name).map fun value => (name, value)).map Prod.fst) =
          profile.names.filter fun name => (o.values name).isSome := by
        rw [← List.filterMap_eq_filter]
        congr 1
        funext name
        cases hv : o.values name <;> simp [Option.guard, hv]
      rw [hk]
      exact hn.sublist List.filter_sublist
    · intro name value
      rw [List.mem_filterMap]
      constructor
      · rintro ⟨other, ho, hp⟩
        obtain ⟨found, hf, he⟩ := Option.map_eq_some_iff.mp hp
        cases he
        exact ⟨ho, hf⟩
      · rintro ⟨hm, hl⟩
        exact ⟨name, hm, by rw [hl]; rfl⟩
  · unfold try_as_env_value_for at hc
    split at hc
    · cases hc
    · cases hc
      rfl

theorem Surface.admits_of_filter {surface : Surface} {profile : CompiledProfile} {name : String}
    (h : (surface.output_filter profile).admits name) : surface.admits name := by
  unfold output_filter at h
  by_cases hf : surface.filtered
  · rw [if_pos hf] at h
    exact (List.mem_filter.mp (of_decide_eq_true h)).2
  · have hn : surface.scope = none ∧ surface.selected = none := by
      unfold filtered at hf
      simpa using hf
    unfold admits
    rw [hn.1, hn.2]
    rfl

/-- The child gets every resolved value under its name, each of an admitted secret; no name
    that some profile declares and the surface does not admit; and everything else as the
    parent had it. -/
theorem child_environment {Provider Address Identity : Type} {rules : Rules} {config : Config} {spec : CompiledSpec}
    (h : config.validate_and_compile rules = .ok spec) {profile_name : String} {profile : CompiledProfile}
    (hp : spec.profile profile_name = some profile) (world : World Provider Address Identity) (planner : Planner)
    (surface : Surface) (ensure_reason : Except MonosecretError Unit) (parent env : Environment)
    (hrun : run_environment world planner spec profile_name profile surface ensure_reason parent = .ok env) :
    ∃ outcome, resolve world planner spec profile_name (surface.selection profile).names .Run (surface.output_filter profile) =
        .ok outcome ∧
      (∀ name value, outcome.values name = some value →
        surface.admits name = true ∧ name ∈ profile.names ∧ env (utf8 name) = some value) ∧
      (∀ entry ∈ spec.profiles, ∀ name ∈ entry.2.names, surface.admits name = false → env (utf8 name) = none) ∧
      ∀ key, (∀ name, key = utf8 name → outcome.values name = none ∧
          (surface.admits name = true ∨ ∀ entry ∈ spec.profiles, name ∉ entry.2.names)) →
        env key = parent key := by
  have ha := accepted_profile h hp
  unfold run_environment at hrun
  obtain ⟨_, -, hrun⟩ := Except.bind_ok hrun
  obtain ⟨outcome, hr, hrun⟩ := Except.bind_ok hrun
  obtain ⟨valid, hd, hrun⟩ := Except.bind_ok hrun
  obtain ⟨values, hl, hrun⟩ := Except.bind_ok hrun
  cases hrun
  have hs : valid = outcome := by
    have hk := Attempt.Yields.call _ _ hd
    unfold validated_outcome at hk
    split at hk
    · cases hk
    · split at hk
      · cases hk
      · cases hk
        rfl
  subst hs
  obtain ⟨hn, hmm⟩ := env_values_ok ha.nodup (Attempt.Yields.call _ _ hl)
  have hep : ∀ name value, valid.values name = some value → surface.admits name ∧ name ∈ profile.names := by
    intro name value hv
    obtain ⟨pn, hb, hx⟩ := Except.bind_ok hr
    obtain ⟨-, hpl⟩ := (build_plan_safe hp ha planner (surface.selection profile)).returned hb
    obtain ⟨hnm, ham⟩ := execute_plan_exposes hpl hx hv
    refine ⟨Surface.admits_of_filter ham, ?_⟩
    obtain ⟨p, hm, rfl⟩ := List.mem_map.mp hnm
    exact CompiledProfile.get_isSome.mp (by rw [hpl.declared p hm]; rfl)
  have hc : ∀ name, utf8 name ∈ (surface.excluded_names spec).map utf8 ↔ name ∈ surface.excluded_names spec :=
    fun name => ⟨fun hm => by
      obtain ⟨other, ho, hq⟩ := List.mem_map.mp hm
      exact utf8_injective hq ▸ ho, List.mem_map_of_mem⟩
  refine ⟨valid, hr, fun name value hv => ?_, fun entry he name hnm hou => ?_, fun key hy => ?_⟩
  · obtain ⟨ham, hnm⟩ := hep name value hv
    refine ⟨ham, hnm, ?_⟩
    have hkp : utf8 name ∉ (surface.excluded_names spec).map utf8 := by
      rw [hc, Surface.mem_excluded_names, ham]
      exact fun hbd => Bool.noConfusion hbd.1
    rw [removed_environment, if_neg hkp, envs_environment,
      child_env_from_set hn ((hmm name value).mpr ⟨hnm, hv⟩)]
    rfl
  · rw [removed_environment, if_pos]
    exact (hc name).mpr (Surface.mem_excluded_names.mpr ⟨hou, entry, he, hnm⟩)
  · have hkp : key ∉ (surface.excluded_names spec).map utf8 := by
      intro hm
      obtain ⟨name, hnm, rfl⟩ := List.mem_map.mp hm
      obtain ⟨hou, entry, he, hdc⟩ := Surface.mem_excluded_names.mp hnm
      rcases (hy name rfl).2 with ham | hw
      · rw [hou] at ham
        cases ham
      · exact hw entry he hdc
    have hab : ∀ s ∈ values, key ≠ utf8 s.1 := by
      rintro ⟨name, value⟩ hsc rfl
      have hv := ((hmm name value).mp hsc).2
      rw [(hy name rfl).1] at hv
      cases hv
    rw [removed_environment, if_neg hkp, envs_environment, child_env_from_absent hab, Option.or_self]

namespace Sample

/-- The parent has the identity the scope leaves out. -/
def parent : Environment := fun key =>
  if key = utf8 "PATH" then some (utf8 "/bin") else if key = utf8 "IDENTITY" then some (utf8 "leaked") else none

def bundle_only : Surface := ⟨some ["BUNDLE"], none⟩

def compiled : CompiledSpec := .compile with_identity

def default_profile : CompiledProfile := ((compiled.profile "default").getD ⟨[], [], []⟩)

def child : Attempt MonosecretError Environment :=
  run_environment empty_store default_route compiled "default" default_profile bundle_only (.ok ()) parent

end Sample

theorem child_environment_bundle_only : ∃ env, Sample.child = .ok env ∧ env (utf8 "IDENTITY") = none ∧
    env (utf8 "PATH") = some (utf8 "/bin") ∧ env (utf8 "BUNDLE") = some (utf8 "certificate: CERTIFICATE") := by
  obtain ⟨spec, hs⟩ := Except.ok_of_isSome (x := Sample.with_identity.validate_and_compile ascii) (by decide +kernel)
  obtain rfl : spec = Sample.compiled := (validated hs).compiled
  obtain ⟨profile, hp⟩ := Option.isSome_iff_exists.mp
    (show (Sample.compiled.profile "default").isSome by decide +kernel)
  obtain rfl : Sample.default_profile = profile := by
    unfold Sample.default_profile
    rw [hp]
    rfl
  obtain ⟨env, hr⟩ := Except.ok_of_isSome (x := Sample.child) (by decide +kernel)
  obtain ⟨o, -, ht, hu, hk⟩ := child_environment hs hp Sample.empty_store Sample.default_route
    Sample.bundle_only (.ok ()) Sample.parent env hr
  have hb : (Sample.child.toOption.bind fun env => env (utf8 "BUNDLE")) = some (utf8 "certificate: CERTIFICATE") := by
    decide +kernel
  rw [hr] at hb
  refine ⟨env, hr, ?_, (hk _ fun name hn => ?_).trans rfl, hb⟩
  · have hd : ∃ e ∈ Sample.compiled.profiles, "IDENTITY" ∈ e.2.names := by decide +kernel
    obtain ⟨e, he, hn⟩ := hd
    exact hu e he "IDENTITY" hn (by decide +kernel)
  · obtain rfl := utf8_injective hn
    constructor
    · cases hv : o.values "PATH" with
      | none => rfl
      | some value => exact absurd (ht "PATH" value hv).2.1 (by decide +kernel)
    · exact .inr (by decide +kernel)

end Monosecret.Executor
