/-
  Monosecret.Resolve.Deadlines — how long a resolved secret is valid
  (`resolve_derived_values`, the deadlines).

  A value may come with an expiry and a cached entry with a refresh time. A node merges the
  deadlines of its dependencies into its own, so what a resolution attaches to a resolved
  secret is the earliest of its own and of everything it transitively depends on, and
  absent when none of them is bounded (`deadline_propagation`).
-/

import Monosecret.Resolve.Outcome

namespace Monosecret.Resolve

open Lib Plan Cache

section

variable {Identity : Type} (answers : Answers Identity) (plan : ResolutionPlan)

/-- The expiry of the value a secret's route serves. -/
def own_expiry (planned : PlannedSecret) : Option UInt64 :=
  match planned.route with
  | none => none
  | some route =>
    match source_result answers plan planned route with
    | .value served => served.expires_at_unix_ms
    | _ => none

/-- The refresh time of the cached entry that serves a secret. -/
def own_refresh (planned : PlannedSecret) : Option UInt64 :=
  match planned.route with
  | none => none
  | some _ => served_refresh answers planned

def expiry_of (name : Text) : Option UInt64 := (plan.get name).bind (own_expiry answers plan)

def refresh_of (name : Text) : Option UInt64 := (plan.get name).bind (own_refresh answers)

end

section

variable {Identity : Type} {answers : Answers Identity} {plan : ResolutionPlan} {materialize : Materialize}
  {filter : OutputFilter} {st : Execution Identity} {f : Deriving Identity}

variable {planned : PlannedSecret}

theorem provided_deadlines {rt : Route} (ht : planned.route = some rt) {r : Record Identity}
    (hr : Provided answers plan materialize filter planned rt r) :
    r.expiry = own_expiry answers plan planned ∧ r.refresh = own_refresh answers planned := by
  cases hr with
  | served found read rf record =>
    have he : own_expiry answers plan planned = found.value.expires_at_unix_ms := by
      simp only [own_expiry, ht, read]
    have hf : own_refresh answers planned = found.refresh := by
      simp only [own_refresh, ht, rf]
    rw [he, hf]
    cases record <;> exact ⟨rfl, rfl⟩
  | missed read record =>
    have he : own_expiry answers plan planned = none := by simp only [own_expiry, ht, read]
    have hf : own_refresh answers planned = none := by
      simp only [own_refresh, ht, served_refresh]
      cases hc : answers.cached planned with
      | none => rfl
      | some served =>
        unfold source_result at read
        rw [hc] at read
        cases read
    rw [he, hf]
    cases record <;> exact ⟨rfl, rfl⟩

/-- What the provider pass leaves a secret are its own deadlines. -/
theorem start_deadlines (hr : provider_pass answers plan materialize filter = .ok st)
    (hp : planned ∈ plan.secrets) :
    (st.record planned.name).expiry = own_expiry answers plan planned ∧
      (st.record planned.name).refresh = own_refresh answers planned := by
  cases ht : planned.route with
  | none =>
    rw [underived_record hr hp ht]
    simp only [own_expiry, own_refresh, ht]
    exact ⟨rfl, rfl⟩
  | some r => exact provided_deadlines ht (provided_record hr hp ht)

/-- A resolved secret's deadlines are its own merged with its dependencies'. -/
theorem merged_deadlines (hr : provider_pass answers plan materialize filter = .ok st)
    (h : derived_pass answers plan materialize filter st = .ok f) (hp : planned ∈ plan.secrets)
    (hs : f.statuses planned.name = some .Resolved) :
    f.st.secret_expiries planned.name =
        merge_own (own_expiry answers plan planned) (planned.dependencies.filterMap f.st.secret_expiries) ∧
      f.st.refreshes planned.name =
        merge_own (own_refresh answers planned) (planned.dependencies.filterMap f.st.refreshes) := by
  obtain ⟨he, hf⟩ := start_deadlines hr hp
  rw [← he, ← hf]
  have hd := resolved_ready h hp hs
  change (f.st.record planned.name).expiry = _ ∧ (f.st.record planned.name).refresh = _
  by_cases hn : planned ∈ plan.nodes
  · have ho := node_evaluated h hn
    rw [hs] at ho
    have hm : ∀ r : Record Identity,
        (f.merged planned r).expiry = merge_own r.expiry (planned.dependencies.filterMap f.st.secret_expiries) ∧
          (f.merged planned r).refresh = merge_own r.refresh (planned.dependencies.filterMap f.st.refreshes) := by
      intro r
      rw [Deriving.merged, if_pos hd]
      exact ⟨rfl, rfl⟩
    generalize (Deriving.start st).statuses planned.name = s at ho
    generalize f.st.record planned.name = r' at ho ⊢
    cases ho with
    | unfetched _ fetched => exact absurd rfl fetched
    | kept | finalized | valued | reported => exact hm _
  · have hl : planned.secret.is_node = false :=
      Bool.eq_false_iff.mpr fun hnd => hn (ResolutionPlan.mem_nodes.mpr ⟨hp, hnd⟩)
    have hsm : f.st.record planned.name = st.record planned.name :=
      congrArg Prod.snd (leaf_untouched h fun hnm => hn (node_name hp hnm))
    rw [hsm, PlannedSecret.dependencies, CompiledSecret.dependencies_of_leaf hl]
    exact ⟨rfl, rfl⟩

/-- By induction on the rank: what a resolved secret depends on has resolved, and carries its
    own earliest deadline. -/
theorem earliest_deadlines (hpr : provider_pass answers plan materialize filter = .ok st)
    (h : derived_pass answers plan materialize filter st = .ok f) (hp : planned ∈ plan.secrets)
    (hs : f.statuses planned.name = some .Resolved) :
    Earliest (Reached plan.Needs (expiry_of answers plan) planned.name) (f.st.secret_expiries planned.name) ∧
      Earliest (Reached plan.Needs (refresh_of answers plan) planned.name) (f.st.refreshes planned.name) := by
  obtain ⟨r, hn⟩ := plan.acyclic
  induction hr : r planned.name using Nat.strongRecOn generalizing planned with
  | ind n ih =>
    obtain ⟨he, hf⟩ := merged_deadlines hpr h hp hs
    have hd := ready_iff.mp (resolved_ready h hp hs)
    have hdp : ∀ b ∈ planned.dependencies,
        Earliest (Reached plan.Needs (expiry_of answers plan) b) (f.st.secret_expiries b) ∧
          Earliest (Reached plan.Needs (refresh_of answers plan) b) (f.st.refreshes b) := by
      intro b hb
      obtain ⟨nd, hnd, rfl⟩ := ResolutionPlan.exists_of_dependency hp hb
      exact ih _ (hr ▸ hn planned hp nd.name hb) hnd (hd nd.name hb) rfl
    have hexpiry_of : expiry_of answers plan planned.name = own_expiry answers plan planned := by
      rw [expiry_of, ResolutionPlan.get_of_mem hp, Option.bind_some]
    have hrefresh_of : refresh_of answers plan planned.name = own_refresh answers planned := by
      rw [refresh_of, ResolutionPlan.get_of_mem hp, Option.bind_some]
    rw [he, hf, ← hexpiry_of, ← hrefresh_of]
    exact ⟨Earliest.reach (needs_iff hp) fun b hb => (hdp b hb).1,
      Earliest.reach (needs_iff hp) fun b hb => (hdp b hb).2⟩

end

/-- The deadlines a resolution attaches to a resolved secret are the earliest along its
    dependencies. -/
theorem deadline_propagation {Identity : Type} {answers : Answers Identity} {profile_name : Text}
    {profile : CompiledProfile} {route_for : CompiledSecret → Except MonosecretError Route}
    {override_uri : Except MonosecretError (Option Text)} {selection : Selection profile} {materialize : Materialize}
    {plan : ResolutionPlan} {v : ValidatedSecrets}
    (hplan : build_plan_from_names profile_name profile route_for override_uri selection.names = .ok plan)
    (h : resolve answers profile_name profile route_for override_uri selection materialize = .ok (.ok v)) :
    ∀ entry ∈ v.resolution, entry.status = .Resolved →
      Earliest (Reached plan.Needs (expiry_of answers plan) entry.name) (v.secret_expiries entry.name) ∧
        Earliest (Reached plan.Needs (refresh_of answers plan) entry.name) (v.refreshes entry.name) := by
  intro entry he hs
  unfold resolve at h
  rw [hplan] at h
  rcases execute_plan_ok h with ⟨-, hm⟩ | ⟨st, f, hr, hd, hf⟩
  · cases hm
    cases he
  · cases hf
    obtain ⟨hmm, ha⟩ := mem_shown_resolution.mp he
    obtain ⟨planned, hp, hn⟩ := planned_of_entry hr hd hmm
    have hrs := (resolves_iff hr hd planned.name).mp ⟨entry, hmm, hn.symm, hs⟩
    obtain ⟨hep, hrf⟩ := earliest_deadlines hr hd hp hrs
    obtain ⟨-, hshown_expiry, hshown_refresh⟩ := shown_maps selection.filter f.st entry.name
    rw [if_pos ha] at hshown_expiry hshown_refresh
    rw [hn] at hep hrf
    simp only [hshown_expiry, hshown_refresh]
    exact ⟨hep, hrf⟩

namespace Sample

/-- The host is stored, the URL composed from it. -/
def url_profile : CompiledProfile where
  secrets := [host.secret, url.secret]
  at_least_one := []
  exactly_one := []
  nodup := by decide
  closed := by decide
  acyclic := ⟨fun name => if name = Text.of "URL" then 1 else 0, by decide⟩
  grouped := by simp

end Sample

open Sample in
/-- The URL is valid as long as the host it is composed from. -/
theorem url_expires_with_host : ∃ plan v,
    build_plan_from_names (Text.of "default") url_profile (fun _ => .ok (chain_route [])) (.ok none)
      (.whole : Selection url_profile).names = .ok plan ∧
    resolve host_stored (Text.of "default") url_profile (fun _ => .ok (chain_route [])) (.ok none) .whole .Values =
      .ok (.ok v) ∧
    v.secret_expiries (Text.of "URL") = some 100 ∧
    Earliest (Reached plan.Needs (expiry_of host_stored plan) (Text.of "URL")) (v.secret_expiries (Text.of "URL")) := by
  cases hp : build_plan_from_names (Text.of "default") url_profile (fun _ => .ok (chain_route [])) (.ok none)
      (.whole : Selection url_profile).names with
  | error e => cases hp
  | ok plan =>
    cases h : resolve host_stored (Text.of "default") url_profile (fun _ => .ok (chain_route [])) (.ok none) .whole .Values with
    | error e => cases h
    | ok o =>
      cases o with
      | error e => cases h
      | ok v =>
        have he : derived_entry none url .Resolved ∈ v.resolution := by
          cases h
          exact .tail _ (.head _)
        exact ⟨plan, v, rfl, rfl, by cases h; rfl, (deadline_propagation hp h _ he rfl).1⟩

end Monosecret.Resolve
