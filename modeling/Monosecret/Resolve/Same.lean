/-
  Monosecret.Resolve.Same — answers a plan cannot tell apart.

  A pass asks about the secrets of its plan: their cache entries, the stores of their routes,
  and their fallback links. Answers that agree on these give the same outcome
  (`execute_plan_same`). A batch need only agree on the secrets it was asked.
-/

import Monosecret.Resolve.Confinement

namespace Monosecret.Resolve

open Lib Plan Cache

variable {Identity : Type}

/-- These answers with the other's sources. -/
def Answers.sourced (a b : Answers Identity) : Answers Identity :=
  { a with
    cached := b.cached
    get_route_provider := b.get_route_provider
    resolve_coords := b.resolve_coords
    get_many := b.get_many
    resolve_one_provider := b.resolve_one_provider
    shared_provider := b.shared_provider
    get_with_metadata := b.get_with_metadata
    try_prompt_secret := b.try_prompt_secret
    try_generate_secret := b.try_generate_secret
    generated_binary := b.generated_binary
    generated_value_is_stored := b.generated_value_is_stored
    report_provider_uri := b.report_provider_uri }

/-- The same answers about the secrets of a plan. -/
structure Answers.Same (plan : ResolutionPlan) (a b : Answers Identity) : Prop where
  cached : ∀ planned ∈ plan.secrets, a.cached planned = b.cached planned
  get_route_provider : ∀ planned ∈ plan.secrets, ∀ route, planned.route = some route →
    a.get_route_provider (group_key route) = b.get_route_provider (group_key route)
  resolve_coords : ∀ planned ∈ plan.secrets, ∀ route, planned.route = some route →
    a.resolve_coords (group_key route) planned = b.resolve_coords (group_key route) planned
  get_many : ∀ planned ∈ plan.secrets, ∀ route, planned.route = some route → ∀ members,
    (∀ other ∈ members, other ∈ plan.secrets ∧ ∃ r, other.route = some r ∧ group_key r = group_key route) →
    (a.get_many (group_key route) members).map (fun values => members.map values) =
      (b.get_many (group_key route) members).map fun values => members.map values
  resolve_one_provider : a.resolve_one_provider = b.resolve_one_provider
  shared_provider : ∀ planned ∈ plan.secrets, ∀ route, planned.route = some route → ∀ spec ∈ route.fallback,
    a.shared_provider spec = b.shared_provider spec
  get_with_metadata : ∀ planned ∈ plan.secrets, ∀ route, planned.route = some route → ∀ spec ∈ route.fallback,
    a.get_with_metadata spec planned = b.get_with_metadata spec planned
  try_prompt_secret : ∀ planned ∈ plan.secrets, a.try_prompt_secret planned = b.try_prompt_secret planned
  try_generate_secret : ∀ planned ∈ plan.secrets, a.try_generate_secret planned = b.try_generate_secret planned
  generated_value_is_stored : ∀ planned ∈ plan.secrets,
    a.generated_value_is_stored planned = b.generated_value_is_stored planned
  report_provider_uri : a.report_provider_uri = b.report_provider_uri
  ambient : b = a.sourced b

namespace Answers.Same

variable {plan : ResolutionPlan} {a b : Answers Identity} (h : a.Same plan b)

section

variable {planned : PlannedSecret} (hp : planned ∈ plan.secrets) {route : Route} (hr : planned.route = some route)

include h hp hr in
/-- One secret, asked with the others of its store. -/
theorem get_many_one {m : List PlannedSecret}
    (hmm : ∀ planned ∈ m, planned ∈ plan.secrets ∧ ∃ r, planned.route = some r ∧ group_key r = group_key route)
    (hm : planned ∈ m) :
    (a.get_many (group_key route) m).map (fun values => values planned) =
      (b.get_many (group_key route) m).map fun values => values planned := by
  have hb := h.get_many planned hp route hr m hmm
  generalize a.get_many (group_key route) m = x at hb ⊢
  generalize b.get_many (group_key route) m = y at hb ⊢
  rcases x with e | f <;> rcases y with e' | g
  · cases hb
    rfl
  · cases hb
  · cases hb
  · exact congrArg Except.ok (List.map_inj_left.mp (Except.ok.inj hb) planned hm)

include h in
theorem batch (route : Route) : batch a plan route = batch b plan route := by
  refine List.filter_congr fun planned hl => ?_
  exact congrArg (fun c => _ && Option.isNone c) (h.cached planned hl)

theorem batch_members {an : Answers Identity} {planned : PlannedSecret} (hm : planned ∈ Resolve.batch an plan route) :
    planned ∈ plan.secrets ∧ ∃ r, planned.route = some r ∧ group_key r = group_key route := by
  obtain ⟨hp, hb⟩ := List.mem_filter.mp hm
  have hk := of_decide_eq_true (Bool.and_eq_true_iff.mp hb).1
  exact ⟨hp, Option.map_eq_some_iff.mp hk⟩

include h hp hr in
theorem walk_chain (error : Option MonosecretError) (he : Bool) (uri : Option Text) (specs : List Text)
    (hsp : ∀ s ∈ specs, s ∈ route.fallback) :
    walk_chain a planned error he uri specs = walk_chain b planned error he uri specs := by
  induction specs generalizing error he uri with
  | nil => rfl
  | cons s specs ih =>
    have hc := hsp s (.head _)
    have hrs := fun s hs => hsp s (.tail _ hs)
    unfold Resolve.walk_chain
    rw [h.resolve_one_provider, h.shared_provider planned hp route hr s hc,
      h.get_with_metadata planned hp route hr s hc]
    simp only [fun error he uri => ih error he uri hrs]

include h hp hr in
/-- A fetch of the batch of a route. -/
theorem fetched (hc : b.cached planned = none) :
    (fetch_group a (group_key route, Resolve.batch a plan route)).uri =
        (fetch_group b (group_key route, Resolve.batch b plan route)).uri ∧
      (fetch_group a (group_key route, Resolve.batch a plan route)).result.map (fun values => values planned) =
        (fetch_group b (group_key route, Resolve.batch b plan route)).result.map fun values => values planned := by
  rw [h.batch]
  have hm : planned ∈ Resolve.batch b plan route := by
    simp [Resolve.batch, hp, hr, hc]
  have hg := h.get_many_one hp hr (fun _ => batch_members) hm
  unfold fetch_group
  simp only [h.get_route_provider planned hp route hr]
  cases b.get_route_provider (group_key route) with
  | error e => exact ⟨rfl, rfl⟩
  | ok uri => exact ⟨rfl, hg⟩

include h hp hr in
theorem read_source {ft fetches' : List GroupFetch} (ha : fetch_primary_values a plan = .ok ft)
    (hb : fetch_primary_values b plan = .ok fetches') :
    Resolve.read_source a ft planned route = Resolve.read_source b fetches' planned route := by
  unfold Resolve.read_source
  have hcc := h.cached planned hp
  cases hc : b.cached planned with
  | some s => rw [hcc, hc]
  | none =>
    rw [hcc, hc]
    have hf := fetch_find_batch a ha hp hr (hcc.trans hc)
    have hf' := fetch_find_batch b hb hp hr hc
    obtain ⟨hu, hrs⟩ := h.fetched hp hr hc
    have hv : fetched_value ft planned route = fetched_value fetches' planned route ∧
        failed_primary ft route = failed_primary fetches' route := by
      unfold fetched_value failed_primary
      rw [hf, hf']
      simp only
      generalize (fetch_group a _).result = x at hrs ⊢
      generalize (fetch_group b _).result = y at hrs ⊢
      rcases x with e | f <;> rcases y with e' | g
      · cases hrs
        exact ⟨rfl, rfl⟩
      · cases hrs
      · cases hrs
      · exact ⟨Except.ok.inj hrs, rfl⟩
    have hw : read_fallback_chain a planned route.fallback = read_fallback_chain b planned route.fallback :=
      h.walk_chain hp hr none false none route.fallback fun _ hs => hs
    simp only [hv.1, hv.2, hf, hf', hw, Option.bind_some, hu]

end

section

include h in
theorem apply_missing {materialize : Materialize} {filter : OutputFilter} {planned : PlannedSecret}
    (hp : planned ∈ plan.secrets) (st : Execution Identity) :
    st.apply_missing a materialize filter planned = st.apply_missing b materialize filter planned := by
  have hi : ∀ (st : Execution Identity) value representation,
      st.insert_resolved a planned value representation = st.insert_resolved b planned value representation := by
    intro st value representation
    rw [h.ambient]
    rfl
  unfold Execution.apply_missing Execution.insert_generated
  simp only [h.try_prompt_secret planned hp, h.try_generate_secret planned hp, h.generated_value_is_stored planned hp,
    hi]

include h in
theorem pending_groups : pending_groups a plan = pending_groups b plan := by
  unfold Resolve.pending_groups
  congr 1
  refine List.map_congr_left fun g hg => ?_
  congr 1
  refine List.filter_congr fun planned hl => ?_
  exact congrArg Option.isNone (h.cached planned (groups_members plan.secrets hg hl).1)

/-- A group of a plan is a store some of its secrets route to. -/
theorem pending_group {an : Answers Identity} {g : Option Text × List PlannedSecret}
    (hg : g ∈ Resolve.pending_groups an plan) :
    (∃ planned ∈ plan.secrets, ∃ route, planned.route = some route ∧ group_key route = g.1) ∧
      ∀ planned ∈ g.2, planned ∈ plan.secrets ∧ ∃ route, planned.route = some route ∧ group_key route = g.1 := by
  obtain ⟨hmp, hn⟩ := List.mem_filter.mp hg
  obtain ⟨whole, hw, rfl⟩ := List.mem_map.mp hmp
  have ha : ∀ planned ∈ whole.2.filter (fun planned => (an.cached planned).isNone), planned ∈ plan.secrets ∧
      ∃ route, planned.route = some route ∧ group_key route = whole.1 :=
    fun planned hm => groups_members plan.secrets hw (List.mem_filter.mp hm).1
  refine ⟨?_, ha⟩
  rw [Bool.not_eq_true', List.isEmpty_eq_false_iff] at hn
  obtain ⟨planned, hm⟩ := List.exists_mem_of_ne_nil _ hn
  exact ⟨planned, (ha planned hm).1, (ha planned hm).2⟩

include h in
theorem check_single_store {group : Option Text × List PlannedSecret} (hg : group ∈ Resolve.pending_groups b plan) :
    check_single_store_ref_coords a group = check_single_store_ref_coords b group := by
  obtain ⟨⟨planned, hp, route, hr, hk⟩, ha⟩ := pending_group hg
  unfold check_single_store_ref_coords
  rw [← hk, h.get_route_provider planned hp route hr]
  cases b.get_route_provider (group_key route) with
  | error e => rfl
  | ok uri =>
    refine Except.forM_congr fun m hm => ?_
    obtain ⟨hp', r', hr', hk'⟩ := ha m hm
    simp only [hr', hk, ← hk', h.resolve_coords m hp' r' hr']

include h in
theorem provider_pass (materialize : Materialize) (filter : OutputFilter) :
    provider_pass a plan materialize filter = provider_pass b plan materialize filter := by
  have hc : (Resolve.pending_groups a plan).forM (check_single_store_ref_coords a) =
      (Resolve.pending_groups b plan).forM (check_single_store_ref_coords b) := by
    rw [h.pending_groups]
    exact Except.forM_congr fun g hg => h.check_single_store hg
  unfold Resolve.provider_pass
  cases hforM : (Resolve.pending_groups b plan).forM (check_single_store_ref_coords b) with
  | error e =>
    unfold fetch_primary_values
    rw [hc, hforM]
    rfl
  | ok u =>
    have ha : fetch_primary_values a plan = .ok ((Resolve.pending_groups a plan).map (fetch_group a)) := by
      unfold fetch_primary_values
      rw [hc, hforM]
      rfl
    have hb : fetch_primary_values b plan = .ok ((Resolve.pending_groups b plan).map (fetch_group b)) := by
      unfold fetch_primary_values
      rw [hforM]
      rfl
    rw [ha, hb]
    refine foldlM_congr (fun planned hp st => ?_) _
    unfold Execution.resolve_provider_backed
    cases hr : planned.route with
    | none => rfl
    | some route =>
      simp only
      rw [h.read_source hp hr ha hb]
      cases Resolve.read_source b ((Resolve.pending_groups b plan).map (fetch_group b)) planned route with
      | error e => rfl
      | ok found =>
        cases found with
        | some found =>
          rw [h.ambient]
          rfl
        | none => exact h.apply_missing hp st

include h in
theorem derived_pass (materialize : Materialize) (filter : OutputFilter) (st : Execution Identity) :
    derived_pass a plan materialize filter st = derived_pass b plan materialize filter st := by
  rw [h.ambient]
  rfl

include h in
/-- A plan cannot tell the answers apart. -/
theorem execute_plan (materialize : Materialize) (filter : OutputFilter) (profile : CompiledProfile) :
    execute_plan a plan materialize filter profile = execute_plan b plan materialize filter profile := by
  have hf : ∀ st, finish a profile plan filter st = finish b profile plan filter st := by
    intro st
    unfold finish
    rw [h.report_provider_uri]
  unfold Resolve.execute_plan
  simp only [h.provider_pass, h.derived_pass, hf]

end

end Answers.Same

end Monosecret.Resolve
