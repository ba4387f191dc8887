/-
  Monosecret.Resolve.Supplied — which secrets resolve, from what the sources answer.

  A stored secret is supplied when a source of its route has a value, or when it is absent
  and its missing policy supplies one in this kind of pass; it resolves when everything it
  depends on does too (`Supplied`). A derived secret resolves when everything it depends on
  does. A pass that completes records exactly that (`resolves_iff_supplied`).
-/

import Monosecret.Resolve.Dependencies

namespace Monosecret.Resolve

open Lib Plan Cache

variable {Identity : Type} (answers : Answers Identity) (plan : ResolutionPlan) (materialize : Materialize)
  (filter : OutputFilter)

/-- The missing policy has something in place of a value. -/
def policy_supplies (planned : PlannedSecret) : Bool :=
  match planned.secret.missing with
  | .Prompt => materialize.prompts && filter.admits planned.name
  | .Generate => materialize.values || !(planned.secret.declared_required && answers.generated_value_is_stored planned)
  | .UseDefault => true
  | .Error => false
  | .Omit => false

def supplies (planned : PlannedSecret) (route : Route) : Bool :=
  match source_result answers plan planned route with
  | .value _ => true
  | .failed _ => false
  | .absent => policy_supplies answers materialize filter planned

inductive Supplied : Text → Prop
  | provided (planned : PlannedSecret) (mem : planned ∈ plan.secrets) (route : Route) (routed : planned.route = some route)
    (supply : supplies answers plan materialize filter planned route = true)
    (needs : ∀ name ∈ planned.dependencies, Supplied name) : Supplied planned.name
  | derived (planned : PlannedSecret) (mem : planned ∈ plan.secrets) (derivation : planned.secret.is_derived = true)
    (needs : ∀ name ∈ planned.dependencies, Supplied name) : Supplied planned.name

variable {answers plan materialize filter}

/-- The policy decides the status of an absent secret. -/
theorem missed_status {planned : PlannedSecret} {r : Record Identity} (h : Missed answers materialize filter planned r) :
    r.status = some .Resolved ↔ policy_supplies answers materialize filter planned := by
  have hm : ¬ (Record.missed_required planned : Record Identity).status = some .Resolved := by
    simp [Record.missed_required, Record.status, provider_entry]
  unfold policy_supplies
  cases h with
  | prompted p asked => simp [p, asked, Record.resolved, Record.status, provider_entry]
  | unprompted p u => simpa [p, u] using hm
  | generated p pass
  | generated_bytes p pass => simp [p, pass, Record.resolved, Record.status, provider_entry]
  | ungenerated p pass kept =>
    rw [p]
    simp only [pass, kept]
    simpa using hm
  | generatable p pass e =>
    rw [p]
    simp only [pass, e]
    simp [Record.resolved, Record.status, provider_entry]
  | defaulted p | has_default p => simp [p, Record.resolved, Record.status, provider_entry]
  | required p => simpa [p] using hm
  | optional p => simp [p, Record.missed_optional, Record.status, provider_entry]

theorem provided_status {planned : PlannedSecret} {route : Route} {r : Record Identity}
    (h : Provided answers plan materialize filter planned route r) :
    r.status = some .Resolved ↔ supplies answers plan materialize filter planned route := by
  unfold supplies
  cases h with
  | served found read rf record =>
    rw [read]
    cases record with
    | reported | parked | delivered => simp [Record.resolved, Record.status, provider_entry]
  | missed read record =>
    rw [read]
    exact missed_status record

section

variable {st : Execution Identity} {f : Deriving Identity}
  (hprovided : provider_pass answers plan materialize filter = .ok st)
  (h : derived_pass answers plan materialize filter st = .ok f)

include hprovided h in
/-- A routed secret resolves when it is supplied and what it depends on has resolved. -/
theorem routed_status {planned : PlannedSecret} (hp : planned ∈ plan.secrets) {r : Route}
    (hr : planned.route = some r) :
    f.statuses planned.name = some .Resolved ↔
      supplies answers plan materialize filter planned r ∧ f.dependencies_resolved planned := by
  have hd : planned.secret.is_derived = false := by
    have hrt := planned.routed
    rw [hr] at hrt
    simpa using hrt.symm
  rw [← provided_status (provided_record hprovided hp hr), ← start_statuses]
  constructor
  · intro hs
    refine ⟨?_, resolved_ready h hp hs⟩
    cases ht : planned.secret.is_typed_stored with
    | false =>
      have hl := leaf_untouched h (leaf_name hp hd ht)
      rw [← hs]
      exact (congrArg Prod.fst hl).symm
    | true =>
      have ho := node_evaluated h (node_of_typed hp ht)
      rw [hs] at ho
      generalize (Deriving.start st).statuses planned.name = s at ho ⊢
      generalize f.st.record planned.name = r' at ho
      cases ho with
      | unfetched | kept | finalized => rfl
      | valued d | reported d => rw [ht] at d; cases d
  · rintro ⟨hs, hrd⟩
    cases ht : planned.secret.is_typed_stored with
    | false =>
      have hl := leaf_untouched h (leaf_name hp hd ht)
      rw [← hs]
      exact congrArg Prod.fst hl
    | true =>
      have ho := node_evaluated h (node_of_typed hp ht)
      rw [hs] at ho
      generalize f.statuses planned.name = s' at ho ⊢
      generalize f.st.record planned.name = r' at ho
      cases ho with
      | unfetched _ fetched => exact absurd rfl fetched
      | kept | finalized => rfl
      | lost_optional _ _ u | lost_required _ _ u => rw [hrd] at u; cases u
      | valued | reported => rfl
      | required d | optional d => rw [ht] at d; cases d

include hprovided h in
theorem supplied_of_resolved (r : Text → Nat)
    (hrn : ∀ p ∈ plan.secrets, ∀ name ∈ p.dependencies, r name < r p.name) (n : Nat)
    {p : PlannedSecret} (hp : p ∈ plan.secrets) (hn : r p.name < n)
    (hs : f.statuses p.name = some .Resolved) : Supplied answers plan materialize filter p.name := by
  induction n generalizing p with
  | zero => omega
  | succ n ih =>
    have hrd := ready_iff.mp (resolved_ready h hp hs)
    have hnd : ∀ name ∈ p.dependencies, Supplied answers plan materialize filter name := by
      intro name hm
      obtain ⟨other, ho, rfl⟩ := ResolutionPlan.exists_of_dependency hp hm
      have hl := hrn p hp other.name hm
      exact ih ho (by omega) (hrd other.name hm)
    cases hd : p.secret.is_derived with
    | true => exact .derived p hp hd hnd
    | false =>
      obtain ⟨rt, hr⟩ := route_of_underived hd
      exact .provided p hp rt hr ((routed_status hprovided h hp hr).mp hs).1 hnd

include hprovided h in
theorem resolved_of_supplied {n : Text} (hs : Supplied answers plan materialize filter n) :
    f.statuses n = some .Resolved := by
  induction hs with
  | provided p m rt r s _ ih =>
    exact (routed_status hprovided h m r).mpr ⟨s, ready_iff.mpr ih⟩
  | derived p m d _ ih => exact derived_resolved h m d (ready_iff.mpr ih)

include hprovided h in
/-- What a completed pass records as resolved is what was supplied. -/
theorem resolves_iff_supplied (name : Text) :
    Resolves f.st name ↔ Supplied answers plan materialize filter name := by
  rw [resolves_iff hprovided h]
  constructor
  · intro hs
    have hn : name ∈ plan.names := by
      by_contra hn
      rw [statuses_recorded hprovided h, unplanned_final hprovided h hn] at hs
      cases hs
    obtain ⟨p, hp, rfl⟩ := List.mem_map.mp hn
    obtain ⟨r, hr⟩ := plan.acyclic
    exact supplied_of_resolved hprovided h r hr (r p.name + 1) hp (by omega) hs
  · exact resolved_of_supplied hprovided h

end

end Monosecret.Resolve
