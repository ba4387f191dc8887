/-
  Monosecret.Resolve.Settled — how each planned secret ends.

  A secret ends resolved, missing under a policy that is not `Omit`, or omitted, and its
  entry, the two missing lists and, in a pass that materializes values, its value say the
  same of it (`settled`).
-/

import Monosecret.Resolve.Derive

namespace Monosecret.Resolve

open Lib Plan Cache

/-- What an execution holds of a planned secret, with a value once one is `due`. -/
inductive Settled {Identity : Type} (due : Prop) (planned : PlannedSecret) (r : Record Identity) : Prop
  | resolved (entry : SecretResolution) (entries : r.entries = [entry])
    (declared : entry.required = planned.secret.declared_required) (status : entry.status = .Resolved)
    (required : r.required = []) (optional : r.optional = []) (value : due → ∃ value, r.value = some value)
  | required (entry : SecretResolution) (entries : r.entries = [entry])
    (declared : entry.required = planned.secret.declared_required) (status : entry.status = .MissingRequired)
    (policy : planned.secret.missing ≠ .Omit) (required : r.required = [planned.name]) (optional : r.optional = [])
  | omitted (entry : SecretResolution) (entries : r.entries = [entry])
    (declared : entry.required = planned.secret.declared_required) (status : entry.status = .MissingOptional)
    (policy : planned.secret.missing = .Omit) (required : r.required = []) (optional : r.optional = [planned.name])

section

variable {Identity : Type} {ans : Answers Identity} {plan : ResolutionPlan} {m : Materialize}
  {filter : OutputFilter} {st : Execution Identity} {final : Deriving Identity}

variable {planned : PlannedSecret}

theorem missed_settled (hp : planned.secret.missing ≠ .Omit) (d : Prop) :
    Settled d planned (Record.missed_required planned : Record Identity) :=
  .required _ rfl rfl rfl hp rfl rfl

variable {r : Record Identity}

/-- The provider pass leaves a typed secret's value to the derived pass. -/
theorem provided_settled {rt : Route} (hd : planned.secret.is_derived = false)
    (hr : Provided ans plan m filter planned rt r) :
    Settled (m.values ∧ planned.secret.is_typed_stored = false) planned r := by
  have hn : m.values = false → ∀ r : Record Identity,
      m.values ∧ planned.secret.is_typed_stored = false → ∃ value, r.value = some value := by
    intro hp r hdu
    rw [hdu.1] at hp
    cases hp
  cases hr with
  | served found read rf record =>
    cases record with
    | reported pass => exact .resolved _ rfl rfl rfl rfl rfl (hn pass _)
    | parked _ t =>
      refine .resolved _ rfl rfl rfl rfl rfl fun hdu => ?_
      rw [t] at hdu
      cases hdu.2
    | delivered _ _ value => exact .resolved _ rfl rfl rfl rfl rfl fun _ => ⟨value, rfl⟩
  | missed read record =>
    cases record with
    | prompted _ _ _ value | generated _ _ _ value => exact .resolved _ rfl rfl rfl rfl rfl fun _ => ⟨value, rfl⟩
    | generated_bytes _ _ b answer =>
      refine .resolved _ rfl rfl rfl rfl rfl fun hdu => ?_
      rw [ans.generated_binary planned b hd answer] at hdu
      cases hdu.2
    | generatable _ pass => exact .resolved _ rfl rfl rfl rfl rfl (hn pass _)
    | defaulted _ _ _ _ value => exact .resolved _ rfl rfl rfl rfl rfl fun _ => ⟨value, rfl⟩
    | has_default _ pass => exact .resolved _ rfl rfl rfl rfl rfl (hn pass _)
    | unprompted p | ungenerated p | required p => exact missed_settled (by rw [p]; simp) _
    | optional p => exact .omitted _ rfl rfl rfl p rfl rfl

theorem merged_fields (d : Deriving Identity) (planned : PlannedSecret) (r : Record Identity) :
    (d.merged planned r).value = r.value ∧ (d.merged planned r).required = r.required ∧
      (d.merged planned r).optional = r.optional := by
  unfold Deriving.merged
  by_cases h : d.dependencies_resolved planned
  · rw [if_pos h]
    exact ⟨rfl, rfl, rfl⟩
  · rw [if_neg h]
    exact ⟨rfl, rfl, rfl⟩

/-- Merging deadlines settles nothing else. -/
theorem Settled.merged {du d' : Prop} (h : Settled du planned r) (hdu : d' → du) (d : Deriving Identity) :
    Settled d' planned (d.merged planned r) := by
  obtain ⟨hv, hr, hp⟩ := merged_fields d planned r
  have hn := merged_entries d planned r
  cases h with
  | resolved e he hc hs hre ho hva =>
    exact .resolved e (hn.trans he) hc hs (hr.trans hre) (hp.trans ho)
      fun hd => hv ▸ hva (hdu hd)
  | required e he hc hs hl hre ho =>
    exact .required e (hn.trans he) hc hs hl (hr.trans hre) (hp.trans ho)
  | omitted e he hc hs hl hre ho =>
    exact .omitted e (hn.trans he) hc hs hl (hr.trans hre) (hp.trans ho)

/-- Nothing lists a secret that was found. -/
theorem Settled.found {d : Prop} (h : Settled d planned r) (hs : r.status = some .Resolved) :
    ∃ e, r.entries = [e] ∧ e.required = planned.secret.declared_required ∧ e.status = .Resolved ∧
      r.required = [] ∧ r.optional = [] := by
  unfold Record.status at hs
  cases h with
  | resolved e he hd ht hr ho => exact ⟨e, he, hd, ht, hr, ho⟩
  | required e he _ ht | omitted e he _ ht =>
    rw [he] at hs
    rw [Option.some.inj hs] at ht
    cases ht

theorem typed_settled {d : Deriving Identity} (ht : planned.secret.is_typed_stored)
    {s s' : Option ResolutionStatus} {r' : Record Identity} (hs : s = r.status)
    (hr : Settled (m.values ∧ planned.secret.is_typed_stored = false) planned r)
    (h : Evaluated ans plan m filter d planned s r s' r') :
    Settled (m.values) planned r' := by
  cases h with
  | unfetched _ fetched =>
    cases hr with
    | resolved entry he _ hst =>
      rw [hs, Record.status, he] at fetched
      exact absurd (congrArg some hst) fetched
    | required entry he hd hst hl hre ho =>
      exact (Settled.required entry he hd hst hl hre ho).merged id d
    | omitted entry he hd hst hl hre ho =>
      exact (Settled.omitted entry he hd hst hl hre ho).merged id d
  | kept _ _ _ pass => exact hr.merged (fun hp => by rw [hp] at pass; cases pass) d
  | finalized _ fetched _ _ value =>
    obtain ⟨entry, he, hd, hst, hre, ho⟩ := hr.found (hs ▸ fetched)
    obtain ⟨-, hq, hop⟩ := merged_fields d planned r
    exact .resolved entry ((merged_entries d planned r).trans he) hd hst (hq.trans hre)
      (hop.trans ho) fun _ => ⟨value, rfl⟩
  | lost_optional _ fetched _ p =>
    obtain ⟨entry, he, hd, -, hre, ho⟩ := hr.found (hs ▸ fetched)
    exact .omitted { entry with status := .MissingOptional } (by simp [he]) hd rfl p hre (by simp [ho])
  | lost_required _ fetched _ p =>
    obtain ⟨entry, he, hd, -, hre, ho⟩ := hr.found (hs ▸ fetched)
    exact .required { entry with status := .MissingRequired } (by simp [he]) hd rfl p (by simp [hre]) ho
  | valued dr | reported dr | required dr | optional dr => rw [ht] at dr; cases dr

theorem derived_settled {d : Deriving Identity} (hd : planned.secret.is_derived) {s s' : Option ResolutionStatus}
    {r' : Record Identity} (h : Evaluated ans plan m filter d planned s .empty s' r') :
    Settled (m.values) planned r' := by
  have ht := CompiledSecret.derived_not_typed hd
  obtain ⟨-, hr, ho⟩ := merged_fields d planned (.empty : Record Identity)
  have he : (d.merged planned (.empty : Record Identity)).entries = [] := merged_entries d planned .empty
  cases h with
  | unfetched t | kept t | finalized t | lost_optional t
  | lost_required t => rw [ht] at t; cases t
  | valued _ _ _ value =>
    exact .resolved (derived_entry filter planned .Resolved) (by simp [he]) rfl rfl hr ho
      fun _ => ⟨value, rfl⟩
  | reported _ _ pass =>
    exact .resolved (derived_entry filter planned .Resolved) (by simp [he]) rfl rfl hr ho
      fun hp => by rw [hp] at pass; cases pass
  | required _ _ p => exact .required _ rfl rfl rfl (by rw [p]; simp) rfl rfl
  | optional _ _ p =>
    exact .omitted _ rfl rfl rfl ((planned.secret.derived_missing hd).resolve_left p) rfl rfl

/-- Every planned secret ends in one of the three ways. -/
theorem settled (hr : provider_pass ans plan m filter = .ok st)
    (h : derived_pass ans plan m filter st = .ok final) (hp : planned ∈ plan.secrets) :
    Settled (m.values) planned (final.st.record planned.name) := by
  cases hd : planned.secret.is_derived with
  | true =>
    have ho := node_evaluated h (node_of_derived hp hd)
    rw [derived_start hr hp hd] at ho
    exact derived_settled hd ho
  | false =>
    obtain ⟨rt, hrt⟩ := route_of_underived hd
    have hst := provided_settled hd (provided_record hr hp hrt)
    by_cases ht : planned.secret.is_typed_stored
    · exact typed_settled ht (start_statuses st planned.name) hst (node_evaluated h (node_of_typed hp ht))
    · have hm : final.st.record planned.name = st.record planned.name :=
        congrArg Prod.snd (leaf_untouched h (leaf_name hp hd (Bool.eq_false_iff.mpr ht)))
      rw [hm]
      cases hst with
      | resolved e he hc hs hq hop hv =>
        exact .resolved e he hc hs hq hop fun hps => hv ⟨hps, Bool.eq_false_iff.mpr ht⟩
      | required e he hc hs hl hq hop => exact .required e he hc hs hl hq hop
      | omitted e he hc hs hl hq hop => exact .omitted e he hc hs hl hq hop

end

end Monosecret.Resolve
