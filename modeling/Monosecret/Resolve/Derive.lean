/-
  Monosecret.Resolve.Derive — what the derived pass leaves of each secret.

  Evaluating a node touches its own record and status only (`derive_local`), and reads those
  of its dependencies, which are final by then (`ordered_scheduled`). `Evaluated` lists what
  one evaluation can do, in terms of the finished pass.
-/

import Monosecret.Lib.Earliest
import Monosecret.Resolve.Order
import Monosecret.Resolve.Record

namespace Monosecret.Resolve

open Lib Plan Cache

def derived_entry (filter : OutputFilter) (planned : PlannedSecret) (status : ResolutionStatus) : SecretResolution :=
  ⟨planned.name, status, planned.secret.declared_required, none, false, false, true, derivation_of filter planned,
    planned.secret.as_path⟩

theorem merge_deadline_self (planned : PlannedSecret) (dd : Map Text UInt64) :
    merge_deadline planned dd planned.name =
      merge_own (dd planned.name) (planned.dependencies.filterMap dd) := by
  unfold merge_deadline merge_own
  cases (planned.dependencies.filterMap dd).min? with
  | none => rfl
  | some t =>
    cases h : dd planned.name with
    | none | some own => simp

theorem merge_deadline_of_ne {planned : PlannedSecret} {name : Text} (h : name ≠ planned.name) (deadlines : Map Text UInt64) :
    merge_deadline planned deadlines name = deadlines name := by
  unfold merge_deadline
  cases (planned.dependencies.filterMap deadlines).min? with
  | none => rfl
  | some t => exact Map.insert_of_ne h _ _

namespace Deriving

variable {Identity : Type}

/-- The status and the record of one name. -/
def view (d : Deriving Identity) (name : Text) : Option ResolutionStatus × Record Identity :=
  (d.statuses name, d.st.record name)

/-- A record once the deadlines of its dependencies are merged in. -/
def merged (d : Deriving Identity) (planned : PlannedSecret) (r : Record Identity) : Record Identity :=
  if d.dependencies_resolved planned then
    { r with
      expiry := merge_own r.expiry (planned.dependencies.filterMap d.st.secret_expiries)
      refresh := merge_own r.refresh (planned.dependencies.filterMap d.st.refreshes) }
  else r

theorem merge_deadlines_record (d : Deriving Identity) (planned : PlannedSecret) :
    (d.merge_deadlines planned).record planned.name = d.merged planned (d.st.record planned.name) := by
  unfold merge_deadlines merged
  by_cases h : d.dependencies_resolved planned
  · simp [h, Execution.record, merge_deadline_self]
  · simp [h]

theorem merge_deadlines_only (d : Deriving Identity) (planned : PlannedSecret) :
    Execution.OnlyAt planned.name d.st (d.merge_deadlines planned) := by
  intro k hk
  unfold merge_deadlines
  by_cases h : d.dependencies_resolved planned
  · simp [h, Execution.record, merge_deadline_of_ne hk]
  · simp [h]

end Deriving

open Deriving (push_derived finalize_typed_stored lose_typed_stored derive_typed derive_derived derive_one)

section

variable {Identity : Type} (answers : Answers Identity) (plan : ResolutionPlan) (materialize : Materialize)
  (filter : OutputFilter)

/-- What evaluating a node makes of its status `s` and record `r`. -/
inductive Evaluated (d : Deriving Identity) (planned : PlannedSecret) (s : Option ResolutionStatus) (r : Record Identity) :
    Option ResolutionStatus → Record Identity → Prop
  | unfetched (typed : planned.secret.is_typed_stored = true) (fetched : s ≠ some .Resolved) :
    Evaluated d planned s r s (d.merged planned r)
  | kept (typed : planned.secret.is_typed_stored = true) (fetched : s = some .Resolved)
    (ready : d.dependencies_resolved planned = true) (pass : materialize.values = false) :
    Evaluated d planned s r s (d.merged planned r)
  | finalized (typed : planned.secret.is_typed_stored = true) (fetched : s = some .Resolved)
    (ready : d.dependencies_resolved planned = true) (pass : materialize.values = true) (value : SecretBytes)
    (identity : Identity) :
    Evaluated d planned s r s
      { d.merged planned r with pending := none, value := some value, identity := some identity }
  | lost_optional (typed : planned.secret.is_typed_stored = true) (fetched : s = some .Resolved)
    (unready : d.dependencies_resolved planned = false) (policy : planned.secret.missing = .Omit) :
    Evaluated d planned s r (some .MissingOptional)
      { r with
        pending := none
        entries := r.entries.map fun entry => { entry with status := .MissingOptional }
        optional := r.optional ++ [planned.name] }
  | lost_required (typed : planned.secret.is_typed_stored = true) (fetched : s = some .Resolved)
    (unready : d.dependencies_resolved planned = false) (policy : planned.secret.missing ≠ .Omit) :
    Evaluated d planned s r (some .MissingRequired)
      { r with
        pending := none
        entries := r.entries.map fun entry => { entry with status := .MissingRequired }
        required := r.required ++ [planned.name] }
  | valued (derived : planned.secret.is_typed_stored = false) (ready : d.dependencies_resolved planned = true)
    (pass : materialize.values = true) (value : SecretBytes)
    (evaluation : derive_value answers plan filter planned d.st.values d.st.identities = .ok value) :
    Evaluated d planned s r (some .Resolved)
      { d.merged planned r with
        value := some value
        entries := (d.merged planned r).entries ++ [derived_entry filter planned .Resolved] }
  | reported (derived : planned.secret.is_typed_stored = false) (ready : d.dependencies_resolved planned = true)
    (pass : materialize.values = false) :
    Evaluated d planned s r (some .Resolved)
      { d.merged planned r with
        entries := (d.merged planned r).entries ++ [derived_entry filter planned .Resolved] }
  | required (derived : planned.secret.is_typed_stored = false) (unready : d.dependencies_resolved planned = false)
    (policy : planned.secret.missing = .Error) :
    Evaluated d planned s r (some .MissingRequired)
      { r with
        entries := r.entries ++ [derived_entry filter planned .MissingRequired]
        required := r.required ++ [planned.name] }
  | optional (derived : planned.secret.is_typed_stored = false) (unready : d.dependencies_resolved planned = false)
    (policy : planned.secret.missing ≠ .Error) :
    Evaluated d planned s r (some .MissingOptional)
      { r with
        entries := r.entries ++ [derived_entry filter planned .MissingOptional]
        optional := r.optional ++ [planned.name] }

variable {answers plan materialize filter}

theorem push_derived_record (planned : PlannedSecret) (s : ResolutionStatus) (st : Execution Identity)
    (d : Deriving Identity) :
    (push_derived filter planned s st d).st.record planned.name =
      { st.record planned.name with
        entries := (st.record planned.name).entries ++ [derived_entry filter planned s] } := by
  simp [push_derived, Execution.record, List.filter_append, derived_entry]

theorem push_derived_only (planned : PlannedSecret) (s : ResolutionStatus) (st : Execution Identity)
    (d : Deriving Identity) : Execution.OnlyAt planned.name st (push_derived filter planned s st d).st := by
  intro k hk
  simp [push_derived, Execution.record, List.filter_append, hk.symm]

variable {planned : PlannedSecret}

theorem finalize_typed_stored_ok {st st' : Execution Identity}
    (h : finalize_typed_stored answers filter planned st = .ok st') :
    ∃ value i, st' = { st with
      pending_typed := st.pending_typed.remove planned.name
      values := st.values.insert planned.name value
      identities := st.identities.insert planned.name i } := by
  unfold finalize_typed_stored at h
  cases hp : st.pending_typed planned.name with
  | none =>
    rw [hp] at h
    cases h
  | some pn =>
    simp only [hp] at h
    obtain ⟨b, -, h⟩ := Except.bind_ok h
    obtain ⟨p, -, h⟩ := Except.bind_ok h
    obtain ⟨i, -, h⟩ := Except.bind_ok h
    obtain ⟨delivered, -, h⟩ := Except.bind_ok h
    cases h
    exact ⟨delivered, i, rfl⟩

theorem finalize_typed_stored_record (planned : PlannedSecret) (st : Execution Identity) (value : SecretBytes)
    (identity : Identity) :
    ({ st with
        pending_typed := st.pending_typed.remove planned.name
        values := st.values.insert planned.name value
        identities := st.identities.insert planned.name identity } : Execution Identity).record planned.name =
      { st.record planned.name with pending := none, value := some value, identity := some identity } := by
  simp [Execution.record]

theorem finalize_typed_stored_only (planned : PlannedSecret) (st : Execution Identity) (value : SecretBytes)
    (i : Identity) :
    Execution.OnlyAt planned.name st { st with
      pending_typed := st.pending_typed.remove planned.name
      values := st.values.insert planned.name value
      identities := st.identities.insert planned.name i } := by
  intro k hk
  simp [Execution.record, Map.insert_of_ne hk, Map.remove_of_ne hk]

/-- Rewriting the entries of one name, seen at it and at the others. -/
theorem rewrite_entries_filter (en : List SecretResolution) (f : SecretResolution → SecretResolution)
    (hf : ∀ e, (f e).name = e.name) (n k : Text) :
    (en.map fun e => if e.name = n then f e else e).filter (fun e => e.name = k) =
      if k = n then (en.filter fun e => e.name = k).map f
      else en.filter fun e => e.name = k := by
  induction en with
  | nil => simp
  | cons e en ih =>
    rw [List.map_cons, List.filter_cons, ih, List.filter_cons]
    by_cases hk : k = n
    · subst hk
      by_cases he : e.name = k
      · simp [he, hf]
      · simp [he]
    · by_cases he : e.name = n
      · simp [he, hf, hk, Ne.symm hk]
      · simp [he, hk]

theorem lose_typed_stored_only (planned : PlannedSecret) (d : Deriving Identity) (st : Execution Identity) :
    Execution.OnlyAt planned.name st (lose_typed_stored planned d st).st := by
  intro k hk
  unfold lose_typed_stored
  have he := fun status => rewrite_entries_filter st.resolution
    (fun entry => { entry with status }) (fun _ => rfl) planned.name k
  by_cases hm : planned.secret.missing = .Omit
  all_goals simp [hm, Execution.record, Map.remove_of_ne hk, List.filter_append, hk.symm, he, hk]

theorem lose_self (planned : PlannedSecret) (d : Deriving Identity) (st : Execution Identity) {status : ResolutionStatus}
    {required optional : List Text}
    (h : planned.secret.missing = .Omit ∧ (status, required, optional) = (.MissingOptional, [], [planned.name]) ∨
      planned.secret.missing ≠ .Omit ∧ (status, required, optional) = (.MissingRequired, [planned.name], [])) :
    (lose_typed_stored planned d st).statuses planned.name = some status ∧
      (lose_typed_stored planned d st).st.record planned.name =
        { st.record planned.name with
          pending := none
          entries := (st.record planned.name).entries.map fun entry => { entry with status }
          required := (st.record planned.name).required ++ required
          optional := (st.record planned.name).optional ++ optional } := by
  have he := rewrite_entries_filter st.resolution (fun entry => { entry with status }) (fun _ => rfl) planned.name planned.name
  unfold lose_typed_stored
  rcases h with ⟨hm, h⟩ | ⟨hm, h⟩ <;> cases h <;> simp [hm, Execution.record, List.filter_append, he]

theorem push_derived_status (planned : PlannedSecret) (status : ResolutionStatus) (st : Execution Identity)
    (d : Deriving Identity) :
    (push_derived filter planned status st d).statuses planned.name = some status := by
  simp [push_derived]

/-! ## One evaluation -/

variable (answers plan materialize filter) in
/-- A step that rewrites the record of one name and its status. -/
structure EvaluatesTo (planned : PlannedSecret) (d d' : Deriving Identity) : Prop where
  only : Execution.OnlyAt planned.name d.st d'.st
  statuses : ∀ k, k ≠ planned.name → d'.statuses k = d.statuses k
  own : Evaluated answers plan materialize filter d planned (d.statuses planned.name) (d.st.record planned.name)
    (d'.statuses planned.name) (d'.st.record planned.name)

variable {d d' : Deriving Identity}

theorem unready_record (h : d.dependencies_resolved planned = false) :
    (d.merge_deadlines planned).record planned.name = d.st.record planned.name := by
  rw [Deriving.merge_deadlines_record, Deriving.merged, if_neg (by simp [h])]

theorem derive_typed_ok (ht : planned.secret.is_typed_stored)
    (h : derive_typed answers materialize filter planned d = .ok d') :
    EvaluatesTo answers plan materialize filter planned d d' := by
  have ho := d.merge_deadlines_only planned
  have hs := d.merge_deadlines_record planned
  unfold derive_typed at h
  by_cases hf : (d.statuses planned.name == some .Resolved)
  · rw [if_pos hf] at h
    have hf' : d.statuses planned.name = some .Resolved := beq_iff_eq.mp hf
    by_cases hr : d.dependencies_resolved planned
    · rw [if_pos hr] at h
      by_cases hp : materialize.values
      · rw [if_pos hp] at h
        cases hn : finalize_typed_stored answers filter planned (d.merge_deadlines planned) with
        | error e =>
          rw [hn] at h
          cases h
        | ok st =>
          rw [hn] at h
          cases h
          obtain ⟨value, i, rfl⟩ := finalize_typed_stored_ok hn
          refine ⟨ho.trans (finalize_typed_stored_only _ _ _ _), fun _ _ => rfl, ?_⟩
          rw [finalize_typed_stored_record, hs]
          exact .finalized ht hf' hr hp value i
      · rw [if_neg hp] at h
        cases h
        refine ⟨ho, fun _ _ => rfl, ?_⟩
        rw [hs]
        exact .kept ht hf' hr (Bool.eq_false_iff.mpr hp)
    · rw [if_neg hr] at h
      cases h
      have hr' : d.dependencies_resolved planned = false := Bool.eq_false_iff.mpr hr
      refine ⟨ho.trans (lose_typed_stored_only _ _ _), fun k hk => Map.insert_of_ne hk _ _, ?_⟩
      by_cases hm : planned.secret.missing = .Omit
      · obtain ⟨hst, hc⟩ := lose_self planned d (d.merge_deadlines planned) (.inl ⟨hm, rfl⟩)
        rw [hst, hc, unready_record hr', List.append_nil]
        exact .lost_optional ht hf' hr' hm
      · obtain ⟨hst, hc⟩ := lose_self planned d (d.merge_deadlines planned) (.inr ⟨hm, rfl⟩)
        rw [hst, hc, unready_record hr', List.append_nil]
        exact .lost_required ht hf' hr' hm
  · rw [if_neg hf] at h
    cases h
    refine ⟨ho, fun _ _ => rfl, ?_⟩
    rw [hs]
    exact .unfetched ht fun he => hf (by rw [he]; rfl)

theorem miss_derived (planned : PlannedSecret) (r o : List Text)
    (hr : ∀ n ∈ r, n = planned.name) (ho : ∀ n ∈ o, n = planned.name) {s s' : Execution Identity}
    (hs : s' = { s with
      missing_required := s.missing_required ++ r
      missing_optional := s.missing_optional ++ o }) :
    Execution.OnlyAt planned.name s s' ∧ s'.record planned.name = { s.record planned.name with
      required := (s.record planned.name).required ++ r
      optional := (s.record planned.name).optional ++ o } := by
  subst hs
  constructor
  · intro k hk
    have hn : ∀ l : List Text, (∀ n ∈ l, n = planned.name) → l.filter (fun m => m = k) = [] := by
      intro l hl
      rw [List.filter_eq_nil_iff]
      intro n hm
      simp [hl n hm, hk.symm]
    simp [Execution.record, List.filter_append, hn r hr, hn o ho]
  · have hn : ∀ l : List Text, (∀ n ∈ l, n = planned.name) → l.filter (fun m => m = planned.name) = l := fun l hl =>
      List.filter_eq_self.mpr fun n hm => decide_eq_true (hl n hm)
    simp [Execution.record, List.filter_append, hn r hr, hn o ho]

theorem derive_derived_ok (ht : planned.secret.is_typed_stored = false)
    (h : derive_derived answers plan materialize filter planned d = .ok d') :
    EvaluatesTo answers plan materialize filter planned d d' := by
  have ho := d.merge_deadlines_only planned
  have hs := d.merge_deadlines_record planned
  unfold derive_derived at h
  by_cases hr : d.dependencies_resolved planned
  · rw [if_pos hr] at h
    by_cases hp : materialize.values
    · rw [if_pos hp] at h
      have hmr : (d.merge_deadlines planned).values = d.st.values ∧
          (d.merge_deadlines planned).identities = d.st.identities := by
        unfold Deriving.merge_deadlines
        rw [if_pos hr]
        exact ⟨rfl, rfl⟩
      cases hv : derive_value answers plan filter planned (d.merge_deadlines planned).values
          (d.merge_deadlines planned).identities with
      | error e =>
        rw [hv] at h
        cases h
      | ok value =>
        rw [hv] at h
        cases h
        refine ⟨(ho.trans (Execution.insert_value_only _ _ value)).trans (push_derived_only _ _ _ _),
          fun k hk => Map.insert_of_ne hk _ _, ?_⟩
        rw [push_derived_status, push_derived_record, Execution.insert_value_self, hs]
        rw [hmr.1, hmr.2] at hv
        exact .valued ht hr hp value hv
    · rw [if_neg hp] at h
      cases h
      refine ⟨ho.trans (push_derived_only _ _ _ _), fun k hk => Map.insert_of_ne hk _ _, ?_⟩
      rw [push_derived_status, push_derived_record, hs]
      exact .reported ht hr (Bool.eq_false_iff.mpr hp)
  · rw [if_neg hr] at h
    have hr' : d.dependencies_resolved planned = false := Bool.eq_false_iff.mpr hr
    have hsm := unready_record hr'
    by_cases hm : planned.secret.missing = .Error
    · rw [if_pos hm] at h
      cases h
      obtain ⟨hms, hc⟩ := miss_derived planned [planned.name] [] (by simp) (by simp) (s := d.merge_deadlines planned) (by rw [List.append_nil])
      refine ⟨(ho.trans hms).trans (push_derived_only _ _ _ _), fun k hk => Map.insert_of_ne hk _ _, ?_⟩
      rw [push_derived_status, push_derived_record, hc, hsm, List.append_nil]
      exact .required ht hr' hm
    · rw [if_neg hm] at h
      cases h
      obtain ⟨hms, hc⟩ := miss_derived planned [] [planned.name] (by simp) (by simp) (s := d.merge_deadlines planned) (by rw [List.append_nil])
      refine ⟨(ho.trans hms).trans (push_derived_only _ _ _ _), fun k hk => Map.insert_of_ne hk _ _, ?_⟩
      rw [push_derived_status, push_derived_record, hc, hsm, List.append_nil]
      exact .optional ht hr' hm

theorem derive_one_ok (h : derive_one answers plan materialize filter d planned = .ok d') :
    EvaluatesTo answers plan materialize filter planned d d' := by
  unfold derive_one at h
  by_cases ht : planned.secret.is_typed_stored
  · rw [if_pos ht] at h
    exact derive_typed_ok ht h
  · rw [if_neg ht] at h
    exact derive_derived_ok (Bool.eq_false_iff.mpr ht) h

theorem derive_local :
    Local (derive_one answers plan materialize filter) PlannedSecret.name Deriving.view := by
  intro d planned d' h k hk
  have ht := derive_one_ok h
  rw [Deriving.view, Deriving.view, ht.statuses k hk, ht.only k hk]

/-! ## In terms of the finished pass -/

/-- The part of a pass that a node's dependencies show. -/
def AgreeOn (names : List Text) (d d' : Deriving Identity) : Prop := ∀ k ∈ names, d.view k = d'.view k

theorem ready_iff :
    d.dependencies_resolved planned ↔ ∀ n ∈ planned.dependencies, d.statuses n = some .Resolved := by
  simp [Deriving.dependencies_resolved]

theorem AgreeOn.ready (h : AgreeOn planned.dependencies d d') :
    d.dependencies_resolved planned = d'.dependencies_resolved planned := by
  rw [Bool.eq_iff_iff, ready_iff, ready_iff]
  have hs : ∀ k ∈ planned.dependencies, d.statuses k = d'.statuses k := fun k hk => congrArg Prod.fst (h k hk)
  constructor
  · exact fun ha k hk => (hs k hk).symm.trans (ha k hk)
  · exact fun ha k hk => (hs k hk).trans (ha k hk)

theorem AgreeOn.merged (h : AgreeOn planned.dependencies d d') (r : Record Identity) :
    d.merged planned r = d'.merged planned r := by
  have hr : ∀ k ∈ planned.dependencies, d.st.record k = d'.st.record k := fun k hk => congrArg Prod.snd (h k hk)
  have he : planned.dependencies.filterMap d.st.secret_expiries = planned.dependencies.filterMap d'.st.secret_expiries :=
    List.filterMap_congr fun k hk => congrArg Record.expiry (hr k hk)
  have hf : planned.dependencies.filterMap d.st.refreshes = planned.dependencies.filterMap d'.st.refreshes :=
    List.filterMap_congr fun k hk => congrArg Record.refresh (hr k hk)
  rw [Deriving.merged, Deriving.merged, h.ready, he, hf]

section

variable (answers plan filter) {planned : PlannedSecret} {values values' : Map Text SecretBytes}
  {identities identities' : Map Text Identity}

theorem compose_congr {template : Template} (h : ∀ k ∈ template.dependencies, values k = values' k) :
    compose filter template values = compose filter template values' := by
  have hi : compose_inputs filter template values = compose_inputs filter template values' := by
    unfold compose_inputs
    rw [List.filterMap_congr fun n hn => by rw [h n hn]]
  unfold compose
  rw [hi]

theorem credential_mem {r c : Text} (h : planned.secret.credential r = some c) :
    c ∈ planned.dependencies := by
  unfold CompiledSecret.credential at h
  obtain ⟨b, hf, rfl⟩ := Option.map_eq_some_iff.mp h
  exact List.mem_append_right _ (List.mem_map_of_mem (List.mem_of_find?_eq_some hf))

theorem credential_value_congr (role : Text) (h : ∀ k ∈ planned.dependencies, values k = values' k) :
    credential_value answers filter planned role values = credential_value answers filter planned role values' := by
  unfold credential_value
  cases hc : planned.secret.credential role with
  | none => rfl
  | some c =>
    simp only
    rw [h c (credential_mem hc)]

/-- A derived value depends on its dependencies only. -/
theorem derive_value_congr (hv : ∀ k ∈ planned.dependencies, values k = values' k)
    (hi : ∀ k ∈ planned.dependencies, identities k = identities' k) :
    derive_value answers plan filter planned values identities =
      derive_value answers plan filter planned values' identities' := by
  unfold derive_value
  cases hc : planned.secret.composition with
  | some t =>
    have ht : ∀ k ∈ t.dependencies, values k = values' k := by
      intro k hk
      refine hv k (List.mem_append_left _ (List.mem_append_left _ ?_))
      rw [hc]
      exact hk
    simp only
    rw [compose_congr filter ht]
  | none =>
    simp only
    cases hs : planned.secret.source with
    | none => rfl
    | some s =>
      have hr : s ∈ planned.dependencies := by
        refine List.mem_append_left _ (List.mem_append_right _ ?_)
        rw [hs]
        exact List.mem_singleton_self s
      simp only
      unfold from_value
      rw [credential_value_congr answers filter (Text.of "password") hv, hv s hr, hi s hr]

end

/-- What an evaluation does, its dependencies decide. -/
theorem Evaluated.congr (h : AgreeOn planned.dependencies d d') {s s' : Option ResolutionStatus} {r r' : Record Identity}
    (he : Evaluated answers plan materialize filter d planned s r s' r') :
    Evaluated answers plan materialize filter d' planned s r s' r' := by
  have hr := h.ready
  have hv : derive_value answers plan filter planned d.st.values d.st.identities =
      derive_value answers plan filter planned d'.st.values d'.st.identities :=
    derive_value_congr answers plan filter
      (fun k hk => congrArg Record.value (congrArg Prod.snd (h k hk)))
      (fun k hk => congrArg Record.identity (congrArg Prod.snd (h k hk)))
  cases he with
  | unfetched t fetched =>
    rw [h.merged]
    exact .unfetched t fetched
  | kept t fetched ready pass =>
    rw [h.merged]
    exact .kept t fetched (hr ▸ ready) pass
  | finalized t fetched ready pass value i =>
    rw [h.merged]
    exact .finalized t fetched (hr ▸ ready) pass value i
  | lost_optional t fetched u p => exact .lost_optional t fetched (hr ▸ u) p
  | lost_required t fetched u p => exact .lost_required t fetched (hr ▸ u) p
  | valued dr ready pass value e =>
    rw [h.merged]
    exact .valued dr (hr ▸ ready) pass value (hv ▸ e)
  | reported dr ready pass =>
    rw [h.merged]
    exact .reported dr (hr ▸ ready) pass
  | required dr u p => exact .required dr (hr ▸ u) p
  | optional dr u p => exact .optional dr (hr ▸ u) p

/-! ## The finished pass -/

section

variable {st : Execution Identity} {fn : Deriving Identity}
variable {planned : PlannedSecret}

/-- Every node was evaluated on what the pass left of its dependencies. -/
theorem node_evaluated (h : derived_pass answers plan materialize filter st = .ok fn) (hn : planned ∈ plan.nodes) :
    Evaluated answers plan materialize filter fn planned ((Deriving.start st).statuses planned.name)
      (st.record planned.name) (fn.statuses planned.name) (fn.st.record planned.name) := by
  obtain ⟨before, a, hs, ha⟩ := derive_local.stage_after ResolutionPlan.ordered_scheduled
    ((ResolutionPlan.mem_ordered planned).mpr hn) ResolutionPlan.ordered_nodup h
  have ho := (derive_one_ok hs.run).own
  have hb : before.statuses planned.name = (Deriving.start st).statuses planned.name ∧
      before.st.record planned.name = st.record planned.name := Prod.mk.inj hs.found
  have hf : a.statuses planned.name = fn.statuses planned.name ∧
      a.st.record planned.name = fn.st.record planned.name := Prod.mk.inj hs.left
  rw [hb.1, hb.2, hf.1, hf.2] at ho
  exact ho.congr ha

/-- What is no node is left as the provider pass left it. -/
theorem leaf_untouched (h : derived_pass answers plan materialize filter st = .ok fn) {name : Text}
    (hn : name ∉ plan.node_names) : fn.view name = (Deriving.start st).view name := by
  refine derive_local.frame h ?_
  rw [ResolutionPlan.mem_ordered_names]
  exact hn

theorem start_statuses (st : Execution Identity) (n : Text) :
    (Deriving.start st).statuses n = (st.record n).status :=
  congrArg (Option.map SecretResolution.status) List.head?_filter.symm

theorem merged_entries (d : Deriving Identity) (planned : PlannedSecret) (r : Record Identity) :
    (d.merged planned r).entries = r.entries := by
  unfold Deriving.merged
  by_cases h : d.dependencies_resolved planned
  · rw [if_pos h]
  · rw [if_neg h]

theorem derived_route (hd : planned.secret.is_derived) : planned.route = none := by
  have hr := planned.routed
  rw [hd] at hr
  simpa using hr

theorem route_of_underived (hd : planned.secret.is_derived = false) : ∃ route, planned.route = some route := by
  have hr := planned.routed
  rw [hd] at hr
  exact Option.isSome_iff_exists.mp hr

/-- A node is derived or typed. -/
theorem derived_of_node (hn : planned ∈ plan.nodes) (ht : planned.secret.is_typed_stored = false) :
    planned.secret.is_derived := by
  have hd := (ResolutionPlan.mem_nodes.mp hn).2
  rw [CompiledSecret.is_node, ht, Bool.or_false] at hd
  exact hd

section

variable (hp : planned ∈ plan.secrets)

include hp

theorem node_of_derived (hd : planned.secret.is_derived) : planned ∈ plan.nodes :=
  ResolutionPlan.mem_nodes.mpr ⟨hp, by rw [CompiledSecret.is_node, hd, Bool.true_or]⟩

theorem node_of_typed (ht : planned.secret.is_typed_stored) : planned ∈ plan.nodes :=
  ResolutionPlan.mem_nodes.mpr ⟨hp, by rw [CompiledSecret.is_node, ht, Bool.or_true]⟩

/-- The name of a node is no other secret's. -/
theorem node_name (hn : planned.name ∈ plan.node_names) : planned ∈ plan.nodes := by
  obtain ⟨other, ho, hm⟩ := List.mem_map.mp hn
  rwa [← ResolutionPlan.eq_of_name (ResolutionPlan.mem_nodes.mp ho).1 hp hm]

theorem leaf_name (hd : planned.secret.is_derived = false)
    (ht : planned.secret.is_typed_stored = false) : planned.name ∉ plan.node_names := by
  intro hn
  have hnd := (ResolutionPlan.mem_nodes.mp (node_name hp hn)).2
  rw [CompiledSecret.is_node, hd, ht] at hnd
  cases hnd

end

section

variable (hprovided : provider_pass answers plan materialize filter = .ok st)
  (h : derived_pass answers plan materialize filter st = .ok fn)

include hprovided in
theorem derived_start {planned : PlannedSecret} (hp : planned ∈ plan.secrets) (hd : planned.secret.is_derived) :
    st.record planned.name = .empty := underived_record hprovided hp (derived_route hd)

include hprovided h in
/-- Nothing is recorded of a name that was not planned. -/
theorem unplanned_final {name : Text} (hn : name ∉ plan.names) : fn.st.record name = .empty := by
  have hl : name ∉ plan.node_names := by
    intro hm
    obtain ⟨planned, hd, rfl⟩ := List.mem_map.mp hm
    exact hn (List.mem_map_of_mem (ResolutionPlan.mem_nodes.mp hd).1)
  have hs : fn.st.record name = st.record name := congrArg Prod.snd (leaf_untouched h hl)
  rw [hs, unplanned_record hprovided hn]

include hprovided h in
/-- The statuses decided are those recorded. -/
theorem statuses_recorded (n : Text) : fn.statuses n = (fn.st.record n).status := by
  by_cases hn : n ∈ plan.node_names
  · obtain ⟨planned, hd, rfl⟩ := List.mem_map.mp hn
    have hst := start_statuses st planned.name
    have hm : planned.secret.is_typed_stored = false → (st.record planned.name).entries = [] := by
      intro ht
      rw [derived_start hprovided (ResolutionPlan.mem_nodes.mp hd).1 (derived_of_node hd ht)]
      rfl
    have hf : ∀ status, (Deriving.start st).statuses planned.name = some .Resolved →
        ((st.record planned.name).entries.map fun e => { e with status }).head?.map SecretResolution.status =
          some status := by
      intro status hs
      rw [hs] at hst
      rw [List.head?_map]
      unfold Record.status at hst
      cases he : (st.record planned.name).entries.head? with
      | none => rw [he] at hst; cases hst
      | some e => rfl
    generalize hs : (Deriving.start st).statuses planned.name = s at *
    have ho := node_evaluated h hd
    rw [hs] at ho
    generalize fn.statuses planned.name = s' at ho
    generalize fn.st.record planned.name = r' at ho
    cases ho with
    | unfetched | kept | finalized => rw [Record.status, merged_entries]; exact hst
    | lost_optional _ fetched | lost_required _ fetched => exact (hf _ fetched).symm
    | valued dr | reported dr => rw [Record.status, merged_entries, hm dr]; rfl
    | required dr | optional dr => rw [Record.status, hm dr]; rfl
  · have hu := leaf_untouched h hn
    have hv := Prod.mk.inj hu
    rw [hv.1, hv.2]
    exact start_statuses st n

end

end

end

end Monosecret.Resolve
