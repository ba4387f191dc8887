/-
  Monosecret.Resolve.Dependencies — derived secrets and what they depend on.

  (1) Order: the derived pass takes every node once, and none before anything it
      transitively depends on (`dependencies_first`).
  (2) Status: a derived secret has one entry, and resolves exactly when everything it
      transitively depends on does (`derived_resolved_iff`).
  (3) Value: where values are materialized it is what `derive_value` makes of the
      dependencies' final values; for a template, the text rendered from them
      (`composed_value`).

  `derived_values` states them of every pass that completes; one that fails has failed to
  evaluate a secret all of whose dependencies had resolved.
-/

import Monosecret.Resolve.Chain
import Monosecret.Resolve.Settled

namespace Monosecret.Resolve

open Lib Plan Cache

/-- A secret recorded as resolved. -/
def Resolves {Identity : Type} (st : Execution Identity) (name : Text) : Prop :=
  ∃ entry ∈ st.resolution, entry.name = name ∧ entry.status = .Resolved

section

variable {Identity : Type} {answers : Answers Identity} {plan : ResolutionPlan} {materialize : Materialize}
  {filter : OutputFilter}

/-! ## Order -/

variable {planned : PlannedSecret}

theorem needs_iff (hp : planned ∈ plan.secrets) (b : Text) : plan.Needs planned.name b ↔ b ∈ planned.dependencies := by
  constructor
  · rintro ⟨other, ho, hn, hb⟩
    rwa [ResolutionPlan.eq_of_name ho hp hn] at hb
  · exact fun hb => ⟨planned, hp, rfl, hb⟩

theorem node_of_needs (hp : planned ∈ plan.secrets) {b : Text} (h : plan.Needs planned.name b) : planned ∈ plan.nodes := by
  refine ResolutionPlan.mem_nodes.mpr ⟨hp, ?_⟩
  by_contra hl
  rw [needs_iff hp, PlannedSecret.dependencies,
    CompiledSecret.dependencies_of_leaf (Bool.eq_false_iff.mpr hl)] at h
  cases h

/-- Nothing a node transitively depends on is evaluated at or after it. -/
theorem dependencies_first {pre p : List PlannedSecret} (h : plan.ordered = pre ++ planned :: p) {nm : Text}
    (hn : Relation.TransGen plan.Needs planned.name nm) : nm ∉ (planned :: p).map PlannedSecret.name := by
  generalize ha : planned.name = a at hn
  induction hn using Relation.TransGen.head_induction_on generalizing pre planned p with
  | single hb =>
    subst ha
    have hm : planned ∈ plan.secrets :=
      (ResolutionPlan.mem_nodes.mp ((ResolutionPlan.mem_ordered _).mp (h ▸ List.mem_append_right _ (.head _)))).1
    exact ResolutionPlan.ordered_scheduled pre planned p h nm ((needs_iff hm nm).mp hb)
  | head hb hbn ih =>
    subst ha
    rename_i b
    have hm : planned ∈ plan.secrets :=
      (ResolutionPlan.mem_nodes.mp ((ResolutionPlan.mem_ordered _).mp (h ▸ List.mem_append_right _ (.head _)))).1
    have hl := ResolutionPlan.ordered_scheduled pre planned p h b ((needs_iff hm b).mp hb)
    -- the dependency needs something itself, so it is a node, and stands before
    obtain ⟨n, hd, rfl⟩ := ResolutionPlan.exists_of_dependency hm ((needs_iff hm b).mp hb)
    have hno : n ∈ plan.ordered := by
      rw [ResolutionPlan.mem_ordered]
      obtain ⟨c, hc, -⟩ := Relation.TransGen.head'_iff.mp hbn
      exact node_of_needs hd hc
    have hp : n ∈ pre := by
      rw [h] at hno
      refine (List.mem_append.mp hno).resolve_right fun hm => hl (List.mem_map_of_mem hm)
    obtain ⟨before, bt, rfl⟩ := List.append_of_mem hp
    have ho : plan.ordered = before ++ n :: (bt ++ planned :: p) := by
      rw [h, List.append_assoc, List.cons_append]
    intro hnm
    refine ih ho rfl ?_
    rw [List.map_cons, List.map_append]
    exact .tail _ (List.mem_append_right _ hnm)

/-! ## Status -/

section

variable {st : Execution Identity} {final : Deriving Identity}
  (hprovided : provider_pass answers plan materialize filter = .ok st)
  (h : derived_pass answers plan materialize filter st = .ok final)

variable {planned : PlannedSecret}

include hprovided h in
/-- Every planned secret has one entry. -/
theorem one_entry (hp : planned ∈ plan.secrets) : ∃ e, (final.st.record planned.name).entries = [e] := by
  cases settled hprovided h hp with
  | resolved e en | required e en | omitted e en => exact ⟨e, en⟩

theorem mem_entries {st : Execution Identity} {name : Text} {e : SecretResolution} :
    e ∈ (st.record name).entries ↔ e ∈ st.resolution ∧ e.name = name := by
  simp [Execution.record]

include hprovided h in
/-- The status decided says whether the secret resolved. -/
theorem resolves_iff (n : Text) : Resolves final.st n ↔ final.statuses n = some .Resolved := by
  rw [statuses_recorded hprovided h, Record.status]
  have hen : (final.st.record n).entries = [] ∨ ∃ e, (final.st.record n).entries = [e] := by
    by_cases hn : n ∈ plan.names
    · obtain ⟨planned, hp, rfl⟩ := List.mem_map.mp hn
      exact .inr (one_entry hprovided h hp)
    · rw [unplanned_final hprovided h hn]
      exact .inl rfl
  constructor
  · rintro ⟨e, hm, hnm, hs⟩
    have hi := mem_entries.mpr ⟨hm, hnm⟩
    rcases hen with he | ⟨other, he⟩
    · rw [he] at hi
      cases hi
    · rw [he, List.mem_singleton] at hi
      rw [he, ← hi]
      exact congrArg some hs
  · intro hs
    rcases hen with he | ⟨e, he⟩
    · rw [he] at hs
      cases hs
    · rw [he] at hs
      have hi : e ∈ (final.st.record n).entries := by rw [he]; exact List.mem_singleton_self e
      obtain ⟨hm, hnm⟩ := mem_entries.mp hi
      exact ⟨e, hm, hnm, Option.some.inj hs⟩

include h in
/-- What resolves has its dependencies resolved. -/
theorem resolved_ready (hp : planned ∈ plan.secrets) (hs : final.statuses planned.name = some .Resolved) :
    final.dependencies_resolved planned := by
  by_cases hn : planned ∈ plan.nodes
  · have ho := node_evaluated h hn
    rw [hs] at ho
    generalize ht : (Deriving.start st).statuses planned.name = s at ho
    generalize final.st.record planned.name = r' at ho
    cases ho with
    | unfetched _ fetched => exact absurd rfl fetched
    | kept _ _ ready | finalized _ _ ready | valued _ ready | reported _ ready => exact ready
  · have hl : planned.secret.is_node = false :=
      Bool.eq_false_iff.mpr fun hd => hn (ResolutionPlan.mem_nodes.mpr ⟨hp, hd⟩)
    rw [ready_iff, PlannedSecret.dependencies, CompiledSecret.dependencies_of_leaf hl]
    exact nofun

include h in
theorem derived_resolved (hp : planned ∈ plan.secrets) (hd : planned.secret.is_derived)
    (hr : final.dependencies_resolved planned) : final.statuses planned.name = some .Resolved := by
  have ho := node_evaluated h (node_of_derived hp hd)
  have ht := CompiledSecret.derived_not_typed hd
  generalize final.statuses planned.name = s' at ho
  generalize final.st.record planned.name = r' at ho
  cases ho with
  | unfetched t | kept t | finalized t | lost_optional t
  | lost_required t => rw [ht] at t; cases t
  | valued | reported => rfl
  | required _ u | optional _ u => rw [hr] at u; cases u

include h in
theorem resolved_trans {a b : Text} (hr : Relation.TransGen plan.Needs a b) (ha : final.statuses a = some .Resolved) :
    final.statuses b = some .Resolved := by
  have ho : ∀ {x y}, plan.Needs x y → final.statuses x = some .Resolved → final.statuses y = some .Resolved := by
    rintro x y ⟨planned, hp, rfl, hy⟩ hx
    exact ready_iff.mp (resolved_ready h hp hx) y hy
  induction hr with
  | single hb => exact ho hb ha
  | tail _ hc ih => exact ho hc ih

include hprovided h in
theorem derived_resolved_iff (hp : planned ∈ plan.secrets) (hd : planned.secret.is_derived) :
    Resolves final.st planned.name ↔ ∀ name, Relation.TransGen plan.Needs planned.name name → Resolves final.st name := by
  constructor
  · intro hr name hn
    rw [resolves_iff hprovided h] at hr ⊢
    exact resolved_trans h hn hr
  · intro ha
    rw [resolves_iff hprovided h]
    refine derived_resolved h hp hd (ready_iff.mpr fun name hm => ?_)
    rw [← resolves_iff hprovided h]
    exact ha name (.single ((needs_iff hp name).mpr hm))

/-! ## Value -/

include h in
theorem derived_value (hp : planned ∈ plan.secrets) (hd : planned.secret.is_derived)
    (hs : final.statuses planned.name = some .Resolved) (hps : materialize.values) :
    ∃ value, final.st.values planned.name = some value ∧
      derive_value answers plan filter planned final.st.values final.st.identities = .ok value := by
  have ho := node_evaluated h (node_of_derived hp hd)
  have ht := CompiledSecret.derived_not_typed hd
  rw [hs] at ho
  have hr : final.st.values planned.name = (final.st.record planned.name).value := rfl
  rw [hr]
  generalize (Deriving.start st).statuses planned.name = s at ho
  generalize final.st.record planned.name = r' at ho ⊢
  cases ho with
  | unfetched t | kept t | finalized t => rw [ht] at t; cases t
  | valued _ _ _ value e => exact ⟨value, rfl, e⟩
  | reported _ _ pass => rw [hps] at pass; cases pass

end

/-- The text of a dependency, once it has a value. -/
def text_of (values : Map Text SecretBytes) (name : Text) : Option String :=
  (values name).bind fun value => String.fromUTF8? ⟨value.toArray⟩

theorem text_input_ok {n : String} {value : SecretBytes} {text : String} (h : text_input n value = .ok text) :
    String.fromUTF8? ⟨value.toArray⟩ = some text := by
  unfold text_input at h
  cases ht : String.fromUTF8? ⟨value.toArray⟩ with
  | none => rw [ht] at h; cases h
  | some t' => rw [ht] at h; cases h; rfl

/-- Looking an input up after each was converted. -/
theorem converted_find {g : SecretBytes → Option String} {f : Text × SecretBytes → Except MonosecretError (Text × String)}
    (hf : ∀ i o, f i = .ok o → o.1 = i.1 ∧ g i.2 = some o.2)
    {ip : List (Text × SecretBytes)} {ot : List (Text × String)} (h : ip.mapM f = .ok ot) (n : Text) :
    (ot.find? fun o => o.1 = n).map Prod.snd =
      (ip.find? fun i => i.1 = n).bind fun i => g i.2 := by
  have ha := Except.mapM_ok h
  clear h
  induction ha with
  | nil => rfl
  | cons hb _ ih =>
    rename_i i o ip ot _
    obtain ⟨hm, hc⟩ := hf i o hb
    by_cases hn : i.1 = n
    · rw [List.find?_cons_of_pos (by simpa [hm] using hn), List.find?_cons_of_pos (by simpa using hn)]
      simp [hc]
    · rw [List.find?_cons_of_neg (by simpa [hm] using hn), List.find?_cons_of_neg (by simpa using hn)]
      exact ih

theorem present_find (v : Map Text SecretBytes) {names : List Text} {nm : Text} (hn : nm ∈ names) :
    ((names.filterMap fun n => (v n).map fun value => (n, value)).find? fun i => i.1 = nm) =
      (v nm).map fun value => (nm, value) := by
  induction names with
  | nil => cases hn
  | cons first r ih =>
    by_cases hf : first = nm
    · subst hf
      cases hv : v first with
      | some value =>
        rw [List.filterMap_cons_some (by rw [hv]; rfl), List.find?_cons_of_pos (by simp)]
        rfl
      | none =>
        rw [List.filterMap_cons_none (by rw [hv]; rfl), List.find?_eq_none.mpr]
        · rfl
        · intro i hm
          obtain ⟨n, -, hi⟩ := List.mem_filterMap.mp hm
          obtain ⟨value, hl, rfl⟩ := Option.map_eq_some_iff.mp hi
          intro hnm
          have hn' : n = first := of_decide_eq_true hnm
          rw [hn', hv] at hl
          cases hl
    · have hr := ih ((List.mem_cons.mp hn).resolve_left (Ne.symm hf))
      cases hv : v first with
      | none => rw [List.filterMap_cons_none (by rw [hv]; rfl), hr]
      | some value =>
        rw [List.filterMap_cons_some (by rw [hv]; rfl), List.find?_cons_of_neg (by simpa using hf), hr]

theorem render_congr {t : Template} {l lookup' : Text → Option String}
    (h : ∀ n ∈ t.dependencies, l n = lookup' n) : t.render l = t.render lookup' := by
  have hr : ∀ part ∈ t.parts, part_text l part = part_text lookup' part := by
    intro part ht
    cases part with
    | Literal tx => rfl
    | Reference n => simp only [part_text, h n ((t.references n).mp ht)]
  unfold Template.render
  generalize "" = r
  generalize t.parts = pr at hr
  induction pr generalizing r with
  | nil => rfl
  | cons part pr ih =>
    rw [List.foldlM_cons, List.foldlM_cons, hr part (.head _)]
    congr 1
    funext next
    exact ih next fun p hp => hr p (.tail _ hp)

/-- A composed value is its template rendered from the texts of its dependencies. -/
theorem compose_ok {t : Template} {values : Map Text SecretBytes} {rendered : String}
    (h : compose filter t values = .ok rendered) : t.render (text_of values) = .ok rendered := by
  unfold compose at h
  obtain ⟨ip, hi, h⟩ := Except.bind_ok h
  have hl : ∀ name ∈ t.dependencies,
      (ip.find? fun i => i.1 = name).map Prod.snd = text_of values name := by
    intro name hn
    have hc := converted_find (g := fun value => String.fromUTF8? ⟨value.toArray⟩) ?_ hi name
    · rw [hc, present_find values hn, text_of]
      cases values name with
      | none | some value => rfl
    · intro i o hf
      cases ht : text_input (diagnostic_secret_name i.1 filter) i.2 with
      | error e => rw [ht] at hf; cases hf
      | ok tx =>
        rw [ht] at hf
        cases hf
        exact ⟨rfl, text_input_ok ht⟩
  rw [← render_congr hl]
  split at h
  · rename_i tx hr
    cases h
    exact hr
  · cases h

/-- The value of a derived secret, from what the pass leaves of its dependencies. -/
inductive DerivedFrom (answers : Answers Identity) (plan : ResolutionPlan) (filter : OutputFilter)
    (values : Map Text SecretBytes) (identities : Map Text Identity) (planned : PlannedSecret) : SecretBytes → Prop
  | rendered (template : Template) (composed : planned.secret.composition = some template) (text : String)
    (render : template.render (text_of values) = .ok text) (value : SecretBytes)
    (delivery : answers.prepare_resolved planned (utf8 text) .Logical = .ok value) :
    DerivedFrom answers plan filter values identities planned value
  | projected (source : Text) (named : planned.secret.source = some source) (value : SecretBytes)
    (projection : from_value answers plan filter planned source values identities = .ok value) :
    DerivedFrom answers plan filter values identities planned value

theorem derive_value_ok {values : Map Text SecretBytes} {identities : Map Text Identity} {value : SecretBytes}
    (h : derive_value answers plan filter planned values identities = .ok value) :
    DerivedFrom answers plan filter values identities planned value := by
  unfold derive_value at h
  cases hc : planned.secret.composition with
  | some t =>
    simp only [hc] at h
    obtain ⟨tx, hm, h⟩ := Except.bind_ok h
    exact .rendered t hc tx (compose_ok hm) value h
  | none =>
    simp only [hc] at h
    cases hs : planned.secret.source with
    | none => rw [hs] at h; cases h
    | some s =>
      simp only [hs] at h
      exact .projected s hs value h

/-! ## The whole pass -/

variable (answers plan materialize filter) in
/-- What a derived pass comes to. -/
inductive DerivedReport (st : Execution Identity) : Except MonosecretError (Deriving Identity) → Prop
  | completed (final : Deriving Identity)
    (once : ∀ planned ∈ plan.secrets, planned.secret.is_derived = true →
      ∃ entry, final.st.resolution.filter (fun entry => entry.name = planned.name) = [entry])
    (status : ∀ planned ∈ plan.secrets, planned.secret.is_derived = true →
      (Resolves final.st planned.name ↔
        ∀ name, Relation.TransGen plan.Needs planned.name name → Resolves final.st name))
    (value : materialize.values = true → ∀ planned ∈ plan.secrets, planned.secret.is_derived = true →
      Resolves final.st planned.name →
        ∃ value, final.st.values planned.name = some value ∧
          DerivedFrom answers plan filter final.st.values final.st.identities planned value) :
    DerivedReport st (.ok final)
  | failed (before after : List PlannedSecret) (planned : PlannedSecret)
    (order : plan.ordered = before ++ planned :: after) (d : Deriving Identity)
    (reached : before.foldlM (Deriving.derive_one answers plan materialize filter) (.start st) = .ok d)
    (ready : d.dependencies_resolved planned = true) (pass : materialize.values = true) (error : MonosecretError)
    (evaluation :
      Deriving.finalize_typed_stored answers filter planned (d.merge_deadlines planned) = .error error ∨
        derive_value answers plan filter planned d.st.values d.st.identities = .error error) :
    DerivedReport st (.error error)

theorem merge_deadlines_values (d : Deriving Identity) (planned : PlannedSecret) :
    (d.merge_deadlines planned).values = d.st.values ∧ (d.merge_deadlines planned).identities = d.st.identities := by
  unfold Deriving.merge_deadlines
  by_cases hr : d.dependencies_resolved planned
  · rw [if_pos hr]
    exact ⟨rfl, rfl⟩
  · rw [if_neg hr]
    exact ⟨rfl, rfl⟩

/-- Only evaluating a secret whose dependencies have resolved can fail. -/
theorem derive_one_error {d : Deriving Identity} {error : MonosecretError}
    (h : Deriving.derive_one answers plan materialize filter d planned = .error error) :
    d.dependencies_resolved planned ∧ materialize.values ∧
      (Deriving.finalize_typed_stored answers filter planned (d.merge_deadlines planned) = .error error ∨
        derive_value answers plan filter planned d.st.values d.st.identities = .error error) := by
  obtain ⟨hv, hi⟩ := merge_deadlines_values d planned
  unfold Deriving.derive_one at h
  by_cases ht : planned.secret.is_typed_stored
  · rw [if_pos ht] at h
    unfold Deriving.derive_typed at h
    split at h
    · split at h
      · rename_i hr
        split at h
        · rename_i hp
          exact ⟨hr, hp, .inl (Except.error_of_map h)⟩
        · cases h
      · cases h
    · cases h
  · rw [if_neg ht] at h
    unfold Deriving.derive_derived at h
    split at h
    · rename_i hr
      split at h
      · rename_i hp
        have he := Except.error_of_map h
        rw [hv, hi] at he
        exact ⟨hr, hp, .inr he⟩
      · cases h
    · split at h <;> cases h

/-- The derived pass takes each node once, after all it depends on, and reports what its
    graph comes to. -/
theorem derived_values {st : Execution Identity} (hprovided : provider_pass answers plan materialize filter = .ok st) :
    (plan.ordered.map PlannedSecret.name).Nodup ∧
    (∀ planned, planned ∈ plan.ordered ↔ planned ∈ plan.secrets ∧ planned.secret.is_node = true) ∧
    (∀ before planned after, plan.ordered = before ++ planned :: after →
      ∀ name, Relation.TransGen plan.Needs planned.name name → name ∉ (planned :: after).map PlannedSecret.name) ∧
    DerivedReport answers plan materialize filter st (derived_pass answers plan materialize filter st) := by
  refine ⟨ResolutionPlan.ordered_nodup, ?_, fun _ _ _ ho _ hn => dependencies_first ho hn, ?_⟩
  · intro planned
    rw [ResolutionPlan.mem_ordered, ResolutionPlan.mem_nodes]
  · cases h : derived_pass answers plan materialize filter st with
    | ok final =>
      refine .completed final ?_ ?_ ?_
      · exact fun planned hp _ => one_entry hprovided h hp
      · exact fun planned hp hd => derived_resolved_iff hprovided h hp hd
      · intro hs planned hp hd hr
        obtain ⟨value, hv, hdr⟩ :=
          derived_value h hp hd ((resolves_iff hprovided h planned.name).mp hr) hs
        exact ⟨value, hv, derive_value_ok hdr⟩
    | error error =>
      obtain ⟨before, planned, after, d, ho, hc, hon⟩ := foldlM_error h
      obtain ⟨hrd, hs, he⟩ := derive_one_error hon
      exact .failed before after planned ho d hc hrd hs error he

end

namespace Sample

theorem untyped : ([] : List (Text × Text)) ≠ [] → false = true ∨ (none : Option Text).isSome := by simp

/-- `URL = "https://${HOST}"`, declared before the host it needs. -/
def url : PlannedSecret where
  secret :=
    { name := Text.of "URL", missing := .Error, declared_required := true
      composition := some ⟨[.Literal "https://", .Reference (Text.of "HOST")], [Text.of "HOST"], by simp⟩
      source := none, credentials := [], stored_type := false, extracts := false, as_path := false, default := none
      derived_missing := by simp, derived_type := by simp, composed_alone := by simp, typed_credentials := untyped
      optional := by simp, prompted := by simp, defaulted := by simp }
  route := none
  routed := .refl false

def host : PlannedSecret := ⟨stored (Text.of "HOST") .Error must, some (chain_route []), .refl true⟩

def url_plan : ResolutionPlan where
  profile := Text.of "default"
  override_uri := none
  secrets := [url, host]
  nodup := by decide
  closed := by decide
  acyclic := ⟨fun name => if name = Text.of "URL" then 1 else 0, by decide⟩

/-- The host is stored, until a time. -/
def host_stored : Answers Unit := answers (.ok fun _ => some ⟨[104], some 100, none⟩) fun _ => .ok none

end Sample

open Sample in
/-- The host is read, and the URL derived from it. -/
theorem url_derived :
    ∃ st, provider_pass host_stored url_plan .Values none = .ok st ∧ Resolves st (Text.of "HOST") ∧
      DerivedReport host_stored url_plan .Values none st (derived_pass host_stored url_plan .Values none st) := by
  cases h : provider_pass host_stored url_plan .Values none with
  | error e => cases h
  | ok st => exact ⟨st, rfl, by cases h; exact ⟨_, List.mem_cons_self, rfl, rfl⟩, (derived_values h).2.2.2⟩

end Monosecret.Resolve
