/-
  Monosecret.Executor.NoPanic — no resolution of an accepted profile panics.

  The derived pass keeps `Settling`: a resolved secret has a value, unless it is parked and
  its node is still ahead. A node comes after what it depends on, so what it reads from a
  dependency is there (`dependencies_settled`).
-/

import Monosecret.Executor.Safe

namespace Monosecret.Executor

open Lib Manifest
open Plan (MonosecretError)
open Cache (SecretBytes utf8)
open Resolve (Materialize ResolutionStatus PendingTyped utf8_text)

variable {Provider Address Identity : Type} (world : World Provider Address Identity) (filter : OutputFilter)

/-! ## The derived pass -/

/-- What a resolved secret has to show, before and after its own node. -/
structure Ready (planned : PlannedSecret) (behind : Prop) (st : Execution Identity) : Prop where
  parked : planned.is_typed_stored = true → ¬ behind → (st.pending_typed planned.name).isSome = true
  delivered : (planned.is_typed_stored = true → behind) → Delivered planned st.values
  identity : planned.is_typed_stored = true → behind → (st.identities planned.name).isSome = true

/-- A step at `name` leaves what the others have. -/
structure Elsewhere (name : String) (st st' : Execution Identity) : Prop where
  values : ∀ other, other ≠ name → st'.values other = st.values other
  pending_typed : ∀ other, other ≠ name → st'.pending_typed other = st.pending_typed other
  identities : ∀ other, other ≠ name → st'.identities other = st.identities other

/-- Between two nodes of the derived pass. -/
def Settling (plan : ResolutionPlan) (materialize : Materialize) (behind : List PlannedSecret) (d : Deriving Identity) : Prop :=
  materialize.values = true → ∀ planned ∈ plan.secrets, d.statuses planned.name = some .Resolved →
    Ready planned (planned.name ∈ behind.map PlannedSecret.name) d.st

section

variable {plan : ResolutionPlan} {materialize : Materialize} {behind : List PlannedSecret} {planned other : PlannedSecret}
  {st st' : Execution Identity} {d d' : Deriving Identity}

theorem Elsewhere.refl (name : String) : Elsewhere name st st := ⟨fun _ _ => rfl, fun _ _ => rfl, fun _ _ => rfl⟩

theorem Ready.elsewhere {p : Prop} (h : Ready other p st) (he : Elsewhere planned.name st st') (hn : other.name ≠ planned.name) :
    Ready other p st' := by
  refine ⟨fun ht hp => ?_, fun hp => ?_, fun ht hp => ?_⟩
  · rw [he.pending_typed _ hn]
    exact h.parked ht hp
  · obtain ⟨value, hv, hpt⟩ := h.delivered hp
    exact ⟨value, by rw [he.values _ hn, hv], hpt⟩
  · rw [he.identities _ hn]
    exact h.identity ht hp

theorem Inserted.elsewhere (h : Inserted planned st st') : Elsewhere planned.name st st' := by
  obtain ⟨value, -, rfl⟩ := h
  exact ⟨fun _ hn => Map.insert_of_ne hn _ _, fun _ _ => rfl, fun _ _ => rfl⟩

theorem Inserted.delivered (h : Inserted planned st st') : Delivered planned st'.values := by
  obtain ⟨value, ht, rfl⟩ := h
  exact ⟨value, Map.insert_self _ _ _, ht⟩

theorem Inserted.ready (h : Inserted planned st st') (ht : planned.is_typed_stored = false) : Ready planned True st' :=
  ⟨fun _ hf => absurd trivial hf, fun _ => h.delivered, fun hy => absurd hy (Bool.eq_false_iff.mp ht)⟩

/-- What a node does to its own secret settles it. -/
theorem Settling.step (h : Settling plan materialize behind d) (hn : (plan.secrets.map PlannedSecret.name).Nodup)
    (hm : planned ∈ plan.secrets) (ht : ∀ n, n ≠ planned.name → d'.statuses n = d.statuses n)
    (he : Elsewhere planned.name d.st d'.st)
    (hr : materialize.values → d'.statuses planned.name = some .Resolved → Ready planned True d'.st) :
    Settling plan materialize (behind ++ [planned]) d' := by
  intro hv other ho hs
  have hi : other.name ∈ (behind ++ [planned]).map PlannedSecret.name ↔
      other.name ∈ behind.map PlannedSecret.name ∨ other.name = planned.name := by simp
  rw [propext hi]
  by_cases hnm : other.name = planned.name
  · obtain rfl := List.inj_on_of_nodup_map hn ho hm hnm
    rw [show (other.name ∈ behind.map PlannedSecret.name ∨ other.name = other.name) = True from eq_true (.inr rfl)]
    exact hr hv hs
  · rw [show (other.name ∈ behind.map PlannedSecret.name ∨ other.name = planned.name) =
      (other.name ∈ behind.map PlannedSecret.name) from propext (or_iff_left hnm)]
    rw [ht _ hnm] at hs
    exact (h hv other ho hs).elsewhere he hnm

section

variable {rules : Rules} {profile : CompiledProfile} (ha : AcceptedProfile rules profile) (hp : Planned profile plan)

include hp in
theorem nodes_nodup : ((plan.secrets.filter is_node).map PlannedSecret.name).Nodup :=
  hp.nodup.sublist ((List.filter_sublist).map _)

include hp in
theorem mem_nodes (planned : PlannedSecret) : planned ∈ plan.ordered ↔ planned ∈ plan.secrets ∧ is_node planned :=
  (Schedule.mem_ordered (nodes_nodup hp) planned).trans List.mem_filter

include ha hp in
/-- At a node, what it depends on is behind it and has its value, when it resolved. -/
theorem dependencies_settled {post : List PlannedSecret} (hsp : plan.ordered = behind ++ planned :: post)
    (h : Settling plan materialize behind d) (hv : materialize.values) (hr : d.dependencies_resolved planned)
    {n : String} (hd : n ∈ planned.dependencies) : ∃ other ∈ plan.secrets, other.name = n ∧ Ready other True d.st := by
  obtain ⟨r, hn⟩ := planned_rank ha hp
  have hnd : planned ∈ plan.ordered := hsp ▸ List.mem_append_right _ (.head _)
  obtain ⟨hm, -⟩ := (mem_nodes hp planned).mp hnd
  obtain ⟨other, ho, rfl⟩ := hp.closed planned hm n hd
  have hs : d.statuses other.name = some .Resolved := by
    unfold Deriving.dependencies_resolved at hr
    simpa using List.all_eq_true.mp hr _ hd
  have hrd := h hv other ho hs
  refine ⟨other, ho, rfl, ?_⟩
  by_cases ht : other.is_typed_stored
  · have hb : other.name ∈ behind.map PlannedSecret.name := by
      refine Schedule.before (nodes_nodup hp) (fun i hi => hn i (List.mem_filter.mp hi).1) hsp hd ?_
      refine List.mem_map_of_mem (List.mem_filter.mpr ⟨ho, ?_⟩)
      unfold is_node
      rw [ht, Bool.or_true]
    rwa [eq_true hb] at hrd
  · exact ⟨fun hy => absurd hy ht, fun _ => hrd.delivered fun hy => absurd hy ht,
      fun hy => absurd hy ht⟩

end

/-! ### Values at a node -/

theorem credential_value_safe (r : String) (v : Map String SecretBytes) :
    Attempt.Safe (credential_value world filter planned r v) fun _ => True := by
  unfold credential_value
  cases planned.credential r with
  | none => trivial
  | some c =>
    simp only
    cases v c with
    | none => trivial
    | some value =>
      refine Attempt.Safe.bind (.ok (p := fun _ => True) trivial) fun found _ => ?_
      cases ht : utf8_text found with
      | none => trivial
      | some t =>
        refine .bind (.call _) fun _ _ => ?_
        exact .bind (.expect rfl) fun _ _ => .ok trivial

theorem pending_bytes_safe (he : planned.encoding.isSome) (p : PendingTyped) :
    Attempt.Safe (pending_bytes world filter planned p) fun _ => True := by
  cases p with
  | Logical b => trivial
  | Stored value =>
    obtain ⟨e, he⟩ := Option.isSome_iff_exists.mp he
    unfold pending_bytes
    refine .bind (.expect he) fun found _ => ?_
    exact (Attempt.Safe.call _).mono fun _ _ => trivial

/-- A parked value is decoded, delivered and kept as an identity. -/
theorem finalize_typed_stored_safe (hf : Fit planned) (ht : planned.is_typed_stored)
    (hr : (st.pending_typed planned.name).isSome) :
    Attempt.Safe (finalize_typed_stored world filter planned st) fun st' =>
      Elsewhere planned.name st st' ∧ Ready planned True st' := by
  obtain ⟨pn, hn⟩ := Option.isSome_iff_exists.mp hr
  unfold finalize_typed_stored
  refine .bind (.expect hn) fun found _ => ?_
  refine .bind (pending_bytes_safe world filter (hf.typed_encoding ht) found) fun b _ => ?_
  refine .bind (credential_value_safe world filter "password" _) fun password _ => ?_
  refine .bind (.call _) fun i _ => ?_
  refine .bind (deliver_bytes_safe world (hf.typed_encoding ht) b) fun st' hi => .ok ⟨?_, ?_⟩
  · have he := hi.elsewhere
    refine ⟨he.values, fun other hne => ?_, fun other hne => ?_⟩
    · exact (he.pending_typed other hne).trans (Map.remove_of_ne hne _)
    · exact (Map.insert_of_ne hne _ _).trans (he.identities other hne)
  · refine ⟨fun _ hl => absurd trivial hl, fun _ => hi.delivered, fun _ _ => ?_⟩
    show (st'.identities.insert planned.name i planned.name).isSome
    rw [Map.insert_self]
    rfl

theorem project_binary {i : Identity} {p : Projection} {f : Option Format} {ps : Option String}
    {n : String} {b : SecretBytes} (h : project world i p f ps n = .ok (.Binary b)) :
    p.is_binary (f.getD .Pem) := by
  unfold project at h
  generalize f.getD .Pem = fr at h ⊢
  cases p <;> cases fr <;> first | rfl | cases h

theorem source_text_safe {source : SecretBytes} (h : Presentable other source) (extract : SecretExtract) :
    Attempt.Safe (source_text world filter planned other source extract) fun _ => True := by
  unfold source_text
  by_cases ht : other.as_path
  · obtain ⟨path, rfl⟩ := h ht
    simp only [if_pos ht]
    refine .bind (.expect (utf8_text_utf8 path)) fun _ _ => ?_
    refine .bind (.call _) fun bytes _ => ?_
    cases utf8_text bytes <;> trivial
  · simp only [if_neg ht]
    refine .bind (show Attempt.Safe (.ok source) fun _ => True from trivial) fun bytes _ => ?_
    cases utf8_text bytes <;> trivial

theorem select_from_safe (hp : (plan.secrets.map PlannedSecret.name).Nodup) (ho : other ∈ plan.secrets)
    (hr : Ready other True st) (extract : SecretExtract) :
    Attempt.Safe (select_from world plan filter planned other.name extract st) (Inserted planned st) := by
  obtain ⟨value, hv, ht⟩ := hr.delivered fun _ => trivial
  unfold select_from
  refine .bind (.expect (Schedule.find_of_mem hp ho)) fun found hf => ?_
  subst hf
  refine .bind (.expect hv) fun s hs => ?_
  subst hs
  refine .bind (source_text_safe world filter ht extract) fun t _ => ?_
  exact .bind (.call _) fun value _ => insert_resolved_safe world filter value .Logical

theorem convert_from_safe (hf : Fit planned) (hc : planned.is_composed = false) (hs : planned.source.isSome)
    (hx : planned.extract = none) {s : String} (hi : (st.identities s).isSome) :
    Attempt.Safe (convert_from world filter planned s st) (Inserted planned st) := by
  obtain ⟨c, pr, hn, hr, he⟩ := hf.projected hc hs hx
  obtain ⟨i, hi⟩ := Option.isSome_iff_exists.mp hi
  unfold convert_from
  refine .bind (.expect hn) fun found hfn => ?_
  subst hfn
  refine .bind (.expect hr) fun found hfn => ?_
  subst hfn
  refine .bind (credential_value_safe world filter "password" _) fun password _ => ?_
  refine .bind (.expect hi) fun dc _ => ?_
  refine .bind (.call _) fun value hv => ?_
  cases value with
  | Text t => exact insert_resolved_safe world filter (utf8 t) .Logical
  | Binary b => exact deliver_bytes_safe world (he (project_binary world hv)) b

section

variable {rules : Rules} {profile : CompiledProfile} (ha : AcceptedProfile rules profile) (hp : Planned profile plan)

include ha hp in
/-- A derived secret whose dependencies have their values gets one. -/
theorem derive_value_safe (hm : planned ∈ plan.secrets) (hd : planned.is_derived)
    (hdp : ∀ n ∈ planned.dependencies, ∃ other ∈ plan.secrets, other.name = n ∧ Ready other True st) :
    Attempt.Safe (Deriving.derive_value world plan filter planned st) (Inserted planned st) := by
  unfold Deriving.derive_value
  cases hc : planned.secret.composition with
  | some t =>
    refine .bind (.call _) fun r _ => ?_
    exact insert_resolved_safe world filter (utf8 r) .Logical
  | none =>
    have hcm : planned.is_composed = false := by
      unfold PlannedSecret.is_composed
      rw [hc]
      rfl
    have hr : planned.source.isSome := by
      unfold PlannedSecret.is_derived at hd
      rwa [hcm, Bool.false_or] at hd
    obtain ⟨s, hs⟩ := Option.isSome_iff_exists.mp hr
    obtain ⟨other, ho, hnm, hrd⟩ := hdp s (PlannedSecret.mem_dependencies hs)
    unfold resolve_from
    refine .bind (.expect hs) fun found hf => ?_
    subst hf
    cases hx : planned.extract with
    | some extract =>
      rw [← hnm]
      exact select_from_safe world filter hp.nodup ho hrd extract
    | none =>
      refine convert_from_safe world filter (fit ha hp hm) hcm hr hx ?_
      obtain ⟨c, hcn, hn, ht⟩ := converted_source ha hp hm hs hx
      obtain rfl := List.inj_on_of_nodup_map hp.nodup ho hcn (hnm.trans hn.symm)
      rw [← hnm]
      exact hrd.identity ht trivial

end

/-! ### One node -/

section

variable {rules : Rules} {profile : CompiledProfile} (ha : AcceptedProfile rules profile) (hp : Planned profile plan)
variable {post : List PlannedSecret}

include ha hp in
theorem derive_typed_safe (hsp : plan.ordered = behind ++ planned :: post) (ht : planned.is_typed_stored)
    (h : Settling plan materialize behind d) :
    Attempt.Safe (Deriving.derive_typed world materialize filter planned d)
      (Settling plan materialize (behind ++ [planned])) := by
  have hn : planned ∈ plan.ordered := hsp ▸ List.mem_append_right _ (.head _)
  obtain ⟨hm, -⟩ := (mem_nodes hp planned).mp hn
  have hah : planned.name ∉ behind.map PlannedSecret.name := by
    have hd := Schedule.ordered_nodup PlannedSecret.dependencies (nodes_nodup hp)
    rw [show Schedule.ordered PlannedSecret.name PlannedSecret.dependencies _ = behind ++ planned :: post from hsp,
      List.map_append, List.map_cons] at hd
    exact fun hb => (List.nodup_append.mp hd).2.2 _ hb _ (.head _) rfl
  unfold Deriving.derive_typed
  by_cases hs : d.statuses planned.name = some .Resolved
  · rw [if_pos hs]
    by_cases hr : d.dependencies_resolved planned
    · rw [if_pos hr]
      by_cases hv : materialize.values
      · rw [if_pos hv]
        have hpr := (h hv planned hm hs).parked ht hah
        refine .map (finalize_typed_stored_safe world filter (fit ha hp hm) ht hpr) fun st' ht' => ?_
        exact h.step hp.nodup hm (fun _ _ => rfl) ht'.1 fun _ _ => ht'.2
      · rw [if_neg hv]
        exact .ok (h.step hp.nodup hm (fun _ _ => rfl) (.refl _) fun hv' => absurd hv' hv)
    · rw [if_neg hr]
      refine .ok (h.step hp.nodup hm (fun _ hne => Map.insert_of_ne hne _ _) ?_ fun _ hl => ?_)
      · unfold Deriving.lose_typed_stored
        split <;> exact ⟨fun _ _ => rfl, fun _ hne => Map.remove_of_ne hne _, fun _ _ => rfl⟩
      · unfold Deriving.lose_typed_stored at hl
        simp only [Map.insert_self, Option.some.injEq] at hl
        split at hl <;> cases hl
  · rw [if_neg hs]
    exact .ok (h.step hp.nodup hm (fun _ _ => rfl) (.refl _) fun _ hs' => absurd hs' hs)

include ha hp in
theorem decide_derived_safe (hs : plan.ordered = behind ++ planned :: post) (hd : planned.is_derived)
    (ht : planned.is_typed_stored = false) (h : Settling plan materialize behind d) :
    Attempt.Safe (Deriving.decide_derived world plan materialize filter planned d) fun decided =>
      Elsewhere planned.name d.st decided.2 ∧
        (materialize.values → decided.1 = .Resolved → Ready planned True decided.2) := by
  have hn : planned ∈ plan.ordered := hs ▸ List.mem_append_right _ (.head _)
  obtain ⟨hm, -⟩ := (mem_nodes hp planned).mp hn
  unfold Deriving.decide_derived
  by_cases hr : d.dependencies_resolved planned
  · rw [if_pos hr]
    by_cases hv : materialize.values
    · simp only [if_pos hv]
      refine .bind (derive_value_safe world filter ha hp hm hd fun n hdp => ?_) fun st' hi => ?_
      · exact dependencies_settled ha hp hs h hv hr hdp
      · exact .ok ⟨hi.elsewhere, fun _ _ => hi.ready ht⟩
    · simp only [if_neg hv]
      exact .ok ⟨.refl _, fun hv' => absurd hv' hv⟩
  · rw [if_neg hr]
    rcases (fit ha hp hm).derived hd with hl | hl
    all_goals
      rw [hl]
      exact .ok ⟨⟨fun _ _ => rfl, fun _ _ => rfl, fun _ _ => rfl⟩, nofun⟩

theorem derivation_safe (hd : planned.is_derived) : Attempt.Safe (Deriving.derivation filter planned) fun _ => True := by
  unfold Deriving.derivation
  by_cases hc : planned.is_composed
  · rw [if_pos hc]
    trivial
  · rw [if_neg hc]
    unfold PlannedSecret.is_derived at hd
    rw [Bool.eq_false_iff.mpr hc, Bool.false_or] at hd
    obtain ⟨s, hs⟩ := Option.isSome_iff_exists.mp hd
    rw [hs]
    trivial

include ha hp in
theorem derive_one_safe (hsp : plan.ordered = behind ++ planned :: post) (h : Settling plan materialize behind d) :
    Attempt.Safe (Deriving.derive_one world plan materialize filter d planned)
      (Settling plan materialize (behind ++ [planned])) := by
  have hmm : planned ∈ plan.ordered := hsp ▸ List.mem_append_right _ (.head _)
  obtain ⟨hm, hn⟩ := (mem_nodes hp planned).mp hmm
  unfold Deriving.derive_one
  by_cases ht : planned.is_typed_stored
  · rw [if_pos ht]
    exact derive_typed_safe world filter ha hp hsp ht h
  · rw [if_neg ht]
    have hd : planned.is_derived := by
      unfold is_node at hn
      rwa [Bool.eq_false_iff.mpr ht, Bool.or_false] at hn
    unfold Deriving.derive_derived
    refine .bind (decide_derived_safe world filter ha hp hsp hd (Bool.eq_false_iff.mpr ht) h) fun decided hc => ?_
    obtain ⟨s, st'⟩ := decided
    refine .bind (derivation_safe filter hd) fun _ _ => ?_
    refine .ok (h.step hp.nodup hm (fun _ hne => Map.insert_of_ne hne _ _) ?_ fun hv hs => ?_)
    · exact ⟨hc.1.values, hc.1.pending_typed, hc.1.identities⟩
    · simp only [Map.insert_self, Option.some.injEq] at hs
      have hr := hc.2 hv hs
      exact ⟨hr.parked, hr.delivered, hr.identity⟩

/-- What the provider pass leaves is where the derived pass starts. -/
theorem Reading.settling (h : Reading plan materialize plan.secrets st) : Settling plan materialize [] (.start st) := by
  intro hv planned hm hs
  obtain ⟨pre, post, hsp, -⟩ := List.lookup_eq_some_iff.mp hs
  have hl := h.held hv planned hm (hsp ▸ List.mem_append_right _ (.head _))
  refine ⟨fun ht _ => hl.parked ht, fun hb => hl.delivered ?_, nofun⟩
  exact Bool.eq_false_iff.mpr fun ht => nomatch hb ht

include ha hp in
/-- The derived pass up to any node. -/
theorem derive_prefix_safe (hs : plan.ordered = behind ++ post) (h : Reading plan materialize plan.secrets st) :
    Attempt.Safe (behind.foldlM (Deriving.derive_one world plan materialize filter) (.start st))
      (Settling plan materialize behind) := by
  refine .foldlM (Settling plan materialize) (fun p planned r d hb hd => ?_) h.settling
  have hn : plan.ordered = p ++ planned :: (r ++ post) := by
    rw [hs, hb, List.append_assoc]
    rfl
  exact derive_one_safe world filter ha hp hn hd

end

end

/-! ## The whole pass -/

section

variable {plan : ResolutionPlan} {materialize : Materialize} {rules : Rules} {spec : CompiledSpec} {profile : CompiledProfile}

theorem finish_safe (hs : spec.profile plan.profile = some profile) (st : Execution Identity) :
    Attempt.Safe (finish world spec plan filter st) fun _ => True := by
  unfold finish
  refine .bind (.call _) fun pr _ => ?_
  refine .bind (p := fun _ => True) ?_ fun v _ => .ok trivial
  unfold constraint_violations
  refine .bind (.expect hs) fun found _ => ?_
  split <;> trivial

theorem execute_plan_safe (hs : spec.profile plan.profile = some profile) (ha : AcceptedProfile rules profile)
    (hp : Planned profile plan) : Attempt.Safe (execute_plan world spec plan materialize filter) fun _ => True := by
  unfold execute_plan
  by_cases he : plan.secrets.isEmpty
  · rw [if_pos he]
    trivial
  · rw [if_neg he]
    refine .bind (provider_pass_safe world filter hp.nodup fun planned hm => fit ha hp hm) fun st ht => ?_
    refine .bind (derive_prefix_safe world filter ha hp (List.append_nil plan.ordered).symm ht) fun d _ => ?_
    exact finish_safe world filter hs d.st

end

/-- A resolution of an accepted configuration, whatever is selected of a profile and whatever
    the providers answer, does not panic. A derived secret is not read from a store and has
    no policy but to fail or to be left out; at a node whose dependencies are recorded as
    resolved, each of them has a value. -/
theorem no_panic {rules : Rules} {config : Config} {spec : CompiledSpec}
    (h : config.validate_and_compile rules = .ok spec) {profile_name : String} {profile : CompiledProfile}
    (hp : spec.profile profile_name = some profile) (planner : Planner) (selection : Selection profile)
    (materialize : Materialize) :
    (∀ message, resolve world planner spec profile_name selection.names materialize filter ≠ .error (.panicked message)) ∧
      ∀ plan, build_plan_from_names planner spec profile_name selection.names = .ok plan →
        (∀ planned ∈ plan.secrets, planned.is_derived = true →
          planned.route = none ∧ (planned.secret.missing = .Error ∨ planned.secret.missing = .Omit)) ∧
        ∀ st, provider_pass world plan materialize filter = .ok st →
          ∀ pre planned post, plan.ordered = pre ++ planned :: post →
            ∀ d, pre.foldlM (Deriving.derive_one world plan materialize filter) (.start st) = .ok d →
              materialize.values = true → d.dependencies_resolved planned = true →
                ∀ name ∈ planned.dependencies, (d.st.values name).isSome = true := by
  have ha := accepted_profile h hp
  have hb := build_plan_safe hp ha planner selection
  constructor
  · refine Attempt.Safe.not_panicked (p := fun _ => True) (.bind hb fun plan hn => ?_)
    exact execute_plan_safe world filter (by rw [hn.1]; exact hp) ha hn.2
  · intro plan hn
    obtain ⟨-, hl⟩ := hb.returned hn
    refine ⟨fun planned hm hd => ⟨?_, (fit ha hl hm).derived hd⟩, ?_⟩
    · have ht := (fit ha hl hm).routed
      rw [hd] at ht
      simpa using ht
    · intro st hs pre planned post hsp d hd hv hr name hdp
      have hrd := (provider_pass_safe world filter hl.nodup fun planned hm => fit ha hl hm).returned hs
      have hsl := (derive_prefix_safe world filter ha hl hsp hrd).returned hd
      obtain ⟨other, -, rfl, hy⟩ := dependencies_settled ha hl hsp hsl hv hr hdp
      obtain ⟨value, hvl, -⟩ := hy.delivered fun _ => trivial
      rw [hvl]
      rfl

/-! ### A configuration with every kind of node -/

namespace Sample

/-- A generated identity, a certificate converted from it, and text composed of that. -/
def with_identity : Config where
  project := ⟨"app", "1.0", none, none⟩
  profiles := AList.insert "default"
    ⟨none, AList.insert "IDENTITY"
        { Secret.empty with description := some "the identity", secret_type := some X509_IDENTITY, generate := some (.Flag true) }
      (AList.insert "CERTIFICATE"
        { Secret.empty with
          description := some "its certificate", secret_type := some "x509_certificate", source := some "IDENTITY" }
      (AList.insert "BUNDLE"
        { Secret.empty with description := some "a bundle", composed := some "certificate: $\x7bCERTIFICATE\x7d" } ∅))⟩ ∅
  defaults := none
  providers := none
  groups := none
  scopes := none

/-- A store that has nothing and takes what is written. -/
def empty_store : World Unit Unit Unit where
  build_provider _ := .ok ()
  get_many _ _ := .ok .empty
  cached_entry _ _ _ := .Foreign
  uri _ := "memory://"
  get_route_provider _ := .ok ()
  address_for_spec _ _ := .ok ()
  native _ := false
  resolve_coords _ _ := .ok ()
  get_many_with_metadata _ _ := .ok .empty
  read_fallback_chain _ _ := .ok ⟨none, none⟩
  generate _ _ := .ok []
  generate_identity _ := .ok []
  generated_value_persistence _ := .Persist
  prompted_value_persistence _ := .Persist
  ensure_produced_write_allowed _ := .ok ()
  check_writable _ _ := .ok ()
  preflight_write _ _ := .ok ()
  prompt_run_secret _ _ := .ok []
  set _ _ _ := .ok ()
  decode_stored_value _ _ value := .ok value
  encode_logical_bytes _ value := value
  extract_stored_value _ _ text := .ok (utf8 text)
  write_secret_to_temp_file _ := .ok "/tmp/secret"
  read_file _ := .ok []
  validate_credential_value _ _ := .ok ()
  decode_identity _ _ _ := .ok ()
  to_pkcs12 _ _ _ := .ok []
  key_der _ := []
  certificate_der _ := []
  secret_pem label _ := label
  chain_der _ := []
  utf8_error _ := "invalid utf-8 sequence"
  validation_report_provider_uri _ := .ok "memory://"

def default_route : Planner where
  validate_scoped_refs _ _ := .ok ()
  route_for _ := .ok ⟨none, [], none⟩
  refuse_cache_overlapping_source _ := .ok ()
  override_uri := .ok none

end Sample

theorem no_panic_with_identity : ∃ (spec : CompiledSpec) (profile : CompiledProfile),
    Sample.with_identity.validate_and_compile ascii = .ok spec ∧ spec.profile "default" = some profile ∧
      ∀ message, resolve Sample.empty_store Sample.default_route spec "default" profile.names .Values none ≠
        .error (.panicked message) := by
  obtain ⟨spec, hs⟩ := Except.ok_of_isSome (x := Sample.with_identity.validate_and_compile ascii) (by decide +kernel)
  obtain ⟨profile, hp⟩ : ∃ profile, spec.profile "default" = some profile := by
    rw [(validated hs).compiled, compile_lookup]
    exact ⟨_, rfl⟩
  exact ⟨spec, profile, hs, hp, (no_panic Sample.empty_store none hs hp Sample.default_route .whole .Values).1⟩

end Monosecret.Executor
