/-
  Monosecret.Executor.Safe — the provider pass over a plan of an accepted profile does not
  panic.

  Between two secrets it keeps `Reading`: a fallback chain that is still to be used was
  read, and every entry recorded as resolved has a value, or is parked when its type is
  stored. What produces a value leaves it in one of the two places (`Took`), and the
  branches that remain are closed by what validation accepted (`Fit`).
-/

import Monosecret.Executor.Fit

namespace Monosecret.Executor

open Lib Manifest
open Plan (MonosecretError Route ResolvedCache)
open Cache (SecretBytes ProviderValue utf8)
open Resolve (Materialize ResolutionStatus ResolvedRepresentation GeneratedValue PendingTyped utf8_text)

theorem utf8_text_utf8 (text : String) : utf8_text (utf8 text) = some text := Lib.from_utf8_bytes text

variable {Provider Address Identity : Type} (w : World Provider Address Identity) (filter : OutputFilter)

/-! ## Values -/

/-- What is delivered as a file is the path of it. -/
def Presentable (planned : PlannedSecret) (value : SecretBytes) : Prop :=
  planned.as_path = true → ∃ path, value = utf8 path

def Delivered (planned : PlannedSecret) (values : Map String SecretBytes) : Prop :=
  ∃ value, values planned.name = some value ∧ Presentable planned value

/-- The value was put in its place. -/
def Inserted (planned : PlannedSecret) (st st' : Execution Identity) : Prop :=
  ∃ value, Presentable planned value ∧ st' = { st with values := st.values.insert planned.name value }

/-- A value was delivered, or parked when its type is stored. -/
inductive Took (planned : PlannedSecret) (st : Execution Identity) : Execution Identity → Prop
  | delivered {st' : Execution Identity} : planned.is_typed_stored = false → Inserted planned st st' → Took planned st st'
  | parked (pending : PendingTyped) : planned.is_typed_stored = true →
      Took planned st { st with pending_typed := st.pending_typed.insert planned.name pending }

section

variable {planned : PlannedSecret} {st : Execution Identity}

theorem insert_resolved_safe (value : SecretBytes) (r : ResolvedRepresentation) :
    Attempt.Safe (insert_resolved w filter planned value r st) (Inserted planned st) := by
  unfold insert_resolved
  refine .bind (.call _) fun delivered hd => .ok ⟨delivered, ?_, rfl⟩
  intro hp
  unfold prepare_resolved at hd
  obtain ⟨b, -, hd⟩ := Except.bind_ok hd
  rw [if_pos hp] at hd
  cases hw : w.write_secret_to_temp_file b with
  | error e =>
    rw [hw] at hd
    cases hd
  | ok p =>
    rw [hw] at hd
    cases hd
    exact ⟨p, rfl⟩

theorem deliver_bytes_safe (he : planned.encoding.isSome) (b : SecretBytes) :
    Attempt.Safe (deliver_bytes w planned b st) (Inserted planned st) := by
  unfold deliver_bytes
  by_cases hp : planned.as_path
  · rw [if_pos hp]
    exact .bind (.call _) fun p _ => .ok ⟨utf8 p, fun _ => ⟨p, rfl⟩, rfl⟩
  · rw [if_neg hp]
    obtain ⟨e, he⟩ := Option.isSome_iff_exists.mp he
    exact .bind (.expect he) fun found _ => .ok ⟨w.encode_logical_bytes found b, fun h => absurd h hp, rfl⟩

theorem insert_stored_safe (value : SecretBytes) :
    Attempt.Safe (insert_stored w filter planned value st) (Took planned st) := by
  unfold insert_stored
  by_cases ht : planned.is_typed_stored
  · rw [if_pos ht]
    exact .ok (.parked _ ht)
  · rw [if_neg ht]
    exact (insert_resolved_safe w filter value .Stored).mono fun _ => .delivered (Bool.eq_false_iff.mpr ht)

/-! ## Producing a value -/

/-- Bytes are generated exactly for a stored type. -/
def Fits (planned : PlannedSecret) : GeneratedValue → Prop
  | .Text _ => planned.is_typed_stored = false
  | .Binary _ => planned.is_typed_stored = true

variable {value : GeneratedValue}

theorem insert_generated_safe (h : Fits planned value) :
    Attempt.Safe (insert_generated w filter planned value st) (Took planned st) := by
  cases value with
  | Text t => exact (insert_resolved_safe w filter t .Logical).mono fun _ => .delivered h
  | Binary b => exact .ok (.parked _ h)

variable (hfit : Fit planned)

include hfit in
theorem stored_form_safe (h : Fits planned value) : Attempt.Safe (stored_form w planned value) fun _ => True := by
  unfold stored_form
  cases value with
  | Text t =>
    cases planned.encoding with
    | none | some e => trivial
  | Binary b =>
    obtain ⟨e, he⟩ := Option.isSome_iff_exists.mp (hfit.typed_encoding h)
    rw [he]
    trivial

include hfit in
theorem mint_fits {c : GenerateConfig} {s : String} (hd : planned.is_derived = false)
    (ht : planned.config.secret_type = some s) (h : mint w c s = .ok value) :
    Fits planned value := by
  have hi := hfit.typed_identity hd
  rw [ht] at hi
  unfold mint at h
  by_cases hx : s = "x509_identity"
  · rw [if_pos hx] at h
    cases hg : w.generate_identity c with
    | error e =>
      rw [hg] at h
      cases h
    | ok b =>
      rw [hg] at h
      cases h
      exact hi.mpr (by rw [hx]; rfl)
  · rw [if_neg hx] at h
    cases hg : w.generate s c with
    | error e =>
      rw [hg] at h
      cases h
    | ok t =>
      rw [hg] at h
      cases h
      refine Bool.eq_false_iff.mpr fun hs => hx ?_
      exact Option.some.inj (hi.mp hs)

include hfit in
/-- An enabled generator yields a value of the kind its type is kept as. -/
theorem try_generate_secret_safe {r : Route} (hr : planned.route = some r)
    (hgn : (planned.config.generate.filter GenerateConfig.is_enabled).isSome) :
    Attempt.Safe (try_generate_secret w planned) fun g => ∃ value, g = some value ∧ Fits planned value := by
  have hd : planned.is_derived = false := by
    have hrt := hfit.routed
    rw [hr] at hrt
    simpa using hrt.symm
  obtain ⟨c, hg⟩ := Option.isSome_iff_exists.mp hgn
  unfold try_generate_secret
  rw [hg]
  show Attempt.Safe (if planned.extract.isSome then _ else _) _
  by_cases hx : planned.extract.isSome
  · rw [if_pos hx]
    trivial
  · rw [if_neg hx]
    cases ht : planned.config.secret_type with
    | none => trivial
    | some s =>
      refine .bind (.call _) fun value hv => ?_
      have hf := mint_fits w hfit hd ht hv
      refine .bind (.expect hr) fun found _ => ?_
      refine .bind (.call _) fun a _ => ?_
      refine .bind (.call _) fun b _ => ?_
      by_cases hp : w.generated_value_persistence b = .Ephemeral
      · rw [if_pos hp]
        exact .ok ⟨value, rfl, hf⟩
      · rw [if_neg hp]
        refine .bind (.call _) fun _ _ => ?_
        refine .bind (.call _) fun _ _ => ?_
        refine .bind (stored_form_safe w hfit hf) fun sr _ => ?_
        refine .bind (.call _) fun _ _ => ?_
        exact .bind (.expect hr) fun _ _ => .ok ⟨value, rfl, hf⟩

theorem try_prompt_secret_safe {r : Route} (hr : planned.route = some r) :
    Attempt.Safe (try_prompt_secret w planned) fun _ => True := by
  unfold try_prompt_secret
  refine .bind (.expect hr) fun found _ => ?_
  refine .bind (.call _) fun a _ => ?_
  refine .bind (.call _) fun b _ => ?_
  by_cases hp : w.prompted_value_persistence b = .Persist
  · rw [if_pos hp]
    refine .bind (.call _) fun _ _ => ?_
    refine .bind (.call _) fun _ _ => ?_
    refine .bind (.call _) fun value _ => ?_
    exact .bind (.call _) fun _ _ => .ok trivial
  · rw [if_neg hp]
    exact (Attempt.Safe.call _).mono fun _ _ => trivial

end

/-! ## Reading the sources -/

section

variable (plan : ResolutionPlan)

/-- What a pass has decided so far. -/
def Execution.decided (st : Execution Identity) :
    List (String × ResolutionStatus) × Map String SecretBytes × Map String PendingTyped :=
  (st.resolution, st.values, st.pending_typed)

variable {planned : PlannedSecret}

theorem read_cached_entry_safe {u : String} {s : Map String SecretBytes} {cached : Cached}
    {c : ResolvedCache} (hc : planned.route.bind Route.cache = some c) :
    Attempt.Safe (read_cached_entry w u s cached planned) fun _ => True := by
  unfold read_cached_entry
  cases s planned.name with
  | none => trivial
  | some e =>
    refine .bind (.expect hc) fun found _ => ?_
    cases w.cached_entry planned found e with
    | Fresh value left | Stale | Foreign => trivial

/-- A member of a cache group has a cached route. -/
theorem cache_group_member {g : Lib.Text × List PlannedSecret} (hg : g ∈ plan.cache_groups)
    (hm : planned ∈ g.2) : ∃ cache, planned.route.bind Route.cache = some cache := by
  unfold ResolutionPlan.cache_groups at hg
  obtain ⟨s, -, rfl⟩ := List.mem_map.mp hg
  obtain ⟨-, hs⟩ := List.mem_filter.mp hm
  obtain ⟨cache, hc, -⟩ := Option.map_eq_some_iff.mp (of_decide_eq_true hs)
  exact ⟨cache, hc⟩

theorem read_cached_values_safe (st : Execution Identity) :
    Attempt.Safe (read_cached_values w plan st) fun st' => st'.decided = st.decided := by
  unfold read_cached_values
  refine .bind (p := fun _ => True) ?_ fun cached _ => .ok rfl
  refine .foldlM (fun _ _ => True) (fun pre g ps cached hg _ => ?_) trivial
  have hmm : g ∈ plan.cache_groups := hg ▸ List.mem_append_right _ (.head _)
  unfold read_cached_store
  cases w.build_provider g.1 with
  | error e => trivial
  | ok pr =>
    simp only
    cases w.get_many pr (g.2.map PlannedSecret.name) with
    | error e => trivial
    | ok s =>
      refine .foldlM (fun _ _ => True) (fun before planned a cached hp _ => ?_) trivial
      obtain ⟨c, hc⟩ := cache_group_member plan hmm (hp ▸ List.mem_append_right _ (.head _))
      exact read_cached_entry_safe w hc

theorem construct_groups_keep (g : List (Option Lib.Text × List PlannedSecret))
    (c : Execution Identity × List (GroupFetch Provider)) :
    (g.foldl (construct_group w) c).1.decided = c.1.decided := by
  induction g generalizing c with
  | nil => rfl
  | cons gr g ih =>
    rw [List.foldl_cons, ih]
    unfold construct_group
    simp only
    split
    · rfl
    · cases w.get_route_provider gr.1 <;> rfl

theorem take_fetches_keep (r : List (Option Lib.Text × Except MonosecretError (Map String ProviderValue)))
    (st : Execution Identity) : (r.foldl take_fetch st).decided = st.decided := by
  induction r generalizing st with
  | nil => rfl
  | cons rs r ih =>
    rw [List.foldl_cons, ih]
    unfold take_fetch
    cases rs.2 <;> rfl

theorem check_single_store_ref_coords_safe (f : GroupFetch Provider) :
    Attempt.Safe (check_single_store_ref_coords w f) fun _ => True := by
  unfold check_single_store_ref_coords
  refine .forM fun planned _ => ?_
  cases planned.route with
  | none => trivial
  | some r =>
    simp only
    by_cases hf : (fallback_specs r).isSome
    · rw [if_pos hf]
      trivial
    · rw [if_neg hf]
      refine .bind (.call _) fun a _ => ?_
      by_cases hn : w.native a
      · rw [if_pos hn]
        exact (Attempt.Safe.call _).mono fun _ _ => trivial
      · rw [if_neg hn]
        trivial

theorem fetch_primary_values_safe (st : Execution Identity) :
    Attempt.Safe (fetch_primary_values w plan st) fun st' => st'.decided = st.decided := by
  unfold fetch_primary_values
  have hk := construct_groups_keep w plan.groups (st, ([] : List (GroupFetch Provider)))
  generalize plan.groups.foldl (construct_group w) (st, []) = c at hk ⊢
  obtain ⟨b, ft⟩ := c
  refine .bind (.forM fun f _ => check_single_store_ref_coords_safe w f) fun _ _ => ?_
  refine .bind (.mapM (r := fun _ _ => True) fun f _ => ?_) fun rs _ => .ok ?_
  · exact .map (.join (.call _)) fun _ _ => trivial
  · rw [take_fetches_keep]
    exact hk

/-- Every secret that will use its fallback chain has a result of it. -/
def Prefetched (st : Execution Identity) (planned : PlannedSecret) : Prop :=
  pending_fallback st planned = true → (st.fallback_results planned.name).isSome = true

theorem read_fallback_safe (h : (planned.route.bind fallback_specs).isSome) :
    Attempt.Safe (read_fallback w planned) fun r => r.1 = planned.name := by
  obtain ⟨f, hf⟩ := Option.isSome_iff_exists.mp h
  obtain ⟨rt, hr, hf⟩ := Option.bind_eq_some_iff.mp hf
  unfold read_fallback
  refine .bind (.expect hr) fun found hfn => ?_
  subst hfn
  exact .bind (.expect hf) fun _ _ => .ok rfl

theorem fetch_fallback_values_safe (st : Execution Identity) :
    Attempt.Safe (fetch_fallback_values w plan st) fun st' =>
      st'.decided = st.decided ∧ ∀ planned ∈ plan.secrets, Prefetched st' planned := by
  unfold fetch_fallback_values
  refine .bind (.mapM (r := fun planned rs => rs.1 = planned.name) fun planned hm => ?_) fun rl hr =>
    .ok ⟨rfl, ?_⟩
  · obtain ⟨-, hp⟩ := List.mem_filter.mp hm
    unfold pending_fallback at hp
    exact read_fallback_safe w (Bool.and_eq_true_iff.mp hp).2
  · intro planned hm hp
    have hi : planned ∈ plan.secrets.filter (pending_fallback st) := List.mem_filter.mpr ⟨hm, hp⟩
    refine List.lookup_isSome_iff.mpr ?_
    clear hm hp
    generalize plan.secrets.filter (pending_fallback st) = m at hr hi
    induction hr with
    | nil => cases hi
    | @cons first rs _ _ hnm _ ih =>
      rcases List.mem_cons.mp hi with rfl | hi
      · exact ⟨rs, List.mem_cons_self, by rw [hnm]; exact beq_self_eq_true _⟩
      · obtain ⟨found, hf, hk⟩ := ih hi
        exact ⟨found, List.mem_cons_of_mem _ hf, hk⟩

theorem read_sources_safe : Attempt.Safe (read_sources w plan) fun st : Execution Identity =>
    st.decided = ([], .empty, .empty) ∧ ∀ planned ∈ plan.secrets, Prefetched st planned := by
  unfold read_sources
  refine .bind (read_cached_values_safe w plan .init) fun cached hc => ?_
  refine .bind (fetch_primary_values_safe w plan cached) fun fetched hf => ?_
  refine (fetch_fallback_values_safe w plan fetched).mono fun st ⟨hs, ha⟩ => ⟨?_, ha⟩
  rw [hs, hf, hc]
  rfl

end

/-! ## The provider pass -/

/-- What stands behind an entry recorded as resolved. -/
structure Held (planned : PlannedSecret) (st : Execution Identity) : Prop where
  parked : planned.is_typed_stored = true → (st.pending_typed planned.name).isSome = true
  delivered : planned.is_typed_stored = false → Delivered planned st.values

section

variable {planned other : PlannedSecret} {st st' : Execution Identity}

theorem Took.held (h : Took planned st st') : Held planned st' := by
  cases h with
  | delivered ht hi =>
    obtain ⟨value, hv, rfl⟩ := hi
    exact ⟨fun hy => absurd hy (Bool.eq_false_iff.mp ht), fun _ => ⟨value, Map.insert_self _ _ _, hv⟩⟩
  | parked p ht =>
    refine ⟨fun _ => ?_, fun hp => absurd ht (Bool.eq_false_iff.mp hp)⟩
    show (st.pending_typed.insert planned.name p planned.name).isSome
    rw [Map.insert_self]
    rfl

theorem Took.held_of_ne (h : Took planned st st') (hne : other.name ≠ planned.name) (ho : Held other st) : Held other st' := by
  cases h with
  | delivered ht hi =>
    obtain ⟨value, -, rfl⟩ := hi
    refine ⟨ho.parked, fun ht => ?_⟩
    obtain ⟨v, hv, hp⟩ := ho.delivered ht
    exact ⟨v, by rw [← hv]; exact Map.insert_of_ne hne _ _, hp⟩
  | parked p ht =>
    refine ⟨fun ht => ?_, ho.delivered⟩
    show (st.pending_typed.insert planned.name p other.name).isSome
    rw [Map.insert_of_ne hne]
    exact ho.parked ht

theorem Took.keeps (h : Took planned st st') : st'.resolution = st.resolution ∧ st'.fetched_values = st.fetched_values ∧
    st'.fallback_results = st.fallback_results := by
  cases h with
  | delivered ht hi =>
    obtain ⟨value, -, rfl⟩ := hi
    exact ⟨rfl, rfl, rfl⟩
  | parked p ht => exact ⟨rfl, rfl, rfl⟩

theorem Prefetched.congr (h : Prefetched st planned) (hf : st'.fetched_values planned.name = st.fetched_values planned.name)
    (hr : st'.fallback_results planned.name = st.fallback_results planned.name) : Prefetched st' planned := by
  unfold Prefetched pending_fallback at *
  rwa [hf, hr]

end

/-- Between two secrets of the provider pass. -/
structure Reading (plan : ResolutionPlan) (materialize : Materialize) (behind : List PlannedSecret)
    (st : Execution Identity) : Prop where
  prefetched : ∀ planned ∈ plan.secrets, planned.name ∉ behind.map PlannedSecret.name → Prefetched st planned
  held : materialize.values = true → ∀ planned ∈ plan.secrets, (planned.name, ResolutionStatus.Resolved) ∈ st.resolution →
    Held planned st

section

variable {plan : ResolutionPlan} {materialize : Materialize} {behind : List PlannedSecret} {planned : PlannedSecret}
  {st st' : Execution Identity}

namespace Reading

variable (h : Reading plan materialize behind st)

include h in
theorem took (hn : (plan.secrets.map PlannedSecret.name).Nodup) (hm : planned ∈ plan.secrets) (ht : Took planned st st') :
    Reading plan materialize behind st' := by
  obtain ⟨hr, hf, hl⟩ := ht.keeps
  refine ⟨fun other ho ha => ?_, fun hv other ho he => ?_⟩
  · exact (h.prefetched other ho ha).congr (by rw [hf]) (by rw [hl])
  · rw [hr] at he
    by_cases hnm : other.name = planned.name
    · rw [List.inj_on_of_nodup_map hn ho hm hnm]
      exact ht.held
    · exact ht.held_of_ne hnm (h.held hv other ho he)

include h in
theorem push (hn : (plan.secrets.map PlannedSecret.name).Nodup) (hm : planned ∈ plan.secrets) {s : ResolutionStatus}
    (hs : s = .Resolved → materialize.values → Held planned st) :
    Reading plan materialize behind (push planned s st) := by
  refine ⟨h.prefetched, fun hv other ho he => ?_⟩
  rcases List.mem_append.mp he with he | he
  · exact ⟨(h.held hv other ho he).parked, (h.held hv other ho he).delivered⟩
  · obtain ⟨hnm, ht⟩ := Prod.mk.inj (List.mem_singleton.mp he)
    rw [List.inj_on_of_nodup_map hn ho hm hnm]
    exact ⟨(hs ht.symm hv).parked, (hs ht.symm hv).delivered⟩

include h in
theorem miss (hn : (plan.secrets.map PlannedSecret.name).Nodup) (hm : planned ∈ plan.secrets) (r : Bool) :
    Reading plan materialize behind (miss planned r st) := by
  unfold Executor.miss
  have hl : ∀ s, s ≠ .Resolved → ∀ r o, Reading plan materialize behind
      (Executor.push planned s { st with missing_required := r, missing_optional := o }) := by
    intro s hs r o
    have hls : Reading plan materialize behind { st with missing_required := r, missing_optional := o } :=
      ⟨h.prefetched, fun hv other ho he => ⟨(h.held hv other ho he).parked, (h.held hv other ho he).delivered⟩⟩
    exact hls.push hn hm fun hr => absurd hr hs
  cases r with
  | true => exact hl .MissingRequired nofun _ _
  | false => exact hl .MissingOptional nofun _ _

include h in
/-- A step at one secret leaves what was read for the others. -/
theorem pass (hf : ∀ name, name ≠ planned.name → st'.fetched_values name = st.fetched_values name)
    (hr : ∀ name, name ≠ planned.name → st'.fallback_results name = st.fallback_results name)
    (ht : st'.resolution = st.resolution ∧ st'.values = st.values ∧ st'.pending_typed = st.pending_typed) :
    Reading plan materialize (behind ++ [planned]) st' := by
  obtain ⟨hs, hl, hp⟩ := ht
  refine ⟨fun other ho ha => ?_, fun hv other ho he => ?_⟩
  · rw [List.map_append, List.mem_append, not_or] at ha
    have hne : other.name ≠ planned.name := fun hnm => ha.2 (List.mem_singleton.mpr hnm)
    exact (h.prefetched other ho ha.1).congr (hf _ hne) (hr _ hne)
  · rw [hs] at he
    have hhl := h.held hv other ho he
    exact ⟨by rw [hp]; exact hhl.parked, by rw [hl]; exact hhl.delivered⟩

end Reading

variable (hn : (plan.secrets.map PlannedSecret.name).Nodup) (hm : planned ∈ plan.secrets)
  (h : Reading plan materialize behind st)

include hn hm h in
/-- What was taken is recorded. -/
theorem took_then_push {x : Attempt MonosecretError (Execution Identity)} (hx : Attempt.Safe x (Took planned st)) :
    Attempt.Safe (x >>= fun st => .ok (push planned .Resolved st)) (Reading plan materialize behind) :=
  .bind hx fun _ ht => .ok ((h.took hn hm ht).push hn hm fun _ _ => ht.held)

include hn hm h in
theorem keep_found_safe (value : ProviderValue) :
    Attempt.Safe (keep_found w materialize filter planned value st) (Reading plan materialize behind) := by
  unfold keep_found
  by_cases hv : materialize.values
  · rw [if_pos hv]
    exact took_then_push hn hm h (insert_stored_safe w filter value.value)
  · rw [if_neg hv]
    exact .ok (h.push hn hm fun _ hv' => absurd hv' hv)

include hn hm h in
theorem apply_missing_safe (hfit : Fit planned) {r : Route} (hr : planned.route = some r) :
    Attempt.Safe (apply_missing w materialize filter planned st) (Reading plan materialize behind) := by
  unfold apply_missing
  cases hl : planned.secret.missing with
  | Prompt =>
    simp only
    by_cases hp : (materialize.prompts && filter.admits planned.name)
    · rw [if_pos hp]
      have ht : planned.is_typed_stored = false :=
        Bool.eq_false_iff.mpr fun ht => (hfit.typed_policy ht).1 hl
      refine .bind (try_prompt_secret_safe w hr) fun p _ => ?_
      exact took_then_push hn hm h ((insert_resolved_safe w filter p .Logical).mono fun _ => .delivered ht)
    · rw [if_neg hp]
      exact .ok (h.miss hn hm _)
  | Generate =>
    simp only
    by_cases hv : materialize.values
    · rw [if_pos hv]
      refine .bind (try_generate_secret_safe w hfit hr (hfit.generator hl)) fun g hg => ?_
      obtain ⟨value, hvl, hf⟩ := hg
      refine .bind (.expect hvl) fun found hfn => ?_
      subst hfn
      exact took_then_push hn hm h (insert_generated_safe w filter hf)
    · rw [if_neg hv]
      by_cases hs : (planned.required && generated_value_is_stored w planned)
      · rw [if_pos hs]
        exact .ok (h.miss hn hm true)
      · rw [if_neg hs]
        exact .ok (h.push hn hm fun _ hv' => absurd hv' hv)
  | UseDefault =>
    simp only
    obtain ⟨default, hd⟩ := Option.isSome_iff_exists.mp (hfit.default hl)
    refine .bind (.expect hd) fun value _ => ?_
    by_cases hv : materialize.values
    · rw [if_pos hv]
      have ht : planned.is_typed_stored = false :=
        Bool.eq_false_iff.mpr fun ht => (hfit.typed_policy ht).2 hl
      exact took_then_push hn hm h ((insert_resolved_safe w filter (utf8 value) .Logical).mono fun _ => .delivered ht)
    · rw [if_neg hv]
      exact .ok (h.push hn hm fun _ hv' => absurd hv' hv)
  | Error => exact .ok (h.miss hn hm true)
  | Omit => exact .ok (h.miss hn hm false)

theorem primary_error_safe {k : Option Lib.Text} (hf : (st.failed_primary_uris k).isSome)
    {P : Execution Identity → Prop} : Attempt.Safe (primary_error k st) P := by
  obtain ⟨e, he⟩ := Option.isSome_iff_exists.mp hf
  unfold primary_error
  exact .bind (.expect he) fun _ _ => trivial

include hm h in
theorem take_fallback_safe {r : Route} (hr : planned.route = some r)
    (hs : st.fetched_values planned.name = none) (ha : planned.name ∉ behind.map PlannedSecret.name) :
    Attempt.Safe (take_fallback planned r st) fun t => Reading plan materialize (behind ++ [planned]) t.2 := by
  unfold take_fallback
  simp only
  cases hp : fallback_specs r with
  | none =>
    have hps : Reading plan materialize (behind ++ [planned]) st :=
      h.pass (fun _ _ => rfl) (fun _ _ => rfl) ⟨rfl, rfl, rfl⟩
    simp only
    by_cases hf : (st.failed_primary_uris (group_key r)).isSome
    · rw [if_pos hf]
      exact .bind (primary_error_safe hf (P := fun _ => False)) fun _ hl => hl.elim
    · rw [if_neg hf]
      exact .ok hps
  | some s =>
    have hpn : pending_fallback st planned := by
      unfold pending_fallback
      rw [hs, hr, Option.bind_some, hp]
      rfl
    obtain ⟨rl, hrs⟩ := Option.isSome_iff_exists.mp (h.prefetched planned hm ha hpn)
    refine .bind (.expect hrs) fun found _ => ?_
    refine .bind (.call _) fun rs _ => ?_
    have hps : Reading plan materialize (behind ++ [planned])
        { st with fallback_results := st.fallback_results.remove planned.name } :=
      h.pass (fun _ _ => rfl) (fun _ hne => Map.remove_of_ne hne _) ⟨rfl, rfl, rfl⟩
    by_cases hf : (rs.value.isNone && (st.failed_primary_uris (group_key r)).isSome)
    · rw [if_pos hf]
      exact .bind (primary_error_safe (Bool.and_eq_true_iff.mp hf).2 (P := fun _ => False)) fun _ hl => hl.elim
    · rw [if_neg hf]
      exact .ok hps

include hn hm h in
theorem resolve_provider_backed_safe (hfit : Fit planned) (ha : planned.name ∉ behind.map PlannedSecret.name) :
    Attempt.Safe (resolve_provider_backed w materialize filter st planned)
      (Reading plan materialize (behind ++ [planned])) := by
  unfold resolve_provider_backed
  cases hr : planned.route with
  | none => exact .ok (h.pass (fun _ _ => rfl) (fun _ _ => rfl) ⟨rfl, rfl, rfl⟩)
  | some rt =>
    simp only
    cases hf : st.fetched_values planned.name with
    | some value =>
      refine keep_found_safe w filter hn hm ?_ value
      exact h.pass (fun _ hne => Map.remove_of_ne hne _) (fun _ _ => rfl) ⟨rfl, rfl, rfl⟩
    | none =>
      refine .bind (take_fallback_safe hm h hr hf ha) fun t ht => ?_
      obtain ⟨r, a⟩ := t
      cases hv : r.value with
      | some value =>
        simp only
        exact keep_found_safe w filter hn hm ht value
      | none =>
        simp only
        exact apply_missing_safe w filter hn hm ht hfit hr

include hn in
theorem provider_pass_safe (hfit : ∀ planned ∈ plan.secrets, Fit planned) :
    Attempt.Safe (provider_pass w plan materialize filter : Attempt MonosecretError (Execution Identity))
      (Reading plan materialize plan.secrets) := by
  unfold provider_pass
  refine .bind (read_sources_safe w plan) fun st hs => ?_
  obtain ⟨hd, hp⟩ := hs
  have hr : st.resolution = [] := congrArg Prod.fst hd
  refine .foldlM (Reading plan materialize) (fun behind planned a st hsp hrd => ?_) ?_
  · have hm : planned ∈ plan.secrets := hsp ▸ List.mem_append_right _ (.head _)
    refine resolve_provider_backed_safe w filter hn hm hrd (hfit planned hm) fun hb => ?_
    have hnd := hn
    rw [hsp, List.map_append, List.map_cons] at hnd
    exact (List.nodup_append.mp hnd).2.2 _ hb _ (.head _) rfl
  · refine ⟨fun planned hm _ => hp planned hm, fun _ planned _ he => ?_⟩
    rw [hr] at he
    cases he

end

end Monosecret.Executor
