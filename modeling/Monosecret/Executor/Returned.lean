/-
  Monosecret.Executor.Returned — what a pass returns of one secret it reads or produces.

  A step of either pass changes nothing another secret has (`Beside`). So what the provider
  pass leaves at a secret's own step is still there at the end, delivered or parked (`Kept`),
  and the derived pass delivers what was parked (`Settled`).

  What `set`, a generator or a prompt stores is the canonical form of the logical value
  (`stored_bytes`), and a later pass that reads it back, with a line ending after encoded
  text or without, returns that value (`storage_pipeline`).
-/

import Monosecret.Executor.NoPanic
import Monosecret.Executor.Storage

namespace Monosecret.Executor

open Lib Manifest
open Plan (MonosecretError Route)
open Cache (SecretBytes ProviderValue utf8)
open Resolve (Materialize ResolutionStatus ResolvedRepresentation GeneratedValue PendingTyped utf8_text)
open Lib.Except (bind_ok)

variable {Provider Address Identity : Type}

/-! ## One step beside another secret -/

/-- A step at `name` leaves what the others have and what was read for them. -/
structure Beside (name : String) (st st' : Execution Identity) : Prop where
  values : ∀ other, other ≠ name → st'.values other = st.values other
  pending_typed : ∀ other, other ≠ name → st'.pending_typed other = st.pending_typed other
  fetched_values : ∀ other, other ≠ name → st'.fetched_values other = st.fetched_values other
  fallback_results : ∀ other, other ≠ name → st'.fallback_results other = st.fallback_results other
  resolution : ∀ other, other ≠ name → st'.resolution.lookup other = st.resolution.lookup other

namespace Beside

variable {name : String} {st st' st'' : Execution Identity}

theorem refl : Beside name st st := ⟨fun _ _ => rfl, fun _ _ => rfl, fun _ _ => rfl, fun _ _ => rfl, fun _ _ => rfl⟩

theorem trans (h : Beside name st st') (h' : Beside name st' st'') : Beside name st st'' :=
  ⟨fun o ho => (h'.values o ho).trans (h.values o ho), fun o ho => (h'.pending_typed o ho).trans (h.pending_typed o ho),
    fun o ho => (h'.fetched_values o ho).trans (h.fetched_values o ho),
    fun o ho => (h'.fallback_results o ho).trans (h.fallback_results o ho),
    fun o ho => (h'.resolution o ho).trans (h.resolution o ho)⟩

end Beside

section

variable {planned : PlannedSecret} {st st' : Execution Identity}

theorem Inserted.beside (h : Inserted planned st st') : Beside planned.name st st' := by
  obtain ⟨value, -, rfl⟩ := h
  exact ⟨fun _ ho => Map.insert_of_ne ho _ _, fun _ _ => rfl, fun _ _ => rfl, fun _ _ => rfl, fun _ _ => rfl⟩

theorem Took.beside (h : Took planned st st') : Beside planned.name st st' := by
  cases h with
  | delivered _ hi => exact hi.beside
  | parked p _ =>
    exact ⟨fun _ _ => rfl, fun _ ho => Map.insert_of_ne ho _ _, fun _ _ => rfl, fun _ _ => rfl, fun _ _ => rfl⟩

theorem lookup_push {name other : String} {s : ResolutionStatus} {e : List (String × ResolutionStatus)}
    (h : other ≠ name) : (e ++ [(name, s)]).lookup other = e.lookup other := by
  rw [List.lookup_append, List.lookup_cons, beq_false_of_ne h, List.lookup_nil, Option.or_none]

theorem push_beside (s : ResolutionStatus) : Beside planned.name st (push planned s st) :=
  ⟨fun _ _ => rfl, fun _ _ => rfl, fun _ _ => rfl, fun _ _ => rfl, fun _ ho => lookup_push ho⟩

theorem miss_beside (r : Bool) : Beside planned.name st (miss planned r st) := by
  unfold miss
  cases r with
  | true | false => exact ⟨fun _ _ => rfl, fun _ _ => rfl, fun _ _ => rfl, fun _ _ => rfl, fun _ ho => lookup_push ho⟩

variable (world : World Provider Address Identity) (materialize : Materialize) (filter : OutputFilter)

theorem then_push {x : Attempt MonosecretError (Execution Identity)} (hx : Attempt.Yields x (Beside planned.name st)) :
    Attempt.Yields (x >>= fun st => .ok (push planned .Resolved st)) (Beside planned.name st) :=
  .bind hx fun _ h => .ok (h.trans (push_beside _))

theorem insert_resolved_beside (value : SecretBytes) (r : ResolvedRepresentation) :
    Attempt.Yields (insert_resolved world filter planned value r st) (Beside planned.name st) :=
  (Attempt.Yields.of_safe (insert_resolved_safe world filter value r)).mono fun _ => Inserted.beside

theorem keep_found_beside (value : ProviderValue) :
    Attempt.Yields (keep_found world materialize filter planned value st) (Beside planned.name st) := by
  unfold keep_found
  by_cases hv : materialize.values
  · rw [if_pos hv]
    exact then_push ((Attempt.Yields.of_safe (insert_stored_safe world filter value.value)).mono fun _ => Took.beside)
  · rw [if_neg hv]
    exact .ok (push_beside _)

theorem insert_generated_beside (value : GeneratedValue) :
    Attempt.Yields (insert_generated world filter planned value st) (Beside planned.name st) := by
  cases value with
  | Text t => exact insert_resolved_beside world filter t .Logical
  | Binary b =>
    exact .ok ⟨fun _ _ => rfl, fun _ ho => Map.insert_of_ne ho _ _, fun _ _ => rfl, fun _ _ => rfl, fun _ _ => rfl⟩

theorem apply_missing_beside :
    Attempt.Yields (apply_missing world materialize filter planned st) (Beside planned.name st) := by
  unfold apply_missing
  cases planned.secret.missing with
  | Prompt =>
    simp only
    by_cases hp : (materialize.prompts && filter.admits planned.name)
    · rw [if_pos hp]
      exact .bind (.self _) fun p _ => then_push (insert_resolved_beside world filter p .Logical)
    · rw [if_neg hp]
      exact .ok (miss_beside _)
  | Generate =>
    simp only
    by_cases hv : materialize.values
    · rw [if_pos hv]
      refine .bind (.self _) fun g _ => .bind (.self _) fun value _ => ?_
      exact then_push (insert_generated_beside world filter value)
    · rw [if_neg hv]
      by_cases hs : (planned.required && generated_value_is_stored world planned)
      · rw [if_pos hs]
        exact .ok (miss_beside _)
      · rw [if_neg hs]
        exact .ok (push_beside _)
  | UseDefault =>
    refine .bind (.self _) fun value _ => ?_
    by_cases hv : materialize.values
    · rw [if_pos hv]
      exact then_push (insert_resolved_beside world filter (utf8 value) .Logical)
    · rw [if_neg hv]
      exact .ok (push_beside _)
  | Error | Omit => exact .ok (miss_beside _)

theorem primary_error_yields {k : Option Lib.Text} {P : Execution Identity → Prop} :
    Attempt.Yields (primary_error k st) P := by
  unfold primary_error
  exact .bind (.self _) fun _ _ => .error _

theorem take_fallback_beside (r : Route) :
    Attempt.Yields (take_fallback planned r st) fun t => Beside planned.name st t.2 := by
  unfold take_fallback
  simp only
  cases fallback_specs r with
  | none =>
    simp only
    split
    · exact .bind (primary_error_yields (P := fun _ => False)) fun _ hf => hf.elim
    · exact .ok .refl
  | some s =>
    refine .bind (.self _) fun rl _ => .bind (.self _) fun rs _ => ?_
    split
    · exact .bind (primary_error_yields (P := fun _ => False)) fun _ hf => hf.elim
    · exact .ok ⟨fun _ _ => rfl, fun _ _ => rfl, fun _ _ => rfl, fun _ ho => Map.remove_of_ne ho _, fun _ _ => rfl⟩

/-- A step of the provider pass. -/
theorem resolve_provider_backed_beside :
    Attempt.Yields (resolve_provider_backed world materialize filter st planned) (Beside planned.name st) := by
  unfold resolve_provider_backed
  cases planned.route with
  | none => exact .ok .refl
  | some rt =>
    simp only
    cases st.fetched_values planned.name with
    | some value =>
      refine (keep_found_beside world materialize filter value).mono fun st' h => Beside.trans ?_ h
      exact ⟨fun _ _ => rfl, fun _ _ => rfl, fun _ ho => Map.remove_of_ne ho _, fun _ _ => rfl, fun _ _ => rfl⟩
    | none =>
      refine .bind (take_fallback_beside rt) fun t ht => ?_
      obtain ⟨r, a⟩ := t
      cases r.value with
      | some value => exact (keep_found_beside world materialize filter value).mono fun _ h => ht.trans h
      | none => exact (apply_missing_beside world materialize filter).mono fun _ h => ht.trans h

end

/-! ## The step at a secret -/

/-- What is delivered of a logical value: the path of a file that holds it, a typed value in
    its encoding, text as it is. -/
def Presents (world : World Provider Address Identity) (planned : PlannedSecret) (logical delivered : SecretBytes) : Prop :=
  if planned.as_path = true then ∃ path, world.write_secret_to_temp_file logical = .ok path ∧ delivered = utf8 path
  else if planned.is_typed_stored = true then
    ∃ encoding, planned.encoding = some encoding ∧ delivered = world.encode_logical_bytes encoding logical
  else delivered = logical

/-- A secret that no step has reached. -/
structure Untouched (planned : PlannedSecret) (st : Execution Identity) : Prop where
  resolution : st.resolution.lookup planned.name = none
  values : st.values planned.name = none

/-- A logical value is delivered, or parked when its type is stored. -/
structure Kept (world : World Provider Address Identity) (filter : OutputFilter) (planned : PlannedSecret)
    (logical : SecretBytes) (st : Execution Identity) : Prop where
  resolved : st.resolution.lookup planned.name = some .Resolved
  delivered : planned.is_typed_stored = false → ∃ value, st.values planned.name = some value ∧ Presents world planned logical value
  parked : planned.is_typed_stored = true → st.values planned.name = none ∧
    ∃ pending, st.pending_typed planned.name = some pending ∧ pending_bytes world filter planned pending = .ok logical

section

variable {world : World Provider Address Identity} {materialize : Materialize} {filter : OutputFilter}
  {planned : PlannedSecret} {logical : SecretBytes} {st : Execution Identity}

variable {name : String} {st' : Execution Identity}

theorem Untouched.beside (h : Untouched planned st) (hb : Beside name st st') (hn : planned.name ≠ name) :
    Untouched planned st' :=
  ⟨(hb.resolution _ hn).trans h.resolution, (hb.values _ hn).trans h.values⟩

theorem Untouched.decided (h : Untouched planned st) (hd : st'.decided = st.decided) : Untouched planned st' := by
  refine ⟨?_, ?_⟩
  · rw [show st'.resolution = st.resolution from congrArg Prod.fst hd]
    exact h.resolution
  · rw [show st'.values = st.values from congrArg (Prod.fst ∘ Prod.snd) hd]
    exact h.values

theorem Kept.beside (h : Kept world filter planned logical st) (hb : Beside name st st') (hn : planned.name ≠ name) :
    Kept world filter planned logical st' := by
  refine ⟨(hb.resolution _ hn).trans h.resolved, fun ht => ?_, fun ht => ?_⟩
  · obtain ⟨value, hv, hp⟩ := h.delivered ht
    exact ⟨value, (hb.values _ hn).trans hv, hp⟩
  · obtain ⟨hnn, p, hpn, hy⟩ := h.parked ht
    exact ⟨(hb.values _ hn).trans hnn, p, (hb.pending_typed _ hn).trans hpn, hy⟩

theorem lookup_pushed {status : ResolutionStatus} {e : List (String × ResolutionStatus)}
    (h : e.lookup name = none) : (e ++ [(name, status)]).lookup name = some status := by
  rw [List.lookup_append, h, List.lookup_cons, beq_self_eq_true]
  rfl

/-- The value of an untyped secret is inserted and recorded. -/
theorem insert_then_push (hu : Untouched planned st) (ht : planned.is_typed_stored = false) {value : SecretBytes}
    {r : ResolvedRepresentation} (hd : decode_and_extract world filter planned value r = .ok logical) :
    Attempt.Yields (insert_resolved world filter planned value r st >>= fun st => .ok (push planned .Resolved st))
      (Kept world filter planned logical) := by
  refine .bind (p := fun st' => ∃ delivered, Presents world planned logical delivered ∧
    st' = { st with values := st.values.insert planned.name delivered }) ?_ fun st' hs' => .ok ?_
  · unfold insert_resolved
    refine .bind (.call _) fun delivered hl => .ok ⟨delivered, ?_, rfl⟩
    unfold prepare_resolved at hl
    rw [hd] at hl
    unfold Presents
    by_cases hp : planned.as_path
    · rw [if_pos hp]
      simp only [hp, if_true] at hl
      have hf : (world.write_secret_to_temp_file logical).map utf8 = .ok delivered := hl
      cases hw : world.write_secret_to_temp_file logical with
      | error e =>
        rw [hw] at hf
        cases hf
      | ok pt =>
        rw [hw] at hf
        cases hf
        exact ⟨pt, rfl, rfl⟩
    · rw [if_neg hp, if_neg (Bool.eq_false_iff.mp ht)]
      simp only [hp] at hl
      have hpl : (.ok logical : Except MonosecretError SecretBytes) = .ok delivered := hl
      cases hpl
      rfl
  · obtain ⟨delivered, hr, rfl⟩ := hs'
    refine ⟨lookup_pushed hu.resolution, fun _ => ⟨delivered, Map.insert_self _ _ _, hr⟩, fun hy => ?_⟩
    rw [ht] at hy
    cases hy

/-- A typed value is parked and recorded. -/
theorem parked_kept (hu : Untouched planned st) (ht : planned.is_typed_stored) {p : PendingTyped}
    (hp : pending_bytes world filter planned p = .ok logical) :
    Kept world filter planned logical
      (push planned .Resolved { st with pending_typed := st.pending_typed.insert planned.name p }) := by
  refine ⟨lookup_pushed hu.resolution, fun hl => ?_, fun _ => ⟨hu.values, p, Map.insert_self _ _ _, hp⟩⟩
  rw [ht] at hl
  cases hl

/-- What a store answers for a logical value. -/
structure Answered (world : World Provider Address Identity) (filter : OutputFilter) (planned : PlannedSecret)
    (logical stored : SecretBytes) : Prop where
  plain : planned.is_typed_stored = false → decode_and_extract world filter planned stored .Stored = .ok logical
  typed : planned.is_typed_stored = true → pending_bytes world filter planned (.Stored stored) = .ok logical

theorem keep_found_kept (hv : materialize.values) (hu : Untouched planned st) {value : ProviderValue}
    (ha : Answered world filter planned logical value.value) :
    Attempt.Yields (keep_found world materialize filter planned value st) (Kept world filter planned logical) := by
  unfold keep_found insert_stored
  rw [if_pos hv]
  by_cases ht : planned.is_typed_stored
  · rw [if_pos ht]
    exact .ok (parked_kept hu ht (ha.typed ht))
  · rw [if_neg ht]
    have hp := Bool.eq_false_iff.mpr ht
    exact insert_then_push hu hp (ha.plain hp)

/-- The logical value of what a generator yields. -/
def logical_of : GeneratedValue → SecretBytes
  | .Text value => value
  | .Binary bytes => bytes

theorem generate_kept (hv : materialize.values) (hu : Untouched planned st) (hp : planned.secret.missing = .Generate)
    {value : GeneratedValue} (hg : try_generate_secret world planned = .ok (some value)) (hf : Fits planned value) :
    Attempt.Yields (apply_missing world materialize filter planned st) (Kept world filter planned (logical_of value)) := by
  unfold apply_missing
  rw [hp]
  simp only [if_pos hv, hg]
  cases value with
  | Text t => exact insert_then_push hu hf rfl
  | Binary b => exact .ok (parked_kept hu hf rfl)

theorem prompt_kept (hv : materialize.prompts) (ha : filter.admits planned.name) (hu : Untouched planned st)
    (hl : planned.secret.missing = .Prompt) (ht : planned.is_typed_stored = false)
    (hp : try_prompt_secret world planned = .ok logical) :
    Attempt.Yields (apply_missing world materialize filter planned st) (Kept world filter planned logical) := by
  unfold apply_missing
  rw [hl]
  simp only [hv, ha, Bool.and_self, if_true, hp]
  exact insert_then_push hu ht rfl

/-- Nothing that was read has the secret. -/
structure Missed (planned : PlannedSecret) (st : Execution Identity) : Prop where
  fetched : st.fetched_values planned.name = none
  fallback : ∀ read, st.fallback_results planned.name = some (.ok read) → read.value = none

theorem take_fallback_missed (hm : Missed planned st) (r : Route) :
    Attempt.Yields (take_fallback planned r st) fun t =>
      t.1.value = none ∧ t.2.decided = st.decided := by
  unfold take_fallback
  simp only
  cases fallback_specs r with
  | none =>
    simp only
    split
    · exact .bind (primary_error_yields (P := fun _ => False)) fun _ hf => hf.elim
    · exact .ok ⟨rfl, rfl⟩
  | some s =>
    refine .bind (.expect _) fun rl hr => .bind (.call _) fun rs hs => ?_
    subst hs
    split
    · exact .bind (primary_error_yields (P := fun _ => False)) fun _ hf => hf.elim
    · exact .ok ⟨hm.fallback _ hr, rfl⟩

theorem resolve_missed (hm : Missed planned st) {r : Route} (hr : planned.route = some r) {P : Execution Identity → Prop}
    (hp : ∀ a : Execution Identity, a.decided = st.decided →
      Attempt.Yields (apply_missing world materialize filter planned a) P) :
    Attempt.Yields (resolve_provider_backed world materialize filter st planned) P := by
  unfold resolve_provider_backed
  rw [hr]
  simp only [hm.fetched]
  refine .bind (take_fallback_missed hm r) fun t ht => ?_
  obtain ⟨rs, a⟩ := t
  simp only at ht
  rw [ht.1]
  exact hp a ht.2

theorem resolve_found {value : ProviderValue} (hf : st.fetched_values planned.name = some value) {r : Route}
    (hr : planned.route = some r) (hv : materialize.values) (hu : Untouched planned st)
    (ha : Answered world filter planned logical value.value) :
    Attempt.Yields (resolve_provider_backed world materialize filter st planned) (Kept world filter planned logical) := by
  unfold resolve_provider_backed
  rw [hr]
  simp only [hf]
  refine keep_found_kept hv ?_ ha
  exact ⟨hu.resolution, hu.values⟩

end

/-! ## The provider pass -/

section

variable {world : World Provider Address Identity} {materialize : Materialize} {filter : OutputFilter} {plan : ResolutionPlan}
  {planned : PlannedSecret} {logical : SecretBytes}

/-- What the step at a secret keeps, the pass keeps. -/
theorem provider_pass_kept (hn : (plan.secrets.map PlannedSecret.name).Nodup) (hm : planned ∈ plan.secrets)
    {read : Execution Identity} (hr : read_sources world plan = .ok read)
    (hs : ∀ st : Execution Identity, Untouched planned st → st.fetched_values planned.name = read.fetched_values planned.name →
      st.fallback_results planned.name = read.fallback_results planned.name →
        Attempt.Yields (resolve_provider_backed world materialize filter st planned) (Kept world filter planned logical)) :
    Attempt.Yields (provider_pass world plan materialize filter) (Kept world filter planned logical) := by
  have hd := ((read_sources_safe world plan).returned hr).1
  unfold provider_pass
  rw [hr]
  refine (Attempt.Yields.foldlM (fun b st =>
    (planned.name ∈ b.map PlannedSecret.name → Kept world filter planned logical st) ∧
    (planned.name ∉ b.map PlannedSecret.name → Untouched planned st ∧
      st.fetched_values planned.name = read.fetched_values planned.name ∧
      st.fallback_results planned.name = read.fallback_results planned.name)) ?_ ?_).mono
    fun st ht => ht.1 (List.mem_map_of_mem hm)
  · intro p other ps st hp ⟨hbh, ha⟩
    have ho : other ∈ plan.secrets := hp ▸ List.mem_append_right _ (.head _)
    rw [List.map_append, List.map_singleton]
    by_cases hnm : planned.name = other.name
    · obtain rfl := List.inj_on_of_nodup_map hn hm ho hnm
      have hnt : planned.name ∉ p.map PlannedSecret.name := by
        rw [hp, List.map_append, List.map_cons] at hn
        exact fun h => (List.nodup_append.mp hn).2.2 _ h _ (.head _) rfl
      obtain ⟨hu, hf, hl⟩ := ha hnt
      exact (hs st hu hf hl).mono fun st' hk =>
        ⟨fun _ => hk, fun h => absurd (List.mem_append_right _ (List.mem_singleton_self _)) h⟩
    · refine (resolve_provider_backed_beside world materialize filter).mono fun st' hb => ⟨fun h => ?_, fun h => ?_⟩
      · rcases List.mem_append.mp h with h | h
        · exact (hbh h).beside hb hnm
        · exact absurd (List.mem_singleton.mp h) hnm
      · obtain ⟨hu, hf, hl⟩ := ha fun hpr => h (List.mem_append_left _ hpr)
        exact ⟨hu.beside hb hnm, (hb.fetched_values _ hnm).trans hf, (hb.fallback_results _ hnm).trans hl⟩
  · refine ⟨nofun, fun _ => ⟨⟨?_, ?_⟩, rfl, rfl⟩⟩
    · rw [show read.resolution = [] from congrArg Prod.fst hd]
      rfl
    · rw [show read.values = .empty from congrArg (Prod.fst ∘ Prod.snd) hd]
      rfl

end

/-! ## The derived pass -/

section

variable {world : World Provider Address Identity} {materialize : Materialize} {filter : OutputFilter} {plan : ResolutionPlan}
  {planned other : PlannedSecret} {logical : SecretBytes} {st : Execution Identity} {d : Deriving Identity}

theorem deliver_bytes_beside (b : SecretBytes) :
    Attempt.Yields (deliver_bytes world planned b st) (Beside planned.name st) := by
  have hi : ∀ value, Beside planned.name st { st with values := st.values.insert planned.name value } := fun value =>
    ⟨fun _ ho => Map.insert_of_ne ho _ _, fun _ _ => rfl, fun _ _ => rfl, fun _ _ => rfl, fun _ _ => rfl⟩
  unfold deliver_bytes
  by_cases hp : planned.as_path
  · rw [if_pos hp]
    exact .bind (.self _) fun p _ => .ok (hi _)
  · rw [if_neg hp]
    exact .bind (.self _) fun e _ => .ok (hi _)

theorem finalize_typed_stored_beside :
    Attempt.Yields (finalize_typed_stored world filter planned st) (Beside planned.name st) := by
  unfold finalize_typed_stored
  refine .bind (.self _) fun pn _ => .bind (.self _) fun b _ => ?_
  refine .bind (.self _) fun p _ => .bind (.self _) fun i _ => ?_
  refine .bind (deliver_bytes_beside b) fun st' hb => .ok ?_
  exact ⟨hb.values, fun o ho => (hb.pending_typed o ho).trans (Map.remove_of_ne ho _), hb.fetched_values,
    hb.fallback_results, hb.resolution⟩

theorem derive_value_beside :
    Attempt.Yields (Deriving.derive_value world plan filter planned st) (Beside planned.name st) := by
  unfold Deriving.derive_value
  cases planned.secret.composition with
  | some t => exact .bind (.self _) fun r _ => insert_resolved_beside world filter _ _
  | none =>
    unfold resolve_from
    refine .bind (.self _) fun s _ => ?_
    cases planned.extract with
    | some extract =>
      unfold select_from
      refine .bind (.self _) fun _ _ => .bind (.self _) fun _ _ => .bind (.self _) fun _ _ => ?_
      exact .bind (.self _) fun value _ => insert_resolved_beside world filter value _
    | none =>
      unfold convert_from
      refine .bind (.self _) fun _ _ => .bind (.self _) fun _ _ => .bind (.self _) fun _ _ => ?_
      refine .bind (.self _) fun _ _ => .bind (.self _) fun value _ => ?_
      cases value with
      | Text tx => exact insert_resolved_beside world filter _ _
      | Binary b => exact deliver_bytes_beside b

theorem lookup_relabelled (e : List (String × ResolutionStatus)) (name key : String) (ss : ResolutionStatus) :
    (e.map fun en : String × ResolutionStatus => if en.1 = name then (en.1, ss) else en).lookup key =
      if key = name then (e.lookup key).map fun _ => ss else e.lookup key := by
  induction e with
  | nil =>
    rw [List.map_nil, List.lookup_nil, Option.map_none, ite_self]
  | cons en e ih =>
    obtain ⟨k, s⟩ := en
    rw [List.map_cons, List.lookup_cons, List.lookup_cons, ih]
    by_cases hk : key = k
    · subst hk
      by_cases hn : key = name
      all_goals simp [hn]
    · by_cases hn : k = name
      · simp [hn, beq_false_of_ne (hn ▸ hk)]
      · simp [hn, beq_false_of_ne hk]

theorem lose_typed_stored_beside : Beside planned.name d.st (d.lose_typed_stored planned).st := by
  have hl : ∀ (s : ResolutionStatus) o, o ≠ planned.name →
      (d.st.resolution.map fun e : String × ResolutionStatus =>
        if e.1 = planned.name then (e.1, s) else e).lookup o = d.st.resolution.lookup o := by
    intro s o ho
    rw [lookup_relabelled, if_neg ho]
  unfold Deriving.lose_typed_stored
  by_cases hm : planned.secret.missing = .Omit
  · simp only [if_pos hm]
    exact ⟨fun _ _ => rfl, fun _ ho => Map.remove_of_ne ho _, fun _ _ => rfl, fun _ _ => rfl, hl _⟩
  · simp only [if_neg hm]
    exact ⟨fun _ _ => rfl, fun _ ho => Map.remove_of_ne ho _, fun _ _ => rfl, fun _ _ => rfl, hl _⟩

/-- What one node leaves of the others. -/
def NodeBeside (name : String) (d d' : Deriving Identity) : Prop :=
  Beside name d.st d'.st ∧ ∀ other, other ≠ name → d'.statuses other = d.statuses other

theorem derive_one_beside :
    Attempt.Yields (Deriving.derive_one world plan materialize filter d planned) (NodeBeside planned.name d) := by
  unfold Deriving.derive_one
  by_cases ht : planned.is_typed_stored
  · rw [if_pos ht]
    unfold Deriving.derive_typed
    by_cases hs : d.statuses planned.name = some .Resolved
    · rw [if_pos hs]
      by_cases hr : d.dependencies_resolved planned
      · rw [if_pos hr]
        by_cases hv : materialize.values
        · rw [if_pos hv]
          exact .map finalize_typed_stored_beside fun st' hb => ⟨hb, fun _ _ => rfl⟩
        · rw [if_neg hv]
          exact .ok ⟨.refl, fun _ _ => rfl⟩
      · rw [if_neg hr]
        exact .ok ⟨lose_typed_stored_beside, fun _ ho => Map.insert_of_ne ho _ _⟩
    · rw [if_neg hs]
      exact .ok ⟨.refl, fun _ _ => rfl⟩
  · rw [if_neg ht]
    unfold Deriving.derive_derived
    refine .bind (p := fun decided => Beside planned.name d.st decided.2) ?_ fun decided hb => ?_
    · unfold Deriving.decide_derived
      by_cases hr : d.dependencies_resolved planned
      · rw [if_pos hr]
        by_cases hv : materialize.values
        · simp only [if_pos hv]
          exact .bind derive_value_beside fun st' hb => .ok hb
        · simp only [if_neg hv]
          exact .ok .refl
      · rw [if_neg hr]
        cases planned.secret.missing with
        | Error | Omit => exact .ok ⟨fun _ _ => rfl, fun _ _ => rfl, fun _ _ => rfl, fun _ _ => rfl, fun _ _ => rfl⟩
        | Generate | UseDefault | Prompt => exact .error _
    · obtain ⟨s, st'⟩ := decided
      refine .bind (.self _) fun _ _ => .ok ⟨hb.trans (push_beside s), fun _ ho => Map.insert_of_ne ho _ _⟩

/-- A parked value is delivered, or its secret is missing. -/
structure Settled (world : World Provider Address Identity) (planned : PlannedSecret) (logical : SecretBytes)
    (st : Execution Identity) : Prop where
  presented : ∀ value, st.values planned.name = some value → Presents world planned logical value
  returned : st.resolution.lookup planned.name = some .Resolved → (st.values planned.name).isSome = true

theorem Settled.beside {name : String} {st' : Execution Identity} (h : Settled world planned logical st) (hb : Beside name st st')
    (hn : planned.name ≠ name) : Settled world planned logical st' := by
  refine ⟨fun value hv => ?_, fun hs => ?_⟩
  · rw [hb.values _ hn] at hv
    exact h.presented value hv
  · rw [hb.resolution _ hn] at hs
    rw [hb.values _ hn]
    exact h.returned hs

theorem deliver_bytes_presents (ht : planned.is_typed_stored) (b : SecretBytes) :
    Attempt.Yields (deliver_bytes world planned b st) fun st' =>
      ∃ value, Presents world planned b value ∧ st'.values = st.values.insert planned.name value := by
  unfold deliver_bytes Presents
  by_cases hp : planned.as_path
  · rw [if_pos hp]
    refine .bind (.call _) fun p hw => .ok ⟨utf8 p, ?_, rfl⟩
    rw [if_pos hp]
    exact ⟨p, hw, rfl⟩
  · rw [if_neg hp]
    refine .bind (.expect _) fun e he => .ok ⟨_, ?_, rfl⟩
    rw [if_neg hp, if_pos ht]
    exact ⟨e, he, rfl⟩

/-- The node of a parked value. -/
theorem derive_typed_settled (hv : materialize.values) (ht : planned.is_typed_stored)
    (hs : d.statuses planned.name = some .Resolved) (hk : Kept world filter planned logical d.st) :
    Attempt.Yields (Deriving.derive_one world plan materialize filter d planned) fun d' => Settled world planned logical d'.st := by
  obtain ⟨hn, pn, hpn, hy⟩ := hk.parked ht
  unfold Deriving.derive_one Deriving.derive_typed
  rw [if_pos ht, if_pos hs]
  by_cases hr : d.dependencies_resolved planned
  · rw [if_pos hr, if_pos hv]
    refine .map (p := fun st' => Settled world planned logical st') ?_ fun st' h => h
    unfold finalize_typed_stored
    refine .bind (.expect _) fun found hf => ?_
    rw [hpn] at hf
    cases hf
    rw [hy]
    refine .bind (.ok (p := (· = logical)) rfl) fun b hb => ?_
    subst hb
    refine .bind (.self _) fun ps _ => .bind (.self _) fun i _ => ?_
    refine .bind (deliver_bytes_presents ht b) fun st' hs' => .ok ?_
    obtain ⟨delivered, hp, hvs⟩ := hs'
    have hl : st'.values planned.name = some delivered := by
      rw [hvs]
      exact Map.insert_self _ _ _
    refine ⟨fun value hv' => ?_, fun _ => ?_⟩
    · rw [show st'.values planned.name = some value from hv'] at hl
      cases hl
      exact hp
    · show (st'.values planned.name).isSome
      rw [hl]
      rfl
  · rw [if_neg hr]
    refine .ok ?_
    have hvs : (d.lose_typed_stored planned).st.values = d.st.values := by
      unfold Deriving.lose_typed_stored
      by_cases ho : planned.secret.missing = .Omit
      · simp only [if_pos ho]
      · simp only [if_neg ho]
    have hls : (d.lose_typed_stored planned).st.resolution.lookup planned.name ≠ some .Resolved := by
      unfold Deriving.lose_typed_stored
      by_cases ho : planned.secret.missing = .Omit
      · simp only [if_pos ho, lookup_relabelled, hk.resolved]
        simp
      · simp only [if_neg ho, lookup_relabelled, hk.resolved]
        simp
    refine ⟨fun value hl => ?_, fun h => absurd h hls⟩
    rw [hvs, hn] at hl
    cases hl

end

/-! ## The whole pass -/

/-- What a pass returns of a secret with a logical value. Only a typed secret can be left out,
    when what it needs to be opened is missing. -/
structure Returns (world : World Provider Address Identity) (planned : PlannedSecret) (logical : SecretBytes)
    (outcome : Outcome) : Prop where
  presented : ∀ value, outcome.values planned.name = some value → Presents world planned logical value
  returned : outcome.resolution.lookup planned.name = some .Resolved → (outcome.values planned.name).isSome = true
  plain : planned.is_typed_stored = false → (outcome.values planned.name).isSome = true

section

variable {world : World Provider Address Identity} {materialize : Materialize} {filter : OutputFilter} {plan : ResolutionPlan}
  {planned : PlannedSecret} {logical : SecretBytes} {spec : CompiledSpec} {profile : CompiledProfile} {st : Execution Identity}

theorem derived_pass_settled (hv : materialize.values) (hp : Planned profile plan) (hm : planned ∈ plan.secrets)
    (hd : planned.is_derived = false) (hk : Kept world filter planned logical st) :
    Attempt.Yields (derived_pass world plan materialize filter st) fun d => Settled world planned logical d.st ∧
      (planned.is_typed_stored = false → (d.st.values planned.name).isSome) := by
  unfold derived_pass
  refine (Attempt.Yields.foldlM (fun b d =>
    (planned.is_typed_stored = false → ∃ value, d.st.values planned.name = some value ∧ Presents world planned logical value) ∧
    (planned.is_typed_stored → planned.name ∈ b.map PlannedSecret.name → Settled world planned logical d.st) ∧
    (planned.is_typed_stored → planned.name ∉ b.map PlannedSecret.name →
      d.statuses planned.name = some .Resolved ∧ Kept world filter planned logical d.st)) ?_ ?_).mono ?_
  · intro p n ps d hsp ⟨hl, hbh, ha⟩
    have hn : n ∈ plan.ordered := hsp ▸ List.mem_append_right _ (.head _)
    obtain ⟨hmm, hi⟩ := (mem_nodes hp n).mp hn
    by_cases hnm : planned.name = n.name
    · obtain rfl := List.inj_on_of_nodup_map hp.nodup hm hmm hnm
      have ht : planned.is_typed_stored := by
        unfold is_node at hi
        rwa [hd, Bool.false_or] at hi
      have hnt : planned.name ∉ p.map PlannedSecret.name := by
        have hnd := Schedule.ordered_nodup PlannedSecret.dependencies (nodes_nodup hp)
        rw [show Schedule.ordered PlannedSecret.name PlannedSecret.dependencies _ = p ++ planned :: ps from hsp,
          List.map_append, List.map_cons] at hnd
        exact fun h => (List.nodup_append.mp hnd).2.2 _ h _ (.head _) rfl
      obtain ⟨hs, hkp⟩ := ha ht hnt
      refine (derive_typed_settled hv ht hs hkp).mono fun d' hst => ⟨fun hf => ?_, fun _ _ => hst, fun _ h => ?_⟩
      · rw [ht] at hf
        cases hf
      · exact absurd (by simp) h
    · refine derive_one_beside.mono fun d' hb => ⟨fun ht => ?_, fun ht h => ?_, fun ht h => ?_⟩
      · obtain ⟨value, hvl, hpr⟩ := hl ht
        exact ⟨value, (hb.1.values _ hnm).trans hvl, hpr⟩
      · rw [List.map_append, List.map_singleton] at h
        rcases List.mem_append.mp h with h | h
        · exact (hbh ht h).beside hb.1 hnm
        · exact absurd (List.mem_singleton.mp h) hnm
      · obtain ⟨hs, hkp⟩ := ha ht fun hr => h (by simp [hr])
        exact ⟨(hb.2 _ hnm).trans hs, hkp.beside hb.1 hnm⟩
  · exact ⟨hk.delivered, fun _ h => (nomatch h), fun _ _ => ⟨hk.resolved, hk⟩⟩
  · intro d ⟨hl, hbh, _⟩
    by_cases ht : planned.is_typed_stored
    · have hn : planned ∈ plan.ordered := (mem_nodes hp planned).mpr ⟨hm, by unfold is_node; rw [ht, Bool.or_true]⟩
      refine ⟨hbh ht (List.mem_map_of_mem hn), fun hf => ?_⟩
      rw [ht] at hf
      cases hf
    · obtain ⟨value, hvl, hpr⟩ := hl (Bool.eq_false_iff.mpr ht)
      refine ⟨⟨fun other ho => ?_, fun _ => by rw [hvl]; rfl⟩, fun _ => by rw [hvl]; rfl⟩
      rw [hvl] at ho
      cases ho
      exact hpr

theorem lookup_filter {e : List (String × ResolutionStatus)} {p : String → Bool} {name : String} (h : p name) :
    (e.filter fun en => p en.1).lookup name = e.lookup name := by
  induction e with
  | nil => rfl
  | cons en e ih =>
    obtain ⟨k, s⟩ := en
    by_cases hk : name = k
    · subst hk
      simp only [List.filter_cons, h, if_true, List.lookup_cons, beq_self_eq_true]
    · by_cases hp : p k
      · simp only [List.filter_cons, hp, if_true, List.lookup_cons, beq_false_of_ne hk, ih]
      · simp only [List.filter_cons, hp, Bool.false_eq_true, if_false, List.lookup_cons, beq_false_of_ne hk, ih]

/-- An admitted secret leaves with what it has. -/
theorem finish_admitted (ha : filter.admits planned.name) : Attempt.Yields (finish world spec plan filter st) fun o =>
    o.values planned.name = st.values planned.name ∧
      o.resolution.lookup planned.name = st.resolution.lookup planned.name := by
  unfold finish
  refine .bind (.self _) fun pr _ => .bind (.self _) fun v _ => .ok ?_
  cases filter with
  | none => exact ⟨rfl, rfl⟩
  | some names =>
    have hm : planned.name ∈ names := of_decide_eq_true ha
    exact ⟨if_pos (decide_eq_true hm), lookup_filter (p := fun name => decide (name ∈ names)) (decide_eq_true hm)⟩

/-- What the provider pass kept is what the pass returns. -/
theorem execute_plan_returns (hv : materialize.values) (hp : Planned profile plan) (hm : planned ∈ plan.secrets)
    (hd : planned.is_derived = false) (ha : filter.admits planned.name)
    (hkp : Attempt.Yields (provider_pass world plan materialize filter) (Kept world filter planned logical)) :
    Attempt.Yields (execute_plan world spec plan materialize filter) (Returns world planned logical) := by
  unfold execute_plan
  rw [if_neg (by rw [List.isEmpty_iff]; exact List.ne_nil_of_mem hm)]
  refine .bind hkp fun st hk => .bind (derived_pass_settled hv hp hm hd hk) fun d ⟨hs, hl⟩ => ?_
  refine (finish_admitted ha).mono fun o ⟨hvl, hr⟩ => ⟨?_, ?_, ?_⟩
  · rw [hvl]
    exact hs.presented
  · rw [hvl, hr]
    exact hs.returned
  · rw [hvl]
    exact hl

end

/-! ## What was stored -/

/-- The canonical stored form of a logical value. -/
def stored_bytes (codecs : Codecs) (planned : PlannedSecret) (logical : SecretBytes) : SecretBytes :=
  (planned.encoding.map fun encoding => encode_logical_bytes codecs encoding logical).getD logical

/-- What a store answers for what was put there: encoded text may have got a line ending. -/
def ReadBack (encoding : Option SecretEncoding) (stored answer : SecretBytes) : Prop :=
  ∃ ending, LineEnding ending ∧ (encoding = none → ending = []) ∧ answer = stored ++ ending

/-- What `set` was given, as the value it means. -/
def Entered (codecs : Codecs) (planned : PlannedSecret) (name : String) (input : Except MonosecretError SecretBytes)
    (encoded_typed_input : Bool) (logical : SecretBytes) : Prop :=
  ∃ value, input = .ok value ∧
    if planned.is_typed_stored = true ∧ encoded_typed_input = true then
      ∃ encoding, planned.encoding = some encoding ∧ decode_stored_value codecs encoding name value = .ok logical
    else logical = value

section

variable {codecs : Codecs} {world : World Provider Address Identity} {filter : OutputFilter} {planned : PlannedSecret}
  {logical : SecretBytes}

theorem answered (world : World Provider Address Identity) (filter : OutputFilter) (hc : codecs.Documented) (hf : Fit planned) (hx : planned.extract = none) {answer : SecretBytes}
    (h : ReadBack planned.encoding (stored_bytes codecs planned logical) answer) :
    Answered (world.coded codecs) filter planned logical answer := by
  obtain ⟨en, hn, hp, rfl⟩ := h
  unfold stored_bytes
  cases he : planned.encoding with
  | none =>
    rw [hp he, List.append_nil]
    refine ⟨fun _ => ?_, fun ht => ?_⟩
    · unfold decode_and_extract
      rw [he, hx]
      rfl
    · have hs := hf.typed_encoding ht
      rw [he] at hs
      cases hs
  | some e =>
    have hd : ∀ name, decode_stored_value codecs e name (encode_logical_bytes codecs e logical ++ en) =
        .ok logical := fun name => decode_encoded hc e name logical hn
    refine ⟨fun _ => ?_, fun _ => ?_⟩
    · unfold decode_and_extract
      rw [he, hx]
      show (decode_stored_value codecs e _ _ >>= fun dc => .ok dc) = _
      rw [Option.map_some, Option.getD_some, hd]
      rfl
    · unfold pending_bytes
      rw [he]
      show Attempt.call (decode_stored_value codecs e _ _) = _
      rw [Option.map_some, Option.getD_some, hd]
      rfl

theorem prepared_stores {name : String} {value : SecretBytes} {e : Bool} {ec : Option SecretBytes}
    (h : prepared_for_storage (world.coded codecs) planned name value e = .ok ec) :
    ∃ logical, Entered codecs planned name (.ok value) e logical ∧
      ec.getD value = stored_bytes codecs planned logical := by
  unfold prepared_for_storage at h
  cases e with
  | true =>
    unfold prompted_value_for_storage at h
    by_cases ht : planned.is_typed_stored
    · simp only [if_pos ht, if_true] at h
      obtain ⟨en, hen, h⟩ := bind_ok h
      obtain ⟨bytes, hb, h⟩ := bind_ok h
      have he := Attempt.Yields.expect _ _ hen
      have hd : decode_stored_value codecs en name value = .ok bytes := Attempt.Yields.call _ _ hb
      refine ⟨bytes, ⟨value, rfl, ?_⟩, ?_⟩
      · rw [if_pos ⟨ht, rfl⟩]
        exact ⟨en, he, hd⟩
      · unfold stored_bytes
        rw [he]
        by_cases hn : (planned.credential "password").isNone
        · rw [if_pos hn] at h
          obtain ⟨_, _, h⟩ := bind_ok h
          cases h
          rfl
        · rw [if_neg hn] at h
          cases h
          rfl
    · simp only [if_neg ht, if_true] at h
      cases h
      refine ⟨value, ⟨value, rfl, ?_⟩, rfl⟩
      rw [if_neg fun hbt => ht hbt.1]
  | false =>
    refine ⟨value, ⟨value, rfl, ?_⟩, ?_⟩
    · rw [if_neg (by simp)]
    · by_cases hn : (planned.is_typed_stored && (planned.credential "password").isNone)
      · simp only [if_pos hn] at h
        obtain ⟨_, _, h⟩ := bind_ok h
        cases h
        rfl
      · simp only [if_neg hn] at h
        cases h
        rfl

variable {written : Written Provider Address}

/-- What `set` stores is the canonical form of what it was given. -/
theorem set_stores {p : Planner} {profile_name : String} {profile : CompiledProfile}
    {en : Except MonosecretError Unit} {name : String} {i : Except MonosecretError SecretBytes}
    {e : Bool}
    (h : store_secret_with_input (world.coded codecs) p profile_name profile en name i e =
      .ok (planned, written)) :
    planned.name = name ∧ profile.get name = some planned.secret ∧ planned.extract = none ∧ planned.is_derived = false ∧
      ∃ logical, Entered codecs planned name i e logical ∧
        written.stored = stored_bytes codecs planned logical := by
  unfold store_secret_with_input at h
  obtain ⟨_, -, h⟩ := bind_ok h
  cases hg : profile.get name with
  | none =>
    rw [hg] at h
    cases h
  | some s =>
    rw [hg] at h
    obtain ⟨found, hp, h⟩ := bind_ok h
    obtain ⟨hn, hs, ht⟩ := (plan_one_secret_safe p name s).returned hp
    by_cases hx : (found.extract.isSome && found.source.isNone)
    · rw [if_pos hx] at h
      cases h
    · rw [if_neg hx] at h
      cases hr : found.route with
      | none =>
        rw [hr] at h
        cases h
      | some r =>
        rw [hr] at h
        obtain ⟨b, -, h⟩ := bind_ok h
        obtain ⟨a, -, h⟩ := bind_ok h
        obtain ⟨_, -, h⟩ := bind_ok h
        obtain ⟨value, hv, h⟩ := bind_ok h
        have hi : i = .ok value := Attempt.Yields.call _ _ hv
        by_cases he : value.isEmpty
        · rw [if_pos he] at h
          cases h
        · rw [if_neg he] at h
          obtain ⟨ec, hen, h⟩ := bind_ok h
          obtain ⟨_, -, h⟩ := bind_ok h
          cases h
          obtain ⟨logical, het, hst⟩ := prepared_stores hen
          have hd : planned.is_derived = false := by
            rw [hr] at ht
            simpa using ht.symm
          have hsr : planned.source = none := by
            unfold PlannedSecret.is_derived at hd
            simpa using (Bool.or_eq_false_iff.mp hd).2
          rw [hsr] at hx
          refine ⟨hn, by rw [hs], by simpa using hx, hd, logical, ?_, hst⟩
          rw [hi]
          exact het

/-- What a generator stores is the canonical form of what it returns. -/
theorem generate_stores {value : GeneratedValue}
    (h : generate_traced (world.coded codecs) planned = .ok (some (value, some written))) :
    planned.extract = none ∧ written.stored = stored_bytes codecs planned (logical_of value) := by
  unfold generate_traced at h
  cases hg : planned.config.generate.filter GenerateConfig.is_enabled with
  | none =>
    rw [hg] at h
    cases h
  | some c =>
    rw [hg] at h
    by_cases hx : planned.extract.isSome
    · simp only [if_pos hx] at h
      cases h
    · simp only [if_neg hx] at h
      cases ht : planned.config.secret_type with
      | none =>
        rw [ht] at h
        cases h
      | some s =>
        rw [ht] at h
        obtain ⟨m, -, h⟩ := bind_ok h
        obtain ⟨r, -, h⟩ := bind_ok h
        obtain ⟨a, -, h⟩ := bind_ok h
        obtain ⟨b, -, h⟩ := bind_ok h
        split at h
        · cases h
        · obtain ⟨_, -, h⟩ := bind_ok h
          obtain ⟨_, -, h⟩ := bind_ok h
          obtain ⟨sr, hs, h⟩ := bind_ok h
          obtain ⟨_, -, h⟩ := bind_ok h
          obtain ⟨_, -, h⟩ := bind_ok h
          cases h
          refine ⟨by simpa using hx, ?_⟩
          unfold stored_form at hs
          unfold stored_bytes
          cases value with
          | Text t =>
            cases he : planned.encoding with
            | none | some e =>
              rw [he] at hs
              cases hs
              rfl
          | Binary bt =>
            cases he : planned.encoding with
            | none =>
              rw [he] at hs
              cases hs
            | some e =>
              rw [he] at hs
              cases hs
              rfl

/-- What a prompt stores is the canonical form of what it returns. -/
theorem prompt_stores {value : SecretBytes} (h : prompt_traced (world.coded codecs) planned = .ok (value, some written)) :
    written.stored = stored_bytes codecs planned value := by
  unfold prompt_traced at h
  obtain ⟨r, -, h⟩ := bind_ok h
  obtain ⟨a, -, h⟩ := bind_ok h
  obtain ⟨b, -, h⟩ := bind_ok h
  split at h
  · obtain ⟨_, -, h⟩ := bind_ok h
    obtain ⟨_, -, h⟩ := bind_ok h
    obtain ⟨p, -, h⟩ := bind_ok h
    obtain ⟨_, -, h⟩ := bind_ok h
    cases h
    rfl
  · cases hp : Attempt.call ((world.coded codecs).prompt_run_secret planned.name none) with
    | ok p | error s =>
      rw [hp] at h
      cases h

end

/-! ## A write and a later pass -/

/-- A pass over a profile that delivers values and returned, and a secret it exposes. -/
structure Pass (Provider Address Identity : Type) (codecs : Codecs) (spec : CompiledSpec) (profile_name : String)
    (profile : CompiledProfile) where
  world : World Provider Address Identity
  planner : Planner
  selection : Selection profile
  plan : ResolutionPlan
  materialize : Materialize
  filter : OutputFilter
  read : Execution Identity
  outcome : Outcome
  planned : PlannedSecret
  built : build_plan_from_names planner spec profile_name selection.names = .ok plan
  mem : planned ∈ plan.secrets
  values : materialize.values = true
  admitted : filter.admits planned.name = true
  reads : read_sources (world.coded codecs) plan = .ok read
  returns : execute_plan (world.coded codecs) spec plan materialize filter = .ok outcome

namespace Pass

variable {codecs : Codecs} {spec : CompiledSpec} {profile_name : String} {profile : CompiledProfile}

/-- The pass returns the logical value. -/
def Gives (pass : Pass Provider Address Identity codecs spec profile_name profile) (logical : SecretBytes) : Prop :=
  Returns (pass.world.coded codecs) pass.planned logical pass.outcome

end Pass

/-- Every pass that reads the stored bytes back returns the logical value. -/
def LaterGives (Provider Address Identity : Type) (codecs : Codecs) (spec : CompiledSpec) (profile_name : String)
    (profile : CompiledProfile) (name : String) (stored logical : SecretBytes) : Prop :=
  ∀ (pass : Pass Provider Address Identity codecs spec profile_name profile) (value : ProviderValue), pass.planned.name = name →
    pass.read.fetched_values name = some value → ReadBack pass.planned.encoding stored value.value → pass.Gives logical

section

variable {codecs : Codecs} {rules : Rules} {spec : CompiledSpec} {profile_name : String} {profile : CompiledProfile}

/-- A routed secret of a plan. -/
theorem Pass.found (hp : spec.profile profile_name = some profile) (ha : AcceptedProfile rules profile)
    (pass : Pass Provider Address Identity codecs spec profile_name profile) :
    Planned profile pass.plan ∧ Fit pass.planned ∧ profile.get pass.planned.name = some pass.planned.secret := by
  obtain ⟨-, hl⟩ := (build_plan_safe hp ha pass.planner pass.selection).returned pass.built
  exact ⟨hl, fit ha hl pass.mem, hl.declared _ pass.mem⟩

variable {planned : PlannedSecret}

/-- A produced secret is read from a store. -/
theorem produced_not_derived (hf : Fit planned)
    (hl : planned.secret.missing = .Generate ∨ planned.secret.missing = .Prompt) : planned.is_derived = false := by
  refine Bool.eq_false_iff.mpr fun hd => ?_
  rcases hf.derived hd with h | h <;> rcases hl with hp | hp <;> rw [h] at hp <;> cases hp

/-- A prompted value is the whole value. -/
theorem prompt_extracts_nothing (ha : AcceptedProfile rules profile)
    (hg : profile.get planned.name = some planned.secret) (hp : planned.secret.missing = .Prompt) :
    planned.extract = none := by
  obtain ⟨c, hn⟩ := ha.compiled _ _ hg
  have hr := CompiledSecret.new_missing planned.config c
  rw [← hn, hp] at hr
  have hv := (ha.semantics _ _ hg).prompt
  unfold Secret.validate_prompt at hv
  rw [if_pos hr] at hv
  obtain ⟨-, hf⟩ := Except.bind_unit_ok hv
  have hnn := refuse_ok hf
  simp only [Bool.or_eq_false_iff] at hnn
  show planned.config.extract = none
  simpa using hnn.2

theorem later_gives (hc : codecs.Documented) (hp : spec.profile profile_name = some profile)
    (ha : AcceptedProfile rules profile) (hg : profile.get planned.name = some planned.secret)
    (hx : planned.extract = none) (hd : planned.is_derived = false) (logical : SecretBytes) :
    LaterGives Provider Address Identity codecs spec profile_name profile planned.name
      (stored_bytes codecs planned logical) logical := by
  intro pass value hn ht hrd
  obtain ⟨hl, hfi, hgt⟩ := pass.found hp ha
  have hs : pass.planned.secret = planned.secret := by
    rw [hn, hg] at hgt
    exact (Option.some.inj hgt).symm
  have he : pass.planned.extract = none := by
    unfold PlannedSecret.extract PlannedSecret.config
    rw [hs]
    exact hx
  have hdr : pass.planned.is_derived = false := by
    unfold PlannedSecret.is_derived PlannedSecret.is_composed PlannedSecret.source PlannedSecret.config
    rw [hs]
    exact hd
  have hst : stored_bytes codecs planned logical = stored_bytes codecs pass.planned logical := by
    unfold stored_bytes PlannedSecret.encoding PlannedSecret.config
    rw [hs]
  rw [hst] at hrd
  have hrt : pass.planned.route.isSome := by rw [hfi.routed, hdr]; rfl
  obtain ⟨r, hr⟩ := Option.isSome_iff_exists.mp hrt
  have hk := provider_pass_kept hl.nodup pass.mem pass.reads fun st hu hf _ =>
    resolve_found (by rw [hf, hn]; exact ht) hr pass.values hu
      (answered pass.world pass.filter hc hfi he hrd)
  exact execute_plan_returns pass.values hl pass.mem hdr pass.admitted hk _ pass.returns

end

/-- Encoded text decodes to the logical bytes, with a line ending after it or not. So a later
    pass that reads back what `set` stored returns what was set, and what a pass returns of a
    value it generated or asked for is what later passes return of it. -/
theorem storage_pipeline {codecs : Codecs} (hc : codecs.Documented) {rules : Rules} {config : Config} {spec : CompiledSpec}
    (h : config.validate_and_compile rules = .ok spec) {profile_name : String} {profile : CompiledProfile}
    (hp : spec.profile profile_name = some profile) :
    (∀ encoding name bytes ending, LineEnding ending →
      decode_stored_value codecs encoding name (encode_logical_bytes codecs encoding bytes ++ ending) = .ok bytes) ∧
    (∀ (world : World Provider Address Identity) planner ensure_reason name input encoded_typed_input planned written,
      store_secret_with_input (world.coded codecs) planner profile_name profile ensure_reason name input encoded_typed_input =
          .ok (planned, written) →
        ∃ logical, Entered codecs planned name input encoded_typed_input logical ∧
          LaterGives Provider Address Identity codecs spec profile_name profile name written.stored logical) ∧
    (∀ (pass : Pass Provider Address Identity codecs spec profile_name profile) value trace,
      pass.planned.secret.missing = .Generate → Missed pass.planned pass.read →
        generate_traced (pass.world.coded codecs) pass.planned = .ok (some (value, trace)) →
          pass.Gives (logical_of value) ∧ ∀ written, trace = some written →
            LaterGives Provider Address Identity codecs spec profile_name profile pass.planned.name written.stored
              (logical_of value)) ∧
    (∀ (pass : Pass Provider Address Identity codecs spec profile_name profile) value trace,
      pass.planned.secret.missing = .Prompt → pass.materialize.prompts = true → Missed pass.planned pass.read →
        prompt_traced (pass.world.coded codecs) pass.planned = .ok (value, trace) →
          pass.Gives value ∧ ∀ written, trace = some written →
            LaterGives Provider Address Identity codecs spec profile_name profile pass.planned.name written.stored value) := by
  have ha := accepted_profile h hp
  refine ⟨fun encoding name bytes ending => decode_encoded hc encoding name bytes, ?_, ?_, ?_⟩
  · intro world planner ensure_reason name input encoded_typed_input planned written hs
    obtain ⟨rfl, hg, hx, hd, logical, he, hst⟩ := set_stores hs
    rw [hst]
    exact ⟨logical, he, later_gives hc hp ha hg hx hd logical⟩
  · intro pass value trace hl hm htr
    obtain ⟨hn, hfi, hg⟩ := pass.found hp ha
    have hd := produced_not_derived hfi (.inl hl)
    have hrt : pass.planned.route.isSome := by rw [hfi.routed, hd]; rfl
    obtain ⟨rt, hr⟩ := Option.isSome_iff_exists.mp hrt
    have hgn : try_generate_secret (pass.world.coded codecs) pass.planned = .ok (some value) := by
      rw [try_generate_secret_traced, htr]
      rfl
    obtain ⟨m, hmn, hft⟩ :=
      (try_generate_secret_safe (pass.world.coded codecs) hfi hr (hfi.generator hl)).returned hgn
    cases hmn
    have hk : Attempt.Yields (provider_pass (pass.world.coded codecs) pass.plan pass.materialize pass.filter)
        (Kept (pass.world.coded codecs) pass.filter pass.planned (logical_of value)) :=
      provider_pass_kept hn.nodup pass.mem pass.reads fun st hu hf hfl =>
        resolve_missed ⟨hf.trans hm.fetched, fun r hr => hm.fallback r (hfl ▸ hr)⟩ hr fun a haf =>
          generate_kept pass.values (hu.decided haf) hl hgn hft
    refine ⟨execute_plan_returns pass.values hn pass.mem hd pass.admitted hk _ pass.returns, ?_⟩
    rintro written rfl
    obtain ⟨hx, hst⟩ := generate_stores htr
    rw [hst]
    exact later_gives hc hp ha hg hx hd _
  · intro pass value trace hl hpm hm htr
    obtain ⟨hn, hfi, hg⟩ := pass.found hp ha
    have hd := produced_not_derived hfi (.inr hl)
    have hrt : pass.planned.route.isSome := by rw [hfi.routed, hd]; rfl
    obtain ⟨rt, hr⟩ := Option.isSome_iff_exists.mp hrt
    have hpr : try_prompt_secret (pass.world.coded codecs) pass.planned = .ok value := by
      rw [try_prompt_secret_traced, htr]
      rfl
    have ht : pass.planned.is_typed_stored = false := Bool.eq_false_iff.mpr fun ht => (hfi.typed_policy ht).1 hl
    have hk : Attempt.Yields (provider_pass (pass.world.coded codecs) pass.plan pass.materialize pass.filter)
        (Kept (pass.world.coded codecs) pass.filter pass.planned value) :=
      provider_pass_kept hn.nodup pass.mem pass.reads fun st hu hf hfl =>
        resolve_missed ⟨hf.trans hm.fetched, fun r hr => hm.fallback r (hfl ▸ hr)⟩ hr fun a haf =>
          prompt_kept hpm pass.admitted (hu.decided haf) hl ht hpr
    refine ⟨execute_plan_returns pass.values hn pass.mem hd pass.admitted hk _ pass.returns, ?_⟩
    rintro written rfl
    rw [prompt_stores htr]
    exact later_gives hc hp ha hg (prompt_extracts_nothing ha hg hl) hd value

theorem storage_pipeline_with_identity : ∃ (spec : CompiledSpec) (profile : CompiledProfile),
    Sample.with_identity.validate_and_compile ascii = .ok spec ∧ spec.profile "default" = some profile ∧
      decode_stored_value rfc4648 .Hex "KEY" (encode_logical_bytes rfc4648 .Hex [255, 10] ++ CRLF) = .ok [255, 10] ∧
      ∀ planned written, store_secret_with_input (Sample.empty_store.coded rfc4648) Sample.default_route "default" profile
          (.ok ()) "IDENTITY" (.ok [1]) false = .ok (planned, written) →
        ∃ logical, Entered rfc4648 planned "IDENTITY" (.ok [1]) false logical ∧
          LaterGives Unit Unit Unit rfc4648 spec "default" profile "IDENTITY" written.stored logical := by
  obtain ⟨spec, hs⟩ := Except.ok_of_isSome (x := Sample.with_identity.validate_and_compile ascii) (by decide +kernel)
  obtain ⟨profile, hp⟩ : ∃ profile, spec.profile "default" = some profile := by
    rw [(validated hs).compiled, compile_lookup]
    exact ⟨_, rfl⟩
  obtain ⟨hc, ht, -⟩ := @storage_pipeline Unit Unit Unit rfc4648 rfc4648_documented _ _ spec hs _ profile hp
  exact ⟨spec, profile, hs, hp, hc .Hex "KEY" [255, 10] CRLF (.inr (.inr rfl)),
    ht Sample.empty_store Sample.default_route (.ok ()) "IDENTITY" (.ok [1]) false⟩

end Monosecret.Executor
