/-
  Monosecret.Resolve.Chain — what resolution makes of a chain of sources.

  `ChainSpec` says what the answers of a primary and its fallbacks come to. The first value
  in chain order wins. Without one, a chain none of whose fallbacks answered reports the
  last fallback's error, even when the primary failed too; a failed primary otherwise
  reports its own; and only when the primary answered that the secret is not there, and some
  fallback did when there is one, does the missing policy apply.

  (1) `chain_semantics`: a completed provider pass has left every routed secret what its
      chain came to, a failed one reports a failure of some chain, of the coordinate check
      or of the handling of what a chain came to; an outage never completes.
  (2) `an_outage_is_not_always_reported`: a failed primary whose fallback failed reports the
      fallback's error, and an absent primary with one absent and one failed fallback
      generates a value.
-/

import Monosecret.Resolve.Record

namespace Monosecret.Resolve

open Lib Plan Cache

/-! ## The specification of a chain -/

/-- No answer of these is a value. -/
def Unvalued (answers : List Answer) : Prop := ∀ value, .ok (some value) ∉ answers

inductive ChainSpec (primary : Answer) (fallbacks : List Answer) : ChainResult → Prop
  | first (before after : List Answer) (found : ProviderValue)
    (order : primary :: fallbacks = before ++ .ok (some found) :: after) (unvalued : Unvalued before) :
    ChainSpec primary fallbacks (.value found)
  | fallbacks_failed (unvalued : Unvalued (primary :: fallbacks)) (error : MonosecretError)
    (all : ∀ answer ∈ fallbacks, ∃ e, answer = .error e) (last : fallbacks.getLast? = some (.error error)) :
    ChainSpec primary fallbacks (.failed error)
  | primary_failed (unvalued : Unvalued fallbacks) (error : MonosecretError) (failed : primary = .error error)
    (answered : fallbacks = [] ∨ .ok none ∈ fallbacks) : ChainSpec primary fallbacks (.failed error)
  | absent (unvalued : Unvalued fallbacks) (missing : primary = .ok none)
    (answered : fallbacks = [] ∨ .ok none ∈ fallbacks) : ChainSpec primary fallbacks .absent

theorem first_value_none {answers : List Answer} (h : first_value answers = none) : Unvalued answers := by
  induction answers with
  | nil => exact nofun
  | cons answer answers ih =>
    rcases answer with e | (_ | found)
    · exact fun value hm => ih h value (List.mem_of_ne_of_mem (by simp) hm)
    · exact fun value hm => ih h value (List.mem_of_ne_of_mem (by simp) hm)
    · cases h

theorem first_value_some {answers : List Answer} {found : ProviderValue} (h : first_value answers = some found) :
    ∃ before af, answers = before ++ .ok (some found) :: af ∧ Unvalued before := by
  induction answers with
  | nil => cases h
  | cons answer answers ih =>
    have hs : ∀ a : Answer, (∀ value, a ≠ .ok (some value)) → first_value answers = some found →
        ∃ before af, a :: answers = before ++ .ok (some found) :: af ∧ Unvalued before := by
      intro a ha h
      obtain ⟨before, af, rfl, hu⟩ := ih h
      refine ⟨a :: before, af, rfl, fun value hm => ?_⟩
      rcases List.mem_cons.mp hm with rfl | hm
      · exact ha value rfl
      · exact hu value hm
    rcases answer with e | (_ | value)
    · exact hs _ (fun _ => by simp) h
    · exact hs _ (fun _ => by simp) h
    · cases h
      exact ⟨[], answers, rfl, nofun⟩

theorem last_error_none {answers : List Answer} (h : last_error answers = none) : ∀ e, .error e ∉ answers := by
  induction answers with
  | nil => exact nofun
  | cons answer answers ih =>
    cases answer with
    | error e => cases h
    | ok value => exact fun e hm => ih h e (List.mem_of_ne_of_mem (by simp) hm)

/-- Where every source failed, the last error is the last source's. -/
theorem last_error_all {answers : List Answer} (hal : ∀ answer ∈ answers, ∃ e, answer = .error e) {error : MonosecretError}
    (h : last_error answers = some error) : answers.getLast? = some (.error error) := by
  induction answers with
  | nil => cases h
  | cons answer answers ih =>
    obtain ⟨e, rfl⟩ := hal answer (.head _)
    have hr := fun a ha => hal a (.tail _ ha)
    cases hl : last_error answers with
    | some er' =>
      unfold last_error at h
      rw [hl] at h
      cases h
      rw [List.getLast?_cons, ih hr hl]
      rfl
    | none =>
      unfold last_error at h
      rw [hl] at h
      cases h
      cases answers with
      | nil => rfl
      | cons next r =>
        obtain ⟨e', rfl⟩ := hr next (.head _)
        exact absurd (.head _) (last_error_none hl e')

theorem answer_cases (answer : Answer) : (∃ e, answer = .error e) ∨ answer = .ok none ∨ ∃ value, answer = .ok (some value) := by
  rcases answer with e | (_ | value)
  · exact .inl ⟨e, rfl⟩
  · exact .inr (.inl rfl)
  · exact .inr (.inr ⟨value, rfl⟩)

theorem any_absence {answers : List Answer} : answers.any Answer.is_absence ↔ .ok none ∈ answers := by
  rw [List.any_eq_true]
  constructor
  · rintro ⟨answer, hm, ha⟩
    rcases answer with e | (_ | value)
    · cases ha
    · exact hm
    · cases ha
  · exact fun h => ⟨.ok none, h, rfl⟩

/-- Without a value and without errors, or with an absence, the fallbacks have answered. -/
theorem fallbacks_answered {fallbacks : List Answer} (hu : Unvalued fallbacks)
    (h : ∀ e, last_error fallbacks = some e → fallbacks.any Answer.is_absence) :
    fallbacks = [] ∨ .ok none ∈ fallbacks := by
  cases hl : last_error fallbacks with
  | some e => exact .inr (any_absence.mp (h e hl))
  | none =>
    cases fallbacks with
    | nil => exact .inl rfl
    | cons answer r =>
      rcases answer_cases answer with ⟨e, rfl⟩ | rfl | ⟨value, rfl⟩
      · exact absurd (.head _) (last_error_none hl e)
      · exact .inr (.head _)
      · exact absurd (.head _) (hu value)

theorem chain_result_spec (p : Answer) (fallbacks : List Answer) :
    ChainSpec p fallbacks (chain_result p fallbacks) := by
  unfold chain_result
  cases hv : first_value (p :: fallbacks) with
  | some found =>
    obtain ⟨before, a, ho, hu⟩ := first_value_some hv
    exact .first before a found ho hu
  | none =>
    have hu := first_value_none hv
    have hf : Unvalued fallbacks := fun value hm => hu value (.tail _ hm)
    have hp (hn : fallbacks = [] ∨ .ok none ∈ fallbacks) (r : ChainResult) (hr : p.failure.elim .absent .failed = r) :
        ChainSpec p fallbacks r := by
      subst hr
      rcases answer_cases p with ⟨e, rfl⟩ | rfl | ⟨value, rfl⟩
      · exact .primary_failed hf e rfl hn
      · exact .absent hf rfl hn
      · exact absurd (.head _) (hu value)
    cases hl : last_error fallbacks with
    | none => exact hp (fallbacks_answered hf fun e he => by rw [hl] at he; cases he) _ (by cases p.failure <;> rfl)
    | some error =>
      cases ha : fallbacks.any Answer.is_absence with
      | true => exact hp (.inr (any_absence.mp ha)) _ (by cases p.failure <;> rfl)
      | false =>
        have hal : ∀ answer ∈ fallbacks, ∃ e, answer = .error e := by
          intro answer hm
          rcases answer_cases answer with hr | rfl | ⟨value, rfl⟩
          · exact hr
          · rw [any_absence.mpr hm] at ha
            cases ha
          · exact absurd hm (hf value)
        exact .fallbacks_failed hu error hal (last_error_all hal hl)

/-! ## The pass -/

section

variable {Identity : Type} (answers : Answers Identity) (plan : ResolutionPlan) (materialize : Materialize)
  (filter : OutputFilter)

/-- What a provider pass reports. -/
inductive ChainReport : Except MonosecretError (Execution Identity) → Prop
  | completed (st : Execution Identity)
    (each : ∀ planned ∈ plan.secrets, ∀ route, planned.route = some route →
      Provided answers plan materialize filter planned route (st.record planned.name)) : ChainReport (.ok st)
  | unaddressable (error : MonosecretError)
    (check : (pending_groups answers plan).forM (check_single_store_ref_coords answers) = .error error) :
    ChainReport (.error error)
  | failed (planned : PlannedSecret) (mem : planned ∈ plan.secrets) (route : Route) (routed : planned.route = some route)
    (error : MonosecretError) (read : source_result answers plan planned route = .failed error) :
    ChainReport (.error error)
  | unusable (planned : PlannedSecret) (mem : planned ∈ plan.secrets) (route : Route)
    (routed : planned.route = some route) (found : Found) (st : Execution Identity) (error : MonosecretError)
    (read : source_result answers plan planned route = .value found.value)
    (handling : st.record_found answers materialize planned found = .error error) : ChainReport (.error error)
  | unsupplied (planned : PlannedSecret) (mem : planned ∈ plan.secrets) (route : Route)
    (routed : planned.route = some route) (st : Execution Identity) (error : MonosecretError)
    (read : source_result answers plan planned route = .absent)
    (handling : st.apply_missing answers materialize filter planned = .error error) : ChainReport (.error error)

variable {answers plan materialize filter}
variable {error : MonosecretError}

theorem fetch_error (h : fetch_primary_values answers plan = .error error) :
    (pending_groups answers plan).forM (check_single_store_ref_coords answers) = .error error := by
  unfold fetch_primary_values at h
  cases hc : (pending_groups answers plan).forM (check_single_store_ref_coords answers) with
  | error e =>
    rw [hc] at h
    cases h
    rfl
  | ok u =>
    rw [hc] at h
    cases h

theorem resolve_error {f : List GroupFetch} (hf : fetch_primary_values answers plan = .ok f)
    {p : PlannedSecret} (hp : p ∈ plan.secrets) {st : Execution Identity}
    (h : st.resolve_provider_backed answers materialize filter f p = .error error) :
    ChainReport answers plan materialize filter (.error error) := by
  unfold Execution.resolve_provider_backed at h
  cases hr : p.route with
  | none =>
    rw [hr] at h
    cases h
  | some r =>
    rw [hr] at h
    have hd := read_source_eq answers hf hp hr
    cases hs : read_source answers f p r with
    | error e =>
      simp only [hs] at h
      cases h
      rw [hs] at hd
      refine .failed p hp r hr error ?_
      cases hc : source_result answers plan p r with
      | value found => rw [hc] at hd; cases hd
      | failed e' =>
        rw [hc] at hd
        cases hd
        rfl
      | absent => rw [hc] at hd; cases hd
    | ok found =>
      simp only [hs] at h
      rw [hs] at hd
      cases found with
      | some found =>
        refine .unusable p hp r hr found st error ?_ h
        cases hc : source_result answers plan p r with
        | value s =>
          rw [hc] at hd
          cases hd
          rfl
        | failed e | absent => rw [hc] at hd; cases hd
      | none =>
        refine .unsupplied p hp r hr st error ?_ h
        cases hc : source_result answers plan p r with
        | value s | failed e => rw [hc] at hd; cases hd
        | absent => rfl

theorem provider_pass_report : ChainReport answers plan materialize filter (provider_pass answers plan materialize filter) := by
  cases h : provider_pass answers plan materialize filter with
  | ok st => exact .completed st fun p hp r hr => provided_record h hp hr
  | error error =>
    unfold provider_pass at h
    cases hf : fetch_primary_values answers plan with
    | error e =>
      rw [hf] at h
      cases h
      exact .unaddressable error (fetch_error hf)
    | ok f =>
      rw [hf] at h
      obtain ⟨pre, p, ps, st, hs, -, hn⟩ := foldlM_error h
      exact resolve_error hf (hs ▸ List.mem_append_right _ (.head _)) hn

theorem execute_plan_error {p : CompiledProfile} (hn : plan.secrets ≠ [])
    (h : provider_pass answers plan materialize filter = .error error) :
    execute_plan answers plan materialize filter p = .error error := by
  unfold execute_plan
  rw [if_neg (by simpa using hn), h]
  rfl

end

/-- Every chain is followed as `ChainSpec` says, the pass reports what the chains came to, and
    an outage ends it. -/
theorem chain_semantics {Identity : Type} (answers : Answers Identity) (plan : ResolutionPlan) (materialize : Materialize)
    (filter : OutputFilter) (profile : CompiledProfile) :
    (∀ planned route, match answers.cached planned with
      | some (served, _) => source_result answers plan planned route = .value served
      | none => ChainSpec (primary_answer answers plan planned route) (fallback_answers answers planned route)
          (source_result answers plan planned route)) ∧
    ChainReport answers plan materialize filter (provider_pass answers plan materialize filter) ∧
    (∀ planned ∈ plan.secrets, ∀ route, planned.route = some route →
      ∀ error, source_result answers plan planned route = .failed error →
        ∃ reported, provider_pass answers plan materialize filter = .error reported ∧
          execute_plan answers plan materialize filter profile = .error reported) := by
  refine ⟨?_, provider_pass_report, ?_⟩
  · intro planned route
    unfold source_result
    cases answers.cached planned with
    | some served => rfl
    | none => exact chain_result_spec _ _
  · intro planned hp route hr error hf
    cases h : provider_pass answers plan materialize filter with
    | ok st => exact absurd h (provider_pass_failed hp hr hf st)
    | error reported => exact ⟨reported, rfl, execute_plan_error (List.ne_nil_of_mem hp) h⟩

/-! ## Two chains with an outage -/

namespace Sample

theorem must : MissingPolicy.Error = .Error ∨ MissingPolicy.Error = .Generate := .inl rfl

/-- A secret one provider stores. -/
def stored (name : Text) (missing : MissingPolicy) (h : missing = .Error ∨ missing = .Generate) : CompiledSecret where
  name
  missing
  declared_required := true
  composition := none
  source := none
  credentials := []
  stored_type := false
  extracts := false
  as_path := false
  default := none
  derived_missing := by simp
  derived_type := by simp
  composed_alone := by simp
  typed_credentials := by simp
  optional := by rcases h with rfl | rfl <;> simp
  prompted := by simp
  defaulted := by rcases h with rfl | rfl <;> simp

def profile_of (secret : CompiledSecret) (h : secret.dependencies = []) : CompiledProfile where
  secrets := [secret]
  at_least_one := []
  exactly_one := []
  nodup := by simp
  closed := by simp [h]
  acyclic := ⟨fun _ => 0, by simp [h]⟩
  grouped := by simp

def plan_of (planned : PlannedSecret) (h : planned.dependencies = []) : ResolutionPlan where
  profile := Text.of "default"
  override_uri := none
  secrets := [planned]
  nodup := by simp
  closed := by simp [h]
  acyclic := ⟨fun _ => 0, by simp [h]⟩

/-- Stores named by their spec, with what each answers; values are delivered as stored. -/
def answers (get_many : Except MonosecretError (PlannedSecret → Option ProviderValue))
    (get : Text → Except MonosecretError (Option ProviderValue)) : Answers Unit where
  cached _ := none
  get_route_provider spec := .ok (spec.getD (Text.of "keyring"))
  resolve_coords _ _ := .ok ()
  get_many _ _ := get_many
  resolve_one_provider spec := .ok spec
  shared_provider spec := .ok spec
  get_with_metadata spec _ := get spec
  effective_revision revision _ := revision
  prepare_resolved _ value _ := .ok value
  try_prompt_secret _ := .error (.Other "no terminal")
  try_generate_secret _ := .ok (.Text [103, 101, 110])
  generated_binary _ _ _ h := by cases h
  generated_value_is_stored _ := true
  decode_stored_value _ value := .ok value
  validate_credential _ value := .ok value
  decode_identity _ _ _ := .ok ()
  deliver_bytes _ bytes := .ok bytes
  extract_source _ _ value := .ok value
  project _ _ _ := .ok []
  report_provider_uri := .ok (Text.of "keyring")

def primary_down : MonosecretError := .ProviderOperationFailed "vault: connection refused"

def fallback_down : MonosecretError := .ProviderOperationFailed "backup: timed out"

def chain_route (fallback : List Text) : Route := ⟨some ⟨Text.of "vault", Text.of "vault://prod"⟩, fallback, none⟩

def token (missing : MissingPolicy) (h : missing = .Error ∨ missing = .Generate) (fallback : List Text) : PlannedSecret :=
  ⟨stored (Text.of "TOKEN") missing h, some (chain_route fallback), rfl⟩

/-- Both sources of a required secret fail. -/
def both_down : Answers Unit := answers (.error primary_down) fun _ => .error fallback_down

def required_token : PlannedSecret := token .Error (.inl rfl) [Text.of "backup"]

/-- The primary and the first fallback answer that the secret is not there; the last is down. -/
def last_down : Answers Unit :=
  answers (.ok fun _ => none) fun spec => if spec = Text.of "mirror" then .ok none else .error fallback_down

def generated_token : PlannedSecret := token .Generate (.inr rfl) [Text.of "mirror", Text.of "backup"]

end Sample

open Sample in
/-- A failed primary is not what is reported, and a fallback's outage is passed over: the
    secret is generated. -/
theorem an_outage_is_not_always_reported :
    (primary_answer both_down (plan_of required_token rfl) required_token (chain_route [Text.of "backup"]) =
        .error primary_down ∧
      (provider_pass both_down (plan_of required_token rfl) .Values none).map (fun _ => ()) = .error fallback_down) ∧
    (.error fallback_down ∈ fallback_answers last_down generated_token (chain_route [Text.of "mirror", Text.of "backup"]) ∧
      (provider_pass last_down (plan_of generated_token rfl) .Values none).map
        (fun st => st.values (Text.of "TOKEN")) = .ok (some [103, 101, 110])) := by
  refine ⟨⟨rfl, rfl⟩, ?_, rfl⟩
  exact .tail _ (.head _)

end Monosecret.Resolve
