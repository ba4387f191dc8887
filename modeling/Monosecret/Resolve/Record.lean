/-
  Monosecret.Resolve.Record — what the provider pass leaves of each secret.

  An execution seen at one name is a `Record`. Resolving a secret touches the record of its
  own name only (`provider_local`), so the pass leaves every routed secret what `Provided`
  says: its source's value, or what its missing policy made of a definite absence. A secret
  with a failed source leaves no execution at all (`provider_pass_failed`).
-/

import Monosecret.Lib.Pass
import Monosecret.Resolve.Execute

namespace Monosecret.Resolve

open Lib Plan Cache

/-- What an execution holds under one name. -/
structure Record (Identity : Type) where
  value : Option SecretBytes
  expiry : Option UInt64
  refresh : Option UInt64
  revision : Option Revision
  pending : Option PendingTyped
  identity : Option Identity
  entries : List SecretResolution
  required : List Text
  optional : List Text
  defaults : List (Text × Text)

def provider_entry (planned : PlannedSecret) (status : ResolutionStatus) (source_provider : Option Text)
    (default_applied generated : Bool) : SecretResolution :=
  ⟨planned.name, status, planned.secret.declared_required, source_provider, default_applied, generated, false, none,
    planned.secret.as_path⟩

namespace Record

variable {Identity : Type}

def empty : Record Identity := ⟨none, none, none, none, none, none, [], [], [], []⟩

/-- A resolved secret that leaves its entry only. -/
def resolved (planned : PlannedSecret) (source_provider : Option Text) (default_applied generated : Bool) :
    Record Identity :=
  { (empty : Record Identity) with entries := [provider_entry planned .Resolved source_provider default_applied generated] }

def missed_required (planned : PlannedSecret) : Record Identity :=
  { (empty : Record Identity) with
    entries := [provider_entry planned .MissingRequired none false false]
    required := [planned.name] }

def missed_optional (planned : PlannedSecret) : Record Identity :=
  { (empty : Record Identity) with
    entries := [provider_entry planned .MissingOptional none false false]
    optional := [planned.name] }

/-- The status recorded for a name. -/
def status (r : Record Identity) : Option ResolutionStatus := r.entries.head?.map SecretResolution.status

end Record

namespace Execution

variable {Identity : Type}

def record (st : Execution Identity) (name : Text) : Record Identity where
  value := st.values name
  expiry := st.secret_expiries name
  refresh := st.refreshes name
  revision := st.revisions name
  pending := st.pending_typed name
  identity := st.identities name
  entries := st.resolution.filter fun entry => entry.name = name
  required := st.missing_required.filter fun missing => missing = name
  optional := st.missing_optional.filter fun missing => missing = name
  defaults := st.with_defaults.filter fun default => default.1 = name

theorem record_init (n : Text) : (init : Execution Identity).record n = .empty := rfl

/-- Nothing changed but under one name. -/
def OnlyAt (name : Text) (st st' : Execution Identity) : Prop := ∀ k, k ≠ name → st'.record k = st.record k

theorem OnlyAt.refl (name : Text) (st : Execution Identity) : OnlyAt name st st := fun _ _ => rfl

theorem OnlyAt.trans {name : Text} {a b c : Execution Identity} (h : OnlyAt name a b) (h' : OnlyAt name b c) :
    OnlyAt name a c := fun k hk => (h' k hk).trans (h k hk)

variable (answers : Answers Identity) (materialize : Materialize) (filter : OutputFilter) (planned : PlannedSecret)

/-! ## One operation at a time -/

section

variable (st : Execution Identity)

theorem push_provider_only (s : ResolutionStatus) (sr : Option Text) (d g : Bool) :
    OnlyAt planned.name st (st.push_provider planned s sr d g) := by
  intro k hk
  simp [record, push_provider, List.filter_append, hk.symm]

theorem push_provider_self (s : ResolutionStatus) (sr : Option Text) (d g : Bool) :
    (st.push_provider planned s sr d g).record planned.name = { st.record planned.name with
        entries := (st.record planned.name).entries ++ [provider_entry planned s sr d g] } := by
  simp [record, push_provider, List.filter_append, provider_entry]

theorem miss_required_only : OnlyAt planned.name st (st.miss_required planned) := by
  intro k hk
  simp [record, miss_required, push_provider, List.filter_append, hk.symm]

theorem miss_required_self : (st.miss_required planned).record planned.name = { st.record planned.name with
        entries := (st.record planned.name).entries ++ [provider_entry planned .MissingRequired none false false]
        required := (st.record planned.name).required ++ [planned.name] } := by
  simp [record, miss_required, push_provider, List.filter_append, provider_entry]

theorem miss_optional_only : OnlyAt planned.name st (st.miss_optional planned) := by
  intro k hk
  simp [record, miss_optional, push_provider, List.filter_append, hk.symm]

theorem miss_optional_self : (st.miss_optional planned).record planned.name = { st.record planned.name with
        entries := (st.record planned.name).entries ++ [provider_entry planned .MissingOptional none false false]
        optional := (st.record planned.name).optional ++ [planned.name] } := by
  simp [record, miss_optional, push_provider, List.filter_append, provider_entry]

theorem insert_value_only (value : SecretBytes) :
    OnlyAt planned.name st { st with values := st.values.insert planned.name value } := by
  intro k hk
  simp [record, Map.insert_of_ne hk]

theorem insert_pending_only (p : PendingTyped) :
    OnlyAt planned.name st { st with pending_typed := st.pending_typed.insert planned.name p } := by
  intro k hk
  simp [record, Map.insert_of_ne hk]

end

variable {answers planned} in
theorem insert_resolved_ok {value : SecretBytes} {r : ResolvedRepresentation} {st st' : Execution Identity}
    (h : st.insert_resolved answers planned value r = .ok st') :
    ∃ delivered, answers.prepare_resolved planned value r = .ok delivered ∧
      st' = { st with values := st.values.insert planned.name delivered } := by
  obtain ⟨delivered, hd, h⟩ := Except.bind_ok h
  cases h
  exact ⟨delivered, hd, rfl⟩

theorem record_metadata_only (found : Found) (st : Execution Identity) :
    OnlyAt planned.name st (st.record_metadata answers planned found) := by
  intro k hk
  simp [record, record_metadata, Map.insert_option_of_ne hk]

theorem record_metadata_self (found : Found) (st : Execution Identity) :
    (st.record_metadata answers planned found).record planned.name =
      { st.record planned.name with
        expiry := found.value.expires_at_unix_ms.or (st.record planned.name).expiry
        refresh := found.refresh.or (st.record planned.name).refresh
        revision := (found.value.revision.map fun revision => answers.effective_revision revision planned).or
          (st.record planned.name).revision } := by
  simp [record, record_metadata, Map.insert_option_self]

/-! ## What a found value leaves -/

end Execution

/-- The record of a secret one of whose sources had a value. -/
inductive Served {Identity : Type} (answers : Answers Identity) (materialize : Materialize) (planned : PlannedSecret)
    (found : Found) : Record Identity → Prop
  | reported (pass : materialize.values = false) :
    Served answers materialize planned found
      { Record.resolved planned found.source_provider false false with
        expiry := found.value.expires_at_unix_ms
        refresh := found.refresh
        revision := found.value.revision.map fun revision => answers.effective_revision revision planned }
  | parked (pass : materialize.values = true) (typed : planned.secret.is_typed_stored = true) :
    Served answers materialize planned found
      { Record.resolved planned found.source_provider false false with
        expiry := found.value.expires_at_unix_ms
        refresh := found.refresh
        revision := found.value.revision.map fun revision => answers.effective_revision revision planned
        pending := some (.Stored found.value.value) }
  | delivered (pass : materialize.values = true) (untyped : planned.secret.is_typed_stored = false) (value : SecretBytes)
    (delivery : answers.prepare_resolved planned found.value.value .Stored = .ok value) :
    Served answers materialize planned found
      { Record.resolved planned found.source_provider false false with
        expiry := found.value.expires_at_unix_ms
        refresh := found.refresh
        revision := found.value.revision.map fun revision => answers.effective_revision revision planned
        value := some value }

/-- The record of a secret that no source has, by its missing policy. -/
inductive Missed {Identity : Type} (answers : Answers Identity) (materialize : Materialize) (filter : OutputFilter)
    (planned : PlannedSecret) : Record Identity → Prop
  | prompted (policy : planned.secret.missing = .Prompt)
    (asked : (materialize.prompts && filter.admits planned.name) = true) (prompt value : SecretBytes)
    (answer : answers.try_prompt_secret planned = .ok prompt)
    (delivery : answers.prepare_resolved planned prompt .Logical = .ok value) :
    Missed answers materialize filter planned
      { Record.resolved planned none false false with value := some value }
  | unprompted (policy : planned.secret.missing = .Prompt)
    (unasked : (materialize.prompts && filter.admits planned.name) = false) :
    Missed answers materialize filter planned (.missed_required planned)
  | generated (policy : planned.secret.missing = .Generate) (pass : materialize.values = true)
    (text value : SecretBytes) (answer : answers.try_generate_secret planned = .ok (.Text text))
    (delivery : answers.prepare_resolved planned text .Logical = .ok value) :
    Missed answers materialize filter planned { Record.resolved planned none false true with value := some value }
  | generated_bytes (policy : planned.secret.missing = .Generate) (pass : materialize.values = true)
    (bytes : SecretBytes) (answer : answers.try_generate_secret planned = .ok (.Binary bytes)) :
    Missed answers materialize filter planned
      { Record.resolved planned none false true with pending := some (.Logical bytes) }
  | ungenerated (policy : planned.secret.missing = .Generate) (pass : materialize.values = false)
    (kept : (planned.secret.declared_required && answers.generated_value_is_stored planned) = true) :
    Missed answers materialize filter planned (.missed_required planned)
  | generatable (policy : planned.secret.missing = .Generate) (pass : materialize.values = false)
    (ephemeral : (planned.secret.declared_required && answers.generated_value_is_stored planned) = false) :
    Missed answers materialize filter planned (.resolved planned none false true)
  | defaulted (policy : planned.secret.missing = .UseDefault) (pass : materialize.values = true) (default : Text)
    (declared : planned.secret.default = some default) (value : SecretBytes)
    (delivery : answers.prepare_resolved planned default.bytes .Logical = .ok value) :
    Missed answers materialize filter planned
      { Record.resolved planned none true false with
        value := some value
        defaults := [(planned.name, default)] }
  | has_default (policy : planned.secret.missing = .UseDefault) (pass : materialize.values = false) :
    Missed answers materialize filter planned (.resolved planned none true false)
  | required (policy : planned.secret.missing = .Error) : Missed answers materialize filter planned (.missed_required planned)
  | optional (policy : planned.secret.missing = .Omit) : Missed answers materialize filter planned (.missed_optional planned)

namespace Execution

variable {Identity : Type} {answers : Answers Identity} {materialize : Materialize} {filter : OutputFilter}
  {planned : PlannedSecret} {st st' : Execution Identity}

theorem insert_stored_ok {value : SecretBytes}
    (h : st.insert_stored answers planned value = .ok st') :
    (planned.secret.is_typed_stored ∧
      st' = { st with pending_typed := st.pending_typed.insert planned.name (.Stored value) }) ∨
    (planned.secret.is_typed_stored = false ∧ ∃ delivered,
      answers.prepare_resolved planned value .Stored = .ok delivered ∧
      st' = { st with values := st.values.insert planned.name delivered }) := by
  unfold insert_stored at h
  by_cases ht : planned.secret.is_typed_stored
  · rw [if_pos ht] at h
    cases h
    exact .inl ⟨ht, rfl⟩
  · rw [if_neg ht] at h
    exact .inr ⟨Bool.eq_false_iff.mpr ht, insert_resolved_ok h⟩

theorem store_found_ok {value : SecretBytes}
    (h : st.store_found answers materialize planned value = .ok st') :
    (materialize.values = false ∧ st' = st) ∨
    (materialize.values ∧ planned.secret.is_typed_stored ∧
      st' = { st with pending_typed := st.pending_typed.insert planned.name (.Stored value) }) ∨
    (materialize.values ∧ planned.secret.is_typed_stored = false ∧ ∃ delivered,
      answers.prepare_resolved planned value .Stored = .ok delivered ∧
      st' = { st with values := st.values.insert planned.name delivered }) := by
  unfold store_found at h
  cases hp : materialize.values with
  | false =>
    rw [hp] at h
    cases h
    exact .inl ⟨rfl, rfl⟩
  | true =>
    rw [hp] at h
    rcases insert_stored_ok h with ⟨ht, hs⟩ | ⟨ht, hs⟩
    · exact .inr (.inl ⟨rfl, ht, hs⟩)
    · exact .inr (.inr ⟨rfl, ht, hs⟩)

theorem insert_value_self (value : SecretBytes) (st : Execution Identity) :
    ({ st with values := st.values.insert planned.name value } : Execution Identity).record planned.name =
      { st.record planned.name with value := some value } := by
  simp [record]

theorem insert_pending_self (pending : PendingTyped) (st : Execution Identity) :
    ({ st with pending_typed := st.pending_typed.insert planned.name pending } : Execution Identity).record planned.name =
      { st.record planned.name with pending := some pending } := by
  simp [record]

theorem record_found_ok {found : Found} (h : st.record_found answers materialize planned found = .ok st') :
    OnlyAt planned.name st st' ∧
      (st.record planned.name = .empty → Served answers materialize planned found (st'.record planned.name)) := by
  unfold record_found at h
  obtain ⟨s, hs, h⟩ := Except.bind_ok h
  cases h
  have hm := record_metadata_only answers planned found st
  have hl := record_metadata_self answers planned found st
  generalize st.record_metadata answers planned found = d at hs hm hl
  rcases store_found_ok hs with ⟨hp, rfl⟩ | ⟨hp, ht, rfl⟩ | ⟨hp, ht, delivered, hd, rfl⟩
  · refine ⟨hm.trans (push_provider_only _ _ _ _ _ _), fun h₀ => ?_⟩
    rw [push_provider_self, hl, h₀]
    simpa [Record.empty, Record.resolved] using Served.reported hp
  · refine ⟨(hm.trans (insert_pending_only _ _ _)).trans (push_provider_only _ _ _ _ _ _), fun h₀ => ?_⟩
    rw [push_provider_self, insert_pending_self, hl, h₀]
    simpa [Record.empty, Record.resolved] using Served.parked hp ht
  · refine ⟨(hm.trans (insert_value_only _ _ _)).trans (push_provider_only _ _ _ _ _ _), fun h₀ => ?_⟩
    rw [push_provider_self, insert_value_self, hl, h₀]
    simpa [Record.empty, Record.resolved] using Served.delivered hp ht delivered hd

/-! ## What a missing policy leaves -/

theorem insert_generated_ok {value : GeneratedValue}
    (h : st.insert_generated answers planned value = .ok st') :
    (∃ t delivered, value = .Text t ∧ answers.prepare_resolved planned t .Logical = .ok delivered ∧
      st' = { st with values := st.values.insert planned.name delivered }) ∨
    (∃ b, value = .Binary b ∧
      st' = { st with pending_typed := st.pending_typed.insert planned.name (.Logical b) }) := by
  unfold insert_generated at h
  cases value with
  | Text t =>
    obtain ⟨delivered, hd, hs⟩ := insert_resolved_ok h
    exact .inl ⟨t, delivered, rfl, hd, hs⟩
  | Binary b =>
    cases h
    exact .inr ⟨b, rfl, rfl⟩

theorem push_default_only (default : Text × Text) (hd : default.1 = planned.name) (st : Execution Identity) :
    OnlyAt planned.name st { st with with_defaults := st.with_defaults ++ [default] } := by
  intro k hk
  simp [record, List.filter_append, hd, hk.symm]

theorem push_default_self (default : Text) (st : Execution Identity) :
    ({ st with with_defaults := st.with_defaults ++ [(planned.name, default)] } : Execution Identity).record planned.name =
      { st.record planned.name with
        defaults := (st.record planned.name).defaults ++ [(planned.name, default)] } := by
  simp [record, List.filter_append]

def MissedAt (answers : Answers Identity) (materialize : Materialize) (filter : OutputFilter) (planned : PlannedSecret)
    (st st' : Execution Identity) : Prop :=
  OnlyAt planned.name st st' ∧
    (st.record planned.name = .empty → Missed answers materialize filter planned (st'.record planned.name))

variable (h : st.apply_missing answers materialize filter planned = .ok st')

include h

theorem apply_prompt_ok (hm : planned.secret.missing = .Prompt) : MissedAt answers materialize filter planned st st' := by
  unfold apply_missing at h
  rw [hm] at h
  by_cases ha : (materialize.prompts && filter.admits planned.name)
  · simp only [if_pos ha] at h
    obtain ⟨p, hp, h⟩ := Except.bind_ok h
    obtain ⟨_, hi, h⟩ := Except.bind_ok h
    cases h
    obtain ⟨value, hd, rfl⟩ := insert_resolved_ok hi
    refine ⟨(insert_value_only _ _ _).trans (push_provider_only _ _ _ _ _ _), fun h₀ => ?_⟩
    rw [push_provider_self, insert_value_self, h₀]
    exact .prompted hm ha p value hp hd
  · simp only [if_neg ha, if_pos (planned.secret.prompted hm)] at h
    cases h
    refine ⟨miss_required_only _ _, fun h₀ => ?_⟩
    rw [miss_required_self, h₀]
    exact .unprompted hm (Bool.eq_false_iff.mpr ha)

theorem apply_generate_ok (hm : planned.secret.missing = .Generate) : MissedAt answers materialize filter planned st st' := by
  unfold apply_missing at h
  rw [hm] at h
  by_cases hp : materialize.values
  · simp only [if_pos hp] at h
    obtain ⟨g, hg, h⟩ := Except.bind_ok h
    obtain ⟨_, hi, h⟩ := Except.bind_ok h
    cases h
    rcases insert_generated_ok hi with ⟨t, delivered, rfl, hd, rfl⟩ | ⟨b, rfl, rfl⟩
    · refine ⟨(insert_value_only _ _ _).trans (push_provider_only _ _ _ _ _ _), fun h₀ => ?_⟩
      rw [push_provider_self, insert_value_self, h₀]
      exact .generated hm hp t delivered hg hd
    · refine ⟨(insert_pending_only _ _ _).trans (push_provider_only _ _ _ _ _ _), fun h₀ => ?_⟩
      rw [push_provider_self, insert_pending_self, h₀]
      exact .generated_bytes hm hp b hg
  · have hp' : materialize.values = false := Bool.eq_false_iff.mpr hp
    simp only [if_neg hp] at h
    by_cases hk : (planned.secret.declared_required && answers.generated_value_is_stored planned)
    · rw [if_pos hk] at h
      cases h
      refine ⟨miss_required_only _ _, fun h₀ => ?_⟩
      rw [miss_required_self, h₀]
      exact .ungenerated hm hp' hk
    · rw [if_neg hk] at h
      cases h
      refine ⟨push_provider_only _ _ _ _ _ _, fun h₀ => ?_⟩
      rw [push_provider_self, h₀]
      exact .generatable hm hp' (Bool.eq_false_iff.mpr hk)

theorem apply_default_ok (hm : planned.secret.missing = .UseDefault) : MissedAt answers materialize filter planned st st' := by
  unfold apply_missing at h
  rw [hm] at h
  obtain ⟨default, hc⟩ := Option.isSome_iff_exists.mp (planned.secret.defaulted hm)
  simp only [hc] at h
  by_cases hp : materialize.values
  · rw [if_pos hp] at h
    obtain ⟨i, hi, h⟩ := Except.bind_ok h
    cases h
    obtain ⟨value, hd, rfl⟩ := insert_resolved_ok hi
    refine ⟨((insert_value_only _ _ _).trans (push_default_only (planned.name, default) rfl _)).trans
      (push_provider_only _ _ _ _ _ _), fun h₀ => ?_⟩
    rw [push_provider_self, push_default_self, insert_value_self, h₀]
    exact .defaulted hm hp default hc value hd
  · rw [if_neg hp] at h
    cases h
    refine ⟨push_provider_only _ _ _ _ _ _, fun h₀ => ?_⟩
    rw [push_provider_self, h₀]
    exact .has_default hm (Bool.eq_false_iff.mpr hp)

theorem apply_missing_ok : MissedAt answers materialize filter planned st st' := by
  cases hm : planned.secret.missing with
  | Prompt => exact apply_prompt_ok h hm
  | Generate => exact apply_generate_ok h hm
  | UseDefault => exact apply_default_ok h hm
  | Error =>
    unfold apply_missing at h
    rw [hm] at h
    cases h
    refine ⟨miss_required_only _ _, fun h₀ => ?_⟩
    rw [miss_required_self, h₀]
    exact .required hm
  | Omit =>
    unfold apply_missing at h
    rw [hm] at h
    cases h
    refine ⟨miss_optional_only _ _, fun h₀ => ?_⟩
    rw [miss_optional_self, h₀]
    exact .optional hm

end Execution

/-! ## The whole pass -/

section

variable {Identity : Type} (answers : Answers Identity) (plan : ResolutionPlan) (materialize : Materialize)
  (filter : OutputFilter)

/-- The refresh time of a cached entry that serves a secret. -/
def served_refresh (planned : PlannedSecret) : Option UInt64 := (answers.cached planned).bind fun served => served.2.2

/-- What the pass leaves of a routed secret. -/
inductive Provided (planned : PlannedSecret) (route : Route) : Record Identity → Prop
  | served (found : Found) (read : source_result answers plan planned route = .value found.value)
    (refresh : found.refresh = served_refresh answers planned) {r : Record Identity}
    (record : Served answers materialize planned found r) : Provided planned route r
  | missed (read : source_result answers plan planned route = .absent) {r : Record Identity}
    (record : Missed answers materialize filter planned r) : Provided planned route r

variable {answers plan materialize filter}
variable {planned : PlannedSecret} {route : Route}

theorem read_source_refresh {f : List GroupFetch} {found : Found}
    (h : read_source answers f planned route = .ok (some found)) :
    found.refresh = served_refresh answers planned := by
  unfold read_source at h
  unfold served_refresh
  cases hc : answers.cached planned with
  | some s =>
    rw [hc] at h
    cases h
    rfl
  | none =>
    rw [hc] at h
    simp only at h
    split at h
    · cases h
      rfl
    · split at h
      · split at h <;> cases h
      · obtain ⟨r, -, h⟩ := Except.bind_ok h
        unfold after_fallbacks at h
        split at h
        · cases h
          rfl
        · split at h <;> cases h

variable {st : Execution Identity}

theorem resolve_provider_backed_ok {f : List GroupFetch} {st' : Execution Identity}
    (h : st.resolve_provider_backed answers materialize filter f planned = .ok st') :
    (planned.route = none ∧ st' = st) ∨
    ∃ route, planned.route = some route ∧
      ((∃ found, read_source answers f planned route = .ok (some found) ∧
        st.record_found answers materialize planned found = .ok st') ∨
      (read_source answers f planned route = .ok none ∧
        st.apply_missing answers materialize filter planned = .ok st')) := by
  unfold Execution.resolve_provider_backed at h
  cases hr : planned.route with
  | none =>
    rw [hr] at h
    cases h
    exact .inl ⟨rfl, rfl⟩
  | some route =>
    rw [hr] at h
    obtain ⟨found, hd, h⟩ := Except.bind_ok h
    cases found with
    | some found => exact .inr ⟨route, rfl, .inl ⟨found, hd, h⟩⟩
    | none => exact .inr ⟨route, rfl, .inr ⟨hd, h⟩⟩

/-- Resolving a secret touches its own record only. -/
theorem provider_local (f : List GroupFetch) :
    Local (Execution.resolve_provider_backed answers materialize filter f) PlannedSecret.name Execution.record := by
  intro st planned st' h
  rcases resolve_provider_backed_ok h with ⟨-, rfl⟩ | ⟨route, -, ⟨found, -, h⟩ | ⟨-, h⟩⟩
  · exact Execution.OnlyAt.refl _ _
  · exact (Execution.record_found_ok h).1
  · exact (Execution.apply_missing_ok h).1

section

variable (h : provider_pass answers plan materialize filter = .ok st)

include h

theorem provider_pass_ok : ∃ f, fetch_primary_values answers plan = .ok f ∧
      plan.secrets.foldlM (Execution.resolve_provider_backed answers materialize filter f) .init = .ok st :=
  Except.bind_ok h

/-- A name that was not planned is never recorded. -/
theorem unplanned_record {n : Text} (hn : n ∉ plan.names) : st.record n = .empty := by
  obtain ⟨f, -, h⟩ := provider_pass_ok h
  rw [(provider_local f).frame h hn, Execution.record_init]

theorem underived_record (hp : planned ∈ plan.secrets) (hr : planned.route = none) : st.record planned.name = .empty := by
  obtain ⟨f, -, h⟩ := provider_pass_ok h
  obtain ⟨before, a, hs⟩ := (provider_local f).stage_of_mem hp plan.nodup h
  rcases resolve_provider_backed_ok hs.run with ⟨-, hm⟩ | ⟨route, ht, -⟩
  · rw [← hs.left, hm, hs.found, Execution.record_init]
  · rw [hr] at ht
    cases ht

/-- A routed secret's record is its source's value, or its policy's answer to an absence. -/
theorem provided_record (hp : planned ∈ plan.secrets) (hr : planned.route = some route) :
    Provided answers plan materialize filter planned route (st.record planned.name) := by
  obtain ⟨f, hf, h⟩ := provider_pass_ok h
  obtain ⟨before, a, ht⟩ := (provider_local f).stage_of_mem hp plan.nodup h
  have he : before.record planned.name = .empty := ht.found
  have hd := read_source_eq answers hf hp hr
  rw [← ht.left]
  rcases resolve_provider_backed_ok ht.run with ⟨hn, -⟩ | ⟨r', hrt, hc⟩
  · rw [hr] at hn
    cases hn
  · rw [hr] at hrt
    cases hrt
    rcases hc with ⟨found, hfn, hrn⟩ | ⟨ha, hrn⟩
    · rw [hfn] at hd
      refine .served found ?_ (read_source_refresh hfn) ((Execution.record_found_ok hrn).2 he)
      cases hs : source_result answers plan planned route with
      | value s =>
        rw [hs] at hd
        cases hd
        rfl
      | failed e | absent => rw [hs] at hd; cases hd
    · rw [ha] at hd
      refine .missed ?_ ((Execution.apply_missing_ok hrn).2 he)
      cases hs : source_result answers plan planned route with
      | value s | failed e => rw [hs] at hd; cases hd
      | absent => rfl

end

/-- A secret whose sources failed ends the pass. -/
theorem provider_pass_failed (hp : planned ∈ plan.secrets) (hr : planned.route = some route) {error : MonosecretError}
    (hf : source_result answers plan planned route = .failed error) (st : Execution Identity) :
    provider_pass answers plan materialize filter ≠ .ok st := by
  intro h
  cases provided_record h hp hr with
  | served found read | missed read =>
    rw [hf] at read
    cases read

end

end Monosecret.Resolve
