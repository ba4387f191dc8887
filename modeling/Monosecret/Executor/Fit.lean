/-
  Monosecret.Executor.Fit — what a plan of an accepted profile may rely on, secret by secret.

  `Fit` is read off the declaration alone: the policy has what it uses, a routed secret is
  not derived, a binary value has an encoding, and bytes are generated exactly for a stored
  registry type. A conversion starts from a secret of such a type that is in the plan
  (`converted_source`).
-/

import Monosecret.Executor.Run

namespace Monosecret.Executor

open Lib Manifest

/-- What the pass relies on of one secret. -/
structure Fit (planned : PlannedSecret) : Prop where
  derived : planned.is_derived = true → planned.secret.missing = .Error ∨ planned.secret.missing = .Omit
  routed : planned.route.isSome = !planned.is_derived
  generator : planned.secret.missing = .Generate → (planned.config.generate.filter GenerateConfig.is_enabled).isSome = true
  default : planned.secret.missing = .UseDefault → planned.config.default.isSome = true
  typed_policy : planned.is_typed_stored = true → planned.secret.missing ≠ .Prompt ∧ planned.secret.missing ≠ .UseDefault
  typed_encoding : planned.is_typed_stored = true → planned.encoding.isSome = true
  typed_identity : planned.is_derived = false →
    (planned.is_typed_stored = true ↔ planned.config.secret_type = some X509_IDENTITY)
  projected : planned.is_composed = false → planned.source.isSome = true → planned.extract = none →
    ∃ contract projection, planned.config.typed_contract = some contract ∧ contract.projection = some projection ∧
      (projection.is_binary (planned.config.typed_format.getD .Pem) = true → planned.encoding.isSome = true)

variable {rules : Rules} {pr : CompiledProfile}
variable {planned : PlannedSecret}

/-- A registry type that a provider stores. -/
theorem typed_stored_iff :
    planned.is_typed_stored ↔ planned.config.source = none ∧
      ∃ c, planned.config.typed_contract = some c ∧ c.is_stored := by
  unfold PlannedSecret.is_typed_stored PlannedSecret.source
  rw [Bool.and_eq_true, Option.isNone_iff_eq_none, Option.any_eq_true]

theorem identity_contract : contract X509_IDENTITY = some ⟨X509_IDENTITY, [], [], ["password"], none, true⟩ := by decide

variable {plan : ResolutionPlan}

/-- A secret of the plan of an accepted profile is fit. -/
theorem fit (h : AcceptedProfile rules pr) (hp : Planned pr plan) (hm : planned ∈ plan.secrets) :
    Fit planned := by
  have hg := hp.declared planned hm
  obtain ⟨cn, hn⟩ := h.compiled planned.name planned.secret hg
  have hsm := h.semantics planned.name planned.secret hg
  have hms := CompiledSecret.new_missing planned.config cn
  rw [← hn] at hms
  have hy : ∀ contract, planned.config.source = none → planned.config.typed_contract = some contract →
      planned.config.default = none ∧ planned.config.prompts = false := fun contract hs hc =>
    (hsm.of_stored hs hc).2
  constructor
  · intro hd
    refine h.derived_missing hg ?_
    simpa [PlannedSecret.is_derived, PlannedSecret.is_composed, PlannedSecret.source] using hd
  · exact hp.routed planned hm
  · intro hgn
    rw [hgn] at hms
    unfold Secret.would_generate at hms
    cases hge : planned.config.generate with
    | none => simp [hge] at hms
    | some cf => simpa [hge, Option.filter] using hms
  · intro hf
    rw [hf] at hms
    exact hms
  · intro ht
    obtain ⟨hs, contract, hc, -⟩ := typed_stored_iff.mp ht
    obtain ⟨hf, hr⟩ := hy contract hs hc
    constructor
    · intro hl
      rw [hl] at hms
      simp [hr] at hms
    · intro hl
      rw [hl] at hms
      simp [hf] at hms
  · intro ht
    obtain ⟨-, contract, hc, hst⟩ := typed_stored_iff.mp ht
    exact Secret.stored_encoding hc hst
  · intro hd
    have hs : planned.config.source = none := by
      simp only [PlannedSecret.is_derived, PlannedSecret.source, Bool.or_eq_false_iff] at hd
      simpa using hd.2
    rw [typed_stored_iff]
    constructor
    · rintro ⟨-, contract, hc, hst⟩
      obtain ⟨hmm, hnm⟩ := Secret.typed_contract_some hc
      rw [hnm, (stored_contract contract hmm hst).1]
    · intro hnm
      refine ⟨hs, ⟨X509_IDENTITY, [], [], ["password"], none, true⟩, ?_, rfl⟩
      show planned.config.secret_type.bind contract = _
      rw [hnm, Option.bind_some]
      exact identity_contract
  · intro _ hsr hx
    obtain ⟨s, hs⟩ := Option.isSome_iff_exists.mp hsr
    obtain ⟨contract, p, hc, hj⟩ := hsm.converts hs hx
    exact ⟨contract, p, hc, hj, fun hb => Secret.projected_encoding hc hj hb⟩

/-- The source of a conversion is planned and of a stored type. -/
theorem converted_source (h : AcceptedProfile rules pr) (hp : Planned pr plan) (hm : planned ∈ plan.secrets)
    {s : String} (hs : planned.source = some s) (hx : planned.extract = none) :
    ∃ other ∈ plan.secrets, other.name = s ∧ other.is_typed_stored := by
  have hg := hp.declared planned hm
  obtain ⟨c, p, hc, -⟩ := (h.semantics planned.name planned.secret hg).converts hs hx
  obtain ⟨declared, hd, hr, st, ht, hi⟩ := h.converts_stored hg hs hc
  obtain ⟨other, ho, hn⟩ := hp.closed planned hm s (PlannedSecret.mem_dependencies hs)
  refine ⟨other, ho, hn, typed_stored_iff.mpr ?_⟩
  have hgt := hp.declared other ho
  rw [hn, hd] at hgt
  have hsm : other.secret = declared := (Option.some.inj hgt).symm
  unfold PlannedSecret.config
  rw [hsm]
  exact ⟨hr, st, ht, hi⟩

/-- A rank decreases along the dependencies of a plan. -/
theorem planned_rank (h : AcceptedProfile rules pr) (hp : Planned pr plan) :
    ∃ r : String → Nat, ∀ planned ∈ plan.secrets, ∀ d ∈ planned.dependencies, r d < r planned.name := by
  obtain ⟨r, hr⟩ := h.acyclic
  exact ⟨r, fun planned hm d hd => hr planned.name planned.secret (hp.declared planned hm) d hd⟩

end Monosecret.Executor
