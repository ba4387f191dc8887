/-
  Monosecret.Manifest.Selection — the profile a manager reads (`Secrets::set_profile`,
  `resolve_profile_name` and `resolve_secret_config` in `monosecret/src/secrets.rs`).

  A profile set on the manager is trimmed, and ignored when blank; so is one taken from the
  environment, where the second variable is read only when the first is not set. The global
  default is taken as it is written.
-/

import Monosecret.Lib.Texts
import Monosecret.Manifest.Accepted

namespace Monosecret.Manifest

open Lib

/-- `str::trim`. -/
def trimmed (text : String) : String := .ofList (Texts.trim is_whitespace text.toList)

def non_blank (value : String) : Option String :=
  let trimmed := trimmed value
  if trimmed = "" then none else some trimmed

/-- What the process finds around it; a variable is none when it is unset or not Unicode. -/
structure Ambient where
  MONOSECRET_PROFILE : Option String
  SECRETSPEC_PROFILE : Option String
  global_profile : Option String

/-- A specification that was accepted. -/
structure Loaded (rules : Rules) where
  spec : CompiledSpec
  accepted : ∃ config : Config, config.validate_and_compile rules = .ok spec

structure Secrets (rules : Rules) where
  manifest : Loaded rules
  profile : Option String
  ignore_ambient_profile : Bool
  ambient : Ambient

namespace Secrets

variable {rules : Rules} (secrets : Secrets rules)

def set_profile (profile : String) : Secrets rules :=
  match non_blank profile with
  | some profile => { secrets with profile := some profile }
  | none => secrets

def ambient_profile : Option String :=
  if secrets.ignore_ambient_profile then none
  else (secrets.ambient.MONOSECRET_PROFILE <|> secrets.ambient.SECRETSPEC_PROFILE).bind non_blank

def resolve_profile_name (profile : Option String) : String :=
  (profile <|> secrets.profile <|> secrets.ambient_profile <|> secrets.ambient.global_profile).getD "default"

def resolve_secret_config (name : String) (profile : Option String) : Option Secret := do
  let profile ← secrets.manifest.spec.profile (secrets.resolve_profile_name profile)
  let secret ← profile.get name
  return secret.config

/-- A declared name is an identifier. -/
theorem declared_identifier {name : String} {p : Option String}
    (h : (secrets.resolve_secret_config name p).isSome) : is_valid_identifier rules name := by
  obtain ⟨c, hc⟩ := Option.isSome_iff_exists.mp h
  obtain ⟨cm, hm, hs⟩ := Option.bind_eq_some_iff.mp hc
  obtain ⟨s, hg, -⟩ := Option.bind_eq_some_iff.mp hs
  obtain ⟨c, ha⟩ := secrets.manifest.accepted
  exact accepted_names ha hm (List.mem_map_of_mem (CompiledProfile.get_mem hg))

end Secrets

/-- An identifier is not blank, as no letter is a space. -/
theorem identifier_not_blank {rules : Rules} (hl : ∀ c, rules.is_alphabetic c → is_whitespace c = false)
    {n : String} (h : is_valid_identifier rules n) : is_blank n = false := by
  unfold is_valid_identifier at h
  cases hn : n.toList with
  | nil => simp [hn] at h
  | cons first r =>
    simp only [hn, Bool.and_eq_true, Bool.or_eq_true, beq_iff_eq] at h
    have hf : is_whitespace first = false := by
      rcases h.1 with hr | rfl
      · exact hl first hr
      · decide
    rw [is_blank, hn, List.all_cons, hf, Bool.false_and]

end Monosecret.Manifest
