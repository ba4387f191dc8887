/-
  Monosecret.Providers.Isolation — deployment variables of two configurations, together.

  An import that deletes its source, and a clean-up, rely on `same_entries`: where an
  operation on one entry can change what another reads, the two should be reported as one.
  The four stores of this kind are so exactly where the configurations that touch each other
  are written alike (`isolated_iff_written_alike`).

  Otherwise a deletion goes unnoticed: of the variable two Netlify contexts have values of, of
  the entry that serves two Vercel targets, of a Railway environment's variable named by its ID
  and by its name, and of a Setec secret that two prefixes come to (`unnoticed_deletions`).
-/

import Monosecret.Providers.Netlify
import Monosecret.Providers.Railway
import Monosecret.Providers.Setec
import Monosecret.Providers.Vercel

namespace Monosecret.Providers

open Lib Manifest Cache

/-- Two configurations of a scheme, an address of each, and what the service has. -/
inductive Pair where
  | netlify (first second : Netlify.NetlifyConfig) (a b : Address) (remote : Netlify.Remote)
  | vercel (VERCEL_ORG_ID : Option String) (first second : Vercel.VercelConfig) (a b : Address) (remote : Vercel.Remote)
  | railway (first second : Railway.RailwayConfig) (a b : Address) (remote : Railway.Remote)
  | setec (first second : Setec.SetecConfig) (a b : Address) (remote : Setec.Remote)

namespace Pair

def Isolated (files : Files String) : Pair → Prop
  | netlify first second a b remote => Providers.Isolated files first.store a second.store b remote
  | vercel VERCEL_ORG_ID first second a b remote =>
    Providers.Isolated files (first.store VERCEL_ORG_ID) a (second.store VERCEL_ORG_ID) b remote
  | railway first second a b remote => Providers.Isolated files first.store a second.store b remote
  | setec first second a b remote => Providers.Isolated files first.store a second.store b remote

/-- Where the first touches what the second reads, the two are written alike. -/
def WrittenAlike : Pair → Prop
  | netlify first second a b remote =>
    ∀ key, first.secret_name a = .ok key → second.secret_name b = .ok key →
      first.var_path remote.names key = second.var_path remote.names key →
        first.Touches second (second.get_var key remote) →
          first.account_id = second.account_id ∧ first.site_id.getD "account" = second.site_id.getD "account" ∧
            first.context = second.context
  | vercel VERCEL_ORG_ID first second a b remote =>
    ∀ key, first.secret_name VERCEL_ORG_ID a = .ok key → second.secret_name VERCEL_ORG_ID b = .ok key →
      first.envs_path VERCEL_ORG_ID remote.names = second.envs_path VERCEL_ORG_ID remote.names →
        first.Touches second key (remote.held (second.envs_path VERCEL_ORG_ID remote.names)) →
          (first.team_id_or_env VERCEL_ORG_ID).getD "personal" = (second.team_id_or_env VERCEL_ORG_ID).getD "personal" ∧
            first.project = second.project ∧ first.target = second.target
  | railway first second a b remote =>
    ∀ key, first.secret_name a = .ok key → second.secret_name b = .ok key → first.project_id = second.project_id →
      ∀ scope, first.resolve_scope remote.names = .ok scope → second.resolve_scope remote.names = .ok scope →
        first.environment_text ++ "/" ++ first.service_text = second.environment_text ++ "/" ++ second.service_text
  | setec first second a b remote =>
    ∀ left right version, first.check_writable a = .ok left → second.resolved b = .ok (right, version) →
      left.item = right.item → remote.names first.server_url = remote.names second.server_url →
        Setec.SetecConfig.Touches version (remote.held (second.place remote.names right.item)) →
          first.uri = second.uri ∧ right.version = none

theorem isolated_iff_written_alike (files : Files String) (pair : Pair) : pair.Isolated files ↔ pair.WrittenAlike := by
  cases pair with
  | netlify first s a b r => exact Netlify.NetlifyConfig.isolated_iff files
  | vercel VERCEL_ORG_ID first s a b r => exact Vercel.VercelConfig.isolated_iff files
  | railway first s a b r => exact Railway.RailwayConfig.isolated_iff files
  | setec first s a b r => exact Setec.SetecConfig.isolated_iff files

/-! ## Deletions that go unnoticed -/

def token : Address := .Convention "app" "default" "TOKEN"

def netlify_context (context : String) (known : context ∈ Netlify.KNOWN_CONTEXTS) : Netlify.NetlifyConfig :=
  ⟨"acme", none, context, false, by decide, by simp, known⟩

/-- One variable, with a value for production and one for development. -/
def two_contexts : Netlify.Remote :=
  ⟨fun account _ => account, fun _ => some ⟨[⟨"production", some "live"⟩, ⟨"dev", some "local"⟩], false⟩⟩

def vercel_target (target : String) (known : target ∈ Vercel.KNOWN_TARGETS) : Vercel.VercelConfig :=
  ⟨"shop", none, target, "encrypted", by decide, by simp, known, by decide⟩

/-- One entry, for production and for previews. -/
def two_targets : Vercel.Remote :=
  ⟨fun _ project => project, fun _ => ⟨[⟨1, "TOKEN", some "live", ["production", "preview"], some "encrypted"⟩], by decide⟩⟩

def railway_environment (environment : Railway.EnvironmentRef) (valid : environment.validate = .ok ()) :
    Railway.RailwayConfig :=
  ⟨"5dfc2e4b", environment, none, by decide, valid, by simp⟩

def one_environment : Railway.Remote :=
  ⟨fun _ => some ⟨[⟨"e1", "production"⟩], []⟩, fun _ => some (some "live")⟩

def setec_root (root : Option String)
    (valid : ∀ path ∈ root, ∀ part ∈ path.toList.splitOn '/', part ≠ [] ∧ part ≠ ['.'] ∧ part ≠ ['.', '.']) :
    Setec.SetecConfig :=
  ⟨"secrets.example.ts.net", none, root, true, by decide, valid⟩

def one_secret : Setec.Remote := ⟨id, fun _ => some ⟨1, [(1, utf8 "live")]⟩⟩

/-- The name that `token` has under the prefix. -/
def named : Address := .Native ⟨"team/monosecret/app/default/TOKEN", none, none, none, none⟩

def contexts : Pair :=
  netlify (netlify_context "production" (by decide)) (netlify_context "dev" (by decide)) token token two_contexts

def targets : Pair :=
  vercel none (vercel_target "preview" (by decide)) (vercel_target "production" (by decide)) token token two_targets

def environments : Pair :=
  railway (railway_environment (.Id "e1") (by decide)) (railway_environment (.Name "production") (by decide)) token token
    one_environment

def roots : Pair := setec (setec_root (some "team") (by decide)) (setec_root none (by simp)) token named one_secret

/-- None of the stores is a file. -/
def no_files : Files String := ⟨fun _ _ => none, id⟩

theorem unnoticed_deletions : ¬contexts.Isolated no_files ∧ ¬targets.Isolated no_files ∧
    ¬environments.Isolated no_files ∧ ¬roots.Isolated no_files := by
  refine ⟨fun h => ?_, fun h => ?_, fun h => ?_, fun h => ?_⟩
  · have ha := (Netlify.NetlifyConfig.isolated_iff no_files).mp h "TOKEN" (by rfl) (by rfl) rfl (.inr (.inl (by rfl)))
    exact absurd ha.2.2 (by decide)
  · have ha := (Vercel.VercelConfig.isolated_iff no_files).mp h "TOKEN" (by rfl) (by rfl) rfl (.inr (by decide))
    exact absurd ha.2.2 (by decide)
  · have ha := (Railway.RailwayConfig.isolated_iff no_files).mp h "TOKEN" (by rfl) (by rfl) rfl ("e1", none)
      (by rfl) (by rfl)
    exact absurd ha (by decide)
  · have ha := (Setec.SetecConfig.isolated_iff no_files).mp h _ _ 0 (by rfl) (by rfl) (by rfl) rfl (.inl rfl)
    exact absurd ha.1 (by decide)

end Pair

end Monosecret.Providers
