/-
  Monosecret.Integration.GitHelper — the Git credential helper that `monosecret git
  configure` records (`configure` and `helper_command` in `monosecret/src/cli/git.rs`,
  `shell_quote` in `cli/mod.rs`, `Args` in `integration/git.rs`).

  The helper is one line for a shell: its options, each value in single quotes. Git runs it
  with an operation behind it, and the helper reads its arguments. The shell gives every
  value back as it was. The argument parser does not: a value that starts with `-` is an
  option to it, and the word before lacks its value. `configure` takes such a value in
  `--name=value` and records it as a word of its own, so the helper replays exactly when no
  recorded value is one (`helper_replays_iff`). The secrets, the URL and the manifest never
  are; a username, a provider, a reason and a profile can be.

  The files and the settings of Git that `configure` then writes are left out.
-/

import Monosecret.Integration.GitTarget
import Monosecret.Integration.State
import Monosecret.Lib.CommandLine
import Monosecret.Lib.Sha256
import Monosecret.Lib.ShellWords

namespace Monosecret.Integration.Git

open Lib Manifest
open Lib.Except (bind_ok bind_unit_ok rest_ok)

/-! ## The command -/

structure HelperCommand where
  target : String
  manifest : Option String
  profile : Option String
  provider : Option String
  reason : Option String
  token_secret : String
  username_secret : Option String
  username : Option String
  deriving DecidableEq

def shell_quote (value : String) : String := String.ofList (ShellWords.quoted value.toList)

def push_option (name : String) (value : Option String) (command : String) : String :=
  match value with
  | some value => command ++ " --" ++ name ++ " " ++ shell_quote value
  | none => command

def helper_command (spec : HelperCommand) : String :=
  let command := "monosecret --url " ++ shell_quote spec.target ++ " --password-secret " ++ shell_quote spec.token_secret
  let command := push_option "file" spec.manifest command
  let command := push_option "profile" spec.profile command
  let command := push_option "username-secret" spec.username_secret command
  let command := push_option "username" spec.username command
  let command := push_option "provider" spec.provider command
  push_option "reason" spec.reason command

/-! ## `configure` -/

/-- What the process finds. -/
structure World (rules : Rules) where
  current_dir : Except String AbsolutePath
  load_from : AbsolutePath → Except String (Loaded rules)
  load_embedded : Except String Unit
  ambient : Ambient

/-- The file is one that was typed; a file of the environment is not read. -/
structure ConfigureOptions where
  url : Url
  token_secret : Option String
  username : Option String
  username_secret : Option String
  profile : Option String
  provider : Option String
  file : Option String
  reason : Option String
  typed : TypedArgs

structure ManagedCredential where
  version : Nat
  url : String
  helper : String
  username : Option String
  deriving DecidableEq

def FORMAT_VERSION : Nat := 1
def EMBEDDED_PASSWORD : String := "PASSWORD"
def EMBEDDED_USERNAME : String := "USERNAME"

def validate_literal_username (username : Option String) : Except String Unit :=
  match username with
  | some username =>
    if username = "" then .error "Git username cannot be empty"
    else if username.toList.any fun c => c == '\n' || c == '\r' || c == '\x00' then
      .error "Git username cannot contain a newline or NUL byte"
    else .ok ()
  | none => .ok ()

def context_username (target : Url) (username : Option String) : Except String (Option String) :=
  if target.scheme ≠ "smtp" then .ok none
  else
    match username with
    | none => .error "SMTP credentials require a username"
    | some username =>
      if username = "" ∨ username.toList.any fun c => c == '\n' || c == '\r' || c == '\x00' then
        .error "SMTP username cannot be empty or contain a newline or NUL byte"
      else .ok (some username)

def embedded_identity (target : Url) (username : Option String) : Except String String := do
  let username ← context_username target username
  return Sha256.hex (canonical_target target ++ (username.map ("\x00" ++ ·)).getD "")

/-- The names of the secrets of the embedded store. -/
def load_embedded_git_credentials {rules : Rules} (world : World rules) (target : Url) (username : Option String) :
    Except String (String × String) := do
  validate_target target
  let identity ← embedded_identity target username
  world.load_embedded
  return (EMBEDDED_PASSWORD ++ "_" ++ identity, EMBEDDED_USERNAME ++ "_" ++ identity)

section

variable {rules : Rules} (world : World rules) (options : ConfigureOptions)

def load_secrets (file : String) : Except String (AbsolutePath × Secrets rules) := do
  let manifest ← manifest_path world.current_dir file
  let loaded ← world.load_from manifest
  let secrets : Secrets rules := ⟨loaded, none, false, world.ambient⟩
  return (manifest, options.profile.elim secrets secrets.set_profile)

/-- The manifest and its profile, and the secrets to ask for. -/
def credential_source : Except String (Option (AbsolutePath × String) × String × Option String) :=
  match options.file with
  | some file => do
    let token_secret ← options.token_secret.elim
      (.error "--token-secret is required when --file selects a custom manifest") Except.ok
    let (manifest, secrets) ← load_secrets world options file
    let profile := secrets.resolve_profile_name none
    validate_secret "Git" secrets token_secret profile
    options.username_secret.elim (.ok ()) fun secret => validate_secret "Git" secrets secret profile
    return (some (manifest, profile), token_secret, options.username_secret)
  | none => do
    if options.token_secret.isSome ∨ options.username_secret.isSome ∨ options.typed.profile then
      throw "--token-secret, --username-secret, and --profile require --file; the embedded Git credential store uses PASSWORD, optional USERNAME, and the default profile"
    let (password_secret, username_secret) ← load_embedded_git_credentials world options.url options.username
    return (none, password_secret, some username_secret)

/-- Only options that were typed are recorded. -/
def helper_spec : Except String HelperCommand := do
  validate_target options.url
  validate_literal_username options.username
  refuse (options.url.scheme == "smtp" && options.username.isNone)
    "SMTP credential configuration requires --username matching sendemail.smtpUser"
  let (manifest, token_secret, username_secret) ← credential_source world options
  return {
    target := canonical_target options.url
    manifest := manifest.map fun m => m.1.text
    profile := if options.typed.profile then manifest.map Prod.snd else none
    provider := if options.typed.provider then options.provider else none
    reason := if options.typed.reason then options.reason else none
    token_secret
    username_secret
    username := options.username }

def configure : Except String ManagedCredential := do
  let spec ← helper_spec world options
  return {
    version := FORMAT_VERSION
    url := spec.target
    helper := helper_command spec
    username := options.username }

end

/-! ## The helper's arguments -/

structure Environment where
  MONOSECRET_PROFILE : Option String
  MONOSECRET_PROVIDER : Option String
  MONOSECRET_REASON : Option String

structure Args where
  url : Url
  username : Option String
  username_secret : Option String
  password_secret : String
  file : Option String
  profile : Option String
  provider : Option String
  reason : Option String
  operation : String
  deriving DecidableEq

def ARGS : List CommandLine.Opt :=
  [⟨"url", none⟩, ⟨"username", none⟩, ⟨"username-secret", none⟩, ⟨"password-secret", none⟩, ⟨"file", some 'f'⟩,
    ⟨"profile", some 'P'⟩, ⟨"provider", some 'p'⟩, ⟨"reason", none⟩]

def required (m : CommandLine.Matches) (name : String) : Except CommandLine.Error String :=
  (m.get name).elim (.error (.MissingRequiredArgument name)) Except.ok

section

variable (stdio : Bool) (parse_url : String → Option Url) (env : Environment)

/-- The arguments behind the name of the program. -/
def Args.parse (words : List String) : Except CommandLine.Error Args := do
  let m ← CommandLine.parse stdio ARGS {} words
  let url ← required m "url"
  let url ← (parse_url url).elim (.error (.InvalidValue "url")) Except.ok
  let password_secret ← required m "password-secret"
  if m.get "file" = some "" then throw (.InvalidValue "file")
  match m.positionals with
  | [] => .error (.MissingRequiredArgument "operation")
  | [operation] => .ok {
      url
      username := m.get "username"
      username_secret := m.get "username-secret"
      password_secret
      file := m.get "file"
      profile := (m.get "profile").or env.MONOSECRET_PROFILE
      provider := (m.get "provider").or env.MONOSECRET_PROVIDER
      reason := (m.get "reason").or env.MONOSECRET_REASON
      operation }
  | _ :: word :: _ => .error (.UnknownArgument word)

/-- The helper reads the values it was built from; for a selection that was not recorded, the
    environment's. -/
def Replays (operation : String) (spec : HelperCommand) (helper : String) : Prop :=
  ∃ words args, ShellWords.words helper = some ("monosecret" :: words) ∧
    Args.parse stdio parse_url env (words ++ [operation]) = .ok args ∧
    canonical_target args.url = spec.target ∧ args.file = spec.manifest ∧ args.profile = spec.profile.or env.MONOSECRET_PROFILE ∧
    args.provider = spec.provider.or env.MONOSECRET_PROVIDER ∧ args.reason = spec.reason.or env.MONOSECRET_REASON ∧
    args.password_secret = spec.token_secret ∧ args.username_secret = spec.username_secret ∧
    args.username = spec.username ∧ args.operation = operation

end

/-! ## The words of the line -/

def optional (name : String) (value : Option String) : List (String × String) := value.toList.map fun v => (name, v)

/-- The options in the order of the line. -/
def HelperCommand.options (spec : HelperCommand) : List (String × String) :=
  ("url", spec.target) :: ("password-secret", spec.token_secret) ::
    (optional "file" spec.manifest ++ (optional "profile" spec.profile ++ (optional "username-secret" spec.username_secret ++
      (optional "username" spec.username ++ (optional "provider" spec.provider ++ optional "reason" spec.reason)))))

theorem optional_forall {n : String} {value : Option String} {P : String → Prop} :
    (∀ p ∈ optional n value, P p.2) ↔ ∀ v, value = some v → P v := by
  cases value with
  | none | some v => simp [optional]

section

variable (value : Option String)

theorem optional_names (n : String) : ((optional n value).map Prod.fst).Sublist [n] := by
  cases value with
  | none => exact List.nil_sublist _
  | some v => exact List.Sublist.refl _

theorem lookup_optional (n : String) (r : List (String × String)) :
    (optional n value ++ r).lookup n = value.or (r.lookup n) := by
  cases value with
  | none => rfl
  | some v => exact List.lookup_cons_self

theorem lookup_other {name other : String} (h : name ≠ other) (r : List (String × String)) :
    (optional other value ++ r).lookup name = r.lookup name := by
  cases value with
  | none => rfl
  | some v =>
    show ((other, v) :: r).lookup name = _
    rw [List.lookup_cons, beq_false_of_ne h]

theorem lookup_last (n : String) : (optional n value).lookup n = value := by
  rw [← List.append_nil (optional n value), lookup_optional, List.lookup_nil, Option.or_none]

theorem lookup_last_other {n other : String} (h : n ≠ other) : (optional other value).lookup n = none := by
  rw [← List.append_nil (optional other value), lookup_other value h, List.lookup_nil]

end

namespace HelperCommand

variable (spec : HelperCommand)

theorem options_sublist : (spec.options.map Prod.fst).Sublist
    ["url", "password-secret", "file", "profile", "username-secret", "username", "provider", "reason"] := by
  simp only [options, List.map_cons, List.map_append]
  refine .cons_cons _ (.cons_cons _ ?_)
  exact (optional_names _ "file").append ((optional_names _ "profile").append ((optional_names _ "username-secret").append
    ((optional_names _ "username").append ((optional_names _ "provider").append (optional_names _ "reason")))))

theorem options_nodup : (spec.options.map Prod.fst).Nodup := spec.options_sublist.nodup (by decide)

theorem option_name {spec : HelperCommand} {p : String × String} (hp : p ∈ spec.options) :
    p.1 ∈ ["url", "password-secret", "file", "profile", "username-secret", "username", "provider", "reason"] :=
  spec.options_sublist.subset (List.mem_map_of_mem hp)

/-- A value of the line is the target, the password's secret, or one that may be left out. -/
theorem options_forall {P : String → Prop} : (∀ p ∈ spec.options, P p.2) ↔
    P spec.target ∧ P spec.token_secret ∧ (∀ v, spec.manifest = some v → P v) ∧ (∀ v, spec.profile = some v → P v) ∧
      (∀ v, spec.username_secret = some v → P v) ∧ (∀ v, spec.username = some v → P v) ∧
      (∀ v, spec.provider = some v → P v) ∧ ∀ v, spec.reason = some v → P v := by
  simp only [options, List.forall_mem_cons, List.forall_mem_append, optional_forall]

end HelperCommand

/-- The text of options, each behind a blank. -/
def written (pairs : List (String × String)) : List Char :=
  pairs.flatMap fun p => ' ' :: ("--" ++ p.1).toList ++ ' ' :: ShellWords.quoted p.2.toList

theorem push_option_written (n : String) (value : Option String) (c : String) :
    (push_option n value c).toList = c.toList ++ written (optional n value) := by
  cases value with
  | none => simp [push_option, optional, written]
  | some v => simp [push_option, optional, written, shell_quote]

theorem helper_command_written (spec : HelperCommand) :
    (helper_command spec).toList = "monosecret".toList ++ written spec.options := by
  simp only [helper_command, push_option_written]
  simp [HelperCommand.options, written, shell_quote]

/-- The shell reads the program and its options. -/
theorem helper_words (spec : HelperCommand) :
    ShellWords.words (helper_command spec) = some ("monosecret" :: CommandLine.spelled spec.options) := by
  have hl : ∀ name ∈ ["url", "password-secret", "file", "profile", "username-secret", "username", "provider", "reason"],
      ("--" ++ name).toList ≠ [] ∧ ("--" ++ name).toList.all ShellWords.plain = true := by decide +kernel
  have hr : ∀ c ∈ "monosecret".toList, ShellWords.plain c := List.all_eq_true.mp (by decide +kernel)
  have hs := @ShellWords.split_pairs "monosecret".toList
    (spec.options.map fun p => (("--" ++ p.1).toList, p.2.toList)) fun q hq => by
      obtain ⟨p, hp, rfl⟩ := List.mem_map.mp hq
      exact (hl p.1 (HelperCommand.option_name hp)).imp_right List.all_eq_true.mp
  have hd : (spec.options.map fun p => (("--" ++ p.1).toList, p.2.toList)).flatMap (fun q => [q.1, q.2]) =
      (CommandLine.spelled spec.options).map String.toList := by
    simp only [CommandLine.spelled, List.map_flatMap, List.flatMap_map, List.map_cons, List.map_nil]
  rw [List.flatMap_map, hd] at hs
  rw [ShellWords.words, helper_command_written, ShellWords.split_word (by decide) hr, written, hs]
  simp [Function.comp_def]

/-! ## The arguments -/

section

open CommandLine

variable {stdio : Bool} {parse_url : String → Option Url} {env : Environment} {spec : HelperCommand} {operation : String}

theorem option_token {p : String × String} (hp : p ∈ spec.options) :
    token stdio ARGS ("--" ++ p.1) = .option p.1 none := by
  have hn : ∀ stdio : Bool,
      ∀ name ∈ ["url", "password-secret", "file", "profile", "username-secret", "username", "provider", "reason"],
        token stdio ARGS ("--" ++ name) = .option name none := by decide +kernel
  exact hn stdio p.1 (HelperCommand.option_name hp)

theorem helper_parse (hv : ∀ p ∈ spec.options, is_option stdio p.2 = false) (ho : is_option stdio operation = false) :
    parse stdio ARGS {} (spelled spec.options ++ [operation]) = .ok ⟨spec.options, [operation]⟩ := by
  rw [parse_spelled (fun p hp => option_token hp) (by exact spec.options_nodup) hv, parse_last (token_positional ho)]
  rfl

theorem options_get (spec : HelperCommand) (p : List String) :
    let m : Matches := ⟨spec.options, p⟩
    m.get "url" = some spec.target ∧ m.get "password-secret" = some spec.token_secret ∧ m.get "file" = spec.manifest ∧
      m.get "profile" = spec.profile ∧ m.get "username-secret" = spec.username_secret ∧ m.get "username" = spec.username ∧
      m.get "provider" = spec.provider ∧ m.get "reason" = spec.reason := by
  simp [Matches.get, HelperCommand.options, List.lookup_cons, lookup_optional, lookup_other, lookup_last, lookup_last_other]

/-- No value is an option: the helper reads what it was built from. -/
theorem replays_of_values {url : Url} (hv : ∀ p ∈ spec.options, is_option stdio p.2 = false)
    (ho : is_option stdio operation = false) (hu : parse_url spec.target = some url) (ht : canonical_target url = spec.target)
    (hf : spec.manifest ≠ some "") : Replays stdio parse_url env operation spec (helper_command spec) := by
  obtain ⟨hr, hs, hm, hp, husername_secret, hus, hpr, hrs⟩ :=
    options_get spec [operation]
  have hps : Args.parse stdio parse_url env (spelled spec.options ++ [operation]) = .ok {
      url
      username := spec.username
      username_secret := spec.username_secret
      password_secret := spec.token_secret
      file := spec.manifest
      profile := spec.profile.or env.MONOSECRET_PROFILE
      provider := spec.provider.or env.MONOSECRET_PROVIDER
      reason := spec.reason.or env.MONOSECRET_REASON
      operation } := by
    unfold Args.parse
    rw [helper_parse hv ho]
    simp only [bind, Except.bind, required, hr, hs, hm, hp, husername_secret, hus, hpr, hrs,
      Option.elim_some, hu, if_neg hf]
  exact ⟨_, _, helper_words spec, hps, ht, rfl, rfl, rfl, rfl, rfl, rfl, rfl, rfl⟩

/-- A value that is an option: the helper fails. -/
theorem not_replays_of_value (hv : ∃ p ∈ spec.options, is_option stdio p.2) :
    ¬ Replays stdio parse_url env operation spec (helper_command spec) := by
  rintro ⟨w, a, hw, hr, -⟩
  obtain rfl : w = spelled spec.options :=
    (List.cons.inj (Option.some.inj (hw.symm.trans (helper_words spec)))).2
  obtain ⟨n, he⟩ := @parse_refused stdio ARGS {} spec.options [operation] (fun p hp => option_token hp)
    spec.options_nodup hv
  unfold Args.parse at hr
  rw [he] at hr
  cases hr

end

/-! ## What is recorded -/

section

open CommandLine

variable {rules : Rules} (stdio : Bool) (world : World rules) (options : ConfigureOptions)

/-- A value that `configure` records is read as an option. -/
def ConfigureOptions.hyphened : Bool :=
  options.username.any (is_option stdio) || options.typed.provider && options.provider.any (is_option stdio) ||
    options.typed.reason && options.reason.any (is_option stdio) ||
    options.typed.profile && options.file.any fun file =>
      (load_secrets world options file).toOption.any fun loaded => is_option stdio (loaded.2.resolve_profile_name none)

variable {stdio world options}

theorem identifier_not_option (hd : rules.is_alphabetic '-' = false) {n : String}
    (h : is_valid_identifier rules n) : is_option stdio n = false := by
  refine is_option_of_head fun hhd => ?_
  unfold is_valid_identifier at h
  cases hn : n.toList with
  | nil => simp [hn] at hhd
  | cons first r =>
    obtain rfl : first = '-' := by simpa [hn] using hhd
    simp [hn, hd] at h

theorem prefixed_not_option {t : String} {c : Char} {r : List Char} (h : t.toList = c :: r) (hc : c ≠ '-')
    (s : String) : is_option stdio (t ++ s) = false := by
  refine is_option_of_head fun hd => hc ?_
  rw [String.toList_append, h] at hd
  exact Option.some.inj hd

theorem target_not_option {u : Url} (h : validate_target u = .ok ()) : is_option stdio (canonical_target u) = false := by
  have hc : u.scheme = "http" ∨ u.scheme = "https" ∨ u.scheme = "smtp" := by
    by_contra hn
    rw [not_or, not_or] at hn
    rw [validate_target, if_pos hn] at h
    cases h
  unfold canonical_target
  rcases hc with hs | hs | hs <;> rw [hs] <;> dsimp only <;> split <;> split <;>
    simp only [String.append_assoc] <;> exact prefixed_not_option rfl (by decide) _

theorem absolute_not_option {p : String} (h : is_absolute p) : is_option stdio p = false := by
  refine is_option_of_head fun hd => ?_
  rw [is_absolute, hd] at h
  exact absurd h (by decide)

theorem embedded_names {t : Url} {us : Option String} {p u : String}
    (h : load_embedded_git_credentials world t us = .ok (p, u)) :
    ∃ identity, p = EMBEDDED_PASSWORD ++ "_" ++ identity ∧ u = EMBEDDED_USERNAME ++ "_" ++ identity := by
  replace h := rest_ok h
  obtain ⟨identity, -, h⟩ := bind_ok h
  replace h := rest_ok h
  obtain ⟨rfl, rfl⟩ := Prod.mk.inj (Except.ok.inj h)
  exact ⟨identity, rfl, rfl⟩

/-- The names of the secrets are no options, and with no manifest there is no profile. -/
theorem credential_source_cases (hd : rules.is_alphabetic '-' = false) {m : Option (AbsolutePath × String)}
    {t : String} {username_secret : Option String}
    (h : credential_source world options = .ok (m, t, username_secret)) :
    is_option stdio t = false ∧ (∀ v, username_secret = some v → is_option stdio v = false) ∧
      ((∃ file p s, options.file = some file ∧ load_secrets world options file = .ok (p, s) ∧
          m = some (p, s.resolve_profile_name none)) ∨
        options.file = none ∧ options.typed.profile = false ∧ m = none) := by
  unfold credential_source at h
  cases hf : options.file with
  | some file =>
    rw [hf] at h
    obtain ⟨tk, -, h⟩ := bind_ok h
    obtain ⟨⟨p, s⟩, hl, h⟩ := bind_ok h
    obtain ⟨ht, h⟩ := bind_unit_ok h
    obtain ⟨hu, h⟩ := bind_unit_ok h
    obtain ⟨rfl, rfl, rfl⟩ : some (p, s.resolve_profile_name none) = m ∧ tk = t ∧
        options.username_secret = username_secret := by simpa [pure, Except.pure] using h
    refine ⟨identifier_not_option hd (s.declared_identifier (validate_secret_ok ht).2), ?_,
      .inl ⟨file, p, s, rfl, hl, rfl⟩⟩
    intro sc hs
    rw [hs] at hu
    exact identifier_not_option hd (s.declared_identifier (validate_secret_ok hu).2)
  | none =>
    rw [hf] at h
    dsimp only at h
    split at h
    · cases h
    · rename_i hn
      rw [not_or, not_or] at hn
      obtain ⟨⟨ps, u⟩, he, h⟩ := bind_ok h
      obtain ⟨i, rfl, rfl⟩ := embedded_names he
      obtain ⟨rfl, rfl, rfl⟩ : none = m ∧ EMBEDDED_PASSWORD ++ "_" ++ i = t ∧
          some (EMBEDDED_USERNAME ++ "_" ++ i) = username_secret := by simpa [pure, Except.pure] using h
      refine ⟨prefixed_not_option (c := 'P') rfl (by decide) i, ?_, .inr ⟨rfl, Bool.eq_false_iff.mpr hn.2.2, rfl⟩⟩
      rintro _ ⟨⟩
      exact prefixed_not_option (c := 'U') rfl (by decide) i

/-- What was recorded, by what the options say. -/
structure Recorded (world : World rules) (options : ConfigureOptions) (spec : HelperCommand) : Prop where
  valid : validate_target options.url = .ok ()
  target : spec.target = canonical_target options.url
  source : ∃ manifest, credential_source world options = .ok (manifest, spec.token_secret, spec.username_secret) ∧
    spec.manifest = manifest.map (fun m => m.1.text) ∧
    spec.profile = if options.typed.profile then manifest.map Prod.snd else none
  provider : spec.provider = if options.typed.provider then options.provider else none
  reason : spec.reason = if options.typed.reason then options.reason else none
  username : spec.username = options.username

theorem helper_spec_recorded {spec : HelperCommand} (h : helper_spec world options = .ok spec) : Recorded world options spec := by
  obtain ⟨hv, h⟩ := bind_unit_ok h
  replace h := rest_ok h
  replace h := rest_ok h
  obtain ⟨⟨m, t, u⟩, hs, h⟩ := bind_ok h
  cases h
  exact ⟨hv, rfl, ⟨m, hs, rfl, rfl⟩, rfl, rfl, rfl⟩

/-- The values of the line are options when one of the four that are recorded as given is. -/
theorem Recorded.values_iff (hd : rules.is_alphabetic '-' = false) {spec : HelperCommand} (r : Recorded world options spec) :
    (∀ p ∈ spec.options, is_option stdio p.2 = false) ↔ options.hyphened stdio world = false := by
  obtain ⟨mn, hs, hm, hp⟩ := r.source
  obtain ⟨ht, husername_secret, hc⟩ : is_option stdio spec.token_secret = false ∧ _ ∧ _ :=
    credential_source_cases hd hs
  have hr : is_option stdio spec.target = false := r.target ▸ target_not_option r.valid
  have hpt : ∀ v, spec.manifest = some v → is_option stdio v = false := by
    intro v hv
    rw [hm] at hv
    obtain ⟨m, -, rfl⟩ := Option.map_eq_some_iff.mp hv
    exact absolute_not_option m.1.absolute
  have ha : ∀ value : Option String, (∀ v, value = some v → is_option stdio v = false) ↔ value.any (is_option stdio) = false := by
    intro value
    cases value <;> simp
  have hl : spec.profile.any (is_option stdio) = (options.typed.profile && options.file.any fun file =>
      (load_secrets world options file).toOption.any fun l => is_option stdio (l.2.resolve_profile_name none)) := by
    rw [hp]
    rcases hc with ⟨file, pt, s, hf, hld, rfl⟩ | ⟨hf, hy, rfl⟩
    · rw [hf, Option.any_some, hld]
      cases options.typed.profile <;> rfl
    · rw [hf, hy]
      rfl
  rw [HelperCommand.options_forall (P := fun v => is_option stdio v = false), ha spec.profile, ha spec.username,
    ha spec.provider, ha spec.reason, hl, r.provider, r.reason, r.username]
  unfold ConfigureOptions.hyphened
  simp only [Bool.or_eq_false_iff]
  cases options.typed.provider <;> cases options.typed.reason <;> simp <;> tauto

/-- The recorded helper reads what it was built from exactly when no value that is recorded as
    it was given is read as an option. -/
theorem helper_replays_iff (stdio : Bool) {parse_url : String → Option Url} (hread : Rereads parse_url)
    (hdash : rules.is_alphabetic '-' = false) (world : World rules) {options : ConfigureOptions} {text : String}
    (hurl : parse_url text = some options.url) {credential : ManagedCredential} (h : configure world options = .ok credential)
    (env : Environment) {operation : String} (ho : is_option stdio operation = false) :
    ∃ spec, helper_spec world options = .ok spec ∧
      (Replays stdio parse_url env operation spec credential.helper ↔ options.hyphened stdio world = false) := by
  obtain ⟨spec, hs, h⟩ := bind_ok h
  cases h
  have r := helper_spec_recorded hs
  refine ⟨spec, hs, ?_⟩
  rw [← r.values_iff hdash]
  constructor
  · intro hr
    by_contra hn
    refine not_replays_of_value ?_ hr
    simpa using hn
  · intro hv
    obtain ⟨p, hp, hpr⟩ := hread text options.url hurl r.valid
    have hf : spec.manifest ≠ some "" := by
      obtain ⟨mn, -, hmn, -⟩ := r.source
      intro he
      rw [hmn] at he
      obtain ⟨m, -, hm⟩ := Option.map_eq_some_iff.mp he
      have ha := m.1.absolute
      rw [hm] at ha
      exact absurd ha (by decide)
    exact replays_of_values hv ho (r.target ▸ hpr) ((canonical_reparsed hp).trans r.target.symm) hf

end

def host_url : Url where
  scheme := "https"
  username := ""
  password := none
  host_str := some "example.com"
  port := none
  path := "/"
  query := none
  fragment := none

def host_parse (text : String) : Option Url :=
  if text = "https://example.com" ∨ text = "https://example.com/" then some host_url else none

/-- An embedded credential for a user. -/
def for_user (username : String) : ConfigureOptions where
  url := host_url
  token_secret := none
  username := some username
  username_secret := none
  profile := none
  provider := none
  file := none
  reason := none
  typed := ⟨false, false, false⟩

def home : World ascii where
  current_dir := .ok ⟨"/home/dev", by decide⟩
  load_from _ := .error "Failed to load monosecret configuration"
  load_embedded := .ok ()
  ambient := ⟨none, none, none⟩

/-- What is recorded for a user of the embedded store. -/
def user_command (username : String) : HelperCommand where
  target := canonical_target host_url
  manifest := none
  profile := none
  provider := none
  reason := none
  token_secret := EMBEDDED_PASSWORD ++ "_" ++ Sha256.hex (canonical_target host_url ++ "")
  username_secret := some (EMBEDDED_USERNAME ++ "_" ++ Sha256.hex (canonical_target host_url ++ ""))
  username := some username

theorem host_target : canonical_target host_url = "https://example.com" := by decide +kernel

theorem host_rereads : Rereads host_parse := by
  intro t url hp _
  obtain rfl : host_url = url := by
    unfold host_parse at hp
    split at hp
    · exact Option.some.inj hp
    · cases hp
  refine ⟨"/", .inr ⟨by decide +kernel, rfl⟩, ?_⟩
  rw [host_target]
  decide +kernel

theorem user_spec {u : String} (h : validate_literal_username (some u) = .ok ()) :
    helper_spec home (for_user u) = .ok (user_command u) := by
  have hv : validate_target host_url = .ok () := by decide +kernel
  have hi : embedded_identity host_url (some u) = .ok (Sha256.hex (canonical_target host_url ++ "")) := by
    unfold embedded_identity context_username
    rw [if_pos (by decide)]
    rfl
  unfold helper_spec credential_source load_embedded_git_credentials
  simp only [for_user, hv, h, hi]
  rfl

theorem user_configured {u : String} (h : validate_literal_username (some u) = .ok ()) :
    configure home (for_user u) =
      .ok ⟨FORMAT_VERSION, canonical_target host_url, helper_command (user_command u), some u⟩ := by
  unfold configure
  rw [user_spec h]
  rfl

theorem helper_replays_iff_alice :
    ∃ spec, helper_spec home (for_user "alice") = .ok spec ∧
      Replays true host_parse ⟨none, none, some "ci"⟩ "get" spec (helper_command spec) := by
  have hu : host_parse "https://example.com/" = some (for_user "alice").url := by decide +kernel
  have hg : CommandLine.is_option true "get" = false := by decide
  obtain ⟨spec, hs, hi⟩ := helper_replays_iff true host_rereads rfl home hu (user_configured (by decide))
    ⟨none, none, some "ci"⟩ hg
  obtain rfl := Except.ok.inj ((user_spec (by decide)).symm.trans hs)
  exact ⟨_, hs, hi.mpr (by decide +kernel)⟩

/-- A user whose name starts with a dash is recorded, and not read. -/
theorem dashed_user_lost :
    ∃ spec credential, helper_spec home (for_user "-alice") = .ok spec ∧
      configure home (for_user "-alice") = .ok credential ∧
      ¬ Replays true host_parse ⟨none, none, none⟩ "get" spec credential.helper := by
  refine ⟨user_command "-alice", _, user_spec (by decide), user_configured (by decide), not_replays_of_value ?_⟩
  exact ⟨("username", "-alice"), by simp [HelperCommand.options, user_command, optional], by decide⟩

end Monosecret.Integration.Git
