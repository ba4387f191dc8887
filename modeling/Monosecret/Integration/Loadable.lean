/-
  Monosecret.Integration.Loadable — runs of the Docker and Claude Code commands over their state
  files (`monosecret/src/cli/docker.rs`, `cli/claude.rs`).

  A step is one command in any world: whatever the other programs' settings hold, the manifests
  say and the file operations answer. The files start absent.

  Proved: a run whose commands are sound only reaches files that every later command loads, and
  a command that configured something leaves such files exactly when it is sound
  (`files_stay_loadable`); for the registry alone, its recorded spelling is recorded again as
  itself exactly when it does not slip through as a host of Docker Hub. The runs that lock the
  user out are in `locked_out`: `https:///docker.io`, an empty `--profile` with a manifest,
  and a blank `--provider`.
-/

import Monosecret.Integration.Claude
import Monosecret.Integration.Docker
import Monosecret.Lib.Machine

namespace Monosecret.Integration

open Lib Manifest

structure Files where
  docker : Option Json
  claude : Option Json

inductive Command (rules : Rules) where
  | docker_configure (world : Docker.World rules) (options : Docker.ConfigureOptions)
  | docker_unconfigure (world : Docker.World rules) (registry : Option String) (all yes : Bool)
  | claude_configure (world : Claude.World rules) (options : Claude.ConfigureOptions)
  | claude_unconfigure (world : Claude.World rules) (is_global yes : Bool)

section

variable {rules : Rules} (parse : UrlParser) (parse_uuid : String → Bool)

def execute (files : Files) : Command rules → Except String Done × Files
  | .docker_configure world options =>
    let result := Docker.configure parse world options files.docker
    (result.1, { files with docker := result.2 })
  | .docker_unconfigure world registry all yes =>
    let result := Docker.unconfigure parse world registry all yes files.docker
    (result.1, { files with docker := result.2 })
  | .claude_configure world options =>
    let result := Claude.configure parse_uuid world options files.claude
    (result.1, { files with claude := result.2 })
  | .claude_unconfigure world is_global yes =>
    let result := Claude.unconfigure parse_uuid world is_global yes files.claude
    (result.1, { files with claude := result.2 })

def commands : Machine Files (Command rules) where
  init := ⟨none, none⟩
  step files command := some (execute parse parse_uuid files command).2

/-- What a command records is what loading accepts. -/
def Command.sound : Command rules → Bool
  | .docker_configure _ options => options.sound parse
  | .claude_configure world options => options.sound world.ambient
  | _ => true

/-- An identifier that is drawn is new. -/
def Command.fresh (files : Files) : Command rules → Bool
  | .claude_configure world _ => Claude.fresh parse_uuid world.id files.claude
  | _ => true

structure Loadable (files : Files) : Prop where
  docker : Docker.Accepted parse files.docker
  claude : Claude.Accepted parse_uuid files.claude

variable {parse parse_uuid} (w : Whatwg parse) (hsimple : ∀ id, parse_uuid (Claude.simple id) = true)
  (hletters : ∀ c, rules.is_alphabetic c = true → is_whitespace c = false)

include w hsimple hletters

/-- A command that configured something leaves loadable files exactly when it is sound. -/
theorem execute_configured_iff {f : Files} {cm : Command rules} (hf : Loadable parse parse_uuid f)
    (hr : cm.fresh parse_uuid f)
    (h : (execute parse parse_uuid f cm).1 = .ok .Configured) :
    Loadable parse parse_uuid (execute parse parse_uuid f cm).2 ↔ cm.sound parse := by
  cases cm with
  | docker_configure wr o =>
    dsimp only [execute] at h ⊢
    rw [Command.sound, ← Docker.configured_iff w h]
    exact ⟨fun h => h.docker, fun h => ⟨h, hf.claude⟩⟩
  | docker_unconfigure wr r all y =>
    exact iff_of_true ⟨Docker.unconfigure_accepted hf.docker, hf.claude⟩ rfl
  | claude_configure wr o =>
    dsimp only [execute, Command.fresh] at h hr ⊢
    rw [Command.sound, ← Claude.configured_iff hsimple hletters hr h]
    exact ⟨fun h => h.claude, fun h => ⟨hf.docker, h⟩⟩
  | claude_unconfigure wr i y =>
    exact iff_of_true ⟨hf.docker, Claude.unconfigure_accepted hf.claude⟩ rfl

/-- A sound command, whether it succeeds or fails, leaves loadable files. -/
theorem execute_loadable {f : Files} {cm : Command rules} (hf : Loadable parse parse_uuid f)
    (hs : cm.sound parse) (hr : cm.fresh parse_uuid f) :
    Loadable parse parse_uuid (execute parse parse_uuid f cm).2 := by
  cases cm with
  | docker_configure wr o =>
    dsimp only [execute, Command.sound] at hs ⊢
    exact ⟨Docker.configure_accepted w hf.docker hs, hf.claude⟩
  | docker_unconfigure wr r all y => exact ⟨Docker.unconfigure_accepted hf.docker, hf.claude⟩
  | claude_configure wr o =>
    dsimp only [execute, Command.sound, Command.fresh] at hs hr ⊢
    exact ⟨hf.docker, Claude.configure_accepted hsimple hletters hr hf.claude hs⟩
  | claude_unconfigure wr i y => exact ⟨hf.docker, Claude.unconfigure_accepted hf.claude⟩

omit w hsimple hletters in
theorem loadable_init : Loadable parse parse_uuid (@commands rules parse parse_uuid).init :=
  ⟨fun _ => ⟨.default, rfl⟩, fun _ => ⟨.default, rfl⟩⟩

theorem files_stay_loadable :
    (∀ input out, canonical_registry parse input = .ok out →
      (canonical_registry parse out = .ok out ↔ hub_slips_through parse input = false)) ∧
    (∀ (files : Files) (command : Command rules), Loadable parse parse_uuid files → command.fresh parse_uuid files = true →
      (execute parse parse_uuid files command).1 = .ok .Configured →
      (Loadable parse parse_uuid (execute parse parse_uuid files command).2 ↔ command.sound parse = true)) ∧
    (∀ files : Files, Machine.Reach (@commands rules parse parse_uuid)
      (fun files command => command.sound parse && command.fresh parse_uuid files) files →
      Loadable parse parse_uuid files) := by
  refine ⟨fun input out h => canonical_registry_iff w h, fun files command hf hr h => ?_, fun files hc => ?_⟩
  · exact execute_configured_iff w hsimple hletters hf hr h
  · refine hc.inv loadable_init fun before command a hb hm hs => ?_
    obtain ⟨hn, hr⟩ := Bool.and_eq_true_iff.mp hm
    cases hs
    exact execute_loadable w hsimple hletters hb hn hr

end

/-! ## Sample runs -/

namespace Sample

/-- URLs whose host is written in small letters, with any number of slashes before it. -/
def parse (text : String) : Except String Url :=
  match Texts.split_once "://".toList text.toList with
  | none => .error "relative URL without a base"
  | some (scheme, rest) =>
    let rest := rest.dropWhile (· == '/')
    let authority := rest.takeWhile (· != '/')
    let name := authority.takeWhile (· != ':')
    let path := String.ofList (rest.dropWhile (· != '/'))
    if (scheme ≠ "http".toList ∧ scheme ≠ "https".toList) ∨ name = [] ∨ (name.all fun c => c.isLower || c == '.') = false then
      .error "invalid international domain name"
    else
      let url := fun port => Url.mk (.ofList scheme) "" none (some (.Domain (.ofList name))) port (if path = "" then "/" else path) none none
      match authority.dropWhile (· != ':') with
      | [] => .ok (url none)
      | _ :: digits =>
        match parse_u16 digits with
        | some port => .ok (url (if port = (if scheme = "http".toList then 80 else 443) then none else some port))
        | none => .error "invalid port number"

def parse_uuid (id : String) : Bool := id.toList.length == 32 && id.toList.all fun c => c.isDigit || ('a' ≤ c && c ≤ 'f')

theorem lower_domain {c : Char} (h : c.isLower) : is_domain_char c := by
  simp [Char.isLower, UInt32.le_iff_toNat_le] at h
  simp [is_domain_char, Char.isUpper, UInt32.le_iff_toNat_le]
  refine ⟨⟨⟨by omega, by omega⟩, ?_⟩, by omega⟩
  refine ⟨?_, ?_, ?_, ?_, ?_, ?_, ?_, ?_, ?_, ?_, ?_, ?_, ?_⟩ <;> (rintro rfl; simp at h)

theorem parse_ok {t : String} {u : Url} (h : parse t = .ok u) :
    ∃ n : String, u.host = some (.Domain n) ∧ n ≠ "" ∧ ∀ c ∈ n.toList, c.isLower ∨ c = '.' := by
  unfold parse at h
  split at h
  · cases h
  · dsimp only at h
    split at h
    · cases h
    · rename_i s r hs hv
      obtain ⟨-, hn, hch⟩ := not_or.mp hv |>.imp id not_or.mp
      have hm : ∀ c ∈ ((r.dropWhile (· == '/')).takeWhile (· != '/')).takeWhile (· != ':'), c.isLower ∨ c = '.' := by
        intro c hc
        have ha := List.all_eq_true.mp (Bool.not_eq_false _ ▸ hch) c hc
        simpa using ha
      refine ⟨_, ?_, fun he => hn (String.ofList_eq_empty_iff.mp he), fun c hc => hm c ?_⟩
      split at h
      · rw [← Except.ok.inj h]
      · split at h
        · rw [← Except.ok.inj h]
        · cases h
      · rwa [String.toList_ofList] at hc

theorem parse_written {n : String} (hn : n ≠ "") (hch : ∀ c ∈ n.toList, c.isLower ∨ c = '.')
    (p : Option UInt16) :
    parse ("https://" ++ with_port n p) =
      .ok ⟨"https", "", none, some (.Domain n), p.filter (· ≠ 443), "/", none, none⟩ := by
  have hs : ∀ c ∈ n.toList, (c != '/') ∧ (c != ':') := by
    intro c hc
    rcases hch c hc with h | rfl
    · constructor <;> (rw [bne_iff_ne]; rintro rfl; exact absurd h (by decide))
    · decide
  have ht : (with_port n p).toList = n.toList ++ (p.elim [] fun p => ':' :: Nat.toDigits 10 p.toNat) := by
    cases p with
    | none => simp [with_port]
    | some p => exact @with_port_some (.Domain n) p
  have hd : ∀ c ∈ (p.elim [] fun p => ':' :: Nat.toDigits 10 p.toNat), (c != '/') := by
    cases p with
    | none => exact fun _ hc => absurd hc List.not_mem_nil
    | some p =>
      intro c hc
      rcases List.mem_cons.mp hc with rfl | hc
      · decide
      · rw [bne_iff_ne]
        rintro rfl
        exact absurd (Texts.isDigit_of_mem_digits hc) (by decide)
  have ha : ∀ c ∈ (with_port n p).toList, (c != '/') := by
    rw [ht]
    exact fun c hc => (List.mem_append.mp hc).elim (fun hc => (hs c hc).1) (hd c)
  have hp : Texts.split_once "://".toList ("https://" ++ with_port n p).toList =
      some ("https".toList, (with_port n p).toList) := by
    rw [String.toList_append]
    rfl
  have hct : (with_port n p).toList.dropWhile (· == '/') = (with_port n p).toList :=
    Texts.dropWhile_apart fun c hc => by simpa using ha c hc
  have hm : (with_port n p).toList.takeWhile (· != ':') = n.toList := by
    rw [ht]
    cases p with
    | none => exact (List.append_nil _).symm ▸ List.takeWhile_eq_self_iff.mpr fun c hc => (hs c hc).2
    | some p => exact Texts.takeWhile_split (fun c hc => (hs c hc).2) (by decide) _
  have hr : (with_port n p).toList.dropWhile (· != ':') = p.elim [] fun p => ':' :: Nat.toDigits 10 p.toNat := by
    rw [ht]
    cases p with
    | none => simpa using fun c hc => by simpa using (hs c hc).2
    | some p => exact Texts.dropWhile_split (fun c hc => (hs c hc).2) (by decide) _
  have hpt : (with_port n p).toList.dropWhile (· != '/') = [] := List.dropWhile_eq_nil_iff.mpr ha
  have hv : (n.toList.all fun c => c.isLower || c == '.') :=
    List.all_eq_true.mpr fun c hc => by simpa using hch c hc
  have hl : n.toList ≠ [] := fun he => hn (String.toList_eq_nil_iff.mp he)
  unfold parse
  rw [hp]
  dsimp only
  rw [hct, List.takeWhile_eq_self_iff.mpr ha, hm, hr, hpt, if_neg (by simp [hl, hv])]
  cases p with
  | none => simp
  | some p =>
    simp only [Option.elim_some, parse_u16_digits]
    by_cases h : p = 443 <;> simp [h, Option.filter]

theorem whatwg : Whatwg parse where
  domain hp _ hh := by
    obtain ⟨n, hs, hn, hch⟩ := parse_ok hp
    obtain rfl := Host.Domain.inj (Option.some.inj (hh.symm.trans hs))
    refine ⟨hn, fun c hc => ?_⟩
    rcases hch c hc with h | rfl
    · exact lower_domain h
    · decide
  ipv4 hp _ hh := by
    obtain ⟨n, hs, -⟩ := parse_ok hp
    cases hh.symm.trans hs
  ipv6 hp _ hh := by
    obtain ⟨n, hs, -⟩ := parse_ok hp
    cases hh.symm.trans hs
  written port hp _ hh := by
    obtain ⟨n, hs, hn, hch⟩ := parse_ok hp
    obtain rfl := Option.some.inj (hh.symm.trans hs)
    exact parse_written hn hch port

theorem parse_uuid_simple (id : Claude.Uuid) : parse_uuid (Claude.simple id) := by
  have hd : ∀ n < 16, (JsonText.hex_digit n).isDigit || ('a' ≤ JsonText.hex_digit n && JsonText.hex_digit n ≤ 'f') := by
    decide
  have hch : ∀ c ∈ (List.range 32).reverse.map fun i => JsonText.hex_digit (id.toNat / 16 ^ i % 16),
      (c.isDigit || ('a' ≤ c && c ≤ 'f')) := by
    intro c hc
    obtain ⟨i, -, rfl⟩ := List.mem_map.mp hc
    exact hd _ (Nat.mod_lt _ (by decide))
  rw [parse_uuid, Claude.simple, String.toList_ofList, Bool.and_eq_true]
  exact ⟨by simp, List.all_eq_true.mpr hch⟩

theorem ascii_letters (c : Char) (h : ascii.is_alphabetic c) : is_whitespace c = false := by
  simp [ascii, Char.isAlpha, Char.isUpper, Char.isLower, UInt32.le_iff_toNat_le] at h
  simp [is_whitespace, UInt32.le_iff_toNat_le, ← UInt32.toNat_inj]
  omega

/-- A manifest that declares `DB_PASSWORD`. -/
def manifest : Loaded ascii where
  spec := .compile (with_production "API_KEY")
  accepted := by
    obtain ⟨spec, hspec⟩ := Except.ok_of_isSome (x := Config.validate_and_compile ascii (with_production "API_KEY")) (by decide +kernel)
    exact ⟨_, hspec.trans (congrArg Except.ok (validated hspec).compiled)⟩

def docker_world : Docker.World ascii where
  docker_config_path := .ok ⟨"/home/dev/.docker/config.json", by decide⟩
  current_dir := .ok ⟨"/home/dev/app", by decide⟩
  load_secrets _ := .ok manifest
  load_embedded := .ok ()
  ambient := ⟨none, none, none⟩
  docker := .ok none
  state_path := .ok "/home/dev/.config/monosecret/docker-credentials.json"
  state_entry_is_symlink := false
  terminal := false
  answer := .ok false
  docker_unchanged := .ok ()
  state_unchanged := .ok ()
  write_docker := .ok ()
  write_state := .ok ()
  recheck := .ok ()
  restore := .ok ()

def claude_world : Claude.World ascii where
  settings_path := .ok ⟨"/home/dev/app/.claude/settings.local.json", by decide⟩
  current_dir := .ok ⟨"/home/dev/app", by decide⟩
  load_from _ := .ok manifest
  load_global := .ok ()
  ambient := ⟨none, none, none⟩
  settings := .ok none
  state_path := .ok "/home/dev/.config/monosecret/claude-code.json"
  id := 5
  terminal := false
  answer := .ok false
  settings_unchanged := .ok ()
  state_unchanged := .ok ()
  write_settings := .ok ()
  write_state := .ok ()
  restore := .ok ()

/-- `docker configure --registry … --username dev --yes`. -/
def docker (registry : String) : Command ascii :=
  .docker_configure docker_world
    ⟨registry, none, some "dev", none, none, none, true, none, none, ⟨false, false, false⟩⟩

/-- The same with `--file monosecret.toml --token-secret DB_PASSWORD --profile …`. -/
def docker_manifest (registry profile : String) : Command ascii :=
  .docker_configure docker_world
    ⟨registry, some "DB_PASSWORD", some "dev", none, some profile, none, true, some "monosecret.toml", none, ⟨true, false, false⟩⟩

/-- `claude configure --provider …`. -/
def claude (provider : String) : Command ascii :=
  .claude_configure claude_world
    ⟨none, none, some provider, "api.anthropic.com", false, false, none, none, ⟨false, true, false⟩⟩

/-- Both files, after a registry with a port and a provider. -/
theorem both_configured :
    canonical_registry parse "ghcr.io:5000" = .ok "ghcr.io:5000" ∧
    (let first := (execute parse parse_uuid ⟨none, none⟩ (docker "http://ghcr.io:5000/")).2
     let second := execute parse parse_uuid first (claude "keyring")
     second.1 = .ok .Configured ∧ Loadable parse parse_uuid second.2) := by
  have h := @files_stay_loadable ascii parse parse_uuid whatwg parse_uuid_simple ascii_letters
  refine ⟨(h.1 "http://ghcr.io:5000/" _ (by decide +kernel)).mpr (by decide +kernel), by decide +kernel, h.2.2 _ ?_⟩
  exact .step (claude "keyring") (.step (docker "http://ghcr.io:5000/") .init (by decide +kernel) rfl) (by decide +kernel) rfl

/-- Commands that succeed, and leave a file that no later command loads. -/
theorem locked_out :
    (canonical_registry parse "https:///docker.io" = .ok "docker.io" ∧ canonical_registry parse "docker.io" = .ok HUB) ∧
    ∀ command ∈ [docker "https:///docker.io", docker_manifest "ghcr.io" "", claude ""],
      (execute parse parse_uuid ⟨none, none⟩ command).1 = .ok .Configured ∧
        ¬ Loadable parse parse_uuid (execute parse parse_uuid ⟨none, none⟩ command).2 := by
  have hr : ∀ command : Command ascii, command.fresh parse_uuid ⟨none, none⟩ → command.sound parse = false →
      (execute parse parse_uuid ⟨none, none⟩ command).1 = .ok .Configured →
      ¬ Loadable parse parse_uuid (execute parse parse_uuid ⟨none, none⟩ command).2 := by
    intro command hf hs hd hl
    have hi := execute_configured_iff whatwg parse_uuid_simple ascii_letters (@loadable_init ascii parse parse_uuid) hf hd
    rw [hi.mp hl] at hs
    cases hs
  refine ⟨⟨by decide +kernel, by decide +kernel⟩, fun command hc => ?_⟩
  have hd : (execute parse parse_uuid ⟨none, none⟩ command).1 = .ok .Configured ∧
      command.fresh parse_uuid ⟨none, none⟩ ∧ command.sound parse = false := by
    rcases List.mem_cons.mp hc with rfl | hc
    · decide +kernel
    · rcases List.mem_cons.mp hc with rfl | hc
      · decide +kernel
      · rw [List.mem_singleton.mp hc]
        decide +kernel
  exact ⟨hd.1, hr command hd.2.1 hd.2.2 hd.1⟩

end Sample

end Monosecret.Integration
