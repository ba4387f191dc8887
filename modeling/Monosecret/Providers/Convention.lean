/-
  Monosecret.Providers.Convention — the addresses secrets have by convention
  (`convention_address` of the keyring, pass, KDBX, Vault/OpenBao and AWS Secrets Manager
  providers, in `monosecret/src/provider/`).

  Three providers fill in a template, one placeholder after the other, and three join the names
  by slashes. Names are what configurations that load give them (`Produced`): a project name
  that is not empty, any profile name, a key that is an identifier.

  Proved, for every two triples of names: the five default addresses differ exactly when the
  names do not make the same path, as they are and as the later placeholders are filled in
  them (`namespaces_apart_iff`); and every template is filled in at once exactly when no name
  can be a part of a later placeholder.
-/

import Mathlib.Data.List.DropRight
import Monosecret.Lib.Placeholder
import Monosecret.Manifest.Accepted

namespace Monosecret.Providers.Convention

open Lib Lib.Placeholder Manifest
open List (append_assoc append_nil cons_append foldl_cons foldl_nil mem_cons_self nil_append not_mem_nil pairwise_cons)
open String (toList_append toList_inj toList_ofList)

structure NativeAddress where
  item : String
  field : Option String
  deriving DecidableEq

def PROJECT : String := "\x7bproject\x7d"

def PROFILE : String := "\x7bprofile\x7d"

def KEY : String := "\x7bkey\x7d"

/-- The format string of the keyring, pass and KDBX providers. -/
def DEFAULT_PREFIX : String := "monosecret/" ++ PROJECT ++ "/" ++ PROFILE ++ "/" ++ KEY

/-- `str::replace`. -/
def str_replace (text token value : String) : String :=
  String.ofList (replace token.toList value.toList text.toList)

namespace KeyringProvider

def format_service ( folder_prefix : Option String) (project profile key : String) : String :=
  let format_string := Option.getD folder_prefix DEFAULT_PREFIX
  str_replace (str_replace (str_replace format_string PROJECT project) PROFILE profile) KEY key

def convention_address ( folder_prefix : Option String) (project profile key : String) : Except String NativeAddress :=
  .ok ⟨format_service folder_prefix project profile key, none⟩

end KeyringProvider

namespace PassProvider

def format_entry_name ( folder_prefix : Option String) (project profile key : String) : String :=
  let format_string := Option.getD folder_prefix DEFAULT_PREFIX
  str_replace (str_replace (str_replace format_string PROJECT project) PROFILE profile) KEY key

def convention_address ( folder_prefix : Option String) (project profile key : String) : Except String NativeAddress :=
  .ok ⟨format_entry_name folder_prefix project profile key, none⟩

end PassProvider

namespace KdbxProvider

structure Location where
  groups : List String
  title : String
  field : String
  deriving DecidableEq

def Location.parse (item field : String) : Except String Location :=
  if item = "" then .error "A KDBX entry path cannot be empty."
  else if field = "" then .error "A KDBX field name cannot be empty."
  else
    let parts := (item.toList.splitOn '/').map String.ofList
    if parts.any (· = "") then
      .error s!"Invalid KDBX entry path `{item}`: group and entry names cannot be empty."
    else .ok ⟨parts.dropLast, parts.getLastD "", field⟩

def convention_address ( folder_prefix : String) (project profile key : String) : Except String NativeAddress := do
  let item := str_replace (str_replace (str_replace folder_prefix PROJECT project) PROFILE profile) KEY key
  let _ ← Location.parse item "Password"
  .ok ⟨item, none⟩

end KdbxProvider

/-- The names a namespace is made of are not empty. -/
def refuse_empty (project profile key : String) : Except String Unit := do
  refuse (project == "") "project cannot be empty"
  refuse (profile == "") "profile cannot be empty"
  refuse (key == "") "key cannot be empty"

namespace KvProvider

def convention_address (project profile key : String) : Except String NativeAddress := do
  refuse_empty project profile key
  .ok ⟨"monosecret/" ++ project ++ "/" ++ profile ++ "/" ++ key, some "value"⟩

end KvProvider

/-- One slash between the two. -/
def join_slash_path (left right : String) : String :=
  String.ofList (left.toList.rdropWhile (· = '/') ++ '/' :: right.toList.dropWhile (· = '/'))

namespace AwssmProvider

def format_secret_name ( folder_prefix : Option String) (project profile key : String) : Except String String := do
  refuse_empty project profile key
  let convention_name := "monosecret/" ++ project ++ "/" ++ profile ++ "/" ++ key
  let secret_name := match folder_prefix with
    | some folder_prefix => join_slash_path folder_prefix convention_name
    | none => convention_name
  refuse (decide (512 < secret_name.utf8ByteSize))
    s!"Secret name too long: {secret_name.utf8ByteSize} characters (max 512)"
  .ok secret_name

def convention_address ( folder_prefix : Option String) (project profile key : String) : Except String NativeAddress := do
  .ok ⟨← format_secret_name folder_prefix project profile key, none⟩

end AwssmProvider

/-! ## Names -/

structure Names where
  project : String
  profile : String
  key : String
  deriving DecidableEq

/-- A configuration that loads has the key in the profile. -/
def Produced (rules : Rules) (names : Names) : Prop :=
  ∃ config spec profile, Config.validate_and_compile rules config = .ok spec ∧ config.project.name = names.project ∧
    spec.profile names.profile = some profile ∧ names.key ∈ profile.names

/-- A part of the path is the end of the project in one, and the beginning of the profile in the other. -/
def Moved (a b : Names) : Prop :=
  ∃ part, b.project = a.project ++ "/" ++ part ∧ a.profile = part ++ "/" ++ b.profile

/-- The names make the same path of slashes. -/
def SamePath (a b : Names) : Prop :=
  a.key = b.key ∧ (a.project = b.project ∧ a.profile = b.profile ∨ Moved a b ∨ Moved b a)

/-- The names after the later placeholders are filled in them. -/
def filled (names : Names) : Names where
  project := str_replace (str_replace names.project PROFILE names.profile) KEY names.key
  profile := str_replace names.profile KEY names.key
  key := names.key

/-- No address is that of both. -/
def Differ (a b : Except String NativeAddress) : Prop := ∀ address, a = .ok address → b ≠ .ok address

/-- The default addresses of every provider differ. -/
structure Apart (a b : Names) : Prop where
  keyring : Differ (KeyringProvider.convention_address none a.project a.profile a.key)
    (KeyringProvider.convention_address none b.project b.profile b.key)
  pass : Differ (PassProvider.convention_address none a.project a.profile a.key)
    (PassProvider.convention_address none b.project b.profile b.key)
  kdbx : Differ (KdbxProvider.convention_address DEFAULT_PREFIX a.project a.profile a.key)
    (KdbxProvider.convention_address DEFAULT_PREFIX b.project b.profile b.key)
  kv : Differ (KvProvider.convention_address a.project a.profile a.key)
    (KvProvider.convention_address b.project b.profile b.key)
  awssm : Differ (AwssmProvider.convention_address none a.project a.profile a.key)
    (AwssmProvider.convention_address none b.project b.profile b.key)

/-! ## Templates -/

def substs (names : Names) : Substs Char :=
  [(PROJECT.toList, names.project.toList), (PROFILE.toList, names.profile.toList), (KEY.toList, names.key.toList)]

/-- The template has every placeholder. -/
def Complete (template : String) : Prop :=
  PROJECT.toList <:+: template.toList ∧ PROFILE.toList <:+: template.toList ∧ KEY.toList <:+: template.toList

/-- The template is filled in at once, and no inserted name is read as a placeholder. -/
structure FilledOnce (template : String) (names : Names) : Prop where
  keyring : KeyringProvider.format_service (some template) names.project names.profile names.key =
    String.ofList (expand (substs names) template.toList)
  pass : PassProvider.format_entry_name (some template) names.project names.profile names.key =
    String.ofList (expand (substs names) template.toList)
  kdbx : ∀ address, KdbxProvider.convention_address template names.project names.profile names.key = .ok address →
    address.item = String.ofList (expand (substs names) template.toList)
  reads : ReadsTemplate (substs names) template.toList

/-- No name can be a part of a placeholder that is filled in after it. -/
def Unmistakable (names : Names) : Prop :=
  Clean PROFILE.toList names.project.toList ∧ Clean KEY.toList names.project.toList ∧
    Clean KEY.toList names.profile.toList

/-! ## Paths -/

theorem slash_split {a b c d : List Char} : a ++ '/' :: b = c ++ '/' :: d ↔
    a = c ∧ b = d ∨ (∃ m, c = a ++ '/' :: m ∧ b = m ++ '/' :: d) ∨ ∃ m, a = c ++ '/' :: m ∧ d = m ++ '/' :: b := by
  constructor
  · intro h
    rcases List.append_eq_append_iff.mp h with ⟨m, rfl, hm⟩ | ⟨m, rfl, hm⟩
    · cases m with
      | nil => exact .inl ⟨(append_nil a).symm, (List.cons.inj hm).2⟩
      | cons e m =>
        obtain ⟨rfl, hr⟩ := List.cons.inj hm
        exact .inr (.inl ⟨m, rfl, hr⟩)
    · cases m with
      | nil => exact .inl ⟨append_nil c, (List.cons.inj hm).2.symm⟩
      | cons e m =>
        obtain ⟨rfl, hr⟩ := List.cons.inj hm
        exact .inr (.inr ⟨m, rfl, hr⟩)
  · rintro (⟨rfl, rfl⟩ | ⟨m, rfl, rfl⟩ | ⟨m, rfl, rfl⟩)
    · rfl
    · rw [append_assoc, cons_append]
    · rw [append_assoc, cons_append]

/-- The last slash, where no key has one. -/
theorem last_slash {a b k l : List Char} (hk : '/' ∉ k) (hl : '/' ∉ l) : a ++ '/' :: k = b ++ '/' :: l ↔ a = b ∧ k = l := by
  have hm : ∀ m n : List Char, '/' ∈ m ++ '/' :: n := fun m n => List.mem_append_right m List.mem_cons_self
  rw [slash_split]
  constructor
  · rintro (h | ⟨m, -, rfl⟩ | ⟨m, -, rfl⟩)
    · exact h
    · exact absurd (hm m l) hk
    · exact absurd (hm m k) hl
  · exact .inl

/-- The convention's path of three names. -/
def path (names : Names) : String :=
  "monosecret/" ++ names.project ++ "/" ++ names.profile ++ "/" ++ names.key

theorem path_toList (names : Names) : (path names).toList =
    "monosecret".toList ++ '/' :: ((names.project.toList ++ '/' :: names.profile.toList) ++ '/' :: names.key.toList) := by
  have hs : "/".toList = ['/'] := rfl
  have hr : "monosecret/".toList = "monosecret".toList ++ ['/'] := rfl
  simp only [path, String.toList_append, hs, hr, List.append_assoc, List.cons_append, List.nil_append]

theorem moved_iff {a b : Names} : Moved a b ↔
    ∃ m, b.project.toList = a.project.toList ++ '/' :: m ∧ a.profile.toList = m ++ '/' :: b.profile.toList := by
  have hs : "/".toList = ['/'] := rfl
  constructor
  · rintro ⟨p, hp, hf⟩
    refine ⟨p.toList, ?_, ?_⟩
    · rw [hp, toList_append, toList_append, hs, append_assoc, List.singleton_append]
    · rw [hf, toList_append, toList_append, hs, append_assoc, List.singleton_append]
  · rintro ⟨m, hp, hf⟩
    refine ⟨String.ofList m, toList_inj.mp ?_, toList_inj.mp ?_⟩
    · rw [hp, toList_append, toList_append, hs, toList_ofList, append_assoc,
        List.singleton_append]
    · rw [hf, toList_append, toList_append, hs, toList_ofList, append_assoc,
        List.singleton_append]

theorem path_eq_iff {a b : Names} (ha : '/' ∉ a.key.toList) (hb : '/' ∉ b.key.toList) : path a = path b ↔ SamePath a b := by
  rw [← toList_inj, path_toList, path_toList, List.append_cancel_left_eq, List.cons_inj_right, last_slash ha hb,
    slash_split, ← moved_iff, ← moved_iff, toList_inj, toList_inj, toList_inj, SamePath, and_comm]

/-! ## The default addresses -/

theorem str_replace_toList (tx t value : String) :
    (str_replace tx t value).toList = replace t.toList value.toList tx.toList :=
  toList_ofList

theorem format_service_eq ( folder_prefix : Option String) (names : Names) :
    KeyringProvider.format_service folder_prefix names.project names.profile names.key =
      String.ofList (replace_all (substs names) (Option.getD folder_prefix DEFAULT_PREFIX).toList) := by
  simp only [KeyringProvider.format_service, str_replace, toList_ofList]
  rfl

theorem default_path (names : Names) :
    KeyringProvider.format_service none names.project names.profile names.key = path (filled names) := by
  have hp : PROJECT.toList ≠ [] := by decide
  have hf : PROFILE.toList ≠ [] := by decide
  have hk : KEY.toList ≠ [] := by decide
  have hr : DEFAULT_PREFIX.toList = "monosecret".toList ++ '/' ::
      (PROJECT.toList ++ '/' :: (PROFILE.toList ++ '/' :: KEY.toList)) := by decide
  have hw : ∀ {t : List Char}, t ≠ [] → ∀ value, replace t value t = value := by
    intro t ht value
    have hht : replace t value (t ++ []) = value ++ replace t value [] := replace_hit ht []
    rwa [append_nil, replace_nil, append_nil] at hht
  have hn : ∀ {t text : List Char}, ¬t <:+: text → ∀ value, replace t value text = text :=
    fun h value => replace_absent h
  rw [← toList_inj, path_toList, format_service_eq, toList_ofList]
  simp only [filled, str_replace_toList, replace_all, substs, foldl_cons, foldl_nil, Option.getD_none, hr]
  simp only [replace_apart hp (show '/' ∉ PROJECT.toList by decide), replace_apart hf (show '/' ∉ PROFILE.toList by decide),
    replace_apart hk (show '/' ∉ KEY.toList by decide), hw hp, hw hf, hw hk,
    hn (show ¬PROJECT.toList <:+: "monosecret".toList by decide), hn (show ¬PROFILE.toList <:+: "monosecret".toList by decide),
    hn (show ¬KEY.toList <:+: "monosecret".toList by decide), hn (show ¬PROJECT.toList <:+: PROFILE.toList by decide),
    hn (show ¬PROJECT.toList <:+: KEY.toList by decide), hn (show ¬PROFILE.toList <:+: KEY.toList by decide),
    append_assoc, cons_append]

theorem valid_no_slash {rules : Rules} (halphabetic : rules.is_alphabetic '/' = false)
    (halphanumeric : rules.is_alphanumeric '/' = false) {n : String} (h : is_valid_identifier rules n) :
    n ≠ "" ∧ '/' ∉ n.toList := by
  unfold is_valid_identifier at h
  split at h
  · cases h
  · rename_i first r hl
    obtain ⟨hf, hr⟩ := Bool.and_eq_true_iff.mp h
    refine ⟨?_, fun hm => ?_⟩
    · rintro rfl
      cases hl
    · rw [hl] at hm
      rcases List.mem_cons.mp hm with rfl | hm
      · rw [halphabetic] at hf
        exact absurd hf (by decide)
      · have hs := List.all_eq_true.mp hr '/' hm
        rw [halphanumeric] at hs
        exact absurd hs (by decide)

theorem Produced.names {rules : Rules} (halphabetic : rules.is_alphabetic '/' = false)
    (halphanumeric : rules.is_alphanumeric '/' = false) {names : Names} (h : Produced rules names) :
    names.project ≠ "" ∧ names.key ≠ "" ∧ '/' ∉ names.key.toList := by
  obtain ⟨c, s, p, hv, hp, hf, hk⟩ := h
  exact ⟨hp ▸ accepted_project hv, valid_no_slash halphabetic halphanumeric (accepted_names hv hf hk)⟩

theorem refuse_empty_ok {p pr k : String} :
    refuse_empty p pr k = .ok () ↔ p ≠ "" ∧ pr ≠ "" ∧ k ≠ "" := by
  constructor
  · intro h
    obtain ⟨hp, h⟩ := Except.bind_unit_ok h
    obtain ⟨hf, h⟩ := Except.bind_unit_ok h
    exact ⟨by simpa using refuse_ok hp, by simpa using refuse_ok hf, by simpa using refuse_ok h⟩
  · rintro ⟨hp, hf, hk⟩
    unfold refuse_empty
    rw [beq_false_of_ne hp, beq_false_of_ne hf, beq_false_of_ne hk]
    rfl

variable {address : NativeAddress}

theorem kv_ok {names : Names} (h : KvProvider.convention_address names.project names.profile names.key = .ok address) :
    address = ⟨path names, some "value"⟩ := by
  replace h := Except.rest_ok h
  exact (Except.ok.inj h).symm

theorem kv_address {names : Names} (hp : names.project ≠ "") (hf : names.profile ≠ "") (hk : names.key ≠ "") :
    KvProvider.convention_address names.project names.profile names.key = .ok ⟨path names, some "value"⟩ := by
  unfold KvProvider.convention_address
  rw [refuse_empty_ok.mpr ⟨hp, hf, hk⟩]
  rfl

theorem awssm_ok {names : Names}
    (h : AwssmProvider.convention_address none names.project names.profile names.key = .ok address) :
    names.profile ≠ "" ∧ address.item = path names := by
  obtain ⟨s, hn, h⟩ := Except.bind_ok h
  obtain ⟨he, hn⟩ := Except.bind_unit_ok hn
  replace hn := Except.rest_ok hn
  cases h
  exact ⟨(refuse_empty_ok.mp he).2.1, (Except.ok.inj hn).symm⟩

theorem kdbx_ok { folder_prefix : String} {names : Names}
    (h : KdbxProvider.convention_address folder_prefix names.project names.profile names.key = .ok address) :
    address.item = KeyringProvider.format_service (some folder_prefix) names.project names.profile names.key := by
  obtain ⟨l, -, h⟩ := Except.bind_ok h
  rw [← Except.ok.inj h, KeyringProvider.format_service, Option.getD_some]

theorem filled_key (names : Names) : (filled names).key = names.key := by
  rw [filled]

theorem keyring_address (names : Names) :
    KeyringProvider.convention_address none names.project names.profile names.key = .ok ⟨path (filled names), none⟩ := by
  rw [KeyringProvider.convention_address, default_path]

theorem pass_address (names : Names) :
    PassProvider.convention_address none names.project names.profile names.key = .ok ⟨path (filled names), none⟩ :=
  keyring_address names

theorem kdbx_item {names : Names}
    (h : KdbxProvider.convention_address DEFAULT_PREFIX names.project names.profile names.key = .ok address) :
    address.item = path (filled names) := by
  rw [kdbx_ok h, ← default_path]
  rfl

theorem differ_ok {a b : NativeAddress} : Differ (.ok a) (.ok b) ↔ a ≠ b := by
  constructor
  · intro h he
    exact h a rfl (he ▸ rfl)
  · intro hn address h h'
    exact hn ((Except.ok.inj h).trans (Except.ok.inj h').symm)

section

variable {rules : Rules} (halphabetic : rules.is_alphabetic '/' = false) (halphanumeric : rules.is_alphanumeric '/' = false)

include halphabetic halphanumeric

/-- The default addresses of two triples of names. -/
theorem default_addresses_apart {a b : Names} (ha : Produced rules a) (hb : Produced rules b) :
    Apart a b ↔ ¬SamePath (filled a) (filled b) ∧ ¬(SamePath a b ∧ a.profile ≠ "" ∧ b.profile ≠ "") := by
  obtain ⟨hp, hk, hs⟩ := ha.names halphabetic halphanumeric
  obtain ⟨hp', hk', hs'⟩ := hb.names halphabetic halphanumeric
  have hf : path (filled a) = path (filled b) ↔ SamePath (filled a) (filled b) :=
    path_eq_iff ((filled_key a).symm ▸ hs) ((filled_key b).symm ▸ hs')
  have hr : path a = path b ↔ SamePath a b := path_eq_iff hs hs'
  rw [← hf, ← hr]
  constructor
  · rintro ⟨hy, -, -, hv, -⟩
    constructor
    · intro hm
      rw [keyring_address, keyring_address, differ_ok, hm] at hy
      exact hy rfl
    · rintro ⟨hm, hpf, hf'⟩
      rw [kv_address hp hpf hk, kv_address hp' hf' hk', differ_ok, hm] at hv
      exact hv rfl
  · rintro ⟨ht, hr⟩
    have hd : Differ (.ok ⟨path (filled a), none⟩) (.ok ⟨path (filled b), none⟩) :=
      differ_ok.mpr fun he => ht (congrArg NativeAddress.item he)
    constructor
    case keyring =>
      rw [keyring_address, keyring_address]
      exact hd
    case pass =>
      rw [pass_address, pass_address]
      exact hd
    case kdbx =>
      intro address h h'
      exact ht ((kdbx_item h).symm.trans (kdbx_item h'))
    case kv =>
      intro address h h'
      obtain ⟨hem, -⟩ := Except.bind_unit_ok h
      obtain ⟨he', -⟩ := Except.bind_unit_ok h'
      have hi := congrArg NativeAddress.item ((kv_ok h).symm.trans (kv_ok h'))
      exact hr ⟨hi, (refuse_empty_ok.mp hem).2.1, (refuse_empty_ok.mp he').2.1⟩
    case awssm =>
      intro address h h'
      exact hr ⟨(awssm_ok h).2.symm.trans (awssm_ok h').2, (awssm_ok h).1, (awssm_ok h').1⟩

end

/-! ## Templates are filled in at once -/

theorem substs_passes (names : Names) : Passes (substs names) ↔ Unmistakable names := by
  have hn : ∀ s ∈ substs names, s.1 ≠ [] := by
    simp only [substs, List.forall_mem_cons]
    exact ⟨by decide, by decide, by decide, fun _ h => absurd h List.not_mem_nil⟩
  have hf : Clean PROJECT.toList PROFILE.toList := by decide
  have hk : Clean PROJECT.toList KEY.toList := by decide
  have hfk : Clean PROFILE.toList KEY.toList := by decide
  constructor
  · rintro ⟨-, hpa⟩
    obtain ⟨hr, hpa⟩ := List.pairwise_cons.mp hpa
    obtain ⟨hp, -⟩ := pairwise_cons.mp hpa
    exact ⟨(hr _ (.head _)).1, (hr _ (.tail _ (.head _))).1,
      (hp _ (.head _)).1⟩
  · rintro ⟨hr, hp', hp⟩
    refine ⟨hn, ?_⟩
    simp only [substs, List.pairwise_cons, List.forall_mem_cons]
    exact ⟨⟨⟨hr, hf⟩, ⟨hp', hk⟩, fun _ h => absurd h List.not_mem_nil⟩,
      ⟨⟨hp, hfk⟩, fun _ h => absurd h not_mem_nil⟩, fun _ h => absurd h not_mem_nil, List.Pairwise.nil⟩

theorem filled_once {names : Names} (h : Unmistakable names) (template : String) : FilledOnce template names := by
  have hp := (substs_passes names).mpr h
  have hf : Clean PROFILE.toList PROJECT.toList := by decide
  have hk : Clean KEY.toList PROJECT.toList := by decide
  have hkf : Clean KEY.toList PROFILE.toList := by decide
  have hb : (substs names).Pairwise fun s s' => Clean s'.1 s.1 := by
    simp only [substs, List.pairwise_cons, List.forall_mem_cons]
    exact ⟨⟨hf, hk, fun _ h => absurd h List.not_mem_nil⟩, ⟨hkf, fun _ h => absurd h List.not_mem_nil⟩,
      fun _ h => absurd h not_mem_nil, List.Pairwise.nil⟩
  have hy : KeyringProvider.format_service (some template) names.project names.profile names.key =
      String.ofList (expand (substs names) template.toList) := by
    rw [format_service_eq, replace_all_eq_expand hp]
    rfl
  exact ⟨hy, hy, fun address ha => (kdbx_ok ha).trans hy, reads_template hp hb _⟩

/-- A template around a name, between a beginning and an end of a token: it has every placeholder, the first one is
reached and is the only one of its kind, no profile stands in the parts of the token, and the token stands there once. -/
structure Around (token placeholder before rest a b : List Char) : Prop where
  reached : ∀ x ∈ (a ++ before).tails, x ≠ [] → ¬placeholder <+: x ++ placeholder
  alone : ¬placeholder <:+: rest
  profile_reached : ∀ x ∈ a.tails, x ≠ [] → ¬PROFILE.toList <+: x ++ PROFILE.toList
  start : ¬PROFILE.toList <:+: a
  ending : ¬PROFILE.toList <:+: b
  project : PROJECT.toList <:+: a ++ (before ++ (placeholder ++ rest))
  profile : PROFILE.toList <:+: a ++ (before ++ (placeholder ++ rest))
  key : KEY.toList <:+: a ++ (before ++ (placeholder ++ rest))
  once : count token (a ++ (before ++ (placeholder ++ rest))) = 1

instance (token placeholder before rest a b : List Char) : Decidable (Around token placeholder before rest a b) :=
  decidable_of_iff ((∀ x ∈ (a ++ before).tails, x ≠ [] → ¬placeholder <+: x ++ placeholder) ∧ ¬placeholder <:+: rest ∧
      (∀ x ∈ a.tails, x ≠ [] → ¬PROFILE.toList <+: x ++ PROFILE.toList) ∧
      ¬PROFILE.toList <:+: a ∧ ¬PROFILE.toList <:+: b ∧
      PROJECT.toList <:+: a ++ (before ++ (placeholder ++ rest)) ∧ PROFILE.toList <:+: a ++ (before ++ (placeholder ++ rest)) ∧
      KEY.toList <:+: a ++ (before ++ (placeholder ++ rest)) ∧ count token (a ++ (before ++ (placeholder ++ rest))) = 1)
    ⟨fun ⟨h₁, h₂, h₃, h₄, h₅, h₆, h₇, h₈, h₉⟩ => ⟨h₁, h₂, h₃, h₄, h₅, h₆, h₇, h₈, h₉⟩,
      fun ⟨h₁, h₂, h₃, h₄, h₅, h₆, h₇, h₈, h₉⟩ => ⟨h₁, h₂, h₃, h₄, h₅, h₆, h₇, h₈, h₉⟩⟩

/-- What follows the name in a template, and what follows the name of the profile. -/
def profile_key : List Char := '/' :: (PROFILE.toList ++ '/' :: KEY.toList)

def slash_key : List Char := '/' :: KEY.toList

theorem project_in_profile : ∀ a ∈ PROFILE.toList.inits, ∀ b ∈ PROFILE.toList.tails, a ≠ PROFILE.toList → b ≠ PROFILE.toList →
    Around PROFILE.toList PROJECT.toList [] (b ++ profile_key) a b := by decide +kernel

theorem project_in_key : ∀ a ∈ KEY.toList.inits, ∀ b ∈ KEY.toList.tails, a ≠ KEY.toList → b ≠ KEY.toList →
    Around KEY.toList PROJECT.toList [] (b ++ profile_key) a b := by decide +kernel

theorem profile_in_key : ∀ a ∈ KEY.toList.inits, ∀ b ∈ KEY.toList.tails, a ≠ KEY.toList → b ≠ KEY.toList →
    Around KEY.toList PROJECT.toList (PROFILE.toList ++ (b ++ ['/'])) slash_key a b := by decide +kernel

section

variable {names : Names} (h : ∀ template, Complete template → FilledOnce template names)

include h

theorem reads_around {t p before r a b : List Char} (ha : Around t p before r a b) :
    ReadsTemplate (substs names) (a ++ (before ++ (p ++ r))) := by
  have hc : Complete (String.ofList (a ++ (before ++ (p ++ r)))) := by
    rw [Complete, toList_ofList]
    exact ⟨ha.project, ha.profile, ha.key⟩
  have hr := (h _ hc).reads
  rwa [toList_ofList] at hr

theorem clean_profile_project : Clean PROFILE.toList names.project.toList := by
  by_contra hc
  obtain ⟨a, ha, b, hb, hn, hbn, ht⟩ := token_around hc (by decide)
  have hr := project_in_profile a ha b hb hn hbn
  have hp := reads_around h hr [(PROJECT.toList, names.project.toList)] (PROFILE.toList, names.profile.toList)
    [(KEY.toList, names.key.toList)] rfl
  have hrc := hr.reached
  rw [append_nil] at hrc
  rw [hr.once] at hp
  simp only [replace_all, List.foldl_cons, List.foldl_nil, List.nil_append] at hp
  rw [replace_first (by decide) hrc, replace_absent hr.alone] at hp
  have hcn := two_le_count (by decide) ht (show PROFILE.toList <:+: profile_key by decide)
  omega

theorem clean_key_project : Clean KEY.toList names.project.toList := by
  by_contra hc
  obtain ⟨a, ha, b, hb, hn, hbn, ht⟩ := token_around hc (by decide)
  have hr := project_in_key a ha b hb hn hbn
  have hp := reads_around h hr
    [(PROJECT.toList, names.project.toList), (PROFILE.toList, names.profile.toList)] (KEY.toList, names.key.toList) [] rfl
  have hrc := hr.reached
  have hs : '/' ∉ PROFILE.toList := by decide
  have hne : PROFILE.toList ≠ [] := by decide
  have he : replace PROFILE.toList names.profile.toList (b ++ profile_key) =
      b ++ '/' :: (names.profile.toList ++ slash_key) := by
    rw [profile_key, replace_apart hne hs, replace_absent hr.ending, replace_hit hne]
    rfl
  rw [append_nil] at hrc
  rw [hr.once] at hp
  simp only [replace_all, List.foldl_cons, List.foldl_nil, List.nil_append] at hp
  rw [replace_first (by decide) hrc, replace_absent hr.alone,
    replace_around hne (clean_profile_project h), replace_absent hr.start, he] at hp
  have hk : KEY.toList <:+: '/' :: (names.profile.toList ++ slash_key) :=
    ⟨'/' :: (names.profile.toList ++ ['/']), [], by simp [slash_key]⟩
  have hcn := two_le_count (by decide) ht hk
  omega

theorem clean_key_profile : Clean KEY.toList names.profile.toList := by
  by_contra hc
  obtain ⟨a, ha, b, hb, hn, hbn, ht⟩ := token_around hc (by decide)
  have hr := profile_in_key a ha b hb hn hbn
  have hp := reads_around h hr
    [(PROJECT.toList, names.project.toList), (PROFILE.toList, names.profile.toList)] (KEY.toList, names.key.toList) [] rfl
  have hs : '/' ∉ PROFILE.toList := by decide
  have hne : PROFILE.toList ≠ [] := by decide
  have hsp : a ++ ((PROFILE.toList ++ (b ++ ['/'])) ++ (PROJECT.toList ++ slash_key)) =
      (a ++ (PROFILE.toList ++ (b ++ ['/']))) ++ (PROJECT.toList ++ slash_key) := by simp only [append_assoc]
  have hj : (a ++ (PROFILE.toList ++ (b ++ ['/']))) ++ (names.project.toList ++ slash_key) =
      a ++ (PROFILE.toList ++ (b ++ '/' :: (names.project.toList ++ slash_key))) := by simp
  have hrs : ∃ r, replace PROFILE.toList names.profile.toList (names.project.toList ++ slash_key) = r ++ KEY.toList := by
    refine ⟨replace PROFILE.toList names.profile.toList names.project.toList ++ ['/'], ?_⟩
    rw [slash_key, replace_apart hne hs, replace_absent (show ¬PROFILE.toList <:+: KEY.toList by decide),
      append_assoc]
    rfl
  obtain ⟨r, hrs⟩ := hrs
  rw [hr.once] at hp
  simp only [replace_all, foldl_cons, foldl_nil] at hp
  rw [hsp, replace_first (by decide) hr.reached, replace_absent hr.alone, hj,
    replace_first hne hr.profile_reached, replace_apart hne hs, replace_absent hr.ending, hrs] at hp
  have hk : KEY.toList <:+: '/' :: (r ++ KEY.toList) := ⟨'/' :: r, [], by simp⟩
  have hcn := two_le_count (by decide) ht hk
  omega

end

/-- Two triples of names that configurations produce have different default addresses exactly when they do not make the
same path, and every template is filled in at once exactly when the names cannot be a part of a later placeholder. -/
theorem namespaces_apart_iff {rules : Rules} (halphabetic : rules.is_alphabetic '/' = false)
    (halphanumeric : rules.is_alphanumeric '/' = false) {a b : Names} (ha : Produced rules a) (hb : Produced rules b) :
    (Apart a b ↔ ¬SamePath (filled a) (filled b) ∧ ¬(SamePath a b ∧ a.profile ≠ "" ∧ b.profile ≠ "")) ∧
      ((∀ template, Complete template → FilledOnce template a) ↔ Unmistakable a) :=
  ⟨default_addresses_apart halphabetic halphanumeric ha hb,
    fun h => ⟨clean_profile_project h, clean_key_project h, clean_key_profile h⟩, fun h template _ => filled_once h template⟩

example : KeyringProvider.format_service none PROFILE "production" "API_KEY" = "monosecret/production/production/API_KEY" := by
  decide +kernel

def db_password : Table Secret := AList.insert "DB_PASSWORD" described ∅

/-- One profile that declares `DB_PASSWORD`. -/
def one_profile (project profile : String) : Config where
  project := ⟨project, "1.0", none, none⟩
  profiles := AList.insert profile ⟨none, db_password⟩ ∅
  defaults := none
  providers := none
  groups := none
  scopes := none

theorem one_profile_produced {pr p : String}
    (hv : (Config.validate_and_compile ascii (one_profile pr p)).toOption.isSome) :
    Produced ascii ⟨pr, p, "DB_PASSWORD"⟩ := by
  obtain ⟨s, hs⟩ := Except.ok_of_isSome hv
  have hd : "DB_PASSWORD" ∈ db_password := AList.mem_keys.mp (by decide)
  have hp : (one_profile pr p).profiles.lookup p = some ⟨none, db_password⟩ := AList.lookup_insert ∅
  refine ⟨one_profile pr p, s, compile_profile (one_profile pr p) p ⟨none, db_password⟩,
    hs, rfl, ?_, ?_⟩
  · rw [(validated hs).compiled, compile_lookup, hp, Option.map_some]
  · rw [compile_profile_names, mem_effective_names]
    exact .inl hd

/-- `app` and `shop`, both with the profile `default`. -/
theorem app_and_shop_apart : Apart ⟨"app", "default", "DB_PASSWORD"⟩ ⟨"shop", "default", "DB_PASSWORD"⟩ := by
  have ha : Produced ascii ⟨"app", "default", "DB_PASSWORD"⟩ := one_profile_produced (by decide +kernel)
  have hs : Produced ascii ⟨"shop", "default", "DB_PASSWORD"⟩ := one_profile_produced (by decide +kernel)
  refine (namespaces_apart_iff rfl rfl ha hs).1.mpr ⟨?_, ?_⟩
  all_goals
    rw [← path_eq_iff (by decide) (by decide)]
    decide +kernel

/-- A slash in the project's name, or in the profile's. -/
theorem slashes_clash : ¬∀ a b, Produced ascii a → Produced ascii b → a ≠ b →
    Apart a b ∧ ∀ template, Complete template → FilledOnce template a := by
  intro hl
  have ha : Produced ascii ⟨"a/b", "c", "DB_PASSWORD"⟩ := one_profile_produced (by decide +kernel)
  have hb : Produced ascii ⟨"a", "b/c", "DB_PASSWORD"⟩ := one_profile_produced (by decide +kernel)
  have hp := (hl _ _ ha hb (by decide)).1.kv
  exact hp ⟨"monosecret/a/b/c/DB_PASSWORD", some "value"⟩ (by decide +kernel) (by decide +kernel)

end Monosecret.Providers.Convention
