/-
  Monosecret.Providers.SeparatedNames — the entry names of the Kubernetes, Google Secret
  Manager, Azure Key Vault and file providers (`kubernetes.rs`, `gcsm.rs`, `akv.rs` and
  `file.rs` in `monosecret/src/provider/`).

  The first three join project, profile and key with `--`. What keeps the parts apart is that
  a component has no `--` and no hyphen at its end, so the first `--` behind it is the
  separator (`split_dashes`); in Azure it is the Base32 of the component, which has no hyphen
  and comes back from its lower case (`encode_injective`). An entry of the file provider is
  one path component for each of the three.

  Proved (`names_injective`): different triples have different names, in Azure up to the case
  of ASCII letters; no current Google name is a legacy one; and a file entry is the directory
  followed by the three components. Paths are those of Unix.
-/

import Mathlib.Data.List.Infix
import Monosecret.Executor.ChildEnv
import Monosecret.Lib.Paths
import Monosecret.Lib.Sha2
import Monosecret.Providers.Convention

namespace Monosecret.Providers.SeparatedNames

open Lib Lib.Paths Manifest
open Cache (utf8)
open Convention (Names)

/-! ## Names joined by two hyphens -/

def joined (head project profile key : String) : String := head ++ "--" ++ project ++ "--" ++ profile ++ "--" ++ key

/-- `format_secret_name` of the three providers. -/
def format_secret_name (head : String) (validate : String → String → Except String Unit) (encode : String → String)
    (limit : Nat) (too_long : Nat → String) (names : Names) : Except String String := do
  validate "project" names.project
  validate "profile" names.profile
  validate "key" names.key
  let secret_name := joined head (encode names.project) (encode names.profile) (encode names.key)
  refuse (limit < secret_name.utf8ByteSize) (too_long secret_name.utf8ByteSize)
  return secret_name

def plain (c : Char) : Bool := c.isAlphanum || c == '_' || c == '-'

def check_characters (allowed : Char → Bool) (characters name component : String) : Except String Unit := do
  refuse component.isEmpty s!"{name} cannot be empty"
  match component.toList.find? fun c => !allowed c with
  | some c => .error s!"{name} contains invalid character '{c}'. Only {characters} are allowed"
  | none => .ok ()

def check_hyphens (convention name component : String) : Except String Unit :=
  refuse (component.toList.head? == some '-' || component.toList.getLast? == some '-' ||
      decide (['-', '-'] <:+: component.toList))
    s!"{name} '{component}' cannot start or end with a hyphen or contain \x60--\x60: the {convention}"

namespace KubernetesProvider

def validate_name_component (name component : String) : Except String Unit := do
  check_characters (fun c => plain c || c == '.') "alphanumeric characters, underscores, periods, and hyphens" name component
  check_hyphens ("Kubernetes convention separates project, profile, and key with \x60--\x60, so only\n\t\t\t\t single internal " ++
    "hyphens stay unambiguous. Rename it and run \x60monosecret set\x60 to |\n\t\t\t\t store the value under the new name, " ++
    "or address the secret with a \x60ref\x60 entry.") name component

def format_secret_name : Names → Except String String :=
  SeparatedNames.format_secret_name "monosecret" validate_name_component id 253 fun _ =>
    "Key cannot be longer than 253 characters"

end KubernetesProvider

namespace GcsmProvider

def validate_name_component (name component : String) : Except String Unit := do
  check_characters plain "alphanumeric characters, underscores, and hyphens" name component
  check_hyphens ("GCSM convention separates project, profile, and key with \x60--\x60, so only single internal hyphens " ++
    "stay unambiguous. Rename it and run \x60monosecret set\x60 to store the value under the new name, or address the " ++
    "secret with a \x60ref\x60 entry.") name component

def format_secret_name : Names → Except String String :=
  SeparatedNames.format_secret_name "monosecret2" validate_name_component id 255 fun length =>
    s!"Secret name too long: {length} characters (max 255)"

def format_legacy_secret_name (names : Names) : String :=
  "monosecret-" ++ names.project ++ "-" ++ names.profile ++ "-" ++ names.key

end GcsmProvider

/-! ## Base32 -/

def ALPHABET : List Char := "ABCDEFGHIJKLMNOPQRSTUVWXYZ234567".toList

def symbol (a b c d e : Bool) : Char :=
  ALPHABET.getD (16 * a.toNat + 8 * b.toNat + 4 * c.toNat + 2 * d.toNat + e.toNat) 'A'

/-- `BASE32_NOPAD`: five bits a symbol, the last of them filled up with zeros. -/
def base32 : List Bool → List Char
  | [] => []
  | [a] => [symbol a false false false false]
  | [a, b] => [symbol a b false false false]
  | [a, b, c] => [symbol a b c false false]
  | [a, b, c, d] => [symbol a b c d false]
  | a :: b :: c :: d :: e :: rest => symbol a b c d e :: base32 rest

namespace AkvProvider

def validate_name_component : String → String → Except String Unit :=
  check_characters plain "alphanumeric characters, underscores, and hyphens"

def encode_name_component (component : String) : String :=
  .ofList ((base32 (Sha2.byte_bits (utf8 component))).map Char.toLower)

def format_secret_name : Names → Except String String :=
  SeparatedNames.format_secret_name "monosecret" validate_name_component encode_name_component 127 fun length =>
    s!"Secret name too long: {length} characters (max 127)"

end AkvProvider

/-! ## Files -/

namespace FileProvider

def validate_convention_component (value coordinate : String) : Except String Unit :=
  refuse (value.isEmpty || value.toList.any (fun c => c == '/' || c == '\\' || c == '\x00') || value == "." || value == ".." ||
      components value.toList != [.Normal value.toList])
    s!"the file provider cannot map {coordinate} '{value}' to one safe path component"

def convention_address (names : Names) : Except String String := do
  validate_convention_component names.project "project"
  validate_convention_component names.profile "profile"
  validate_convention_component names.key "secret key"
  return names.project ++ "/" ++ names.profile ++ "/" ++ names.key

def relative_item (item : String) : Except String (List Component) := do
  let path := components item.toList
  let segments_are_safe := !item.isEmpty && !item.toList.any (fun c => c == '\\' || c == '\x00') &&
    (item.toList.splitOn '/').all fun segment => segment != [] && segment != ['.'] && segment != ['.', '.']
  let is_absolute := path.head? == some .RootDir
  let components_are_normal := path.all fun component => component matches .Normal _
  refuse (!segments_are_safe || is_absolute || !components_are_normal)
    s!"invalid file provider item '{item}': expected a relative path without empty, '.', '..', or backslash components"
  return path

/-- A relative path is appended by `join`. -/
def entry_path (directory : List Component) (item : String) : Except String (List Component) :=
  (relative_item item).map (directory ++ ·)

end FileProvider

/-! ## Separators -/

/-- A component that the next two hyphens end. -/
structure Clean (component : List Char) : Prop where
  apart : ¬ ['-', '-'] <:+: component
  ending : component.getLast? ≠ some '-'

theorem check_hyphens_ok {c n component : String} (h : check_hyphens c n component = .ok ()) :
    Clean component.toList := by
  have hg := refuse_ok h
  simp only [Bool.or_eq_false_iff, beq_eq_false_iff_ne, decide_eq_false_iff_not] at hg
  exact ⟨hg.2, hg.1.2⟩

/-- A clean component is no longer than another one in its place. -/
theorem clean_prefix {a bt x y : List Char} (ha : Clean (a ++ bt))
    (h : '-' :: '-' :: y = bt ++ '-' :: '-' :: x) : bt = [] := by
  match bt with
  | [] => rfl
  | [c] =>
    cases (List.cons.inj h).1
    exact absurd (by simp) ha.ending
  | c :: d :: bt =>
    cases (List.cons.inj h).1
    cases (List.cons.inj (List.cons.inj h).2).1
    exact absurd ⟨a, bt, by simp⟩ ha.apart

theorem split_dashes {a b x y : List Char} (ha : Clean a) (hb : Clean b) (h : a ++ '-' :: '-' :: x = b ++ '-' :: '-' :: y) :
    a = b ∧ x = y := by
  rcases List.append_eq_append_iff.mp h with ⟨bt, rfl, hr⟩ | ⟨bt, rfl, hr⟩
  · cases clean_prefix hb hr
    simpa using hr
  · cases clean_prefix ha hr
    simpa [eq_comm] using hr

theorem joined_toList (head a b c : String) :
    (joined head a b c).toList =
      head.toList ++ '-' :: '-' :: (a.toList ++ '-' :: '-' :: (b.toList ++ '-' :: '-' :: c.toList)) := by
  simp [joined, String.toList_append]

section

variable {head : String} {validate : String → String → Except String Unit} {encode : String → String} {limit : Nat}
variable {too_long : Nat → String} {a b : Names} {x y : String}

theorem format_ok (h : format_secret_name head validate encode limit too_long a = .ok x) :
    x = joined head (encode a.project) (encode a.profile) (encode a.key) ∧ validate "project" a.project = .ok () ∧
      validate "profile" a.profile = .ok () := by
  obtain ⟨hp, h⟩ := Except.bind_unit_ok h
  obtain ⟨hf, h⟩ := Except.bind_unit_ok h
  replace h := Except.rest_ok h
  replace h := Except.rest_ok h
  cases h
  exact ⟨rfl, hp, hf⟩

theorem format_injective (hc : ∀ n component, validate n component = .ok () → Clean (encode component).toList)
    (he : ∀ a b, encode a = encode b → a = b) (ha : format_secret_name head validate encode limit too_long a = .ok x)
    (hb : format_secret_name head validate encode limit too_long b = .ok x) : a = b := by
  obtain ⟨hx, hr, hf⟩ := format_ok ha
  obtain ⟨hy, hp', hf'⟩ := format_ok hb
  have hl := congrArg String.toList (hx.symm.trans hy)
  rw [joined_toList, joined_toList] at hl
  have hs := (List.cons.inj (List.cons.inj (List.append_cancel_left hl)).2).2
  obtain ⟨hp, hs⟩ := split_dashes (hc _ _ hr) (hc _ _ hp') hs
  obtain ⟨hq, hk⟩ := split_dashes (hc _ _ hf) (hc _ _ hf') hs
  obtain ⟨p, pr, key⟩ := a
  cases he _ _ (String.toList_injective hp)
  cases he _ _ (String.toList_injective hq)
  cases he _ _ (String.toList_injective hk)
  rfl

end

/-! ## Encoded components -/

/-- The bits of a symbol in lower case. -/
def digit (c : Char) : List Bool := Sha2.bits 5 ((ALPHABET.map Char.toLower).idxOf c)

theorem digit_symbol : ∀ a b c d e : Bool, digit (symbol a b c d e).toLower = [a, b, c, d, e] := by decide +kernel

theorem symbol_lower : ∀ a b c d e : Bool,
    (symbol a b c d e).toLower.toLower = (symbol a b c d e).toLower ∧ (symbol a b c d e).toLower ≠ '-' := by decide +kernel

theorem read_base32 (l : List Bool) :
    ∃ fill : List Bool, fill.length < 5 ∧ ((base32 l).map Char.toLower).flatMap digit = l ++ fill := by
  match l with
  | [] => exact ⟨[], by decide, rfl⟩
  | [a] => exact ⟨[false, false, false, false], by decide, by simp [base32, digit_symbol]⟩
  | [a, b] => exact ⟨[false, false, false], by decide, by simp [base32, digit_symbol]⟩
  | [a, b, c] => exact ⟨[false, false], by decide, by simp [base32, digit_symbol]⟩
  | [a, b, c, d] => exact ⟨[false], by decide, by simp [base32, digit_symbol]⟩
  | a :: b :: c :: d :: e :: rest =>
    obtain ⟨fill, hf, hr⟩ := read_base32 rest
    exact ⟨fill, hf, by simp [base32, digit_symbol, hr]⟩

theorem mem_base32 (l : List Bool) {c : Char} (h : c ∈ (base32 l).map Char.toLower) : c.toLower = c ∧ c ≠ '-' := by
  match l with
  | [] => cases h
  | [_] | [_, _] | [_, _, _] | [_, _, _, _] =>
    rw [base32, List.map_singleton, List.mem_singleton] at h
    exact h ▸ symbol_lower ..
  | a :: b :: c :: d :: e :: rest =>
    rw [base32, List.map_cons, List.mem_cons] at h
    rcases h with rfl | h
    · exact symbol_lower ..
    · exact mem_base32 rest h

theorem byte_bits_injective {l m : List UInt8} (h : Sha2.byte_bits l = Sha2.byte_bits m) : l = m := by
  induction l generalizing m with
  | nil =>
    have hl := congrArg List.length h
    rw [Sha2.byte_bits_length, Sha2.byte_bits_length] at hl
    exact (List.eq_nil_of_length_eq_zero (by simpa using hl.symm)).symm
  | cons b l ih =>
    cases m with
    | nil =>
      have hl := congrArg List.length h
      rw [Sha2.byte_bits_length, Sha2.byte_bits_length] at hl
      simp at hl
    | cons c m =>
      rw [Sha2.byte_bits_cons, Sha2.byte_bits_cons] at h
      obtain ⟨hb, hr⟩ := List.append_inj h (by simp)
      have hn := congrArg Sha2.number hb
      simp only [Sha2.number, Sha2.foldl_bits, Nat.zero_mul, Nat.zero_add] at hn
      rw [Nat.mod_eq_of_lt b.toNat_lt, Nat.mod_eq_of_lt c.toNat_lt] at hn
      rw [ih hr, UInt8.toNat_inj.mp hn]

theorem encode_injective {a b : String} (h : AkvProvider.encode_name_component a = AkvProvider.encode_name_component b) :
    a = b := by
  obtain ⟨f, hf, ha⟩ := read_base32 (Sha2.byte_bits (utf8 a))
  obtain ⟨f', hf', hb⟩ := read_base32 (Sha2.byte_bits (utf8 b))
  have he : (base32 (Sha2.byte_bits (utf8 a))).map Char.toLower = (base32 (Sha2.byte_bits (utf8 b))).map Char.toLower :=
    String.ofList_injective h
  rw [he, hb] at ha
  have hl := congrArg List.length ha
  simp only [List.length_append, Sha2.byte_bits_length] at hl
  exact Executor.utf8_injective (byte_bits_injective (List.append_inj ha (by simp; omega)).1.symm)

theorem encoded_toList (component : String) :
    (AkvProvider.encode_name_component component).toList = (base32 (Sha2.byte_bits (utf8 component))).map Char.toLower :=
  String.toList_ofList

theorem encoded_lower (component : String) :
    (AkvProvider.encode_name_component component).toList.map Char.toLower =
      (AkvProvider.encode_name_component component).toList := by
  rw [encoded_toList]
  exact List.map_congr_left (g := id) (fun c hc => (mem_base32 _ hc).1) |>.trans (List.map_id _)

theorem encoded_clean (component : String) : Clean (AkvProvider.encode_name_component component).toList := by
  rw [encoded_toList]
  exact ⟨fun h => (mem_base32 _ (h.subset List.mem_cons_self)).2 rfl, fun h => (mem_base32 _ (List.mem_of_getLast? h)).2 rfl⟩

theorem akv_lower {names : Names} {n : String} (h : AkvProvider.format_secret_name names = .ok n) :
    n.toList.map Char.toLower = n.toList := by
  rw [(format_ok h).1, joined_toList]
  simp [encoded_lower]

/-! ## Components -/

/-- What the file provider takes for a part of a path. -/
structure Safe (part : List Char) : Prop where
  slash : '/' ∉ part
  allowed : part.any (fun c => c == '\\' || c == '\x00') = false
  ordinary : part ≠ [] ∧ part ≠ ['.'] ∧ part ≠ ['.', '.']

theorem validate_ok {value cr : String}
    (h : FileProvider.validate_convention_component value cr = .ok ()) : Safe value.toList := by
  have hg := refuse_ok h
  simp only [Bool.or_eq_false_iff, List.any_eq_false, beq_eq_false_iff_ne, String.isEmpty_eq_false_iff] at hg
  obtain ⟨⟨⟨⟨he, hch⟩, hd⟩, ht⟩, -⟩ := hg
  refine ⟨fun hm => hch _ hm rfl, List.any_eq_false.mpr fun c hc hb => hch c hc ?_,
    fun h => he (String.toList_injective h), fun h => hd (String.toList_injective h),
    fun h => ht (String.toList_injective h)⟩
  rw [Bool.or_assoc, hb, Bool.or_true]

theorem Safe.component {p : List Char} (h : Safe p) : inner_component p = some (.Normal p) := by
  rw [inner_component, if_neg (by simp [h.ordinary]), if_neg h.ordinary.2.2]

theorem split_path {a b c : List Char} (ha : Safe a) (hb : Safe b) (hc : Safe c) :
    (a ++ '/' :: (b ++ '/' :: c)).splitOn '/' = [a, b, c] := by
  rw [List.splitOn_append_cons_self_of_not_mem ha.slash, List.splitOn_append_cons_self_of_not_mem hb.slash,
    List.splitOn_eq_singleton hc.slash]

theorem convention_ok {names : Names} {i : String} (h : FileProvider.convention_address names = .ok i) :
    Safe names.project.toList ∧ Safe names.profile.toList ∧ Safe names.key.toList ∧
      i.toList = names.project.toList ++ '/' :: (names.profile.toList ++ '/' :: names.key.toList) := by
  obtain ⟨hp, h⟩ := Except.bind_unit_ok h
  obtain ⟨hf, h⟩ := Except.bind_unit_ok h
  obtain ⟨hk, h⟩ := Except.bind_unit_ok h
  cases h
  exact ⟨validate_ok hp, validate_ok hf, validate_ok hk, by simp [String.toList_append]⟩

theorem entry_path_ok {names : Names} {i : String} (h : FileProvider.convention_address names = .ok i)
    (d : List Component) :
    FileProvider.entry_path d i =
      .ok (d ++ [.Normal names.project.toList, .Normal names.profile.toList, .Normal names.key.toList]) := by
  obtain ⟨hp, hf, hk, hi⟩ := convention_ok h
  have hs : i.toList.splitOn '/' = [names.project.toList, names.profile.toList, names.key.toList] := by
    rw [hi, split_path hp hf hk]
  have hd : i.toList.head? ≠ some '/' := by
    rw [hi, List.head?_append_of_ne_nil _ hp.ordinary.1]
    exact fun hl => hp.slash (List.mem_of_head? hl)
  have hc : components i.toList =
      [.Normal names.project.toList, .Normal names.profile.toList, .Normal names.key.toList] := by
    rw [components, first, Paths.inner, hs, if_neg hd, if_neg (by simp [hp.ordinary.2.1])]
    simp [hp.component, hf.component, hk.component]
  have ha : i.toList.any (fun c => c == '\\' || c == '\x00') = false := by
    rw [hi]
    simp only [List.any_append, List.any_cons, hp.allowed, hf.allowed, hk.allowed]
    rfl
  have he : i.isEmpty = false :=
    String.isEmpty_eq_false_iff.mpr fun hn => by simp [hn] at hi
  have hg : (i.toList.splitOn '/').all (fun s => s != [] && s != ['.'] && s != ['.', '.']) =
      true := by
    rw [hs]
    simp [hp.ordinary, hf.ordinary, hk.ordinary]
  rw [FileProvider.entry_path, FileProvider.relative_item, hc, ha, he, hg]
  rfl

theorem item_injective {a b : Names} {i : String} (ha : FileProvider.convention_address a = .ok i)
    (hb : FileProvider.convention_address b = .ok i) : a = b := by
  have hp := (entry_path_ok ha []).symm.trans (entry_path_ok hb [])
  simp only [Except.ok.injEq, List.nil_append, List.cons.injEq, Component.Normal.injEq, String.toList_inj] at hp
  obtain ⟨p, pr, key⟩ := a
  obtain ⟨rfl, rfl, rfl, -⟩ := hp
  rfl

theorem current_not_legacy {a b : Names} {n : String} (h : GcsmProvider.format_secret_name a = .ok n) :
    n ≠ GcsmProvider.format_legacy_secret_name b := by
  intro he
  have hl := congrArg (fun n => n.toList[10]?) ((format_ok h).1.symm.trans he)
  rw [joined_toList] at hl
  simp [GcsmProvider.format_legacy_secret_name, String.toList_append] at hl

/-- Different triples have different names; a legacy name is none of them; an entry is below the directory. -/
theorem names_injective (a b : Names) :
    (∀ name, KubernetesProvider.format_secret_name a = .ok name → KubernetesProvider.format_secret_name b = .ok name →
      a = b) ∧
    (∀ name, GcsmProvider.format_secret_name a = .ok name → GcsmProvider.format_secret_name b = .ok name → a = b) ∧
    (∀ x y, AkvProvider.format_secret_name a = .ok x → AkvProvider.format_secret_name b = .ok y →
      x.toList.map Char.toLower = y.toList.map Char.toLower → a = b) ∧
    (∀ name, GcsmProvider.format_secret_name a = .ok name → name ≠ GcsmProvider.format_legacy_secret_name b) ∧
    (∀ item, FileProvider.convention_address a = .ok item → FileProvider.convention_address b = .ok item → a = b) ∧
    ∀ item directory, FileProvider.convention_address a = .ok item → FileProvider.entry_path directory item =
      .ok (directory ++ [.Normal a.project.toList, .Normal a.profile.toList, .Normal a.key.toList]) := by
  refine ⟨fun name => format_injective (fun _ _ h => ?_) fun _ _ => id, fun name => format_injective (fun _ _ h => ?_) fun _ _ => id,
    fun x y hx hy hf => ?_, fun name => current_not_legacy, fun item => item_injective, fun item directory h => entry_path_ok h directory⟩
  · exact check_hyphens_ok (Except.bind_unit_ok h).2
  · exact check_hyphens_ok (Except.bind_unit_ok h).2
  · rw [akv_lower hx, akv_lower hy] at hf
    cases String.toList_injective hf
    exact format_injective (fun _ component _ => encoded_clean component) (fun _ _ => encode_injective) hx hy

end Monosecret.Providers.SeparatedNames
