/-
  Monosecret.Manifest.RefTemplate — the `ref` template of a provider alias
  (`monosecret/src/config.rs`: `expand_address_template`, `NativeAddressTemplate::validate`,
  `NativeAddressTemplate::expand`).

  A template is characters other than braces, and the placeholders `{project}`, `{profile}`
  and `{key}`. `validate` runs the expansion on three fixed names, and the expansion of a
  secret runs it again on the names of that secret.

  `ref_template_exact`: the templates taken are those of the grammar, whatever the names; the
  result has each placeholder's name in its place and the names are not read again; a
  template that `validate` took is expanded.
-/

import Monosecret.Manifest.Alias
import Monosecret.Lib.Texts

namespace Monosecret.Manifest

open Lib

/-- Expand an alias template for one logical secret. -/
def NativeCoordinates.expand (template : NativeAddressTemplate) (project profile key : String) : Except String NativeAddress := do
  template.validate
  let expand := fun value => expand_address_template value project profile key
  let item ← expand template.item
  let field ← template.field.mapM expand
  let vault ← template.vault.mapM expand
  let section_ ← template.section_.mapM expand
  let version ← template.version.mapM expand
  .ok ⟨item, field, vault, section_, version⟩

namespace RefTemplate

/-! ## The grammar -/

inductive Token where
  | char (c : Char)
  | project
  | profile
  | key
  deriving DecidableEq

def Token.text : Token → List Char
  | .char c => [c]
  | .project => "{project}".toList
  | .profile => "{profile}".toList
  | .key => "{key}".toList

def spelled (tokens : List Token) : List Char := tokens.flatMap Token.text

def Grammar (tokens : List Token) : Prop := ∀ c, Token.char c ∈ tokens → c ≠ '{' ∧ c ≠ '}'

def Token.filled (project profile key : String) : Token → List Char
  | .char c => [c]
  | .project => project.toList
  | .profile => profile.toList
  | .key => key.toList

/-- One pass: each token stands for its own text. -/
def substituted (project profile key : String) (tokens : List Token) : String :=
  String.ofList (tokens.flatMap (Token.filled project profile key))

/-- The placeholder of a name. -/
def placeholder (name : List Char) : Option Token :=
  if name = "project".toList then some .project
  else if name = "profile".toList then some .profile
  else if name = "key".toList then some .key
  else none

/-! ## The loop -/

variable {template project profile key : String} {tokens : List Token} {rest : List Char}

theorem placeholder_text {n : List Char} {t : Token} (h : placeholder n = some t) :
    t.text = '{' :: (n ++ ['}']) ∧ ∀ c, t ≠ .char c := by
  unfold placeholder at h
  split at h
  · rename_i hn
    cases h
    exact ⟨by rw [hn]; decide, fun _ he => (by cases he)⟩
  · split at h
    · rename_i hn
      cases h
      exact ⟨by rw [hn]; decide, fun _ he => (by cases he)⟩
    · split at h
      · rename_i hn
        cases h
        exact ⟨by rw [hn]; decide, fun _ he => (by cases he)⟩
      · cases h

/-- The value the loop has for a placeholder's name. -/
theorem placeholder_value (n : List Char) :
    (if String.ofList n = "project" then some project
      else if String.ofList n = "profile" then some profile
      else if String.ofList n = "key" then some key
      else none : Option String) = (placeholder n).map fun tk => String.ofList (tk.filled project profile key) := by
  have hs (t : String) : String.ofList n = t ↔ n = t.toList := by
    rw [← String.toList_inj, String.toList_ofList]
  unfold placeholder
  simp only [hs]
  split
  · exact congrArg some String.ofList_toList.symm
  · split
    · exact congrArg some String.ofList_toList.symm
    · split
      · exact congrArg some String.ofList_toList.symm
      · rfl

theorem expand_last (h : ∀ c ∈ rest, c ≠ '{' ∧ c ≠ '}') : expand_rest template project profile key rest = .ok rest := by
  have hd : rest.dropWhile (· != '{') = [] := List.dropWhile_eq_nil_iff.mpr fun c hc => by simpa using (h c hc).1
  rw [expand_rest]
  split
  · exact if_neg fun hc => (h '}' hc).2 rfl
  · rename_i he
    rw [hd] at he
    cases he

theorem expand_placeholder {n before : List Char} {t : Token} (hn : ∀ c ∈ n, c ≠ '}') (ht : placeholder n = some t)
    (hb : ∀ c ∈ before, c ≠ '{' ∧ c ≠ '}') :
    expand_rest template project profile key (before ++ t.text ++ rest) =
      (expand_rest template project profile key rest).map fun tail => before ++ t.filled project profile key ++ tail := by
  have hf : ∀ c ∈ before, (c != '{') := fun c hc => by simpa using (hb c hc).1
  have hi : ∀ c ∈ n, (c != '}') := fun c hc => by simpa using hn c hc
  have hx : before ++ t.text ++ rest = before ++ '{' :: (n ++ '}' :: rest) := by
    rw [(placeholder_text ht).1]
    simp
  rw [hx, expand_rest]
  split
  · rename_i he
    rw [Texts.dropWhile_split hf (by decide)] at he
    cases he
  · rename_i he
    rw [Texts.dropWhile_split hf (by decide)] at he
    obtain ⟨-, rfl⟩ := List.cons.inj he
    rw [Texts.takeWhile_split hf (by decide), if_neg fun hc => (hb _ hc).2 rfl]
    split
    · rename_i hnn
      rw [Texts.dropWhile_split hi (by decide)] at hnn
      cases hnn
    · rename_i hs
      rw [Texts.dropWhile_split hi (by decide)] at hs
      obtain ⟨-, rfl⟩ := List.cons.inj hs
      simp only [Texts.takeWhile_split hi (show ('}' != '}') = false by decide), placeholder_value, ht, Option.map_some,
        String.toList_ofList]

theorem unbraced {n : List Char} (h : n.all (· != '}')) : ∀ c ∈ n, c ≠ '}' := fun c hc =>
  bne_iff_ne.mp (List.all_eq_true.mp h c hc)

theorem placeholder_name {t : Token} (h : ∀ c, t ≠ .char c) :
    ∃ n, placeholder n = some t ∧ ∀ c ∈ n, c ≠ '}' := by
  cases t with
  | char c => exact absurd rfl (h c)
  | project => exact ⟨"project".toList, by decide, unbraced (by decide)⟩
  | profile => exact ⟨"profile".toList, by decide, unbraced (by decide)⟩
  | key => exact ⟨"key".toList, by decide, unbraced (by decide)⟩

/-- The loop on a template of the grammar, after characters of its first stretch. -/
theorem expand_spelled (h : Grammar tokens) {before : List Char} (hb : ∀ c ∈ before, c ≠ '{' ∧ c ≠ '}') :
    expand_rest template project profile key (before ++ spelled tokens) =
      .ok (before ++ tokens.flatMap (Token.filled project profile key)) := by
  induction tokens generalizing before with
  | nil =>
    show expand_rest template project profile key (before ++ []) = .ok (before ++ [])
    rw [List.append_nil]
    exact expand_last hb
  | cons t tokens ih =>
    have hr : Grammar tokens := fun c hc => h c (.tail _ hc)
    have hn : ∀ c ∈ ([] : List Char), c ≠ '{' ∧ c ≠ '}' := fun _ hc => (by cases hc)
    by_cases hch : ∃ c, t = .char c
    · obtain ⟨c, rfl⟩ := hch
      have hm : ∀ d ∈ before ++ [c], d ≠ '{' ∧ d ≠ '}' := by
        intro d hd
        rcases List.mem_append.mp hd with hd | hd
        · exact hb d hd
        · exact List.mem_singleton.mp hd ▸ h c (.head _)
      have hrn := ih hr hm
      rw [List.append_assoc, List.append_assoc] at hrn
      exact hrn
    · obtain ⟨n, ht, hnm⟩ := placeholder_name (not_exists.mp hch)
      show expand_rest template project profile key (before ++ (t.text ++ spelled tokens)) = _
      rw [← List.append_assoc, expand_placeholder hnm ht hb]
      have hrn := ih hr hn
      rw [List.nil_append, List.nil_append] at hrn
      rw [hrn, List.flatMap_cons, ← List.append_assoc]
      rfl

theorem spelled_chars (text : List Char) : spelled (text.map Token.char) = text := by
  rw [spelled, List.flatMap_map]
  exact List.flatMap_singleton' text

theorem spelled_append (tokens more : List Token) : spelled (tokens ++ more) = spelled tokens ++ spelled more := List.flatMap_append

theorem grammar_chars {t : List Char} (h : ∀ c ∈ t, c ≠ '{' ∧ c ≠ '}') : Grammar (t.map Token.char) := by
  intro c hc
  obtain ⟨d, hd, he⟩ := List.mem_map.mp hc
  obtain rfl := Token.char.inj he
  exact h d hd

theorem takeWhile_no_open {t : List Char} (h : '}' ∉ t.takeWhile (· != '{')) : ∀ c ∈ t.takeWhile (· != '{'), c ≠ '{' ∧ c ≠ '}' := by
  intro c hc
  refine ⟨by simpa using List.mem_takeWhile_imp hc, ?_⟩
  rintro rfl
  exact h hc

/-- Around the first of a character. -/
theorem split_first {t more : List Char} {c d : Char} (h : t.dropWhile (· != c) = d :: more) :
    d = c ∧ t = t.takeWhile (· != c) ++ c :: more := by
  have hd : d = c := by
    have hhd : (t.dropWhile (· != c)).head? = some d := by rw [h]; rfl
    have hn := List.head?_dropWhile_not (· != c) t
    rw [hhd] at hn
    simpa using hn
  refine ⟨hd, ?_⟩
  rw [← hd, ← h, hd, List.takeWhile_append_dropWhile]

/-- What the loop takes is of the grammar; the induction is on the length of what is left. -/
theorem expand_grammar {o : List Char} (h : expand_rest template project profile key rest = .ok o) :
    ∃ tokens, Grammar tokens ∧ spelled tokens = rest := by
  induction hn : rest.length using Nat.strong_induction_on generalizing rest o with
  | _ n ih =>
    rw [expand_rest] at h
    split at h
    · rename_i hnn
      split at h
      · cases h
      · rename_i hl
        have hk : rest.takeWhile (· != '{') = rest := by
          have ha := List.takeWhile_append_dropWhile (p := (· != '{')) (l := rest)
          rwa [hnn, List.append_nil] at ha
        exact ⟨rest.map Token.char, grammar_chars (hk ▸ takeWhile_no_open (hk.symm ▸ hl)), spelled_chars rest⟩
    · rename_i af ho
      obtain ⟨-, hr⟩ := split_first ho
      split at h
      · cases h
      · rename_i hb
        split at h
        · cases h
        · rename_i a hl
          obtain ⟨-, hi⟩ := split_first hl
          simp only [placeholder_value] at h
          cases ht : placeholder (af.takeWhile (· != '}')) with
          | none =>
            rw [ht] at h
            cases h
          | some t =>
            rw [ht] at h
            obtain ⟨tl, htl, -⟩ := Except.map_eq_ok.mp h
            have hsh : a.length < n := by
              rw [← hn, hr, hi]
              simp only [List.length_append, List.length_cons]
              omega
            obtain ⟨tokens, hg, hs⟩ := ih _ hsh htl rfl
            refine ⟨(rest.takeWhile (· != '{')).map Token.char ++ t :: tokens, ?_, ?_⟩
            · intro c hc
              rcases List.mem_append.mp hc with hc | hc
              · exact grammar_chars (takeWhile_no_open hb) c hc
              · rcases List.mem_cons.mp hc with he | hc
                · exact absurd he.symm ((placeholder_text ht).2 c)
                · exact hg c hc
            · rw [spelled_append, spelled_chars]
              show _ ++ (t.text ++ spelled tokens) = rest
              rw [(placeholder_text ht).1, hs]
              conv_rhs => rw [hr, hi]
              simp

/-! ## Templates -/

theorem expand_eq (hg : Grammar tokens) (hs : spelled tokens = template.toList) :
    expand_address_template template project profile key = .ok (substituted project profile key tokens) := by
  have hr : expand_rest template project profile key ([] ++ spelled tokens) =
      .ok ([] ++ tokens.flatMap (Token.filled project profile key)) := expand_spelled hg fun _ hc => (by cases hc)
  rw [List.nil_append, List.nil_append, hs] at hr
  rw [expand_address_template, hr]
  rfl

theorem expand_ok_iff : (∃ o, expand_address_template template project profile key = .ok o) ↔
    ∃ tokens, Grammar tokens ∧ spelled tokens = template.toList := by
  constructor
  · rintro ⟨o, h⟩
    obtain ⟨_, hr, -⟩ := Except.map_eq_ok.mp h
    exact expand_grammar hr
  · rintro ⟨tokens, hg, hs⟩
    exact ⟨_, expand_eq hg hs⟩

/-- Every coordinate that is there says something, and is of the grammar. -/
theorem validate_ok_iff {a : NativeAddressTemplate} :
    a.validate = .ok () ↔ ∀ n value, (n, some value) ∈ a.coordinates →
      is_blank value = false ∧ ∃ tokens, Grammar tokens ∧ spelled tokens = value.toList := by
  rw [NativeCoordinates.validate, Except.forM_ok_iff]
  simp only [← @expand_ok_iff _ "project" "profile" "KEY", ← Bool.not_eq_true]
  constructor
  · intro h n value hm
    have hv := h _ hm
    simp only at hv
    split_ifs at hv with hb
    cases ho : expand_address_template value "project" "profile" "KEY" with
    | ok o => exact ⟨hb, o, rfl⟩
    | error error =>
      rw [ho] at hv
      cases hv
  · rintro h ⟨n, value⟩ hm
    cases value with
    | none => rfl
    | some value =>
      obtain ⟨hb, o, ho⟩ := h n value hm
      simp only [if_neg hb, ho]

theorem mapM_expand {f : String → Except String String} (value : Option String) (h : ∀ t, value = some t → ∃ out, f t = .ok out) :
    ∃ out, value.mapM f = .ok out := by
  cases value with
  | none => exact ⟨none, rfl⟩
  | some t =>
    obtain ⟨out, ho⟩ := h t rfl
    refine ⟨some out, ?_⟩
    rw [Option.mapM_some, ho]
    rfl

theorem expand_address {a : NativeAddressTemplate} (h : a.validate = .ok ()) (project profile key : String) :
    ∃ expanded, a.expand project profile key = .ok expanded := by
  have hc (n value : String) (hm : (n, some value) ∈ a.coordinates) :
      ∃ out, expand_address_template value project profile key = .ok out := expand_ok_iff.mpr (validate_ok_iff.mp h n value hm).2
  obtain ⟨item, hi⟩ := hc "item" a.item (by simp [NativeCoordinates.coordinates])
  obtain ⟨field, hf⟩ := mapM_expand a.field fun t he => hc "field" t (by simp [NativeCoordinates.coordinates, he])
  obtain ⟨vault, hv⟩ := mapM_expand a.vault fun t he => hc "vault" t (by simp [NativeCoordinates.coordinates, he])
  obtain ⟨s, hs⟩ := mapM_expand a.section_ fun t he => hc "section" t (by simp [NativeCoordinates.coordinates, he])
  obtain ⟨version, hr⟩ := mapM_expand a.version fun t he => hc "version" t (by simp [NativeCoordinates.coordinates, he])
  refine ⟨⟨item, field, vault, s, version⟩, ?_⟩
  unfold NativeCoordinates.expand
  rw [h]
  simp only [hi, hf, hv, hs, hr]
  rfl

theorem ref_template_exact :
    (∀ template project profile key, (∃ out, expand_address_template template project profile key = .ok out) ↔
      ∃ tokens, Grammar tokens ∧ spelled tokens = template.toList) ∧
    (∀ template project profile key tokens, Grammar tokens → spelled tokens = template.toList →
      expand_address_template template project profile key = .ok (substituted project profile key tokens)) ∧
    ∀ (address : NativeAddressTemplate), address.validate = .ok () → ∀ project profile key,
      ∃ expanded, address.expand project profile key = .ok expanded :=
  ⟨fun _ _ _ _ => expand_ok_iff, fun _ _ _ _ _ hg hs => expand_eq hg hs, fun _ h => expand_address h⟩

/-- A profile that reads as a placeholder is inserted as it is. -/
theorem profile_as_placeholder :
    (∃ out, expand_address_template "{project}/{profile}/{key}" "web" "{key}" "TOKEN" = .ok out) ∧
      expand_address_template "{project}/{profile}/{key}" "web" "{key}" "TOKEN" = .ok "web/{key}/TOKEN" ∧
      ∃ expanded, NativeCoordinates.expand ⟨"{project}/{profile}/{key}", none, some "{profile}", none, none⟩ "web" "{key}" "TOKEN" = .ok expanded := by
  have ht : Grammar [.project, .char '/', .profile, .char '/', .key] ∧
      spelled [.project, .char '/', .profile, .char '/', .key] = "{project}/{profile}/{key}".toList := by
    refine ⟨?_, by decide⟩
    intro c hc
    simp only [List.mem_cons, reduceCtorEq, false_or, Token.char.injEq, List.not_mem_nil, or_false, or_self] at hc
    subst hc
    decide
  have hv : NativeCoordinates.validate ⟨"{project}/{profile}/{key}", none, some "{profile}", none, none⟩ = .ok () := by
    refine validate_ok_iff.mpr fun n value hm => ?_
    simp only [NativeCoordinates.coordinates, List.mem_cons, Prod.mk.injEq, Option.some.injEq, List.not_mem_nil, or_false,
      reduceCtorEq, and_false] at hm
    rcases hm with ⟨-, rfl⟩ | ⟨-, rfl⟩
    · exact ⟨by decide, [.profile], fun _ hc => (by simp at hc), by decide⟩
    · exact ⟨by decide, _, ht⟩
  exact ⟨(ref_template_exact.1 _ _ _ _).mpr ⟨_, ht⟩, ref_template_exact.2.1 _ _ _ _ _ ht.1 ht.2,
    ref_template_exact.2.2 _ hv _ _ _⟩

end RefTemplate

end Monosecret.Manifest
