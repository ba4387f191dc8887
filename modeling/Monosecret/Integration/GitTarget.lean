/-
  Monosecret.Integration.GitTarget — the URL a Git credential is for
  (`validate_target` and `canonical_target` in `monosecret/src/integration/git.rs`).

  A URL is what its accessors return. The canonical text has the host in lower case, no
  default port and a path in one spelling: an escape of an unreserved character is decoded,
  every other one is in upper case, and what may not stand in a path is escaped. Read back,
  it is its own canonical text (`canonical_reparsed`).
-/

import Mathlib.Data.List.DropRight

namespace Monosecret.Integration.Git

structure Url where
  scheme : String
  username : String
  password : Option String
  host_str : Option String
  /-- None for the default port of the scheme. -/
  port : Option Nat
  path : String
  query : Option String
  fragment : Option String
  deriving DecidableEq

def trim_end_slashes (text : List Char) : List Char := text.rdropWhile (· == '/')

def validate_target (target : Url) : Except String Unit :=
  if target.scheme ≠ "http" ∧ target.scheme ≠ "https" ∧ target.scheme ≠ "smtp" then
    .error "Git credential URL must use HTTP, HTTPS, or SMTP"
  else if target.host_str.isNone then .error "Git credential URL must include a host"
  else if target.username ≠ "" ∨ target.password.isSome then .error "Git credential URL must not include credentials"
  else if target.query.isSome ∨ target.fragment.isSome then
    .error "Git credential URL must not include a query or fragment"
  else if target.scheme = "smtp" ∧ target.port.isNone then .error "SMTP credential URL must include an explicit port"
  else if target.scheme = "smtp" ∧ target.path.toList.any (· != '/') then
    .error "SMTP credential URL must not include a path"
  else .ok ()

/-! ## Paths -/

def hex_value (c : Char) : Option Nat :=
  if '0' ≤ c ∧ c ≤ '9' then some (c.toNat - 48)
  else if 'a' ≤ c ∧ c ≤ 'f' then some (c.toNat - 97 + 10)
  else if 'A' ≤ c ∧ c ≤ 'F' then some (c.toNat - 65 + 10)
  else none

def hex_digit (n : Nat) : Char := if n < 10 then Char.ofNat (48 + n) else Char.ofNat (55 + n)

/-- `%{byte:02X}`. -/
def escape (byte : Nat) : List Char := ['%', hex_digit (byte / 16), hex_digit (byte % 16)]

def unreserved (byte : Nat) : Bool :=
  (48 ≤ byte && byte ≤ 57) || (65 ≤ byte && byte ≤ 90) || (97 ≤ byte && byte ≤ 122) || [45, 46, 95, 126].contains byte

/-- `CONTROLS`, and the characters added to it. -/
def CANONICAL_PATH_ENCODE_SET (c : Char) : Bool :=
  c.toNat < 0x20 || c.toNat == 0x7f || " \"#<>\x60?\x7b\x7d%\\".toList.contains c

def utf8_percent_encode (c : Char) : List Char :=
  if c.toNat < 0x80 && !CANONICAL_PATH_ENCODE_SET c then [c]
  else (String.utf8EncodeChar c).flatMap fun byte => escape byte.toNat

def canonical_target_path : List Char → List Char
  | [] => []
  | '%' :: high :: low :: rest =>
    match hex_value high, hex_value low with
    | some high, some low =>
      let byte := high * 16 + low
      (if unreserved byte then [Char.ofNat byte] else escape byte) ++ canonical_target_path rest
    | _, _ => utf8_percent_encode '%' ++ canonical_target_path (high :: low :: rest)
  | c :: rest => utf8_percent_encode c ++ canonical_target_path rest

def canonical_path (url : Url) : String := String.ofList (trim_end_slashes (canonical_target_path url.path.toList))

def to_ascii_lowercase (text : String) : String := String.ofList (text.toList.map Char.toLower)

def canonical_target (url : Url) : String :=
  let target := url.scheme ++ "://"
  let target := match url.host_str with
    | some host => target ++ to_ascii_lowercase host
    | none => target
  let target := match url.port with
    | some port => target ++ ":" ++ toString port
    | none => target
  target ++ canonical_path url

/-- The text of a path that is spelled canonically. -/
inductive Canonical : List Char → Prop
  | nil : Canonical []
  | plain (c : Char) (rest : List Char) (hc : c ≠ '%') (he : utf8_percent_encode c = [c]) (h : Canonical rest) :
      Canonical (c :: rest)
  | escaped (byte : Nat) (rest : List Char) (hb : byte < 256) (hu : unreserved byte = false) (h : Canonical rest) :
      Canonical (escape byte ++ rest)

theorem hex_digit_value (n : Nat) (h : n < 16) : hex_value (hex_digit n) = some n ∧ hex_digit n ≠ '/' := by
  revert h
  revert n
  decide

theorem hex_value_lt {c : Char} {n : Nat} (h : hex_value c = some n) : n < 16 := by
  have toNat_le : ∀ {a b : Char}, a ≤ b → a.toNat ≤ b.toNat := id
  unfold hex_value at h
  split_ifs at h with hd hl hu <;> cases h
  · have := toNat_le hd.2
    have hn : '9'.toNat = 57 := rfl
    omega
  · have := toNat_le hl.2
    have hf : 'f'.toNat = 102 := rfl
    omega
  · have := toNat_le hu.2
    have hf : 'F'.toNat = 70 := rfl
    omega

/-- What is said of each ASCII character below, in one table. -/
theorem ascii_table :
    (∀ b < 256, unreserved b →
      Char.ofNat b ≠ '%' ∧ utf8_percent_encode (Char.ofNat b) = [Char.ofNat b]) ∧
    (∀ n < 128, CANONICAL_PATH_ENCODE_SET (Char.ofNat n) →
      ∀ b ∈ String.utf8EncodeChar (Char.ofNat n), unreserved b.toNat = false) ∧
    (∀ n < 128, (Char.ofNat n).toLower.toLower = (Char.ofNat n).toLower) ∧
    trim_end_slashes (canonical_target_path "/".toList) = [] := by
  decide +kernel

/-- An unreserved character is plain. -/
theorem unreserved_plain {b : Nat} (hb : b < 256) (h : unreserved b) :
    Char.ofNat b ≠ '%' ∧ utf8_percent_encode (Char.ofNat b) = [Char.ofNat b] :=
  ascii_table.1 b hb h

variable {l : List Char}

theorem canonical_append (hl : Canonical l) {r : List Char} (h : Canonical r) : Canonical (l ++ r) := by
  induction hl with
  | nil => exact h
  | plain c l hc he _ ih => exact .plain c _ hc he ih
  | escaped b l hb hu _ ih =>
    rw [List.append_assoc]
    exact .escaped b _ hb hu ih

theorem unreserved_high {b : Nat} (h : 128 ≤ b) : unreserved b = false := by
  unfold unreserved
  simp
  omega

/-- A character of the set is one byte, which is not unreserved. -/
theorem encode_set {n : Nat} (hn : n < 128) (h : CANONICAL_PATH_ENCODE_SET (Char.ofNat n)) :
    ∀ b ∈ String.utf8EncodeChar (Char.ofNat n), unreserved b.toNat = false :=
  ascii_table.2.1 n hn h

/-- A character past ASCII has no byte below 128. -/
theorem encode_high {c : Char} (hc : ¬ c.toNat < 0x80) : ∀ b ∈ String.utf8EncodeChar c, 128 ≤ b.toNat := by
  have hd : ¬ c.val.toNat < 0x80 := hc
  have high : ∀ n, 128 ≤ n → n < 256 → 128 ≤ (UInt8.ofNat n).toNat := fun n hl hg => by
    rw [UInt8.toNat_ofNat', Nat.mod_eq_of_lt hg]
    exact hl
  intro b h
  unfold String.utf8EncodeChar at h
  simp only at h
  split_ifs at h with ho ht hth
  · omega
  · simp only [List.mem_cons, List.not_mem_nil, or_false] at h
    rcases h with rfl | rfl <;> exact high _ (by omega) (by omega)
  · simp only [List.mem_cons, List.not_mem_nil, or_false] at h
    rcases h with rfl | rfl | rfl <;> exact high _ (by omega) (by omega)
  · simp only [List.mem_cons, List.not_mem_nil, or_false] at h
    rcases h with rfl | rfl | rfl | rfl <;> exact high _ (by omega) (by omega)

/-- The bytes of a character that is escaped are not unreserved. -/
theorem canonical_encode (c : Char) : Canonical (utf8_percent_encode c) := by
  unfold utf8_percent_encode
  split
  · rename_i hk
    by_cases hc : c = '%'
    · subst hc
      exact absurd hk (by decide)
    · exact .plain c [] hc (if_pos hk) .nil
  · rename_i he
    have hy : ∀ bt ∈ String.utf8EncodeChar c, unreserved bt.toNat = false := by
      by_cases hc : c.toNat < 0x80
      · have hs : CANONICAL_PATH_ENCODE_SET c := by simpa [hc] using he
        rw [← Char.ofNat_toNat c] at hs ⊢
        exact encode_set hc hs
      · exact fun bt hb => unreserved_high (encode_high hc bt hb)
    generalize String.utf8EncodeChar c = bs at hy
    induction bs with
    | nil => exact .nil
    | cons bt bs ih =>
      rw [List.flatMap_cons]
      exact .escaped bt.toNat _ bt.toNat_lt (hy bt (.head _))
        (ih fun b hb => hy b (.tail _ hb))

theorem canonical_path_canonical (l : List Char) : Canonical (canonical_target_path l) := by
  fun_induction canonical_target_path l with
  | case1 => exact .nil
  | case2 high lw r h l hh hl b ih =>
    refine canonical_append ?_ ih
    have hb : b < 256 := by
      have hg := hex_value_lt hh
      have hw := hex_value_lt hl
      omega
    split
    · rename_i hu
      exact .plain _ [] (unreserved_plain hb hu).1 (unreserved_plain hb hu).2 .nil
    · rename_i hu
      exact (List.append_nil (escape b)) ▸ .escaped b [] hb (Bool.eq_false_iff.mpr hu) .nil
  | case3 high lw r h ih => exact canonical_append (canonical_encode '%') ih
  | case4 c r h ih => exact canonical_append (canonical_encode c) ih

/-- A canonical path is its own canonical spelling. -/
theorem Canonical.fixed (h : Canonical l) : canonical_target_path l = l := by
  induction h with
  | nil => rfl
  | plain c r hc he _ ih =>
    rw [canonical_target_path, he, ih]
    · rfl
    · exact fun _ _ _ h => absurd h hc
  | escaped byte r hb hu _ ih =>
    show canonical_target_path ('%' :: hex_digit (byte / 16) :: hex_digit (byte % 16) :: r) = _
    have hg := (hex_digit_value (byte / 16) (by omega)).1
    have hl := (hex_digit_value (byte % 16) (by omega)).1
    have hy : byte / 16 * 16 + byte % 16 = byte := by omega
    rw [canonical_target_path, hg, hl]
    dsimp only
    rw [hy, hu, if_neg Bool.false_ne_true, ih]

/-- Without its last slash it stays canonical. -/
theorem Canonical.of_slash (h : Canonical (l ++ ['/'])) : Canonical l := by
  generalize ht : l ++ ['/'] = t at h
  induction h generalizing l with
  | nil => simp at ht
  | plain c r hc he h ih =>
    cases l with
    | nil => exact .nil
    | cons d l =>
      obtain ⟨rfl, hl⟩ := List.cons.inj ht
      exact .plain d l hc he (ih hl)
  | escaped b r hb hu h ih =>
    have hn : hex_digit (b % 16) ≠ '/' := (hex_digit_value (b % 16) (by omega)).2
    rcases List.eq_nil_or_concat r with rfl | ⟨init, last, rfl⟩
    · -- The last character of an escape is not a slash.
      have hs := congrArg List.getLast? ht
      simp [escape] at hs
      exact absurd hs.symm hn
    · rw [List.concat_eq_append, ← List.append_assoc] at ht
      obtain ⟨rfl, hs⟩ := List.append_inj' ht rfl
      exact .escaped b init hb hu (ih (by rw [List.concat_eq_append, hs]))

theorem Canonical.trimmed (h : Canonical l) : Canonical (trim_end_slashes l) := by
  induction l using List.reverseRecOn with
  | nil => exact .nil
  | append_singleton l c ih =>
    unfold trim_end_slashes
    by_cases hc : c = '/'
    · subst hc
      rw [List.rdropWhile_concat_pos _ _ _ rfl]
      exact ih h.of_slash
    · rw [List.rdropWhile_concat_neg _ _ _ (by simpa using hc)]
      exact h

theorem canonical_path_trimmed (l : List Char) :
    trim_end_slashes (canonical_target_path (trim_end_slashes (canonical_target_path l))) =
      trim_end_slashes (canonical_target_path l) := by
  rw [(canonical_path_canonical l).trimmed.fixed]
  exact List.rdropWhile_idempotent _ _

/-! ## Reading the canonical text -/

theorem toLower_idempotent (c : Char) : c.toLower.toLower = c.toLower := by
  by_cases hc : c.val ≥ 'A'.val ∧ c.val ≤ 'Z'.val
  · have hl : c.toNat < 128 := lt_of_le_of_lt (UInt32.le_iff_toNat_le.mp hc.2) (by decide)
    have h := ascii_table.2.2.1 c.toNat hl
    rwa [Char.ofNat_toNat] at h
  · have hs : c.toLower = c := dif_neg hc
    rw [hs, hs]

theorem to_ascii_lowercase_idempotent (text : String) :
    to_ascii_lowercase (to_ascii_lowercase text) = to_ascii_lowercase text := by
  simp only [to_ascii_lowercase, String.toList_ofList, List.map_map, String.ofList_inj]
  exact List.map_congr_left fun c _ => toLower_idempotent c

/-- The URL that its canonical text is: a URL with an authority may have the root for an
    empty path. -/
def Url.canonical (url : Url) (path : String) : Url :=
  { url with host_str := url.host_str.map to_ascii_lowercase, path }

/-- `parse` reads the canonical text of a URL it read. -/
def Rereads (parse : String → Option Url) : Prop :=
  ∀ text url, parse text = some url → validate_target url = .ok () →
    ∃ path, (path = canonical_path url ∨ canonical_path url = "" ∧ path = "/") ∧
      parse (canonical_target url) = some (url.canonical path)

theorem canonical_reparsed {url : Url} {p : String}
    (hp : p = canonical_path url ∨ canonical_path url = "" ∧ p = "/") :
    canonical_target (url.canonical p) = canonical_target url := by
  have hc : canonical_path (url.canonical p) = canonical_path url := by
    rcases hp with rfl | ⟨he, rfl⟩
    · simp only [canonical_path, Url.canonical, String.toList_ofList, canonical_path_trimmed]
    · exact (congrArg String.ofList ascii_table.2.2.2).trans he.symm
  unfold canonical_target
  rw [hc]
  cases hs : url.host_str with
  | none => simp [Url.canonical, hs]
  | some host => simp [Url.canonical, hs, to_ascii_lowercase_idempotent]

end Monosecret.Integration.Git
