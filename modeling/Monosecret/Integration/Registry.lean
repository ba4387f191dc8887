/-
  Monosecret.Integration.Registry — the spelling a Docker registry is recorded under
  (`canonical_registry` in `monosecret/src/integration/docker.rs`).

  Parsing a URL is the parser of the `url` crate, a parameter; `Whatwg` lists what the URL
  standard says of it: which characters a host is written with, and that a host written
  after `https://` is parsed as itself again.

  A recorded spelling is read back as itself unless it is one of the three host names of
  Docker Hub (`canonical_registry_iff`): those are rewritten before anything is parsed, and a
  registry whose URL parses to one of them without being written as one of the eleven
  spellings is recorded under that name (`hub_slips_through`).
-/

import Mathlib
import Monosecret.Manifest.Selection

namespace Monosecret.Integration

open Lib Texts Manifest

/-! ## URLs -/

/-- An address is the text it is displayed as. -/
inductive Host where
  | Domain (name : String)
  | Ipv4 (address : String)
  | Ipv6 (address : String)
  deriving DecidableEq

def Host.text : Host → String
  | .Domain name => name
  | .Ipv4 address => address
  | .Ipv6 address => s!"[{address}]"

structure Url where
  scheme : String
  username : String
  password : Option String
  host : Option Host
  port : Option UInt16
  path : String
  query : Option String
  fragment : Option String
  deriving DecidableEq

abbrev UrlParser := String → Except String Url

def Url.is_http (url : Url) : Bool := url.scheme == "http" || url.scheme == "https"

def with_port (host : String) : Option UInt16 → String
  | some port => s!"{host}:{port.toNat}"
  | none => host

/-- Neither a control, a space nor a forbidden domain code point, and no capital. -/
def is_domain_char (c : Char) : Bool :=
  0x21 ≤ c.val && c.val ≤ 0x7E && !"%#/:<>?@[\\]^|".toList.contains c && !c.isUpper

def is_ipv6_char (c : Char) : Bool := c.isDigit || (0x61 ≤ c.val && c.val ≤ 0x66) || c == ':' || c == '.'

/-- What the URL standard says of the parser, for the schemes `http` and `https`. -/
structure Whatwg (parse : UrlParser) : Prop where
  domain {text : String} {url : Url} {name : String} : parse text = .ok url → url.is_http = true →
    url.host = some (.Domain name) → name ≠ "" ∧ ∀ c ∈ name.toList, is_domain_char c = true
  ipv4 {text : String} {url : Url} {address : String} : parse text = .ok url → url.is_http = true →
    url.host = some (.Ipv4 address) → address ≠ "" ∧ ∀ c ∈ address.toList, c.isDigit = true ∨ c = '.'
  ipv6 {text : String} {url : Url} {address : String} : parse text = .ok url → url.is_http = true →
    url.host = some (.Ipv6 address) → ∀ c ∈ address.toList, is_ipv6_char c = true
  /-- 443 is the port of `https`. -/
  written {text : String} {url : Url} {host : Host} (port : Option UInt16) : parse text = .ok url → url.is_http = true →
    url.host = some host →
    parse ("https://" ++ with_port host.text port) = .ok ⟨"https", "", none, some host, port.filter (· ≠ 443), "/", none, none⟩

/-! ## The recorded spelling -/

def HUB : String := "https://index.docker.io/v1/"

def hub_spellings : List String :=
  ["docker.io", "http://docker.io", "https://docker.io", "index.docker.io", "http://index.docker.io",
   "https://index.docker.io", "registry-1.docker.io", "http://registry-1.docker.io", "https://registry-1.docker.io",
   "https://index.docker.io/v1", "http://index.docker.io/v1"]

def is_ascii_control (c : Char) : Bool := c.val ≤ 0x1F || c.val == 0x7F

def trim_end_matches (c : Char) (text : String) : String := .ofList (text.toList.rdropWhile (· == c))

def to_ascii_lowercase (text : String) : String := .ofList (text.toList.map Char.toLower)

def names_hub (input : String) : Bool := hub_spellings.contains (to_ascii_lowercase (trim_end_matches '/' input))

def split_scheme (input : String) : Option (List Char × List Char) := split_once "://".toList input.toList

/-- The text that is parsed. -/
def written (input : String) : String := if (split_scheme input).isSome then input else "https://" ++ input

/-- Its host, when the URL has nothing but a host and a port. -/
def plain_host (url : Url) : Option Host :=
  if url.is_http ∧ url.username = "" ∧ url.password = none ∧ (url.path = "" ∨ url.path = "/") ∧ url.query = none ∧
      url.fragment = none then url.host
  else none

def explicit_port_text (input : String) : Option (List Char) :=
  let authority := ((split_scheme input).map Prod.snd).getD input.toList |>.rdropWhile (· == '/')
  if authority.head? = some '[' then
    (rsplit_once ']' authority).bind fun halves => if halves.2.head? = some ':' then some halves.2.tail else none
  else
    (rsplit_once ':' authority).bind fun halves => if ':' ∈ halves.1 then none else some halves.2

def parse_u16 (text : List Char) : Option UInt16 := (parse_unsigned (2 ^ 16) text).map UInt16.ofNat

def explicit_port (input : String) : Except String (Option UInt16) :=
  match explicit_port_text input with
  | none => .ok none
  | some text =>
    match parse_u16 text with
    | some port => .ok (some port)
    | none => .error "Docker registry port is invalid"

def plain_registry (parse : UrlParser) (input : String) : Except String String := do
  let parsed ← (parse (written input)).mapError fun error => s!"Invalid Docker registry: {error}"
  match plain_host parsed with
  | none => .error "Docker registry must be a hostname with an optional port and no path"
  | some host =>
    let explicit_port ← explicit_port input
    return with_port host.text (parsed.port <|> explicit_port)

def canonical_registry (parse : UrlParser) (input : String) : Except String String :=
  let input := trimmed input
  if input = "" then .error "Docker registry cannot be empty"
  else if input.toList.any is_ascii_control then .error "Docker registry cannot contain control characters"
  else if names_hub input then .ok HUB
  else plain_registry parse input

/-! ## What a host and a port are written with -/

def is_authority_char (c : Char) : Bool := 0x21 ≤ c.val && c.val ≤ 0x7E && c != '/' && !c.isUpper

theorem is_authority_char_iff {c : Char} :
    is_authority_char c ↔ 0x21 ≤ c.toNat ∧ c.toNat ≤ 0x7E ∧ c ≠ '/' ∧ c.isUpper = false := by
  simp [is_authority_char, UInt32.le_iff_toNat_le, and_assoc]

theorem not_whitespace {c : Char} (h : is_authority_char c) : is_whitespace c = false := by
  obtain ⟨h, h', -, -⟩ := is_authority_char_iff.mp h
  simp [is_whitespace, UInt32.le_iff_toNat_le, ← UInt32.toNat_inj]
  omega

theorem not_control {c : Char} (h : is_authority_char c) : is_ascii_control c = false := by
  obtain ⟨h, h', -, -⟩ := is_authority_char_iff.mp h
  simp [is_ascii_control, UInt32.le_iff_toNat_le, ← UInt32.toNat_inj]
  omega

theorem toLower_self {c : Char} (h : is_authority_char c) : c.toLower = c := by
  obtain ⟨-, -, -, h⟩ := is_authority_char_iff.mp h
  unfold Char.toLower
  rw [dif_neg]
  simpa [Char.isUpper] using h

theorem digit_authority {c : Char} (h : c.isDigit) : is_authority_char c := by
  simp [Char.isDigit, UInt32.le_iff_toNat_le] at h
  simp [is_authority_char, Char.isUpper, UInt32.le_iff_toNat_le]
  refine ⟨⟨⟨by omega, by omega⟩, ?_⟩, by omega⟩
  rintro rfl
  simp at h

theorem domain_authority {c : Char} (h : is_domain_char c) : is_authority_char c ∧ c ≠ ':' ∧ c ≠ '[' := by
  simp [is_domain_char] at h
  simp [is_authority_char]
  tauto

theorem ipv6_authority {c : Char} (h : is_ipv6_char c) : is_authority_char c ∧ c ≠ ']' := by
  simp only [is_ipv6_char, Bool.or_eq_true, Bool.and_eq_true, decide_eq_true_eq, beq_iff_eq] at h
  rcases h with ((h | h) | rfl) | rfl
  · exact ⟨digit_authority h, by rintro rfl; exact absurd h (by decide)⟩
  · simp [UInt32.le_iff_toNat_le] at h
    refine ⟨is_authority_char_iff.mpr ⟨by omega, by omega, ?_, ?_⟩, ?_⟩
    · rintro rfl
      simp at h
    · simp [Char.isUpper, UInt32.le_iff_toNat_le]
      omega
    · rintro rfl
      simp at h
  · decide
  · decide

/-- A text of an authority stays as it is under every rewriting before the URL is parsed. -/
structure Plain (text : String) : Prop where
  ne : text.toList ≠ []
  chars : ∀ c ∈ text.toList, is_authority_char c = true

namespace Plain

variable {text : String} (h : Plain text)

include h

theorem no_slash : '/' ∉ text.toList := fun hc => absurd (h.chars _ hc) (by decide)

theorem trimmed_self : trimmed text = text := by
  rw [trimmed, trim_apart fun c hc => not_whitespace (h.chars c hc), String.ofList_toList]

theorem split_scheme_none : split_scheme text = none := split_once_none (c := '/') (by decide) h.no_slash

theorem trim_end_self : text.toList.rdropWhile (· == '/') = text.toList :=
  rdropWhile_apart fun _ hc => beq_false_of_ne fun he => h.no_slash (he ▸ hc)

theorem lowercase_self : to_ascii_lowercase (trim_end_matches '/' text) = text := by
  have hm : text.toList.map Char.toLower = text.toList := by
    rw [List.map_congr_left fun _ hc => toLower_self (h.chars _ hc), List.map_id']
  rw [trim_end_matches, h.trim_end_self, String.ofList_toList, to_ascii_lowercase, hm, String.ofList_toList]

end Plain

/-! ## The hosts of Docker Hub -/

def hub_hosts : List String := ["docker.io", "index.docker.io", "registry-1.docker.io"]

/-- The other spellings have a scheme. -/
theorem hub_spelling_iff {text : String} (h : '/' ∉ text.toList) : text ∈ hub_spellings ↔ text ∈ hub_hosts := by
  constructor
  · intro hm
    have ha : ∀ s ∈ hub_spellings, '/' ∈ s.toList ∨ s ∈ hub_hosts := by decide
    exact (ha _ hm).resolve_left h
  · intro hm
    have ha : ∀ host ∈ hub_hosts, host ∈ hub_spellings := by decide
    exact ha _ hm

theorem Plain.names_hub_iff {text : String} (h : Plain text) : names_hub text ↔ text ∈ hub_hosts := by
  rw [names_hub, h.lowercase_self, List.contains_iff_mem, hub_spelling_iff h.no_slash]

/-! ## Hosts -/

/-- A host with brackets is an IPv6 address, any other has no colon. -/
structure Hostname (host : Host) : Prop where
  plain : Plain host.text
  bracketed : host.text.toList.head? = some '[' → ∃ address, host.text.toList = '[' :: (address ++ [']']) ∧ ']' ∉ address
  bare : host.text.toList.head? ≠ some '[' → ':' ∉ host.text.toList

theorem hostname_of_domain {host : Host} (ht : host.text ≠ "")
    (h : ∀ c ∈ host.text.toList, is_authority_char c ∧ c ≠ ':' ∧ c ≠ '[') : Hostname host where
  plain := ⟨fun he => ht (String.toList_eq_nil_iff.mp he), fun c hc => (h c hc).1⟩
  bracketed he := absurd rfl (h _ (List.mem_of_mem_head? he)).2.2
  bare _ hc := (h _ hc).2.1 rfl

theorem Whatwg.hostname {parse : UrlParser} (w : Whatwg parse) {text : String} {u : Url} {host : Host}
    (hp : parse text = .ok u) (hs : u.is_http) (hh : u.host = some host) : Hostname host := by
  cases host with
  | Domain n =>
    obtain ⟨hn, hch⟩ := w.domain hp hs hh
    exact hostname_of_domain hn fun _ hc => domain_authority (hch _ hc)
  | Ipv4 a =>
    obtain ⟨hn, hch⟩ := w.ipv4 hp hs hh
    refine hostname_of_domain hn fun c hc => ?_
    rcases hch c hc with hd | rfl
    · exact ⟨digit_authority hd, by rintro rfl; exact absurd hd (by decide), by rintro rfl; exact absurd hd (by decide)⟩
    · decide
  | Ipv6 a =>
    have hch := w.ipv6 hp hs hh
    have ht : (Host.Ipv6 a).text.toList = '[' :: (a.toList ++ [']']) := by
      simp [Host.text, toString]
    refine ⟨⟨by rw [ht]; exact List.cons_ne_nil _ _, ?_⟩, fun _ => ?_, fun he => ?_⟩
    · rw [ht]
      intro c hc
      rcases List.mem_cons.mp hc with rfl | hc
      · decide
      · rcases List.mem_append.mp hc with hc | hc
        · exact (ipv6_authority (hch c hc)).1
        · rw [List.mem_singleton.mp hc]
          decide
    · exact ⟨a.toList, ht, fun hc => (ipv6_authority (hch _ hc)).2 rfl⟩
    · rw [ht] at he
      exact absurd rfl he

variable {host : Host}

theorem with_port_some (p : UInt16) :
    (with_port host.text (some p)).toList = host.text.toList ++ ':' :: Nat.toDigits 10 p.toNat := by
  simp [with_port, Nat.repr, toString]

theorem Hostname.with_port (h : Hostname host) (p : Option UInt16) : Plain (with_port host.text p) := by
  cases p with
  | none => exact h.plain
  | some p =>
    refine ⟨by rw [with_port_some]; simp, ?_⟩
    rw [with_port_some]
    intro c hc
    rcases List.mem_append.mp hc with hc | hc
    · exact h.plain.chars c hc
    · rcases List.mem_cons.mp hc with rfl | hc
      · decide
      · exact digit_authority (isDigit_of_mem_digits hc)

theorem parse_u16_digits (port : UInt16) : parse_u16 (Nat.toDigits 10 port.toNat) = some port := by
  rw [parse_u16, parse_unsigned_digits port.toNat_lt]
  simp

/-- A written port is read back. -/
theorem Hostname.explicit_port (h : Hostname host) (port : Option UInt16) :
    explicit_port (Integration.with_port host.text port) = .ok port := by
  have hp := h.with_port port
  have ht : explicit_port_text (Integration.with_port host.text port) = port.map fun port => Nat.toDigits 10 port.toNat := by
    simp only [explicit_port_text, hp.split_scheme_none, Option.map_none, Option.getD_none, hp.trim_end_self]
    have hd : ∀ port : UInt16, ':' ∉ Nat.toDigits 10 port.toNat ∧ ']' ∉ Nat.toDigits 10 port.toNat := fun port =>
      ⟨fun hc => absurd (isDigit_of_mem_digits hc) (by decide), fun hc => absurd (isDigit_of_mem_digits hc) (by decide)⟩
    by_cases hb : host.text.toList.head? = some '['
    · obtain ⟨a, hx, hn⟩ := h.bracketed hb
      cases port with
      | none =>
        simp only [Integration.with_port, hx, List.head?_cons, if_true]
        rw [← List.cons_append, rsplit_once_last List.not_mem_nil]
        rfl
      | some port =>
        have hn' : ']' ∉ ':' :: Nat.toDigits 10 port.toNat := List.not_mem_cons_of_ne_of_not_mem (by decide) (hd port).2
        simp only [with_port_some, hx, List.cons_append, List.append_assoc, List.head?_cons, if_true]
        rw [List.nil_append, ← List.cons_append, rsplit_once_last hn']
        rfl
    · have hl := h.bare hb
      cases port with
      | none =>
        simp only [Integration.with_port, if_neg hb, rsplit_once_none hl, Option.bind_none, Option.map_none]
      | some port =>
        have hhd : ¬ (host.text.toList ++ ':' :: Nat.toDigits 10 port.toNat).head? = some '[' := by
          rw [List.head?_append_of_ne_nil _ h.plain.ne]
          exact hb
        simp only [with_port_some, if_neg hhd, rsplit_once_last (hd port).1, Option.bind_some, if_neg hl,
          Option.map_some]
  rw [Integration.explicit_port, ht]
  cases port with
  | none => rfl
  | some port => simp only [Option.map_some, parse_u16_digits]

/-! ## A recorded spelling is read back -/

variable {parse : UrlParser} {input out : String}

theorem explicit_port_none (h : explicit_port input = .ok none) : explicit_port_text input = none := by
  unfold explicit_port at h
  cases ht : explicit_port_text input with
  | none => rfl
  | some text =>
    rw [ht] at h
    cases hd : parse_u16 text with
    | none | some p => simp [hd] at h

theorem plain_registry_ok (h : plain_registry parse input = .ok out) :
    ∃ u host p, parse (written input) = .ok u ∧ u.is_http ∧ u.host = some host ∧
      explicit_port input = .ok p ∧ out = with_port host.text (u.port <|> p) := by
  obtain ⟨u, hp, h⟩ := Except.bind_ok h
  have hp := Except.mapError_ok.mp hp
  cases hh : plain_host u with
  | none => simp [hh] at h
  | some host =>
    simp only [hh] at h
    obtain ⟨p, hr, h⟩ := Except.bind_ok h
    unfold plain_host at hh
    split at hh
    · rename_i hl
      exact ⟨u, host, p, hp, hl.1, hh, hr, (Except.ok.inj h).symm⟩
    · cases hh

/-- What was recorded for a host and a port is recorded again. -/
theorem plain_registry_written (w : Whatwg parse) {text : String} {u : Url} (hp : parse text = .ok u)
    (hs : u.is_http) (hh : u.host = some host) (port : Option UInt16) :
    plain_registry parse (with_port host.text port) = .ok (with_port host.text port) := by
  have hn := w.hostname hp hs hh
  have hw : written (with_port host.text port) = "https://" ++ with_port host.text port := by
    rw [written, (hn.with_port port).split_scheme_none]
    rfl
  have hr : (port.filter (· ≠ 443) <|> port) = port := by
    cases port with
    | none => rfl
    | some port => by_cases h : port = 443 <;> simp [Option.filter, h]
  have hd : plain_host ⟨"https", "", none, some host, port.filter (· ≠ 443), "/", none, none⟩ = some host := by
    rw [plain_host, if_pos ⟨rfl, rfl, rfl, .inr rfl, rfl, rfl⟩]
  unfold plain_registry
  rw [hw, w.written port hp hs hh, hn.explicit_port port]
  simp only [Except.mapError, bind, Except.bind, hd, hr]
  rfl

/-- The URL of the registry has a Docker Hub host and no port, and the registry is not written
    as one of the spellings that are rewritten first. -/
def hub_slips_through (parse : UrlParser) (input : String) : Bool :=
  !names_hub (trimmed input) && (explicit_port_text (trimmed input)).isNone &&
    match parse (written (trimmed input)) with
    | .ok url => url.port.isNone && url.host.any fun host => hub_hosts.contains host.text
    | .error _ => false

theorem hub_slips_through_iff {parse : UrlParser} {input : String} {u : Url} {host : Host}
    (hp : parse (written (trimmed input)) = .ok u) (hh : u.host = some host) :
    hub_slips_through parse input ↔
      names_hub (trimmed input) = false ∧ explicit_port_text (trimmed input) = none ∧ u.port = none ∧ host.text ∈ hub_hosts := by
  simp [hub_slips_through, hp, hh, and_assoc]


theorem with_port_hub {p : Option UInt16} (hm : with_port host.text p ∈ hub_hosts) :
    host.text ∈ hub_hosts ∧ p = none := by
  cases p with
  | none => exact ⟨hm, rfl⟩
  | some p =>
    have ha : ∀ n ∈ hub_hosts, ':' ∉ n.toList := by decide
    refine absurd ?_ (ha _ hm)
    rw [with_port_some]
    exact List.mem_append_right _ (.head _)

theorem hub_recorded : canonical_registry parse HUB = .ok HUB := by
  have ht : trimmed HUB = HUB := by decide
  have hn : ¬ HUB = "" := by decide
  have hc : HUB.toList.any is_ascii_control = false := by decide
  have hm : names_hub HUB := by decide
  simp only [canonical_registry, ht, hn, hc, hm, if_false, if_true, Bool.false_eq_true]

/-- What is recorded for an authority that is none of the hub's hosts is what it is parsed to. -/
theorem Plain.canonical {text : String} (h : Plain text) :
    canonical_registry parse text = if text ∈ hub_hosts then .ok HUB else plain_registry parse text := by
  have hn : ¬ text = "" := fun he => h.ne (by rw [he]; rfl)
  have hcn : text.toList.any is_ascii_control = false :=
    List.any_eq_false.mpr fun c hc => by simp [not_control (h.chars c hc)]
  simp only [canonical_registry, h.trimmed_self, hn, hcn, if_false, Bool.false_eq_true, h.names_hub_iff]

theorem canonical_registry_ok (h : canonical_registry parse input = .ok out) :
    names_hub (trimmed input) ∧ out = HUB ∨
      names_hub (trimmed input) = false ∧ plain_registry parse (trimmed input) = .ok out := by
  simp only [canonical_registry] at h
  split at h
  · cases h
  · split at h
    · cases h
    · split at h
      · rename_i hn
        exact .inl ⟨hn, (Except.ok.inj h).symm⟩
      · rename_i hn
        exact .inr ⟨Bool.eq_false_iff.mpr hn, h⟩

/-- An accepted registry is recorded under a spelling that is read back as itself, unless it
    slips through as a host of Docker Hub. -/
theorem canonical_registry_iff (w : Whatwg parse) (h : canonical_registry parse input = .ok out) :
    canonical_registry parse out = .ok out ↔ hub_slips_through parse input = false := by
  rcases canonical_registry_ok h with ⟨hn, ho⟩ | ⟨hn, hl⟩
  · rw [ho]
    exact iff_of_true (@hub_recorded parse) (by simp [hub_slips_through, hn])
  · obtain ⟨u, host, pr, hp, hs, hh, hr, rfl⟩ := plain_registry_ok hl
    have hna := w.hostname hp hs hh
    have hsl : hub_slips_through parse input ↔ with_port host.text (u.port <|> pr) ∈ hub_hosts := by
      rw [hub_slips_through_iff hp hh]
      constructor
      · rintro ⟨-, ht, hnn, hmm⟩
        rw [explicit_port, ht] at hr
        cases hr
        rw [hnn]
        exact hmm
      · intro hm
        obtain ⟨hhs, hnn⟩ := with_port_hub hm
        obtain ⟨hur, rfl⟩ : u.port = none ∧ pr = none := by
          cases hu : u.port with
          | none => exact ⟨rfl, by simpa [hu] using hnn⟩
          | some p => simp [hu] at hnn
        exact ⟨hn, explicit_port_none hr, hur, hhs⟩
    rw [(hna.with_port _).canonical, ← Bool.not_eq_true, hsl]
    by_cases hm : with_port host.text (u.port <|> pr) ∈ hub_hosts
    · rw [if_pos hm]
      refine iff_of_false (fun he => ?_) (not_not_intro hm)
      have hb : HUB ∉ hub_hosts := by decide
      exact hb (Except.ok.inj he ▸ hm)
    · rw [if_neg hm]
      exact iff_of_true (plain_registry_written w hp hs hh _) hm

end Monosecret.Integration
