/-
  Monosecret.Lib.Whatwg — references resolved against a URL, as the WHATWG URL standard parses
  them for the schemes it calls special (`https` and its kind, not `file`).

  A reference is stripped and its scheme read. It is relative to a base when it has no scheme,
  or the base's scheme and at most one slash after it. A relative reference that begins with
  two slashes, forward or backward, names an authority: user information before its last `@`,
  a host and a port. Any other keeps the authority of the base. How hosts, paths, queries and
  fragments are written and read, and what a reference that is not relative gives, is left to
  `Parts`.

  Proved, whatever the parts do: a reference that is no URL of its own resolves to one of the
  base's scheme, whose user information is what the reference names, or else the base's
  (`join_user`).
-/

import Monosecret.Lib.Texts

namespace Lib.Whatwg

open Lib.Texts

structure Url where
  scheme : String
  username : String
  /-- Empty when there is none. -/
  password : String
  host : String
  /-- None for the default port of the scheme. -/
  port : Option Nat
  path : String
  query : Option String
  fragment : Option String
  deriving DecidableEq

namespace Url

/-- The username and the password. -/
def user (url : Url) : String × String := (url.username, url.password)

/-- Schemes, hosts and ports, for the schemes that have an origin. -/
def origin (url : Url) : String × String × Option Nat := (url.scheme, url.host, url.port)

def user_text (url : Url) : String :=
  if url.username = "" ∧ url.password = "" then ""
  else if url.password = "" then s!"{url.username}@"
  else s!"{url.username}:{url.password}@"

def marked (mark : String) : Option String → String
  | some text => mark ++ text
  | none => ""

/-- The serialized URL. -/
def text (url : Url) : String :=
  url.scheme ++ "://" ++ url.user_text ++ url.host ++ marked ":" (url.port.map toString) ++ url.path ++
    marked "?" url.query ++ marked "#" url.fragment

end Url

structure Parts where
  /-- The URL of a scheme and what follows its colon. -/
  absolute : String → List Char → Option Url
  /-- The host and the port. -/
  host : List Char → Option (String × Option Nat)
  /-- A path put together with the path of the base. -/
  path : String → List Char → String
  query : List Char → String
  fragment : List Char → String
  /-- The names and values of a query. -/
  pairs : String → List (String × String)
  append_pairs : Option String → List (String × String) → String

/-! ## References -/

def is_slash (c : Char) : Bool := c == '/' || c == '\\'

/-- Without control characters and spaces at its ends, and without tabs and newlines. -/
def stripped (reference : String) : List Char :=
  (trim (fun c => decide (c.toNat ≤ 0x20)) reference.toList).filter fun c => !(c == '\t' || c == '\n' || c == '\r')

def is_scheme_char (c : Char) : Bool := c.isAlphanum || c == '+' || c == '-' || c == '.'

def cut_scheme (reference : List Char) : Option (String × List Char) :=
  match split_once [':'] reference with
  | some (scheme, rest) =>
    if (scheme.head?.any Char.isAlpha && scheme.all is_scheme_char) = true then some (.ofList (scheme.map Char.toLower), rest)
    else none
  | none => none

/-- What of a reference is read relative to a base of a scheme. -/
def relative_part (scheme : String) (reference : List Char) : Option (List Char) :=
  match cut_scheme reference with
  | some (named, rest) => if named = scheme ∧ (rest.takeWhile is_slash).length < 2 then some rest else none
  | none => some reference

structure Pieces where
  path : List Char
  query : Option (List Char)
  fragment : Option (List Char)

def cut (c : Char) (text : List Char) : List Char × Option (List Char) :=
  match split_once [c] text with
  | some (before, after) => (before, some after)
  | none => (text, none)

def pieces (text : List Char) : Pieces :=
  let (before, fragment) := cut '#' text
  let (path, query) := cut '?' before
  ⟨path, query, fragment⟩

/-- The authority a relative reference names, and the path after it. -/
def authority (path : List Char) : Option (List Char × List Char) :=
  if 2 ≤ (path.takeWhile is_slash).length then
    let named := path.dropWhile is_slash
    some (named.takeWhile (!is_slash ·), named.dropWhile (!is_slash ·))
  else none

def split_user (named : List Char) : List Char × List Char := (rsplit_once '@' named).getD ([], named)

/-! ## User information -/

def hex_digit (n : Nat) : Char := if n < 10 then Char.ofNat (48 + n) else Char.ofNat (55 + n)

/-- `%{byte:02X}`. -/
def percent (byte : UInt8) : List Char := ['%', hex_digit (byte.toNat / 16), hex_digit (byte.toNat % 16)]

def userinfo_set (c : Char) : Bool :=
  c.toNat ≤ 0x1f || 0x7e < c.toNat || " \"#<>?^\x60\x7b\x7d/:;=@[\\]|".toList.contains c

def encode_user (text : List Char) : String :=
  .ofList (text.flatMap fun c => if userinfo_set c then (String.utf8EncodeChar c).flatMap percent else [c])

/-- The username and the password an authority names. -/
def user_information (named : List Char) : String × String :=
  match cut ':' (split_user named).1 with
  | (username, password) => (encode_user username, encode_user (password.getD []))

/-- The user information a reference names, when it is read relative to a base of a scheme. -/
def named_user (scheme reference : String) : Option (String × String) := do
  let rest ← relative_part scheme (stripped reference)
  let (named, _) ← authority (pieces rest).path
  return user_information named

/-! ## Joining -/

namespace Parts

variable (parts : Parts)

def query_pairs (url : Url) : List (String × String) := (url.query.map parts.pairs).getD []

/-- A segment after those of a path; the path is the root, or each of its segments follows a slash. -/
def push (path segment : String) : String := if path = "/" then path ++ segment else path ++ "/" ++ segment

def resolve (base : Url) (rest : List Char) : Option Url :=
  let given := pieces rest
  let query := given.query.map parts.query
  let fragment := given.fragment.map parts.fragment
  match authority given.path with
  | some (named, path) =>
    (parts.host (split_user named).2).map fun (host, port) =>
      ⟨base.scheme, (user_information named).1, (user_information named).2, host, port, parts.path "/" path, query, fragment⟩
  | none =>
    if given.path = [] then some { base with query := query.or base.query, fragment := fragment }
    else
      let folder := if given.path.head?.any is_slash then "/" else base.path
      some { base with path := parts.path folder given.path, query := query, fragment := fragment }

def parse (reference : String) : Option Url := do
  let (scheme, rest) ← cut_scheme (stripped reference)
  parts.absolute scheme rest

def join (base : Url) (reference : String) : Option Url :=
  match relative_part base.scheme (stripped reference) with
  | some rest => parts.resolve base rest
  | none => parts.parse reference

end Parts

variable {parts : Parts} {base url : Url}

theorem resolve_user {rest : List Char} (h : parts.resolve base rest = some url) :
    url.scheme = base.scheme ∧
      url.user = ((authority (pieces rest).path).map fun named => user_information named.1).getD base.user := by
  unfold Parts.resolve at h
  cases ha : authority (pieces rest).path with
  | none =>
    simp only [ha] at h
    split at h <;> exact Option.some.inj h ▸ ⟨rfl, rfl⟩
  | some named =>
    simp only [ha] at h
    obtain ⟨host, -, hu⟩ := Option.map_eq_some_iff.mp h
    exact hu ▸ ⟨rfl, rfl⟩

/-- A reference that is no URL of its own has the scheme of the base, and the user information it names or the base's. -/
theorem join_user {r : String} (hp : parts.parse r = none) (h : parts.join base r = some url) :
    url.scheme = base.scheme ∧ url.user = (named_user base.scheme r).getD base.user := by
  unfold Parts.join at h
  cases hr : relative_part base.scheme (stripped r) with
  | none =>
    simp only [hr, hp] at h
    cases h
  | some rs =>
    simp only [hr] at h
    obtain ⟨hs, hu⟩ := resolve_user h
    refine ⟨hs, hu.trans ?_⟩
    simp only [named_user, hr, Option.bind_eq_bind, Option.bind_some]
    cases authority (pieces rs).path <;> rfl

end Lib.Whatwg
