/-
  Monosecret.Providers.Setec — secrets of a Setec server (`monosecret/src/provider/setec.rs`).

  Configurations are those `try_from` accepts. A server has versions of a secret under its
  full name, one of them active; a write puts a version after the others and activates it, a
  deletion drops the secret. Which server a URL reaches is the network's.

  Proved: operations reach each other exactly where the servers and full names are the same
  and the version read is one that they change (`reaches_iff`), and are reported exactly where
  the URIs are the same, too, and no version is pinned (`isolated_iff`).
-/

import Monosecret.Providers.SameEntries

namespace Monosecret.Providers

open Lib Manifest Cache

namespace Setec

structure SetecConfig where
  host : String
  port : Option UInt16
  /-- The `prefix`, without slashes around it. -/
  root : Option String
  tls : Bool
  host_valid : host ≠ ""
  root_valid : ∀ path ∈ root, ∀ part ∈ path.toList.splitOn '/', part ≠ [] ∧ part ≠ ['.'] ∧ part ≠ ['.', '.']

structure Versions where
  active_version : Nat
  versions : List (Nat × SecretBytes)
  deriving DecidableEq

/-- The server that a URL reaches. -/
abbrev Servers := String → String

/-- The versions of a secret, by the server and its full name. -/
abbrev Remote := Cells Servers (String × String) (Option Versions)

def Versions.next_version (secret : Versions) : Nat := (secret.versions.map Prod.fst).max?.getD 0 + 1

/-- Version 0 is the active one. -/
def Versions.value_at (secret : Versions) (version : Nat) : Option SecretBytes :=
  secret.versions.lookup (if version = 0 then secret.active_version else version)

/-- `/api/put`, then `/api/activate`. -/
def put_and_activate (value : SecretBytes) : Option Versions → Versions
  | none => ⟨1, [(1, value)]⟩
  | some secret => ⟨secret.next_version, secret.versions ++ [(secret.next_version, value)]⟩

def validate_name (name : String) : Except String Unit :=
  if name = "" then .error "Setec secret name must not be empty" else .ok ()

def validate_convention_component (label value : String) : Except String Unit :=
  if value = "" ∨ '/' ∈ value.toList then
    .error s!"Setec convention {label} must be non-empty and must not contain '/'"
  else .ok ()

/-- `str::parse` of a `u32`. -/
def parse_u32 (text : String) : Option Nat :=
  let digits := if text.toList.head? = some '+' then text.toList.tail else text.toList
  if digits ≠ [] ∧ digits.all Char.isDigit then
    let value := digits.foldl (fun value digit => value * 10 + (digit.toNat - '0'.toNat)) 0
    if value < 2 ^ 32 then some value else none
  else none

def parse_version (version : String) : Except String Nat :=
  match (parse_u32 version).filter (0 < ·) with
  | some version => .ok version
  | none => .error s!"invalid Setec version '{version}'; versions are positive 32-bit integers"

/-- The bytes `encode_query` writes as an escape. -/
def escaped (byte : UInt8) : Bool :=
  byte < 0x20 || 0x7F ≤ byte || (" <>[]|^\\%#&+".toList.map fun c => c.toNat.toUInt8).contains byte

def hex_upper (digit : UInt8) : Char := "0123456789ABCDEF".toList.getD digit.toNat '0'

def encode_query (value : String) : String :=
  String.ofList ((utf8 value).flatMap fun byte =>
    if escaped byte then ['%', hex_upper (byte >>> 4), hex_upper (byte &&& 15)] else [Char.ofNat byte.toNat])

namespace SetecConfig

variable (c : SetecConfig)

def authority : String :=
  let host := if ':' ∈ c.host.toList then "[" ++ c.host ++ "]" else c.host
  match c.port with
  | some port => s!"{host}:{port.toNat}"
  | none => host

def server_url : String := (if c.tls then "https" else "http") ++ "://" ++ c.authority

def uri : String :=
  let parameters := (c.root.map fun path => "prefix=" ++ encode_query path).toList ++ if c.tls then [] else ["tls=false"]
  let base := "setec://" ++ c.authority
  if parameters = [] then base else base ++ "?" ++ "&".intercalate parameters

def convention_parent (project profile : String) : Except String String := do
  validate_convention_component "project" project
  validate_convention_component "profile" profile
  let parent := s!"monosecret/{project}/{profile}"
  return match c.root with
  | some path => path ++ "/" ++ parent
  | none => parent

def convention_address (project profile key : String) : Except String NativeAddress := do
  validate_convention_component "key" key
  let parent ← c.convention_parent project profile
  return ⟨parent ++ "/" ++ key, none, none, none, none⟩

def provider : Provider String where
  name := "setec"
  supported_coords := ["version"]
  convention_address := c.convention_address
  physical_store_path := none
  entry_container_identity := c.uri

def resolved (addr : Address) : Except String (NativeAddress × Nat) := do
  let coordinates ← c.provider.resolve_coords addr
  validate_name coordinates.item
  match coordinates.version with
  | some version => return (coordinates, ← parse_version version)
  | none => return (coordinates, 0)

/-- An address a write or a deletion takes: it pins no version. -/
def unpinned (refusal : String) (addr : Address) : Except String NativeAddress := do
  let coordinates ← c.provider.resolve_coords addr
  validate_name coordinates.item
  if coordinates.version.isSome then .error refusal else return coordinates

def check_writable (addr : Address) : Except String NativeAddress :=
  c.unpinned "setec refs pinning a `version` are read-only; drop `version` to create and activate a new version" addr

def check_deletable (addr : Address) : Except String NativeAddress :=
  c.unpinned
    ("setec refs pinning a `version` cannot be deleted through Monosecret; drop `version` to delete the whole secret") addr

def place (servers : Servers) (name : String) : String × String := (servers c.server_url, name)

def get_async (name : String) (version : Nat) (remote : Remote) : Option SecretBytes :=
  (remote.held (c.place remote.names name)).bind (·.value_at version)

def set_async (name : String) (value : SecretBytes) (remote : Remote) : Remote :=
  let place := c.place remote.names name
  remote.put place (some (put_and_activate value (remote.held place)))

def delete_async (name : String) (remote : Remote) : Bool × Remote :=
  let place := c.place remote.names name
  if (remote.held place).isNone then (false, remote) else (true, remote.put place none)

def store : Store String Remote where
  toProvider := c.provider
  get addr remote := do
    let (coordinates, version) ← c.resolved addr
    return c.get_async coordinates.item version remote
  set addr value remote := do
    let coordinates ← c.check_writable addr
    return c.set_async coordinates.item value remote
  delete addr remote := do
    let coordinates ← c.check_deletable addr
    return c.delete_async coordinates.item remote

/-! ### What the operations change -/

/-- What a write or a deletion changes for a read of a version. -/
def Touches (version : Nat) : Option Versions → Prop
  | none => version = 0 ∨ version = 1
  | some secret => version = 0 ∨ version = secret.next_version ∨ (secret.value_at version).isSome = true

theorem next_version_new (s : Versions) : s.versions.lookup s.next_version = none := by
  rw [List.lookup_eq_none_iff]
  intro p hp
  have hl : p.1 ≤ (s.versions.map Prod.fst).max?.getD 0 := List.le_max?_getD_of_mem (List.mem_map_of_mem hp)
  rw [Versions.next_version]
  simp only [bne_iff_ne, ne_eq]
  omega

/-- A write is read as the active version and as its own, and no other version changes. -/
theorem value_at_put (value : SecretBytes) (s : Versions) (version : Nat) :
    (put_and_activate value (some s)).value_at version =
      if version = 0 ∨ version = s.next_version then some value else s.value_at version := by
  have hn := next_version_new s
  by_cases hz : version = 0
  · simp [put_and_activate, Versions.value_at, hz, List.lookup_append, hn]
  · by_cases hx : version = s.next_version
    · simp [put_and_activate, Versions.value_at, hx, List.lookup_append, hn]
    · have ho : List.lookup version [(s.next_version, value)] = none := by
        rw [List.lookup_eq_none_iff]
        simpa using hx
      simp [put_and_activate, Versions.value_at, hz, hx, List.lookup_append, ho]

theorem touches_iff {version : Nat} {secret : Option Versions} :
    ((∃ value, (some (put_and_activate value secret)).bind (·.value_at version) ≠ secret.bind (·.value_at version)) ∨
      (none : Option Versions).bind (·.value_at version) ≠ secret.bind (·.value_at version)) ↔ Touches version secret := by
  cases secret with
  | none =>
    have hp : ∀ value, (put_and_activate value none).value_at version =
        if version = 0 ∨ version = 1 then some value else none := by
      intro value
      by_cases hz : version = 0
      · simp [put_and_activate, Versions.value_at, hz]
      · by_cases ho : version = 1 <;> simp [put_and_activate, Versions.value_at, hz, ho]
    simp [Touches, hp, or_iff_not_imp_left]
  | some secret =>
    simp only [Option.bind_some, Option.bind_none, value_at_put, Touches]
    constructor
    · rintro (⟨value, hn⟩ | hn)
      · by_contra hc
        push Not at hc
        rw [if_neg (not_or.mpr ⟨hc.1, hc.2.1⟩)] at hn
        exact hn rfl
      · exact .inr (.inr (Option.isSome_iff_ne_none.mpr (Ne.symm hn)))
    · intro h
      by_cases hw : version = 0 ∨ version = secret.next_version
      · obtain ⟨t, ht⟩ := exists_other (secret.value_at version)
        exact .inl ⟨utf8 t, by rw [if_pos hw]; exact Ne.symm ht⟩
      · have hs : (secret.value_at version).isSome := by
          rcases h with h | h | h
          · exact absurd (.inl h) hw
          · exact absurd (.inr h) hw
          · exact h
        exact .inr (Option.isSome_iff_ne_none.mp hs).symm

variable {c : SetecConfig} {addr : Address} {coordinates : NativeAddress}

theorem unpinned_ok {r : String} :
    c.unpinned r addr = .ok coordinates ↔
      c.provider.resolve_coords addr = .ok coordinates ∧ coordinates.item ≠ "" ∧ coordinates.version = none := by
  unfold unpinned
  cases hr : c.provider.resolve_coords addr with
  | error e => simp [bind, Except.bind]
  | ok found =>
    by_cases hn : found.item = ""
    · simp only [bind, Except.bind, validate_name, if_pos hn, reduceCtorEq, Except.ok.injEq, false_iff]
      rintro ⟨rfl, hi, -⟩
      exact hi hn
    · cases hv : found.version with
      | some version =>
        simp only [bind, Except.bind, validate_name, if_neg hn, hv, Option.isSome_some, if_true, reduceCtorEq,
          Except.ok.injEq, false_iff]
        rintro ⟨rfl, -, hnn⟩
        rw [hv] at hnn
        cases hnn
      | none =>
        simp only [bind, Except.bind, validate_name, if_neg hn, hv, Option.isSome_none, Bool.false_eq_true, if_false,
          pure, Except.pure, Except.ok.injEq]
        constructor
        · rintro rfl
          exact ⟨rfl, hn, hv⟩
        · rintro ⟨rfl, -, -⟩
          rfl

theorem reaches_iff {first sc : SetecConfig} {a b : Address} {rm : Remote} :
    Reaches first.store a sc.store b rm ↔ ∃ left right version, first.check_writable a = .ok left ∧
      sc.resolved b = .ok (right, version) ∧ left.item = right.item ∧
        rm.names first.server_url = rm.names sc.server_url ∧
          Touches version (rm.held (sc.place rm.names right.item)) := by
  have hs : ∀ value s af, first.store.set a value s = .ok af ↔
      Cells.writing (fun names => (first.check_writable a).map fun left => first.place names left.item) id
        (fun _ cl => (Except.ok (some (put_and_activate value cl))).map ((), ·)) s = .ok ((), af) := by
    intro value s af
    cases hn : first.check_writable a <;>
      simp [store, Cells.writing, hn, bind, Except.bind, pure, Except.pure, Except.map, set_async]
  have hd : ∀ s, first.store.delete a s =
      Cells.writing (fun names => (first.check_deletable a).map fun left => first.place names left.item) id
        (fun _ cl => .ok (cl.isSome, none)) s := by
    intro s
    cases hn : first.check_deletable a with
    | error e => simp [store, Cells.writing, hn, bind, Except.bind, Except.map]
    | ok left =>
      cases hl : s.held (first.place s.names left.item) with
      | none =>
        simp [store, Cells.writing, hn, hl, delete_async, s.put_held hl, bind, Except.bind, pure, Except.pure,
          Except.map]
      | some sr =>
        simp [store, Cells.writing, hn, hl, delete_async, bind, Except.bind, pure, Except.pure, Except.map]
  have hg : ∀ s, sc.store.get b s =
      Cells.reading (fun names => (sc.resolved b).map fun right => (sc.place names right.1.item, right.2)) Prod.fst
        (fun r cl => .ok (cl.bind (·.value_at r.2))) s := by
    intro s
    cases hn : sc.resolved b <;>
      simp [store, Cells.reading, hn, get_async, bind, Except.bind, pure, Except.pure, Except.map]
  have hdl : ∀ left, first.check_deletable a = .ok left ↔ first.check_writable a = .ok left := fun left => by
    rw [check_deletable, check_writable, unpinned_ok, unpinned_ok]
  rw [reaches_iff_cells hs hd hg]
  constructor
  · rintro ⟨r, hr, hsn⟩
    obtain ⟨⟨right, version⟩, hrg, rfl⟩ := Except.map_eq_ok.mp hr
    rcases hsn with ⟨q, hq, hsl, value, cl, hc, hne⟩ | ⟨q, hq, hsl, hne⟩
    · obtain ⟨left, hf, rfl⟩ := Except.map_eq_ok.mp hq
      obtain ⟨hsr, hi⟩ := Prod.mk.inj hsl
      cases hc
      exact ⟨left, right, version, hf, hrg, hi, hsr, touches_iff.mp (.inl ⟨value, fun h => hne (congrArg _ h)⟩)⟩
    · obtain ⟨left, hf, rfl⟩ := Except.map_eq_ok.mp hq
      obtain ⟨hsr, hi⟩ := Prod.mk.inj hsl
      exact ⟨left, right, version, (hdl left).mp hf, hrg, hi, hsr,
        touches_iff.mp (.inr fun h => hne (congrArg _ h))⟩
  · rintro ⟨left, right, version, hf, hrg, hi, hsr, ht⟩
    have hp : first.place rm.names left.item = sc.place rm.names right.item := Prod.ext hsr hi
    refine ⟨(sc.place rm.names right.item, version), by rw [hrg]; rfl, ?_⟩
    rcases touches_iff.mpr ht with ⟨value, hne⟩ | hne
    · exact .inl ⟨_, by rw [hf]; rfl, hp, value, _, rfl, fun h => hne (Except.ok.inj h)⟩
    · exact .inr ⟨_, by rw [(hdl left).mpr hf]; rfl, hp, fun h => hne (Except.ok.inj h)⟩

theorem resolved_ok {version : Nat} (h : c.resolved addr = .ok (coordinates, version)) :
    c.provider.resolve_coords addr = .ok coordinates := by
  obtain ⟨found, hf, h⟩ := Except.bind_ok h
  replace h := Except.rest_ok h
  split at h
  · obtain ⟨v', -, h⟩ := Except.bind_ok h
    cases h
    exact hf
  · cases h
    exact hf

/-- Only the item and the version are left of coordinates that were resolved. -/
theorem resolve_coords_setec (h : c.provider.resolve_coords addr = .ok coordinates) :
    coordinates = ⟨coordinates.item, none, none, none, coordinates.version⟩ := by
  have hn := @Provider.resolve_coords_none _ _ _ _ h
  obtain ⟨item, field, vault, s, version⟩ := coordinates
  simp only [NativeCoordinates.coordinates, provider] at hn
  cases hn (n := "field") (by simp) field (by simp)
  cases hn (n := "vault") (by simp) vault (by simp)
  cases hn (n := "section") (by simp) s (by simp)
  rfl

/-- One that reaches the other is reported exactly where the URIs are the same and no version is pinned. -/
theorem isolated_iff (f : Files String) {first s : SetecConfig} {a b : Address} {r : Remote} :
    Isolated f first.store a s.store b r ↔
      ∀ left right version, first.check_writable a = .ok left → s.resolved b = .ok (right, version) →
        left.item = right.item → r.names first.server_url = r.names s.server_url →
          Touches version (r.held (s.place r.names right.item)) →
            first.uri = s.uri ∧ right.version = none := by
  have hr : ∀ left right version, first.check_writable a = .ok left → s.resolved b = .ok (right, version) →
      left.item = right.item →
        (Reported f first.provider a s.provider b ↔ first.uri = s.uri ∧ right.version = none) := by
    intro left right version hl hg hi
    obtain ⟨hs, -, hv⟩ := unpinned_ok.mp hl
    have hr' := resolved_ok hg
    have hc : same_container_at f first.provider s.provider ↔ first.uri = s.uri := by
      simp only [same_container_at, provider]
      exact decide_eq_true_iff
    rw [reported_iff f hs hr', hc, resolve_coords_setec hs,
      resolve_coords_setec hr', hv, hi]
    simp [eq_comm]
  rw [Isolated, reaches_iff]
  constructor
  · intro h left right version hl hg hi hsr ht
    exact (hr left right version hl hg hi).mp
      (h ⟨left, right, version, hl, hg, hi, hsr, ht⟩)
  · rintro h ⟨left, right, version, hl, hg, hi, hsr, ht⟩
    exact (hr left right version hl hg hi).mpr
      (h left right version hl hg hi hsr ht)

end SetecConfig

end Setec

end Monosecret.Providers
