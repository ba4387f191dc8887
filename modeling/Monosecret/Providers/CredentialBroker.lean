/-
  Monosecret.Providers.CredentialBroker — credentials an external provider asks its host for
  (`SecretsProviderCredentialBroker` in `monosecret/src/secrets.rs`, `KeyringCredentialBroker`
  and `brokered_credential_address` in `monosecret/src/provider/external.rs`).

  A name the alias maps is read from its source, every other name from the keyring, at an
  address made of the principal, the scope and the name. What the sources, the keyring and
  the person at the prompt answer is given with each call (`World`), so it may change from
  one call to the next; the calls stand in the order in which they take the cache's lock. A
  build without a keyring is one in which it finds nothing and refuses to store. Audit
  records are left out.

  Proved, over every run of calls: once one call for an identity answers a value, every later
  call of the principal does and contacts nothing; when the broker can prompt and no value
  was answered, a call is the first one's again, and prompts when the credential is required;
  and each value was found or prompted for at the place of the identity itself. Two
  identities have one place only where the configuration pins both to one reference, or by
  a collision of SHA-256 (`brokered_apart`).
-/

import Monosecret.Lib.Lists
import Monosecret.Lib.Machine
import Monosecret.Lib.Map
import Monosecret.Lib.Sha256
import Monosecret.Providers.SameEntries

namespace Monosecret.Providers.CredentialBroker

open Lib Machine Manifest
open Cache (SecretBytes)

/-! ## Places -/

def render (a : NativeAddress) : String :=
  String.intercalate " " (a.coordinates.filterMap fun (name, value) => value.map fun value => name ++ "=" ++ value)

/-- The authority without what stands before its last `@`. -/
def without_userinfo (rest : List Char) : List Char :=
  let authority := rest.takeWhile fun c => c != '/' && c != '?' && c != '#'
  (authority.reverse.takeWhile (· != '@')).reverse ++ rest.drop authority.length

def redact_uri_strict (uri : String) : String :=
  let scheme := uri.toList.takeWhile (· != ':')
  let without := match uri.toList.drop scheme.length with
    | ':' :: '/' :: '/' :: rest => scheme ++ "://".toList ++ without_userinfo rest
    | ':' :: rest => scheme ++ ':' :: without_userinfo rest
    | _ => uri.toList
  String.ofList (without.takeWhile fun c => c != '?' && c != '#')

example : redact_uri_strict "vault+token:gh@p_realtoken@host?token=x" = "vault+token:host" := by decide

def PROVIDER_CREDENTIAL_SCOPE : String := "_provider"

def display_provider (source : CredentialSource) : String := redact_uri_strict source.provider

def address (source : CredentialSource) (project name : String) : Address :=
  match source.reference with
  | some reference => .Native reference
  | none => .Convention project PROVIDER_CREDENTIAL_SCOPE name

def location (source : CredentialSource) (project name : String) : String :=
  match source.reference with
  | some reference => display_provider source ++ " at " ++ render reference
  | none => display_provider source ++ " at " ++ project ++ "/" ++ PROVIDER_CREDENTIAL_SCOPE ++ "/" ++ name

/-- A discovered scheme, which no slash can be in, and the endpoint's URI. -/
structure ProviderCredentialPrincipal where
  scheme : String
  uri : Text
  slashless : '/' ∉ scheme.toList
  deriving DecidableEq

structure CredentialParams where
  name : String
  scope : Text
  required : Bool
  deriving DecidableEq

/-- What is hashed of a principal and a scope. -/
def hashed (principal : ProviderCredentialPrincipal) (scope : Text) : List UInt8 := framed_text [principal.uri, scope]

def brokered_credential_address (principal : ProviderCredentialPrincipal) (scope : Text) (name : String) : NativeAddress where
  item := "monosecret/provider-credentials/" ++ principal.scheme ++ "/" ++ Sha256.hex_bytes (hashed principal scope) ++ "/" ++ name
  field := none
  vault := none
  section_ := none
  version := none

/-- Where a credential is kept: in a configured source, or in the keyring. -/
inductive Place where
  | configured (provider : String) (address : Address)
  | keyring (address : NativeAddress)
  deriving DecidableEq

/-! ## Broker -/

/-- What a prompt shows. -/
structure Prompt where
  alias_name : String
  scheme : String
  request : CredentialParams
  source : Option CredentialSource
  deriving DecidableEq

/-- What the outside answers during one call. -/
structure World where
  get : Place → Except String (Option SecretBytes)
  check_writable : Place → Except String Unit
  prompt : Prompt → Except String (Option SecretBytes)
  set : Place → SecretBytes → Except String Unit

structure Broker where
  alias_name : String
  principal : ProviderCredentialPrincipal
  project : String
  configured : Map String CredentialSource
  /-- It has a prompt. -/
  interactive : Bool

/-- What a call does outside, and the answer. -/
inductive Effect where
  | get (place : Place) (answer : Except String (Option SecretBytes))
  | check_writable (place : Place) (answer : Except String Unit)
  | prompt (shown : Prompt) (answer : Except String (Option SecretBytes))
  | set (place : Place) (value : SecretBytes) (answer : Except String Unit)

abbrev Identity := Text × String

def credential_missing_error (name alias_spec location : String) : String :=
  "credential '" ++ name ++ "' for provider '" ++ alias_spec ++ "' was not found in " ++ location ++
    "; store it there with `monosecret config provider login " ++ alias_spec ++ "`"

namespace Broker

variable (b : Broker)

/-- A mapped name is one credential in every scope. -/
def identity (request : CredentialParams) : Identity :=
  (if (b.configured request.name).isSome then Text.of "" else request.scope, request.name)

def place (identity : Identity) : Place :=
  match b.configured identity.2 with
  | some source => .configured source.provider (address source b.project identity.2)
  | none => .keyring (brokered_credential_address b.principal identity.1 identity.2)

/-- What a read of the place means for the request. -/
def fetched (request : CredentialParams) (answer : Except String (Option SecretBytes)) : Except String (Option SecretBytes) :=
  match b.configured request.name, answer with
  | some source, .ok none =>
    if !b.interactive || !request.required then
      .error (credential_missing_error request.name b.alias_name (location source b.project request.name))
    else .ok none
  -- an optional lookup goes on where the keyring is of no use
  | none, .error error => if !request.required then .ok none else .error error
  | _, answer => answer

def shown (request : CredentialParams) : Prompt :=
  ⟨b.alias_name, b.principal.scheme, request, b.configured request.name⟩

/-- Prompts, and stores a value that is not empty. -/
def prompted (w : World) (request : CredentialParams) : List Effect × Except String (Option SecretBytes) :=
  let place := b.place (b.identity request)
  let shown := b.shown request
  let answer := w.prompt shown
  match answer with
  | .error error => ([.prompt shown answer], .error error)
  | .ok value =>
    match value.filter (!·.isEmpty) with
    | none => ([.prompt shown answer], .ok none)
    | some value =>
      let stored := w.set place value
      ([.prompt shown answer, .set place value stored], stored.map fun _ => some value)

/-- A configured source is written to only when it can be. -/
def ask (w : World) (request : CredentialParams) : List Effect × Except String (Option SecretBytes) :=
  let place := b.place (b.identity request)
  match b.configured request.name with
  | none => b.prompted w request
  | some _ =>
    let writable := w.check_writable place
    match writable with
    | .error error => ([.check_writable place writable], .error error)
    | .ok () => (.check_writable place writable :: (b.prompted w request).1, (b.prompted w request).2)

/-- A request the cache does not answer. -/
def lookup (w : World) (request : CredentialParams) : List Effect × Except String (Option SecretBytes) :=
  let place := b.place (b.identity request)
  let answer := w.get place
  match b.fetched request answer with
  | .ok none =>
    if b.interactive && request.required then (.get place answer :: (b.ask w request).1, (b.ask w request).2)
    else ([.get place answer], .ok none)
  | result => ([.get place answer], result)

def changed : String := "external provider credential principal changed"

/-- The cache after the call, what the call did outside, and its answer. -/
def get (cache : Map Identity (Option SecretBytes)) (w : World) (principal : ProviderCredentialPrincipal)
    (request : CredentialParams) :
    Map Identity (Option SecretBytes) × List Effect × Except String (Option SecretBytes) :=
  if principal ≠ b.principal then (cache, [], .error changed)
  else
    match cache (b.identity request) with
    | some cached => (cache, [], .ok cached)
    | none =>
      let (effects, result) := b.lookup w request
      match result with
      | .error error => (cache, effects, .error error)
      -- an optional miss must not suppress a later required request's prompt
      | .ok value =>
        (if value.isSome || !b.interactive then cache.insert (b.identity request) value else cache, effects, .ok value)

end Broker

/-! ## Runs -/

structure Call where
  principal : ProviderCredentialPrincipal
  request : CredentialParams
  world : World
  effects : List Effect
  result : Except String (Option SecretBytes)

structure State where
  cache : Map Identity (Option SecretBytes)
  calls : List Call

structure Ev where
  principal : ProviderCredentialPrincipal
  request : CredentialParams
  world : World

namespace Broker

variable (b : Broker)

def step (s : State) (e : Ev) : Option State :=
  let (cache, effects, result) := b.get s.cache e.world e.principal e.request
  some ⟨cache, s.calls ++ [⟨e.principal, e.request, e.world, effects, result⟩]⟩

/-- An empty cache, and no calls. -/
def machine : Machine State Ev where
  init := ⟨.empty, []⟩
  step := b.step

end Broker

namespace Call

variable (b : Broker) (c : Call)

/-- The value was found at the place of the call's identity, or prompted for and stored there. -/
def Obtained (value : SecretBytes) : Prop :=
  let place := b.place (b.identity c.request)
  .get place (.ok (some value)) ∈ c.effects ∨
    .prompt (b.shown c.request) (.ok (some value)) ∈ c.effects ∧ .set place value (.ok ()) ∈ c.effects

end Call

namespace Broker

variable (b : Broker)

/-- A value was answered for the identity by one of the first `j` calls. -/
def Found (calls : List Call) (j : Nat) (identity : Identity) (value : SecretBytes) : Prop :=
  ∃ i, i < j ∧ ∃ first, calls[i]? = some first ∧ b.identity first.request = identity ∧ first.result = .ok (some value)

structure Brokered (s : State) : Prop where
  /-- One value for an identity once any was found. -/
  one_value : ∀ j call value, s.calls[j]? = some call → b.Found s.calls j (b.identity call.request) value →
    call.principal = b.principal → call.effects = [] ∧ call.result = .ok (some value)
  /-- Whatever was missed before, a call goes as the first one would. -/
  anew : ∀ j call, s.calls[j]? = some call → (∀ value, ¬ b.Found s.calls j (b.identity call.request) value) →
    call.principal = b.principal → b.interactive = true → (call.effects, call.result) = b.lookup call.world call.request
  /-- A required credential that is nowhere is prompted for. -/
  prompts : ∀ j call, s.calls[j]? = some call → (∀ value, ¬ b.Found s.calls j (b.identity call.request) value) →
    call.principal = b.principal → b.interactive = true → call.request.required = true →
    call.world.get (b.place (b.identity call.request)) = .ok none →
    (b.configured call.request.name ≠ none → call.world.check_writable (b.place (b.identity call.request)) = .ok ()) →
    .prompt (b.shown call.request) (call.world.prompt (b.shown call.request)) ∈ call.effects
  /-- A value is what a call for the same identity, this or an earlier one, obtained at its place. -/
  own : ∀ (j : Nat) (call : Call) value, s.calls[j]? = some call → call.result = .ok (some value) →
    ∃ i : Nat, i ≤ j ∧ ∃ first : Call, s.calls[i]? = some first ∧ b.identity first.request = b.identity call.request ∧
      first.Obtained b value

/-- Both names are mapped to one reference of one provider. -/
def SamePin (m n : String) : Prop :=
  ∃ provider reference, b.configured m = some ⟨provider, some reference⟩ ∧ b.configured n = some ⟨provider, some reference⟩

end Broker

/-- Different bytes are hashed to the same digest. -/
def Collision (p q : ProviderCredentialPrincipal) (s t : Text) : Prop :=
  hashed p s ≠ hashed q t ∧ Sha256.hex_bytes (hashed p s) = Sha256.hex_bytes (hashed q t)

namespace Broker

/-- Different identities have different places. -/
def Apart (b : Broker) : Prop :=
  ∀ q r, b.place (b.identity q) = b.place (b.identity r) →
    b.identity q = b.identity r ∨ b.SamePin q.name r.name ∨ Collision b.principal b.principal q.scope r.scope

end Broker

/-! ## Addresses -/

/-- The first slash, where no scheme has one. -/
theorem first_slash {a b c d : List Char} (ha : '/' ∉ a) (hc : '/' ∉ c) (h : a ++ '/' :: b = c ++ '/' :: d) :
    a = c ∧ b = d := by
  rcases List.append_eq_append_iff.mp h with ⟨m, rfl, hm⟩ | ⟨m, rfl, hm⟩
  · cases m with
    | nil => exact ⟨(List.append_nil a).symm, (List.cons.inj hm).2⟩
    | cons e m =>
      obtain ⟨rfl, -⟩ := List.cons.inj hm
      exact absurd (List.mem_append_right a (.head _)) hc
  · cases m with
    | nil => exact ⟨List.append_nil c, (List.cons.inj hm).2.symm⟩
    | cons e m =>
      obtain ⟨rfl, -⟩ := List.cons.inj hm
      exact absurd (List.mem_append_right c (.head _)) ha

theorem hashed_inj {p q : ProviderCredentialPrincipal} {s t : Text} (h : hashed p s = hashed q t) :
    p.uri = q.uri ∧ s = t := by
  have hp := framed_text_inj h
  simp only [List.cons.injEq, and_true] at hp
  exact hp

theorem brokered_item (p : ProviderCredentialPrincipal) (s : Text) (n : String) :
    (brokered_credential_address p s n).item =
      "monosecret/provider-credentials/" ++ p.scheme ++ "/" ++ Sha256.hex_bytes (hashed p s) ++ "/" ++ n := rfl

/-- Any two principals' addresses: the same only for one credential, or by a collision. -/
theorem brokered_credential_address_inj {p q : ProviderCredentialPrincipal} {s t : Text} {m n : String}
    (h : brokered_credential_address p s m = brokered_credential_address q t n) :
    m = n ∧ (p = q ∧ s = t ∨ Collision p q s t) := by
  have hi := congrArg NativeCoordinates.item h
  rw [brokered_item, brokered_item] at hi
  have hs : "/".toList = ['/'] := rfl
  have hl := congrArg String.toList hi
  simp only [String.toList_append, hs, List.append_assoc, List.append_cancel_left_eq, List.singleton_append] at hl
  obtain ⟨hc, hr⟩ := first_slash p.slashless q.slashless hl
  have hn : (Sha256.hex_bytes (hashed p s)).toList.length = (Sha256.hex_bytes (hashed q t)).toList.length :=
    (Sha256.hex_bytes_length _).trans (Sha256.hex_bytes_length _).symm
  obtain ⟨hx, hm⟩ := List.append_inj hr hn
  refine ⟨String.toList_inj.mp (List.cons.inj hm).2, ?_⟩
  by_cases he : hashed p s = hashed q t
  · obtain ⟨hu, ht⟩ := hashed_inj he
    obtain ⟨sc, uri, sl⟩ := p
    obtain ⟨sc', u', s'⟩ := q
    cases String.toList_inj.mp hc
    cases hu
    exact .inl ⟨rfl, ht⟩
  · exact .inr ⟨he, String.toList_inj.mp hx⟩

theorem address_inj {sr s' : CredentialSource} {p m n : String} (hp : sr.provider = s'.provider)
    (h : address sr p m = address s' p n) :
    m = n ∨ ∃ r, sr = ⟨sr.provider, some r⟩ ∧ s' = ⟨sr.provider, some r⟩ := by
  obtain ⟨pr, r⟩ := sr
  obtain ⟨p', r'⟩ := s'
  cases hp
  cases r <;> cases r' <;> simp only [address] at h <;> cases h
  · exact .inl rfl
  · exact .inr ⟨_, rfl, rfl⟩

namespace Broker

variable (b : Broker)

theorem apart : b.Apart := by
  intro q r h
  unfold place at h
  cases hq : b.configured q.name with
  | none =>
    cases hr : b.configured r.name with
    | none =>
      simp only [identity, hq, hr, Option.isSome_none, Bool.false_eq_true, if_false, Place.keyring.injEq] at h ⊢
      obtain ⟨hn, ⟨-, hs⟩ | hc⟩ := brokered_credential_address_inj h
      · rw [hn, hs]
        exact .inl rfl
      · exact .inr (.inr hc)
    | some sr => simp [identity, hq, hr] at h
  | some sr =>
    cases hr : b.configured r.name with
    | none => simp [identity, hq, hr] at h
    | some s' =>
      simp only [identity, hq, hr, Option.isSome_some, if_true, Place.configured.injEq] at h ⊢
      rcases address_inj h.1 h.2 with hn | ⟨rf, hsr, hs'⟩
      · rw [hn]
        exact .inl rfl
      · exact .inr (.inl ⟨sr.provider, rf, hsr ▸ hq, hs' ▸ hr⟩)

/-! ## One call -/

variable {w : World} {request : CredentialParams} {value : SecretBytes}

theorem prompted_found (h : (b.prompted w request).2 = .ok (some value)) :
    .prompt (b.shown request) (.ok (some value)) ∈ (b.prompted w request).1 ∧
      .set (b.place (b.identity request)) value (.ok ()) ∈ (b.prompted w request).1 := by
  unfold prompted at h ⊢
  simp only at h ⊢
  cases ha : w.prompt (b.shown request) with
  | error error =>
    rw [ha] at h
    cases h
  | ok answer =>
    simp only [ha] at h ⊢
    cases hf : answer.filter (!·.isEmpty) with
    | none => simp [hf] at h
    | some found =>
      simp only [hf] at h ⊢
      cases hs : w.set (b.place (b.identity request)) found with
      | error error => simp [hs, Except.map] at h
      | ok u =>
        simp only [hs, Except.map, Except.ok.injEq, Option.some.injEq] at h
        obtain ⟨hn, -⟩ := Option.filter_eq_some_iff.mp hf
        rw [hn, h]
        simp

theorem prompted_prompts (w : World) (request : CredentialParams) :
    .prompt (b.shown request) (w.prompt (b.shown request)) ∈ (b.prompted w request).1 := by
  unfold prompted
  simp only
  split
  · simp_all
  · split <;> simp_all

/-- Asking for the value is prompting, once a configured source takes it. -/
theorem ask_subset (h : (b.ask w request).2 = .ok (some value)) :
    (b.prompted w request).2 = .ok (some value) ∧ (b.prompted w request).1 ⊆ (b.ask w request).1 := by
  unfold ask at h ⊢
  simp only at h ⊢
  split at h
  · exact ⟨h, fun _ he => he⟩
  · split at h
    · cases h
    · rename_i hw
      simp only [hw]
      exact ⟨h, fun _ he => .tail _ he⟩

theorem ask_prompts (hw : b.configured request.name ≠ none → w.check_writable (b.place (b.identity request)) = .ok ()) :
    .prompt (b.shown request) (w.prompt (b.shown request)) ∈ (b.ask w request).1 := by
  have hp := b.prompted_prompts w request
  unfold ask
  simp only
  cases hc : b.configured request.name with
  | none => exact hp
  | some sr =>
    rw [hw (by rw [hc]; nofun)]
    exact .tail _ hp

theorem fetched_found {answer : Except String (Option SecretBytes)} (h : b.fetched request answer = .ok (some value)) :
    answer = .ok (some value) := by
  unfold fetched at h
  split at h
  · split at h <;> cases h
  · split at h <;> cases h
  · exact h

theorem fetched_none (hi : b.interactive) (hr : request.required) :
    b.fetched request (.ok none) = .ok none := by
  unfold fetched
  cases b.configured request.name with
  | none => rfl
  | some sr => simp [hi, hr]

/-- A value a request finds is the place's, or the prompt's and stored. -/
theorem lookup_found (h : (b.lookup w request).2 = .ok (some value)) :
    .get (b.place (b.identity request)) (.ok (some value)) ∈ (b.lookup w request).1 ∨
      .prompt (b.shown request) (.ok (some value)) ∈ (b.lookup w request).1 ∧
        .set (b.place (b.identity request)) value (.ok ()) ∈ (b.lookup w request).1 := by
  unfold lookup at h ⊢
  simp only at h ⊢
  cases hf : b.fetched request (w.get (b.place (b.identity request))) with
  | error error => simp [hf] at h
  | ok found =>
    cases found with
    | none =>
      simp only [hf] at h ⊢
      split at h
      · rename_i ha
        rw [if_pos ha]
        obtain ⟨hp, hs⟩ := b.ask_subset h
        obtain ⟨hm, ht⟩ := b.prompted_found hp
        exact .inr ⟨List.mem_cons_of_mem _ (hs hm), List.mem_cons_of_mem _ (hs ht)⟩
      · cases h
    | some found =>
      simp only [hf, Except.ok.injEq, Option.some.injEq] at h ⊢
      subst h
      rw [b.fetched_found hf]
      exact .inl (.head _)

theorem lookup_prompts (hi : b.interactive) (hr : request.required)
    (hm : w.get (b.place (b.identity request)) = .ok none)
    (hw : b.configured request.name ≠ none → w.check_writable (b.place (b.identity request)) = .ok ()) :
    .prompt (b.shown request) (w.prompt (b.shown request)) ∈ (b.lookup w request).1 := by
  unfold lookup
  simp only [hm, b.fetched_none hi hr, hi, hr, Bool.and_self, if_true]
  exact .tail _ (b.ask_prompts hw)

/-- What a call can do. -/
theorem get_cases (cc : Map Identity (Option SecretBytes)) (w : World) (p : ProviderCredentialPrincipal)
    (request : CredentialParams) :
    p ≠ b.principal ∧ b.get cc w p request = (cc, [], .error changed) ∨
    p = b.principal ∧ (∃ cached, cc (b.identity request) = some cached ∧
      b.get cc w p request = (cc, [], .ok cached)) ∨
    p = b.principal ∧ cc (b.identity request) = none ∧
      ((∃ value, (b.lookup w request).2 = .ok value ∧ (value.isSome || !b.interactive) ∧
        b.get cc w p request =
          (cc.insert (b.identity request) value, (b.lookup w request).1, (b.lookup w request).2)) ∨
      (∀ value, (b.lookup w request).2 ≠ .ok (some value)) ∧
        b.get cc w p request = (cc, (b.lookup w request).1, (b.lookup w request).2)) := by
  unfold get
  by_cases hp : p = b.principal
  · rw [if_neg (not_not_intro hp)]
    right
    cases hc : cc (b.identity request) with
    | some cached => exact .inl ⟨hp, cached, rfl, rfl⟩
    | none =>
      refine .inr ⟨hp, rfl, ?_⟩
      simp only
      cases hl : (b.lookup w request).2 with
      | error error => exact .inr ⟨nofun, rfl⟩
      | ok value =>
        by_cases hk : (value.isSome || !b.interactive)
        · exact .inl ⟨value, rfl, hk, by simp only [hk, if_true]⟩
        · refine .inr ⟨?_, by simp only [hk, if_false, Bool.false_eq_true]⟩
          intro found hf
          cases hf
          exact hk rfl
  · exact .inl ⟨hp, by rw [if_pos hp]⟩

/-! ## Every call -/

structure Inv (s : State) : Prop where
  brokered : b.Brokered s
  /-- The cache holds the values answered. -/
  cached : ∀ identity value, s.cache identity = some (some value) ↔ b.Found s.calls s.calls.length identity value
  /-- No miss is held where one may prompt. -/
  missed : b.interactive = true → ∀ identity, s.cache identity ≠ some none

theorem Inv.init : b.Inv ⟨.empty, []⟩ where
  brokered := ⟨nofun, nofun, nofun, nofun⟩
  cached := by
    intro iy value
    constructor
    · nofun
    · rintro ⟨i, hi, -⟩
      cases hi
  missed := fun _ _ => nofun

variable {b} {s : State}

/-- Among the calls before the last, what was found is as it was. -/
theorem found_snoc {calls : List Call} {call : Call} {j : Nat} (hj : j ≤ calls.length) {identity : Identity} :
    b.Found (calls ++ [call]) j identity value ↔ b.Found calls j identity value := by
  constructor
  · rintro ⟨i, hi, first, hf, h⟩
    have hl : i < calls.length := by omega
    exact ⟨i, hi, first, by rwa [List.getElem?_append_left hl] at hf, h⟩
  · rintro ⟨i, hi, first, hf, h⟩
    have hl : i < calls.length := by omega
    exact ⟨i, hi, first, by rwa [List.getElem?_append_left hl], h⟩

theorem found_last {cl : List Call} {call : Call} {iy : Identity} :
    b.Found (cl ++ [call]) (cl ++ [call]).length iy value ↔
      b.Found cl cl.length iy value ∨
        b.identity call.request = iy ∧ call.result = .ok (some value) := by
  constructor
  · rintro ⟨i, hi, first, hf, h⟩
    rcases getElem?_snoc hf with hold | ⟨-, rfl⟩
    · exact .inl ⟨i, (List.getElem?_eq_some_iff.mp hold).1, first, hold, h⟩
    · exact .inr h
  · rintro (hold | h)
    · obtain ⟨i, hi, first, hf, h⟩ := (found_snoc le_rfl).mpr hold
      exact ⟨i, by rw [List.length_append]; omega, first, hf, h⟩
    · exact ⟨cl.length, by simp, call, by simp, h⟩

/-- What the last of the calls must meet for the run to be brokered. -/
structure Last (b : Broker) (s : State) (call : Call) : Prop where
  one_value : ∀ value, b.Found s.calls s.calls.length (b.identity call.request) value → call.principal = b.principal →
    call.effects = [] ∧ call.result = .ok (some value)
  anew : (∀ value, ¬ b.Found s.calls s.calls.length (b.identity call.request) value) → call.principal = b.principal →
    b.interactive = true → (call.effects, call.result) = b.lookup call.world call.request
  own : ∀ value, call.result = .ok (some value) →
    call.Obtained b value ∨ b.Found s.calls s.calls.length (b.identity call.request) value

theorem Brokered.snoc (h : b.Brokered s) {call : Call} (hl : Last b s call)
    (cc : Map Identity (Option SecretBytes)) : b.Brokered ⟨cc, s.calls ++ [call]⟩ := by
  have hle : ∀ {j : Nat} {c : Call}, s.calls[j]? = some c → j ≤ s.calls.length := by
    intro j c hc
    exact Nat.le_of_lt (List.getElem?_eq_some_iff.mp hc).1
  refine ⟨?_, ?_, ?_, ?_⟩
  · intro j c value hc hn hp
    rcases getElem?_snoc hc with hold | ⟨rfl, rfl⟩
    · exact h.one_value j c value hold ((found_snoc (hle hold)).mp hn) hp
    · exact hl.one_value value ((found_snoc le_rfl).mp hn) hp
  · intro j c hc hnn hp hi
    rcases getElem?_snoc hc with hold | ⟨rfl, rfl⟩
    · exact h.anew j c hold (fun value hf => hnn value ((found_snoc (hle hold)).mpr hf)) hp hi
    · exact hl.anew (fun value hf => hnn value ((found_snoc le_rfl).mpr hf)) hp hi
  · intro j c hc hnn hp hi hr hm hw
    rcases getElem?_snoc hc with hold | ⟨rfl, rfl⟩
    · exact h.prompts j c hold (fun value hf => hnn value ((found_snoc (hle hold)).mpr hf)) hp hi hr hm hw
    · have ha := hl.anew (fun value hf => hnn value ((found_snoc le_rfl).mpr hf)) hp hi
      rw [(Prod.mk.inj ha).1]
      exact b.lookup_prompts hi hr hm hw
  · intro j c value hc hv
    have hkp : ∀ (i : Nat) (first : Call), s.calls[i]? = some first → (s.calls ++ [call])[i]? = some first := by
      intro i first hfr
      rw [List.getElem?_append_left (List.getElem?_eq_some_iff.mp hfr).1, hfr]
    rcases getElem?_snoc hc with hold | ⟨rfl, rfl⟩
    · obtain ⟨i, hi, first, hfr, ho⟩ := h.own j c value hold hv
      exact ⟨i, hi, first, hkp i first hfr, ho⟩
    · rcases hl.own value hv with ho | ⟨i, hi, first, hfr, hd, hvl⟩
      · exact ⟨_, le_rfl, c, hc, rfl, ho⟩
      · obtain ⟨k, hk, o, hor, hs, ho⟩ := h.own i first value hfr hvl
        exact ⟨k, by omega, o, hkp k o hor, hs.trans hd, ho⟩

theorem Inv.not_found (h : b.Inv s) {identity : Identity} (hc : s.cache identity = none) (value : SecretBytes) :
    ¬ b.Found s.calls s.calls.length identity value := by
  intro hf
  rw [(h.cached _ _).mpr hf] at hc
  cases hc

theorem Inv.step (h : b.Inv s) {e : Ev} {t : State} (hs : b.step s e = some t) : b.Inv t := by
  obtain ⟨p, request, w⟩ := e
  obtain ⟨cc, cl⟩ := s
  simp only [Broker.step, Option.some.injEq] at hs
  rcases b.get_cases cc w p request with
    ⟨hp, hg⟩ | ⟨hp, cached, hc, hg⟩ | ⟨hp, hc, ⟨value, hv, hk, hg⟩ | ⟨hn, hg⟩⟩
  · -- another principal's call, refused
    rw [hg] at hs
    cases hs
    refine ⟨h.brokered.snoc ⟨?_, ?_, ?_⟩ _, ?_, h.missed⟩
    · exact fun _ _ hp' => absurd hp' hp
    · exact fun _ hp' => absurd hp' hp
    · nofun
    · intro i found
      rw [found_last, ← h.cached]
      exact ⟨.inl, fun ho => ho.elim id fun ho => nomatch ho.2⟩
  · -- answered from the cache
    rw [hg] at hs
    cases hs
    refine ⟨h.brokered.snoc ⟨?_, ?_, ?_⟩ _, ?_, h.missed⟩
    · intro found hf _
      have hhs : cached = some found := Option.some.inj (hc.symm.trans ((h.cached _ _).mpr hf))
      exact ⟨rfl, congrArg Except.ok hhs⟩
    · intro hn _ hi
      cases cached with
      | none => exact absurd hc (h.missed hi _)
      | some found => exact absurd ((h.cached _ _).mp hc) (hn found)
    · intro found hf
      cases hf
      exact .inr ((h.cached _ _).mp hc)
    · intro i found
      rw [found_last, ← h.cached]
      refine ⟨.inl, fun ho => ho.elim id ?_⟩
      rintro ⟨rfl, hf⟩
      cases hf
      exact hc
  · -- looked up, and remembered
    rw [hg] at hs
    cases hs
    have hw := h.not_found hc
    refine ⟨h.brokered.snoc ⟨?_, ?_, ?_⟩ _, ?_, ?_⟩
    · exact fun found hf _ => absurd hf (hw found)
    · exact fun _ _ _ => rfl
    · exact fun found hf => .inl (b.lookup_found hf)
    · intro i found
      rw [found_last, ← h.cached]
      show (cc.insert (b.identity request) value) i = _ ↔ cc i = _ ∨ _
      by_cases hd : i = b.identity request
      · subst hd
        rw [Map.insert_self, hc, hv]
        simp
      · rw [Map.insert_of_ne hd]
        exact ⟨.inl, fun ho => ho.elim id fun ho => absurd ho.1.symm hd⟩
    · intro hi i
      show (cc.insert (b.identity request) value) i ≠ _
      by_cases hd : i = b.identity request
      · subst hd
        rw [Map.insert_self]
        cases value with
        | none => simp [hi] at hk
        | some found => nofun
      · rw [Map.insert_of_ne hd]
        exact h.missed hi i
  · -- looked up in vain, or refused
    rw [hg] at hs
    cases hs
    have hw := h.not_found hc
    refine ⟨h.brokered.snoc ⟨?_, ?_, ?_⟩ _, ?_, h.missed⟩
    · exact fun found hf _ => absurd hf (hw found)
    · exact fun _ _ _ => rfl
    · exact fun found hf => .inl (b.lookup_found hf)
    · intro i found
      rw [found_last, ← h.cached]
      exact ⟨.inl, fun ho => ho.elim id fun ho => absurd ho.2 (hn found)⟩

/-- Every run of calls: one value for each identity, its own, and no miss in the way of a prompt. -/
theorem brokered_apart (h : Reach b.machine any s) : b.Brokered s ∧ b.Apart := by
  have hn : b.Inv s := h.inv (I := b.Inv) (Inv.init b) fun _ _ _ hi _ hs => Inv.step hi hs
  exact ⟨hn.brokered, b.apart⟩

end Broker

/-! ## A prompt after an optional miss -/

/-- An endpoint that maps no credential, and may prompt. -/
def unmapped : Broker where
  alias_name := "team"
  principal := ⟨"example", Text.of "example://team-a", by decide⟩
  project := "app"
  configured := .empty
  interactive := true

/-- Nothing is stored, and the person at the prompt types one byte, another one each call. -/
def typed (byte : UInt8) : World where
  get _ := .ok none
  check_writable _ := .ok ()
  prompt _ := .ok (some [byte])
  set _ _ := .ok ()

def password (required : Bool) : CredentialParams := ⟨"password", Text.of "example://team-a", required⟩

/-- A miss, a prompt, and the value prompted for ever after. -/
theorem brokered_prompt : ∃ s, Reach unmapped.machine any s ∧
    s.calls.map Call.result = [.ok none, .ok (some [1]), .ok (some [1])] ∧ unmapped.Brokered s ∧ unmapped.Apart := by
  obtain ⟨s, hs, hr⟩ := reach_of_run unmapped.machine any
    [⟨unmapped.principal, password false, typed 0⟩, ⟨unmapped.principal, password true, typed 1⟩,
      ⟨unmapped.principal, password true, typed 2⟩] (fun s => s.calls.map Call.result)
    [.ok none, .ok (some [1]), .ok (some [1])] rfl
  exact ⟨s, hs, hr, Broker.brokered_apart hs⟩

end Monosecret.Providers.CredentialBroker
