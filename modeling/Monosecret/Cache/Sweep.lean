/-
  Monosecret.Cache.Sweep — clearing cached entries (`Secrets::clear_cache` in
  `monosecret/src/secrets.rs`).

  The entries of all cache stores are one map from places. Planning is `plan.rs`'s; the
  registry's answers may differ from one secret to the next, and so may what reading,
  building and deleting come to. Building a store looks its `depends_on` secrets up, and a
  lookup may write or drop entries of its own; asking an external store whether it can delete
  builds it, so planning may, too. Audit records are left out.

  Proved: where every secret can be planned, and no planning and no building puts an entry
  back that the sweep has cleared, every cached secret is attempted, every entry that could
  be deleted is gone at the end, and the report counts them and names the failures
  (`sweep_exhaustive`). Two runs show that both conditions are needed: a secret that cannot
  be planned ends the sweep, and a store built late brings back the entry of the secret it
  depends on.
-/

import Monosecret.Cache.Freshness
import Monosecret.Plan.Route

namespace Monosecret.Cache

open Lib Plan

/-- How an error is shown. -/
def display : MonosecretError → String
  | .ProviderOperationFailed message => s!"Provider operation failed: {message}"
  | .ProviderNotFound name => s!"Provider backend '{name}' not found"
  | .SecretNotFound name => s!"Secret '{name}' not found"
  | .CompositionFailed message => s!"Failed to compose secret: {message}"
  | .CredentialInvalid name role reason => s!"Secret '{name}': credential `{role}` {reason}"
  | .Other message => message

abbrev Entries (Place : Type) := Place → Option SecretBytes

/-- A compiled secret. A derived one is composed, or taken from another secret. -/
structure Declared where
  planned : PlannedSecret
  derived : Bool

/-- What clearing asks of the configuration, the registry and the stores. -/
structure Maintenance (Place Provider : Type) where
  project : Text
  profile : Text
  ensure_reason : Except MonosecretError Unit
  /-- The compiled profile, or that it is not defined. -/
  require_profile : Except MonosecretError (List Declared)
  active_scope_members : Except MonosecretError (Option (List Text))
  registry : Text → Entries Place → Plan.Secrets
  refuse_cache_overlapping_source : PlannedSecret → Route → Except MonosecretError Unit
  /-- The entries after a secret was planned. -/
  planning : Text → Entries Place → Entries Place
  build_provider : Text → Text → Entries Place → Except MonosecretError Provider × Entries Place
  /-- Where the convention address of a secret lies. -/
  cache_address : Provider → Text → Place
  get_fails : Text → Provider → Entries Place → Bool
  delete_error : Text → Provider → Entries Place → Option MonosecretError
  codec : Codec
  now : Text → Option UInt64

variable {Place Provider : Type} [DecidableEq Place] (m : Maintenance Place Provider)

namespace Maintenance

/-! ## Planning -/

def validate_scoped_refs (s : Plan.Secrets) (planned : PlannedSecret) : Except MonosecretError Unit :=
  (planned.refs.getD []).forM fun reference =>
    match s.lookup_provider_alias_entry reference.1 with
    | none =>
      .error (.ProviderNotFound
        (s!"Secret '{planned.name}' defines `refs.{reference.1}`, but provider alias " ++
          s!"'{reference.1}' is not defined"))
    | some entry =>
      if entry.is_cached then
        .error (.ProviderOperationFailed
          (s!"Secret '{planned.name}' defines `refs.{reference.1}`, but '{reference.1}' is a cached route; " ++
            "scoped refs must name leaf provider aliases"))
      else .ok ()

/-- Without an override. -/
def plan_one_secret (s : Plan.Secrets) (declared : Declared) : Except MonosecretError (PlannedSecret × Option Route) := do
  validate_scoped_refs s declared.planned
  let route ← if declared.derived then .ok none else (s.route_for declared.planned none).map some
  match route with
  | some route => if route.cache.isSome then m.refuse_cache_overlapping_source declared.planned route else .ok ()
  | none => .ok ()
  return (declared.planned, route)

/-- None for a name that is not declared. -/
def plan_declared_secret (declared : List Declared) (name : Text) (entries : Entries Place) :
    Except MonosecretError (Option (PlannedSecret × Option Route)) × Entries Place :=
  match declared.find? fun declared => declared.planned.name = name with
  | none => (.ok none, entries)
  | some declared => ((m.plan_one_secret (m.registry name entries) declared).map some, m.planning name entries)

/-! ## One entry -/

/-- Only a value that is there and is someone else's is refused. -/
def check_cache_address_is_ours (provider : Provider) (name : Text) (entries : Entries Place) : Except MonosecretError Unit :=
  if m.get_fails name provider entries then .ok ()
  else match entries (m.cache_address provider name) with
    | none => .ok ()
    | some stored =>
      match ownership_at m.codec stored m.project m.profile (m.now name) with
      | .Foreign project profile =>
        .error (.ProviderOperationFailed
          (s!"the cache holds {project}/{profile}'s entry for '{name}' at this address, so it is not ours to change. " ++
            "Give this project's cache a store or path of its own."))
      | .Unrecognized =>
        .error (.ProviderOperationFailed
          (s!"the value stored for '{name}' is not a Monosecret cache entry, so it is not ours to change. Check that " ++
            "the cache provider addresses a store only Monosecret writes to."))
      | _ => .ok ()

/-- Whether there was an entry; a delete that fails leaves it. -/
def delete_cache_entry (provider : Provider) (name : Text) (entries : Entries Place) :
    Except MonosecretError Bool × Entries Place :=
  match m.check_cache_address_is_ours provider name entries with
  | .error e => (.error e, entries)
  | .ok () =>
    match m.delete_error name provider entries with
    | some e => (.error e, entries)
    | none =>
      (.ok (entries (m.cache_address provider name)).isSome, Function.update entries (m.cache_address provider name) none)

def invalidate_cached_secret (name : Text) (cache : ResolvedCache) (entries : Entries Place) :
    Except MonosecretError Bool × Entries Place :=
  match m.build_provider name cache.spec entries with
  | (.error e, entries) => (.error e, entries)
  | (.ok provider, entries) => m.delete_cache_entry provider name entries

/-! ## The sweep -/

/-- The loop of `clear_cache`, with its count and its failures. -/
def clear_each (declared : List Declared) (has_named_secret : Bool) :
    List Text → Nat → List (Text × MonosecretError) → Entries Place →
      Except MonosecretError (Nat × List (Text × MonosecretError)) × Entries Place
  | [], cleared, failures, entries => (.ok (cleared, failures), entries)
  | name :: names, cleared, failures, entries =>
    match m.plan_declared_secret declared name entries with
    | (.error e, entries) => (.error e, entries)
    | (.ok none, entries) => (.error (.SecretNotFound s!"Secret '{name}' is not defined in profile '{m.profile}'"), entries)
    | (.ok (some (_, none)), entries) =>
      if has_named_secret then
        (.error (.ProviderOperationFailed s!"secret '{name}' is derived and has no provider cache"), entries)
      else clear_each declared has_named_secret names cleared failures entries
    | (.ok (some (_, some route)), entries) =>
      match route.cache with
      | none =>
        if has_named_secret then
          (.error (.ProviderOperationFailed s!"secret '{name}' does not use a cached provider route"), entries)
        else clear_each declared has_named_secret names cleared failures entries
      | some cache =>
        match m.invalidate_cached_secret name cache entries with
        | (.ok deleted, entries) => clear_each declared has_named_secret names (cleared + deleted.toNat) failures entries
        | (.error e, entries) =>
          if has_named_secret then (.error e, entries)
          else clear_each declared has_named_secret names cleared (failures ++ [(name, e)]) entries

def report (cleared : Nat) (failures : List (Text × MonosecretError)) : Except MonosecretError Nat :=
  match failures with
  | [] => .ok cleared
  | (name, error) :: _ =>
    let noun := if cleared = 1 then "entry" else "entries"
    .error (.ProviderOperationFailed
      s!"cleared {cleared} cache {noun}, but {failures.length} could not be cleared ('{name}': {display error})")

/-- `resolve_profile_secret_names`: what an active scope leaves of the profile. -/
def resolve_profile_secret_names : Except MonosecretError (List Text) := do
  let declared ← m.require_profile
  let members ← m.active_scope_members
  let all := declared.map fun declared => declared.planned.name
  return match members with
    | none => all
    | some members => all.filter members.contains

/-- What is looked at before the first entry is. -/
def prepare : Option Text → Except MonosecretError (List Declared × List Text)
  | some name => do
    m.ensure_reason
    let declared ← m.require_profile
    return (declared, [name])
  | none => do
    m.ensure_reason
    let names ← m.resolve_profile_secret_names
    let declared ← m.require_profile
    return (declared, names)

def clear_cache (name : Option Text) (entries : Entries Place) : Except MonosecretError Nat × Entries Place :=
  match m.prepare name with
  | .error e => (.error e, entries)
  | .ok (declared, names) =>
    match m.clear_each declared name.isSome names 0 [] entries with
    | (.error e, entries) => (.error e, entries)
    | (.ok (cleared, failures), entries) => (report cleared failures, entries)

/-! ## The turns of a sweep -/

end Maintenance

/-- What a secret's turn comes to. `Cleared` is an entry, or no entry, at a place that was
    ours to clear, in a store that could be built and did delete. -/
inductive Turn (Place : Type) where
  | Unplanned (error : MonosecretError)
  | Uncached
  | Failed (error : MonosecretError)
  | Cleared (place : Place) (deleted : Bool)

namespace Turn

def planned : Turn Place → Bool
  | .Unplanned _ => false
  | _ => true

def count : Turn Place → Nat
  | .Cleared _ deleted => deleted.toNat
  | _ => 0

def place : Turn Place → Option Place
  | .Cleared place _ => some place
  | _ => none

def failure : Turn Place → Option MonosecretError
  | .Unplanned error => some error
  | .Failed error => some error
  | _ => none

end Turn

namespace Maintenance

/-- The entries once the secret is planned and, where it is cached, its store built. -/
def built (declared : List Declared) (name : Text) (entries : Entries Place) : Entries Place :=
  match m.plan_declared_secret declared name entries with
  | (.ok (some (_, some route)), entries) =>
    match route.cache with
    | some cache => (m.build_provider name cache.spec entries).2
    | none => entries
  | (_, entries) => entries

def turn (declared : List Declared) (name : Text) (entries : Entries Place) : Turn Place :=
  match m.plan_declared_secret declared name entries with
  | (.error e, _) => .Unplanned e
  | (.ok none, _) => .Unplanned (.SecretNotFound s!"Secret '{name}' is not defined in profile '{m.profile}'")
  | (.ok (some (_, none)), _) => .Uncached
  | (.ok (some (_, some route)), entries) =>
    match route.cache with
    | none => .Uncached
    | some cache =>
      match m.build_provider name cache.spec entries with
      | (.error e, _) => .Failed e
      | (.ok provider, entries) =>
        match m.delete_cache_entry provider name entries with
        | (.error e, _) => .Failed e
        | (.ok deleted, _) => .Cleared (m.cache_address provider name) deleted

def after (declared : List Declared) (name : Text) (entries : Entries Place) : Entries Place :=
  match (m.turn declared name entries).place with
  | some place => Function.update (m.built declared name entries) place none
  | none => m.built declared name entries

/-- The turns of the secrets, to the end or to one that cannot be planned. -/
def trace (declared : List Declared) : List Text → Entries Place → List (Text × Turn Place)
  | [], _ => []
  | name :: names, entries =>
    let turn := m.turn declared name entries
    if turn.planned then (name, turn) :: trace declared names (m.after declared name entries) else [(name, turn)]

def cleared (turns : List (Text × Turn Place)) : Nat := (turns.map fun turn => turn.2.count).sum

def failures (turns : List (Text × Turn Place)) : List (Text × MonosecretError) :=
  turns.filterMap fun turn => turn.2.failure.map fun error => (turn.1, error)

/-- One turn of the loop. -/
theorem clear_each_cons (declared : List Declared) (name : Text) (names : List Text) (count : Nat)
    (f : List (Text × MonosecretError)) (entries : Entries Place) :
    m.clear_each declared false (name :: names) count f entries =
      match m.turn declared name entries with
      | .Unplanned e => (.error e, m.after declared name entries)
      | turn =>
        m.clear_each declared false names (count + turn.count) (f ++ (turn.failure.map fun e => (name, e)).toList)
          (m.after declared name entries) := by
  rw [clear_each]
  unfold after turn built
  rcases hp : m.plan_declared_secret declared name entries with ⟨_ | _ | ⟨p, _ | route⟩, e'⟩
  · rfl
  · rfl
  · simp [Turn.count, Turn.failure, Turn.place]
  · cases hc : route.cache with
    | none => simp [hc, Turn.count, Turn.failure, Turn.place]
    | some c =>
      unfold invalidate_cached_secret
      rcases hb : m.build_provider name c.spec e' with ⟨e | provider, e''⟩
      · simp [hc, hb, Turn.count, Turn.failure, Turn.place]
      · unfold delete_cache_entry
        cases hours : m.check_cache_address_is_ours provider name e'' with
        | error e => simp [hc, hb, hours, Turn.count, Turn.failure, Turn.place]
        | ok =>
          cases hd : m.delete_error name provider e'' <;>
            simp [hc, hb, hours, hd, Turn.count, Turn.failure, Turn.place]

/-! ## An exhaustive sweep -/

/-- Every secret has its turn, the entries that were cleared are gone at the end, and the
    report is of all the turns. -/
structure Exhaustive (declared : List Declared) (names : List Text) (entries : Entries Place) : Prop where
  attempted : (m.trace declared names entries).map Prod.fst = names
  gone : ∀ name place deleted, (name, .Cleared place deleted) ∈ m.trace declared names entries →
    (m.clear_cache none entries).2 place = none
  reported : (m.clear_cache none entries).1 =
    report (cleared (m.trace declared names entries)) (failures (m.trace declared names entries))

/-- In every turn the secret can be planned, and neither planning it nor building its store
    puts an entry at a place already cleared. -/
def Steady (declared : List Declared) : List Place → List Text → Entries Place → Prop
  | _, [], _ => True
  | places, name :: names, entries =>
    (m.turn declared name entries).planned = true ∧
      (∀ place ∈ places, entries place = none → m.built declared name entries place = none) ∧
      Steady declared ((m.turn declared name entries).place.toList ++ places) names (m.after declared name entries)

variable {m} {declared : List Declared}
variable {name : Text} {entries : Entries Place}

theorem clear_each_planned {names : List Text} {count : Nat} {f : List (Text × MonosecretError)}
    (h : (m.turn declared name entries).planned) :
    m.clear_each declared false (name :: names) count f entries =
      m.clear_each declared false names (count + (m.turn declared name entries).count)
        (f ++ ((m.turn declared name entries).failure.map fun e => (name, e)).toList) (m.after declared name entries) := by
  rw [clear_each_cons]
  cases ht : m.turn declared name entries with
  | Unplanned e => rw [ht] at h; cases h
  | _ => rfl

theorem trace_planned (names : List Text) (h : (m.turn declared name entries).planned) :
    m.trace declared (name :: names) entries =
      (name, m.turn declared name entries) :: m.trace declared names (m.after declared name entries) := by
  rw [trace]
  exact if_pos h

omit [DecidableEq Place] in
theorem cleared_cons (t : Text × Turn Place) (turns : List (Text × Turn Place)) :
    cleared (t :: turns) = t.2.count + cleared turns := List.sum_cons

omit [DecidableEq Place] in
theorem failures_cons (t : Text × Turn Place) (turns : List (Text × Turn Place)) :
    failures (t :: turns) = (t.2.failure.map fun e => (t.1, e)).toList ++ failures turns := by
  cases h : t.2.failure <;> simp [failures, h]

/-- A deletion puts nothing back. -/
theorem after_none {p : Place} (h : m.built declared name entries p = none) :
    m.after declared name entries p = none := by
  unfold after
  cases (m.turn declared name entries).place with
  | none => exact h
  | some other =>
    by_cases he : p = other
    · exact he ▸ Function.update_self ..
    · exact (Function.update_of_ne he ..).trans h

theorem after_cleared {p : Place} (h : (m.turn declared name entries).place = some p) :
    m.after declared name entries p = none := by
  rw [after, h]
  exact Function.update_self ..

/-- What a run of the loop from `entries` comes to. -/
structure Swept (declared : List Declared) (places : List Place) (names : List Text) (entries final : Entries Place) : Prop where
  attempted : (m.trace declared names entries).map Prod.fst = names
  kept : ∀ place ∈ places, entries place = none → final place = none
  gone : ∀ name place deleted, (name, .Cleared place deleted) ∈ m.trace declared names entries → final place = none

theorem clear_each_steady {names : List Text} {p : List Place} (h : m.Steady declared p names entries)
    (c : Nat) (f : List (Text × MonosecretError)) :
    (m.clear_each declared false names c f entries).1 =
        .ok (c + cleared (m.trace declared names entries), f ++ failures (m.trace declared names entries)) ∧
      Swept (m := m) declared p names entries (m.clear_each declared false names c f entries).2 := by
  induction names generalizing p entries c f with
  | nil => exact ⟨by simp [clear_each, trace, cleared, failures], rfl, fun _ _ h => h, nofun⟩
  | cons name names ih =>
    obtain ⟨hp, hb, hs⟩ := h
    rw [clear_each_planned hp]
    obtain ⟨hr, ha, hk, hg⟩ := ih hs (c + (m.turn declared name entries).count)
      (f ++ ((m.turn declared name entries).failure.map fun e => (name, e)).toList)
    have ht := trace_planned names hp
    refine ⟨?_, ?_, fun place hl hn => ?_, fun other place d hm => ?_⟩
    · rw [hr, ht, cleared_cons, failures_cons, Nat.add_assoc, List.append_assoc]
    · rw [ht, List.map_cons, ha]
    · exact hk place (List.mem_append_right _ hl) (after_none (hb place hl hn))
    · rw [ht] at hm
      rcases List.mem_cons.mp hm with he | hm
      · obtain ⟨-, htn⟩ := Prod.mk.inj he
        have hl : (m.turn declared name entries).place = some place := by rw [← htn]; rfl
        have hc : place ∈ (m.turn declared name entries).place.toList := by rw [hl]; exact List.mem_singleton_self place
        exact hk place (List.mem_append_left _ hc) (after_cleared hl)
      · exact hg other place d hm

/-- A steady sweep is exhaustive. -/
theorem sweep_exhaustive {names : List Text} {entries : Entries Place} (hprepare : m.prepare none = .ok (declared, names))
    (hsteady : m.Steady declared [] names entries) : m.Exhaustive declared names entries := by
  obtain ⟨hr, hs⟩ := clear_each_steady hsteady 0 []
  rw [Nat.zero_add, List.nil_append] at hr
  have hc : m.clear_cache none entries =
      (report (cleared (m.trace declared names entries)) (failures (m.trace declared names entries)),
        (m.clear_each declared false names 0 [] entries).2) := by
    rw [clear_cache, hprepare]
    rcases hn : m.clear_each declared false names 0 [] entries with ⟨r, f⟩
    rw [hn] at hr
    replace hr : r = .ok (_, _) := hr
    simp only [Option.isSome_none, hn, hr]
  refine ⟨hs.attempted, fun name p d hm => ?_, ?_⟩
  · rw [hc]
    exact hs.gone name p d hm
  · rw [hc]

end Maintenance

/-! ## Two secrets -/

section

variable {Place Provider : Type} [DecidableEq Place] {m : Maintenance Place Provider} {declared : List Declared}
  {name : Text} {provider : Provider} {entries pl ready : Entries Place}

omit [DecidableEq Place] in
theorem check_ours {e : CacheEnvelope} {j : String} (hj : m.codec.from_str_current j = .ok e)
    (hp : e.project = m.project) (hf : e.profile = m.profile)
    (hr : entries (m.cache_address provider name) = some (utf8 CACHE_ENVELOPE_MARKER ++ utf8 j)) :
    m.check_cache_address_is_ours provider name entries = .ok () := by
  unfold Maintenance.check_cache_address_is_ours ownership_at
  simp only [hr, decode_encoded hj, hp, hf, and_self, if_true]
  cases m.get_fails name provider entries <;> cases ended (m.now name) e.expires_at <;> rfl

theorem turn_cleared {p : PlannedSecret} {r : Route} {c : ResolvedCache} {s : SecretBytes}
    (hp : m.plan_declared_secret declared name entries = (.ok (some (p, some r)), pl))
    (hc : r.cache = some c) (hb : m.build_provider name c.spec pl = (.ok provider, ready))
    (hours : m.check_cache_address_is_ours provider name ready = .ok ()) (hd : m.delete_error name provider ready = none)
    (hr : ready (m.cache_address provider name) = some s) :
    m.turn declared name entries = .Cleared (m.cache_address provider name) true ∧ m.built declared name entries = ready := by
  simp [Maintenance.turn, Maintenance.built, hp, hc, hb, Maintenance.delete_cache_entry, hours, hd, hr]

end

namespace TwoSecrets

open Maintenance

def entry : CacheEnvelope :=
  { project := Text.of "app", profile := Text.of "default", expires_at := 2000, max_age_secs := 1000
    route_fingerprint := Text.of "r", secret_expires_at_unix_ms := none, revision := none, value_base64 := "czE=" }

def stored : SecretBytes := utf8 CACHE_ENVELOPE_MARKER ++ utf8 "\x7b\x7d"

def registry : Plan.Secrets where
  lookup_provider_alias_entry spec :=
    if spec = Text.of "quick" then
      some { uri := Text.of "", reference_template := none, fallback := [Text.of "env"]
             cache := some ⟨Text.of "near", 1000, true⟩ }
    else if spec = Text.of "slow" then
      some { uri := Text.of "", reference_template := none, fallback := [Text.of "env"]
             cache := some ⟨Text.of "far", 1000, true⟩ }
    else if spec = Text.of "env" ∨ spec = Text.of "near" ∨ spec = Text.of "far" then
      some { uri := spec, reference_template := none, fallback := [], cache := none }
    else none
  known_provider_aliases := []
  configured_default_provider_spec := none
  spec_names_known_provider _ := .ok false
  validate_credential_sources _ := .ok ()
  canonical_storage_identity := .ok
  canonical_provider_uri := .ok
  provider_supports_delete _ := .ok true
  provider_encrypts_at_rest _ := false
  redact_uri_strict := Text.text
  deleting_provider_names := []
  encrypted_provider_names := []

def secret (name provider : Text) : Declared :=
  { planned := { name, providers := some [provider], reference := none, refs := none }, derived := false }

/-- Two secrets, and what building a store leaves behind. -/
def maintenance (first second : Declared) (building : Text → Entries (Text × Text) → Entries (Text × Text)) :
    Maintenance (Text × Text) Text where
  project := Text.of "app"
  profile := Text.of "default"
  ensure_reason := .ok ()
  require_profile := .ok [first, second]
  active_scope_members := .ok none
  registry _ _ := registry
  refuse_cache_overlapping_source _ _ := .ok ()
  planning _ entries := entries
  build_provider _ spec entries := (.ok spec, building spec entries)
  cache_address := Prod.mk
  get_fails _ _ _ := false
  delete_error _ _ _ := none
  codec := single entry "\x7b\x7d" []
  now _ := some 1500

def near : Declared := secret (Text.of "A_TOKEN") (Text.of "quick")
def far : Declared := secret (Text.of "B_KEY") (Text.of "slow")

def both : Entries (Text × Text) := fun place =>
  if place = (Text.of "near", Text.of "A_TOKEN") ∨ place = (Text.of "far", Text.of "B_KEY") then some stored else none

theorem near_cleared (b : Text → Entries (Text × Text) → Entries (Text × Text)) (entries : Entries (Text × Text))
    (hr : b (Text.of "near") entries (Text.of "near", Text.of "A_TOKEN") = some stored) :
    (maintenance near far b).turn [near, far] (Text.of "A_TOKEN") entries =
        .Cleared (Text.of "near", Text.of "A_TOKEN") true ∧
      (maintenance near far b).built [near, far] (Text.of "A_TOKEN") entries = b (Text.of "near") entries :=
  turn_cleared rfl rfl rfl (check_ours rfl rfl rfl hr) rfl hr

theorem far_cleared (b : Text → Entries (Text × Text) → Entries (Text × Text)) (entries : Entries (Text × Text))
    (hr : b (Text.of "far") entries (Text.of "far", Text.of "B_KEY") = some stored) :
    (maintenance near far b).turn [near, far] (Text.of "B_KEY") entries =
        .Cleared (Text.of "far", Text.of "B_KEY") true ∧
      (maintenance near far b).built [near, far] (Text.of "B_KEY") entries = b (Text.of "far") entries :=
  turn_cleared rfl rfl rfl (check_ours rfl rfl rfl hr) rfl hr

def names : List Text := [Text.of "A_TOKEN", Text.of "B_KEY"]

/-- Building a store leaves the entries alone. -/
theorem quiet_steady : (maintenance near far fun _ entries => entries).Steady [near, far] [] names both := by
  have hn := near_cleared (fun _ entries => entries) both rfl
  have hf := far_cleared (fun _ entries => entries)
    ((maintenance near far fun _ entries => entries).after [near, far] (Text.of "A_TOKEN") both)
    (by rw [after, hn.1, hn.2]; rfl)
  exact ⟨by rw [hn.1]; rfl, nofun, by rw [hf.1]; rfl, fun p _ hnn => by rw [hf.2]; exact hnn, trivial⟩

theorem both_cleared : (maintenance near far fun _ entries => entries).Exhaustive [near, far] names both :=
  sweep_exhaustive rfl quiet_steady

/-- `far` depends on `A_TOKEN`, which its own cached route looks up and caches again. -/
def recached (spec : Text) (entries : Entries (Text × Text)) : Entries (Text × Text) :=
  if spec = Text.of "far" then Function.update entries (Text.of "near", Text.of "A_TOKEN") (some stored) else entries

def unplanned : Declared := secret (Text.of "A_TOKEN") (Text.of "gone")

abbrev circular : Maintenance (Text × Text) Text := maintenance near far recached

def token_place : Text × Text := (Text.of "near", Text.of "A_TOKEN")

theorem token_gone : circular.after [near, far] (Text.of "A_TOKEN") both = Function.update both token_place none := by
  have hn := near_cleared recached both rfl
  rw [after, hn.1, hn.2]
  rfl

theorem token_back : (circular.clear_cache none both).2 token_place = some stored := by
  have hn := near_cleared recached both rfl
  have hf := far_cleared recached (Function.update both token_place none) rfl
  have hr : circular.clear_each [near, far] false names 0 [] both =
      (.ok (2, []), circular.after [near, far] (Text.of "B_KEY") (Function.update both token_place none)) := by
    rw [names, clear_each_planned (by rw [hn.1]; rfl), hn.1, token_gone, clear_each_planned (by rw [hf.1]; rfl), hf.1]
    rfl
  have hp : circular.prepare none = .ok ([near, far], names) := rfl
  rw [clear_cache, hp]
  simp only [Option.isSome_none, hr]
  rw [after, hf.1, hf.2]
  rfl

/-- A secret whose alias is gone ends the sweep before the other's turn; and a store that is
    built late brings an entry back. -/
theorem left_behind : ¬ (maintenance unplanned far fun _ entries => entries).Exhaustive [unplanned, far] names both ∧
    ¬ circular.Exhaustive [near, far] names both := by
  constructor
  · intro h
    have ha := h.attempted
    have ht : ((maintenance unplanned far fun _ entries => entries).trace [unplanned, far] names both).map Prod.fst =
        [Text.of "A_TOKEN"] := rfl
    rw [ht] at ha
    cases ha
  · intro h
    have hn := near_cleared recached both rfl
    have hm : (Text.of "A_TOKEN", .Cleared token_place true) ∈ circular.trace [near, far] names both := by
      rw [names, trace_planned _ (by rw [hn.1]; rfl), hn.1]
      exact .head _
    have hc := h.gone _ _ _ hm
    rw [token_back] at hc
    cases hc

end TwoSecrets

end Monosecret.Cache
