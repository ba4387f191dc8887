/-
  Monosecret.Plan.RouteChange — entries cached under an old route once the route's sources
  have changed.

  The canonical URI of each source, their order and the ref template that applies to each
  are a route's `authority`. In the fallback form all of it reaches `route_fingerprint`, so
  an entry of the old route is never fresh under the new one. The inline form has no
  fallback list to zip its URI with, so nothing of it is hashed: `route_change_invalidates`
  says that this is the only exception, and `inline_route_change_serves_old_value` is a hit
  on the old store's value after the URI has changed.
-/

import Monosecret.Cache.Envelope
import Monosecret.Plan.Route

namespace Monosecret.Plan

open Lib Cache

/-- The ref template `address_for_spec` applies to a source. -/
def Secrets.applicable_template (s : Secrets) (spec : Text) : Option NativeAddressTemplate :=
  ((s.lookup_provider_alias_entry spec).filter fun entry => !entry.is_cached).bind ProviderAlias.reference_template

/-- A route that `cached_route` built. -/
structure CachedRoute (s : Secrets) where
  name : Text
  entry : ProviderAlias
  route : Route
  built : s.cached_route name entry = .ok route

namespace CachedRoute

variable {s : Secrets} (r : CachedRoute s)

/-- The `uri + cache` form. -/
def is_inline : Bool := r.entry.authoritative_uri.isSome

def sources : List (Text × Text) := (s.cached_sources r.name r.entry).toOption.getD []

def source_route_uris : List Text :=
  ((r.sources.map Prod.snd).mapM s.canonical_provider_uri).toOption.getD []

/-- Each authoritative source in order: its canonical URI and the ref template that applies. -/
def authority : List (Text × Option NativeAddressTemplate) :=
  (r.sources.zip r.source_route_uris).map fun source => (source.2, s.applicable_template source.1.1)

/-- The parts hashed into `route_fingerprint`. -/
def parts : List Text := s.source_route_fingerprints r.entry r.source_route_uris

/-- Everything that is hashed on the way to `route_fingerprint`. -/
def hashed : List (List Text) :=
  r.parts :: (r.entry.fallback.zip r.source_route_uris).map s.source_route_parts ++
    (r.entry.fallback.filterMap s.declared_template).map fun template =>
      coordinate_parts (Text.of "ref-template") template.coordinates

theorem expanded : ∃ c cache_uri,
    Secrets.Expanded s r.name r.entry r.route c r.sources r.source_route_uris cache_uri := by
  obtain ⟨c, sources, uris, cache_uri, h⟩ := Secrets.cached_route_ok r.built
  have hs : r.sources = sources := by simp [CachedRoute.sources, h.from_sources, Except.toOption]
  have hu : r.source_route_uris = uris := by
    simp [source_route_uris, hs, h.canonical, Except.toOption]
  exact ⟨c, cache_uri, hs ▸ hu ▸ h⟩

theorem cached : r.route.cache.isSome := by
  obtain ⟨cc, c, h⟩ := r.expanded
  simp [h.resolved]

def cache : ResolvedCache := r.route.cache.get r.cached

theorem cache_route_fingerprint : r.cache.route_fingerprint = stable_fingerprint r.parts := by
  obtain ⟨cc, c, h⟩ := r.expanded
  have hg := Option.get_of_eq_some r.cached h.resolved
  rw [CachedRoute.cache, hg]
  rfl

/-! ## The two forms -/

theorem sources_ne_nil : r.sources ≠ [] := by
  obtain ⟨cc, c, h⟩ := r.expanded
  intro hn
  have hs := h.primary_some
  rw [h.primary, hn] at hs
  cases hs

theorem uris_length : r.source_route_uris.length = r.sources.length := by
  obtain ⟨cc, c, h⟩ := r.expanded
  have ha := Except.mapM_ok h.canonical
  rw [← ha.length_eq, List.length_map]

variable {r}

theorem parts_inline (h : r.is_inline) : r.parts = [] := by
  obtain ⟨cc, c, hx⟩ := r.expanded
  simp [parts, Secrets.source_route_fingerprints, hx.one_form h]

theorem specs_chain (h : r.is_inline = false) : r.sources.map Prod.fst = r.entry.fallback := by
  obtain ⟨cc, c, hx⟩ := r.expanded
  have hm := Secrets.cached_sources_map_fst hx.from_sources
  rw [is_inline] at h
  rw [hm, h, if_neg Bool.false_ne_true]

theorem parts_chain_ne_nil (h : r.is_inline = false) : r.parts ≠ [] := by
  intro hn
  have hs := congrArg List.length (specs_chain h)
  have hu := r.uris_length
  have hp := congrArg List.length hn
  have hr := List.length_pos_iff.mpr r.sources_ne_nil
  simp only [parts, Secrets.source_route_fingerprints, List.length_map, List.length_zip, List.length_nil] at hp hs
  omega

/-- Sources of the fallback form are leaves, so the template that is hashed is the one that
    applies. -/
theorem applicable_chain {spec : Text} (h : spec ∈ r.entry.fallback) :
    s.applicable_template spec = s.declared_template spec := by
  obtain ⟨cc, c, hx⟩ := r.expanded
  have hl := hx.leaves spec (List.mem_append_left _ h)
  unfold Secrets.cached_alias at hl
  unfold Secrets.applicable_template Secrets.declared_template
  cases he : s.lookup_provider_alias_entry spec with
  | none => rfl
  | some e =>
    rw [he] at hl
    by_cases hc : e.is_cached
    · simp [Option.filter, hc] at hl
    · simp [Option.filter, hc]

theorem authority_chain (h : r.is_inline = false) :
    r.authority = (r.entry.fallback.zip r.source_route_uris).map fun sr => (sr.2, s.applicable_template sr.1) := by
  rw [authority, ← specs_chain h, List.zip_map_left, List.map_map]
  rfl

end CachedRoute

/-! ## Equal parts, equal sources -/

section

variable {s₁ s₂ : Secrets} {i : List (List Text)}

/-- Templates are told apart by what is hashed for them, also from having none. -/
theorem Separates.template_inj (h : Separates i) {a b : Option NativeAddressTemplate}
    (ha : ∀ t, a = some t → coordinate_parts (Text.of "ref-template") t.coordinates ∈ i)
    (hb : ∀ t, b = some t → coordinate_parts (Text.of "ref-template") t.coordinates ∈ i)
    (he : Secrets.template_fingerprint a = Secrets.template_fingerprint b) : a = b := by
  cases a with
  | none =>
    cases b with
    | none => rfl
    | some t => exact absurd he.symm (stable_fingerprint_ne_convention _)
  | some t =>
    cases b with
    | none => exact absurd he (stable_fingerprint_ne_convention _)
    | some u => rw [h.coordinate_fingerprint_inj (ha t rfl) (hb u rfl) he]

/-- Two lists of sources hashed to the same parts name the same URIs and templates, in the
    same order. -/
theorem Separates.sources_inj (h : Separates i) {as bs : List (Text × Text)}
    (ha : ∀ a ∈ as, s₁.source_route_parts a ∈ i) (hb : ∀ b ∈ bs, s₂.source_route_parts b ∈ i)
    (ht : ∀ a ∈ as, ∀ t, s₁.declared_template a.1 = some t →
      coordinate_parts (Text.of "ref-template") t.coordinates ∈ i)
    (htb : ∀ b ∈ bs, ∀ t, s₂.declared_template b.1 = some t →
      coordinate_parts (Text.of "ref-template") t.coordinates ∈ i)
    (he : as.map (fun a => stable_fingerprint (s₁.source_route_parts a)) =
      bs.map fun b => stable_fingerprint (s₂.source_route_parts b)) :
    (as.map fun a => (a.2, s₁.declared_template a.1)) =
      bs.map fun b => (b.2, s₂.declared_template b.1) := by
  induction as generalizing bs with
  | nil =>
    cases bs with
    | nil => rfl
    | cons b bs => cases he
  | cons a as ih =>
    cases bs with
    | nil => cases he
    | cons b bs =>
      simp only [List.map_cons, List.cons.injEq] at he ⊢
      have hp := h.stable_fingerprint_inj (ha a (.head _)) (hb b (.head _)) he.1
      simp only [Secrets.source_route_parts, List.cons.injEq, and_true, true_and] at hp
      have hm := h.template_inj (ht a (.head _)) (htb b (.head _)) hp.2.2
      refine ⟨by rw [hp.2.1, hm], ?_⟩
      exact ih (fun x hx => ha x (.tail _ hx)) (fun x hx => hb x (.tail _ hx))
        (fun x hx => ht x (.tail _ hx)) (fun x hx => htb x (.tail _ hx)) he.2

theorem Separates.authority_inj {r₁ : CachedRoute s₁} {r₂ : CachedRoute s₂} (h : Separates i)
    (h₁ : ∀ as ∈ r₁.hashed, as ∈ i) (h₂ : ∀ as ∈ r₂.hashed, as ∈ i) (hi₁ : r₁.is_inline = false)
    (hi₂ : r₂.is_inline = false) (he : r₁.parts = r₂.parts) : r₁.authority = r₂.authority := by
  have hp : ∀ {s : Secrets} (r : CachedRoute s), ∀ a ∈ r.entry.fallback.zip r.source_route_uris,
      s.source_route_parts a ∈ r.hashed := by
    intro s r a ha
    exact .tail _ (List.mem_append_left _ (List.mem_map_of_mem ha))
  have hm : ∀ {s : Secrets} (r : CachedRoute s), ∀ a ∈ r.entry.fallback.zip r.source_route_uris, ∀ t,
      s.declared_template a.1 = some t →
        coordinate_parts (Text.of "ref-template") t.coordinates ∈ r.hashed := by
    intro s r a ha t ht
    have hmm := List.mem_filterMap.mpr ⟨a.1, (List.of_mem_zip ha).1, ht⟩
    exact .tail _ (List.mem_append_right _ (List.mem_map_of_mem hmm))
  have hap : ∀ {s : Secrets} (r : CachedRoute s), r.is_inline = false →
      r.authority = (r.entry.fallback.zip r.source_route_uris).map fun a =>
        (a.2, s.declared_template a.1) := by
    intro s r hi
    rw [CachedRoute.authority_chain hi]
    refine List.map_congr_left ?_
    intro a ha
    rw [CachedRoute.applicable_chain (List.of_mem_zip ha).1]
  rw [hap r₁ hi₁, hap r₂ hi₂]
  exact h.sources_inj (fun a ha => h₁ _ (hp r₁ a ha)) (fun b hb => h₂ _ (hp r₂ b hb))
    (fun a ha t ht => h₁ _ (hm r₁ a ha t ht)) (fun b hb t ht => h₂ _ (hm r₂ b hb t ht)) he

end

/-! ## Entries of the old route -/

/-- A secret as one project and profile asks for it. -/
structure Asking where
  planned : PlannedSecret
  project : Text
  profile : Text
  deriving DecidableEq

namespace Asking

def cache_parts {s : Secrets} (a : Asking) (r : CachedRoute s) : List Text :=
  a.planned.cache_parts r.cache a.project a.profile

def cache_fingerprint {s : Secrets} (a : Asking) (r : CachedRoute s) : Text :=
  a.planned.cache_fingerprint r.cache a.project a.profile

/-- What a value written under `r` is stored as. -/
def encode {s : Secrets} (a : Asking) (r : CachedRoute s) (codec : Codec) (now : UInt64) (value : ProviderValue) :
    Except CacheEncodeError SecretBytes :=
  encode_provider_entry_at codec a.project a.profile now r.cache.max_age_secs (a.cache_fingerprint r) value

/-- What a read under `r` makes of a stored entry. -/
def inspect {s : Secrets} (a : Asking) (r : CachedRoute s) (codec : Codec) {ε : Type} (clock : Except ε UInt64)
    (stored : SecretBytes) : Except ε CacheEntryStatus :=
  inspect_entry_with_clock codec stored a.project a.profile (a.cache_fingerprint r) r.cache.max_age_secs clock

end Asking

/-- The change from `r₁` to `r₂` reaches the hashed parts and both fingerprints, and ends the
    use of every entry written under `r₁`. -/
structure Invalidates {s₁ s₂ : Secrets} (codec : Codec) (r₁ : CachedRoute s₁) (r₂ : CachedRoute s₂) (a₁ a₂ : Asking) :
    Prop where
  parts : delimited_text r₁.parts ≠ delimited_text r₂.parts
  route_fingerprint : r₁.cache.route_fingerprint ≠ r₂.cache.route_fingerprint
  cache_fingerprint : a₁.cache_fingerprint r₁ ≠ a₂.cache_fingerprint r₂
  never_fresh : ∀ {ε : Type} now value stored (clock : Except ε UInt64) served refresh expires revision,
    a₁.encode r₁ codec now value = .ok stored →
      a₂.inspect r₂ codec clock stored ≠ .ok (.Fresh served refresh expires revision)

section

variable {s₁ s₂ : Secrets} {codec : Codec} {r₁ : CachedRoute s₁} {r₂ : CachedRoute s₂} {a₁ a₂ : Asking}

/-- Everything the two routes and the two entries hash. -/
def hashed_inputs (r₁ : CachedRoute s₁) (r₂ : CachedRoute s₂) (a₁ a₂ : Asking) : List (List Text) :=
  r₁.hashed ++ r₂.hashed ++ [a₁.cache_parts r₁, a₂.cache_parts r₂]

theorem invalidates_of_parts_ne (hj : codec.JsonRoundTrips) (h : Separates (hashed_inputs r₁ r₂ a₁ a₂))
    (hn : r₁.parts ≠ r₂.parts) : Invalidates codec r₁ r₂ a₁ a₂ := by
  have hm : ∀ {s : Secrets} (r : CachedRoute s), r.parts ∈ r.hashed := fun _ => .head _
  have hr : r₁.cache.route_fingerprint ≠ r₂.cache.route_fingerprint := by
    rw [r₁.cache_route_fingerprint, r₂.cache_route_fingerprint]
    intro he
    refine hn (h.stable_fingerprint_inj ?_ ?_ he)
    all_goals simp [hashed_inputs, hm]
  have hc : a₁.cache_fingerprint r₁ ≠ a₂.cache_fingerprint r₂ := by
    intro he
    have hp := h.stable_fingerprint_inj (by simp [hashed_inputs, Asking.cache_parts])
      (by simp [hashed_inputs, Asking.cache_parts]) he
    simp only [PlannedSecret.cache_parts, List.cons.injEq] at hp
    exact hr hp.2.2.1
  refine ⟨fun he => hn (delimited_text_inj he), hr, hc, ?_⟩
  intro ε now value st c sr rf ex rv hs hf
  obtain ⟨e, hd, -, hold⟩ := encoded_names hj hs
  obtain ⟨e', hd', -, hw⟩ := fresh_fingerprint hf
  rw [hd] at hd'
  cases hd'
  exact hc (hold.symm.trans hw)

/-- A change of the sources invalidates what was cached exactly when the two routes are not
    both of the inline form. -/
theorem route_change_invalidates (hjson : codec.JsonRoundTrips) (h : Separates (hashed_inputs r₁ r₂ a₁ a₂)) :
    (r₁.authority ≠ r₂.authority → Invalidates codec r₁ r₂ a₁ a₂) ↔
      ¬ (r₁.is_inline = true ∧ r₂.is_inline = true ∧ r₁.authority ≠ r₂.authority) := by
  constructor
  · rintro hi ⟨hi₁, hi₂, hn⟩
    refine (hi hn).parts ?_
    rw [CachedRoute.parts_inline hi₁, CachedRoute.parts_inline hi₂]
  · intro hf hn
    refine invalidates_of_parts_ne hjson h ?_
    intro he
    cases hi₁ : r₁.is_inline <;> cases hi₂ : r₂.is_inline
    case false.false =>
      refine hn (h.authority_inj ?_ ?_ hi₁ hi₂ he)
      all_goals
        intro as ha
        simp [hashed_inputs, ha]
    case false.true => exact CachedRoute.parts_chain_ne_nil hi₁ (he.trans (CachedRoute.parts_inline hi₂))
    case true.false => exact CachedRoute.parts_chain_ne_nil hi₂ (he.symm.trans (CachedRoute.parts_inline hi₁))
    case true.true => exact hf ⟨hi₁, hi₂, hn⟩

end

/-! ## A change of store -/

namespace Moved

/-- Two cached aliases over the store at `source`: `chain` lists it, `inline` names it. -/
def secrets (source : Text) : Secrets where
  lookup_provider_alias_entry spec :=
    let cache := some ⟨Text.of "keyring://", 28800, false⟩
    if spec = Text.of "inline" then some { uri := source, reference_template := none, fallback := [], cache }
    else if spec = Text.of "chain" then
      some { uri := Text.of "", reference_template := none, fallback := [source], cache }
    else none
  known_provider_aliases := [Text.of "chain", Text.of "inline"]
  configured_default_provider_spec := none
  spec_names_known_provider _ := .ok false
  validate_credential_sources _ := .ok ()
  canonical_storage_identity := .ok
  canonical_provider_uri := .ok
  provider_supports_delete _ := .ok true
  provider_encrypts_at_rest _ := true
  redact_uri_strict := Text.text
  deleting_provider_names := []
  encrypted_provider_names := []

def old_store : Text := Text.of "dotenv:///srv/old.env"

def new_store : Text := Text.of "dotenv:///srv/new.env"

def inline_fingerprint : Text := stable_fingerprint []

def chain_fingerprint (source : Text) : Text :=
  stable_fingerprint [stable_fingerprint [Text.of "source-route", source, source, Text.of "convention"]]

def inline_route (source : Text) : Route where
  primary := some ⟨Text.of "inline", source⟩
  fallback := []
  cache := some ⟨Text.of "inline", Text.of "keyring://", Text.of "keyring://", 28800, inline_fingerprint⟩

def chain_route (source : Text) : Route where
  primary := some ⟨source, source⟩
  fallback := []
  cache := some ⟨Text.of "chain", Text.of "keyring://", Text.of "keyring://", 28800, chain_fingerprint source⟩

def inline_old : CachedRoute (secrets old_store) := ⟨Text.of "inline",
  { uri := old_store, reference_template := none, fallback := [], cache := some ⟨Text.of "keyring://", 28800, false⟩ },
  inline_route old_store, by decide +kernel⟩

def inline_new : CachedRoute (secrets new_store) := ⟨Text.of "inline",
  { uri := new_store, reference_template := none, fallback := [], cache := some ⟨Text.of "keyring://", 28800, false⟩ },
  inline_route new_store, by decide +kernel⟩

def chain_old : CachedRoute (secrets old_store) := ⟨Text.of "chain",
  { uri := Text.of "", reference_template := none, fallback := [old_store],
    cache := some ⟨Text.of "keyring://", 28800, false⟩ }, chain_route old_store, by decide +kernel⟩

def chain_new : CachedRoute (secrets new_store) := ⟨Text.of "chain",
  { uri := Text.of "", reference_template := none, fallback := [new_store],
    cache := some ⟨Text.of "keyring://", 28800, false⟩ }, chain_route new_store, by decide +kernel⟩

def asking : Asking := ⟨⟨Text.of "API_KEY", none, none, none⟩, Text.of "app", Text.of "prod"⟩

/-- What `s1` cached at second 1000 is written as. -/
def envelope : CacheEnvelope where
  project := Text.of "app"
  profile := Text.of "prod"
  expires_at := 29800
  max_age_secs := 28800
  route_fingerprint := asking.cache_fingerprint inline_old
  secret_expires_at_unix_ms := none
  revision := none
  value_base64 := "czE="

def json : String :=
  "\x7b\"project\":\"app\",\"profile\":\"prod\",\"expires_at\":29800,\"max_age_secs\":28800,\"route_fingerprint\":\"" ++
    envelope.route_fingerprint.text ++ "\",\"secret_expires_at_unix_ms\":null,\"value_base64\":\"czE=\"\x7d"

/-- JSON and base64 of that one entry. -/
def codec : Codec where
  from_str_current text := if text = json then .ok envelope else .error "expected another entry"
  from_str_v3 _ := .error "expected another entry"
  from_str_legacy _ := .error "expected another entry"
  to_string entry := if entry = envelope then .ok json else .error "expected another entry"
  base64_encode bytes := if bytes = utf8 "s1" then "czE=" else ""
  base64_decode text := if text = "czE=" then some (utf8 "s1") else none

theorem codec_round_trips : codec.JsonRoundTrips := by
  intro e t h
  simp only [codec] at h ⊢
  split at h
  · rename_i he
    cases h
    rw [if_pos rfl, he]
  · cases h

end Moved

open Moved in
/-- After the inline alias moves to a new store, the value cached from the old one is a
    fresh hit. -/
theorem inline_route_change_serves_old_value :
    inline_old.authority ≠ inline_new.authority ∧ Separates (hashed_inputs inline_old inline_new asking asking) ∧
      ¬ Invalidates codec inline_old inline_new asking asking ∧
      ∃ stored, asking.encode inline_old codec 1000 ⟨utf8 "s1", none, none⟩ = .ok stored ∧
        asking.inspect inline_new codec (ε := Empty) (.ok 1001) stored =
          .ok (.Fresh (utf8 "s1") (some 29800000) none none) := by
  refine ⟨by decide +kernel, by decide +kernel, ?_, utf8 CACHE_ENVELOPE_MARKER ++ utf8 json, by decide +kernel,
    by decide +kernel⟩
  intro h
  exact h.parts (by decide +kernel)

open Moved in
/-- The fallback form, moved the same way, drops the entry. -/
theorem chain_route_change_invalidates :
    chain_old.authority ≠ chain_new.authority ∧ Invalidates codec chain_old chain_new asking asking := by
  have hn : chain_old.authority ≠ chain_new.authority := by decide +kernel
  refine ⟨hn, ?_⟩
  refine (route_change_invalidates codec_round_trips (by decide +kernel)).mpr ?_ hn
  rintro ⟨hi, -⟩
  exact absurd hi (by decide +kernel)

end Monosecret.Plan
