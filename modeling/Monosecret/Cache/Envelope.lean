/-
  Monosecret.Cache.Envelope — cache entries (`monosecret/src/cache.rs`): the envelope, who
  owns the value at a cache address, and what an entry can do for a read.

  Every entry starts with a marker. A value without one is not Monosecret's
  (`Unrecognized`); one whose payload does not parse is (`OursUnreadable`). JSON and base64
  are the `Codec`; the clock is what reading it returned.

  `ownership_refuses_iff` says exactly which values a project and profile may not change,
  and `fresh_fingerprint` that only an entry of the same project, profile and route
  fingerprint is ever served.
-/

import Monosecret.Lib.Except
import Monosecret.Lib.LengthPrefix

namespace Monosecret.Cache

open Lib

abbrev SecretBytes := List UInt8

/-- `Revision`, an opaque token. -/
abbrev Revision := Text

structure ProviderValue where
  value : SecretBytes
  expires_at_unix_ms : Option UInt64
  revision : Option Revision
  deriving DecidableEq

def CACHE_ENVELOPE_MARKER : String := "monosecret-cache-v4:"

def V3_CACHE_ENVELOPE_MARKER : String := "monosecret-cache-v3:"

def LEGACY_CACHE_ENVELOPE_MARKER : String := "monosecret-cache-v2:"

structure CacheEnvelope where
  project : Text
  profile : Text
  expires_at : UInt64
  max_age_secs : UInt64
  route_fingerprint : Text
  secret_expires_at_unix_ms : Option UInt64
  revision : Option Revision
  value_base64 : String
  deriving DecidableEq

structure V3CacheEnvelope where
  project : Text
  profile : Text
  expires_at : UInt64
  max_age_secs : UInt64
  route_fingerprint : Text
  secret_expires_at_unix_ms : Option UInt64
  value : Text
  deriving DecidableEq

structure LegacyCacheEnvelope where
  project : Text
  profile : Text
  cached_at : UInt64
  route_fingerprint : Text
  value : Text
  deriving DecidableEq

inductive DecodedEnvelope where
  | Current (envelope : CacheEnvelope)
  | V3 (envelope : V3CacheEnvelope)
  | Legacy (envelope : LegacyCacheEnvelope)
  deriving DecidableEq

/-- `serde_json` at the three envelope types, and padded base64. -/
structure Codec where
  from_str_current : String → Except String CacheEnvelope
  from_str_v3 : String → Except String V3CacheEnvelope
  from_str_legacy : String → Except String LegacyCacheEnvelope
  to_string : CacheEnvelope → Except String String
  base64_encode : SecretBytes → String
  base64_decode : String → Option SecretBytes

def utf8 (s : String) : SecretBytes := s.toByteArray.data.toList

inductive CacheOwnership where
  | Ours
  | Expired
  | Foreign (project profile : Text)
  | OursUnreadable
  | Unrecognized
  deriving DecidableEq

inductive CacheEntryStatus where
  | Fresh (value : SecretBytes) (refresh_at_unix_ms expires_at_unix_ms : Option UInt64) (revision : Option Revision)
  | Stale
  | OursUnreadable
  | Foreign (project profile : Text)
  | Unrecognized
  deriving DecidableEq

inductive CacheEncodeError where
  | Clock
  | ExpirationOverflow
  | SecretExpired
  | Serialize (error : String)
  deriving DecidableEq

/-! ## 64-bit arithmetic -/

def checked_add (a b : UInt64) : Option UInt64 := if a.toNat + b.toNat < 2 ^ 64 then some (a + b) else none

def checked_mul (a b : UInt64) : Option UInt64 := if a.toNat * b.toNat < 2 ^ 64 then some (a * b) else none

def checked_sub (a b : UInt64) : Option UInt64 := if b ≤ a then some (a - b) else none

def saturating_mul (a b : UInt64) : UInt64 := if a.toNat * b.toNat < 2 ^ 64 then a * b else UInt64.ofNat (2 ^ 64 - 1)

def saturating_sub (a b : UInt64) : UInt64 := if b ≤ a then a - b else 0

/-! ## Decoding -/

/-- `stored.strip_prefix(marker.as_bytes())`. -/
def payload_after (marker : String) (stored : SecretBytes) : Option SecretBytes :=
  if utf8 marker <+: stored then some (stored.drop (utf8 marker).length) else none

def payload_text (payload : SecretBytes) : Except String String :=
  match String.fromUTF8? ⟨payload.toArray⟩ with
  | some text => .ok text
  | none => .error "cache envelope is not UTF-8"

variable (codec : Codec)

/-- `none` when no marker is there. -/
def decode (stored : SecretBytes) : Option (Except String DecodedEnvelope) :=
  match payload_after CACHE_ENVELOPE_MARKER stored with
  | some payload => some (payload_text payload >>= fun text => codec.from_str_current text |>.map .Current)
  | none =>
    match payload_after V3_CACHE_ENVELOPE_MARKER stored with
    | some payload => some (payload_text payload >>= fun text => codec.from_str_v3 text |>.map .V3)
    | none =>
      (payload_after LEGACY_CACHE_ENVELOPE_MARKER stored).map fun payload =>
        payload_text payload >>= fun text => codec.from_str_legacy text |>.map .Legacy

/-! ## Ownership -/

/-- `now.is_some_and(|now| now >= expires_at)`. -/
def ended (now : Option UInt64) (expires_at : UInt64) : Bool :=
  match now with
  | some now => decide (expires_at ≤ now)
  | none => false

def ownership_at (stored : SecretBytes) (project profile : Text) (now : Option UInt64) : CacheOwnership :=
  match decode codec stored with
  | none => .Unrecognized
  | some (.error _) => .OursUnreadable
  | some (.ok (.Current envelope)) =>
    if ended now envelope.expires_at then .Expired
    else if envelope.project = project ∧ envelope.profile = profile then .Ours
    else .Foreign envelope.project envelope.profile
  | some (.ok (.V3 envelope)) =>
    if ended now envelope.expires_at then .Expired
    else if envelope.project = project ∧ envelope.profile = profile then .Ours
    else .Foreign envelope.project envelope.profile
  | some (.ok (.Legacy envelope)) =>
    if envelope.project = project ∧ envelope.profile = profile then .Ours
    else .Foreign envelope.project envelope.profile

/-! ## Inspection -/

/-- What `inspect_entry_with_clock` takes out of a current or v3 envelope. -/
structure Inspected where
  project_owner : Text
  profile_owner : Text
  expires_at : UInt64
  envelope_max_age : UInt64
  route : Text
  value : Option SecretBytes
  secret_expiry : Option UInt64
  revision : Option Revision

def inspect_unexpired (e : Inspected) (project profile route_fingerprint : Text) (max_age_secs now : UInt64) :
    CacheEntryStatus :=
  if e.expires_at ≤ now ∨ e.secret_expiry.any (fun expiry => decide (expiry ≤ saturating_mul now 1000)) then .Stale
  else if e.project_owner ≠ project ∨ e.profile_owner ≠ profile then .Foreign e.project_owner e.profile_owner
  else match checked_sub e.expires_at e.envelope_max_age with
    | none => .Stale
    | some cached_at =>
      if now < cached_at ∨ e.envelope_max_age ≠ max_age_secs then .Stale
      else if e.route ≠ route_fingerprint then .Stale
      else match e.value with
        | some value => .Fresh value (checked_mul e.expires_at 1000) e.secret_expiry e.revision
        | none => .OursUnreadable

def inspect_legacy (envelope : LegacyCacheEnvelope) (max_age_secs now : UInt64) : CacheEntryStatus :=
  if now < envelope.cached_at ∨ max_age_secs < saturating_sub now envelope.cached_at then .Stale
  else
    .Fresh envelope.value.bytes ((checked_add envelope.cached_at max_age_secs).bind fun at_ => checked_mul at_ 1000)
      none none

/-- `clock` is what calling it returns: it is called at most once. -/
def inspect_entry_with_clock {ε : Type} (stored : SecretBytes) (project profile route_fingerprint : Text)
    (max_age_secs : UInt64) (clock : Except ε UInt64) : Except ε CacheEntryStatus :=
  match decode codec stored with
  | none => .ok .Unrecognized
  | some (.error _) => .ok .OursUnreadable
  | some (.ok (.Current envelope)) =>
    clock.map <| inspect_unexpired ⟨envelope.project, envelope.profile, envelope.expires_at, envelope.max_age_secs,
      envelope.route_fingerprint, codec.base64_decode envelope.value_base64, envelope.secret_expires_at_unix_ms,
      envelope.revision⟩ project profile route_fingerprint max_age_secs
  | some (.ok (.V3 envelope)) =>
    clock.map <| inspect_unexpired ⟨envelope.project, envelope.profile, envelope.expires_at, envelope.max_age_secs,
      envelope.route_fingerprint, some envelope.value.bytes, envelope.secret_expires_at_unix_ms, none⟩
      project profile route_fingerprint max_age_secs
  | some (.ok (.Legacy envelope)) =>
    if envelope.project ≠ project ∨ envelope.profile ≠ profile then .ok (.Foreign envelope.project envelope.profile)
    else if envelope.route_fingerprint ≠ route_fingerprint then .ok .Stale
    else clock.map (inspect_legacy envelope max_age_secs)

/-! ## Encoding -/

/-- An entry expires with the secret when that comes first. -/
def entry_expiry (cache_expires_at now : UInt64) : Option UInt64 → Except CacheEncodeError UInt64
  | some secret_expiry =>
    if secret_expiry / 1000 ≤ now then .error .SecretExpired else .ok (min cache_expires_at (secret_expiry / 1000))
  | none => .ok cache_expires_at

def encode_provider_entry_at (project profile : Text) (now max_age_secs : UInt64) (route_fingerprint : Text)
    (value : ProviderValue) : Except CacheEncodeError SecretBytes := do
  let cache_expires_at ← (checked_add now max_age_secs).elim (.error .ExpirationOverflow) .ok
  let expires_at ← entry_expiry cache_expires_at now value.expires_at_unix_ms
  let envelope : CacheEnvelope :=
    { project, profile, expires_at, max_age_secs, route_fingerprint
      value_base64 := codec.base64_encode value.value
      secret_expires_at_unix_ms := value.expires_at_unix_ms
      revision := value.revision }
  match codec.to_string envelope with
  | .ok json => .ok (utf8 CACHE_ENVELOPE_MARKER ++ utf8 json)
  | .error error => .error (.Serialize error)

/-- `encode_entry`, with what reading the clock returned. -/
def encode_entry (project profile : Text) (max_age_secs : UInt64) (route_fingerprint : Text) (value : ProviderValue)
    (clock : Option UInt64) : Except CacheEncodeError SecretBytes :=
  match clock with
  | some now => encode_provider_entry_at codec project profile now max_age_secs route_fingerprint value
  | none => .error .Clock

/-! ## Who may change a value -/

/-- The project and profile an envelope names. -/
def DecodedEnvelope.owner : DecodedEnvelope → Text × Text
  | .Current envelope => (envelope.project, envelope.profile)
  | .V3 envelope => (envelope.project, envelope.profile)
  | .Legacy envelope => (envelope.project, envelope.profile)

/-- A v2 envelope does not say when it expires. -/
def DecodedEnvelope.expired (now : Option UInt64) : DecodedEnvelope → Bool
  | .Current envelope => ended now envelope.expires_at
  | .V3 envelope => ended now envelope.expires_at
  | .Legacy _ => false

def DecodedEnvelope.fingerprint : DecodedEnvelope → Text
  | .Current envelope => envelope.route_fingerprint
  | .V3 envelope => envelope.route_fingerprint
  | .Legacy envelope => envelope.route_fingerprint

/-- Bytes that are no Monosecret envelope, or an unexpired one of another project or profile. -/
def Protected (stored : SecretBytes) (project profile : Text) (now : Option UInt64) : Prop :=
  decode codec stored = none ∨
    ∃ envelope, decode codec stored = some (.ok envelope) ∧ envelope.owner ≠ (project, profile) ∧
      envelope.expired now = false

/-- The answers on which a cache entry may be written or dropped. -/
def CacheOwnership.permits : CacheOwnership → Bool
  | .Ours => true
  | .Expired => true
  | .OursUnreadable => true
  | .Foreign _ _ => false
  | .Unrecognized => false

variable {codec}
variable {stored : SecretBytes}

theorem ownership_refuses_iff {project profile : Text} {now : Option UInt64} :
    (ownership_at codec stored project profile now).permits = false ↔ Protected codec stored project profile now := by
  unfold ownership_at Protected
  rcases hd : decode codec stored with _ | (_ | (envelope | envelope | envelope))
  · simp [CacheOwnership.permits]
  · simp [CacheOwnership.permits]
  · by_cases he : ended now envelope.expires_at <;> by_cases hp : envelope.project = project <;>
      by_cases hq : envelope.profile = profile <;>
      simp [he, hp, hq, CacheOwnership.permits, DecodedEnvelope.owner, DecodedEnvelope.expired]
  · by_cases he : ended now envelope.expires_at <;> by_cases hp : envelope.project = project <;>
      by_cases hq : envelope.profile = profile <;>
      simp [he, hp, hq, CacheOwnership.permits, DecodedEnvelope.owner, DecodedEnvelope.expired]
  · by_cases hp : envelope.project = project <;> by_cases hq : envelope.profile = profile <;>
      simp [hp, hq, CacheOwnership.permits, DecodedEnvelope.owner, DecodedEnvelope.expired]

/-! ## What a read may be served -/

theorem inspect_unexpired_fresh {e : Inspected} {p pr r : Text} {m n : UInt64}
    {value : SecretBytes} {rf ex : Option UInt64} {rv : Option Revision}
    (h : inspect_unexpired e p pr r m n = .Fresh value rf ex rv) :
    (e.project_owner, e.profile_owner) = (p, pr) ∧ e.route = r ∧ e.value = some value := by
  unfold inspect_unexpired at h
  split at h
  · cases h
  · split at h
    · cases h
    · rename_i ho
      split at h
      · cases h
      · split at h
        · cases h
        · split at h
          · cases h
          · rename_i hr
            split at h
            · rename_i v hv
              injection h with hl
              refine ⟨?_, Classical.not_not.mp hr, by rw [hv, hl]⟩
              simpa using ho
            · cases h

/-- Only an entry of this project, profile and route is served. -/
theorem fresh_fingerprint {ε : Type} {p pr route_fingerprint : Text} {m : UInt64}
    {c : Except ε UInt64} {value : SecretBytes} {rf e : Option UInt64} {r : Option Revision}
    (h : inspect_entry_with_clock codec stored p pr route_fingerprint m c =
      .ok (.Fresh value rf e r)) :
    ∃ envelope, decode codec stored = some (.ok envelope) ∧ envelope.owner = (p, pr) ∧
      envelope.fingerprint = route_fingerprint := by
  unfold inspect_entry_with_clock at h
  rcases hd : decode codec stored with _ | (_ | (envelope | envelope | envelope)) <;> rw [hd] at h
  · cases h
  · cases h
  · rcases c with _ | now
    · cases h
    · obtain ⟨ho, hr, -⟩ := inspect_unexpired_fresh (Except.ok.inj h)
      exact ⟨_, rfl, ho, hr⟩
  · rcases c with _ | now
    · cases h
    · obtain ⟨ho, hr, -⟩ := inspect_unexpired_fresh (Except.ok.inj h)
      exact ⟨_, rfl, ho, hr⟩
  · simp only at h
    split at h
    · cases h
    · rename_i ho
      split at h
      · cases h
      · rename_i hr
        refine ⟨_, rfl, ?_, Classical.not_not.mp hr⟩
        simpa [DecodedEnvelope.owner] using ho

/-! ## What was encoded is decoded -/

theorem payload_after_marker (m : String) (payload : SecretBytes) :
    payload_after m (utf8 m ++ payload) = some payload := by
  simp [payload_after]

theorem payload_text_utf8 (text : String) : payload_text (utf8 text) = .ok text := by
  rw [payload_text, utf8, Lib.from_utf8_bytes]

/-- `serde_json` reads back what it wrote. -/
def Codec.JsonRoundTrips (codec : Codec) : Prop :=
  ∀ envelope json, codec.to_string envelope = .ok json → codec.from_str_current json = .ok envelope

/-- A written entry reads back as the envelope that was written, when its JSON does. -/
theorem decode_encoded {e : CacheEnvelope} {j : String} (hj : codec.from_str_current j = .ok e) :
    decode codec (utf8 CACHE_ENVELOPE_MARKER ++ utf8 j) = some (.ok (.Current e)) := by
  rw [decode, payload_after_marker]
  simp [payload_text_utf8, hj, Except.map, bind, Except.bind]

/-- What was encoded for a project, profile and fingerprint names them. -/
theorem encoded_names (hj : codec.JsonRoundTrips) {p pr route_fingerprint : Text}
    {n m : UInt64} {value : ProviderValue}
    (h : encode_provider_entry_at codec p pr n m route_fingerprint value = .ok stored) :
    ∃ e, decode codec stored = some (.ok e) ∧ e.owner = (p, pr) ∧
      e.fingerprint = route_fingerprint := by
  unfold encode_provider_entry_at at h
  obtain ⟨c, -, h⟩ := Except.bind_ok h
  obtain ⟨ex, -, h⟩ := Except.bind_ok h
  simp only at h
  split at h
  · rename_i j ht
    injection h with h
    exact ⟨_, h ▸ decode_encoded (hj _ _ ht), rfl, rfl⟩
  · cases h

end Monosecret.Cache
