/-
  Monosecret.Cache.Freshness — how long a written entry is served, and whether the two
  classifiers of an entry agree (`monosecret/src/cache.rs`).

  (1) Freshness (`served_until_iff`). An entry written at `now` is to be served with the
  value that was written until it expires, at the end of `max_age_secs` or with the secret,
  whichever comes first, and never after. The reader gets the time of writing back by
  subtracting `max_age_secs` from the expiry. The subtraction underflows when the secret's
  own expiry is below `max_age_secs`, and such an entry is never served
  (`capped_entry_is_never_fresh`).

  (2) Classification (`classified_alike_iff`). `inspect_entry` also ends an entry with its
  secret, `ownership` only with the entry. What another project wrote with a secret that
  ends first is stale to the one and foreign to the other (`overtaken_entry`). The encoder
  writes no such entry (`encoded_not_overtaken`).
-/

import Monosecret.Cache.Envelope

namespace Monosecret.Cache

open Lib

/-! ## 64-bit arithmetic -/

theorem saturating_mul_toNat (a b : UInt64) : (saturating_mul a b).toNat = min (a.toNat * b.toNat) (2 ^ 64 - 1) := by
  unfold saturating_mul
  split
  · rename_i h
    rw [UInt64.toNat_mul, Nat.mod_eq_of_lt h]
    omega
  · rw [UInt64.toNat_ofNat']
    omega

theorem checked_add_elim {a b c : UInt64} {e : CacheEncodeError}
    (h : (checked_add a b).elim (.error e) .ok = (.ok c : Except CacheEncodeError UInt64)) :
    c.toNat = a.toNat + b.toNat := by
  unfold checked_add at h
  split at h
  · rename_i hl
    cases h
    rw [UInt64.toNat_add, Nat.mod_eq_of_lt hl]
  · cases h

theorem checked_sub_eq_none {a b : UInt64} : checked_sub a b = none ↔ a < b := by
  unfold checked_sub
  split
  all_goals
    rename_i h
    simpa using h

theorem checked_sub_eq_some {a b : UInt64} (h : b ≤ a) : checked_sub a b = some (a - b) := if_pos h

/-- A second before the one a secret ends in is not past its end in milliseconds. -/
theorem not_past_secret {t ex : UInt64} (h : t.toNat < ex.toNat / 1000) : ¬ ex ≤ saturating_mul t 1000 := by
  rw [UInt64.le_iff_toNat_le, saturating_mul_toNat]
  have hk : (1000 : UInt64).toNat = 1000 := rfl
  rw [hk]
  omega

/-! ## The envelope that was written -/

/-- When an entry is to expire. -/
def expires_at (now max_age_secs : UInt64) : Option UInt64 → Nat
  | some secret_expiry => min (now.toNat + max_age_secs.toNat) (secret_expiry.toNat / 1000)
  | none => now.toNat + max_age_secs.toNat

theorem min_toNat (a b : UInt64) : (min a b).toNat = min a.toNat b.toNat := by
  have hm : min a b = if a ≤ b then a else b := rfl
  rw [hm]
  split <;> rename_i h <;> rw [UInt64.le_iff_toNat_le] at h <;> omega

theorem entry_expiry_ok {c now at_ : UInt64} {s : Option UInt64}
    (h : entry_expiry c now s = .ok at_) :
    at_.toNat = s.elim c.toNat (fun e => min c.toNat (e.toNat / 1000)) ∧
      ∀ e, s = some e → now.toNat < e.toNat / 1000 := by
  cases s with
  | none =>
    cases h
    exact ⟨rfl, nofun⟩
  | some e =>
    have hd : (e / 1000).toNat = e.toNat / 1000 := UInt64.toNat_div e 1000
    simp only [entry_expiry] at h
    split at h
    · cases h
    · rename_i hl
      cases h
      rw [UInt64.not_le, UInt64.lt_iff_toNat_lt, hd] at hl
      refine ⟨?_, fun e' he => by cases he; exact hl⟩
      rw [Option.elim_some, ← hd, min_toNat]

variable {codec : Codec} {max_age_secs : UInt64} {stored : SecretBytes}

/-- What a successful encoding wrote, and when it expires. -/
theorem encoded_envelope (hj : codec.JsonRoundTrips) {project profile route_fingerprint : Text} {now : UInt64}
    {value : ProviderValue}
    (h : encode_provider_entry_at codec project profile now max_age_secs route_fingerprint value = .ok stored) :
    ∃ at_ : UInt64, at_.toNat = expires_at now max_age_secs value.expires_at_unix_ms ∧
      (∀ e, value.expires_at_unix_ms = some e → now.toNat < e.toNat / 1000) ∧
      decode codec stored = some (.ok (.Current
        { project, profile, expires_at := at_, max_age_secs, route_fingerprint
          value_base64 := codec.base64_encode value.value
          secret_expires_at_unix_ms := value.expires_at_unix_ms
          revision := value.revision })) := by
  unfold encode_provider_entry_at at h
  obtain ⟨c, ha, h⟩ := Except.bind_ok h
  obtain ⟨at_, he, h⟩ := Except.bind_ok h
  obtain ⟨ht, hs⟩ := entry_expiry_ok he
  refine ⟨at_, ?_, hs, ?_⟩
  · rw [ht, checked_add_elim ha]
    cases value.expires_at_unix_ms <;> rfl
  · simp only at h
    split at h
    · rename_i j hto
      cases h
      exact decode_encoded (hj _ _ hto)
    · cases h

/-! ## Freshness -/

/-- An entry that was written is served as it was written until it expires, and never after. -/
structure ServedUntil (codec : Codec) (stored : SecretBytes) (project profile route_fingerprint : Text)
    (now max_age_secs : UInt64) (value : ProviderValue) : Prop where
  served : ∀ {ε : Type} (t : UInt64), now ≤ t → t.toNat < expires_at now max_age_secs value.expires_at_unix_ms →
    ∃ refresh_at_unix_ms,
      inspect_entry_with_clock codec stored project profile route_fingerprint max_age_secs (.ok t : Except ε UInt64) =
        .ok (.Fresh value.value refresh_at_unix_ms value.expires_at_unix_ms value.revision)
  never_after : ∀ {ε : Type} (t : UInt64), expires_at now max_age_secs value.expires_at_unix_ms ≤ t.toNat →
    ∀ served refresh expires revision,
      inspect_entry_with_clock codec stored project profile route_fingerprint max_age_secs (.ok t : Except ε UInt64) ≠
        .ok (.Fresh served refresh expires revision)

/-- An envelope that has not expired, read for the project, profile, age and route it was written for. -/
theorem inspect_unexpired_own {project profile rt : Text} {at_ a t : UInt64} {value : Option SecretBytes}
    {s : Option UInt64} {r : Option Revision} (ht : t < at_)
    (hs : ∀ e, s = some e → at_.toNat ≤ e.toNat / 1000) :
    inspect_unexpired ⟨project, profile, at_, a, rt, value, s, r⟩ project profile rt a t =
      if at_ < a ∨ t < at_ - a then .Stale
      else match value with
        | some value => .Fresh value (checked_mul at_ 1000) s r
        | none => .OursUnreadable := by
  have hl : ¬ (at_ ≤ t ∨ s.any (fun ex => decide (ex ≤ saturating_mul t 1000))) := by
    rintro (hle | ha)
    · exact absurd ht (UInt64.not_lt.mpr hle)
    · obtain ⟨e, he, hp⟩ := (Option.any_eq_true _ _).mp ha
      exact not_past_secret (Nat.lt_of_lt_of_le (UInt64.lt_iff_toNat_lt.mp ht) (hs e he)) (of_decide_eq_true hp)
  unfold inspect_unexpired
  rw [if_neg hl, if_neg (by simp)]
  by_cases hg : at_ < a
  · rw [checked_sub_eq_none.mpr hg, if_pos (Or.inl hg)]
  · rw [checked_sub_eq_some (UInt64.not_lt.mp hg)]
    cases value <;> simp [hg]

theorem inspect_unexpired_ended {e : Inspected} {project profile route_fingerprint : Text} {t : UInt64}
    (h : e.expires_at ≤ t) : inspect_unexpired e project profile route_fingerprint max_age_secs t = .Stale :=
  if_pos (Or.inl h)

theorem expires_at_le_secret (now max_age_secs : UInt64) {e : UInt64} {s : Option UInt64} (h : s = some e) :
    expires_at now max_age_secs s ≤ e.toNat / 1000 := by
  subst h
  exact Nat.min_le_right _ _

/-- The expiry is below `max_age_secs` only when the secret's own expiry is. -/
theorem expires_at_lt_age {now : UInt64} {s : Option UInt64} :
    expires_at now max_age_secs s < max_age_secs.toNat ↔
      ∃ e, s = some e ∧ e.toNat / 1000 < max_age_secs.toNat := by
  cases s with
  | none => simp [expires_at]
  | some e =>
    simp only [expires_at, Option.some.injEq, exists_eq_left']
    omega

/-- `encode_provider_entry_at`, then `inspect_entry`: an entry is served as long as it is to
    be exactly when `max_age_secs` fits in front of the secret's expiry. -/
theorem served_until_iff (codec : Codec) (hjson : codec.JsonRoundTrips) (project profile route_fingerprint : Text)
    (now max_age_secs : UInt64) (value : ProviderValue) (stored : SecretBytes)
    (hbase64 : codec.base64_decode (codec.base64_encode value.value) = some value.value)
    (h : encode_provider_entry_at codec project profile now max_age_secs route_fingerprint value = .ok stored) :
    ServedUntil codec stored project profile route_fingerprint now max_age_secs value ↔
      ∀ e, value.expires_at_unix_ms = some e → max_age_secs.toNat ≤ e.toNat / 1000 := by
  obtain ⟨at_, ha, hs, hd⟩ := encoded_envelope hjson h
  have hi : ∀ {ε : Type} (t : UInt64), t < at_ →
      inspect_entry_with_clock codec stored project profile route_fingerprint max_age_secs (.ok t : Except ε UInt64) =
        .ok (if at_ < max_age_secs ∨ t < at_ - max_age_secs then .Stale
          else .Fresh value.value (checked_mul at_ 1000) value.expires_at_unix_ms value.revision) := by
    intro ε t ht
    simp only [inspect_entry_with_clock, hd, Except.map]
    rw [inspect_unexpired_own ht fun e he => ha ▸ expires_at_le_secret now max_age_secs he, hbase64]
  constructor
  · intro hr e he
    by_contra hl
    -- The secret ends after the write and before `max_age_secs`: the entry lives, and is stale.
    have hg : at_ < max_age_secs := by
      rw [UInt64.lt_iff_toNat_lt, ha]
      exact expires_at_lt_age.mpr ⟨e, he, Nat.lt_of_not_le hl⟩
    have hn : now < at_ := by
      have hf := hs e he
      rw [UInt64.lt_iff_toNat_lt, ha, he]
      simp only [expires_at]
      omega
    obtain ⟨r, hfr⟩ := hr.served (ε := Empty) now (UInt64.le_refl now) (ha ▸ UInt64.lt_iff_toNat_lt.mp hn)
    rw [hi now hn, if_pos (Or.inl hg)] at hfr
    cases hfr
  · intro hft
    have hg : ¬ at_ < max_age_secs := by
      rw [UInt64.lt_iff_toNat_lt, ha, expires_at_lt_age]
      rintro ⟨e, he, hl⟩
      exact absurd (hft e he) (Nat.not_le.mpr hl)
    refine ⟨?_, ?_⟩
    · intro ε t hn ht
      have hw : ¬ t < at_ - max_age_secs := by
        have hle : at_.toNat ≤ now.toNat + max_age_secs.toNat := by
          rw [ha]
          cases value.expires_at_unix_ms with
          | none => exact Nat.le_refl _
          | some e => exact Nat.min_le_left _ _
        rw [UInt64.lt_iff_toNat_lt, UInt64.toNat_sub_of_le _ _ (UInt64.not_lt.mp hg)]
        have := UInt64.le_iff_toNat_le.mp hn
        omega
      rw [hi t (UInt64.lt_iff_toNat_lt.mpr (ha ▸ ht)), if_neg (by simp [hg, hw])]
      exact ⟨_, rfl⟩
    · intro ε t hen s r ex rv hfr
      simp only [inspect_entry_with_clock, hd, Except.map] at hfr
      rw [inspect_unexpired_ended (UInt64.le_iff_toNat_le.mpr (ha ▸ hen))] at hfr
      cases hfr

/-! ## One entry -/

/-- JSON and base64 of one entry and its value. -/
def single (envelope : CacheEnvelope) (json : String) (value : SecretBytes) : Codec where
  from_str_current text := if text = json then .ok envelope else .error "expected another entry"
  from_str_v3 _ := .error "expected another entry"
  from_str_legacy _ := .error "expected another entry"
  to_string entry := if entry = envelope then .ok json else .error "expected another entry"
  base64_encode bytes := if bytes = value then envelope.value_base64 else ""
  base64_decode text := if text = envelope.value_base64 then some value else none

theorem single_round_trips (en : CacheEnvelope) (j : String) (value : SecretBytes) :
    (single en j value).JsonRoundTrips := by
  intro et t h
  simp only [single] at h ⊢
  split at h
  · rename_i he
    cases h
    rw [if_pos rfl, he]
  · cases h

theorem single_base64 (en : CacheEnvelope) (j : String) (value : SecretBytes) :
    (single en j value).base64_decode ((single en j value).base64_encode value) = some value := by
  simp [single]

namespace Capped

/-- A token of 2023 that ends at the start of 2027. -/
def token : ProviderValue := ⟨utf8 "s1", some 1798761600000, none⟩

def envelope (max_age_secs : UInt64) (at_ : UInt64) : CacheEnvelope where
  project := Text.of "app"
  profile := Text.of "prod"
  expires_at := at_
  max_age_secs := max_age_secs
  route_fingerprint := Text.of "route-v1"
  secret_expires_at_unix_ms := token.expires_at_unix_ms
  revision := none
  value_base64 := "czE="

def day_json : String :=
  "\x7b\"project\":\"app\",\"profile\":\"prod\",\"expires_at\":1700086400,\"max_age_secs\":86400," ++
    "\"route_fingerprint\":\"route-v1\",\"secret_expires_at_unix_ms\":1798761600000,\"value_base64\":\"czE=\"\x7d"

def day : Codec := single (envelope 86400 1700086400) day_json token.value

/-- `max_age = "3000w"`. -/
def weeks_json : String :=
  "\x7b\"project\":\"app\",\"profile\":\"prod\",\"expires_at\":1798761600,\"max_age_secs\":1814400000," ++
    "\"route_fingerprint\":\"route-v1\",\"secret_expires_at_unix_ms\":1798761600000,\"value_base64\":\"czE=\"\x7d"

def weeks : Codec := single (envelope 1814400000 1798761600) weeks_json token.value

end Capped

open Capped in
theorem day_old_entry_is_served :
    ServedUntil day (utf8 CACHE_ENVELOPE_MARKER ++ utf8 day_json) (Text.of "app") (Text.of "prod") (Text.of "route-v1")
      1700000000 86400 token := by
  refine (served_until_iff day (single_round_trips _ _ _) _ _ _ _ _ token _ (single_base64 _ _ _)
    (by decide +kernel)).mpr ?_
  intro e he
  cases he
  decide +kernel

open Capped in
/-- Of an entry that is to live for 57 years only the secret's three are left, which is not
    enough to subtract them from. -/
theorem capped_entry_is_never_fresh :
    ¬ ∀ (codec : Codec), codec.JsonRoundTrips → ∀ project profile route_fingerprint now max_age_secs value stored,
      codec.base64_decode (codec.base64_encode value.value) = some value.value →
      encode_provider_entry_at codec project profile now max_age_secs route_fingerprint value = .ok stored →
        ServedUntil codec stored project profile route_fingerprint now max_age_secs value := by
  intro h
  have hs := h weeks (single_round_trips _ _ _) (Text.of "app") (Text.of "prod") (Text.of "route-v1") 1700000000
    1814400000 token (utf8 CACHE_ENVELOPE_MARKER ++ utf8 weeks_json) (single_base64 _ _ _) (by decide +kernel)
  obtain ⟨r, hf⟩ := hs.served (ε := Empty) 1700000000 (by decide) (by decide +kernel)
  have ht : inspect_entry_with_clock weeks (utf8 CACHE_ENVELOPE_MARKER ++ utf8 weeks_json) (Text.of "app")
      (Text.of "prod") (Text.of "route-v1") 1814400000 (.ok 1700000000 : Except Empty UInt64) = .ok .Stale := by
    decide +kernel
  rw [ht] at hf
  cases hf

/-! ## Classification -/

def DecodedEnvelope.secret_expiry : DecodedEnvelope → Option UInt64
  | .Current envelope => envelope.secret_expires_at_unix_ms
  | .V3 envelope => envelope.secret_expires_at_unix_ms
  | .Legacy _ => none

/-- The two classifiers tell the same of an entry. -/
structure Alike (status : CacheEntryStatus) (ownership : CacheOwnership) : Prop where
  fresh : ∀ value refresh expires revision, status = .Fresh value refresh expires revision → ownership = .Ours
  foreign : ∀ project profile, status = .Foreign project profile ↔ ownership = .Foreign project profile
  unrecognized : status = .Unrecognized ↔ ownership = .Unrecognized
  stale : status = .Stale → ownership = .Ours ∨ ownership = .Expired

/-- Another project's or profile's entry that has not expired, with a secret that has. -/
def Overtaken (codec : Codec) (stored : SecretBytes) (project profile : Text) (now : UInt64) : Prop :=
  ∃ envelope, decode codec stored = some (.ok envelope) ∧ envelope.owner ≠ (project, profile) ∧
    envelope.expired (some now) = false ∧ ∃ e, envelope.secret_expiry = some e ∧ e ≤ saturating_mul now 1000

/-- `ownership_at` of a current or v3 envelope. -/
def owned (e : Inspected) (project profile : Text) (now : Option UInt64) : CacheOwnership :=
  if ended now e.expires_at then .Expired
  else if e.project_owner = project ∧ e.profile_owner = profile then .Ours
  else .Foreign e.project_owner e.profile_owner

theorem Alike.ours {s : CacheEntryStatus} (hf : ∀ project profile, s ≠ .Foreign project profile)
    (hu : s ≠ .Unrecognized) : Alike s .Ours where
  fresh _ _ _ _ _ := rfl
  foreign project profile := ⟨fun h => absurd h (hf project profile), nofun⟩
  unrecognized := ⟨fun h => absurd h hu, nofun⟩
  stale _ := .inl rfl

theorem Alike.expired : Alike .Stale .Expired where
  fresh := nofun
  foreign _ _ := ⟨nofun, nofun⟩
  unrecognized := ⟨nofun, nofun⟩
  stale _ := .inr rfl

theorem Alike.both_foreign (project profile : Text) : Alike (.Foreign project profile) (.Foreign project profile) where
  fresh := nofun
  foreign _ _ := ⟨fun h => by cases h; rfl, fun h => by cases h; rfl⟩
  unrecognized := ⟨nofun, nofun⟩
  stale := nofun

theorem Alike.unreadable : Alike .OursUnreadable .OursUnreadable where
  fresh := nofun
  foreign _ _ := ⟨nofun, nofun⟩
  unrecognized := ⟨nofun, nofun⟩
  stale := nofun

theorem Alike.neither : Alike .Unrecognized .Unrecognized where
  fresh := nofun
  foreign _ _ := ⟨nofun, nofun⟩
  unrecognized := ⟨fun _ => rfl, fun _ => rfl⟩
  stale := nofun

section

variable {e : Inspected} {project profile route_fingerprint : Text} {max_age_secs now : UInt64}

theorem inspect_unexpired_not_unrecognized :
    inspect_unexpired e project profile route_fingerprint max_age_secs now ≠ .Unrecognized := by
  intro h
  unfold inspect_unexpired at h
  split at h
  · cases h
  split at h
  · cases h
  split at h
  · cases h
  split at h
  · cases h
  split at h
  · cases h
  split at h <;> cases h

theorem inspect_unexpired_foreign {p q : Text}
    (h : inspect_unexpired e project profile route_fingerprint max_age_secs now = .Foreign p q) :
    ¬ (e.project_owner = project ∧ e.profile_owner = profile) := by
  unfold inspect_unexpired at h
  split at h
  · cases h
  split at h
  · rename_i ho
    rintro ⟨hp, hq⟩
    exact ho.elim (fun hn => hn hp) (fun hn => hn hq)
  split at h
  · cases h
  split at h
  · cases h
  split at h
  · cases h
  split at h <;> cases h

theorem owned_alike_iff :
    Alike (inspect_unexpired e project profile route_fingerprint max_age_secs now) (owned e project profile (some now)) ↔
      ¬ ((e.project_owner, e.profile_owner) ≠ (project, profile) ∧ ended (some now) e.expires_at = false ∧
        ∃ ex, e.secret_expiry = some ex ∧ ex ≤ saturating_mul now 1000) := by
  by_cases hn : e.expires_at ≤ now
  · have hm : ended (some now) e.expires_at := decide_eq_true hn
    rw [inspect_unexpired_ended hn, owned, if_pos hm]
    refine iff_of_true Alike.expired ?_
    rintro ⟨-, hl, -⟩
    rw [hm] at hl
    cases hl
  have hl : ended (some now) e.expires_at = false := decide_eq_false hn
  rw [owned, if_neg (Bool.eq_false_iff.mp hl)]
  by_cases ho : e.project_owner = project ∧ e.profile_owner = profile
  · rw [if_pos ho]
    refine iff_of_true (Alike.ours (fun p q h => inspect_unexpired_foreign h ho) inspect_unexpired_not_unrecognized) ?_
    rintro ⟨hne, -⟩
    exact hne (Prod.ext ho.1 ho.2)
  have hr : (e.project_owner, e.profile_owner) ≠ (project, profile) := by
    intro heq
    cases heq
    exact ho ⟨rfl, rfl⟩
  rw [if_neg ho]
  by_cases hs : ∃ ex, e.secret_expiry = some ex ∧ ex ≤ saturating_mul now 1000
  · -- Only the inspection looks at the secret's own expiry.
    have ht : inspect_unexpired e project profile route_fingerprint max_age_secs now = .Stale := by
      obtain ⟨ex, he, hle⟩ := hs
      exact if_pos (Or.inr ((Option.any_eq_true _ _).mpr ⟨ex, he, decide_eq_true hle⟩))
    rw [ht]
    refine iff_of_false ?_ (not_not_intro ⟨hr, hl, hs⟩)
    intro ha
    cases ha.stale rfl <;> contradiction
  · have hf : inspect_unexpired e project profile route_fingerprint max_age_secs now =
        .Foreign e.project_owner e.profile_owner := by
      unfold inspect_unexpired
      rw [if_neg, if_pos]
      · by_cases hp : e.project_owner = project
        · exact Or.inr fun hq => ho ⟨hp, hq⟩
        · exact Or.inl hp
      · rintro (h | h)
        · exact hn h
        · obtain ⟨ex, he, hle⟩ := (Option.any_eq_true _ _).mp h
          exact hs ⟨ex, he, of_decide_eq_true hle⟩
    rw [hf]
    exact iff_of_true (Alike.both_foreign _ _) fun h => hs h.2.2

end

theorem inspect_legacy_ours {en : LegacyCacheEnvelope} {now : UInt64} :
    Alike (inspect_legacy en max_age_secs now) .Ours := by
  unfold inspect_legacy
  split
  all_goals exact Alike.ours nofun nofun

theorem overtaken_iff {project profile : Text} {now : UInt64} {en : DecodedEnvelope}
    (h : decode codec stored = some (.ok en)) :
    Overtaken codec stored project profile now ↔ en.owner ≠ (project, profile) ∧
      en.expired (some now) = false ∧ ∃ e, en.secret_expiry = some e ∧ e ≤ saturating_mul now 1000 := by
  constructor
  · rintro ⟨e', h', hr⟩
    rw [h] at h'
    cases h'
    exact hr
  · intro hr
    exact ⟨en, h, hr⟩

/-- `inspect_entry` and `ownership` at one reading of the clock: whatever bytes are stored,
    they agree unless the secret of another's entry ended before the entry. -/
theorem classified_alike_iff {ε : Type} (codec : Codec) (stored : SecretBytes)
    (project profile route_fingerprint : Text) (max_age_secs : UInt64) (clock : Except ε UInt64) :
    (∀ status, inspect_entry_with_clock codec stored project profile route_fingerprint max_age_secs clock = .ok status →
        Alike status (ownership_at codec stored project profile clock.toOption)) ↔
      ∀ now, clock = .ok now → ¬ Overtaken codec stored project profile now := by
  unfold inspect_entry_with_clock ownership_at
  rcases hd : decode codec stored with _ | (_ | (envelope | envelope | envelope))
  · refine iff_of_true ?_ ?_
    · rintro status ⟨⟩
      exact Alike.neither
    · rintro now - ⟨envelope, h, -⟩
      rw [hd] at h
      cases h
  · refine iff_of_true ?_ ?_
    · rintro status ⟨⟩
      exact Alike.unreadable
    · rintro now - ⟨envelope, h, -⟩
      rw [hd] at h
      cases h
  · cases clock with
    | error e => exact iff_of_true nofun nofun
    | ok now =>
      simp only [Except.map, Except.ok.injEq, forall_eq', overtaken_iff hd]
      exact owned_alike_iff
  · cases clock with
    | error e => exact iff_of_true nofun nofun
    | ok now =>
      simp only [Except.map, Except.ok.injEq, forall_eq', overtaken_iff hd]
      exact owned_alike_iff
  · -- A v2 envelope has no expiry of its own, and its owner is compared before the clock is read.
    refine iff_of_true ?_ ?_
    · intro status h
      dsimp only at h ⊢
      by_cases ho : envelope.project = project ∧ envelope.profile = profile
      · rw [if_pos ho]
        rw [if_neg (by simp [ho])] at h
        split at h
        · cases h
          exact Alike.ours nofun nofun
        · cases clock with
          | error e => cases h
          | ok now =>
            cases h
            exact inspect_legacy_ours
      · rw [if_neg ho]
        rw [if_pos (not_and_or.mp ho)] at h
        cases h
        exact Alike.both_foreign _ _
    · rintro now - hv
      obtain ⟨-, -, e, he, -⟩ := (overtaken_iff hd).mp hv
      cases he

/-- What the encoder writes ends before its secret does. -/
theorem encoded_not_overtaken (hj : codec.JsonRoundTrips) {project profile route_fingerprint : Text} {now : UInt64}
    {value : ProviderValue}
    (h : encode_provider_entry_at codec project profile now max_age_secs route_fingerprint value = .ok stored)
    (reader_project reader_profile : Text) (t : UInt64) : ¬ Overtaken codec stored reader_project reader_profile t := by
  obtain ⟨at_, ha, -, hd⟩ := encoded_envelope hj h
  rw [overtaken_iff hd]
  rintro ⟨-, hl, e, he, hp⟩
  have ht : t < at_ := UInt64.not_le.mp (of_decide_eq_false hl)
  refine not_past_secret ?_ hp
  have hle := expires_at_le_secret now max_age_secs he
  rw [UInt64.lt_iff_toNat_lt, ha] at ht
  exact Nat.lt_of_lt_of_le ht hle

open Capped in
theorem day_not_overtaken : ¬ Overtaken day (utf8 CACHE_ENVELOPE_MARKER ++ utf8 day_json) (Text.of "app") (Text.of "dev") 0 :=
  encoded_not_overtaken (single_round_trips _ _ _) (show encode_provider_entry_at _ (Text.of "app") (Text.of "prod")
    1700000000 86400 (Text.of "route-v1") token = _ by decide +kernel) _ _ 0

namespace Overtaking

/-- An entry of `billing` that is to live until second 2000, its secret until second 1500. -/
def envelope : CacheEnvelope where
  project := Text.of "billing"
  profile := Text.of "prod"
  expires_at := 2000
  max_age_secs := 1000
  route_fingerprint := Text.of "route-v1"
  secret_expires_at_unix_ms := some 1500000
  revision := none
  value_base64 := "czE="

def json : String :=
  "\x7b\"project\":\"billing\",\"profile\":\"prod\",\"expires_at\":2000,\"max_age_secs\":1000," ++
    "\"route_fingerprint\":\"route-v1\",\"secret_expires_at_unix_ms\":1500000,\"value_base64\":\"czE=\"\x7d"

end Overtaking

open Overtaking in
/-- At second 1600 another project finds the entry stale, and foreign. -/
theorem overtaken_entry :
    ¬ ∀ (codec : Codec) (stored : SecretBytes) (project profile route_fingerprint : Text) (max_age_secs : UInt64)
      (clock : Except Empty UInt64) (status : CacheEntryStatus),
      inspect_entry_with_clock codec stored project profile route_fingerprint max_age_secs clock = .ok status →
        Alike status (ownership_at codec stored project profile clock.toOption) := by
  intro h
  have ha := h (single envelope json (utf8 "s1")) (utf8 CACHE_ENVELOPE_MARKER ++ utf8 json) (Text.of "app")
    (Text.of "prod") (Text.of "route-v1") 1000 (.ok 1600) .Stale (by decide +kernel)
  have hf : ownership_at (single envelope json (utf8 "s1")) (utf8 CACHE_ENVELOPE_MARKER ++ utf8 json)
      (Text.of "app") (Text.of "prod") (some 1600) = .Foreign (Text.of "billing") (Text.of "prod") := by
    decide +kernel
  cases ha.stale rfl with
  | inl hours => exact absurd (hf.symm.trans hours) nofun
  | inr he => exact absurd (hf.symm.trans he) nofun

end Monosecret.Cache
