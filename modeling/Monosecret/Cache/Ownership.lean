/-
  Monosecret.Cache.Ownership — what the operations on a shared cache leave in place
  (`write_cached_secret`, `delete_cache_entry` and what calls them in `secrets.rs`).

  Each step of a run is of its own project and profile, at its own time, and nothing comes
  between its look at an address and its change. Audit records are left out.

  Proved: what a project's refresh wrote is there until it expires, whatever others do at the
  same places (`refreshed_entry_kept`), and what Monosecret never wrote is there for good
  (`unrecognized_kept`).
-/

import Monosecret.Cache.Sweep

namespace Monosecret.Cache

open Lib Plan
open List (forall_mem_cons forall_mem_singleton)

/-- What a refresh asks beyond what clearing does. -/
structure Refreshing (Place Provider : Type) extends Maintenance Place Provider where
  build_source_provider : Text → Except MonosecretError Provider
  /-- The clock of `encode_entry`. -/
  clock : Option UInt64
  check_writable : Text → Provider → Except MonosecretError Unit
  /-- With what the address holds afterwards. -/
  set_expiring : Text → Provider → SecretBytes → Except MonosecretError Unit × Option SecretBytes

namespace Refreshing

variable {Place Provider : Type} [DecidableEq Place] (m : Refreshing Place Provider)

def remediate_failed_cache_refresh (name : Text) (cache : ResolvedCache) (provider : Option Provider)
    (entries : Entries Place) : Entries Place :=
  match provider.elim (m.build_source_provider cache.spec) .ok with
  | .error _ => entries
  | .ok provider => (m.delete_cache_entry provider name entries).2

def write_cached_secret (planned : PlannedSecret) (route : Route) (value : ProviderValue) (entries : Entries Place) :
    Entries Place :=
  match route.cache with
  | none => entries
  | some cache =>
    match m.build_provider planned.name cache.spec entries with
    | (.error _, entries) => m.remediate_failed_cache_refresh planned.name cache none entries
    | (.ok provider, entries) =>
      match m.check_cache_address_is_ours provider planned.name entries with
      | .error _ => entries
      | .ok () =>
        match encode_entry m.codec m.project m.profile cache.max_age_secs
            (planned.cache_fingerprint cache m.project m.profile) value m.clock with
        | .error _ => m.remediate_failed_cache_refresh planned.name cache (some provider) entries
        | .ok serialized =>
          match m.check_writable planned.name provider with
          | .error _ => m.remediate_failed_cache_refresh planned.name cache (some provider) entries
          | .ok () =>
            let address := m.cache_address provider planned.name
            match m.set_expiring planned.name provider serialized with
            | (.ok (), held) => Function.update entries address held
            | (.error _, held) =>
              m.remediate_failed_cache_refresh planned.name cache (some provider) (Function.update entries address held)

/-- A write or delete that bypassed the cache drops the entry of the declared route. -/
def sync_bypassed (planned : PlannedSecret) (entries : Entries Place) : Entries Place :=
  let s := m.registry planned.name entries
  if (planned.providers.getD [] ++ s.configured_default_provider_spec.toList).any fun spec => (s.cached_alias spec).isSome then
    match (s.route_for planned none).map Route.cache with
    | .ok (some cache) => (m.invalidate_cached_secret planned.name cache entries).2
    | _ => entries
  else entries

def sync_cache_after_write (planned : PlannedSecret) (route : Route) (value : SecretBytes) (entries : Entries Place) :
    Entries Place :=
  if route.cache.isSome then m.write_cached_secret planned route ⟨value, none, none⟩ entries
  else m.sync_bypassed planned entries

def sync_cache_after_delete (planned : PlannedSecret) (route : Route) (entries : Entries Place) : Entries Place :=
  match route.cache with
  | some cache => (m.invalidate_cached_secret planned.name cache entries).2
  | none => m.sync_bypassed planned entries

inductive Step (Provider : Type) where
  | evict_cache_entry (provider : Provider) (name : Text)
  | write_cached_secret (planned : PlannedSecret) (route : Route) (value : ProviderValue)
  | sync_cache_after_write (planned : PlannedSecret) (route : Route) (value : SecretBytes)
  | sync_cache_after_delete (planned : PlannedSecret) (route : Route)
  | clear_cache (name : Option Text)

def step (entries : Entries Place) : Step Provider → Entries Place
  | .evict_cache_entry provider name => (m.delete_cache_entry provider name entries).2
  | .write_cached_secret planned route value => m.write_cached_secret planned route value entries
  | .sync_cache_after_write planned route value => m.sync_cache_after_write planned route value entries
  | .sync_cache_after_delete planned route => m.sync_cache_after_delete planned route entries
  | .clear_cache name => (m.clear_cache name entries).2

def run (steps : List (Refreshing Place Provider × Step Provider)) (entries : Entries Place) : Entries Place :=
  steps.foldl (fun entries s => s.1.step entries s.2) entries

/-- Ownership is read at the place, and building a store and planning, whose lookups are
    steps of their own, leave it alone. -/
structure Attends (place : Place) : Prop where
  reads : ∀ name provider entries, m.cache_address provider name = place → m.get_fails name provider entries = false
  building : ∀ name spec entries, (m.build_provider name spec entries).2 place = entries place
  planned : ∀ name entries, m.planning name entries place = entries place

section

variable {m} {place : Place} {v : SecretBytes} {entries : Entries Place} {name : Text} {provider : Provider}

omit [DecidableEq Place] in
theorem Attends.elsewhere (h : m.Attends place) (hp : ∀ name, Protected m.codec v m.project m.profile (m.now name))
    (hv : entries place = some v) (hc : m.check_cache_address_is_ours provider name entries = .ok ()) :
    place ≠ m.cache_address provider name := by
  rintro rfl
  have hr := ownership_refuses_iff.mpr (hp name)
  rw [Maintenance.check_cache_address_is_ours, h.reads name provider entries rfl, hv] at hc
  cases ho : ownership_at m.codec v m.project m.profile (m.now name) <;> rw [ho] at hr <;> simp [ho] at hc
  all_goals cases hr

variable (h : m.Attends place) (hp : ∀ name, Protected m.codec v m.project m.profile (m.now name))
  (hv : entries place = some v)

include h hp hv

theorem delete_kept (provider : Provider) (name : Text) : (m.delete_cache_entry provider name entries).2 place = some v := by
  unfold Maintenance.delete_cache_entry
  cases hc : m.check_cache_address_is_ours provider name entries with
  | error => exact hv
  | ok =>
    cases m.delete_error name provider entries with
    | some => exact hv
    | none => exact (Function.update_of_ne (h.elsewhere hp hv hc) _ _).trans hv

theorem invalidate_kept (name : Text) (cache : ResolvedCache) :
    (m.invalidate_cached_secret name cache entries).2 place = some v := by
  have hb := (h.building name cache.spec entries).trans hv
  unfold Maintenance.invalidate_cached_secret
  rcases hr : m.build_provider name cache.spec entries with ⟨e | provider, entries'⟩ <;> rw [hr] at hb
  · exact hb
  · exact delete_kept h hp hb provider name

theorem remediate_kept (name : Text) (cache : ResolvedCache) (provider : Option Provider) :
    m.remediate_failed_cache_refresh name cache provider entries place = some v := by
  unfold remediate_failed_cache_refresh
  cases provider.elim (m.build_source_provider cache.spec) .ok with
  | error => exact hv
  | ok provider => exact delete_kept h hp hv provider name

theorem write_kept (planned : PlannedSecret) (route : Route) (value : ProviderValue) :
    m.write_cached_secret planned route value entries place = some v := by
  unfold write_cached_secret
  cases route.cache with
  | none => exact hv
  | some cache =>
    have hb := (h.building planned.name cache.spec entries).trans hv
    simp only
    rcases hr : m.build_provider planned.name cache.spec entries with ⟨e | provider, entries'⟩ <;> rw [hr] at hb
    · exact remediate_kept h hp hb _ _ _
    simp only
    cases hc : m.check_cache_address_is_ours provider planned.name entries' with
    | error => exact hb
    | ok =>
      have hu : ∀ held, Function.update entries' (m.cache_address provider planned.name) held place = some v :=
        fun held => (Function.update_of_ne (h.elsewhere hp hb hc) _ _).trans hb
      generalize encode_entry m.codec m.project m.profile cache.max_age_secs _ value m.clock = encoded
      cases encoded with
      | error => exact remediate_kept h hp hb _ _ _
      | ok serialized =>
        cases m.check_writable planned.name provider with
        | error => exact remediate_kept h hp hb _ _ _
        | ok =>
          simp only
          rcases m.set_expiring planned.name provider serialized with ⟨e | _, held⟩
          · exact remediate_kept h hp (hu _) _ _ _
          · exact hu _

theorem bypassed_kept (planned : PlannedSecret) : m.sync_bypassed planned entries place = some v := by
  unfold sync_bypassed
  split
  · rcases ((m.registry planned.name entries).route_for planned none).map Route.cache with e | _ | cache
    · exact hv
    · exact hv
    · exact invalidate_kept h hp hv _ cache
  · exact hv

theorem clear_each_kept (declared : List Declared) (b : Bool) (names : List Text) (n : Nat)
    (f : List (Text × MonosecretError)) : (m.clear_each declared b names n f entries).2 place = some v := by
  induction names generalizing entries n f with
  | nil => exact hv
  | cons name names ih =>
    have hl : (m.plan_declared_secret declared name entries).2 place = some v := by
      unfold Maintenance.plan_declared_secret
      split
      · exact hv
      · exact (h.planned name entries).trans hv
    unfold Maintenance.clear_each
    rcases hr : m.plan_declared_secret declared name entries with ⟨e | _ | ⟨p, _ | route⟩, entries'⟩ <;> rw [hr] at hl
    · exact hl
    · exact hl
    · cases b with
      | true => exact hl
      | false => exact ih hl _ _
    · simp only
      cases route.cache with
      | none =>
        cases b with
        | true => exact hl
        | false => exact ih hl _ _
      | some cache =>
        have hi := invalidate_kept h hp hl name cache
        simp only
        rcases hd : m.invalidate_cached_secret name cache entries' with ⟨e | deleted, entries''⟩ <;> rw [hd] at hi
        · cases b with
          | true => exact hi
          | false => exact ih hi _ _
        · exact ih hi _ _

theorem step_kept (s : Step Provider) : m.step entries s place = some v := by
  cases s with
  | evict_cache_entry provider name => exact delete_kept h hp hv provider name
  | write_cached_secret planned route value => exact write_kept h hp hv planned route value
  | sync_cache_after_write planned route value =>
    simp only [step, sync_cache_after_write]
    split
    · exact write_kept h hp hv planned route _
    · exact bypassed_kept h hp hv planned
  | sync_cache_after_delete planned route =>
    simp only [step, sync_cache_after_delete]
    cases route.cache with
    | some cache => exact invalidate_kept h hp hv _ cache
    | none => exact bypassed_kept h hp hv planned
  | clear_cache name =>
    simp only [step, Maintenance.clear_cache]
    rcases m.prepare name with e | ⟨declared, names⟩
    · exact hv
    have hk := clear_each_kept h hp hv declared name.isSome names 0 []
    simp only
    rcases hr : m.clear_each declared name.isSome names 0 [] entries with ⟨_ | _, _⟩ <;> rw [hr] at hk <;> exact hk

end

variable {place : Place} {v : SecretBytes} {entries : Entries Place} {steps : List (Refreshing Place Provider × Step Provider)}

theorem run_kept (ha : ∀ s ∈ steps, s.1.Attends place)
    (hp : ∀ s ∈ steps, ∀ name, Protected s.1.codec v s.1.project s.1.profile (s.1.now name)) (hv : entries place = some v) :
    run steps entries place = some v := by
  induction steps generalizing entries with
  | nil => exact hv
  | cons s steps ih =>
    obtain ⟨ha, has⟩ := forall_mem_cons.mp ha
    obtain ⟨hp, hps⟩ := forall_mem_cons.mp hp
    exact ih has hps (step_kept ha hp hv s.2)

/-- Bytes that are no envelope are nobody's to change. -/
theorem unrecognized_kept (ha : ∀ s ∈ steps, s.1.Attends place) (hd : ∀ s ∈ steps, decode s.1.codec v = none)
    (hv : entries place = some v) : run steps entries place = some v :=
  run_kept ha (fun s hs _ => .inl (hd s hs)) hv

/-- What a refresh wrote is there until it expires, whatever other projects and profiles do. -/
theorem refreshed_entry_kept {codec : Codec} (hj : codec.JsonRoundTrips) {project profile route_fingerprint : Text}
    {now max_age_secs : UInt64} {value : ProviderValue}
    (he : encode_provider_entry_at codec project profile now max_age_secs route_fingerprint value = .ok v)
    (ha : ∀ s ∈ steps, s.1.Attends place) (hc : ∀ s ∈ steps, s.1.codec = codec)
    (ho : ∀ s ∈ steps, (s.1.project, s.1.profile) ≠ (project, profile))
    (ht : ∀ s ∈ steps, ∀ name t, s.1.now name = some t → t.toNat < expires_at now max_age_secs value.expires_at_unix_ms)
    (hv : entries place = some v) : run steps entries place = some v := by
  obtain ⟨at_, hx, -, hd⟩ := encoded_envelope hj he
  refine run_kept ha (fun s hs name => ?_) hv
  rw [hc s hs]
  refine .inr ⟨_, hd, (ho s hs).symm, ?_⟩
  show ended (s.1.now name) at_ = false
  cases hn : s.1.now name with
  | none => rfl
  | some t =>
    have hl := ht s hs name t hn
    exact decide_eq_false fun hle => Nat.lt_irrefl _ (Nat.lt_of_lt_of_le (hx ▸ hl) (UInt64.le_iff_toNat_le.mp hle))

namespace Shared

open TwoSecrets

/-- A project whose cache lies where that of `app` does. -/
def billing : Refreshing (Text × Text) Text where
  toMaintenance := { maintenance near far fun _ entries => entries with project := Text.of "billing" }
  build_source_provider := .ok
  clock := some 1500
  check_writable _ _ := .ok ()
  set_expiring _ _ serialized := (.ok (), some serialized)

theorem billing_attends : billing.Attends token_place := ⟨fun _ _ _ _ => rfl, fun _ _ _ => rfl, fun _ _ => rfl⟩

theorem entry_outlives_clearing : run [(billing, .clear_cache none)] both token_place = some stored :=
  refreshed_entry_kept (single_round_trips entry "\x7b\x7d" [])
    (show encode_provider_entry_at billing.codec (Text.of "app") (Text.of "default") 1000 1000 (Text.of "r")
      ⟨[], none, none⟩ = .ok stored by decide +kernel)
    (forall_mem_singleton.mpr billing_attends) (forall_mem_singleton.mpr rfl)
    (forall_mem_singleton.mpr (by decide)) (forall_mem_singleton.mpr fun _ _ h => by cases h; decide) rfl

theorem foreign_bytes_outlive_clearing :
    run [(billing, .clear_cache none)] (Function.update both token_place (some [0])) token_place = some [0] :=
  unrecognized_kept (forall_mem_singleton.mpr billing_attends) (forall_mem_singleton.mpr (by decide +kernel)) rfl

end Shared

end Refreshing

end Monosecret.Cache
