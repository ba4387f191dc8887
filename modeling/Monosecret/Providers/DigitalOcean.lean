/-
  Monosecret.Providers.DigitalOcean — writes of one key of a secret object
  (`set_async` and `delete_async` in `monosecret/src/provider/digitalocean.rs`).

  The API replaces all values of the object at once, under the version they were read with, and
  keeps its other members. A conflict starts the round again, three rounds in all; a missing
  object is created by the first write of a key, and its last key is never deleted.

  Proved: every run returns within three rounds and is an exact edit of the key
  (`set_exact`, `delete_exact`).
-/

import Monosecret.Lib.Versioned
import Monosecret.Manifest.Document

namespace Monosecret.Providers.DigitalOcean

open Lib.Versioned
open Manifest (Table)

def MAX_WRITE_ATTEMPTS : Nat := 3

structure DigitaloceanConfig where
  name : String
  region : String

structure Secret (ρ : Type) where
  values : Table String
  /-- The members besides the values. -/
  others : ρ

def check_status (action : String) : Answer → Except String Unit
  | .Done => .ok ()
  | .Missing => .error s!"DigitalOcean returned HTTP 404 while {action}"
  | .Conflict => .error s!"DigitalOcean returned HTTP 409 while {action}"
  | .Refused error => .error error

section

variable {ρ : Type} (config : DigitaloceanConfig) (created : ρ) (turns : Nat → Turn (Secret ρ)) (key : String)

/-- The answer of a write: a conflict goes on while attempts are left. -/
def answered {α : Type} (action : String) (done : α) (attempts_left : Nat) (next : World (Secret ρ) → Outcome α × World (Secret ρ)) :
    Answer × World (Secret ρ) → Outcome α × World (Secret ρ)
  | (answer, world) =>
    if answer = .Conflict ∧ attempts_left > 0 then next world
    else (.Returned ((check_status action answer).map fun _ => done), world)

def set_rounds (value : String) : Nat → World (Secret ρ) → Outcome Unit × World (Secret ρ)
  | 0, world => (.Underflow, world)
  | attempts_left + 1, world =>
    match read turns world with
    | (.error error, world) => (.Returned (.error error), world)
    | (.ok (some (secret, version)), world) =>
      answered "updating the secret" () attempts_left (set_rounds value attempts_left)
        (replace turns version { secret with values := secret.values.insert key value } world)
    | (.ok none, world) =>
      answered "creating the secret" () attempts_left (set_rounds value attempts_left)
        (create turns ⟨AList.insert key value ∅, created⟩ world)

def set_async (value : String) (world : World (Secret ρ)) : Outcome Unit × World (Secret ρ) :=
  set_rounds created turns key value MAX_WRITE_ATTEMPTS world

def last_key : String :=
  s!"DigitalOcean secret '{config.name}' must keep at least one key-value pair, so its last key '{key}' cannot be " ++
    s!"removed here; delete the whole secret with `doctl secrets delete {config.name} --region {config.region}` or " ++
    "the control panel"

def delete_rounds : Nat → World (Secret ρ) → Outcome Bool × World (Secret ρ)
  | 0, world => (.Underflow, world)
  | attempts_left + 1, world =>
    match read turns world with
    | (.error error, world) => (.Returned (.error error), world)
    | (.ok none, world) => (.Returned (.ok false), world)
    | (.ok (some (secret, version)), world) =>
      if key ∉ secret.values then (.Returned (.ok false), world)
      else if secret.values.entries.length = 1 then (.Returned (.error (last_key config key)), world)
      else
        answered "deleting the secret key" true attempts_left (delete_rounds attempts_left)
          (replace turns version { secret with values := secret.values.erase key } world)

def delete_async (world : World (Secret ρ)) : Outcome Bool × World (Secret ρ) :=
  delete_rounds config turns key MAX_WRITE_ATTEMPTS world

end

/-! ## Edits -/

def secret_view (ρ : Type) : View (Secret ρ) String String ρ where
  value secret key value := secret.values.lookup key = some value
  member secret others := secret.others = others

section

variable {ρ : Type} {config : DigitaloceanConfig} {created : ρ} {turns : Nat → Turn (Secret ρ)} {key value : String}

theorem insert_edits (secret : Secret ρ) :
    KeyEdited (secret_view ρ) key (some value) (some secret) { secret with values := secret.values.insert key value } where
  written v := by
    show (secret.values.insert key value).lookup key = some v ↔ _
    rw [AList.lookup_insert]
  values_kept k hk v := by
    show (secret.values.insert key value).lookup k = some v ↔ _
    rw [AList.lookup_insert_ne hk]
    simp [secret_view]
  members_kept document h others := by
    cases h
    exact Iff.rfl

theorem create_edits : KeyEdited (secret_view ρ) key (some value) none ⟨AList.insert key value ∅, created⟩ where
  written v := by
    show AList.lookup key (AList.insert key value (∅ : Table String)) = some v ↔ _
    rw [AList.lookup_insert]
  values_kept k hk v := by
    show AList.lookup k (AList.insert key value (∅ : Table String)) = some v ↔ _
    rw [AList.lookup_insert_ne hk, AList.lookup_empty]
    simp
  members_kept document h := by cases h

theorem erase_edits (secret : Secret ρ) :
    KeyEdited (secret_view ρ) key none (some secret) { secret with values := secret.values.erase key } where
  written v := by
    show (secret.values.erase key).lookup key = some v ↔ _
    rw [AList.lookup_erase]
  values_kept k hk v := by
    show (secret.values.erase key).lookup k = some v ↔ _
    rw [AList.lookup_erase_ne hk]
    simp [secret_view]
  members_kept document h others := by
    cases h
    exact Iff.rfl

/-! ## Rounds -/

/-- What a round's write comes to: an edit, an error, or another round. -/
theorem answered_returns {α : Type} {ac : String} {done : α} {c : α → Bool} (hd : c done)
    {e : Option (Secret ρ) → Secret ρ → Prop} {a : Nat} {next : World (Secret ρ) → Outcome α × World (Secret ρ)}
    (hn : 0 < a → ∀ w, Returns e c a w (next w))
    {w found : World (Secret ρ)} (hf : found.writes = w.writes ∧ found.requests = w.requests + 1)
    {answer : Answer} {af : World (Secret ρ)}
    (hw : answer = .Done → af.requests = found.requests + 1 ∧
      ∃ last, af.writes = found.writes ++ [last] ∧ e last.base last.new ∧ af.remote.document = some last.new)
    (ht : answer ≠ .Done → af.writes = found.writes ∧ af.requests = found.requests + 1) :
    Returns e c (a + 1) w (answered ac done a next (answer, af)) := by
  show Returns e c (a + 1) w
    (if answer = .Conflict ∧ a > 0 then next af
      else (.Returned ((check_status ac answer).map fun _ => done), af))
  split
  · next ha =>
    obtain ⟨hl, hc⟩ := ht (by rw [ha.1]; decide)
    exact (hn ha.2 af).later (hl.trans hf.1) (by omega)
  · cases answer with
    | Done =>
      obtain ⟨hc, last, hl, he, hdc⟩ := hw rfl
      exact .edited hd (hf.1 ▸ hl) he hdc (by omega)
    | Missing | Conflict | Refused error =>
      obtain ⟨hl, hc⟩ := ht (by simp)
      exact .unchanged nofun (hl.trans hf.1) (by omega)

theorem set_returns (r : Nat) : 0 < r → ∀ w : World (Secret ρ),
    Returns (KeyEdited (secret_view ρ) key (some value)) (fun _ => true) r w
      (set_rounds created turns key value r w) := by
  induction r with
  | zero => exact fun h => absurd h (by decide)
  | succ a ih =>
    intro _ w
    rw [set_rounds]
    obtain ⟨hl, hc⟩ := read_log turns w
    rcases hr : read turns w with ⟨error | found, af⟩
    · rw [hr] at hl hc
      exact .unchanged nofun hl (by dsimp only at hc; omega)
    · rw [hr] at hl hc
      rcases found with _ | ⟨s, version⟩
      · refine answered_returns rfl ih ⟨hl, hc⟩ (fun hd => ?_) create_log
        obtain ⟨hw, hcr, hdc⟩ := create_done hd
        exact ⟨hcr, _, hw, create_edits, hdc⟩
      · have hm : af.remote = ⟨some s, version⟩ := read_found hr
        refine answered_returns rfl ih ⟨hl, hc⟩ (fun hd => ?_) replace_log
        obtain ⟨hw, hrl, hdc⟩ := replace_after_read hm hd
        exact ⟨hrl, _, hw, insert_edits s, hdc⟩

theorem delete_returns (r : Nat) : 0 < r → ∀ w : World (Secret ρ),
    Returns (KeyEdited (secret_view ρ) key none) id r w (delete_rounds config turns key r w) := by
  induction r with
  | zero => exact fun h => absurd h (by decide)
  | succ a ih =>
    intro _ w
    rw [delete_rounds]
    obtain ⟨hl, hc⟩ := read_log turns w
    rcases hr : read turns w with ⟨error | found, af⟩
    · rw [hr] at hl hc
      exact .unchanged nofun hl (by dsimp only at hc; omega)
    · rw [hr] at hl hc
      have hw : af.requests ≤ w.requests + 2 * (a + 1) := by
        dsimp only at hc
        omega
      rcases found with _ | ⟨s, version⟩
      · exact .unchanged (fun b h => (Except.ok.inj h).symm) hl hw
      · dsimp only
        split
        · exact .unchanged (fun b h => (Except.ok.inj h).symm) hl hw
        · split
          · exact .unchanged nofun hl hw
          · have hm : af.remote = ⟨some s, version⟩ := read_found hr
            refine answered_returns rfl ih ⟨hl, hc⟩ (fun hd => ?_) replace_log
            obtain ⟨hwr, hrl, hdc⟩ := replace_after_read hm hd
            exact ⟨hrl, _, hwr, erase_edits s, hdc⟩

/-- Whatever others do in between, a write of a key edits that key alone or fails without effect. -/
theorem set_exact (created : ρ) (turns : Nat → Turn (Secret ρ)) (key value : String) (r : Remote (Secret ρ)) :
    Exact (KeyEdited (secret_view ρ) key (some value)) (fun _ => False) (fun _ => true)
        (set_async created turns key value (.start r)) ∧
      (set_async created turns key value (.start r)).2.requests ≤ 2 * MAX_WRITE_ATTEMPTS := by
  obtain ⟨rs, hr, hs, hb⟩ :=
    @set_returns ρ created turns key value MAX_WRITE_ATTEMPTS (by decide) (.start r)
  exact ⟨exact_of_settled hr hs, le_of_le_of_eq hb (Nat.zero_add _)⟩

theorem delete_exact (config : DigitaloceanConfig) (turns : Nat → Turn (Secret ρ)) (key : String) (r : Remote (Secret ρ)) :
    Exact (KeyEdited (secret_view ρ) key none) (fun _ => False) id (delete_async config turns key (.start r)) ∧
      (delete_async config turns key (.start r)).2.requests ≤ 2 * MAX_WRITE_ATTEMPTS := by
  obtain ⟨rs, hr, hs, hb⟩ :=
    @delete_returns ρ config turns key MAX_WRITE_ATTEMPTS (by decide) (.start r)
  exact ⟨exact_of_settled hr hs, le_of_le_of_eq hb (Nat.zero_add _)⟩

end

end Monosecret.Providers.DigitalOcean
