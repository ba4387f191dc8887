/-
  Monosecret.Providers.OnceMap — the single-flight cache of provider credentials and built
  providers (`RetryingOnceMap` in `monosecret/src/secrets.rs`).

  Calls. Each call of `get_or_try_init` takes the outer lock and finds or makes the slot of
  its key (`find`), takes the slot's lock (`lock`), and returns a value found there or runs
  its initializer with the lock held (`run_initializer`). A value is stored and returned; a
  failure first releases the slot and then, under the outer lock again, removes it from the
  map if it is still the one there (`remove`). Every event of any call may come next.

  Proved, over every run whose removals are quiet (`removes_quietly`: what is removed holds
  no value and no other call is in it): one initializer at most succeeds for a key, and
  every call that returns a value for it returns that one (`single_flight`).

  Runs: with the slot released before it is removed, a waiter may fill it in between
  (`refilled`), or fill it after it was removed while a later call fills a new one
  (`detached`); either way two initializers succeed (`flown_twice`).
-/

import Monosecret.Lib.Lists
import Monosecret.Lib.Machine
import Monosecret.Lib.Map

namespace Monosecret.Providers.OnceMap

open Lib Machine

universe u v w

/-- A slot: its value, and the call that holds its lock. -/
structure Slot (ν : Type v) where
  cached : Option ν
  holder : Option Nat
  deriving DecidableEq

inductive Phase (ν : Type v) (ε : Type w)
  | entering
  | waiting (slot : Nat)
  | initializing (slot : Nat)
  | failed (slot : Nat) (error : ε)
  | returned (result : Except ε ν)

/-- The slot a call may still fill. -/
def Phase.inside {ν : Type v} {ε : Type w} : Phase ν ε → Option Nat
  | .waiting slot | .initializing slot => some slot
  | _ => none

structure Call (κ : Type u) (ν : Type v) (ε : Type w) where
  key : κ
  phase : Phase ν ε

structure State (κ : Type u) (ν : Type v) (ε : Type w) where
  entries : Map κ Nat
  /-- The slots allocated, each until its last holder drops it. -/
  slots : List (Slot ν)
  calls : List (Call κ ν ε)
  /-- What initializers have returned, for which keys. -/
  successes : List (κ × ν)

inductive Ev (κ : Type u) (ν : Type v) (ε : Type w)
  | call (key : κ)
  | find (c : Nat)
  | lock (c : Nat)
  | run_initializer (c : Nat) (result : Except ε ν)
  | remove (c : Nat)

variable {κ : Type u} {ν : Type v} {ε : Type w} [DecidableEq κ]

def State.goes (s : State κ ν ε) (c : Nat) (key : κ) (phase : Phase ν ε) : State κ ν ε :=
  { s with calls := s.calls.set c ⟨key, phase⟩ }

/-- `entry(key).or_insert_with(..)` under the outer lock. -/
def find (s : State κ ν ε) (c : Nat) (key : κ) : State κ ν ε :=
  match s.entries key with
  | some slot => s.goes c key (.waiting slot)
  | none =>
    { s with
      entries := s.entries.insert key s.slots.length
      slots := s.slots ++ [⟨none, none⟩]
      calls := s.calls.set c ⟨key, .waiting s.slots.length⟩ }

/-- The slot's lock, when no other call has it. -/
def lock (s : State κ ν ε) (c : Nat) (key : κ) (i : Nat) : Option (State κ ν ε) :=
  match s.slots[i]? with
  | some ⟨some value, none⟩ => some (s.goes c key (.returned (.ok value)))
  | some ⟨none, none⟩ => some { s.goes c key (.initializing i) with slots := s.slots.set i ⟨none, some c⟩ }
  | _ => none

def run_initializer (s : State κ ν ε) (c : Nat) (key : κ) (i : Nat) (slot : Slot ν) : Except ε ν → State κ ν ε
  | .ok value =>
    { s.goes c key (.returned (.ok value)) with
      slots := s.slots.set i ⟨some value, none⟩
      successes := s.successes ++ [(key, value)] }
  | .error error => { s.goes c key (.failed i error) with slots := s.slots.set i { slot with holder := none } }

/-- Remove the slot if it is the one in the map. -/
def remove (s : State κ ν ε) (c : Nat) (key : κ) (i : Nat) (error : ε) : State κ ν ε :=
  { s.goes c key (.returned (.error error)) with
    entries := if s.entries key = some i then s.entries.remove key else s.entries }

def step (s : State κ ν ε) : Ev κ ν ε → Option (State κ ν ε)
  | .call key => some { s with calls := s.calls ++ [⟨key, .entering⟩] }
  | .find c =>
    match s.calls[c]? with
    | some ⟨key, .entering⟩ => some (find s c key)
    | _ => none
  | .lock c =>
    match s.calls[c]? with
    | some ⟨key, .waiting i⟩ => lock s c key i
    | _ => none
  | .run_initializer c result =>
    match s.calls[c]? with
    | some ⟨key, .initializing i⟩ => (s.slots[i]?).map fun slot => run_initializer s c key i slot result
    | _ => none
  | .remove c =>
    match s.calls[c]? with
    | some ⟨key, .failed i error⟩ => some (remove s c key i error)
    | _ => none

/-- An empty map, and no calls. -/
def machine (κ : Type u) (ν : Type v) (ε : Type w) [DecidableEq κ] : Machine (State κ ν ε) (Ev κ ν ε) where
  init := ⟨.empty, [], [], []⟩
  step := step

/-- What the map holds under a key. -/
def current (s : State κ ν ε) (key : κ) : Option ν := ((s.entries key).bind (s.slots[·]?)).bind Slot.cached

/-- A slot taken out of the map holds no value and no call is in it. -/
def removes_quietly (s : State κ ν ε) : Ev κ ν ε → Bool
  | .remove c =>
    match s.calls[c]? with
    | some ⟨key, .failed i _⟩ =>
      s.entries key != some i || ((current s key).isNone && s.calls.all fun call => call.phase.inside != some i)
    | _ => true
  | _ => true

/-- One success at most for a key, and the calls that return share it. -/
def SingleFlight (s : State κ ν ε) : Prop :=
  (∀ key, (s.successes.filter fun success => success.1 = key).length ≤ 1) ∧
    ∀ call ∈ s.calls, ∀ value, call.phase = .returned (.ok value) → (call.key, value) ∈ s.successes

/-! ## Quiet removals keep the map and the successes together -/

structure Inv (s : State κ ν ε) : Prop where
  entered : ∀ key i, s.entries key = some i → i < s.slots.length
  apart : ∀ key key' i, s.entries key = some i → s.entries key' = some i → key = key'
  /-- A call in a slot is in the one of the map. -/
  inside : ∀ (c : Nat) (call : Call κ ν ε) (i : Nat), s.calls[c]? = some call → call.phase.inside = some i → s.entries call.key = some i
  held : ∀ (c : Nat) (call : Call κ ν ε) (i : Nat), s.calls[c]? = some call → call.phase = .initializing i → s.slots[i]? = some ⟨none, some c⟩
  /-- The one success of a key is what the map holds. -/
  once : ∀ key, (s.successes.filter fun success => success.1 = key) = ((current s key).map fun value => (key, value)).toList
  shared : ∀ (c : Nat) (call : Call κ ν ε) (value : ν), s.calls[c]? = some call → call.phase = .returned (.ok value) →
    current s call.key = some value

theorem Inv.init : Inv (machine κ ν ε).init where
  entered := by intro key i h; cases h
  apart := by intro key k' i h; cases h
  inside := by intro c call i h; simp [machine] at h
  held := by intro c call i h; simp [machine] at h
  once := by intro key; rfl
  shared := by intro c call value h; simp [machine] at h

section

variable {s : State κ ν ε} (h : Inv s)

include h in
theorem Inv.call (key : κ) : Inv { s with calls := s.calls ++ [⟨key, .entering⟩] } := by
  have hold : ∀ (c : Nat) (call : Call κ ν ε), (s.calls ++ [⟨key, .entering⟩])[c]? = some call → call.phase ≠ .entering →
      s.calls[c]? = some call := by
    intro c call hc hp
    rcases getElem?_snoc hc with hc | ⟨-, rfl⟩
    · exact hc
    · exact absurd rfl hp
  refine ⟨h.entered, h.apart, ?_, ?_, h.once, ?_⟩
  · intro c call i hc hi
    exact h.inside c call i (hold c call hc (by intro he; simp [he, Phase.inside] at hi)) hi
  · intro c call i hc hi
    exact h.held c call i (hold c call hc (by simp [hi])) hi
  · intro c call value hc hr
    exact h.shared c call value (hold c call hc (by simp [hr])) hr

variable {c : Nat} {key : κ}

include h in
/-- A call that moves into no lock and returns no value but its key's. -/
theorem Inv.goes {p : Phase ν ε} (hn : ∀ i, p.inside = some i → s.entries key = some i)
    (hrn : ∀ i, p ≠ .initializing i) (ht : ∀ value, p = .returned (.ok value) → current s key = some value) :
    Inv (s.goes c key p) := by
  refine ⟨h.entered, h.apart, ?_, ?_, h.once, ?_⟩
  · intro c' call i hc hi
    rcases getElem?_set_some hc with ⟨-, rfl⟩ | ⟨-, hc⟩
    · exact hn i hi
    · exact h.inside c' call i hc hi
  · intro c' call i hc hi
    rcases getElem?_set_some hc with ⟨-, rfl⟩ | ⟨-, hc⟩
    · exact absurd hi (hrn i)
    · exact h.held c' call i hc hi
  · intro c' call value hc hr
    rcases getElem?_set_some hc with ⟨-, rfl⟩ | ⟨-, hc⟩
    · exact ht value hr
    · exact h.shared c' call value hc hr

include h in
theorem Inv.find : Inv (OnceMap.find s c key) := by
  unfold OnceMap.find
  cases he : s.entries key with
  | some sl =>
    simp only
    refine h.goes ?_ (by intro i; simp) (by intro value; simp)
    intro i hi
    simp only [Phase.inside, Option.some.injEq] at hi
    rw [he, hi]
  | none =>
    simp only
    have hcr : ∀ k, current { s with
        entries := s.entries.insert key s.slots.length
        slots := s.slots ++ [⟨none, none⟩]
        calls := s.calls.set c ⟨key, .waiting s.slots.length⟩ } k = current s k := by
      intro k
      unfold current
      by_cases hk : k = key
      · subst hk
        simp [he]
      · show (((s.entries.insert key s.slots.length) k).bind _).bind Slot.cached = _
        rw [Map.insert_of_ne hk]
        cases hi : s.entries k with
        | none => rfl
        | some i =>
          have hl := h.entered k i hi
          simp [List.getElem?_append_left hl]
    have hn : ∀ k, s.entries k ≠ some s.slots.length := by
      intro k hk
      have := h.entered k _ hk
      omega
    refine ⟨?_, ?_, ?_, ?_, ?_, ?_⟩
    · intro k i hk
      rw [List.length_append, List.length_singleton]
      rcases Map.insert_some hk with ⟨-, rfl⟩ | ⟨-, hk⟩
      · exact Nat.lt_succ_self _
      · exact Nat.lt_succ_of_lt (h.entered k i hk)
    · intro k k' i hk hk'
      rcases Map.insert_some hk with ⟨rfl, rfl⟩ | ⟨-, ho⟩ <;> rcases Map.insert_some hk' with ⟨rfl, hi⟩ | ⟨-, ho'⟩
      · rfl
      · exact absurd ho' (hn k')
      · exact absurd (hi ▸ ho) (hn k)
      · exact h.apart k k' i ho ho'
    · intro c' call i hc hi
      rcases getElem?_set_some hc with ⟨-, rfl⟩ | ⟨-, hc⟩
      · simp only [Phase.inside, Option.some.injEq] at hi
        subst hi
        exact Map.insert_self _ _ _
      · have hin := h.inside c' call i hc hi
        have hne : call.key ≠ key := by
          intro hk
          rw [hk, he] at hin
          cases hin
        show s.entries.insert key s.slots.length call.key = some i
        rw [Map.insert_of_ne hne, hin]
    · intro c' call i hc hi
      rcases getElem?_set_some hc with ⟨-, rfl⟩ | ⟨-, hc⟩
      · cases hi
      · have hhl := h.held c' call i hc hi
        have hl : i < s.slots.length := (List.getElem?_eq_some_iff.mp hhl).1
        rw [List.getElem?_append_left hl, hhl]
    · intro k
      rw [hcr k]
      exact h.once k
    · intro c' call value hc hr
      rw [hcr]
      rcases getElem?_set_some hc with ⟨-, rfl⟩ | ⟨-, hc⟩
      · cases hr
      · exact h.shared c' call value hc hr

/-- What the map holds when one slot changes. -/
theorem current_set (s : State κ ν ε) {i : Nat} (he : s.entries key = some i) (hi : i < s.slots.length)
    (ha : ∀ k, s.entries k = some i → k = key) (slot : Slot ν) (calls : List (Call κ ν ε))
    (successes : List (κ × ν)) (k : κ) :
    current { s with slots := s.slots.set i slot, calls, successes } k =
      if k = key then slot.cached else current s k := by
  unfold current
  by_cases hk : k = key
  · subst hk
    simp [he, List.getElem?_set_self hi]
  · rw [if_neg hk]
    cases hik : s.entries k with
    | none => rfl
    | some j =>
      have hj : i ≠ j := by
        intro hj
        exact hk (ha k (hj ▸ hik))
      simp [List.getElem?_set_ne hj]

include h in
theorem Inv.lock {i : Nat} (hc : s.calls[c]? = some ⟨key, .waiting i⟩) {t : State κ ν ε}
    (hs : OnceMap.lock s c key i = some t) : Inv t := by
  have he : s.entries key = some i := h.inside c _ i hc rfl
  unfold OnceMap.lock at hs
  split at hs
  · rename_i value hl
    cases hs
    refine h.goes (by intro j hj; cases hj) (by intro j; simp) ?_
    intro v hv
    cases hv
    unfold current
    simp [he, hl]
  · rename_i hl
    cases hs
    have ht := h.entered key i he
    have hcr : ∀ k, current { s.goes c key (.initializing i) with slots := s.slots.set i ⟨none, some c⟩ } k =
        current s k := by
      intro k
      have hst := current_set s he ht (fun k hk => h.apart k key i hk he) ⟨none, some c⟩
        (s.calls.set c ⟨key, .initializing i⟩) s.successes k
      refine Eq.trans hst ?_
      by_cases hk : k = key
      · subst hk
        simp [current, he, hl]
      · rw [if_neg hk]
    refine ⟨?_, h.apart, ?_, ?_, ?_, ?_⟩
    · intro k j hk
      rw [List.length_set]
      exact h.entered k j hk
    · intro c' call j hc' hj
      rcases getElem?_set_some hc' with ⟨-, rfl⟩ | ⟨-, hc'⟩
      · simp only [Phase.inside, Option.some.injEq] at hj
        exact hj ▸ he
      · exact h.inside c' call j hc' hj
    · intro c' call j hc' hj
      rcases getElem?_set_some hc' with ⟨rfl, rfl⟩ | ⟨-, hc'⟩
      · cases hj
        exact List.getElem?_set_self ht
      · -- the slot was free, so no other call holds it
        have hhl := h.held c' call j hc' hj
        have hi : i ≠ j := by
          intro hi
          subst hi
          rw [hl] at hhl
          cases hhl
        rw [List.getElem?_set_ne hi, hhl]
    · intro k
      rw [hcr k]
      exact h.once k
    · intro c' call v hc' hr
      rw [hcr]
      rcases getElem?_set_some hc' with ⟨-, rfl⟩ | ⟨-, hc'⟩
      · cases hr
      · exact h.shared c' call v hc' hr
  · cases hs

include h in
theorem Inv.run_initializer {i : Nat} (hc : s.calls[c]? = some ⟨key, .initializing i⟩) {sl : Slot ν}
    (hs : s.slots[i]? = some sl) (r : Except ε ν) : Inv (OnceMap.run_initializer s c key i sl r) := by
  have he : s.entries key = some i := h.inside c _ i hc rfl
  have hl := h.entered key i he
  have hhl := h.held c _ i hc rfl
  rw [hs] at hhl
  cases hhl
  have hm : current s key = none := by
    unfold current
    simp [he, hs]
  -- one call at a time holds the lock
  have ho : ∀ (c' : Nat) (call : Call κ ν ε) (j : Nat), c' ≠ c → s.calls[c']? = some call → call.phase = .initializing j → i ≠ j := by
    intro c' call j hn hc' hj hi
    subst hi
    have hhl := h.held c' call i hc' hj
    rw [hs] at hhl
    cases hhl
    exact hn rfl
  have ht := fun (sl : Slot ν) (p : Phase ν ε) (sc : List (κ × ν)) (k : κ) =>
    current_set s he hl (fun k hk => h.apart k key i hk he) sl (s.calls.set c ⟨key, p⟩) sc k
  cases r with
  | ok value =>
    have hcr : ∀ k, current (OnceMap.run_initializer s c key i ⟨none, some c⟩ (.ok value)) k =
        if k = key then some value else current s k :=
      ht ⟨some value, none⟩ (.returned (.ok value)) (s.successes ++ [(key, value)])
    refine ⟨?_, h.apart, ?_, ?_, ?_, ?_⟩
    · intro k j hk
      show j < (s.slots.set i _).length
      rw [List.length_set]
      exact h.entered k j hk
    · intro c' call j hc' hj
      rcases getElem?_set_some hc' with ⟨-, rfl⟩ | ⟨-, hc'⟩
      · cases hj
      · exact h.inside c' call j hc' hj
    · intro c' call j hc' hj
      show (s.slots.set i _)[j]? = _
      rcases getElem?_set_some hc' with ⟨-, rfl⟩ | ⟨hn, hc'⟩
      · cases hj
      · rw [List.getElem?_set_ne (ho c' call j hn hc' hj), h.held c' call j hc' hj]
    · intro k
      rw [hcr k]
      show (s.successes ++ [(key, value)]).filter _ = _
      rw [List.filter_append, h.once k]
      by_cases hk : k = key
      · subst hk
        simp [hm]
      · rw [if_neg hk]
        simp [Ne.symm hk]
    · intro c' call v hc' hr
      rw [hcr]
      rcases getElem?_set_some hc' with ⟨-, rfl⟩ | ⟨-, hc'⟩
      · cases hr
        exact if_pos rfl
      · have hsh := h.shared c' call v hc' hr
        have hn : call.key ≠ key := by
          intro hk
          rw [hk, hm] at hsh
          cases hsh
        rw [if_neg hn, hsh]
  | error error =>
    have hcr : ∀ k, current (OnceMap.run_initializer s c key i ⟨none, some c⟩ (.error error)) k = current s k := by
      intro k
      refine Eq.trans (ht ⟨none, none⟩ (.failed i error) s.successes k) ?_
      by_cases hk : k = key
      · subst hk
        rw [if_pos rfl, hm]
      · rw [if_neg hk]
    refine ⟨?_, h.apart, ?_, ?_, ?_, ?_⟩
    · intro k j hk
      show j < (s.slots.set i _).length
      rw [List.length_set]
      exact h.entered k j hk
    · intro c' call j hc' hj
      rcases getElem?_set_some hc' with ⟨-, rfl⟩ | ⟨-, hc'⟩
      · cases hj
      · exact h.inside c' call j hc' hj
    · intro c' call j hc' hj
      show (s.slots.set i _)[j]? = _
      rcases getElem?_set_some hc' with ⟨-, rfl⟩ | ⟨hn, hc'⟩
      · cases hj
      · rw [List.getElem?_set_ne (ho c' call j hn hc' hj), h.held c' call j hc' hj]
    · intro k
      rw [hcr k]
      exact h.once k
    · intro c' call v hc' hr
      rw [hcr]
      rcases getElem?_set_some hc' with ⟨-, rfl⟩ | ⟨-, hc'⟩
      · cases hr
      · exact h.shared c' call v hc' hr

include h in
theorem Inv.remove {i : Nat} {error : ε}
    (hq : s.entries key = some i → current s key = none ∧ ∀ call ∈ s.calls, call.phase.inside ≠ some i) :
    Inv (OnceMap.remove s c key i error) := by
  have hg : Inv (s.goes c key (.returned (.error error))) :=
    h.goes (by intro j hj; cases hj) (by intro j; simp) (by intro value hv; cases hv)
  unfold OnceMap.remove
  by_cases he : s.entries key = some i
  · rw [if_pos he]
    obtain ⟨hm, hn⟩ := hq he
    have hc : ∀ k, current { s.goes c key (.returned (.error error)) with entries := s.entries.remove key } k =
        current s k := by
      intro k
      by_cases hk : k = key
      · subst hk
        rw [hm]
        simp [current]
      · show (((s.entries.remove key) k).bind _).bind Slot.cached = _
        rw [Map.remove_of_ne hk]
        rfl
    refine ⟨?_, ?_, ?_, hg.held, ?_, ?_⟩
    · intro k j hk
      exact h.entered k j (Map.remove_some hk).2
    · intro k k' j hk hk'
      exact h.apart k k' j (Map.remove_some hk).2 (Map.remove_some hk').2
    · intro c' call j hc' hj
      have hi := hg.inside c' call j hc' hj
      have hne : call.key ≠ key := by
        intro hk
        rcases getElem?_set_some hc' with ⟨-, rfl⟩ | ⟨-, hc'⟩
        · cases hj
        · have hji : s.entries key = some j := hk ▸ hi
          rw [he] at hji
          cases hji
          exact hn call (List.mem_of_getElem? hc') hj
      show s.entries.remove key call.key = some j
      rw [Map.remove_of_ne hne]
      exact hi
    · intro k
      rw [hc k]
      exact h.once k
    · intro c' call v hc' hr
      rw [hc]
      exact hg.shared c' call v hc' hr
  · rw [if_neg he]
    exact hg

include h in
theorem Inv.step {e : Ev κ ν ε} (ho : removes_quietly s e) {t : State κ ν ε}
    (hs : OnceMap.step s e = some t) : Inv t := by
  cases e with
  | call key =>
    cases hs
    exact h.call key
  | find c =>
    simp only [OnceMap.step] at hs
    split at hs
    · cases hs
      exact h.find
    · cases hs
  | lock c =>
    simp only [OnceMap.step] at hs
    split at hs
    · rename_i key i hc
      exact h.lock hc hs
    · cases hs
  | run_initializer c r =>
    simp only [OnceMap.step] at hs
    split at hs
    · rename_i key i hc
      obtain ⟨sl, hl, rfl⟩ := Option.map_eq_some_iff.mp hs
      exact h.run_initializer hc hl r
    · cases hs
  | remove c =>
    simp only [OnceMap.step] at hs
    split at hs
    · rename_i key i error hc
      cases hs
      refine h.remove fun he => ?_
      simp only [removes_quietly, hc, he, bne_self_eq_false, Bool.false_or, Bool.and_eq_true, List.all_eq_true,
        bne_iff_ne] at ho
      exact ⟨by simpa using ho.1, ho.2⟩
    · cases hs

end

/-! ## Single flight -/

theorem Inv.one_flight {s : State κ ν ε} (h : Inv s) : SingleFlight s := by
  constructor
  · intro key
    rw [h.once key]
    cases current s key with
    | none | some value => simp
  · intro call hm value hr
    obtain ⟨c, hc⟩ := List.getElem?_of_mem hm
    have ho := h.once call.key
    rw [h.shared c call value hc hr] at ho
    have hi : (call.key, value) ∈ s.successes.filter fun sc => sc.1 = call.key := by
      rw [ho]
      simp
    exact (List.mem_filter.mp hi).1

/-- While every slot is removed empty and unused, one initializer succeeds for a key. -/
theorem single_flight {s : State κ ν ε} (h : Reach (machine κ ν ε) removes_quietly s) : SingleFlight s :=
  (h.inv Inv.init fun _ _ _ hi ho hs => hi.step ho hs).one_flight

/-! ## Slots released before they are removed -/

/-- The first call fails, the second waits for its slot. -/
def failing : List (Ev Nat Nat Nat) :=
  [.call 7, .find 0, .lock 0, .call 7, .find 1, .run_initializer 0 (.error 404)]

/-- The second call fills the slot before the first removes it; a third makes a new one. -/
def refilled : List (Ev Nat Nat Nat) :=
  failing ++ [.lock 1, .run_initializer 1 (.ok 1), .remove 0, .call 7, .find 2, .lock 2, .run_initializer 2 (.ok 2)]

/-- The first removes the slot before the second fills it. -/
def detached : List (Ev Nat Nat Nat) :=
  failing ++ [.remove 0, .call 7, .find 2, .lock 2, .run_initializer 2 (.ok 2), .lock 1, .run_initializer 1 (.ok 1)]

theorem SingleFlight.length_le {s : State κ ν ε} (h : SingleFlight s) (key : κ)
    (ha : ∀ sc ∈ s.successes, sc.1 = key) : s.successes.length ≤ 1 := by
  have hf : (s.successes.filter fun sc => sc.1 = key) = s.successes :=
    List.filter_eq_self.mpr fun sc hs => by simpa using ha sc hs
  have := h.1 key
  rwa [hf] at this

/-- Two initializers succeed for one key, either way. -/
theorem flown_twice :
    (∃ s, (machine Nat Nat Nat).run any (machine Nat Nat Nat).init refilled = some s ∧ ¬ SingleFlight s) ∧
    ∃ s, (machine Nat Nat Nat).run any (machine Nat Nat Nat).init detached = some s ∧ ¬ SingleFlight s := by
  have ht : ∀ run : List (Ev Nat Nat Nat), ∀ a b : Nat,
      ((machine Nat Nat Nat).run any (machine Nat Nat Nat).init run).map State.successes = some [(7, a), (7, b)] →
      ∃ s : State Nat Nat Nat,
        (machine Nat Nat Nat).run any (machine Nat Nat Nat).init run = some s ∧ ¬ SingleFlight s := by
    intro run a b hr
    obtain ⟨s, hs, hc⟩ := Option.map_eq_some_iff.mp hr
    refine ⟨s, hs, fun h => ?_⟩
    have := h.length_le 7 (by rw [hc]; simp)
    rw [hc] at this
    simp at this
  exact ⟨ht refilled 1 2 rfl, ht detached 2 1 rfl⟩

/-- A waiter left alone in its slot shares its value with a later call. -/
theorem single_flight_run : ∃ s : State Nat Nat Nat, Reach (machine Nat Nat Nat) removes_quietly s ∧
    s.successes = [(7, 1)] ∧ SingleFlight s := by
  obtain ⟨s, hs, hr⟩ := reach_of_run (machine Nat Nat Nat) removes_quietly
    [.call 7, .find 0, .lock 0, .run_initializer 0 (.error 404), .remove 0, .call 7, .call 7, .find 1, .find 2, .lock 1,
      .run_initializer 1 (.ok 1), .lock 2] State.successes [(7, 1)] rfl
  exact ⟨s, hs, hr, single_flight hs⟩

end Monosecret.Providers.OnceMap
