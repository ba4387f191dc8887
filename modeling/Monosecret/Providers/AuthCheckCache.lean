/-
  Monosecret.Providers.AuthCheckCache — the shared authentication probes of provider
  preflights (`AuthCheckCache` in `provider/preflight.rs`).

  Each call of `check` looks up or makes the cell of its key under the map's lock (`lookup`),
  takes the cell's result or starts its own probe (`get_or_init`, not while another probe
  fills the cell), ends that probe (`finish`, or `panic`, which leaves the cell as it was), and
  after a failure removes the cell if the map still has it (`remove`). Every event of any
  call may come next. A call notes whether its key had succeeded when it looked its cell up,
  and which cells had been removed by then.

  Proved, in every state reached: one probe at most is in flight for a key; none runs for a
  key that has succeeded, whose later calls return `Ok`; and a failure is returned only to
  calls that looked its cell up before that cell was removed (`shared`).
-/

import Monosecret.Lib.Machine
import Monosecret.Lib.Map

namespace Monosecret.Providers.AuthCheckCache

open Lib Machine

universe u v

inductive Phase (ε : Type v)
  | waiting
  | probing
  | failed (error : ε)
  | returned (result : Except ε Unit)
  | unwound

structure Call (κ : Type u) (ε : Type v) where
  key : κ
  cell : Nat
  phase : Phase ε
  /-- The key had succeeded when the cell was looked up. -/
  late : Bool
  /-- The cells removed by then. -/
  removed_then : List Nat

structure State (κ : Type u) (ε : Type v) where
  cells : Map κ Nat
  /-- The name of the next cell. -/
  next : Nat
  results : Map Nat (Except ε Unit)
  /-- The call whose probe fills a cell. -/
  running : Map Nat Nat
  calls : Map Nat (Call κ ε)
  removed : List Nat
  succeeded : List κ

inductive Ev (κ : Type u) (ε : Type v)
  | lookup (c : Nat) (key : κ)
  | get_or_init (c : Nat)
  | finish (c : Nat) (result : Except ε Unit)
  | panic (c : Nat)
  | remove (c : Nat)

variable {κ : Type u} {ε : Type v}

/-- A failed result still has its cell to remove. -/
def Phase.after : Except ε Unit → Phase ε
  | .ok () => .returned (.ok ())
  | .error error => .failed error

/-- The result a call was given. -/
def Phase.result : Phase ε → Option (Except ε Unit)
  | .failed error => some (.error error)
  | .returned result => some result
  | _ => none

def State.goes (s : State κ ε) (c : Nat) (call : Call κ ε) (phase : Phase ε) : State κ ε :=
  { s with calls := s.calls.insert c { call with phase } }

/-- `entry(key).or_default()` under the lock. -/
def lookup [DecidableEq κ] (s : State κ ε) (c : Nat) (key : κ) : State κ ε :=
  let cell := (s.cells key).getD s.next
  { s with
    cells := s.cells.insert key cell
    next := s.next + 1
    calls := s.calls.insert c ⟨key, cell, .waiting, decide (key ∈ s.succeeded), s.removed⟩ }

/-- None while another call's probe runs. -/
def get_or_init (s : State κ ε) (c : Nat) (call : Call κ ε) : Option (State κ ε) :=
  match s.results call.cell, s.running call.cell with
  | some result, _ => some (s.goes c call (.after result))
  | none, some _ => none
  | none, none => some { s.goes c call .probing with running := s.running.insert call.cell c }

def finish (s : State κ ε) (c : Nat) (call : Call κ ε) (result : Except ε Unit) : State κ ε :=
  { s.goes c call (.after result) with
    results := s.results.insert call.cell result
    running := s.running.remove call.cell
    succeeded := if result matches .ok () then call.key :: s.succeeded else s.succeeded }

def panic (s : State κ ε) (c : Nat) (call : Call κ ε) : State κ ε :=
  { s.goes c call .unwound with running := s.running.remove call.cell }

/-- Drop the failed cell, if it is still the one in the map. -/
def remove [DecidableEq κ] (s : State κ ε) (c : Nat) (call : Call κ ε) (error : ε) : State κ ε :=
  let returned := s.goes c call (.returned (.error error))
  if s.cells call.key = some call.cell then
    { returned with cells := s.cells.remove call.key, removed := call.cell :: s.removed }
  else returned

def step [DecidableEq κ] (s : State κ ε) : Ev κ ε → Option (State κ ε)
  | .lookup c key => if (s.calls c).isNone then some (lookup s c key) else none
  | .get_or_init c => (s.calls c).bind fun call => if call.phase matches .waiting then get_or_init s c call else none
  | .finish c result =>
    (s.calls c).bind fun call => if call.phase matches .probing then some (finish s c call result) else none
  | .panic c => (s.calls c).bind fun call => if call.phase matches .probing then some (panic s c call) else none
  | .remove c =>
    (s.calls c).bind fun call =>
      match call.phase with
      | .failed error => some (remove s c call error)
      | _ => none

/-- No cells, and no calls. -/
def machine (κ : Type u) (ε : Type v) [DecidableEq κ] : Machine (State κ ε) (Ev κ ε) where
  init := ⟨.empty, 0, .empty, .empty, .empty, [], []⟩
  step := step

/-- What the calls share. -/
structure Shared (s : State κ ε) : Prop where
  one_probe : ∀ c c' call call', s.calls c = some call → s.calls c' = some call' → call.phase = .probing →
    call'.phase = .probing → call.key = call'.key → c = c'
  no_more : ∀ c call, s.calls c = some call → call.phase = .probing → call.key ∉ s.succeeded
  later : ∀ c call, s.calls c = some call → call.late = true →
    s.results call.cell = some (.ok ()) ∧ (call.phase = .waiting ∨ call.phase = .returned (.ok ()))
  before : ∀ c call error, s.calls c = some call → call.phase = .returned (.error error) →
    s.results call.cell = some (.error error) ∧ call.cell ∉ call.removed_then

/-! ## A call's cell is in the map until it has a result -/

structure Fits (cells : Map κ Nat) (results : Map Nat (Except ε Unit)) (running : Map Nat Nat) (c : Nat) (call : Call κ ε) :
    Prop where
  here : results call.cell = none → cells call.key = some call.cell
  probes : call.phase = .probing → results call.cell = none ∧ running call.cell = some c
  given : ∀ result, call.phase.result = some result → results call.cell = some result
  late : call.late = true →
    results call.cell = some (.ok ()) ∧ (call.phase = .waiting ∨ call.phase = .returned (.ok ()))
  before : call.cell ∉ call.removed_then

structure Inv (s : State κ ε) : Prop where
  named : ∀ key cell, s.cells key = some cell → cell < s.next ∧ cell ∉ s.removed
  gone : ∀ cell ∈ s.removed, cell < s.next
  apart : ∀ key key' cell, s.cells key = some cell → s.cells key' = some cell → key = key'
  calls : ∀ c call, s.calls c = some call → Fits s.cells s.results s.running c call
  kept : ∀ key ∈ s.succeeded, ∃ cell, s.cells key = some cell ∧ s.results cell = some (.ok ())

theorem Inv.init [DecidableEq κ] : Inv (machine κ ε).init where
  named := nofun
  gone := nofun
  apart := nofun
  calls := nofun
  kept := nofun

/-- One call moved, the others stay. -/
theorem calls_insert {P : Nat → Call κ ε → Prop} {cl : Map Nat (Call κ ε)} {c : Nat} {call : Call κ ε} (hc : P c call)
    (ho : ∀ c' call', c' ≠ c → cl c' = some call' → P c' call') (c' : Nat) (call' : Call κ ε)
    (h : cl.insert c call c' = some call') : P c' call' := by
  rcases Map.insert_some h with ⟨rfl, rfl⟩ | ⟨hn, h⟩
  · exact hc
  · exact ho c' call' hn h

section

variable {s : State κ ε} (h : Inv s) {c : Nat} {call : Call κ ε}

include h in
theorem Inv.lookup [DecidableEq κ] (ky : κ) : Inv (AuthCheckCache.lookup s c ky) := by
  unfold AuthCheckCache.lookup
  generalize hg : (s.cells ky).getD s.next = cell
  -- the cell is the key's, or a new one
  have hold : s.cells ky = some cell ∨ s.cells ky = none ∧ cell = s.next := by
    cases hk : s.cells ky with
    | none => exact .inr ⟨rfl, by rw [← hg, hk]; rfl⟩
    | some old => exact .inl (by rw [← hg, hk]; rfl)
  have hnm : cell < s.next + 1 ∧ cell ∉ s.removed := by
    rcases hold with hk | ⟨-, rfl⟩
    · exact ⟨Nat.lt_succ_of_lt (h.named ky cell hk).1, (h.named ky cell hk).2⟩
    · exact ⟨Nat.lt_succ_self _, fun hm => Nat.lt_irrefl _ (h.gone _ hm)⟩
  have hs : ∀ k i, s.cells k = some i → s.cells.insert ky cell k = some i := by
    intro k i hk
    by_cases hkk : k = ky
    · subst hkk
      rcases hold with ho | ⟨ho, -⟩
      · rw [Map.insert_self, ← ho, hk]
      · rw [ho] at hk
        cases hk
    · rw [Map.insert_of_ne hkk, hk]
  have ha : ∀ k, k ≠ ky → s.cells k ≠ some cell := by
    intro k hkk hk
    rcases hold with ho | ⟨-, rfl⟩
    · exact hkk (h.apart k ky cell hk ho)
    · exact Nat.lt_irrefl _ (h.named k _ hk).1
  refine ⟨?_, ?_, ?_, ?_, ?_⟩
  · intro k i hk
    rcases Map.insert_some hk with ⟨-, rfl⟩ | ⟨-, hk⟩
    · exact hnm
    · exact ⟨Nat.lt_succ_of_lt (h.named k i hk).1, (h.named k i hk).2⟩
  · intro i hi
    exact Nat.lt_succ_of_lt (h.gone i hi)
  · intro k k' i hk hk'
    rcases Map.insert_some hk with ⟨rfl, hi⟩ | ⟨hkk, ho⟩ <;> rcases Map.insert_some hk' with ⟨rfl, hi'⟩ | ⟨hkk', ho'⟩
    · rfl
    · exact absurd (hi ▸ ho') (ha k' hkk')
    · exact absurd (hi' ▸ ho) (ha k hkk)
    · exact h.apart k k' i ho ho'
  · refine calls_insert ?_ fun c' cl' _ hc' => ?_
    · refine ⟨fun _ => Map.insert_self _ _ _, nofun, nofun, ?_, hnm.2⟩
      intro hl
      obtain ⟨i, hi, hr⟩ := h.kept ky (of_decide_eq_true hl)
      rcases hold with ho | ⟨ho, -⟩
      · rw [ho] at hi
        cases hi
        exact ⟨hr, .inl rfl⟩
      · rw [ho] at hi
        cases hi
    · have hf := h.calls c' cl' hc'
      exact ⟨fun hn => hs _ _ (hf.here hn), hf.probes, hf.given, hf.late, hf.before⟩
  · intro k hk
    obtain ⟨i, hi, hr⟩ := h.kept k hk
    exact ⟨i, hs k i hi, hr⟩

include h in
section

variable (hc : s.calls c = some call)

include hc

theorem Inv.get_or_init {t : State κ ε} (ht : AuthCheckCache.get_or_init s c call = some t) : Inv t := by
  have hf := h.calls c call hc
  unfold AuthCheckCache.get_or_init at ht
  split at ht
  · rename_i rs hr
    cases ht
    refine ⟨h.named, h.gone, h.apart, calls_insert ?_ fun c' cl' _ => h.calls c' cl', h.kept⟩
    refine ⟨hf.here, ?_, ?_, ?_, hf.before⟩
    · intro hp
      rcases rs with _ | ⟨⟩ <;> cases hp
    · intro r hg
      rcases rs with _ | ⟨⟩ <;> cases hg <;> exact hr
    · intro hl
      have ho := (hf.late hl).1
      cases hr.symm.trans ho
      exact ⟨ho, .inr rfl⟩
  · cases ht
  · rename_i hr hn
    cases ht
    refine ⟨h.named, h.gone, h.apart, calls_insert ?_ fun c' cl' _ hc' => ?_, h.kept⟩
    · refine ⟨hf.here, fun _ => ⟨hr, Map.insert_self _ _ _⟩, nofun, ?_, hf.before⟩
      intro hl
      have ho := (hf.late hl).1
      rw [hr] at ho
      cases ho
    · have hf' := h.calls c' cl' hc'
      refine ⟨hf'.here, fun hp' => ?_, hf'.given, hf'.late, hf'.before⟩
      obtain ⟨hr', hn'⟩ := hf'.probes hp'
      refine ⟨hr', ?_⟩
      -- the cell has no probe running
      have hne : cl'.cell ≠ call.cell := by
        intro he
        rw [he, hn] at hn'
        cases hn'
      show s.running.insert call.cell c cl'.cell = some c'
      rw [Map.insert_of_ne hne, hn']

include h in
/-- No other call's probe runs in the cell of a probing call. -/
theorem Inv.alone (hp : call.phase = .probing) {c' : Nat} {cl' : Call κ ε} (hne : c' ≠ c)
    (hc' : s.calls c' = some cl') (hp' : cl'.phase = .probing) : cl'.cell ≠ call.cell := by
  intro he
  have hn := ((h.calls c' cl' hc').probes hp').2
  rw [he, ((h.calls c call hc).probes hp).2] at hn
  exact hne (Option.some.inj hn).symm

include h in
theorem Inv.finish (hp : call.phase = .probing) (rs : Except ε Unit) : Inv (AuthCheckCache.finish s c call rs) := by
  have hf := h.calls c call hc
  obtain ⟨hr, -⟩ := hf.probes hp
  -- a cell with a result is another one
  have hs : ∀ i r, s.results i = some r → s.results.insert call.cell rs i = some r := by
    intro i r hi
    have hne : i ≠ call.cell := by
      rintro rfl
      rw [hr] at hi
      cases hi
    rw [Map.insert_of_ne hne, hi]
  have hkp : ∀ k ∈ s.succeeded, ∃ i, s.cells k = some i ∧ s.results.insert call.cell rs i = some (.ok ()) := by
    intro k hk
    obtain ⟨i, hi, ho⟩ := h.kept k hk
    exact ⟨i, hi, hs i _ ho⟩
  refine ⟨h.named, h.gone, h.apart, calls_insert ?_ fun c' cl' hne hc' => ?_, ?_⟩
  · refine ⟨?_, ?_, ?_, ?_, hf.before⟩
    · intro hn
      rw [show (AuthCheckCache.finish s c call rs).results call.cell = some rs from Map.insert_self _ _ _] at hn
      cases hn
    · intro hp
      rcases rs with _ | ⟨⟩ <;> cases hp
    · intro r hg
      rcases rs with _ | ⟨⟩ <;> cases hg <;> exact Map.insert_self _ _ _
    · intro hl
      have ho := (hf.late hl).1
      rw [hr] at ho
      cases ho
  · have hf' := h.calls c' cl' hc'
    refine ⟨?_, ?_, fun r hg => hs _ r (hf'.given r hg), fun hl => ⟨hs _ _ (hf'.late hl).1, (hf'.late hl).2⟩, hf'.before⟩
    · intro hn
      refine hf'.here ?_
      cases hi : s.results cl'.cell with
      | none => rfl
      | some r => exact absurd ((hs _ r hi).symm.trans hn) (by simp)
    · intro hp'
      have hne' := h.alone hc hp hne hc' hp'
      obtain ⟨hr', hn'⟩ := hf'.probes hp'
      exact ⟨(Map.insert_of_ne hne' _ _).trans hr', (Map.remove_of_ne hne' _).trans hn'⟩
  · cases rs with
    | error error => exact hkp
    | ok _ =>
      intro k hk
      rcases List.mem_cons.mp hk with rfl | hk
      · exact ⟨call.cell, hf.here hr, Map.insert_self _ _ _⟩
      · exact hkp k hk

include h in
theorem Inv.panic (hp : call.phase = .probing) : Inv (AuthCheckCache.panic s c call) := by
  have hf := h.calls c call hc
  obtain ⟨hr, -⟩ := hf.probes hp
  refine ⟨h.named, h.gone, h.apart, calls_insert ?_ fun c' cl' hn hc' => ?_, h.kept⟩
  · refine ⟨hf.here, nofun, nofun, ?_, hf.before⟩
    intro hl
    have ho := (hf.late hl).1
    rw [hr] at ho
    cases ho
  · have hf' := h.calls c' cl' hc'
    refine ⟨hf'.here, fun hp' => ?_, hf'.given, hf'.late, hf'.before⟩
    have hn' := h.alone hc hp hn hc' hp'
    exact ⟨(hf'.probes hp').1, (Map.remove_of_ne hn' _).trans (hf'.probes hp').2⟩

include h in
theorem Inv.remove [DecidableEq κ] {error : ε} (hp : call.phase = .failed error) :
    Inv (AuthCheckCache.remove s c call error) := by
  have hf := h.calls c call hc
  have hr : s.results call.cell = some (.error error) := hf.given _ (by rw [hp]; rfl)
  have hg : Inv (s.goes c call (.returned (.error error))) := by
    refine ⟨h.named, h.gone, h.apart, calls_insert ?_ fun c' cl' _ => h.calls c' cl', h.kept⟩
    refine ⟨hf.here, nofun, by rintro r ⟨⟩; exact hr, ?_, hf.before⟩
    intro hl
    have ho := (hf.late hl).1
    rw [hr] at ho
    cases ho
  unfold AuthCheckCache.remove
  by_cases he : s.cells call.key = some call.cell
  · rw [if_pos he]
    -- the removed cell has failed, so no call waits for it and no key has succeeded in it
    have hs : ∀ k i, s.cells k = some i → s.results i ≠ some (.error error) → s.cells.remove call.key k = some i := by
      intro k i hk hi
      have hne : k ≠ call.key := by
        rintro rfl
        rw [he] at hk
        cases hk
        exact hi hr
      rw [Map.remove_of_ne hne, hk]
    have hin : ∀ k i, s.cells.remove call.key k = some i → s.cells k = some i ∧ i ≠ call.cell := by
      intro k i hk
      obtain ⟨hkk, hk⟩ := Map.remove_some hk
      exact ⟨hk, by rintro rfl; exact hkk (h.apart _ _ _ hk he)⟩
    refine ⟨?_, ?_, ?_, ?_, ?_⟩
    · intro k i hk
      obtain ⟨hk, hne⟩ := hin k i hk
      exact ⟨(h.named k i hk).1, fun hm => (List.mem_cons.mp hm).elim hne (h.named k i hk).2⟩
    · intro i hi
      rcases List.mem_cons.mp hi with rfl | hi
      · exact (h.named _ _ he).1
      · exact h.gone i hi
    · intro k k' i hk hk'
      exact h.apart k k' i (hin k i hk).1 (hin k' i hk').1
    · intro c' cl' hc'
      have hf' := hg.calls c' cl' hc'
      refine ⟨fun hn => ?_, hf'.probes, hf'.given, hf'.late, hf'.before⟩
      exact hs _ _ (hf'.here hn) (by rw [show s.results cl'.cell = none from hn]; simp)
    · intro k hk
      obtain ⟨i, hi, ho⟩ := h.kept k hk
      exact ⟨i, hs k i hi (by rw [ho]; simp), ho⟩
  · rw [if_neg he]
    exact hg

end

include h in
theorem Inv.step [DecidableEq κ] {e : Ev κ ε} {t : State κ ε} (hs : AuthCheckCache.step s e = some t) : Inv t := by
  cases e with
  | lookup c k =>
    simp only [AuthCheckCache.step] at hs
    cases of_guard hs
    exact h.lookup k
  | get_or_init c =>
    obtain ⟨call, hc, hs⟩ := Option.bind_eq_some_iff.mp hs
    split at hs
    · exact h.get_or_init hc hs
    · cases hs
  | finish c r =>
    obtain ⟨call, hc, hs⟩ := Option.bind_eq_some_iff.mp hs
    split at hs
    · rename_i hp
      cases hs
      exact h.finish hc hp r
    · cases hs
  | panic c =>
    obtain ⟨call, hc, hs⟩ := Option.bind_eq_some_iff.mp hs
    split at hs
    · rename_i hp
      cases hs
      exact h.panic hc hp
    · cases hs
  | remove c =>
    obtain ⟨call, hc, hs⟩ := Option.bind_eq_some_iff.mp hs
    split at hs
    · rename_i error hp
      cases hs
      exact h.remove hc hp
    · cases hs

end

/-! ## What the calls share -/

theorem Inv.shares {s : State κ ε} (h : Inv s) : Shared s := by
  refine ⟨?_, ?_, fun c call hc => (h.calls c call hc).late, ?_⟩
  · intro c c' call cl' hc hc' hp hp' hk
    have hf := h.calls c call hc
    have hf' := h.calls c' cl' hc'
    obtain ⟨hr, hn⟩ := hf.probes hp
    obtain ⟨hr', hn'⟩ := hf'.probes hp'
    -- both cells are the one the map has under the key
    have he : call.cell = cl'.cell := by
      have hh := hf.here hr
      rw [hk, hf'.here hr'] at hh
      exact (Option.some.inj hh).symm
    rw [he, hn'] at hn
    exact (Option.some.inj hn).symm
  · intro c call hc hp hm
    have hf := h.calls c call hc
    obtain ⟨hr, -⟩ := hf.probes hp
    obtain ⟨cl, hi, ho⟩ := h.kept call.key hm
    rw [hf.here hr] at hi
    cases hi
    rw [hr] at ho
    cases ho
  · intro c call error hc hp
    have hf := h.calls c call hc
    exact ⟨hf.given _ (by rw [hp]; rfl), hf.before⟩

/-- In any interleaving: one probe for a key, none after a success, and failures only to those
    who looked the cell up before it was removed. -/
theorem shared [DecidableEq κ] {s : State κ ε} (h : Reach (machine κ ε) any s) : Shared s :=
  (h.inv Inv.init fun _ _ _ hi _ hs => hi.step hs).shares

/-- Two calls share a failure; the second to remove its cell finds a retry's there. -/
theorem shared_run : ∃ s : State Nat Nat, Reach (machine Nat Nat) any s ∧ (s.succeeded, s.removed) = ([7], [0]) ∧
    Shared s := by
  obtain ⟨s, hs, hr⟩ := reach_of_run (machine Nat Nat) any
    [.lookup 0 7, .lookup 1 7, .get_or_init 0, .finish 0 (.error 401), .get_or_init 1, .remove 0, .lookup 2 7,
      .get_or_init 2, .remove 1, .finish 2 (.ok ()), .lookup 3 7, .get_or_init 3]
    (fun s => (s.succeeded, s.removed)) ([7], [0]) rfl
  exact ⟨s, hs, hr, shared hs⟩

end Monosecret.Providers.AuthCheckCache
