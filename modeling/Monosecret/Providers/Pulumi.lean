/-
  Monosecret.Providers.Pulumi — writes of one key of a Pulumi ESC environment
  (`set_async` and `delete_async` in `monosecret/src/provider/pulumi.rs`).

  The definition is one YAML document, replaced whole under its ETag. What is sent back is the
  `values` mapping alone. A conflict starts the round again, three rounds in all; a missing
  environment is created by a write, which takes up a round of its own.

  `edits_exact_iff`, with the same for a DigitalOcean secret, whose runs are always exact: a
  run is an exact edit of the key exactly when no environment is created in the last round and
  what is replaced has no member but `values`. The imports of a definition are lost, and
  after two conflicts a creation leaves no attempt to count down (`inexact_edits`).
-/

import Monosecret.Lib.Except
import Monosecret.Providers.DigitalOcean

namespace Monosecret.Providers.Pulumi

open Lib Lib.Versioned

def MAX_WRITE_ATTEMPTS : Nat := 3

def SECRET_KEY : String := "fn::secret"

/-! ## Documents -/

inductive Value
  | Null
  | Bool (value : Bool)
  | Number (text : String)
  | String (text : String)
  | Sequence (items : List Value)
  | Mapping (entries : List (Value × Value))
  | Tagged (tag : String) (value : Value)

abbrev Mapping := List (Value × Value)

def is_string (name : String) : Value → Bool
  | .String text => text == name
  | _ => false

namespace Mapping

def get (name : String) (entries : Mapping) : Option Value :=
  (entries.find? fun entry => is_string name entry.1).map Prod.snd

def insert (name : String) (value : Value) (entries : Mapping) : Mapping :=
  if entries.any fun entry => is_string name entry.1 then
    entries.map fun entry => if is_string name entry.1 then (entry.1, value) else entry
  else entries ++ [(.String name, value)]

def remove (name : String) (entries : Mapping) : Mapping :=
  entries.filter fun entry => !is_string name entry.1

end Mapping

/-- The `values` of a definition, whose text is the document. -/
def parse_values : Value → Except String Mapping
  | .Null => .ok []
  | .Mapping top =>
    match (Mapping.get "values" top).getD (.Mapping []) with
    | .Mapping values => .ok values
    | _ => .error "Pulumi returned a definition whose `values` is not a mapping"
  | _ => .error "Pulumi returned a definition that is not a mapping"

def secret_value (value : String) : Value := .Mapping [(.String SECRET_KEY, .String value)]

def values_document (values : Mapping) : Value := .Mapping [(.String "values", .Mapping values)]

/-! ## Requests -/

structure Definition where
  etag : Nat
  values : Mapping

def check_status (action : String) : Answer → Except String Unit
  | .Done => .ok ()
  | .Missing => .error s!"Pulumi returned HTTP 404 while {action}"
  | .Conflict => .error s!"Pulumi returned HTTP 409 while {action}"
  | .Refused error => .error error

def kept_conflicting : String :=
  "Pulumi kept reporting a version conflict while writing the environment definition"

section

variable (turns : Nat → Turn Value)

def read_definition : Option (Value × Nat) → Except String (Option Definition)
  | none => .ok none
  | some (document, etag) => (parse_values document).map fun values => some ⟨etag, values⟩

def get_definition (world : World Value) : Except String (Option Definition) × World Value :=
  match read turns world with
  | (found, world) => (found.bind read_definition, world)

/-- A new environment is an empty document. -/
def create_environment (world : World Value) : Except String Unit × World Value :=
  match create turns .Null world with
  | (answer, world) => (check_status "creating the environment" answer, world)

/-- False on a conflict. -/
def patch_definition (definition : Definition) (world : World Value) : Except String Bool × World Value :=
  match replace turns definition.etag (values_document definition.values) world with
  | (.Conflict, world) => (.ok false, world)
  | (answer, world) => ((check_status "writing the environment definition" answer).map fun _ => true, world)

variable (key : String)

def set_rounds (value : String) : Nat → Bool → World Value → Outcome Unit × World Value
  | 0, _, world => (.Underflow, world)
  | attempts_left + 1, created, world =>
    match get_definition turns world with
    | (.error error, world) => (.Returned (.error error), world)
    | (.ok none, world) =>
      if created then (.Returned (.error "Pulumi created the environment but it could not be read back"), world)
      else
        match create_environment turns world with
        | (.error error, world) => (.Returned (.error error), world)
        | (.ok (), world) => set_rounds value attempts_left true world
    | (.ok (some definition), world) =>
      match patch_definition turns { definition with values := definition.values.insert key (secret_value value) } world with
      | (.error error, world) => (.Returned (.error error), world)
      | (.ok true, world) => (.Returned (.ok ()), world)
      | (.ok false, world) =>
        if attempts_left = 0 then (.Returned (.error kept_conflicting), world)
        else set_rounds value attempts_left created world

def set_async (value : String) (world : World Value) : Outcome Unit × World Value :=
  set_rounds turns key value MAX_WRITE_ATTEMPTS false world

def delete_rounds : Nat → World Value → Outcome Bool × World Value
  | 0, world => (.Underflow, world)
  | attempts_left + 1, world =>
    match get_definition turns world with
    | (.error error, world) => (.Returned (.error error), world)
    | (.ok none, world) => (.Returned (.ok false), world)
    | (.ok (some definition), world) =>
      if (definition.values.get key).isNone then (.Returned (.ok false), world)
      else
        match patch_definition turns { definition with values := definition.values.remove key } world with
        | (.error error, world) => (.Returned (.error error), world)
        | (.ok true, world) => (.Returned (.ok true), world)
        | (.ok false, world) =>
          if attempts_left = 0 then (.Returned (.error kept_conflicting), world)
          else delete_rounds attempts_left world

def delete_async (world : World Value) : Outcome Bool × World Value := delete_rounds turns key MAX_WRITE_ATTEMPTS world

end

/-! ## Edits -/

def members : Value → Mapping
  | .Mapping top => top
  | _ => []

/-- Values by key, and the members of the definition besides `values`. -/
def definition_view : View Value Value Value (Value × Value) where
  value document key value := ∃ values, Mapping.get "values" (members document) = some (.Mapping values) ∧ (key, value) ∈ values
  member document member := member ∈ members document ∧ member.1 ≠ .String "values"

def OnlyValues (document : Value) : Prop := ∀ member ∈ members document, member.1 = .String "values"

variable {name : String}

theorem is_string_iff {value : Value} : is_string name value ↔ value = .String name := by
  cases value <;> simp [is_string]

theorem mem_insert {e : Mapping} {value k v : Value} :
    (k, v) ∈ Mapping.insert name value e ↔
      (k = .String name ∧ v = value) ∨ (k ≠ .String name ∧ (k, v) ∈ e) := by
  unfold Mapping.insert
  split
  · next ha =>
    obtain ⟨held, hl, hn⟩ := List.any_eq_true.mp ha
    rw [List.mem_map]
    constructor
    · rintro ⟨en, he, hq⟩
      split at hq
      · next hk =>
        cases hq
        exact .inl ⟨is_string_iff.mp hk, rfl⟩
      · next hk =>
        subst hq
        exact .inr ⟨fun h => hk (is_string_iff.mpr h), he⟩
    · rintro (⟨rfl, rfl⟩ | ⟨hk, hm⟩)
      · exact ⟨held, hl, by rw [if_pos hn, is_string_iff.mp hn]⟩
      · exact ⟨_, hm, if_neg fun h => hk (is_string_iff.mp h)⟩
  · next ha =>
    have hnn : ∀ k v, (k, v) ∈ e → k ≠ .String name := fun k v hm hk =>
      ha (List.any_eq_true.mpr ⟨_, hm, is_string_iff.mpr hk⟩)
    rw [List.mem_append, List.mem_singleton, Prod.mk.injEq, or_comm]
    exact or_congr_right ⟨fun h => ⟨hnn k v h, h⟩, And.right⟩

theorem mem_remove {entries : Mapping} {k v : Value} :
    (k, v) ∈ Mapping.remove name entries ↔ k ≠ .String name ∧ (k, v) ∈ entries := by
  rw [Mapping.remove, List.mem_filter, and_comm, Bool.not_eq_true', ← Bool.not_eq_true, is_string_iff]

variable {values : Mapping}

theorem document_value {k v : Value} : definition_view.value (values_document values) k v ↔ (k, v) ∈ values := by
  constructor
  · rintro ⟨held, hl, hm⟩
    cases hl
    exact hm
  · exact fun h => ⟨values, rfl, h⟩

theorem document_member {member : Value × Value} : ¬ definition_view.member (values_document values) member := by
  rintro ⟨hm, hn⟩
  exact hn (congrArg Prod.fst (List.mem_singleton.mp hm))

variable {document : Value}

section

variable (h : parse_values document = .ok values)

include h

theorem parsed_value {k v : Value} : definition_view.value document k v ↔ (k, v) ∈ values := by
  cases document with
  | Null =>
    cases h
    exact iff_of_false (fun ⟨_, hl, _⟩ => by cases hl) List.not_mem_nil
  | Mapping t =>
    show (∃ held, Mapping.get "values" t = some (.Mapping held) ∧ (k, v) ∈ held) ↔ _
    cases hg : Mapping.get "values" t with
    | none =>
      simp only [parse_values, hg, Option.getD_none] at h
      cases h
      exact iff_of_false (fun ⟨_, hl, _⟩ => by cases hl) List.not_mem_nil
    | some held =>
      simp only [parse_values, hg, Option.getD_some] at h
      cases held with
      | Mapping held =>
        cases h
        exact ⟨fun ⟨_, hl, hm⟩ => by cases hl; exact hm, fun hm => ⟨_, rfl, hm⟩⟩
      | Null | Bool b | Number text | String text | Sequence items | Tagged tg value => cases h
  | Bool b | Number text | String text | Sequence items | Tagged tg value => cases h

/-- Sending the edited values back edits the key alone exactly where nothing else was there. -/
theorem edited_iff {v' : Mapping} {key : String} {value : Option Value} (hw : ∀ v, (.String key, v) ∈ v' ↔ value = some v)
    (hp : ∀ k, k ≠ .String key → ∀ v, (k, v) ∈ v' ↔ (k, v) ∈ values) :
    KeyEdited definition_view (.String key) value (some document) (values_document v') ↔ OnlyValues document := by
  constructor
  · intro he m hm
    by_contra ho
    exact document_member ((he.members_kept document rfl m).mpr ⟨hm, ho⟩)
  · intro hn
    refine ⟨fun v => document_value.trans (hw v), fun k hk v => ?_, fun b hb m => ?_⟩
    · rw [document_value, hp k hk v, ← parsed_value h]
      simp
    · cases hb
      exact iff_of_false document_member fun ⟨hm, ho⟩ => ho (hn m hm)

theorem insert_edited_iff (key : String) (value : Value) :
    KeyEdited definition_view (.String key) (some value) (some document) (values_document (Mapping.insert key value values)) ↔
      OnlyValues document := by
  refine edited_iff h (fun v => ?_) fun k hk v => ?_
  · rw [mem_insert, Option.some_inj]
    simp [eq_comm]
  · rw [mem_insert]
    simp [hk]

theorem remove_edited_iff (key : String) :
    KeyEdited definition_view (.String key) none (some document) (values_document (Mapping.remove key values)) ↔ OnlyValues document := by
  refine edited_iff h (fun v => ?_) fun k hk v => ?_
  · rw [mem_remove]
    simp
  · rw [mem_remove]
    simp [hk]

end

/-! ## Requests of a round -/

section

variable {turns : Nat → Turn Value} {world : World Value}

theorem get_definition_log {answer : Except String (Option Definition)} {found : World Value}
    (h : get_definition turns world = (answer, found)) :
    found.writes = world.writes ∧ found.requests = world.requests + 1 := by
  have hl := read_log turns world
  rcases hr : read turns world with ⟨held, af⟩
  rw [hr] at hl
  rw [get_definition, hr] at h
  obtain ⟨-, rfl⟩ := Prod.mk.inj h
  exact hl

theorem get_definition_found {d : Definition} {found : World Value}
    (h : get_definition turns world = (.ok (some d), found)) :
    ∃ document, found.remote = ⟨some document, d.etag⟩ ∧ parse_values document = .ok d.values := by
  rcases hr : read turns world with ⟨held, af⟩
  rw [get_definition, hr] at h
  obtain ⟨ha, rfl⟩ := Prod.mk.inj h
  obtain ⟨held, rfl, hd⟩ := Except.bind_ok ha
  rcases held with _ | ⟨document, e⟩
  · cases hd
  · obtain ⟨values, hv, hs⟩ := Except.map_eq_ok.mp hd
    cases hs
    exact ⟨document, read_found hr, hv⟩

theorem check_status_ok {a : String} {answer : Answer} (h : check_status a answer = .ok ()) : answer = .Done := by
  cases answer with
  | Done => rfl
  | Missing | Conflict | Refused error => cases h

theorem create_environment_done {m : World Value} (h : create_environment turns world = (.ok (), m)) :
    m.writes = world.writes ++ [.Created world.requests .Null] ∧ m.requests = world.requests + 1 := by
  have hc := @create_done Value turns world .Null
  rcases ht : create turns .Null world with ⟨answer, af⟩
  rw [ht] at hc
  rw [create_environment, ht] at h
  obtain ⟨ha, rfl⟩ := Prod.mk.inj h
  obtain ⟨hw, hn, -⟩ := hc (check_status_ok ha)
  exact ⟨hw, hn⟩

variable {af : World Value}

theorem create_environment_error {error : String} (h : create_environment turns world = (.error error, af)) :
    af.writes = world.writes ∧ af.requests = world.requests + 1 := by
  have hl := @create_log Value turns world .Null
  rcases hc : create turns .Null world with ⟨answer, left⟩
  rw [hc] at hl
  rw [create_environment, hc] at h
  obtain ⟨ha, rfl⟩ := Prod.mk.inj h
  refine hl fun hd => ?_
  rw [show answer = .Done from hd] at ha
  cases ha

theorem patch_definition_done {e : Nat} {values : Mapping} {document : Value}
    (hr : world.remote = ⟨some document, e⟩)
    (h : patch_definition turns ⟨e, values⟩ world = (.ok true, af)) :
    af.writes = world.writes ++ [.Replaced document (values_document values)] ∧
      af.requests = world.requests + 1 ∧ af.remote.document = some (values_document values) := by
  have hw := @replace_after_read Value turns world _ document (values_document values) hr
  rcases hl : replace turns e (values_document values) world with ⟨answer, left⟩
  rw [hl] at hw
  rw [patch_definition, hl] at h
  cases answer with
  | Done =>
    obtain ⟨-, rfl⟩ := Prod.mk.inj h
    exact hw rfl
  | Missing | Conflict | Refused error => cases h

theorem patch_definition_not {d : Definition} {answer : Except String Bool}
    (h : patch_definition turns d world = (answer, af)) (hn : answer ≠ .ok true) :
    af.writes = world.writes ∧ af.requests = world.requests + 1 := by
  have hl := @replace_log Value turns world d.etag (values_document d.values)
  rcases hr : replace turns d.etag (values_document d.values) world with ⟨g, left⟩
  rw [hr] at hl
  rw [patch_definition, hr] at h
  cases g with
  | Done =>
    obtain ⟨rfl, -⟩ := Prod.mk.inj h
    exact absurd rfl hn
  | Missing | Conflict | Refused error =>
    obtain ⟨-, rfl⟩ := Prod.mk.inj h
    exact hl (by simp)

/-! ## Runs -/

/-- What a run sends back, of the values it was sent. -/
def Rewrites (change : Mapping → Mapping) (base : Option Value) (new : Value) : Prop :=
  ∃ document values, base = some document ∧ parse_values document = .ok values ∧ new = values_document (change values)

variable {change : Mapping → Mapping}

/-- What one round comes to that replaces the definition it read, when `again` starts the next one. -/
theorem patch_round {α : Type} {a : α} {c : α → Bool} (ha : c a) {r e : Nat} {values : Mapping}
    {found : World Value} (hg : get_definition turns world = (.ok (some ⟨e, values⟩), found))
    {ag : World Value → Outcome α × World Value} {Good : Outcome α × World Value → Prop}
    (hr : ∀ run, Returns (Rewrites change) c (r + 1) world run → Good run)
    (hag : 0 < r → ∀ af : World Value, af.writes = world.writes → af.requests = world.requests + 2 →
      Good (ag af)) :
    Good (match patch_definition turns ⟨e, change values⟩ found with
      | (.error error, world) => (.Returned (.error error), world)
      | (.ok true, world) => (.Returned (.ok a), world)
      | (.ok false, world) => if r = 0 then (.Returned (.error kept_conflicting), world) else ag world) := by
  obtain ⟨hl, hc⟩ := get_definition_log hg
  obtain ⟨document, hm, hv⟩ := get_definition_found hg
  rcases hp : patch_definition turns ⟨e, change values⟩ found with ⟨error | done, af⟩
  · obtain ⟨hw, ht⟩ := patch_definition_not hp (by simp)
    exact hr _ (.unchanged nofun (hw.trans hl) (by omega))
  · cases done with
    | true =>
      obtain ⟨hw, ht, hd⟩ := patch_definition_done hm hp
      have he : Rewrites change (some document) (values_document (change values)) := ⟨document, values, rfl, hv, rfl⟩
      exact hr _ (@Returns.edited _ _ _ _ _ _ _ _ (.Replaced document (values_document (change values))) ha
        (hl ▸ hw) he hd (by omega))
    | false =>
      obtain ⟨hw, ht⟩ := patch_definition_not hp (by simp)
      dsimp only
      split
      · exact hr _ (.unchanged nofun (hw.trans hl) (by omega))
      · next hf => exact hag (Nat.pos_of_ne_zero hf) af (hw.trans hl) (by omega)

variable {key value : String}

/-- The environment was created by this run: it returns whatever comes. -/
theorem set_created (r : Nat) : 0 < r → ∀ world : World Value,
    Returns (Rewrites (Mapping.insert key (secret_value value))) (fun _ => true) r world
      (set_rounds turns key value r true world) := by
  induction r with
  | zero => exact fun h => absurd h (by decide)
  | succ a ih =>
    intro _ world
    rw [set_rounds]
    rcases hg : get_definition turns world with ⟨error | definition, found⟩
    all_goals obtain ⟨hl, hc⟩ := get_definition_log hg
    · exact .unchanged nofun hl (by omega)
    · rcases definition with _ | ⟨e, values⟩
      · exact .unchanged nofun hl (by omega)
      · exact patch_round rfl hg (fun _ => id) fun hf af hw hc =>
          (ih hf af).later hw (by omega)

/-- The run returns, having created the environment at most once and not in the last round; or it
    created it there and counts below zero. -/
def Runs (rounds : Nat) (world : World Value) (change : Mapping → Mapping) (run : Outcome Unit × World Value) : Prop :=
  run.2.requests ≤ world.requests + 2 * rounds ∧
    ((∃ result before, run.1 = .Returned result ∧
        (before = [] ∨ ∃ request, before = [.Created request .Null] ∧ request + 1 < world.requests + 2 * rounds) ∧
          Settled (Rewrites change) (fun _ => true) (world.writes ++ before) run.2 result) ∨
      ∃ request, run.1 = .Underflow ∧ request + 1 = world.requests + 2 * rounds ∧ run.2.writes = world.writes ++ [.Created request .Null])

theorem Runs.of_returns {rounds : Nat} {run : Outcome Unit × World Value}
    (h : Returns (Rewrites change) (fun _ => true) rounds world run) : Runs rounds world change run := by
  obtain ⟨r, hr, hs, hb⟩ := h
  exact ⟨hb, .inl ⟨r, [], hr, .inl rfl, by rwa [List.append_nil]⟩⟩

theorem set_uncreated (r : Nat) : 0 < r → ∀ world : World Value,
    Runs r world (Mapping.insert key (secret_value value)) (set_rounds turns key value r false world) := by
  induction r with
  | zero => exact fun h => absurd h (by decide)
  | succ a ih =>
    intro _ world
    rw [set_rounds]
    rcases hg : get_definition turns world with ⟨error | definition, found⟩
    all_goals obtain ⟨hl, hc⟩ := get_definition_log hg
    · exact .of_returns (.unchanged nofun hl (by omega))
    · rcases definition with _ | ⟨e, values⟩
      · -- the environment is missing: this run creates it, whatever attempts are left
        dsimp only
        rw [if_neg Bool.false_ne_true]
        rcases hr : create_environment turns found with ⟨error | ⟨⟩, m⟩
        · obtain ⟨hw, hm⟩ := create_environment_error hr
          exact .of_returns (.unchanged nofun (hw.trans hl) (by omega))
        · obtain ⟨hw, hm⟩ := create_environment_done hr
          rw [hl] at hw
          dsimp only
          cases a with
          | zero => exact ⟨by rw [set_rounds]; dsimp only; omega, .inr ⟨found.requests, rfl, by omega, hw⟩⟩
          | succ left =>
            obtain ⟨rs, ht, hs, hb⟩ :=
              @set_created turns key value (left + 1) (Nat.succ_pos _) m
            rw [hw] at hs
            exact ⟨by omega, .inl ⟨rs, _, ht, .inr ⟨found.requests, rfl, by omega⟩, hs⟩⟩
      · refine patch_round rfl hg (fun _ => .of_returns) fun hf af hw hc => ?_
        have hn : af.requests + 2 * a = world.requests + 2 * (a + 1) := by omega
        have hrn := ih hf af
        unfold Runs at hrn ⊢
        rwa [hn, hw] at hrn

theorem delete_returns (r : Nat) : 0 < r → ∀ world : World Value,
    Returns (Rewrites (Mapping.remove key)) id r world (delete_rounds turns key r world) := by
  induction r with
  | zero => exact fun h => absurd h (by decide)
  | succ a ih =>
    intro _ world
    rw [delete_rounds]
    rcases hg : get_definition turns world with ⟨error | definition, found⟩
    all_goals obtain ⟨hl, hc⟩ := get_definition_log hg
    · exact .unchanged nofun hl (by omega)
    · rcases definition with _ | ⟨e, values⟩
      · exact .unchanged (fun b h => (Except.ok.inj h).symm) hl (by omega)
      · dsimp only
        split
        · exact .unchanged (fun b h => (Except.ok.inj h).symm) hl (by omega)
        · exact patch_round rfl hg (fun _ => id) fun hf af hw hc =>
            (ih hf af).later hw (by omega)

/-! ## Exact edits -/

/-- No environment is created by the last round, and nothing replaced has a member but its values. -/
structure Safe (writes : List (Write Value)) : Prop where
  created : ∀ request new, .Created request new ∈ writes → request + 1 < 2 * MAX_WRITE_ATTEMPTS
  replaced : ∀ base new, .Replaced base new ∈ writes → OnlyValues base

/-- What a returning run wrote, against an edit of the key. -/
theorem exact_safe_iff {α : Type} {e : Option Value → Value → Prop}
    (he : ∀ document values, parse_values document = .ok values →
      (e (some document) (values_document (change values)) ↔ OnlyValues document)) {fresh : Value → Prop}
    {c : α → Bool} {result : Except String α} {before : List (Write Value)}
    (hb : ∀ write ∈ before, ∃ r new, write = .Created r new ∧ fresh new ∧ r + 1 < 2 * MAX_WRITE_ATTEMPTS)
    {run : Outcome α × World Value} (hr : run.1 = .Returned result)
    (h : Settled (Rewrites change) c before run.2 result) : Exact e fresh c run ↔ Safe run.2.writes := by
  obtain ⟨o, world⟩ := run
  obtain rfl : o = .Returned result := hr
  have hf : ∀ write ∈ before, ∃ r new, write = .Created r new ∧ fresh new := fun write hw =>
    let ⟨r, new, hq, hn, _⟩ := hb write hw
    ⟨r, new, hq, hn⟩
  have hc : ∀ r new, Write.Created r new ∈ before → r + 1 < 2 * MAX_WRITE_ATTEMPTS := by
    intro r new hw
    obtain ⟨r, new, hq, -, hl⟩ := hb _ hw
    cases hq
    exact hl
  have hnn : ∀ b new, Write.Replaced b new ∉ before := by
    intro b new hw
    obtain ⟨r, new, hq, -⟩ := hb _ hw
    cases hq
  rw [exact_iff hf h]
  rcases h.writes with ht | ⟨last, ht, document, values, hs, hv, hn⟩
  · refine iff_of_true (fun last hl => ?_) ⟨fun r new hw => ?_, fun b new hw => ?_⟩
    · exact absurd (ht.symm.trans hl) (by simp)
    · exact hc r new (ht ▸ hw)
    · exact absurd (ht ▸ hw) (hnn b new)
  · cases last with
    | Created r new => cases hs
    | Replaced b new =>
      cases hs
      cases hn
      have hl : (∀ last, world.writes = before ++ [last] → e last.base last.new) ↔ OnlyValues document := by
        rw [← he document values hv]
        refine ⟨fun h => h _ ht, fun h last hl => ?_⟩
        cases List.append_cancel_left (ht.symm.trans hl)
        exact h
      refine hl.trans ⟨fun ho => ⟨fun r new hw => ?_, fun b new hw => ?_⟩, fun hsf => ?_⟩
      · rcases List.mem_append.mp (ht ▸ hw) with hw | hw
        · exact hc r new hw
        · cases List.mem_singleton.mp hw
      · rcases List.mem_append.mp (ht ▸ hw) with hw | hw
        · exact absurd hw (hnn b new)
        · cases List.mem_singleton.mp hw
          exact ho
      · exact hsf.replaced _ _ (ht ▸ List.mem_append_right _ (List.mem_singleton_self _))

theorem set_exact_iff (turns : Nat → Turn Value) (key value : String) (r : Remote Value) :
    (Exact (KeyEdited definition_view (.String key) (some (secret_value value))) (fun n => n = .Null) (fun _ => true)
        (set_async turns key value (.start r)) ↔
      Safe (set_async turns key value (.start r)).2.writes) ∧
    (set_async turns key value (.start r)).2.requests ≤ 2 * MAX_WRITE_ATTEMPTS := by
  obtain ⟨hb, hr⟩ := @set_uncreated turns key value MAX_WRITE_ATTEMPTS (by decide) (.start r)
  refine ⟨?_, le_of_le_of_eq hb (Nat.zero_add _)⟩
  rcases hr with ⟨rs, before, ht, hf, hs⟩ | ⟨rq, hu, hl, hw⟩
  · refine exact_safe_iff (fun document values h => insert_edited_iff h key _) (fun write hwr => ?_) ht hs
    rcases hf with rfl | ⟨rq, rfl, hq⟩
    · cases hwr
    · cases List.mem_singleton.mp hwr
      exact ⟨rq, .Null, rfl, rfl, lt_of_lt_of_eq hq (Nat.zero_add _)⟩
  · -- the last round created the environment
    refine iff_of_false (fun h => h.returns hu) fun h => ?_
    · have := h.created rq .Null (by rw [set_async, hw]; exact List.mem_append_right _ (List.mem_singleton_self _))
      have hsr : (World.start r).requests = 0 := rfl
      omega

theorem delete_exact_iff (turns : Nat → Turn Value) (key : String) (r : Remote Value) :
    (Exact (KeyEdited definition_view (.String key) none) (fun _ => False) id (delete_async turns key (.start r)) ↔
      Safe (delete_async turns key (.start r)).2.writes) ∧
    (delete_async turns key (.start r)).2.requests ≤ 2 * MAX_WRITE_ATTEMPTS := by
  obtain ⟨rs, hr, hs, hb⟩ := @delete_returns turns key MAX_WRITE_ATTEMPTS (by decide) (.start r)
  exact ⟨exact_safe_iff (fun document values h => remove_edited_iff h key) (fun write hw => by cases hw) hr hs,
    le_of_le_of_eq hb (Nat.zero_add _)⟩

end

/-- Every run of a write of one key ends within three rounds. It edits that key alone of the
    document it is based on, or fails without effect but an empty environment: always for
    DigitalOcean, and for Pulumi exactly when its writes are safe. -/
theorem edits_exact_iff {ρ : Type} (config : DigitalOcean.DigitaloceanConfig) (created : ρ) (key value : String) :
    (∀ turns remote,
      (Exact (KeyEdited definition_view (.String key) (some (secret_value value))) (fun new => new = .Null) (fun _ => true)
          (set_async turns key value (.start remote)) ↔
        Safe (set_async turns key value (.start remote)).2.writes) ∧
      (set_async turns key value (.start remote)).2.requests ≤ 2 * MAX_WRITE_ATTEMPTS) ∧
    (∀ turns remote,
      (Exact (KeyEdited definition_view (.String key) none) (fun _ => False) id (delete_async turns key (.start remote)) ↔
        Safe (delete_async turns key (.start remote)).2.writes) ∧
      (delete_async turns key (.start remote)).2.requests ≤ 2 * MAX_WRITE_ATTEMPTS) ∧
    (∀ turns remote,
      Exact (KeyEdited (DigitalOcean.secret_view ρ) key (some value)) (fun _ => False) (fun _ => true)
          (DigitalOcean.set_async created turns key value (.start remote)) ∧
        (DigitalOcean.set_async created turns key value (.start remote)).2.requests ≤ 2 * DigitalOcean.MAX_WRITE_ATTEMPTS) ∧
    (∀ turns remote,
      Exact (KeyEdited (DigitalOcean.secret_view ρ) key none) (fun _ => False) id
          (DigitalOcean.delete_async config turns key (.start remote)) ∧
        (DigitalOcean.delete_async config turns key (.start remote)).2.requests ≤ 2 * DigitalOcean.MAX_WRITE_ATTEMPTS) :=
  ⟨fun turns remote => set_exact_iff turns key value remote, fun turns remote => delete_exact_iff turns key remote,
    fun turns remote => DigitalOcean.set_exact created turns key value remote,
    fun turns remote => DigitalOcean.delete_exact config turns key remote⟩

def importing : Value :=
  .Mapping [(.String "imports", .Sequence [.String "shared"]), (.String "values", .Mapping [])]

def quiet : Turn Value := ⟨none, none⟩

/-- Others change the environment before each of the first two replacements, and then delete it. -/
def contended : Nat → Turn Value
  | 1 | 3 => ⟨some (some (values_document [])), none⟩
  | 4 => ⟨some none, none⟩
  | _ => quiet

/-- A write drops the imports of the definition; and one whose last round finds no environment
    creates it and counts below zero. -/
theorem inexact_edits :
    ((set_async (fun _ => quiet) "TOKEN" "new" (.start ⟨some importing, 1⟩)).1 = .Returned (.ok ()) ∧
      ¬ Exact (KeyEdited definition_view (.String "TOKEN") (some (secret_value "new"))) (fun new => new = .Null) (fun _ => true)
          (set_async (fun _ => quiet) "TOKEN" "new" (.start ⟨some importing, 1⟩))) ∧
    (set_async contended "TOKEN" "new" (.start ⟨some (values_document []), 1⟩)).1 = .Underflow := by
  refine ⟨⟨rfl, fun h => ?_⟩, rfl⟩
  have hs := (set_exact_iff (fun _ => quiet) "TOKEN" "new" ⟨some importing, 1⟩).1.mp h
  have ho := hs.replaced importing _ (List.mem_singleton_self _)
  have hm := ho (.String "imports", .Sequence [.String "shared"]) (List.mem_cons_self ..)
  simp at hm

end Monosecret.Providers.Pulumi
