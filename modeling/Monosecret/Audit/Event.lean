/-
  Monosecret.Audit.Event — audit events and their JSON (`AuditEvent` in
  `monosecret/src/audit.rs`, `CallerContext`, `InteractionReference`).

  An event serializes to an object whose last member is `prev`; the members before it do not
  depend on `prev` (`AuditEvent.fields`), carry no key twice and no `sha`, and are read back
  as they were written (`AuditEvent.sealable`). Serialization fails on an interaction that
  expires past the safe integers.
-/

import Monosecret.Rpc.Deadline
import Monosecret.Lib.JsonText

namespace Monosecret.Audit

open Lib Json JsonText
open Rpc.Deadline (MAX_JSON_INTEGER)

def SCHEMA_VERSION : UInt32 := 2

inductive AuditAction where
  | get | set | delete | check | run | import_ | export_ | cache_clear | cache_refresh
  deriving DecidableEq

def AuditAction.as_str : AuditAction → String
  | .get => "get"
  | .set => "set"
  | .delete => "delete"
  | .check => "check"
  | .run => "run"
  | .import_ => "import"
  | .export_ => "export"
  | .cache_clear => "cache_clear"
  | .cache_refresh => "cache_refresh"

inductive AuditOutcome where
  | found | missing | default | written | deleted | started | error
  deriving DecidableEq

def AuditOutcome.as_str : AuditOutcome → String
  | .found => "found"
  | .missing => "missing"
  | .default => "default"
  | .written => "written"
  | .deleted => "deleted"
  | .started => "started"
  | .error => "error"

structure Actor where
  user : Option String
  agent : Option String
  is_agent : Bool

structure CallerContext where
  name : String
  version : Option String
  operation : Option String
  resource : Option String

structure AuditPurpose where
  consumer : String
  operation : String
  host : Option String
  path : Option String

inductive InteractionKind where
  | authorization | unrecognized
  deriving DecidableEq

def InteractionKind.as_str : InteractionKind → String
  | .authorization => "authorization"
  | .unrecognized => "unrecognized"

structure InteractionReference where
  kind : InteractionKind
  id : String
  expires_at_unix_ms : Option UInt64

structure AuditEvent where
  id : String
  ts : String
  session_id : String
  seq : UInt64
  action : AuditAction
  project : String
  profile : String
  scope : Option String
  key : Option String
  keys : List String
  command : Option String
  provider : Option String
  reference : Option String
  outcome : AuditOutcome
  error_kind : Option String
  interaction : Option InteractionReference
  reason : Option String
  caller : Option CallerContext
  purpose : Option AuditPurpose
  actor : Actor
  version : String
  prev : Option String

/-! ## Serialization -/

/-- A member that is left out when there is no value. -/
def member (name : String) (value : Option Json) : List (String × Json) := (value.map fun v => (name, v)).toList

/-- A member that is null when there is no value. -/
def nullable (value : Option String) : Json := (value.map Json.str).getD .null

def Actor.to_value (actor : Actor) : Json :=
  .obj (member "user" (actor.user.map .str) ++ member "agent" (actor.agent.map .str) ++ [("is_agent", .bool actor.is_agent)])

def CallerContext.to_value (caller : CallerContext) : Json :=
  .obj ([("name", .str caller.name)] ++ member "version" (caller.version.map .str) ++
    member "operation" (caller.operation.map .str) ++ member "resource" (caller.resource.map .str))

def AuditPurpose.to_value (purpose : AuditPurpose) : Json :=
  .obj ([("consumer", .str purpose.consumer), ("operation", .str purpose.operation)] ++
    member "host" (purpose.host.map .str) ++ member "path" (purpose.path.map .str))

def InteractionReference.to_value (interaction : InteractionReference) : Json :=
  .obj [("kind", .str interaction.kind.as_str), ("id", .str interaction.id),
    ("expires_at_unix_ms", (interaction.expires_at_unix_ms.map fun ms => Json.int ms.toNat).getD .null)]

/-- `wire_integer::optional`: a time past the safe integers is refused. -/
def InteractionReference.safe (interaction : InteractionReference) : Bool :=
  interaction.expires_at_unix_ms.all fun ms => decide (ms.toNat ≤ MAX_JSON_INTEGER)

/-- The members before `prev`. -/
def AuditEvent.fields (event : AuditEvent) : List (String × Json) :=
  [("v", .int SCHEMA_VERSION.toNat), ("id", .str event.id), ("ts", .str event.ts), ("session_id", .str event.session_id),
    ("seq", .int event.seq.toNat), ("action", .str event.action.as_str), ("project", .str event.project),
    ("profile", .str event.profile)] ++
  member "scope" (event.scope.map .str) ++ member "key" (event.key.map .str) ++
  member "keys" (if event.keys.isEmpty then none else some (.arr (event.keys.map .str))) ++
  member "command" (event.command.map .str) ++ member "provider" (event.provider.map .str) ++
  member "ref" (event.reference.map .str) ++ [("outcome", .str event.outcome.as_str)] ++
  member "error_kind" (event.error_kind.map .str) ++
  member "interaction" (event.interaction.map InteractionReference.to_value) ++
  member "reason" (event.reason.map .str) ++ member "caller" (event.caller.map CallerContext.to_value) ++
  member "purpose" (event.purpose.map AuditPurpose.to_value) ++
  [("actor", event.actor.to_value), ("version", .str event.version)]

def AuditEvent.to_value (event : AuditEvent) : Option Json :=
  if event.interaction.all InteractionReference.safe then some (.obj (event.fields ++ [("prev", nullable event.prev)])) else none

/-! ## Every event is read back -/

/-- Members a digest can be added to: read back as written, and neither `prev` nor `sha` among them. -/
structure Sealable (fields : List (String × Json)) : Prop where
  plain : PlainMembers fields
  nodup : (fields.map Prod.fst).Nodup
  flat : members_nesting fields ≤ 1
  no_prev : "prev" ∉ fields.map Prod.fst
  no_sha : "sha" ∉ fields.map Prod.fst

/-- A value that is a leaf, or a container of leaves. -/
structure Shallow (value : Json) : Prop where
  plain : Plain value
  flat : value.nesting ≤ 1

variable {m : List (String × Json)}

theorem plain_members_iff : PlainMembers m ↔ ∀ e ∈ m, Plain e.2 := by
  induction m with
  | nil => exact ⟨fun _ _ h => absurd h List.not_mem_nil, fun _ => trivial⟩
  | cons e m ih => rw [PlainMembers, ih, List.forall_mem_cons]

theorem members_nesting_le {n : Nat} (h : ∀ e ∈ m, e.2.nesting ≤ n) : members_nesting m ≤ n := by
  induction m with
  | nil => exact Nat.zero_le n
  | cons e m ih =>
    obtain ⟨he, hm⟩ := List.forall_mem_cons.mp h
    exact max_le he (ih hm)

theorem shallow_str (s : String) : Shallow (.str s) := ⟨trivial, Nat.zero_le 1⟩

theorem shallow_strs (k : List String) : Shallow (.arr (k.map .str)) := by
  have hp : PlainItems (k.map .str) := by
    induction k with
    | nil => trivial
    | cons ky k ih => exact ⟨trivial, ih⟩
  have hf : items_nesting (k.map .str) = 0 := by
    induction k with
    | nil => rfl
    | cons ky k ih =>
      rw [List.map_cons, items_nesting, ih hp.2]
      rfl
  exact ⟨hp, by rw [nesting, hf]⟩

/-- An object of leaves under distinct names. -/
theorem shallow_obj (hp : ∀ e ∈ m, Plain e.2 ∧ e.2.nesting = 0)
    (hn : (m.map Prod.fst).Nodup) : Shallow (.obj m) := by
  have hf : members_nesting m ≤ 0 := members_nesting_le fun e h => (hp e h).2.le
  exact ⟨⟨plain_members_iff.mpr fun e h => (hp e h).1, hn⟩, by rw [nesting]; omega⟩

theorem mem_member {n : String} {value : Option Json} {e : String × Json} (h : e ∈ member n value) :
    e.1 = n ∧ value = some e.2 := by
  unfold member at h
  rw [Option.mem_toList, Option.map_eq_some_iff] at h
  obtain ⟨v, rfl, rfl⟩ := h
  exact ⟨rfl, rfl⟩

theorem names_member (n : String) (value : Option Json) : ((member n value).map Prod.fst).Sublist [n] := by
  cases value with
  | none => exact List.nil_sublist _
  | some v => exact List.Sublist.refl _

theorem plain_uint64 (n : UInt64) : Plain (.int n.toNat) := by
  have hl := n.toNat_lt
  rw [Plain]
  omega

theorem Actor.shallow (a : Actor) : Shallow a.to_value := by
  refine shallow_obj (fun e h => ?_) ?_
  · simp only [List.mem_append, List.mem_singleton] at h
    obtain (h | h) | rfl := h
    · obtain ⟨s, -, hs⟩ := Option.map_eq_some_iff.mp (mem_member h).2
      exact hs ▸ ⟨trivial, rfl⟩
    · obtain ⟨s, -, hs⟩ := Option.map_eq_some_iff.mp (mem_member h).2
      exact hs ▸ ⟨trivial, rfl⟩
    · exact ⟨trivial, rfl⟩
  · have hn : ["user", "agent", "is_agent"].Nodup := by decide
    refine hn.sublist ?_
    simp only [List.map_append]
    exact ((names_member _ _).append (names_member _ _)).append (List.Sublist.refl _)

theorem CallerContext.shallow (c : CallerContext) : Shallow c.to_value := by
  refine shallow_obj (fun e h => ?_) ?_
  · simp only [List.mem_append, List.mem_singleton] at h
    obtain ((rfl | h) | h) | h := h
    · exact ⟨trivial, rfl⟩
    all_goals
      obtain ⟨s, -, hs⟩ := Option.map_eq_some_iff.mp (mem_member h).2
      exact hs ▸ ⟨trivial, rfl⟩
  · have hn : ["name", "version", "operation", "resource"].Nodup := by decide
    refine hn.sublist ?_
    simp only [List.map_append]
    exact (((List.Sublist.refl _).append (names_member _ _)).append (names_member _ _)).append (names_member _ _)

theorem AuditPurpose.shallow (p : AuditPurpose) : Shallow p.to_value := by
  refine shallow_obj (fun e h => ?_) ?_
  · simp only [List.mem_append, List.mem_cons, List.not_mem_nil, or_false] at h
    obtain ((rfl | rfl) | h) | h := h
    · exact ⟨trivial, rfl⟩
    · exact ⟨trivial, rfl⟩
    all_goals
      obtain ⟨s, -, hs⟩ := Option.map_eq_some_iff.mp (mem_member h).2
      exact hs ▸ ⟨trivial, rfl⟩
  · have hn : ["consumer", "operation", "host", "path"].Nodup := by decide
    refine hn.sublist ?_
    simp only [List.map_append]
    exact ((List.Sublist.refl _).append (names_member _ _)).append (names_member _ _)

theorem InteractionReference.shallow (i : InteractionReference) : Shallow i.to_value := by
  have hn : ["kind", "id", "expires_at_unix_ms"].Nodup := by decide
  refine shallow_obj (fun e h => ?_) hn
  simp only [List.mem_cons, List.not_mem_nil, or_false] at h
  obtain rfl | rfl | rfl := h
  · exact ⟨trivial, rfl⟩
  · exact ⟨trivial, rfl⟩
  · cases i.expires_at_unix_ms with
    | none => exact ⟨trivial, rfl⟩
    | some ms => exact ⟨plain_uint64 ms, rfl⟩

theorem shallow_member {α : Type} {value : Option α} {t : α → Json} (h : ∀ a, Shallow (t a)) {n : String}
    {e : String × Json} (hm : e ∈ member n (value.map t)) : Shallow e.2 := by
  obtain ⟨a, -, ha⟩ := Option.map_eq_some_iff.mp (mem_member hm).2
  exact ha ▸ h a

theorem AuditEvent.fields_shallow (e : AuditEvent) : ∀ en ∈ e.fields, Shallow en.2 := by
  intro en h
  have hi : ∀ n : UInt64, Shallow (.int n.toNat) := fun n => ⟨plain_uint64 n, Nat.zero_le 1⟩
  simp only [fields, List.mem_append, List.mem_cons, List.not_mem_nil, or_false, or_assoc] at h
  obtain rfl | rfl | rfl | rfl | rfl | rfl | rfl | rfl | h | h | h | h | h | h | rfl | h | h | h | h | h | rfl | rfl := h
  · exact ⟨by unfold Plain SCHEMA_VERSION; decide, Nat.zero_le 1⟩
  · exact shallow_str _
  · exact shallow_str _
  · exact shallow_str _
  · exact hi e.seq
  · exact shallow_str _
  · exact shallow_str _
  · exact shallow_str _
  · exact shallow_member shallow_str h
  · exact shallow_member shallow_str h
  · have hk := (mem_member h).2
    split at hk
    · cases hk
    · exact Option.some.inj hk ▸ shallow_strs e.keys
  · exact shallow_member shallow_str h
  · exact shallow_member shallow_str h
  · exact shallow_member shallow_str h
  · exact shallow_str _
  · exact shallow_member shallow_str h
  · exact shallow_member InteractionReference.shallow h
  · exact shallow_member shallow_str h
  · exact shallow_member CallerContext.shallow h
  · exact shallow_member AuditPurpose.shallow h
  · exact e.actor.shallow
  · exact shallow_str _

/-- The names a member before `prev` can have, in their order. -/
def field_names : List String :=
  ["v", "id", "ts", "session_id", "seq", "action", "project", "profile"] ++ ["scope"] ++ ["key"] ++ ["keys"] ++
    ["command"] ++ ["provider"] ++ ["ref"] ++ ["outcome"] ++ ["error_kind"] ++ ["interaction"] ++ ["reason"] ++
    ["caller"] ++ ["purpose"] ++ ["actor", "version"]

theorem AuditEvent.names_sublist (e : AuditEvent) : (e.fields.map Prod.fst).Sublist field_names := by
  simp only [fields, field_names, List.map_append]
  repeat' apply List.Sublist.append
  all_goals first | exact names_member _ _ | exact List.Sublist.refl _

theorem AuditEvent.sealable (e : AuditEvent) : Sealable e.fields := by
  have hn : field_names.Nodup := by decide +kernel
  have hp : "prev" ∉ field_names := by decide +kernel
  have hs : "sha" ∉ field_names := by decide +kernel
  exact ⟨plain_members_iff.mpr fun en h => (e.fields_shallow en h).plain,
    hn.sublist e.names_sublist,
    members_nesting_le fun en h => (e.fields_shallow en h).flat,
    fun h => hp (e.names_sublist.subset h),
    fun h => hs (e.names_sublist.subset h)⟩

end Monosecret.Audit
