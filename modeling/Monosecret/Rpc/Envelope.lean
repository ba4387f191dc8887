/-
  Monosecret.Rpc.Envelope — the frames a side builds and how the other side reads them
  (`jsonrpc.rs`: the constructors, `Envelope::to_vec`, `Envelope::parse`; `error.rs`).

  The writer and the reader of JSON are parameters. Of the reader is assumed that it hands the
  value of this one frame back, 127 containers deep at most: serde_json stops there.

  Proved: a frame that was built and written is read back as the same frame exactly when its
  params or result hold no container past the 63rd, empty objects apart. The writer checks the
  numbers the reader checks, but not the nesting. Frames sent one after another arrive in their
  order, each once, however the bytes are cut (`sent_arrive`).
-/

import Monosecret.Lib.JsonText
import Monosecret.Rpc.Frame
import Monosecret.Rpc.StrictValue

namespace Monosecret.Rpc.jsonrpc

open Lib
open Lib.Except (bind_ok bind_unit_ok)

/-! ## Frames -/

def RequestId.new (value : Nat) : Except Error RequestId :=
  if value = 0 ∨ value > MAX_SAFE_INTEGER then .error (.Protocol "request ID is outside the version 1 range") else .ok value

structure Meta where
  deadline_unix_ms : Nat
  parent_request_id : Option RequestId

structure Request where
  id : RequestId
  method : String
  _meta : Meta
  params : Json

structure Notification where
  method : String
  params : Json

inductive Envelope
  | Request (request : Request)
  | Notification (notification : Notification)
  | Response (response : Response)

def validate_method_and_params (method : String) (params : Json) : Except Error Unit :=
  if method.isEmpty ∨ method.utf8ByteSize > 256 then .error (.Protocol "method has an invalid byte length")
  else if !params.is_obj then .error (.Protocol "params must be an object")
  else .ok ()

def Request.new (id : RequestId) (method : String) (deadline_unix_ms : Nat) (params : Json) : Except Error Request := do
  validate_method_and_params method params
  if deadline_unix_ms > MAX_SAFE_INTEGER then throw (.Protocol "deadline exceeds the version 1 safe integer range")
  return { id, method, _meta := { deadline_unix_ms, parent_request_id := none }, params }

def Request.with_parent_request_id (request : Request) (parent_request_id : RequestId) : Request :=
  { request with _meta.parent_request_id := some parent_request_id }

def Notification.new (method : String) (params : Json) : Except Error Notification := do
  validate_method_and_params method params
  return { method, params }

/-! ## Writing -/

/-- `wire_integer::unsigned`. -/
def serialize_unsigned (value : Nat) : Except Failure Json :=
  if value > MAX_SAFE_INTEGER then .error (.Data "JSON integer exceeds the version 1 safe range") else .ok (.int value)

/-- `wire_integer::optional`. -/
def serialize_optional : Option Nat → Except Failure Json
  | none => .ok .null
  | some value => serialize_unsigned value

/-- A member that is left out when there is nothing to write. -/
def skip_none {α : Type} (name : String) (serialize : α → Except Failure Json) : Option α → Except Failure (List (String × Json))
  | none => .ok []
  | some value => (serialize value).map fun value => [(name, value)]

def Meta.serialize (data : Meta) : Except Failure Json := do
  let deadline_unix_ms ← serialize_unsigned data.deadline_unix_ms
  let parent_request_id ← skip_none "parent_request_id" (fun id => .ok (.int id)) data.parent_request_id
  return .obj (("deadline_unix_ms", deadline_unix_ms) :: parent_request_id)

def InteractionReference.serialize (interaction : InteractionReference) : Except Failure Json := do
  let expires_at_unix_ms ← serialize_optional interaction.expires_at_unix_ms
  return .obj [
    ("kind", .str (if interaction.authorization.isSome then "authorization" else "unrecognized")),
    ("id", .str interaction.id),
    ("expires_at_unix_ms", expires_at_unix_ms)]

def kind_text : Option ErrorKind → String
  | some kind => kind.as_str
  | none => "unrecognized"

def ErrorData.serialize (data : ErrorData) : Except Failure Json := do
  let retry_after_ms ← skip_none "retry_after_ms" serialize_unsigned data.retry_after_ms
  let interaction ← skip_none "interaction" InteractionReference.serialize data.interaction
  return .obj (("kind", .str (kind_text data.kind)) :: ("retryable", .bool data.retryable) :: (retry_after_ms ++ interaction))

def RpcError.serialize (error : RpcError) : Except Failure Json := do
  let data ← ErrorData.serialize error.data
  return .obj [("code", .int error.code), ("message", .str error.message), ("data", data)]

def nullable_id : Option RequestId → Json
  | none => .null
  | some id => .int id

def Envelope.serialize : Envelope → Except Failure Json
  | .Request request => do
    let data ← request._meta.serialize
    return .obj [("jsonrpc", .str "2.0"), ("id", .int request.id), ("method", .str request.method), ("_meta", data),
      ("params", request.params)]
  | .Notification notification =>
    .ok (.obj [("jsonrpc", .str "2.0"), ("method", .str notification.method), ("params", notification.params)])
  | .Response (.success id result) => .ok (.obj [("jsonrpc", .str "2.0"), ("id", .int id), ("result", result)])
  | .Response (.error id error) => do
    let error ← RpcError.serialize error
    return .obj [("jsonrpc", .str "2.0"), ("id", nullable_id id), ("error", error)]

/-- What the caller puts into the frame; an error carries no free-form value. -/
def Envelope.payload : Envelope → Option Json
  | .Request request => some request.params
  | .Notification notification => some notification.params
  | .Response (.success _ result) => some result
  | .Response (.error _ _) => none

/-- `wire_integer::validate_value`, with its error. -/
def validate_wire_integers (value : Json) : Except Error Unit :=
  if validate_value value then .ok () else .error (.Protocol "JSON number is outside the version 1 safe range")

/-- `write` is `serde_json::to_vec` of a value. -/
def Envelope.to_vec (write : Json → List UInt8) (envelope : Envelope) : Except Error (List UInt8) := do
  envelope.payload.forM validate_wire_integers
  let value ← envelope.serialize.mapError .ProtocolOwned
  return write value

/-! ## Reading -/

/-- `deny_unknown_fields`. -/
def strict_fields (names : List String) (value : Json) : Option (List (Option Json)) :=
  match value with
  | .obj members => if members.all fun member => names.contains member.1 then struct_fields names value else none
  | _ => struct_fields names value

def Meta.deserialize (value : Json) : Option Meta :=
  match strict_fields ["deadline_unix_ms", "parent_request_id"] value with
  | some [deadline_unix_ms, parent_request_id] => do
    let deadline_unix_ms ← deadline_unix_ms.bind fun value => (u64 value).filter (· ≤ MAX_SAFE_INTEGER)
    let parent_request_id ← defaulted none (nullable request_id) parent_request_id
    some { deadline_unix_ms, parent_request_id }
  | _ => none

def Request.deserialize (value : Json) : Option Request :=
  match strict_fields ["jsonrpc", "id", "method", "_meta", "params"] value with
  | some [jsonrpc, id, method, data, params] => do
    version jsonrpc
    let id ← id.bind request_id
    let method ← method.bind string
    let _meta ← data.bind Meta.deserialize
    let params ← params
    some { id, method, _meta, params }
  | _ => none

def Notification.deserialize (value : Json) : Option Notification :=
  match strict_fields ["jsonrpc", "method", "params"] value with
  | some [jsonrpc, method, params] => do
    version jsonrpc
    let method ← method.bind string
    let params ← params
    some { method, params }
  | _ => none

/-- What serde's derived code answers for a value that is not of the type. -/
def from_value {α : Type} : Option α → Except Error α
  | some value => .ok value
  | none => .error (.ProtocolOwned .Decode)

/-- An error is checked before the response is taken. -/
def validated_response : Response → Except Error Envelope
  | .success id result => .ok (.Response (.success id result))
  | .error id error => do
    error.validate.mapError .Protocol
    return .Response (.error id error)

def Envelope.from_strict_value : Json → Except Error Envelope
  | .obj members => do
    let contains_key := fun key => (members.lookup key).isSome
    if contains_key "method" && contains_key "id" then
      let request ← from_value (Request.deserialize (.obj members))
      validate_method_and_params request.method request.params
      return .Request request
    else if contains_key "method" then
      let notification ← from_value (Notification.deserialize (.obj members))
      validate_method_and_params notification.method notification.params
      return .Notification notification
    else if contains_key "result" || contains_key "error" then
      if contains_key "result" && contains_key "error" then throw (.Protocol "response has both result and error")
      let response ← from_value (Response.deserialize members)
      validated_response response
    else throw (.Protocol "unrecognized JSON-RPC envelope")
  | _ => throw (.Protocol "JSON-RPC payload is not an object")

section

variable (serde_json : List UInt8 → Document × Bool)

def Envelope.parse_classified (bytes : List UInt8) : Except (Error × ErrorKind) Envelope := do
  let value ← parse_strict_value serde_json bytes
  (Envelope.from_strict_value value).mapError fun error => (error, .InvalidRequest)

def Envelope.parse (bytes : List UInt8) : Except Error Envelope := (Envelope.parse_classified serde_json bytes).mapError Prod.fst

end

/-! ## What a side builds -/

/-- The frames the constructors make. The objects of a `Value` are maps, and a code is an `i32`. -/
inductive Built : Envelope → Prop
  | request {value deadline_unix_ms : Nat} {id : RequestId} {method : String} {params : Json} {request : Request} :
    RequestId.new value = .ok id → Request.new id method deadline_unix_ms params = .ok request →
    params.Every Json.KeysDistinct → Built (.Request request)
  | child {value : Nat} {parent : RequestId} {request : Request} :
    Built (.Request request) → RequestId.new value = .ok parent → Built (.Request (request.with_parent_request_id parent))
  | notification {method : String} {params : Json} {notification : Notification} :
    Notification.new method params = .ok notification → params.Every Json.KeysDistinct → Built (.Notification notification)
  | success {value : Nat} {id : RequestId} {result : Json} :
    RequestId.new value = .ok id → result.Every Json.KeysDistinct → Built (.Response (.success id result))
  | error {id : Option RequestId} {error : RpcError} :
    (∀ known, id = some known → ∃ value, RequestId.new value = .ok known) → -2 ^ 31 ≤ error.code ∧ error.code < 2 ^ 31 →
    error.validate = .ok () → Built (.Response (.error id error))

mutual

/-- The answers for a written value, `depth` containers deep at most. -/
def limited : Nat → Json → Document
  | _, .null => .unit
  | _, .bool b => .bool b
  | _, .int n => .int n
  | _, .real r => .real r
  | _, .str s => .str s
  | 0, _ => .malformed
  | depth + 1, .arr items => .seq (limited_items depth items)
  | depth + 1, .obj members => .map (limited_members depth members)

def limited_items : Nat → List Json → SeqAccess
  | _, [] => .done
  | depth, item :: items => .element (limited depth item) (limited_items depth items)

def limited_members : Nat → List (String × Json) → MapAccess
  | _, [] => .done
  | depth, (key, member) :: members => .entry key (limited depth member) (limited_members depth members)

end

/-- The reader hands a written value back, to its own limit. -/
def ReadsBack (write : Json → List UInt8) (serde_json : List UInt8 → Document × Bool) (value : Json) : Prop :=
  serde_json (write value) = (limited 127 value, true)

mutual

theorem limited_whole : ∀ {value : Json} {d : Nat}, value.nesting ≤ d → (limited d value).whole
  | .null, d, _ | .bool _, d, _ | .int _, d, _ | .real _, d, _ | .str _, d, _ => by
    cases d <;> rfl
  | .arr items, d + 1, h => @limited_items_whole items d (Nat.le_of_succ_le_succ h)
  | .obj members, d + 1, h => @limited_members_whole members d (Nat.le_of_succ_le_succ h)

theorem limited_items_whole : ∀ {i : List Json} {d : Nat}, Json.items_nesting i ≤ d →
    (limited_items d i).whole
  | [], _, _ => by simp [limited_items, SeqAccess.whole]
  | item :: i, d, h => by
    have hb := max_le_iff.mp h
    simp [limited_items, SeqAccess.whole, limited_whole hb.1, limited_items_whole hb.2]

theorem limited_members_whole : ∀ {m : List (String × Json)} {d : Nat}, Json.members_nesting m ≤ d →
    (limited_members d m).whole
  | [], _, _ => by simp [limited_members, MapAccess.whole]
  | (key, member) :: m, d, h => by
    have hb := max_le_iff.mp h
    simp [limited_members, MapAccess.whole, limited_whole hb.1, limited_members_whole hb.2]

end

mutual

theorem limited_read : ∀ {value : Json} {d : Nat}, (limited d value).whole → (limited d value).read = value
  | .null, d, _ | .bool _, d, _ | .int _, d, _ | .real _, d, _ | .str _, d, _ => by
    cases d <;> rfl
  | .arr items, d + 1, h => congrArg Json.arr (@limited_items_read items d h)
  | .obj members, d + 1, h => congrArg Json.obj (@limited_members_read members d h)

theorem limited_items_read : ∀ {i : List Json} {d : Nat}, (limited_items d i).whole →
    (limited_items d i).read = i
  | [], _, _ => by simp [limited_items, SeqAccess.read]
  | item :: i, d, h => by
    simp only [limited_items, SeqAccess.whole, Bool.and_eq_true] at h
    simp [limited_items, SeqAccess.read, h.1, limited_read h.1, limited_items_read h.2]

theorem limited_members_read : ∀ {m : List (String × Json)} {d : Nat},
    (limited_members d m).whole → (limited_members d m).read = m
  | [], _, _ => by simp [limited_members, MapAccess.read]
  | (key, member) :: m, d, h => by
    simp only [limited_members, MapAccess.whole, Bool.and_eq_true] at h
    simp [limited_members, MapAccess.read, h.1, limited_read h.1, limited_members_read h.2]

end

mutual

theorem nesting_le_opened : ∀ value : Json, value.nesting ≤ opened value + 1
  | .null | .bool _ | .int _ | .real _ | .str _ => Nat.zero_le _
  | .arr i => Nat.succ_le_succ (items_nesting_le_opened i)
  | .obj [] => Nat.le_refl 1
  | .obj (m :: members) => Nat.succ_le_succ (members_nesting_le_opened (m :: members))

theorem items_nesting_le_opened : ∀ i : List Json, Json.items_nesting i ≤ items_opened i + 1
  | [] => Nat.zero_le _
  | item :: i => by
    have hi := nesting_le_opened item
    have hm := items_nesting_le_opened i
    simp only [Json.items_nesting, items_opened]
    omega

theorem members_nesting_le_opened : ∀ m : List (String × Json),
    Json.members_nesting m ≤ members_opened m + 1
  | [] => Nat.zero_le _
  | (_, member) :: m => by
    have hm := nesting_le_opened member
    have hmm := members_nesting_le_opened m
    simp only [Json.members_nesting, members_opened]
    omega

end

/-! ## What is written reads back -/

/-- A value the reader's rules let through, `depth` containers deep at most. -/
structure Sound (value : Json) (depth : Nat) : Prop where
  keys : value.Every Json.KeysDistinct
  numbers : value.Every InRange
  opened : opened value ≤ depth

def ValidId (id : RequestId) : Prop := id ≠ 0 ∧ id ≤ MAX_SAFE_INTEGER

theorem RequestId.new_ok {value : Nat} {id : RequestId} (h : RequestId.new value = .ok id) : ValidId id := by
  unfold RequestId.new at h
  split_ifs at h with hr
  cases h
  exact ⟨fun he => hr (.inl he), Nat.not_lt.mp fun hl => hr (.inr hl)⟩

theorem u64_int (n : Nat) : u64 (.int n) = some n := by simp [u64]

theorem ValidId.reads {id : RequestId} (h : ValidId id) : request_id (.int id) = some id := by
  simp [request_id, u64_int, Option.filter, h.1, h.2]

@[simp] theorem in_range_nat (n : Nat) : InRange (.int n) ↔ n ≤ MAX_SAFE_INTEGER := by
  rw [InRange, abs_of_nonneg (Int.natCast_nonneg n)]
  exact Int.ofNat_le

@[simp] theorem in_range_null : InRange .null := trivial
@[simp] theorem in_range_bool (b : Bool) : InRange (.bool b) := trivial
@[simp] theorem in_range_str (s : String) : InRange (.str s) := trivial
@[simp] theorem in_range_obj (m : List (String × Json)) : InRange (.obj m) := trivial

variable {value : Json}

theorem serialize_unsigned_ok {n : Nat} (h : serialize_unsigned n = .ok value) :
    value = .int n ∧ n ≤ MAX_SAFE_INTEGER := by
  unfold serialize_unsigned at h
  split_ifs at h with hr
  cases h
  exact ⟨rfl, Nat.not_lt.mp hr⟩

theorem Meta.serialize_ok {d : Meta} (hi : ∀ id ∈ d.parent_request_id, ValidId id)
    (h : d.serialize = .ok value) : Meta.deserialize value = some d ∧ Sound value 1 := by
  obtain ⟨dd, parent⟩ := d
  obtain ⟨w, hw, h⟩ := bind_ok h
  obtain ⟨rfl, hd⟩ := serialize_unsigned_ok hw
  replace hd : dd ≤ MAX_SAFE_INTEGER := hd
  cases parent with
  | none =>
    cases h
    refine ⟨?_, ?_, ?_, ?_⟩
    · simp [Meta.deserialize, strict_fields, struct_fields, u64_int, Option.filter, hd, defaulted, List.lookup_cons]
    · simp [Json.Every, Json.KeysDistinct, Json.EveryMember]
    · simp [Json.Every, Json.EveryMember, hd]
    · simp [opened, members_opened]
  | some id =>
    cases h
    have hv := hi id rfl
    refine ⟨?_, ?_, ?_, ?_⟩
    · simp [Meta.deserialize, strict_fields, struct_fields, u64_int, Option.filter, hd, defaulted, nullable,
        hv.reads, List.lookup_cons]
    · simp [Json.Every, Json.KeysDistinct, Json.EveryMember]
    · simp [Json.Every, Json.EveryMember, hd, hv.2]
    · simp [opened, members_opened]

theorem serialize_optional_ok {n : Option Nat} (h : serialize_optional n = .ok value) :
    optional_integer value = some n ∧ Sound value 0 := by
  cases n with
  | none =>
    cases h
    exact ⟨rfl, trivial, trivial, Nat.le_refl 0⟩
  | some n =>
    obtain ⟨rfl, hn⟩ := serialize_unsigned_ok h
    refine ⟨?_, trivial, (in_range_nat n).mpr hn, Nat.le_refl 0⟩
    simp [optional_integer, nullable, u64_int, Option.filter, hn]

theorem InteractionReference.serialize_ok {i : InteractionReference}
    (h : InteractionReference.serialize i = .ok value) :
    InteractionReference.deserialize value = some i ∧ Sound value 1 := by
  obtain ⟨k, id, e⟩ := i
  obtain ⟨w, hw, h⟩ := bind_ok h
  obtain ⟨hr, hs⟩ := serialize_optional_ok hw
  cases h
  refine ⟨?_, ?_, ?_, ?_⟩
  · cases k <;> simp [InteractionReference.deserialize, struct_fields, List.lookup_cons, string, hr]
  · simp [Json.Every, Json.KeysDistinct, Json.EveryMember, hs.keys]
  · simp [Json.Every, Json.EveryMember, hs.numbers]
  · simpa [opened, members_opened] using hs.opened

theorem from_wire_kind_text (kind : Option ErrorKind) : ErrorKind.from_wire (kind_text kind) = kind := by
  cases kind with
  | none => decide
  | some kind => cases kind <;> decide

theorem skip_none_ok {α : Type} {n : String} {s : α → Except Failure Json} {value : Option α}
    {members : List (String × Json)} (h : skip_none n s value = .ok members) :
    (value = none ∧ members = []) ∨ ∃ a j, value = some a ∧ s a = .ok j ∧ members = [(n, j)] := by
  cases value with
  | none =>
    cases h
    exact .inl ⟨rfl, rfl⟩
  | some a =>
    have hm : (s a).map (fun j => [(n, j)]) = .ok members := h
    cases hj : s a with
    | error f => rw [hj] at hm; cases hm
    | ok j =>
      rw [hj] at hm
      cases hm
      exact .inr ⟨a, j, rfl, hj, rfl⟩

theorem nullable_some {α : Type} {d : Json → Option α} (hn : d .null = none) {a : α}
    (h : d value = some a) : nullable d value = some (some a) := by
  cases value with
  | null => rw [hn] at h; cases h
  | _ => exact congrArg (Option.map some) h

theorem ErrorData.serialize_ok {d : ErrorData} (h : ErrorData.serialize d = .ok value) :
    ErrorData.deserialize value = some d ∧ Sound value 2 := by
  obtain ⟨k, rt, r, i⟩ := d
  obtain ⟨rr, ht, h⟩ := bind_ok h
  obtain ⟨rf, hf, h⟩ := bind_ok h
  cases h
  have hk := from_wire_kind_text k
  have hi : ∀ n json, serialize_unsigned n = .ok json → optional_integer json = some (some n) ∧ Sound json 0 :=
    fun n json hj => serialize_optional_ok (n := some n) hj
  rcases skip_none_ok ht with ⟨hn, rfl⟩ | ⟨n, json, hn, hj, rfl⟩ <;>
    rcases skip_none_ok hf with ⟨hr, rfl⟩ | ⟨w, j', hr, hj', rfl⟩ <;>
    cases hn <;> cases hr
  · refine ⟨?_, ?_, ?_, ?_⟩
    · simp [ErrorData.deserialize, struct_fields, List.lookup_cons, string, boolean, defaulted, hk]
    · simp [Json.Every, Json.KeysDistinct, Json.EveryMember]
    · simp [Json.Every, Json.EveryMember]
    · simp [opened, members_opened]
  · obtain ⟨hd, hs⟩ := InteractionReference.serialize_ok hj'
    have hl := nullable_some (by rfl) hd
    refine ⟨?_, ?_, ?_, ?_⟩
    · simp [ErrorData.deserialize, struct_fields, List.lookup_cons, string, boolean, defaulted, hk, hl]
    · simp [Json.Every, Json.KeysDistinct, Json.EveryMember, hs.keys]
    · simp [Json.Every, Json.EveryMember, hs.numbers]
    · simpa [opened, members_opened] using hs.opened
  · obtain ⟨hd, hs⟩ := hi n json hj
    refine ⟨?_, ?_, ?_, ?_⟩
    · simp [ErrorData.deserialize, struct_fields, List.lookup_cons, string, boolean, defaulted, hk, hd]
    · simp [Json.Every, Json.KeysDistinct, Json.EveryMember, hs.keys]
    · simp [Json.Every, Json.EveryMember, hs.numbers]
    · simpa [opened, members_opened] using hs.opened.trans (Nat.zero_le 1)
  · obtain ⟨hd, hs⟩ := hi n json hj
    obtain ⟨hr', hs'⟩ := InteractionReference.serialize_ok hj'
    have hl := nullable_some (by rfl) hr'
    refine ⟨?_, ?_, ?_, ?_⟩
    · simp [ErrorData.deserialize, struct_fields, List.lookup_cons, string, boolean, defaulted, hk, hd, hl]
    · simp [Json.Every, Json.KeysDistinct, Json.EveryMember, hs.keys, hs'.keys]
    · simp [Json.Every, Json.EveryMember, hs.numbers, hs'.numbers]
    · simpa [opened, members_opened] using ⟨hs.opened.trans (Nat.zero_le 1), hs'.opened⟩

theorem RpcError.serialize_ok {error : RpcError} (hc : -2 ^ 31 ≤ error.code ∧ error.code < 2 ^ 31)
    (h : RpcError.serialize error = .ok value) : RpcError.deserialize value = some error ∧ Sound value 3 := by
  obtain ⟨code, m, d⟩ := error
  obtain ⟨w, hw, h⟩ := bind_ok h
  obtain ⟨hr, hs⟩ := ErrorData.serialize_ok hw
  cases h
  have hi32 : i32 (.int code) = some code := if_pos hc
  have hn : InRange (.int code) := by
    rw [InRange, abs_le, MAX_SAFE_INTEGER]
    simp only at hc
    omega
  refine ⟨?_, ?_, ?_, ?_⟩
  · simp [RpcError.deserialize, struct_fields, List.lookup_cons, string, hi32, hr]
  · simp [Json.Every, Json.KeysDistinct, Json.EveryMember, hs.keys]
  · simp [Json.Every, Json.EveryMember, hn, hs.numbers]
  · have ho := hs.opened
    simp only [opened, members_opened, List.isEmpty_cons, Bool.false_eq_true, if_false]
    omega

/-! ## Round trips -/

/-- What the constructors have checked. -/
def Checked : Envelope → Prop
  | .Request request => ValidId request.id ∧ (∀ id ∈ request._meta.parent_request_id, ValidId id) ∧
      validate_method_and_params request.method request.params = .ok () ∧ request.params.Every Json.KeysDistinct
  | .Notification notification => validate_method_and_params notification.method notification.params = .ok () ∧
      notification.params.Every Json.KeysDistinct
  | .Response (.success id result) => ValidId id ∧ result.Every Json.KeysDistinct
  | .Response (.error id error) => (∀ known ∈ id, ValidId known) ∧ (-2 ^ 31 ≤ error.code ∧ error.code < 2 ^ 31) ∧
      error.validate = .ok ()

variable {envelope : Envelope}

theorem Built.checked (h : Built envelope) : Checked envelope := by
  induction h with
  | request hi hn hk =>
    obtain ⟨hv, hn⟩ := bind_unit_ok hn
    simp only at hn
    split_ifs at hn
    · cases hn
    · cases hn
      exact ⟨RequestId.new_ok hi, nofun, hv, hk⟩
  | child _ hp ih =>
    obtain ⟨hi, -, hv, hk⟩ := ih
    exact ⟨hi, fun id hm => Option.some.inj hm ▸ RequestId.new_ok hp, hv, hk⟩
  | notification hn hk =>
    obtain ⟨hv, hn⟩ := bind_unit_ok hn
    cases hn
    exact ⟨hv, hk⟩
  | success hi hk => exact ⟨RequestId.new_ok hi, hk⟩
  | error hi hc hv =>
    refine ⟨fun known hkn => ?_, hc, hv⟩
    obtain ⟨value, hva⟩ := hi known hkn
    exact RequestId.new_ok hva

theorem version_written : version (some (.str "2.0")) = some () := rfl

theorem nullable_id_reads {id : Option RequestId} (h : ∀ k ∈ id, ValidId k) :
    nullable request_id (nullable_id id) = some id := by
  cases id with
  | none => rfl
  | some k => exact nullable_some (by rfl) (h k rfl).reads

theorem serialize_reads (hc : Checked envelope) (h : envelope.serialize = .ok value) :
    Envelope.from_strict_value value = .ok envelope := by
  cases envelope with
  | Request rq =>
    obtain ⟨hi, hp, hv, -⟩ := hc
    obtain ⟨d, hd, h⟩ := bind_ok h
    obtain ⟨hr, -⟩ := Meta.serialize_ok hp hd
    cases h
    simp [Envelope.from_strict_value, Request.deserialize, strict_fields, struct_fields, List.lookup_cons, version_written,
      hi.reads, string, hr, from_value, hv, bind, Except.bind]
    rfl
  | Notification n =>
    obtain ⟨hv, -⟩ := hc
    cases h
    simp [Envelope.from_strict_value, Notification.deserialize, strict_fields, struct_fields, List.lookup_cons, version_written,
      string, from_value, hv, bind, Except.bind]
    rfl
  | Response r =>
    cases r with
    | success id rs =>
      obtain ⟨hi, -⟩ := hc
      cases h
      simp [Envelope.from_strict_value, Response.deserialize, SuccessResponse.deserialize, List.lookup_cons, version_written,
        hi.reads, from_value, bind, Except.bind]
      rfl
    | error id error =>
      obtain ⟨hi, hcd, hv⟩ := hc
      obtain ⟨w, hw, h⟩ := bind_ok h
      obtain ⟨hr, -⟩ := RpcError.serialize_ok hcd hw
      cases h
      simp [Envelope.from_strict_value, Response.deserialize, SuccessResponse.deserialize, ErrorResponse.deserialize,
        List.lookup_cons, version_written, nullable_id_reads hi, hr, from_value, validated_response, hv, bind,
        Except.bind]
      rfl

/-- The frame around the payload obeys the rules by itself. -/
theorem serialize_sound (hc : Checked envelope) (h : envelope.serialize = .ok value) :
    value.Every Json.KeysDistinct ∧ ((∀ p ∈ envelope.payload, p.Every InRange) → value.Every InRange) ∧
      (opened value ≤ MAX_NESTING ↔ ∀ p ∈ envelope.payload, opened p < MAX_NESTING) := by
  cases envelope with
  | Request rq =>
    obtain ⟨hi, hp, -, hk⟩ := hc
    obtain ⟨d, hd, h⟩ := bind_ok h
    obtain ⟨-, hs⟩ := Meta.serialize_ok hp hd
    cases h
    have ho := hs.opened
    refine ⟨?_, fun hr => ?_, ?_⟩
    · simp [Json.Every, Json.KeysDistinct, Json.EveryMember, hs.keys, hk]
    · simp [Json.Every, Json.EveryMember, hi.2, hs.numbers, hr _ rfl]
    · simp only [opened, members_opened, Envelope.payload, MAX_NESTING, List.isEmpty_cons, Bool.false_eq_true, if_false,
        Option.mem_def, Option.some.injEq, forall_eq']
      omega
  | Notification n =>
    cases h
    refine ⟨?_, fun hr => ?_, ?_⟩
    · simp [Json.Every, Json.KeysDistinct, Json.EveryMember, hc.2]
    · simp [Json.Every, Json.EveryMember, hr _ rfl]
    · simp only [opened, members_opened, Envelope.payload, MAX_NESTING, List.isEmpty_cons, Bool.false_eq_true, if_false,
        Option.mem_def, Option.some.injEq, forall_eq']
      omega
  | Response r =>
    cases r with
    | success id rs =>
      cases h
      refine ⟨?_, fun hr => ?_, ?_⟩
      · simp [Json.Every, Json.KeysDistinct, Json.EveryMember, hc.2]
      · simp [Json.Every, Json.EveryMember, hc.1.2, hr _ rfl]
      · simp only [opened, members_opened, Envelope.payload, MAX_NESTING, List.isEmpty_cons, Bool.false_eq_true, if_false,
        Option.mem_def, Option.some.injEq, forall_eq']
        omega
    | error id error =>
      obtain ⟨hi, hcd, -⟩ := hc
      obtain ⟨w, hw, h⟩ := bind_ok h
      obtain ⟨-, hs⟩ := RpcError.serialize_ok hcd hw
      cases h
      have ho := hs.opened
      have hn : (nullable_id id).Every Json.KeysDistinct ∧ (nullable_id id).Every InRange ∧ opened (nullable_id id) = 0 := by
        cases id with
        | none => exact ⟨trivial, trivial, rfl⟩
        | some known => exact ⟨trivial, (in_range_nat known).mpr (hi known rfl).2, rfl⟩
      refine ⟨?_, fun _ => ?_, ?_⟩
      · simp [Json.Every, Json.KeysDistinct, Json.EveryMember, hs.keys, hn.1]
      · simp [Json.Every, Json.EveryMember, hs.numbers, hn.2.1]
      · simp [opened, members_opened, hn.2.2, Envelope.payload, MAX_NESTING]
        omega


theorem to_vec_ok {write : Json → List UInt8} {b : List UInt8} (h : envelope.to_vec write = .ok b) :
    (∀ p ∈ envelope.payload, p.Every InRange) ∧
      ∃ value, envelope.serialize = .ok value ∧ b = write value := by
  obtain ⟨hv, h⟩ := bind_unit_ok h
  obtain ⟨value, hva, h⟩ := bind_ok h
  cases h
  refine ⟨fun p hp => ?_, value, Except.mapError_ok.mp hva, rfl⟩
  have hc := Except.option_forM_ok hv hp
  unfold validate_wire_integers at hc
  split_ifs at hc with hr
  exact (validate_value_iff p).mp hr

section

variable {write : Json → List UInt8} {serde_json : List UInt8 → Document × Bool} {value : Json}

theorem written_shallow (hr : ReadsBack write serde_json value) (hk : value.Every Json.KeysDistinct)
    (hg : value.Every InRange) (ho : opened value ≤ MAX_NESTING) :
    parse_strict_value serde_json (write value) = .ok value := by
  have hn : value.nesting ≤ 127 := (nesting_le_opened value).trans ((Nat.succ_le_succ ho).trans (by decide))
  have hw := limited_whole hn
  have hf : WellFormed serde_json (write value) := by
    rw [WellFormed, hr]
    exact ⟨hw, rfl⟩
  have hv : (serde_json (write value)).1.read = value := by rw [hr]; exact limited_read hw
  have ha : Admitted (serde_json (write value)).1.read := by rw [hv]; exact ⟨hk, ho⟩
  rw [parse_well_formed ha hf, hv, if_pos ((validate_value_iff value).mpr hg)]

theorem written_deep (hr : ReadsBack write serde_json value) (ho : ¬ opened value ≤ MAX_NESTING) :
    ∃ error k, parse_strict_value serde_json (write value) = .error (error, k) := by
  by_cases ha : Admitted (serde_json (write value)).1.read
  · have hf : ¬ WellFormed serde_json (write value) := by
      intro hf
      have hw := hf.1
      rw [hr] at ha hw
      rw [limited_read hw] at ha
      exact ho ha.2
    obtain ⟨error, he⟩ := parse_malformed ha hf
    exact ⟨error, _, he⟩
  · obtain ⟨error, he⟩ := parse_refused ha
    exact ⟨error, _, he⟩

end

/-- A frame that was written is read back, unless it is nested too deep. -/
theorem round_trip_iff {write : Json → List UInt8} {serde_json : List UInt8 → Document × Bool} {envelope : Envelope}
    {bytes : List UInt8} (hbuilt : Built envelope) (hwritten : envelope.to_vec write = .ok bytes)
    (hround : ∀ value, envelope.serialize = .ok value → ReadsBack write serde_json value) :
    Envelope.parse serde_json bytes = .ok envelope ↔ ∀ payload ∈ envelope.payload, opened payload < MAX_NESTING := by
  obtain ⟨hr, value, hv, rfl⟩ := to_vec_ok hwritten
  obtain ⟨hk, hn, ho⟩ := serialize_sound hbuilt.checked hv
  rw [← ho, Envelope.parse, Envelope.parse_classified]
  by_cases hs : opened value ≤ MAX_NESTING
  · rw [written_shallow (hround value hv) hk (hn hr) hs]
    refine iff_of_true ?_ hs
    have hd := serialize_reads hbuilt.checked hv
    simp only [bind, Except.bind, hd]
    rfl
  · obtain ⟨error, k, he⟩ := written_deep (hround value hv) hs
    rw [he]
    exact iff_of_false nofun hs

/-! A writer and a reader of compact JSON text. -/

def from_text (bytes : List UInt8) : Document × Bool :=
  match JsonText.of_bytes bytes with
  | some value => (limited 127 value, true)
  | none => (.malformed, false)

theorem reads_text (h : JsonText.Plain value) : ReadsBack JsonText.to_bytes from_text value := by
  rw [ReadsBack, from_text, JsonText.of_bytes_to_bytes h]

def lookup_request : Request :=
  { id := 7, method := "provider.get", _meta := { deadline_unix_ms := 1000, parent_request_id := some 3 },
    params := .obj [("name", .str "DB")] }

theorem lookup_request_built : Built (.Request lookup_request) := by
  have hb : Built (.Request { lookup_request with _meta := { deadline_unix_ms := 1000, parent_request_id := none } }) := by
    refine @Built.request 7 1000 7 "provider.get" (.obj [("name", .str "DB")]) _ rfl rfl ?_
    simp [Json.Every, Json.KeysDistinct, Json.EveryMember]
  exact @Built.child 3 3 _ hb rfl

def lookup_value : Json :=
  .obj [("jsonrpc", .str "2.0"), ("id", .int 7), ("method", .str "provider.get"),
    ("_meta", .obj [("deadline_unix_ms", .int 1000), ("parent_request_id", .int 3)]),
    ("params", .obj [("name", .str "DB")])]

theorem lookup_value_plain : JsonText.Plain lookup_value := by
  simp [lookup_value, JsonText.Plain, JsonText.PlainMembers]

theorem lookup_round_trips :
    Envelope.parse from_text (JsonText.to_bytes lookup_value) = .ok (.Request lookup_request) := by
  refine (@round_trip_iff JsonText.to_bytes from_text _ _ lookup_request_built rfl fun value hv => ?_).mpr ?_
  · cases hv
    exact reads_text lookup_value_plain
  · intro p hp
    cases hp
    decide

/-- Arrays in arrays. -/
def nested : Nat → Json
  | 0 => .arr []
  | n + 1 => .arr [nested n]

theorem nested_plain : ∀ n, JsonText.Plain (nested n)
  | 0 => trivial
  | n + 1 => ⟨nested_plain n, trivial⟩

theorem nested_opened : ∀ n, opened (nested n) = n + 1
  | 0 => rfl
  | n + 1 => by simp [nested, opened, items_opened, nested_opened n]

theorem nested_every {P : Json → Prop} (h : ∀ i, P (.arr i)) : ∀ n, (nested n).Every P
  | 0 => ⟨h _, trivial⟩
  | n + 1 => ⟨h _, nested_every h n, trivial⟩

def deep_notification : Notification := { method := "audit.note", params := .obj [("a", nested 63)] }

def deep_value : Json :=
  .obj [("jsonrpc", .str "2.0"), ("method", .str "audit.note"), ("params", .obj [("a", nested 63)])]

/-- 63 arrays in params are written, and the reader refuses its own side's frame. -/
theorem deep_params_refused : Built (.Notification deep_notification) ∧
    (Envelope.Notification deep_notification).to_vec JsonText.to_bytes = .ok (JsonText.to_bytes deep_value) ∧
    ReadsBack JsonText.to_bytes from_text deep_value ∧
    ∀ envelope, Envelope.parse from_text (JsonText.to_bytes deep_value) ≠ .ok envelope := by
  have hk : (nested 63).Every Json.KeysDistinct := nested_every (fun _ => trivial) 63
  have hr : (nested 63).Every InRange := nested_every (fun _ => trivial) 63
  have hv : validate_value (.obj [("a", nested 63)]) :=
    (validate_value_iff _).mpr ⟨trivial, hr, trivial⟩
  have hp : JsonText.Plain deep_value := by
    simp [deep_value, JsonText.Plain, JsonText.PlainMembers, nested_plain]
  have hd : ¬ opened deep_value ≤ MAX_NESTING := by
    simp [deep_value, opened, members_opened, nested_opened, MAX_NESTING]
  have hn : ∀ m, Notification.new "audit.note" (.obj m) = .ok { method := "audit.note", params := .obj m } :=
    fun _ => rfl
  refine ⟨?_, ?_, reads_text hp, fun envelope hpr => ?_⟩
  · refine .notification (hn _) ?_
    simp [Json.Every, Json.KeysDistinct, Json.EveryMember, hk]
  · have hw : validate_wire_integers (.obj [("a", nested 63)]) = .ok () := by rw [validate_wire_integers, if_pos hv]
    have hy : (Envelope.Notification deep_notification).payload.forM validate_wire_integers = .ok () := hw
    rw [Envelope.to_vec, hy]
    rfl
  · obtain ⟨error, k, he⟩ := written_deep (reads_text hp) hd
    rw [Envelope.parse, Envelope.parse_classified, he] at hpr
    cases hpr

/-! ## Frames one after another -/

/-- An envelope sent under the limit of the moment, after what was written before. -/
def send (write : Json → List UInt8) (written : List UInt8) (frame : Envelope × Nat) : Except Error (List UInt8) := do
  let payload ← frame.1.to_vec write
  (Frame.write_frame written payload frame.2).mapError fun | .Protocol message => .Protocol message

/-- One payload for each frame, read back as it was sent unless it is nested too deep. -/
def Arrive (serde_json : List UInt8 → Document × Bool) : List (List UInt8) → List (Envelope × Nat) → Prop :=
  List.Forall₂ fun payload frame =>
    Envelope.parse serde_json payload = .ok frame.1 ↔ ∀ value ∈ frame.1.payload, opened value < MAX_NESTING

section

variable {write : Json → List UInt8} {serde_json : List UInt8 → Document × Bool} {limits : Nat → Nat}
  {sent : List (Envelope × Nat)}

/-- By induction on what is sent, over what was written before and the frames read before. -/
theorem sent_delivered {written stream : List UInt8} {n : Nat} (hb : ∀ frame ∈ sent, Built frame.1)
    (hr : ∀ frame ∈ sent, ∀ value, frame.1.serialize = .ok value → ReadsBack write serde_json value)
    (hs : sent.foldlM (send write) written = .ok stream) (hv : ∀ i, Frame.validate_limit (limits i) = .ok ())
    (hl : ∀ i frame, sent[i]? = some frame → frame.2 ≤ limits (n + i)) :
    ∃ rest payloads, stream = written ++ rest ∧ Frame.deliver limits n rest = (payloads, none) ∧
      Arrive serde_json payloads sent := by
  induction sent generalizing written n with
  | nil =>
    cases hs
    refine ⟨[], [], (List.append_nil _).symm, Frame.deliver_ended ?_, .nil⟩
    simp [Frame.read_frame, Frame.FrameDecoder.new, hv, Frame.read_loop, Frame.FrameDecoder.finish_eof, bind, Except.bind,
      pure, Except.pure, Except.map]
  | cons frame sent ih =>
    rw [List.foldlM_cons] at hs
    obtain ⟨next, hn, hs⟩ := bind_ok hs
    obtain ⟨payload, hp, hn⟩ := bind_ok hn
    obtain ⟨encoded, he, hn⟩ := bind_ok (Except.mapError_ok.mp hn)
    cases hn
    obtain ⟨rest, payloads, rfl, hd, ha⟩ := @ih _ (n + 1) (fun f hf => hb f (.tail _ hf)) (fun f hf => hr f (.tail _ hf)) hs
      fun i f hf => Nat.succ_add_eq_add_succ n i ▸ hl (i + 1) f hf
    refine ⟨encoded ++ rest, payload :: payloads, List.append_assoc .., ?_, .cons ?_ ha⟩
    · have hf : frame.2 ≤ limits n := hl 0 frame rfl
      rw [Frame.deliver_encoded he hf (hv n), hd]
      rfl
    · exact round_trip_iff (hb frame (.head _)) hp (hr frame (.head _))

/-- However the bytes of what one side sent are cut and whichever reads are dropped, the reader
    of the other side gets the same frames in this order, each once, and then the end. -/
theorem sent_arrive {source : List Frame.Arrival} (hbuilt : ∀ frame ∈ sent, Built frame.1)
    (hround : ∀ frame ∈ sent, ∀ value, frame.1.serialize = .ok value → ReadsBack write serde_json value)
    (hsent : sent.foldlM (send write) [] = .ok (source.flatMap Frame.Arrival.content))
    (hlimits : ∀ i, Frame.validate_limit (limits i) = .ok ())
    (hfits : ∀ i frame, sent[i]? = some frame → frame.2 ≤ limits i) :
    ∃ payloads, (Frame.AsyncFrameReader.new source).deliver limits 0 = (payloads, none) ∧
      Arrive serde_json payloads sent := by
  obtain ⟨rest, payloads, hs, hd, ha⟩ := @sent_delivered _ _ _ _ _ _ 0 hbuilt hround hsent hlimits (by simpa using hfits)
  rw [Frame.deliver_eq, hs]
  exact ⟨payloads, hd, ha⟩

end

/-- A request sent twice; the read that waits for the end of its first line is dropped. -/
theorem lookups_arrive : ∃ source payloads, .pending true ∈ source ∧
    (Frame.AsyncFrameReader.new source).deliver (fun _ => 1024) 0 = (payloads, none) ∧
    Arrive from_text payloads (List.replicate 2 (.Request lookup_request, 1024)) := by
  have ha : Frame.Acceptable 1024 (JsonText.to_bytes lookup_value) := by constructor <;> decide +kernel
  have hc : Frame.CR ∉ JsonText.to_bytes lookup_value := by decide +kernel
  have hw : (Envelope.Request lookup_request).to_vec JsonText.to_bytes = .ok (JsonText.to_bytes lookup_value) := rfl
  generalize JsonText.to_bytes lookup_value = line at ha hc hw
  obtain ⟨first, more, rfl⟩ := List.exists_cons_of_ne_nil ha.nonempty
  obtain ⟨_, hf⟩ := Frame.encode_ok.mpr ⟨ha, hc⟩
  obtain ⟨⟨⟩, hv, -⟩ := bind_ok hf
  obtain ⟨payloads, hd, hp⟩ := @sent_arrive JsonText.to_bytes from_text (fun _ => 1024)
    (List.replicate 2 (.Request lookup_request, 1024))
    [.bytes first more, .pending true, .bytes Frame.LF (first :: more ++ [Frame.LF])]
    (fun f hf => List.eq_of_mem_replicate hf ▸ lookup_request_built)
    (fun f hf value hs => by
      rw [List.eq_of_mem_replicate hf] at hs
      cases hs
      exact reads_text lookup_value_plain)
    (by simp [send, hw, Frame.write_frame, Frame.encode, hv, List.replicate, Frame.Arrival.content, bind, Except.bind, pure,
      Except.pure, Except.mapError])
    (fun _ => rfl) (fun i f hf => by rw [List.eq_of_mem_replicate (List.mem_of_getElem? hf)])
  exact ⟨_, payloads, .tail _ (.head _), hd, hp⟩

end Monosecret.Rpc.jsonrpc
