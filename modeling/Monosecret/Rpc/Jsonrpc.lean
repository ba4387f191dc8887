/-
  Monosecret.Rpc.Jsonrpc — how the Rust client reads a response (`jsonrpc.rs`, `error.rs`,
  `protocol.rs`, `wire_integer.rs`).

  The input is the tree of a frame that is JSON. `Envelope.response` is `Envelope::parse` where
  it yields a response; of the frames it classifies otherwise only that is kept. A struct is
  decoded the way serde's derived code does it: from an object, unknown members ignored, or from
  an array with one element for each field.
-/

import Mathlib.Algebra.Order.Ring.Rat
import Monosecret.Lib.Json
import Monosecret.Rpc.Wire

namespace Monosecret.Rpc

open Lib

/-! ## Strict values -/

def MAX_NESTING : Nat := 64
def MAX_SAFE_INTEGER : Nat := 9007199254740991

mutual

/-- `StrictValueVisitor` on one value, with the visitor's depth. -/
def visit_any : Json → Nat → Bool
  | .arr items, depth => visit_seq items depth
  | .obj members, depth => visit_map members [] depth
  | _, _ => true

/-- `child` is asked for a seed before it is known whether another element follows. -/
def visit_seq : List Json → Nat → Bool
  | [], depth => depth < MAX_NESTING
  | item :: items, depth => depth < MAX_NESTING && visit_any item (depth + 1) && visit_seq items depth

/-- Here only after a key was read. -/
def visit_map : List (String × Json) → List String → Nat → Bool
  | [], _, _ => true
  | (key, value) :: members, seen, depth =>
    !seen.contains key && depth < MAX_NESTING && visit_any value (depth + 1) && visit_map members (key :: seen) depth

end

mutual

/-- `wire_integer::validate_value`. An integer within the bound is a double exactly, so the
    third test adds nothing to the first two. -/
def validate_value : Json → Bool
  | .int n => !decide (n > MAX_SAFE_INTEGER) && !decide (n < -MAX_SAFE_INTEGER)
  | .real r => !decide (|r| > MAX_SAFE_INTEGER)
  | .arr items => validate_values items
  | .obj members => validate_members members
  | _ => true

def validate_values : List Json → Bool
  | [] => true
  | item :: items => validate_value item && validate_values items

def validate_members : List (String × Json) → Bool
  | [] => true
  | (_, value) :: members => validate_value value && validate_members members

end

/-! ## Decoding -/

/-- The fields of a struct, in order; none of the structs here ends in a field with a default. -/
def struct_fields (names : List String) : Json → Option (List (Option Json))
  | .obj members => some (names.map fun name => members.lookup name)
  | .arr items => if items.length = names.length then some (items.map some) else none
  | _ => none

def string : Json → Option String
  | .str s => some s
  | _ => none

def boolean : Json → Option Bool
  | .bool b => some b
  | _ => none

def u64 : Json → Option Nat
  | .int n => if 0 ≤ n then some n.toNat else none
  | _ => none

def i32 : Json → Option Int
  | .int n => if -2 ^ 31 ≤ n ∧ n < 2 ^ 31 then some n else none
  | _ => none

def nullable {α : Type} (decode : Json → Option α) : Json → Option (Option α)
  | .null => some none
  | value => (decode value).map some

/-- A field that may be left out. -/
def defaulted {α : Type} (default : α) (decode : Json → Option α) : Option Json → Option α
  | none => some default
  | some value => decode value

def list {α : Type} (decode : Json → Option α) : Json → Option (List α)
  | .arr items => items.mapM decode
  | _ => none

/-- `wire_integer::optional`. -/
def optional_integer (value : Json) : Option (Option Nat) :=
  (nullable u64 value).filter fun n => n.all (· ≤ MAX_SAFE_INTEGER)

def request_id (value : Json) : Option RequestId := (u64 value).filter fun id => id != 0 && id ≤ MAX_SAFE_INTEGER

/-! ## Errors -/

namespace ErrorKind

def DEFINED : List ErrorKind :=
  [.ParseError, .InvalidRequest, .MethodNotFound, .InvalidParams, .Internal, .UnsupportedVersion, .CapabilityRequired,
    .DeadlineExceeded, .Cancelled, .Unavailable, .PermissionDenied, .InteractionRequired, .Conflict, .OperationFailed,
    .MessageTooLarge, .RepresentationMismatch]

def as_str : ErrorKind → String
  | .ParseError => "parse_error"
  | .InvalidRequest => "invalid_request"
  | .MethodNotFound => "method_not_found"
  | .InvalidParams => "invalid_params"
  | .Internal => "internal"
  | .UnsupportedVersion => "unsupported_version"
  | .CapabilityRequired => "capability_required"
  | .DeadlineExceeded => "deadline_exceeded"
  | .Cancelled => "cancelled"
  | .Unavailable => "unavailable"
  | .PermissionDenied => "permission_denied"
  | .InteractionRequired => "interaction_required"
  | .Conflict => "conflict"
  | .OperationFailed => "operation_failed"
  | .MessageTooLarge => "message_too_large"
  | .RepresentationMismatch => "representation_mismatch"

def code : ErrorKind → Int
  | .ParseError => -32700
  | .InvalidRequest => -32600
  | .MethodNotFound => -32601
  | .InvalidParams => -32602
  | .Internal => -32603
  | .UnsupportedVersion => -32000
  | .CapabilityRequired => -32001
  | .DeadlineExceeded => -32002
  | .Cancelled => -32003
  | .Unavailable => -32004
  | .PermissionDenied => -32005
  | .InteractionRequired => -32006
  | .Conflict => -32007
  | .OperationFailed => -32008
  | .MessageTooLarge => -32009
  | .RepresentationMismatch => -32010

/-- None is `Unrecognized`. -/
def from_wire (kind : String) : Option ErrorKind := DEFINED.find? fun defined => defined.as_str == kind

def from_code (code : Int) : Option ErrorKind := DEFINED.find? fun defined => defined.code == code

end ErrorKind

structure InteractionReference where
  /-- None is `Unrecognized`, true `Authorization`. -/
  authorization : Option Unit
  id : String
  expires_at_unix_ms : Option Nat

def InteractionReference.deserialize (value : Json) : Option InteractionReference :=
  match struct_fields ["kind", "id", "expires_at_unix_ms"] value with
  | some [kind, id, expires_at_unix_ms] => do
    let kind ← kind.bind string
    let id ← id.bind string
    let expires_at_unix_ms ← expires_at_unix_ms.bind optional_integer
    some { authorization := if kind = "authorization" then some () else none, id, expires_at_unix_ms }
  | _ => none

def InteractionReference.validate (interaction : InteractionReference) : Except String Unit :=
  if interaction.id.isEmpty ∨ interaction.id.utf8ByteSize > 128 ∨
      ¬ interaction.id.all fun c => c.isAlphanum || c == '-' || c == '_' || c == '.' then
    .error "interaction id has an invalid format"
  else if interaction.expires_at_unix_ms = some 0 then .error "interaction expiry must be positive"
  else .ok ()

structure ErrorData where
  kind : Option ErrorKind
  retryable : Bool
  retry_after_ms : Option Nat
  interaction : Option InteractionReference

def ErrorData.deserialize (value : Json) : Option ErrorData :=
  match struct_fields ["kind", "retryable", "retry_after_ms", "interaction"] value with
  | some [kind, retryable, retry_after_ms, interaction] => do
    let kind ← kind.bind string
    let retryable ← retryable.bind boolean
    let retry_after_ms ← defaulted none optional_integer retry_after_ms
    let interaction ← defaulted none (nullable InteractionReference.deserialize) interaction
    some { kind := ErrorKind.from_wire kind, retryable, retry_after_ms, interaction }
  | _ => none

structure RpcError where
  code : Int
  message : String
  data : ErrorData

def RpcError.deserialize (value : Json) : Option RpcError :=
  match struct_fields ["code", "message", "data"] value with
  | some [code, message, data] => do
    let code ← code.bind i32
    let message ← message.bind string
    let data ← data.bind ErrorData.deserialize
    some { code, message, data }
  | _ => none

def RpcError.validate_kind (error : RpcError) : Except String Unit :=
  match error.data.kind with
  | none =>
    if (ErrorKind.from_code error.code).isSome then .error "defined error code arrived with an undefined kind" else .ok ()
  | some kind => if error.code ≠ kind.code then .error "error code does not match error kind" else .ok ()

def RpcError.validate_retry (error : RpcError) : Except String Unit :=
  match error.data.retry_after_ms with
  | none => .ok ()
  | some retry_after_ms =>
    if error.data.kind ≠ some .Unavailable ∧ error.data.kind ≠ none then
      .error "retry_after_ms is only valid for unavailable"
    else if retry_after_ms = 0 then .error "retry_after_ms must be positive"
    else .ok ()

def RpcError.validate_interaction (error : RpcError) : Except String Unit :=
  match error.data.interaction with
  | none => .ok ()
  | some interaction =>
    if error.data.kind ≠ some .InteractionRequired then .error "interaction is only valid for interaction_required"
    else interaction.validate

def RpcError.validate (error : RpcError) : Except String Unit := do
  error.validate_kind
  if error.message.isEmpty ∨ error.message.utf8ByteSize > 256 then throw "error message has an invalid byte length"
  error.validate_retry
  error.validate_interaction

/-! ## Responses -/

inductive Response
  | success (id : RequestId) (result : Json)
  | error (id : Option RequestId) (error : RpcError)

def version (value : Option Json) : Option Unit :=
  (value.bind string).bind fun text => if text = "2.0" then some () else none

def SuccessResponse.deserialize (members : List (String × Json)) : Option Response := do
  version (members.lookup "jsonrpc")
  let id ← (members.lookup "id").bind request_id
  let result ← members.lookup "result"
  some (.success id result)

def ErrorResponse.deserialize (members : List (String × Json)) : Option Response := do
  version (members.lookup "jsonrpc")
  let id ← (members.lookup "id").bind (nullable request_id)
  let error ← (members.lookup "error").bind RpcError.deserialize
  some (.error id error)

/-- The untagged enum: the first variant that decodes. -/
def Response.deserialize (members : List (String × Json)) : Option Response :=
  SuccessResponse.deserialize members <|> ErrorResponse.deserialize members

/-! ## Initialization results -/

def ABSOLUTE_MAX_FRAME_BYTES : Nat := 1048576

def validate_nonempty_bytes (label value : String) (max : Nat) : Except String Unit :=
  if value.isEmpty ∨ value.utf8ByteSize > max then .error label else .ok ()

namespace resolver

end resolver

end Monosecret.Rpc
