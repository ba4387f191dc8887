/-
  Monosecret.Rpc.Wire — the frames of one session as the two ends see them
  (`monosecret_rpc/src/jsonrpc.rs`, `error.rs`, `protocol.rs`).

  A frame keeps its routing fields: IDs, methods, deadlines, the parent of a callback and
  the kind of an error. Params and results are kept where the session layer itself parses
  them (`rpc.initialize`, the empty params of `rpc.discover` and `rpc.shutdown`).
-/

namespace Monosecret.Rpc

abbrev RequestId := Nat

inductive ErrorKind where
  | ParseError
  | InvalidRequest
  | MethodNotFound
  | InvalidParams
  | Internal
  | UnsupportedVersion
  | CapabilityRequired
  | DeadlineExceeded
  | Cancelled
  | Unavailable
  | PermissionDenied
  | InteractionRequired
  | Conflict
  | OperationFailed
  | MessageTooLarge
  | RepresentationMismatch
  deriving DecidableEq

/-- A response's payload. The result of `rpc.initialize` carries what both ends then use:
    the selected in-flight limit and the server's methods. -/
inductive Body where
  | result
  | initialized (max_in_flight : Nat) (methods : List String)
  | error (kind : ErrorKind)
  deriving DecidableEq

/-- The response to an application request: `response_from_result`. -/
def Body.of_error : Option ErrorKind → Body
  | none => .result
  | some kind => .error kind

def MAX_IN_FLIGHT : Nat := 32

namespace rpc

def DISCOVER : String := "rpc.discover"
def INITIALIZE : String := "rpc.initialize"
def SHUTDOWN : String := "rpc.shutdown"

end rpc

/-- What `initialize` reads of `InitializeParams`; `common_ok` stands for the product, frame
    size and method-name checks of `validate_common`. -/
structure InitializeParams where
  protocol : String
  versions : List Nat
  max_in_flight : Nat
  client_methods : List String
  common_ok : Bool
  deriving DecidableEq

inductive Params where
  | empty
  | offer (params : InitializeParams)
  | other
  deriving DecidableEq

structure Request where
  id : RequestId
  method : String
  deadline_unix_ms : Nat
  parent_request_id : Option RequestId
  params : Params
  deriving DecidableEq

/-- What a client writes. -/
inductive ClientFrame where
  | request (request : Request)
  | response (id : Option RequestId) (body : Body)
  | cancel (id : RequestId)
  /-- Any other notification: it has no effect. -/
  | notification
  /-- A frame the strict parser rejects, with the layer that rejected it. -/
  | malformed (kind : ErrorKind)
  deriving DecidableEq

/-- What a server writes. The first three are all responses on the wire. -/
inductive ServerFrame where
  /-- The session loop's own answer: a value-free error, or a discovery document. -/
  | reply (id : Option RequestId) (body : Body)
  /-- The terminal response of an accepted request or of `rpc.initialize`. -/
  | terminal (id : RequestId) (body : Body)
  /-- The empty success result of `rpc.shutdown`. -/
  | shutdown (id : RequestId)
  | callback (request : Request)
  deriving DecidableEq

namespace ServerFrame

/-- The request a response frame names. -/
def response_id : ServerFrame → Option RequestId
  | .reply id _ => id
  | .terminal id _ => some id
  | .shutdown id => some id
  | .callback _ => none

/-- The request a callback frame serves. -/
def parent : ServerFrame → Option RequestId
  | .callback request => request.parent_request_id
  | _ => none

/-- The request whose lifetime this frame ends. -/
def ends : ServerFrame → Option RequestId
  | .terminal id _ => some id
  | _ => none

def callback_id : ServerFrame → Option RequestId
  | .callback request => some request.id
  | _ => none

/-- The payload of a response frame. -/
def body : ServerFrame → Option Body
  | .reply _ body => some body
  | .terminal _ body => some body
  | .shutdown _ => some .result
  | .callback _ => none

end ServerFrame

end Monosecret.Rpc
