/-
  Monosecret.Rpc.Server — one server session (`monosecret_rpc/src/server.rs`: `serve`,
  `initialize`, `run_call`, `commit_application_before`, `Peer::call`).

  Actors. The session loop reads one frame at a time and answers out-of-band requests
  itself (`replying`: a `commit` in progress). Each accepted request has a task running
  `run_call` (`CallTask`). A handler, or any task it spawned, calls back through
  `Peer::call` (`Callback`); such a task may outlive its request. The writer task takes
  frames from a bounded queue.

  One event is one atomic step of one actor: between two `.await`s, or between two polls of
  the arms of a `select!`, every other actor may run. In `Peer::call` the cancellation and
  deadline arms are polled first (`check`) and the send after them (`enqueue`). A timer
  firing, a timeout, a handler's outcome and a dropped future are events that may come at
  any point where the code waits.

  `log` holds every frame put in the writer queue, in order; the writer has taken the first
  `taken` of them.
-/

import Monosecret.Rpc.Wire
import Monosecret.Lib.Machine

namespace Monosecret.Rpc.Server

/-- Callbacks this side gave up on that may await their answer at once. -/
def MAX_ABANDONED_CALLBACKS : Nat := MAX_IN_FLIGHT * 4

/-! ## An accepted request: `run_call` -/

inductive CallPhase where
  | unborn
  /-- In the `select!` over deadline, cancellation and the handler. -/
  | running
  /-- Deadline or cancellation won there; `send_terminal` waits for the queue. -/
  | ending (kind : ErrorKind)
  /-- The terminal frame is queued; the handler has not returned yet. -/
  | joining
  /-- The handler returned; `commit_application_before` waits for the queue. -/
  | committing (error : Option ErrorKind)
  /-- Deadline or cancellation won there; `send_terminal` waits for the queue. -/
  | replacing (kind : ErrorKind)
  /-- The application response is queued, its token not yet cancelled. -/
  | enqueued
  /-- Its token is cancelled; it waits for the writer to write the response. -/
  | committed
  /-- Only `request_finished` and leaving the `inflight` table remain. -/
  | finishing
  | returned
  | panicked
  | aborted
  /-- `join_next` returned the finished task. -/
  | reaped
  deriving DecidableEq

/-- The task still runs. -/
def CallPhase.live : CallPhase → Bool
  | .running | .ending _ | .joining | .committing _ | .replacing _ | .enqueued | .committed | .finishing => true
  | _ => false

/-- The request is in the `inflight` table: a task that did not return leaves its entry. -/
def CallPhase.inflight (phase : CallPhase) : Bool := phase.live || phase == .panicked || phase == .aborted

structure CallTask where
  phase : CallPhase := .unborn
  /-- Its permit of the in-flight semaphore, held by the task or by its queued response. -/
  slot : Bool := false
  deriving DecidableEq

inductive CallEv where
  | deadline
  | cancelled
  | result (error : Option ErrorKind)
  | panic
  | send
  | send_failed
  | cancel_token
  /-- The writer wrote the response, or the wait for it timed out or failed. -/
  | settle (written : Bool)
  | finish
  | abort
  deriving DecidableEq

/-- What a call task sees of the session. -/
structure CallEnv where
  token : Bool
  room : Bool
  down : Bool
  closing : Bool

/-- The task after a step, whether it cancelled its token, and the response it queued. -/
structure CallOut where
  task : CallTask
  cancel : Bool := false
  emit : Option Body := none

def CallTask.next (env : CallEnv) (c : CallTask) : CallEv → Option CallOut
  | .deadline =>
    match c.phase with
    | .running => some { task := { c with phase := .ending .DeadlineExceeded }, cancel := true }
    | .committing _ => some { task := ⟨.replacing .DeadlineExceeded, false⟩, cancel := true }
    | _ => none
  | .cancelled =>
    if env.token then
      match c.phase with
      | .running => some { task := { c with phase := .ending .Cancelled } }
      | .committing _ => some { task := ⟨.replacing .Cancelled, false⟩ }
      | _ => none
    else none
  | .result error =>
    match c.phase with
    | .running => some { task := { c with phase := .committing error } }
    | _ => none
  | .panic =>
    match c.phase with
    | .running | .joining => some { task := ⟨.panicked, false⟩ }
    | .finishing => some { task := { c with phase := .panicked } }
    | _ => none
  | .send =>
    if env.room then
      match c.phase with
      | .ending kind => some { task := { c with phase := .joining }, emit := some (.error kind) }
      | .committing error => some { task := { c with phase := .enqueued }, emit := some (Body.of_error error) }
      | .replacing kind => some { task := { c with phase := .finishing }, emit := some (.error kind) }
      | _ => none
    else none
  | .send_failed =>
    if env.down then
      match c.phase with
      | .ending _ => some { task := { c with phase := .joining } }
      | .committing _ | .replacing _ => some { task := ⟨.finishing, false⟩ }
      | _ => none
    else none
  | .cancel_token =>
    match c.phase with
    | .enqueued => some { task := { c with phase := .committed }, cancel := true }
    | _ => none
  | .settle _ =>
    match c.phase with
    | .committed => some { task := { c with phase := .finishing } }
    | _ => none
  | .finish =>
    match c.phase with
    | .joining => some { task := ⟨.returned, false⟩ }
    | .finishing => some { task := { c with phase := .returned } }
    | _ => none
  | .abort =>
    if env.closing && c.phase.live then
      match c.phase with
      | .enqueued | .committed | .finishing => some { task := { c with phase := .aborted } }
      | _ => some { task := ⟨.aborted, false⟩ }
    else none

/-! ## A callback: `Peer::call` -/

inductive CbPhase where
  /-- The token was not cancelled on entry and the client advertised the method. -/
  | entered
  /-- It holds a permit and waits for the order lock. -/
  | admitted
  | ordered
  /-- It has an ID and a pending entry; its send is not polled yet. -/
  | registered
  /-- This poll found the token not cancelled and the deadline not reached. -/
  | checked
  | waiting
  | done
  deriving DecidableEq

/-- It holds a sender of the writer queue. -/
def CbPhase.sending : CbPhase → Bool
  | .registered | .checked | .waiting => true
  | _ => false

/-- It holds the order lock. -/
def CbPhase.ordering : CbPhase → Bool
  | .ordered | .registered | .checked => true
  | _ => false

structure Callback where
  parent : RequestId
  method : String
  phase : CbPhase := .entered
  deadline_unix_ms : Nat := 0
  /-- Its permit came from the negotiated semaphore, not the one-permit one before it. -/
  negotiated : Bool := false
  /-- The permit is out: held by the call, or parked with the abandoned ones. -/
  permit : Bool := false
  id : RequestId := 0
  pending : Bool := false
  parked : Bool := false
  /-- Its frame was queued. -/
  sent : Bool := false
  /-- Its response was delivered. -/
  answered : Bool := false
  deriving DecidableEq

inductive CbEv where
  | acquire (deadline_unix_ms : Nat)
  | refused
  | order
  | give_up
  | register (fits : Bool)
  | check
  | withdraw
  | enqueue
  | full
  | send_failed
  | receive
  | failed
  | abandon
  | drop
  deriving DecidableEq

/-- What a callback sees of the session. -/
structure CbEnv where
  token : Bool
  permit_free : Bool
  order_free : Bool
  negotiated : Bool
  next_id : RequestId
  sender : Bool
  room : Bool
  down : Bool
  parked_room : Bool

def Callback.request (c : Callback) : Request :=
  ⟨c.id, c.method, c.deadline_unix_ms, some c.parent, .other⟩

/-- The call returns: its permit, if it still holds one, is dropped with it. -/
def Callback.leave (c : Callback) : Callback := { c with phase := .done, permit := false }

/-- `abandon_call`: the permit is parked until the client answers, unless it already did. -/
def Callback.abandon_call (c : Callback) (parked_room : Bool) : Callback :=
  if c.pending && parked_room then { c with phase := .done, pending := false, parked := true }
  else { c.leave with pending := false }

def Callback.next (env : CbEnv) (c : Callback) : CbEv → Option Callback
  | .acquire deadline_unix_ms =>
    if c.phase = .entered ∧ env.permit_free then
      some { c with phase := .admitted, permit := true, negotiated := env.negotiated,
                    deadline_unix_ms := deadline_unix_ms }
    else none
  | .refused => if c.phase = .entered then some c.leave else none
  | .order => if c.phase = .admitted ∧ env.order_free then some { c with phase := .ordered } else none
  | .give_up => if c.phase = .admitted then some c.leave else none
  | .register fits =>
    if c.phase = .ordered then
      if fits ∧ env.sender then some { c with phase := .registered, id := env.next_id, pending := true }
      else some c.leave
    else none
  | .check => if c.phase = .registered ∧ env.token = false then some { c with phase := .checked } else none
  | .withdraw => if c.phase = .registered then some { c.leave with pending := false } else none
  | .enqueue => if c.phase = .checked ∧ env.room then some { c with phase := .waiting, sent := true } else none
  | .full => if c.phase = .checked then some { c with phase := .registered } else none
  | .send_failed => if c.phase = .checked ∧ env.down then some { c.leave with pending := false } else none
  | .receive => if c.phase = .waiting ∧ c.answered then some c.leave else none
  | .failed => if c.phase = .waiting ∧ c.pending = false then some c.leave else none
  | .abandon => if c.phase = .waiting then some (c.abandon_call env.parked_room) else none
  -- The future is dropped by its handler: its locals go, the pending entry stays.
  | .drop => if c.phase = .done then none else some c.leave

/-- `fail_all` on one callback: both tables are cleared. -/
def Callback.fail (c : Callback) : Callback :=
  { c with pending := false, parked := false, permit := c.permit && !c.parked }

/-- `deliver` on the callback whose entry it finds. -/
def Callback.deliver_pending (id : RequestId) (c : Callback) : Callback :=
  if c.pending && c.id == id then { c with pending := false, answered := true } else c

def Callback.deliver_parked (id : RequestId) (c : Callback) : Callback :=
  if c.parked && c.id == id then { c with parked := false, permit := false, answered := true } else c

/-! ## The session -/

structure Config where
  protocol : String
  versions : List Nat
  capabilities : List String
  /-- Why the handler's own capability list is refused, if it is. -/
  capabilities_refused : Option ErrorKind
  /-- `openrpc` builds a document from them. -/
  described : Bool
  max_in_flight : Nat
  /-- `config.limits.validate()?`. -/
  in_range : 1 ≤ max_in_flight ∧ max_in_flight ≤ MAX_IN_FLIGHT

inductive After where
  | read
  | stop
  deriving DecidableEq

inductive Loop where
  | reading
  /-- A `commit` waits for the queue; what the loop does once it is done, or has failed. -/
  | replying (id : Option RequestId) (body : Body) (done lost : After)
  /-- Its frame is queued; the `commit` waits for the writer. -/
  | replied (done lost : After)
  | initializing (id : RequestId)
  /-- The initialize outcome is decided and its token cancelled; its `commit` waits. -/
  | init_reply (id : RequestId) (body : Body)
  | init_sent (body : Body)
  /-- Tasks are cancelled and aborted, and joined. -/
  | closing
  | shutting
  /-- `serve` dropped its sender. -/
  | closed
  deriving DecidableEq

structure State where
  loop : Loop := .reading
  initialized : Bool := false
  last_seen_id : Option RequestId := none
  shutdown_request : Option RequestId := none
  drained : Bool := false
  /-- The client reused a request ID. -/
  reused : Bool := false
  /-- The `rpc.initialize` whose handler ran. -/
  init_request : Option RequestId := none
  /-- The in-flight limit selected from both offers. -/
  selected : Nat := 1
  client_methods : List String := []
  accepted : List RequestId := []
  calls : RequestId → CallTask := fun _ => {}
  /-- The cancellation token of each request's context. -/
  cancelled : RequestId → Bool := fun _ => false
  log : List ServerFrame := []
  taken : Nat := 0
  /-- The writer's receiver is gone. -/
  down : Bool := false
  /-- The `disconnected` token. -/
  disconnected : Bool := false
  next_id : RequestId := 1
  /-- The callback holding the order lock. -/
  order : Option Nat := none
  /-- The peer's semaphore was replaced by the negotiated one. -/
  negotiated : Bool := false
  cbs : List Callback := []

/-- Frames put in the writer queue. -/
def State.queue (s : State) (frames : List ServerFrame) : State := { s with log := s.log ++ frames }

@[simp] theorem State.queue_nil (s : State) : s.queue [] = s := by rw [queue, List.append_nil]

/-- The permits of a semaphore that are out. -/
def State.permits (s : State) (negotiated : Bool) : Nat :=
  s.cbs.countP fun c => c.permit && c.negotiated == negotiated

/-- The size of the peer's current semaphore. -/
def State.callback_limit (s : State) : Nat := if s.negotiated then s.selected else 1

def State.slots (s : State) : Nat := s.accepted.countP fun p => (s.calls p).slot

variable (cfg : Config)

/-- The channel takes one more frame. -/
def room (s : State) : Bool := !s.down && decide (s.log.length < s.taken + (cfg.max_in_flight + 2))

/-- Every accepted request's task was reaped by the loop. -/
def tasks_empty (s : State) : Bool := s.accepted.all fun p => (s.calls p).phase == .reaped

def tasks_joined (s : State) : Bool := s.accepted.all fun p => !(s.calls p).phase.live

/-- After the loop: `fail_all`, every in-flight token cancelled, every task aborted. -/
def close (s : State) : State :=
  { s with
    loop := .closing
    cancelled := fun p => s.cancelled p || (s.calls p).phase.inflight
    cbs := s.cbs.map Callback.fail }

def after (s : State) : After → State
  | .read => { s with loop := .reading }
  | .stop => close s

/-- `let _ = commit(..)`, then go on. -/
def answer (s : State) (id : Option RequestId) (body : Body) (next : After) : State :=
  { s with loop := .replying id body next next }

/-- `deliver`: none when no callback awaits this response. -/
def deliver (s : State) (id : RequestId) : Option State :=
  if s.cbs.any fun c => c.pending && c.id == id then
    some { s with cbs := s.cbs.map (Callback.deliver_pending id) }
  else if s.cbs.any fun c => c.parked && c.id == id then
    some { s with cbs := s.cbs.map (Callback.deliver_parked id) }
  else none

def cancel (s : State) (id : RequestId) : State :=
  { s with cancelled := fun p => s.cancelled p || p == id }

/-- The checks of `discover` before it writes its document. -/
def discover_refusal (r : Request) (expired : Bool) : Option ErrorKind :=
  if r.params ≠ .empty then some .InvalidParams
  else if expired then some .DeadlineExceeded
  else cfg.capabilities_refused.map fun _ => .Internal

/-- A failed `commit` of a discovery answer ends the session. -/
def discover (s : State) (r : Request) (expired : Bool) : State :=
  match discover_refusal cfg r expired with
  | some kind => { s with loop := .replying (some r.id) (.error kind) .read .stop }
  | none =>
    if cfg.described then { s with loop := .replying (some r.id) .result .read .stop } else close s

/-- The checks of `initialize` before it takes the client's offer. -/
def initialize_refusal (params : InitializeParams) : Option ErrorKind :=
  if params.protocol ≠ cfg.protocol then some .UnsupportedVersion
  else if params.versions = [] ∨ 0 ∈ params.versions ∨ ¬ params.versions.Nodup ∨
      params.max_in_flight < 1 ∨ MAX_IN_FLIGHT < params.max_in_flight ∨ ¬ params.common_ok then
    some .InvalidParams
  else if ¬ params.versions.any (cfg.versions.contains ·) then some .UnsupportedVersion
  else cfg.capabilities_refused

def initialize_offer (s : State) (r : Request) (expired : Bool) : State :=
  match r.params with
  | .offer params =>
    match initialize_refusal cfg params with
    | some kind => answer s (some r.id) (.error kind) .stop
    | none =>
      let s := { s with
        selected := min cfg.max_in_flight params.max_in_flight
        client_methods := params.client_methods }
      if expired then answer s (some r.id) (.error .DeadlineExceeded) .stop
      else { s with loop := .initializing r.id, init_request := some r.id }
  | _ => answer s (some r.id) (.error .InvalidParams) .stop

/-- `tasks.spawn(run_call(..))`. -/
def accept (s : State) (id : RequestId) : State :=
  { s with
    accepted := s.accepted ++ [id]
    calls := fun p => if p = id then ⟨.running, true⟩ else s.calls p }

def is_application (method : String) : Bool :=
  "resolver.".toList.isPrefixOf method.toList || "provider.".toList.isPrefixOf method.toList

/-- A request on an initialized session, its ID being fresh. -/
def dispatch (s : State) (r : Request) (expired : Bool) : State :=
  if r.method = rpc.INITIALIZE then answer s (some r.id) (.error .InvalidRequest) .stop
  else if r.method = rpc.DISCOVER then discover cfg s r expired
  else if s.shutdown_request.isSome then answer s (some r.id) (.error .Unavailable) .read
  else if r.method = rpc.SHUTDOWN then
    if r.params ≠ .empty then answer s (some r.id) (.error .InvalidParams) .stop
    else { s with shutdown_request := some r.id }
  else if ¬ is_application r.method then answer s (some r.id) (.error .MethodNotFound) .read
  else if ¬ cfg.capabilities.contains r.method then answer s (some r.id) (.error .CapabilityRequired) .read
  else if expired then answer s (some r.id) (.error .DeadlineExceeded) .read
  else if s.selected ≤ s.slots then answer s (some r.id) (.error .Unavailable) .read
  else accept s r.id

def seen (s : State) (id : RequestId) : Bool :=
  match s.last_seen_id with
  | some last => id ≤ last
  | none => false

def handle_request (s : State) (r : Request) (expired : Bool) : State :=
  if seen s r.id then answer { s with reused := true } (some r.id) (.error .InvalidRequest) .stop
  else
    let s := { s with last_seen_id := some r.id }
    if s.initialized then dispatch cfg s r expired
    else if r.method = rpc.DISCOVER then discover cfg s r expired
    else if r.method ≠ rpc.INITIALIZE then answer s (some r.id) (.error .InvalidRequest) .stop
    else initialize_offer cfg s r expired

/-- One frame read by the loop. `expired` says whether the request's deadline has passed. -/
def recv (s : State) (frame : ClientFrame) (expired : Bool) : State :=
  match frame with
  | .malformed kind => answer s none (.error kind) .stop
  | .response id _ => if s.initialized then (id.bind (deliver s)).getD (close s) else close s
  | .cancel id => if (s.calls id).phase.inflight then cancel s id else s
  | .notification => s
  | .request r => handle_request cfg s r expired

/-- One frame read while the initialize handler of `id` runs. -/
def init_recv (s : State) (id : RequestId) (frame : ClientFrame) : State :=
  match frame with
  | .malformed kind => answer (cancel s id) none (.error kind) .stop
  | .response rid _ => (rid.bind (deliver s)).getD (close (cancel s id))
  | .cancel rid => if rid = id then cancel s id else s
  | .notification => s
  | .request r =>
    answer { cancel s id with reused := s.reused || seen s r.id } (some r.id) (.error .InvalidRequest) .stop

inductive SessionEv where
  | recv (frame : ClientFrame) (expired : Bool)
  | eof
  | read_failed
  /-- The queue takes the frame of the pending `commit`. -/
  | replied
  /-- The writer wrote it. -/
  | committed
  /-- The pending `commit` timed out, or the channel is closed. -/
  | reply_lost
  | init_returned (error : Option ErrorKind)
  | init_expired
  | init_cancelled
  | disconnected
  | reap (p : RequestId)
  | drain
  | shutdown_deadline
  | joined
  | shutdown_reply
  | shutdown_skip

def session_step (s : State) : SessionEv → Option State
  | .recv frame expired =>
    match s.loop with
    | .reading => some (recv cfg s frame expired)
    | .initializing id => some (init_recv s id frame)
    | _ => none
  | .eof =>
    match s.loop with
    | .reading => some (close s)
    | .initializing id => some (close (cancel s id))
    | _ => none
  -- `frame?` leaves `initialize` without cancelling its token.
  | .read_failed =>
    match s.loop with
    | .reading | .initializing _ => some (close s)
    | _ => none
  | .replied =>
    if room cfg s then
      match s.loop with
      | .replying id body done lost => some ({ s with loop := .replied done lost }.queue [.reply id body])
      | .init_reply id body => some ({ s with loop := .init_sent body }.queue [.terminal id body])
      | _ => none
    else none
  | .committed =>
    match s.loop with
    | .replied done _ => some (after s done)
    | .init_sent (.error _) => some (close s)
    | .init_sent _ => some { s with loop := .reading, initialized := true, negotiated := true }
    | _ => none
  | .reply_lost =>
    match s.loop with
    | .replying _ _ _ lost | .replied _ lost => some (after s lost)
    | .init_reply _ _ | .init_sent _ => some (close s)
    | _ => none
  | .init_returned error =>
    match s.loop with
    | .initializing id =>
      let body := match error with
        | none => .initialized s.selected cfg.capabilities
        | some kind => .error kind
      some { cancel s id with loop := .init_reply id body }
    | _ => none
  | .init_expired =>
    match s.loop with
    | .initializing id => some { cancel s id with loop := .init_reply id (.error .DeadlineExceeded) }
    | _ => none
  | .init_cancelled =>
    match s.loop with
    | .initializing id => if s.cancelled id then some { s with loop := .init_reply id (.error .Cancelled) } else none
    | _ => none
  | .disconnected => if s.loop = .reading ∧ s.disconnected then some (close s) else none
  | .reap p =>
    if s.loop = .reading then
      match (s.calls p).phase with
      | .returned => some { s with calls := fun q => if q = p then { s.calls p with phase := .reaped } else s.calls q }
      | .panicked => some (close s)
      | _ => none
    else none
  | .drain =>
    if s.loop = .reading ∧ s.shutdown_request.isSome ∧ tasks_empty s then some (close { s with drained := true })
    else none
  | .shutdown_deadline =>
    if s.loop = .reading ∧ s.shutdown_request.isSome then some (close { s with drained := true }) else none
  | .joined => if s.loop = .closing ∧ tasks_joined s then some { s with loop := .shutting } else none
  | .shutdown_reply =>
    match s.shutdown_request with
    | some id =>
      if s.loop = .shutting ∧ s.drained ∧ room cfg s then
        some ({ s with loop := .closed }.queue [.shutdown id])
      else none
    | none => none
  | .shutdown_skip => if s.loop = .shutting then some { s with loop := .closed } else none

inductive Ev where
  | session (e : SessionEv)
  | call (p : RequestId) (e : CallEv)
  /-- A handler of `parent`, or a task it spawned, calls `Peer::call`. -/
  | enter (parent : RequestId) (method : String)
  | callback (k : Nat) (e : CbEv)
  /-- The writer takes a frame, dropping the slot that came with it. -/
  | take
  | writer_fail

def call_env (s : State) (p : RequestId) : CallEnv :=
  ⟨s.cancelled p, room cfg s, s.down, s.loop == .closing⟩

/-- The session after the task of `p` made the step `o`. -/
def with_call (s : State) (p : RequestId) (e : CallEv) (o : CallOut) : State :=
  { s with
    calls := fun q => if q = p then o.task else s.calls q
    cancelled := fun q => s.cancelled q || (o.cancel && q == p)
    disconnected := s.disconnected || e == .settle false }

def call_step (s : State) (p : RequestId) (e : CallEv) : Option State :=
  ((s.calls p).next (call_env cfg s p) e).map fun o =>
    (with_call s p e o).queue (o.emit.map (ServerFrame.terminal p)).toList

def cb_env (s : State) (c : Callback) : CbEnv where
  token := s.cancelled c.parent
  permit_free := decide (s.permits s.negotiated < s.callback_limit)
  order_free := s.order.isNone
  negotiated := s.negotiated
  next_id := s.next_id
  sender := s.loop != .closed || s.cbs.any fun d => d.phase.sending
  room := room cfg s
  down := s.down
  parked_room := decide (s.cbs.countP (·.parked) < MAX_ABANDONED_CALLBACKS)

/-- The session after callback `k` became `d`. -/
def with_callback (s : State) (k : Nat) (e : CbEv) (d : Callback) : State :=
  { s with
    cbs := s.cbs.set k d
    next_id := match e with
      | .register _ => s.next_id + 1
      | _ => s.next_id
    order := if d.phase.ordering then some k else if s.order = some k then none else s.order }

/-- The frame a callback's step queues. -/
def queued (d : Callback) : CbEv → List ServerFrame
  | .enqueue => [.callback d.request]
  | _ => []

def cb_step (s : State) (k : Nat) (e : CbEv) : Option State := do
  let c ← s.cbs[k]?
  let d ← c.next (cb_env cfg s c) e
  some ((with_callback s k e d).queue (queued d e))

/-- A response's command is dropped, and with it the slot it carries. -/
def release (c : CallTask) : CallTask :=
  match c.phase with
  | .enqueued | .committed | .finishing | .returned | .reaped | .panicked | .aborted => { c with slot := false }
  | _ => c

def step (s : State) : Ev → Option State
  | .session e => session_step cfg s e
  | .call p e => call_step cfg s p e
  | .enter parent method =>
    if (parent ∈ s.accepted ∨ s.init_request = some parent) ∧ s.cancelled parent = false ∧
        s.client_methods.contains method then
      some { s with cbs := s.cbs ++ [{ parent := parent, method := method }] }
    else none
  | .callback k e => cb_step cfg s k e
  | .take =>
    if s.down then none
    else
      match s.log[s.taken]? with
      | some (.terminal p _) =>
        some { s with
          taken := s.taken + 1
          calls := fun q => if q = p then release (s.calls p) else s.calls q }
      | some _ => some { s with taken := s.taken + 1 }
      | none => none
  -- The queue is dropped with everything in it.
  | .writer_fail => some { s with down := true, disconnected := true, calls := fun q => release (s.calls q) }

def machine : Lib.Machine State Ev := ⟨{}, step cfg⟩

/-! ## A session to run -/

/-- A resolver server that takes two calls at once. -/
def resolver : Config where
  protocol := "resolver"
  versions := [1]
  capabilities := ["resolver.resolve"]
  capabilities_refused := none
  described := true
  max_in_flight := 2
  in_range := by decide

def offer : InitializeParams := ⟨"resolver", [1], 2, ["client.prompt"], true⟩

/-- The client initializes and calls `resolver.resolve`, as request 2. -/
def opening : List Ev :=
  [.session (.recv (.request ⟨1, rpc.INITIALIZE, 1000, none, .offer offer⟩) false), .session (.init_returned none),
    .session .replied, .session .committed,
    .session (.recv (.request ⟨2, "resolver.resolve", 1000, none, .other⟩) false)]

end Monosecret.Rpc.Server
