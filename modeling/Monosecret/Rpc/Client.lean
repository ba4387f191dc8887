/-
  Monosecret.Rpc.Client — one client session (`monosecret_rpc/src/client.rs`: `connect`,
  `start`, `Call`, `close`, `serve_callback`, `fail_session`, `abandon_request`).

  Actors. `connect` runs once. Each `start` and the `Call` it returns is a task (`Call`);
  `close` holds the order lock to its end, so one runs at a time (`Closer`). The reader
  handles one frame at a time; an accepted callback is answered by a task of its own
  (`Inbound`). The writer takes frames from a bounded queue.

  One event is one atomic step of one actor. The session state is an atomic, the tables have
  separate locks: a state check and the table insert after it are two steps, and so are the
  two halves of `fail_session` (it stores CLOSED, then drains the tables). A failing
  transport, a timeout, a dropped future and `abandon` may come at any point.
-/

import Monosecret.Rpc.Wire
import Monosecret.Lib.Machine

namespace Monosecret.Rpc.Client

/-- Requests this side gave up on that may await their response at once. -/
def MAX_ABANDONED_REQUESTS : Nat := MAX_IN_FLIGHT * 4

inductive SessionState where
  | INITIALIZING
  | READY
  | CLOSING
  | CLOSED
  deriving DecidableEq

structure Config where
  offer : InitializeParams
  /-- The startup deadline, clamped. -/
  startup_deadline_unix_ms : Nat
  /-- A callback handler is installed. -/
  callbacks : Bool
  /-- "client advertised a callback with no handler to answer it" -/
  answerable : offer.client_methods = [] ∨ callbacks = true
  in_range : 1 ≤ offer.max_in_flight ∧ offer.max_in_flight ≤ MAX_IN_FLIGHT

inductive Error where
  | Closed
  | Protocol
  | DeadlineExceeded
  | Unavailable
  deriving DecidableEq

structure PendingRequest where
  id : RequestId
  deadline_unix_ms : Nat
  deriving DecidableEq

/-! ## The actors -/

inductive ConnectPhase where
  | starting
  | registered
  | queued
  /-- The initialize response was accepted. -/
  | answered (max_in_flight : Nat) (methods : List String)
  /-- The negotiated limits are stored, READY is not. -/
  | negotiated
  | connected
  /-- `abort_transport` is due. -/
  | aborting
  | aborted
  deriving DecidableEq

inductive ConnectEv where
  | insert
  | queue
  | queue_failed
  | respond
  | lost
  | expire
  | negotiate
  | ready
  | abort
  deriving DecidableEq

inductive CallPhase where
  /-- It holds a permit and waits for the order lock. -/
  | permitted
  | ordered
  /-- The state was READY under the order lock. -/
  | rechecked
  /-- Its pending entry is inserted, its frame not queued yet. -/
  | registered
  /-- `start` returned the `Call`. -/
  | live
  /-- Given up; the cancellation is not queued yet. -/
  | dropping
  | ended
  | failed (error : Error)
  deriving DecidableEq

structure Call where
  method : String
  deadline_unix_ms : Nat
  phase : CallPhase
  id : RequestId := 0
  permit : Bool := false
  /-- `cancel` waits for the queue. -/
  cancelling : Bool := false
  deriving DecidableEq

inductive CallEv where
  | order
  | order_lost
  | recheck
  | insert
  | reject
  | queue
  | queue_failed (error : Error)
  | cancel
  | queue_cancel
  | respond
  | lost
  /-- `wait` timed out, or the `Call` was dropped. -/
  | give_up
  | settle
  deriving DecidableEq

inductive Closer where
  | idle
  | locked (deadline_unix_ms : Nat)
  /-- CLOSING is stored. -/
  | closing (deadline_unix_ms : Nat)
  | registered (id : RequestId) (deadline_unix_ms : Nat)
  | queued (id : RequestId)
  | finishing
  deriving DecidableEq

inductive CloseEv where
  | begin (deadline_unix_ms : Nat)
  | compare_exchange
  | insert
  | queue
  | queue_failed
  | respond
  | lost
  | expire
  /-- The tasks are joined or aborted; `fail_session` follows. -/
  | finish
  /-- The future is dropped. -/
  | drop
  deriving DecidableEq

inductive InboundPhase where
  | calling
  /-- Its slot is free again; the response waits for the queue. -/
  | answering (body : Body)
  | sent
  | gone
  deriving DecidableEq

structure Inbound where
  id : RequestId
  parent : RequestId
  phase : InboundPhase := .calling
  deriving DecidableEq

inductive InboundEv where
  | done (body : Body)
  | send
  | lost
  deriving DecidableEq

inductive Holder where
  | call (k : Nat)
  | close
  deriving DecidableEq

structure State where
  state : SessionState := .INITIALIZING
  /-- Some step stored CLOSED. -/
  failed : Bool := false
  /-- The `fail_session`s that have not drained the tables yet. -/
  failing : Nat := 0
  /-- The overflows of the abandoned table that have not failed the session yet. -/
  overflowing : Nat := 0
  connect : ConnectPhase := .starting
  calls : List Call := []
  closer : Closer := .idle
  /-- The holder of `request_order`. -/
  order : Option Holder := none
  next_id : RequestId := 2
  pending : List PendingRequest := []
  /-- The cancellation token of each pending entry. -/
  cancelled : RequestId → Bool := fun _ => false
  abandoned : List RequestId := []
  /-- The responses handed to their callers. -/
  answers : RequestId → Option Body := fun _ => none
  max_in_flight : Nat := 1
  capabilities : List String := []
  inbound : List Inbound := []
  inbound_active : Nat := 0
  inbound_last : Option RequestId := none
  reading : Bool := true
  log : List ClientFrame := []
  taken : Nat := 0
  /-- The writer task is gone. -/
  stopped : Bool := false
  /-- The `Close` command was queued. -/
  close_queued : Bool := false

variable (cfg : Config)

/-! ## Tables -/

def room (s : State) : Bool :=
  !s.stopped && decide (s.log.length < s.taken + (cfg.offer.max_in_flight + 2))

def is_pending (s : State) (id : RequestId) : Bool := s.pending.any fun r => r.id == id

def State.queue (s : State) (frame : ClientFrame) : State := { s with log := s.log ++ [frame] }

/-- The first half of `fail_session`. -/
def fail_session (s : State) : State := { s with state := .CLOSED, failed := true, failing := s.failing + 1 }

/-- The second half. -/
def drain (s : State) : State :=
  { s with
    failing := s.failing - 1
    pending := []
    cancelled := fun p => s.cancelled p || is_pending s p
    abandoned := [] }

def remove_pending (s : State) (id : RequestId) : State :=
  { s with
    pending := s.pending.filter fun r => r.id != id
    cancelled := fun p => s.cancelled p || (is_pending s p && p == id) }

def abandon_request (s : State) (id : RequestId) : State :=
  if is_pending s id then
    let u := remove_pending s id
    if s.abandoned.length ≥ MAX_ABANDONED_REQUESTS then { u with overflowing := u.overflowing + 1 }
    else { u with abandoned := u.abandoned ++ [id] }
  else s

/-- `try_queue_cancel`: dropped when the queue is full. -/
def try_queue_cancel (s : State) (id : RequestId) : State := if room cfg s then s.queue (.cancel id) else s

def insert_pending (s : State) (id : RequestId) (deadline_unix_ms : Nat) : State :=
  { s with pending := s.pending ++ [⟨id, deadline_unix_ms⟩] }

/-! ## `connect` -/

def initialize_id : RequestId := 1

def initialize_request : Request := ⟨initialize_id, rpc.INITIALIZE, cfg.startup_deadline_unix_ms, none, .offer cfg.offer⟩

/-- `InitializeResult::validate_common`, as far as the limits go. -/
def accepted_result (body : Body) : Option (Nat × List String) :=
  match body with
  | .initialized max_in_flight methods =>
    if 1 ≤ max_in_flight ∧ max_in_flight ≤ cfg.offer.max_in_flight then some (max_in_flight, methods) else none
  | _ => none

def connect_step (s : State) (e : ConnectEv) : Option State :=
  match e, s.connect with
  | .insert, .starting =>
    some { insert_pending s initialize_id cfg.startup_deadline_unix_ms with connect := .registered }
  | .queue, .registered =>
    if room cfg s then some { s.queue (.request (initialize_request cfg)) with connect := .queued } else none
  | .queue_failed, .registered => some { remove_pending s initialize_id with connect := .aborting }
  | .respond, .queued =>
    (s.answers initialize_id).map fun body =>
      match accepted_result cfg body with
      | some (max_in_flight, methods) => { s with connect := .answered max_in_flight methods }
      | none => { s with connect := .aborting }
  | .lost, .queued =>
    if !is_pending s initialize_id ∧ s.answers initialize_id = none then some { s with connect := .aborting } else none
  | .expire, .queued => some { abandon_request s initialize_id with connect := .aborting }
  | .negotiate, .answered max_in_flight methods =>
    some { s with max_in_flight := max_in_flight, capabilities := methods, connect := .negotiated }
  | .ready, .negotiated => some { s with state := .READY, connect := .connected }
  | .abort, .aborting => some { fail_session s with connect := .aborted, close_queued := true }
  | _, _ => none

/-! ## `start` and `Call` -/

/-- The checks of `start` before the order lock. -/
def start_error (s : State) (method : String) (expired : Bool) : Option Error :=
  if s.state ≠ .READY then some .Closed
  else if ¬ s.capabilities.contains method then some .Protocol
  else if expired then some .DeadlineExceeded
  else if s.max_in_flight ≤ s.calls.countP (·.permit) then some .Unavailable
  else none

def start (s : State) (method : String) (deadline_unix_ms : Nat) (expired : Bool) : State :=
  let call : Call := match start_error s method expired with
    | some error => { method := method, deadline_unix_ms := deadline_unix_ms, phase := .failed error }
    | none => { method := method, deadline_unix_ms := deadline_unix_ms, phase := .permitted, permit := true }
  { s with calls := s.calls ++ [call] }

/-- The task of call `k` moves on. -/
def State.set_call (s : State) (k : Nat) (c : Call) : State := { s with calls := s.calls.set k c }

/-- It returns, or its `Call` is terminal. -/
def State.end_call (s : State) (k : Nat) (c : Call) (phase : CallPhase) : State :=
  { s with
    calls := s.calls.set k { c with phase := phase, permit := false }
    order := if s.order = some (.call k) then none else s.order }

def call_next (s : State) (k : Nat) (c : Call) (e : CallEv) : Option State :=
  match e, c.phase with
  | .order, .permitted =>
    if s.order = none then some { s.set_call k { c with phase := .ordered } with order := some (.call k) } else none
  | .order_lost, .permitted => some (s.end_call k c (.failed .DeadlineExceeded))
  | .recheck, .ordered =>
    if s.state = .READY then some (s.set_call k { c with phase := .rechecked }) else some (s.end_call k c (.failed .Closed))
  | .insert, .rechecked =>
    some { insert_pending (s.set_call k { c with phase := .registered, id := s.next_id }) s.next_id c.deadline_unix_ms with
      next_id := s.next_id + 1 }
  | .reject, .rechecked => some { s.end_call k c (.failed .Protocol) with next_id := s.next_id + 1 }
  | .queue, .registered =>
    if room cfg s then
      some { (s.queue (.request ⟨c.id, c.method, c.deadline_unix_ms, none, .other⟩)).set_call k { c with phase := .live } with
        order := none }
    else none
  | .queue_failed error, .registered => some ((remove_pending s c.id).end_call k c (.failed error))
  | .cancel, .live =>
    some { s.set_call k { c with cancelling := true } with
      cancelled := fun p => s.cancelled p || (is_pending s p && p == c.id) }
  | .queue_cancel, _ =>
    if c.cancelling ∧ room cfg s then some ((s.queue (.cancel c.id)).set_call k { c with cancelling := false }) else none
  | .respond, .live => if (s.answers c.id).isSome then some (s.end_call k c .ended) else none
  | .lost, .live => if !is_pending s c.id ∧ s.answers c.id = none then some (s.end_call k c .ended) else none
  | .give_up, .live => some ((abandon_request s c.id).set_call k { c with phase := .dropping })
  | .settle, .dropping => some ((try_queue_cancel cfg s c.id).end_call k c .ended)
  | _, _ => none

/-! ## `close` -/

def close_step (s : State) (e : CloseEv) : Option State :=
  match e, s.closer with
  | .begin deadline, .idle =>
    if s.order = none then some { s with order := some .close, closer := .locked deadline } else none
  | .compare_exchange, .locked deadline =>
    match s.state with
    | .READY => some { s with state := .CLOSING, closer := .closing deadline }
    | .CLOSED => some { s with closer := .finishing }
    | _ => some { s with closer := .idle, order := none }
  | .insert, .closing deadline =>
    some { insert_pending s s.next_id deadline with next_id := s.next_id + 1, closer := .registered s.next_id deadline }
  | .queue, .registered id deadline =>
    if room cfg s then
      some { s.queue (.request ⟨id, rpc.SHUTDOWN, deadline, none, .empty⟩) with closer := .queued id }
    else none
  | .queue_failed, .registered id _ => some { remove_pending s id with closer := .finishing }
  | .respond, .queued id => if (s.answers id).isSome then some { s with closer := .finishing } else none
  | .lost, .queued id =>
    if !is_pending s id ∧ s.answers id = none then some { s with closer := .finishing } else none
  | .expire, .queued id => some { abandon_request s id with closer := .finishing }
  | .finish, .finishing =>
    some { fail_session s with closer := .idle, order := none, reading := false, stopped := true, close_queued := true }
  | .drop, .registered id _ => some { remove_pending s id with closer := .idle, order := none }
  | .drop, .queued _ | .drop, .finishing => some { s with closer := .idle, order := none }
  | _, _ => none

/-! ## The reader and the callbacks it accepts -/

/-- The bound and the order of the inbound slots. -/
def inbound_full (s : State) : Bool := s.max_in_flight ≤ s.inbound_active

def inbound_seen (s : State) (id : RequestId) : Bool :=
  match s.inbound_last with
  | some last => id ≤ last
  | none => false

def serve_callback (s : State) (r : Request) : Option State :=
  if ¬ cfg.offer.client_methods.contains r.method then none
  else
    match r.parent_request_id with
    | none => none
    | some parent_id =>
      match s.pending.find? fun p => p.id == parent_id with
      | none => none
      | some parent =>
        if r.deadline_unix_ms > parent.deadline_unix_ms then none
        else if inbound_full s || inbound_seen s r.id then none
        else
          some { s with
            inbound := s.inbound ++ [{ id := r.id, parent := parent_id }]
            inbound_active := s.inbound_active + 1
            inbound_last := some r.id }

/-- The reader fails the session and stops. -/
def read_fail (s : State) : State := { fail_session s with reading := false }

def read_response (s : State) (id : RequestId) (body : Body) : State :=
  if is_pending s id then
    { s with
      pending := s.pending.filter fun r => r.id != id
      abandoned := s.abandoned.erase id
      cancelled := fun p => s.cancelled p || p == id
      answers := fun p => if p = id then some body else s.answers p }
  else if s.abandoned.contains id then { s with abandoned := s.abandoned.erase id }
  else read_fail s

def read_frame (s : State) (frame : ServerFrame) : State :=
  match frame with
  | .callback r => if cfg.callbacks then (serve_callback cfg s r).getD (read_fail s) else read_fail s
  | .reply none _ => read_fail s
  | .reply (some id) body => read_response s id body
  | .terminal id body => read_response s id body
  | .shutdown id => read_response s id .result

def inbound_next (s : State) (k : Nat) (c : Inbound) (e : InboundEv) : Option State :=
  match e, c.phase with
  | .done body, .calling =>
    let body := if s.cancelled c.parent then .error .Cancelled else body
    some { s with inbound := s.inbound.set k { c with phase := .answering body }, inbound_active := s.inbound_active - 1 }
  | .send, .answering body =>
    if room cfg s then
      let body := if s.cancelled c.parent then .error .Cancelled else body
      some { s.queue (.response (some c.id) body) with inbound := s.inbound.set k { c with phase := .sent } }
    else none
  | .lost, .answering _ =>
    if s.stopped then some { s with inbound := s.inbound.set k { c with phase := .gone } } else none
  | _, _ => none

/-! ## The session -/

inductive Ev where
  | connect (e : ConnectEv)
  | start (method : String) (deadline_unix_ms : Nat) (expired : Bool)
  | call (k : Nat) (e : CallEv)
  | close (e : CloseEv)
  | read (frame : ServerFrame)
  | read_failed
  | inbound (k : Nat) (e : InboundEv)
  /-- `abandon`, or the grace of `abandon_after_process_exit` is over. -/
  | abandon
  | overflow
  | drain
  | take
  | writer_fail
  | writer_stop
  | reader_abort

def step (s : State) : Ev → Option State
  | .connect e => connect_step cfg s e
  | .start method deadline expired =>
    if s.connect = .connected then some (start s method deadline expired) else none
  | .call k e => if s.connect = .connected then s.calls[k]?.bind fun c => call_next cfg s k c e else none
  | .close e => if s.connect = .connected then close_step cfg s e else none
  | .read frame => if s.reading then some (read_frame cfg s frame) else none
  | .read_failed => if s.reading then some (read_fail s) else none
  | .inbound k e => s.inbound[k]?.bind fun c => inbound_next cfg s k c e
  | .abandon => if s.connect = .connected then some (fail_session s) else none
  | .overflow => if 0 < s.overflowing then some { fail_session s with overflowing := s.overflowing - 1 } else none
  | .drain => if 0 < s.failing then some (drain s) else none
  | .take => if ¬ s.stopped ∧ s.taken < s.log.length then some { s with taken := s.taken + 1 } else none
  | .writer_fail => if s.stopped then none else some { fail_session s with stopped := true }
  | .writer_stop => if s.close_queued then some { s with stopped := true } else none
  | .reader_abort => if s.connect = .aborted then some { s with reading := false } else none

def machine : Lib.Machine State Ev := ⟨{}, step cfg⟩

end Monosecret.Rpc.Client
