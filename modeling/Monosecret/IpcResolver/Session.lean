/-
  Monosecret.IpcResolver.Session — the C resolver client (`session.c`): its request list, its
  prompts, its write queue and the threads that share them.

  A step is one critical section of `client->mutex`, with every clock reading, allocation and
  payload size it meets as an argument; the threads' positions between two sections are part of
  the state. `written`, `accepted` and `Request.left` are history that no section reads. The
  buffers a request returns, reference counts and the stderr thread are not here.
-/

import Mathlib.Algebra.GroupWithZero.Nat
import Monosecret.Lib.Machine

namespace Monosecret.IpcResolver

open Lib

/-! ## The data -/

def SS_ABSOLUTE_MAX_FRAME : Nat := 1048576
def SS_MIN_FRAME : Nat := 4096
def SS_MAX_IN_FLIGHT : Nat := 32
def SS_MAX_ID : Nat := 9007199254740991
def SS_MAX_DEADLINE_HORIZON_MS : Nat := 300000
def SIZE_MAX : Nat := 2 ^ 64 - 1

/-- `n--` on a `size_t`. -/
def size_dec (n : Nat) : Nat := if n = 0 then SIZE_MAX else n - 1

inductive Status
  | OK | INVALID_ARGUMENT | UNAVAILABLE | IO_ERROR | PROTOCOL | REMOTE_ERROR | CANCELLED | DEADLINE_EXCEEDED | PROMPT_PENDING
  deriving DecidableEq

structure Request where
  id : Nat
  deadline_unix_ms : Nat
  application : Bool
  status : Status := .UNAVAILABLE
  running : Bool := true
  abandoned : Bool := false
  waiter : Bool := false
  cancel_sent : Bool := false
  /-- On `client->requests`. -/
  listed : Bool := true
  /-- Its waiter is blocked on the request's condition. -/
  blocked : Bool := false
  /-- How often `running` was cleared. -/
  left : Nat := 0
  deriving DecidableEq

structure Prompt where
  id : Nat
  parent_request_id : Nat
  deadline_unix_ms : Nat
  answered : Bool := false
  deriving DecidableEq

inductive Outbound
  | request (id : Nat)
  | cancel (id : Nat)
  | answer (id : Nat)
  deriving DecidableEq

/-- Who frees a prompt that has left the queue: the caller that took it, `client_close` that
    detached it, or the reader that received it while closing. -/
inductive Owner
  | caller | close | reader
  deriving DecidableEq

structure Held where
  prompt : Prompt
  owner : Owner
  /-- Calls of the caller's between the two sections of `answer_prompt`. -/
  calls : Nat := 0
  /-- The owner's own decline stands between the two sections. -/
  declining : Bool := false
  /-- What the owner's own decline returned. -/
  declined : Option Status := none
  deriving DecidableEq

inductive Reader
  | reading
  /-- After the initialize response, until the opener has stored what was negotiated. -/
  | blocked
  | declining (id : Nat)
  | failing (status : Status)
  | stopped
  deriving DecidableEq

inductive Writer
  | writing | failing | stopped
  deriving DecidableEq

inductive Opener
  | starting | waiting | publishing | aborting | opened | failed
  deriving DecidableEq

inductive Closer
  | idle | declining | shutdown
  deriving DecidableEq

structure Config where
  answer_prompts : Bool
  offered_frame : Nat
  offered_in_flight : Nat

structure State where
  initializing : Bool := true
  ready : Bool := false
  closing : Bool := false
  closed : Bool := false
  writer_stopping : Bool := false
  max_frame_bytes : Nat := SS_ABSOLUTE_MAX_FRAME
  max_in_flight : Nat := 1
  in_flight : Nat := 0
  entry_count : Nat := 0
  next_id : Nat := 1
  last_callback_id : Nat := 0
  /-- Every request made, the newest first; those `listed` are `client->requests`. -/
  pool : List Request := []
  prompts : List Prompt := []
  prompt_count : Nat := 0
  write_queue : List Outbound := []
  write_count : Nat := 0
  reader : Reader := .reading
  writer : Writer := .writing
  opener : Opener := .starting
  closer : Closer := .idle
  held : List Held := []
  /-- Requests whose `rpc.cancel` a thread has yet to queue. -/
  cancels : List Nat := []
  /-- Everything queued so far, the oldest first. -/
  written : List Outbound := []
  /-- The prompts `accept_prompt` returned true for. -/
  accepted : List Nat := []

/-! ## Requests -/

def Request.leave (r : Request) (status : Status) : Request :=
  { r with running := false, status := status, left := r.left + 1 }

def Request.abandon (r : Request) : Request := { r.leave .DEADLINE_EXCEEDED with abandoned := true }

def Request.cancel (r : Request) : Request := { r with cancel_sent := true }

def Request.set_waiter (r : Request) (waiter : Bool) : Request := { r with waiter := waiter }

def Request.block (r : Request) (blocked : Bool) : Request := { r with blocked := blocked }

def Request.unlink (r : Request) : Request := { r with listed := false }

/-- What `fail_all` does with one request; only those on the list are visited. -/
def Request.fail (r : Request) (status : Status) : Request :=
  if r.listed then if r.running then r.unlink.leave status else r.unlink else r

def State.requests (s : State) : List Request := s.pool.filter (·.listed)

def find_request (s : State) (id : Nat) : Option Request := s.requests.find? (·.id == id)

/-- The request behind a call handle, listed or not. -/
def State.call (s : State) (id : Nat) : Option Request := s.pool.find? (·.id == id)

def State.update (s : State) (id : Nat) (f : Request → Request) : State :=
  { s with pool := s.pool.map fun r => if r.id = id then f r else r }

def remove_request (s : State) (id : Nat) : State :=
  if (find_request s id).isSome then
    { s.update id Request.unlink with entry_count := size_dec s.entry_count }
  else s

/-- `running` is cleared and the slot given back. -/
def finish (s : State) (id : Nat) (f : Request → Request) : State :=
  { s.update id f with in_flight := size_dec s.in_flight }

/-- Queues under the lock; none when the payload is refused. -/
def write_payload_locked (s : State) (item : Outbound) (size : Nat) (memory : Bool) : Option State :=
  if s.closed then none
  else if size = 0 ∨ size > s.max_frame_bytes then none
  else if ¬ memory then none
  else if s.writer_stopping ∨ s.write_count ≥ SS_MAX_IN_FLIGHT * 2 + 4 then none
  else
    some { s with
      write_queue := s.write_queue ++ [item]
      write_count := s.write_count + 1
      written := s.written ++ [item] }

/-- What building and queueing one request meets: the two allocations of `start_request`, the
    size of the payload (none when it cannot be built), the allocation of the queue entry. -/
structure Build where
  memory : Bool
  payload : Option Nat
  room : Bool

/-- The new request takes the next id, and is listed and counted. -/
def add_request (s : State) (deadline : Nat) (application : Bool) : State :=
  { s with
    next_id := s.next_id + 1
    pool := { id := s.next_id, deadline_unix_ms := deadline, application := application } :: s.pool
    in_flight := s.in_flight + 1
    entry_count := s.entry_count + 1 }

def start_request (s : State) (now deadline : Nat) (application : Bool) (b : Build) : State × Status :=
  let deadline := min deadline (now + SS_MAX_DEADLINE_HORIZON_MS)
  if s.closed ∨ (application ∧ (¬ s.ready ∨ s.closing)) then (s, .UNAVAILABLE)
  else if s.next_id = 0 ∨ s.next_id > SS_MAX_ID ∨ s.in_flight ≥ s.max_in_flight ∨
      s.entry_count ≥ s.max_in_flight * 2 then (s, .UNAVAILABLE)
  else if ¬ b.memory then ({ s with next_id := s.next_id + 1 }, .UNAVAILABLE)
  else
    let id := s.next_id
    let s := add_request s deadline application
    match b.payload.bind fun size => write_payload_locked s (.request id) size b.room with
    | some s => (s, .OK)
    | none => (remove_request (finish s id (·.leave .IO_ERROR)) id, .IO_ERROR)

/-! ## Prompts -/

/-- The loop of `prompts_expire` and `prompts_cancel_parent`. -/
def drop_prompts (p : Prompt → Bool) : List Prompt → Nat → List Prompt × Nat
  | [], n => ([], n)
  | q :: qs, n =>
    if p q then drop_prompts p qs (size_dec n)
    else (q :: (drop_prompts p qs n).1, (drop_prompts p qs n).2)

def State.drop_prompts (s : State) (p : Prompt → Bool) : State :=
  { s with
    prompts := (IpcResolver.drop_prompts p s.prompts s.prompt_count).1
    prompt_count := (IpcResolver.drop_prompts p s.prompts s.prompt_count).2 }

def prompts_expire (s : State) (now : Nat) : State := s.drop_prompts fun p => decide (p.deadline_unix_ms ≤ now)

def prompts_cancel_parent (s : State) (id : Nat) : State := s.drop_prompts fun p => p.parent_request_id == id

def prompts_clear (s : State) : State := { s with prompts := [], prompt_count := 0 }

def fail_all (s : State) (status : Status) : State :=
  if s.closed then s
  else
    { prompts_clear s with
      closed := true
      ready := false
      in_flight := 0
      entry_count := 0
      pool := s.pool.map (·.fail status) }

/-! ## The reader -/

inductive Answer
  | yes | no | declining

/-- The sections of `accept_prompt` up to its return or to its own decline. `now₁` is the clock
    reading of `prompts_expire`, `now₂` that of the deadline test. -/
def accept_prompt (cfg : Config) (s : State) (p : Prompt) (memory : Bool) (now₁ now₂ : Nat) : State × Answer :=
  if ¬ cfg.answer_prompts ∨ p.id = 0 ∨ p.id > SS_MAX_ID ∨ ¬ memory then (s, .no)
  else
    match find_request s p.parent_request_id with
    | none => (s, .no)
    | some parent =>
      if ¬ parent.application ∨ ¬ parent.running ∨ parent.cancel_sent ∨
          p.deadline_unix_ms > parent.deadline_unix_ms then (s, .no)
      else
        let s := prompts_expire s now₁
        if p.deadline_unix_ms ≤ now₂ then ({ s with accepted := s.accepted ++ [p.id] }, .yes)
        else if s.closed ∨ p.id ≤ s.last_callback_id ∨ s.prompt_count ≥ s.max_in_flight then (s, .no)
        else
          let s := { s with last_callback_id := p.id }
          if s.closing then ({ s with held := { prompt := p, owner := .reader } :: s.held }, .declining)
          else
            ({ s with
                prompts := p :: s.prompts
                prompt_count := s.prompt_count + 1
                accepted := s.accepted ++ [p.id] }, .yes)

/-- The delivery of a response in `reader_main`; none for a response that is a protocol error. -/
def deliver_response (s : State) (id : Nat) (status : Status) : Option State :=
  match find_request s id with
  | none => none
  | some r =>
    if r.abandoned then some (remove_request (prompts_cancel_parent s id) id)
    else if r.running then
      some (remove_request (prompts_cancel_parent (finish s id (·.leave status)) id) id)
    else none

/-! ## Deadlines and waiting -/

/-- What the deadline thread and a timed out waiter do with a running request. -/
def abandon (s : State) (id : Nat) : State :=
  prompts_cancel_parent (finish s id Request.abandon) id

/-- One turn of the loop of `deadline_main`, with the ids to cancel collected so far. -/
def expire_request (now : Nat) (acc : State × List Nat) (id : Nat) : State × List Nat :=
  match find_request acc.1 id with
  | none => acc
  | some r =>
    if r.running ∧ r.deadline_unix_ms ≤ now then
      let s := abandon acc.1 id
      if ¬ r.cancel_sent ∧ acc.2.length < SS_MAX_IN_FLIGHT * 2 then
        (s.update id Request.cancel, acc.2 ++ [id])
      else (s, acc.2)
    else acc

def deadline_pass (s : State) (now : Nat) : State :=
  let (t, expired) := (s.requests.map Request.id).foldl (expire_request now) (s, [])
  { t with cancels := t.cancels ++ expired }

/-- The timeout branch of `wait_call`. -/
def wait_abandon (s : State) (id : Nat) : State :=
  { (abandon s id).update id Request.cancel with cancels := s.cancels ++ [id] }

/-- One turn of the loop of `wait_call`, to its return or to the next block. -/
def wait_turn (s : State) (r : Request) (now₁ now₂ : Nat) : State × Option Status :=
  if ¬ r.running then (s.update r.id (·.block false), some r.status)
  else
    let s := prompts_expire s now₁
    if r.application ∧ ¬ s.prompts.isEmpty then
      ((s.update r.id (·.set_waiter false)).update r.id (·.block false), some .PROMPT_PENDING)
    else if r.deadline_unix_ms ≤ now₂ then
      ((wait_abandon s r.id).update r.id (·.block false), some .DEADLINE_EXCEEDED)
    else (s.update r.id (·.block true), none)

def wait_call (s : State) (r : Request) (now₁ now₂ : Nat) : State × Option Status :=
  if r.waiter then (s, some .INVALID_ARGUMENT)
  else wait_turn (s.update r.id (·.set_waiter true)) (r.set_waiter true) now₁ now₂

/-- The waiter is woken, or its wait times out. -/
def wait_wake (s : State) (r : Request) (timed_out : Bool) (now₁ now₂ : Nat) : State × Option Status :=
  if timed_out then
    if r.running then
      ((wait_abandon s r.id).update r.id (·.block false), some .DEADLINE_EXCEEDED)
    else (s.update r.id (·.block false), some r.status)
  else wait_turn s r now₁ now₂

def call_cancel (s : State) (r : Request) : State :=
  if r.running ∧ ¬ r.cancel_sent then
    let s := prompts_cancel_parent (s.update r.id Request.cancel) r.id
    { s with cancels := s.cancels ++ [r.id] }
  else s

def cancel_payload (id : Nat) : String :=
  "\x7b\"jsonrpc\":\"2.0\",\"method\":\"rpc.cancel\",\"params\":\x7b\"id\":" ++ toString id ++ "\x7d\x7d"

def send_cancel (s : State) (id : Nat) (memory : Bool) : State :=
  (write_payload_locked s (.cancel id) (cancel_payload id).length memory).getD s

/-! ## Answering -/

def prompt_answerable_locked (s : State) (p : Prompt) (now : Nat) : Prompt × Status :=
  if p.answered then (p, .INVALID_ARGUMENT)
  else if s.closed then ({ p with answered := true }, .UNAVAILABLE)
  else
    match find_request s p.parent_request_id with
    | none => ({ p with answered := true }, .CANCELLED)
    | some parent =>
      if ¬ parent.running ∨ parent.cancel_sent ∨ p.deadline_unix_ms > parent.deadline_unix_ms then
        ({ p with answered := true }, .CANCELLED)
      else if p.deadline_unix_ms ≤ now then ({ p with answered := true }, .DEADLINE_EXCEEDED)
      else (p, .OK)

def decline_payload (id : Nat) : String :=
  "\x7b\"jsonrpc\":\"2.0\",\"id\":" ++ toString id ++
    ",\"error\":\x7b\"code\":-32006,\"message\":\"interaction required\",\"data\":\x7b\"kind\":\"interaction_required\",\"retryable\":false\x7d\x7d\x7d"

/-- The answer without its value. -/
def answer_payload (id : Nat) : String :=
  "\x7b\"jsonrpc\":\"2.0\",\"id\":" ++ toString id ++ ",\"result\":\x7b\"value\":\"\"\x7d\x7d"

/-- An answer, with the size its value takes in the payload, or a decline. -/
inductive Reply
  | value (size : Nat)
  | decline
  deriving DecidableEq

def Reply.size (id : Nat) : Reply → Nat
  | .value size => (answer_payload id).length + size
  | .decline => (decline_payload id).length

def Held.id (h : Held) : Nat := h.prompt.id

def State.holding (s : State) (id : Nat) : Option Held := s.held.find? (·.id == id)

def State.set_held (s : State) (id : Nat) (f : Held → Held) : State :=
  { s with held := s.held.map fun h => if h.id = id then f h else h }

/-- `answer_prompt` returns to the owner's own decline, or to the caller. -/
def Held.returned (h : Held) (own : Bool) (status : Status) : Held :=
  if own then { h with declining := false, declined := some status } else { h with calls := h.calls - 1 }

/-- Whether an attempt of this kind stands between the two sections. -/
def Held.attempting (h : Held) (own : Bool) : Bool := if own then h.declining else decide (0 < h.calls)

/-- The first section of `answer_prompt`. -/
def check_answer (s : State) (h : Held) (own : Bool) (now : Nat) : State :=
  match prompt_answerable_locked s h.prompt now with
  | (_, .OK) => s.set_held h.id fun h => if own then { h with declining := true } else { h with calls := h.calls + 1 }
  | (p, status) =>
    s.set_held h.id fun h => if own then { h with prompt := p, declined := some status } else { h with prompt := p }

/-- The second section of `answer_prompt`. -/
def commit_answer (s : State) (h : Held) (own : Bool) (reply : Reply) (now : Nat) (memory : Bool) : State :=
  let id := h.id
  match prompt_answerable_locked s h.prompt now with
  | (p, .OK) =>
    if reply.size id > s.max_frame_bytes then s.set_held id (·.returned own .INVALID_ARGUMENT)
    else
      let s := s.set_held id fun h => { h with prompt := { p with answered := true } }
      match write_payload_locked s (.answer id) (reply.size id) memory with
      | some s => s.set_held id (·.returned own .OK)
      | none => s.set_held id (·.returned own .IO_ERROR)
  | (p, status) => s.set_held id fun h => { h.returned own status with prompt := p }

/-! ## The machine -/

def limits_valid (frame in_flight : Nat) : Bool :=
  SS_MIN_FRAME ≤ frame && frame ≤ SS_ABSOLUTE_MAX_FRAME && in_flight != 0 && in_flight ≤ SS_MAX_IN_FLIGHT

inductive OpenEv
  | start (now deadline : Nat) (b : Build)
  | validated (frame in_flight : Nat)
  | refused
  | publish
  | abort

inductive ReaderEv
  | stop
  /-- A failed read, the end of the stream. -/
  | broken (status : Status)
  /-- A frame that is no response, no prompt and no ignorable notification. -/
  | violation
  | response (id : Nat) (status : Status)
  | resume
  | prompt (id parent_request_id deadline_unix_ms : Nat) (memory : Bool) (now₁ now₂ : Nat)
  | declined
  | fail

inductive WriterEv
  | write (ok : Bool)
  | fail
  | stop

inductive CallEv
  | start (now₁ now₂ deadline : Nat) (advertised : Bool) (b : Build)
  | wait (id now₁ now₂ : Nat)
  | wake (id : Nat) (timed_out : Bool) (now₁ now₂ : Nat)
  /-- `monosecret_resolver_call_cancel`, also as the first act of `monosecret_resolver_call_free`. -/
  | cancel (id : Nat)
  | send_cancel (id : Nat) (memory : Bool)

inductive PromptEv
  | take (now : Nat)
  | check (id : Nat) (own : Bool) (now : Nat)
  | unbuilt (id : Nat) (own : Bool)
  | commit (id : Nat) (own : Bool) (reply : Reply) (now : Nat) (memory : Bool)
  | free (id : Nat)

inductive CloseEv
  | start
  | shutdown (now deadline : Nat) (b : Build)
  | stop_writer
  | fail
  | clear

inductive Ev
  | opener (e : OpenEv)
  | reader (e : ReaderEv)
  | writer (e : WriterEv)
  | deadline (now : Nat)
  | call (e : CallEv)
  | prompt (e : PromptEv)
  | close (e : CloseEv)

/-- What `wait_call` returned for `rpc.initialize`. -/
def State.initialized (s : State) : Option Status :=
  match s.call 1 with
  | some r => if ¬ r.running ∧ ¬ r.blocked ∧ r.waiter then some r.status else none
  | none => none

def open_step (cfg : Config) (s : State) : OpenEv → Option State
  | .start now deadline b =>
    if s.opener = .starting then
      let (t, status) := start_request s now deadline false b
      some { t with opener := if status = .OK then .waiting else .aborting }
    else none
  | .validated frame in_flight =>
    if s.opener = .waiting ∧ s.initialized = some .OK ∧ limits_valid frame in_flight ∧
        frame ≤ cfg.offered_frame ∧ in_flight ≤ cfg.offered_in_flight then
      some { s with max_frame_bytes := frame, max_in_flight := in_flight, opener := .publishing }
    else none
  | .refused => if s.opener = .waiting ∧ s.initialized.isSome then some { s with opener := .aborting } else none
  | .publish =>
    if s.opener = .publishing then some { s with initializing := false, ready := true, opener := .opened } else none
  | .abort => if s.opener = .aborting then some { s with initializing := false, opener := .failed } else none

def reader_step (cfg : Config) (s : State) : ReaderEv → Option State
  | .stop => if s.reader = .reading ∧ s.closed then some { s with reader := .stopped } else none
  | .broken status => if s.reader = .reading then some { s with reader := .failing status } else none
  | .violation => if s.reader = .reading then some { s with reader := .failing .PROTOCOL } else none
  | .response id status =>
    if s.reader = .reading then
      match deliver_response s id status with
      | none => some { s with reader := .failing .PROTOCOL }
      | some t => some { t with reader := if id = 1 then .blocked else .reading }
    else none
  | .resume =>
    if s.reader = .blocked ∧ (¬ s.initializing ∨ s.closed) then some { s with reader := .reading } else none
  | .prompt id parent_request_id deadline_unix_ms memory now₁ now₂ =>
    if s.reader = .reading then
      let (t, answer) := accept_prompt cfg s { id, parent_request_id, deadline_unix_ms } memory now₁ now₂
      some { t with
        reader := match answer with
          | .yes => .reading
          | .no => .failing .PROTOCOL
          | .declining => .declining id }
    else none
  | .declined =>
    match s.reader with
    | .declining id =>
      match s.holding id with
      | some h =>
        h.declined.map fun status =>
          let s := { s with held := s.held.filter (·.id != id) }
          if status = .OK ∨ status = .CANCELLED ∨ status = .DEADLINE_EXCEEDED then
            { s with reader := .reading, accepted := s.accepted ++ [id] }
          else { s with reader := .failing .PROTOCOL }
      | none => none
    | _ => none
  | .fail =>
    match s.reader with
    | .failing status => some { fail_all s status with reader := .stopped }
    | _ => none

def writer_step (s : State) : WriterEv → Option State
  | .write ok =>
    if s.writer = .writing ∧ ¬ s.writer_stopping then
      match s.write_queue with
      | [] => none
      | _ :: rest =>
        some { s with
          write_queue := rest
          write_count := size_dec s.write_count
          writer := if ok then .writing else .failing }
    else none
  | .fail => if s.writer = .failing then some { fail_all s .IO_ERROR with writer := .stopped } else none
  | .stop =>
    if s.writer = .writing ∧ s.writer_stopping then
      some { s with write_queue := [], write_count := 0, writer := .stopped }
    else none

def call_start (s : State) (now₁ now₂ deadline : Nat) (advertised : Bool) (b : Build) : State × Status :=
  if deadline ≤ now₁ then (s, .DEADLINE_EXCEEDED)
  else if ¬ advertised then (s, .PROTOCOL)
  else start_request s now₂ deadline true b

def call_step (s : State) : CallEv → Option State
  | .start now₁ now₂ deadline advertised b =>
    if s.opener = .opened then some (call_start s now₁ now₂ deadline advertised b).1 else none
  | .wait id now₁ now₂ => (s.call id).map fun r => (wait_call s r now₁ now₂).1
  | .wake id timed_out now₁ now₂ =>
    (s.call id).bind fun r => if r.blocked then some (wait_wake s r timed_out now₁ now₂).1 else none
  | .cancel id => (s.call id).map (call_cancel s)
  | .send_cancel id memory =>
    if id ∈ s.cancels then some (send_cancel { s with cancels := s.cancels.erase id } id memory) else none

def prompt_step (s : State) : PromptEv → Option State
  | .take now =>
    if s.closed then none
    else
      let s := prompts_expire s now
      match s.prompts with
      | [] => some s
      | p :: rest =>
        some { s with
          prompts := rest
          prompt_count := size_dec s.prompt_count
          held := { prompt := p, owner := .caller } :: s.held }
  | .check id own now =>
    (s.holding id).bind fun h =>
      if own then
        -- `prompt_free` declines only what is unanswered; the other two owners hold a fresh prompt
        if ¬ h.prompt.answered ∧ ¬ h.declining ∧ h.declined.isNone then some (check_answer s h own now) else none
      else if h.owner = .caller then some (check_answer s h own now) else none
  | .unbuilt id own =>
    (s.holding id).bind fun h =>
      if h.attempting own then some (s.set_held id (·.returned own .UNAVAILABLE)) else none
  | .commit id own reply now memory =>
    (s.holding id).bind fun h =>
      if h.attempting own ∧ (own → reply = .decline) then some (commit_answer s h own reply now memory) else none
  | .free id =>
    (s.holding id).bind fun h =>
      if h.owner ≠ .reader ∧ h.calls = 0 ∧ ¬ h.declining ∧ (h.prompt.answered ∨ h.declined.isSome) then
        some { s with held := s.held.filter (·.id != id) }
      else none

def close_step (s : State) : CloseEv → Option State
  | .start =>
    if s.opener = .opened ∧ ¬ s.closing ∧ ¬ s.closed then
      some { prompts_clear s with
        closing := true
        closer := .declining
        held := s.prompts.map (fun p => { prompt := p, owner := .close }) ++ s.held }
    else none
  | .shutdown now deadline b =>
    if s.closer = .declining ∧ ∀ h ∈ s.held, h.owner ≠ .close then
      some { (start_request s now deadline false b).1 with closer := .shutdown }
    else none
  | .stop_writer =>
    if s.opener ≠ .opened ∨ s.closing ∨ s.closed then some { s with writer_stopping := true } else none
  | .fail => if s.writer_stopping then some (fail_all s .UNAVAILABLE) else none
  | .clear => if s.closed ∧ s.writer_stopping then some { s with write_queue := [], write_count := 0 } else none

def step (cfg : Config) (s : State) : Ev → Option State
  | .opener e => open_step cfg s e
  | .reader e => reader_step cfg s e
  | .writer e => writer_step s e
  | .deadline now => if s.closed then none else some (deadline_pass s now)
  | .call e => call_step s e
  | .prompt e => prompt_step s e
  | .close e => close_step s e

def machine (cfg : Config) : Machine State Ev := { init := {}, step := step cfg }

end Monosecret.IpcResolver
