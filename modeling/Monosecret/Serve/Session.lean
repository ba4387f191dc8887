/-
  Monosecret.Serve.Session — the files of one resolver session (`monosecret/src/serve.rs`:
  `get`, `release`, `request_finished`, `shutdown`, `persist_lease_file`,
  `retain_pending_supporting_files`, `remove_lease`).

  Each request has a task: `run_call` runs its method, then `request_finished`. `set` and
  `delete` touch none of this. One event is one critical section of one lock, or one
  operation on the directory; between two of them every other task may run. A task is
  dropped at any point where it waits (`abort`), as `shutdown` is by its timeout.
  `retain_pending_supporting_files` holds the lock of the pending table throughout, so it
  is one event.

  The session directory is a list of files. `same_file::Handle` keeps the file it names
  alive, so identities are not used twice. The directory goes with the last `Arc` of the
  session's state, and the tables with it (`drop_state`). Its `.owner` marker is left out,
  and so are the secrets themselves. `random_token` gives the tokens in the order drawn.
-/

import Mathlib.Algebra.GroupWithZero.Nat
import Monosecret.Lib.Machine
import Monosecret.Lib.Map
import Monosecret.Rpc.Wire

namespace Monosecret.Serve

open Monosecret.Rpc (RequestId)

def MAX_SESSION_LEASES : Nat := 1024
def MAX_SESSION_SUPPORTING_FILES : Nat := 4096

/-- A file of the session directory; a `Lease` is its path and identity. `request` is the
    `get` that persisted it, which no code reads. -/
structure File where
  path : String
  identity : Nat
  request : RequestId
  deriving DecidableEq

/-- A `NamedTempFile` outside the session directory. -/
abbrev Supporting := Nat

inductive Phase where
  | idle
  /-- `get`, up to its resolved value. -/
  | resolving
  | valued (supporting : List Supporting)
  | persisted (file : File) (supporting : List Supporting)
  /-- The file's handle is taken. -/
  | identified (file : File) (supporting : List Supporting)
  /-- The second cancellation check passed. -/
  | uncancelled (file : File) (supporting : List Supporting)
  | retained (file : File)
  /-- The lease table was full; the file is removed. -/
  | full
  | leased (lease_id : String)
  | releasing (path_lease_ids : List String)
  | returned
  | finishing (committed : Bool)
  /-- `request_finished` took the request's lease ID from the pending table. -/
  | unpended (committed : Bool) (lease_id : Option String)
  /-- It took the supporting files too. -/
  | settling (committed : Bool) (lease_id : Option String) (supporting : List Supporting)
  | finished (committed : Bool)
  /-- The task was dropped, with the file it had persisted and not handed on. -/
  | aborted (orphan : Option File)
  deriving DecidableEq

/-- The task holds an `Arc` of the session's state. -/
def Phase.holds : Phase → Bool
  | .idle | .returned | .finished _ | .aborted _ => false
  | _ => true

/-- The file the task has persisted and not handed on. -/
def Phase.file : Phase → Option File
  | .persisted file _ | .identified file _ | .uncancelled file _ | .retained file => some file
  | .aborted orphan => orphan
  | _ => none

inductive Shutdown where
  | running
  /-- The handler's state is taken. -/
  | detached
  | holding (leases : List (String × File))
  | unpended (leases : List (String × File))
  | unfiled (leases : List (String × File))
  | removed
  /-- Done, or dropped with leases it had taken. -/
  | over (left : List (String × File))
  deriving DecidableEq

/-- The leases it took off the table. -/
def Shutdown.leases : Shutdown → List (String × File)
  | .holding leases | .unpended leases | .unfiled leases | .over leases => leases
  | _ => []

def Shutdown.ended : Shutdown → Bool
  | .over _ => true
  | _ => false

structure Session where
  /-- The handler's `state` is there. -/
  attached : Bool := true
  started : List RequestId := []
  calls : RequestId → Phase := fun _ => .idle
  cancelled : RequestId → Bool := fun _ => false
  dir : List File := []
  leases : List (String × File) := []
  pending_leases : Lib.Map RequestId String := .empty
  supporting_files : List Supporting := []
  pending_supporting_files : List (RequestId × List Supporting) := []
  shutdown : Shutdown := .running
  drawn : Nat := 0
  next_identity : Nat := 0

def Session.at (s : Session) (r : RequestId) (phase : Phase) : Session :=
  { s with calls := fun q => if q = r then phase else s.calls q }

/-- A request's task starts. -/
def Session.start (s : Session) (r : RequestId) (phase : Phase) : Session :=
  { s.at r phase with started := s.started ++ [r] }

/-! ## The directory -/

def remove_file (dir : List File) (path : String) : List File := dir.filter fun f => f.path != path

/-- Only the file the lease was made for is removed. -/
def remove_lease (dir : List File) (lease : File) : List File :=
  dir.filter fun f => !(f.path == lease.path && f.identity == lease.identity)

variable (random_token : Nat → String)

/-- `persist_lease_file` with this many attempts left. -/
def persist_lease_file (r : RequestId) : Nat → Session → Option File × Session
  | 0, s => (none, s)
  | attempts + 1, s =>
    let file : File := ⟨random_token s.drawn, s.next_identity, r⟩
    if s.dir.any fun f => f.path == file.path then persist_lease_file r attempts { s with drawn := s.drawn + 1 }
    else (some file, { s with drawn := s.drawn + 1, next_identity := s.next_identity + 1, dir := s.dir ++ [file] })

/-! ## The tables -/

def pending_count (s : Session) : Nat := (s.pending_supporting_files.map fun p => p.2.length).sum

/-- None when the session would keep too many supporting files. -/
def retain_pending_supporting_files (s : Session) (r : RequestId) (files : List Supporting) : Option Session :=
  if files.length > MAX_SESSION_SUPPORTING_FILES then none
  else if s.supporting_files.length + pending_count s + files.length > MAX_SESSION_SUPPORTING_FILES then none
  else some { s with
    pending_supporting_files := (r, files) :: s.pending_supporting_files.filter fun p => p.1 != r }

def pending_files (s : Session) (r : RequestId) : List Supporting :=
  ((s.pending_supporting_files.find? fun p => p.1 == r).map Prod.snd).getD []

def forget_pending_files (s : Session) (r : RequestId) : Session :=
  { s with pending_supporting_files := s.pending_supporting_files.filter fun p => p.1 != r }

/-- `leases.remove(&lease_id)`, and `remove_lease` on what it gave. -/
def remove_entry (s : Session) (lease_id : String) : Session :=
  match s.leases.find? fun p => p.1 == lease_id with
  | some (_, lease) =>
    { s with leases := s.leases.filter fun p => p.1 != lease_id, dir := remove_lease s.dir lease }
  | none => s

/-- The loop of `release`, with the IDs seen and the leases released so far. -/
def release_loop : List String → List String → Nat → Session → Session × Nat
  | [], _, released, s => (s, released)
  | lease_id :: ids, unique, released, s =>
    if unique.contains lease_id then release_loop ids unique released s
    else if s.leases.any fun p => p.1 == lease_id then
      release_loop ids (lease_id :: unique) (released + 1) (remove_entry s lease_id)
    else release_loop ids (lease_id :: unique) released s

/-! ## The steps -/

inductive CallEv where
  | get
  /-- `get` ends with no file persisted: an error, an undeclared or a missing name. -/
  | fail
  | value (supporting : List Supporting)
  | file (supporting : List Supporting)
  | identify (ok : Bool)
  | check
  | retain
  /-- The lease ID is the first candidate not in the table; `tries` were. -/
  | lease (tries : Nat)
  | record
  | refuse
  | release (path_lease_ids : List String)
  | unlock
  | finish (committed : Bool)
  | take_lease
  | take_files
  | settle
  | abort
  deriving DecidableEq

/-- `get` removes the file it persisted and fails. -/
def give_up (s : Session) (r : RequestId) (file : File) (next : Phase) : Session :=
  { s.at r next with dir := remove_file s.dir file.path }

def get_file (s : Session) (r : RequestId) (supporting : List Supporting) : Session :=
  match persist_lease_file random_token r 8 s with
  | (some file, s) => s.at r (.persisted file supporting)
  | (none, s) => s.at r .returned

/-- The candidate after `tries` that are in the table. -/
def draws (s : Session) (tries : Nat) : Bool :=
  (List.range tries).all (fun n => s.leases.any fun p => p.1 == random_token (s.drawn + n)) &&
    !s.leases.any fun p => p.1 == random_token (s.drawn + tries)

def insert_lease (s : Session) (r : RequestId) (file : File) (tries : Nat) : Option Session :=
  if s.leases.length ≥ MAX_SESSION_LEASES then some (give_up s r file .full)
  else if draws random_token s tries then
    let lease_id := random_token (s.drawn + tries)
    some { s.at r (.leased lease_id) with
      leases := s.leases ++ [(lease_id, file)], drawn := s.drawn + tries + 1 }
  else none

/-- The end of `request_finished`. -/
def settle (s : Session) (committed : Bool) (lease_id : Option String) (supporting : List Supporting) : Session :=
  if committed then { s with supporting_files := s.supporting_files ++ supporting }
  else
    match lease_id with
    | some lease_id => remove_entry s lease_id
    | none => s

def call_step (s : Session) (r : RequestId) : CallEv → Option Session
  | .get =>
    match s.calls r with
    | .idle => some (s.start r (if s.attached then .resolving else .returned))
    | _ => none
  | .fail =>
    match s.calls r with
    | .resolving => some (s.at r .returned)
    | _ => none
  | .value supporting =>
    match s.calls r with
    | .resolving => some (s.at r (.valued supporting))
    | _ => none
  | .file supporting =>
    match s.calls r with
    | .resolving => some (get_file random_token s r supporting)
    | _ => none
  | .identify ok =>
    match s.calls r with
    | .persisted file supporting =>
      some (if ok then s.at r (.identified file supporting) else give_up s r file .returned)
    | _ => none
  | .check =>
    match s.calls r with
    | .identified file supporting =>
      some (if s.cancelled r then give_up s r file .returned else s.at r (.uncancelled file supporting))
    | _ => none
  | .retain =>
    match s.calls r with
    | .valued supporting => some (((retain_pending_supporting_files s r supporting).getD s).at r .returned)
    | .uncancelled file supporting =>
      some (match retain_pending_supporting_files s r supporting with
        | some s => s.at r (.retained file)
        | none => give_up s r file .returned)
    | _ => none
  | .lease tries =>
    match s.calls r with
    | .retained file => insert_lease random_token s r file tries
    | _ => none
  | .record =>
    match s.calls r with
    | .leased lease_id => some { s.at r .returned with pending_leases := s.pending_leases.insert r lease_id }
    | _ => none
  | .refuse =>
    match s.calls r with
    | .full => some ((forget_pending_files s r).at r .returned)
    | _ => none
  | .release path_lease_ids =>
    match s.calls r with
    | .idle => some (s.start r (if s.attached then .releasing path_lease_ids else .returned))
    | _ => none
  | .unlock =>
    match s.calls r with
    | .releasing path_lease_ids => some ((release_loop path_lease_ids [] 0 s).1.at r .returned)
    | _ => none
  | .finish committed =>
    match s.calls r with
    | .returned => some (s.at r (if s.attached then .finishing committed else .finished committed))
    | _ => none
  | .take_lease =>
    match s.calls r with
    | .finishing committed =>
      some { s.at r (.unpended committed (s.pending_leases r)) with pending_leases := s.pending_leases.remove r }
    | _ => none
  | .take_files =>
    match s.calls r with
    | .unpended committed lease_id =>
      some ((forget_pending_files s r).at r (.settling committed lease_id (pending_files s r)))
    | _ => none
  | .settle =>
    match s.calls r with
    | .settling committed lease_id supporting =>
      some ((settle s committed lease_id supporting).at r (.finished committed))
    | _ => none
  | .abort =>
    match s.calls r with
    | .idle | .finished _ | .aborted _ => none
    | phase => some (s.at r (.aborted phase.file))

def shutdown_step (s : Session) : Option Session :=
  match s.shutdown with
  | .running => some { s with attached := false, shutdown := .detached }
  | .detached => some { s with leases := [], shutdown := .holding s.leases }
  | .holding leases => some { s with pending_leases := .empty, shutdown := .unpended leases }
  | .unpended leases => some { s with pending_supporting_files := [], shutdown := .unfiled leases }
  | .unfiled leases =>
    some { s with dir := leases.foldl (fun dir p => remove_lease dir p.2) s.dir, shutdown := .removed }
  | .removed => some { s with supporting_files := [], shutdown := .over [] }
  | .over _ => none

/-- Its timeout drops it where it waits for a lock. -/
def shutdown_abort (s : Session) : Option Session :=
  match s.shutdown with
  | .detached | .holding _ | .unpended _ | .removed => some { s with shutdown := .over s.shutdown.leases }
  | _ => none

/-- The last `Arc` of the state goes: its directory is removed, and its tables are gone. -/
def drop_state (s : Session) : Session :=
  if s.shutdown.ended && s.started.all fun r => !(s.calls r).holds then
    { s with
      dir := [], leases := [], pending_leases := .empty, supporting_files := [], pending_supporting_files := [] }
  else s

inductive Ev where
  | call (r : RequestId) (e : CallEv)
  | cancel (r : RequestId)
  | shutdown
  | shutdown_abort
  deriving DecidableEq

def act (s : Session) : Ev → Option Session
  | .call r e => call_step random_token s r e
  | .cancel r => some { s with cancelled := fun q => s.cancelled q || q == r }
  | .shutdown => shutdown_step s
  | .shutdown_abort => shutdown_abort s

def step (s : Session) (e : Ev) : Option Session := (act random_token s e).map drop_state

def machine : Lib.Machine Session Ev := ⟨{}, step random_token⟩

end Monosecret.Serve
