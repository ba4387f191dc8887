/-
  Monosecret.Audit.Log — the audit log: one file, one logger (`JsonlSink::write_line`,
  `AuditLogger::record`, `last_line_sha`, `verify_chain` in `monosecret/src/audit.rs`).

  The file is the bytes on disk. A step of a run is one `record` with what the file system
  answers to it (the size cannot be read, the file cannot be truncated, the line is written or
  writing fails after some of its bytes), or the log opened anew by the next process. JSON
  text and the digest are parameters; `serde_json` reads an event back as it was written, on
  one line (`Serde.Lawful`).
-/

import Monosecret.Cache.Envelope
import Monosecret.Lib.Lines
import Monosecret.Audit.Event

namespace Monosecret.Audit

open Lib Json JsonText
open Cache (utf8)

/-- `serde_json::to_string` of a value, `serde_json::from_str`. -/
structure Serde where
  to_string : Json → String
  from_str : String → Option Json

structure Serde.Lawful (serde : Serde) : Prop where
  /-- Up to the reader's depth limit. -/
  read_back : ∀ value, Plain value → value.nesting < 128 → serde.from_str (serde.to_string value) = some value
  one_line : ∀ value, OneLine (serde.to_string value).toList
  empty : serde.from_str "" = none

/-! ## Objects -/

/-- `Map::insert`: a key that is there keeps its place. -/
def insert (key : String) (value : Json) (members : List (String × Json)) : List (String × Json) :=
  if members.any (·.1 == key) then members.map fun entry => if entry.1 = key then (key, value) else entry
  else members ++ [(key, value)]

def remove (key : String) (members : List (String × Json)) : List (String × Json) := members.filter (·.1 ≠ key)

def as_str : Json → Option String
  | .str s => some s
  | _ => none

mutual

def sort_all_objects : Json → Json
  | .arr items => .arr (sort_items items)
  | .obj members => .obj ((sort_members members).insertionSort fun a b => a.1 ≤ b.1)
  | value => value

def sort_items : List Json → List Json
  | [] => []
  | item :: items => sort_all_objects item :: sort_items items

def sort_members : List (String × Json) → List (String × Json)
  | [] => []
  | (key, member) :: members => (key, sort_all_objects member) :: sort_members members

end

/-! ## The chain -/

section

-- `sha256_hex` is the SHA-256 digest of a text, in lowercase hexadecimal.
variable (serde : Serde) (sha256_hex : String → String)

def chain_digest (prev : Option String) (entry : Json) : String :=
  sha256_hex (prev.getD "genesis" ++ "\n" ++ serde.to_string (sort_all_objects entry))

def restart_chained_line (line : String) : Option (String × String) := do
  let .obj fields ← serde.from_str line | none
  if fields.all (·.1 ≠ "sha") then none
  else
    let fields := insert "prev" .null (remove "sha" fields)
    let digest := chain_digest serde sha256_hex none (.obj fields)
    some (serde.to_string (.obj (insert "sha" (.str digest) fields)), digest)

inductive ChainBreakKind where
  | DigestMismatch
  | BrokenLink
  | UnchainedAfterChained
  | Unparseable
  deriving DecidableEq

structure ChainBreak where
  line : Nat
  kind : ChainBreakKind
  deriving DecidableEq

structure ChainReport where
  entries : Nat
  chained : Nat
  legacy : Nat
  chain_starts : Nat
  breaks : List ChainBreak
  deriving DecidableEq

/-- What `verify_chain` carries from line to line. -/
structure Walk where
  chained : Nat
  legacy : Nat
  chain_starts : Nat
  breaks : List ChainBreak
  prev : Option String
  chained_seen : Bool

def Walk.start : Walk := ⟨0, 0, 0, [], none, false⟩

def Walk.break_at (w : Walk) (index : Nat) (kind : ChainBreakKind) : Walk :=
  { w with breaks := w.breaks ++ [⟨index + 1, kind⟩] }

/-- The entry's predecessor: none, the last chained entry, or a broken link. -/
def Walk.link (w : Walk) (index : Nat) : Option String → Walk
  | none => { w with chain_starts := w.chain_starts + 1 }
  | some linked => if w.prev = some linked then w else w.break_at index .BrokenLink

def stripped : Json → Json
  | .obj fields => .obj (remove "sha" fields)
  | value => value

def verify_line (w : Walk) (numbered : String × Nat) : Walk :=
  match serde.from_str numbered.1 with
  | none => w.break_at numbered.2 .Unparseable
  | some value =>
    match (value.get "sha").bind as_str with
    | none =>
      if w.chained_seen then w.break_at numbered.2 .UnchainedAfterChained else { w with legacy := w.legacy + 1 }
    | some recorded =>
      let w := { w with chained_seen := true }
      let entry_prev := (value.get "prev").bind as_str
      if chain_digest serde sha256_hex entry_prev (stripped value) ≠ recorded then w.break_at numbered.2 .DigestMismatch
      else
        let linked := w.link numbered.2 entry_prev
        { linked with prev := some recorded, chained := linked.chained + 1 }

def walk (lines : List String) : Walk := lines.zipIdx.foldl (verify_line serde sha256_hex) .start

def verify_chain (lines : List String) : ChainReport :=
  let w := walk serde sha256_hex lines
  ⟨lines.length, w.chained, w.legacy, w.chain_starts, w.breaks⟩

/-! ## The file -/

/-- `fs::read_to_string`: bytes that are no UTF-8 are an error. -/
def read_to_string (file : List UInt8) : Option String := String.fromUTF8? ⟨file.toArray⟩

/-- The digest of the last line, for a log that can be read. -/
def last_line_sha (file : List UInt8) (readable : Bool) : Option String := do
  let content ← if readable then read_to_string file else none
  let line ← (lines content).reverse.find? fun line => line ≠ ""
  let value ← serde.from_str line
  let sha ← value.get "sha"
  as_str sha

/-- What the file system answers while a line is written. -/
structure Disk where
  /-- The size of the file can be read. -/
  metadata : Bool
  /-- The file can be truncated. -/
  truncates : Bool
  /-- Writing fails, after so many bytes of the line. -/
  failed : Option Nat
  deriving DecidableEq

inductive AuditWrite where
  | Written
  | Restarted (digest : String)
  | Failed (restarted : Bool)
  deriving DecidableEq

def DEFAULT_MAX_SIZE_BYTES : Nat := 1048576

/-- `JsonlSink::new`: a cap of zero is the default cap. -/
def size_cap (max_size_bytes : Nat) : Nat := if max_size_bytes = 0 then DEFAULT_MAX_SIZE_BYTES else max_size_bytes

/-- The file is truncated before the line is written. -/
def restarts (max_size_bytes : Nat) (file : List UInt8) (line : String) (disk : Disk) : Bool :=
  disk.metadata && decide (0 < file.length ∧ max_size_bytes < file.length + ((utf8 line).length + 1)) && disk.truncates

/-- The file and the answer after a line; the bytes of a line that fails stay in the file. -/
def write_line (max_size_bytes : Nat) (file : List UInt8) (line : String) (disk : Disk) : List UInt8 × AuditWrite :=
  let restarted := restarts max_size_bytes file line disk
  let kept := if restarted then [] else file
  let reset := if restarted then restart_chained_line serde sha256_hex line else none
  let emitted := (reset.map Prod.fst).getD line
  match disk.failed with
  | some written => (kept ++ (utf8 emitted).take written, .Failed restarted)
  | none => (kept ++ utf8 (emitted ++ "\n"), (reset.map fun r => AuditWrite.Restarted r.2).getD .Written)

structure AuditLogger where
  file : List UInt8
  max_size_bytes : Nat
  last_hash : Option String
  deriving DecidableEq

/-- A logger over a log that is there (`from_config`). -/
def from_config (file : List UInt8) (max_size_bytes : Nat) (readable : Bool) : AuditLogger :=
  ⟨file, size_cap max_size_bytes, last_line_sha serde file readable⟩

/-- The line and the digest of an event with its predecessor, if it serializes. -/
def chained_line (event : AuditEvent) (prev : Option String) : Option (String × String) := do
  let value ← { event with prev := prev }.to_value
  let digest := chain_digest serde sha256_hex prev value
  let .obj fields := value | none
  some (serde.to_string (.obj (insert "sha" (.str digest) fields)), digest)

def AuditLogger.record (logger : AuditLogger) (event : AuditEvent) (disk : Disk) : AuditLogger :=
  match chained_line serde sha256_hex event logger.last_hash with
  | none => logger
  | some (line, digest) =>
    match write_line serde sha256_hex logger.max_size_bytes logger.file line disk with
    | (file, .Written) => { logger with file := file, last_hash := some digest }
    | (file, .Restarted actual) => { logger with file := file, last_hash := some actual }
    | (file, .Failed true) => { logger with file := file, last_hash := none }
    | (file, .Failed false) => { logger with file := file }

/-! ## Runs -/

inductive Step where
  | record (event : AuditEvent) (disk : Disk)
  /-- The next process opens the log. -/
  | reopen (max_size_bytes : Nat) (readable : Bool)

/-- Writing the line fails. -/
def Step.fails : Step → Bool
  | .record _ disk => disk.failed.isSome
  | .reopen _ _ => false

def AuditLogger.step (logger : AuditLogger) : Step → AuditLogger
  | .record event disk => logger.record serde sha256_hex event disk
  | .reopen max_size_bytes readable => from_config serde logger.file max_size_bytes readable

def AuditLogger.run (logger : AuditLogger) (steps : List Step) : AuditLogger :=
  steps.foldl (fun logger step => logger.step serde sha256_hex step) logger

/-- The step restarts the file at the cap. -/
def AuditLogger.restarts_at (logger : AuditLogger) : Step → Bool
  | .record event disk =>
    (chained_line serde sha256_hex event logger.last_hash).any fun entry =>
      restarts logger.max_size_bytes logger.file entry.1 disk
  | .reopen _ _ => false

/-- The lines of a file, all of them whole. -/
def WholeLines (file : List UInt8) (found : List String) : Prop :=
  ∃ content, read_to_string file = some content ∧ Ended content.toList ∧ found = lines content

/-- The file is whole lines that verify. -/
def Intact (file : List UInt8) : Prop :=
  ∃ found, WholeLines file found ∧ (verify_chain serde sha256_hex found).breaks = []

/-- The file has one chain start, which is its first line, or nothing yet. -/
def OneStart (file : List UInt8) : Prop :=
  ∃ found, WholeLines file found ∧
    (found = [] ∨
      (verify_chain serde sha256_hex found).chain_starts = 1 ∧
      (verify_chain serde sha256_hex (found.take 1)).chain_starts = 1)

/-- What a run is to keep: the file is intact in every state, and from a restart at the cap on, while the log stays
readable, it has one chain start, its first line, which the restart itself writes if it does not fail. -/
def Keeps (logger : AuditLogger) (steps : List Step) : Prop :=
  (∀ before after, steps = before ++ after → Intact serde sha256_hex (logger.run serde sha256_hex before).file) ∧
  ∀ before step mid after, steps = before ++ step :: (mid ++ after) →
    (logger.run serde sha256_hex before).restarts_at serde sha256_hex step = true →
    (∀ cap, Step.reopen cap false ∉ mid) →
    OneStart serde sha256_hex (logger.run serde sha256_hex (before ++ step :: mid)).file ∧
    (step.fails = false → (logger.run serde sha256_hex (before ++ [step])).file ≠ [])

/-- The file holds a log that verifies. -/
def Verifies (file : List UInt8) : Prop :=
  ∃ content, read_to_string file = some content ∧ (verify_chain serde sha256_hex (lines content)).breaks = []

end

/-- The write fails and leaves a part of the line behind. -/
def Step.torn : Step → Bool
  | .record event disk => event.interaction.all InteractionReference.safe && disk.failed.any fun written => decide (0 < written)
  | .reopen _ _ => false

end Monosecret.Audit
