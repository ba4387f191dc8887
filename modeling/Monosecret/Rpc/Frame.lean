/-
  Monosecret.Rpc.Frame — NDJSON frames (`monosecret_rpc/src/frame.rs`): the writer
  `encode`, the incremental `FrameDecoder`, the buffered `AsyncFrameReader` and the
  byte-at-a-time `read_frame`.

  Bytes are a list; the capacity a decoder reserves is left out. A source is the list of
  what each poll of the raw reader gives: some bytes, or nothing yet. At a pending poll
  the caller may drop the read, which keeps the decoder and asks again with a new call.

  However the bytes are cut and whichever reads are dropped, `AsyncFrameReader` delivers
  what `read_frame` delivers (`deliver_eq`). The writer and the decoder accept the same
  payloads except for CR, which only the writer refuses (`codec_agreement`,
  `carriage_return`).
-/

import Monosecret.Lib.Except

namespace Monosecret.Rpc.Frame

open Lib
open Lib.Except (bind_ok)

abbrev Bytes := List UInt8

inductive Error
  | Protocol (message : String)
  deriving DecidableEq

def LF : UInt8 := 10
def CR : UInt8 := 13

/-- 1 MiB. -/
def ABSOLUTE_MAX_FRAME_BYTES : Nat := 1024 * 1024

/-- Whether `std::str::from_utf8` succeeds. -/
def from_utf8 (bytes : Bytes) : Bool := (ByteArray.mk bytes.toArray).validateUTF8

def validate_limit (limit : Nat) : Except Error Unit :=
  if limit = 0 ∨ limit > ABSOLUTE_MAX_FRAME_BYTES then .error (.Protocol "frame limit is outside the absolute bound")
  else .ok ()

/-! ## The decoder -/

structure FrameDecoder where
  limit : Nat
  payload : Bytes
  deriving DecidableEq

namespace FrameDecoder

def new (limit : Nat) : Except Error FrameDecoder := do
  validate_limit limit
  return ⟨limit, []⟩

def set_limit (decoder : FrameDecoder) (limit : Nat) : Except Error FrameDecoder := do
  validate_limit limit
  if decoder.payload ≠ [] then throw (.Protocol "cannot change a frame limit mid-frame")
  return { decoder with limit }

/-- The body of `push`'s loop: the decoder after the byte, and the frame it ends. -/
def push_byte (decoder : FrameDecoder) (byte : UInt8) : Except Error (FrameDecoder × Option Bytes) :=
  if byte = LF then
    if decoder.payload = [] then .error (.Protocol "zero-length frame")
    else if from_utf8 decoder.payload = false then .error (.Protocol "frame payload is not valid UTF-8")
    else .ok ({ decoder with payload := [] }, some decoder.payload)
  else if decoder.payload.length ≥ decoder.limit then .error (.Protocol "frame exceeds the active limit")
  else .ok ({ decoder with payload := decoder.payload ++ [byte] }, none)

/-- The decoder after the bytes, and the frames they end. No caller uses a decoder after
    its `push` failed. -/
def push (decoder : FrameDecoder) : Bytes → Except Error (FrameDecoder × List Bytes)
  | [] => .ok (decoder, [])
  | byte :: bytes => do
    let (decoder, frame) ← decoder.push_byte byte
    let (decoder, frames) ← decoder.push bytes
    return (decoder, frame.toList ++ frames)

def finish_eof (decoder : FrameDecoder) : Except Error Unit :=
  if decoder.payload = [] then .ok () else .error (.Protocol "truncated frame")

/-- A stream fed in chunks. -/
def push_all (decoder : FrameDecoder) : List Bytes → Except Error (FrameDecoder × List Bytes)
  | [] => .ok (decoder, [])
  | chunk :: chunks => do
    let (decoder, frames) ← decoder.push chunk
    let (decoder, more) ← decoder.push_all chunks
    return (decoder, frames ++ more)

end FrameDecoder

/-- A fresh decoder fed a whole stream in chunks, to the end of the stream. -/
def decode (limit : Nat) (chunks : List Bytes) : Except Error (List Bytes) := do
  let decoder ← FrameDecoder.new limit
  let (decoder, frames) ← decoder.push_all chunks
  decoder.finish_eof
  return frames

/-! ## The writer -/

def validate_payload (payload : Bytes) (limit : Nat) : Except Error Unit := do
  validate_limit limit
  if payload = [] then throw (.Protocol "zero-length frame")
  if payload.length > limit then throw (.Protocol "frame exceeds the active limit")
  if payload.contains LF || payload.contains CR then throw (.Protocol "frame payload must be single-line JSON")
  if from_utf8 payload = false then throw (.Protocol "frame payload is not valid UTF-8")

def encode (payload : Bytes) (limit : Nat) : Except Error Bytes := do
  validate_payload payload limit
  return payload ++ [LF]

/-- What is written after a frame more. -/
def write_frame (writer payload : Bytes) (limit : Nat) : Except Error Bytes := do
  let frame ← encode payload limit
  return writer ++ frame

/-! ## The byte-at-a-time reader -/

def read_loop (decoder : FrameDecoder) : Bytes → Except Error (Option Bytes) × Bytes
  | [] => (decoder.finish_eof.map fun _ => none, [])
  | byte :: stream =>
    match decoder.push [byte] with
    | .error e => (.error e, stream)
    | .ok (decoder, frames) =>
      match frames.getLast? with
      | some frame => (.ok (some frame), stream)
      | none => read_loop decoder stream

/-- The result of one call and what it leaves of the stream. -/
def read_frame (stream : Bytes) (limit : Nat) : Except Error (Option Bytes) × Bytes :=
  match FrameDecoder.new limit with
  | .error e => (.error e, stream)
  | .ok decoder => read_loop decoder stream

/-! ## The buffered reader -/

/-- What a poll of the raw reader gives. A read of no bytes is the end of the stream, so
    bytes that arrive are at least one. -/
inductive Arrival
  | bytes (first : UInt8) (more : Bytes)
  | pending (dropped : Bool)
  deriving DecidableEq

structure AsyncFrameReader where
  buffer : Bytes
  source : List Arrival
  decoder : Option FrameDecoder
  deriving DecidableEq

/-- How a call ends: with its result, or dropped by its caller. -/
inductive Polled
  | ready (result : Except Error (Option Bytes))
  | cancelled

def Arrival.content : Arrival → Bytes
  | .bytes first more => first :: more
  | .pending _ => []

namespace AsyncFrameReader

def new (source : List Arrival) : AsyncFrameReader := ⟨[], source, none⟩

/-- The bytes no call has taken yet. -/
def remaining (buffer : Bytes) (source : List Arrival) : Bytes := buffer ++ source.flatMap Arrival.content

/-- Bounds the turns and the calls a reader still takes. -/
def size (buffer : Bytes) (source : List Arrival) : Nat := (remaining buffer source).length + source.length

/-- Up to the first LF and with it, or all there is. -/
def consumed (available : Bytes) : Nat :=
  match available.findIdx? (· == LF) with
  | some position => position + 1
  | none => available.length

/-- One turn of the loop on a buffer that is not empty: the decoder, the frame and the
    buffer after it. -/
def turn (decoder : FrameDecoder) (available : Bytes) : Except Error (FrameDecoder × Option Bytes × Bytes) := do
  if available.length < consumed available then
    throw (.Protocol "reader buffer ended before the frame boundary")
  let (decoder, frames) ← decoder.push (available.take (consumed available))
  if frames.length > 1 then throw (.Protocol "frame reader produced multiple frames")
  return (decoder, frames.getLast?, available.drop (consumed available))

theorem consumed_pos (b : UInt8) (m : Bytes) : 0 < consumed (b :: m) := by
  unfold consumed
  split
  · omega
  · simp

theorem turn_shorter {d d' : FrameDecoder} {bt : UInt8} {m b : Bytes} {frame : Option Bytes}
    (h : turn d (bt :: m) = .ok (d', frame, b)) : b.length < (bt :: m).length := by
  have hp := consumed_pos bt m
  unfold turn at h
  simp only [bind, Except.bind, pure, Except.pure, throw, throwThe, MonadExceptOf.throw] at h
  repeat' split at h
  all_goals cases h
  all_goals simp only [List.length_drop, List.length_cons]; omega

/-- The loop of `read_frame`: `fill_buf` polls the raw reader only when the buffer is
    empty. -/
def loop (decoder : FrameDecoder) (buffer : Bytes) (source : List Arrival) : Polled × AsyncFrameReader :=
  match buffer, source with
  | [], [] => (.ready (decoder.finish_eof.map fun _ => none), ⟨[], [], some decoder⟩)
  | [], .pending true :: source => (.cancelled, ⟨[], source, some decoder⟩)
  | [], .pending false :: source => loop decoder [] source
  | [], .bytes first more :: source => loop decoder (first :: more) source
  | byte :: more, source =>
    match _h : turn decoder (byte :: more) with
    | .error e => (.ready (.error e), ⟨byte :: more, source, some decoder⟩)
    | .ok (decoder, some frame, buffer) => (.ready (.ok (some frame)), ⟨buffer, source, some decoder⟩)
    | .ok (decoder, none, buffer) => loop decoder buffer source
termination_by size buffer source
decreasing_by
  · simp [size, remaining, Arrival.content]
  · simp [size, remaining, Arrival.content]
  · have := turn_shorter _h
    simp only [size, remaining, List.length_append] at this ⊢
    omega

/-- The decoder of a call: a partial frame keeps its own. -/
def ready (reader : AsyncFrameReader) (limit : Nat) : Except Error FrameDecoder :=
  match reader.decoder with
  | some decoder => if decoder.payload = [] then decoder.set_limit limit else .ok decoder
  | none => FrameDecoder.new limit

def read_frame (reader : AsyncFrameReader) (limit : Nat) : Polled × AsyncFrameReader :=
  match reader.ready limit with
  | .error e => (.ready (.error e), reader)
  | .ok decoder => loop decoder reader.buffer reader.source

end AsyncFrameReader

/-! ## Chunks do not matter to a decoder -/

namespace FrameDecoder

theorem push_append (d : FrameDecoder) (a b : Bytes) :
    d.push (a ++ b) = (do
      let (d, frames) ← d.push a
      let (d, more) ← d.push b
      return (d, frames ++ more)) := by
  induction a generalizing d with
  | nil => cases h : d.push b <;> simp [push, h, bind, Except.bind, pure, Except.pure]
  | cons bt a ih =>
    simp only [List.cons_append, push, ih, bind_assoc, pure_bind]
    simp only [List.append_assoc]

theorem push_all_eq (d : FrameDecoder) (c : List Bytes) :
    d.push_all c = d.push c.flatten := by
  induction c generalizing d with
  | nil => rfl
  | cons ch c ih => simp only [push_all, List.flatten_cons, push_append, ih]

/-- Bytes of one line are kept up to the limit. -/
theorem push_line (decoder : FrameDecoder) {line : Bytes} (hl : LF ∉ line) :
    decoder.push line =
      if line = [] ∨ decoder.payload.length + line.length ≤ decoder.limit then
        .ok ({ decoder with payload := decoder.payload ++ line }, [])
      else .error (.Protocol "frame exceeds the active limit") := by
  induction line generalizing decoder with
  | nil => simp [push]
  | cons b line ih =>
    have hb : b ≠ LF := fun h => hl (h ▸ List.mem_cons_self)
    have hr : LF ∉ line := fun h => hl (.tail _ h)
    simp only [push, push_byte, hb, if_false]
    by_cases hf : decoder.payload.length ≥ decoder.limit
    · rw [if_pos hf, if_neg (by simp; omega)]
      rfl
    · rw [if_neg hf]
      simp only [bind, Except.bind, pure, Except.pure, ih _ hr, List.length_append, List.length_singleton]
      by_cases hm : decoder.payload.length + (b :: line).length ≤ decoder.limit
      · simp only [List.length_cons] at hm
        rw [if_pos (Or.inr (by omega)), if_pos (Or.inr (by simp; omega))]
        simp
      · simp only [List.length_cons] at hm
        rw [if_neg (by rintro (rfl | h) <;> simp at * <;> omega), if_neg (by simp; omega)]

/-- The LF that ends a line. -/
theorem push_lf (decoder : FrameDecoder) :
    decoder.push [LF] =
      if decoder.payload = [] then .error (.Protocol "zero-length frame")
      else if from_utf8 decoder.payload = false then .error (.Protocol "frame payload is not valid UTF-8")
      else .ok ({ decoder with payload := [] }, [decoder.payload]) := by
  simp only [push, push_byte, if_true]
  split
  · rfl
  · split <;> rfl

end FrameDecoder

open FrameDecoder (push_append push_line push_lf push_all_eq push_byte finish_eof set_limit)

/-! ## What the two sides accept -/

/-- Apart from CR, what a frame of at most `limit` bytes may hold. -/
structure Acceptable (limit : Nat) (payload : Bytes) : Prop where
  limit_pos : limit ≠ 0
  limit_le : limit ≤ ABSOLUTE_MAX_FRAME_BYTES
  nonempty : payload ≠ []
  fits : payload.length ≤ limit
  one_line : LF ∉ payload
  utf8 : from_utf8 payload = true

variable {limit : Nat}

theorem validate_limit_ok : validate_limit limit = .ok () ↔ limit ≠ 0 ∧ limit ≤ ABSOLUTE_MAX_FRAME_BYTES := by
  unfold validate_limit
  split
  · simp; omega
  · simp; omega

theorem encode_ok {payload : Bytes} :
    (∃ frame, encode payload limit = .ok frame) ↔ Acceptable limit payload ∧ CR ∉ payload := by
  constructor
  · rintro ⟨frame, h⟩
    obtain ⟨⟨⟩, h, -⟩ := bind_ok h
    obtain ⟨⟨⟩, hl, h⟩ := bind_ok h
    obtain ⟨hp, hle⟩ := validate_limit_ok.mp hl
    by_cases he : payload = []
    · rw [if_pos he] at h; cases h
    by_cases hg : payload.length > limit
    · rw [if_neg he, if_pos hg] at h; cases h
    by_cases hn : (payload.contains LF || payload.contains CR)
    · rw [if_neg he, if_neg hg, if_pos hn] at h; cases h
    by_cases hutf8 : from_utf8 payload = false
    · rw [if_neg he, if_neg hg, if_neg hn, if_pos hutf8] at h; cases h
    simp only [Bool.or_eq_true, List.contains_iff_mem, not_or] at hn
    exact ⟨⟨hp, hle, he, by omega, hn.1, by simpa using hutf8⟩, hn.2⟩
  · rintro ⟨h, hc⟩
    have hl := validate_limit_ok.mpr ⟨h.limit_pos, h.limit_le⟩
    have hf : ¬ payload.length > limit := by have := h.fits; omega
    refine ⟨payload ++ [LF], ?_⟩
    simp [encode, validate_payload, hl, h.nonempty, hf, h.one_line, hc, h.utf8]

variable {stream : Bytes}

/-- The first line of a stream is its first frame. -/
theorem push_first_line {d d' : FrameDecoder} {l : Bytes} {f : List Bytes} (hl : LF ∉ l)
    (h : d.push (l ++ ([LF] ++ stream)) = .ok (d', f)) :
    ∃ more, f = (d.payload ++ l) :: more := by
  rw [push_append] at h
  obtain ⟨⟨d₁, fs⟩, h₁, h⟩ := bind_ok h
  obtain ⟨⟨d₂, gs⟩, h₂, h⟩ := bind_ok h
  rw [push_append] at h₂
  obtain ⟨⟨d₃, gs'⟩, h₃, h₂⟩ := bind_ok h₂
  obtain ⟨⟨d₄, more⟩, -, h₂⟩ := bind_ok h₂
  cases h
  cases h₂
  rw [push_line _ hl] at h₁
  split at h₁ <;> cases h₁
  rw [push_lf] at h₃
  split at h₃
  · cases h₃
  split at h₃ <;> cases h₃
  exact ⟨more, rfl⟩

theorem Acceptable.push {payload : Bytes} (h : Acceptable limit payload) :
    FrameDecoder.push ⟨limit, []⟩ (payload ++ [LF]) = .ok (⟨limit, []⟩, [payload]) := by
  rw [push_append, push_line _ h.one_line]
  simp only [List.length_nil, Nat.zero_add, List.nil_append, h.fits, or_true, if_true]
  simp [push_lf, h.nonempty, h.utf8, bind, Except.bind, pure, Except.pure]

theorem decode_line {payload : Bytes} {c : List Bytes} (h : c.flatten = payload ++ [LF]) :
    decode limit c = .ok [payload] ↔ Acceptable limit payload := by
  constructor
  · intro ho
    obtain ⟨d, hn, ho⟩ := bind_ok ho
    obtain ⟨⟨⟩, hl, hn⟩ := bind_ok hn
    obtain ⟨hp, hle⟩ := validate_limit_ok.mp hl
    cases hn
    obtain ⟨⟨d, f⟩, hs, ho⟩ := bind_ok ho
    obtain ⟨⟨⟩, -, ho⟩ := bind_ok ho
    cases ho
    rw [push_all_eq, h] at hs
    have hln : LF ∉ payload := by
      intro hm
      obtain ⟨first, r, rfl, hf⟩ := List.eq_append_cons_of_mem hm
      have hc : first ++ LF :: r ++ [LF] = first ++ ([LF] ++ (r ++ [LF])) := by simp
      rw [hc] at hs
      obtain ⟨m, hr⟩ := push_first_line hf hs
      simp at hr
    rw [push_append] at hs
    obtain ⟨⟨d₁, fs⟩, h₁, hs⟩ := bind_ok hs
    obtain ⟨⟨d₂, gs⟩, h₂, hs⟩ := bind_ok hs
    rw [push_line _ hln] at h₁
    by_cases ht : payload = [] ∨ payload.length ≤ limit
    · simp only [List.length_nil, Nat.zero_add, if_pos ht] at h₁
      cases h₁
      rw [push_lf] at h₂
      simp only [List.nil_append] at h₂
      by_cases he : payload = []
      · rw [if_pos he] at h₂; cases h₂
      by_cases hutf8 : from_utf8 payload = false
      · rw [if_neg he, if_pos hutf8] at h₂; cases h₂
      exact ⟨hp, hle, he, ht.resolve_left he, hln, by simpa using hutf8⟩
    · simp only [List.length_nil, Nat.zero_add, if_neg ht] at h₁
      cases h₁
  · intro ha
    have hl := validate_limit_ok.mpr ⟨ha.limit_pos, ha.limit_le⟩
    unfold decode FrameDecoder.new
    simp only [hl, push_all_eq, h, ha.push, finish_eof, bind, Except.bind, pure, Except.pure,
      if_true]

/-! ## Calls until the stream ends -/

theorem read_loop_shorter {d : FrameDecoder} {r frame : Bytes}
    (h : read_loop d stream = (.ok (some frame), r)) : r.length < stream.length := by
  induction stream generalizing d with
  | nil =>
    unfold read_loop at h
    cases hf : d.finish_eof <;> simp [hf, Except.map] at h
  | cons b stream ih =>
    unfold read_loop at h
    split at h
    · cases h
    · split at h
      · cases h; simp
      · have := ih h
        simp only [List.length_cons]
        omega

theorem read_frame_shorter {r frame : Bytes} (h : read_frame stream limit = (.ok (some frame), r)) :
    r.length < stream.length := by
  unfold read_frame at h
  split at h
  · cases h
  · exact read_loop_shorter h

/-- The frames a caller of `read_frame` gets, the `n`th read under `limits n`, and the
    error that ended the stream, none at a clean end. -/
def deliver (limits : Nat → Nat) (n : Nat) (stream : Bytes) : List Bytes × Option Error :=
  match h : read_frame stream (limits n) with
  | (.error e, _) => ([], some e)
  | (.ok none, _) => ([], none)
  | (.ok (some frame), rest) => ((deliver limits (n + 1) rest).map (frame :: ·) id)
termination_by stream.length
decreasing_by exact read_frame_shorter h

variable {limits : Nat → Nat}

theorem deliver_failed {n : Nat} {e : Error} (h : (read_frame stream (limits n)).1 = .error e) :
    deliver limits n stream = ([], some e) := by
  rw [deliver]
  split <;> simp_all

theorem deliver_ended {n : Nat} (h : (read_frame stream (limits n)).1 = .ok none) :
    deliver limits n stream = ([], none) := by
  rw [deliver]
  split <;> simp_all

theorem deliver_framed {n : Nat} {frame r : Bytes} (h : read_frame stream (limits n) = (.ok (some frame), r)) :
    deliver limits n stream = (deliver limits (n + 1) r).map (frame :: ·) id := by
  rw [deliver]
  split
  · rename_i he; rw [h] at he; cases he
  · rename_i he; rw [h] at he; cases he
  · rename_i he; rw [h] at he; cases he; rfl

/-! ## One call -/

theorem read_loop_cons (decoder : FrameDecoder) (b : UInt8) (stream : Bytes) :
    read_loop decoder (b :: stream) =
      match decoder.push_byte b with
      | .error e => (.error e, stream)
      | .ok (_, some frame) => (.ok (some frame), stream)
      | .ok (decoder, none) => read_loop decoder stream := by
  rw [read_loop]
  simp only [FrameDecoder.push, bind, Except.bind, pure, Except.pure]
  rcases decoder.push_byte b with e | ⟨decoder, _ | frame⟩ <;> rfl

/-- A decoder takes the bytes of a line at once as it takes them one by one. -/
theorem read_loop_line (decoder : FrameDecoder) {line : Bytes} (hl : LF ∉ line) (rest : Bytes) :
    match decoder.push line with
    | .error e => (read_loop decoder (line ++ rest)).1 = .error e
    | .ok (next, frames) => frames = [] ∧ next.limit = decoder.limit ∧ read_loop decoder (line ++ rest) = read_loop next rest := by
  induction line generalizing decoder with
  | nil => exact ⟨rfl, rfl, rfl⟩
  | cons b line ih =>
    have hb : b ≠ LF := fun h => hl (h ▸ List.mem_cons_self)
    have hr : LF ∉ line := fun h => hl (.tail _ h)
    rw [List.cons_append, read_loop_cons]
    simp only [FrameDecoder.push, push_byte, hb, if_false]
    by_cases hf : decoder.payload.length ≥ decoder.limit
    · simp only [if_pos hf]
      rfl
    · simp only [if_neg hf]
      have hn := ih { decoder with payload := decoder.payload ++ [b] } hr
      simp only [bind, Except.bind, pure, Except.pure]
      cases hp : FrameDecoder.push { decoder with payload := decoder.payload ++ [b] } line with
      | error e => simpa only [hp] using hn
      | ok t => simpa only [hp, Option.toList_none, List.nil_append] using hn

theorem read_loop_lf (d : FrameDecoder) (r : Bytes) :
    read_loop d (LF :: r) =
      if d.payload = [] then (.error (.Protocol "zero-length frame"), r)
      else if from_utf8 d.payload = false then (.error (.Protocol "frame payload is not valid UTF-8"), r)
      else (.ok (some d.payload), r) := by
  rw [read_loop_cons, push_byte, if_pos rfl]
  by_cases he : d.payload = []
  · simp only [if_pos he]
  · by_cases hutf8 : from_utf8 d.payload = false
    · simp only [if_neg he, if_pos hutf8]
    · simp only [if_neg he, if_neg hutf8]

/-- With its LF, a line is an error or a frame. -/
theorem read_loop_frame (d : FrameDecoder) {l : Bytes} (hl : LF ∉ l) (r : Bytes) :
    match d.push (l ++ [LF]) with
    | .error e => (read_loop d (l ++ ([LF] ++ r))).1 = .error e
    | .ok (next, f) => ∃ frame, f = [frame] ∧ next.payload = [] ∧
        read_loop d (l ++ ([LF] ++ r)) = (.ok (some frame), r) := by
  have hr := read_loop_line d hl ([LF] ++ r)
  rw [push_append]
  cases hp : d.push l with
  | error e =>
    simp only [hp] at hr
    exact hr
  | ok t =>
    obtain ⟨next, f⟩ := t
    simp only [hp] at hr
    obtain ⟨rfl, -, hr⟩ := hr
    rw [hr]
    simp only [bind, Except.bind, pure, Except.pure, push_lf, List.singleton_append, read_loop_lf]
    by_cases he : next.payload = []
    · simp only [if_pos he]
    · by_cases hutf8 : from_utf8 next.payload = false
      · simp only [if_neg he, if_pos hutf8]
      · simp only [if_neg he, if_neg hutf8]
        exact ⟨next.payload, rfl, trivial, rfl⟩

/-- A frame is read first under a limit that is not below the writer's. -/
theorem deliver_encoded {payload frame : Bytes} {n : Nat} (h : encode payload limit = .ok frame) (hl : limit ≤ limits n)
    (hv : validate_limit (limits n) = .ok ()) (rest : Bytes) :
    deliver limits n (frame ++ rest) = (deliver limits (n + 1) rest).map (payload :: ·) id := by
  obtain ⟨hp, hle⟩ := validate_limit_ok.mp hv
  obtain ⟨ha, -⟩ := encode_ok.mp ⟨frame, h⟩
  have ha : Acceptable (limits n) payload := ⟨hp, hle, ha.nonempty, Nat.le_trans ha.fits hl, ha.one_line, ha.utf8⟩
  obtain ⟨⟨⟩, -, h⟩ := bind_ok h
  cases h
  have hr := read_loop_frame ⟨limits n, []⟩ ha.one_line rest
  rw [ha.push] at hr
  obtain ⟨f, hf, -, hr⟩ := hr
  cases hf
  refine deliver_framed ?_
  simp only [read_frame, FrameDecoder.new, hv, bind, Except.bind, pure, Except.pure]
  rw [List.append_assoc, hr]

namespace AsyncFrameReader

/-- What a call does to the bytes not taken yet, against `read_loop` on the same bytes. -/
inductive Agrees (decoder : FrameDecoder) (buffer : Bytes) (source : List Arrival) : Polled × AsyncFrameReader → Prop
  | failed {e : Error} {reader : AsyncFrameReader} :
    (read_loop decoder (remaining buffer source)).1 = .error e → Agrees decoder buffer source (.ready (.error e), reader)
  | ended {reader : AsyncFrameReader} :
    (read_loop decoder (remaining buffer source)).1 = .ok none → Agrees decoder buffer source (.ready (.ok none), reader)
  | framed {frame : Bytes} {reader : AsyncFrameReader} {next : FrameDecoder} :
    reader.decoder = some next → next.payload = [] →
      read_loop decoder (remaining buffer source) = (.ok (some frame), remaining reader.buffer reader.source) →
      size reader.buffer reader.source < size buffer source →
      Agrees decoder buffer source (.ready (.ok (some frame)), reader)
  | dropped {reader : AsyncFrameReader} {next : FrameDecoder} :
    reader.decoder = some next → next.limit = decoder.limit →
      read_loop decoder (remaining buffer source) = read_loop next (remaining reader.buffer reader.source) →
      size reader.buffer reader.source < size buffer source → Agrees decoder buffer source (.cancelled, reader)

/-- A turn that finds no LF in the buffer. -/
theorem turn_unended (d : FrameDecoder) {a : Bytes} (hl : LF ∉ a) :
    turn d a = (d.push a).map fun (next, _) => (next, none, []) := by
  have ha : consumed a = a.length := by
    have hn : a.findIdx? (· == LF) = none := by
      rw [List.findIdx?_eq_none_iff]
      intro b hb
      exact beq_false_of_ne fun h => hl (h ▸ hb)
    simp only [consumed, hn]
  have hr := read_loop_line d hl []
  unfold turn
  rw [ha, if_neg (Nat.lt_irrefl _), List.take_length, List.drop_length]
  cases hp : d.push a with
  | error e => rfl
  | ok t =>
    obtain ⟨next, f⟩ := t
    simp only [hp] at hr
    obtain ⟨rfl, -⟩ := hr
    rfl

/-- A turn that finds one. -/
theorem turn_line (d : FrameDecoder) {l : Bytes} (hl : LF ∉ l) (m : Bytes) :
    turn d (l ++ ([LF] ++ m)) =
      (d.push (l ++ [LF])).map fun (next, f) => (next, f.getLast?, m) := by
  have hu : consumed (l ++ ([LF] ++ m)) = (l ++ [LF]).length := by
    have hn : l.findIdx? (· == LF) = none := by
      rw [List.findIdx?_eq_none_iff]
      intro b hb
      exact beq_false_of_ne fun h => hl (h ▸ hb)
    simp [consumed, List.findIdx?_append, hn, List.findIdx?_cons]
  have hr := read_loop_frame d hl []
  unfold turn
  rw [hu, if_neg (by simp), ← List.append_assoc, List.take_left, List.drop_left]
  cases hp : d.push (l ++ [LF]) with
  | error e => rfl
  | ok t =>
    obtain ⟨next, f⟩ := t
    simp only [hp] at hr
    obtain ⟨frame, rfl, -⟩ := hr
    rfl

/-- What a turn does to the stream. -/
theorem turn_read (d : FrameDecoder) (a r : Bytes) :
    match turn d a with
    | .error e => (read_loop d (a ++ r)).1 = .error e
    | .ok (next, none, buffer) => next.limit = d.limit ∧ read_loop d (a ++ r) = read_loop next (buffer ++ r)
    | .ok (next, some frame, buffer) =>
      next.payload = [] ∧ read_loop d (a ++ r) = (.ok (some frame), buffer ++ r) := by
  by_cases hl : LF ∈ a
  · obtain ⟨l, m, rfl, hn⟩ := List.eq_append_cons_of_mem hl
    have hc : l ++ LF :: m = l ++ ([LF] ++ m) := rfl
    have hr := read_loop_frame d hn (m ++ r)
    rw [hc, turn_line d hn, List.append_assoc, List.append_assoc]
    cases hp : d.push (l ++ [LF]) with
    | error e =>
      simp only [hp] at hr
      exact hr
    | ok t =>
      obtain ⟨next, f⟩ := t
      simp only [hp] at hr
      obtain ⟨frame, rfl, he, hr⟩ := hr
      exact ⟨he, hr⟩
  · have hr := read_loop_line d hl r
    rw [turn_unended d hl]
    cases hp : d.push a with
    | error e =>
      simp only [hp] at hr
      exact hr
    | ok t =>
      simp only [hp] at hr
      exact ⟨hr.2.1, hr.2.2⟩

/-- An agreement after some of the stream has gone into the decoder is one from before. -/
theorem Agrees.back {decoder next : FrameDecoder} {buffer b' : Bytes} {source s' : List Arrival}
    {out : Polled × AsyncFrameReader} (h : Agrees next b' s' out) (hm : next.limit = decoder.limit)
    (hr : read_loop decoder (remaining buffer source) = read_loop next (remaining b' s'))
    (hz : size b' s' < size buffer source) : Agrees decoder buffer source out := by
  cases h with
  | failed hf => exact .failed (hr ▸ hf)
  | ended he => exact .ended (hr ▸ he)
  | framed hd hp hf hs => exact .framed hd hp (hr ▸ hf) (by omega)
  | dropped hd hl hf hs => exact .dropped hd (hl.trans hm) (hr ▸ hf) (by omega)

theorem loop_agrees (d : FrameDecoder) (b : Bytes) (s : List Arrival) :
    Agrees d b s (loop d b s) := by
  fun_induction loop d b s with
  | case1 d =>
    cases he : d.finish_eof with
    | error e => exact .failed (by simp [remaining, read_loop, he, Except.map])
    | ok _ => exact .ended (by simp [remaining, read_loop, he, Except.map])
  | case2 d s => exact .dropped rfl rfl (by simp [remaining, Arrival.content]) (by simp [size, remaining, Arrival.content])
  | case3 d s ih => exact ih.back rfl (by simp [remaining, Arrival.content]) (by simp [size, remaining, Arrival.content])
  | case4 d s first m ih =>
    exact ih.back rfl (by simp [remaining, Arrival.content]) (by simp [size, remaining, Arrival.content])
  | case5 d bt m s e ht =>
    have hr := turn_read d (bt :: m) (s.flatMap Arrival.content)
    rw [ht] at hr
    exact .failed hr
  | case6 d bt m s next frame b ht =>
    have hr := turn_read d (bt :: m) (s.flatMap Arrival.content)
    have hl := turn_shorter ht
    rw [ht] at hr
    refine .framed rfl hr.1 hr.2 ?_
    simp only [size, remaining, List.length_append]
    omega
  | case7 d bt m s next b ht ih =>
    have hr := turn_read d (bt :: m) (s.flatMap Arrival.content)
    have hl := turn_shorter ht
    rw [ht] at hr
    refine ih.back hr.1 hr.2 ?_
    simp only [size, remaining, List.length_append]
    omega

/-! ## Calls until the stream ends, dropped ones among them -/

variable {reader : AsyncFrameReader}

/-- A call that was dropped or gave a frame has used something up. -/
theorem read_frame_smaller {next : AsyncFrameReader} {limit : Nat} {p : Polled}
    (h : reader.read_frame limit = (p, next))
    (hp : p = .cancelled ∨ ∃ frame, p = .ready (.ok (some frame))) :
    size next.buffer next.source < size reader.buffer reader.source := by
  unfold read_frame at h
  split at h
  · cases h
    rcases hp with hp | ⟨frame, hp⟩ <;> cases hp
  · rename_i d _
    have ha := loop_agrees d reader.buffer reader.source
    rw [h] at ha
    cases ha with
    | failed _ | ended _ => rcases hp with hp | ⟨frame, hp⟩ <;> cases hp
    | framed _ _ _ hs | dropped _ _ _ hs => exact hs

/-- The frames a caller gets that calls again after a dropped read, and the error that
    ended the stream. -/
def deliver (limits : Nat → Nat) (n : Nat) (reader : AsyncFrameReader) : List Bytes × Option Error :=
  match h : reader.read_frame (limits n) with
  | (.cancelled, next) => next.deliver limits n
  | (.ready (.error e), _) => ([], some e)
  | (.ready (.ok none), _) => ([], none)
  | (.ready (.ok (some frame)), next) => (next.deliver limits (n + 1)).map (frame :: ·) id
termination_by size reader.buffer reader.source
decreasing_by
  · exact read_frame_smaller h (.inl rfl)
  · exact read_frame_smaller h (.inr ⟨_, rfl⟩)

/-- A reader from which the rest of a frame comes as it comes from the whole of `stream`. -/
def Follows (limit : Nat) (stream : Bytes) (reader : AsyncFrameReader) : Prop :=
  match reader.ready limit with
  | .error e => (Frame.read_frame stream limit).1 = .error e
  | .ok decoder => decoder.limit = limit ∧ validate_limit limit = .ok () ∧
      read_loop decoder (remaining reader.buffer reader.source) = Frame.read_frame stream limit

/-- Between frames. -/
theorem Follows.fresh (h : ∀ d, reader.decoder = some d → d.payload = []) (limit : Nat) :
    Follows limit (remaining reader.buffer reader.source) reader := by
  have hr : reader.ready limit = FrameDecoder.new limit := by
    unfold ready
    split
    · rename_i d hd
      have he := h d hd
      simp [he, set_limit, FrameDecoder.new]
    · rfl
  unfold Follows Frame.read_frame
  rw [hr]
  cases hn : FrameDecoder.new limit with
  | error e => rfl
  | ok d =>
    obtain ⟨⟨⟩, hl, hn⟩ := bind_ok hn
    cases hn
    exact ⟨rfl, hl, rfl⟩

/-- After a dropped call. -/
theorem Follows.dropped {decoder : FrameDecoder} {limit : Nat} {stream : Bytes} (hd : reader.decoder = some decoder)
    (hl : decoder.limit = limit) (hm : validate_limit limit = .ok ())
    (hr : read_loop decoder (remaining reader.buffer reader.source) = Frame.read_frame stream limit) :
    Follows limit stream reader := by
  have hrd : reader.ready limit = .ok decoder := by
    simp only [ready, hd]
    split
    · rename_i he
      obtain ⟨l', p⟩ := decoder
      cases hl
      cases he
      simp [set_limit, hm]
    · rfl
  unfold Follows
  rw [hrd]
  exact ⟨hl, hm, hr⟩

theorem deliver_follows (limits : Nat → Nat) (n : Nat) (reader : AsyncFrameReader) (stream : Bytes)
    (h : Follows (limits n) stream reader) : reader.deliver limits n = Frame.deliver limits n stream := by
  have hc : ∀ {n : Nat} {reader : AsyncFrameReader} {d : FrameDecoder},
      reader.ready (limits n) = .ok d → Agrees d reader.buffer reader.source (reader.read_frame (limits n)) := by
    intro n reader d hr
    unfold read_frame
    rw [hr]
    exact loop_agrees d reader.buffer reader.source
  fun_induction deliver limits n reader generalizing stream with
  | case1 n reader next hn ih =>
    apply ih
    unfold Follows at h
    cases hr : reader.ready (limits n) with
    | error e => simp [read_frame, hr] at hn
    | ok d =>
      have ha := hc hr
      rw [hr] at h
      rw [hn] at ha
      cases ha with
      | dropped hd hl hre _ => exact .dropped hd (hl.trans h.1) h.2.1 (hre ▸ h.2.2)
  | case2 n reader e next hfl =>
    refine (deliver_failed ?_).symm
    unfold Follows at h
    cases hr : reader.ready (limits n) with
    | error e' =>
      rw [hr] at h
      simp only [read_frame, hr, Prod.mk.injEq, Polled.ready.injEq, Except.error.injEq] at hfl
      rw [h, hfl.1]
    | ok d =>
      have ha := hc hr
      rw [hr] at h
      rw [hfl] at ha
      cases ha with
      | failed hf => rw [← h.2.2]; exact hf
  | case3 n reader next hen =>
    refine (deliver_ended ?_).symm
    unfold Follows at h
    cases hr : reader.ready (limits n) with
    | error e => simp [read_frame, hr] at hen
    | ok d =>
      have ha := hc hr
      rw [hr] at h
      rw [hen] at ha
      cases ha with
      | ended he => rw [← h.2.2]; exact he
  | case4 n reader frame next hfr ih =>
    have hx : Frame.read_frame stream (limits n) = (.ok (some frame), remaining next.buffer next.source) ∧
        ∀ d, next.decoder = some d → d.payload = [] := by
      unfold Follows at h
      cases hr : reader.ready (limits n) with
      | error e => simp [read_frame, hr] at hfr
      | ok d =>
        have ha := hc hr
        rw [hr] at h
        rw [hfr] at ha
        cases ha with
        | framed hd hp hf _ =>
          refine ⟨by rw [← h.2.2]; exact hf, ?_⟩
          intro d' hd'
          rw [hd] at hd'
          cases hd'
          exact hp
    rw [ih _ (.fresh hx.2 _), deliver_framed hx.1]

end AsyncFrameReader

/-! ## Agreement -/

/-- Dropped reads and chunk boundaries change nothing of what is delivered. -/
theorem deliver_eq (limits : Nat → Nat) (s : List Arrival) :
    (AsyncFrameReader.new s).deliver limits 0 = deliver limits 0 (s.flatMap Arrival.content) :=
  AsyncFrameReader.deliver_follows limits 0 _ _ (.fresh (fun _ h => by cases h) _)

/-- The writer and the decoder agree on a payload exactly when it is not one that only its
    CR keeps the writer from sending; the two readers always agree. -/
theorem codec_agreement (limit : Nat) (payload : Bytes) (limits : Nat → Nat) (source : List Arrival) :
    (∀ chunks : List Bytes, chunks.flatten = payload ++ [LF] →
      (((∃ frame, encode payload limit = .ok frame) ↔ decode limit chunks = .ok [payload]) ↔
        ¬ (Acceptable limit payload ∧ CR ∈ payload))) ∧
    (AsyncFrameReader.new source).deliver limits 0 = deliver limits 0 (source.flatMap Arrival.content) := by
  refine ⟨?_, deliver_eq limits source⟩
  intro chunks h
  rw [encode_ok, decode_line h]
  tauto

theorem codec_agreement_object :
    (∃ frame, encode [123, 125] 1024 = .ok frame) ↔ decode 1024 [[123], [125, LF]] = .ok [[123, 125]] :=
  ((codec_agreement 1024 [123, 125] (fun _ => 1024) []).1 [[123], [125, LF]] rfl).mpr fun h => absurd h.2 (by decide)

/-- `{}` and a CR. -/
def with_carriage_return : Bytes := [123, 125, CR]

/-- The decoder takes what the writer refuses. -/
theorem carriage_return : ¬ ∀ (limit : Nat) (payload : Bytes) (chunks : List Bytes), chunks.flatten = payload ++ [LF] →
    ((∃ frame, encode payload limit = .ok frame) ↔ decode limit chunks = .ok [payload]) := by
  intro h
  have hc := h 1024 with_carriage_return [with_carriage_return, [LF]] (by simp)
  rw [encode_ok, decode_line (by simp)] at hc
  have ha : Acceptable 1024 with_carriage_return := ⟨by decide, by decide, by decide, by decide, by decide, by decide +kernel⟩
  exact (hc.mpr ha).2 (by decide)

end Monosecret.Rpc.Frame
