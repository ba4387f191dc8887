/-
  Monosecret.Rpc.Deadline — wire deadlines (`monosecret_rpc/src/deadline.rs`) and the
  deadline a callback carries (`Peer::call`).

  A deadline travels as Unix milliseconds and is enforced as a monotonic instant. A
  callback converts its request's instant back, from two more clock readings. The wall
  clock and the monotonic clock advance at the same rate; a point of time `t` is in
  nanoseconds, and so are `Duration` and `Instant`.

  The doc comment of `unix_ms_from_instant` says its rounding is downward, "so a derived
  deadline is never later than the one it came from". The two halves round separately:
  `callback_deadline_le_iff` says when the derived deadline stays within the parent's, and
  `callback_deadline_exceeds_parent` is a callback one millisecond past it.
-/
import Mathlib.Algebra.GroupWithZero.Nat

namespace Monosecret.Rpc.Deadline

/-- Nanoseconds in a millisecond. -/
def MILLI : Nat := 1000000

/-- Largest integer every version 1 JSON peer represents exactly. -/
def MAX_JSON_INTEGER : Nat := 9007199254740991

/-- `Duration::from_secs(300)`. -/
def MAX_DEADLINE_HORIZON : Nat := 300 * 1000 * MILLI

/-- `now` is `SystemTime::now()` since the epoch. The sum saturates in the code at a bound
    far above the cap. -/
def unix_ms_after (now duration : Nat) : Nat :=
  min (now / MILLI + duration / MILLI) MAX_JSON_INTEGER

def clamp_unix_ms (now deadline_unix_ms : Nat) : Nat :=
  min (unix_ms_after now MAX_DEADLINE_HORIZON) deadline_unix_ms

def duration_until_unix_ms (now deadline_unix_ms : Nat) : Nat :=
  let now_ms := min (now / MILLI) (2 ^ 64 - 1)
  min ((deadline_unix_ms - now_ms) * MILLI) MAX_DEADLINE_HORIZON

def instant_from_unix_ms (instant now deadline_unix_ms : Nat) : Nat :=
  instant + duration_until_unix_ms now deadline_unix_ms

def unix_ms_from_instant (instant now deadline : Nat) : Nat :=
  unix_ms_after now (deadline - instant)

/-! ## The clocks -/

/-- What the two clocks show at time 0. The wall clock may stand before the epoch. -/
structure Clocks where
  epoch : Int
  boot : Nat

/-- `SystemTime::now().duration_since(UNIX_EPOCH).unwrap_or_default()`. -/
def Clocks.system_now (c : Clocks) (t : Nat) : Nat := (c.epoch + t).toNat

/-- `Instant::now()`. -/
def Clocks.instant_now (c : Clocks) (t : Nat) : Nat := c.boot + t

/-- The wall clock's millisecond. -/
def Clocks.now_ms (c : Clocks) (t : Nat) : Nat := c.system_now t / MILLI

theorem Clocks.now_ms_mono (c : Clocks) {t u : Nat} (h : t ≤ u) : c.now_ms t ≤ c.now_ms u := by
  apply Nat.div_le_div_right
  unfold Clocks.system_now
  omega

/-- When each clock is read: the client clamps the deadline it sends, the server converts
    it on receipt (`Instant::now`, then `SystemTime::now`), and the callback converts the
    instant back and clamps it (`Instant::now`, then `SystemTime::now` twice). -/
structure Readings where
  sent : Nat
  t0 : Nat
  t1 : Nat
  t2 : Nat
  t3 : Nat
  t4 : Nat
  sent_le : sent ≤ t0
  le01 : t0 ≤ t1
  le12 : t1 ≤ t2
  le23 : t2 ≤ t3
  le34 : t3 ≤ t4

/-- The deadline the client puts on the wire and keeps in its pending table. -/
def parent_deadline (c : Clocks) (r : Readings) (deadline_unix_ms : Nat) : Nat :=
  clamp_unix_ms (c.system_now r.sent) deadline_unix_ms

/-- The deadline `Peer::call` puts on the callback of a request with wire deadline `d`. -/
def callback_deadline (c : Clocks) (r : Readings) (d : Nat) : Nat :=
  let deadline := instant_from_unix_ms (c.instant_now r.t0) (c.system_now r.t1) d
  clamp_unix_ms (c.system_now r.t4) (unix_ms_from_instant (c.instant_now r.t2) (c.system_now r.t3) deadline)

/-! ## The two roundings -/

/-- Whole milliseconds left of `a` after `e` nanoseconds: each started one is lost. -/
theorem remaining_ms (a e : Nat) : (a * MILLI - e) / MILLI = a - (e + (MILLI - 1)) / MILLI := by
  unfold MILLI
  omega

theorem horizon_after (c : Clocks) (t : Nat) :
    unix_ms_after (c.system_now t) MAX_DEADLINE_HORIZON = min (c.now_ms t + 300000) MAX_JSON_INTEGER := by
  rw [unix_ms_after, Clocks.now_ms, show MAX_DEADLINE_HORIZON / MILLI = 300000 by decide]

theorem duration_until_eq {c : Clocks} {t d : Nat} (hm : d ≤ MAX_JSON_INTEGER) (hd : d ≤ c.now_ms t + 300000) :
    duration_until_unix_ms (c.system_now t) d = (d - c.now_ms t) * MILLI := by
  have hn : d - min (c.now_ms t) (2 ^ 64 - 1) = d - c.now_ms t := by
    unfold MAX_JSON_INTEGER at hm
    omega
  rw [duration_until_unix_ms, ← Clocks.now_ms, hn, Nat.min_eq_left]
  unfold MAX_DEADLINE_HORIZON MILLI
  omega

theorem parent_deadline_le_horizon (c : Clocks) (r : Readings) (d : Nat) :
    parent_deadline c r d ≤ c.now_ms r.sent + 300000 := by
  rw [parent_deadline, clamp_unix_ms, horizon_after]
  exact Nat.le_trans (Nat.min_le_left _ _) (Nat.min_le_left _ _)

theorem parent_deadline_le_max (c : Clocks) (r : Readings) (d : Nat) :
    parent_deadline c r d ≤ MAX_JSON_INTEGER :=
  Nat.le_trans (Nat.min_le_left _ _) (Nat.min_le_right _ _)

theorem min_min_max (a b m : Nat) : min (min a m) (min b m) = min (min a b) m := by
  omega

/-- The horizon never shortens a deadline its sender clamped: the callback carries the wall
    clock's millisecond at its own reading plus what is left of the request's time. -/
theorem callback_deadline_eq (c : Clocks) (r : Readings) (d : Nat) (hm : d ≤ MAX_JSON_INTEGER)
    (hd : d ≤ c.now_ms r.sent + 300000) :
    callback_deadline c r d =
      min (min (c.now_ms r.t4 + 300000)
        (c.now_ms r.t3 + ((d - c.now_ms r.t1) - (r.t2 - r.t0 + (MILLI - 1)) / MILLI))) MAX_JSON_INTEGER := by
  have h01 : c.now_ms r.sent ≤ c.now_ms r.t1 := c.now_ms_mono (Nat.le_trans r.sent_le r.le01)
  have hr := duration_until_eq hm (Nat.le_trans hd (Nat.add_le_add_right h01 _))
  have hl : instant_from_unix_ms (c.instant_now r.t0) (c.system_now r.t1) d - c.instant_now r.t2 =
      (d - c.now_ms r.t1) * MILLI - (r.t2 - r.t0) := by
    have h02 : r.t0 ≤ r.t2 := Nat.le_trans r.le01 r.le12
    rw [instant_from_unix_ms, hr, Clocks.instant_now, Clocks.instant_now]
    generalize (d - c.now_ms r.t1) * MILLI = left
    omega
  have hb : unix_ms_from_instant (c.instant_now r.t2) (c.system_now r.t3)
      (instant_from_unix_ms (c.instant_now r.t0) (c.system_now r.t1) d) =
      min (c.now_ms r.t3 + ((d - c.now_ms r.t1) - (r.t2 - r.t0 + (MILLI - 1)) / MILLI)) MAX_JSON_INTEGER := by
    rw [unix_ms_from_instant, unix_ms_after, hl, remaining_ms, ← Clocks.now_ms]
  rw [callback_deadline, clamp_unix_ms, horizon_after, hb]
  exact min_min_max _ _ _

/-! ## Containment -/

/-- Between the server's wall-clock reading and the callback's, the wall clock passed no
    more millisecond boundaries than milliseconds were started between the two monotonic
    readings, and it did not pass the deadline. -/
def Contained (c : Clocks) (r : Readings) (d : Nat) : Prop :=
  c.now_ms r.t3 ≤ d ∧ c.now_ms r.t3 - c.now_ms r.t1 ≤ (r.t2 - r.t0 + (MILLI - 1)) / MILLI

instance (c : Clocks) (r : Readings) (d : Nat) : Decidable (Contained c r d) :=
  inferInstanceAs (Decidable (_ ∧ _))

/-- A callback's deadline is at most its request's exactly when the readings are contained,
    or the request's deadline is the largest the wire can carry. -/
theorem callback_deadline_le_iff (c : Clocks) (r : Readings) (d : Nat) :
    callback_deadline c r (parent_deadline c r d) ≤ parent_deadline c r d ↔
      parent_deadline c r d = MAX_JSON_INTEGER ∨ Contained c r (parent_deadline c r d) := by
  have hm := parent_deadline_le_max c r d
  have hr := parent_deadline_le_horizon c r d
  have h1 : c.now_ms r.sent ≤ c.now_ms r.t1 := c.now_ms_mono (Nat.le_trans r.sent_le r.le01)
  have h13 : c.now_ms r.t1 ≤ c.now_ms r.t3 := c.now_ms_mono (Nat.le_trans r.le12 r.le23)
  have h34 : c.now_ms r.t3 ≤ c.now_ms r.t4 := c.now_ms_mono r.le34
  rw [callback_deadline_eq c r _ hm hr, Contained]
  generalize (r.t2 - r.t0 + (MILLI - 1)) / MILLI = started
  omega

/-- The wall clock turns to the next millisecond between the callback's two readings. -/
def lateReadings : Readings where
  sent := 0
  t0 := 0
  t1 := 0
  t2 := 0
  t3 := 1
  t4 := 1
  sent_le := Nat.le_refl _
  le01 := Nat.le_refl _
  le12 := Nat.le_refl _
  le23 := Nat.zero_le _
  le34 := Nat.le_refl _

def lateClocks : Clocks := ⟨1786766400000999999, 0⟩

/-- A request with ten seconds left raises a callback that outlives it by a millisecond. -/
theorem callback_deadline_exceeds_parent :
    ¬ ∀ (c : Clocks) (r : Readings) (d : Nat),
      callback_deadline c r (parent_deadline c r d) ≤ parent_deadline c r d := by
  intro h
  have := h lateClocks lateReadings 1786766410000
  revert this
  decide

end Monosecret.Rpc.Deadline
