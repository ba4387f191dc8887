/-
  Monosecret.Rpc.ClientCorrelation — matching responses to calls (`Client::start`,
  `Call::wait`, `Drop for Call`, `abandon_request`, the reader task).

  `Correlation` is a session with the `oneshot` channels of its requests: a pending entry
  holds the sender of its waiter, and a response goes to the sender its ID finds. The reader
  takes the pending entry under one lock and looks for a marker under another, so a response
  without an entry is `looked` up in two steps; `fail_session` empties the two tables in two
  steps as well (`clearing`). Every run of the session is a run of this finer machine
  (`splits`), and its `ledger` stays balanced.

  `correlated`: IDs are asked in increasing order, a `wait` returns the response with the
  call's own ID, a marker stands for a queued request without an answer, the table keeps its
  bound, and the late response of a request given up takes its marker and no more, once, as
  long as the session has not failed. A request given up with the table full is the
  exception (`unmarked`): `abandon_request` fails the session then and marks nothing, and a
  late response read before it does is an unknown one.
-/

import Monosecret.Rpc.ClientLedger

namespace Monosecret.Rpc.Client

open Lib Machine

structure Correlation where
  session : State := {}
  /-- The response of which the reader found no pending entry. -/
  looked : Option (RequestId × Body) := none
  /-- The `fail_session`s that have not dropped the markers yet. -/
  clearing : Nat := 0
  senders : RequestId → Option Waiter := fun _ => none
  received : Waiter → Option (RequestId × Body) := fun _ => none
  /-- The responses read, in order. -/
  arrived : List (RequestId × Body) := []
  /-- The requests a response was taken for: it found their entry or their marker. -/
  answered : List RequestId := []
  given_up : List RequestId := []
  /-- Those given up while the table of markers was full. -/
  overflowed : List RequestId := []
  /-- What each `wait` returned. -/
  returned : List (Nat × RequestId × Body) := []

inductive Move where
  | session (e : Ev)
  | arrive (id : RequestId) (body : Body)
  | mark
  | drain
  | clear

/-- The reader task itself. -/
def Ev.reading : Ev → Bool
  | .read _ | .read_failed => true
  | _ => false

/-- `wait` returns what the receiver of its call holds. -/
def waited (x : Correlation) : Ev → List (Nat × RequestId × Body)
  | .call k .respond => ((x.received (.call k)).map fun r => (k, r)).toList
  | _ => []

/-- A step of the session, and its part in the history. -/
def record (x : Correlation) (e : Ev) (t : State) : Correlation :=
  { x with
    session := t
    senders := match registers x.session e with
      | some (id, w) => fun p => if p = id then some w else x.senders p
      | none => x.senders
    given_up := match abandons x.session e with
      | some id => x.given_up ++ [id]
      | none => x.given_up
    overflowed := match abandons x.session e with
      | some id =>
        if is_pending x.session id ∧ x.session.abandoned.length ≥ MAX_ABANDONED_REQUESTS then x.overflowed ++ [id]
        else x.overflowed
      | none => x.overflowed
    returned := x.returned ++ waited x e }

/-- The response's pending entry is removed; its sender gets the response. -/
def hand_over (x : Correlation) (id : RequestId) (body : Body) : Correlation :=
  { x with
    session := read_response x.session id body
    received := match x.senders id with
      | some w => fun w' => if w' = w then some (id, body) else x.received w'
      | none => x.received
    arrived := x.arrived ++ [(id, body)]
    answered := x.answered ++ [id] }

def look (x : Correlation) (id : RequestId) (body : Body) : Correlation :=
  { x with looked := some (id, body), arrived := x.arrived ++ [(id, body)] }

def arrive (x : Correlation) (id : RequestId) (body : Body) : Correlation :=
  if is_pending x.session id then hand_over x id body else look x id body

/-- The second look, for a marker. -/
def mark (x : Correlation) (id : RequestId) : Correlation :=
  if x.session.abandoned.contains id then
    { x with
      session := { x.session with abandoned := x.session.abandoned.erase id }
      looked := none
      answered := x.answered ++ [id] }
  else { x with session := read_fail x.session, looked := none }

/-- `fail_session` empties the pending table, then the markers. -/
def drain_pending (x : Correlation) : Correlation :=
  { x with session := { drain x.session with abandoned := x.session.abandoned }, clearing := x.clearing + 1 }

def clear_abandoned (x : Correlation) : Correlation :=
  { x with session := { x.session with abandoned := [] }, clearing := x.clearing - 1 }

variable (cfg : Config)

def move (x : Correlation) : Move → Option Correlation
  | .session e =>
    if e.matches || (e.reading && x.looked.isSome) then none else (step cfg x.session e).map (record x e)
  | .arrive id body => if x.session.reading && x.looked.isNone then some (arrive x id body) else none
  | .mark => x.looked.map fun r => mark x r.1
  | .drain => if 0 < x.session.failing then some (drain_pending x) else none
  | .clear => if 0 < x.clearing then some (clear_abandoned x) else none

def correlation : Machine Correlation Move := ⟨{}, move cfg⟩

variable {cfg} {s t : State} {x y : Correlation}

/-! ## Every run of a session -/

variable {id : RequestId}

theorem read_frame_response {frame : ServerFrame} (h : frame.response_id = some id) :
    ∃ body, frame.body = some body ∧ read_frame cfg s frame = read_response s id body := by
  cases frame with
  | callback r => cases h
  | reply rd body =>
    cases rd with
    | none => cases h
    | some rd =>
      cases h
      exact ⟨body, rfl, rfl⟩
  | terminal rd body =>
    cases h
    exact ⟨body, rfl, rfl⟩
  | shutdown rd =>
    cases h
    exact ⟨.result, rfl, rfl⟩

theorem mark_session (hp : is_pending x.session id = false) (body : Body) :
    (mark x id).session = read_response x.session id body := by
  unfold mark read_response
  simp only [hp, Bool.false_eq_true, if_false]
  split <;> rfl

theorem mark_looked (x : Correlation) (id : RequestId) : (mark x id).looked = none ∧ (mark x id).clearing = x.clearing := by
  unfold mark
  split <;> exact ⟨rfl, rfl⟩

/-- Both looks of the reader, one after the other. -/
theorem reach_read (hx : Reach (correlation cfg) any x) (hr : x.session.reading) (hl : x.looked = none)
    (id : RequestId) (b : Body) :
    ∃ y, Reach (correlation cfg) any y ∧ y.session = read_response x.session id b ∧ y.looked = none ∧
      y.clearing = x.clearing := by
  have ha : move cfg x (.arrive id b) = some (arrive x id b) :=
    if_pos (by rw [hr, hl]; rfl)
  have h1 : Reach (correlation cfg) any (arrive x id b) := .step (.arrive id b) hx rfl ha
  cases hp : is_pending x.session id with
  | true =>
    rw [arrive, if_pos hp] at h1
    exact ⟨_, h1, rfl, hl, rfl⟩
  | false =>
    rw [arrive, if_neg (by rw [hp]; nofun)] at h1
    have h2 : Reach (correlation cfg) any (mark (look x id b) id) := .step .mark h1 rfl rfl
    exact ⟨_, h2, mark_session (x := look x id b) hp b, mark_looked _ id⟩

/-- Every state of a session is one of the finer machine, between two looks. -/
theorem splits (h : Reach (machine cfg) any s) :
    ∃ x, Reach (correlation cfg) any x ∧ x.session = s ∧ x.looked = none ∧ x.clearing = 0 := by
  induction h with
  | init => exact ⟨{}, .init, rfl, rfl, rfl⟩
  | @step s t e _ _ hs ih =>
    obtain ⟨x, hx, rfl, hl, hc⟩ := ih
    have hs : step cfg x.session e = some t := hs
    cases he : e.matches with
    | false =>
      have hm : move cfg x (.session e) = some (record x e t) := by
        rw [move, he, hl, hs]
        cases e.reading <;> rfl
      exact ⟨_, .step (.session e) hx rfl hm, rfl, hl, hc⟩
    | true =>
      cases e with
      | read frame =>
        simp only [step] at hs
        split at hs
        · rename_i hr
          cases hs
          obtain ⟨id, hi⟩ := Option.isSome_iff_exists.mp he
          obtain ⟨b, -, hq⟩ := @read_frame_response cfg x.session id frame hi
          obtain ⟨y, hy, hys, hyl, hyc⟩ := reach_read hx hr hl id b
          exact ⟨y, hy, hys.trans hq.symm, hyl, hyc.trans hc⟩
        · cases hs
      | drain =>
        simp only [step] at hs
        split at hs
        · rename_i hf
          cases hs
          have h1 : Reach (correlation cfg) any (drain_pending x) := .step .drain hx rfl (if_pos hf)
          have h2 : Reach (correlation cfg) any (clear_abandoned (drain_pending x)) := .step .clear h1 rfl rfl
          exact ⟨_, h2, rfl, hl, hc⟩
        · cases hs
      | _ => cases he

/-! ## The ledger of a session -/

def Correlation.ledger (x : Correlation) : Ledger where
  floor := floor x.session
  named := named x.session
  own := own x.session
  asked := asked x.session
  pending := is_pending x.session
  abandoned := x.session.abandoned
  failed := x.session.failed
  overflowing := x.session.overflowing
  answers := x.session.answers
  senders := x.senders
  received := x.received
  arrived := x.arrived
  answered := x.answered
  given_up := x.given_up
  overflowed := x.overflowed
  returned := x.returned

structure CorrelationInv (x : Correlation) : Prop where
  ordered : Ordered x.session
  first : initialize_id < x.session.next_id
  failing : 0 < x.session.failing ∨ 0 < x.clearing → x.session.failed = true
  balanced : Balanced x.ledger

theorem is_pending_congr (h : t.pending = s.pending) : is_pending t = is_pending s :=
  funext fun p => by rw [is_pending, is_pending, h]

theorem is_pending_iff : is_pending s id ↔ ∃ r ∈ s.pending, r.id = id := by
  simp only [is_pending, List.any_eq_true, beq_iff_eq]

theorem is_pending_remove (s : State) (id : RequestId) :
    is_pending (remove_pending s id) = fun p => is_pending s p && p != id := by
  refine funext fun p => Bool.eq_iff_iff.mpr ?_
  rw [Bool.and_eq_true, is_pending_iff, is_pending_iff, bne_iff_ne]
  constructor
  · rintro ⟨r, hr, rfl⟩
    obtain ⟨hr, hn⟩ := List.mem_filter.mp hr
    exact ⟨⟨r, hr, rfl⟩, bne_iff_ne.mp hn⟩
  · rintro ⟨⟨r, hr, rfl⟩, hn⟩
    exact ⟨r, List.mem_filter.mpr ⟨hr, bne_iff_ne.mpr hn⟩, rfl⟩

theorem is_pending_insert {ms : Nat} (h : t.pending = s.pending ++ [⟨id, ms⟩]) :
    is_pending t = fun p => is_pending s p || p == id := by
  refine funext fun p => Bool.eq_iff_iff.mpr ?_
  rw [Bool.or_eq_true, is_pending_iff, is_pending_iff, beq_iff_eq, h]
  constructor
  · rintro ⟨r, hr, rfl⟩
    exact (List.mem_append.mp hr).imp (fun hr => ⟨r, hr, rfl⟩) fun hr => by rw [List.mem_singleton.mp hr]
  · rintro (⟨r, hr, rfl⟩ | rfl)
    · exact ⟨r, List.mem_append_left _ hr, rfl⟩
    · exact ⟨_, List.mem_append_right _ (List.mem_singleton_self _), rfl⟩

theorem named_functional (s : State) (w : Waiter) (id id' : RequestId) (h : named s id w) (h' : named s id' w) :
    id = id' := by
  cases w with
  | connect => exact h.trans h'.symm
  | call k =>
    obtain ⟨c, hk, rfl, -⟩ := h
    obtain ⟨c', hk', rfl, -⟩ := h'
    rw [hk] at hk'
    rw [Option.some.inj hk']
  | close p => exact h.symm.trans h'

theorem Untouched.named (h : Untouched s t) {w : Waiter} (hn : Client.named s id w) : Client.named t id w := by
  cases w with
  | connect => exact hn
  | call k =>
    obtain ⟨c, hk, hi, hc⟩ := hn
    obtain ⟨d, hk', hi', hd⟩ := h.calls k c hk hc
    exact ⟨d, hk', hi'.trans hi, hd⟩
  | close p => exact hn

theorem named_of_own {w : Waiter} {b : Bool} (h : own s w = some (id, b)) : named s id w := by
  cases w with
  | connect =>
    simp only [own, ConnectPhase.own] at h
    split at h
    · exact (congrArg Prod.fst (Option.some.inj h)).symm
    · exact (congrArg Prod.fst (Option.some.inj h)).symm
    · cases h
  | call k =>
    obtain ⟨c, hk, hc⟩ := Option.bind_eq_some_iff.mp h
    unfold Call.own at hc
    split at hc
    · rename_i hp
      exact ⟨c, hk, congrArg Prod.fst (Option.some.inj hc), by rw [hp]; rfl⟩
    · rename_i hp
      exact ⟨c, hk, congrArg Prod.fst (Option.some.inj hc), by rw [hp]; rfl⟩
    · cases hc
  | close p =>
    obtain ⟨-, hp⟩ := Option.filter_eq_some_iff.mp h
    exact (beq_iff_eq.mp hp).symm

theorem Pends.floor_le (h : Pends s t) (hf : initialize_id < s.next_id) : floor s ≤ floor t := by
  unfold floor
  cases h with
  | fewer _ hn hst =>
    split
    · split
      · exact Nat.le_refl _
      · exact Nat.le_of_lt (Nat.lt_of_lt_of_le hf hn)
    · rename_i hs
      rw [if_neg fun ht => hs (hst ht)]
      exact hn
  | insert _ _ hn hs ht =>
    rw [hs, ht]
    exact hn ▸ Nat.le_succ _
  | opening _ hs ht _ hn =>
    rw [hs, ht, hn]
    exact Nat.le_of_lt hf

theorem Pends.first_lt (h : Pends s t) (hf : initialize_id < s.next_id) : initialize_id < t.next_id := by
  cases h with
  | fewer _ hn _ => exact Nat.lt_of_lt_of_le hf hn
  | insert _ _ hn _ _ => exact hn ▸ Nat.lt_succ_of_lt hf
  | opening _ _ _ _ hn => exact hn ▸ hf

theorem abandon_pending (hp : is_pending s id) :
    (abandon_request s id).pending = (remove_pending s id).pending ∧
    (abandon_request s id).abandoned =
      (if s.abandoned.length ≥ MAX_ABANDONED_REQUESTS then s.abandoned else s.abandoned ++ [id]) ∧
    (abandon_request s id).overflowing =
      if s.abandoned.length ≥ MAX_ABANDONED_REQUESTS then s.overflowing + 1 else s.overflowing := by
  unfold abandon_request
  rw [if_pos hp]
  dsimp only
  split <;> exact ⟨rfl, rfl, rfl⟩

/-- A request that is not pending any more is left alone. -/
theorem abandon_over (hp : is_pending s id = false) : abandon_request s id = s :=
  if_neg (by rw [hp]; nofun)

/-! ## One step -/

theorem CorrelationInv.init : CorrelationInv {} where
  ordered := .init
  first := by decide
  failing := fun h => h.elim nofun nofun
  balanced := {
    functional := named_functional {}
    alone := fun w w' id id' h => by cases w <;> cases h
    increasing := List.Pairwise.nil
    below := nofun
    sent := nofun
    pending := nofun
    own := fun w id b h => by cases w <;> cases h
    queued := fun w id h => by cases w <;> cases h
    unqueued := fun w id h => by cases w <;> cases h
    marked := nofun
    distinct := List.nodup_nil
    bounded := Nat.zero_le _
    once := List.nodup_nil
    answered := nofun
    given_up := nofun
    overflowed := fun h => absurd rfl h
    received := nofun
    answers := nofun
    returned := nofun }

/-- The ledger after a step of the session, what `wait` returns apart. -/
theorem CorrelationInv.act {e : Ev} (h : CorrelationInv x) (hc : Act x.session t e) (hu : Untouched x.session t)
    (hf : floor x.session ≤ floor t) (hl : x.session.failed → t.failed) :
    Balanced { (record x e t).ledger with returned := x.returned } := by
  have hn : ∀ id w, named x.session id w → named t id w := fun _ _ => hu.named
  cases hc with
  | quiet hon hp ha hq hr hg =>
    have hgr := h.balanced.grow (floor t) (named t) (own t) t.failed t.overflowing hf (named_functional t) hn
      hon hl hu.overflowing
    simp only [Correlation.ledger, record, hr, hg, hq, ha, is_pending_congr hp, hu.answers] at hgr ⊢
    exact hgr
  | register w ms hal hw hrs ht hp ha hq hr hg =>
    have hgr := h.balanced.grow (floor x.session) (named t) (own x.session) t.failed t.overflowing (Nat.le_refl _)
      (named_functional t) hn (fun _ => .inl rfl) hl hu.overflowing
    have hrg := hgr.register w (floor t) (own t) ht (named_of_own hw) hal hw hrs
    simp only [Correlation.ledger, record, hr, hg, hq, ha, is_pending_insert hp, hu.answers] at hrg ⊢
    exact hrg
  | queue w id hs hw hrs hp ha hq hr hg =>
    have hgr := h.balanced.grow (floor t) (named t) (own x.session) t.failed t.overflowing hf
      (named_functional t) hn (fun _ => .inl rfl) hl hu.overflowing
    have hqu := hgr.queue (own t) hs hw hrs
    simp only [Correlation.ledger, record, hr, hg, hq, ha, is_pending_congr hp, hu.answers] at hqu ⊢
    exact hqu
  | take_back w id hs hw hrs hp ha hq hr hg =>
    have hgr := h.balanced.grow (floor t) (named t) (own x.session) t.failed t.overflowing hf
      (named_functional t) hn (fun _ => .inl rfl) hl hu.overflowing
    have hb := hgr.take_back (own t) hs hw hrs
    simp only [Correlation.ledger, record, hr, hg, hq, ha, is_pending_congr hp, is_pending_remove, hu.answers]
      at hb ⊢
    exact hb
  | give_up w id hs hw hrs hp ha ho hq hr hg =>
    have hgr := h.balanced.grow (floor t) (named t) (own x.session) t.failed x.session.overflowing hf
      (named_functional t) hn (fun _ => .inl rfl) hl (.inl (Nat.le_refl _))
    cases hpn : is_pending x.session id with
    | true =>
      obtain ⟨hp', ha', ho'⟩ := abandon_pending hpn
      have hv := hgr.give_up (own t) hs hw hrs hpn
      simp only [Correlation.ledger, record, hr, hg, hq, ha, ho, ha', ho', is_pending_congr (hp.trans hp'), hpn,
        true_and, is_pending_remove, hu.answers] at hv ⊢
      exact hv
    | false =>
      rw [abandon_over hpn] at hp ha ho
      have hon : ∀ w', own t w' = own x.session w' ∨ own t w' = none := fun w' => by
        by_cases hw' : w' = w
        · exact .inr (hw' ▸ hw)
        · exact .inl (hrs w' hw')
      have hv := hgr.give_up_late (own t) hs hon hpn
      simp only [Correlation.ledger, record, hr, hg, hq, ha, ho, is_pending_congr hp, hpn, Bool.false_eq_true,
        false_and, if_false, hu.answers] at hv ⊢
      exact hv

/-- No ID is asked twice or taken back from the queue. -/
theorem Act.asked {e : Ev} (h : Act s t e) (hi : id ∈ Client.asked s) : id ∈ Client.asked t := by
  cases h with
  | quiet _ _ _ hq | register _ _ _ _ _ _ _ _ hq => exact hq ▸ hi
  | queue _ _ _ _ _ _ _ hq => exact hq ▸ List.mem_append_left _ hi
  | take_back _ _ _ _ _ _ _ hq | give_up _ _ _ _ _ _ _ _ hq => exact hq ▸ hi

theorem respond_spec {k : Nat} (hs : step cfg s (.call k .respond) = some t) :
    ∃ c body, s.calls[k]? = some c ∧ c.phase = .live ∧ s.answers c.id = some body := by
  simp only [step] at hs
  split at hs
  · obtain ⟨c, hk, hs⟩ := Option.bind_eq_some_iff.mp hs
    unfold call_next at hs
    split at hs
    all_goals try contradiction
    rename_i hp
    split at hs
    · rename_i ha
      obtain ⟨body, hb⟩ := Option.isSome_iff_exists.mp ha
      exact ⟨c, body, hk, hp, hb⟩
    · cases hs
  · cases hs

section

variable (h : CorrelationInv x)

include h

/-- The receiver of a live call holds its answer, under its ID. -/
theorem CorrelationInv.wait {k : Nat} {c : Call} {b : Body}
    (hk : x.session.calls[k]? = some c) (hp : c.phase = .live) (ha : x.session.answers c.id = some b) :
    x.received (.call k) = some (c.id, b) ∧ c.id ∈ asked x.session := by
  have ho : x.ledger.own (.call k) = some (c.id, true) := (own_get hk).trans (by rw [Call.own, hp])
  obtain ⟨w, hw⟩ := h.balanced.answers c.id b ha
  have hs : x.senders c.id = some w := (h.balanced.received w c.id b hw).1
  have hs' : x.senders c.id = some (.call k) := (h.balanced.own _ _ _ ho).1
  rw [hs] at hs'
  exact ⟨Option.some.inj hs' ▸ hw, h.balanced.queued _ _ ho⟩

theorem CorrelationInv.session {e : Ev} (he : e.matches = false)
    (hs : step cfg x.session e = some t) : CorrelationInv (record x e t) := by
  obtain ⟨m, hk⟩ := step_keeps hs
  obtain ⟨hac, hu⟩ := step_act h.ordered h.first he hs
  have hb := h.act hac hu (hk.pends.floor_le h.first) hk.failed
  refine ⟨h.ordered.step he hs, hk.pends.first_lt h.first, fun hf => ?_, ?_⟩
  · rcases hf with hf | hf
    · exact hk.failing.elim (fun hl => hk.failed (h.failing (.inl (Nat.lt_of_lt_of_le hf hl)))) id
    · exact hk.failed (h.failing (.inr hf))
  · have hn : waited x e = [] → Balanced (record x e t).ledger := fun hw => by
      have hq : (record x e t).ledger = { (record x e t).ledger with returned := x.returned } := by
        simp only [Correlation.ledger, record, hw, List.append_nil]
      rw [hq]
      exact hb
    cases e with
    | call k e =>
      cases e with
      | respond =>
        obtain ⟨c, b, hc, hp, han⟩ := respond_spec hs
        obtain ⟨hr, ha⟩ := h.wait hc hp han
        have hw : waited x (.call k .respond) = [(k, c.id, b)] := by rw [waited, hr]; rfl
        have ht := @Balanced.wait _ c.id hb k b hr (hac.asked ha)
        simp only [Correlation.ledger, record, hw] at ht ⊢
        exact ht
      | _ => exact hn rfl
    | _ => exact hn rfl

theorem CorrelationInv.hand_over (b : Body) (hp : is_pending x.session id) : CorrelationInv (hand_over x id b) := by
  obtain ⟨w, hw⟩ := (h.balanced.pending id hp).1
  have hs : read_response x.session id b =
      { x.session with
        pending := x.session.pending.filter fun r => r.id != id
        abandoned := x.session.abandoned.erase id
        cancelled := fun p => x.session.cancelled p || p == id
        answers := fun p => if p = id then some b else x.session.answers p } := if_pos hp
  have hb := h.balanced.hand_over b hp hw
  have hn : is_pending (read_response x.session id b) = fun p => is_pending x.session p && p != id := by
    rw [← is_pending_remove, hs]
    rfl
  have hw' : x.senders id = some w := hw
  refine ⟨?_, ?_, ?_, ?_⟩
  · exact h.ordered.read_response id b
  · show initialize_id < (read_response x.session id b).next_id
    rw [hs]
    exact h.first
  · show 0 < (read_response x.session id b).failing ∨ _ → (read_response x.session id b).failed
    rw [hs]
    exact h.failing
  · have he : (Client.hand_over x id b).ledger = { x.ledger with
        pending := fun p => x.ledger.pending p && p != id
        abandoned := x.ledger.abandoned.erase id
        answers := fun p => if p = id then some b else x.ledger.answers p
        received := fun w' => if w' = w then some (id, b) else x.ledger.received w'
        arrived := x.ledger.arrived ++ [(id, b)]
        answered := x.ledger.answered ++ [id] } := by
      simp only [Correlation.ledger, Client.hand_over, hn, hw']
      rw [hs]
      rfl
    rw [he]
    exact hb

theorem CorrelationInv.arrive (id : RequestId) (b : Body) : CorrelationInv (Client.arrive x id b) := by
  unfold Client.arrive
  split
  · rename_i hp
    exact h.hand_over b hp
  · exact ⟨h.ordered, h.first, h.failing, h.balanced.arrive (id, b)⟩

theorem CorrelationInv.mark (id : RequestId) : CorrelationInv (Client.mark x id) := by
  unfold Client.mark
  split
  · rename_i hm
    exact ⟨h.ordered.same rfl rfl rfl rfl, h.first, h.failing, h.balanced.consume (List.contains_iff_mem.mp hm)⟩
  · have hg := h.balanced.grow (floor x.session) (named x.session) (own x.session) true x.session.overflowing
      (Nat.le_refl _) (named_functional _) (fun _ _ hn => hn) (fun _ => .inl rfl) (fun _ => rfl) (.inl (Nat.le_refl _))
    exact ⟨h.ordered.same rfl rfl rfl rfl, h.first, fun _ => rfl, hg⟩

theorem CorrelationInv.drain_pending (hf : 0 < x.session.failing) : CorrelationInv (Client.drain_pending x) :=
  ⟨h.ordered.same rfl rfl rfl rfl, h.first, fun _ => h.failing (.inl hf), h.balanced.drain (h.failing (.inl hf))⟩

theorem CorrelationInv.clear_abandoned (hc : 0 < x.clearing) : CorrelationInv (Client.clear_abandoned x) :=
  ⟨h.ordered.same rfl rfl rfl rfl, h.first, fun _ => h.failing (.inr hc), h.balanced.clear (h.failing (.inr hc))⟩

theorem CorrelationInv.move {m : Move} (hm : Client.move cfg x m = some y) : CorrelationInv y := by
  cases m with
  | session e =>
    simp only [Client.move] at hm
    split at hm
    · cases hm
    · rename_i hg
      obtain ⟨t, hs, rfl⟩ := Option.map_eq_some_iff.mp hm
      exact h.session (by simpa using (not_or.mp (mt Bool.or_eq_true_iff.mpr hg)).1) hs
  | arrive id b =>
    simp only [Client.move] at hm
    split at hm
    · exact Option.some.inj hm ▸ h.arrive id b
    · cases hm
  | mark =>
    obtain ⟨r, -, rfl⟩ := Option.map_eq_some_iff.mp hm
    exact h.mark r.1
  | drain =>
    simp only [Client.move] at hm
    split at hm
    · rename_i hf
      exact Option.some.inj hm ▸ h.drain_pending hf
    · cases hm
  | clear =>
    simp only [Client.move] at hm
    split at hm
    · rename_i hc
      exact Option.some.inj hm ▸ h.clear_abandoned hc
    · cases hm

end

theorem CorrelationInv.reach (h : Reach (correlation cfg) any x) : CorrelationInv x :=
  h.inv (I := CorrelationInv) .init fun _ _ _ hi _ hm => hi.move hm

/-! ## A full table -/

/-- A session without a request in flight, `n` of them given up and not answered. -/
structure Idle (n : Nat) (s : State) : Prop where
  connect : s.connect = .connected
  state : s.state = .READY
  order : s.order = none
  stopped : s.stopped = false
  written : s.log.length = s.taken
  capabilities : s.capabilities = ["resolver.resolve"]
  max_in_flight : s.max_in_flight = 2
  permits : s.calls.countP (·.permit) = 0
  pending : s.pending = []
  abandoned : s.abandoned.length = n
  overflowing : s.overflowing = 0
  failed : s.failed = false
  reading : s.reading = true

def asking (k : Nat) : List Ev :=
  [.start "resolver.resolve" 1000 false, .call k .order, .call k .recheck, .call k .insert, .call k .queue, .take]

/-- The session with one call in flight. -/
def asked_one (s : State) : State :=
  { s with
    calls := s.calls ++ [{
      method := "resolver.resolve", deadline_unix_ms := 1000, phase := .live, id := s.next_id, permit := true }]
    next_id := s.next_id + 1
    pending := [⟨s.next_id, 1000⟩]
    log := s.log ++ [.request ⟨s.next_id, "resolver.resolve", 1000, none, .other⟩]
    taken := s.taken + 1 }

theorem Idle.ask {n : Nat} (h : Idle n s) : (machine prompting).run any s (asking s.calls.length) = some (asked_one s) := by
  have hs : start s "resolver.resolve" 1000 false =
      { s with calls := s.calls ++ [⟨"resolver.resolve", 1000, .permitted, 0, true, false⟩] } := by
    simp [start, start_error, h.state, h.capabilities, h.max_in_flight, h.permits]
  simp [asking, run, any, machine, step, call_next, hs, h.connect, h.order, h.state, State.set_call, insert_pending, h.pending, room,
    h.stopped, h.written, State.queue, asked_one, prompting]
/-- It is given up before its response comes. -/
def dropped_one (s : State) : State :=
  { s with
    calls := s.calls ++ [{
      method := "resolver.resolve", deadline_unix_ms := 1000, phase := .ended, id := s.next_id, permit := false }]
    next_id := s.next_id + 1
    cancelled := fun p => s.cancelled p || (s.next_id == p && p == s.next_id)
    abandoned := s.abandoned ++ [s.next_id]
    log := s.log ++ [.request ⟨s.next_id, "resolver.resolve", 1000, none, .other⟩, .cancel s.next_id]
    taken := s.taken + 2 }

theorem Idle.drop {n : Nat} (h : Idle n s) (hn : n < MAX_ABANDONED_REQUESTS) :
    (machine prompting).run any (asked_one s) [.call s.calls.length .give_up, .call s.calls.length .settle, .take] =
      some (dropped_one s) := by
  have hf : ¬ MAX_ABANDONED_REQUESTS ≤ s.abandoned.length := by
    rw [h.abandoned]
    exact Nat.not_le.mpr hn
  simp [run, any, machine, step, call_next, asked_one, abandon_request, is_pending, remove_pending, hf, State.set_call,
    State.end_call, try_queue_cancel, State.queue, room, prompting, h.connect, h.order, h.stopped, h.written, h.pending,
    dropped_one]

theorem Idle.dropped {n : Nat} (h : Idle n s) : Idle (n + 1) (dropped_one s) where
  connect := h.connect
  state := h.state
  order := h.order
  stopped := h.stopped
  written := by simp [dropped_one, h.written]
  capabilities := h.capabilities
  max_in_flight := h.max_in_flight
  permits := by simp [dropped_one, h.permits]
  pending := h.pending
  abandoned := by simp [dropped_one, h.abandoned]
  overflowing := h.overflowing
  failed := h.failed
  reading := h.reading

theorem idle_reach (n : Nat) (hn : n ≤ MAX_ABANDONED_REQUESTS) : ∃ s, Reach (machine prompting) any s ∧ Idle n s := by
  induction n with
  | zero =>
    have hr : ∃ s, (machine prompting).run any {} (negotiating ++ [.connect .ready]) = some s ∧ Idle 0 s :=
      ⟨_, rfl, by constructor <;> rfl⟩
    obtain ⟨s, hs, hi⟩ := hr
    exact ⟨s, reach_run _ .init hs, hi⟩
  | succ n ih =>
    obtain ⟨s, hs, hi⟩ := ih (Nat.le_of_succ_le hn)
    exact ⟨_, reach_run _ (reach_run _ hs hi.ask) (hi.drop hn), hi.dropped⟩

/-- The tasks' own steps, taken one after the other. -/
theorem reach_session (es : List Ev) (hx : Reach (correlation cfg) any x) (hl : x.looked = none)
    (he : ∀ e ∈ es, e.matches = false) (hr : (machine cfg).run any x.session es = some t) :
    ∃ y, Reach (correlation cfg) any y ∧ y.session = t ∧ y.looked = none ∧ y.answered = x.answered := by
  induction es generalizing x with
  | nil => exact ⟨x, hx, Option.some.inj hr, hl, rfl⟩
  | cons e es ih =>
    obtain ⟨u, hu, hr⟩ := Option.bind_eq_some_iff.mp hr
    have hm : move cfg x (.session e) = some (record x e u) := by
      have hu : step cfg x.session e = some u := hu
      rw [move, he e (.head _), hl, hu]
      cases e.reading <;> rfl
    exact ih (x := record x e u) (.step (.session e) hx rfl hm) hl (fun e he' => he e (.tail _ he')) hr

/-- The late response of the request given up with the table full, read before the overflow
    fails the session. -/
theorem overfull : ∃ x id, Reach (correlation prompting) any x ∧ id ∈ x.given_up ∧ id ∉ x.answered ∧
    x.session.failed = false ∧ x.looked = some (id, .result) ∧ id ∉ x.session.abandoned := by
  obtain ⟨s, hs, hi⟩ := idle_reach MAX_ABANDONED_REQUESTS (Nat.le_refl _)
  obtain ⟨x, hx, rfl, hl, -⟩ := splits hs
  have hb := (CorrelationInv.reach hx).balanced
  have hls : floor x.session = x.session.next_id := floor_connected hi.connect
  have hn : x.session.next_id ∉ x.answered := fun ha =>
    Nat.lt_irrefl _ (Nat.lt_of_lt_of_eq (hb.answered _ ha) hls)
  have hun : x.session.next_id ∉ x.session.abandoned := fun ha =>
    Nat.lt_irrefl _ (Nat.lt_of_lt_of_eq (hb.below _ (hb.marked _ ha).1) hls)
  have hf : MAX_ABANDONED_REQUESTS ≤ x.session.abandoned.length := Nat.le_of_eq hi.abandoned.symm
  obtain ⟨y, hy, hys, hyl, hya⟩ := reach_session (asking x.session.calls.length) hx hl (by simp [asking, Ev.matches])
    hi.ask
  have hg : ∃ u, step prompting y.session (.call x.session.calls.length .give_up) = some u ∧
      u.pending = [] ∧ u.abandoned = x.session.abandoned ∧ u.failed = false ∧ u.reading := by
    rw [hys]
    simp [step, call_next, asked_one, abandon_request, is_pending, remove_pending, hf, State.set_call, hi.connect,
      hi.failed, hi.reading]
  obtain ⟨u, hu, hp, hab, hfl, hr⟩ := hg
  have hgn : abandons y.session (.call x.session.calls.length .give_up) = some x.session.next_id := by
    simp [abandons, hys, asked_one]
  have hm : move prompting y (.session (.call x.session.calls.length .give_up)) =
      some (record y (.call x.session.calls.length .give_up) u) := by
    rw [move, hu]
    rfl
  have hz : Reach (correlation prompting) any (record y (.call x.session.calls.length .give_up) u) :=
    .step (.session (.call x.session.calls.length .give_up)) hy rfl hm
  refine ⟨look (record y (.call x.session.calls.length .give_up) u) x.session.next_id .result, x.session.next_id,
    .step (.arrive x.session.next_id .result) hz rfl ?_, ?_, hya ▸ hn, hfl, rfl, hab ▸ hun⟩
  · simp [correlation, move, arrive, record, hr, hyl, is_pending, hp]
  · simp [look, record, hgn]

/-! ## The result -/

structure Correlated (cfg : Config) (x : Correlation) : Prop where
  /-- IDs are queued, and so written, in increasing order. -/
  increasing : (asked x.session).Pairwise (· < ·)
  wait : ∀ k y, move cfg x (.session (.call k .respond)) = some y →
    ∃ c body, x.session.calls[k]? = some c ∧ (c.id, body) ∈ x.arrived ∧ y.returned = x.returned ++ [(k, c.id, body)]
  returned : ∀ k id body, (k, id, body) ∈ x.returned →
    (∃ c, x.session.calls[k]? = some c ∧ c.id = id) ∧ id ∈ asked x.session ∧ (id, body) ∈ x.arrived
  marked : ∀ id ∈ x.session.abandoned, id ∈ asked x.session ∧ id ∉ x.answered
  bounded : x.session.abandoned.Nodup ∧ x.session.abandoned.length ≤ MAX_ABANDONED_REQUESTS
  once : x.answered.Nodup
  /-- The late response of a request given up takes its marker and changes nothing else. -/
  late : ∀ id ∈ x.given_up, id ∉ x.answered → id ∉ x.overflowed → x.session.failed = false → ∀ body,
    (x.session.reading = true → x.looked = none → move cfg x (.arrive id body) = some (look x id body)) ∧
    (x.looked = some (id, body) → move cfg x .mark = some { x with
      session := { x.session with abandoned := x.session.abandoned.erase id }
      looked := none
      answered := x.answered ++ [id] })
  /-- A second one is unknown. -/
  again : ∀ id ∈ x.answered, ∀ body,
    (x.session.reading = true → x.looked = none → move cfg x (.arrive id body) = some (look x id body)) ∧
    (x.looked = some (id, body) → move cfg x .mark = some { x with session := read_fail x.session, looked := none })
  /-- A full table fails the session. -/
  overflowed : x.overflowed ≠ [] → x.session.failed = true ∨ 0 < x.session.overflowing

/-- A response without a pending entry. -/
theorem move_arrive (hp : is_pending x.session id = false) (b : Body) (hr : x.session.reading)
    (hl : x.looked = none) : move cfg x (.arrive id b) = some (look x id b) := by
  simp only [move, hr, hl, Option.isNone_none, Bool.and_self, if_true, arrive, hp, Bool.false_eq_true, if_false]

theorem not_pending (h : CorrelationInv x) (hi : id ∈ x.session.abandoned ∨ id ∈ x.answered) :
    is_pending x.session id = false := by
  cases hp : is_pending x.session id with
  | false => rfl
  | true =>
    obtain ⟨-, hm, ha⟩ := h.balanced.pending id hp
    exact (hi.elim hm ha).elim

theorem correlated (cfg : Config) (x : Correlation) (h : Reach (correlation cfg) any x) : Correlated cfg x := by
  have hi := CorrelationInv.reach h
  have hb := hi.balanced
  exact {
    increasing := hb.increasing
    wait := fun k y hm => by
      obtain ⟨t, hs, rfl⟩ := Option.map_eq_some_iff.mp (hm : (step cfg x.session (.call k .respond)).map _ = some y)
      obtain ⟨c, b, hk, hp, hn⟩ := respond_spec hs
      obtain ⟨hr, -⟩ := hi.wait hk hp hn
      exact ⟨c, b, hk, (hb.received _ _ _ hr).2.1, by rw [record, waited, hr]; rfl⟩
    returned := fun k id b hmm => by
      obtain ⟨hr, ha⟩ := hb.returned k id b hmm
      obtain ⟨hsn, har, -⟩ := hb.received _ _ _ hr
      obtain ⟨c, hk, hd, -⟩ := (hb.sent id _ hsn).1
      exact ⟨⟨c, hk, hd⟩, ha, har⟩
    marked := hb.marked
    bounded := ⟨hb.distinct, hb.bounded⟩
    once := hb.once
    late := fun id hd hw hv hfl b => by
      have hm : id ∈ x.session.abandoned := by
        rcases (hb.given_up id hd).2 with hm | ha | hf | ho
        · exact hm
        · exact absurd ha hw
        · exact absurd (hfl.symm.trans hf) nofun
        · exact absurd ho hv
      refine ⟨move_arrive (not_pending hi (.inl hm)) b, fun hl => ?_⟩
      rw [move, hl, Option.map_some, mark, if_pos (List.contains_iff_mem.mpr hm)]
    again := fun id hd b => by
      have hm : id ∉ x.session.abandoned := fun hm => (hb.marked id hm).2 hd
      refine ⟨move_arrive (not_pending hi (.inr hd)) b, fun hl => ?_⟩
      rw [move, hl, Option.map_some, mark, if_neg fun hc => hm (List.contains_iff_mem.mp hc)]
    overflowed := hb.overflowed }

/-- One call is answered, the next given up and answered late. -/
theorem correlated_late :
    ∃ x, Reach (correlation prompting) any x ∧
      (x.returned = [(0, 2, .result)] ∧ x.given_up = [3] ∧ x.answered = [1, 2, 3] ∧ x.session.failed = false) ∧
      Correlated prompting x := by
  obtain ⟨x, hx, hr⟩ := reach_of_run (correlation prompting) any
    ([.session (.connect .insert), .session (.connect .queue), .session .take,
      .arrive 1 (.initialized 2 ["resolver.resolve"]), .session (.connect .respond), .session (.connect .negotiate),
      .session (.connect .ready)] ++ (asking 0).map .session ++ [.arrive 2 .result, .session (.call 0 .respond)] ++
      (asking 1).map .session ++ [.session (.call 1 .give_up), .arrive 3 .result, .mark])
    (fun x => (x.returned, x.given_up, x.answered, x.session.failed)) ([(0, 2, .result)], [3], [1, 2, 3], false)
    (by decide)
  simp only [Prod.mk.injEq] at hr
  exact ⟨x, hx, hr, correlated prompting x hx⟩

/-- With the table full a request given up gets no marker, and its late response fails the
    session as an unknown one. -/
theorem unmarked :
    ¬ ∀ (cfg : Config) (x : Correlation), Reach (correlation cfg) any x → ∀ id body, id ∈ x.given_up →
      id ∉ x.answered → x.session.failed = false → x.looked = some (id, body) →
      ∃ y, move cfg x .mark = some y ∧ y.session.failed = false := by
  intro ha
  obtain ⟨x, id, hx, hg, hn, hf, hl, hu⟩ := overfull
  obtain ⟨y, hy, ho⟩ := ha prompting x hx id .result hg hn hf hl
  simp only [move, hl, Option.map_some, Option.some.injEq] at hy
  subst hy
  rw [mark, if_neg (by simpa using hu)] at ho
  cases ho

end Monosecret.Rpc.Client
