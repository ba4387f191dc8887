/-
  Monosecret.Rpc.ClientMoves — what a step of a client session does to the tables its
  responses are matched in (`Client::start`, `request_internal`, `abandon_request`).

  A request is asked by one task, its `Waiter`: `connect`, a `start`, or one `close`. `own`
  is the request a waiter still has a stake in, and whether its frame was queued. `Ordered`
  is the order lock: a waiter that has taken an ID and not queued its frame is alone.
  `Moves` says once what a step can do: register a request under the next ID (`floor`),
  queue its frame, take the entry of a frame that was not queued back, give a queued request
  up, or leave the tables alone. The reader's steps on a response, and `fail_session`
  emptying the tables, are not among them.
-/

import Monosecret.Rpc.ClientTables

namespace Monosecret.Rpc.Client

open Lib Machine

/-- The task that waits for a response; a `close` by the request it asks. -/
inductive Waiter where
  | connect
  | call (k : Nat)
  | close (id : RequestId)
  deriving DecidableEq

/-- The IDs of the requests written so far, in the order of the queue. -/
def asked (s : State) : List RequestId :=
  s.log.filterMap fun
    | .request r => some r.id
    | _ => none

/-- No request was registered with this ID, nor with a later one. -/
def floor (s : State) : RequestId := if s.connect = .starting then initialize_id else s.next_id

/-- The request the task of a call waits for, and whether its frame was queued. -/
def Call.own (c : Call) : Option (RequestId × Bool) :=
  match c.phase with
  | .registered => some (c.id, false)
  | .live => some (c.id, true)
  | _ => none

/-- `start` has not registered a request yet. -/
def CallPhase.early : CallPhase → Bool
  | .permitted | .ordered | .rechecked => true
  | _ => false

/-- The call is between taking the order lock and releasing it. -/
def CallPhase.holds : CallPhase → Bool
  | .ordered | .rechecked | .registered => true
  | _ => false

def ConnectPhase.own : ConnectPhase → Option (RequestId × Bool)
  | .registered => some (initialize_id, false)
  | .queued => some (initialize_id, true)
  | _ => none

def Closer.own : Closer → Option (RequestId × Bool)
  | .registered id _ => some (id, false)
  | .queued id => some (id, true)
  | _ => none

def own (s : State) : Waiter → Option (RequestId × Bool)
  | .connect => s.connect.own
  | .call k => s.calls[k]?.bind Call.own
  | .close id => s.closer.own.filter fun r => r.1 == id

/-- The ID a waiter's request has, once it is registered. -/
def named (s : State) (id : RequestId) : Waiter → Prop
  | .connect => id = initialize_id
  | .call k => ∃ c, s.calls[k]? = some c ∧ c.id = id ∧ c.phase.early = false
  | .close id' => id' = id

/-- The request a step registers, with its waiter. -/
def registers (s : State) : Ev → Option (RequestId × Waiter)
  | .connect .insert => some (initialize_id, .connect)
  | .call k .insert => some (s.next_id, .call k)
  | .close .insert => some (s.next_id, .close s.next_id)
  | _ => none

/-- The queued request a step gives up (`abandon_request`). -/
def abandons (s : State) : Ev → Option RequestId
  | .connect .expire => some initialize_id
  | .call k .give_up => s.calls[k]?.map (·.id)
  | .close .expire =>
    match s.closer with
    | .queued id => some id
    | _ => none
  | _ => none

/-- The reader matches a response in its tables, or `fail_session` empties them. -/
def Ev.matches : Ev → Bool
  | .read frame => frame.response_id.isSome
  | .drain => true
  | _ => false

/-! ## The order lock -/

structure Ordered (s : State) : Prop where
  opening : s.connect ≠ .connected → s.calls = [] ∧ s.closer = .idle
  call : ∀ k c, s.calls[k]? = some c → c.phase.holds = true → s.order = some (.call k)
  closer : s.closer ≠ .idle → s.order = some .close

theorem Ordered.init : Ordered {} where
  opening := fun _ => ⟨rfl, rfl⟩
  call := nofun
  closer := fun h => absurd rfl h

variable {cfg : Config} {s t : State}

/-- A step of the tasks that do not hold the lock. -/
theorem Ordered.same (h : Ordered s) (hc : t.connect = s.connect) (hk : t.calls = s.calls) (hl : t.closer = s.closer)
    (ho : t.order = s.order) : Ordered t where
  opening := fun hn => by rw [hk, hl]; exact h.opening (hc ▸ hn)
  call := fun k c hg hp => by rw [ho]; exact h.call k c (hk ▸ hg) hp
  closer := fun hn => by rw [ho]; exact h.closer (hl ▸ hn)

theorem Ordered.connect {e : ConnectEv} (h : Ordered s) (hs : connect_step cfg s e = some t) : Ordered t := by
  have hi : s.connect ≠ .connected → s.calls = [] ∧ s.closer = .idle := h.opening
  have key : ∀ u : State, s.connect ≠ .connected → u.calls = s.calls → u.closer = s.closer → Ordered u :=
    fun u hn hk hl => by
      obtain ⟨h1, h2⟩ := hi hn
      refine ⟨fun _ => ⟨hk.trans h1, hl.trans h2⟩, fun k c hg => ?_, fun hc => absurd (hl.trans h2) hc⟩
      rw [hk, h1] at hg
      cases hg
  unfold connect_step at hs
  split at hs
  · rename_i hc
    cases hs
    exact key _ (by rw [hc]; nofun) rfl rfl
  · rename_i hc
    cases of_guard hs
    exact key _ (by rw [hc]; nofun) rfl rfl
  · rename_i hc
    cases hs
    exact key _ (by rw [hc]; nofun) rfl rfl
  · rename_i hc
    obtain ⟨b, -, rfl⟩ := Option.map_eq_some_iff.mp hs
    split <;> exact key _ (by rw [hc]; nofun) rfl rfl
  · rename_i hc
    cases of_guard hs
    exact key _ (by rw [hc]; nofun) rfl rfl
  · rename_i hc
    obtain ⟨p, o, a, cn, he, -⟩ := abandon_request_spec s initialize_id
    rw [he] at hs
    cases hs
    exact key _ (by rw [hc]; nofun) rfl rfl
  · rename_i hc
    cases hs
    exact key _ (by rw [hc]; nofun) rfl rfl
  · rename_i hc
    cases hs
    exact key _ (by rw [hc]; nofun) rfl rfl
  · rename_i hc
    cases hs
    exact key _ (by rw [hc]; nofun) rfl rfl
  · cases hs

variable {k : Nat} {c : Call}

section

variable (h : Ordered s)

include h

/-- The task of a call moves on: it holds the lock before and after, or takes or releases it. -/
theorem Ordered.set_call {d : Call} (hn : s.connect = .connected) (hk : s.calls[k]? = some c)
    (hc : t.connect = s.connect) (hcl : t.calls = s.calls.set k d) (hl : t.closer = s.closer)
    (ho : t.order = s.order ∧ (d.phase.holds → c.phase.holds) ∨ s.order = none ∧ t.order = some (.call k) ∨
      d.phase.holds = false ∧ (s.order = some (.call k) ∧ t.order = none)) : Ordered t := by
  have hg : ∀ j c', t.calls[j]? = some c' → j = k ∧ c' = d ∨ j ≠ k ∧ s.calls[j]? = some c' := fun j c' hj =>
    getElem?_set_some (hcl ▸ hj)
  refine ⟨fun hne => absurd (hc.trans hn) hne, fun j c' hj hp => ?_, fun hne => ?_⟩
  · rcases hg j c' hj with ⟨rfl, rfl⟩ | ⟨hjk, hj⟩
    · rcases ho with ⟨ho, hh⟩ | ⟨-, ho⟩ | ⟨hh, -⟩
      · exact ho.trans (h.call j c hk (hh hp))
      · exact ho
      · rw [hh] at hp
        cases hp
    · have hj' := h.call j c' hj hp
      rcases ho with ⟨ho, -⟩ | ⟨ho, -⟩ | ⟨-, ho, -⟩
      · exact ho.trans hj'
      · rw [ho] at hj'
        cases hj'
      · rw [ho] at hj'
        exact absurd (by injection hj' with hj'; injection hj' with hj'; exact hj'.symm) hjk
  · have hl' := h.closer (hl ▸ hne)
    rcases ho with ⟨ho, -⟩ | ⟨ho, -⟩ | ⟨-, ho, -⟩
    · exact ho.trans hl'
    · rw [ho] at hl'
      cases hl'
    · rw [ho] at hl'
      cases hl'

theorem Ordered.end_call {p : CallPhase} (hc : s.connect = .connected)
    (hk : s.calls[k]? = some c) (hp : p.holds = false) : Ordered (s.end_call k c p) := by
  refine h.set_call hc hk rfl rfl rfl ?_
  by_cases ho : s.order = some (.call k)
  · exact .inr (.inr ⟨hp, ho, if_pos ho⟩)
  · exact .inl ⟨if_neg ho, fun h' => absurd (hp.symm.trans h') nofun⟩

theorem Ordered.call_next {e : CallEv} (hc : s.connect = .connected) (hk : s.calls[k]? = some c)
    (hs : Client.call_next cfg s k c e = some t) : Ordered t := by
  unfold Client.call_next at hs
  split at hs
  · split at hs
    · rename_i ho
      cases hs
      exact h.set_call hc hk rfl rfl rfl (.inr (.inl ⟨ho, rfl⟩))
    · cases hs
  · cases hs
    exact h.end_call hc hk rfl
  · rename_i hp
    split at hs
    · cases hs
      exact h.set_call hc hk rfl rfl rfl (.inl ⟨rfl, fun _ => by rw [hp]; rfl⟩)
    · cases hs
      exact h.end_call hc hk rfl
  · rename_i hp
    cases hs
    exact h.set_call hc hk rfl rfl rfl (.inl ⟨rfl, fun _ => by rw [hp]; rfl⟩)
  · have hu : Ordered { s with next_id := s.next_id + 1 } := h.same rfl rfl rfl rfl
    cases hs
    exact hu.end_call hc hk rfl
  · rename_i hp
    have ho : s.order = some (.call k) := h.call k c hk (by rw [hp]; rfl)
    cases of_guard hs
    exact h.set_call hc hk rfl rfl rfl (.inr (.inr ⟨rfl, ho, rfl⟩))
  · have hu : Ordered (remove_pending s c.id) := h.same rfl rfl rfl rfl
    cases hs
    exact hu.end_call hc hk rfl
  · rename_i hp
    cases hs
    exact h.set_call hc hk rfl rfl rfl (.inl ⟨rfl, id⟩)
  · cases of_guard hs
    exact h.set_call hc hk rfl rfl rfl (.inl ⟨rfl, id⟩)
  · cases of_guard hs
    exact h.end_call hc hk rfl
  · cases of_guard hs
    exact h.end_call hc hk rfl
  · obtain ⟨p, o, a, cn, he, -⟩ := abandon_request_spec s c.id
    rw [he] at hs
    cases hs
    exact h.set_call hc hk rfl rfl rfl (.inl ⟨rfl, nofun⟩)
  · have hu : Ordered (try_queue_cancel cfg s c.id) := by
      unfold try_queue_cancel
      split
      · exact h.same rfl rfl rfl rfl
      · exact h
    have hm : (try_queue_cancel cfg s c.id).connect = s.connect ∧ (try_queue_cancel cfg s c.id).calls = s.calls := by
      unfold try_queue_cancel
      split <;> exact ⟨rfl, rfl⟩
    cases hs
    exact hu.end_call (hm.1.trans hc) (hm.2.symm ▸ hk) rfl
  · cases hs

/-- `close` holds the lock to its end. -/
theorem Ordered.set_closer (hc : t.connect = .connected) (hl : t.calls = s.calls)
    (ho : s.order = none ∨ s.order = some .close) (he : t.order = some .close ∨ t.closer = .idle) : Ordered t where
  opening := fun hn => absurd hc hn
  call := fun k c hg hp => by
    have hca := h.call k c (hl ▸ hg) hp
    rcases ho with ho | ho
    all_goals
      rw [ho] at hca
      cases hca
  closer := fun hn => he.resolve_right hn

theorem Ordered.close_step {e : CloseEv} (hn : s.connect = .connected)
    (hs : Client.close_step cfg s e = some t) : Ordered t := by
  have held : s.closer ≠ .idle → ∀ {u : State}, u.connect = .connected → u.calls = s.calls →
      u.order = s.order ∨ u.closer = .idle → Ordered u := fun hne _ hn hl he =>
    h.set_closer hn hl (.inr (h.closer hne)) (he.imp_left fun ho => ho.trans (h.closer hne))
  unfold Client.close_step at hs
  split at hs
  · split at hs
    · rename_i ho
      cases hs
      exact h.set_closer hn rfl (.inl ho) (.inl rfl)
    · cases hs
  · rename_i hc
    split at hs
    · cases hs
      exact held (by rw [hc]; nofun) hn rfl (.inl rfl)
    · cases hs
      exact held (by rw [hc]; nofun) hn rfl (.inl rfl)
    · cases hs
      exact held (by rw [hc]; nofun) hn rfl (.inr rfl)
  · rename_i hc
    cases hs
    exact held (by rw [hc]; nofun) hn rfl (.inl rfl)
  · rename_i hc
    cases of_guard hs
    exact held (by rw [hc]; nofun) hn rfl (.inl rfl)
  · rename_i hc
    cases hs
    exact held (by rw [hc]; nofun) hn rfl (.inl rfl)
  · rename_i hc
    cases of_guard hs
    exact held (by rw [hc]; nofun) hn rfl (.inl rfl)
  · rename_i hc
    cases of_guard hs
    exact held (by rw [hc]; nofun) hn rfl (.inl rfl)
  · rename_i id hc
    obtain ⟨p, o, a, cn, hq, -⟩ := abandon_request_spec s id
    rw [hq] at hs
    cases hs
    exact held (by rw [hc]; nofun) hn rfl (.inl rfl)
  · rename_i hc
    cases hs
    exact held (by rw [hc]; nofun) hn rfl (.inr rfl)
  · rename_i hc
    cases hs
    exact held (by rw [hc]; nofun) hn rfl (.inr rfl)
  · rename_i hc
    cases hs
    exact held (by rw [hc]; nofun) hn rfl (.inr rfl)
  · rename_i hc
    cases hs
    exact held (by rw [hc]; nofun) hn rfl (.inr rfl)
  · cases hs

theorem Ordered.start (hc : s.connect = .connected) (m : String) (ms : Nat) (expired : Bool) :
    Ordered (Client.start s m ms expired) where
  opening := fun hn => absurd hc hn
  call := fun k c hg hp => by
    rcases getElem?_snoc hg with hg | ⟨-, rfl⟩
    · exact h.call k c hg hp
    · split at hp <;> cases hp
  closer := h.closer

theorem Ordered.read_response (id : RequestId) (b : Body) : Ordered (Client.read_response s id b) := by
  unfold Client.read_response
  split
  · exact h.same rfl rfl rfl rfl
  · split <;> exact h.same rfl rfl rfl rfl

theorem Ordered.step {e : Ev} (he : e.matches = false) (hs : Client.step cfg s e = some t) : Ordered t := by
  cases e with
  | connect e => exact h.connect hs
  | start m d expired =>
    simp only [Client.step] at hs
    split at hs
    · rename_i hc
      cases hs
      exact h.start hc m d expired
    · cases hs
  | call k e =>
    simp only [Client.step] at hs
    split at hs
    · rename_i hc
      obtain ⟨c, hk, hs⟩ := Option.bind_eq_some_iff.mp hs
      exact h.call_next hc hk hs
    · cases hs
  | close e =>
    simp only [Client.step] at hs
    split at hs
    · rename_i hc
      exact h.close_step hc hs
    · cases hs
  | read frame =>
    simp only [Client.step] at hs
    cases of_guard hs
    cases frame with
    | callback r =>
      simp only [read_frame]
      split
      · cases hr : serve_callback cfg s r with
        | none => exact h.same rfl rfl rfl rfl
        | some u =>
          obtain ⟨p, parent, -, -, -, -, rfl⟩ := serve_callback_spec hr
          exact h.same rfl rfl rfl rfl
      · exact h.same rfl rfl rfl rfl
    | reply id b =>
      cases id with
      | none => exact h.same rfl rfl rfl rfl
      | some id => cases he
    | terminal id b | shutdown id => cases he
  | inbound k e =>
    obtain ⟨c, -, hs⟩ := Option.bind_eq_some_iff.mp hs
    unfold inbound_next at hs
    split at hs
    · cases hs
      exact h.same rfl rfl rfl rfl
    · cases of_guard hs
      exact h.same rfl rfl rfl rfl
    · cases of_guard hs
      exact h.same rfl rfl rfl rfl
    · cases hs
  | drain => cases he
  | read_failed | abandon | overflow | take | writer_stop | reader_abort =>
    simp only [Client.step] at hs
    cases of_guard hs
    exact h.same rfl rfl rfl rfl
  | writer_fail =>
    simp only [Client.step] at hs
    split at hs
    · cases hs
    · cases hs
      exact h.same rfl rfl rfl rfl

end

/-! ## What the waiters have a stake in -/

theorem asked_append {m : List ClientFrame} (h : t.log = s.log ++ m) (hm : ∀ r, .request r ∉ m) : asked t = asked s := by
  have hn : m.filterMap (fun | .request r => some r.id | _ => none) = ([] : List RequestId) := by
    refine List.filterMap_eq_nil_iff.mpr fun f hf => ?_
    cases f with
    | request r => exact absurd hf (hm r)
    | _ => rfl
  unfold asked
  rw [h, List.filterMap_append, hn, List.append_nil]

theorem asked_queue {r : Request} (h : t.log = s.log ++ [.request r]) : asked t = asked s ++ [r.id] := by
  unfold asked
  rw [h, List.filterMap_append]
  rfl

theorem own_get (hk : s.calls[k]? = some c) : own s (.call k) = c.own := by
  simp only [own, hk, Option.bind_some]

theorem own_set {d : Call} (hk : s.calls[k]? = some c) (hc : t.calls = s.calls.set k d) : own t (.call k) = d.own :=
  own_get (by rw [hc, List.getElem?_set_self (List.getElem?_eq_some_iff.mp hk).1])

/-- Where only the task of one call moves. -/
theorem own_rest_call {d : Call} (hc : t.connect = s.connect) (hcl : t.calls = s.calls.set k d)
    (hl : t.closer = s.closer) (w : Waiter) (hw : w ≠ .call k) : own t w = own s w := by
  cases w with
  | connect => exact congrArg ConnectPhase.own hc
  | call j =>
    have hn : k ≠ j := fun h => hw (h ▸ rfl)
    simp only [own, hcl, List.getElem?_set_ne hn]
  | close id => simp only [own, hl]

theorem own_same (hc : t.connect = s.connect) (hcl : t.calls = s.calls) (hl : t.closer = s.closer) (w : Waiter) :
    own t w = own s w := by
  cases w with
  | connect => exact congrArg ConnectPhase.own hc
  | call j => simp only [own, hcl]
  | close id => simp only [own, hl]

/-- A waiter whose frame is not queued yet holds the lock. -/
theorem own_unqueued {w : Waiter} {id : RequestId} (h : own s w = some (id, false)) :
    s.connect = .registered ∨ (∃ k c, w = .call k ∧ s.calls[k]? = some c ∧ c.phase = .registered) ∨
      ∃ ms, s.closer = .registered id ms := by
  cases w with
  | connect =>
    simp only [own, ConnectPhase.own] at h
    split at h
    · exact .inl (by assumption)
    · cases h
    · cases h
  | call k =>
    obtain ⟨c, hk, hc⟩ := Option.bind_eq_some_iff.mp h
    unfold Call.own at hc
    split at hc
    · exact .inr (.inl ⟨k, c, rfl, hk, by assumption⟩)
    · cases hc
    · cases hc
  | close id' =>
    obtain ⟨ho, -⟩ := Option.filter_eq_some_iff.mp h
    unfold Closer.own at ho
    split at ho
    · cases ho
      exact .inr (.inr ⟨_, by assumption⟩)
    all_goals cases ho

/-- Giving a request up touches its own tables only. -/
theorem abandon_request_rest (s : State) (id : RequestId) :
    (abandon_request s id).connect = s.connect ∧ (abandon_request s id).calls = s.calls ∧
      (abandon_request s id).closer = s.closer ∧ (abandon_request s id).log = s.log ++ [] := by
  obtain ⟨p, o, a, cn, he, -⟩ := abandon_request_spec s id
  rw [he]
  exact ⟨rfl, rfl, rfl, (List.append_nil _).symm⟩

theorem floor_connected (h : s.connect = .connected) : floor s = s.next_id := if_neg (by rw [h]; nofun)

theorem lt_floor (h : t.connect = .connected) (hn : t.next_id = s.next_id + 1) : s.next_id < floor t := by
  rw [floor_connected h, hn]
  exact Nat.lt_succ_self _

/-! ## Moves -/

/-- What a step does to the tables. -/
inductive Act (s t : State) (e : Ev) : Prop where
  /-- Nothing; a waiter may stop waiting. -/
  | quiet (hown : ∀ w, own t w = own s w ∨ own t w = none) (hp : t.pending = s.pending) (ha : t.abandoned = s.abandoned)
      (hq : asked t = asked s) (hr : registers s e = none) (hg : abandons s e = none)
  | register (w : Waiter) (ms : Nat) (halone : ∀ w' id, own s w' ≠ some (id, false))
      (hw : own t w = some (floor s, false)) (hrest : ∀ w', w' ≠ w → own t w' = own s w')
      (hfloor : floor s < floor t) (hp : t.pending = s.pending ++ [⟨floor s, ms⟩]) (ha : t.abandoned = s.abandoned)
      (hq : asked t = asked s) (hr : registers s e = some (floor s, w)) (hg : abandons s e = none)
  | queue (w : Waiter) (id : RequestId) (hs : own s w = some (id, false)) (ht : own t w = some (id, true))
      (hrest : ∀ w', w' ≠ w → own t w' = own s w') (hp : t.pending = s.pending) (ha : t.abandoned = s.abandoned)
      (hq : asked t = asked s ++ [id]) (hr : registers s e = none) (hg : abandons s e = none)
  | take_back (w : Waiter) (id : RequestId) (hs : own s w = some (id, false)) (ht : own t w = none)
      (hrest : ∀ w', w' ≠ w → own t w' = own s w') (hp : t.pending = (remove_pending s id).pending)
      (ha : t.abandoned = s.abandoned) (hq : asked t = asked s) (hr : registers s e = none) (hg : abandons s e = none)
  | give_up (w : Waiter) (id : RequestId) (hs : own s w = some (id, true)) (ht : own t w = none)
      (hrest : ∀ w', w' ≠ w → own t w' = own s w') (hp : t.pending = (abandon_request s id).pending)
      (ha : t.abandoned = (abandon_request s id).abandoned) (ho : t.overflowing = (abandon_request s id).overflowing)
      (hq : asked t = asked s) (hr : registers s e = none) (hg : abandons s e = some id)

theorem Act.still {e : Ev} (ho : ∀ w, own t w = own s w) (hp : t.pending = s.pending) (ha : t.abandoned = s.abandoned)
    (hq : asked t = asked s) (hr : registers s e = none) (hg : abandons s e = none) : Act s t e :=
  .quiet (fun w => .inl (ho w)) hp ha hq hr hg

theorem act_connect {e : ConnectEv} (ho : Ordered s) (hf : initialize_id < s.next_id)
    (hs : connect_step cfg s e = some t) : Act s t (.connect e) := by
  have hr : ∀ u : State, s.connect ≠ .connected → u.calls = s.calls → u.closer = s.closer →
      ∀ w, w ≠ .connect → own u w = own s w := fun u _ hk hl w hw => by
    cases w with
    | connect => exact absurd rfl hw
    | call j => simp only [own, hk]
    | close id => simp only [own, hl]
  have ht : ∀ u : State, u.connect.own = none → u.calls = s.calls → u.closer = s.closer →
      ∀ w, own u w = own s w ∨ own u w = none := fun u hu hk hl w => by
    by_cases hw : w = .connect
    · exact .inr (hw ▸ hu)
    · exact .inl (by cases w <;> simp_all only [own, ne_eq, not_true_eq_false])
  unfold connect_step at hs
  split at hs
  · rename_i hc
    cases hs
    have hn : s.connect ≠ .connected := by rw [hc]; nofun
    have hfl : floor s = initialize_id := if_pos hc
    refine .register .connect cfg.startup_deadline_unix_ms (fun w' id hw' => ?_) (by rw [hfl]; rfl)
      (hr _ hn rfl rfl) ?_ (by rw [hfl]; rfl) rfl rfl (by rw [hfl]; rfl) rfl
    · rcases own_unqueued hw' with h | ⟨k, c, -, hk, -⟩ | ⟨ms, h⟩
      · rw [hc] at h
        cases h
      · rw [(ho.opening hn).1] at hk
        cases hk
      · rw [(ho.opening hn).2] at h
        cases h
    · rw [hfl]
      exact hf
  · rename_i hc
    cases of_guard hs
    exact .queue .connect initialize_id (by simp only [own, hc, ConnectPhase.own]) rfl
      (hr _ (by rw [hc]; nofun) rfl rfl) rfl rfl (asked_queue (r := initialize_request cfg) rfl) rfl rfl
  · rename_i hc
    cases hs
    exact .take_back .connect initialize_id (by simp only [own, hc, ConnectPhase.own]) rfl
      (hr _ (by rw [hc]; nofun) rfl rfl) rfl rfl rfl rfl rfl
  · obtain ⟨b, -, rfl⟩ := Option.map_eq_some_iff.mp hs
    split <;> exact .quiet (ht _ rfl rfl rfl) rfl rfl rfl rfl rfl
  · cases of_guard hs
    exact .quiet (ht _ rfl rfl rfl) rfl rfl rfl rfl rfl
  · rename_i hc
    cases hs
    obtain ⟨-, hcs, hcl, hg⟩ := abandon_request_rest s initialize_id
    exact .give_up .connect initialize_id (by simp only [own, hc, ConnectPhase.own]) rfl
      (hr _ (by rw [hc]; nofun) hcs hcl) rfl rfl rfl (asked_append hg nofun) rfl rfl
  · cases hs
    exact .quiet (ht _ rfl rfl rfl) rfl rfl rfl rfl rfl
  · cases hs
    exact .quiet (ht _ rfl rfl rfl) rfl rfl rfl rfl rfl
  · cases hs
    exact .quiet (ht _ rfl rfl rfl) rfl rfl rfl rfl rfl
  · cases hs

theorem act_call {e : CallEv} (ho : Ordered s) (hc : s.connect = .connected) (hk : s.calls[k]? = some c)
    (hs : call_next cfg s k c e = some t) : Act s t (.call k e) := by
  -- the task of the call alone moves, and neither registers nor queues
  have hq : ∀ (u : State) (d : Call), u.connect = s.connect → u.calls = s.calls.set k d → u.closer = s.closer →
      (d.own = c.own ∨ d.own = none) → ∀ w, own u w = own s w ∨ own u w = none := fun u d h1 h2 h3 hd w => by
    by_cases hw : w = .call k
    · rw [hw, own_set hk h2, own_get hk]
      exact hd
    · exact .inl (own_rest_call h1 h2 h3 w hw)
  unfold call_next at hs
  split at hs
  · cases of_guard hs
    exact .quiet (hq _ _ rfl rfl rfl (.inr rfl)) rfl rfl rfl rfl rfl
  · cases hs
    exact .quiet (hq _ _ rfl rfl rfl (.inr rfl)) rfl rfl rfl rfl rfl
  · split at hs
    all_goals
      cases hs
      exact .quiet (hq _ _ rfl rfl rfl (.inr rfl)) rfl rfl rfl rfl rfl
  · rename_i hp
    cases hs
    have hf : floor s = s.next_id := floor_connected hc
    refine .register (.call k) c.deadline_unix_ms (fun w' id hw' => ?_) (by rw [own_set hk rfl, hf]; rfl)
      (own_rest_call rfl rfl rfl) ?_ (by rw [hf]; rfl) rfl rfl (by rw [hf]; rfl) rfl
    · -- another registered waiter would hold the lock as well
      have hl := ho.call k c hk (by rw [hp]; rfl)
      rcases own_unqueued hw' with h | ⟨j, d, -, hj, hd⟩ | ⟨ms, h⟩
      · rw [hc] at h
        cases h
      · have hl' := ho.call j d hj (by rw [hd]; rfl)
        rw [hl] at hl'
        obtain rfl : k = j := by injection hl' with h; injection h
        rw [hk] at hj
        rw [← Option.some.inj hj, hp] at hd
        cases hd
      · rw [ho.closer (by rw [h]; nofun)] at hl
        cases hl
    · rw [hf]
      exact lt_floor hc rfl
  · cases hs
    exact .quiet (hq _ _ rfl rfl rfl (.inr rfl)) rfl rfl rfl rfl rfl
  · rename_i hp
    cases of_guard hs
    exact .queue (.call k) c.id ((own_get hk).trans (by rw [Call.own, hp]))
      (own_set (d := { c with phase := .live }) hk rfl) (own_rest_call rfl rfl rfl) rfl rfl (asked_queue
        (r := ⟨c.id, c.method, c.deadline_unix_ms, none, .other⟩) rfl) rfl rfl
  · rename_i error hp
    cases hs
    exact .take_back (.call k) c.id ((own_get hk).trans (by rw [Call.own, hp]))
      (own_set (d := { c with phase := .failed error, permit := false }) hk rfl) (own_rest_call rfl rfl rfl) rfl rfl rfl rfl rfl
  · cases hs
    exact .quiet (hq _ _ rfl rfl rfl (.inl rfl)) rfl rfl rfl rfl rfl
  · cases of_guard hs
    exact .quiet (hq _ _ rfl rfl rfl (.inl rfl)) rfl rfl (asked_append rfl (by simp)) rfl rfl
  · cases of_guard hs
    exact .quiet (hq _ _ rfl rfl rfl (.inr rfl)) rfl rfl rfl rfl rfl
  · cases of_guard hs
    exact .quiet (hq _ _ rfl rfl rfl (.inr rfl)) rfl rfl rfl rfl rfl
  · rename_i hp
    cases hs
    have hv : own s (.call k) = some (c.id, true) := (own_get hk).trans (by rw [Call.own, hp])
    have hg : abandons s (.call k .give_up) = some c.id := by rw [abandons, hk]; rfl
    obtain ⟨hn, hcs, hcl, hlg⟩ := abandon_request_rest s c.id
    have ht : ((abandon_request s c.id).set_call k { c with phase := .dropping }).calls =
        s.calls.set k { c with phase := .dropping } := congrArg (fun cl => List.set cl k _) hcs
    exact .give_up (.call k) c.id hv (own_set hk ht) (own_rest_call hn ht hcl) rfl rfl rfl
      (asked_append hlg nofun) rfl hg
  · cases hs
    unfold try_queue_cancel
    split
    · exact .quiet (hq _ _ rfl rfl rfl (.inr rfl)) rfl rfl (asked_append rfl (by simp)) rfl rfl
    · exact .quiet (hq _ _ rfl rfl rfl (.inr rfl)) rfl rfl rfl rfl rfl
  · cases hs

theorem act_close {e : CloseEv} (ho : Ordered s) (hco : s.connect = .connected) (hs : close_step cfg s e = some t) :
    Act s t (.close e) := by
  have hrs : ∀ (u : State) (id : RequestId), u.connect = s.connect → u.calls = s.calls →
      (∀ r, u.closer.own = some r → r.1 = id) → (∀ r, s.closer.own = some r → r.1 = id) →
      ∀ w, w ≠ .close id → own u w = own s w :=
    fun u id h1 h2 h3 h4 w hw => by
      cases w with
      | connect => exact congrArg ConnectPhase.own h1
      | call j => simp only [own, h2]
      | close id' =>
        have hn : ∀ o : Option (RequestId × Bool), (∀ r, o = some r → r.1 = id) → o.filter (fun r => r.1 == id') = none :=
          fun o h => Option.filter_eq_none_iff.mpr fun r hr => by
            rw [h r hr]
            exact fun he => hw (by rw [beq_iff_eq.mp he])
        simp only [own]
        rw [hn _ h3, hn _ h4]
  have hi : ∀ {id : RequestId} {b : Bool} (r : RequestId × Bool), some (id, b) = some r → r.1 = id := fun r hr =>
    (congrArg Prod.fst (Option.some.inj hr)).symm
  have ht : ∀ u : State, u.connect = s.connect → u.calls = s.calls →
      (u.closer.own = s.closer.own ∨ u.closer.own = none) → ∀ w, own u w = own s w ∨ own u w = none :=
    fun u h1 h2 h3 w => by
      cases w with
      | connect => exact .inl (congrArg ConnectPhase.own h1)
      | call j => exact .inl (by simp only [own, h2])
      | close id => exact h3.imp (fun h => by simp only [own, h]) fun h => by simp only [own, h, Option.filter_none]
  have hl : ∀ (u : State) (id : RequestId) (b : Bool), u.closer.own = some (id, b) → own u (.close id) = some (id, b) :=
    fun u id b h => by simp only [own, h, Option.filter_some, beq_self_eq_true, if_true]
  unfold close_step at hs
  split at hs
  · cases of_guard hs
    exact .quiet (ht _ rfl rfl (.inr rfl)) rfl rfl rfl rfl rfl
  · split at hs
    all_goals
      cases hs
      exact .quiet (ht _ rfl rfl (.inr rfl)) rfl rfl rfl rfl rfl
  · rename_i ms hc
    cases hs
    have hf : floor s = s.next_id := floor_connected hco
    refine .register (.close s.next_id) ms (fun w' id hw' => ?_) (by rw [hf]; exact hl _ _ _ rfl)
      (hrs _ _ rfl rfl hi (by rw [hc]; nofun)) (by rw [hf]; exact lt_floor hco rfl) (by rw [hf]; rfl) rfl rfl
      (by rw [hf]; rfl) rfl
    have hlc := ho.closer (by rw [hc]; nofun)
    rcases own_unqueued hw' with h | ⟨j, d, -, hj, hd⟩ | ⟨ms, h⟩
    · rw [hco] at h
      cases h
    · rw [ho.call j d hj (by rw [hd]; rfl)] at hlc
      cases hlc
    · rw [hc] at h
      cases h
  · rename_i id ms hc
    cases of_guard hs
    exact .queue (.close id) id (hl s _ _ (by rw [hc]; rfl)) (hl _ _ _ rfl)
      (hrs _ _ rfl rfl hi (by rw [hc]; exact hi)) rfl rfl
      (asked_queue (r := ⟨id, rpc.SHUTDOWN, ms, none, .empty⟩) rfl) rfl rfl
  · rename_i id ms hc
    cases hs
    exact .take_back (.close id) id (hl s _ _ (by rw [hc]; rfl)) rfl
      (hrs _ _ rfl rfl nofun (by rw [hc]; exact hi)) rfl rfl rfl rfl rfl
  · cases of_guard hs
    exact .quiet (ht _ rfl rfl (.inr rfl)) rfl rfl rfl rfl rfl
  · cases of_guard hs
    exact .quiet (ht _ rfl rfl (.inr rfl)) rfl rfl rfl rfl rfl
  · rename_i id hc
    cases hs
    have hg : abandons s (.close .expire) = some id := by rw [abandons, hc]
    obtain ⟨hcn, hcs, -, hlg⟩ := abandon_request_rest s id
    exact .give_up (.close id) id (hl s _ _ (by rw [hc]; rfl)) rfl
      (hrs _ _ hcn hcs nofun (by rw [hc]; exact hi)) rfl rfl rfl (asked_append hlg nofun) rfl hg
  · cases hs
    exact .quiet (ht _ rfl rfl (.inr rfl)) rfl rfl rfl rfl rfl
  · rename_i id ms hc
    cases hs
    exact .take_back (.close id) id (hl s _ _ (by rw [hc]; rfl)) rfl
      (hrs _ _ rfl rfl nofun (by rw [hc]; exact hi)) rfl rfl rfl rfl rfl
  · cases hs
    exact .quiet (ht _ rfl rfl (.inr rfl)) rfl rfl rfl rfl rfl
  · cases hs
    exact .quiet (ht _ rfl rfl (.inr rfl)) rfl rfl rfl rfl rfl
  · cases hs

/-- A call keeps the ID it registered, an overflow is not forgotten, and only the reader
    hands responses over. -/
structure Untouched (s t : State) : Prop where
  calls : ∀ (k : Nat) (c : Call), s.calls[k]? = some c → c.phase.early = false →
    ∃ d, t.calls[k]? = some d ∧ d.id = c.id ∧ d.phase.early = false
  overflowing : s.overflowing ≤ t.overflowing ∨ t.failed = true
  answers : t.answers = s.answers

theorem calls_kept (hl : t.calls = s.calls) (k : Nat) (c : Call) (hk : s.calls[k]? = some c)
    (hc : c.phase.early = false) : ∃ d, t.calls[k]? = some d ∧ d.id = c.id ∧ d.phase.early = false :=
  ⟨c, hl ▸ hk, rfl, hc⟩

theorem Untouched.same (hc : t.calls = s.calls) (ho : t.overflowing = s.overflowing) (ha : t.answers = s.answers) :
    Untouched s t where
  calls := calls_kept hc
  overflowing := .inl (Nat.le_of_eq ho.symm)
  answers := ha

theorem Untouched.set {d : Call} (hk : s.calls[k]? = some c) (hl : t.calls = s.calls.set k d)
    (hd : c.phase.early = false → d.id = c.id ∧ d.phase.early = false) (ho : s.overflowing ≤ t.overflowing)
    (ha : t.answers = s.answers) : Untouched s t where
  calls := fun j c' hj hc => by
    rw [hl]
    by_cases hjk : k = j
    · subst hjk
      rw [hk] at hj
      cases hj
      exact ⟨d, List.getElem?_set_self (List.getElem?_eq_some_iff.mp hk).1, hd hc⟩
    · exact ⟨c', (List.getElem?_set_ne hjk).trans hj, rfl, hc⟩
  overflowing := .inl ho
  answers := ha

theorem abandon_overflowing (s : State) (id : RequestId) :
    s.overflowing ≤ (abandon_request s id).overflowing ∧ (abandon_request s id).answers = s.answers := by
  unfold abandon_request
  split
  · dsimp only
    split
    · exact ⟨Nat.le_succ _, rfl⟩
    · exact ⟨Nat.le_refl _, rfl⟩
  · exact ⟨Nat.le_refl _, rfl⟩

theorem untouched_connect {e : ConnectEv} (hs : connect_step cfg s e = some t) : Untouched s t := by
  unfold connect_step at hs
  split at hs
  · cases hs
    exact .same rfl rfl rfl
  · cases of_guard hs
    exact .same rfl rfl rfl
  · cases hs
    exact .same rfl rfl rfl
  · obtain ⟨b, -, rfl⟩ := Option.map_eq_some_iff.mp hs
    split <;> exact .same rfl rfl rfl
  · cases of_guard hs
    exact .same rfl rfl rfl
  · obtain ⟨ho, ha⟩ := abandon_overflowing s initialize_id
    obtain ⟨-, hc, -⟩ := abandon_request_rest s initialize_id
    cases hs
    exact ⟨calls_kept hc, .inl ho, ha⟩
  · cases hs
    exact .same rfl rfl rfl
  · cases hs
    exact .same rfl rfl rfl
  · cases hs
    exact .same rfl rfl rfl
  · cases hs

theorem untouched_call {e : CallEv} (hk : s.calls[k]? = some c) (hs : call_next cfg s k c e = some t) :
    Untouched s t := by
  unfold call_next at hs
  split at hs
  · rename_i hp
    cases of_guard hs
    exact .set hk rfl (by rw [hp]; nofun) (Nat.le_refl _) rfl
  · cases hs
    exact .set hk rfl (fun _ => ⟨rfl, rfl⟩) (Nat.le_refl _) rfl
  · rename_i hp
    split at hs
    · cases hs
      exact .set hk rfl (by rw [hp]; nofun) (Nat.le_refl _) rfl
    · cases hs
      exact .set hk rfl (fun _ => ⟨rfl, rfl⟩) (Nat.le_refl _) rfl
  · rename_i hp
    cases hs
    exact .set hk rfl (by rw [hp]; nofun) (Nat.le_refl _) rfl
  · cases hs
    exact .set hk rfl (fun _ => ⟨rfl, rfl⟩) (Nat.le_refl _) rfl
  · cases of_guard hs
    exact .set hk rfl (fun _ => ⟨rfl, rfl⟩) (Nat.le_refl _) rfl
  · cases hs
    exact .set hk rfl (fun _ => ⟨rfl, rfl⟩) (Nat.le_refl _) rfl
  · cases hs
    exact .set hk rfl (fun h => ⟨rfl, h⟩) (Nat.le_refl _) rfl
  · cases of_guard hs
    exact .set hk rfl (fun h => ⟨rfl, h⟩) (Nat.le_refl _) rfl
  · cases of_guard hs
    exact .set hk rfl (fun _ => ⟨rfl, rfl⟩) (Nat.le_refl _) rfl
  · cases of_guard hs
    exact .set hk rfl (fun _ => ⟨rfl, rfl⟩) (Nat.le_refl _) rfl
  · obtain ⟨ho, ha⟩ := abandon_overflowing s c.id
    obtain ⟨-, hc, -⟩ := abandon_request_rest s c.id
    cases hs
    exact .set (d := { c with phase := .dropping }) hk
      (congrArg (fun cl => List.set cl k _) hc) (fun _ => ⟨rfl, rfl⟩) ho ha
  · cases hs
    unfold try_queue_cancel
    split <;> exact .set hk rfl (fun _ => ⟨rfl, rfl⟩) (Nat.le_refl _) rfl
  · cases hs

theorem untouched_close {e : CloseEv} (hs : close_step cfg s e = some t) : Untouched s t := by
  unfold close_step at hs
  split at hs
  · cases of_guard hs
    exact .same rfl rfl rfl
  · split at hs <;> exact Option.some.inj hs ▸ .same rfl rfl rfl
  · cases hs
    exact .same rfl rfl rfl
  · cases of_guard hs
    exact .same rfl rfl rfl
  · cases hs
    exact .same rfl rfl rfl
  · cases of_guard hs
    exact .same rfl rfl rfl
  · cases of_guard hs
    exact .same rfl rfl rfl
  · rename_i id _
    obtain ⟨ho, ha⟩ := abandon_overflowing s id
    obtain ⟨-, hc, -⟩ := abandon_request_rest s id
    cases hs
    exact ⟨calls_kept hc, .inl ho, ha⟩
  · cases hs
    exact .same rfl rfl rfl
  · cases hs
    exact .same rfl rfl rfl
  · cases hs
    exact .same rfl rfl rfl
  · cases hs
    exact .same rfl rfl rfl
  · cases hs

/-- A step outside the tables. -/
theorem act_other {e : Ev} (hc : t.connect = s.connect) (hcl : t.calls = s.calls) (hl : t.closer = s.closer)
    (hp : t.pending = s.pending) (ha : t.abandoned = s.abandoned) (hq : asked t = asked s)
    (ho : t.overflowing = s.overflowing ∨ t.failed) (hn : t.answers = s.answers)
    (hr : registers s e = none) (hg : abandons s e = none) : Act s t e ∧ Untouched s t :=
  ⟨.still (own_same hc hcl hl) hp ha hq hr hg,
    ⟨calls_kept hcl, ho.imp_left fun h => Nat.le_of_eq h.symm, hn⟩⟩

theorem step_act {e : Ev} (ho : Ordered s) (hf : initialize_id < s.next_id) (he : e.matches = false)
    (hs : step cfg s e = some t) : Act s t e ∧ Untouched s t := by
  cases e with
  | connect e => exact ⟨act_connect ho hf hs, untouched_connect hs⟩
  | start m ms expired =>
    simp only [step] at hs
    split at hs
    · cases hs
      -- the new call has no stake yet
      refine ⟨.still (fun w => ?_) rfl rfl rfl rfl rfl, fun k c hk hc => ⟨c, ?_, rfl, hc⟩, .inl (Nat.le_refl _), rfl⟩
      · cases w with
        | connect | close id => rfl
        | call k =>
          simp only [own, start]
          rcases Nat.lt_or_ge k s.calls.length with hk | hk
          · rw [List.getElem?_append_left hk]
          · rw [List.getElem?_eq_none hk]
            cases hg : (s.calls ++ [_])[k]? with
            | none => rfl
            | some c =>
              rcases getElem?_snoc hg with hc | ⟨-, rfl⟩
              · rw [List.getElem?_eq_none hk] at hc
                cases hc
              · simp only [Option.bind_some, Option.bind_none, Call.own]
                split <;> rename_i hp
                · split at hp <;> cases hp
                · split at hp <;> cases hp
                · rfl
      · exact (List.getElem?_append_left (List.getElem?_eq_some_iff.mp hk).1).trans hk
    · cases hs
  | call k e =>
    simp only [step] at hs
    split at hs
    · rename_i hn
      obtain ⟨c, hk, hs⟩ := Option.bind_eq_some_iff.mp hs
      exact ⟨act_call ho hn hk hs, untouched_call hk hs⟩
    · cases hs
  | close e =>
    simp only [step] at hs
    split at hs
    · rename_i hn
      exact ⟨act_close ho hn hs, untouched_close hs⟩
    · cases hs
  | read frame =>
    simp only [step] at hs
    cases of_guard hs
    have hl : Act s (read_fail s) (.read frame) ∧ Untouched s (read_fail s) :=
      act_other rfl rfl rfl rfl rfl rfl (.inr rfl) rfl rfl rfl
    cases frame with
    | callback r =>
      simp only [read_frame]
      split
      · cases hr : serve_callback cfg s r with
        | none => exact hl
        | some u =>
          obtain ⟨p, parent, -, -, -, -, rfl⟩ := serve_callback_spec hr
          exact act_other rfl rfl rfl rfl rfl rfl (.inl rfl) rfl rfl rfl
      · exact hl
    | reply id b =>
      cases id with
      | none => exact hl
      | some id => cases he
    | terminal id b | shutdown id => cases he
  | inbound k e =>
    obtain ⟨c, -, hs⟩ := Option.bind_eq_some_iff.mp hs
    unfold inbound_next at hs
    split at hs
    · cases hs
      exact act_other rfl rfl rfl rfl rfl rfl (.inl rfl) rfl rfl rfl
    · cases of_guard hs
      exact act_other rfl rfl rfl rfl rfl (asked_append rfl (by simp)) (.inl rfl) rfl rfl rfl
    · cases of_guard hs
      exact act_other rfl rfl rfl rfl rfl rfl (.inl rfl) rfl rfl rfl
    · cases hs
  | drain => cases he
  | read_failed | abandon | overflow =>
    simp only [step] at hs
    cases of_guard hs
    exact act_other rfl rfl rfl rfl rfl rfl (.inr rfl) rfl rfl rfl
  | take | writer_stop | reader_abort =>
    simp only [step] at hs
    cases of_guard hs
    exact act_other rfl rfl rfl rfl rfl rfl (.inl rfl) rfl rfl rfl
  | writer_fail =>
    simp only [step] at hs
    split at hs
    · cases hs
    · cases hs
      exact act_other rfl rfl rfl rfl rfl rfl (.inr rfl) rfl rfl rfl

end Monosecret.Rpc.Client
