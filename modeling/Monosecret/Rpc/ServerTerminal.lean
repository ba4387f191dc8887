/-
  Monosecret.Rpc.ServerTerminal — response frames per request ID (`serve`, `run_call`,
  `send_terminal`, `commit_application_before`).

  Each request ID gets at most one response frame, unless the client reused it. When the
  success of `rpc.shutdown` is queued, every accepted request has exactly one response
  before it, as long as the shutdown deadline fires only when all of them are answered
  (`served_first`): its expiry aborts what still runs and the loop answers the shutdown
  all the same (`unanswered_shutdown`).

  `due` counts the responses an ID is still owed: the loop's pending answer, an unsent call
  response, the shutdown reply. What was queued and what is due never exceed one.
-/

import Monosecret.Lib.Lists
import Monosecret.Rpc.ServerMoves

namespace Monosecret.Rpc.Server

open Lib Machine

def responses (log : List ServerFrame) (id : RequestId) : Nat := log.countP fun f => f.response_id == some id

/-- The task still owes its response. -/
def CallPhase.unsent : CallPhase → Bool
  | .running | .ending _ | .committing _ | .replacing _ => true
  | _ => false

/-- The task queued its response, or found the queue closed. -/
def CallPhase.sent : CallPhase → Bool
  | .joining | .enqueued | .committed | .finishing | .returned | .reaped => true
  | _ => false

/-- The loop owes `id` a response. -/
def Loop.owes (l : Loop) (id : RequestId) : Bool :=
  match l with
  | .replying dest _ _ _ => dest == some id
  | .initializing dest | .init_reply dest _ => dest == id
  | _ => false

def owes_shutdown (s : State) (id : RequestId) : Bool := s.shutdown_request == some id && s.loop != .closed

def due (s : State) (id : RequestId) : Nat :=
  (s.loop.owes id).toNat + (s.calls id).phase.unsent.toNat + (owes_shutdown s id).toNat

/-- The shutdown deadline fires only when every accepted request is answered, or the
    transport has failed. -/
def served_first (s : State) : Ev → Bool
  | .session .shutdown_deadline => s.down || s.accepted.all fun p => decide (0 < responses s.log p)
  | _ => true

theorem responses_append (l m : List ServerFrame) (id : RequestId) :
    responses (l ++ m) id = responses l id + responses m id := List.countP_append

@[simp] theorem responses_nil (id : RequestId) : responses [] id = 0 := rfl

theorem responses_singleton (f : ServerFrame) (id : RequestId) :
    responses [f] id = (f.response_id == some id).toNat := by
  cases h : f.response_id == some id <;> simp [responses, h]

/-! ## At most one -/

structure OnceInv (s : State) : Prop where
  once : s.reused = false → ∀ id, responses s.log id + due s id ≤ 1
  fresh : s.loop.ended = false → ∀ id, seen s id = false → responses s.log id + due s id = 0
  ended : s.reused = true → s.loop.ended = true

theorem OnceInv.init : OnceInv {} where
  once := fun _ _ => Nat.zero_le 1
  fresh := fun _ _ _ => rfl
  ended := nofun

variable {cfg : Config} {s t : State}

/-- A step owes nothing new, except one response to a fresh request. -/
theorem OnceInv.of (h : OnceInv s) (hrs : s.reused → t.reused)
    (hn : s.loop.ended → t.loop.ended) (hst : t.reused → t.loop.ended)
    (hsn : ∀ id, seen s id → seen t id)
    (hm : t.reused = false → ∀ id, responses t.log id + due t id ≤ responses s.log id + due s id ∨
      seen s id = false ∧ s.loop.ended = false ∧ (seen t id ∨ t.loop.ended) ∧
        responses t.log id + due t id ≤ responses s.log id + due s id + 1) : OnceInv t := by
  have hl : t.reused = false → s.reused = false := fun ht => by
    cases hs : s.reused
    · rfl
    · rw [hrs hs] at ht
      cases ht
  refine ⟨fun hr id => ?_, fun he id hi => ?_, hst⟩
  · rcases hm hr id with hle | ⟨hf, he, -, hle⟩
    · exact Nat.le_trans hle (h.once (hl hr) id)
    · rw [h.fresh he id hf] at hle
      exact hle
  · have hr : t.reused = false := by
      cases ht : t.reused
      · rfl
      · rw [hst ht] at he
        cases he
    have hse : s.loop.ended = false := by
      cases hs : s.loop.ended
      · rfl
      · rw [hn hs] at he
        cases he
    have hd : seen s id = false := by
      cases hs : seen s id
      · rfl
      · rw [hsn id hs] at hi
        cases hi
    rcases hm hr id with hle | ⟨-, -, hs' | hed, -⟩
    · rw [h.fresh hse id hd] at hle
      exact Nat.le_zero.mp hle
    · rw [hs'] at hi
      cases hi
    · rw [hed] at he
      cases he

/-- What is due until the loop is done. -/
theorem due_open (h : (s.loop != .closed)) (id : RequestId) :
    due s id = (s.loop.owes id).toNat + (s.calls id).phase.unsent.toNat + (s.shutdown_request == some id).toNat := by
  rw [due, owes_shutdown, h, Bool.and_true]

/-- A step that queues nothing and owes nothing new. -/
theorem OnceInv.quiet (h : OnceInv s) (hl : t.log = s.log) (hs : t.reused = s.reused)
    (he : s.loop.ended → t.loop.ended) (hn : ∀ id, seen s id → seen t id)
    (hd : ∀ id, due t id ≤ due s id) : OnceInv t := by
  refine h.of (fun hr => hs.trans hr) he (fun hr => he (h.ended (hs ▸ hr))) hn fun _ id => .inl ?_
  rw [hl]
  exact Nat.add_le_add_left (hd id) _

/-- A loop that reads owes nothing but the outcome of a running `rpc.initialize`. -/
theorem Loop.reads_ended {l : Loop} (h : l.reads) : l.ended = false := by
  cases l <;> simp_all [Loop.reads, Loop.ended]

theorem Loop.open_of_not_down {l : Loop} (h : l.down = false) : (l != .closed) := by
  cases l <;> first | rfl | cases h

theorem ended_of_reads {P : Prop} (h : s.loop.reads) (he : s.loop.ended) : P := by
  rw [Loop.reads_ended h] at he
  cases he

theorem OnceInv.reused_false (h : OnceInv s) (hr : s.loop.reads) : s.reused = false := by
  cases hs : s.reused
  · rfl
  · exact ended_of_reads hr (h.ended hs)

theorem OnceInv.close (h : OnceInv s) (last : Option RequestId) (gone : RequestId → Bool) (drained : Bool)
    (hl : s.loop.down = false) (hs : last = s.last_seen_id ∨ ∃ q, last = some q ∧ seen s q = false) :
    OnceInv (close { s with
      last_seen_id := last, cancelled := fun q => s.cancelled q || gone q, drained := drained }) := by
  refine h.quiet rfl rfl (fun _ => rfl) (fun _ hp => seen_mono (s := s) hs hp) fun id => ?_
  rw [due_open rfl, due_open (Loop.open_of_not_down hl)]
  simp only [Server.close, Loop.owes, Bool.toNat_false]
  omega

/-- A fresh request is read, and owed one response. -/
theorem OnceInv.read (h : OnceInv s) (id : RequestId) (hr : s.loop.reads) (hf : seen s id = false)
    (hl : t.log = s.log) (hls : t.last_seen_id = some id) (hrs : t.reused = s.reused)
    (hd : ∀ q, due t q ≤ due s q + (id == q).toNat) : OnceInv t := by
  have hn : ∀ q, seen s q → seen t q := fun q hq => seen_mono (.inr ⟨id, hls, hf⟩) hq
  refine h.of (fun hs => hrs.trans hs) (ended_of_reads hr) (fun ht => ?_) hn fun _ q => ?_
  · rw [hrs, h.reused_false hr] at ht
    cases ht
  · have hle := hd q
    rw [hl]
    cases hq : id == q
    · rw [hq] at hle
      exact .inl (Nat.add_le_add_left hle _)
    · obtain rfl := eq_of_beq hq
      rw [hq] at hle
      exact .inr ⟨hf, Loop.reads_ended hr, .inl (seen_last hls), Nat.add_le_add_left hle _⟩

theorem OnceInv.answer (h : OnceInv s) {last : Option RequestId} {selected : Nat} {m : List String} {reused : Bool}
    {gone : RequestId → Bool} {id : Option RequestId} {body : Body} {done lost : After} (hl : s.loop.reads)
    (hls : last = s.last_seen_id ∨ ∃ q, last = some q ∧ seen s q = false) (hrs : s.reused → reused)
    (hi : ∀ q, id = some q → (seen s q = false ∧ (last = some q ∨ done = .stop ∧ lost = .stop)) ∨ reused)
    (ht : reused → s.reused ∨ done = .stop ∧ lost = .stop) :
    OnceInv { s with
      last_seen_id := last, selected := selected, client_methods := m, reused := reused
      cancelled := fun q => s.cancelled q || gone q
      loop := .replying id body done lost } := by
  refine h.of hrs (ended_of_reads hl) (fun hr => ?_) (fun q hq => seen_mono hls hq) fun hr q => ?_
  · rcases ht hr with hs | ⟨rfl, rfl⟩
    · exact ended_of_reads hl (h.ended hs)
    · rfl
  · have hd : due { s with
        last_seen_id := last, selected := selected, client_methods := m, reused := reused
        cancelled := fun q => s.cancelled q || gone q
        loop := .replying id body done lost } q ≤ due s q + (id == some q).toNat := by
      rw [due_open rfl, due_open (Loop.open_of_not_down (Loop.not_down_of_reads hl))]
      simp only [Loop.owes]
      omega
    cases hq : id == some q
    · rw [hq] at hd
      exact .inl (Nat.add_le_add_left hd _)
    · rw [hq] at hd
      rcases hi q (eq_of_beq hq) with ⟨hf, hk⟩ | hk
      · refine .inr ⟨hf, Loop.reads_ended hl, hk.imp (fun hk => seen_last hk) ?_, Nat.add_le_add_left hd _⟩
        rintro ⟨rfl, rfl⟩
        rfl
      · rw [hk] at hr
        cases hr

theorem OnceInv.move {e : SessionEv} (h : OnceInv s) (hs : session_step cfg s e = some t) : OnceInv t := by
  cases session_step_move hs with
  | stay => exact h
  | answer last selected methods reused gone id body done lost hl hls hrs hid ht =>
    exact h.answer hl hls hrs hid ht
  | close last gone hl hls => exact h.close last gone s.drained hl hls
  | drain id hl hs he =>
    have hc := h.close s.last_seen_id (fun _ => false) true (by rw [hl]; rfl) (.inl rfl)
    simp only [Bool.or_false] at hc
    exact hc
  | deliver id u hl hd => rcases deliver_eq hd with rfl | rfl <;> exact ⟨h.once, h.fresh, h.ended⟩
  | cancel id hl => exact ⟨h.once, h.fresh, h.ended⟩
  | offer id selected methods hl hi hf =>
    refine h.read id (by rw [hl]; rfl) hf rfl rfl rfl fun q => ?_
    rw [due_open rfl, due_open (by rw [hl]; rfl)]
    simp only [Loop.owes]
    omega
  | shutdown id hl hi hf hs =>
    refine h.read id (by rw [hl]; rfl) hf rfl rfl rfl fun q => ?_
    rw [due_open (show (s.loop != .closed) by rw [hl]; rfl), due_open (by rw [hl]; rfl)]
    simp only [Option.some_beq_some]
    omega
  | accept id hl hi hf hs =>
    refine h.read id (by rw [hl]; rfl) hf rfl rfl rfl fun q => ?_
    rw [due_open (show (s.loop != .closed) by rw [hl]; rfl), due_open (by rw [hl]; rfl)]
    simp only [Server.accept]
    split
    · rename_i hq
      subst hq
      simp only [CallPhase.unsent, beq_self_eq_true, Bool.toNat_true]
      omega
    · omega
  | push id body done lost hl =>
    refine h.of (fun hr => hr) (fun he => ?_) (fun hr => ?_) (fun _ hq => hq) fun _ q => .inl ?_
    · rw [hl] at he
      cases done <;> cases lost <;> first | rfl | cases he
    · have he := h.ended hr
      rw [hl] at he
      cases done <;> cases lost <;> first | rfl | cases he
    · rw [due_open rfl, due_open (by rw [hl]; rfl), hl]
      simp only [State.queue, responses_append, responses_singleton, Loop.owes, ServerFrame.response_id, Bool.toNat_false]
      omega
  | push_init id body hl he =>
    refine h.of (fun hr => hr) (fun he => ?_) (fun hr => ?_) (fun _ hq => hq) fun _ q => .inl ?_
    · rw [hl] at he
      cases he
    · have he := h.ended hr
      rw [hl] at he
      cases he
    · rw [due_open rfl, due_open (by rw [hl]; rfl), hl]
      simp only [State.queue, responses_append, responses_singleton, Loop.owes, ServerFrame.response_id, Bool.toNat_false,
        Option.some_beq_some]
      omega
  | resume hl he =>
    refine h.quiet rfl rfl (fun hd => by rw [he] at hd; cases hd) (fun _ hq => hq) fun q => ?_
    have ho : (s.loop != .closed) := bne_iff_ne.mpr fun hc => by rw [hc] at he; cases he
    rw [due_open rfl, due_open ho]
    simp only [Loop.owes, Bool.toNat_false]
    omega
  | negotiate body hl =>
    refine h.quiet rfl rfl (fun hd => by rw [hl] at hd; cases hd) (fun _ hq => hq) fun q => ?_
    rw [due_open rfl, due_open (by rw [hl]; rfl)]
    simp only [Loop.owes, Bool.toNat_false]
    omega
  | decide id body hl hb | decided id hl hc =>
    refine h.quiet rfl rfl (fun hd => by rw [hl] at hd; cases hd) (fun _ hq => hq) fun q => ?_
    rw [due_open rfl, due_open (by rw [hl]; rfl), hl]
    exact Nat.le_refl _
  | reap p hl hp =>
    refine h.quiet rfl rfl id (fun _ hq => hq) fun q => ?_
    rw [due_open (show (s.loop != .closed) by rw [hl]; rfl), due_open (by rw [hl]; rfl)]
    dsimp only
    split
    · rename_i hq
      subst hq
      simp only [CallPhase.unsent, Bool.toNat_false]
      omega
    · exact Nat.le_refl _
  | joined hl hj =>
    refine h.quiet rfl rfl (fun _ => rfl) (fun _ hq => hq) fun q => ?_
    rw [due_open rfl, due_open (by rw [hl]; rfl), hl]
    exact Nat.le_refl _
  | shutdown_reply id hl hsh hd hr =>
    refine h.of (fun hr => hr) (fun _ => rfl) (fun _ => rfl) (fun _ hq => hq) fun _ q => .inl ?_
    rw [due_open (s := s) (by rw [hl]; rfl), hl, hsh]
    simp only [due, owes_shutdown, State.queue, responses_append, responses_singleton, Loop.owes, ServerFrame.response_id,
      bne_self_eq_false, Bool.and_false, Bool.toNat_false]
    omega
  | shutdown_skip hl =>
    refine h.quiet rfl rfl (fun _ => rfl) (fun _ hq => hq) fun q => ?_
    rw [due_open (s := s) (by rw [hl]; rfl), hl]
    simp only [due, owes_shutdown, Loop.owes, bne_self_eq_false, Bool.and_false, Bool.toNat_false]
    omega

theorem CallTask.next_unsent {e : CallEnv} {c : CallTask} {o : CallOut} {ev : CallEv} (h : c.next e ev = some o) :
    o.task.phase.unsent.toNat + o.emit.isSome.toNat ≤ c.phase.unsent.toNat := by
  cases hp : c.phase <;> cases ev <;> simp [CallTask.next, hp, CallPhase.live] at h
  all_goals grind [CallPhase.unsent]

theorem OnceInv.call_step {p : RequestId} {e : CallEv} (h : OnceInv s) (hs : call_step cfg s p e = some t) :
    OnceInv t := by
  obtain ⟨o, ho, rfl⟩ := call_step_spec hs
  have hu := CallTask.next_unsent ho
  refine h.of id id h.ended (fun _ hq => hq) fun _ q => .inl ?_
  have hr : responses (o.emit.map (ServerFrame.terminal p)).toList q = (o.emit.isSome && p == q).toNat := by
    cases o.emit <;> simp [responses_singleton, ServerFrame.response_id]
  simp only [State.queue, responses_append, hr, due, owes_shutdown, with_call]
  by_cases hq : q = p
  · subst hq
    simp only [if_true, beq_self_eq_true, Bool.and_true]
    omega
  · have hp : (p == q) = false := beq_eq_false_iff_ne.mpr (Ne.symm hq)
    simp only [if_neg hq, hp, Bool.and_false, Bool.toNat_false]
    omega

theorem responses_queued (d : Callback) (e : CbEv) (id : RequestId) : responses (queued d e) id = 0 := by
  cases e <;> rfl

theorem OnceInv.cb_step {k : Nat} {e : CbEv} (h : OnceInv s) (hs : cb_step cfg s k e = some t) : OnceInv t := by
  obtain ⟨c, d, -, -, rfl⟩ := cb_step_spec hs
  refine h.of id id h.ended (fun _ hq => hq) fun _ q => .inl ?_
  rw [State.queue, responses_append, responses_queued]
  exact Nat.le_refl _

theorem OnceInv.step {e : Ev} (h : OnceInv s) (hs : step cfg s e = some t) : OnceInv t := by
  cases e with
  | session e => exact h.move hs
  | call p e => exact h.call_step hs
  | enter parent m =>
    simp only [Server.step] at hs
    cases of_guard hs
    exact ⟨h.once, h.fresh, h.ended⟩
  | callback k e => exact h.cb_step hs
  | take =>
    obtain ⟨-, -, ht, hp⟩ := take_spec hs
    rw [ht]
    refine h.quiet rfl rfl id (fun _ hq => hq) fun q => ?_
    simp only [due, hp]
    exact Nat.le_refl _
  | writer_fail =>
    cases hs
    refine h.quiet rfl rfl id (fun _ hq => hq) fun q => ?_
    simp only [due, release_phase]
    exact Nat.le_refl _

/-! ## Exactly one before the shutdown reply -/

/-- Every accepted request has its response queued. -/
def Served (log : List ServerFrame) (accepted : List RequestId) : Prop := ∀ p ∈ accepted, 0 < responses log p

structure ServedInv (s : State) : Prop where
  sent : ∀ p, (s.calls p).phase.sent = true → s.down = true ∨ 0 < responses s.log p
  drained : s.drained = true → s.loop.down = true ∧ s.reused = false ∧ (s.down = true ∨ Served s.log s.accepted)
  replied : ∀ pre id post, s.log = pre ++ .shutdown id :: post →
    s.loop.down = true ∧ ∀ p ∈ s.accepted, responses pre p = 1

theorem ServedInv.init : ServedInv {} where
  sent := nofun
  drained := nofun
  replied := fun p _ _ h => by cases p <;> cases h

theorem Served.append {l m : List ServerFrame} {accepted : List RequestId} (h : Served l accepted) :
    Served (l ++ m) accepted := fun p hp => by
  rw [responses_append]
  exact Nat.lt_of_lt_of_le (h p hp) (Nat.le_add_right _ _)

/-- A step that queues no shutdown reply and accepts nothing after the session. -/
theorem ServedInv.of {m : List ServerFrame} (h : ServedInv s) (hg : t.log = s.log ++ m) (hm : ∀ q, .shutdown q ∉ m)
    (hlp : s.loop.down → t.loop.down ∧ t.accepted = s.accepted ∧ t.reused = s.reused)
    (hw : s.down → t.down)
    (hn : ∀ p, (t.calls p).phase.sent →
      (s.calls p).phase.sent ∨ t.down ∨ 0 < responses m p)
    (hdr : t.drained → s.drained ∨
      t.loop.down ∧ t.reused = false ∧ (t.down ∨ Served t.log t.accepted)) : ServedInv t := by
  refine ⟨fun p hp => ?_, fun hd => ?_, fun pr id ps he => ?_⟩
  · rw [hg, responses_append]
    rcases hn p hp with hs | hd | hr
    · exact (h.sent p hs).imp hw fun hr => Nat.lt_of_lt_of_le hr (Nat.le_add_right _ _)
    · exact .inl hd
    · exact .inr (Nat.lt_of_lt_of_le hr (Nat.le_add_left _ _))
  · rcases hdr hd with hd | hd
    · obtain ⟨hl, hr, hsr⟩ := h.drained hd
      obtain ⟨hl', ha, hr'⟩ := hlp hl
      refine ⟨hl', hr'.trans hr, hsr.imp hw fun hsr => ?_⟩
      rw [hg, ha]
      exact hsr.append
    · exact hd
  · rw [hg] at he
    obtain ⟨p', he'⟩ := (split_append he).resolve_right fun ⟨mid, _, hmd⟩ =>
      hm id (hmd ▸ List.mem_append_right _ (List.mem_cons_self ..))
    obtain ⟨hl, ho⟩ := h.replied pr id p' he'
    obtain ⟨hl', ha, -⟩ := hlp hl
    exact ⟨hl', fun p hp => ho p (ha ▸ hp)⟩

/-- A step of the open session that queues no shutdown reply. -/
theorem ServedInv.during {m : List ServerFrame} (h : ServedInv s) (ho : s.loop.down = false)
    (hg : t.log = s.log ++ m) (hm : ∀ q, .shutdown q ∉ m) (hw : t.down = s.down)
    (hs : ∀ p, (t.calls p).phase.sent → (s.calls p).phase.sent)
    (hr : t.drained → s.drained ∨
      t.loop.down ∧ t.reused = false ∧ (t.down ∨ Served t.log t.accepted)) : ServedInv t :=
  h.of hg hm (fun hl => by rw [ho] at hl; cases hl) (fun hd => hw.trans hd) (fun p hp => .inl (hs p hp)) hr

theorem ServedInv.move {e : SessionEv} (h : ServedInv s) (ho : OnceInv s) (hn : served_first s (.session e))
    (hs : session_step cfg s e = some t) : ServedInv t := by
  have hnl : s.log = s.log ++ [] := (List.append_nil _).symm
  have hno : ∀ q, ServerFrame.shutdown q ∉ ([] : List ServerFrame) := fun q => List.not_mem_nil
  cases session_step_move hs with
  | stay => exact h
  | answer last selected mt r g id b done lost hl =>
    exact h.during (Loop.not_down_of_reads hl) hnl hno rfl (fun _ hp => hp) .inl
  | close last g hl hls => exact h.during hl hnl hno rfl (fun _ hp => hp) .inl
  | drain id hl hsh he =>
    refine h.during (by rw [hl]; rfl) hnl hno rfl (fun _ hp => hp)
      fun _ => .inr ⟨rfl, ho.reused_false (by rw [hl]; rfl), ?_⟩
    cases hd : s.down
    · refine .inr fun p hp => ?_
      rcases he with he | rfl
      · have hrd : (s.calls p).phase = .reaped := eq_of_beq (List.all_eq_true.mp he p hp)
        rcases h.sent p (by rw [hrd]; rfl) with hd' | hr
        · rw [hd] at hd'
          cases hd'
        · exact hr
      · simp only [served_first, hd, Bool.false_or, List.all_eq_true, decide_eq_true_eq] at hn
        exact hn p hp
    · exact .inl rfl
  | deliver id u hl hd =>
    have hfr : t.log = s.log ∧ t.calls = s.calls ∧ t.down = s.down ∧ t.drained = s.drained := by
      rcases deliver_eq hd with rfl | rfl <;> exact ⟨rfl, rfl, rfl, rfl⟩
    obtain ⟨hg, hc, hw, hdr⟩ := hfr
    exact h.during (Loop.not_down_of_reads hl) (hg.trans hnl) hno hw (fun p hp => hc ▸ hp)
      fun hd => .inl (hdr ▸ hd)
  | cancel id hl => exact h.during (Loop.not_down_of_reads hl) hnl hno rfl (fun _ hp => hp) .inl
  | offer id selected mt hl | shutdown id hl => exact h.during (by rw [hl]; rfl) hnl hno rfl (fun _ hp => hp) .inl
  | accept id hl hi hf hsh =>
    refine h.during (by rw [hl]; rfl) hnl hno rfl (fun p hp => ?_) .inl
    simp only [Server.accept] at hp
    split at hp
    · cases hp
    · exact hp
  | push id b done lost hl =>
    exact h.during (m := [.reply id b]) (by rw [hl]; rfl) rfl (by simp) rfl (fun _ hp => hp) .inl
  | push_init id b hl =>
    exact h.during (m := [.terminal id b]) (by rw [hl]; rfl) rfl (by simp) rfl (fun _ hp => hp) .inl
  | resume hl he =>
    have hop : s.loop.down = false := by
      rcases hl with ⟨_, _, _, _, hl⟩ | ⟨_, _, hl⟩ <;> rw [hl] <;> rfl
    exact h.during hop hnl hno rfl (fun _ hp => hp) .inl
  | negotiate b hl | decide id b hl
  | decided id hl => exact h.during (by rw [hl]; rfl) hnl hno rfl (fun _ hp => hp) .inl
  | reap p hl hp =>
    refine h.during (by rw [hl]; rfl) hnl hno rfl (fun q hq => ?_) .inl
    dsimp only at hq
    split at hq
    · rename_i hqp
      rw [hqp, hp]
      rfl
    · exact hq
  | joined hl => exact h.of hnl hno (fun _ => ⟨rfl, rfl, rfl⟩) id (fun _ hp => .inl hp) .inl
  | shutdown_reply id hl hsh hd hr =>
    have hw : s.down = false := by
      cases hd : s.down
      · rfl
      · simp [room, hd] at hr
    obtain ⟨-, hrs, hsr⟩ := h.drained hd
    rw [hw] at hsr
    have hon : ∀ p ∈ s.accepted, responses s.log p = 1 := fun p hp => by
      have h1 := hsr.resolve_left nofun p hp
      have h2 := ho.once hrs p
      omega
    refine ⟨fun p hp => ?_, fun _ => ⟨rfl, hrs, .inr ?_⟩, fun pr q ps he => ⟨rfl, fun p hp => ?_⟩⟩
    · refine .inr ?_
      rw [State.queue, responses_append]
      exact Nat.lt_of_lt_of_le ((h.sent p hp).resolve_left (by rw [hw]; nofun)) (Nat.le_add_right _ _)
    · exact (hsr.resolve_left nofun).append
    · rcases split_append he with ⟨p', he⟩ | ⟨md, rfl, hm⟩
      · exact (h.replied pr q p' he).2 p hp
      · cases md with
        | nil => simpa using hon p hp
        | cons f md => cases md <;> cases hm
  | shutdown_skip hl => exact h.of hnl hno (fun _ => ⟨rfl, rfl, rfl⟩) id (fun _ hp => .inl hp) .inl

theorem CallTask.next_sent {e : CallEnv} {c : CallTask} {o : CallOut} {ev : CallEv} (h : c.next e ev = some o)
    (hs : o.task.phase.sent) : c.phase.sent ∨ e.down ∨ o.emit.isSome := by
  cases hp : c.phase <;> cases ev <;> simp [CallTask.next, hp, CallPhase.live] at h
  all_goals grind [CallPhase.sent]

theorem ServedInv.call_step {p : RequestId} {e : CallEv} (h : ServedInv s) (hs : call_step cfg s p e = some t) :
    ServedInv t := by
  obtain ⟨o, ho, rfl⟩ := call_step_spec hs
  refine h.of rfl (fun q hq => ?_) (fun hl => ⟨hl, rfl, rfl⟩) id (fun q hq => ?_) .inl
  · cases hb : o.emit <;> simp [hb] at hq
  · simp only [State.queue, with_call] at hq
    split at hq
    · rename_i hp
      subst hp
      rcases CallTask.next_sent ho hq with hc | hc | hc
      · exact .inl hc
      · exact .inr (.inl hc)
      · obtain ⟨b, hb⟩ := Option.isSome_iff_exists.mp hc
        refine .inr (.inr ?_)
        simp [hb, responses_singleton, ServerFrame.response_id]
    · exact .inl hq

theorem ServedInv.step {e : Ev} (h : ServedInv s) (ho : OnceInv s) (hn : served_first s e)
    (hs : step cfg s e = some t) : ServedInv t := by
  have hnl : s.log = s.log ++ [] := (List.append_nil _).symm
  have hno : ∀ q, ServerFrame.shutdown q ∉ ([] : List ServerFrame) := fun q => List.not_mem_nil
  cases e with
  | session e => exact h.move ho hn hs
  | call p e => exact h.call_step hs
  | enter parent m =>
    simp only [Server.step] at hs
    cases of_guard hs
    exact ⟨h.sent, h.drained, h.replied⟩
  | callback k e =>
    obtain ⟨c, d, -, -, rfl⟩ := cb_step_spec hs
    refine h.of rfl (fun q hq => ?_) (fun hl => ⟨hl, rfl, rfl⟩) id (fun _ hp => .inl hp) .inl
    cases e <;> simp [queued] at hq
  | take =>
    obtain ⟨-, -, ht, hph⟩ := take_spec hs
    rw [ht]
    exact h.of hnl hno (fun hl => ⟨hl, rfl, rfl⟩) id (fun q hq => .inl (hph q ▸ hq)) .inl
  | writer_fail =>
    cases hs
    exact h.of hnl hno (fun hl => ⟨hl, rfl, rfl⟩) (fun _ => rfl) (fun q hq => .inl (release_phase (s.calls q) ▸ hq)) .inl

/-! ## The result -/

/-- In every run where the shutdown deadline does not overtake accepted work: no ID gets a
    second response unless the client reused one, and each accepted request has exactly one
    before the shutdown reply. -/
theorem one_terminal_response (cfg : Config) (s : State) (h : Reach (machine cfg) served_first s) :
    (s.reused = false → ∀ id, responses s.log id ≤ 1) ∧
      ∀ pre id post, s.log = pre ++ .shutdown id :: post → ∀ p ∈ s.accepted, responses pre p = 1 := by
  have hin : OnceInv s ∧ ServedInv s :=
    h.inv (I := fun s => OnceInv s ∧ ServedInv s) ⟨.init, .init⟩
      fun _ _ _ hi hn hs => ⟨hi.1.step hs, hi.2.step hi.1 hn hs⟩
  refine ⟨fun hr id => Nat.le_trans (Nat.le_add_right _ _) (hin.1.once hr id), fun pre id post he => ?_⟩
  exact (hin.2.replied pre id post he).2

/-! ## Runs -/

def closing_request : Ev := .session (.recv (.request ⟨3, rpc.SHUTDOWN, 1000, none, .empty⟩) false)

/-- The shutdown deadline expires while request 2 runs: its task is aborted. -/
def expired_shutdown : List Ev :=
  opening ++ [closing_request, .session .shutdown_deadline, .call 2 .abort, .session .joined, .session .shutdown_reply]

/-- Request 2 was accepted and gets no response; the shutdown succeeds, on a healthy transport. -/
theorem unanswered_shutdown :
    ¬ ∀ (cfg : Config) (s : State), Reach (machine cfg) any s → s.down = false → s.reused = false →
      ∀ pre id post, s.log = pre ++ .shutdown id :: post → ∀ p ∈ s.accepted, responses pre p = 1 := by
  intro h
  obtain ⟨s, hs, hr⟩ := reach_of_run (machine resolver) any expired_shutdown
    (fun s => (s.log, s.accepted, s.down, s.reused))
    ([.terminal 1 (.initialized 2 ["resolver.resolve"]), .shutdown 3], [2], false, false) (by decide)
  simp only [Prod.mk.injEq] at hr
  obtain ⟨hl, ha, hd, hrs⟩ := hr
  have ho := h resolver s hs hd hrs [.terminal 1 (.initialized 2 ["resolver.resolve"])] 3 [] hl 2
    (by simp [ha])
  revert ho
  decide

/-- Request 2 returns, and the session drains. -/
theorem one_terminal_response_run :
    ∃ s, Reach (machine resolver) served_first s ∧
      (s.log = [.terminal 1 (.initialized 2 ["resolver.resolve"]), .terminal 2 .result, .shutdown 3] ∧ 2 ∈ s.accepted) ∧
      (s.reused = false → ∀ id, responses s.log id ≤ 1) ∧
      ∀ pre id post, s.log = pre ++ .shutdown id :: post → ∀ p ∈ s.accepted, responses pre p = 1 := by
  obtain ⟨s, hs, hr⟩ := reach_of_run (machine resolver) served_first
    (opening ++ [closing_request, .call 2 (.result none), .call 2 .send, .call 2 .cancel_token, .take, .take,
      .call 2 (.settle true), .call 2 .finish, .session (.reap 2), .session .drain, .session .joined,
      .session .shutdown_reply])
    (fun s => (s.log, s.accepted))
    ([.terminal 1 (.initialized 2 ["resolver.resolve"]), .terminal 2 .result, .shutdown 3], [2]) (by decide)
  simp only [Prod.mk.injEq] at hr
  exact ⟨s, hs, ⟨hr.1, by simp [hr.2]⟩, one_terminal_response resolver s hs⟩

end Monosecret.Rpc.Server
