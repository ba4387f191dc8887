/-
  Monosecret.Rpc.ServerMoves — what one step of each actor of a server session can do.

  `Move` lists the steps of the session loop by their effect: every case of the dispatch on
  a frame is one of a few changes. The call tasks and the callbacks are small automata of
  their own; what a proof needs of them is stated about `CallTask.next` and `Callback.next`.
-/

import Mathlib.Tactic.SplitIfs
import Monosecret.Rpc.Server

namespace Monosecret.Rpc.Server

/-- The loop reads no further frame. -/
def Loop.ended : Loop → Bool
  | .replying _ _ .stop .stop | .replied .stop .stop | .closing | .shutting | .closed => true
  | _ => false

/-- After the session: tasks are aborted and joined. -/
def Loop.down : Loop → Bool
  | .closing | .shutting | .closed => true
  | _ => false

/-- Neither in `rpc.initialize`, until its response is queued, nor after the session. -/
def Loop.plain : Loop → Bool
  | .reading | .replying _ _ _ _ | .replied _ _ | .init_sent _ => true
  | _ => false

/-- `rpc.initialize` is being served. -/
def Loop.opening : Loop → Bool
  | .initializing _ | .init_reply _ _ | .init_sent _ => true
  | _ => false

/-- Its outcome is decided. -/
def Loop.decided : Loop → Bool
  | .init_reply _ _ | .init_sent _ => true
  | _ => false

/-- The loop reads, or may read after the answer it is giving. -/
def Loop.returns (l : Loop) : Bool := !l.ended && !l.opening

/-- The loop takes the next frame off the transport. -/
def Loop.reads : Loop → Bool
  | .reading | .initializing _ => true
  | _ => false

/-- The frame read is the offer of these methods under this ID. -/
def SessionEv.Offers (e : SessionEv) (id : RequestId) (methods : List String) : Prop :=
  ∃ r expired params, e = .recv (.request r) expired ∧ r.id = id ∧ r.params = .offer params ∧
    params.client_methods = methods

variable (cfg : Config)

inductive Move (s : State) (e : SessionEv) : State → Prop where
  /-- A notification without effect. -/
  | stay (hl : s.loop.reads) : Move s e s
  /-- The loop answers a frame itself: `id` is fresh, reused, or not known. -/
  | answer (last : Option RequestId) (selected : Nat) (methods : List String) (reused : Bool)
      (gone : RequestId → Bool) (id : Option RequestId) (body : Body) (done lost : After)
      (hl : s.loop.reads) (hlast : last = s.last_seen_id ∨ ∃ q, last = some q ∧ seen s q = false)
      (hreused : s.reused = true → reused = true)
      (hid : ∀ q, id = some q → (seen s q = false ∧ (last = some q ∨ done = .stop ∧ lost = .stop)) ∨ reused = true)
      (hstop : reused = true → s.reused = true ∨ done = .stop ∧ lost = .stop)
      (hoffer : selected = s.selected ∧ methods = s.client_methods ∨
        s.loop = .reading ∧ s.initialized = false ∧ 1 ≤ selected ∧ ∃ q, e.Offers q methods)
      (hinit : s.loop = .reading ∨ done = .stop ∧ lost = .stop) (hbody : ∀ n names, body ≠ .initialized n names) :
      Move s e { s with
        last_seen_id := last, selected := selected, client_methods := methods, reused := reused
        cancelled := fun q => s.cancelled q || gone q
        loop := .replying id body done lost }
  /-- The session ends. -/
  | close (last : Option RequestId) (gone : RequestId → Bool) (hl : s.loop.down = false)
      (hlast : last = s.last_seen_id ∨ ∃ q, last = some q ∧ seen s q = false) :
      Move s e (close { s with last_seen_id := last, cancelled := fun q => s.cancelled q || gone q })
  | drain (id : RequestId) (hl : s.loop = .reading) (hs : s.shutdown_request = some id)
      (he : tasks_empty s = true ∨ e = .shutdown_deadline) : Move s e (Server.close { s with drained := true })
  | deliver (id : RequestId) (u : State) (hl : s.loop.reads) (hd : deliver s id = some u)
      (he : ∃ body expired, e = .recv (.response (some id) body) expired) : Move s e u
  | cancel (id : RequestId) (hl : s.loop.reads) : Move s e (cancel s id)
  /-- The client's offer is taken; the handler runs. -/
  | offer (id selected : RequestId) (methods : List String) (hl : s.loop = .reading) (hi : s.initialized = false)
      (hf : seen s id = false) (hsel : 1 ≤ selected) (he : e.Offers id methods) :
      Move s e { s with
        last_seen_id := some id, selected := selected, client_methods := methods
        loop := .initializing id, init_request := some id }
  | shutdown (id : RequestId) (hl : s.loop = .reading) (hi : s.initialized = true) (hf : seen s id = false)
      (hs : s.shutdown_request = none) :
      Move s e { s with last_seen_id := some id, shutdown_request := some id }
  | accept (id : RequestId) (hl : s.loop = .reading) (hi : s.initialized = true) (hf : seen s id = false)
      (hs : s.shutdown_request = none)
      (he : ∃ r expired, e = .recv (.request r) expired ∧ r.id = id ∧ is_application r.method = true) :
      Move s e (accept { s with last_seen_id := some id } id)
  | push (id : Option RequestId) (body : Body) (done lost : After) (hl : s.loop = .replying id body done lost) :
      Move s e ({ s with loop := .replied done lost }.queue [.reply id body])
  | push_init (id : RequestId) (body : Body) (hl : s.loop = .init_reply id body) (he : e = .replied) :
      Move s e ({ s with loop := .init_sent body }.queue [.terminal id body])
  | resume (hl : (∃ id body done lost, s.loop = .replying id body done lost) ∨ ∃ done lost, s.loop = .replied done lost)
      (he : s.loop.ended = false) : Move s e { s with loop := .reading }
  | negotiate (body : Body) (hl : s.loop = .init_sent body) :
      Move s e { s with loop := .reading, initialized := true, negotiated := true }
  /-- The outcome of `rpc.initialize` is decided. -/
  | decide (id : RequestId) (body : Body) (hl : s.loop = .initializing id)
      (hb : body = .initialized s.selected cfg.capabilities ∨ ∃ kind, body = .error kind) :
      Move s e { cancel s id with loop := .init_reply id body }
  | decided (id : RequestId) (hl : s.loop = .initializing id) (hc : s.cancelled id = true) :
      Move s e { s with loop := .init_reply id (.error .Cancelled) }
  | reap (p : RequestId) (hl : s.loop = .reading) (hp : (s.calls p).phase = .returned) :
      Move s e { s with calls := fun q => if q = p then { s.calls p with phase := .reaped } else s.calls q }
  | joined (hl : s.loop = .closing) (hj : tasks_joined s = true) : Move s e { s with loop := .shutting }
  | shutdown_reply (id : RequestId) (hl : s.loop = .shutting) (hs : s.shutdown_request = some id)
      (hd : s.drained = true) (hr : room cfg s = true) :
      Move s e ({ s with loop := .closed }.queue [.shutdown id])
  | shutdown_skip (hl : s.loop = .shutting) : Move s e { s with loop := .closed }

/-! ## Request IDs -/

section

variable {s t : State} {p : RequestId}

theorem seen_iff : seen s p ↔ ∃ last, s.last_seen_id = some last ∧ p ≤ last := by
  unfold seen
  cases s.last_seen_id <;> simp

theorem seen_last (h : t.last_seen_id = some p) : seen t p := seen_iff.mpr ⟨p, h, Nat.le_refl p⟩

/-- IDs only grow: what was seen stays seen. -/
theorem seen_mono (h : t.last_seen_id = s.last_seen_id ∨ ∃ q, t.last_seen_id = some q ∧ seen s q = false)
    (hp : seen s p) : seen t p := by
  obtain ⟨last, hl, hle⟩ := seen_iff.mp hp
  rcases h with h | ⟨q, h, hq⟩
  · exact seen_iff.mpr ⟨last, h.trans hl, hle⟩
  · refine seen_iff.mpr ⟨q, h, Nat.le_of_lt (Nat.lt_of_not_le fun hqp => ?_)⟩
    rw [seen_iff.mpr ⟨last, hl, Nat.le_trans hqp hle⟩] at hq
    cases hq

end

/-! ## The session loop -/

variable {cfg} {s t : State} {e : SessionEv}

theorem Loop.not_down_of_reads {l : Loop} (h : l.reads) : l.down = false := by
  cases l <;> first | rfl | cases h

theorem move_close (hl : s.loop.down = false) : Move cfg s e (close s) := by
  have h : Move cfg s e _ := .close s.last_seen_id (fun _ => false) hl (.inl rfl)
  simp only [Bool.or_false] at h
  exact h

theorem move_close_cancel (id : RequestId) (hl : s.loop.down = false) : Move cfg s e (close (cancel s id)) :=
  .close s.last_seen_id (fun q => q == id) hl (.inl rfl)

theorem move_after (hl : (∃ id b done lost, s.loop = .replying id b done lost) ∨ ∃ done lost, s.loop = .replied done lost)
    (a : After) (ha : a = .read → s.loop.ended = false) : Move cfg s e (after s a) := by
  cases a with
  | read => exact .resume hl (ha rfl)
  | stop =>
    refine move_close ?_
    rcases hl with ⟨_, _, _, _, h⟩ | ⟨_, _, h⟩ <;> rw [h] <;> rfl

/-- The loop's own answer to a fresh request. -/
theorem move_answer (r : Request) {b : Body} (done lost : After) (hl : s.loop = .reading) (hf : seen s r.id = false)
    (hb : ∀ n names, b ≠ .initialized n names) :
    Move cfg s e { s with last_seen_id := some r.id, loop := .replying (some r.id) b done lost } := by
  have h : Move cfg s e _ := .answer (some r.id) s.selected s.client_methods s.reused (fun _ => false)
    (some r.id) b done lost (by rw [hl]; rfl) (.inr ⟨_, rfl, hf⟩) id
    (fun q hq => .inl ⟨Option.some.inj hq ▸ hf, .inl hq⟩) .inl (.inl ⟨rfl, rfl⟩) (.inl hl) hb
  simp only [Bool.or_false] at h
  exact h

theorem move_discover (r : Request) (expired : Bool) (hl : s.loop = .reading) (hf : seen s r.id = false) :
    Move cfg s e (discover cfg { s with last_seen_id := some r.id } r expired) := by
  unfold discover
  split
  · exact move_answer r _ _ hl hf nofun
  · split
    · exact move_answer r _ _ hl hf nofun
    · have h : Move cfg s e _ := .close (some r.id) (fun _ => false) (by rw [hl]; rfl)
        (.inr ⟨_, rfl, hf⟩)
      simp only [Bool.or_false] at h
      exact h

theorem initialize_refusal_none {pr : InitializeParams} (h : initialize_refusal cfg pr = none) :
    1 ≤ min cfg.max_in_flight pr.max_in_flight := by
  have hc := cfg.in_range
  unfold initialize_refusal at h
  split_ifs at h with h1 h2 h3
  simp only [not_or] at h2
  omega

theorem move_offer (r : Request) (expired : Bool) (hl : s.loop = .reading) (hi : s.initialized = false)
    (hf : seen s r.id = false) (he : e = .recv (.request r) expired) :
    Move cfg s e (initialize_offer cfg { s with last_seen_id := some r.id } r expired) := by
  have hr : s.loop.reads := by rw [hl]; rfl
  unfold initialize_offer
  split
  · rename_i pr hp
    split
    · exact move_answer r _ _ hl hf nofun
    · rename_i hn
      have ho := initialize_refusal_none hn
      have hof : e.Offers r.id pr.client_methods := ⟨r, expired, pr, he, rfl, hp, rfl⟩
      dsimp only
      split
      · have h : Move cfg s e _ := .answer (some r.id) (min cfg.max_in_flight pr.max_in_flight)
          pr.client_methods s.reused (fun _ => false) (some r.id) (.error .DeadlineExceeded) .stop .stop hr
          (.inr ⟨_, rfl, hf⟩) id (fun q hq => .inl ⟨Option.some.inj hq ▸ hf, .inl hq⟩) .inl
          (.inr ⟨hl, hi, ho, r.id, hof⟩) (.inl hl) nofun
        simp only [Bool.or_false] at h
        exact h
      · exact .offer _ _ _ hl hi hf ho hof
  · exact move_answer r _ _ hl hf nofun

theorem move_dispatch (r : Request) (expired : Bool) (hl : s.loop = .reading) (hi : s.initialized)
    (hf : seen s r.id = false) (he : e = .recv (.request r) expired) :
    Move cfg s e (dispatch cfg { s with last_seen_id := some r.id } r expired) := by
  unfold dispatch
  by_cases hs : s.shutdown_request = none
  · split_ifs
    all_goals first
      | exact move_answer r _ _ hl hf nofun
      | exact move_discover r expired hl hf
      | exact .shutdown r.id hl hi hf hs
      | exact .accept r.id hl hi hf hs ⟨r, expired, he, rfl, ‹_›⟩
  · have hm : s.shutdown_request.isSome := Option.isSome_iff_ne_none.mpr hs
    split_ifs
    all_goals first
      | exact move_answer r _ _ hl hf nofun
      | exact move_discover r expired hl hf

theorem move_deliver {id : Option RequestId} {b : Body} {expired : Bool} (lost : State) (hl : s.loop.reads)
    (hs : Move cfg s e lost) (he : e = .recv (.response id b) expired) :
    Move cfg s e ((id.bind (deliver s)).getD lost) := by
  cases hb : id.bind (deliver s) with
  | none => exact hs
  | some u =>
    obtain ⟨i, hi, hu⟩ := Option.bind_eq_some_iff.mp hb
    exact .deliver i u hl hu ⟨b, expired, by rw [he, hi]⟩

theorem move_recv (frame : ClientFrame) (expired : Bool) (hl : s.loop = .reading) (he : e = .recv frame expired) :
    Move cfg s e (recv cfg s frame expired) := by
  have hr : s.loop.reads := by rw [hl]; rfl
  have hc : Move cfg s e (close s) := move_close (Loop.not_down_of_reads hr)
  cases frame with
  | malformed k =>
    have h : Move cfg s e _ := .answer s.last_seen_id s.selected s.client_methods s.reused (fun _ => false)
      none (.error k) .stop .stop hr (.inl rfl) id nofun .inl (.inl ⟨rfl, rfl⟩) (.inl hl) nofun
    simp only [Bool.or_false] at h
    exact h
  | response id b =>
    simp only [recv]
    split
    · exact move_deliver _ hr hc he
    · exact hc
  | cancel id =>
    simp only [recv]
    split
    · exact .cancel id hr
    · exact .stay hr
  | notification => exact .stay hr
  | request r =>
    simp only [recv, handle_request]
    by_cases hf : seen s r.id
    · have h : Move cfg s e _ := .answer s.last_seen_id s.selected s.client_methods true (fun _ => false)
        (some r.id) (.error .InvalidRequest) .stop .stop hr (.inl rfl) (fun _ => rfl) (fun _ _ => .inr rfl)
        (fun _ => .inr ⟨rfl, rfl⟩) (.inl ⟨rfl, rfl⟩) (.inl hl) nofun
      simp only [Bool.or_false] at h
      rw [if_pos hf]
      exact h
    · have hfr : seen s r.id = false := Bool.not_eq_true _ ▸ hf
      rw [if_neg hf]
      by_cases hi : s.initialized
      · rw [if_pos hi]
        exact move_dispatch r expired hl hi hfr he
      · rw [if_neg hi]
        split_ifs
        · exact move_discover r expired hl hfr
        · exact move_answer r _ _ hl hfr nofun
        · exact move_offer r expired hl (Bool.not_eq_true _ ▸ hi) hfr he

theorem move_init_recv {expired : Bool} (id : RequestId) (frame : ClientFrame) (hl : s.loop = .initializing id)
    (he : e = .recv frame expired) :
    Move cfg s e (init_recv s id frame) := by
  have hr : s.loop.reads := by rw [hl]; rfl
  cases frame with
  | malformed k =>
    exact .answer s.last_seen_id s.selected s.client_methods s.reused (fun q => q == id) none (.error k)
      .stop .stop hr (.inl rfl) (fun h => h) (fun q hq => nomatch hq) .inl (.inl ⟨rfl, rfl⟩) (.inr ⟨rfl, rfl⟩) nofun
  | response rd b => exact move_deliver _ hr (move_close_cancel id (Loop.not_down_of_reads hr)) he
  | cancel rd =>
    simp only [init_recv]
    split
    · exact .cancel id hr
    · exact .stay hr
  | notification => exact .stay hr
  | request r =>
    refine .answer s.last_seen_id s.selected s.client_methods (s.reused || seen s r.id) (fun q => q == id)
      (some r.id) (.error .InvalidRequest) .stop .stop hr (.inl rfl) (fun h => by rw [h]; rfl) (fun q hq => ?_)
      (fun _ => .inr ⟨rfl, rfl⟩) (.inl ⟨rfl, rfl⟩) (.inr ⟨rfl, rfl⟩) nofun
    cases hq
    cases hf : seen s r.id
    · exact .inl ⟨rfl, .inr ⟨rfl, rfl⟩⟩
    · exact .inr (Bool.or_true _)

/-- Every step of the session loop is one of the moves. -/
theorem session_step_move (h : session_step cfg s e = some t) : Move cfg s e t := by
  have ho : ∀ {l}, s.loop = l → l.down = false → Move cfg s e (close s) := fun hl hd => move_close (hl ▸ hd)
  cases e with
  | recv frame expired =>
    simp only [session_step] at h
    split at h
    · rename_i hl
      cases h
      exact move_recv frame expired hl rfl
    · rename_i id hl
      cases h
      exact move_init_recv id frame hl rfl
    · cases h
  | eof =>
    simp only [session_step] at h
    split at h
    · rename_i hl
      cases h
      exact ho hl rfl
    · rename_i id hl
      cases h
      exact move_close_cancel id (hl ▸ rfl)
    · cases h
  | read_failed =>
    simp only [session_step] at h
    split at h
    · rename_i hl
      cases h
      exact ho hl rfl
    · rename_i id hl
      cases h
      exact ho hl rfl
    · cases h
  | replied =>
    simp only [session_step] at h
    split at h
    · split at h
      · rename_i id b done lost hl
        cases h
        exact .push id b done lost hl
      · rename_i id b hl
        cases h
        exact .push_init id b hl rfl
      · cases h
    · cases h
  | committed =>
    simp only [session_step] at h
    split at h
    · rename_i done lost hl
      cases h
      exact move_after (.inr ⟨_, _, hl⟩) done (fun hd => by rw [hl, hd]; cases lost <;> rfl)
    · rename_i k hl
      cases h
      exact ho hl rfl
    · rename_i b hl
      cases h
      exact .negotiate _ ‹_›
    · cases h
  | reply_lost =>
    simp only [session_step] at h
    split at h
    · rename_i id b done lost hl
      cases h
      exact move_after (.inl ⟨_, _, _, _, hl⟩) lost (fun hd => by rw [hl, hd]; cases done <;> rfl)
    · rename_i done lost hl
      cases h
      exact move_after (.inr ⟨_, _, hl⟩) lost (fun hd => by rw [hl, hd]; cases done <;> rfl)
    · rename_i id b hl
      cases h
      exact ho hl rfl
    · rename_i b hl
      cases h
      exact ho hl rfl
    · cases h
  | init_returned error =>
    simp only [session_step] at h
    split at h
    · rename_i id hl
      refine Option.some.inj h ▸ .decide id _ hl ?_
      cases error with
      | none => exact .inl rfl
      | some k => exact .inr ⟨k, rfl⟩
    · cases h
  | init_expired =>
    simp only [session_step] at h
    split at h
    · rename_i id hl
      cases h
      exact .decide id _ hl (.inr ⟨_, rfl⟩)
    · cases h
  | init_cancelled =>
    simp only [session_step] at h
    split at h
    · rename_i id hl
      split at h
      · rename_i hc
        cases h
        exact .decided id hl hc
      · cases h
    · cases h
  | disconnected =>
    simp only [session_step] at h
    split at h
    · rename_i hl
      cases h
      exact ho hl.1 rfl
    · cases h
  | reap p =>
    simp only [session_step] at h
    split at h
    · rename_i hl
      split at h
      · rename_i hp
        cases h
        exact .reap p hl hp
      · cases h
        exact ho hl rfl
      · cases h
    · cases h
  | drain =>
    simp only [session_step] at h
    split at h
    · rename_i hl
      obtain ⟨id, hi⟩ := Option.isSome_iff_exists.mp hl.2.1
      cases h
      exact .drain id hl.1 hi (.inl hl.2.2)
    · cases h
  | shutdown_deadline =>
    simp only [session_step] at h
    split at h
    · rename_i hl
      obtain ⟨id, hi⟩ := Option.isSome_iff_exists.mp hl.2
      cases h
      exact .drain id hl.1 hi (.inr rfl)
    · cases h
  | joined =>
    simp only [session_step] at h
    split at h
    · rename_i hl
      cases h
      exact .joined hl.1 hl.2
    · cases h
  | shutdown_reply =>
    simp only [session_step] at h
    split at h
    · rename_i id hs
      split at h
      · rename_i hl
        cases h
        exact .shutdown_reply id hl.1 hs hl.2.1 hl.2.2
      · cases h
    · cases h
  | shutdown_skip =>
    simp only [session_step] at h
    split at h
    · rename_i hl
      cases h
      exact .shutdown_skip hl
    · cases h

theorem deliver_eq {s : State} {id : RequestId} {u : State} (h : deliver s id = some u) :
    u = { s with cbs := s.cbs.map (Callback.deliver_pending id) } ∨
      u = { s with cbs := s.cbs.map (Callback.deliver_parked id) } := by
  unfold deliver at h
  split_ifs at h
  · exact .inl (Option.some.inj h).symm
  · exact .inr (Option.some.inj h).symm

/-! ## The call tasks -/

/-- Its token is cancelled before the task gets here. -/
def CallPhase.token : CallPhase → Bool
  | .ending _ | .joining | .replacing _ | .committed => true
  | _ => false

section

variable {env : CallEnv} {c : CallTask} {o : CallOut} {ev : CallEv}

variable (h : c.next env ev = some o)

include h

theorem CallTask.next_live : c.phase.live := by
  cases hp : c.phase <;> first | rfl | (cases ev <;> simp [CallTask.next, hp, CallPhase.live] at h)

theorem CallTask.next_unborn : o.task.phase ≠ .unborn := by
  cases hp : c.phase <;> cases ev <;> simp [CallTask.next, hp, CallPhase.live] at h
  all_goals grind

theorem CallTask.next_token (ht : o.task.phase.token) : c.phase.token ∨ o.cancel ∨ env.token := by
  cases hp : c.phase <;> cases ev <;> simp [CallTask.next, hp, CallPhase.live] at h
  all_goals grind [CallPhase.token]

theorem CallTask.next_enqueued (hc : c.phase = .enqueued) : o.emit = none ∧ (o.cancel ∨ env.closing) := by
  cases ev <;> simp [CallTask.next, hc, CallPhase.live] at h
  all_goals grind

theorem CallTask.next_emit {b : Body} (he : o.emit = some b) : ev = .send ∧ (c.phase.token ∨ o.task.phase = .enqueued) := by
  cases hp : c.phase <;> cases ev <;> simp [CallTask.next, hp, CallPhase.live] at h
  all_goals grind [CallPhase.token]

end

theorem call_step_spec {s t : State} {p : RequestId} {ev : CallEv} (h : call_step cfg s p ev = some t) :
    ∃ o, (s.calls p).next (call_env cfg s p) ev = some o ∧
      t = (with_call s p ev o).queue (o.emit.map (ServerFrame.terminal p)).toList := by
  obtain ⟨o, ho, rfl⟩ := Option.map_eq_some_iff.mp h
  exact ⟨o, ho, rfl⟩

/-! ## The callbacks -/

section

variable {env : CbEnv} {c d : Callback} {ev : CbEv}

theorem Callback.next_parent (h : c.next env ev = some d) : d.parent = c.parent := by
  cases ev <;> simp only [Callback.next] at h
  all_goals grind [Callback.leave, Callback.abandon_call]

theorem Callback.next_checked (h : c.next env ev = some d) (hd : d.phase = .checked) :
    ev = .check ∧ env.token = false := by
  cases ev <;> simp only [Callback.next] at h
  all_goals grind [Callback.leave, Callback.abandon_call]

theorem Callback.next_enqueue (h : c.next env .enqueue = some d) :
    c.phase = .checked ∧ env.room ∧ d = { c with phase := .waiting, sent := true } := by
  simp only [Callback.next] at h
  split at h
  · rename_i hc
    exact ⟨hc.1, hc.2, (Option.some.inj h).symm⟩
  · cases h

end

theorem cb_step_spec {s t : State} {k : Nat} {ev : CbEv} (h : cb_step cfg s k ev = some t) :
    ∃ c d, s.cbs[k]? = some c ∧ c.next (cb_env cfg s c) ev = some d ∧
      t = (with_callback s k ev d).queue (queued d ev) := by
  obtain ⟨c, hc, h⟩ := Option.bind_eq_some_iff.mp h
  obtain ⟨d, hd, h⟩ := Option.bind_eq_some_iff.mp h
  exact ⟨c, d, hc, hd, (Option.some.inj h).symm⟩

/-! ## The writer -/

@[simp] theorem release_phase (c : CallTask) : (release c).phase = c.phase := by
  unfold release
  split <;> rfl

theorem take_spec {s t : State} (h : step cfg s .take = some t) :
    s.down = false ∧ s.taken < s.log.length ∧
      t = { s with taken := s.taken + 1, calls := t.calls } ∧ ∀ q, (t.calls q).phase = (s.calls q).phase := by
  simp only [step] at h
  split at h
  · cases h
  · rename_i hd
    refine ⟨Bool.not_eq_true _ ▸ hd, ?_⟩
    split at h
    · rename_i p _ hf
      cases h
      refine ⟨(List.getElem?_eq_some_iff.mp hf).1, rfl, fun q => ?_⟩
      by_cases hq : q = p
      all_goals simp [hq]
    · rename_i f _ hf
      cases h
      exact ⟨(List.getElem?_eq_some_iff.mp hf).1, rfl, fun _ => rfl⟩
    · cases h

end Monosecret.Rpc.Server
