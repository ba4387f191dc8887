/-
  Monosecret.Rpc.ServerCallbacks — callback requests and the terminal response of the
  request they name (`Peer::call`, `run_call`, `commit_application_before`, `initialize`).

  A callback frame is never queued after the terminal response of its parent, as long as
  the session takes neither of two orders (`no_race`):
  (1) a terminal response is queued while a callback of its request has passed its
      cancellation check and is not queued yet;
  (2) a callback passes its check between the enqueueing of its request's application
      response and the cancellation that follows it.
  `late_callback` is a run with the first.
-/

import Monosecret.Rpc.ServerMoves

namespace Monosecret.Rpc.Server

open Lib Machine

/-- Every callback frame precedes the terminal response of its parent. -/
def LifetimeKept (log : List ServerFrame) : Prop :=
  log.Pairwise fun f g => ∀ p, f.ends = some p → g.parent ≠ some p

instance (log : List ServerFrame) : Decidable (LifetimeKept log) :=
  inferInstanceAs (Decidable (log.Pairwise _))

/-- No callback of `p` has passed its check without being queued. -/
def callbacks_clear (s : State) (p : RequestId) : Bool :=
  s.cbs.all fun c => c.parent != p || c.phase != .checked

def no_race (s : State) : Ev → Bool
  | .call p .send => callbacks_clear s p
  | .session .replied =>
    match s.loop with
    | .init_reply id _ => callbacks_clear s id
    | _ => true
  | .callback k .check =>
    match s.cbs[k]? with
    | some c => (s.calls c.parent).phase != .enqueued
    | none => true
  | _ => true

/-! ## The invariant -/

/-- The terminal response of `p` was queued. -/
def ended (s : State) (p : RequestId) : Prop := ∃ f ∈ s.log, f.ends = some p

structure LifetimeInv (s : State) : Prop where
  seen_ended : ∀ p, ended s p → seen s p = true
  seen_call : ∀ p, (s.calls p).phase ≠ .unborn → seen s p = true
  seen_init : ∀ id, (s.loop = .initializing id ∨ ∃ body, s.loop = .init_reply id body) → seen s id = true
  token_ended : ∀ p, ended s p → s.cancelled p = true ∨ (s.calls p).phase = .enqueued
  token_phase : ∀ p, (s.calls p).phase.token = true → s.cancelled p = true
  token_init : ∀ id body, s.loop = .init_reply id body → s.cancelled id = true
  token_down : s.loop.down = true → ∀ p, (s.calls p).phase.live = true → s.cancelled p = true
  clear : ∀ p, ended s p → callbacks_clear s p = true
  kept : LifetimeKept s.log

variable {p : RequestId}

theorem callbacks_clear_iff {s : State} :
    callbacks_clear s p ↔ ∀ c ∈ s.cbs, c.parent = p → c.phase ≠ .checked := by
  simp only [callbacks_clear, List.all_eq_true, Bool.or_eq_true, bne_iff_ne, ne_eq]
  exact forall₂_congr fun c _ => Decidable.imp_iff_not_or.symm

theorem LifetimeInv.init : LifetimeInv {} where
  seen_ended := fun p ⟨f, hf, _⟩ => nomatch hf
  seen_call := fun p hp => absurd rfl hp
  seen_init := fun id h => by rcases h with h | ⟨b, h⟩ <;> cases h
  token_ended := fun p ⟨f, hf, _⟩ => nomatch hf
  token_phase := nofun
  token_init := nofun
  token_down := nofun
  clear := fun p ⟨f, hf, _⟩ => nomatch hf
  kept := List.Pairwise.nil

/-- A step that queues nothing, starts no call, only cancels tokens and passes no check. -/
theorem LifetimeInv.quiet {s t : State} (h : LifetimeInv s) (hl : t.log = s.log)
    (hcl : ∀ p, (t.calls p).phase = (s.calls p).phase ∨
      (s.calls p).phase = .returned ∧ (t.calls p).phase = .reaped)
    (hn : ∀ p, seen s p → seen t p) (hcn : ∀ p, s.cancelled p → t.cancelled p)
    (hi : ∀ id, (t.loop = .initializing id ∨ ∃ b, t.loop = .init_reply id b) → seen t id)
    (hk : ∀ id b, t.loop = .init_reply id b → t.cancelled id)
    (hw : t.loop.down → ∀ p, (s.calls p).phase.live → t.cancelled p)
    (hb : ∀ p, callbacks_clear s p → callbacks_clear t p) : LifetimeInv t := by
  have he : ∀ p, ended t p → ended s p := fun p hp => by unfold ended at hp ⊢; rwa [hl] at hp
  refine ⟨fun p hp => hn p (h.seen_ended p (he p hp)), fun p hp => ?_, hi, fun p hp => ?_, fun p hp => ?_,
    hk, fun hd p hp => ?_, fun p hp => hb p (h.clear p (he p hp)), hl ▸ h.kept⟩
  · rcases hcl p with hc | ⟨hs, -⟩
    · exact hn p (h.seen_call p (hc ▸ hp))
    · exact hn p (h.seen_call p (by rw [hs]; exact CallPhase.noConfusion))
  · rcases h.token_ended p (he p hp) with hc | hq
    · exact .inl (hcn p hc)
    · rcases hcl p with hc | ⟨hs, -⟩
      · exact .inr (hc.trans hq)
      · rw [hs] at hq
        cases hq
  · rcases hcl p with hc | ⟨-, ht⟩
    · exact hcn p (h.token_phase p (hc ▸ hp))
    · rw [ht] at hp
      cases hp
  · rcases hcl p with hc | ⟨-, ht⟩
    · exact hw hd p (hc ▸ hp)
    · rw [ht] at hp
      cases hp

/-- Queueing a frame: it ends only a request with no callback left to queue, and serves none
    that has ended. -/
theorem LifetimeInv.push {s : State} (h : LifetimeInv s) (f : ServerFrame)
    (he : ∀ p, f.ends = some p → seen s p ∧ callbacks_clear s p ∧
      (s.cancelled p ∨ (s.calls p).phase = .enqueued))
    (hr : ∀ p, f.parent = some p → ¬ ended s p) : LifetimeInv (s.queue [f]) := by
  have hn : ∀ p, ended (s.queue [f]) p → ended s p ∨ f.ends = some p := by
    rintro p ⟨g, hg, hp⟩
    rcases List.mem_append.mp hg with hg | hg
    · exact .inl ⟨g, hg, hp⟩
    · exact .inr (List.mem_singleton.mp hg ▸ hp)
  refine ⟨fun p hp => ?_, h.seen_call, h.seen_init, fun p hp => ?_, h.token_phase, h.token_init, h.token_down,
    fun p hp => ?_, ?_⟩
  · exact (hn p hp).elim (h.seen_ended p) fun hf => (he p hf).1
  · exact (hn p hp).elim (h.token_ended p) fun hf => (he p hf).2.2
  · exact (hn p hp).elim (h.clear p) fun hf => (he p hf).2.1
  · refine List.pairwise_append.mpr ⟨h.kept, List.pairwise_singleton _ _, fun g hg f' hf' p hp => ?_⟩
    obtain rfl := List.mem_singleton.mp hf'
    exact fun hpa => hr p hpa ⟨g, hg, hp⟩

/-! ## The steps -/

variable {cfg : Config} {s t : State}

theorem clear_map {g : Callback → Callback} (hg : ∀ c, (g c).parent = c.parent ∧ (g c).phase = c.phase)
    (h : callbacks_clear s p) : callbacks_clear { s with cbs := s.cbs.map g } p := by
  simp only [callbacks_clear, List.all_map] at h ⊢
  simpa [Function.comp_def, hg] using h

theorem clear_fail (h : callbacks_clear s p) :
    callbacks_clear { s with cbs := s.cbs.map Callback.fail } p :=
  clear_map (fun _ => ⟨rfl, rfl⟩) h

theorem clear_deliver {id : RequestId} {u : State} (hd : deliver s id = some u) (h : callbacks_clear s p) :
    callbacks_clear u p := by
  rcases deliver_eq hd with rfl | rfl
  · refine clear_map (fun c => ?_) h
    unfold Callback.deliver_pending
    split <;> exact ⟨rfl, rfl⟩
  · refine clear_map (fun c => ?_) h
    unfold Callback.deliver_parked
    split <;> exact ⟨rfl, rfl⟩

theorem or_left {a b : Bool} (h : a) : (a || b) := by rw [h]; rfl

theorem Loop.reads_not_replying {l : Loop} (h : l.reads) : (∀ id b, l ≠ .init_reply id b) ∧ l.down = false := by
  cases l <;> simp_all [Loop.reads, Loop.down]

section

variable (h : LifetimeInv s)

include h

/-- A quiet step to a loop state that owes the tokens nothing. -/
theorem LifetimeInv.quiet_plain (hg : t.log = s.log) (hc : ∀ p, (t.calls p).phase = (s.calls p).phase ∨
      (s.calls p).phase = .returned ∧ (t.calls p).phase = .reaped)
    (hs : ∀ p, seen s p → seen t p) (hn : ∀ p, s.cancelled p → t.cancelled p)
    (hlp : t.loop.plain) (hb : t.cbs = s.cbs) : LifetimeInv t := by
  refine h.quiet hg hc hs hn ?_ ?_ ?_ (fun p hp => by unfold callbacks_clear at hp ⊢; rwa [hb])
  · rintro id (hl | ⟨b, hl⟩) <;> rw [hl] at hlp <;> cases hlp
  · intro id b hl
    rw [hl] at hlp
    cases hlp
  · intro hd
    have : t.loop.down = false := by cases hl : t.loop <;> simp_all [Loop.plain, Loop.down]
    rw [this] at hd
    cases hd

/-- One call task steps, without queueing. -/
theorem LifetimeInv.call (p : RequestId) (task : CallTask) (cn : Bool) (hl : t.log = s.log)
    (hcl : t.calls = fun q => if q = p then task else s.calls q) (hs : t.last_seen_id = s.last_seen_id)
    (hp : t.loop = s.loop) (hn : t.cancelled = fun q => s.cancelled q || (cn && q == p))
    (hb : t.cbs = s.cbs) (hsn : seen s p = true)
    (hen : ended s p → s.cancelled p = true ∨ cn = true ∨ task.phase = .enqueued)
    (ht : task.phase.token = true → s.cancelled p = true ∨ cn = true)
    (hv : s.loop.down = true → task.phase.live = true → s.cancelled p = true ∨ cn = true) : LifetimeInv t := by
  have hm : ∀ q, seen s q = true → seen t q = true := fun q hq => seen_mono (.inl hs) hq
  have hold : ∀ q, s.cancelled q = true → t.cancelled q = true := fun q hq => by rw [hn]; exact or_left hq
  have hw : ∀ c, s.cancelled p = true ∨ c = true → c = cn → t.cancelled p = true := fun c hc he => by
    rw [hn]
    rcases hc with hc | hc
    · exact or_left hc
    · simp only [← he, hc, beq_self_eq_true, Bool.true_and, Bool.or_true]
  have hbc : ∀ q, ended t q → ended s q := fun q hq => by unfold ended at hq ⊢; rwa [hl] at hq
  have hsl : t.calls p = task := by rw [hcl]; exact if_pos rfl
  have ho : ∀ q, q ≠ p → t.calls q = s.calls q := fun q hq => by rw [hcl]; exact if_neg hq
  refine ⟨fun q hq => hm q (h.seen_ended q (hbc q hq)), fun q hq => ?_, fun id hi => ?_, fun q hq => ?_,
    fun q hq => ?_, fun id b hi => ?_, fun hd q hq => ?_, fun q hq => ?_, hl ▸ h.kept⟩
  · by_cases he : q = p
    · exact hm q (he ▸ hsn)
    · exact hm q (h.seen_call q (ho q he ▸ hq))
  · exact hm id (h.seen_init id (hp ▸ hi))
  · by_cases he : q = p
    · subst he
      rcases hen (hbc q hq) with hc | hc | hc
      · exact .inl (hold q hc)
      · exact .inl (hw cn (.inr hc) rfl)
      · exact .inr (hsl ▸ hc)
    · rw [ho q he]
      exact (h.token_ended q (hbc q hq)).imp (hold q) id
  · by_cases he : q = p
    · subst he
      exact hw cn (ht (hsl ▸ hq)) rfl
    · exact hold q (h.token_phase q (ho q he ▸ hq))
  · exact hold id (h.token_init id b (hp ▸ hi))
  · by_cases he : q = p
    · subst he
      exact hw cn (hv (hp ▸ hd) (hsl ▸ hq)) rfl
    · exact hold q (h.token_down (hp ▸ hd) q (ho q he ▸ hq))
  · have hc := h.clear q (hbc q hq)
    unfold callbacks_clear at hc ⊢
    rwa [hb]

theorem LifetimeInv.close (last : Option RequestId) (gone : RequestId → Bool)
    (hs : last = s.last_seen_id ∨ ∃ q, last = some q ∧ seen s q = false) (drained : Bool) :
    LifetimeInv (close { s with
      last_seen_id := last, cancelled := fun q => s.cancelled q || gone q, drained := drained }) := by
  refine h.quiet rfl (fun _ => .inl rfl) (fun p hp => seen_mono (s := s) hs hp)
    (fun p hp => or_left (or_left hp)) ?_ ?_ ?_ (fun p hp => clear_fail hp)
  · rintro id (hl | ⟨b, hl⟩) <;> cases hl
  · intro id b hl
    cases hl
  · intro _ p hp
    simp only [Server.close, CallPhase.inflight, hp, Bool.true_or, Bool.or_true]

/-- After the session the loop only moves on: every running task's token is cancelled. -/
theorem LifetimeInv.wind_down (hs : s.loop.down) (loop : Loop) (ht : loop.down) : LifetimeInv { s with loop := loop } := by
  refine h.quiet rfl (fun _ => .inl rfl) (fun _ hp => hp) (fun _ hp => hp) ?_ ?_ (fun _ => h.token_down hs)
    (fun _ hp => hp)
  · rintro id (hl | ⟨b, hl⟩) <;> subst hl <;> cases ht
  · intro id b hl
    subst hl
    cases ht

theorem LifetimeInv.accept (id : RequestId) (hl : s.loop = .reading) (hf : seen s id = false) :
    LifetimeInv (accept { s with last_seen_id := some id } id) := by
  have hn : LifetimeInv { s with last_seen_id := some id } :=
    h.quiet_plain rfl (fun _ => .inl rfl) (fun p hp => seen_mono (s := s) (.inr ⟨id, rfl, hf⟩) hp) (fun _ hp => hp)
      (by rw [hl]; rfl) rfl
  refine hn.call id ⟨.running, true⟩ false rfl rfl rfl rfl ?_ rfl (seen_last rfl) ?_ ?_ ?_
  · simp only [Bool.false_and, Bool.or_false]
    rfl
  · intro he
    rw [h.seen_ended id he] at hf
    cases hf
  · intro ht
    cases ht
  · intro hd
    rw [hl] at hd
    cases hd

theorem LifetimeInv.move {e : SessionEv} (hn : no_race s (.session e))
    (hs : session_step cfg s e = some t) : LifetimeInv t := by
  have hm : ∀ p, seen s p → seen s p := fun _ hp => hp
  cases session_step_move hs with
  | stay => exact h
  | answer last selected m r g id b done lost hl hls =>
    exact h.quiet_plain rfl (fun _ => .inl rfl) (fun p hp => seen_mono (s := s) hls hp) (fun p hp => or_left hp) rfl rfl
  | close last g hl hls => exact h.close last g hls s.drained
  | drain id hl hs he =>
    have hc := h.close s.last_seen_id (fun _ => false) (.inl rfl) true
    simp only [Bool.or_false] at hc
    exact hc
  | deliver id u hl hd =>
    have hfr : t.log = s.log ∧ t.calls = s.calls ∧ t.last_seen_id = s.last_seen_id ∧ t.cancelled = s.cancelled ∧
        t.loop = s.loop := by
      rcases deliver_eq hd with rfl | rfl <;> exact ⟨rfl, rfl, rfl, rfl, rfl⟩
    obtain ⟨hg, hcl, hls, hcn, hlp⟩ := hfr
    refine h.quiet hg (fun p => .inl (by rw [hcl])) (fun p hp => seen_mono (.inl hls) hp)
      (fun p hp => hcn ▸ hp) ?_ ?_ ?_ (fun p hp => clear_deliver hd hp)
    · intro id hid
      exact seen_mono (.inl hls) (h.seen_init id (hlp ▸ hid))
    · intro id b hid
      exact absurd (hlp ▸ hid) ((Loop.reads_not_replying hl).1 id b)
    · intro hd'
      rw [hlp, (Loop.reads_not_replying hl).2] at hd'
      cases hd'
  | cancel id hl =>
    refine h.quiet rfl (fun _ => .inl rfl) hm (fun p hp => or_left hp) h.seen_init ?_ ?_ (fun _ hp => hp)
    · intro id b hid
      exact absurd hid ((Loop.reads_not_replying hl).1 id b)
    · intro hd
      rw [show (Server.cancel s id).loop = s.loop from rfl, (Loop.reads_not_replying hl).2] at hd
      cases hd
  | offer id selected m hl hi hf =>
    refine h.quiet rfl (fun _ => .inl rfl) (fun p hp => seen_mono (s := s) (.inr ⟨id, rfl, hf⟩) hp) (fun _ hp => hp)
      ?_ ?_ ?_ (fun _ hp => hp)
    · rintro id' (hl | ⟨b, hl⟩) <;> cases hl
      exact seen_last rfl
    · intro id b hl
      cases hl
    · intro hd
      cases hd
  | shutdown id hl hi hf hs =>
    exact h.quiet_plain rfl (fun _ => .inl rfl) (fun p hp => seen_mono (s := s) (.inr ⟨id, rfl, hf⟩) hp)
      (fun _ hp => hp) (by rw [hl]; rfl) rfl
  | accept id hl hi hf hs => exact h.accept id hl hf
  | push id b done lost hl =>
    have hp := h.push (.reply id b) nofun nofun
    exact hp.quiet_plain rfl (fun _ => .inl rfl) hm (fun _ hp => hp) rfl rfl
  | push_init id b hl he =>
    have hp := h.push (.terminal id b) (fun p hp => ?_) nofun
    · exact hp.quiet_plain rfl (fun _ => .inl rfl) hm (fun _ hp => hp) rfl rfl
    · cases hp
      subst he
      simp only [no_race, hl] at hn
      exact ⟨h.seen_init id (.inr ⟨b, hl⟩), hn, .inl (h.token_init id b hl)⟩
  | resume hl he | negotiate b hl => exact h.quiet_plain rfl (fun _ => .inl rfl) hm (fun _ hp => hp) rfl rfl
  | decide id b hl hb =>
    refine h.quiet rfl (fun _ => .inl rfl) hm (fun p hp => or_left hp) ?_ ?_ ?_ (fun _ hp => hp)
    · rintro id' (hl' | ⟨b, hl'⟩) <;> cases hl'
      exact h.seen_init id (.inl hl)
    · intro id' b' hl'
      cases hl'
      simp only [Server.cancel, beq_self_eq_true, Bool.or_true]
    · intro hd
      cases hd
  | decided id hl hc =>
    refine h.quiet rfl (fun _ => .inl rfl) hm (fun p hp => hp) ?_ ?_ ?_ (fun _ hp => hp)
    · rintro id' (hl' | ⟨b, hl'⟩) <;> cases hl'
      exact h.seen_init id (.inl hl)
    · intro id' b' hl'
      cases hl'
      exact hc
    · intro hd
      cases hd
  | reap p hl hp =>
    refine h.quiet_plain rfl (fun q => ?_) hm (fun p hp => hp) (by rw [hl]; rfl) rfl
    by_cases hq : q = p
    · subst hq
      exact .inr ⟨hp, by simp⟩
    · exact .inl (by simp [hq])
  | joined hl hj => exact h.wind_down (by rw [hl]; rfl) _ rfl
  | shutdown_reply id hl hs hd hr =>
    have hp := h.push (.shutdown id) nofun nofun
    exact hp.wind_down (show s.loop.down by rw [hl]; rfl) _ rfl
  | shutdown_skip hl => exact h.wind_down (by rw [hl]; rfl) _ rfl

theorem LifetimeInv.call_step {e : CallEv} (hn : no_race s (.call p e))
    (hs : call_step cfg s p e = some t) : LifetimeInv t := by
  obtain ⟨o, ho, rfl⟩ := call_step_spec hs
  have hsn : seen s p := h.seen_call p fun hu => by
    have := CallTask.next_live ho
    rw [hu] at this
    cases this
  have hl : (call_env cfg s p).closing → s.loop.down := fun hc => by
    rw [show s.loop = .closing from eq_of_beq hc]
    rfl
  have hk : o.task.phase.token → s.cancelled p ∨ o.cancel := fun ht => by
    rcases CallTask.next_token ho ht with hc | hc | hc
    · exact .inl (h.token_phase p hc)
    · exact .inr hc
    · exact .inl hc
  have hm := h.call (t := with_call s p e o) p o.task o.cancel rfl rfl rfl rfl rfl rfl hsn
    (fun he => ?_) hk (fun hd _ => .inl (h.token_down hd p (CallTask.next_live ho)))
  · cases hb : o.emit with
    | none => simpa only [hb, Option.map_none, Option.toList_none, State.queue_nil] using hm
    | some b =>
      obtain ⟨rfl, hp⟩ := CallTask.next_emit ho hb
      refine hm.push (.terminal p b) (fun q hq => ?_) nofun
      cases hq
      refine ⟨hm.seen_call p ?_, hn, ?_⟩
      · simpa [with_call] using CallTask.next_unborn ho
      · rcases hp with hp | hp
        · exact .inl (or_left (h.token_phase p hp))
        · exact .inr (by simpa [with_call] using hp)
  · rcases h.token_ended p he with hc | hq
    · exact .inl hc
    · rcases (CallTask.next_enqueued ho hq).2 with hc | hc
      · exact .inr (.inl hc)
      · exact .inl (h.token_down (hl hc) p (by rw [hq]; rfl))

/-- A callback steps: it passes its check only while its request can still end later. -/
theorem LifetimeInv.with_callback {k : Nat} {e : CbEv} {c d : Callback}
    (hr : d.parent = c.parent) (hd : d.phase = .checked → ¬ ended s c.parent) : LifetimeInv (with_callback s k e d) := by
  refine ⟨h.seen_ended, h.seen_call, h.seen_init, h.token_ended, h.token_phase, h.token_init, h.token_down,
    fun p hp => ?_, h.kept⟩
  have hc := callbacks_clear_iff.mp (h.clear p hp)
  refine callbacks_clear_iff.mpr fun c' hc' hpa hch => ?_
  rcases List.mem_or_eq_of_mem_set hc' with hc' | rfl
  · exact hc c' hc' hpa hch
  · exact hd hch (hr ▸ hpa ▸ hp)

theorem LifetimeInv.cb_step {k : Nat} {e : CbEv} (hn : no_race s (.callback k e))
    (hs : cb_step cfg s k e = some t) : LifetimeInv t := by
  obtain ⟨c, d, hk, hx, rfl⟩ := cb_step_spec hs
  have hm : LifetimeInv (Server.with_callback s k e d) := by
    refine h.with_callback (Callback.next_parent hx) fun hd he => ?_
    obtain ⟨rfl, ht⟩ := Callback.next_checked hx hd
    simp only [no_race, hk, bne_iff_ne] at hn
    rcases h.token_ended c.parent he with hc | hq
    · rw [show s.cancelled c.parent = false from ht] at hc
      cases hc
    · exact hn hq
  cases e with
  | enqueue =>
    obtain ⟨hch, -, rfl⟩ := Callback.next_enqueue hx
    refine hm.push _ nofun fun p hp he => ?_
    cases hp
    exact callbacks_clear_iff.mp (h.clear c.parent he) c (List.mem_of_getElem? hk) rfl hch
  | _ => simpa only [queued, State.queue_nil] using hm

theorem LifetimeInv.step {e : Ev} (hn : no_race s e) (hs : step cfg s e = some t) : LifetimeInv t := by
  cases e with
  | session e => exact h.move hn hs
  | call p e => exact h.call_step hn hs
  | enter parent m =>
    simp only [Server.step] at hs
    cases of_guard hs
    refine h.quiet rfl (fun _ => .inl rfl) (fun _ hp => hp) (fun _ hp => hp) h.seen_init h.token_init h.token_down
      fun p hp => ?_
    refine callbacks_clear_iff.mpr fun c hc hr hch => ?_
    rcases List.mem_append.mp hc with hc | hc
    · exact callbacks_clear_iff.mp hp c hc hr hch
    · rw [List.mem_singleton.mp hc] at hch
      cases hch
  | callback k e => exact h.cb_step hn hs
  | take =>
    obtain ⟨-, -, ht, hph⟩ := take_spec hs
    rw [ht]
    exact h.quiet rfl (fun p => .inl (hph p)) (fun _ hp => hp) (fun _ hp => hp) h.seen_init h.token_init
      h.token_down (fun _ hp => hp)
  | writer_fail =>
    cases hs
    exact h.quiet rfl (fun p => .inl (release_phase _)) (fun _ hp => hp) (fun _ hp => hp) h.seen_init h.token_init
      h.token_down (fun _ hp => hp)

end

/-! ## The result -/

/-- In every run without the two races, no callback follows its parent's terminal response. -/
theorem callback_before_terminal (cfg : Config) (s : State) (h : Reach (machine cfg) no_race s) :
    LifetimeKept s.log :=
  (h.inv (I := LifetimeInv) .init fun _ _ _ hi hn hs => hi.step hn hs).kept

/-! ## Runs -/

/-- The handler of request 2 asks its client, up to its check for cancellation. -/
def asking : List Ev :=
  [.enter 2 "client.prompt", .callback 0 (.acquire 1000), .callback 0 .order, .callback 0 (.register true),
    .callback 0 .check]

/-- The request's handler returns while a callback it spawned is about to be queued. -/
def late_callback : List Ev :=
  opening ++ asking ++ [.call 2 (.result none), .call 2 .send, .callback 0 .enqueue]

theorem callback_after_terminal :
    ¬ ∀ (cfg : Config) (s : State), Reach (machine cfg) any s → LifetimeKept s.log := by
  intro h
  obtain ⟨s, hs, hl⟩ := reach_of_run (machine resolver) any late_callback State.log
    [.terminal 1 (.initialized 2 ["resolver.resolve"]), .terminal 2 .result, .callback ⟨1, "client.prompt", 1000, some 2, .other⟩]
    (by decide)
  have hk := h resolver s hs
  rw [hl] at hk
  revert hk
  decide

/-- The same requests in the intended order. -/
theorem callback_before_terminal_run :
    ∃ s, Reach (machine resolver) no_race s ∧ s.log.length = 3 ∧ LifetimeKept s.log := by
  obtain ⟨s, hs, hl⟩ := reach_of_run (machine resolver) no_race
    (opening ++ asking ++ [.callback 0 .enqueue, .call 2 (.result none), .call 2 .send]) (fun s => s.log.length) 3
    (by decide)
  exact ⟨s, hs, hl, callback_before_terminal resolver s hs⟩

end Monosecret.Rpc.Server
