/-
  Monosecret.Rpc.ServerPermits — the permits of `Peer::call` and the order of its frames.

  A callback that was queued and is not answered is `exposed`; so is one that has passed its
  check and may be queued at any moment. Until the session is negotiated there is one
  permit, then there are as many as the selected limit. The exposed callbacks never exceed
  that bound, and never exceed one before the first request is accepted, as long as a
  callback takes a permit only while the exposed callbacks without one leave room for it
  (`permits_held`). There are such callbacks: a future dropped while it waits releases its
  permit early, and the permits of `rpc.initialize` belong to a semaphore that is replaced.
-/

import Monosecret.Lib.Lists
import Monosecret.Rpc.ServerMoves

namespace Monosecret.Rpc.Server

open Lib Machine

/-- Queued and not answered, or about to be queued. -/
def Callback.exposed (c : Callback) : Bool := (c.sent && !c.answered) || c.phase == .checked

/-- Its permit of the current semaphore is out. -/
def Callback.holds (negotiated : Bool) (c : Callback) : Bool := c.permit && c.negotiated == negotiated

def Callback.charged (negotiated : Bool) (c : Callback) : Bool := c.holds negotiated || c.exposed

/-- The callbacks the server has queued and not yet received a response for. -/
def outstanding (s : State) : Nat := s.cbs.countP fun c => c.sent && !c.answered

/-- A permit is taken with room left by the permits out and the exposed callbacks without one. -/
def permits_held (s : State) : Ev → Bool
  | .callback _ (.acquire _) => decide (s.cbs.countP (Callback.charged s.negotiated) < s.callback_limit)
  | _ => true

/-- It has no ID yet. -/
def CbPhase.unnumbered : CbPhase → Bool
  | .entered | .admitted | .ordered => true
  | _ => false

/-- The call has its permit as a local. -/
def CbPhase.inside : CbPhase → Bool
  | .admitted | .ordered | .registered | .checked | .waiting => true
  | _ => false

/-! ## One callback -/

section

variable {env : CbEnv} {c d : Callback} {ev : CbEv}

/-- What a callback's own record keeps. -/
structure Callback.Kept (c : Callback) : Prop where
  permit : c.phase.inside = true → c.permit = true
  parked : c.parked = true → c.phase = .done
  sent : c.sent = true → c.phase = .waiting ∨ c.phase = .done
  unnumbered : c.phase.unnumbered = true → c.pending = false ∧ c.answered = false

section

variable (h : c.Kept) (hn : c.next env ev = some d)

include h hn

theorem Callback.next_inside (hd : d.phase.inside) : d.permit := by
  have := h.permit
  cases ev <;> simp only [Callback.next] at hn
  all_goals grind [Callback.leave, Callback.abandon_call, CbPhase.inside]

theorem Callback.next_parked (hd : d.parked) : d.phase = .done := by
  have := h.parked
  cases ev <;> simp only [Callback.next] at hn
  all_goals grind [Callback.leave, Callback.abandon_call]

theorem Callback.next_waits (hd : d.sent) : d.phase = .waiting ∨ d.phase = .done := by
  have := h.sent
  cases ev <;> simp only [Callback.next] at hn
  all_goals grind [Callback.leave, Callback.abandon_call]

theorem Callback.next_unnumbered (hd : d.phase.unnumbered) : d.pending = false ∧ d.answered = false := by
  have := h.unnumbered
  cases ev <;> simp only [Callback.next] at hn
  all_goals grind [Callback.leave, Callback.abandon_call, CbPhase.unnumbered]

theorem Callback.Kept.next : d.Kept where
  permit := Callback.next_inside h hn
  parked := Callback.next_parked h hn
  sent := Callback.next_waits h hn
  unnumbered := Callback.next_unnumbered h hn

end

theorem Callback.next_negotiated (h : c.next env ev = some d) :
    (∀ ms, ev ≠ .acquire ms) ∧ d.negotiated = c.negotiated ∨ d.negotiated = env.negotiated := by
  cases ev <;> simp only [Callback.next] at h
  all_goals grind [Callback.leave, Callback.abandon_call]

theorem Callback.next_admitted (h : c.next env ev = some d) (hd : d.phase.inside) :
    c.phase.inside ∨ ∃ ms, ev = .acquire ms := by
  cases ev <;> simp only [Callback.next] at h
  all_goals grind [Callback.leave, Callback.abandon_call, CbPhase.inside]

theorem Callback.next_exposed (h : c.next env ev = some d) (hd : d.exposed) :
    c.exposed ∨ ev = .check ∧ env.token = false ∧ c.phase.inside := by
  cases ev <;> simp only [Callback.next] at h
  all_goals grind [Callback.leave, Callback.abandon_call, Callback.exposed, CbPhase.inside]

theorem Callback.next_permit (h : c.next env ev = some d) (hd : d.permit) :
    c.permit ∧ d.negotiated = c.negotiated ∨ ∃ ms, ev = .acquire ms := by
  cases ev <;> simp only [Callback.next] at h
  all_goals grind [Callback.leave, Callback.abandon_call]

theorem Callback.next_check (h : c.next env .check = some d) : env.token = false := by
  simp only [Callback.next] at h
  split at h
  · rename_i hc
    exact hc.2
  · cases h

end

/-- What the session does to a callback's record: `fail_all` and `deliver`. -/
structure Callback.Settles (c d : Callback) : Prop where
  phase : d.phase = c.phase
  parent : d.parent = c.parent
  method : d.method = c.method
  id : d.id = c.id
  sent : d.sent = c.sent
  negotiated : d.negotiated = c.negotiated
  permit : d.permit = true → c.permit = true
  kept : c.Kept → d.Kept
  answered : c.answered = true → d.answered = true

theorem settles_fail (c : Callback) : c.Settles c.fail where
  phase := rfl
  parent := rfl
  method := rfl
  id := rfl
  sent := rfl
  negotiated := rfl
  permit := fun h => (Bool.and_eq_true _ _ ▸ h).1
  kept := fun h => ⟨fun hp => by
    have hr : c.parked = false := by
      cases hc : c.parked
      · rfl
      · rw [show c.fail.phase = c.phase from rfl, h.parked hc] at hp
        cases hp
    show (c.permit && !c.parked)
    rw [h.permit hp, hr]
    rfl, fun hp => (nomatch hp), h.sent, fun hp => ⟨rfl, (h.unnumbered hp).2⟩⟩
  answered := id

theorem settles_deliver_pending (id : RequestId) (c : Callback) : c.Settles (c.deliver_pending id) := by
  unfold Callback.deliver_pending
  split
  · rename_i hp
    refine ⟨rfl, rfl, rfl, rfl, rfl, rfl, fun h => h, fun h => ⟨h.permit, h.parked, h.sent, fun hu => ?_⟩, fun _ => rfl⟩
    simp only [(h.unnumbered hu).1, Bool.false_and] at hp
    cases hp
  · exact ⟨rfl, rfl, rfl, rfl, rfl, rfl, fun h => h, fun h => h, fun h => h⟩

theorem settles_deliver_parked (id : RequestId) (c : Callback) : c.Settles (c.deliver_parked id) := by
  unfold Callback.deliver_parked
  split
  · rename_i hp
    simp only [Bool.and_eq_true] at hp
    refine ⟨rfl, rfl, rfl, rfl, rfl, rfl, fun h => (nomatch h), fun h => ⟨fun ha => ?_, fun h => (nomatch h), h.sent,
      fun hu => ?_⟩, fun _ => rfl⟩
    · rw [show ({ c with parked := false, permit := false, answered := true } : Callback).phase = c.phase from rfl,
        h.parked hp.1] at ha
      cases ha
    · rw [show ({ c with parked := false, permit := false, answered := true } : Callback).phase = c.phase from rfl,
        h.parked hp.1] at hu
      cases hu
  · exact ⟨rfl, rfl, rfl, rfl, rfl, rfl, fun h => h, fun h => h, fun h => h⟩

theorem Callback.Settles.exposed {c d : Callback} (h : c.Settles d) (hd : d.exposed) : c.exposed := by
  have h1 := h.answered
  simp only [Callback.exposed, h.sent, h.phase, Bool.or_eq_true, Bool.and_eq_true, Bool.not_eq_true'] at hd ⊢
  refine hd.imp (fun hd => ⟨hd.1, ?_⟩) fun hd => hd
  cases hc : c.answered
  · rfl
  · rw [h1 hc] at hd
    cases hd.2

theorem Callback.Settles.charged {c d : Callback} {n : Bool} (h : c.Settles d) (hd : d.charged n) :
    c.charged n := by
  simp only [Callback.charged, Callback.holds, h.negotiated, Bool.or_eq_true, Bool.and_eq_true] at hd ⊢
  exact hd.imp (fun hd => ⟨h.permit hd.1, hd.2⟩) h.exposed

/-! ## The invariant -/

structure PermitInv (s : State) : Prop where
  kept : ∀ c ∈ s.cbs, c.Kept
  charged : s.cbs.countP (Callback.charged s.negotiated) ≤ s.callback_limit
  /-- Before the first request only `rpc.initialize` calls back. -/
  idle : s.accepted = [] → s.cbs.countP Callback.exposed ≤ 1
  one : 1 ≤ s.selected
  negotiated : s.negotiated = s.initialized
  accepted : s.initialized = false → s.accepted = []
  generation : s.negotiated = false → ∀ c ∈ s.cbs, c.negotiated = false
  parent : ∀ c ∈ s.cbs, c.parent ∈ s.accepted ∨ s.init_request = some c.parent
  opening : s.loop.opening = true → s.initialized = false
  unasked : s.initialized = false → s.loop.returns = true → s.init_request = none
  handler : ∀ id, s.loop = .initializing id → s.init_request = some id
  /-- The outcome of `rpc.initialize` cancels its token. -/
  token : s.initialized = true ∨ s.loop.decided = true → ∀ id, s.init_request = some id → s.cancelled id = true
  /-- A callback with a permit of the replaced semaphore can pass no check. -/
  replaced : s.negotiated = true → ∀ c ∈ s.cbs, c.phase.inside = true → c.negotiated = false →
    s.cancelled c.parent = true

theorem PermitInv.init : PermitInv {} where
  kept := nofun
  charged := Nat.zero_le _
  idle := fun _ => Nat.zero_le _
  one := Nat.le_refl _
  negotiated := rfl
  accepted := fun _ => rfl
  generation := nofun
  parent := nofun
  opening := nofun
  unasked := fun _ _ => rfl
  handler := nofun
  token := nofun
  replaced := nofun

variable {cfg : Config} {s t : State}

theorem PermitInv.exposed_le (h : PermitInv s) : s.cbs.countP Callback.exposed ≤ s.callback_limit :=
  Nat.le_trans (List.countP_mono_left fun _ _ he => Bool.or_eq_true_iff.mpr (.inr he)) h.charged

/-- A step that takes no offer, passes no check and takes no permit. -/
theorem PermitInv.of (h : PermitInv s) (f : Callback → Callback) (hf : ∀ c, Callback.Settles c (f c))
    (hb : t.cbs = s.cbs.map f) (hg : t.negotiated = s.negotiated) (hin : t.initialized = s.initialized)
    (hl : t.selected = s.selected ∨ s.initialized = false ∧ 1 ≤ t.selected)
    (hac : ∀ p ∈ s.accepted, p ∈ t.accepted) (hfr : t.initialized = false → t.accepted = [])
    (hq : t.init_request = s.init_request) (hcn : ∀ p, s.cancelled p → t.cancelled p)
    (hop : t.loop.opening → s.loop.opening)
    (ht : t.loop.returns → s.loop.returns)
    (hhn : ∀ id, t.loop = .initializing id → s.loop = .initializing id)
    (hk : t.loop.decided → ∀ id, s.init_request = some id → t.cancelled id) : PermitInv t := by
  have hm : t.callback_limit = s.callback_limit := by
    unfold State.callback_limit
    rcases hl with hs | ⟨hs, -⟩
    · rw [hg, hs]
    · rw [hg, h.negotiated, hs]
      rfl
  have hmm : ∀ c ∈ t.cbs, ∃ c0 ∈ s.cbs, f c0 = c := fun c hc => List.mem_map.mp (hb ▸ hc)
  refine ⟨fun c hc => ?_, ?_, fun ha => ?_, ?_, ?_, hfr, fun hn c hc => ?_, fun c hc => ?_,
    fun ho => hin.trans (h.opening (hop ho)), fun hi hr => ?_, fun id hd => ?_,
    fun hi id hd => ?_, fun hn c hc hp hc0 => ?_⟩
  · obtain ⟨c0, hc0, rfl⟩ := hmm c hc
    exact (hf c0).kept (h.kept c0 hc0)
  · rw [hb, hg, hm]
    exact Nat.le_trans (countP_map_le fun c _ hc => (hf c).charged hc) h.charged
  · rw [hb]
    refine Nat.le_trans (countP_map_le fun c _ hc => (hf c).exposed hc) (h.idle ?_)
    exact List.eq_nil_iff_forall_not_mem.mpr fun p hp => List.not_mem_nil (ha ▸ hac p hp)
  · exact hl.elim (fun hs => hs ▸ h.one) (fun hs => hs.2)
  · rw [hg, hin]
    exact h.negotiated
  · obtain ⟨c0, hc0, rfl⟩ := hmm c hc
    exact (hf c0).negotiated.trans (h.generation (hg ▸ hn) c0 hc0)
  · obtain ⟨c0, hc0, rfl⟩ := hmm c hc
    rw [(hf c0).parent, hq]
    exact (h.parent c0 hc0).imp (hac _) id
  · rw [hq]
    exact h.unasked (hin ▸ hi) (ht hr)
  · rw [hq]
    exact h.handler id (hhn id hd)
  · rw [hq] at hd
    rcases hi with hi | hi
    · exact hcn id (h.token (.inl (hin ▸ hi)) id hd)
    · exact hk hi id hd
  · obtain ⟨c0, hc0', rfl⟩ := hmm c hc
    rw [(hf c0).parent]
    rw [(hf c0).phase] at hp
    rw [(hf c0).negotiated] at hc0
    exact hcn _ (h.replaced (hg ▸ hn) c0 hc0' hp hc0)

theorem Loop.opening_of_decided {l : Loop} (h : l.decided) : l.opening := by
  cases l <;> simp_all [Loop.opening, Loop.decided]

theorem Loop.not_decided_of_reads {l : Loop} (h : l.reads) : l.decided = false := by
  cases l <;> simp_all [Loop.reads, Loop.decided]

theorem settles_refl (c : Callback) : c.Settles c :=
  ⟨rfl, rfl, rfl, rfl, rfl, rfl, id, id, id⟩

section

variable (h : PermitInv s)

include h

/-- A step that leaves the callbacks alone. -/
theorem PermitInv.keep (hc : t.cbs = s.cbs) (hn : t.negotiated = s.negotiated)
    (hin : t.initialized = s.initialized) (hs : t.selected = s.selected ∨ s.initialized = false ∧ 1 ≤ t.selected)
    (ha : t.accepted = s.accepted) (hr : t.init_request = s.init_request) (hcn : ∀ p, s.cancelled p → t.cancelled p)
    (ho : t.loop.opening → s.loop.opening) (ht : t.loop.returns → s.loop.returns)
    (hhn : ∀ id, t.loop = .initializing id → s.loop = .initializing id)
    (hk : t.loop.decided → ∀ id, s.init_request = some id → t.cancelled id) : PermitInv t :=
  h.of (fun c => c) settles_refl (by rw [hc, List.map_id']) hn hin hs (fun _ hp => ha ▸ hp)
    (fun hi => ha.trans (h.accepted (hin ▸ hi))) hr hcn ho ht hhn hk

/-- A step that leaves the callbacks alone, to a loop state outside `rpc.initialize`. -/
theorem PermitInv.plain (hc : t.cbs = s.cbs) (hn : t.negotiated = s.negotiated)
    (hi : t.initialized = s.initialized) (hs : t.selected = s.selected ∨ s.initialized = false ∧ 1 ≤ t.selected)
    (ha : t.accepted = s.accepted) (hr : t.init_request = s.init_request)
    (hcn : ∀ p, s.cancelled p → t.cancelled p) (hp : t.loop.opening = false)
    (ht : t.loop.returns → s.loop.returns) : PermitInv t := by
  refine h.keep hc hn hi hs ha hr hcn (fun ho => ?_) ht (fun id hl => ?_) fun hd => ?_
  · rw [hp] at ho
    cases ho
  · rw [hl] at hp
    cases hp
  · rw [Loop.opening_of_decided hd] at hp
    cases hp

theorem PermitInv.close (last : Option RequestId) (gone : RequestId → Bool) (drained : Bool) :
    PermitInv (close { s with
      last_seen_id := last, cancelled := fun q => s.cancelled q || gone q, drained := drained }) := by
  refine h.of Callback.fail settles_fail rfl rfl rfl (.inl rfl) (fun _ hp => hp) h.accepted rfl (fun p hp => ?_)
    nofun nofun nofun nofun
  simp only [Server.close, hp, Bool.true_or]

theorem PermitInv.deliver {id : RequestId} (hl : s.loop.reads) (hd : deliver s id = some t) : PermitInv t := by
  have hlp : s.loop.decided → False := fun hc => by
    rw [Loop.not_decided_of_reads hl] at hc
    cases hc
  rcases deliver_eq hd with rfl | rfl
  · exact h.of _ (settles_deliver_pending id) rfl rfl rfl (.inl rfl) (fun _ hp => hp) h.accepted rfl (fun _ hp => hp)
      (fun hl => hl) (fun hl => hl) (fun _ hl => hl) fun hl => (hlp hl).elim
  · exact h.of _ (settles_deliver_parked id) rfl rfl rfl (.inl rfl) (fun _ hp => hp) h.accepted rfl (fun _ hp => hp)
      (fun hl => hl) (fun hl => hl) (fun _ hl => hl) fun hl => (hlp hl).elim

/-- The negotiated semaphore has every permit left; what is exposed was counted before. -/
theorem PermitInv.negotiate {b : Body} (hl : s.loop = .init_sent b) :
    PermitInv { s with loop := .reading, initialized := true, negotiated := true } := by
  have hi : s.initialized = false := h.opening (by rw [hl]; rfl)
  have hn : s.negotiated = false := h.negotiated.trans hi
  have ht := h.token (.inr (by rw [hl]; rfl))
  refine ⟨h.kept, ?_, h.idle, h.one, rfl, nofun, nofun, h.parent,
    nofun, nofun, nofun, fun _ => ht, fun _ c hc _ _ => ?_⟩
  · have hle : s.cbs.countP (Callback.charged true) ≤ s.cbs.countP Callback.exposed :=
      List.countP_mono_left fun c hc hch => by
        rw [Callback.charged, Callback.holds, h.generation hn c hc] at hch
        simpa using hch
    have ho := h.exposed_le
    have h1 := h.one
    rw [State.callback_limit, hn] at ho
    exact Nat.le_trans hle (Nat.le_trans ho h1)
  · rcases h.parent c hc with hp | hp
    · rw [h.accepted hi] at hp
      cases hp
    · exact ht c.parent hp

theorem PermitInv.offer {id selected : Nat} {m : List String} (hl : s.loop = .reading)
    (hi : s.initialized = false) (hs : 1 ≤ selected) :
    PermitInv { s with
      last_seen_id := some id, selected := selected, client_methods := m
      loop := .initializing id, init_request := some id } := by
  have hn : s.negotiated = false := h.negotiated.trans hi
  have hnn : s.init_request = none := h.unasked hi (by rw [hl]; rfl)
  refine ⟨h.kept, ?_, h.idle, hs, h.negotiated, h.accepted, h.generation, fun c hc => ?_, fun _ => hi,
    nofun, fun id hl => ?_, fun ht id hd => ?_, h.replaced⟩
  · have hc := h.charged
    rw [State.callback_limit, hn] at hc
    rw [State.callback_limit, hn]
    exact hc
  · rcases h.parent c hc with hp | hp
    · exact .inl hp
    · rw [hnn] at hp
      cases hp
  · cases hl
    rfl
  · rcases ht with ht | ht
    · rw [show s.initialized from ht] at hi
      cases hi
    · cases ht

theorem PermitInv.move {e : SessionEv} (hs : session_step cfg s e = some t) : PermitInv t := by
  cases session_step_move hs with
  | stay => exact h
  | answer last selected m r g id b done lost hl hls hrs hid hst ho hn =>
    refine h.plain rfl rfl rfl ?_ rfl rfl (fun p hp => ?_) rfl fun hr => ?_
    · rcases ho with ⟨hs, -⟩ | ⟨-, hi, hon, -⟩
      · exact .inl hs
      · exact .inr ⟨hi, hon⟩
    · simp only [hp, Bool.true_or]
    · rcases hn with hl | ⟨rfl, rfl⟩
      · rw [hl]
        rfl
      · cases hr
  | close last g => exact h.close last g s.drained
  | drain id =>
    have hc := h.close s.last_seen_id (fun _ => false) true
    simp only [Bool.or_false] at hc
    exact hc
  | deliver id u hl hd => exact h.deliver hl hd
  | cancel id hl =>
    refine h.keep rfl rfl rfl (.inl rfl) rfl rfl (fun p hp => ?_) (fun hl => hl) (fun hl => hl) (fun _ hl => hl)
      fun hd => ?_
    · simp only [Server.cancel, hp, Bool.true_or]
    · rw [show (Server.cancel s id).loop = s.loop from rfl, Loop.not_decided_of_reads hl] at hd
      cases hd
  | offer id selected m hl hi hf hsl => exact h.offer hl hi hsl
  | shutdown id hl =>
    exact h.plain rfl rfl rfl (.inl rfl) rfl rfl (fun p hp => hp) (by rw [hl]; rfl) fun hr => hr
  | accept id hl hi =>
    refine h.of (fun c => c) settles_refl (by rw [List.map_id']; rfl) rfl rfl (.inl rfl)
      (fun _ hp => List.mem_append_left _ hp) (fun ht => ?_) rfl (fun _ hp => hp) (fun hl => hl) (fun hl => hl)
      (fun _ hl => hl) fun hd => ?_
    · rw [show s.initialized = false from ht] at hi
      cases hi
    · rw [show (Server.accept { s with last_seen_id := some id } id).loop = .reading from hl] at hd
      cases hd
  | push id b done lost hl =>
    refine h.plain rfl rfl rfl (.inl rfl) rfl rfl (fun p hp => hp) rfl fun hr => ?_
    rw [hl]
    cases done <;> cases lost <;> first | rfl | cases hr
  | push_init id b hl =>
    exact h.keep rfl rfl rfl (.inl rfl) rfl rfl (fun p hp => hp) (fun _ => by rw [hl]; rfl) nofun
      nofun fun _ => h.token (.inr (by rw [hl]; rfl))
  | resume hl he =>
    refine h.plain rfl rfl rfl (.inl rfl) rfl rfl (fun p hp => hp) rfl fun _ => ?_
    rw [Loop.returns, he]
    rcases hl with ⟨_, _, _, _, hl⟩ | ⟨_, _, hl⟩ <;> rw [hl] <;> rfl
  | negotiate b hl => exact h.negotiate hl
  | decide id b hl =>
    refine h.keep rfl rfl rfl (.inl rfl) rfl rfl (fun p hp => ?_) (fun _ => by rw [hl]; rfl) nofun
      nofun fun _ q hq => ?_
    · simp only [Server.cancel, hp, Bool.true_or]
    · rw [h.handler id hl] at hq
      simp only [Server.cancel, Option.some.inj hq, beq_self_eq_true, Bool.or_true]
  | decided id hl hc =>
    refine h.keep rfl rfl rfl (.inl rfl) rfl rfl (fun p hp => hp) (fun _ => by rw [hl]; rfl) nofun
      nofun fun _ q hq => ?_
    rw [h.handler id hl] at hq
    exact Option.some.inj hq ▸ hc
  | reap p hl =>
    exact h.plain rfl rfl rfl (.inl rfl) rfl rfl (fun p hp => hp) (by rw [hl]; rfl) id
  | joined | shutdown_reply
  | shutdown_skip => exact h.plain rfl rfl rfl (.inl rfl) rfl rfl (fun p hp => hp) rfl nofun

/-- A step of one callback raises no charge, but for the permit it takes. -/
theorem PermitInv.next_charged {c d : Callback} {ev : CbEv} (hc : c ∈ s.cbs)
    (hn : c.next (cb_env cfg s c) ev = some d) (ha : ∀ ms, ev ≠ .acquire ms) (hd : d.charged s.negotiated) :
    c.charged s.negotiated := by
  rw [Callback.charged, Bool.or_eq_true] at hd ⊢
  rcases hd with hd | hd
  · simp only [Callback.holds, Bool.and_eq_true] at hd ⊢
    rcases Callback.next_permit hn hd.1 with ⟨hp, hg⟩ | ⟨ms, hm⟩
    · exact .inl ⟨hp, hg ▸ hd.2⟩
    · exact absurd hm (ha ms)
  · rcases Callback.next_exposed hn hd with he | ⟨rfl, ht, hi⟩
    · exact .inr he
    · refine .inl ?_
      have hgn : c.negotiated = s.negotiated := by
        cases hng : s.negotiated
        · exact h.generation hng c hc
        · cases hg : c.negotiated
          · have hcn := h.replaced hng c hc hi hg
            rw [show s.cancelled c.parent = false from ht] at hcn
            cases hcn
          · rfl
      simp only [Callback.holds, (h.kept c hc).permit hi, hgn, beq_self_eq_true, Bool.and_self]

theorem PermitInv.with_callback {k : Nat} {c d : Callback} {ev : CbEv} (hk : s.cbs[k]? = some c)
    (hn : c.next (cb_env cfg s c) ev = some d) (hg : permits_held s (.callback k ev)) :
    PermitInv (with_callback s k ev d) := by
  have hc : c ∈ s.cbs := List.mem_of_getElem? hk
  have hs : ∀ c' ∈ s.cbs.set k d, c' ∈ s.cbs ∨ c' = d := fun c' hc' => List.mem_or_eq_of_mem_set hc'
  have hch : (s.cbs.set k d).countP (Callback.charged s.negotiated) ≤ s.callback_limit := by
    by_cases hac : ∃ ms, ev = .acquire ms
    · obtain ⟨ms, rfl⟩ := hac
      exact Nat.le_trans (countP_set_succ hk) (of_decide_eq_true hg)
    · exact Nat.le_trans (countP_set_le hk (h.next_charged hc hn fun ms he => hac ⟨ms, he⟩)) h.charged
  refine ⟨fun c' hc' => ?_, hch, fun ha => ?_, h.one, h.negotiated, h.accepted, fun hng c' hc' => ?_,
    fun c' hc' => ?_, h.opening, h.unasked, h.handler, h.token, fun hng c' hc' hin hold => ?_⟩
  · rcases hs c' hc' with hc' | rfl
    · exact h.kept c' hc'
    · exact (h.kept c hc).next hn
  · by_cases hcc : ev = .check
    · -- Its request can only be `rpc.initialize`, whose token still stands.
      subst hcc
      have hng : s.negotiated = false := by
        rw [h.negotiated]
        cases hi : s.initialized
        · rfl
        · have hp : s.init_request = some c.parent := (h.parent c hc).resolve_left (by
            rw [show s.accepted = [] from ha]
            exact List.not_mem_nil)
          have hcn := h.token (.inl hi) c.parent hp
          rw [show s.cancelled c.parent = false from Callback.next_check hn] at hcn
          cases hcn
      rw [State.callback_limit, hng] at hch
      exact Nat.le_trans (List.countP_mono_left fun _ _ he => Bool.or_eq_true_iff.mpr (.inr he)) hch
    · refine Nat.le_trans (countP_set_le hk fun hd => ?_) (h.idle ha)
      exact (Callback.next_exposed hn hd).resolve_right fun he => hcc he.1
  · rcases hs c' hc' with hc' | rfl
    · exact h.generation hng c' hc'
    · rcases Callback.next_negotiated hn with ⟨-, hd⟩ | hd
      · exact hd.trans (h.generation hng c hc)
      · exact hd.trans hng
  · rcases hs c' hc' with hc' | rfl
    · exact h.parent c' hc'
    · rw [Callback.next_parent hn]
      exact h.parent c hc
  · rcases hs c' hc' with hc' | rfl
    · exact h.replaced hng c' hc' hin hold
    · rw [Callback.next_parent hn]
      rcases Callback.next_negotiated hn with ⟨hac, hd⟩ | hd
      · rcases Callback.next_admitted hn hin with hi' | ⟨ms, hm⟩
        · exact h.replaced hng c hc hi' (hd ▸ hold)
        · exact absurd hm (hac ms)
      · rw [hd, show (cb_env cfg s c).negotiated = s.negotiated from rfl, show s.negotiated from hng] at hold
        cases hold

theorem PermitInv.enter {parent : RequestId} {method : String} (hp : parent ∈ s.accepted ∨ s.init_request = some parent) :
    PermitInv { s with cbs := s.cbs ++ [{ parent := parent, method := method }] } := by
  have hn : ∀ c ∈ s.cbs ++ [({ parent := parent, method := method } : Callback)],
      c ∈ s.cbs ∨ c = { parent := parent, method := method } := fun c hc =>
    (List.mem_append.mp hc).imp id List.mem_singleton.mp
  have hcn : ∀ p : Callback → Bool, p { parent := parent, method := method } = false →
      (s.cbs ++ [({ parent := parent, method := method } : Callback)]).countP p = s.cbs.countP p := fun p hp => by
    rw [List.countP_append, List.countP_singleton, hp]
    rfl
  refine ⟨fun c hc => ?_, ?_, fun ha => ?_, h.one, h.negotiated, h.accepted, fun hg c hc => ?_, fun c hc => ?_,
    h.opening, h.unasked, h.handler, h.token, fun hg c hc hi hold => ?_⟩
  · rcases hn c hc with hc | rfl
    · exact h.kept c hc
    · exact ⟨nofun, nofun, nofun, fun _ => ⟨rfl, rfl⟩⟩
  · rw [hcn _ rfl]
    exact h.charged
  · rw [hcn _ rfl]
    exact h.idle ha
  · rcases hn c hc with hc | rfl
    · exact h.generation hg c hc
    · rfl
  · rcases hn c hc with hc | rfl
    · exact h.parent c hc
    · exact hp
  · rcases hn c hc with hc | rfl
    · exact h.replaced hg c hc hi hold
    · cases hi

theorem PermitInv.step {e : Ev} (hg : permits_held s e) (hs : step cfg s e = some t) : PermitInv t := by
  cases e with
  | session e => exact h.move hs
  | call p e =>
    obtain ⟨o, ho, rfl⟩ := call_step_spec hs
    refine h.keep rfl rfl rfl (.inl rfl) rfl rfl (fun q hq => ?_) id id (fun _ hl => hl)
      fun hd id hi => ?_
    · simp only [State.queue, with_call, hq, Bool.true_or]
    · simp only [State.queue, with_call, h.token (.inr hd) id hi, Bool.true_or]
  | enter parent m =>
    simp only [Server.step] at hs
    split at hs
    · rename_i hp
      cases hs
      exact h.enter hp.1
    · cases hs
  | callback k e =>
    obtain ⟨c, d, hk, hn, rfl⟩ := cb_step_spec hs
    have hm := h.with_callback hk hn hg
    exact ⟨hm.kept, hm.charged, hm.idle, hm.one, hm.negotiated, hm.accepted, hm.generation, hm.parent,
      hm.opening, hm.unasked, hm.handler, hm.token, hm.replaced⟩
  | take =>
    obtain ⟨-, -, ht, -⟩ := take_spec hs
    rw [ht]
    exact h.keep rfl rfl rfl (.inl rfl) rfl rfl (fun _ hq => hq) id id (fun _ hl => hl)
      fun hd => h.token (.inr hd)
  | writer_fail =>
    cases hs
    exact h.keep rfl rfl rfl (.inl rfl) rfl rfl (fun _ hq => hq) id id (fun _ hl => hl)
      fun hd => h.token (.inr hd)

end

theorem outstanding_le_exposed (s : State) : outstanding s ≤ s.cbs.countP Callback.exposed :=
  List.countP_mono_left fun _ _ he => Bool.or_eq_true_iff.mpr (.inl he)

/-- Outstanding callbacks stay within one before the first request, and within the selected
    limit after. -/
theorem PermitInv.outstanding_le (h : PermitInv s) :
    (s.accepted = [] → outstanding s ≤ 1) ∧ outstanding s ≤ s.selected := by
  refine ⟨fun ha => Nat.le_trans (outstanding_le_exposed s) (h.idle ha), Nat.le_trans (outstanding_le_exposed s) ?_⟩
  refine Nat.le_trans h.exposed_le ?_
  have := h.one
  unfold State.callback_limit
  split <;> omega

end Monosecret.Rpc.Server
