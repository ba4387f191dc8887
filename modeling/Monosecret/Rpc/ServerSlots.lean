/-
  Monosecret.Rpc.ServerSlots — the in-flight slots of a server session (`serve`, its writer
  task, `run_call`, `commit_application_before`).

  A slot is taken when the loop accepts a request. It moves from the handler's task to the
  queued response, and the writer gives it back before the first byte of that response goes
  out. So no more handlers run than there are slots. A task whose deadline or cancellation
  wins answers early and keeps its slot while the handler still runs; when no accepted
  request ends that way (`unhurried`), a slot is out only while its response is unwritten.
  The client, which counts the responses it waits for, is then never refused for capacity.

  The bytes of a frame are written after it is taken off the queue, and before the next one
  is: any number of frames up to `taken` may be the ones written.
-/

import Monosecret.Rpc.ServerInbox
import Monosecret.Rpc.ServerTerminal

namespace Monosecret.Rpc.Server

open Lib Machine

/-- The application handler of the request still runs. -/
def CallPhase.handling : CallPhase → Bool
  | .running | .ending _ | .joining => true
  | _ => false

/-- The application handlers that run. -/
def handlers (s : State) : Nat := s.accepted.countP fun p => (s.calls p).phase.handling

/-- Deadline or cancellation won over the handler's own outcome. -/
def CallPhase.hurried : CallPhase → Bool
  | .ending _ | .joining | .replacing _ => true
  | _ => false

/-- No accepted request is cancelled or passes its deadline. -/
def unhurried (_ : State) : Ev → Bool
  | .call _ .deadline | .call _ .cancelled => false
  | _ => true

/-- The accepted requests whose response is not among the first `written` frames. -/
def unwritten (s : State) (written : Nat) : Nat :=
  s.accepted.countP fun p => (s.log.take written).all fun f => f.ends != some p

/-- The request passes every check of `serve` that comes before the slot. -/
structure Admissible (cfg : Config) (s : State) (r : Request) (expired : Bool) : Prop where
  initialized : s.initialized = true
  fresh : seen s r.id = false
  open_ : s.shutdown_request = none
  application : is_application r.method = true
  advertised : cfg.capabilities.contains r.method = true
  in_time : expired = false

variable {cfg : Config} {s t : State}

/-! ## What a step does to the slots -/

/-- A step that takes no slot. -/
structure SlotsKept (s t : State) : Prop where
  accepted : t.accepted = s.accepted
  slot : ∀ p, (t.calls p).slot = true → (s.calls p).slot = true
  handling : ∀ p, (t.calls p).phase.handling = true → (s.calls p).phase.handling = true
  held : ∀ p, (t.calls p).phase.handling = true → (s.calls p).slot = true → (t.calls p).slot = true
  unborn : ∀ p, (t.calls p).phase = .unborn → (s.calls p).phase = .unborn

theorem SlotsKept.same (ha : t.accepted = s.accepted) (hc : t.calls = s.calls) : SlotsKept s t where
  accepted := ha
  slot := fun _ h => hc ▸ h
  handling := fun _ h => hc ▸ h
  held := fun _ _ h => hc ▸ h
  unborn := fun _ h => hc ▸ h

theorem CallTask.next_slot {e : CallEnv} {c : CallTask} {o : CallOut} {ev : CallEv} (h : c.next e ev = some o) :
    (o.task.slot → c.slot) ∧ (o.task.phase.handling → c.phase.handling) ∧
      (o.task.phase.handling → c.slot → o.task.slot) := by
  cases hp : c.phase <;> cases ev <;> simp [CallTask.next, hp, CallPhase.live] at h
  all_goals grind [CallPhase.handling]

variable {p : RequestId}

theorem call_step_kept {e : CallEv} (hs : call_step cfg s p e = some t) : SlotsKept s t := by
  obtain ⟨o, ho, rfl⟩ := call_step_spec hs
  obtain ⟨hl, hn, hhl⟩ := CallTask.next_slot ho
  have hc : ∀ q, (((with_call s p e o).queue (o.emit.map (ServerFrame.terminal p)).toList).calls q) =
      if q = p then o.task else s.calls q := fun q => rfl
  refine ⟨rfl, fun q h => ?_, fun q h => ?_, fun q h hq => ?_, fun q h => ?_⟩
  all_goals rw [hc] at *
  all_goals by_cases hp : q = p
  all_goals simp only [hp, if_true, if_false] at *
  · exact hl h
  · exact h
  · exact hn h
  · exact h
  · exact hhl h hq
  · exact hq
  · exact absurd h (CallTask.next_unborn ho)
  · exact h

/-- A slot is given back with the frame it came with, or with the whole queue. -/
theorem release_slot (c : CallTask) :
    ((release c).slot → c.slot) ∧ (c.phase.handling → (release c).slot = c.slot) := by
  unfold release
  cases hp : c.phase <;> simp [CallPhase.handling]

/-- The writer takes the next frame, and the slot of the response it is. -/
theorem take_frame (hs : step cfg s .take = some t) :
    ∃ f, s.log[s.taken]? = some f ∧
      ∀ q, t.calls q = if f.ends = some q then release (s.calls q) else s.calls q := by
  simp only [step] at hs
  split at hs
  · cases hs
  · split at hs
    · rename_i p b hf
      cases hs
      refine ⟨_, hf, fun q => ?_⟩
      by_cases hq : q = p
      · simp [ServerFrame.ends, hq]
      · have hn : p ≠ q := fun h => hq h.symm
        simp [ServerFrame.ends, hq, hn]
    · rename_i f ht hf
      cases hs
      refine ⟨f, hf, fun q => ?_⟩
      have he : f.ends ≠ some q := by
        cases f with
        | terminal p b => exact absurd rfl (ht p b)
        | _ => simp [ServerFrame.ends]
      rw [if_neg he]
    · cases hs

theorem take_calls (hs : step cfg s .take = some t) (p : RequestId) :
    t.calls p = s.calls p ∨ t.calls p = release (s.calls p) := by
  obtain ⟨f, -, hc⟩ := take_frame hs
  rw [hc]
  split
  · exact .inr rfl
  · exact .inl rfl

theorem SlotsKept.released (ha : t.accepted = s.accepted)
    (hl : ∀ p, t.calls p = s.calls p ∨ t.calls p = release (s.calls p)) : SlotsKept s t := by
  refine ⟨ha, fun p h => ?_, fun p h => ?_, fun p h hp => ?_, fun p h => ?_⟩
  all_goals rcases hl p with hc | hc
  all_goals rw [hc] at h
  · exact h
  · exact (release_slot _).1 h
  · exact h
  · exact release_phase (s.calls p) ▸ h
  · exact hc ▸ hp
  · rw [release_phase] at h
    rw [hc, (release_slot _).2 h]
    exact hp
  · exact h
  · exact release_phase (s.calls p) ▸ h

/-- The loop accepts a request while a slot is free. -/
structure Accepts (s t : State) (id : RequestId) : Prop where
  eq : t = accept { s with last_seen_id := some id } id
  reading : s.loop = .reading
  initialized : s.initialized = true
  fresh : seen s id = false
  free : s.slots < s.selected

theorem discover_accepted (s : State) (r : Request) (expired : Bool) :
    (discover cfg s r expired).accepted = s.accepted := by
  unfold discover
  split
  · rfl
  · split <;> rfl

variable {expired : Bool}

theorem dispatch_free {r : Request} (h : (dispatch cfg s r expired).accepted ≠ s.accepted) : s.slots < s.selected := by
  by_contra hf
  refine h ?_
  unfold dispatch
  split_ifs
  all_goals first
    | rfl
    | exact discover_accepted s r expired
    | omega

/-- A fresh request on an initialized session is dispatched. -/
theorem recv_dispatch {r : Request} (hi : s.initialized) (hf : seen s r.id = false) :
    recv cfg s (.request r) expired = dispatch cfg { s with last_seen_id := some r.id } r expired := by
  simp only [recv, handle_request, hf, Bool.false_eq_true, if_false]
  exact if_pos hi

theorem session_step_recv {frame : ClientFrame} (hl : s.loop = .reading)
    (hs : session_step cfg s (.recv frame expired) = some t) : t = recv cfg s frame expired := by
  unfold session_step at hs
  rw [hl] at hs
  exact (Option.some.inj hs).symm

theorem session_slots {e : SessionEv} (hs : session_step cfg s e = some t) :
    SlotsKept s t ∨ ∃ id, Accepts s t id := by
  cases session_step_move hs with
  | accept id hl hi hf hsh he =>
    obtain ⟨r, expired, rfl, rfl, -⟩ := he
    refine .inr ⟨r.id, rfl, hl, hi, hf, ?_⟩
    have ht := session_step_recv hl hs
    rw [recv_dispatch hi hf] at ht
    have hm : (dispatch cfg { s with last_seen_id := some r.id } r expired).accepted ≠ s.accepted := by
      rw [← ht]
      simp [accept]
    exact dispatch_free (s := { s with last_seen_id := some r.id }) hm
  | deliver id u hl hd => rcases deliver_eq hd with rfl | rfl <;> exact .inl (.same rfl rfl)
  | reap p hl hp =>
    refine .inl ⟨rfl, fun q h => ?_, fun q h => ?_, fun q h hq => ?_, fun q h => ?_⟩
    all_goals by_cases hqp : q = p
    all_goals simp only [hqp, if_true, if_false] at *
    all_goals first | assumption | cases h
  | _ => exact .inl (.same rfl rfl)

theorem step_slots {e : Ev} (hs : step cfg s e = some t) : SlotsKept s t ∨ ∃ id, Accepts s t id := by
  cases e with
  | session e => exact session_slots hs
  | call p e => exact .inl (call_step_kept hs)
  | enter parent m =>
    simp only [step] at hs
    cases of_guard hs
    exact .inl (.same rfl rfl)
  | callback k e =>
    obtain ⟨c, d, -, -, rfl⟩ := cb_step_spec hs
    exact .inl (.same rfl rfl)
  | take =>
    obtain ⟨-, -, ht, -⟩ := take_spec hs
    refine .inl (.released ?_ (take_calls hs))
    rw [ht]
  | writer_fail => exact Option.some.inj hs ▸ .inl (.released rfl fun _ => .inr rfl)

/-! ## The limit -/

theorem initialize_offer_selected (s : State) (r : Request) (expired : Bool) :
    (initialize_offer cfg s r expired).selected = s.selected ∨
      (initialize_offer cfg s r expired).selected ≤ cfg.max_in_flight := by
  unfold initialize_offer
  split
  · split
    · exact .inl rfl
    · dsimp only
      split <;> exact .inr (Nat.min_le_left _ _)
  · exact .inl rfl

theorem discover_selected (s : State) (r : Request) (expired : Bool) :
    (discover cfg s r expired).selected = s.selected := by
  unfold discover
  split
  · rfl
  · split <;> rfl

theorem handle_request_selected (s : State) (r : Request) (expired : Bool) :
    (handle_request cfg s r expired).selected = s.selected ∨
      (handle_request cfg s r expired).selected ≤ cfg.max_in_flight := by
  unfold handle_request
  split
  · exact .inl rfl
  · dsimp only
    split_ifs
    · refine .inl ?_
      unfold dispatch
      split_ifs
      all_goals first
        | rfl
        | exact discover_selected _ r expired
    · exact .inl (discover_selected _ r expired)
    · exact .inl rfl
    · exact initialize_offer_selected _ r expired

/-- What is selected stays within what the server offers. -/
theorem session_selected {e : SessionEv} (h : s.selected ≤ cfg.max_in_flight) (hs : session_step cfg s e = some t) :
    t.selected ≤ cfg.max_in_flight := by
  have ho : s.loop = .reading → (∃ q m, e.Offers q m) → t.selected ≤ cfg.max_in_flight := by
    rintro hl ⟨q, m, r, expired, pr, rfl, -⟩
    rw [session_step_recv hl hs]
    rcases @handle_request_selected cfg s r expired with hm | hle
    · exact Nat.le_trans (Nat.le_of_eq hm) h
    · exact hle
  cases session_step_move hs with
  | answer last selected m rs g id b done lost hl hls hr hid ht hc =>
    rcases hc with ⟨hm, -⟩ | ⟨hrd, -, -, q, he⟩
    · exact Nat.le_trans (Nat.le_of_eq hm) h
    · exact ho hrd ⟨q, m, he⟩
  | offer id selected m hl hi hf hsl he => exact ho hl ⟨id, m, he⟩
  | deliver id u hl hd => rcases deliver_eq hd with rfl | rfl <;> exact h
  | _ => exact h

theorem step_selected {e : Ev} (h : s.selected ≤ cfg.max_in_flight) (hs : step cfg s e = some t) :
    t.selected ≤ cfg.max_in_flight := by
  cases e with
  | session e => exact session_selected h hs
  | call p e =>
    obtain ⟨o, -, rfl⟩ := call_step_spec hs
    exact h
  | enter parent m =>
    simp only [step] at hs
    cases of_guard hs
    exact h
  | callback k e =>
    obtain ⟨c, d, -, -, rfl⟩ := cb_step_spec hs
    exact h
  | take =>
    obtain ⟨-, -, ht, -⟩ := take_spec hs
    rw [ht]
    exact h
  | writer_fail => exact Option.some.inj hs ▸ h

/-! ## The handlers -/

/-- IDs seen stay seen, a session stays initialized, and then its limit stands. -/
structure Onward (s t : State) : Prop where
  seen : ∀ p, seen s p = true → seen t p = true
  initialized : s.initialized = true → t.initialized = true
  selected : t.selected = s.selected ∨ s.initialized = false

theorem Onward.same (hl : t.last_seen_id = s.last_seen_id) (hn : t.initialized = s.initialized)
    (hs : t.selected = s.selected) : Onward s t where
  seen := fun _ hp => seen_mono (.inl hl) hp
  initialized := fun hi => hn.trans hi
  selected := .inl hs

theorem session_onward {e : SessionEv} (hs : session_step cfg s e = some t) : Onward s t := by
  cases session_step_move hs with
  | answer last selected m r g id b done lost hl hls hr hid ht ho =>
    exact ⟨fun _ hp => seen_mono hls hp, fun hi => hi, ho.imp And.left fun h => h.2.1⟩
  | close last g hl hls => exact ⟨fun _ hp => seen_mono hls hp, id, .inl rfl⟩
  | offer id selected m hl hi hf => exact ⟨fun _ hp => seen_mono (.inr ⟨_, rfl, hf⟩) hp, fun hi => hi, .inr hi⟩
  | shutdown id hl hi hf
  | accept id hl hi hf => exact ⟨fun _ hp => seen_mono (.inr ⟨_, rfl, hf⟩) hp, fun hi => hi, .inl rfl⟩
  | negotiate b hl => exact ⟨fun _ hp => hp, fun _ => rfl, .inl rfl⟩
  | deliver id u hl hd => rcases deliver_eq hd with rfl | rfl <;> exact .same rfl rfl rfl
  | _ => exact .same rfl rfl rfl

theorem step_onward {e : Ev} (hs : step cfg s e = some t) : Onward s t := by
  cases e with
  | session e => exact session_onward hs
  | call p e =>
    obtain ⟨o, -, rfl⟩ := call_step_spec hs
    exact .same rfl rfl rfl
  | enter parent m =>
    simp only [step] at hs
    cases of_guard hs
    exact .same rfl rfl rfl
  | callback k e =>
    obtain ⟨c, d, -, -, rfl⟩ := cb_step_spec hs
    exact .same rfl rfl rfl
  | take =>
    obtain ⟨-, -, ht, -⟩ := take_spec hs
    rw [ht]
    exact .same rfl rfl rfl
  | writer_fail => exact Option.some.inj hs ▸ .same rfl rfl rfl

structure SlotInv (cfg : Config) (s : State) : Prop where
  seen : ∀ p ∈ s.accepted, Server.seen s p = true
  bound : s.slots ≤ s.selected
  early : s.initialized = false → s.accepted = []
  held : ∀ p, (s.calls p).phase.handling = true → (s.calls p).slot = true
  unborn : ∀ p, (s.calls p).phase = .unborn → (s.calls p).slot = false
  offered : s.selected ≤ cfg.max_in_flight

theorem SlotInv.init : SlotInv cfg {} where
  seen := nofun
  bound := Nat.zero_le 1
  early := fun _ => rfl
  held := nofun
  unborn := fun _ _ => rfl
  offered := cfg.in_range.1

theorem SlotsKept.slots_le (h : SlotsKept s t) : t.slots ≤ s.slots := by
  unfold State.slots
  rw [h.accepted]
  exact List.countP_mono_left fun p _ hp => h.slot p hp

theorem slots_accept {id : RequestId} (hn : id ∉ s.accepted) :
    (accept { s with last_seen_id := some id } id).slots = s.slots + 1 := by
  have hold : s.accepted.countP (fun p => (if p = id then (⟨.running, true⟩ : CallTask) else s.calls p).slot) =
      s.accepted.countP fun p => (s.calls p).slot := by
    refine List.countP_congr fun p hp => ?_
    have hne : p ≠ id := fun he => hn (he ▸ hp)
    rw [if_neg hne]
  simp only [State.slots, accept, List.countP_append, hold, List.countP_singleton, if_true]

theorem SlotInv.step {e : Ev} (h : SlotInv cfg s) (hs : step cfg s e = some t) : SlotInv cfg t := by
  have ho := step_onward hs
  have hof := step_selected h.offered hs
  rcases step_slots hs with hk | ⟨id, he, hl, hi, hf, hr⟩
  · have hb : t.slots ≤ t.selected := by
      rcases ho.selected with hm | hi
      · have := hk.slots_le
        have := h.bound
        omega
      · have hn : t.slots = 0 := by
          unfold State.slots
          rw [hk.accepted, h.early hi]
          rfl
        omega
    refine ⟨fun p hp => ho.seen p (h.seen p (hk.accepted ▸ hp)), hb, fun hi => ?_, fun p hp => ?_, fun p hp => ?_,
      hof⟩
    · rw [hk.accepted]
      refine h.early ?_
      cases hsi : s.initialized
      · rfl
      · exact absurd (ho.initialized hsi) (by rw [hi]; exact Bool.false_ne_true)
    · exact hk.held p hp (h.held p (hk.handling p hp))
    · cases hsl : (t.calls p).slot
      · rfl
      · have := h.unborn p (hk.unborn p hp)
        rw [hk.slot p hsl] at this
        cases this
  · have hw : id ∉ s.accepted := fun hd => by
      rw [h.seen id hd] at hf
      cases hf
    subst he
    refine ⟨fun p hp => ?_, ?_, fun ht => ?_, fun p hp => ?_, fun p hp => ?_, hof⟩
    · rcases List.mem_append.mp hp with hp | hp
      · exact ho.seen p (h.seen p hp)
      · rw [List.mem_singleton.mp hp]
        exact seen_last rfl
    · rw [slots_accept hw]
      exact hr
    · rw [show s.initialized = false from ht] at hi
      cases hi
    · by_cases hpd : p = id
      · simp [accept, hpd]
      · simp only [accept, hpd, if_false] at hp ⊢
        exact h.held p hp
    · by_cases hpd : p = id
      · simp [accept, hpd] at hp
      · simp only [accept, hpd, if_false] at hp ⊢
        exact h.unborn p hp

theorem handlers_le_slots (h : SlotInv cfg s) : handlers s ≤ s.slots :=
  List.countP_mono_left fun p _ hp => h.held p hp

/-! ## Slots and unwritten responses -/

/-- A response of `p` was taken off the queue. -/
def taken_terminal (s : State) (p : RequestId) : Prop := ∃ f ∈ s.log.take s.taken, f.ends = some p

structure QueueInv (s : State) : Prop where
  calm : ∀ p, (s.calls p).phase.hurried = false
  within : s.taken ≤ s.log.length
  /-- The slot comes back with the response. -/
  held : s.reused = false → ∀ p, (s.calls p).slot = true → ¬ taken_terminal s p

theorem QueueInv.init : QueueInv {} where
  calm := fun _ => rfl
  within := Nat.le_refl 0
  held := nofun

theorem responses_pos {log : List ServerFrame} {f : ServerFrame} (hf : f ∈ log) (he : f.ends = some p) :
    0 < responses log p := by
  refine List.countP_pos_iff.mpr ⟨f, hf, ?_⟩
  cases f <;> simp_all [ServerFrame.ends, ServerFrame.response_id]

/-- A call that was not hurried ends only through its handler's outcome. -/
theorem CallTask.next_calm {e : CallEnv} {c : CallTask} {o : CallOut} {ev : CallEv} (h : c.next e ev = some o)
    (hc : c.phase.hurried = false) (hd : ev ≠ .deadline) (hn : ev ≠ .cancelled) : o.task.phase.hurried = false := by
  cases hp : c.phase <;> cases ev <;> simp [CallTask.next, hp, CallPhase.live] at h
  all_goals grind [CallPhase.hurried]

/-- Frames are queued; a slot is taken only for a request without a response. -/
theorem QueueInv.grow {m : List ServerFrame} (h : QueueInv s) (hl : t.log = s.log ++ m) (ht : t.taken = s.taken)
    (hs : s.reused → t.reused) (hc : ∀ p, (t.calls p).phase.hurried = false)
    (hsl : ∀ p, (t.calls p).slot → (s.calls p).slot ∨ responses s.log p = 0) : QueueInv t := by
  refine ⟨hc, ?_, fun hr p hp htr => ?_⟩
  · rw [hl, ht, List.length_append]
    exact Nat.le_trans h.within (Nat.le_add_right _ _)
  · obtain ⟨f, hf, he⟩ := htr
    rw [hl, ht, List.take_append_of_le_length h.within] at hf
    rcases hsl p hp with hp | hn
    · refine h.held ?_ p hp ⟨f, hf, he⟩
      cases hsr : s.reused
      · rfl
      · rw [hs hsr] at hr
        cases hr
    · have := responses_pos (List.mem_of_mem_take hf) he
      omega

theorem QueueInv.session {e : SessionEv} (h : QueueInv s) (ho : OnceInv s) (hs : session_step cfg s e = some t) :
    QueueInv t := by
  have hn : s.log = s.log ++ [] := (List.append_nil _).symm
  cases session_step_move hs with
  | answer last selected m r g id b done lost hl hls hrs =>
    exact h.grow hn rfl hrs h.calm fun _ hp => .inl hp
  | accept id hl hi hf =>
    refine h.grow hn rfl (fun hr => hr) (fun p => ?_) fun p hp => ?_
    · by_cases hpd : p = id
      · simp only [accept, hpd, if_true]
        rfl
      · simp only [accept, hpd, if_false]
        exact h.calm p
    · by_cases hpd : p = id
      · refine .inr ?_
        have := ho.fresh (by rw [hl]; rfl) id hf
        rw [hpd]
        omega
      · simp only [accept, hpd, if_false] at hp
        exact .inl hp
  | reap p hl hp =>
    refine h.grow hn rfl id (fun q => ?_) fun q hq => ?_
    · by_cases hqp : q = p
      · simp only [hqp, if_true]
        rfl
      · simp only [hqp, if_false]
        exact h.calm q
    · by_cases hqp : q = p
      · simp only [hqp, if_true] at hq
        exact .inl (hqp ▸ hq)
      · simp only [hqp, if_false] at hq
        exact .inl hq
  | deliver id u hl hd =>
    rcases deliver_eq hd with rfl | rfl <;> exact h.grow hn rfl (fun hr => hr) h.calm fun _ hp => .inl hp
  | push id b | push_init id b | shutdown_reply id => exact h.grow rfl rfl (fun hr => hr) h.calm fun _ hp => .inl hp
  | _ => exact h.grow hn rfl id h.calm fun _ hp => .inl hp

theorem QueueInv.call {e : CallEv} (h : QueueInv s) (he : unhurried s (.call p e))
    (hs : call_step cfg s p e = some t) : QueueInv t := by
  obtain ⟨o, ho, rfl⟩ := call_step_spec hs
  refine h.grow rfl rfl id (fun q => ?_) fun q hq => .inl ?_
  · by_cases hp : q = p
    · have hc : o.task.phase.hurried = false :=
        CallTask.next_calm ho (h.calm p) (fun hd => by rw [hd] at he; cases he) fun hd => by rw [hd] at he; cases he
      simpa [State.queue, with_call, hp] using hc
    · simpa [State.queue, with_call, hp] using h.calm q
  · by_cases hp : q = p
    · have hl : o.task.slot := by simpa [State.queue, with_call, hp] using hq
      exact hp ▸ (CallTask.next_slot ho).1 hl
    · simpa [State.queue, with_call, hp] using hq

/-- A response on its way was sent: its slot can be taken from it. -/
theorem release_unsent {c : CallTask} (h : (release c).slot) (hc : c.phase.hurried = false) :
    c.phase.unsent ∨ c.phase = .unborn := by
  unfold release at h
  cases hp : c.phase <;> simp [hp, CallPhase.hurried, CallPhase.unsent] at h hc ⊢

theorem QueueInv.take (h : QueueInv s) (ho : OnceInv s) (hi : SlotInv cfg s) (hs : step cfg s .take = some t) :
    QueueInv t := by
  obtain ⟨-, hl, ht, hph⟩ := take_spec hs
  obtain ⟨f, hf, hc⟩ := take_frame hs
  have hm : f ∈ s.log := List.mem_of_getElem? hf
  have hlg : t.log = s.log := by rw [ht]
  have hk : t.taken = s.taken + 1 := by rw [ht]
  have hrs : t.reused = s.reused := by rw [ht]
  refine ⟨fun p => ?_, by rw [hlg, hk]; exact hl, fun hr p hp htr => ?_⟩
  · rw [hph]
    exact h.calm p
  · have hsl : (s.calls p).slot := by
      rw [hc] at hp
      split at hp
      · exact (release_slot _).1 hp
      · exact hp
    obtain ⟨g, hg, he⟩ := htr
    rw [hlg, hk, List.take_add_one, hf] at hg
    rcases List.mem_append.mp hg with hg | hg
    · exact h.held (hrs ▸ hr) p hsl ⟨g, hg, he⟩
    · -- Its own response: the task has sent it, so `release` clears the slot.
      obtain rfl : g = f := by simpa using hg
      rw [hc, if_pos he] at hp
      rcases release_unsent hp (h.calm p) with hu | hb
      · have hn := ho.once (hrs ▸ hr) p
        have hps := responses_pos hm he
        have hd : 1 ≤ due s p := by
          unfold due
          rw [hu]
          simp only [Bool.toNat_true]
          omega
        omega
      · rw [hi.unborn p hb] at hsl
        cases hsl

theorem QueueInv.step {e : Ev} (h : QueueInv s) (ho : OnceInv s) (hi : SlotInv cfg s) (he : unhurried s e)
    (hs : step cfg s e = some t) : QueueInv t := by
  have hn : s.log = s.log ++ [] := (List.append_nil _).symm
  cases e with
  | session e => exact h.session ho hs
  | call p e => exact h.call he hs
  | enter parent m =>
    simp only [Server.step] at hs
    cases of_guard hs
    exact h.grow hn rfl id h.calm fun _ hp => .inl hp
  | callback k e =>
    obtain ⟨c, d, -, -, rfl⟩ := cb_step_spec hs
    exact h.grow rfl rfl id h.calm fun _ hp => .inl hp
  | take => exact h.take ho hi hs
  | writer_fail =>
    cases hs
    refine h.grow hn rfl id (fun p => ?_) fun p hp => .inl ((release_slot _).1 hp)
    rw [release_phase]
    exact h.calm p

/-- Every slot that is out belongs to a request whose response is not yet written. -/
theorem QueueInv.slots_le (h : QueueInv s) (hr : s.reused = false) {written : Nat} (hw : written ≤ s.taken) :
    s.slots ≤ unwritten s written := by
  refine List.countP_mono_left fun p _ hp => List.all_eq_true.mpr fun f hf => ?_
  refine bne_iff_ne.mpr fun he => h.held hr p hp ⟨f, ?_, he⟩
  exact List.take_subset_take_left _ hw hf

/-! ## The result -/

theorem not_rpc {m : String} (h : is_application m) :
    m ≠ rpc.INITIALIZE ∧ m ≠ rpc.DISCOVER ∧ m ≠ rpc.SHUTDOWN := by
  refine ⟨?_, ?_, ?_⟩
  all_goals
    rintro rfl
    revert h
    decide

/-- With a slot free, what passes the other checks is accepted. -/
theorem recv_accept {r : Request} (ha : Admissible cfg s r expired) (hf : s.slots < s.selected) :
    recv cfg s (.request r) expired = accept { s with last_seen_id := some r.id } r.id := by
  obtain ⟨h1, h2, h3⟩ := not_rpc ha.application
  have hs : ¬ s.selected ≤ State.slots { s with last_seen_id := some r.id } := Nat.not_le.mpr hf
  rw [recv_dispatch ha.initialized ha.fresh]
  unfold dispatch
  rw [if_neg h1, if_neg h2, if_neg (by simp [ha.open_]), if_neg h3, if_neg (by simp [ha.application]),
    if_neg (by simpa using ha.advertised), if_neg (by simp [ha.in_time]), if_neg hs]

/-- At every moment no more application handlers run than the selected in-flight limit. In a
    run where no accepted request is cancelled or passes its deadline, a request that passes
    the other checks is accepted whenever fewer than that limit wait for their response. -/
theorem slot_reuse (cfg : Config) :
    (∀ s, Reach (machine cfg) any s → handlers s ≤ s.selected ∧ s.selected ≤ cfg.max_in_flight) ∧
      ∀ s, Reach (machine cfg) unhurried s → s.loop = .reading → ∀ written ≤ s.taken,
        unwritten s written < s.selected → ∀ r expired, Admissible cfg s r expired →
        step cfg s (.session (.recv (.request r) expired)) = some (accept { s with last_seen_id := some r.id } r.id) := by
  refine ⟨fun s h => ?_, fun s h hl written hw hf r expired ha => ?_⟩
  · have hn : SlotInv cfg s := h.inv .init fun _ _ _ hi _ hs => hi.step hs
    exact ⟨Nat.le_trans (handlers_le_slots hn) hn.bound, hn.offered⟩
  · have hn : OnceInv s ∧ SlotInv cfg s ∧ QueueInv s :=
      h.inv (I := fun s => OnceInv s ∧ SlotInv cfg s ∧ QueueInv s) ⟨.init, .init, .init⟩
        fun _ _ _ hi he hs => ⟨hi.1.step hs, hi.2.1.step hs, hi.2.2.step hi.1 hi.2.1 he hs⟩
    have hrs : s.reused = false := by
      cases hr : s.reused
      · rfl
      · have hen := hn.1.ended hr
        rw [hl] at hen
        cases hen
    have hfr : s.slots < s.selected := Nat.lt_of_le_of_lt (hn.2.2.slots_le hrs hw) hf
    have ht : session_step cfg s (.recv (.request r) expired) = some (recv cfg s (.request r) expired) := by
      unfold session_step
      rw [hl]
    rw [← recv_accept ha hfr]
    exact ht

/-- Request 2 runs and request 3 arrives: one of two slots is free. -/
theorem slot_reuse_run :
    ∃ s, Reach (machine resolver) unhurried s ∧ unwritten s s.taken = 1 ∧
      step resolver s (.session (.recv (.request ⟨3, "resolver.resolve", 1000, none, .other⟩) false)) =
        some (accept { s with last_seen_id := some 3 } 3) := by
  obtain ⟨s, hs, hr⟩ := reach_of_run (machine resolver) unhurried opening
    (fun s => decide (s.loop = .reading ∧ s.initialized ∧ s.last_seen_id = some 2 ∧ s.shutdown_request = none ∧
      s.selected = 2 ∧ unwritten s s.taken = 1)) true (by decide)
  obtain ⟨hl, hi, hls, hsh, hsl, ho⟩ := of_decide_eq_true hr
  refine ⟨s, hs, ho, (slot_reuse resolver).2 s hs hl s.taken (Nat.le_refl _) (by omega) _ _ ?_⟩
  exact ⟨hi, by simp [seen, hls], hsh, by decide, by decide, rfl⟩

end Monosecret.Rpc.Server
