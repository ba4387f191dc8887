/-
  Monosecret.Rpc.ServerOrder — the order of callback frames (`Peer::call`).

  The order lock is held from the allocation of a callback's ID to the enqueueing of its
  frame, so the IDs in the queue increase and each belongs to one callback.
-/

import Monosecret.Rpc.ServerPermits

namespace Monosecret.Rpc.Server

open Lib Machine

/-- The IDs of the callbacks queued, in order. -/
def sent_ids (log : List ServerFrame) : List RequestId := log.filterMap ServerFrame.callback_id

variable {cfg : Config} {s t : State}

theorem sent_ids_append (l m : List ServerFrame) : sent_ids (l ++ m) = sent_ids l ++ sent_ids m :=
  List.filterMap_append

theorem mem_sent_ids {l : List ServerFrame} {id : RequestId} :
    id ∈ sent_ids l ↔ ∃ r, .callback r ∈ l ∧ r.id = id := by
  refine List.mem_filterMap.trans ⟨fun ⟨f, hf, hi⟩ => ?_, fun ⟨r, hr, hi⟩ => ⟨_, hr, by rw [← hi]; rfl⟩⟩
  cases f with
  | callback r => exact ⟨r, hf, Option.some.inj hi⟩
  | _ => cases hi

theorem sent_ids_nil {m : List ServerFrame} (h : ∀ r, .callback r ∉ m) : sent_ids m = [] :=
  List.eq_nil_iff_forall_not_mem.mpr fun _ hi =>
    let ⟨r, hr, _⟩ := mem_sent_ids.mp hi
    h r hr

/-! ## What a step queues -/

/-- The session loop settles callbacks and queues responses. -/
theorem session_frame {e : SessionEv} (hs : session_step cfg s e = some t) :
    ∃ f m, (∀ c, Callback.Settles c (f c)) ∧ t.cbs = s.cbs.map f ∧ t.log = s.log ++ m ∧ (∀ r, .callback r ∉ m) ∧
      t.order = s.order ∧ t.next_id = s.next_id := by
  have hi : s.cbs = s.cbs.map fun c => c := (List.map_id' _).symm
  have hn : s.log = s.log ++ [] := (List.append_nil _).symm
  have hno : ∀ r, ServerFrame.callback r ∉ ([] : List ServerFrame) := fun _ => List.not_mem_nil
  cases session_step_move hs with
  | close | drain => exact ⟨_, [], settles_fail, rfl, hn, hno, rfl, rfl⟩
  | deliver id u hl hd =>
    rcases deliver_eq hd with rfl | rfl
    · exact ⟨_, [], settles_deliver_pending id, rfl, hn, hno, rfl, rfl⟩
    · exact ⟨_, [], settles_deliver_parked id, rfl, hn, hno, rfl, rfl⟩
  | push id b => exact ⟨_, [.reply id b], settles_refl, hi, rfl, by simp, rfl, rfl⟩
  | push_init id b => exact ⟨_, [.terminal id b], settles_refl, hi, rfl, by simp, rfl, rfl⟩
  | shutdown_reply id => exact ⟨_, [.shutdown id], settles_refl, hi, rfl, by simp, rfl, rfl⟩
  | _ => exact ⟨_, [], settles_refl, hi, hn, hno, rfl, rfl⟩

/-- A callback frame is queued by the callback that passed its check. -/
theorem step_log {e : Ev} (hs : step cfg s e = some t) :
    ∃ m, t.log = s.log ++ m ∧ ∀ r, .callback r ∈ m →
      ∃ k c, e = .callback k .enqueue ∧ s.cbs[k]? = some c ∧ m = [.callback c.request] := by
  have hl : s.log = s.log ++ [] := (List.append_nil _).symm
  cases e with
  | session e =>
    obtain ⟨f, m, -, -, hg, hno, -⟩ := session_frame hs
    exact ⟨m, hg, fun r hr => absurd hr (hno r)⟩
  | call p e =>
    obtain ⟨o, -, rfl⟩ := call_step_spec hs
    refine ⟨_, rfl, fun r hr => ?_⟩
    cases ho : o.emit <;> simp [ho] at hr
  | enter parent mt =>
    simp only [step] at hs
    split at hs
    · exact ⟨[], Option.some.inj hs ▸ hl, by simp⟩
    · cases hs
  | callback k e =>
    obtain ⟨c, d, hk, hn, rfl⟩ := cb_step_spec hs
    refine ⟨queued d e, rfl, fun r hr => ?_⟩
    cases e <;> simp only [queued, List.not_mem_nil] at hr
    obtain ⟨-, -, rfl⟩ := Callback.next_enqueue hn
    exact ⟨k, c, rfl, hk, rfl⟩
  | take =>
    obtain ⟨-, -, ht, -⟩ := take_spec hs
    exact ⟨[], by rw [ht]; exact hl, by simp⟩
  | writer_fail => exact ⟨[], Option.some.inj hs ▸ hl, by simp⟩

/-! ## The invariant -/

structure OrderInv (s : State) : Prop where
  kept : ∀ c ∈ s.cbs, c.Kept
  lock : ∀ k c, s.cbs[k]? = some c → c.phase.ordering = true → s.order = some k
  below : ∀ id ∈ sent_ids s.log, id < s.next_id
  increasing : (sent_ids s.log).Pairwise (· < ·)
  ahead : ∀ c ∈ s.cbs, c.phase = .registered ∨ c.phase = .checked →
    c.id < s.next_id ∧ ∀ id ∈ sent_ids s.log, id < c.id
  sender : ∀ id ∈ sent_ids s.log, ∃ c ∈ s.cbs, c.sent = true ∧ c.id = id

theorem OrderInv.init : OrderInv {} where
  kept := nofun
  lock := nofun
  below := nofun
  increasing := List.Pairwise.nil
  ahead := nofun
  sender := nofun

/-- A step that settles callbacks and queues no callback. -/
theorem OrderInv.of (h : OrderInv s) (f : Callback → Callback) (hf : ∀ c, Callback.Settles c (f c))
    (hb : t.cbs = s.cbs.map f) (hl : sent_ids t.log = sent_ids s.log) (ho : t.order = s.order)
    (hn : t.next_id = s.next_id) : OrderInv t := by
  have hm : ∀ c ∈ t.cbs, ∃ c0 ∈ s.cbs, f c0 = c := fun c hc => List.mem_map.mp (hb ▸ hc)
  refine ⟨fun c hc => ?_, fun k c hk hc => ?_, by rw [hl, hn]; exact h.below, hl ▸ h.increasing,
    fun c hc hp => ?_, fun id hi => ?_⟩
  · obtain ⟨c0, hc0, rfl⟩ := hm c hc
    exact (hf c0).kept (h.kept c0 hc0)
  · rw [hb, List.getElem?_map] at hk
    obtain ⟨c0, hc0, rfl⟩ := Option.map_eq_some_iff.mp hk
    rw [ho]
    exact h.lock k c0 hc0 ((hf c0).phase ▸ hc)
  · obtain ⟨c0, hc0, rfl⟩ := hm c hc
    rw [hl, hn, (hf c0).id]
    exact h.ahead c0 hc0 ((hf c0).phase ▸ hp)
  · obtain ⟨c0, hc0, hs0, hid0⟩ := h.sender id (hl ▸ hi)
    exact ⟨f c0, hb ▸ List.mem_map_of_mem hc0, (hf c0).sent.trans hs0, (hf c0).id.trans hid0⟩

theorem Callback.next_sent {e : CbEnv} {c d : Callback} {ev : CbEv} (h : c.next e ev = some d)
    (hs : c.sent) (hk : c.Kept) : d.sent ∧ d.id = c.id := by
  have := hk.sent hs
  cases ev <;> simp only [Callback.next] at h
  all_goals grind [Callback.leave, Callback.abandon_call]

theorem Callback.next_ordering {e : CbEnv} {c d : Callback} {ev : CbEv} (h : c.next e ev = some d)
    (hd : d.phase.ordering) : c.phase.ordering ∨ e.order_free := by
  cases ev <;> simp only [Callback.next] at h
  all_goals grind [Callback.leave, Callback.abandon_call, CbPhase.ordering]

theorem Callback.next_registered {e : CbEnv} {c d : Callback} {ev : CbEv} (h : c.next e ev = some d)
    (hd : d.phase = .registered ∨ d.phase = .checked) :
    ((c.phase = .registered ∨ c.phase = .checked) ∧ d.id = c.id ∧ ∀ fits, ev ≠ .register fits) ∨
      d.id = e.next_id ∧ ∃ fits, ev = .register fits := by
  cases ev <;> simp only [Callback.next] at h
  all_goals grind [Callback.leave, Callback.abandon_call]

theorem sent_ids_queued {d : Callback} {e : CbEv} : sent_ids (queued d e) = if e = .enqueue then [d.id] else [] := by
  cases e <;> rfl

theorem with_callback_next (s : State) (k : Nat) (e : CbEv) (d : Callback) :
    s.next_id ≤ (with_callback s k e d).next_id := by
  cases e <;> first | exact Nat.le_succ _ | exact Nat.le_refl _

/-- The lock has one holder: another callback that holds it was at place `k` already. -/
theorem OrderInv.holder (h : OrderInv s) {k k' : Nat} {c c' : Callback} (hk : s.cbs[k]? = some c)
    (hk' : s.cbs[k']? = some c') (hc : c.phase.ordering) (hc' : c'.phase.ordering) : k = k' :=
  Option.some.inj ((h.lock k c hk hc).symm.trans (h.lock k' c' hk' hc'))

theorem ordering_of {p : CbPhase} (h : p = .registered ∨ p = .checked) : p.ordering := by
  rcases h with rfl | rfl <;> rfl

theorem OrderInv.callback {k : Nat} {e : CbEv} (h : OrderInv s) (hs : cb_step cfg s k e = some t) : OrderInv t := by
  obtain ⟨c, d, hk, hn, rfl⟩ := cb_step_spec hs
  have hc : c ∈ s.cbs := List.mem_of_getElem? hk
  have hi : sent_ids ((with_callback s k e d).queue (queued d e)).log =
      sent_ids s.log ++ if e = .enqueue then [d.id] else [] := by
    rw [State.queue, sent_ids_append, sent_ids_queued]
    rfl
  have hw : ∀ id, id ∈ sent_ids ((with_callback s k e d).queue (queued d e)).log →
      id ∈ sent_ids s.log ∨ e = .enqueue ∧ c.phase = .checked ∧ id = c.id ∧ d = { c with phase := .waiting, sent := true } :=
    fun id hid => by
      rw [hi] at hid
      rcases List.mem_append.mp hid with hold | hl
      · exact .inl hold
      · by_cases he : e = .enqueue
        · rw [if_pos he] at hl
          subst he
          obtain ⟨hp, -, hd⟩ := Callback.next_enqueue hn
          exact .inr ⟨rfl, hp, (List.mem_singleton.mp hl).trans (by rw [hd]), hd⟩
        · rw [if_neg he] at hl
          cases hl
  have hx := with_callback_next s k e d
  refine ⟨fun c' hc' => ?_, fun k' c' hk' ho => ?_, fun id hid => ?_, ?_, fun c' hc' hp => ?_, fun id hid => ?_⟩
  · rcases List.mem_or_eq_of_mem_set hc' with hc' | rfl
    · exact h.kept c' hc'
    · exact (h.kept c hc).next hn
  · rcases getElem?_set_some hk' with ⟨rfl, rfl⟩ | ⟨hne, hold⟩
    · exact if_pos ho
    · have hlc := h.lock k' c' hold ho
      have hd : ¬ d.phase.ordering := fun hd => by
        rcases Callback.next_ordering hn hd with hco | hf
        · exact hne (h.holder hold hk ho hco)
        · rw [show (cb_env cfg s c).order_free = s.order.isNone from rfl, hlc] at hf
          cases hf
      show (if d.phase.ordering then some k else if s.order = some k then none else s.order) = some k'
      rw [if_neg hd, hlc, if_neg fun he => hne (Option.some.inj he)]
  · rcases hw id hid with hid | ⟨-, hp, rfl, -⟩
    · exact Nat.lt_of_lt_of_le (h.below id hid) hx
    · exact Nat.lt_of_lt_of_le (h.ahead c hc (.inr hp)).1 hx
  · rw [hi]
    split
    · rename_i he
      subst he
      obtain ⟨hp, -, rfl⟩ := Callback.next_enqueue hn
      refine List.pairwise_append.mpr ⟨h.increasing, List.pairwise_singleton _ _, fun id hid id' hi' => ?_⟩
      rw [List.mem_singleton.mp hi']
      exact (h.ahead c hc (.inr hp)).2 id hid
    · rw [List.append_nil]
      exact h.increasing
  · obtain ⟨k', hk'⟩ := List.getElem?_of_mem hc'
    rcases getElem?_set_some hk' with ⟨-, rfl⟩ | ⟨hne, hold⟩
    · rcases Callback.next_registered hn hp with ⟨hp', hi', hr⟩ | ⟨hi', f, rfl⟩
      · rw [hi']
        refine ⟨Nat.lt_of_lt_of_le (h.ahead c hc hp').1 hx, fun id hid => ?_⟩
        rcases hw id hid with hid | ⟨-, -, -, rfl⟩
        · exact (h.ahead c hc hp').2 id hid
        · rcases hp with hp | hp <;> cases hp
      · rw [hi']
        refine ⟨Nat.lt_succ_self _, fun id hid => ?_⟩
        rcases hw id hid with hid | ⟨he, -⟩
        · exact h.below id hid
        · cases he
    · have hm : c' ∈ s.cbs := List.mem_of_getElem? hold
      refine ⟨Nat.lt_of_lt_of_le (h.ahead c' hm hp).1 hx, fun id hid => ?_⟩
      rcases hw id hid with hid | ⟨-, hpc, -, -⟩
      · exact (h.ahead c' hm hp).2 id hid
      · exact absurd (h.holder hold hk (ordering_of hp) (ordering_of (.inr hpc))) hne
  · rcases hw id hid with hid | ⟨-, -, rfl, rfl⟩
    · obtain ⟨c0, hc0, hs0, hid0⟩ := h.sender id hid
      obtain ⟨k0, hk0⟩ := List.getElem?_of_mem hc0
      by_cases he : k0 = k
      · subst he
        obtain rfl := Option.some.inj (hk0.symm.trans hk)
        obtain ⟨hd1, hd2⟩ := Callback.next_sent hn hs0 (h.kept c0 hc0)
        exact ⟨d, List.mem_set (List.getElem?_eq_some_iff.mp hk).1 d, hd1, hd2.trans hid0⟩
      · refine ⟨c0, List.mem_of_getElem? (i := k0) ?_, hs0, hid0⟩
        exact (List.getElem?_set_ne (Ne.symm he)).trans hk0
    · exact ⟨_, List.mem_set (List.getElem?_eq_some_iff.mp hk).1 _, rfl, rfl⟩

theorem OrderInv.step {e : Ev} (h : OrderInv s) (hs : step cfg s e = some t) : OrderInv t := by
  have hi : s.cbs = s.cbs.map fun c => c := (List.map_id' _).symm
  cases e with
  | session e =>
    obtain ⟨f, m, hf, hb, hl, hn, hor, hx⟩ := session_frame hs
    refine h.of f hf hb ?_ hor hx
    rw [hl, sent_ids_append, sent_ids_nil hn, List.append_nil]
  | call p e =>
    obtain ⟨o, -, rfl⟩ := call_step_spec hs
    refine h.of _ settles_refl hi ?_ rfl rfl
    have hn : ∀ r, ServerFrame.callback r ∉ (o.emit.map (ServerFrame.terminal p)).toList := fun r hr => by
      cases ho : o.emit <;> simp [ho] at hr
    rw [State.queue, sent_ids_append, sent_ids_nil hn, List.append_nil]
    rfl
  | enter parent method =>
    simp only [Server.step] at hs
    cases of_guard hs
    have hw : ∀ c ∈ s.cbs ++ [({ parent := parent, method := method } : Callback)],
        c ∈ s.cbs ∨ c = { parent := parent, method := method } := fun c hc =>
      (List.mem_append.mp hc).imp id List.mem_singleton.mp
    refine ⟨fun c hc => ?_, fun k c hk hc => ?_, h.below, h.increasing, fun c hc hp => ?_, fun id hi => ?_⟩
    · rcases hw c hc with hc | rfl
      · exact h.kept c hc
      · refine ⟨?_, ?_, ?_, fun _ => ⟨rfl, rfl⟩⟩ <;> intro hp <;> cases hp
    · rw [List.getElem?_append] at hk
      split at hk
      · exact h.lock k c hk hc
      · rw [List.mem_singleton.mp (List.mem_of_getElem? hk)] at hc
        cases hc
    · rcases hw c hc with hc | rfl
      · exact h.ahead c hc hp
      · rcases hp with hp | hp <;> cases hp
    · obtain ⟨c0, hc0, h0⟩ := h.sender id hi
      exact ⟨c0, List.mem_append_left _ hc0, h0⟩
  | callback k e => exact h.callback hs
  | take =>
    obtain ⟨-, -, ht, -⟩ := take_spec hs
    rw [ht]
    exact h.of _ settles_refl hi rfl rfl rfl
  | writer_fail =>
    cases hs
    exact h.of _ settles_refl hi rfl rfl rfl

end Monosecret.Rpc.Server
