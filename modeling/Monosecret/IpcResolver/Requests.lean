/-
  Monosecret.IpcResolver.Requests — request accounting of the C client.

  `Accounts` ties the counters to the list: `in_flight` counts the requests still running,
  `entry_count` those listed, and a request has left the running state once if it is not
  running, never otherwise. It is kept by each thing a section does to a request (`update`,
  `finish`, `remove_request`, `write_payload_locked`, `fail_all`), so by every section.
  `Queues` does the same for the prompts and the write queue.
-/

import Monosecret.IpcResolver.Session
import Monosecret.Lib.Lists
import Mathlib.Data.List.Nodup

namespace Monosecret.IpcResolver

open Lib Machine
open Option (bind_eq_some_iff ite_none_right_eq_some map_eq_some_iff)

variable {cfg : Config} {s t : State} {id : Nat}

def Outbound.request_id : Outbound → Option Nat
  | .request id => some id
  | _ => none

def State.requested (s : State) : List Nat := s.written.filterMap Outbound.request_id

structure Accounts (s : State) : Prop where
  ids : (s.pool.map Request.id).Nodup
  fresh : ∀ r ∈ s.pool, r.id < s.next_id
  running : ∀ r ∈ s.pool, r.running = true → r.listed = true ∧ r.abandoned = false
  left : ∀ r ∈ s.pool, r.left = if r.running then 0 else 1
  in_flight : s.in_flight = s.pool.countP (·.running)
  entry_count : s.entry_count = s.pool.countP (·.listed)
  in_flight_le : s.in_flight ≤ s.max_in_flight
  entry_count_le : s.entry_count ≤ s.max_in_flight * 2
  limit : 1 ≤ s.max_in_flight ∧ s.max_in_flight ≤ SS_MAX_IN_FLIGHT
  opening : s.opener = .starting ∨ s.opener = .waiting → s.max_in_flight = 1
  closed : s.closed = true → ∀ r ∈ s.pool, r.listed = false

structure Queues (s : State) : Prop where
  requested : s.requested.Pairwise (· < ·)
  fresh : ∀ i ∈ s.requested, i < s.next_id
  prompt_count : s.prompt_count = s.prompts.length
  write_count : s.write_count = s.write_queue.length
  room : s.write_count ≤ SS_MAX_IN_FLIGHT * 2 + 4

/-! ## Looking a request up -/

/-- A change of what the accounts do not count. -/
structure Keeps (f : Request → Request) : Prop where
  id (r) : (f r).id = r.id
  running (r) : (f r).running = r.running
  listed (r) : (f r).listed = r.listed
  abandoned (r) : (f r).abandoned = r.abandoned
  left (r) : (f r).left = r.left

/-- A change that ends the running state. -/
structure Leaves (f : Request → Request) : Prop where
  id (r) : (f r).id = r.id
  running (r) : (f r).running = false
  listed (r) : (f r).listed = r.listed
  left (r) : (f r).left = r.left + 1

variable {r : Request} {f : Request → Request}

theorem size_dec_pos {n : Nat} (h : 0 < n) : size_dec n = n - 1 := if_neg (Nat.pos_iff_ne_zero.mp h)

theorem mem_requests : r ∈ s.requests ↔ r ∈ s.pool ∧ r.listed := List.mem_filter

theorem find_request_some (h : find_request s id = some r) : r ∈ s.pool ∧ r.listed ∧ r.id = id := by
  obtain ⟨hr, hl⟩ := mem_requests.mp (List.mem_of_find?_eq_some h)
  have hi := List.find?_some h
  exact ⟨hr, hl, beq_iff_eq.mp hi⟩

theorem call_some (h : s.call id = some r) : r ∈ s.pool ∧ r.id = id := by
  have hi := List.find?_some h
  exact ⟨List.mem_of_find?_eq_some h, beq_iff_eq.mp hi⟩

theorem update_ids (hf : ∀ r, (f r).id = r.id) : (s.update id f).pool.map Request.id = s.pool.map Request.id := by
  unfold State.update
  rw [List.map_map]
  refine List.map_congr_left fun r _ => ?_
  rw [Function.comp_apply]
  split
  · exact hf r
  · rfl

theorem mem_update_pool (hr : r ∈ (s.update id f).pool) : (r ∈ s.pool ∧ r.id ≠ id) ∨ ∃ q ∈ s.pool, q.id = id ∧ r = f q := by
  obtain ⟨q, hq, rfl⟩ := List.mem_map.mp hr
  by_cases hi : q.id = id
  · rw [if_pos hi]
    exact .inr ⟨q, hq, hi, rfl⟩
  · rw [if_neg hi]
    exact .inl ⟨hq, hi⟩

/-- What holds of every request holds after one is changed, if it holds of that one changed. -/
theorem forall_update {P : Request → Prop} (h : ∀ r ∈ s.pool, P r)
    (hf : ∀ r ∈ s.pool, r.id = id → P (f r)) : ∀ r ∈ (s.update id f).pool, P r := by
  intro r hr
  rcases mem_update_pool hr with ⟨hr, -⟩ | ⟨q, hq, hi, rfl⟩
  · exact h r hr
  · exact hf q hq hi

theorem mem_update (hr : r ∈ s.pool) (f : Request → Request) : f r ∈ (s.update r.id f).pool := by
  have hm := List.mem_map_of_mem (f := fun q : Request => if q.id = r.id then f q else q) hr
  rwa [if_pos rfl] at hm

theorem keeps_cancel : Keeps Request.cancel := ⟨fun _ => rfl, fun _ => rfl, fun _ => rfl, fun _ => rfl, fun _ => rfl⟩

theorem keeps_set_waiter (w : Bool) : Keeps (·.set_waiter w) :=
  ⟨fun _ => rfl, fun _ => rfl, fun _ => rfl, fun _ => rfl, fun _ => rfl⟩

theorem keeps_block (b : Bool) : Keeps (·.block b) :=
  ⟨fun _ => rfl, fun _ => rfl, fun _ => rfl, fun _ => rfl, fun _ => rfl⟩

theorem leaves_leave (st : Status) : Leaves (·.leave st) := ⟨fun _ => rfl, fun _ => rfl, fun _ => rfl, fun _ => rfl⟩

theorem leaves_abandon : Leaves Request.abandon := ⟨fun _ => rfl, fun _ => rfl, fun _ => rfl, fun _ => rfl⟩

/-- A finished request is not running. -/
theorem stopped_of_finish (hf : Leaves f) (hr : r ∈ (finish s id f).pool) (he : r.id = id) : r.running = false := by
  rcases mem_update_pool hr with ⟨-, hn⟩ | ⟨q, -, -, rfl⟩
  · exact absurd he hn
  · exact hf.running q

namespace Accounts

variable (h : Accounts s)

include h

theorem unique {a b : Request} (ha : a ∈ s.pool) (hb : b ∈ s.pool) (he : a.id = b.id) : a = b :=
  List.inj_on_of_nodup_map h.ids ha hb he

theorem find_request_eq (hr : r ∈ s.pool) (hl : r.listed) : find_request s r.id = some r := by
  cases hf : find_request s r.id with
  | none => exact absurd (beq_self_eq_true r.id) (List.find?_eq_none.mp hf r (mem_requests.mpr ⟨hr, hl⟩))
  | some q =>
    obtain ⟨hq, -, hi⟩ := find_request_some hf
    rw [h.unique hq hr hi]

theorem countP_update (hr : r ∈ s.pool) (p : Request → Bool) (f : Request → Request) :
    (s.update r.id f).pool.countP p + (if p r then 1 else 0) = s.pool.countP p + (if p (f r) then 1 else 0) :=
  countP_map_at (List.pairwise_map.mp h.ids) hr p f

/-- A request is changed in what the accounts do not count. -/
theorem update (id : Nat) (hf : Keeps f) : Accounts (s.update id f) := by
  obtain ⟨hi, hn, hl, ha, hlf⟩ := hf
  have hcn : ∀ p : Request → Bool, (∀ r, p (f r) = p r) → (s.update id f).pool.countP p = s.pool.countP p := by
    intro p hp
    show (s.pool.map _).countP p = _
    rw [List.countP_map]
    refine List.countP_congr fun r _ => ?_
    rw [Function.comp_apply]
    split
    · rw [hp]
    · exact Iff.rfl
  constructor
  case ids => exact (update_ids hi).symm ▸ h.ids
  case fresh => exact forall_update h.fresh fun r hr _ => hi r ▸ h.fresh r hr
  case running =>
    refine forall_update h.running fun r hr _ => ?_
    rw [hn, hl, ha]
    exact h.running r hr
  case left =>
    refine forall_update h.left fun r hr _ => ?_
    rw [hn, hlf]
    exact h.left r hr
  case in_flight => exact h.in_flight.trans (hcn _ hn).symm
  case entry_count => exact h.entry_count.trans (hcn _ hl).symm
  case in_flight_le => exact h.in_flight_le
  case entry_count_le => exact h.entry_count_le
  case limit => exact h.limit
  case opening => exact h.opening
  case closed => exact fun hc => forall_update (h.closed hc) fun r hr _ => (hl r).trans (h.closed hc r hr)

/-- A running request leaves the running state. -/
theorem finish (hr : r ∈ s.pool) (hn : r.running) (hf : Leaves f) : Accounts (finish s r.id f) := by
  obtain ⟨hi, hru, hl, hlf⟩ := hf
  have hin := h.countP_update hr (·.running) f
  have he := h.countP_update hr (·.listed) f
  have hp : 0 < s.pool.countP (·.running) := List.countP_pos_iff.mpr ⟨r, hr, hn⟩
  have hd : size_dec s.in_flight = s.in_flight - 1 := size_dec_pos (h.in_flight ▸ hp)
  have heq := h.in_flight
  have hle := h.in_flight_le
  rw [hn, hru] at hin
  rw [hl] at he
  constructor
  case ids => exact (update_ids hi).symm ▸ h.ids
  case fresh => exact forall_update h.fresh fun q hq _ => hi q ▸ h.fresh q hq
  case running => exact forall_update h.running fun q hq _ hc => by rw [hru] at hc; cases hc
  case left =>
    refine forall_update h.left fun q hq hqd => ?_
    obtain rfl := h.unique hq hr hqd
    rw [hlf, hru, h.left q hq, hn]
    rfl
  case in_flight =>
    show size_dec s.in_flight = (s.update r.id f).pool.countP (·.running)
    simp only [if_true, Bool.false_eq_true, if_false] at hin
    omega
  case entry_count =>
    show s.entry_count = (s.update r.id f).pool.countP (·.listed)
    have := h.entry_count
    omega
  case in_flight_le =>
    show size_dec s.in_flight ≤ s.max_in_flight
    omega
  case entry_count_le => exact h.entry_count_le
  case limit => exact h.limit
  case opening => exact h.opening
  case closed => exact fun hc => forall_update (h.closed hc) fun q hq _ => (hl q).trans (h.closed hc q hq)

/-- A request that is not running is unlinked. -/
theorem remove (hs : ∀ r ∈ s.pool, r.id = id → r.running = false) : Accounts (remove_request s id) := by
  unfold remove_request
  by_cases hf : (find_request s id).isSome
  · obtain ⟨r, hm⟩ := Option.isSome_iff_exists.mp hf
    obtain ⟨hr, hl, rfl⟩ := find_request_some hm
    have hi : (s.update r.id Request.unlink).pool.countP (·.running) = s.pool.countP (·.running) :=
      Nat.add_right_cancel (h.countP_update hr (·.running) Request.unlink)
    have he := h.countP_update hr (·.listed) Request.unlink
    have hp : 0 < s.pool.countP (·.listed) := List.countP_pos_iff.mpr ⟨r, hr, hl⟩
    have hd : size_dec s.entry_count = s.entry_count - 1 := size_dec_pos (h.entry_count ▸ hp)
    have heq := h.entry_count
    have hle := h.entry_count_le
    rw [hl, Request.unlink] at he
    simp only [if_true, Bool.false_eq_true, if_false] at he
    rw [if_pos hf]
    constructor
    case ids => exact (update_ids (f := Request.unlink) fun _ => rfl).symm ▸ h.ids
    case fresh => exact forall_update h.fresh fun q hq _ => h.fresh q hq
    case running =>
      exact forall_update h.running fun q hq hqd hc => absurd ((hs q hq hqd).symm.trans hc) Bool.false_ne_true
    case left => exact forall_update h.left fun q hq _ => h.left q hq
    case in_flight => exact h.in_flight.trans hi.symm
    case entry_count =>
      show size_dec s.entry_count = (s.update r.id Request.unlink).pool.countP (·.listed)
      omega
    case in_flight_le => exact h.in_flight_le
    case entry_count_le =>
      show size_dec s.entry_count ≤ s.max_in_flight * 2
      omega
    case limit => exact h.limit
    case opening => exact h.opening
    case closed => exact fun hc => forall_update (h.closed hc) fun _ _ _ => rfl
  · rw [if_neg hf]
    exact h

theorem fail_spec (hr : r ∈ s.pool) (st : Status) :
    (r.fail st).id = r.id ∧ (r.fail st).running = false ∧ (r.fail st).listed = false ∧ (r.fail st).left = 1 := by
  have hn := h.running r hr
  have hf := h.left r hr
  unfold Request.fail
  by_cases hl : r.listed
  · rw [if_pos hl]
    by_cases hc : r.running
    · rw [if_pos hc] at hf
      rw [if_pos hc]
      exact ⟨rfl, rfl, rfl, congrArg (· + 1) hf⟩
    · rw [if_neg hc] at hf
      rw [if_neg hc]
      exact ⟨rfl, Bool.eq_false_iff.mpr hc, rfl, hf⟩
  · rw [if_neg hl]
    have hc : ¬ r.running := fun hc => hl (hn hc).1
    rw [if_neg hc] at hf
    exact ⟨rfl, Bool.eq_false_iff.mpr hc, Bool.eq_false_iff.mpr hl, hf⟩

theorem fail_all (st : Status) : Accounts (fail_all s st) := by
  unfold IpcResolver.fail_all
  by_cases hc : s.closed
  · rw [if_pos hc]
    exact h
  · rw [if_neg hc]
    have hl : ∀ {P : Request → Prop}, (∀ r ∈ s.pool, P (r.fail st)) → ∀ r ∈ s.pool.map (·.fail st), P r :=
      fun hP r hr => by
        obtain ⟨q, hq, rfl⟩ := List.mem_map.mp hr
        exact hP q hq
    have hn : ∀ p : Request → Bool, (∀ r ∈ s.pool, p (r.fail st) = false) →
        0 = (s.pool.map (·.fail st)).countP p := by
      intro p hp
      exact (List.countP_eq_zero.mpr (hl fun r hr hpr => Bool.false_ne_true ((hp r hr).symm.trans hpr))).symm
    have hi : (s.pool.map (·.fail st)).map Request.id = s.pool.map Request.id := by
      rw [List.map_map]
      exact List.map_congr_left fun r hr => (h.fail_spec hr st).1
    constructor
    case ids => exact hi.symm ▸ h.ids
    case fresh => exact hl fun r hr => (h.fail_spec hr st).1 ▸ h.fresh r hr
    case running =>
      exact hl fun r hr hrn => absurd ((h.fail_spec hr st).2.1.symm.trans hrn) Bool.false_ne_true
    case left =>
      refine hl fun r hr => ?_
      rw [(h.fail_spec hr st).2.1, (h.fail_spec hr st).2.2.2]
      rfl
    case in_flight => exact hn _ fun r hr => (h.fail_spec hr st).2.1
    case entry_count => exact hn _ fun r hr => (h.fail_spec hr st).2.2.1
    case in_flight_le => exact Nat.zero_le _
    case entry_count_le => exact Nat.zero_le _
    case limit => exact h.limit
    case opening => exact h.opening
    case closed => exact fun _ => hl fun r hr => (h.fail_spec hr st).2.2.1

end Accounts

/-! ## The queues -/

theorem drop_prompts_fst (p : Prompt → Bool) (l : List Prompt) (n : Nat) :
    (drop_prompts p l n).1 = l.filter (fun q => !p q) := by
  induction l generalizing n with
  | nil => rfl
  | cons q l ih =>
    unfold drop_prompts
    by_cases hq : p q
    · rw [if_pos hq, ih, List.filter_cons_of_neg (by rw [hq]; exact Bool.false_ne_true)]
    · rw [if_neg hq, List.filter_cons_of_pos (by rw [Bool.eq_false_iff.mpr hq]; rfl)]
      exact congrArg (q :: ·) (ih n)

/-- `k` counts the prompts passed over. -/
theorem drop_prompts_snd (p : Prompt → Bool) {l : List Prompt} {n k : Nat} (h : n = l.length + k) :
    (drop_prompts p l n).2 = (drop_prompts p l n).1.length + k := by
  induction l generalizing n k with
  | nil => exact h
  | cons q l ih =>
    rw [List.length_cons] at h
    unfold drop_prompts
    by_cases hq : p q
    · rw [if_pos hq]
      have hp : 0 < n := by omega
      exact ih (by rw [size_dec_pos hp]; omega)
    · rw [if_neg hq]
      have := @ih n (k + 1) (by omega)
      rw [List.length_cons]
      omega

theorem write_payload_locked_some {i : Outbound} {sz : Nat} {m : Bool}
    (h : write_payload_locked s i sz m = some t) :
    s.closed = false ∧ s.write_count < SS_MAX_IN_FLIGHT * 2 + 4 ∧
      t = { s with
        write_queue := s.write_queue ++ [i]
        write_count := s.write_count + 1
        written := s.written ++ [i] } := by
  unfold write_payload_locked at h
  split_ifs at h with hc _ _ hr
  exact ⟨Bool.eq_false_iff.mpr hc, Nat.lt_of_not_le fun hl => hr (.inr hl), (Option.some.inj h).symm⟩

theorem remove_request_frame (s : State) (id : Nat) :
    ∃ pool entry_count, remove_request s id = { s with pool := pool, entry_count := entry_count } := by
  unfold remove_request
  split
  · exact ⟨_, _, rfl⟩
  · exact ⟨s.pool, s.entry_count, rfl⟩

/-- A request that is started changes the request list and the write queue, nothing else. -/
theorem start_request_frame (s : State) (n d : Nat) (a : Bool) (b : Build) :
    ∃ next_id pool in_flight entry_count write_queue write_count, ∃ sn : List Outbound,
      (∀ i ∈ sn, i = .request s.next_id) ∧
        (start_request s n d a b).1 =
          { s with
            next_id := next_id
            pool := pool
            in_flight := in_flight
            entry_count := entry_count
            write_queue := write_queue
            write_count := write_count
            written := s.written ++ sn } := by
  have hn : ∀ i ∈ ([] : List Outbound), i = .request s.next_id := fun _ hi => absurd hi List.not_mem_nil
  unfold start_request
  dsimp only
  split_ifs
  · exact ⟨_, _, _, _, _, _, [], hn, by rw [List.append_nil]⟩
  · exact ⟨_, _, _, _, _, _, [], hn, by rw [List.append_nil]⟩
  · split
    · rename_i u hu
      obtain ⟨sz, -, hw⟩ := bind_eq_some_iff.mp hu
      obtain ⟨-, -, rfl⟩ := write_payload_locked_some hw
      exact ⟨_, _, _, _, _, _, [.request s.next_id], fun _ hi => List.mem_singleton.mp hi, rfl⟩
    · obtain ⟨pool, entry_count, he⟩ := remove_request_frame
        (finish (add_request s (min d (n + SS_MAX_DEADLINE_HORIZON_MS)) a) s.next_id (·.leave .IO_ERROR))
        s.next_id
      rw [he]
      refine ⟨s.next_id + 1, pool, size_dec (s.in_flight + 1), entry_count, s.write_queue, s.write_count, [], hn, ?_⟩
      rw [List.append_nil]
      rfl
  · exact ⟨_, _, _, _, _, _, [], hn, by rw [List.append_nil]⟩

/-! ## The invariant -/

structure Inv (s : State) : Prop where
  accounts : Accounts s
  queues : Queues s

/-- What the invariant speaks of, the opener apart. -/
def State.counted (s : State) :=
  (s.pool, s.next_id, s.in_flight, s.entry_count, s.max_in_flight, s.closed, s.written, s.prompts, s.prompt_count,
    s.write_queue, s.write_count)

namespace Inv

section

variable (h : Inv s)

include h

theorem of (hs : t.counted = s.counted)
    (hp : t.opener = .starting ∨ t.opener = .waiting → s.opener = .starting ∨ s.opener = .waiting) : Inv t := by
  simp only [State.counted, Prod.mk.injEq] at hs
  obtain ⟨hl, hn, hi, he, hm, hcl, hw, hr, hcn, hqu, ht⟩ := hs
  have hrq : t.requested = s.requested := congrArg (List.filterMap Outbound.request_id) hw
  obtain ⟨ha, hq⟩ := h
  constructor
  · constructor
    case ids => exact hl ▸ ha.ids
    case fresh => exact hl ▸ hn ▸ ha.fresh
    case running => exact hl ▸ ha.running
    case left => exact hl ▸ ha.left
    case in_flight => exact hi ▸ hl ▸ ha.in_flight
    case entry_count => exact he ▸ hl ▸ ha.entry_count
    case in_flight_le => exact hi ▸ hm ▸ ha.in_flight_le
    case entry_count_le => exact he ▸ hm ▸ ha.entry_count_le
    case limit => exact hm ▸ ha.limit
    case opening => exact fun ho => hm ▸ ha.opening (hp ho)
    case closed => exact fun hc => hl ▸ ha.closed (hcl ▸ hc)
  · constructor
    case requested => exact hrq ▸ hq.requested
    case fresh => exact hrq ▸ hn ▸ hq.fresh
    case prompt_count => exact hcn ▸ hr ▸ hq.prompt_count
    case write_count => exact ht ▸ hqu ▸ hq.write_count
    case room => exact ht ▸ hq.room

theorem update (id : Nat) (hf : Keeps f) : Inv (s.update id f) where
  accounts := h.accounts.update id hf
  queues := ⟨h.queues.requested, h.queues.fresh, h.queues.prompt_count, h.queues.write_count, h.queues.room⟩

theorem finish (hr : r ∈ s.pool) (hn : r.running) (hf : Leaves f) : Inv (IpcResolver.finish s r.id f) where
  accounts := h.accounts.finish hr hn hf
  queues := ⟨h.queues.requested, h.queues.fresh, h.queues.prompt_count, h.queues.write_count, h.queues.room⟩

theorem remove (hs : ∀ r ∈ s.pool, r.id = id → r.running = false) : Inv (remove_request s id) where
  accounts := h.accounts.remove hs
  queues := by
    unfold remove_request
    split
    · exact ⟨h.queues.requested, h.queues.fresh, h.queues.prompt_count, h.queues.write_count, h.queues.room⟩
    · exact h.queues

theorem fail_all (st : Status) : Inv (fail_all s st) where
  accounts := h.accounts.fail_all st
  queues := by
    unfold IpcResolver.fail_all
    split
    · exact h.queues
    · exact ⟨h.queues.requested, h.queues.fresh, rfl, h.queues.write_count, h.queues.room⟩

theorem with_prompts {prompts : List Prompt} {n : Nat} (hn : n = prompts.length) :
    Inv { s with prompts := prompts, prompt_count := n } where
  accounts := by
    obtain ⟨ha, -⟩ := h
    exact ⟨ha.ids, ha.fresh, ha.running, ha.left, ha.in_flight, ha.entry_count, ha.in_flight_le, ha.entry_count_le,
      ha.limit, ha.opening, ha.closed⟩
  queues := ⟨h.queues.requested, h.queues.fresh, hn, h.queues.write_count, h.queues.room⟩

theorem with_queue {queue : List Outbound} {n : Nat} (hn : n = queue.length) (hl : n ≤ s.write_count) :
    Inv { s with write_queue := queue, write_count := n } where
  accounts := by
    obtain ⟨ha, -⟩ := h
    exact ⟨ha.ids, ha.fresh, ha.running, ha.left, ha.in_flight, ha.entry_count, ha.in_flight_le, ha.entry_count_le,
      ha.limit, ha.opening, ha.closed⟩
  queues := ⟨h.queues.requested, h.queues.fresh, h.queues.prompt_count, hn, Nat.le_trans hl h.queues.room⟩

theorem drop_prompts (p : Prompt → Bool) : Inv (s.drop_prompts p) :=
  h.with_prompts (drop_prompts_snd (k := 0) p h.queues.prompt_count)

/-- A request is queued under an id above those queued before. -/
theorem write {it : Outbound} {sz : Nat} {m : Bool}
    (hm : ∀ id, it.request_id = some id → id < s.next_id ∧ ∀ i ∈ s.requested, i < id)
    (hw : write_payload_locked s it sz m = some t) : Inv t := by
  obtain ⟨-, hr, rfl⟩ := write_payload_locked_some hw
  obtain ⟨ha, hq⟩ := h
  constructor
  · exact ⟨ha.ids, ha.fresh, ha.running, ha.left, ha.in_flight, ha.entry_count, ha.in_flight_le, ha.entry_count_le,
      ha.limit, ha.opening, ha.closed⟩
  · have hrq : State.requested { s with
          write_queue := s.write_queue ++ [it]
          write_count := s.write_count + 1
          written := s.written ++ [it] } = s.requested ++ it.request_id.toList := by
      show (s.written ++ [it]).filterMap _ = _
      rw [List.filterMap_append]
      cases hd : it.request_id <;> simp [hd, State.requested]
    constructor
    case requested =>
      rw [hrq]
      refine List.pairwise_append.mpr ⟨hq.requested, ?_, ?_⟩
      · cases it.request_id <;> simp
      · intro i hi j hj
        exact (hm j (Option.mem_toList.mp hj)).2 i hi
    case fresh =>
      rw [hrq]
      intro i hi
      rcases List.mem_append.mp hi with hi | hi
      · exact hq.fresh i hi
      · exact (hm i (Option.mem_toList.mp hi)).1
    case prompt_count => exact hq.prompt_count
    case write_count =>
      rw [List.length_append, hq.write_count]
      rfl
    case room => exact hr

/-- A new request is listed and counted. -/
theorem add_request (d : Nat) (a : Bool) (hl : ¬ s.closed)
    (hn : ¬ s.in_flight ≥ s.max_in_flight) (hen : ¬ s.entry_count ≥ s.max_in_flight * 2) : Inv (add_request s d a) := by
  obtain ⟨ha, hq⟩ := h
  constructor
  · constructor
    case ids =>
      refine List.nodup_cons.mpr ⟨fun hm => ?_, ha.ids⟩
      obtain ⟨r, hr, he⟩ := List.mem_map.mp hm
      exact absurd he (Nat.ne_of_lt (ha.fresh r hr))
    case fresh => exact List.forall_mem_cons.mpr ⟨Nat.lt_succ_self _, fun r hr => Nat.lt_succ_of_lt (ha.fresh r hr)⟩
    case running => exact List.forall_mem_cons.mpr ⟨fun _ => ⟨rfl, rfl⟩, ha.running⟩
    case left => exact List.forall_mem_cons.mpr ⟨rfl, ha.left⟩
    case in_flight => exact (congrArg (· + 1) ha.in_flight).trans (List.countP_cons_of_pos rfl).symm
    case entry_count => exact (congrArg (· + 1) ha.entry_count).trans (List.countP_cons_of_pos rfl).symm
    case in_flight_le => exact Nat.lt_of_not_le hn
    case entry_count_le => exact Nat.lt_of_not_le hen
    case limit => exact ha.limit
    case opening => exact ha.opening
    case closed => exact fun hc => absurd hc hl
  · exact ⟨hq.requested, fun i hi => Nat.lt_succ_of_lt (hq.fresh i hi), hq.prompt_count, hq.write_count, hq.room⟩

theorem skip_id : Inv { s with next_id := s.next_id + 1 } := by
  obtain ⟨ha, hq⟩ := h
  exact ⟨⟨ha.ids, fun r hr => Nat.lt_succ_of_lt (ha.fresh r hr), ha.running, ha.left, ha.in_flight, ha.entry_count,
      ha.in_flight_le, ha.entry_count_le, ha.limit, ha.opening, ha.closed⟩,
    ⟨hq.requested, fun i hi => Nat.lt_succ_of_lt (hq.fresh i hi), hq.prompt_count, hq.write_count, hq.room⟩⟩

theorem start_request (n d : Nat) (a : Bool) (b : Build) : Inv (start_request s n d a b).1 := by
  unfold IpcResolver.start_request
  dsimp only
  split_ifs with ho hc hm
  · exact h
  · exact h
  · simp only [not_or] at ho hc
    have hn := h.add_request (min d (n + SS_MAX_DEADLINE_HORIZON_MS)) a ho.1 hc.2.2.1
      hc.2.2.2
    split
    · rename_i u hu
      obtain ⟨sz, -, hw⟩ := bind_eq_some_iff.mp hu
      refine hn.write (fun id hi => ?_) hw
      cases hi
      exact ⟨Nat.lt_succ_self _, h.queues.fresh⟩
    · exact (hn.finish (.head _) rfl (leaves_leave .IO_ERROR)).remove fun r hr hi =>
        stopped_of_finish (leaves_leave .IO_ERROR) hr hi
  · exact h.skip_id

/-! ## The reader, the deadline thread and the waiters -/

theorem stopped_of_abandoned (hr : r ∈ s.pool) (ha : r.abandoned) : r.running = false := by
  refine Bool.eq_false_iff.mpr fun hn => ?_
  rw [(h.accounts.running r hr hn).2] at ha
  cases ha

theorem deliver_response {st : Status} (hd : deliver_response s id st = some t) : Inv t := by
  unfold IpcResolver.deliver_response at hd
  split at hd
  · cases hd
  · rename_i r hf
    obtain ⟨hr, -, rfl⟩ := find_request_some hf
    split_ifs at hd with ha hn
    · cases hd
      refine (h.drop_prompts _).remove fun q hq hi => ?_
      obtain rfl := h.accounts.unique hq hr hi
      exact h.stopped_of_abandoned hq ha
    · cases hd
      have hdn := h.finish hr hn (leaves_leave st)
      exact (hdn.drop_prompts _).remove fun q hq hi => stopped_of_finish (leaves_leave st) hq hi

theorem abandon (hr : r ∈ s.pool) (hn : r.running) : Inv (abandon s r.id) :=
  (h.finish hr hn leaves_abandon).drop_prompts _

theorem expire_request (n : Nat) (i : List Nat) (id : Nat) : Inv (expire_request n (s, i) id).1 := by
  unfold IpcResolver.expire_request
  split
  · exact h
  · rename_i r hf
    obtain ⟨hr, -, rfl⟩ := find_request_some hf
    dsimp only
    split_ifs with hd hs
    · exact (h.abandon hr hd.1).update r.id keeps_cancel
    · exact h.abandon hr hd.1
    · exact h

end

theorem expire_requests (n : Nat) (td : List Nat) {a : State × List Nat} (h : Inv a.1) :
    Inv (td.foldl (IpcResolver.expire_request n) a).1 := by
  induction td generalizing a with
  | nil => exact h
  | cons id td ih => exact ih (h.expire_request n a.2 id)

section

variable (h : Inv s)

include h

theorem deadline_pass (n : Nat) : Inv (deadline_pass s n) := by
  have hs : Inv ((s, []) : State × List Nat).1 := h
  exact (expire_requests n (s.requests.map Request.id) hs).of rfl id

theorem wait_abandon (hr : r ∈ s.pool) (hn : r.running) : Inv (wait_abandon s r.id) :=
  ((h.abandon hr hn).update r.id keeps_cancel).of rfl id

theorem wait_turn (hr : r ∈ s.pool) (now₁ now₂ : Nat) : Inv (wait_turn s r now₁ now₂).1 := by
  unfold IpcResolver.wait_turn
  dsimp only
  have he : Inv (prompts_expire s now₁) := h.drop_prompts _
  split_ifs with hn _ _
  · exact (he.update r.id (keeps_set_waiter false)).update r.id (keeps_block false)
  · exact (he.wait_abandon hr hn).update r.id (keeps_block false)
  · exact he.update r.id (keeps_block true)
  · exact h.update r.id (keeps_block false)

theorem wait_call (hr : r ∈ s.pool) (now₁ now₂ : Nat) : Inv (wait_call s r now₁ now₂).1 := by
  unfold IpcResolver.wait_call
  split_ifs
  · exact h
  · exact (h.update r.id (keeps_set_waiter true)).wait_turn (mem_update hr _) now₁ now₂

theorem wait_wake (hr : r ∈ s.pool) (tm : Bool) (now₁ now₂ : Nat) : Inv (wait_wake s r tm now₁ now₂).1 := by
  unfold IpcResolver.wait_wake
  split_ifs with _ hn
  · exact (h.wait_abandon hr hn).update r.id (keeps_block false)
  · exact h.update r.id (keeps_block false)
  · exact h.wait_turn hr now₁ now₂

theorem call_cancel (r : Request) : Inv (call_cancel s r) := by
  unfold IpcResolver.call_cancel
  split_ifs
  · exact ((h.update r.id keeps_cancel).drop_prompts _).of rfl id
  · exact h

theorem send_cancel (m : Bool) : Inv (send_cancel s id m) := by
  unfold IpcResolver.send_cancel
  cases hw : write_payload_locked s (.cancel id) (cancel_payload id).length m with
  | none => exact h
  | some t => exact h.write (fun _ hi => by cases hi) hw

/-! ## The steps -/

theorem open_step {e : OpenEv} (hs : open_step cfg s e = some t) : Inv t := by
  cases e with
  | start n d b =>
    simp only [IpcResolver.open_step] at hs
    obtain ⟨ho, hs⟩ := ite_none_right_eq_some.mp hs
    cases hs
    refine (h.start_request n d false b).of rfl fun _ => ?_
    obtain ⟨_, _, _, _, _, _, _, -, he⟩ := start_request_frame s n d false b
    exact .inl (he ▸ ho)
  | validated frame i =>
    simp only [IpcResolver.open_step] at hs
    obtain ⟨hg, hs⟩ := ite_none_right_eq_some.mp hs
    cases hs
    obtain ⟨ho, -, hl, -, -⟩ := hg
    simp only [limits_valid, Bool.and_eq_true, decide_eq_true_eq, bne_iff_ne] at hl
    obtain ⟨⟨-, hp⟩, hm⟩ := hl
    obtain ⟨ha, hq⟩ := h
    -- the one request so far was the initialization, under the initial limit of one
    have hn := ha.opening (.inr ho)
    have hi := ha.in_flight_le
    have hen := ha.entry_count_le
    exact ⟨⟨ha.ids, ha.fresh, ha.running, ha.left, ha.in_flight, ha.entry_count, by show s.in_flight ≤ i; omega,
        by show s.entry_count ≤ i * 2; omega, ⟨Nat.pos_iff_ne_zero.mpr hp, hm⟩, nofun, ha.closed⟩,
      ⟨hq.requested, hq.fresh, hq.prompt_count, hq.write_count, hq.room⟩⟩
  | refused | publish | abort =>
    simp only [IpcResolver.open_step] at hs
    replace hs := of_guard hs
    cases hs
    exact h.of rfl nofun

theorem accept_prompt (p : Prompt) (m : Bool) (now₁ now₂ : Nat) : Inv (accept_prompt cfg s p m now₁ now₂).1 := by
  have he : Inv (prompts_expire s now₁) := h.drop_prompts _
  unfold IpcResolver.accept_prompt
  split
  · exact h
  · split
    · exact h
    · dsimp only
      split_ifs
      · exact h
      · exact he.of rfl id
      · exact he
      · exact he.of rfl id
      · have hc : (prompts_expire s now₁).prompt_count + 1 = (p :: (prompts_expire s now₁).prompts).length :=
          congrArg (· + 1) he.queues.prompt_count
        exact (he.with_prompts hc).of rfl id

theorem reader_step {e : ReaderEv} (hs : reader_step cfg s e = some t) : Inv t := by
  cases e with
  | response id st =>
    simp only [IpcResolver.reader_step] at hs
    replace hs := of_guard hs
    split at hs
    · cases hs
      exact h.of rfl fun ho => ho
    · rename_i u hu
      cases hs
      exact (h.deliver_response hu).of rfl fun ho => ho
  | prompt id p d m now₁ now₂ =>
    simp only [IpcResolver.reader_step] at hs
    replace hs := of_guard hs
    cases hs
    exact (h.accept_prompt _ m now₁ now₂).of rfl fun ho => ho
  | declined =>
    simp only [IpcResolver.reader_step] at hs
    split at hs
    · split at hs
      · obtain ⟨st, -, rfl⟩ := map_eq_some_iff.mp hs
        split
        all_goals exact h.of rfl id
      · cases hs
    · cases hs
  | fail =>
    simp only [IpcResolver.reader_step] at hs
    split at hs
    · cases hs
      exact (h.fail_all _).of rfl id
    · cases hs
  | _ =>
    simp only [IpcResolver.reader_step] at hs
    replace hs := of_guard hs
    cases hs
    exact h.of rfl id

theorem writer_step {e : WriterEv} (hs : writer_step s e = some t) : Inv t := by
  cases e with
  | write ok =>
    simp only [IpcResolver.writer_step] at hs
    replace hs := of_guard hs
    split at hs
    · cases hs
    · rename_i i r hq
      cases hs
      have hc : s.write_count = r.length + 1 := by rw [h.queues.write_count, hq, List.length_cons]
      have hd : size_dec s.write_count = r.length := by
        rw [size_dec_pos (hc ▸ Nat.succ_pos _), hc]
        rfl
      have hl : size_dec s.write_count ≤ s.write_count := by omega
      exact (h.with_queue hd hl).of rfl id
  | fail =>
    simp only [IpcResolver.writer_step] at hs
    replace hs := of_guard hs
    cases hs
    exact (h.fail_all _).of rfl id
  | stop =>
    simp only [IpcResolver.writer_step] at hs
    replace hs := of_guard hs
    cases hs
    have he : 0 = ([] : List Outbound).length := rfl
    exact (h.with_queue he (Nat.zero_le _)).of rfl id

theorem call_step {e : CallEv} (hs : call_step s e = some t) : Inv t := by
  cases e with
  | start now₁ now₂ d a b =>
    simp only [IpcResolver.call_step] at hs
    replace hs := of_guard hs
    cases hs
    unfold call_start
    split_ifs
    · exact h
    · exact h.start_request now₂ d true b
    · exact h
  | wait id now₁ now₂ =>
    obtain ⟨r, hr, rfl⟩ := map_eq_some_iff.mp hs
    exact h.wait_call (call_some hr).1 now₁ now₂
  | wake id tm now₁ now₂ =>
    obtain ⟨r, hr, hs⟩ := bind_eq_some_iff.mp hs
    replace hs := of_guard hs
    cases hs
    exact h.wait_wake (call_some hr).1 tm now₁ now₂
  | cancel id =>
    obtain ⟨r, -, rfl⟩ := map_eq_some_iff.mp hs
    exact h.call_cancel r
  | send_cancel id m =>
    simp only [IpcResolver.call_step] at hs
    replace hs := of_guard hs
    cases hs
    have hl : Inv { s with cancels := s.cancels.erase id } := h.of rfl fun ho => ho
    exact hl.send_cancel m

theorem set_held (id : Nat) (f : Held → Held) : Inv (s.set_held id f) := h.of rfl fun ho => ho

theorem check_answer (held : Held) (o : Bool) (n : Nat) : Inv (check_answer s held o n) := by
  unfold IpcResolver.check_answer
  split
  all_goals exact h.set_held _ _

theorem commit_answer (held : Held) (o : Bool) (r : Reply) (n : Nat) (m : Bool) : Inv (commit_answer s held o r n m) := by
  unfold IpcResolver.commit_answer
  dsimp only
  split
  · split
    · exact h.set_held _ _
    · split
      · rename_i u hu
        exact ((h.set_held _ _).write (fun _ hi => by cases hi) hu).set_held _ _
      · exact (h.set_held _ _).set_held _ _
  · exact h.set_held _ _

theorem prompt_step {e : PromptEv} (hs : prompt_step s e = some t) : Inv t := by
  cases e with
  | take n =>
    simp only [IpcResolver.prompt_step] at hs
    split_ifs at hs
    have he : Inv (prompts_expire s n) := h.drop_prompts _
    split at hs
    · cases hs
      exact he
    · rename_i p r hp
      cases hs
      have hc : (prompts_expire s n).prompt_count = r.length + 1 := by
        rw [he.queues.prompt_count, hp, List.length_cons]
      have hd : size_dec (prompts_expire s n).prompt_count = r.length := by
        rw [size_dec_pos (hc ▸ Nat.succ_pos _), hc]
        rfl
      exact (he.with_prompts hd).of rfl id
  | check id o n =>
    obtain ⟨held, -, hs⟩ := bind_eq_some_iff.mp hs
    split_ifs at hs
    all_goals
      cases hs
      exact h.check_answer held _ n
  | unbuilt id o =>
    obtain ⟨held, -, hs⟩ := bind_eq_some_iff.mp hs
    replace hs := of_guard hs
    cases hs
    exact h.set_held _ _
  | commit id o rp n m =>
    obtain ⟨held, -, hs⟩ := bind_eq_some_iff.mp hs
    replace hs := of_guard hs
    cases hs
    exact h.commit_answer held o rp n m
  | free id =>
    obtain ⟨held, -, hs⟩ := bind_eq_some_iff.mp hs
    replace hs := of_guard hs
    cases hs
    exact h.of rfl fun ho => ho

theorem close_step {e : CloseEv} (hs : close_step s e = some t) : Inv t := by
  cases e with
  | start =>
    simp only [IpcResolver.close_step] at hs
    replace hs := of_guard hs
    cases hs
    have he : 0 = ([] : List Prompt).length := rfl
    exact (h.with_prompts he).of rfl id
  | shutdown n d b =>
    simp only [IpcResolver.close_step] at hs
    replace hs := of_guard hs
    cases hs
    exact (h.start_request n d false b).of rfl id
  | stop_writer =>
    simp only [IpcResolver.close_step] at hs
    replace hs := of_guard hs
    cases hs
    exact h.of rfl id
  | fail =>
    simp only [IpcResolver.close_step] at hs
    replace hs := of_guard hs
    cases hs
    exact h.fail_all _
  | clear =>
    simp only [IpcResolver.close_step] at hs
    replace hs := of_guard hs
    cases hs
    have he : 0 = ([] : List Outbound).length := rfl
    exact h.with_queue he (Nat.zero_le _)

end

theorem init : Inv (machine cfg).init where
  accounts :=
    { ids := List.nodup_nil, fresh := List.forall_mem_nil _, running := List.forall_mem_nil _
      left := List.forall_mem_nil _, in_flight := rfl, entry_count := rfl, in_flight_le := Nat.zero_le _
      entry_count_le := Nat.zero_le _, limit := ⟨Nat.le_refl 1, (by decide : 1 ≤ SS_MAX_IN_FLIGHT)⟩, opening := fun _ => rfl
      closed := fun _ => List.forall_mem_nil _ }
  queues :=
    { requested := List.Pairwise.nil, fresh := List.forall_mem_nil _, prompt_count := rfl, write_count := rfl
      room := Nat.zero_le _ }

theorem step (h : Inv s) {e : Ev} (hs : step cfg s e = some t) : Inv t := by
  cases e with
  | opener e => exact h.open_step hs
  | reader e => exact h.reader_step hs
  | writer e => exact h.writer_step hs
  | deadline n =>
    simp only [IpcResolver.step] at hs
    split_ifs at hs
    cases hs
    exact h.deadline_pass n
  | call e => exact h.call_step hs
  | prompt e => exact h.prompt_step hs
  | close e => exact h.close_step hs

theorem reach {ok : State → Ev → Bool} (h : Reach (machine cfg) ok s) : Inv s :=
  h.inv init fun _ _ _ hi _ hs => hi.step hs

end Inv

/-! ## Every request ends -/

/-- A turn of the deadline thread leaves no due request running under the id it visits. -/
theorem expire_request_running (h : Inv s) (n : Nat) (i : List Nat)
    (hr : r ∈ (expire_request n (s, i) id).1.pool) (hn : r.running) : r ∈ s.pool ∧ (r.id = id → n < r.deadline_unix_ms) := by
  unfold expire_request at hr
  split at hr
  · rename_i hnn
    refine ⟨hr, fun hi => ?_⟩
    have hf := h.accounts.find_request_eq hr (h.accounts.running r hr hn).1
    rw [hi] at hf
    cases hf.symm.trans hnn
  · rename_i q hs
    obtain ⟨hq, -, rfl⟩ := find_request_some hs
    have hl : r ∈ (abandon s q.id).pool → r ∈ s.pool ∧ (r.id = q.id → n < r.deadline_unix_ms) := by
      intro hr
      rcases mem_update_pool hr with ⟨hr, hne⟩ | ⟨u, -, -, rfl⟩
      · exact ⟨hr, fun he => absurd he hne⟩
      · cases hn
    dsimp only at hr
    split_ifs at hr with hd
    · rcases mem_update_pool hr with ⟨hr, -⟩ | ⟨u, hu, hi, rfl⟩
      · exact hl hr
      · have ht : u.running = false := stopped_of_finish leaves_abandon hu hi
        exact absurd (ht.symm.trans hn) Bool.false_ne_true
    · exact hl hr
    · refine ⟨hr, fun hi => ?_⟩
      obtain rfl := h.accounts.unique hr hq hi
      exact Nat.lt_of_not_le fun hle => hd ⟨hn, hle⟩

theorem expire_requests_running (n : Nat) (td : List Nat) {a : State × List Nat} (h : Inv a.1)
    (hr : r ∈ (td.foldl (expire_request n) a).1.pool) (hn : r.running) :
    r ∈ a.1.pool ∧ (r.id ∈ td → n < r.deadline_unix_ms) := by
  induction td generalizing a with
  | nil => exact ⟨hr, fun hi => absurd hi List.not_mem_nil⟩
  | cons id td ih =>
    obtain ⟨hm, hl⟩ := ih (h.expire_request n a.2 id) hr
    obtain ⟨hf, hhr⟩ := expire_request_running h n a.2 hm hn
    refine ⟨hf, fun hi => ?_⟩
    rcases List.mem_cons.mp hi with he | hi
    · exact hhr he
    · exact hl hi

/-- The deadline thread's pass ends every request that is due. -/
theorem deadline_pass_ends (h : Inv s) (n : Nat) :
    ∀ r ∈ (deadline_pass s n).pool, r.deadline_unix_ms ≤ n → r.running = false := by
  intro r hr hd
  refine Bool.eq_false_iff.mpr fun hn => ?_
  have ha : Inv (s, ([] : List Nat)).1 := h
  obtain ⟨hm, hl⟩ := expire_requests_running n (s.requests.map Request.id) ha hr hn
  have hs := (h.accounts.running r hm hn).1
  exact absurd (hl (List.mem_map_of_mem (mem_requests.mpr ⟨hm, hs⟩))) (Nat.not_lt_of_le hd)

/-! ## The accounting -/

theorem request_accounting (h : Reach (machine cfg) any s) :
    s.in_flight = s.requests.countP (·.running) ∧ (s.closed = true → s.in_flight = 0) ∧
      s.entry_count = s.requests.length ∧ s.entry_count ≤ s.max_in_flight * 2 ∧ s.in_flight ≤ s.max_in_flight ∧
      s.max_in_flight ≤ SS_MAX_IN_FLIGHT ∧ s.prompt_count = s.prompts.length ∧ s.write_count = s.write_queue.length ∧
      (∀ r ∈ s.pool, r.left = if r.running then 0 else 1) ∧ (s.closed = true → ∀ r ∈ s.pool, r.running = false) ∧
      (∀ now t, (machine cfg).step s (.deadline now) = some t →
        ∀ r ∈ t.pool, r.deadline_unix_ms ≤ now → r.running = false) ∧
      s.requested.Pairwise (· < ·) := by
  have hi := Inv.reach h
  obtain ⟨ha, hq⟩ := hi
  have hl : s.pool.countP (·.running) = s.requests.countP (·.running) := by
    unfold State.requests
    rw [List.countP_filter]
    refine List.countP_congr fun r hr => ?_
    simp only [Bool.and_eq_true]
    exact ⟨fun hn => ⟨hn, (ha.running r hr hn).1⟩, And.left⟩
  have ht : s.closed → ∀ r ∈ s.pool, r.running = false := by
    intro hc r hr
    refine Bool.eq_false_iff.mpr fun hn => ?_
    exact absurd ((ha.closed hc r hr).symm.trans (ha.running r hr hn).1) Bool.false_ne_true
  refine ⟨ha.in_flight.trans hl, fun hc => ?_, ?_, ha.entry_count_le, ha.in_flight_le, ha.limit.2,
    hq.prompt_count, hq.write_count, ha.left, ht, fun now t hs => ?_, hq.requested⟩
  · rw [ha.in_flight]
    refine List.countP_eq_zero.mpr fun r hr hn => ?_
    exact absurd ((ht hc r hr).symm.trans hn) Bool.false_ne_true
  · rw [ha.entry_count, List.countP_eq_length_filter]
    rfl
  · simp only [machine, step] at hs
    split_ifs at hs
    cases hs
    exact deadline_pass_ends ⟨ha, hq⟩ now

/-- A session opened with a frame limit of 4096 bytes and four requests in flight. -/
def opened : List Ev :=
  [.opener (.start 0 1000 ⟨true, some 200, true⟩), .call (.wait 1 0 0), .reader (.response 1 .OK),
    .call (.wake 1 false 0 0), .opener (.validated 4096 4), .opener .publish, .reader .resume]

/-- Three calls: one is answered, one times out and stays listed until its late response. -/
theorem request_accounting_run :
    ∃ s, Reach (machine ⟨true, 4096, 4⟩) any s ∧ (s.in_flight, s.entry_count, s.cancels) = (1, 2, [3]) ∧
      s.in_flight = s.requests.countP (·.running) ∧ s.requested.Pairwise (· < ·) := by
  obtain ⟨s, hr, hs⟩ := reach_of_run (machine ⟨true, 4096, 4⟩) any
    (opened ++
      [.call (.start 0 0 500 true ⟨true, some 90, true⟩), .call (.start 0 0 20 true ⟨true, some 90, true⟩),
        .call (.start 0 0 500 true ⟨true, some 90, true⟩), .reader (.response 2 .OK), .deadline 100])
    (fun s => (s.in_flight, s.entry_count, s.cancels)) (1, 2, [3]) (by decide)
  have h := request_accounting hr
  exact ⟨s, hr, hs, h.1, h.2.2.2.2.2.2.2.2.2.2.2⟩

end Monosecret.IpcResolver
