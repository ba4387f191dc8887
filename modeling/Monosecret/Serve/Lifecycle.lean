/-
  Monosecret.Serve.Lifecycle — the life of a lease: handed out, kept, removed.

  - A request's lease is the one its task, or the pending table, names (`NameInv`). So
    `request_finished` without a commit removes the lease of its own request and no other,
    given that `random_token` does not repeat itself.
  - `lease_lifecycle`: every file has one owner; an uncommitted lease is gone with its file;
    a committed one keeps its file until it is released or the session shuts down; after
    that the directory is empty once no task is left; the table keeps its bound.

  A file in the hands of a `get` is in the directory and not in the table
  (`a_file_without_lease`). The bound on supporting files can be passed: while
  `request_finished` carries files from one table to the other they are in neither, and a
  `get` that counts both tables at that moment finds room (`supporting_files_past_the_bound`).
-/

import Mathlib.Algebra.Order.BigOperators.Group.List
import Mathlib.Algebra.Order.Group.Nat
import Monosecret.Serve.Leases

namespace Monosecret.Serve

open Lib Machine
open Monosecret.Rpc (RequestId)

/-- The lease ID the task has in hand. -/
def Phase.lease_id : Phase → Option String
  | .leased lease_id => some lease_id
  | .unpended _ lease_id | .settling _ lease_id _ => lease_id
  | _ => none

/-- The task, or the pending table for it, still names the lease, unless it may stay. -/
def Phase.tracks (pending : Option String) (lease_id : String) : Phase → Prop
  | .returned | .finishing _ => pending = some lease_id
  | .finished committed => committed = true
  | .aborted _ => True
  | phase => phase.lease_id = some lease_id

/-- The response of the request became its terminal frame, or its task was dropped. -/
def Phase.stays : Phase → Bool
  | .finishing committed | .unpended committed _ | .settling committed _ _ | .finished committed => committed
  | .aborted _ => true
  | _ => false

variable {random_token : Nat → String} {s t : Session} {r : RequestId}

/-- The request's lease ID, in its task or in the pending table. -/
def Named (s : Session) (r : RequestId) (x : String) : Prop :=
  s.pending_leases r = some x ∨ (s.calls r).lease_id = some x

/-! ## Names -/

structure NameInv (random_token : Nat → String) (s : Session) : Prop where
  drawn : ∀ p ∈ s.leases, ∃ n < s.drawn, p.1 = random_token n
  named : ∀ r x, Named s r x → ∃ n < s.drawn, x = random_token n
  own : ∀ r x f, Named s r x → (x, f) ∈ s.leases → f.request = r
  tracked : s.attached = true → ∀ p ∈ s.leases, (s.calls p.2.request).tracks (s.pending_leases p.2.request) p.1

theorem NameInv.init : NameInv random_token {} where
  drawn := nofun
  named := by rintro r x (h | h) <;> cases h
  own := nofun
  tracked := nofun

variable {attached : Bool} {x : String}

theorem Phase.Goes.lease_id {p q : Phase} (h : p.Goes attached q) (hq : q.lease_id = some x) : p.lease_id = some x := by
  cases h <;> cases hq

theorem Phase.Goes.tracks {p q : Phase} {pending : Option String} (h : p.Goes attached q) (ha : attached)
    (hp : p.tracks pending x) : q.tracks pending x := by
  cases h with
  | finish => exact hp
  | finish_detached c hd => rw [ha] at hd; cases hd
  | abort => trivial
  | _ => cases hp

/-- A step that names and inserts no lease. -/
theorem NameInv.of (h : NameInv random_token s) (hl : ∀ p ∈ t.leases, p ∈ s.leases) (hd : s.drawn ≤ t.drawn)
    (hm : ∀ q x, Named t q x → Named s q x) (hc : t.attached → s.attached)
    (ht : t.attached → ∀ p ∈ t.leases, (s.calls p.2.request).tracks (s.pending_leases p.2.request) p.1 →
      (t.calls p.2.request).tracks (t.pending_leases p.2.request) p.1) : NameInv random_token t where
  drawn := fun p hp => by
    obtain ⟨n, hn, hx⟩ := h.drawn p (hl p hp)
    exact ⟨n, Nat.lt_of_lt_of_le hn hd, hx⟩
  named := fun q x hq => by
    obtain ⟨n, hn, hx⟩ := h.named q x (hm q x hq)
    exact ⟨n, Nat.lt_of_lt_of_le hn hd, hx⟩
  own := fun q x f hq hf => h.own q x f (hm q x hq) (hl _ hf)
  tracked := fun ha p hp => ht ha p hp (h.tracked (hc ha) p (hl p hp))

/-- The task of `r` goes on; what it named it named before, and what it tracked it tracks. -/
theorem NameInv.at (h : NameInv random_token s) {ph : Phase}
    (hi : ∀ x, ph.lease_id = some x → (s.calls r).lease_id = some x)
    (hr : s.attached → ∀ x, (s.calls r).tracks (s.pending_leases r) x → ph.tracks (s.pending_leases r) x) :
    NameInv random_token (s.at r ph) := by
  refine h.of (fun _ hp => hp) (Nat.le_refl _) (fun q x hq => ?_) id fun ha p hp ht => ?_
  · rcases hq with hq | hq
    · exact .inl hq
    · rw [calls_at] at hq
      split at hq
      · rename_i hqr
        exact .inr (hqr ▸ hi x hq)
      · exact .inr hq
  · rw [calls_at]
    split
    · rename_i hqr
      rw [hqr] at ht ⊢
      exact hr ha p.1 ht
    · exact ht

/-- A step of the task that changes neither names nor table. -/
theorem NameInv.frame (h : NameInv random_token s) (hl : t.leases = s.leases) (hd : s.drawn ≤ t.drawn)
    (hn : t.pending_leases = s.pending_leases) (hc : t.attached = s.attached) (hcl : t.calls = s.calls) :
    NameInv random_token t := by
  refine h.of (fun p hp => hl ▸ hp) hd (fun q x hq => ?_) (fun ha => hc ▸ ha) fun _ p _ ht => ?_
  · rw [Named, hn, hcl] at hq
    exact hq
  · rw [hn, hcl]
    exact ht

theorem remove_entry_leases (s : Session) (x : String) :
    ∀ p ∈ (remove_entry s x).leases, p ∈ s.leases ∧ p.1 ≠ x := by
  intro p hp
  rcases remove_entry_spec s x with ⟨he, hn⟩ | ⟨f, -, he⟩
  · rw [he] at hp
    exact ⟨hp, fun hx => hn p.2 (hx ▸ hp)⟩
  · rw [he] at hp
    obtain ⟨hp, hx⟩ := List.mem_filter.mp hp
    exact ⟨hp, bne_iff_ne.mp hx⟩

/-- Removing entries changes no name. -/
theorem NameInv.remove_entry (h : NameInv random_token s) (x : String) : NameInv random_token (remove_entry s x) := by
  obtain ⟨l, dir, he⟩ := remove_entry_frame s x
  have hs := remove_entry_leases s x
  rw [he] at hs ⊢
  exact h.of (fun p hp => (hs p hp).1) (Nat.le_refl _) (fun _ _ hq => hq) id fun _ _ _ ht => ht

variable {f : File}

/-- The new lease is named by its task, and by no other. -/
theorem NameInv.insert (h : NameInv random_token s) (hi : Function.Injective random_token) {tr : Nat}
    (hr : s.calls r = .retained f) (hf : f.request = r) :
    NameInv random_token { s.at r (.leased (random_token (s.drawn + tr))) with
      leases := s.leases ++ [(random_token (s.drawn + tr), f)], drawn := s.drawn + tr + 1 } := by
  have hl : ∀ n < s.drawn, n < s.drawn + tr + 1 := fun n hn => by omega
  have hold : ∀ q x, Named s q x → x ≠ random_token (s.drawn + tr) := fun q x hq he => by
    obtain ⟨n, hn, hx⟩ := h.named q x hq
    have := hi (hx.symm.trans he)
    omega
  have hm : ∀ q x, Named { s.at r (.leased (random_token (s.drawn + tr))) with
      leases := s.leases ++ [(random_token (s.drawn + tr), f)], drawn := s.drawn + tr + 1 } q x →
      q = r ∧ x = random_token (s.drawn + tr) ∨ Named s q x := by
    rintro q x (hq | hq)
    · exact .inr (.inl hq)
    · by_cases hqr : q = r
      · refine .inl ⟨hqr, ?_⟩
        rw [hqr] at hq
        rw [show ((s.at r (.leased (random_token (s.drawn + tr)))).calls r) = _ from calls_at_self s r _] at hq
        exact (Option.some.inj hq).symm
      · exact .inr (.inr (calls_at_ne s hqr (.leased (random_token (s.drawn + tr))) ▸ hq))
  refine ⟨fun p hp => ?_, fun q x hq => ?_, fun q x g hq hg => ?_, fun ha p hp => ?_⟩
  · rcases List.mem_append.mp hp with hp | hp
    · obtain ⟨n, hn, hx⟩ := h.drawn p hp
      exact ⟨n, hl n hn, hx⟩
    · exact ⟨s.drawn + tr, Nat.lt_succ_self _, by rw [List.mem_singleton.mp hp]⟩
  · rcases hm q x hq with ⟨-, hx⟩ | hq
    · exact ⟨s.drawn + tr, Nat.lt_succ_self _, hx⟩
    · obtain ⟨n, hn, hx⟩ := h.named q x hq
      exact ⟨n, hl n hn, hx⟩
  · rcases List.mem_append.mp hg with hg | hg
    · rcases hm q x hq with ⟨-, hx⟩ | hq
      · obtain ⟨n, hn, hxn⟩ := h.drawn _ hg
        have := hi (hxn.symm.trans hx)
        omega
      · exact h.own q x g hq hg
    · obtain ⟨rfl, rfl⟩ := Prod.mk.inj (List.mem_singleton.mp hg)
      rcases hm q _ hq with ⟨hqr, -⟩ | hq
      · exact hf.trans hqr.symm
      · exact absurd rfl (hold q _ hq)
  · rcases List.mem_append.mp hp with hp | hp
    · have ht := h.tracked ha p hp
      have hne : p.2.request ≠ r := fun he => by
        rw [he, hr] at ht
        cases ht
      rw [calls_at_ne s hne]
      exact ht
    · rw [List.mem_singleton.mp hp]
      rw [hf, calls_at_self]
      rfl

/-- The lease ID goes from the task into the pending table. -/
theorem NameInv.record (h : NameInv random_token s) (hr : s.calls r = .leased x) :
    NameInv random_token { s.at r .returned with pending_leases := s.pending_leases.insert r x } := by
  refine h.of (fun _ hp => hp) (Nat.le_refl _) (fun q y hq => ?_) id fun _ p _ ht => ?_
  · by_cases hqr : q = r
    · subst hqr
      have hy : y = x := by
        rcases hq with hq | hq
        · exact (Option.some.inj ((Map.insert_self q x s.pending_leases).symm.trans hq)).symm
        · rw [show ((s.at q .returned).calls q) = _ from calls_at_self s q _] at hq
          cases hq
      exact .inr (by rw [hr, hy]; rfl)
    · rcases hq with hq | hq
      · exact .inl ((Map.insert_of_ne hqr x s.pending_leases) ▸ hq)
      · exact .inr (calls_at_ne s hqr .returned ▸ hq)
  · show ((s.at r .returned).calls p.2.request).tracks (s.pending_leases.insert r x p.2.request) p.1
    by_cases hqr : p.2.request = r
    · rw [hqr, hr] at ht
      rw [hqr, calls_at_self, Map.insert_self]
      exact ht
    · rw [calls_at_ne s hqr, Map.insert_of_ne hqr]
      exact ht

/-- `request_finished` takes the lease ID from the pending table. -/
theorem NameInv.take_lease (h : NameInv random_token s) {c : Bool} (hr : s.calls r = .finishing c) :
    NameInv random_token { s.at r (.unpended c (s.pending_leases r)) with
      pending_leases := s.pending_leases.remove r } := by
  refine h.of (fun _ hp => hp) (Nat.le_refl _) (fun q y hq => ?_) id fun _ p _ ht => ?_
  · by_cases hqr : q = r
    · subst hqr
      rcases hq with hq | hq
      · have hn : s.pending_leases.remove q q = some y := hq
        rw [Map.remove_self] at hn
        cases hn
      · rw [show ((s.at q (.unpended c (s.pending_leases q))).calls q) = _ from calls_at_self s q _] at hq
        exact .inl hq
    · rcases hq with hq | hq
      · exact .inl ((Map.remove_of_ne hqr s.pending_leases) ▸ hq)
      · exact .inr (calls_at_ne s hqr (.unpended c (s.pending_leases r)) ▸ hq)
  · show ((s.at r (.unpended c (s.pending_leases r))).calls p.2.request).tracks
      (s.pending_leases.remove r p.2.request) p.1
    by_cases hqr : p.2.request = r
    · rw [hqr, hr] at ht
      rw [hqr, calls_at_self]
      exact ht
    · rw [calls_at_ne s hqr, Map.remove_of_ne hqr]
      exact ht

/-- `request_finished(false)` removes the lease its request names: none of the request is left. -/
theorem NameInv.uncommit (h : NameInv random_token s) {x : Option String} {sp : List Supporting}
    (hr : s.calls r = .settling false x sp) :
    NameInv random_token ((settle s false x sp).at r (.finished false)) := by
  have hm : NameInv random_token (settle s false x sp) := by
    cases x with
    | none => exact h
    | some x => exact h.remove_entry x
  obtain ⟨l, dir, he⟩ := settle_frame s x sp
  have hl : ∀ p ∈ (settle s false x sp).leases, p ∈ s.leases ∧ x ≠ some p.1 := by
    intro p hp
    cases x with
    | none => exact ⟨hp, nofun⟩
    | some x =>
      obtain ⟨hp, hx⟩ := remove_entry_leases s x p hp
      exact ⟨hp, fun hs => hx (Option.some.inj hs).symm⟩
  refine hm.of (fun _ hp => hp) (Nat.le_refl _) (fun q y hq => ?_) id fun ha p hp ht => ?_
  · rcases hq with hq | hq
    · exact .inl hq
    · rw [calls_at] at hq
      split at hq
      · cases hq
      · exact .inr hq
  · obtain ⟨hp, hx⟩ := hl p hp
    rw [he] at ha
    have htr := h.tracked ha p hp
    by_cases hqr : p.2.request = r
    · rw [hqr, hr] at htr
      exact absurd htr hx
    · rw [calls_at_ne _ hqr]
      exact ht

variable {e : CallEv}

theorem NameInv.move (h : NameInv random_token s) (hl : FileInv s) (hi : Function.Injective random_token)
    (hm : Move random_token s r e t) : NameInv random_token t := by
  have hq : ∀ {u : Session} {ph : Phase}, NameInv random_token u → ph.lease_id = none →
      (∀ x, ¬ (u.calls r).tracks (u.pending_leases r) x) → NameInv random_token (u.at r ph) :=
    fun hu hp hr => hu.at (fun x hx => by rw [hp] at hx; cases hx) fun _ x ht => absurd ht (hr x)
  cases hm with
  | start ph hr hp =>
    have hph : ph.lease_id = none := by
      rcases hp with ⟨-, rfl | ⟨i, rfl⟩⟩ | rfl <;> rfl
    have hd := hq h hph fun x ht => by rw [hr] at ht; cases ht
    exact hd.frame rfl (Nat.le_refl _) rfl rfl rfl
  | go ph hr => exact h.at (fun x hx => hr.lease_id hx) fun ha x ht => hr.tracks ha ht
  | pathless n hr hn =>
    have hd : NameInv random_token { s with drawn := n } := h.frame rfl hn rfl rfl rfl
    exact hq hd rfl fun x ht => by rw [hr] at ht; cases ht
  | persist n file sp hr hn =>
    have hd : NameInv random_token { s with
      drawn := n, next_identity := s.next_identity + 1, dir := s.dir ++ [file] } := h.frame rfl hn rfl rfl rfl
    exact hq hd rfl fun x ht => by rw [hr] at ht; cases ht
  | give_up file next hf hh hnx =>
    have hph : next.lease_id = none := by rcases hnx with rfl | rfl <;> rfl
    have hd := hq h hph fun x ht => by
      cases hr : s.calls r <;> rw [hr] at ht hf hh <;> first | (cases hf; done) | (cases hh; done) | cases ht
    exact hd.frame rfl (Nat.le_refl _) rfl rfl rfl
  | retain sp next u hu hnx =>
    obtain ⟨rfl, -⟩ := retain_spec hu
    have hd : NameInv random_token { s with
        pending_supporting_files := (r, sp) :: s.pending_supporting_files.filter fun p => p.1 != r } :=
      h.frame rfl (Nat.le_refl _) rfl rfl rfl
    rcases hnx with ⟨hr, rfl⟩ | ⟨file, hr, rfl⟩
    all_goals exact hq hd rfl fun x ht => by rw [hr] at ht; cases ht
  | insert file tr hr =>
    exact h.insert hi hr (hl.mine r file (by rw [hr]; rfl))
  | record lease_id hr => exact h.record hr
  | refuse hr =>
    have hd : NameInv random_token (forget_pending_files s r) := h.frame rfl (Nat.le_refl _) rfl rfl rfl
    exact hq hd rfl fun x ht => by rw [forget_pending_files, hr] at ht; cases ht
  | unlock i hr =>
    have hd : NameInv random_token (release_loop i [] 0 s).1 :=
      release_loop_induct (fun u x _ hu => hu.remove_entry x) [] 0 s h
    obtain ⟨l, dir, he⟩ := release_loop_frame i s
    exact hq hd rfl fun x ht => by rw [he, hr] at ht; cases ht
  | take_lease committed hr => exact h.take_lease hr
  | take_files committed lease_id hr =>
    have hd : NameInv random_token (forget_pending_files s r) := h.frame rfl (Nat.le_refl _) rfl rfl rfl
    have hc : (forget_pending_files s r).calls r = .unpended committed lease_id := hr
    exact hd.at (fun x hx => by rw [hc]; exact hx) fun _ x ht => by rw [hc] at ht; exact ht
  | commit lease_id sp hr =>
    have hd : NameInv random_token { s with supporting_files := s.supporting_files ++ sp } :=
      h.frame rfl (Nat.le_refl _) rfl rfl rfl
    exact hd.at nofun fun _ _ _ => rfl
  | uncommit lease_id sp hr => exact h.uncommit hr

/-- After `shutdown` has taken the state, nothing is tracked any more. -/
theorem NameInv.wind (h : NameInv random_token s) (hl : ∀ p ∈ t.leases, p ∈ s.leases)
    (hd : t.drawn = s.drawn) (hp : ∀ r x, t.pending_leases r = some x → s.pending_leases r = some x)
    (hc : t.calls = s.calls) (hac : t.attached = false) : NameInv random_token t := by
  have hn : ∀ {P : Prop}, t.attached → P := fun ha => by
    rw [hac] at ha
    cases ha
  refine h.of hl (Nat.le_of_eq hd.symm) (fun q x hq => ?_) (fun ha => hn ha) fun ha _ _ _ => hn ha
  exact hq.imp (hp q x) fun hq => hc ▸ hq

/-! ## The bounds -/

structure BoundInv (s : Session) : Prop where
  leases : s.leases.length ≤ MAX_SESSION_LEASES
  pending : pending_count s ≤ MAX_SESSION_SUPPORTING_FILES

theorem BoundInv.init : BoundInv {} := ⟨Nat.zero_le _, Nat.zero_le _⟩

theorem BoundInv.of (h : BoundInv s) (hl : t.leases.length ≤ s.leases.length)
    (hp : pending_count t ≤ pending_count s) : BoundInv t :=
  ⟨Nat.le_trans hl h.leases, Nat.le_trans hp h.pending⟩

theorem pending_filter_le (s : Session) (r : RequestId) :
    ((s.pending_supporting_files.filter fun p => p.1 != r).map fun p => p.2.length).sum ≤ pending_count s :=
  (List.filter_sublist.map _).sum_le_sum fun _ _ => Nat.zero_le _

theorem remove_entry_length (s : Session) (x : String) : (remove_entry s x).leases.length ≤ s.leases.length := by
  rcases remove_entry_spec s x with ⟨he, -⟩ | ⟨f, -, he⟩
  · exact Nat.le_of_eq (by rw [he])
  · rw [he]
    exact List.length_filter_le _ _

theorem BoundInv.remove_entry (h : BoundInv s) (x : String) : BoundInv (remove_entry s x) := by
  refine h.of (remove_entry_length s x) ?_
  obtain ⟨l, dir, he⟩ := remove_entry_frame s x
  rw [he]
  exact Nat.le_refl _

theorem BoundInv.move (h : BoundInv s) (hm : Move random_token s r e t) : BoundInv t := by
  have hf : BoundInv (forget_pending_files s r) := h.of (Nat.le_refl _) (pending_filter_le s r)
  cases hm with
  | insert file tr hr hl =>
    refine ⟨?_, h.pending⟩
    rw [List.length_append]
    exact hl
  | retain sp next u hu =>
    obtain ⟨rfl, hrm⟩ := retain_spec hu
    refine ⟨h.leases, ?_⟩
    have hs := pending_filter_le s r
    show (((r, sp) :: s.pending_supporting_files.filter fun p => p.1 != r).map fun p => p.2.length).sum ≤ _
    rw [List.map_cons, List.sum_cons]
    show sp.length + _ ≤ _
    omega
  | refuse hr | take_files c lease_id hr => exact ⟨hf.leases, hf.pending⟩
  | unlock i hr =>
    have hd : BoundInv (release_loop i [] 0 s).1 := release_loop_induct (fun u x _ hu => hu.remove_entry x) [] 0 s h
    exact ⟨hd.leases, hd.pending⟩
  | uncommit lease_id sp hr =>
    have hd : BoundInv (settle s false lease_id sp) := by
      cases lease_id with
      | none => exact h
      | some x => exact h.remove_entry x
    exact ⟨hd.leases, hd.pending⟩
  | _ => exact ⟨h.leases, h.pending⟩

/-! ## Every step -/

structure Inv (random_token : Nat → String) (s : Session) : Prop where
  file : FileInv s
  name : NameInv random_token s
  bound : BoundInv s
  control : ControlInv s
  gone : s.shutdown.ended = true → (∀ r, (s.calls r).holds = false) → s.dir = []

theorem Inv.init : Inv random_token {} := ⟨.init, .init, .init, .init, nofun⟩

/-- What an action keeps, `drop_state` keeps. -/
theorem Inv.dropped (hf : FileInv s) (hn : NameInv random_token s) (hb : BoundInv s)
    (hc : ControlInv s) : Inv random_token (drop_state s) := by
  have hl := hf.drop_state hc.started
  unfold drop_state at hl ⊢
  split at hl
  · rename_i hd
    rw [if_pos hd]
    have he : s.shutdown.ended := (Bool.and_eq_true_iff.mp hd).1
    have ht : s.attached = false := by
      cases ha : s.attached
      · rfl
      · rw [hc.attached ha] at he
        cases he
    refine ⟨hl, hn.wind nofun rfl nofun rfl ht, ?_, ?_, fun _ _ => rfl⟩
    · exact ⟨Nat.zero_le _, Nat.zero_le _⟩
    · exact ⟨hc.started, hc.attached⟩
  · rename_i hd
    rw [if_neg hd]
    refine ⟨hf, hn, hb, hc, fun he hnn => absurd ?_ hd⟩
    rw [he, Bool.true_and, List.all_eq_true]
    intro r _
    rw [hnn r]
    rfl

/-- A step of `shutdown` empties tables, after it took the state. -/
structure Winding (s t : Session) : Prop where
  leases : t.leases = s.leases ∨ t.leases = []
  pending_leases : t.pending_leases = s.pending_leases ∨ t.pending_leases = .empty
  pending_files : t.pending_supporting_files = s.pending_supporting_files ∨ t.pending_supporting_files = []
  drawn : t.drawn = s.drawn
  started : t.started = s.started
  calls : t.calls = s.calls
  detached : t.attached = false

theorem Inv.wind (h : Inv random_token s) (hw : Winding s t) (hf : FileInv t) : Inv random_token (drop_state t) := by
  refine Inv.dropped hf ?_ ⟨?_, ?_⟩ ⟨fun r hr => ?_, fun ha => ?_⟩
  · refine h.name.wind (fun p hp => ?_) hw.drawn (fun r x hp => ?_) hw.calls hw.detached
    · rcases hw.leases with he | he <;> rw [he] at hp
      · exact hp
      · cases hp
    · rcases hw.pending_leases with he | he <;> rw [he] at hp
      · exact hp
      · cases hp
  · rcases hw.leases with he | he <;> rw [he]
    · exact h.bound.leases
    · exact Nat.zero_le _
  · unfold pending_count
    rcases hw.pending_files with he | he <;> rw [he]
    · exact h.bound.pending
    · exact Nat.zero_le _
  · rw [hw.started]
    exact h.control.started r (hw.calls ▸ hr)
  · rw [hw.detached] at ha
    cases ha

theorem Inv.detached (h : Inv random_token s) (hs : s.shutdown ≠ .running) : s.attached = false := by
  cases ha : s.attached
  · rfl
  · exact absurd (h.control.attached ha) hs

theorem Inv.shutdown_step (h : Inv random_token s) (hs : shutdown_step s = some t) : Inv random_token (drop_state t) := by
  refine h.wind ?_ (h.file.shutdown_step hs)
  unfold Serve.shutdown_step at hs
  split at hs
  · cases hs
    exact ⟨.inl rfl, .inl rfl, .inl rfl, rfl, rfl, rfl, rfl⟩
  · rename_i hr
    cases hs
    exact ⟨.inr rfl, .inl rfl, .inl rfl, rfl, rfl, rfl, h.detached (by rw [hr]; nofun)⟩
  · rename_i hr
    cases hs
    exact ⟨.inl rfl, .inr rfl, .inl rfl, rfl, rfl, rfl, h.detached (by rw [hr]; nofun)⟩
  · rename_i hr
    cases hs
    exact ⟨.inl rfl, .inl rfl, .inr rfl, rfl, rfl, rfl, h.detached (by rw [hr]; nofun)⟩
  · rename_i hr
    cases hs
    exact ⟨.inl rfl, .inl rfl, .inl rfl, rfl, rfl, rfl, h.detached (by rw [hr]; nofun)⟩
  · rename_i hr
    cases hs
    exact ⟨.inl rfl, .inl rfl, .inl rfl, rfl, rfl, rfl, h.detached (by rw [hr]; nofun)⟩
  · cases hs

theorem Inv.step {e : Ev} (h : Inv random_token s) (hi : Function.Injective random_token)
    (hs : step random_token s e = some t) : Inv random_token t := by
  obtain ⟨u, hu, rfl⟩ := Option.map_eq_some_iff.mp hs
  cases e with
  | call r e =>
    have hm := call_step_move hu
    exact Inv.dropped (h.file.move hm) (h.name.move h.file hi hm) (h.bound.move hm) (h.control.move hm)
  | cancel r =>
    cases hu
    have hf : FileInv { s with cancelled := fun q => s.cancelled q || q == r } :=
      h.file.winding rfl rfl rfl id rfl rfl
    exact Inv.dropped hf (h.name.frame rfl (Nat.le_refl _) rfl rfl rfl) ⟨h.bound.leases, h.bound.pending⟩
      ⟨h.control.started, h.control.attached⟩
  | shutdown => exact h.shutdown_step hu
  | shutdown_abort =>
    have hf := h.file.shutdown_abort hu
    obtain ⟨hr, rfl⟩ := shutdown_abort_spec hu
    exact h.wind ⟨.inl rfl, .inl rfl, .inl rfl, rfl, rfl, rfl, h.detached hr⟩ hf

theorem Inv.reach (hn : Function.Injective random_token) (h : Reach (machine random_token) any s) :
    Inv random_token s := h.inv .init fun _ _ _ hi _ hs => hi.step hn hs

/-! ## What the invariants say of one state -/

theorem count_eq_one {l : List (String × File)} (hn : (l.map Prod.snd).Nodup) (hf : f ∈ l.map Prod.snd) :
    l.countP (fun p => p.2 == f) = 1 := by
  have hc := List.count_eq_one_of_mem hn hf
  rwa [List.count, List.countP_map] at hc

theorem count_eq_zero {l : List (String × File)} (hf : f ∉ l.map Prod.snd) : l.countP (fun p => p.2 == f) = 0 := by
  refine List.countP_eq_zero.mpr fun p hp he => hf ?_
  exact List.mem_map.mpr ⟨p, hp, beq_iff_eq.mp he⟩

/-- A file of the directory has exactly one owner. -/
theorem FileInv.owners_eq (h : FileInv s) (hf : f ∈ s.dir) : owners s f = 1 := by
  obtain ⟨hs, hsh, hd⟩ := List.nodup_append.mp h.files
  unfold owners
  rcases h.owned f hf with ho | ho
  · have hc : (s.calls f.request).file ≠ some f := fun he => h.apart _ f he ho
    rw [if_neg hc]
    rcases List.mem_append.mp ho with ho | ho
    · rw [count_eq_one hs ho, count_eq_zero fun hl => hd f ho f hl rfl]
    · rw [count_eq_one hsh ho, count_eq_zero fun hl => hd f hl f ho rfl]
  · have hn := h.apart _ f ho
    rw [Serve.files, List.mem_append, not_or] at hn
    rw [if_pos ho, count_eq_zero hn.1, count_eq_zero hn.2]

/-- After `request_finished(false)` nothing of the request is left. -/
theorem Inv.uncommitted (h : Inv random_token s) (ha : s.attached) (hr : s.calls r = .finished false) :
    (∀ p ∈ s.leases, p.2.request ≠ r) ∧ ∀ f ∈ s.dir, f.request ≠ r := by
  have hl : ∀ p ∈ s.leases, p.2.request ≠ r := fun p hp he => by
    have ht := h.name.tracked ha p hp
    rw [he, hr] at ht
    cases ht
  refine ⟨hl, fun f hf he => ?_⟩
  rcases h.file.owned f hf with ho | ho
  · rcases List.mem_append.mp ho with ho | ho
    · obtain ⟨p, hp, rfl⟩ := List.mem_map.mp ho
      exact hl p hp he
    · rw [h.control.attached ha] at ho
      cases ho
  · rw [he, hr] at ho
    cases ho

/-! ## Until it is released -/

/-- The step neither releases the lease nor begins to shut the session down. -/
def keeps (lease_id : String) (s : Session) : Ev → Bool
  | .call r .unlock =>
    match s.calls r with
    | .releasing ids => !ids.contains lease_id
    | _ => true
  | .shutdown => false
  | _ => true

/-- The lease is in the table, and its request will not take it back. -/
structure Kept (s : Session) (x : String) (f : File) : Prop where
  attached : s.attached = true
  leased : (x, f) ∈ s.leases
  stays : (s.calls f.request).stays = true

theorem mem_remove_entry {y : String} (h : (x, f) ∈ s.leases) (hn : x ≠ y) : (x, f) ∈ (remove_entry s y).leases := by
  rcases remove_entry_spec s y with ⟨he, -⟩ | ⟨g, -, he⟩
  · rw [he]
    exact h
  · rw [he]
    exact List.mem_filter.mpr ⟨h, bne_iff_ne.mpr hn⟩

theorem Phase.Goes.stays {p q : Phase} (h : p.Goes attached q) (hp : p.stays) : q.stays := by
  cases h <;> first | rfl | cases hp

/-- The task of a committed response goes on to the end of `request_finished`, or is dropped. -/
theorem Move.stays (hm : Move random_token s r e t) (hr : (s.calls r).stays) : (t.calls r).stays := by
  cases hm with
  | start p hi => rw [hi] at hr; cases hr
  | go p hg =>
    rw [calls_at_self]
    exact hg.stays hr
  | give_up file next hf hh =>
    cases hp : s.calls r <;> rw [hp] at hf hh hr <;> first | (cases hf; done) | (cases hh; done) | cases hr
  | retain sp next u hu hn => rcases hn with ⟨h, -⟩ | ⟨file, h, -⟩ <;> rw [h] at hr <;> cases hr
  | take_lease c h | take_files c lease_id h =>
    rw [h] at hr
    rw [calls_at_self]
    exact hr
  | commit lease_id sp h =>
    rw [calls_at_self]
    rfl
  | pathless n h | persist n file sp h | insert file tries h | record lease_id h | refuse h | unlock ids h
  | uncommit lease_id sp h => rw [h] at hr; cases hr

theorem Kept.move (h : Kept s x f) (hi : Inv random_token s) (hm : Move random_token s r e t)
    (hk : keeps x s (.call r e)) : Kept t x f := by
  have hf := hm.frame
  obtain ⟨ha, -, p, hc, -⟩ := hf
  refine ⟨ha.trans h.attached, ?_, ?_⟩
  · cases hm with
    | insert file tr hr => exact List.mem_append_left _ h.leased
    | retain sp next u hu =>
      obtain ⟨rfl, -⟩ := retain_spec hu
      exact h.leased
    | unlock ids hr he =>
      subst he
      have hd : x ∉ ids := by
        simp only [keeps, hr, Bool.not_eq_true', List.contains_eq_mem, decide_eq_false_iff_not] at hk
        exact hk
      exact release_loop_induct (P := fun u => (x, f) ∈ u.leases)
        (fun u y hy hu => mem_remove_entry hu fun hq => hd (hq ▸ hy)) [] 0 s h.leased
    | uncommit lease_id sp hr =>
      cases lease_id with
      | none => exact h.leased
      | some y =>
        refine mem_remove_entry h.leased fun hq => ?_
        have ho := hi.name.own r x f (.inr (by rw [hr, hq]; rfl)) h.leased
        have hs := h.stays
        rw [ho, hr] at hs
        cases hs
    | _ => exact h.leased
  · by_cases hfr : f.request = r
    · rw [hfr]
      exact hm.stays (hfr ▸ h.stays)
    · rw [hc, if_neg hfr]
      exact h.stays

theorem drop_state_running (h : s.shutdown.ended = false) : drop_state s = s := by
  unfold drop_state
  rw [h]
  rfl

theorem Kept.step {e : Ev} (h : Kept s x f) (hi : Inv random_token s) (hk : keeps x s e)
    (hs : step random_token s e = some t) : Kept t x f := by
  obtain ⟨u, hu, rfl⟩ := Option.map_eq_some_iff.mp hs
  have hr : s.shutdown = .running := hi.control.attached h.attached
  cases e with
  | call r e =>
    have hm := call_step_move hu
    obtain ⟨-, hsh, -⟩ := hm.frame
    rw [drop_state_running (by rw [hsh, hr]; rfl)]
    exact h.move hi hm hk
  | cancel r =>
    have he := Option.some.inj hu
    have hn : u.shutdown.ended = false := by rw [← he, hr]; rfl
    rw [drop_state_running hn, ← he]
    exact ⟨h.attached, h.leased, h.stays⟩
  | shutdown => cases hk
  | shutdown_abort => exact absurd hr (shutdown_abort_spec hu).1

theorem Kept.run (h : Kept s x f) (hi : Inv random_token s) (hj : Function.Injective random_token) (es : List Ev)
    (hr : (machine random_token).run (keeps x) s es = some t) : Kept t x f ∧ Inv random_token t := by
  induction es generalizing s with
  | nil =>
    cases hr
    exact ⟨h, hi⟩
  | cons e es ih =>
    unfold Machine.run at hr
    split at hr
    · rename_i hk
      obtain ⟨u, hu, hs⟩ := Option.bind_eq_some_iff.mp hr
      exact ih (h.step hi hk hu) (hi.step hj hu) hs
    · cases hr

/-! ## The result -/

/-- In every run of a session, given that `random_token` does not repeat itself: a file of
    the directory has one owner (an entry of the lease table, the task that has not handed
    it on, or the `shutdown` that took the table), and every entry has its file; after
    `request_finished(false)` no lease and no file of the request is left; the lease of a
    committed response stays, with its file, until it is released or the session shuts
    down; after `shutdown`, with no task left that holds the state, the directory is empty;
    the table, and what is pending, keep their bounds. -/
theorem lease_lifecycle (random_token : Nat → String) (hinj : Function.Injective random_token) (s : Session)
    (h : Reach (machine random_token) any s) :
    (∀ f ∈ s.dir, owners s f = 1) ∧ (∀ p ∈ s.leases, p.2 ∈ s.dir) ∧
      (s.attached = true → ∀ r, s.calls r = .finished false →
        (∀ p ∈ s.leases, p.2.request ≠ r) ∧ ∀ f ∈ s.dir, f.request ≠ r) ∧
      (s.attached = true → ∀ x f, (x, f) ∈ s.leases → (s.calls f.request).stays = true → ∀ es t,
        (machine random_token).run (keeps x) s es = some t → (x, f) ∈ t.leases ∧ f ∈ t.dir) ∧
      (s.shutdown.ended = true → (∀ r, (s.calls r).holds = false) → s.dir = []) ∧
      s.leases.length ≤ MAX_SESSION_LEASES ∧ pending_count s ≤ MAX_SESSION_SUPPORTING_FILES := by
  have hi := Inv.reach hinj h
  refine ⟨fun f hf => hi.file.owners_eq hf, hi.file.kept, fun ha r hr => hi.uncommitted ha hr,
    fun ha x f hf hs es t hn => ?_, hi.gone, hi.bound.leases, hi.bound.pending⟩
  obtain ⟨hk, he⟩ := Kept.run ⟨ha, hf, hs⟩ hi hinj es hn
  exact ⟨hk.leased, he.file.kept _ hk.leased⟩

/-! ## Runs -/

/-- Tokens of growing length. -/
def token (n : Nat) : String := String.ofList (List.replicate (n + 1) 'a')

theorem token_injective : Function.Injective token := fun a b h => by
  have hl := congrArg String.length h
  simp only [token, String.length_ofList, List.length_replicate] at hl
  omega

/-- Request 1 gets a file, and its response is committed. -/
def handed_out : List Ev :=
  [.call 1 .get, .call 1 (.file []), .call 1 (.identify true), .call 1 .check, .call 1 .retain, .call 1 (.lease 0),
    .call 1 .record, .call 1 (.finish true)]

/-- The request gets a value with these supporting files; `request_finished` has taken them
    from the pending table. -/
def carrying (r : RequestId) (supporting : List Supporting) : List Ev :=
  [.call r .get, .call r (.value supporting), .call r .retain, .call r (.finish true), .call r .take_lease,
    .call r .take_files]

/-- While `get` has a file, no entry of the table has it. -/
theorem a_file_without_lease :
    ∃ s, Reach (machine token) any s ∧ ∃ f ∈ s.dir, ∀ p ∈ s.leases, p.2 ≠ f := by
  obtain ⟨s, hs, hr⟩ := reach_of_run (machine token) any [.call 1 .get, .call 1 (.file [])]
    (fun s => (s.dir, s.leases)) ([⟨token 0, 0, 1⟩], []) rfl
  simp only [Prod.mk.injEq] at hr
  refine ⟨s, hs, ⟨token 0, 0, 1⟩, ?_, ?_⟩
  · rw [hr.1]
    exact List.mem_singleton_self _
  · rw [hr.2]
    exact nofun

/-- Two responses are committed; the second `get` counts while the first one's files are
    between the tables. -/
theorem two_carried (l : List Supporting) (hl : l.length = MAX_SESSION_SUPPORTING_FILES) :
    ((machine token).run any (machine token).init
      (carrying 1 l ++ carrying 2 l ++ [.call 2 .settle, .call 1 .settle])).map (fun s => s.supporting_files) =
      some (l ++ l) := by
  simp [carrying, Machine.run, machine, step, act, call_step, Machine.any, Session.start, Session.at,
    retain_pending_supporting_files, drop_state, Shutdown.ended, pending_count, forget_pending_files, pending_files,
    settle, hl]

theorem supporting_files_past_the_bound :
    ∃ s, Reach (machine token) any s ∧ MAX_SESSION_SUPPORTING_FILES < s.supporting_files.length := by
  have hl : (List.replicate MAX_SESSION_SUPPORTING_FILES 0).length = MAX_SESSION_SUPPORTING_FILES :=
    List.length_replicate
  obtain ⟨s, hs, hr⟩ := reach_of_run (machine token) any _ (fun s => s.supporting_files) _ (two_carried _ hl)
  refine ⟨s, hs, ?_⟩
  rw [hr, List.length_append, hl]
  decide

/-- Neither does every file of the directory belong to an entry of the table, nor do the
    retained supporting files keep their bound. -/
theorem lease_table_alone :
    (¬ ∀ s, Reach (machine token) any s → ∀ f ∈ s.dir, s.leases.countP (fun p => p.2 == f) = 1) ∧
      ¬ ∀ s, Reach (machine token) any s → s.supporting_files.length ≤ MAX_SESSION_SUPPORTING_FILES := by
  refine ⟨fun h => ?_, fun h => ?_⟩
  · obtain ⟨s, hs, f, hf, hn⟩ := a_file_without_lease
    have hz : s.leases.countP (fun p => p.2 == f) = 0 :=
      List.countP_eq_zero.mpr fun p hp he => hn p hp (beq_iff_eq.mp he)
    have ho := h s hs f hf
    omega
  · obtain ⟨s, hs, hps⟩ := supporting_files_past_the_bound
    have := h s hs
    omega

/-- The lease of request 1, committed, in a run that goes on. -/
theorem lease_lifecycle_run :
    ∃ s, Reach (machine token) any s ∧ s.leases = [(token 1, ⟨token 0, 0, 1⟩)] ∧
      ∀ es t, (machine token).run (keeps (token 1)) s es = some t →
        (token 1, ⟨token 0, 0, 1⟩) ∈ t.leases ∧ ⟨token 0, 0, 1⟩ ∈ t.dir := by
  obtain ⟨s, hs, hr⟩ := reach_of_run (machine token) any handed_out
    (fun s => (s.leases, s.attached, s.calls 1)) ([(token 1, ⟨token 0, 0, 1⟩)], true, .finishing true) rfl
  simp only [Prod.mk.injEq] at hr
  obtain ⟨hl, ha, hp⟩ := hr
  refine ⟨s, hs, hl, ?_⟩
  have hm : (token 1, (⟨token 0, 0, 1⟩ : File)) ∈ s.leases := hl ▸ List.mem_singleton_self _
  have ht : (s.calls 1).stays := by rw [hp]; rfl
  exact (lease_lifecycle token token_injective s hs).2.2.2.1 ha _ _ hm ht

end Monosecret.Serve
