/-
  Monosecret.Serve.SessionMoves — what one step of a task can do to a resolver session.

  Most steps only move their own task on (`Phase.Goes`); each of the others changes one
  table or the directory.
-/

import Mathlib.Tactic.Tauto
import Monosecret.Serve.Session

namespace Monosecret.Serve

open Monosecret.Rpc (RequestId)

/-- A task goes on and changes nothing else. -/
inductive Phase.Goes (attached : Bool) : Phase → Phase → Prop where
  | fail : Goes attached .resolving .returned
  | value (supporting : List Supporting) : Goes attached .resolving (.valued supporting)
  | identify (file : File) (supporting : List Supporting) :
      Goes attached (.persisted file supporting) (.identified file supporting)
  | check (file : File) (supporting : List Supporting) :
      Goes attached (.identified file supporting) (.uncancelled file supporting)
  /-- Its supporting files were refused. -/
  | refused (supporting : List Supporting) : Goes attached (.valued supporting) .returned
  | finish (committed : Bool) : attached = true → Goes attached .returned (.finishing committed)
  /-- There is no state to finish with. -/
  | finish_detached (committed : Bool) : attached = false → Goes attached .returned (.finished committed)
  | abort (phase : Phase) : phase ≠ .idle → (∀ committed, phase ≠ .finished committed) →
      (∀ orphan, phase ≠ .aborted orphan) → Goes attached phase (.aborted phase.file)

variable (random_token : Nat → String)

inductive Move (s : Session) (r : RequestId) (e : CallEv) : Session → Prop where
  | start (phase : Phase) (hr : s.calls r = .idle)
      (hp : s.attached = true ∧ (phase = .resolving ∨ ∃ ids, phase = .releasing ids) ∨ phase = .returned) :
      Move s r e (s.start r phase)
  | go (phase : Phase) (hr : (s.calls r).Goes s.attached phase) : Move s r e (s.at r phase)
  /-- No free path was drawn. -/
  | pathless (n : Nat) (hr : s.calls r = .resolving) (hn : s.drawn ≤ n) :
      Move s r e ({ s with drawn := n }.at r .returned)
  | persist (n : Nat) (file : File) (supporting : List Supporting) (hr : s.calls r = .resolving) (hn : s.drawn ≤ n)
      (hid : file.identity = s.next_identity) (hreq : file.request = r) (hfree : ∀ g ∈ s.dir, g.path ≠ file.path) :
      Move s r e ({ s with drawn := n, next_identity := s.next_identity + 1, dir := s.dir ++ [file] }.at r
        (.persisted file supporting))
  | give_up (file : File) (next : Phase) (hf : (s.calls r).file = some file) (hh : (s.calls r).holds = true)
      (hnext : next = .returned ∨ next = .full) : Move s r e (give_up s r file next)
  | retain (supporting : List Supporting) (next : Phase) (u : Session)
      (hu : retain_pending_supporting_files s r supporting = some u)
      (hnext : s.calls r = .valued supporting ∧ next = .returned ∨
        ∃ file, s.calls r = .uncancelled file supporting ∧ next = .retained file) : Move s r e (u.at r next)
  | insert (file : File) (tries : Nat) (hr : s.calls r = .retained file) (hlen : s.leases.length < MAX_SESSION_LEASES)
      (hx : ∀ p ∈ s.leases, p.1 ≠ random_token (s.drawn + tries)) :
      Move s r e { s.at r (.leased (random_token (s.drawn + tries))) with
        leases := s.leases ++ [(random_token (s.drawn + tries), file)], drawn := s.drawn + tries + 1 }
  | record (lease_id : String) (hr : s.calls r = .leased lease_id) :
      Move s r e { s.at r .returned with pending_leases := s.pending_leases.insert r lease_id }
  | refuse (hr : s.calls r = .full) : Move s r e ((forget_pending_files s r).at r .returned)
  | unlock (ids : List String) (hr : s.calls r = .releasing ids) (he : e = .unlock) :
      Move s r e ((release_loop ids [] 0 s).1.at r .returned)
  | take_lease (committed : Bool) (hr : s.calls r = .finishing committed) :
      Move s r e { s.at r (.unpended committed (s.pending_leases r)) with pending_leases := s.pending_leases.remove r }
  | take_files (committed : Bool) (lease_id : Option String) (hr : s.calls r = .unpended committed lease_id) :
      Move s r e ((forget_pending_files s r).at r (.settling committed lease_id (pending_files s r)))
  | commit (lease_id : Option String) (supporting : List Supporting) (hr : s.calls r = .settling true lease_id supporting) :
      Move s r e ({ s with supporting_files := s.supporting_files ++ supporting }.at r (.finished true))
  | uncommit (lease_id : Option String) (supporting : List Supporting)
      (hr : s.calls r = .settling false lease_id supporting) :
      Move s r e ((settle s false lease_id supporting).at r (.finished false))

variable {random_token} {s t : Session} {r : RequestId}

/-! ## Small facts about the steps -/

theorem calls_at (s : Session) (r : RequestId) (p : Phase) (q : RequestId) :
    (s.at r p).calls q = if q = r then p else s.calls q := rfl

theorem calls_at_self (s : Session) (r : RequestId) (phase : Phase) : (s.at r phase).calls r = phase := if_pos rfl

theorem calls_at_ne (s : Session) {r q : RequestId} (h : q ≠ r) (p : Phase) : (s.at r p).calls q = s.calls q :=
  if_neg h

variable {dir : List File}

theorem mem_remove_file {path : String} {f : File} : f ∈ remove_file dir path ↔ f ∈ dir ∧ f.path ≠ path := by
  simp [remove_file]

theorem mem_remove_lease {l f : File} :
    f ∈ remove_lease dir l ↔ f ∈ dir ∧ ¬ (f.path = l.path ∧ f.identity = l.identity) := by
  simp only [remove_lease, List.mem_filter, Bool.not_eq_true', Bool.and_eq_false_imp, beq_iff_eq, beq_eq_false_iff_ne]
  tauto

theorem mem_remove_leases {l : List (String × File)} {f : File} :
    f ∈ l.foldl (fun dir p => remove_lease dir p.2) dir ↔
      f ∈ dir ∧ ∀ p ∈ l, ¬ (f.path = p.2.path ∧ f.identity = p.2.identity) := by
  induction l generalizing dir with
  | nil => simp
  | cons p l ih => rw [List.foldl_cons, ih, mem_remove_lease, List.forall_mem_cons, and_assoc]

/-- `persist_lease_file` draws tokens and puts at most one file, under a free path. -/
theorem persist_lease_file_spec (a : Nat) (s : Session) :
    ∃ n, s.drawn ≤ n ∧
      (persist_lease_file random_token r a s = (none, { s with drawn := n }) ∨
        ∃ f : File, f.identity = s.next_identity ∧ f.request = r ∧ (∀ g ∈ s.dir, g.path ≠ f.path) ∧
          persist_lease_file random_token r a s =
            (some f, { s with drawn := n, next_identity := s.next_identity + 1, dir := s.dir ++ [f] })) := by
  induction a generalizing s with
  | zero => exact ⟨s.drawn, Nat.le_refl _, .inl rfl⟩
  | succ a ih =>
    unfold persist_lease_file
    dsimp only
    split
    · obtain ⟨n, hn, h⟩ := ih { s with drawn := s.drawn + 1 }
      exact ⟨n, Nat.le_of_succ_le hn, h⟩
    · rename_i hf
      refine ⟨s.drawn + 1, Nat.le_succ _, .inr ⟨_, rfl, rfl, fun g hg he => hf ?_, rfl⟩⟩
      exact List.any_eq_true.mpr ⟨g, hg, beq_iff_eq.mpr he⟩

theorem retain_spec {u : Session} {sp : List Supporting}
    (h : retain_pending_supporting_files s r sp = some u) :
    u = { s with
        pending_supporting_files := (r, sp) :: s.pending_supporting_files.filter fun p => p.1 != r } ∧
      s.supporting_files.length + pending_count s + sp.length ≤ MAX_SESSION_SUPPORTING_FILES := by
  unfold retain_pending_supporting_files at h
  split at h
  · cases h
  · split at h
    · cases h
    · exact ⟨(Option.some.inj h).symm, by omega⟩

/-- What removing an entry leaves: either it was not there, or it is gone with its file. -/
theorem remove_entry_spec (s : Session) (x : String) :
    (remove_entry s x = s ∧ ∀ f, (x, f) ∉ s.leases) ∨
      ∃ f, (x, f) ∈ s.leases ∧ remove_entry s x =
        { s with leases := s.leases.filter fun p => p.1 != x, dir := remove_lease s.dir f } := by
  unfold remove_entry
  split
  · rename_i y f hn
    have hy : y = x := by simpa using List.find?_some hn
    subst hy
    exact .inr ⟨f, List.mem_of_find?_eq_some hn, rfl⟩
  · rename_i hnn
    refine .inl ⟨rfl, fun f hf => ?_⟩
    have := List.find?_eq_none.mp hnn (x, f) hf
    simp at this

/-- Removing an entry touches the table and the directory only. -/
theorem remove_entry_frame (s : Session) (x : String) :
    ∃ leases dir, remove_entry s x = { s with leases := leases, dir := dir } := by
  unfold remove_entry
  split
  · exact ⟨_, _, rfl⟩
  · exact ⟨s.leases, s.dir, rfl⟩

/-- `release` removes entries it is asked for, one after the other. -/
theorem release_loop_induct {P : Session → Prop} {i : List String}
    (hs : ∀ u x, x ∈ i → P u → P (remove_entry u x)) (unique : List String) (released : Nat) (s : Session)
    (h : P s) : P (release_loop i unique released s).1 := by
  induction i generalizing unique released s with
  | nil => exact h
  | cons x i ih =>
    have hr : ∀ u y, y ∈ i → P u → P (remove_entry u y) := fun u y hy => hs u y (.tail _ hy)
    unfold release_loop
    split
    · exact ih hr unique released s h
    · split
      · exact ih hr (x :: unique) (released + 1) _ (hs s x (.head _) h)
      · exact ih hr (x :: unique) released s h

theorem release_loop_frame (i : List String) (s : Session) :
    ∃ leases dir, (release_loop i [] 0 s).1 = { s with leases := leases, dir := dir } := by
  refine release_loop_induct (P := fun u => ∃ leases dir, u = { s with leases := leases, dir := dir }) ?_ [] 0 s
    ⟨s.leases, s.dir, rfl⟩
  rintro u x - ⟨leases, dir, rfl⟩
  obtain ⟨l', d', h⟩ := remove_entry_frame { s with leases := leases, dir := dir } x
  exact ⟨l', d', h⟩

theorem settle_frame (s : Session) (lease_id : Option String) (sp : List Supporting) :
    ∃ leases dir, settle s false lease_id sp = { s with leases := leases, dir := dir } := by
  cases lease_id with
  | none => exact ⟨s.leases, s.dir, rfl⟩
  | some x => exact remove_entry_frame s x

theorem draws_free {tr : Nat} (h : draws random_token s tr) :
    ∀ p ∈ s.leases, p.1 ≠ random_token (s.drawn + tr) := by
  intro p hp he
  unfold draws at h
  rw [Bool.and_eq_true, Bool.not_eq_true'] at h
  have ha : (s.leases.any fun p => p.1 == random_token (s.drawn + tr)) :=
    List.any_eq_true.mpr ⟨p, hp, beq_iff_eq.mpr he⟩
  rw [h.2] at ha
  cases ha

/-! ## The moves -/

variable {e : CallEv}

theorem get_file_move (sp : List Supporting) (hr : s.calls r = .resolving) :
    Move random_token s r e (get_file random_token s r sp) := by
  obtain ⟨n, hn, h | ⟨f, hi, hq, hf, h⟩⟩ := @persist_lease_file_spec random_token r 8 s
  · unfold get_file
    rw [h]
    exact .pathless n hr hn
  · unfold get_file
    rw [h]
    exact .persist n f sp hr hn hi hq hf

theorem insert_lease_move {file : File} {tr : Nat} (hr : s.calls r = .retained file)
    (h : insert_lease random_token s r file tr = some t) : Move random_token s r e t := by
  unfold insert_lease at h
  split at h
  · cases h
    exact .give_up file .full (by rw [hr]; rfl) (by rw [hr]; rfl) (.inr rfl)
  · split at h
    · rename_i hl hd
      cases h
      exact .insert file tr hr (Nat.lt_of_not_le hl) (draws_free hd)
    · cases h

/-- Every step of a task is one of the moves. -/
theorem call_step_move (h : call_step random_token s r e = some t) : Move random_token s r e t := by
  cases e with
  | get =>
    simp only [call_step] at h
    split at h
    · rename_i hr
      cases h
      refine .start _ hr ?_
      cases ha : s.attached
      · exact .inr rfl
      · exact .inl ⟨rfl, .inl rfl⟩
    · cases h
  | fail =>
    simp only [call_step] at h
    split at h
    · rename_i hr
      cases h
      exact .go _ (by rw [hr]; exact .fail)
    · cases h
  | value sp =>
    simp only [call_step] at h
    split at h
    · rename_i hr
      cases h
      exact .go _ (by rw [hr]; exact .value sp)
    · cases h
  | file sp =>
    simp only [call_step] at h
    split at h
    · rename_i hr
      cases h
      exact get_file_move sp hr
    · cases h
  | identify ok =>
    simp only [call_step] at h
    split at h
    · rename_i file sp hr
      cases h
      cases ok
      · exact .give_up file .returned (by rw [hr]; rfl) (by rw [hr]; rfl) (.inl rfl)
      · exact .go _ (by rw [hr]; exact .identify file sp)
    · cases h
  | check =>
    simp only [call_step] at h
    split at h
    · rename_i file sp hr
      cases h
      cases s.cancelled r
      · exact .go _ (by rw [hr]; exact .check file sp)
      · exact .give_up file .returned (by rw [hr]; rfl) (by rw [hr]; rfl) (.inl rfl)
    · cases h
  | retain =>
    simp only [call_step] at h
    split at h
    · rename_i sp hr
      cases h
      cases hu : retain_pending_supporting_files s r sp with
      | none => exact .go _ (by rw [hr]; exact .refused sp)
      | some u => exact .retain sp .returned u hu (.inl ⟨hr, rfl⟩)
    · rename_i file sp hr
      cases h
      cases hu : retain_pending_supporting_files s r sp with
      | none => exact .give_up file .returned (by rw [hr]; rfl) (by rw [hr]; rfl) (.inl rfl)
      | some u => exact .retain sp (.retained file) u hu (.inr ⟨file, hr, rfl⟩)
    · cases h
  | lease tr =>
    simp only [call_step] at h
    split at h
    · rename_i file hr
      exact insert_lease_move hr h
    · cases h
  | record =>
    simp only [call_step] at h
    split at h
    · rename_i lease_id hr
      cases h
      exact .record lease_id hr
    · cases h
  | refuse =>
    simp only [call_step] at h
    split at h
    · rename_i hr
      cases h
      exact .refuse hr
    · cases h
  | release i =>
    simp only [call_step] at h
    split at h
    · rename_i hr
      cases h
      refine .start _ hr ?_
      cases ha : s.attached
      · exact .inr rfl
      · exact .inl ⟨rfl, .inr ⟨i, rfl⟩⟩
    · cases h
  | unlock =>
    simp only [call_step] at h
    split at h
    · rename_i i hr
      cases h
      exact .unlock i hr rfl
    · cases h
  | finish c =>
    simp only [call_step] at h
    split at h
    · rename_i hr
      cases h
      refine .go _ ?_
      rw [hr]
      cases ha : s.attached
      · exact .finish_detached c rfl
      · exact .finish c rfl
    · cases h
  | take_lease =>
    simp only [call_step] at h
    split at h
    · rename_i c hr
      cases h
      exact .take_lease c hr
    · cases h
  | take_files =>
    simp only [call_step] at h
    split at h
    · rename_i c lease_id hr
      cases h
      exact .take_files c lease_id hr
    · cases h
  | settle =>
    simp only [call_step] at h
    split at h
    · rename_i c lease_id sp hr
      cases h
      cases c
      · exact .uncommit lease_id sp hr
      · exact .commit lease_id sp hr
    · cases h
  | abort =>
    simp only [call_step] at h
    split at h
    · cases h
    · cases h
    · cases h
    · rename_i hi hf hb
      cases h
      exact .go _ (.abort _ hi hf hb)

/-- A step of a task moves that task alone. -/
theorem Move.frame (h : Move random_token s r e t) :
    t.attached = s.attached ∧ t.shutdown = s.shutdown ∧
      ∃ p, (∀ q, t.calls q = if q = r then p else s.calls q) ∧
        (t.started = s.started ∧ s.calls r ≠ .idle ∨ t.started = s.started ++ [r]) := by
  cases h with
  | start p => exact ⟨rfl, rfl, p, fun _ => rfl, .inr rfl⟩
  | go p hr =>
    refine ⟨rfl, rfl, p, fun _ => rfl, .inl ⟨rfl, fun hi => ?_⟩⟩
    rw [hi] at hr
    cases hr
    contradiction
  | give_up file next hf =>
    refine ⟨rfl, rfl, next, fun _ => rfl, .inl ⟨rfl, fun hi => ?_⟩⟩
    rw [hi] at hf
    cases hf
  | retain sp next u hu hn =>
    obtain ⟨rfl, -⟩ := retain_spec hu
    refine ⟨rfl, rfl, next, fun _ => rfl, .inl ⟨rfl, ?_⟩⟩
    rcases hn with ⟨hr, -⟩ | ⟨file, hr, -⟩ <;> rw [hr] <;> nofun
  | unlock i hr =>
    obtain ⟨l, dir, he⟩ := release_loop_frame i s
    rw [he]
    exact ⟨rfl, rfl, .returned, fun _ => rfl, .inl ⟨rfl, by rw [hr]; nofun⟩⟩
  | uncommit lease_id sp hr =>
    obtain ⟨l, dir, he⟩ := settle_frame s lease_id sp
    rw [he]
    exact ⟨rfl, rfl, .finished false, fun _ => rfl, .inl ⟨rfl, by rw [hr]; nofun⟩⟩
  | pathless n hr | persist n file sp hr | insert file tries hr | record lease_id hr | refuse hr
  | take_lease committed hr | take_files committed lease_id hr
  | commit lease_id sp hr => exact ⟨rfl, rfl, _, fun _ => rfl, .inl ⟨rfl, by rw [hr]; nofun⟩⟩

end Monosecret.Serve
