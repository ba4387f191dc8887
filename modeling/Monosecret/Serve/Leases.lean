/-
  Monosecret.Serve.Leases — who owns a file of the session directory.

  Every file there has one owner: an entry of the lease table, the task that persisted it
  and has not handed it on, or the `shutdown` that took the table. The table's files are in
  the directory, each request's lease is found under the ID its task or the pending table
  holds, and the table keeps its bound.
-/

import Mathlib.Data.List.Nodup
import Monosecret.Serve.SessionMoves

namespace Monosecret.Serve

open Lib Machine
open Monosecret.Rpc (RequestId)
open List (filter_sublist map_append map_cons map_nil mem_append mem_append_left mem_append_right mem_map
  mem_map_of_mem mem_singleton nodup_append nodup_nil)

/-- The files of the leases, in the table or taken off it by `shutdown`. -/
def files (s : Session) : List File := s.leases.map Prod.snd ++ s.shutdown.leases.map Prod.snd

/-- How many own the file. -/
def owners (s : Session) (f : File) : Nat :=
  s.leases.countP (fun p => p.2 == f) + s.shutdown.leases.countP (fun p => p.2 == f) +
    if (s.calls f.request).file = some f then 1 else 0

variable {rn : Nat → String} {s t : Session} {r : RequestId}

/-! ## The owners of the files -/

structure FileInv (s : Session) : Prop where
  files : (files s).Nodup
  keys : (s.leases.map Prod.fst).Nodup
  paths : (s.dir.map File.path).Nodup
  mine : ∀ r f, (s.calls r).file = some f → f.request = r
  apart : ∀ r f, (s.calls r).file = some f → f ∉ Serve.files s
  owned : ∀ f ∈ s.dir, f ∈ Serve.files s ∨ (s.calls f.request).file = some f
  kept : ∀ p ∈ s.leases, p.2 ∈ s.dir
  taken : s.shutdown.ended = false → ∀ p ∈ s.shutdown.leases, p.2 ∈ s.dir
  held : ∀ r f, (s.calls r).file = some f → (s.calls r).holds = true → f ∈ s.dir
  fresh : ∀ f, (f ∈ s.dir ∨ f ∈ Serve.files s ∨ ∃ r, (s.calls r).file = some f) → f.identity < s.next_identity

theorem FileInv.init : FileInv {} where
  files := nodup_nil
  keys := nodup_nil
  paths := nodup_nil
  mine := nofun
  apart := nofun
  owned := nofun
  kept := nofun
  taken := nofun
  held := nofun
  fresh := by rintro f (h | h | ⟨r, h⟩) <;> cases h

section

variable (h : FileInv s)

include h

/-- Files of the directory with one path are one file. -/
theorem FileInv.eq_of_path {f g : File} (hf : f ∈ s.dir) (hg : g ∈ s.dir) (hp : f.path = g.path) :
    f = g := List.inj_on_of_nodup_map h.paths hf hg hp

/-- A step that moves no file. -/
theorem FileInv.of (hd : t.dir = s.dir) (hl : t.leases = s.leases)
    (hs : t.shutdown.leases = s.shutdown.leases) (hn : t.shutdown.ended = false → s.shutdown.ended = false)
    (hx : t.next_identity = s.next_identity) (hfi : ∀ q, (t.calls q).file = (s.calls q).file)
    (hhl : ∀ q f, (t.calls q).file = some f → (t.calls q).holds → (s.calls q).holds) : FileInv t := by
  have hfl : Serve.files t = Serve.files s := by rw [Serve.files, hl, hs]; rfl
  refine ⟨hfl ▸ h.files, hl ▸ h.keys, hd ▸ h.paths, fun r f hf => h.mine r f (hfi r ▸ hf),
    fun r f hf => hfl ▸ h.apart r f (hfi r ▸ hf), fun f hf => ?_, fun p hp => ?_, fun he p hp => ?_,
    fun r f hf hh => ?_, fun f hf => ?_⟩
  · rw [hfl, hfi]
    exact h.owned f (hd ▸ hf)
  · rw [hd]
    exact h.kept p (hl ▸ hp)
  · rw [hd]
    exact h.taken (hn he) p (hs ▸ hp)
  · rw [hd]
    exact h.held r f (hfi r ▸ hf) (hhl r f hf hh)
  · rw [hx]
    refine h.fresh f ?_
    rw [hd, hfl] at hf
    simpa only [hfi] using hf

/-- A task goes on with the file it had. -/
theorem FileInv.at {p : Phase} (hl : p.file = (s.calls r).file)
    (hhl : p.file ≠ none → p.holds → (s.calls r).holds) : FileInv (s.at r p) := by
  refine h.of rfl rfl rfl id rfl (fun q => ?_) fun q f hf hh => ?_
  · rw [calls_at]
    split
    · rename_i hq
      rw [hq, hl]
    · rfl
  · rw [calls_at] at hf hh
    split at hf
    · rename_i hq
      rw [if_pos hq] at hh
      rw [hq]
      exact hhl (by rw [hf]; exact Option.some_ne_none f) hh
    · rename_i hq
      rwa [if_neg hq] at hh

/-- A file persisted under a free path is the task's. -/
theorem FileInv.persist {f : File} (hi : f.identity = s.next_identity) (hr : f.request = r)
    (hfr : ∀ g ∈ s.dir, g.path ≠ f.path) (hn : (s.calls r).file = none) (n : Nat) {sp : List Supporting} :
    FileInv ({ s with drawn := n, next_identity := s.next_identity + 1, dir := s.dir ++ [f] }.at r (.persisted f sp)) := by
  have hw : ¬ (f ∈ s.dir ∨ f ∈ Serve.files s ∨ ∃ q, (s.calls q).file = some f) := fun hf => by
    have := h.fresh f hf
    omega
  simp only [not_or, not_exists] at hw
  obtain ⟨hd, hl, hc⟩ := hw
  have hca : ∀ q g, ((s.at r (.persisted f sp)).calls q).file = some g →
      q = r ∧ g = f ∨ q ≠ r ∧ (s.calls q).file = some g := by
    intro q g hg
    rw [calls_at] at hg
    split at hg
    · rename_i hq
      exact .inl ⟨hq, (Option.some.inj hg).symm⟩
    · rename_i hq
      exact .inr ⟨hq, hg⟩
  refine ⟨h.files, h.keys, ?_, fun q g hg => ?_, fun q g hg => ?_, fun g hg => ?_, fun p hp => ?_, fun he p hp => ?_,
    fun q g hg hh => ?_, fun g hg => ?_⟩
  · show ((s.dir ++ [f]).map File.path).Nodup
    rw [map_append, nodup_append]
    refine ⟨h.paths, List.nodup_singleton _, ?_⟩
    simp only [map_cons, map_nil, mem_singleton, mem_map]
    rintro a ⟨g, hg, rfl⟩ b rfl
    exact hfr g hg
  · rcases hca q g hg with ⟨rfl, rfl⟩ | ⟨-, hg⟩
    · exact hr
    · exact h.mine q g hg
  · rcases hca q g hg with ⟨-, rfl⟩ | ⟨-, hg⟩
    · exact hl
    · exact h.apart q g hg
  · rcases mem_append.mp hg with hg | hg
    · rcases h.owned g hg with ho | ho
      · exact .inl ho
      · refine .inr ?_
        have hne : g.request ≠ r := fun heq => by
          rw [heq, hn] at ho
          cases ho
        rw [calls_at_ne _ hne]
        exact ho
    · obtain rfl := mem_singleton.mp hg
      refine .inr ?_
      rw [hr, calls_at_self]
      rfl
  · exact mem_append_left _ (h.kept p hp)
  · exact mem_append_left _ (h.taken he p hp)
  · rcases hca q g hg with ⟨-, rfl⟩ | ⟨hq, hg⟩
    · exact mem_append_right _ (List.mem_singleton_self _)
    · rw [calls_at_ne _ hq] at hh
      exact mem_append_left _ (h.held q g hg hh)
  · have ht : g = f ∨ g.identity < s.next_identity := by
      rcases hg with hg | hg | ⟨q, hg⟩
      · rcases mem_append.mp hg with hg | hg
        · exact .inr (h.fresh g (.inl hg))
        · exact .inl (mem_singleton.mp hg)
      · exact .inr (h.fresh g (.inr (.inl hg)))
      · rcases hca q g hg with ⟨-, rfl⟩ | ⟨-, hg⟩
        · exact .inl rfl
        · exact .inr (h.fresh g (.inr (.inr ⟨q, hg⟩)))
    show g.identity < s.next_identity + 1
    rcases ht with rfl | ht <;> omega

/-- `get` removes the file it had persisted. -/
theorem FileInv.give_up {f : File} {next : Phase} (hf : (s.calls r).file = some f)
    (hh : (s.calls r).holds) (hn : next.file = none) : FileInv (give_up s r f next) := by
  have hd : f ∈ s.dir := h.held r f hf hh
  have ho : ∀ g ∈ s.dir, g ≠ f → g ∈ remove_file s.dir f.path := fun g hg hne =>
    mem_remove_file.mpr ⟨hg, fun hp => hne (h.eq_of_path hg hd hp)⟩
  have hc : ∀ q g, ((s.at r next).calls q).file = some g → q ≠ r ∧ (s.calls q).file = some g := by
    intro q g hg
    rw [calls_at] at hg
    split at hg
    · rw [hn] at hg
      cases hg
    · rename_i hq
      exact ⟨hq, hg⟩
  have hm : ∀ g ∈ Serve.files s, g ≠ f := fun g hg heq => h.apart r f hf (heq ▸ hg)
  refine ⟨h.files, h.keys, ?_, fun q g hg => h.mine q g (hc q g hg).2, fun q g hg => h.apart q g (hc q g hg).2,
    fun g hg => ?_, fun p hp => ?_, fun he p hp => ?_, fun q g hg hhq => ?_, fun g hg => ?_⟩
  · exact h.paths.sublist (filter_sublist.map _)
  · obtain ⟨hg, hp⟩ := mem_remove_file.mp hg
    rcases h.owned g hg with hon | hon
    · exact .inl hon
    · refine .inr ?_
      have hne : g.request ≠ r := fun heq => by
        rw [heq, hf] at hon
        exact hp (Option.some.inj hon ▸ rfl)
      exact (calls_at_ne s hne next).symm ▸ hon
  · refine ho p.2 (h.kept p hp) (hm _ ?_)
    exact mem_append_left _ (mem_map_of_mem hp)
  · refine ho p.2 (h.taken he p hp) (hm _ ?_)
    exact mem_append_right _ (mem_map_of_mem hp)
  · obtain ⟨hq, hg⟩ := hc q g hg
    have hhq : (s.calls q).holds := calls_at_ne s hq next ▸ hhq
    refine ho g (h.held q g hg hhq) fun heq => hq ?_
    rw [← h.mine q g hg, heq, h.mine r f hf]
  · refine h.fresh g ?_
    rcases hg with hg | hg | ⟨q, hg⟩
    · exact .inl (mem_remove_file.mp hg).1
    · exact .inr (.inl hg)
    · exact .inr (.inr ⟨q, (hc q g hg).2⟩)

/-- The file goes from the task into the table. -/
theorem FileInv.insert {f : File} {x : String} {n : Nat} (hf : s.calls r = .retained f) (hx : ∀ p ∈ s.leases, p.1 ≠ x) :
    FileInv { s.at r (.leased x) with leases := s.leases ++ [(x, f)], drawn := n } := by
  have hl : (s.calls r).file = some f := by rw [hf]; rfl
  have ha := h.apart r f hl
  have hc : ∀ q g, ((s.at r (.leased x)).calls q).file = some g → q ≠ r ∧ (s.calls q).file = some g := by
    intro q g hg
    rw [calls_at] at hg
    split at hg
    · cases hg
    · rename_i hq
      exact ⟨hq, hg⟩
  have hm : ∀ g, g ∈ (s.leases ++ [(x, f)]).map Prod.snd ++ s.shutdown.leases.map Prod.snd ↔
      g = f ∨ g ∈ Serve.files s := by
    intro g
    simp only [Serve.files, map_append, map_cons, map_nil, mem_append, mem_singleton]
    tauto
  refine ⟨?_, ?_, h.paths, fun q g hg => h.mine q g (hc q g hg).2, fun q g hg hgf => ?_, fun g hg => ?_,
    fun p hp => ?_, h.taken, fun q g hg hh => ?_, fun g hg => ?_⟩
  · have hr : ((s.leases ++ [(x, f)]).map Prod.snd ++ s.shutdown.leases.map Prod.snd).Perm (f :: Serve.files s) := by
      simp only [Serve.files, map_append, map_cons, map_nil, List.append_assoc, List.singleton_append]
      exact List.perm_middle
    exact hr.nodup_iff.mpr (List.nodup_cons.mpr ⟨ha, h.files⟩)
  · rw [map_append, nodup_append]
    refine ⟨h.keys, List.nodup_singleton _, ?_⟩
    simp only [map_cons, map_nil, mem_singleton, mem_map]
    rintro a ⟨p, hp, rfl⟩ b rfl
    exact hx p hp
  · obtain ⟨hq, ho⟩ := hc q g hg
    rcases (hm g).mp hgf with rfl | hgf
    · exact hq (by rw [← h.mine q g ho, h.mine r g hl])
    · exact h.apart q g ho hgf
  · rcases h.owned g hg with ho | ho
    · exact .inl ((hm g).mpr (.inr ho))
    · by_cases hgr : g.request = r
      · rw [hgr, hl] at ho
        exact .inl ((hm g).mpr (.inl (Option.some.inj ho).symm))
      · exact .inr ((calls_at_ne s hgr (.leased x)).symm ▸ ho)
  · rcases mem_append.mp hp with hp | hp
    · exact h.kept p hp
    · rw [mem_singleton.mp hp]
      exact h.held r f hl (by rw [hf]; rfl)
  · obtain ⟨hq, hg⟩ := hc q g hg
    exact h.held q g hg (calls_at_ne s hq (.leased x) ▸ hh)
  · refine h.fresh g ?_
    rcases hg with hg | hg | ⟨q, hg⟩
    · exact .inl hg
    · rcases (hm g).mp hg with rfl | hg
      · exact .inr (.inr ⟨r, hl⟩)
      · exact .inr (.inl hg)
    · exact .inr (.inr ⟨q, (hc q g hg).2⟩)

/-- An entry leaves the table with its file. -/
theorem FileInv.remove_entry (x : String) : FileInv (remove_entry s x) := by
  rcases remove_entry_spec s x with ⟨hq, -⟩ | ⟨f, hf, hq⟩
  · rw [hq]
    exact h
  rw [hq]
  have hl : (s.leases.map Prod.snd).Nodup := (nodup_append.mp h.files).1
  have hd : f ∈ s.dir := h.kept _ hf
  have ho : ∀ g ∈ s.dir, g ≠ f → g ∈ remove_lease s.dir f := fun g hg hn =>
    mem_remove_lease.mpr ⟨hg, fun hp => hn (h.eq_of_path hg hd hp.1)⟩
  have hs : (s.leases.filter fun p => p.1 != x).Sublist s.leases := filter_sublist
  have hfl : ∀ g, g ∈ (s.leases.filter fun p => p.1 != x).map Prod.snd ++ s.shutdown.leases.map Prod.snd →
      g ∈ Serve.files s := fun g hg =>
    (mem_append.mp hg).elim (fun hg => mem_append_left _ ((hs.map _).subset hg)) fun hg =>
      mem_append_right _ hg
  refine ⟨?_, h.keys.sublist (hs.map _), h.paths.sublist (filter_sublist.map _), h.mine,
    fun q g hg hgf => h.apart q g hg (hfl g hgf), fun g hg => ?_, fun p hp => ?_, fun he p hp => ?_,
    fun q g hg hh => ?_, fun g hg => ?_⟩
  · exact h.files.sublist ((hs.map _).append (List.Sublist.refl _))
  · obtain ⟨hg, hn⟩ := mem_remove_lease.mp hg
    refine (h.owned g hg).imp_left fun hon => ?_
    rcases mem_append.mp hon with hon | hon
    · obtain ⟨p, hp, rfl⟩ := mem_map.mp hon
      refine mem_append_left _ (mem_map_of_mem (List.mem_filter.mpr ⟨hp, bne_iff_ne.mpr fun hx => ?_⟩))
      have hpf : p = (x, f) := List.inj_on_of_nodup_map h.keys hp hf hx
      exact hn (hpf ▸ ⟨rfl, rfl⟩)
    · exact mem_append_right _ hon
  · obtain ⟨hp, hx⟩ := List.mem_filter.mp hp
    refine ho p.2 (h.kept p hp) fun hq => ?_
    have hpf : p = (x, f) := List.inj_on_of_nodup_map hl hp hf hq
    rw [hpf, bne_self_eq_false] at hx
    cases hx
  · refine ho p.2 (h.taken he p hp) fun hq => ?_
    have hds := (nodup_append.mp h.files).2.2 f (mem_map_of_mem hf) p.2 (mem_map_of_mem hp)
    exact hds hq.symm
  · refine ho g (h.held q g hg hh) fun hq => h.apart q g hg ?_
    exact mem_append_left _ (mem_map.mpr ⟨(x, f), hf, hq.symm⟩)
  · refine h.fresh g ?_
    rcases hg with hg | hg | hg
    · exact .inl (mem_remove_lease.mp hg).1
    · exact .inr (.inl (hfl g hg))
    · exact .inr (.inr hg)

end

theorem Phase.Goes.file {a : Bool} {p q : Phase} (h : p.Goes a q) : q.file = p.file := by
  cases h <;> rfl

theorem Phase.Goes.holds {a : Bool} {p q : Phase} (h : p.Goes a q) (hf : q.file ≠ none)
    (hh : q.holds) : p.holds := by
  cases h <;> first | rfl | exact absurd rfl hf | cases hh

theorem FileInv.move {e : CallEv} (h : FileInv s) (hm : Move rn s r e t) : FileInv t := by
  have hq : ∀ ph : Phase, ph.file = none → (s.calls r).file = none → FileInv (s.at r ph) :=
    fun _ hp hr => h.at (hp.trans hr.symm) fun hf => absurd hp hf
  cases hm with
  | start ph hr hp =>
    have hph : ph.file = none := by
      rcases hp with ⟨-, rfl | ⟨i, rfl⟩⟩ | rfl <;> rfl
    exact (hq _ hph (by rw [hr]; rfl)).of rfl rfl rfl id rfl (fun _ => rfl) fun _ _ _ hh => hh
  | go ph hr => exact h.at hr.file hr.holds
  | pathless n hr hn =>
    have hd : FileInv { s with drawn := n } := h.of rfl rfl rfl id rfl (fun _ => rfl) fun _ _ _ hh => hh
    exact hd.at (by rw [hr]; rfl) fun hf => absurd rfl hf
  | persist n file sp hr hn hi hrq hfr => exact h.persist hi hrq hfr (by rw [hr]; rfl) n
  | give_up file next hf hh hnx => exact h.give_up hf hh (by rcases hnx with rfl | rfl <;> rfl)
  | retain sp next u hu hnx =>
    obtain ⟨rfl, -⟩ := retain_spec hu
    have hd : FileInv { s with
        pending_supporting_files := (r, sp) :: s.pending_supporting_files.filter fun p => p.1 != r } :=
      h.of rfl rfl rfl id rfl (fun _ => rfl) fun _ _ _ hh => hh
    rcases hnx with ⟨hr, rfl⟩ | ⟨file, hr, rfl⟩
    · exact hd.at (by rw [hr]; rfl) fun hf => absurd rfl hf
    · exact hd.at (by rw [hr]; rfl) fun _ _ => by rw [hr]; rfl
  | insert file tr hr hl hx => exact h.insert hr hx
  | record lease_id hr | refuse hr =>
    exact (hq .returned rfl (by rw [hr]; rfl)).of rfl rfl rfl id rfl (fun _ => rfl)
      fun _ _ _ hh => hh
  | unlock i hr he =>
    have hd : FileInv (release_loop i [] 0 s).1 := release_loop_induct (fun u x _ hu => hu.remove_entry x) [] 0 s h
    obtain ⟨l, d, heq⟩ := release_loop_frame i s
    exact hd.at (by rw [heq, hr]; rfl) fun hf => absurd rfl hf
  | take_lease c hr =>
    exact (hq (.unpended c (s.pending_leases r)) rfl (by rw [hr]; rfl)).of rfl rfl rfl
      id rfl (fun _ => rfl) fun _ _ _ hh => hh
  | take_files c lease_id hr =>
    exact (hq (.settling c lease_id (pending_files s r)) rfl (by rw [hr]; rfl)).of rfl rfl rfl
      id rfl (fun _ => rfl) fun _ _ _ hh => hh
  | commit lease_id sp hr =>
    exact (hq (.finished true) rfl (by rw [hr]; rfl)).of rfl rfl rfl id rfl (fun _ => rfl)
      fun _ _ _ hh => hh
  | uncommit lease_id sp hr =>
    have hd : FileInv (settle s false lease_id sp) := by
      cases lease_id with
      | none => exact h
      | some x => exact h.remove_entry x
    obtain ⟨l, d, heq⟩ := settle_frame s lease_id sp
    exact hd.at (by rw [heq, hr]; rfl) fun hf => absurd rfl hf

/-! ## Shutdown -/

/-- `shutdown` goes on with the leases it took. -/
theorem FileInv.winding (h : FileInv s) (hd : t.dir = s.dir) (hl : t.leases = s.leases)
    (hs : t.shutdown.leases = s.shutdown.leases) (he : t.shutdown.ended = false → s.shutdown.ended = false)
    (hn : t.next_identity = s.next_identity) (hc : t.calls = s.calls) : FileInv t :=
  h.of hd hl hs he hn (fun _ => hc ▸ rfl) fun _ _ _ hh => hc ▸ hh

/-- It takes the table. -/
theorem FileInv.take_leases (h : FileInv s) (hs : s.shutdown = .detached) :
    FileInv { s with leases := [], shutdown := .holding s.leases } := by
  have hf : Serve.files { s with leases := [], shutdown := .holding s.leases } = Serve.files s := by
    simp [Serve.files, hs, Shutdown.leases]
  refine ⟨hf ▸ h.files, nodup_nil, h.paths, h.mine, fun q g hg => hf ▸ h.apart q g hg,
    fun g hg => hf ▸ h.owned g hg, nofun, fun _ p hp => h.kept p hp, h.held, fun g hg => ?_⟩
  rw [hf] at hg
  exact h.fresh g hg

/-- It removes the files of the leases it took. -/
theorem FileInv.remove_leases {l : List (String × File)} (h : FileInv s) (hs : s.shutdown = .unfiled l) :
    FileInv { s with dir := l.foldl (fun dir p => remove_lease dir p.2) s.dir, shutdown := .removed } := by
  have ht : ∀ p ∈ l, p.2 ∈ s.dir := fun p hp =>
    h.taken (by rw [hs]; rfl) p (by rw [hs]; exact hp)
  have hf : Serve.files s = s.leases.map Prod.snd ++ l.map Prod.snd := by rw [Serve.files, hs]; rfl
  have hn : Serve.files { s with dir := l.foldl (fun dir p => remove_lease dir p.2) s.dir, shutdown := .removed } =
      s.leases.map Prod.snd := List.append_nil _
  have hi : ∀ g ∈ s.leases.map Prod.snd, g ∈ Serve.files s := fun g hg => hf ▸ mem_append_left _ hg
  have ho : ∀ g ∈ s.dir, g ∉ l.map Prod.snd → g ∈ l.foldl (fun dir p => remove_lease dir p.2) s.dir := by
    intro g hg hne
    refine mem_remove_leases.mpr ⟨hg, fun p hp he => hne ?_⟩
    rw [h.eq_of_path hg (ht p hp) he.1]
    exact mem_map_of_mem hp
  have hd := h.files
  rw [hf, nodup_append] at hd
  refine ⟨hn ▸ hd.1, h.keys, ?_, h.mine, fun q g hg hgf => h.apart q g hg (hi g (hn ▸ hgf)), fun g hg => ?_,
    fun p hp => ?_, nofun, fun q g hg hh => ?_, fun g hg => ?_⟩
  · refine h.paths.sublist (List.Sublist.map _ ?_)
    have hfd : ∀ (l : List (String × File)) (dir : List File),
        (l.foldl (fun dir p => remove_lease dir p.2) dir).Sublist dir := fun l => by
      induction l with
      | nil => exact fun dir => List.Sublist.refl dir
      | cons p l ih => exact fun dir => (ih _).trans filter_sublist
    exact hfd l s.dir
  · obtain ⟨hg, hne⟩ := mem_remove_leases.mp hg
    refine (h.owned g hg).imp_left fun hon => ?_
    rw [hf] at hon
    rw [hn]
    refine (mem_append.mp hon).resolve_right fun hl => ?_
    obtain ⟨p, hp, rfl⟩ := mem_map.mp hl
    exact hne p hp ⟨rfl, rfl⟩
  · refine ho p.2 (h.kept p hp) fun hl => ?_
    exact hd.2.2 p.2 (mem_map_of_mem hp) p.2 hl rfl
  · refine ho g (h.held q g hg hh) fun hl => h.apart q g hg ?_
    exact hf ▸ mem_append_right _ hl
  · refine h.fresh g ?_
    rcases hg with hg | hg | hg
    · exact .inl (mem_remove_leases.mp hg).1
    · exact .inr (.inl (hi g (hn ▸ hg)))
    · exact .inr (.inr hg)

theorem FileInv.shutdown_step (h : FileInv s) (hs : shutdown_step s = some t) : FileInv t := by
  unfold Serve.shutdown_step at hs
  split at hs
  · rename_i hr
    cases hs
    exact h.winding rfl rfl (by rw [hr]; rfl) (fun _ => by rw [hr]; rfl) rfl rfl
  · rename_i hr
    cases hs
    exact h.take_leases hr
  · rename_i l hr
    cases hs
    exact h.winding rfl rfl (by rw [hr]; rfl) (fun _ => by rw [hr]; rfl) rfl rfl
  · rename_i l hr
    cases hs
    exact h.winding rfl rfl (by rw [hr]; rfl) (fun _ => by rw [hr]; rfl) rfl rfl
  · rename_i l hr
    cases hs
    exact h.remove_leases hr
  · rename_i hr
    cases hs
    exact h.winding rfl rfl (by rw [hr]; rfl) nofun rfl rfl
  · cases hs

theorem shutdown_abort_spec (hs : shutdown_abort s = some t) :
    s.shutdown ≠ .running ∧ t = { s with shutdown := .over s.shutdown.leases } := by
  unfold Serve.shutdown_abort at hs
  split at hs
  all_goals first
    | (rename_i hr; exact ⟨by rw [hr]; nofun, (Option.some.inj hs).symm⟩)
    | cases hs

theorem FileInv.shutdown_abort (h : FileInv s) (hs : shutdown_abort s = some t) : FileInv t := by
  obtain ⟨-, rfl⟩ := shutdown_abort_spec hs
  exact h.winding rfl rfl rfl nofun rfl rfl

/-- With nobody left that holds the state, its directory and tables go. -/
theorem FileInv.drop_state (h : FileInv s) (hi : ∀ r, s.calls r ≠ .idle → r ∈ s.started) : FileInv (drop_state s) := by
  unfold Serve.drop_state
  split
  · rename_i hd
    rw [Bool.and_eq_true, List.all_eq_true] at hd
    have hn : ∀ r, (s.calls r).holds = false := fun r => by
      by_cases hr : s.calls r = .idle
      · rw [hr]
        rfl
      · simpa using hd.2 r (hi r hr)
    have hf : ∀ g ∈ s.shutdown.leases.map Prod.snd, g ∈ Serve.files s := fun g hg => mem_append_right _ hg
    refine ⟨(nodup_append.mp h.files).2.1, nodup_nil, nodup_nil, h.mine,
      fun q g hg hgf => h.apart q g hg (hf g hgf), nofun, nofun, fun he => ?_, fun q g hg hh => ?_, fun g hg => ?_⟩
    · rw [show s.shutdown.ended = false from he] at hd
      cases hd.1
    · have hq := hn q
      rw [show (s.calls q).holds from hh] at hq
      cases hq
    · refine h.fresh g ?_
      rcases hg with hg | hg | hg
      · cases hg
      · exact .inr (.inl (hf g hg))
      · exact .inr (.inr hg)
  · exact h

/-! ## Who runs -/

structure ControlInv (s : Session) : Prop where
  started : ∀ r, s.calls r ≠ .idle → r ∈ s.started
  attached : s.attached = true → s.shutdown = .running

theorem ControlInv.init : ControlInv {} where
  started := fun _ hr => absurd rfl hr
  attached := fun _ => rfl

theorem ControlInv.move {e : CallEv} (h : ControlInv s) (hm : Move rn s r e t) : ControlInv t := by
  obtain ⟨hc, hs, p, hl, ht⟩ := hm.frame
  refine ⟨fun q hq => ?_, fun ha => hs.trans (h.attached (hc ▸ ha))⟩
  rw [hl] at hq
  by_cases hqr : q = r
  · subst hqr
    rcases ht with ⟨hsm, hr⟩ | hmr
    · exact hsm ▸ h.started q hr
    · exact hmr ▸ mem_append_right _ (List.mem_singleton_self q)
  · rw [if_neg hqr] at hq
    rcases ht with ⟨hsm, -⟩ | hmr
    · exact hsm ▸ h.started q hq
    · exact hmr ▸ mem_append_left _ (h.started q hq)

end Monosecret.Serve
