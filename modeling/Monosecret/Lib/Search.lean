/-
  Monosecret.Lib.Search — depth-first searches that stop at a cycle.

  A search holds the nodes it is inside of and the nodes it has done, in the order they were
  finished. Meeting a node it is inside of stops it. With fuel for every node left it always
  comes to an end: at a cycle the roots reach (`Outcome`), or with everything they reach done
  once, after its successors. Which of the two depends on the graph alone (`search_all_ok_iff`).
-/

import Mathlib.Data.List.Basic
import Monosecret.Lib.Dfs
import Monosecret.Lib.Except

namespace Lib

universe u

structure Search (α : Type u) where
  active : List α
  done : List α
  deriving DecidableEq

namespace Search

variable {α : Type u}

/-- Why a search ended early. -/
inductive Stop (α : Type u)
  | fuel
  | cycle (a : α)

def empty : Search α := ⟨[], []⟩

variable [DecidableEq α] (next : α → List α)

/-- `fuel` bounds the depth; one more than the number of nodes left is enough. -/
def search : Nat → α → Search α → Except (Stop α) (Search α)
  | 0, _, _ => .error .fuel
  | fuel + 1, a, s =>
    if a ∈ s.done then .ok s
    else if a ∈ s.active then .error (.cycle a)
    else do
      let t ← (next a).foldlM (fun s b => search fuel b s) ⟨a :: s.active, s.done⟩
      .ok ⟨s.active, t.done ++ [a]⟩

def search_all (fuel : Nat) (roots : List α) (s : Search α) : Except (Stop α) (Search α) :=
  roots.foldlM (fun s a => search next fuel a s) s

/-- One node leads to another. -/
def Leads (a b : α) : Prop := b ∈ next a

/-- A walk that comes back to where it started. -/
def ClosedWalk (r : α → α → Prop) (walk : List α) : Prop := ∃ a inner, walk = a :: (inner ++ [a]) ∧ List.IsChain r walk

/-- A node that leads back to itself. -/
def Cyclic (a : α) : Prop := Relation.TransGen (Leads next) a a

variable {next}

structure Inv (next : α → List α) (s : Search α) : Prop where
  nodup : s.done.Nodup
  apart : ∀ x ∈ s.active, x ∉ s.done
  topological : Walk.Topological next s.done

/-- `t` came from `s` by searching from `roots`. -/
structure From (next : α → List α) (roots : List α) (s t : Search α) : Prop where
  inv : Inv next t
  active : t.active = s.active
  grows : ∀ x ∈ s.done, x ∈ t.done
  reached : ∀ a ∈ roots, a ∈ t.done
  source : ∀ x ∈ t.done, x ∈ s.done ∨ ∃ a ∈ roots, Relation.ReflTransGen (Leads next) a x

/-- How a search from `roots` may end. -/
def Outcome (next : α → List α) (roots : List α) (s : Search α) : Except (Stop α) (Search α) → Prop
  | .ok t => From next roots s t
  | .error .fuel => False
  | .error (.cycle b) => Cyclic next b ∧ ∃ a ∈ roots, Relation.ReflTransGen (Leads next) a b

/-- Nodes of the universe that the search has not met. -/
def unmet (universe_ : List α) (s : Search α) : Nat := universe_.countP fun x => decide (x ∉ s.active ∧ x ∉ s.done)

theorem unmet_mono {universe_ : List α} {s t : Search α} (ha : t.active = s.active) (hd : ∀ x ∈ s.done, x ∈ t.done) :
    unmet universe_ t ≤ unmet universe_ s := by
  refine List.countP_mono_left ?_
  intro x _ hx
  simp only [decide_eq_true_eq] at hx ⊢
  exact ⟨ha ▸ hx.1, fun h => hx.2 (hd x h)⟩

theorem unmet_enter {universe_ : List α} {a : α} {s : Search α} (hu : a ∈ universe_) (ha : a ∉ s.active) (hd : a ∉ s.done) :
    unmet universe_ ⟨a :: s.active, s.done⟩ < unmet universe_ s := by
  refine countP_lt_countP ?_ hu (by simp [ha, hd]) (by simp)
  intro x _ hx
  simp only [decide_eq_true_eq, List.mem_cons, not_or] at hx ⊢
  exact ⟨hx.1.2, hx.2⟩

variable {fuel : Nat}

/-- A search leaves what it was inside of as it was. -/
theorem search_active {a : α} {s t : Search α} (h : search next fuel a s = .ok t) : t.active = s.active := by
  cases fuel with
  | zero => cases h
  | succ fuel =>
    unfold search at h
    split at h
    · cases h
      rfl
    · split at h
      · cases h
      · obtain ⟨w, -, h⟩ := Except.bind_ok h
        cases h
        rfl

variable {roots : List α}

theorem foldlM_active {s t : Search α} (h : roots.foldlM (fun s b => search next fuel b s) s = .ok t) :
    t.active = s.active := by
  induction roots generalizing s with
  | nil =>
    cases h
    rfl
  | cons a roots ih =>
    rw [List.foldlM_cons] at h
    obtain ⟨w, hw, h⟩ := Except.bind_ok h
    exact (ih h).trans (search_active hw)

omit [DecidableEq α] in
theorem foldlM_done_eq {f : Search α → α → Except (Stop α) (Search α)}
    (hf : ∀ a s s' t t', s.done = s'.done → f s a = .ok t → f s' a = .ok t' → t.done = t'.done) (roots : List α)
    {s s' t t' : Search α} (hd : s.done = s'.done) (h : roots.foldlM f s = .ok t) (h' : roots.foldlM f s' = .ok t') :
    t.done = t'.done := by
  induction roots generalizing s s' with
  | nil =>
    cases h
    cases h'
    exact hd
  | cons a roots ih =>
    rw [List.foldlM_cons] at h h'
    obtain ⟨w, hw, h⟩ := Except.bind_ok h
    obtain ⟨w', hw', h'⟩ := Except.bind_ok h'
    exact ih (hf a s s' w w' hd hw hw') h h'

/-- What a search has done does not depend on what it was inside of, if it went through. -/
theorem search_done_eq {a : α} {s s' t t' : Search α} (hd : s.done = s'.done) (h : search next fuel a s = .ok t)
    (h' : search next fuel a s' = .ok t') : t.done = t'.done := by
  induction fuel generalizing a s s' t t' with
  | zero => cases h
  | succ fuel ih =>
    unfold search at h h'
    by_cases ha : a ∈ s.done
    · rw [if_pos ha] at h
      rw [if_pos (hd ▸ ha)] at h'
      cases h
      cases h'
      exact hd
    · rw [if_neg ha] at h
      rw [if_neg (hd ▸ ha)] at h'
      split at h
      · cases h
      split at h'
      · cases h'
      obtain ⟨w, hw, h⟩ := Except.bind_ok h
      obtain ⟨w', hw', h'⟩ := Except.bind_ok h'
      cases h
      cases h'
      exact congrArg (· ++ [a]) 
        (foldlM_done_eq (f := fun s b => search next fuel b s) (fun _ _ _ _ _ hd h h' => ih hd h h') (next a) (by exact hd) hw hw')

theorem search_all_done_eq {s s' t t' : Search α} (hd : s.done = s'.done) (h : search_all next fuel roots s = .ok t)
    (h' : search_all next fuel roots s' = .ok t') : t.done = t'.done :=
  foldlM_done_eq (f := fun s a => search next fuel a s) (fun _ _ _ _ _ hd h h' => search_done_eq hd h h') roots hd h h'

omit [DecidableEq α] in
theorem foldlM_succ {f g : α → Search α → Except (Stop α) (Search α)} (hf : ∀ a s t, f a s = .ok t → g a s = .ok t)
    {s t : Search α} (h : roots.foldlM (fun s a => f a s) s = .ok t) : roots.foldlM (fun s a => g a s) s = .ok t := by
  induction roots generalizing s with
  | nil => exact h
  | cons a roots ih =>
    rw [List.foldlM_cons] at h ⊢
    obtain ⟨w, hw, h⟩ := Except.bind_ok h
    rw [hf a s w hw]
    exact ih h

/-- More fuel changes nothing of a search that went through. -/
theorem search_succ {a : α} {s t : Search α} (h : search next fuel a s = .ok t) :
    search next (fuel + 1) a s = .ok t := by
  induction fuel generalizing a s t with
  | zero => cases h
  | succ fuel ih =>
    unfold search at h ⊢
    split
    · rw [if_pos ‹_›] at h
      exact h
    rw [if_neg ‹_›] at h
    split
    · rw [if_pos ‹_›] at h
      exact h
    rw [if_neg ‹_›] at h
    obtain ⟨w, hw, h⟩ := Except.bind_ok h
    rw [foldlM_succ (fun b s t h => ih h) hw]
    exact h

/-! ## One search -/

variable {universe_ : List α}

/-- A list of searches, when each single search ends as it may. -/
theorem foldlM_outcome {f : Search α → α → Except (Stop α) (Search α)} {n : Nat} (roots : List α)
    (ht : ∀ a ∈ roots, a ∈ universe_) (s : Search α) (hi : Inv next s) (hn : unmet universe_ s ≤ n)
    (hl : ∀ g ∈ s.active, ∀ a ∈ roots, Relation.TransGen (Leads next) g a)
    (hf : ∀ a ∈ universe_, ∀ t, Inv next t → unmet universe_ t ≤ n →
      (∀ g ∈ t.active, Relation.TransGen (Leads next) g a) → Outcome next [a] t (f t a)) :
    Outcome next roots s (roots.foldlM f s) := by
  induction roots generalizing s with
  | nil => exact ⟨hi, rfl, fun _ h => h, fun _ h => absurd h List.not_mem_nil, fun _ h => .inl h⟩
  | cons a roots ih =>
    have ho := hf a (ht a (.head _)) s hi hn fun g hg => hl g hg a (.head _)
    rw [List.foldlM_cons]
    cases hr : f s a with
    | error st =>
      rw [hr] at ho
      cases st with
      | fuel => exact ho
      | cycle b =>
        obtain ⟨hy, c, hc, hrc⟩ := ho
        exact ⟨hy, c, List.mem_cons.mpr (.inl (List.mem_singleton.mp hc)), hrc⟩
    | ok t =>
      rw [hr] at ho
      have hs := ih (fun b hb => ht b (.tail _ hb)) t ho.inv
        (Nat.le_trans (unmet_mono ho.active ho.grows) hn)
        (fun g hg b hb => hl g (ho.active ▸ hg) b (.tail _ hb))
      show Outcome next (a :: roots) s (roots.foldlM f t)
      cases hfl : roots.foldlM f t with
      | error st =>
        rw [hfl] at hs
        cases st with
        | fuel => exact hs
        | cycle b =>
          obtain ⟨hy, c, hc, hrc⟩ := hs
          exact ⟨hy, c, List.mem_cons_of_mem _ hc, hrc⟩
      | ok w =>
        rw [hfl] at hs
        refine ⟨hs.inv, hs.active.trans ho.active, fun x hx => hs.grows x (ho.grows x hx), ?_, ?_⟩
        · intro b hb
          rcases List.mem_cons.mp hb with rfl | hb
          · exact hs.grows b (ho.reached b (List.mem_singleton_self b))
          · exact hs.reached b hb
        · intro x hx
          rcases hs.source x hx with hx | ⟨b, hb, hrc⟩
          · rcases ho.source x hx with hx | ⟨b, hb, hrc⟩
            · exact .inl hx
            · exact .inr ⟨b, List.mem_cons.mpr (.inl (List.mem_singleton.mp hb)), hrc⟩
          · exact .inr ⟨b, List.mem_cons_of_mem _ hb, hrc⟩

theorem search_outcome (hu : ∀ a ∈ universe_, ∀ b ∈ next a, b ∈ universe_) (fuel : Nat) (a : α) (ha : a ∈ universe_)
    (s : Search α) (hi : Inv next s) (hn : unmet universe_ s < fuel)
    (hld : ∀ g ∈ s.active, Relation.TransGen (Leads next) g a) : Outcome next [a] s (search next fuel a s) := by
  induction fuel generalizing a s with
  | zero => omega
  | succ fuel ih =>
    unfold search
    by_cases hd : a ∈ s.done
    · rw [if_pos hd]
      refine ⟨hi, rfl, fun _ h => h, ?_, fun _ h => .inl h⟩
      intro b hb
      rw [List.mem_singleton.mp hb]
      exact hd
    rw [if_neg hd]
    by_cases hac : a ∈ s.active
    · rw [if_pos hac]
      exact ⟨hld a hac, a, List.mem_singleton_self a, .refl⟩
    rw [if_neg hac]
    have hlt := unmet_enter ha hac hd
    have hi₀ : Inv next ⟨a :: s.active, s.done⟩ := by
      refine ⟨hi.nodup, ?_, hi.topological⟩
      intro x hx
      rcases List.mem_cons.mp hx with rfl | hx
      · exact hd
      · exact hi.apart x hx
    -- inside `a`, every node the search is inside of leads to each successor
    have hlead₀ : ∀ g ∈ (⟨a :: s.active, s.done⟩ : Search α).active, ∀ b ∈ next a, Relation.TransGen (Leads next) g b := by
      intro g hg b hb
      rcases List.mem_cons.mp hg with rfl | hg
      · exact .single hb
      · exact (hld g hg).tail hb
    have hs := foldlM_outcome (f := fun s b => search next fuel b s) (n := fuel - 1) (next a) (hu a ha) _ hi₀ (by omega)
      hlead₀ (fun b hb t ht htn hl => ih b hb t ht (by omega) hl)
    cases hf : (next a).foldlM (fun s b => search next fuel b s) ⟨a :: s.active, s.done⟩ with
    | error st =>
      rw [hf] at hs
      cases st with
      | fuel => exact hs
      | cycle b =>
        obtain ⟨hcy, c, hc, hr⟩ := hs
        exact ⟨hcy, a, List.mem_singleton_self a, .head hc hr⟩
    | ok t =>
      rw [hf] at hs
      have hat : a ∉ t.done := hs.inv.apart a (hs.active ▸ List.mem_cons_self)
      refine ⟨⟨?_, ?_, ?_⟩, rfl, ?_, ?_, ?_⟩
      · refine List.nodup_append.mpr ⟨hs.inv.nodup, by simp, ?_⟩
        intro x hx y hy he
        rw [List.mem_singleton.mp hy] at he
        exact hat (he ▸ hx)
      · intro x hx hxd
        rcases List.mem_append.mp hxd with hxd | hxd
        · exact hs.inv.apart x (hs.active ▸ List.mem_cons_of_mem _ hx) hxd
        · exact hac (List.mem_singleton.mp hxd ▸ hx)
      · exact Walk.topological_snoc hs.inv.topological hs.reached
      · exact fun x hx => List.mem_append_left _ (hs.grows x hx)
      · intro b hb
        rw [List.mem_singleton.mp hb]
        exact List.mem_append_right _ (List.mem_singleton_self a)
      · intro x hx
        rcases List.mem_append.mp hx with hx | hx
        · rcases hs.source x hx with hx | ⟨b, hb, hr⟩
          · exact .inl hx
          · exact .inr ⟨a, List.mem_singleton_self a, .head hb hr⟩
        · rw [List.mem_singleton.mp hx]
          exact .inr ⟨a, List.mem_singleton_self a, .refl⟩

/-! ## A whole search -/

omit [DecidableEq α] in
theorem inv_empty : Inv next (empty : Search α) :=
  ⟨List.nodup_nil, fun _ h => absurd h List.not_mem_nil, fun pre x post he => by simp [empty] at he⟩

variable {roots : List α} {fuel : Nat}

theorem search_all_outcome (hu : ∀ a ∈ universe_, ∀ b ∈ next a, b ∈ universe_) (hr : ∀ a ∈ roots, a ∈ universe_)
    (hf : universe_.length < fuel) : Outcome next roots empty (search_all next fuel roots empty) :=
  foldlM_outcome (n := universe_.length) roots hr empty inv_empty List.countP_le_length
    (fun _ hg => absurd hg List.not_mem_nil)
    fun a ha t ht hn hl => search_outcome hu fuel a ha t ht (by omega) hl

/-- A successor stands earlier in a list in order. -/
theorem idxOf_lt_of_topological {l : List α} (hn : l.Nodup) (ht : Walk.Topological next l) {a b : α} (ha : a ∈ l)
    (hab : Leads next a b) : b ∈ l ∧ l.idxOf b < l.idxOf a := by
  obtain ⟨pre, p, rfl⟩ := List.append_of_mem ha
  have hb := ht pre a p rfl b hab
  have hp : a ∉ pre := fun h => by
    have := List.nodup_append.mp hn
    exact this.2.2 a h a (.head _) rfl
  refine ⟨List.mem_append_left _ hb, ?_⟩
  rw [List.idxOf_append_of_mem hb, List.idxOf_append_of_notMem hp]
  have := List.idxOf_lt_length_of_mem hb
  omega

/-- A list in order has no cycle. -/
theorem not_cyclic_of_topological {l : List α} (hn : l.Nodup) (ht : Walk.Topological next l) {x : α} (hx : x ∈ l) :
    ¬ Cyclic next x := by
  have hch : ∀ {a b}, a ∈ l → Relation.TransGen (Leads next) a b → b ∈ l ∧ l.idxOf b < l.idxOf a := by
    intro a b ha hb
    induction hb with
    | single h => exact idxOf_lt_of_topological hn ht ha h
    | tail _ h ih =>
      obtain ⟨hc, hl⟩ := ih
      obtain ⟨hd, hl'⟩ := idxOf_lt_of_topological hn ht hc h
      exact ⟨hd, by omega⟩
  intro hy
  have := (hch hx hy).2
  omega

omit [DecidableEq α] in
/-- Everything the roots reach is done, in order. -/
theorem From.mem_done {s t : Search α} (h : From next roots s t) (hs : s.done = []) (x : α) :
    x ∈ t.done ↔ ∃ a ∈ roots, Relation.ReflTransGen (Leads next) a x := by
  constructor
  · intro hx
    rcases h.source x hx with hx | hx
    · rw [hs] at hx
      cases hx
    · exact hx
  · rintro ⟨a, ha, hr⟩
    induction hr with
    | refl => exact h.reached a ha
    | tail _ hb ih =>
      obtain ⟨pr, p, he⟩ := List.append_of_mem ih
      rw [he]
      exact List.mem_append_left _ (h.inv.topological pr _ p he _ hb)

/-- The search goes through exactly when the roots reach no cycle. -/
theorem search_all_ok_iff (hu : ∀ a ∈ universe_, ∀ b ∈ next a, b ∈ universe_) (hr : ∀ a ∈ roots, a ∈ universe_)
    (hf : universe_.length < fuel) :
    (∃ t, search_all next fuel roots empty = .ok t) ↔
      ∀ a ∈ roots, ∀ b, Relation.ReflTransGen (Leads next) a b → ¬ Cyclic next b := by
  have ho := search_all_outcome hu hr hf
  constructor
  · rintro ⟨t, ht⟩ a ha b hb
    rw [ht] at ho
    exact not_cyclic_of_topological ho.inv.nodup ho.inv.topological ((ho.mem_done rfl b).mpr ⟨a, ha, hb⟩)
  · intro hn
    cases hs : search_all next fuel roots empty with
    | ok t => exact ⟨t, rfl⟩
    | error s =>
      rw [hs] at ho
      cases s with
      | fuel => exact ho.elim
      | cycle b =>
        obtain ⟨hc, a, ha, hb⟩ := ho
        exact absurd hc (hn a ha b hb)

end Search

end Lib
