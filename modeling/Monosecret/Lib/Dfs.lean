/-
  Monosecret.Lib.Dfs — depth-first walks that visit every node once and list it after its
  successors.

  A walk marks a node, walks its successors and then lists it. From an empty walk over a
  universe closed under `next`, the visited nodes are exactly those reachable from the roots
  (`mem_visited_iff`), each listed once (`nodup`), and when no node reaches itself every
  successor is listed before its node (`topological`).
-/

import Mathlib.Logic.Relation
import Mathlib.Tactic.ByContra
import Monosecret.Lib.Lists

namespace Lib

universe u

structure Walk (α : Type u) where
  visited : List α
  ordered : List α
  deriving DecidableEq

namespace Walk

variable {α : Type u}

def empty : Walk α := ⟨[], []⟩

variable [DecidableEq α] (next : α → List α)

/-- `fuel` bounds the depth; one more than the number of unvisited nodes is enough. -/
def visit : Nat → α → Walk α → Walk α
  | 0, _, w => w
  | fuel + 1, a, w =>
    if a ∈ w.visited then w
    else
      let walked := (next a).foldl (fun w b => visit fuel b w) ⟨a :: w.visited, w.ordered⟩
      ⟨walked.visited, walked.ordered ++ [a]⟩

def visit_all (fuel : Nat) (roots : List α) (w : Walk α) : Walk α :=
  roots.foldl (fun w a => visit next fuel a w) w

variable {next}

/-! ## What a walk over some roots does -/

structure Inv (next : α → List α) (w : Walk α) : Prop where
  ordered_visited : ∀ x ∈ w.ordered, x ∈ w.visited
  nodup : w.ordered.Nodup
  visited_nodup : w.visited.Nodup
  closed : ∀ x ∈ w.ordered, ∀ b ∈ next x, b ∈ w.visited

/-- `w'` came from `w` by walking from `roots`. -/
structure From (next : α → List α) (roots : List α) (w w' : Walk α) : Prop where
  grows : ∀ x ∈ w.visited, x ∈ w'.visited
  extends_ : w.ordered <+: w'.ordered
  reached : ∀ a ∈ roots, a ∈ w'.visited
  finished : ∀ x ∈ w'.visited, x ∈ w.visited ∨ x ∈ w'.ordered
  fresh : ∀ x ∈ w'.ordered, x ∈ w.ordered ∨ x ∉ w.visited
  source : ∀ x ∈ w'.visited, x ∈ w.visited ∨ ∃ a ∈ roots, Relation.ReflTransGen (fun a b => b ∈ next a) a x

omit [DecidableEq α] in
theorem From.refl (w : Walk α) : From next [] w w :=
  ⟨fun _ h => h, List.prefix_rfl, fun _ h => absurd h List.not_mem_nil, fun _ h => .inl h, fun _ h => .inl h,
    fun _ h => .inl h⟩

omit [DecidableEq α] in
theorem From.trans {as bs : List α} {u v w : Walk α} (h₁ : From next as u v) (h₂ : From next bs v w) : From next (as ++ bs) u w := by
  refine ⟨fun x hx => h₂.grows x (h₁.grows x hx), h₁.extends_.trans h₂.extends_, ?_, ?_, ?_, ?_⟩
  · intro a ha
    rcases List.mem_append.mp ha with ha | ha
    · exact h₂.grows a (h₁.reached a ha)
    · exact h₂.reached a ha
  · intro x hx
    rcases h₂.finished x hx with hx | hx
    · rcases h₁.finished x hx with hx | hx
      · exact .inl hx
      · exact .inr (h₂.extends_.subset hx)
    · exact .inr hx
  · intro x hx
    rcases h₂.fresh x hx with hx | hx
    · exact h₁.fresh x hx
    · exact .inr fun hu => hx (h₁.grows x hu)
  · intro x hx
    rcases h₂.source x hx with hx | ⟨b, hb, hr⟩
    · rcases h₁.source x hx with hx | ⟨a, ha, hr⟩
      · exact .inl hx
      · exact .inr ⟨a, List.mem_append_left _ ha, hr⟩
    · exact .inr ⟨b, List.mem_append_right _ hb, hr⟩

/-! ## Fuel -/

/-- Nodes of the universe still to visit. -/
def unvisited (universe_ : List α) (w : Walk α) : Nat := universe_.countP fun x => decide (x ∉ w.visited)

theorem unvisited_mono {universe_ : List α} {w w' : Walk α} (h : ∀ x ∈ w.visited, x ∈ w'.visited) :
    unvisited universe_ w' ≤ unvisited universe_ w := by
  refine List.countP_mono_left ?_
  intro x _ hx
  simp only [decide_eq_true_eq] at hx ⊢
  exact fun hw => hx (h x hw)

theorem unvisited_mark {universe_ : List α} {a : α} {w : Walk α} (ha : a ∈ universe_) (hw : a ∉ w.visited) :
    unvisited universe_ ⟨a :: w.visited, w.ordered⟩ < unvisited universe_ w := by
  refine countP_lt_countP ?_ ha (by simpa using hw) (by simp)
  intro x _ hx
  simp only [decide_eq_true_eq, List.mem_cons, not_or] at hx ⊢
  exact hx.2

/-! ## One visit -/

variable {universe_ : List α}

/-- A walk over a list of roots, when each single visit is as it should be. -/
theorem foldl_from {f : α → Walk α → Walk α}
    (hf : ∀ b ∈ universe_, ∀ w, Inv next w → unvisited universe_ w ≤ n → Inv next (f b w) ∧ From next [b] w (f b w))
    (bs : List α) (hb : ∀ b ∈ bs, b ∈ universe_) (w : Walk α) (hi : Inv next w) (hn : unvisited universe_ w ≤ n) :
    Inv next (bs.foldl (fun w b => f b w) w) ∧ From next bs w (bs.foldl (fun w b => f b w) w) := by
  induction bs generalizing w with
  | nil => exact ⟨hi, From.refl w⟩
  | cons b bs ih =>
    obtain ⟨hi', hr⟩ := hf b (hb b (.head _)) w hi hn
    have hn' : unvisited universe_ (f b w) ≤ n := Nat.le_trans (unvisited_mono hr.grows) hn
    obtain ⟨hi'', hs⟩ := ih (fun x hx => hb x (.tail _ hx)) (f b w) hi' hn'
    exact ⟨hi'', hr.trans hs⟩

theorem visit_from (hu : ∀ a ∈ universe_, ∀ b ∈ next a, b ∈ universe_) (fuel : Nat) (a : α) (ha : a ∈ universe_)
    (w : Walk α) (hi : Inv next w) (hn : unvisited universe_ w < fuel) :
    Inv next (visit next fuel a w) ∧ From next [a] w (visit next fuel a w) := by
  induction fuel generalizing a w with
  | zero => omega
  | succ fuel ih =>
    unfold visit
    by_cases hv : a ∈ w.visited
    · rw [if_pos hv]
      refine ⟨hi, fun _ h => h, List.prefix_rfl, ?_, fun _ h => .inl h, fun _ h => .inl h, fun _ h => .inl h⟩
      intro b hb
      rw [List.mem_singleton.mp hb]
      exact hv
    · rw [if_neg hv]
      have hm := unvisited_mark ha hv
      have hi₀ : Inv next ⟨a :: w.visited, w.ordered⟩ :=
        ⟨fun x hx => .tail _ (hi.ordered_visited x hx), hi.nodup,
          List.nodup_cons.mpr ⟨hv, hi.visited_nodup⟩, fun x hx b hb => .tail _ (hi.closed x hx b hb)⟩
      obtain ⟨hi₁, hf⟩ := foldl_from (n := fuel - 1) (f := visit next fuel)
        (fun b hb w hw hl => ih b hb w hw (by omega)) (next a) (hu a ha) _ hi₀ (by omega)
      generalize (next a).foldl (fun w b => visit next fuel b w) ⟨a :: w.visited, w.ordered⟩ = walked at hi₁ hf ⊢
      have haw : a ∈ walked.visited := hf.grows a (.head _)
      have hao : a ∉ walked.ordered := by
        intro h
        rcases hf.fresh a h with h | h
        · exact hv (hi.ordered_visited a h)
        · exact h (.head _)
      constructor
      · refine ⟨?_, ?_, hi₁.visited_nodup, ?_⟩
        · intro x hx
          rcases List.mem_append.mp hx with hx | hx
          · exact hi₁.ordered_visited x hx
          · rw [List.mem_singleton.mp hx]
            exact haw
        · exact List.nodup_append.mpr ⟨hi₁.nodup, by simp, by
            intro x hx y hy he
            rw [List.mem_singleton.mp hy] at he
            exact hao (he ▸ hx)⟩
        · intro x hx b hb
          rcases List.mem_append.mp hx with hx | hx
          · exact hi₁.closed x hx b hb
          · rw [List.mem_singleton.mp hx] at hb
            exact hf.reached b hb
      · refine ⟨fun x hx => hf.grows x (.tail _ hx), ?_, ?_, ?_, ?_, ?_⟩
        · exact hf.extends_.trans (List.prefix_append _ _)
        · intro b hb
          rw [List.mem_singleton.mp hb]
          exact haw
        · intro x hx
          rcases hf.finished x hx with hx | hx
          · rcases List.mem_cons.mp hx with rfl | hx
            · exact .inr (List.mem_append_right _ (List.mem_singleton_self x))
            · exact .inl hx
          · exact .inr (List.mem_append_left _ hx)
        · intro x hx
          rcases List.mem_append.mp hx with hx | hx
          · rcases hf.fresh x hx with hx | hx
            · exact .inl hx
            · exact .inr fun h => hx (.tail _ h)
          · rw [List.mem_singleton.mp hx]
            exact .inr hv
        · intro x hx
          rcases hf.source x hx with hx | ⟨b, hb, hr⟩
          · rcases List.mem_cons.mp hx with rfl | hx
            · exact .inr ⟨x, List.mem_singleton_self x, .refl⟩
            · exact .inl hx
          · exact .inr ⟨a, List.mem_singleton_self a, .head hb hr⟩

/-! ## A whole walk -/

omit [DecidableEq α] in
theorem inv_empty : Inv next (empty : Walk α) :=
  ⟨fun _ h => absurd h List.not_mem_nil, List.nodup_nil, List.nodup_nil, fun _ h => absurd h List.not_mem_nil⟩

theorem unvisited_le_length (w : Walk α) : unvisited universe_ w ≤ universe_.length := List.countP_le_length

variable {roots : List α} {fuel : Nat}

section

variable (hu : ∀ a ∈ universe_, ∀ b ∈ next a, b ∈ universe_) (hr : ∀ a ∈ roots, a ∈ universe_) (hf : universe_.length < fuel)

include hu hr hf

theorem visit_all_from :
    Inv next (visit_all next fuel roots empty) ∧ From next roots empty (visit_all next fuel roots empty) :=
  foldl_from (n := universe_.length) (fun b hb w hw hn => visit_from hu fuel b hb w hw (by omega)) roots hr empty
    inv_empty (unvisited_le_length _)

theorem ordered_iff_visited (x : α) :
    x ∈ (visit_all next fuel roots empty).ordered ↔ x ∈ (visit_all next fuel roots empty).visited := by
  obtain ⟨hi, hfr⟩ := visit_all_from hu hr hf
  constructor
  · exact hi.ordered_visited x
  · intro hx
    rcases hfr.finished x hx with hx | hx
    · cases hx
    · exact hx

/-- Exactly what the roots reach is visited. -/
theorem mem_visited_iff (x : α) : x ∈ (visit_all next fuel roots empty).visited ↔
      ∃ a ∈ roots, Relation.ReflTransGen (fun a b => b ∈ next a) a x := by
  obtain ⟨hi, hfr⟩ := visit_all_from hu hr hf
  constructor
  · intro hx
    rcases hfr.source x hx with hx | hx
    · cases hx
    · exact hx
  · rintro ⟨a, ha, hr⟩
    induction hr with
    | refl => exact hfr.reached a ha
    | tail _ hb ih => exact hi.closed _ ((ordered_iff_visited hu ‹_› hf _).mpr ih) _ hb

theorem nodup : (visit_all next fuel roots empty).ordered.Nodup :=
  (visit_all_from hu hr hf).1.nodup

end

/-! ## Without cycles -/

/-- Every listed node stands after its successors. -/
def Topological (next : α → List α) (l : List α) : Prop := ∀ pre x post, l = pre ++ x :: post → ∀ b ∈ next x, b ∈ pre

/-- Marked but not yet listed. -/
def Open (w : Walk α) (x : α) : Prop := x ∈ w.visited ∧ x ∉ w.ordered

omit [DecidableEq α] in
theorem topological_snoc {l : List α} {a : α} (h : Topological next l) (ha : ∀ b ∈ next a, b ∈ l) :
    Topological next (l ++ [a]) := by
  intro p x ps he b hb
  rcases List.append_eq_append_iff.mp he with ⟨m, hp, hm⟩ | ⟨m, hl, hm⟩
  · cases m with
    | nil =>
      obtain ⟨rfl, -⟩ := List.cons.inj hm
      rw [hp, List.append_nil]
      exact ha b hb
    | cons y m => simp at hm
  · cases m with
    | nil =>
      obtain ⟨rfl, -⟩ := List.cons.inj hm
      rw [← List.append_nil p, ← hl]
      exact ha b hb
    | cons y m =>
      obtain ⟨rfl, -⟩ := List.cons.inj hm
      exact h p x m hl b hb

theorem foldl_topological {f : α → Walk α → Walk α} {r : α → Nat} {bn : Nat} {n : Nat}
    (hf : ∀ b ∈ universe_, ∀ w, Inv next w → unvisited universe_ w ≤ n → Inv next (f b w) ∧ From next [b] w (f b w))
    (ht : ∀ b ∈ universe_, r b < bn → ∀ w, Inv next w → unvisited universe_ w ≤ n → Topological next w.ordered →
      (∀ g, Open w g → r b < r g) → Topological next (f b w).ordered)
    (bs : List α) (hb : ∀ b ∈ bs, b ∈ universe_) (hr : ∀ b ∈ bs, r b < bn) (w : Walk α) (hi : Inv next w)
    (hn : unvisited universe_ w ≤ n) (hw : Topological next w.ordered) (ho : ∀ g, Open w g → bn ≤ r g) :
    Topological next (bs.foldl (fun w b => f b w) w).ordered := by
  induction bs generalizing w with
  | nil => exact hw
  | cons b bs ih =>
    have hm := hb b (.head _)
    have hl := hr b (.head _)
    obtain ⟨hi', hfr⟩ := hf b hm w hi hn
    refine ih (fun x hx => hb x (.tail _ hx)) (fun x hx => hr x (.tail _ hx)) (f b w)
      hi' (Nat.le_trans (unvisited_mono hfr.grows) hn) ?_ ?_
    · exact ht b hm hl w hi hn hw fun g hg => Nat.lt_of_lt_of_le hl (ho g hg)
    · rintro g ⟨hv, hgo⟩
      refine ho g ⟨?_, fun h => hgo (hfr.extends_.subset h)⟩
      exact (hfr.finished g hv).resolve_right hgo

theorem visit_topological {rank : α → Nat} (hr : ∀ a ∈ universe_, ∀ b ∈ next a, rank b < rank a)
    (hu : ∀ a ∈ universe_, ∀ b ∈ next a, b ∈ universe_) (fuel : Nat) (a : α) (ha : a ∈ universe_) (w : Walk α)
    (hi : Inv next w) (hn : unvisited universe_ w < fuel) (hw : Topological next w.ordered)
    (ho : ∀ g, Open w g → rank a < rank g) : Topological next (visit next fuel a w).ordered := by
  induction fuel generalizing a w with
  | zero => omega
  | succ fuel ih =>
    unfold visit
    by_cases hv : a ∈ w.visited
    · rw [if_pos hv]
      exact hw
    · rw [if_neg hv]
      have hm := unvisited_mark ha hv
      have hi₀ : Inv next ⟨a :: w.visited, w.ordered⟩ :=
        ⟨fun x hx => .tail _ (hi.ordered_visited x hx), hi.nodup,
          List.nodup_cons.mpr ⟨hv, hi.visited_nodup⟩, fun x hx b hb => .tail _ (hi.closed x hx b hb)⟩
      have hs : ∀ b ∈ universe_, ∀ w, Inv next w → unvisited universe_ w ≤ fuel - 1 →
          Inv next (visit next fuel b w) ∧ From next [b] w (visit next fuel b w) :=
        fun b hb w hw hl => visit_from hu fuel b hb w hw (by omega)
      have hp : ∀ g, Open ⟨a :: w.visited, w.ordered⟩ g → rank a ≤ rank g := by
        rintro g ⟨hg, hgo⟩
        rcases List.mem_cons.mp hg with rfl | hg
        · exact Nat.le_refl _
        · exact Nat.le_of_lt (ho g ⟨hg, hgo⟩)
      have hsb := @foldl_topological _ _ _ _ _ _ (rank a) _ hs
        (fun b hb _ w hw hl ht hog => ih b hb w hw (by omega) ht hog) (next a) (hu a ha) (hr a ha) _ hi₀
        (by omega) hw hp
      obtain ⟨hi₁, hf⟩ := foldl_from (n := fuel - 1) hs (next a) (hu a ha) _ hi₀ (by omega)
      refine topological_snoc hsb ?_
      -- a successor is visited by now; it is not open, for every open node has at least the rank of `a`
      intro b hb
      rcases hf.finished b (hf.reached b hb) with hbv | hbo
      · by_contra hbo
        have hrb := hr a ha b hb
        have := hp b ⟨hbv, fun h => hbo (hf.extends_.subset h)⟩
        omega
      · exact hbo

theorem topological {r : α → Nat} (hrn : ∀ a ∈ universe_, ∀ b ∈ next a, r b < r a)
    (hu : ∀ a ∈ universe_, ∀ b ∈ next a, b ∈ universe_) (hr : ∀ a ∈ roots, a ∈ universe_)
    (hf : universe_.length < fuel) : Topological next (visit_all next fuel roots empty).ordered := by
  have hv : ∀ b ∈ universe_, ∀ w, Inv next w → unvisited universe_ w ≤ universe_.length →
      Inv next (visit next fuel b w) ∧ From next [b] w (visit next fuel b w) :=
    fun b hb w hw hn => visit_from hu fuel b hb w hw (by omega)
  suffices ∀ (bs : List α), (∀ b ∈ bs, b ∈ universe_) → ∀ w, Inv next w → unvisited universe_ w ≤ universe_.length →
      Topological next w.ordered → (∀ g, ¬ Open w g) →
        Topological next (bs.foldl (fun w b => visit next fuel b w) w).ordered from
    this roots hr empty inv_empty (unvisited_le_length _) (fun pre x p he => by simp [empty] at he)
      fun g hg => by cases hg.1
  intro bs
  induction bs with
  | nil => exact fun _ _ _ _ hw _ => hw
  | cons b bs ih =>
    intro hb w hi hn hw ho
    have hm := hb b (.head _)
    obtain ⟨hi', hfr⟩ := hv b hm w hi hn
    refine ih (fun x hx => hb x (.tail _ hx)) _ hi' (Nat.le_trans (unvisited_mono hfr.grows) hn) ?_ ?_
    · exact visit_topological hrn hu fuel b hm w hi (by omega) hw fun g hg => absurd hg (ho g)
    · rintro g ⟨hgv, hgo⟩
      exact ho g ⟨(hfr.finished g hgv).resolve_right hgo, fun h => hgo (hfr.extends_.subset h)⟩

end Walk

end Lib
