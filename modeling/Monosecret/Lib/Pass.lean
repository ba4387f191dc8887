/-
  Monosecret.Lib.Pass — a fallible pass over keyed items, each step of which touches only
  the entry of its own item.

  Seen through `view`, which shows a state at each key, such a pass evaluates every item
  once: an item finds its own entry as the pass found it, every entry no later item owns as
  the pass leaves it (`stage`), and leaves its own entry for good. `stage_after` is the case
  where the items come after what they depend on.
-/

import Monosecret.Lib.Dfs
import Monosecret.Lib.Except

namespace Lib

universe u v

section

variable {ε : Type u} {σ α : Type v} {f : σ → α → Except ε σ}

/-- A pass that reached an item, ran it and went on. -/
theorem foldlM_split {pr p : List α} {a : α} {s s' : σ} (h : (pr ++ a :: p).foldlM f s = .ok s') :
    ∃ s₁ s₂, pr.foldlM f s = .ok s₁ ∧ f s₁ a = .ok s₂ ∧ p.foldlM f s₂ = .ok s' := by
  rw [List.foldlM_append] at h
  obtain ⟨s₁, h₁, h⟩ := Except.bind_ok h
  rw [List.foldlM_cons] at h
  obtain ⟨s₂, h₂, h⟩ := Except.bind_ok h
  exact ⟨s₁, s₂, h₁, h₂, h⟩

/-- A pass that failed did so at one item, after those before it. -/
theorem foldlM_error {l : List α} {s : σ} {e : ε} (h : l.foldlM f s = .error e) :
    ∃ pr a p s₁, l = pr ++ a :: p ∧ pr.foldlM f s = .ok s₁ ∧ f s₁ a = .error e := by
  induction l generalizing s with
  | nil => cases h
  | cons a l ih =>
    rw [List.foldlM_cons] at h
    cases hf : f s a with
    | error e' =>
      rw [hf] at h
      cases h
      exact ⟨[], a, l, s, rfl, rfl, hf⟩
    | ok s₁ =>
      rw [hf] at h
      obtain ⟨pr, b, p, s₂, rfl, hp, hb⟩ := ih h
      refine ⟨a :: pr, b, p, s₂, rfl, ?_, hb⟩
      rw [List.foldlM_cons, hf]
      exact hp

/-- Two passes whose steps agree. -/
theorem foldlM_congr {g : σ → α → Except ε σ} {l : List α} (hf : ∀ a ∈ l, ∀ s, f s a = g s a) (s : σ) :
    l.foldlM f s = l.foldlM g s := by
  induction l generalizing s with
  | nil => rfl
  | cons a l ih =>
    rw [List.foldlM_cons, List.foldlM_cons, hf a (.head _)]
    congr 1
    funext t
    exact ih (fun b hb => hf b (.tail _ hb)) t

end

/-- Every step leaves the entries of other keys alone. -/
def Local {ε : Type u} {σ α : Type v} {κ ρ : Type*} (f : σ → α → Except ε σ) (key : α → κ) (view : σ → κ → ρ) : Prop :=
  ∀ s a s', f s a = .ok s' → ∀ k, k ≠ key a → view s' k = view s k

section

variable {ε : Type u} {σ α : Type v} {κ ρ : Type*} {f : σ → α → Except ε σ} {key : α → κ} {view : σ → κ → ρ}

theorem Local.frame (hf : Local f key view) {l : List α} {s s' : σ} (h : l.foldlM f s = .ok s') {k : κ}
    (hk : k ∉ l.map key) : view s' k = view s k := by
  induction l generalizing s with
  | nil =>
    cases h
    rfl
  | cons a l ih =>
    rw [List.foldlM_cons] at h
    obtain ⟨s₁, h₁, h⟩ := Except.bind_ok h
    rw [List.map_cons, List.mem_cons, not_or] at hk
    rw [ih h hk.2, hf s a s₁ h₁ k hk.1]

/-- The one step that evaluates an item: what it finds and what it leaves. -/
structure Stage (f : σ → α → Except ε σ) (key : α → κ) (view : σ → κ → ρ) (start final : σ) (a : α) (before after : σ) :
    Prop where
  run : f before a = .ok after
  found : view before (key a) = view start (key a)
  left : view after (key a) = view final (key a)

theorem Local.stage (hf : Local f key view) {pr p : List α} {a : α} {start final : σ}
    (hn : ((pr ++ a :: p).map key).Nodup) (h : (pr ++ a :: p).foldlM f start = .ok final) :
    ∃ before af, Stage f key view start final a before af ∧
      ∀ k, k ∉ (a :: p).map key → view before k = view final k := by
  obtain ⟨before, af, hp, hr, hs⟩ := foldlM_split h
  rw [List.map_append, List.map_cons] at hn
  obtain ⟨-, hn', hd⟩ := List.nodup_append.mp hn
  have hp' : key a ∉ pr.map key := fun hm => hd _ hm _ (.head _) rfl
  have hs' : key a ∉ p.map key := (List.nodup_cons.mp hn').1
  refine ⟨before, af, ⟨hr, hf.frame hp hp', (hf.frame hs hs').symm⟩, ?_⟩
  intro k hk
  rw [List.map_cons, List.mem_cons, not_or] at hk
  rw [hf.frame hs hk.2, hf before a af hr k hk.1]

/-- Items that share no key: each is evaluated on the entry the pass found. -/
theorem Local.stage_of_mem (hf : Local f key view) {l : List α} {a : α} (ha : a ∈ l) {start final : σ}
    (hn : (l.map key).Nodup) (h : l.foldlM f start = .ok final) :
    ∃ before after, Stage f key view start final a before after := by
  obtain ⟨pre, p, rfl⟩ := List.append_of_mem ha
  obtain ⟨before, after, hs, -⟩ := hf.stage hn h
  exact ⟨before, after, hs⟩

end

/-- Every item stands after the items it depends on. -/
def Scheduled {α : Type v} {κ : Type*} (key : α → κ) (needs : α → List κ) (l : List α) : Prop :=
  ∀ pre a post, l = pre ++ a :: post → ∀ k ∈ needs a, k ∉ (a :: post).map key

/-- In a schedule, each item sees its dependencies as the pass leaves them. -/
theorem Local.stage_after {ε : Type u} {σ α : Type v} {κ ρ : Type*} {f : σ → α → Except ε σ} {key : α → κ}
    {view : σ → κ → ρ} {n : α → List κ} (hf : Local f key view) {l : List α} (hs : Scheduled key n l)
    {a : α} (ha : a ∈ l) {start final : σ} (hn : (l.map key).Nodup) (h : l.foldlM f start = .ok final) :
    ∃ before af, Stage f key view start final a before af ∧ ∀ k ∈ n a, view before k = view final k := by
  obtain ⟨pr, p, rfl⟩ := List.append_of_mem ha
  obtain ⟨before, af, ht, hfn⟩ := hf.stage hn h
  exact ⟨before, af, ht, fun k hk => hfn k (hs pr a p rfl k hk)⟩

end Lib
