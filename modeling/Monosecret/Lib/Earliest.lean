/-
  Monosecret.Lib.Earliest — deadlines with an absent bound, and their minimum along a graph.

  `Earliest s t` says that `t` is the least deadline with `s`, or absent when there is none.
  A node that takes the earliest of its own deadline and its successors' carries the earliest
  of all it reaches (`Earliest.reach`).
-/

import Mathlib.Logic.Relation

namespace Lib

variable {ν : Type*} [Min ν] [LE ν] [Std.IsLinearOrder ν] [Std.LawfulOrderMin ν]

omit [Min ν] [Std.IsLinearOrder ν] [Std.LawfulOrderMin ν] in
/-- The least deadline with `s`; none when nothing is bounded. -/
def Earliest (s : ν → Prop) : Option ν → Prop
  | some t => s t ∧ ∀ u, s u → t ≤ u
  | none => ∀ u, ¬ s u

omit [Min ν] [Std.LawfulOrderMin ν] in
omit [Min ν] [Std.IsLinearOrder ν] [Std.LawfulOrderMin ν] in
/-- The earlier of an own deadline and a list of others. -/
def merge_own (own : Option ν) (others : List ν) : Option ν :=
  match others.min? with
  | none => own
  | some t => some (match own with | some o => min o t | none => t)

theorem merge_own_earliest (ow : Option ν) (others : List ν) :
    Earliest (fun t => ow = some t ∨ t ∈ others) (merge_own ow others) := by
  unfold merge_own
  cases hm : others.min? with
  | none =>
    rw [List.min?_eq_none_iff] at hm
    subst hm
    cases ow with
    | none => simp [Earliest]
    | some o =>
      refine ⟨.inl rfl, fun u hu => ?_⟩
      rcases hu with hu | hu
      · cases hu
        exact Std.le_refl o
      · cases hu
  | some t =>
    obtain ⟨ht, hn⟩ := List.min?_eq_some_iff.mp hm
    cases ow with
    | none =>
      refine ⟨.inr ht, fun u hu => ?_⟩
      rcases hu with hu | hu
      · cases hu
      · exact hn u hu
    | some o =>
      constructor
      · rcases Std.MinEqOr.min_eq_or o t with h | h
        · exact .inl (congrArg some h.symm)
        · have hmm : min o t ∈ others := by rw [h]; exact ht
          exact .inr hmm
      · intro u hu
        rcases hu with hu | hu
        · cases hu
          exact Std.min_le_left
        · exact Std.le_trans Std.min_le_right (hn u hu)

/-- A bound of what a node reaches. -/
def Reached {α : Type*} (r : α → α → Prop) (own : α → Option ν) (a : α) (t : ν) : Prop :=
  ∃ x, Relation.ReflTransGen r a x ∧ own x = some t

/-- Merging a node's own deadline with what its successors carry. -/
theorem Earliest.reach {α : Type*} {r : α → α → Prop} {o c : α → Option ν} {a : α} {next : List α}
    (hn : ∀ b, r a b ↔ b ∈ next) (h : ∀ b ∈ next, Earliest (Reached r o b) (c b)) :
    Earliest (Reached r o a) (merge_own (o a) (next.filterMap c)) := by
  have hmr := merge_own_earliest (o a) (next.filterMap c)
  cases hm : merge_own (o a) (next.filterMap c) with
  | none =>
    rw [hm] at hmr
    rintro u ⟨x, hr, hx⟩
    rcases hr.cases_head with rfl | ⟨b, ha, hbx⟩
    · exact hmr u (.inl hx)
    · have hb := h b ((hn b).mp ha)
      cases hc : c b with
      | none =>
        rw [hc] at hb
        exact hb u ⟨x, hbx, hx⟩
      | some t => exact hmr t (.inr (List.mem_filterMap.mpr ⟨b, (hn b).mp ha, hc⟩))
  | some t =>
    rw [hm] at hmr
    obtain ⟨hf, hl⟩ := hmr
    constructor
    · rcases hf with ho | hmm
      · exact ⟨a, .refl, ho⟩
      · obtain ⟨b, hb, hc⟩ := List.mem_filterMap.mp hmm
        have he := h b hb
        rw [hc] at he
        obtain ⟨x, hr, hx⟩ := he.1
        exact ⟨x, .head ((hn b).mpr hb) hr, hx⟩
    · rintro u ⟨x, hr, hx⟩
      rcases hr.cases_head with rfl | ⟨b, ha, hbx⟩
      · exact hl u (.inl hx)
      · have hb := (hn b).mp ha
        have he := h b hb
        cases hc : c b with
        | none =>
          rw [hc] at he
          exact absurd ⟨x, hbx, hx⟩ (he u)
        | some t' =>
          rw [hc] at he
          exact Std.le_trans (hl t' (.inr (List.mem_filterMap.mpr ⟨b, hb, hc⟩))) (he.2 u ⟨x, hbx, hx⟩)

end Lib
