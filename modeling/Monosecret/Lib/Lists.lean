/-
  Monosecret.Lib.Lists — counting and splitting lists that grow at the end or change at one
  place.
-/

import Mathlib.Data.List.Nodup
import Mathlib.Data.List.Perm.Subperm

namespace Lib

universe u

variable {α : Type u} {l : List α}

/-- Where an element stands in an appended list: in the old part, or in the new one. -/
theorem split_append {f : α} {l m pr post : List α} (h : l ++ m = pr ++ f :: post) :
    (∃ p', l = pr ++ f :: p') ∨ ∃ md, pr = l ++ md ∧ m = md ++ f :: post := by
  rcases List.append_eq_append_iff.mp h with ⟨md, hp, hm⟩ | ⟨md, hl, hm⟩
  · exact .inr ⟨md, hp, hm⟩
  · cases md with
    | nil => exact .inr ⟨[], by simpa using hl.symm, hm.symm⟩
    | cons g md =>
      obtain ⟨rfl, -⟩ := List.cons.inj hm
      exact .inl ⟨md, hl⟩

variable {k : Nat}

/-- An entry of a list with one more at its end. -/
theorem getElem?_snoc {a b : α} (h : (l ++ [a])[k]? = some b) : l[k]? = some b ∨ k = l.length ∧ b = a := by
  rcases Nat.lt_or_ge k l.length with hk | hk
  · exact .inl (List.getElem?_append_left hk ▸ h)
  · rw [List.getElem?_append_right hk] at h
    have hz : k - l.length = 0 := Nat.lt_one_iff.mp (List.getElem?_eq_some_iff.mp h).1
    rw [hz] at h
    exact .inr ⟨by omega, (Option.some.inj h).symm⟩

/-- An entry of a list with one replaced. -/
theorem getElem?_set_some {i : Nat} {a b : α} (h : (l.set i a)[k]? = some b) : k = i ∧ b = a ∨ k ≠ i ∧ l[k]? = some b := by
  grind

variable {p : α → Bool}

/-- Counting less, and one element less. -/
theorem countP_lt_countP {q : α → Bool} (h : ∀ b ∈ l, q b → p b) {a : α} (ha : a ∈ l)
    (hp : p a) (hq : q a = false) : l.countP q < l.countP p := by
  obtain ⟨pr, ps, rfl⟩ := List.append_of_mem ha
  have hr : pr.countP q ≤ pr.countP p := List.countP_mono_left fun b hb => h b (List.mem_append_left _ hb)
  have hs : ps.countP q ≤ ps.countP p :=
    List.countP_mono_left fun b hb => h b (List.mem_append_right _ (.tail _ hb))
  rw [List.countP_append, List.countP_append, List.countP_cons_of_pos hp, List.countP_cons_of_neg (by simp [hq])]
  omega

theorem countP_set_le {c d : α} (hk : l[k]? = some c) (h : p d → p c) : (l.set k d).countP p ≤ l.countP p := by
  obtain ⟨hl, hc⟩ := List.getElem?_eq_some_iff.mp hk
  rw [List.countP_set hl, hc]
  have hp : p c → 0 < l.countP p := fun hpc => List.countP_pos_iff.mpr ⟨c, List.mem_of_getElem? hk, hpc⟩
  by_cases hd : p d
  · have hpc := h hd
    have := hp hpc
    rw [if_pos hpc, if_pos hd]
    omega
  · rw [if_neg hd]
    omega

theorem countP_set_succ {c d : α} (hk : l[k]? = some c) : (l.set k d).countP p ≤ l.countP p + 1 := by
  obtain ⟨hl, -⟩ := List.getElem?_eq_some_iff.mp hk
  rw [List.countP_set hl]
  split <;> split <;> omega

theorem countP_map_le {f : α → α} (h : ∀ c ∈ l, p (f c) → p c) : (l.map f).countP p ≤ l.countP p := by
  rw [List.countP_map]
  exact List.countP_mono_left h

theorem map_at_of_ne {ky : α → Nat} (h : ∀ b ∈ l, ky b ≠ k) (f : α → α) :
    (l.map fun b => if ky b = k then f b else b) = l := by
  conv_rhs => rw [← List.map_id l]
  exact List.map_congr_left fun b hb => if_neg (h b hb)

/-- A change at the one element with a given key changes a count by that element alone. -/
theorem countP_map_at {ky : α → Nat} (hn : l.Pairwise fun a b => ky a ≠ ky b) {a : α} (ha : a ∈ l)
    (p : α → Bool) (f : α → α) : (l.map fun b => if ky b = ky a then f b else b).countP p + (if p a then 1 else 0) =
      l.countP p + (if p (f a) then 1 else 0) := by
  induction l with
  | nil => cases ha
  | cons b l ih =>
    obtain ⟨hb, hl⟩ := List.pairwise_cons.mp hn
    rw [List.map_cons, List.countP_cons, List.countP_cons]
    rcases List.mem_cons.mp ha with rfl | ha
    · rw [if_pos rfl, map_at_of_ne fun c hc => (hb c hc).symm]
      omega
    · have := ih hl ha
      rw [if_neg (hb a ha)]
      omega

theorem map_set_eq {β : Type u} {f : α → β} {c d : α} (hk : l[k]? = some c) (h : f d = f c) :
    (l.set k d).map f = l.map f := by
  obtain ⟨hl, rfl⟩ := List.getElem?_eq_some_iff.mp hk
  rw [List.map_set, h, ← List.getElem_map f (h := by rw [List.length_map]; exact hl), List.set_getElem_self]

theorem mem_set_of_ne {a c d : α} (hk : l[k]? = some c) (ha : a ∈ l) (hn : a ≠ c) : a ∈ l.set k d := by
  obtain ⟨j, hj⟩ := List.getElem?_of_mem ha
  refine List.mem_of_getElem? (i := j) ?_
  rw [List.getElem?_set_ne, hj]
  rintro rfl
  exact hn (Option.some.inj (hj.symm.trans hk))

/-- Distinct keys, each found on an element with property `p`, are at most as many as those. -/
theorem length_le_countP {β : Type u} [BEq β] [LawfulBEq β] {key : α → β} {i : List β} (hn : i.Nodup)
    (h : ∀ id ∈ i, ∃ c ∈ l, p c ∧ key c = id) : i.length ≤ l.countP p := by
  have hs : i ⊆ (l.filter p).map key := fun id hi => by
    obtain ⟨c, hc, hp, rfl⟩ := h id hi
    exact List.mem_map_of_mem (List.mem_filter.mpr ⟨hc, hp⟩)
  have hl := (List.subperm_of_subset hn hs).length_le
  rw [List.length_map] at hl
  rw [List.countP_eq_length_filter]
  exact hl

theorem eq_singleton_of_nodup {α : Type*} {l : List α} {a : α} (hn : l.Nodup) (ha : a ∈ l) (hu : ∀ b ∈ l, b = a) :
    l = [a] := by
  have hs : ∀ b, b ∈ l ↔ b ∈ [a] := fun b => ⟨fun hb => List.mem_singleton.mpr (hu b hb), fun hb => List.mem_singleton.mp hb ▸ ha⟩
  exact List.perm_singleton.mp ((List.perm_ext_iff_of_nodup hn (List.nodup_singleton a)).mpr hs)

/-- A search by a key that is nowhere repeated. -/
theorem find?_key {β : Type*} [BEq β] [LawfulBEq β] {key : α → β} (hn : (l.map key).Nodup) {a : α}
    (ha : a ∈ l) (k : β) : (l.find? fun b => key b == k) = some a ↔ key a = k := by
  refine ⟨fun h => eq_of_beq (List.find?_some (p := fun b => key b == k) h), fun h => ?_⟩
  subst h
  have hs : (l.find? fun b => key b == key a).isSome := List.find?_isSome.mpr ⟨a, ha, BEq.rfl⟩
  obtain ⟨b, hb⟩ := Option.isSome_iff_exists.mp hs
  have hk : key b = key a := eq_of_beq (List.find?_some (p := fun b => key b == key a) hb)
  rw [hb, List.inj_on_of_nodup_map hn (List.mem_of_find?_eq_some hb) ha hk]

/-- With increasing keys, a key finds its own element. -/
theorem find_increasing {ky : α → Nat} (h : l.Pairwise fun a b => ky a < ky b) {a : α} (ha : a ∈ l) :
    l.find? (fun b => ky b == ky a) = some a := by
  have hn : (l.map ky).Nodup := List.pairwise_map.mpr (h.imp Nat.ne_of_lt)
  exact (find?_key hn ha (ky a)).mpr rfl

/-- With distinct keys, a lookup finds what is there. -/
theorem lookup_iff_mem {κ ν : Type*} [BEq κ] [LawfulBEq κ] {l : List (κ × ν)} (hn : (l.map Prod.fst).Nodup) {k : κ} {v : ν} :
    l.lookup k = some v ↔ (k, v) ∈ l := by
  induction l with
  | nil => simp
  | cons e l ih =>
    obtain ⟨ky, value⟩ := e
    obtain ⟨hf, hr⟩ := List.nodup_cons.mp hn
    rw [List.lookup_cons, List.mem_cons, Prod.mk.injEq]
    by_cases hk : k = ky
    · subst hk
      have ht : (k, v) ∉ l := fun hm => hf (List.mem_map.mpr ⟨(k, v), hm, rfl⟩)
      simp [ht, eq_comm]
    · rw [beq_eq_false_iff_ne.mpr hk, ih hr]
      simp [hk]

end Lib
