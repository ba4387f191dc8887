/-
  Monosecret.Lib.Schedule — items in the order of what they need.

  An item has a key and needs other keys. The depth-first walk over the items lists each one
  once (`nodup`, `mem_ordered`), after every item it needs (`scheduled`), when the keys are
  distinct and some rank decreases along what is needed. Keys that are no item's are left
  out.
-/

import Monosecret.Lib.Pass

namespace Lib.Schedule

variable {ρ κ : Type*} [DecidableEq κ] (key : ρ → κ) (needs : ρ → List κ) (items : List ρ)

def find (k : κ) : Option ρ := items.find? fun item => key item = k

/-- What an item needs that is an item. -/
def next (k : κ) : List κ :=
  match find key items k with
  | some item => (needs item).filter fun d => decide (d ∈ items.map key)
  | none => []

/-- The walk over every item. -/
def walk : Walk κ := Walk.visit_all (next key needs items) (items.length + 1) (items.map key) .empty

def ordered : List ρ := (walk key needs items).ordered.filterMap (find key items)

variable {key needs items}

theorem find_some {k : κ} {item : ρ} (h : find key items k = some item) : item ∈ items ∧ key item = k :=
  ⟨List.mem_of_find?_eq_some h, by simpa using List.find?_some h⟩

theorem mem_next {a b : κ} (h : b ∈ next key needs items a) :
    ∃ item ∈ items, key item = a ∧ b ∈ needs item ∧ b ∈ items.map key := by
  unfold next at h
  split at h
  · rename_i item hf
    obtain ⟨hm, hk⟩ := find_some hf
    obtain ⟨hd, hb⟩ := List.mem_filter.mp h
    exact ⟨item, hm, hk, hd, of_decide_eq_true hb⟩
  · cases h

theorem next_closed : ∀ a ∈ items.map key, ∀ b ∈ next key needs items a, b ∈ items.map key := by
  intro a _ b hb
  obtain ⟨_, _, _, _, hm⟩ := mem_next hb
  exact hm

omit [DecidableEq κ] in
theorem enough_fuel : (items.map key).length < items.length + 1 := by
  rw [List.length_map]
  omega

theorem mem_walk (k : κ) : k ∈ (walk key needs items).ordered ↔ k ∈ items.map key := by
  rw [walk, Walk.ordered_iff_visited next_closed (fun _ h => h) enough_fuel,
    Walk.mem_visited_iff next_closed (fun _ h => h) enough_fuel]
  constructor
  · rintro ⟨r, ht, hr⟩
    cases hr with
    | refl => exact ht
    | tail _ hb =>
      obtain ⟨_, _, _, _, hm⟩ := mem_next hb
      exact hm
  · exact fun h => ⟨k, h, .refl⟩

section

variable (hn : (items.map key).Nodup)

include hn in
theorem find_of_mem {item : ρ} (h : item ∈ items) : find key items (key item) = some item := by
  cases hf : find key items (key item) with
  | none =>
    have hnn := List.find?_eq_none.mp hf item h
    simp at hnn
  | some other =>
    obtain ⟨ho, hk⟩ := find_some hf
    rw [List.inj_on_of_nodup_map hn ho h hk]

include hn in
theorem next_of_mem {item : ρ} (h : item ∈ items) {d : κ} (hd : d ∈ needs item) (hm : d ∈ items.map key) :
    d ∈ next key needs items (key item) := by
  unfold next
  rw [find_of_mem hn h]
  exact List.mem_filter.mpr ⟨hd, decide_eq_true hm⟩

include hn in
/-- The keys in order are the walk's. -/
theorem ordered_keys : (ordered key needs items).map key = (walk key needs items).ordered := by
  unfold ordered
  have ha : ∀ k ∈ (walk key needs items).ordered, ∃ item, find key items k = some item ∧ key item = k := by
    intro k hk
    obtain ⟨item, hm, rfl⟩ := List.mem_map.mp ((mem_walk k).mp hk)
    exact ⟨item, find_of_mem hn hm, rfl⟩
  generalize (walk key needs items).ordered = ky at ha
  induction ky with
  | nil => rfl
  | cons k ky ih =>
    obtain ⟨item, hf, hy⟩ := ha k (.head _)
    rw [List.filterMap_cons_some hf, List.map_cons, hy, ih fun j hj => ha j (.tail _ hj)]

include hn in
theorem mem_ordered (item : ρ) : item ∈ ordered key needs items ↔ item ∈ items := by
  unfold ordered
  rw [List.mem_filterMap]
  constructor
  · rintro ⟨k, -, hf⟩
    exact (find_some hf).1
  · intro h
    exact ⟨key item, (mem_walk _).mpr (List.mem_map_of_mem h), find_of_mem hn h⟩

include hn in
variable (needs) in
theorem ordered_nodup : ((ordered key needs items).map key).Nodup := by
  rw [ordered_keys hn]
  exact Walk.nodup next_closed (fun _ h => h) enough_fuel

variable {rank : κ → Nat} (hrank : ∀ item ∈ items, ∀ d ∈ needs item, rank d < rank (key item))

include hn hrank in
/-- What an item needs comes before it. -/
theorem before {p ps : List ρ} {item : ρ} (he : ordered key needs items = p ++ item :: ps) {d : κ}
    (hd : d ∈ needs item) (hm : d ∈ items.map key) : d ∈ p.map key := by
  have hk : (walk key needs items).ordered = p.map key ++ key item :: ps.map key := by
    rw [← ordered_keys hn, he, List.map_append, List.map_cons]
  have hmm : item ∈ items := (mem_ordered hn item).mp (he ▸ List.mem_append_right _ (.head _))
  have hl : ∀ a ∈ items.map key, ∀ b ∈ next key needs items a, rank b < rank a := by
    intro a _ b hb
    obtain ⟨other, ho, rfl, hnd, -⟩ := mem_next hb
    exact hrank other ho b hnd
  have ht : Walk.Topological (next key needs items) (walk key needs items).ordered :=
    Walk.topological hl next_closed (fun _ h => h) enough_fuel
  exact ht _ _ _ hk d (next_of_mem hn hmm hd hm)

include hn hrank in
/-- Nothing an item needs is at or after it. -/
theorem scheduled : Scheduled key needs (ordered key needs items) := by
  intro pre item p he d hd hmm
  have hm : d ∈ items.map key := by
    rw [← mem_walk, ← ordered_keys hn, he, List.map_append]
    exact List.mem_append_right _ (by rwa [List.map_cons] at hmm)
  have hb := before hn hrank he hd hm
  have hnd := ordered_nodup needs hn
  rw [he, List.map_append] at hnd
  exact (List.nodup_append.mp hnd).2.2 d hb d hmm rfl

end

end Lib.Schedule
