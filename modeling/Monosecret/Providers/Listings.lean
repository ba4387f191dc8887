/-
  Monosecret.Providers.Listings — a batch read served by listings.

  Each address has a place and a key there. Requests are grouped by place, a place is listed
  once for the keys wanted in it, and a request gets what the listing holds under its key. The
  places come in the order of a hash map, which is any.

  `get_listed_succeeds`, `get_listed_values`: the batch goes through when every listing does,
  and a name then has what the listing of its place holds.
-/

import Monosecret.Providers.GetEach

namespace Monosecret.Providers

open Lib

variable {α β γ κ ε : Type}

/-- A request with the place and the key of its address. -/
structure Wanted (γ κ : Type) where
  name : String
  place : γ
  key : κ

def locate_all (locate : α → Except ε (γ × κ)) (requests : List (String × α)) : Except ε (List (Wanted γ κ)) :=
  requests.mapM fun request => (locate request.2).map fun found => ⟨request.1, found.1, found.2⟩

def insert_listed (listed : Map κ β) (wanted : List (Wanted γ κ)) (resolved : Map String β) : Map String β :=
  wanted.foldl (fun resolved request => resolved.insert_option request.name (listed request.key)) resolved

/-- What the listings of the groups come to. -/
def collect_listings (groups : List (List (Wanted γ κ) × Except ε (Map κ β))) (resolved : Map String β) : Except ε (Map String β) :=
  match groups with
  | [] => .ok resolved
  | (wanted, listing) :: groups =>
    match listing with
    | .error error => .error error
    | .ok listed => collect_listings groups (insert_listed listed wanted resolved)

section

variable [DecidableEq γ]

def wanted_at (place : γ) (wanted : List (Wanted γ κ)) : List (Wanted γ κ) := wanted.filter fun request => request.place = place

def groups_by_place (wanted : List (Wanted γ κ)) : List (γ × List (Wanted γ κ)) :=
  (wanted.map Wanted.place).dedup.map fun place => (place, wanted_at place wanted)

def keys_at (place : γ) (wanted : List (Wanted γ κ)) : List κ := (wanted_at place wanted).map Wanted.key

def get_listed (hash : HashOrder (γ × List (Wanted γ κ))) (wanted : List (Wanted γ κ)) (list : γ → List κ → Except ε (Map κ β))
    (resolved : Map String β) : Except ε (Map String β) :=
  collect_listings ((hash.order (groups_by_place wanted)).map fun group => (group.2, list group.1 (group.2.map Wanted.key))) resolved

end

/-! ## Collecting -/

variable {locate : α → Except ε (γ × κ)} {requests : List (String × α)} {wanted : List (Wanted γ κ)}

theorem locate_all_names (h : locate_all locate requests = .ok wanted) : wanted.map Wanted.name = requests.map Prod.fst :=
  Except.mapM_ok_keys (fun _ _ hf => by obtain ⟨_, _, rfl⟩ := Except.map_eq_ok.mp hf; rfl) h

theorem mem_located (h : locate_all locate requests = .ok wanted) {request : String × α} (hr : request ∈ requests) :
    ∃ found, locate request.2 = .ok found ∧ ⟨request.1, found.1, found.2⟩ ∈ wanted := by
  obtain ⟨l, hm, hl⟩ := Except.mapM_mem_ok h hr
  obtain ⟨found, hf, rfl⟩ := Except.map_eq_ok.mp hl
  exact ⟨found, hf, hm⟩

theorem located_mem (h : locate_all locate requests = .ok wanted) {l : Wanted γ κ} (hm : l ∈ wanted) :
    ∃ request ∈ requests, request.1 = l.name ∧ locate request.2 = .ok (l.place, l.key) := by
  obtain ⟨request, hr, hl⟩ := Except.mapM_ok_mem h hm
  obtain ⟨found, hf, rfl⟩ := Except.map_eq_ok.mp hl
  exact ⟨request, hr, rfl, hf⟩

theorem locate_all_ok (h : ∀ request ∈ requests, ∃ found, locate request.2 = .ok found) :
    ∃ wanted, locate_all locate requests = .ok wanted :=
  Except.mapM_ok_of fun request hr => by
    obtain ⟨found, hf⟩ := h request hr
    exact ⟨_, Except.map_eq_ok.mpr ⟨found, hf, rfl⟩⟩

theorem insert_listed_out {l : Map κ β} {name : String} (resolved : Map String β)
    (h : ∀ request ∈ wanted, request.name ≠ name) : insert_listed l wanted resolved name = resolved name := by
  induction wanted generalizing resolved with
  | nil => rfl
  | cons request wanted ih =>
    obtain ⟨hn, hr⟩ := List.forall_mem_cons.mp h
    rw [insert_listed, List.foldl_cons, ← insert_listed, ih _ hr, Map.insert_option_of_ne hn.symm]

variable {request : Wanted γ κ}

theorem insert_listed_in {l : Map κ β} (resolved : Map String β) (hd : (wanted.map Wanted.name).Nodup)
    (h : request ∈ wanted) :
    insert_listed l wanted resolved request.name = (l request.key).or (resolved request.name) := by
  induction wanted generalizing resolved with
  | nil => cases h
  | cons first wanted ih =>
    obtain ⟨hf, hd⟩ := List.nodup_cons.mp hd
    rw [insert_listed, List.foldl_cons, ← insert_listed]
    rcases List.mem_cons.mp h with rfl | hm
    · have ho : ∀ other ∈ wanted, other.name ≠ request.name := fun other ho hn =>
        hf (hn ▸ List.mem_map_of_mem (f := Wanted.name) ho)
      rw [insert_listed_out _ ho, Map.insert_option_self]
    · have hne : request.name ≠ first.name := fun hn => hf (hn ▸ List.mem_map_of_mem hm)
      rw [ih _ hd hm, Map.insert_option_of_ne hne]

theorem collect_listings_succeeds (g : List (List (Wanted γ κ) × Except ε (Map κ β))) (resolved : Map String β) :
    (∃ v, collect_listings g resolved = .ok v) ↔ ∀ gr ∈ g, ∃ listed, gr.2 = .ok listed := by
  induction g generalizing resolved with
  | nil => exact iff_of_true ⟨resolved, rfl⟩ nofun
  | cons gr g ih =>
    obtain ⟨wanted, l⟩ := gr
    rw [List.forall_mem_cons]
    cases l with
    | error error => exact iff_of_false (fun h => nomatch h.choose_spec) fun h => nomatch h.1.choose_spec
    | ok listed => exact (ih (insert_listed listed wanted resolved)).trans ⟨fun h => ⟨⟨listed, rfl⟩, h⟩, And.right⟩

/-- A name holds what its group's listing holds, and what was there otherwise. -/
theorem collect_listings_values {gr : List (List (Wanted γ κ) × Except ε (Map κ β))} {resolved v : Map String β}
    (h : collect_listings gr resolved = .ok v) (hd : ∀ g ∈ gr, (g.1.map Wanted.name).Nodup)
    (ha : gr.Pairwise fun a b => ∀ request ∈ a.1, ∀ other ∈ b.1, request.name ≠ other.name) :
    (∀ g ∈ gr, ∀ request ∈ g.1, ∃ l, g.2 = .ok l ∧
        v request.name = (l request.key).or (resolved request.name)) ∧
      ∀ name, (∀ g ∈ gr, ∀ request ∈ g.1, request.name ≠ name) → v name = resolved name := by
  induction gr generalizing resolved with
  | nil =>
    cases h
    exact ⟨nofun, fun _ _ => rfl⟩
  | cons g gr ih =>
    obtain ⟨wanted, ls⟩ := g
    obtain ⟨hhd, ht⟩ := List.pairwise_cons.mp ha
    obtain ⟨hf, hr⟩ := List.forall_mem_cons.mp hd
    cases ls with
    | error error => cases h
    | ok l =>
      obtain ⟨hi, ho⟩ := ih h hr ht
      constructor
      · intro g hg request hq
        rcases List.mem_cons.mp hg with rfl | hg
        · refine ⟨l, rfl, ?_⟩
          rw [ho _ fun other hoh found hn => (hhd other hoh request hq found hn).symm,
            insert_listed_in _ hf hq]
        · obtain ⟨found, hn, hv⟩ := hi g hg request hq
          refine ⟨found, hn, ?_⟩
          rw [hv, insert_listed_out _ fun other hoh => hhd g hg other hoh request hq]
      · intro name hm
        obtain ⟨hf, hr⟩ := List.forall_mem_cons.mp hm
        rw [ho name hr, insert_listed_out _ hf]

/-! ## Each place once -/

variable [DecidableEq γ] {wanted : List (Wanted γ κ)} {list : γ → List κ → Except ε (Map κ β)} {resolved v : Map String β}

theorem mem_wanted_at {place : γ} : request ∈ wanted_at place wanted ↔ request ∈ wanted ∧ request.place = place := by
  rw [wanted_at, List.mem_filter, decide_eq_true_eq]

theorem mem_groups_by_place {g : γ × List (Wanted γ κ)} :
    g ∈ groups_by_place wanted ↔ g.1 ∈ wanted.map Wanted.place ∧ g.2 = wanted_at g.1 wanted := by
  unfold groups_by_place
  rw [List.mem_map]
  constructor
  · rintro ⟨p, hp, rfl⟩
    exact ⟨List.mem_dedup.mp hp, rfl⟩
  · rintro ⟨hp, hg⟩
    exact ⟨g.1, List.mem_dedup.mpr hp, by rw [← hg]⟩

theorem group_of_wanted (h : request ∈ wanted) :
    (request.place, wanted_at request.place wanted) ∈ groups_by_place wanted :=
  mem_groups_by_place.mpr ⟨List.mem_map_of_mem h, rfl⟩

theorem get_listed_succeeds (hash : HashOrder (γ × List (Wanted γ κ))) :
    (∃ v, get_listed hash wanted list resolved = .ok v) ↔
      ∀ request ∈ wanted, ∃ listed, list request.place (keys_at request.place wanted) = .ok listed := by
  rw [get_listed, collect_listings_succeeds, List.forall_mem_map]
  constructor
  · exact fun h request hr => h _ ((hash.perm _).mem_iff.mpr (group_of_wanted hr))
  · intro h g hg
    obtain ⟨hp, hg⟩ := mem_groups_by_place.mp ((hash.perm _).mem_iff.mp hg)
    obtain ⟨request, hr, ha⟩ := List.mem_map.mp hp
    rw [hg, ← ha]
    exact h request hr

/-- With distinct names, a name has what the listing of its place holds under its key. -/
theorem get_listed_values (hash : HashOrder (γ × List (Wanted γ κ))) (hd : (wanted.map Wanted.name).Nodup)
    (h : get_listed hash wanted list resolved = .ok v) :
    (∀ request ∈ wanted, ∃ l, list request.place (keys_at request.place wanted) = .ok l ∧
        v request.name = (l request.key).or (resolved request.name)) ∧
      ∀ name, name ∉ wanted.map Wanted.name → v name = resolved name := by
  have hm {g : γ × List (Wanted γ κ)} (hg : g ∈ hash.order (groups_by_place wanted)) :
      g.2 = wanted_at g.1 wanted := (mem_groups_by_place.mp ((hash.perm _).mem_iff.mp hg)).2
  obtain ⟨hi, ho⟩ := collect_listings_values h
    (by
      refine List.forall_mem_map.mpr fun g hg => ?_
      rw [hm hg]
      exact hd.sublist (List.filter_sublist.map _))
    (by
      have ha : (groups_by_place wanted).Pairwise fun a b => ∀ request ∈ a.2, ∀ other ∈ b.2, request.name ≠ other.name := by
        refine List.pairwise_map.mpr ((List.nodup_dedup _).imp_of_mem fun {a b} _ _ hn => ?_)
        intro request hr other hoh hnm
        obtain ⟨hr, hp⟩ := mem_wanted_at.mp hr
        obtain ⟨hoh, hp'⟩ := mem_wanted_at.mp hoh
        have hs := List.inj_on_of_nodup_map hd hr hoh hnm
        exact hn (by rw [← hp, ← hp', hs])
      refine List.pairwise_map.mpr (ha.perm (hash.perm _).symm fun hb request hr other hoh => ?_)
      exact (hb other hoh request hr).symm)
  constructor
  · intro request hr
    exact hi _ (List.mem_map_of_mem ((hash.perm _).mem_iff.mpr (group_of_wanted hr))) request (mem_wanted_at.mpr ⟨hr, rfl⟩)
  · intro name hnm
    refine ho name fun g hg request hr he => hnm ?_
    obtain ⟨found, hf, rfl⟩ := List.mem_map.mp hg
    rw [hm hf] at hr
    exact he ▸ List.mem_map_of_mem (mem_wanted_at.mp hr).1

end Monosecret.Providers
