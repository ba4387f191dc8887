/-
  Monosecret.Providers.GetEach — a batch read as single reads (`get_each_with` in
  `monosecret/src/provider/traits.rs`).

  Requests are grouped by address, each address is fetched once, and the groups come in the
  order of a hash map, which is any (`HashOrder`). `Agrees` says what any batch read has to
  be; `get_each_agrees` that this one is. A batch may resolve all its addresses first
  (`agrees_resolved`, `agrees_refused`).
-/

import Monosecret.Lib.Except
import Monosecret.Lib.Map
import Mathlib.Data.List.Dedup

namespace Monosecret.Providers

open Lib

/-- An order in which a hash map hands out its entries. -/
structure HashOrder (α : Type) where
  order : List α → List α
  perm : ∀ entries, (order entries).Perm entries

variable {α β ε : Type}

/-- A batch succeeds when every single read does, with their values under the names; names
    whose read finds nothing are left out. -/
structure Agrees (requests : List (String × α)) (single : α → Except ε (Option β)) (batch : Except ε (Map String β)) : Prop where
  succeeds : (∃ values, batch = .ok values) ↔ ∀ request ∈ requests, ∃ found, single request.2 = .ok found
  values : ∀ values, batch = .ok values →
    (∀ request ∈ requests, single request.2 = .ok (values request.1)) ∧ ∀ name, name ∉ requests.map Prod.fst → values name = none

def insert_names (value : β) (names : List String) (results : Map String β) : Map String β :=
  names.foldl (fun results name => results.insert name value) results

theorem insert_names_apply (value : β) (names : List String) (results : Map String β) (name : String) :
    insert_names value names results name = if name ∈ names then some value else results name := by
  induction names generalizing results with
  | nil => rfl
  | cons first names ih =>
    rw [insert_names, List.foldl_cons, ← insert_names, ih]
    by_cases hn : name ∈ names
    · rw [if_pos hn, if_pos (.tail _ hn)]
    · by_cases hf : name = first
      · rw [if_neg hn, hf, Map.insert_self, if_pos (.head _)]
      · rw [if_neg hn, Map.insert_of_ne hf, if_neg fun h => (List.mem_cons.mp h).elim hf hn]

/-- What the fetched groups come to. -/
def collect_groups (groups : List (List String × Except ε (Option β))) (results : Map String β) : Except ε (Map String β) :=
  match groups with
  | [] => .ok results
  | (names, fetched) :: groups =>
    match fetched with
    | .error error => .error error
    | .ok none => collect_groups groups results
    | .ok (some value) => collect_groups groups (insert_names value names results)

section

variable [DecidableEq α]

/-- The names that ask for an address. -/
def names_at (requests : List (String × α)) (address : α) : List String :=
  (requests.filter fun request => request.2 = address).map Prod.fst

def groups_by_address (requests : List (String × α)) : List (α × List String) :=
  (requests.map Prod.snd).dedup.map fun address => (address, names_at requests address)

def get_each_with (hash : HashOrder (α × List String)) (requests : List (String × α)) (fetch : α → Except ε (Option β)) :
    Except ε (Map String β) :=
  collect_groups ((hash.order (groups_by_address requests)).map fun group => (group.2, fetch group.1)) .empty

end

/-! ## Collecting -/

theorem collect_groups_succeeds (g : List (List String × Except ε (Option β))) (r : Map String β) :
    (∃ v, collect_groups g r = .ok v) ↔ ∀ gr ∈ g, ∃ found, gr.2 = .ok found := by
  induction g generalizing r with
  | nil => exact iff_of_true ⟨r, rfl⟩ nofun
  | cons gr g ih =>
    obtain ⟨names, fetched⟩ := gr
    rw [List.forall_mem_cons]
    cases fetched with
    | error error => exact iff_of_false (fun h => nomatch h.choose_spec) fun h => nomatch h.1.choose_spec
    | ok found =>
      cases found with
      | none => exact (ih r).trans ⟨fun h => ⟨⟨none, rfl⟩, h⟩, And.right⟩
      | some value => exact (ih (insert_names value names r)).trans ⟨fun h => ⟨⟨some value, rfl⟩, h⟩, And.right⟩

variable {name : String}

/-- A name holds the value of its group, and what was there when no group has it. -/
theorem collect_groups_values {gr : List (List String × Except ε (Option β))} {r v : Map String β}
    (h : collect_groups gr r = .ok v) (ha : gr.Pairwise fun a b => ¬ (name ∈ a.1 ∧ name ∈ b.1)) :
    (∀ g ∈ gr, name ∈ g.1 → g.2 = .ok (v name) ∨ (g.2 = .ok none ∧ v name = r name)) ∧
      ((∀ g ∈ gr, name ∉ g.1) → v name = r name) := by
  induction gr generalizing r with
  | nil =>
    cases h
    exact ⟨nofun, fun _ => rfl⟩
  | cons g gr ih =>
    obtain ⟨names, fetched⟩ := g
    obtain ⟨hd, ht⟩ := List.pairwise_cons.mp ha
    cases fetched with
    | error error => cases h
    | ok found =>
      cases found with
      | none =>
        obtain ⟨hi, ho⟩ := ih h ht
        refine ⟨fun g hg hn => ?_, fun hnn => ho fun g hg => hnn g (.tail _ hg)⟩
        rcases List.mem_cons.mp hg with rfl | hg
        · exact .inr ⟨rfl, ho fun other hoh hm => hd other hoh ⟨hn, hm⟩⟩
        · exact hi g hg hn
      | some value =>
        obtain ⟨hi, ho⟩ := ih h ht
        constructor
        · intro g hg hn
          rcases List.mem_cons.mp hg with rfl | hg
          · have hk := ho fun other hoh hm => hd other hoh ⟨hn, hm⟩
            rw [insert_names_apply, if_pos hn] at hk
            exact .inl (by rw [hk])
          · rcases hi g hg hn with hv | ⟨hnn, hk⟩
            · exact .inl hv
            · rw [insert_names_apply, if_neg fun hm => hd g hg ⟨hm, hn⟩] at hk
              exact .inr ⟨hnn, hk⟩
        · intro hnn
          rw [ho fun g hg => hnn g (.tail _ hg), insert_names_apply,
            if_neg (hnn _ (.head _))]

variable {requests : List (String × α)}

/-- A batch that goes through has each single read's value. -/
theorem agrees_ok {s : α → Except ε (Option β)} {v : Map String β} :
    Agrees requests s (.ok v) ↔
      (∀ r ∈ requests, s r.2 = .ok (v r.1)) ∧ ∀ name, name ∉ requests.map Prod.fst → v name = none := by
  constructor
  · exact fun h => h.values v rfl
  · intro h
    refine ⟨iff_of_true ⟨v, rfl⟩ fun r hm => ⟨_, h.1 r hm⟩, fun other ho => ?_⟩
    cases ho
    exact h

/-! ## Entries -/

/-- The values of entries under their names, later ones over earlier ones. -/
def insert_each (entries : List (String × Option β)) (results : Map String β) : Map String β :=
  entries.foldl (fun results entry => results.insert_option entry.1 entry.2) results

theorem insert_each_out {e : List (String × Option β)} (h : name ∉ e.map Prod.fst) (results : Map String β) :
    insert_each e results name = results name := by
  induction e generalizing results with
  | nil => rfl
  | cons first e ih =>
    rw [List.map_cons, List.mem_cons, not_or] at h
    rw [insert_each, List.foldl_cons, ← insert_each, ih h.2, Map.insert_option_of_ne h.1]

theorem insert_each_in {e : List (String × Option β)} (hd : (e.map Prod.fst).Nodup) {en : String × Option β}
    (h : en ∈ e) (r : Map String β) : insert_each e r en.1 = en.2.or (r en.1) := by
  induction e generalizing r with
  | nil => cases h
  | cons first e ih =>
    obtain ⟨hf, hd⟩ := List.nodup_cons.mp hd
    rw [insert_each, List.foldl_cons, ← insert_each]
    rcases List.mem_cons.mp h with rfl | hm
    · rw [insert_each_out hf, Map.insert_option_self]
    · have hn : en.1 ≠ first.1 := fun hnm => hf (hnm ▸ List.mem_map_of_mem hm)
      rw [ih hd hm, Map.insert_option_of_ne hn]

/-! ## Addresses resolved first -/

section

variable {γ : Type} {resolve : α → Except ε γ} {read : γ → Except ε (Option β)} {requests : List (String × α)}

def resolve_all (resolve : α → Except ε γ) (requests : List (String × α)) : Except ε (List (String × γ)) :=
  requests.mapM fun request => (resolve request.2).map fun found => (request.1, found)

variable {resolved : List (String × γ)}

theorem resolve_all_names (h : resolve_all resolve requests = .ok resolved) :
    resolved.map Prod.fst = requests.map Prod.fst :=
  Except.mapM_ok_keys (fun _ _ hf => by obtain ⟨_, _, rfl⟩ := Except.map_eq_ok.mp hf; rfl) h

theorem mem_resolved (h : resolve_all resolve requests = .ok resolved) {r : String × α}
    (hr : r ∈ requests) : ∃ found, resolve r.2 = .ok found ∧ (r.1, found) ∈ resolved := by
  obtain ⟨l, hm, hl⟩ := Except.mapM_mem_ok h hr
  obtain ⟨found, hf, rfl⟩ := Except.map_eq_ok.mp hl
  exact ⟨found, hf, hm⟩

theorem resolved_mem (h : resolve_all resolve requests = .ok resolved) {l : String × γ}
    (hm : l ∈ resolved) : ∃ r ∈ requests, r.1 = l.1 ∧ resolve r.2 = .ok l.2 := by
  obtain ⟨r, hr, hl⟩ := Except.mapM_ok_mem h hm
  obtain ⟨found, hf, rfl⟩ := Except.map_eq_ok.mp hl
  exact ⟨r, hr, rfl, hf⟩

theorem resolve_all_error {error : ε} (h : resolve_all resolve requests = .error error) :
    ∃ r ∈ requests, ∃ error, resolve r.2 = .error error := by
  by_contra hc
  push Not at hc
  obtain ⟨resolved, ho⟩ : ∃ resolved, resolve_all resolve requests = .ok resolved := by
    refine Except.mapM_ok_of fun r hm => ?_
    cases hn : resolve r.2 with
    | error error => exact absurd hn (hc r hm error)
    | ok found => exact ⟨_, rfl⟩
  rw [h] at ho
  cases ho

/-- A batch answers for what its addresses resolve to. -/
theorem agrees_resolved (h : resolve_all resolve requests = .ok resolved) {batch : Except ε (Map String β)} :
    Agrees requests (fun a => resolve a >>= read) batch ↔ Agrees resolved read batch := by
  have hs {P : String → Except ε (Option β) → Prop} :
      (∀ r ∈ requests, P r.1 (resolve r.2 >>= read)) ↔ ∀ l ∈ resolved, P l.1 (read l.2) := by
    constructor
    · intro ha l hm
      obtain ⟨r, hr, hn, hf⟩ := resolved_mem h hm
      have ho := ha r hr
      rw [hf, hn] at ho
      exact ho
    · intro ha r hr
      obtain ⟨found, hf, hm⟩ := mem_resolved h hr
      rw [hf]
      exact ha _ hm
  constructor
  · rintro ⟨hc, hv⟩
    refine ⟨hc.trans (@hs fun _ s => ∃ found, s = .ok found), fun v hb => ?_⟩
    obtain ⟨hi, hou⟩ := hv v hb
    rw [← resolve_all_names h] at hou
    exact ⟨(@hs fun name s => s = .ok (v name)).mp hi, hou⟩
  · rintro ⟨hc, hv⟩
    refine ⟨hc.trans (@hs fun _ s => ∃ found, s = .ok found).symm, fun v hb => ?_⟩
    obtain ⟨hi, hou⟩ := hv v hb
    rw [resolve_all_names h] at hou
    exact ⟨(@hs fun name s => s = .ok (v name)).mpr hi, hou⟩

/-- A batch that refuses an address is what the single reads are. -/
theorem agrees_refused {error other : ε} (h : resolve_all resolve requests = .error error) :
    Agrees requests (fun a => resolve a >>= read) (.error other) := by
  obtain ⟨r, hm, rf, hr⟩ := resolve_all_error h
  refine ⟨iff_of_false (fun ho => nomatch ho.choose_spec) fun ha => ?_, nofun⟩
  obtain ⟨value, hv⟩ := ha r hm
  rw [hr] at hv
  cases hv

end

/-! ## One after the other -/

section

variable {read : α → Except ε (Option β)} {requests : List (String × α)}

/-- Every request is read, up to the first that fails. -/
def collect_each (read : α → Except ε (Option β)) (requests : List (String × α)) (results : Map String β) : Except ε (Map String β) :=
  requests.foldlM (fun results request => (read request.2).map (results.insert_option request.1)) results

theorem collect_each_eq (results : Map String β) :
    collect_each read requests results = (resolve_all read requests).map fun found => insert_each found results := by
  induction requests generalizing results with
  | nil => rfl
  | cons r requests ih =>
    rw [collect_each, List.foldlM_cons, resolve_all, List.mapM_cons]
    cases read r.2 with
    | error error => rfl
    | ok found =>
      show collect_each read requests _ = _
      rw [ih, resolve_all]
      cases requests.mapM fun r => (read r.2).map fun found => (r.1, found) <;> rfl

theorem collect_each_agrees (hd : (requests.map Prod.fst).Nodup) : Agrees requests read (collect_each read requests .empty) := by
  rw [collect_each_eq]
  cases hr : resolve_all read requests with
  | error error =>
    obtain ⟨r, hm, rf, hf⟩ := resolve_all_error hr
    refine ⟨iff_of_false (fun h => nomatch h.choose_spec) fun ha => ?_, nofun⟩
    obtain ⟨found, hn⟩ := ha r hm
    rw [hf] at hn
    cases hn
  | ok e =>
    have hnm := resolve_all_names hr
    show Agrees requests read (.ok (insert_each e .empty))
    refine agrees_ok.mpr ⟨fun r hm => ?_, fun name hna => ?_⟩
    · obtain ⟨found, hn, he⟩ := mem_resolved hr hm
      have hi : insert_each e .empty r.1 = found.or none := insert_each_in (by rwa [hnm]) he .empty
      rw [hn, hi, Option.or_none]
    · exact insert_each_out (by rwa [hnm]) .empty

end

/-- What the same batch is to other single reads: the same where both fail, or where they read the same. -/
theorem Agrees.other {read s : α → Except ε (Option β)} {batch : Except ε (Map String β)}
    (h : Agrees requests read batch) :
    Agrees requests s batch ↔
      ((∃ r ∈ requests, ∃ error, read r.2 = .error error) ∧ ∃ r ∈ requests, ∃ error, s r.2 = .error error) ∨
        ∀ r ∈ requests, ∃ found, read r.2 = .ok found ∧ s r.2 = .ok found := by
  have hf : ∀ (other : α → Except ε (Option β)),
      (∃ r ∈ requests, ∃ error, other r.2 = .error error) ↔ ¬ ∀ r ∈ requests, ∃ found, other r.2 = .ok found := by
    intro other
    push Not
    refine exists_congr fun r => and_congr_right fun _ => ?_
    cases other r.2 with
    | error error => exact iff_of_true ⟨error, rfl⟩ nofun
    | ok found => exact iff_of_false (fun h => nomatch h.choose_spec) fun h => h found rfl
  rw [hf, hf]
  cases batch with
  | error error =>
    have hr : ¬ ∀ r ∈ requests, ∃ found, read r.2 = .ok found := fun ha => nomatch (h.succeeds.mpr ha).choose_spec
    constructor
    · exact fun hs => .inl ⟨hr, fun ha => nomatch (hs.succeeds.mpr ha).choose_spec⟩
    · rintro (⟨-, hs⟩ | hb)
      · exact ⟨iff_of_false (fun ho => nomatch ho.choose_spec) hs, nofun⟩
      · exact absurd (fun r hm => (hb r hm).imp fun found => And.left) hr
  | ok v =>
    obtain ⟨hi, hou⟩ := agrees_ok.mp h
    rw [agrees_ok]
    constructor
    · exact fun hs => .inr fun r hm => ⟨_, hi r hm, hs.1 r hm⟩
    · rintro (⟨hr, -⟩ | hb)
      · exact absurd (fun r hm => ⟨_, hi r hm⟩) hr
      · refine ⟨fun r hm => ?_, hou⟩
        obtain ⟨found, hr, hs⟩ := hb r hm
        rw [hs, ← hr, hi r hm]

/-! ## Each address once -/

variable [DecidableEq α]

theorem mem_names_at {a : α} : name ∈ names_at requests a ↔ (name, a) ∈ requests := by
  unfold names_at
  rw [List.mem_map]
  constructor
  · rintro ⟨r, hm, rfl⟩
    obtain ⟨hm, ha⟩ := List.mem_filter.mp hm
    rw [← of_decide_eq_true ha]
    exact hm
  · exact fun hm => ⟨(name, a), List.mem_filter.mpr ⟨hm, decide_eq_true rfl⟩, rfl⟩

theorem mem_groups_by_address {g : α × List String} :
    g ∈ groups_by_address requests ↔ g.1 ∈ requests.map Prod.snd ∧ g.2 = names_at requests g.1 := by
  unfold groups_by_address
  rw [List.mem_map]
  constructor
  · rintro ⟨a, hm, rfl⟩
    exact ⟨List.mem_dedup.mp hm, rfl⟩
  · rintro ⟨hm, hn⟩
    exact ⟨g.1, List.mem_dedup.mpr hm, by rw [← hn]⟩

/-- With distinct names, a name is asked for at one address. -/
theorem groups_apart (hd : (requests.map Prod.fst).Nodup) (name : String) :
    (groups_by_address requests).Pairwise fun a b => ¬ (name ∈ a.2 ∧ name ∈ b.2) := by
  unfold groups_by_address
  refine List.pairwise_map.mpr ((List.nodup_dedup _).imp_of_mem fun {a b} _ _ hn => ?_)
  rintro ⟨ha, hb⟩
  exact hn (congrArg Prod.snd (List.inj_on_of_nodup_map hd (mem_names_at.mp ha) (mem_names_at.mp hb) rfl))

theorem group_of_request {r : String × α} (h : r ∈ requests) :
    (r.2, names_at requests r.2) ∈ groups_by_address requests :=
  mem_groups_by_address.mpr ⟨List.mem_map_of_mem h, rfl⟩

theorem get_each_agrees (hash : HashOrder (α × List String)) (hd : (requests.map Prod.fst).Nodup)
    (f : α → Except ε (Option β)) : Agrees requests f (get_each_with hash requests f) := by
  have hm : ∀ g, g ∈ hash.order (groups_by_address requests) ↔ g ∈ groups_by_address requests :=
    fun g => (hash.perm _).mem_iff
  constructor
  · rw [get_each_with, collect_groups_succeeds, List.forall_mem_map]
    constructor
    · intro h r hr
      exact h _ ((hm _).mpr (group_of_request hr))
    · intro h g hg
      obtain ⟨ha, -⟩ := mem_groups_by_address.mp ((hm _).mp hg)
      obtain ⟨r, hr, ht⟩ := List.mem_map.mp ha
      rw [← ht]
      exact h r hr
  · intro v hv
    have hp (name : String) : ((hash.order (groups_by_address requests)).map fun g =>
        (g.2, f g.1)).Pairwise fun a b => ¬ (name ∈ a.1 ∧ name ∈ b.1) := by
      refine List.pairwise_map.mpr ?_
      exact (groups_apart hd name).perm (hash.perm _).symm fun hb hba => hb ⟨hba.2, hba.1⟩
    constructor
    · intro r hr
      have hg := (hm _).mpr (group_of_request hr)
      have hn : r.1 ∈ names_at requests r.2 := mem_names_at.mpr hr
      rcases (collect_groups_values hv (hp r.1)).1 _ (List.mem_map_of_mem hg) hn with hva | ⟨hnn, hk⟩
      · exact hva
      · rw [hk]
        exact hnn
    · intro name hn
      refine (collect_groups_values hv (hp name)).2 fun g hg hi => hn ?_
      obtain ⟨found, hf, rfl⟩ := List.mem_map.mp hg
      obtain ⟨-, hnm⟩ := mem_groups_by_address.mp ((hm _).mp hf)
      rw [show found.2 = names_at requests found.1 from hnm] at hi
      exact List.mem_map_of_mem (mem_names_at.mp hi)

end Monosecret.Providers
