/-
  Monosecret.Lib.JsonFields — members of a JSON object, read one by one and set.

  A required text must be there; an optional one may be missing or null. Setting a member
  leaves the others as they are (`lookup_insert_of_ne`), and a list is read as its elements are
  (`each_iff`).
-/

import Monosecret.Lib.Json

namespace Lib.Json

/-! ## Members -/

def as_str : Json → Option String
  | .str text => some text
  | _ => none

/-- `String` of a derived reader. -/
def required_str (member : Option Json) : Option String := member.bind as_str

/-- `Option<String>` of a derived reader. -/
def optional_str : Option Json → Option (Option String)
  | none => some none
  | some .null => some none
  | some (.str text) => some (some text)
  | some _ => none

/-- `Map::insert`: a key that is there keeps its place. -/
def insert (key : String) (value : Json) : List (String × Json) → List (String × Json)
  | [] => [(key, value)]
  | (other, member) :: rest => if other = key then (key, value) :: rest else (other, member) :: insert key value rest

theorem lookup_insert_self (k : String) (value : Json) (m : List (String × Json)) :
    (insert k value m).lookup k = some value := by
  induction m with
  | nil => exact List.lookup_cons_self
  | cons mm m ih =>
    obtain ⟨other, found⟩ := mm
    unfold insert
    split
    · exact List.lookup_cons_self
    · next hn => rw [List.lookup_cons, beq_false_of_ne (Ne.symm hn), ih]

theorem lookup_insert_of_ne {k other : String} (h : other ≠ k) (value : Json) (m : List (String × Json)) :
    (insert k value m).lookup other = m.lookup other := by
  induction m with
  | nil => rw [insert, List.lookup_cons, beq_false_of_ne h]
  | cons mm m ih =>
    obtain ⟨first, found⟩ := mm
    unfold insert
    split
    · next he => rw [List.lookup_cons, List.lookup_cons, he, beq_false_of_ne h]
    · rw [List.lookup_cons, List.lookup_cons, ih]

/-! ## Lists -/

variable {α : Type}

/-- Every element, if all can be read. -/
def each (read : Json → Option α) : List Json → Option (List α)
  | [] => some []
  | item :: items =>
    match read item, each read items with
    | some value, some values => some (value :: values)
    | _, _ => none

theorem each_iff {read : Json → Option α} {items : List Json} {values : List α} :
    each read items = some values ↔ List.Forall₂ (fun item value => read item = some value) items values := by
  induction items generalizing values with
  | nil =>
    cases values with
    | nil => exact iff_of_true rfl .nil
    | cons => exact iff_of_false nofun nofun
  | cons item items ih =>
    rw [each]
    cases hi : read item with
    | none =>
      refine iff_of_false nofun fun h => ?_
      cases h with
      | cons hr _ =>
        rw [hi] at hr
        cases hr
    | some value =>
      cases hm : each read items with
      | none =>
        refine iff_of_false nofun fun h => ?_
        cases h with
        | cons _ hs =>
          rw [ih.mpr hs] at hm
          cases hm
      | some found =>
        constructor
        · intro h
          cases h
          exact .cons hi (ih.mp hm)
        · intro h
          cases h with
          | cons hr hs =>
            rw [hi] at hr
            rw [ih.mpr hs] at hm
            cases hr
            cases hm
            rfl

theorem each_mem {read : Json → Option α} {i : List Json} {v : List α} (h : each read i = some v) {value : α}
    (hm : value ∈ v) : ∃ item ∈ i, read item = some value := by
  replace h := each_iff.mp h
  induction h with
  | nil => cases hm
  | @cons first found i v hr hs ih =>
    rcases List.mem_cons.mp hm with rfl | hm
    · exact ⟨first, List.mem_cons_self, hr⟩
    · obtain ⟨item, hi, hf⟩ := ih hm
      exact ⟨item, List.mem_cons_of_mem _ hi, hf⟩

end Lib.Json
