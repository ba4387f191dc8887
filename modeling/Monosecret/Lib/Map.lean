/-
  Monosecret.Lib.Map — finite maps as lookup functions.
-/

namespace Lib

universe u v

/-- What a map holds at each key. -/
def Map (κ : Type u) (ν : Type v) := κ → Option ν

namespace Map

variable {κ : Type u} {ν : Type v}

def empty : Map κ ν := fun _ => none

@[simp] theorem empty_apply (k : κ) : (empty : Map κ ν) k = none := rfl

def retain (p : κ → Bool) (m : Map κ ν) : Map κ ν := fun k => if p k then m k else none

variable [DecidableEq κ]

def insert (k : κ) (v : ν) (m : Map κ ν) : Map κ ν := fun k' => if k' = k then some v else m k'

def remove (k : κ) (m : Map κ ν) : Map κ ν := fun k' => if k' = k then none else m k'

/-- Insert a value that may be absent. -/
def insert_option (k : κ) (v : Option ν) (m : Map κ ν) : Map κ ν :=
  match v with
  | some v => m.insert k v
  | none => m

@[simp] theorem insert_self (k : κ) (v : ν) (m : Map κ ν) : m.insert k v k = some v := if_pos rfl

theorem insert_of_ne {k k' : κ} (h : k' ≠ k) (v : ν) (m : Map κ ν) : m.insert k v k' = m k' := if_neg h

@[simp] theorem remove_self (k : κ) (m : Map κ ν) : m.remove k k = none := if_pos rfl

theorem remove_of_ne {k k' : κ} (h : k' ≠ k) (m : Map κ ν) : m.remove k k' = m k' := if_neg h

theorem insert_some {k k' : κ} {v v' : ν} {m : Map κ ν} (h : m.insert k v k' = some v') :
    k' = k ∧ v = v' ∨ k' ≠ k ∧ m k' = some v' := by
  by_cases hk : k' = k
  · exact .inl ⟨hk, Option.some.inj ((if_pos hk).symm.trans h)⟩
  · exact .inr ⟨hk, (insert_of_ne hk v m).symm.trans h⟩

theorem remove_some {k k' : κ} {v : ν} {m : Map κ ν} (h : m.remove k k' = some v) : k' ≠ k ∧ m k' = some v := by
  have hk : k' ≠ k := by
    rintro rfl
    simp at h
  exact ⟨hk, (remove_of_ne hk m).symm.trans h⟩

theorem insert_option_of_ne {k k' : κ} (h : k' ≠ k) (v : Option ν) (m : Map κ ν) : m.insert_option k v k' = m k' := by
  cases v with
  | none => rfl
  | some v => exact insert_of_ne h v m

theorem insert_option_self (k : κ) (v : Option ν) (m : Map κ ν) : m.insert_option k v k = v.or (m k) := by
  cases v with
  | none => rfl
  | some v => exact insert_self k v m

end Map

end Lib
