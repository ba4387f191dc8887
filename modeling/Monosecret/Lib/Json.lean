/-
  Monosecret.Lib.Json — JSON trees as a parser hands them over.

  An integer token is an `int`, any other number its exact value; an object keeps its members
  in the order of the text, repeated keys included.
-/

import Mathlib.Data.String.Basic
import Mathlib.Data.List.Sort

namespace Lib

inductive Json
  | null
  | bool (b : Bool)
  | int (n : Int)
  | real (r : Rat)
  | str (s : String)
  | arr (items : List Json)
  | obj (members : List (String × Json))

namespace Json

def is_obj : Json → Bool
  | .obj _ => true
  | _ => false

/-- The first member with the key, of an object. -/
def get (key : String) : Json → Option Json
  | .obj members => members.lookup key
  | _ => none

@[simp] theorem get_obj (key : String) (m : List (String × Json)) :
    (Json.obj m).get key = m.lookup key := rfl

mutual

/-- The containers around the innermost value, the empty ones included. -/
def nesting : Json → Nat
  | .arr items => items_nesting items + 1
  | .obj members => members_nesting members + 1
  | _ => 0

def items_nesting : List Json → Nat
  | [] => 0
  | item :: items => max (nesting item) (items_nesting items)

def members_nesting : List (String × Json) → Nat
  | [] => 0
  | (_, member) :: members => max (nesting member) (members_nesting members)

end

mutual

/-- The value and every value inside it. -/
def Every (P : Json → Prop) : Json → Prop
  | .arr items => P (.arr items) ∧ EveryItem P items
  | .obj members => P (.obj members) ∧ EveryMember P members
  | value => P value

def EveryItem (P : Json → Prop) : List Json → Prop
  | [] => True
  | item :: items => Every P item ∧ EveryItem P items

def EveryMember (P : Json → Prop) : List (String × Json) → Prop
  | [] => True
  | (_, member) :: members => Every P member ∧ EveryMember P members

end

/-- The members of an object, if it is one, have different keys. -/
def KeysDistinct : Json → Prop
  | .obj members => (members.map Prod.fst).Nodup
  | _ => True

end Json

/-! ## Repeated keys -/

universe u

variable {α : Type u} [LinearOrder α]

end Lib
