/-
  Monosecret.Lib.Cells — a store of cells, behind names that requests are resolved with.

  A request is resolved, with the names, to what is asked and the place that holds it. A write
  is seen by a read exactly when both are resolved, to one place, and the read tells the cell
  written from the cell there (`writing_seen_iff`).
-/

import Monosecret.Lib.Except

namespace Lib

structure Cells (Names Place Cell : Type) where
  names : Names
  held : Place → Cell

namespace Cells

variable {Names Place Cell ε α β Q R : Type} [DecidableEq Place]

def put (s : Cells Names Place Cell) (place : Place) (cell : Cell) : Cells Names Place Cell :=
  { s with held := Function.update s.held place cell }

/-- Writing what is there changes nothing. -/
theorem put_held (s : Cells Names Place Cell) {p : Place} {c : Cell} (h : s.held p = c) :
    s.put p c = s := by
  subst h
  rw [put, Function.update_eq_self]

def reading (request : Names → Except ε R) (slot : R → Place) (read : R → Cell → Except ε α)
    (s : Cells Names Place Cell) : Except ε α := do
  let r ← request s.names
  read r (s.held (slot r))

def writing (request : Names → Except ε Q) (slot : Q → Place) (write : Q → Cell → Except ε (β × Cell))
    (s : Cells Names Place Cell) : Except ε (β × Cells Names Place Cell) := do
  let q ← request s.names
  let (b, cell) ← write q (s.held (slot q))
  return (b, s.put (slot q) cell)

theorem writing_seen_iff {asked : Names → Except ε Q} {at_ : Q → Place} {write : Q → Cell → Except ε (β × Cell)}
    {rq : Names → Except ε R} {slot : R → Place} {read : R → Cell → Except ε α} {s : Cells Names Place Cell} :
    (∃ b a, writing asked at_ write s = .ok (b, a) ∧
        reading rq slot read a ≠ reading rq slot read s) ↔
      ∃ q r b c, asked s.names = .ok q ∧ rq s.names = .ok r ∧ at_ q = slot r ∧
        write q (s.held (at_ q)) = .ok (b, c) ∧ read r c ≠ read r (s.held (slot r)) := by
  constructor
  · rintro ⟨b, a, hw, hn⟩
    obtain ⟨q, hq, hw⟩ := Except.bind_ok hw
    obtain ⟨⟨b', c⟩, hl, hw⟩ := Except.bind_ok hw
    cases hw
    cases hr : rq s.names with
    | error e => simp [reading, put, hr, bind, Except.bind] at hn
    | ok r =>
      simp only [reading, put, hr, bind, Except.bind] at hn
      have hp : at_ q = slot r := by
        by_contra hc
        rw [Function.update_of_ne (Ne.symm hc)] at hn
        exact hn rfl
      rw [← hp, Function.update_self] at hn
      exact ⟨q, r, b, c, hq, rfl, hp, hl, hp ▸ hn⟩
  · rintro ⟨q, r, b, c, hq, hr, hp, hl, hn⟩
    refine ⟨b, s.put (at_ q) c, by simp [writing, hq, hl, bind, Except.bind, pure, Except.pure], ?_⟩
    simpa [reading, put, hr, hp, bind, Except.bind] using hn

end Cells

end Lib
