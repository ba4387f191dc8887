/-
  Monosecret.Lib.Panic — computations that may panic, and rules to show that they do not.

  A computation stops with an error it reports or in a branch it was not to reach. `Safe x
  post` says that `x` does not panic and that what it returns satisfies `post`; nothing is
  said of an error. `Yields x post` says only the latter, `Delivers P x post` that `x` fails
  only where `P` does not hold. Sequencing, loops and checks have a rule each, and
  `Safe.not_panicked` reads the result off.
-/

import Monosecret.Lib.Except

namespace Lib

universe u v

inductive Stop (ε : Type u) where
  | failed (error : ε)
  | panicked (message : String)
  deriving DecidableEq

abbrev Attempt (ε : Type u) (α : Type v) := Except (Stop ε) α

namespace Attempt

variable {ε : Type u} {α β σ : Type v}

/-- A fallible call. -/
def call (x : Except ε α) : Attempt ε α := x.mapError .failed

/-- `Option::expect`. -/
def expect (message : String) : Option α → Attempt ε α
  | some a => .ok a
  | none => .error (.panicked message)

def unreachable (message : String) : Attempt ε α := .error (.panicked message)

/-- The thread that ran `x` is joined: a panic there is one here. -/
def join (message : String) : Attempt ε α → Attempt ε (Except ε α)
  | .ok a => .ok (.ok a)
  | .error (.failed e) => .ok (.error e)
  | .error (.panicked _) => .error (.panicked message)

def Safe (x : Attempt ε α) (post : α → Prop) : Prop :=
  match x with
  | .ok a => post a
  | .error (.failed _) => True
  | .error (.panicked _) => False

namespace Safe

variable {x : Attempt ε α} {p p' : α → Prop}

theorem not_panicked (h : Safe x p) (m : String) : x ≠ .error (.panicked m) := by
  rintro rfl
  exact h

theorem returned (h : Safe x p) {a : α} (hx : x = .ok a) : p a := by
  rw [hx] at h
  exact h

theorem ok {a : α} (h : p a) : Safe (.ok a : Attempt ε α) p := h

theorem mono (h : Safe x p) (hp : ∀ a, p a → p' a) : Safe x p' := by
  cases x with
  | ok a => exact hp a h
  | error s =>
    cases s with
    | failed e => trivial
    | panicked m => exact h

theorem bind {f : α → Attempt ε β} {q : β → Prop} (h : Safe x p) (hf : ∀ a, p a → Safe (f a) q) :
    Safe (x >>= f) q := by
  cases x with
  | ok a => exact hf a h
  | error s =>
    cases s with
    | failed e => trivial
    | panicked m => exact h

theorem map {f : α → β} {q : β → Prop} (h : Safe x p) (hf : ∀ a, p a → q (f a)) : Safe (x.map f) q := by
  cases x with
  | ok a => exact hf a h
  | error s =>
    cases s with
    | failed e => trivial
    | panicked m => exact h

theorem call (y : Except ε α) : Safe (Attempt.call y) (fun a => y = .ok a) := by
  cases y with
  | ok a => exact rfl
  | error e => trivial

theorem expect {m : String} {o : Option α} {a : α} (h : o = some a) :
    Safe (Attempt.expect m o : Attempt ε α) (· = a) := by
  rw [h]
  exact rfl

theorem join {m : String} (h : Safe x p) :
    Safe (Attempt.join m x) fun r => ∀ a, r = .ok a → p a := by
  cases x with
  | ok a =>
    intro b hb
    cases hb
    exact h
  | error s =>
    cases s with
    | failed e =>
      intro b hb
      cases hb
    | panicked m => exact h

theorem mapM {f : α → Attempt ε β} {l : List α} {r : α → β → Prop} (h : ∀ a ∈ l, Safe (f a) (r a)) :
    Safe (l.mapM f) (List.Forall₂ r l) := by
  induction l with
  | nil => exact .nil
  | cons a l ih =>
    rw [List.mapM_cons]
    refine bind (h a (.head _)) fun b hb => ?_
    refine bind (ih fun c hc => h c (.tail _ hc)) fun bs hs => ?_
    exact .cons hb hs

theorem forM {f : α → Attempt ε PUnit.{v + 1}} {l : List α} (h : ∀ a ∈ l, Safe (f a) fun _ => True) :
    Safe (l.forM f) fun _ => True := by
  induction l with
  | nil => trivial
  | cons a l ih =>
    exact bind (h a (.head _)) fun _ _ => ih fun b hb => h b (.tail _ hb)

/-- A loop keeps an invariant that may speak of the items behind it. -/
theorem foldlM {f : σ → α → Attempt ε σ} {l : List α} (inv : List α → σ → Prop)
    (step : ∀ pr a ps s, l = pr ++ a :: ps → inv pr s → Safe (f s a) (inv (pr ++ [a]))) {s : σ} (hs : inv [] s) :
    Safe (l.foldlM f s) (inv l) := by
  suffices h : ∀ ps pr s, l = pr ++ ps → inv pr s → Safe (ps.foldlM f s) (inv l) from h l [] s rfl hs
  intro ps
  induction ps with
  | nil =>
    intro pr s hl hs
    rw [List.append_nil] at hl
    exact hl ▸ hs
  | cons a ps ih =>
    intro pr s hl hs
    rw [List.foldlM_cons]
    refine bind (step pr a ps s hl hs) fun t ht => ?_
    exact ih (pr ++ [a]) t (by rw [hl, List.append_assoc]; rfl) ht

end Safe

/-- What `x` returns, if it returns. -/
def Yields (x : Attempt ε α) (post : α → Prop) : Prop := ∀ a, x = .ok a → post a

namespace Yields

variable {x : Attempt ε α} {p p' : α → Prop}

theorem ok {a : α} (h : p a) : Yields (.ok a : Attempt ε α) p := by
  rintro b ⟨⟩
  exact h

theorem error (s : Stop ε) : Yields (.error s : Attempt ε α) p := by
  rintro b ⟨⟩

theorem mono (h : Yields x p) (hp : ∀ a, p a → p' a) : Yields x p' := fun a ha => hp a (h a ha)

theorem bind {f : α → Attempt ε β} {q : β → Prop} (h : Yields x p) (hf : ∀ a, p a → Yields (f a) q) : Yields (x >>= f) q := by
  intro b hb
  obtain ⟨a, ha, hb⟩ := Except.bind_ok hb
  exact hf a (h a ha) b hb

theorem of_safe (h : Safe x p) : Yields x p := fun _ ha => h.returned ha

/-- What is returned is all that is known. -/
theorem self (x : Attempt ε α) : Yields x fun a => x = .ok a := fun _ ha => ha

theorem map {f : α → β} {q : β → Prop} (h : Yields x p) (hf : ∀ a, p a → q (f a)) : Yields (x.map f) q := by
  cases x with
  | ok a => exact .ok (hf a (h a rfl))
  | error s => exact .error s

theorem call (y : Except ε α) : Yields (Attempt.call y) fun a => y = .ok a := by
  cases y with
  | ok a => exact .ok rfl
  | error e => exact .error _

theorem expect {m : String} (o : Option α) : Yields (Attempt.expect m o : Attempt ε α) fun a => o = some a := by
  cases o with
  | some a => exact .ok rfl
  | none => exact .error _

/-- A loop keeps an invariant that may speak of the items behind it. -/
theorem foldlM {f : σ → α → Attempt ε σ} {l : List α} (inv : List α → σ → Prop)
    (step : ∀ pr a ps s, l = pr ++ a :: ps → inv pr s → Yields (f s a) (inv (pr ++ [a]))) {s : σ} (hs : inv [] s) :
    Yields (l.foldlM f s) (inv l) := by
  suffices h : ∀ ps pr s, l = pr ++ ps → inv pr s → Yields (ps.foldlM f s) (inv l) from h l [] s rfl hs
  intro ps
  induction ps with
  | nil =>
    intro pr s hl hs
    rw [List.append_nil] at hl
    exact .ok (hl ▸ hs)
  | cons a ps ih =>
    intro pr s hl hs
    rw [List.foldlM_cons]
    refine bind (step pr a ps s hl hs) fun t ht => ?_
    exact ih (pr ++ [a]) t (by rw [hl, List.append_assoc]; rfl) ht

end Yields

/-- `x` does not panic, and fails only where `P` does not hold. -/
def Delivers (P : Prop) (x : Attempt ε α) (post : α → Prop) : Prop :=
  match x with
  | .ok a => post a
  | .error (.failed _) => ¬ P
  | .error (.panicked _) => False

namespace Delivers

variable {P : Prop} {x : Attempt ε α} {p p' : α → Prop}

theorem ok {a : α} (h : p a) : Delivers P (.ok a : Attempt ε α) p := h

theorem safe (h : Delivers P x p) : Safe x p := by
  cases x with
  | ok a => exact h
  | error s =>
    cases s with
    | failed e => trivial
    | panicked m => exact h

theorem mono (h : Delivers P x p) (hp : ∀ a, p a → p' a) : Delivers P x p' := by
  cases x with
  | ok a => exact hp a h
  | error s =>
    cases s with
    | failed e | panicked m => exact h

theorem delivered (h : Delivers P x p) (hP : P) : ∃ a, x = .ok a ∧ p a := by
  cases x with
  | ok a => exact ⟨a, rfl, h⟩
  | error s =>
    cases s with
    | failed e => exact absurd hP h
    | panicked m => exact h.elim

theorem bind {f : α → Attempt ε β} {q : β → Prop} (h : Delivers P x p) (hf : ∀ a, p a → Delivers P (f a) q) :
    Delivers P (x >>= f) q := by
  cases x with
  | ok a => exact hf a h
  | error s =>
    cases s with
    | failed e | panicked m => exact h

theorem call {y : Except ε α} (h : P → ∃ a, y = .ok a) : Delivers P (Attempt.call y) fun a => y = .ok a := by
  cases y with
  | ok a => exact rfl
  | error e =>
    intro hP
    obtain ⟨a, ha⟩ := h hP
    cases ha

theorem expect {m : String} {o : Option α} {a : α} (h : o = some a) :
    Delivers P (Attempt.expect m o : Attempt ε α) (· = a) := by
  rw [h]
  exact rfl

theorem mapM {f : α → Attempt ε β} {l : List α} {r : α → β → Prop} (h : ∀ a ∈ l, Delivers P (f a) (r a)) :
    Delivers P (l.mapM f) (List.Forall₂ r l) := by
  induction l with
  | nil => exact .nil
  | cons a l ih =>
    rw [List.mapM_cons]
    refine bind (h a (.head _)) fun b hb => ?_
    refine bind (ih fun c hc => h c (.tail _ hc)) fun bs hs => ?_
    exact .cons hb hs

end Delivers

end Attempt

end Lib
