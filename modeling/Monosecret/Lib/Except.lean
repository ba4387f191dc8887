/-
  Monosecret.Lib.Except — taking a successful fallible computation apart.
-/

import Mathlib.Data.List.Forall2

namespace Lib

universe u v

variable {ε : Type u} {α β : Type v}
variable {x : Except ε α} {f : α → Except ε β}

theorem Except.bind_ok {b : β} (h : x >>= f = .ok b) : ∃ a, x = .ok a ∧ f a = .ok b := by
  cases x with
  | error e => cases h
  | ok a => exact ⟨a, rfl, h⟩

/-- A step that only checks. -/
theorem Except.bind_unit_ok {x : Except ε PUnit.{v + 1}} {f : PUnit.{v + 1} → Except ε β} {b : β} (h : x >>= f = .ok b) :
    x = .ok ⟨⟩ ∧ f ⟨⟩ = .ok b := by
  obtain ⟨⟨⟩, hx, hf⟩ := Except.bind_ok h
  exact ⟨hx, hf⟩

theorem Except.rest_ok {x : Except ε PUnit.{v + 1}} {f : PUnit.{v + 1} → Except ε β} {b : β} (h : x >>= f = .ok b) :
    f ⟨⟩ = .ok b := (bind_unit_ok h).2

/-- Two checks go through when both do. -/
theorem Except.bind_unit_eq_ok {x y : Except ε PUnit.{v + 1}} : (do x; y) = .ok ⟨⟩ ↔ x = .ok ⟨⟩ ∧ y = .ok ⟨⟩ := by
  constructor
  · exact Except.bind_unit_ok
  · rintro ⟨hx, hy⟩
    rw [hx]
    exact hy

/-- A check that threw nothing did not fail. -/
theorem Except.check_ok {c : Prop} [Decidable c] {e : ε} (h : (if c then .error e else .ok ⟨⟩ : Except ε PUnit.{v + 1}) = .ok ⟨⟩) :
    ¬ c := by
  intro hc
  rw [if_pos hc] at h
  cases h

theorem Except.map_bind {γ : Type v} (x : Except ε α) (f : α → Except ε β) (g : β → γ) :
    (x >>= f).map g = x >>= fun a => (f a).map g := by
  cases x <;> rfl

theorem Except.map_eq_ok {f : α → β} {b : β} : x.map f = .ok b ↔ ∃ a, x = .ok a ∧ f a = b := by
  cases x with
  | error e | ok a => simp [Except.map]

theorem Except.ok_of_isSome (h : x.toOption.isSome) : ∃ a, x = .ok a := by
  cases x with
  | ok a => exact ⟨a, rfl⟩
  | error e => cases h

theorem Except.toOption_eq_some_iff {a : α} : x.toOption = some a ↔ x = .ok a := by
  cases x with
  | error e => exact ⟨nofun, nofun⟩
  | ok b => exact ⟨fun h => congrArg Except.ok (Option.some.inj h), fun h => congrArg some (Except.ok.inj h)⟩

theorem Except.error_of_map {f : α → β} {e : ε} (h : x.map f = .error e) : x = .error e := by
  cases x with
  | error e' => cases h; rfl
  | ok a => cases h

variable {l : List α} {m : List β}

/-- Each element was mapped, in order. -/
theorem Except.mapM_ok (h : l.mapM f = .ok m) : List.Forall₂ (fun a b => f a = .ok b) l m := by
  induction l generalizing m with
  | nil =>
    rw [List.mapM_nil] at h
    cases h
    exact .nil
  | cons a l ih =>
    rw [List.mapM_cons] at h
    obtain ⟨b, hb, h⟩ := Except.bind_ok h
    obtain ⟨bs, hs, h⟩ := Except.bind_ok h
    cases h
    exact .cons hb (ih hs)

theorem Except.mapM_congr {g : α → Except ε β} (h : ∀ a ∈ l, f a = g a) : l.mapM f = l.mapM g := by
  induction l with
  | nil => rfl
  | cons a l ih =>
    rw [List.mapM_cons, List.mapM_cons, h a (.head _), ih fun b hb => h b (.tail _ hb)]

/-- Each result is some element's. -/
theorem Except.mapM_ok_mem (h : l.mapM f = .ok m) {b : β} (hb : b ∈ m) : ∃ a ∈ l, f a = .ok b := by
  have hl := Except.mapM_ok h
  clear h
  induction hl with
  | nil => cases hb
  | cons hab _ ih =>
    rcases List.mem_cons.mp hb with rfl | hb
    · exact ⟨_, List.mem_cons_self, hab⟩
    · obtain ⟨a, ha, hf⟩ := ih hb
      exact ⟨a, List.mem_cons_of_mem _ ha, hf⟩

/-- What each result still shows of its element gives the elements back. -/
theorem Except.mapM_ok_map {g : β → α} (hg : ∀ a b, f a = .ok b → g b = a) (h : l.mapM f = .ok m) : m.map g = l := by
  have ha := Except.mapM_ok h
  clear h
  induction ha with
  | nil => rfl
  | cons hb _ ih => rw [List.map_cons, hg _ _ hb, ih]

theorem Except.mapM_ok_of (h : ∀ a ∈ l, ∃ b, f a = .ok b) : ∃ m, l.mapM f = .ok m := by
  induction l with
  | nil => exact ⟨[], rfl⟩
  | cons a l ih =>
    obtain ⟨b, hb⟩ := h a (.head _)
    obtain ⟨bs, hs⟩ := ih fun c hc => h c (.tail _ hc)
    exact ⟨b :: bs, by rw [List.mapM_cons, hb, hs]; rfl⟩

theorem Except.mapM_mem_ok (h : l.mapM f = .ok m) {a : α} (ha : a ∈ l) : ∃ b ∈ m, f a = .ok b := by
  have hl := Except.mapM_ok h
  clear h
  induction hl with
  | nil => cases ha
  | cons hab _ ih =>
    rcases List.mem_cons.mp ha with rfl | ha
    · exact ⟨_, List.mem_cons_self, hab⟩
    · obtain ⟨b, hb, hf⟩ := ih ha
      exact ⟨b, List.mem_cons_of_mem _ hb, hf⟩

/-- Results that keep a key of their elements. -/
theorem Except.mapM_ok_keys {κ : Type v} {key : α → κ} {s : β → κ} (hf : ∀ a b, f a = .ok b → s b = key a)
    (h : l.mapM f = .ok m) : m.map s = l.map key := by
  have ha := Except.mapM_ok h
  clear h
  induction ha with
  | nil => rfl
  | cons hb _ ih => rw [List.map_cons, List.map_cons, hf _ _ hb, ih]

theorem Except.forM_congr {f g : α → Except ε PUnit.{v + 1}} (h : ∀ a ∈ l, f a = g a) : l.forM f = l.forM g := by
  induction l with
  | nil => rfl
  | cons a l ih =>
    show (do f a; l.forM f) = (do g a; l.forM g)
    rw [h a (.head _), ih fun b hb => h b (.tail _ hb)]

/-- A loop of checks that went through. -/
theorem Except.forM_ok_iff {f : α → Except ε PUnit.{v + 1}} : l.forM f = .ok ⟨⟩ ↔ ∀ a ∈ l, f a = .ok ⟨⟩ := by
  induction l with
  | nil => exact iff_of_true rfl nofun
  | cons a l ih =>
    have hc : (a :: l).forM f = f a >>= fun _ => l.forM f := rfl
    rw [hc, List.forall_mem_cons, ← ih]
    refine ⟨Except.bind_unit_ok, ?_⟩
    rintro ⟨ha, hl⟩
    rw [ha]
    exact hl

/-- A loop of checks that failed did so at some element. -/
theorem Except.forM_error {f : α → Except ε PUnit.{v + 1}} {e : ε} (h : l.forM f = .error e) :
    ∃ a ∈ l, f a = .error e := by
  induction l with
  | nil => cases h
  | cons a l ih =>
    have hc : (a :: l).forM f = f a >>= fun _ => l.forM f := rfl
    rw [hc] at h
    cases ha : f a with
    | error e' =>
      rw [ha] at h
      cases h
      exact ⟨a, List.mem_cons_self, ha⟩
    | ok u =>
      rw [ha] at h
      obtain ⟨b, hb, he⟩ := ih h
      exact ⟨b, List.mem_cons_of_mem _ hb, he⟩

variable {ε' : Type u}

theorem Except.mapError_ok {f : ε → ε'} {a : α} : x.mapError f = .ok a ↔ x = .ok a := by
  cases x with
  | error e => exact ⟨nofun, nofun⟩
  | ok b => exact ⟨fun h => by cases h; rfl, fun h => by cases h; rfl⟩

theorem Except.mapError_error {f : ε → ε'} {e : ε'} : x.mapError f = .error e ↔ ∃ e', x = .error e' ∧ f e' = e := by
  cases x with
  | error e' => exact ⟨fun h => by cases h; exact ⟨e', rfl, rfl⟩, fun ⟨_, h, he⟩ => by cases h; rw [← he]; rfl⟩
  | ok b => exact ⟨nofun, nofun⟩

theorem Except.mapError_bind (f : ε → ε') (x : Except ε α) (g : α → Except ε β) :
    (x >>= g).mapError f = x.mapError f >>= fun a => (g a).mapError f := by
  cases x <;> rfl

theorem Except.mapError_map (f : ε → ε') (x : Except ε α) (g : α → β) :
    (x.map g).mapError f = (x.mapError f).map g := by
  cases x <;> rfl

/-- A check of a value that may be absent. -/
theorem Except.option_forM_ok {f : α → Except ε PUnit.{v + 1}} {o : Option α} (h : o.forM f = .ok ⟨⟩) {a : α}
    (ha : o = some a) : f a = .ok ⟨⟩ := by
  subst ha
  exact h

/-- Two computations agree when they succeed with the same results. -/
theorem Except.toOption_eq {y : Except ε' α} : x.toOption = y.toOption ↔ ∀ a, x = .ok a ↔ y = .ok a := by
  constructor
  · intro h a
    cases x <;> cases y <;> simp_all [Except.toOption]
  · intro h
    cases x with
    | ok a => rw [(h a).mp rfl]; rfl
    | error e =>
      cases y with
      | ok a => cases (h a).mpr rfl
      | error e' => rfl

end Lib
