/-
  Monosecret.Lib.Machine — step machines with guarded runs.

  A machine takes an event in a state or refuses it. `Reach ok` is reachability by runs
  every step of which meets `ok`, a test of the event and the state before it; with `any`
  it is plain reachability. An invariant is proved once per event and lifted here. `run`
  takes a concrete list of events.
-/

namespace Lib

universe u v w

structure Machine (σ : Type u) (ε : Type v) where
  init : σ
  step : σ → ε → Option σ

/-- A step that only its guard can refuse. -/
theorem of_guard {α : Type u} {c : Prop} [Decidable c] {a : Option α} {b : α} (h : (if c then a else none) = some b) :
    a = some b := (Option.ite_none_right_eq_some.mp h).2

namespace Machine

variable {σ : Type u} {ε : Type v} (M : Machine σ ε)

/-- No condition on the steps of a run. -/
def any (_ : σ) (_ : ε) : Bool := true

inductive Reach (ok : σ → ε → Bool) : σ → Prop
  | init : Reach ok M.init
  | step {s t : σ} (e : ε) : Reach ok s → ok s e = true → M.step s e = some t → Reach ok t

variable {M} {ok ok' : σ → ε → Bool} {I : σ → Prop}

/-- What holds at the start and is kept by every allowed step holds in every state reached. -/
theorem Reach.inv (h0 : I M.init) (hs : ∀ s e t, I s → ok s e → M.step s e = some t → I t) {s : σ}
    (h : Reach M ok s) : I s := by
  induction h with
  | init => exact h0
  | step e _ ho he ih => exact hs _ e _ ih ho he

theorem Reach.mono (hw : ∀ s e, ok s e → ok' s e) {s : σ} (h : Reach M ok s) : Reach M ok' s := by
  induction h with
  | init => exact .init
  | step e _ ho he ih => exact .step e ih (hw _ _ ho) he

theorem Reach.any {s : σ} (h : Reach M ok s) : Reach M Machine.any s := h.mono fun _ _ _ => rfl

/-- An invariant whose steps may use that the state before is reached. -/
theorem Reach.inv_reach (h0 : I M.init)
    (hs : ∀ s e t, Reach M ok s → I s → ok s e → M.step s e = some t → I t) {s : σ} (h : Reach M ok s) :
    I s := by
  induction h with
  | init => exact h0
  | step e hr ho he ih => exact hs _ e _ hr ih ho he

variable (M) (ok)

/-- The state after a list of allowed events, none when one of them is refused. -/
def run : σ → List ε → Option σ
  | s, [] => some s
  | s, e :: es => if ok s e then (M.step s e).bind fun t => run t es else none

variable {M} {ok}

theorem reach_run {s t : σ} (es : List ε) (h : Reach M ok s) (hr : M.run ok s es = some t) : Reach M ok t := by
  induction es generalizing s with
  | nil =>
    simp only [run, Option.some.injEq] at hr
    exact hr ▸ h
  | cons e es ih =>
    unfold run at hr
    split at hr
    · rename_i ho
      obtain ⟨u, hu, ht⟩ := Option.bind_eq_some_iff.mp hr
      exact ih (.step e h ho hu) ht
    · cases hr

variable (M) (ok)

/-- What a concrete run shows of its last state is shown by a reachable state. -/
theorem reach_of_run {α : Type w} (es : List ε) (f : σ → α) (a : α) (hr : (M.run ok M.init es).map f = some a) :
    ∃ t, Reach M ok t ∧ f t = a := by
  obtain ⟨t, ht, ha⟩ := Option.map_eq_some_iff.mp hr
  exact ⟨t, reach_run es .init ht, ha⟩

end Machine

end Lib
