/-
  Monosecret.Cache.MaxAge — how long a cached value may be served, as it is written
  (`parse_cache_max_age` in `monosecret/src/config.rs`).

  A duration is one or more components, each decimal digits and a unit. The scanner looks at
  bytes: the ones it takes are ASCII, and characters stand for them here. Its steps can
  overflow in three places, and do exactly when the sum is too large
  (`parse_cache_max_age_exact`).
-/

import Monosecret.Cache.Envelope
import Monosecret.Manifest.Selection

namespace Monosecret.Cache

open Lib Manifest

def multiplier : Char → Option UInt64
  | 's' => some 1
  | 'm' => some 60
  | 'h' => some (60 * 60)
  | 'd' => some (24 * 60 * 60)
  | 'w' => some (7 * 24 * 60 * 60)
  | _ => none

def parse_u64 (digits : List Char) : Option UInt64 := (Texts.parse_unsigned (2 ^ 64) digits).map UInt64.ofNat

/-- The two loops over the text: `digits` is what was read since `digits_start`. -/
def scan (value : String) (total : UInt64) (digits : List Char) : List Char → Except String UInt64
  | [] =>
    if digits = [] then .ok total
    else
      match parse_u64 digits with
      | none => .error s!"cache max_age '{value}' is too large"
      | some _ => .error s!"invalid cache max_age '{value}'; every number needs a unit (s, m, h, d, or w)"
  | c :: rest =>
    if c.isDigit then scan value total (digits ++ [c]) rest
    else if digits = [] then
      .error s!"invalid cache max_age '{value}'; expected a duration such as '30m', '8h', or '1d'"
    else
      match parse_u64 digits with
      | none => .error s!"cache max_age '{value}' is too large"
      | some amount =>
        match multiplier c with
        | none => .error s!"invalid cache max_age '{value}'; supported units are s, m, h, d, and w"
        | some multiplier =>
          match (checked_mul amount multiplier).bind (checked_add total) with
          | none => .error s!"cache max_age '{value}' is too large"
          | some total => scan value total [] rest

def parse_cache_max_age (value : String) : Except String UInt64 :=
  let value := trimmed value
  if value = "" then .error "cache max_age must not be empty"
  else
    match scan value 0 [] value.toList with
    | .error error => .error error
    | .ok total => if total = 0 then .error "cache max_age must be greater than zero" else .ok total

/-! ## The grammar -/

inductive TimeUnit where
  | s
  | m
  | h
  | d
  | w

namespace TimeUnit

def symbol : TimeUnit → Char
  | .s => 's'
  | .m => 'm'
  | .h => 'h'
  | .d => 'd'
  | .w => 'w'

def seconds : TimeUnit → Nat
  | .s => 1
  | .m => 60
  | .h => 3600
  | .d => 86400
  | .w => 604800

theorem seconds_pos (u : TimeUnit) : 0 < u.seconds := by cases u <;> decide

theorem symbol_not_digit (u : TimeUnit) : u.symbol.isDigit = false := by cases u <;> rfl

theorem multiplier_symbol (u : TimeUnit) : ∃ m, multiplier u.symbol = some m ∧ m.toNat = u.seconds := by
  cases u <;> exact ⟨_, rfl, rfl⟩

theorem of_multiplier {c : Char} {m : UInt64} (h : multiplier c = some m) : ∃ u : TimeUnit, u.symbol = c := by
  unfold multiplier at h
  split at h
  · exact ⟨.s, rfl⟩
  · exact ⟨.m, rfl⟩
  · exact ⟨.h, rfl⟩
  · exact ⟨.d, rfl⟩
  · exact ⟨.w, rfl⟩
  · cases h

end TimeUnit

structure Component where
  digits : List Char
  nonempty : digits ≠ []
  decimal : ∀ c ∈ digits, c.isDigit = true
  unit : TimeUnit

def Component.text (component : Component) : List Char := component.digits ++ [component.unit.symbol]

def Component.seconds (component : Component) : Nat :=
  Nat.ofDigitChars 10 component.digits 0 * component.unit.seconds

def spelled (components : List Component) : List Char := components.flatMap Component.text

/-- The exact sum, in seconds. -/
def duration (components : List Component) : Nat := (components.map Component.seconds).sum

/-! ## One component -/

variable {value : String} {component : Component} {rest : List Char} {total : UInt64}

theorem parse_u64_digits (component : Component) :
    parse_u64 component.digits =
      ((some (Nat.ofDigitChars 10 component.digits 0)).filter (· < 2 ^ 64)).map UInt64.ofNat := by
  have hp : component.digits.head? ≠ some '+' := fun h =>
    absurd (component.decimal _ (List.mem_of_mem_head? h)) (by decide)
  have ha : component.digits.all Char.isDigit := List.all_eq_true.mpr component.decimal
  simp only [parse_u64, Texts.parse_unsigned, if_neg hp, ha, component.nonempty, ne_eq, not_false_eq_true, and_self,
    if_true]

/-- The parse, the product and the sum succeed together exactly when the sum fits. -/
theorem checked_steps {m : UInt64} (hm : m.toNat = component.unit.seconds) :
    ((parse_u64 component.digits).bind fun a => (checked_mul a m).bind (checked_add total)) =
      if total.toNat + component.seconds < 2 ^ 64 then some (UInt64.ofNat (total.toNat + component.seconds)) else none := by
  have hp := component.unit.seconds_pos
  rw [parse_u64_digits, Component.seconds]
  generalize Nat.ofDigitChars 10 component.digits 0 = n
  by_cases hn : n < 2 ^ 64
  · have ha : (UInt64.ofNat n).toNat = n := UInt64.toNat_ofNat_of_lt' hn
    simp only [Option.filter_some, hn, decide_true, if_true, Option.map_some, Option.bind_some, checked_mul, ha, hm]
    by_cases hl : n * component.unit.seconds < 2 ^ 64
    · have hr : (UInt64.ofNat n * m).toNat = n * component.unit.seconds := by
        rw [UInt64.toNat_mul, ha, hm, Nat.mod_eq_of_lt hl]
      simp only [if_pos hl, Option.bind_some, checked_add, hr]
      by_cases hs : total.toNat + n * component.unit.seconds < 2 ^ 64
      · rw [if_pos hs, if_pos hs]
        congr 1
        apply UInt64.toNat_inj.mp
        rw [UInt64.toNat_add, hr, Nat.mod_eq_of_lt hs, UInt64.toNat_ofNat_of_lt' hs]
      · rw [if_neg hs, if_neg hs]
    · rw [if_neg hl, if_neg (by omega), Option.bind_none]
  · have hl : n ≤ n * component.unit.seconds := Nat.le_mul_of_pos_right n hp
    rw [if_neg (by omega)]
    simp only [Option.filter_some, hn, decide_false, Bool.false_eq_true, if_false, Option.map_none, Option.bind_none]

theorem scan_digits {m : List Char} (h : ∀ c ∈ m, c.isDigit) (d : List Char) :
    scan value total d (m ++ rest) = scan value total (d ++ m) rest := by
  induction m generalizing d with
  | nil => rw [List.nil_append, List.append_nil]
  | cons c m ih =>
    obtain ⟨hc, hm⟩ := List.forall_mem_cons.mp h
    rw [List.cons_append, scan, if_pos hc, ih hm, List.append_assoc, List.singleton_append]

theorem scan_component : scan value total [] (component.text ++ rest) =
    if total.toNat + component.seconds < 2 ^ 64 then scan value (UInt64.ofNat (total.toNat + component.seconds)) [] rest
    else .error s!"cache max_age '{value}' is too large" := by
  obtain ⟨m, hm, hs⟩ := component.unit.multiplier_symbol
  have ht := @checked_steps component total m hs
  rw [Component.text, List.append_assoc, scan_digits component.decimal, List.nil_append, List.singleton_append, scan,
    if_neg (by simp [component.unit.symbol_not_digit]), if_neg component.nonempty]
  cases hd : parse_u64 component.digits with
  | none =>
    rw [hd, Option.bind_none] at ht
    by_cases hf : total.toNat + component.seconds < 2 ^ 64
    · rw [if_pos hf] at ht
      cases ht
    · rw [if_neg hf]
  | some a =>
    rw [hd, Option.bind_some] at ht
    simp only [hm]
    rw [ht]
    by_cases hf : total.toNat + component.seconds < 2 ^ 64
    · rw [if_pos hf, if_pos hf]
    · rw [if_neg hf, if_neg hf]

/-! ## The whole text -/

theorem scan_spelled (components : List Component) (total : UInt64) :
    (total.toNat + duration components < 2 ^ 64 → ∃ s, scan value total [] (spelled components) = .ok s ∧
      s.toNat = total.toNat + duration components) ∧
    (2 ^ 64 ≤ total.toNat + duration components → ∃ e, scan value total [] (spelled components) = .error e) := by
  induction components generalizing total with
  | nil =>
    have hl := total.toNat_lt
    refine ⟨fun _ => ⟨total, rfl, rfl⟩, fun h => ?_⟩
    simp only [duration, List.map_nil, List.sum_nil, Nat.add_zero] at h
    omega
  | cons component components ih =>
    have hd : duration (component :: components) = component.seconds + duration components := rfl
    rw [hd, spelled, List.flatMap_cons, scan_component]
    split
    · rename_i hf
      have hi := ih (UInt64.ofNat (total.toNat + component.seconds))
      rw [UInt64.toNat_ofNat_of_lt' hf, Nat.add_assoc] at hi
      exact hi
    · exact ⟨fun h => by omega, fun _ => ⟨_, rfl⟩⟩

/-- What the scanner accepts is spelled by components. -/
theorem scan_ok {dg text : List Char} {s : UInt64} (hd : ∀ c ∈ dg, c.isDigit)
    (h : scan value total dg text = .ok s) : ∃ cm, spelled cm = dg ++ text := by
  induction text generalizing total dg with
  | nil =>
    rw [scan] at h
    split at h
    · rename_i hn
      exact ⟨[], by rw [hn]; rfl⟩
    · split at h <;> cases h
  | cons c rest ih =>
    rw [scan] at h
    split at h
    · rename_i hc
      have hr : ∀ d ∈ dg ++ [c], d.isDigit := by
        intro d hmm
        rcases List.mem_append.mp hmm with hmm | hmm
        · exact hd d hmm
        · rwa [List.mem_singleton.mp hmm]
      obtain ⟨cm, ht⟩ := ih hr h
      exact ⟨cm, by rw [ht, List.append_assoc, List.singleton_append]⟩
    · split at h
      · cases h
      · rename_i hne
        split at h
        · cases h
        · split at h
          · cases h
          · rename_i m hm
            split at h
            · cases h
            · obtain ⟨u, rfl⟩ := TimeUnit.of_multiplier hm
              obtain ⟨cm, ht⟩ := ih (fun _ hmm => absurd hmm List.not_mem_nil) h
              refine ⟨⟨dg, hne, hd, u⟩ :: cm, ?_⟩
              rw [spelled, List.flatMap_cons, ← spelled, ht, Component.text, List.append_assoc]
              rfl

/-- The grammar: one or more components. -/
structure Grammar (text : String) (components : List Component) : Prop where
  nonempty : components ≠ []
  text : spelled components = text.toList

theorem parse_grammar {components : List Component} (h : Grammar (trimmed value) components) :
    (0 < duration components → duration components < 2 ^ 64 →
      ∃ s, parse_cache_max_age value = .ok s ∧ s.toNat = duration components) ∧
    (duration components = 0 ∨ 2 ^ 64 ≤ duration components → ∃ e, parse_cache_max_age value = .error e) := by
  have hn : trimmed value ≠ "" := by
    intro he
    have ht := h.text
    rw [he] at ht
    cases components with
    | nil => exact h.nonempty rfl
    | cons component components => simp [spelled, Component.text] at ht
  have hz : (0 : UInt64).toNat + duration components = duration components := Nat.zero_add _
  obtain ⟨hf, hl⟩ := @scan_spelled (trimmed value) components 0
  rw [hz, h.text] at hf hl
  rw [parse_cache_max_age, if_neg hn]
  refine ⟨fun hp hlt => ?_, ?_⟩
  · obtain ⟨s, hs, hss⟩ := hf hlt
    refine ⟨s, ?_, hss⟩
    rw [hs]
    dsimp only
    rw [if_neg]
    rintro rfl
    exact absurd hss (Nat.ne_of_lt hp)
  · by_cases hlt : duration components < 2 ^ 64
    · intro hb
      obtain ⟨s, hs, hss⟩ := hf hlt
      rw [hs]
      dsimp only
      rw [if_pos (UInt64.toNat_inj.mp (hss.trans (hb.resolve_right (Nat.not_le.mpr hlt)) : s.toNat = (0 : UInt64).toNat))]
      exact ⟨_, rfl⟩
    · intro _
      obtain ⟨e, hs⟩ := hl (Nat.not_lt.mp hlt)
      rw [hs]
      exact ⟨e, rfl⟩

theorem grammar_of_ok {s : UInt64} (h : parse_cache_max_age value = .ok s) :
    ∃ components, Grammar (trimmed value) components := by
  rw [parse_cache_max_age] at h
  split at h
  · cases h
  · rename_i hn
    split at h
    · cases h
    · rename_i total hs
      have hnn : ∀ c ∈ ([] : List Char), c.isDigit := fun _ hm => absurd hm List.not_mem_nil
      obtain ⟨components, ht⟩ := @scan_ok (trimmed value) 0 [] (trimmed value).toList total hnn hs
      rw [List.nil_append] at ht
      refine ⟨components, ?_, ht⟩
      rintro rfl
      exact hn (String.toList_eq_nil_iff.mp ht.symm)

/-- A duration is accepted exactly when, after trimming, it is in the grammar with a sum that
    is not zero and fits in 64 bits, and then as that sum. -/
theorem parse_cache_max_age_exact (value : String) :
    (∀ secs, parse_cache_max_age value = .ok secs ↔
      ∃ components, Grammar (trimmed value) components ∧ duration components = secs.toNat ∧ 0 < secs.toNat) ∧
    ((∃ e, parse_cache_max_age value = .error e) ↔
      (¬ ∃ components, Grammar (trimmed value) components) ∨
        ∃ components, Grammar (trimmed value) components ∧ (2 ^ 64 ≤ duration components ∨ duration components = 0)) := by
  refine ⟨fun secs => ⟨fun h => ?_, fun ⟨components, hg, hs, hp⟩ => ?_⟩, fun ⟨e, h⟩ => ?_, fun h => ?_⟩
  · obtain ⟨components, hg⟩ := grammar_of_ok h
    obtain ⟨ho, hr⟩ := parse_grammar hg
    have hp : 0 < duration components ∧ duration components < 2 ^ 64 := by
      by_contra hb
      obtain ⟨e, he⟩ := hr (by omega)
      rw [h] at he
      cases he
    obtain ⟨s', hc, hs⟩ := ho hp.1 hp.2
    obtain rfl := Except.ok.inj (h.symm.trans hc)
    exact ⟨components, hg, hs.symm, hs ▸ hp.1⟩
  · obtain ⟨s', hc, hs'⟩ := (parse_grammar hg).1 (hs ▸ hp) (hs ▸ secs.toNat_lt)
    rw [hc, UInt64.toNat_inj.mp (hs'.trans hs)]
  · by_cases hg : ∃ components, Grammar (trimmed value) components
    · obtain ⟨components, hg⟩ := hg
      refine .inr ⟨components, hg, ?_⟩
      by_contra hd
      obtain ⟨secs, hc, -⟩ := (parse_grammar hg).1 (by omega) (by omega)
      rw [h] at hc
      cases hc
    · exact .inl hg
  · rcases h with hn | ⟨components, hg, hb⟩
    · cases hpr : parse_cache_max_age value with
      | error e => exact ⟨e, rfl⟩
      | ok secs => exact absurd (grammar_of_ok hpr) hn
    · exact (parse_grammar hg).2 hb.symm

example : parse_cache_max_age " 1h30m\n" = .ok 5400 := by decide +kernel

end Monosecret.Cache
