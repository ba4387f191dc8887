/-
  Monosecret.Lib.Placeholder — filling in placeholders, one after the other or all at once.

  `replace` fills in one placeholder everywhere, from left to right; `replace_all` does so for
  each of a list, one pass over the text after the other, so that a pass reads what the passes
  before it inserted. `expand` goes over the template once. A text is `Clean` for a token when
  no text around it makes a part of it a part of the token; what passes insert being clean for
  the tokens of the later passes, the two are the same (`replace_all_eq_expand`), and no pass
  finds its token where the template has none (`count_replace`).
-/

import Mathlib.Data.List.Infix
import Mathlib.Data.List.Induction

namespace Lib.Placeholder

open List (append_assoc append_eq_append_iff append_nil cons_append cons_ne_nil length_append length_cons
  length_nil length_pos_iff mem_cons_self mem_inits mem_of_find?_eq_some mem_tails nil_append prefix_append
  singleton_append suffix_append)

universe u

variable {α : Type u}

/-! ## Clean texts -/

/-- The text neither has the token in it nor is a part of it, nor ends with a beginning of it, nor begins with an
end of it. -/
def Clean (token text : List α) : Prop :=
  ¬token <:+: text ∧ ¬text <:+: token ∧ (∀ s ∈ token.inits, s ≠ [] → ¬s <:+ text) ∧
    ∀ s ∈ token.tails, s ≠ [] → ¬s <+: text

instance [DecidableEq α] (token text : List α) : Decidable (Clean token text) := by
  unfold Clean
  infer_instance

variable {text : List α}

/-- A token in a text does not overlap a clean part of it. -/
theorem Clean.apart {token : List α} (h : Clean token text) {a b u v : List α}
    (he : a ++ (text ++ b) = u ++ (token ++ v)) :
    u.length + token.length ≤ a.length ∨ a.length + text.length ≤ u.length := by
  obtain ⟨hi, hp, hen, hb⟩ := h
  rcases append_eq_append_iff.mp he with ⟨m, rfl, hm⟩ | ⟨m, rfl, hm⟩
  · right
    rcases append_eq_append_iff.mp hm with ⟨n, rfl, -⟩ | ⟨n, rfl, hn⟩
    · simp only [length_append]
      omega
    · rcases append_eq_append_iff.mp hn with ⟨w, rfl, -⟩ | ⟨w, rfl, -⟩
      · exact absurd ⟨m, w, by rw [append_assoc]⟩ hi
      · by_cases hl : n = []
        · simp [hl]
        · exact absurd (suffix_append m n) (hen n ((mem_inits _ _).mpr (prefix_append n w)) hl)
  · left
    rcases append_eq_append_iff.mp hm with ⟨n, rfl, -⟩ | ⟨n, rfl, hn⟩
    · simp only [length_append]
      omega
    · rcases append_eq_append_iff.mp hn with ⟨w, rfl, -⟩ | ⟨w, rfl, -⟩
      · exact absurd ⟨m, w, by rw [append_assoc]⟩ hp
      · by_cases hl : n = []
        · simp [hl]
        · exact absurd (prefix_append n w) (hb n ((mem_tails _ _).mpr (suffix_append m n)) hl)

/-- No token starts in a clean text. -/
theorem Clean.no_start {token x y b : List α} (h : Clean token (x ++ y)) (hy : y ≠ []) : ¬token <+: y ++ b := by
  rintro ⟨v, hv⟩
  have he : [] ++ ((x ++ y) ++ b) = x ++ (token ++ v) := by rw [hv, nil_append, append_assoc]
  have hn : 0 < y.length := length_pos_iff.mpr hy
  rcases h.apart he with hl | hr
  · have ht : token = [] := List.eq_nil_of_length_eq_zero (by simp only [length_nil] at hl; omega)
    exact h.1 (ht ▸ List.nil_infix)
  · simp only [length_append, length_nil] at hr
    omega

/-- A token before a clean text ends before it. -/
theorem Clean.prefix_of_append {token a b : List α} (h : Clean token text) (ha : a ≠ [])
    (hp : token <+: a ++ (text ++ b)) : token <+: a := by
  obtain ⟨v, hv⟩ := hp
  have hn : 0 < a.length := length_pos_iff.mpr ha
  have he : a ++ (text ++ b) = [] ++ (token ++ v) := by rw [nil_append, hv]
  rcases h.apart he with hl | hr
  · rw [length_nil, Nat.zero_add] at hl
    exact List.prefix_of_prefix_length_le ⟨v, hv⟩ (prefix_append a _) hl
  · rw [length_nil] at hr
    omega

/-! ## One placeholder -/

variable [DecidableEq α]

def replace_from (token value : List α) : Nat → List α → List α
  | _, [] => []
  | skip + 1, _ :: rest => replace_from token value skip rest
  | 0, c :: rest =>
    if token <+: c :: rest then value ++ replace_from token value (token.length - 1) rest
    else c :: replace_from token value 0 rest

/-- `str::replace`. -/
def replace (token value text : List α) : List α := replace_from token value 0 text

variable {token value : List α}

theorem replace_skip (before rest : List α) :
    replace_from token value before.length (before ++ rest) = replace token value rest := by
  induction before with
  | nil => rfl
  | cons c before ih => exact ih

theorem replace_hit (ht : token ≠ []) (rest : List α) :
    replace token value (token ++ rest) = value ++ replace token value rest := by
  cases token with
  | nil => exact absurd rfl ht
  | cons c token =>
    have hp : c :: token <+: c :: (token ++ rest) := prefix_append (c :: token) rest
    rw [replace, cons_append, replace_from, if_pos hp, length_cons, Nat.add_sub_cancel, replace_skip]

variable {rest : List α}

theorem replace_miss {c : α} (h : ¬token <+: c :: rest) :
    replace token value (c :: rest) = c :: replace token value rest := by
  rw [replace, replace_from, if_neg h, replace]

@[simp] theorem replace_nil : replace token value [] = [] := rfl

/-- A text is empty, begins with the token, or does not. -/
theorem token_induct {token : List α} (ht : token ≠ []) {motive : List α → Prop} (nil : motive [])
    (hi : ∀ rest, motive rest → motive (token ++ rest))
    (miss : ∀ c rest, ¬token <+: c :: rest → motive rest → motive (c :: rest)) (text : List α) : motive text := by
  induction hn : text.length using Nat.strong_induction_on generalizing text with
  | _ n ih =>
    cases text with
    | nil => exact nil
    | cons c rest =>
      by_cases hp : token <+: c :: rest
      · obtain ⟨a, ha⟩ := hp
        have hl := congrArg List.length ha
        have hs : 0 < token.length := length_pos_iff.mpr ht
        rw [length_append] at hl
        exact ha ▸ hi a (ih a.length (by omega) a rfl)
      · exact miss c rest hp (ih rest.length (by rw [← hn, length_cons]; omega) rest rfl)

/-- A pass leaves a clean text as it is, wherever it stands. -/
theorem replace_clean (h : Clean token text) (rest : List α) :
    replace token value (text ++ rest) = text ++ replace token value rest := by
  have hg : ∀ x y, text = x ++ y → replace token value (y ++ rest) = y ++ replace token value rest := by
    intro x y
    induction y generalizing x with
    | nil => exact fun _ => rfl
    | cons c y ih =>
      intro he
      have hm : ¬token <+: c :: (y ++ rest) := (he ▸ h).no_start (cons_ne_nil c y)
      rw [cons_append, replace_miss hm, ih (x ++ [c]) (by rw [he, append_assoc, singleton_append])]
      rfl
  exact hg [] text rfl

theorem replace_around (ht : token ≠ []) (h : Clean token text) (before rest : List α) :
    replace token value (before ++ (text ++ rest)) = replace token value before ++ (text ++ replace token value rest) := by
  induction before using token_induct ht with
  | nil => exact replace_clean h rest
  | hi before ih => rw [append_assoc, replace_hit ht, replace_hit ht, ih, append_assoc]
  | miss c before hm ih =>
    have hm' : ¬token <+: c :: (before ++ (text ++ rest)) := fun hp =>
      hm (h.prefix_of_append (a := c :: before) (cons_ne_nil c before) hp)
    rw [cons_append, replace_miss hm', replace_miss hm, ih]
    rfl

/-- After a pass that inserts a text clean for another token, that token stands only where it stood. -/
theorem prefix_of_replace {other : List α} (ht : token ≠ []) (hv : Clean other value) (text : List α) {a : List α}
    (ha : a ≠ []) (h : other <+: a ++ replace token value text) : other <+: a ++ text := by
  induction text using token_induct ht generalizing a with
  | nil => exact h
  | hi rest ih =>
    rw [replace_hit ht] at h
    exact (hv.prefix_of_append ha h).trans (prefix_append a _)
  | miss c rest hm ih =>
    rw [replace_miss hm, ← singleton_append, ← append_assoc] at h
    have hr := ih (List.append_ne_nil_of_left_ne_nil ha _) h
    rwa [append_assoc, singleton_append] at hr

/-- A text without the token. -/
theorem replace_absent (h : ¬token <:+: text) : replace token value text = text := by
  induction text with
  | nil => rfl
  | cons c rest ih =>
    have hm : ¬token <+: c :: rest := fun hp => h hp.isInfix
    rw [replace_miss hm, ih fun hi => h (hi.trans (List.suffix_cons c rest).isInfix)]

omit [DecidableEq α] in
/-- A symbol that is not in the token keeps what stands before it from what stands after it. -/
theorem prefix_of_apart {s : α} (hs : s ∉ token) {before : List α} (h : token <+: before ++ s :: rest) :
    token <+: before := by
  have hb : before ++ [s] <+: before ++ s :: rest := ⟨rest, by rw [append_assoc, singleton_append]⟩
  have hm : s ∈ before ++ [s] := List.mem_append_right _ (.head _)
  rcases List.prefix_or_prefix_of_prefix h hb with hp | hp
  · exact (List.prefix_concat_iff.mp hp).resolve_left fun he => hs (he ▸ hm)
  · exact absurd (hp.subset hm) hs

theorem replace_apart (ht : token ≠ []) {s : α} (hs : s ∉ token) (before rest : List α) :
    replace token value (before ++ s :: rest) = replace token value before ++ s :: replace token value rest := by
  induction before using token_induct ht with
  | nil => exact replace_miss fun hp => ht (List.prefix_nil.mp (prefix_of_apart hs hp))
  | hi before ih =>
    rw [append_assoc, replace_hit ht, replace_hit ht, ih, append_assoc]
  | miss c before hm ih =>
    have hm' : ¬token <+: c :: (before ++ s :: rest) := fun hp => hm (prefix_of_apart hs hp)
    rw [cons_append, replace_miss hm', replace_miss hm, ih]
    rfl

/-- The first place of the token, when it does not stand in what is before it together with a part of it. -/
theorem replace_first (ht : token ≠ []) {before : List α} (h : ∀ x ∈ before.tails, x ≠ [] → ¬token <+: x ++ token) (rest : List α) :
    replace token value (before ++ (token ++ rest)) = before ++ (value ++ replace token value rest) := by
  induction before with
  | nil => exact replace_hit ht rest
  | cons c before ih =>
    have hm : ¬token <+: c :: (before ++ (token ++ rest)) := by
      intro hp
      have hl : token <+: c :: (before ++ token) := by
        refine List.prefix_of_prefix_length_le hp ?_ (by simp only [length_cons, length_append]; omega)
        exact ⟨rest, by rw [cons_append, append_assoc]⟩
      exact h (c :: before) ((mem_tails _ _).mpr List.suffix_rfl) (List.cons_ne_nil c before) hl
    rw [cons_append, replace_miss hm, ih fun x hx => h x ((mem_tails _ _).mpr
      (((mem_tails _ _).mp hx).trans (List.suffix_cons c before)))]
    rfl

/-! ## Many placeholders -/

/-- Each placeholder and what fills it in. -/
abbrev Substs (α : Type u) := List (List α × List α)

/-- One pass after the other. -/
def replace_all (substs : Substs α) (text : List α) : List α :=
  substs.foldl (fun text s => replace s.1 s.2 text) text

def first_match (substs : Substs α) (text : List α) : Option (List α × List α) :=
  substs.find? fun s => decide (s.1 <+: text)

def expand_from (substs : Substs α) : Nat → List α → List α
  | _, [] => []
  | skip + 1, _ :: rest => expand_from substs skip rest
  | 0, c :: rest =>
    match first_match substs (c :: rest) with
    | some s => s.2 ++ expand_from substs (s.1.length - 1) rest
    | none => c :: expand_from substs 0 rest

/-- All placeholders in one pass over the template. -/
def expand (substs : Substs α) (text : List α) : List α := expand_from substs 0 text

variable {substs : Substs α}

theorem expand_skip (before rest : List α) : expand_from substs before.length (before ++ rest) = expand substs rest := by
  induction before with
  | nil => rfl
  | cons c before ih => exact ih

theorem expand_hit {s : List α × List α} (hs : s.1 ≠ []) (h : first_match substs (s.1 ++ rest) = some s) :
    expand substs (s.1 ++ rest) = s.2 ++ expand substs rest := by
  obtain ⟨token, value⟩ := s
  cases token with
  | nil => exact absurd rfl hs
  | cons c token =>
    simp only [cons_append] at h ⊢
    rw [expand, expand_from, h]
    simp only [length_cons, Nat.add_sub_cancel, expand_skip]

theorem expand_miss {c : α} (h : first_match substs (c :: rest) = none) :
    expand substs (c :: rest) = c :: expand substs rest := by
  rw [expand, expand_from, h]
  rfl

theorem expand_nil_substs (text : List α) : expand [] text = text := by
  induction text with
  | nil => rfl
  | cons c rest ih => rw [expand_miss rfl, ih]

theorem first_match_none : first_match substs text = none ↔ ∀ s ∈ substs, ¬s.1 <+: text := by
  simp [first_match, List.find?_eq_none]

theorem prefix_of_first_match {s : List α × List α} (h : first_match substs text = some s) : s.1 <+: text := by
  have hp := List.find?_some h
  exact of_decide_eq_true hp

theorem first_match_cons_of_neg (h : ¬token <+: text) :
    first_match ((token, value) :: substs) text = first_match substs text := by
  rw [first_match, List.find?_cons, decide_eq_false h]
  rfl

/-- A text is empty, begins with a placeholder, or with none. -/
theorem substs_induct (hne : ∀ s ∈ substs, s.1 ≠ []) {motive : List α → Prop} (nil : motive [])
    (hi : ∀ s rest, first_match substs (s.1 ++ rest) = some s → motive rest → motive (s.1 ++ rest))
    (miss : ∀ c rest, first_match substs (c :: rest) = none → motive rest → motive (c :: rest)) (text : List α) :
    motive text := by
  induction hn : text.length using Nat.strong_induction_on generalizing text with
  | _ n ih =>
    cases text with
    | nil => exact nil
    | cons c rest =>
      cases hm : first_match substs (c :: rest) with
      | none => exact miss c rest hm (ih rest.length (by rw [← hn, length_cons]; omega) rest rfl)
      | some s =>
        obtain ⟨a, ha⟩ := prefix_of_first_match hm
        have hl := congrArg List.length ha
        have hp : 0 < s.1.length := length_pos_iff.mpr (hne s (mem_of_find?_eq_some hm))
        rw [length_append] at hl
        rw [← ha] at hm ⊢
        exact hi s a hm (ih a.length (by omega) a rfl)

theorem expand_clean (h : ∀ s ∈ substs, Clean s.1 text) (rest : List α) :
    expand substs (text ++ rest) = text ++ expand substs rest := by
  have hg : ∀ x y, text = x ++ y → expand substs (y ++ rest) = y ++ expand substs rest := by
    intro x y
    induction y generalizing x with
    | nil => exact fun _ => rfl
    | cons c y ih =>
      intro he
      have hm : first_match substs (c :: (y ++ rest)) = none :=
        first_match_none.mpr fun s hs => (he ▸ h s hs).no_start (cons_ne_nil c y)
      rw [cons_append, expand_miss hm, ih (x ++ [c]) (by rw [he, append_assoc, singleton_append])]
      rfl
  exact hg [] text rfl

/-- A pass may be taken into the one that fills in the others, if what it inserts is clean for these. -/
theorem expand_replace (ht : token ≠ []) (hn : ∀ s ∈ substs, s.1 ≠ []) (hv : ∀ s ∈ substs, Clean s.1 value)
    (hs : ∀ s ∈ substs, Clean token s.1) (text : List α) :
    expand substs (replace token value text) = expand ((token, value) :: substs) text := by
  have hn' : ∀ s ∈ (token, value) :: substs, s.1 ≠ [] := List.forall_mem_cons.mpr ⟨ht, hn⟩
  induction text using substs_induct hn' with
  | nil => rfl
  | hi s rest hm ih =>
    rw [expand_hit (hn' s (mem_of_find?_eq_some hm)) hm]
    by_cases hp : token <+: s.1 ++ rest
    · have hf : first_match ((token, value) :: substs) (s.1 ++ rest) = some (token, value) := by
        rw [first_match, List.find?_cons, decide_eq_true hp]
      obtain rfl : s = (token, value) := Option.some.inj (hm.symm.trans hf)
      rw [replace_hit ht, expand_clean hv, ih]
    · have ho : first_match substs (s.1 ++ rest) = some s := by rw [← hm, first_match_cons_of_neg hp]
      have hmm := mem_of_find?_eq_some ho
      have ha : first_match substs (s.1 ++ replace token value rest) = some s := by
        obtain ⟨-, before, af, hsp, hb⟩ := List.find?_eq_some_iff_append.mp ho
        refine List.find?_eq_some_iff_append.mpr ⟨decide_eq_true (prefix_append _ _), before, af, hsp, ?_⟩
        intro s' hs'
        have hno : ¬s'.1 <+: s.1 ++ rest := by simpa using hb s' hs'
        have hm' : s' ∈ substs := hsp ▸ List.mem_append_left _ hs'
        simpa using fun hp' => hno (prefix_of_replace ht (hv s' hm') rest (hn s hmm) hp')
      rw [replace_clean (hs s hmm), expand_hit (hn s hmm) ha, ih]
  | miss c rest hm ih =>
    have hnn := first_match_none.mp hm
    have hms : ¬token <+: c :: rest := hnn (token, value) (.head _)
    have ho : first_match substs (c :: replace token value rest) = none := by
      refine first_match_none.mpr fun s hs' hp => ?_
      have hc := prefix_of_replace (a := [c]) ht (hv s hs') rest (cons_ne_nil c []) hp
      exact hnn s (.tail _ hs') hc
    rw [replace_miss hms, expand_miss ho, expand_miss hm, ih]

/-- What a pass inserts is clean for the tokens of the later passes, and so are the tokens it leaves. -/
def Passes (substs : Substs α) : Prop :=
  (∀ s ∈ substs, s.1 ≠ []) ∧ substs.Pairwise fun s s' => Clean s'.1 s.2 ∧ Clean s.1 s'.1

theorem replace_all_eq_expand (h : Passes substs) (text : List α) : replace_all substs text = expand substs text := by
  induction substs generalizing text with
  | nil => exact (expand_nil_substs text).symm
  | cons s substs ih =>
    obtain ⟨hn, hp⟩ := h
    obtain ⟨ht, hn⟩ := List.forall_mem_cons.mp hn
    obtain ⟨hs, hp⟩ := List.pairwise_cons.mp hp
    calc replace_all (s :: substs) text = replace_all substs (replace s.1 s.2 text) := rfl
      _ = expand substs (replace s.1 s.2 text) := ih ⟨hn, hp⟩ _
      _ = expand (s :: substs) text := expand_replace ht hn (fun s' hs' => (hs s' hs').1) (fun s' hs' => (hs s' hs').2) text

/-! ## What a pass finds -/

/-- The places where the token stands. -/
def count (token text : List α) : Nat := text.tails.countP fun tail => decide (token <+: tail)

theorem count_nil (ht : token ≠ []) : count token [] = 0 := by
  have hn : ¬token <+: [] := fun hp => ht (List.prefix_nil.mp hp)
  simp [count, hn]

theorem count_cons (c : α) (rest : List α) :
    count token (c :: rest) = (if token <+: c :: rest then 1 else 0) + count token rest := by
  rw [count, List.tails_cons, List.countP_cons, Nat.add_comm, count]
  simp only [decide_eq_true_eq]

theorem count_clean (h : Clean token text) (rest : List α) : count token (text ++ rest) = count token rest := by
  have hg : ∀ x y, text = x ++ y → count token (y ++ rest) = count token rest := by
    intro x y
    induction y generalizing x with
    | nil => exact fun _ => rfl
    | cons c y ih =>
      intro he
      have hm : ¬token <+: c :: (y ++ rest) := (he ▸ h).no_start (cons_ne_nil c y)
      rw [cons_append, count_cons, if_neg hm, Nat.zero_add]
      exact ih (x ++ [c]) (by rw [he, append_assoc, singleton_append])
  exact hg [] text rfl

theorem count_append_le (ht : token ≠ []) (x y : List α) : count token x + count token y ≤ count token (x ++ y) := by
  induction x with
  | nil => rw [count_nil ht, Nat.zero_add, nil_append]
  | cons c x ih =>
    have hm : token <+: c :: x → token <+: c :: (x ++ y) := fun hp => hp.trans (prefix_append (c :: x) y)
    rw [cons_append, count_cons, count_cons]
    split_ifs with hx hy
    · omega
    · exact absurd (hm hx) hy
    · omega
    · omega

theorem count_pos (h : token <:+: text) : 0 < count token text := by
  obtain ⟨x, y, rfl⟩ := h
  refine List.countP_pos_iff.mpr ⟨token ++ y, ?_, decide_eq_true (prefix_append token y)⟩
  rw [append_assoc]
  exact (mem_tails _ _).mpr (suffix_append x _)

theorem two_le_count (ht : token ≠ []) {a b : List α} (h : token <:+: a ++ (text ++ b)) (hr : token <:+: rest) :
    2 ≤ count token (a ++ (text ++ (b ++ rest))) := by
  have hs : a ++ (text ++ (b ++ rest)) = (a ++ (text ++ b)) ++ rest := by simp only [append_assoc]
  have hl := count_append_le ht (a ++ (text ++ b)) rest
  have ho := count_pos h
  have hw := count_pos hr
  rw [hs]
  omega

/-- A pass that inserts a text clean for another token leaves as many of that token as there were. -/
theorem count_replace {other : List α} (ht : token ≠ []) (hv : Clean other value) (htt : Clean token other)
    (ho : Clean other token) (text : List α) : count other (replace token value text) = count other text := by
  induction text using token_induct ht with
  | nil => rfl
  | hi rest ih => rw [replace_hit ht, count_clean hv, count_clean ho, ih]
  | miss c rest hm ih =>
    have hf : other <+: c :: replace token value rest ↔ other <+: c :: rest := by
      constructor
      · exact prefix_of_replace (a := [c]) ht hv rest (cons_ne_nil c [])
      · rintro ⟨af, ha⟩
        rw [← replace_miss hm, ← ha, replace_clean htt]
        exact prefix_append other _
    rw [replace_miss hm, count_cons, count_cons, ih, if_congr hf rfl rfl]

/-- Each pass finds its placeholder where the template has it, and nowhere else. -/
def ReadsTemplate (substs : Substs α) (template : List α) : Prop :=
  ∀ before s after, substs = before ++ s :: after → count s.1 (replace_all before template) = count s.1 template

theorem reads_template (h : Passes substs) (hb : substs.Pairwise fun s s' => Clean s'.1 s.1) (template : List α) :
    ReadsTemplate substs template := by
  rintro before s a rfl
  have hp : ∀ s' ∈ before, s'.1 ≠ [] ∧ Clean s.1 s'.2 ∧ Clean s'.1 s.1 ∧ Clean s.1 s'.1 := fun s' hs' =>
    ⟨h.1 s' (List.mem_append_left _ hs'),
      ((List.pairwise_append.mp h.2).2.2 s' hs' s (.head _)).1,
      ((List.pairwise_append.mp h.2).2.2 s' hs' s (.head _)).2,
      (List.pairwise_append.mp hb).2.2 s' hs' s (.head _)⟩
  clear h hb
  induction before generalizing template with
  | nil => rfl
  | cons s' before ih =>
    obtain ⟨⟨hn, hv, hl, hr⟩, hs⟩ := List.forall_mem_cons.mp hp
    calc count s.1 (replace_all (s' :: before) template)
        = count s.1 (replace_all before (replace s'.1 s'.2 template)) := rfl
      _ = count s.1 (replace s'.1 s'.2 template) := ih _ hs
      _ = count s.1 template := count_replace hn hv hl hr template

omit [DecidableEq α] in
/-- A text that is not clean makes a whole token between a beginning and an end of it. -/
theorem token_around (h : ¬Clean token text) (hl : 2 ≤ token.length) :
    ∃ a ∈ token.inits, ∃ b ∈ token.tails, a ≠ token ∧ b ≠ token ∧ token <:+: a ++ (text ++ b) := by
  have hsh : ∀ {x : List α}, x.length < token.length → x ≠ token := fun hx he => by
    rw [he] at hx
    exact Nat.lt_irrefl _ hx
  have hn : ([] : List α) ≠ token := hsh (by simp only [length_nil]; omega)
  have hbn : [] ∈ token.inits := (mem_inits _ _).mpr List.nil_prefix
  have hd : [] ∈ token.tails := (mem_tails _ _).mpr List.nil_suffix
  have hp : ∀ {x : List α}, x ≠ [] → 0 < x.length := length_pos_iff.mpr
  by_cases hm : text = []
  · refine ⟨token.take 1, (mem_inits _ _).mpr (List.take_prefix 1 token), token.drop 1,
      (mem_tails _ _).mpr (List.drop_suffix 1 token), hsh ?_, hsh ?_, ?_⟩
    · rw [List.length_take]
      omega
    · rw [List.length_drop]
      omega
    · rw [hm, nil_append, List.take_append_drop]
  by_cases hi : token <:+: text
  · exact ⟨[], hbn, [], hd, hn, hn, by rwa [nil_append, List.append_nil]⟩
  by_cases hr : text <:+: token
  · obtain ⟨a, b, rfl⟩ := hr
    refine ⟨a, (mem_inits _ _).mpr ⟨text ++ b, by rw [append_assoc]⟩, b,
      (mem_tails _ _).mpr (suffix_append (a ++ text) b), hsh ?_, hsh ?_, ?_⟩
    · have := hp hm
      simp only [length_append]
      omega
    · have := hp hm
      simp only [length_append]
      omega
    · rw [append_assoc]
  by_cases hen : ∀ s ∈ token.inits, s ≠ [] → ¬s <:+ text
  · have hg : ¬∀ s ∈ token.tails, s ≠ [] → ¬s <+: text := fun hb => h ⟨hi, hr, hen, hb⟩
    push Not at hg
    obtain ⟨s, hs, hne, x, rfl⟩ := hg
    obtain ⟨w, rfl⟩ := (mem_tails _ _).mp hs
    refine ⟨w, (mem_inits _ _).mpr (prefix_append w s), [], hd, hsh ?_, hn, [], x, ?_⟩
    · have := hp hne
      simp only [length_append]
      omega
    · rw [nil_append, append_nil, append_assoc]
  · push Not at hen
    obtain ⟨s, hs, hne, x, rfl⟩ := hen
    obtain ⟨w, rfl⟩ := (mem_inits _ _).mp hs
    refine ⟨[], hbn, w, (mem_tails _ _).mpr (suffix_append s w), hn, hsh ?_, x, [], ?_⟩
    · have := hp hne
      simp only [length_append]
      omega
    · rw [append_nil, nil_append, append_assoc]

end Lib.Placeholder
