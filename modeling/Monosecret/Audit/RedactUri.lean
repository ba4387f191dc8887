/-
  Monosecret.Audit.RedactUri — credentials kept out of the log and of warnings
  (`userinfo_span`, `redact_uri` and `redact_uri_strict` in `monosecret/src/audit.rs`).

  The userinfo is what stands before the last `@` of the authority, which begins behind `//`,
  or behind the colon of the scheme when no slashes follow it. Slices are cut at bytes; none
  is a panic.

  Proved (`redacted_iff`): nothing panics, and all that the two functions promise holds of a
  URI exactly when it is not `Reopened`. A URI without slashes whose userinfo is followed by
  `//` becomes one with slashes when the userinfo is dropped, and what was its path an
  authority, with a userinfo of its own (`reopened_leaks`).
-/

import Monosecret.Lib.Slices
import Monosecret.Lib.Texts

namespace Monosecret.Audit.RedactUri

open Lib Lib.Slices

def at_end (c : Char) : Bool := c == '/' || c == '?' || c == '#'

def userinfo_span (uri : List Char) : Option (Option (Nat × Nat)) :=
  match find (· == ':') uri with
  | none => some none
  | some scheme_end => do
    let after_scheme ← str_from uri (scheme_end + 1)
    let (userinfo_start, authority) := match after_scheme with
      | '/' :: '/' :: rest => (scheme_end + 3, rest)
      | _ => (scheme_end + 1, after_scheme)
    let authority_len := (find at_end authority).getD (byte_length authority)
    return (rfind (· == '@') (← str_to authority authority_len)).map fun at_rel => (userinfo_start, userinfo_start + at_rel)

def redact_uri (uri : List Char) : Option (List Char) := do
  match ← userinfo_span uri with
  | none => return uri
  | some (userinfo_start, at_) =>
    let userinfo ← str_from (← str_to uri at_) userinfo_start
    match find (· == ':') userinfo with
    | some colon => return (← str_to uri (userinfo_start + colon)) ++ (← str_from uri at_)
    | none => return uri

def redact_uri_strict (uri : List Char) : Option (List Char) := do
  let without_userinfo ← match ← userinfo_span uri with
    | some (userinfo_start, at_) => do pure ((← str_to uri userinfo_start) ++ (← str_from uri (at_ + 1)))
    | none => pure uri
  let cut := (find (fun c => c == '?' || c == '#') without_userinfo).getD (byte_length without_userinfo)
  str_to without_userinfo cut

/-! ## Parts -/

/-- The authority ends, with the text or before its rest. -/
def Ends (tail : List Char) : Prop := tail = [] ∨ ∃ c rest, tail = c :: rest ∧ at_end c = true

/-- A URI with a userinfo; `lead` is the slashes, if there are any. -/
structure Parts where
  scheme : List Char
  lead : List Char
  userinfo : List Char
  host : List Char
  tail : List Char

def Parts.front (p : Parts) : List Char := p.scheme ++ ':' :: p.lead

def Parts.text (p : Parts) : List Char := p.front ++ (p.userinfo ++ '@' :: (p.host ++ p.tail))

structure Parts.Valid (p : Parts) : Prop where
  scheme : ∀ c ∈ p.scheme, (c == ':') = false
  lead : p.lead = ['/', '/'] ∨ p.lead = []
  userinfo : ∀ c ∈ p.userinfo, at_end c = false
  host : ∀ c ∈ p.host, at_end c = false ∧ (c == '@') = false
  tail : Ends p.tail

variable {p : Parts} {uri : List Char}

/-- Where the authority ends, whatever it is. -/
theorem authority_slice {head t : List Char} (hh : ∀ c ∈ head, at_end c = false)
    (ht : Ends t) :
    str_to (head ++ t) ((find at_end (head ++ t)).getD (byte_length (head ++ t))) = some head := by
  rcases ht with rfl | ⟨c, r, rfl, hc⟩
  · rw [List.append_nil, find_none hh, Option.getD_none]
    simpa using str_to_append head []
  · rw [find_first hh hc, Option.getD_some, str_to_append]

/-- Behind the scheme: where the authority starts, and the `@` in it. -/
theorem span_behind {s l head t : List Char} (hs : ∀ c ∈ s, (c == ':') = false)
    (hl : l = ['/', '/'] ∨ l = [] ∧ ∀ r, head ++ t ≠ '/' :: '/' :: r) (hh : ∀ c ∈ head, at_end c = false)
    (ht : Ends t) :
    userinfo_span (s ++ ':' :: (l ++ (head ++ t))) = some ((rfind (· == '@') head).map fun a =>
      (byte_length (s ++ ':' :: l), byte_length (s ++ ':' :: l) + a)) := by
  have hc : byte_length (s ++ [':']) = byte_length s + 1 := by
    rw [byte_length_append]
    rfl
  have ha := str_from_append (s ++ [':']) (l ++ (head ++ t))
  rw [hc, List.append_assoc, List.singleton_append] at ha
  rw [userinfo_span, find_first hs rfl]
  simp only [ha, Option.bind_eq_bind, Option.bind_some]
  rcases hl with rfl | ⟨rfl, hn⟩
  · have hth : byte_length (s ++ [':', '/', '/']) = byte_length s + 3 := by
      rw [byte_length_append]
      rfl
    simp only [List.cons_append, List.nil_append, authority_slice hh ht, Option.bind_some, hth]
    rfl
  · rw [List.nil_append]
    split
    · rename_i r hr
      exact (hn r hr).elim
    · simp only [authority_slice hh ht, Option.bind_some, hc]
      rfl

theorem Parts.Valid.span (h : p.Valid) :
    userinfo_span p.text = some (some (byte_length p.front, byte_length (p.front ++ p.userinfo))) := by
  have hd : ∀ c ∈ p.userinfo ++ '@' :: p.host, at_end c = false := fun c hc => by
    rcases List.mem_append.mp hc with hc | hc
    · exact h.userinfo c hc
    · rcases List.mem_cons.mp hc with rfl | hc
      · rfl
      · exact (h.host c hc).1
  have hld : p.lead = ['/', '/'] ∨ p.lead = [] ∧ ∀ rest, (p.userinfo ++ '@' :: p.host) ++ p.tail ≠ '/' :: '/' :: rest := by
    refine h.lead.imp_right fun hl => ⟨hl, fun rest hr => ?_⟩
    cases hu : p.userinfo with
    | nil =>
      rw [hu] at hr
      cases hr
    | cons c m =>
      rw [hu] at hr
      obtain ⟨rfl, -⟩ := List.cons.inj hr
      exact absurd (h.userinfo '/' (hu ▸ List.mem_cons_self)) (by decide)
  have hs := span_behind h.scheme hld hd h.tail
  rw [rfind_last p.userinfo (fun c hc => (h.host c hc).2) rfl, Option.map_some, ← byte_length_append] at hs
  simpa [Parts.text, Parts.front] using hs

/-- The authority, and what ends it. -/
theorem authority_cases (t : List Char) : ∃ head tail, t = head ++ tail ∧ (∀ c ∈ head, at_end c = false) ∧ Ends tail := by
  rcases first_cases at_end t with hn | ⟨head, c, m, rfl, hh, hc⟩
  · exact ⟨t, [], (List.append_nil t).symm, hn, .inl rfl⟩
  · exact ⟨head, c :: m, rfl, hh, .inr ⟨c, m, rfl, hc⟩⟩

/-- Without an `@` in the authority there is no userinfo. -/
theorem span_cases (uri : List Char) : userinfo_span uri = some none ∨ ∃ p : Parts, p.Valid ∧ uri = p.text := by
  rcases first_cases (· == ':') uri with hn | ⟨s, c, a, rfl, hs, hc⟩
  · left
    rw [userinfo_span, find_none hn]
  · obtain rfl : c = ':' := beq_iff_eq.mp hc
    obtain ⟨l, r, rfl, hd, hl⟩ : ∃ l r, a = l ++ r ∧ (l = ['/', '/'] ∨ l = []) ∧
        (l = ['/', '/'] ∨ l = [] ∧ ∀ m, r ≠ '/' :: '/' :: m) := by
      by_cases hsl : ∃ m, a = '/' :: '/' :: m
      · obtain ⟨m, rfl⟩ := hsl
        exact ⟨_, m, rfl, .inl rfl, .inl rfl⟩
      · exact ⟨[], a, rfl, .inr rfl, .inr ⟨rfl, fun m hm => hsl ⟨m, hm⟩⟩⟩
    obtain ⟨head, t, rfl, hh, ht⟩ := authority_cases r
    rcases last_cases (· == '@') head with hn | ⟨u, c, host, rfl, hhs, hc⟩
    · left
      rw [span_behind hs hl hh ht, rfind_none hn, Option.map_none]
    · obtain rfl : c = '@' := beq_iff_eq.mp hc
      right
      refine ⟨⟨s, l, u, host, t⟩, ⟨hs, hd, fun c hc => hh c (List.mem_append_left _ hc), fun c hc =>
        ⟨hh c (List.mem_append_right _ (List.mem_cons_of_mem _ hc)), hhs c hc⟩, ht⟩, ?_⟩
      simp [Parts.text, Parts.front]

/-! ## What is kept -/

/-- Without the password. -/
def Parts.kept (p : Parts) : Parts := { p with userinfo := p.userinfo.takeWhile (· != ':') }

theorem Parts.Valid.kept (h : p.Valid) : p.kept.Valid :=
  ⟨h.scheme, h.lead, fun c hc => h.userinfo c (List.takeWhile_subset _ hc), h.host, h.tail⟩

theorem redact_uri_text (h : p.Valid) : redact_uri p.text = some p.kept.text := by
  have ht := str_to_append (p.front ++ p.userinfo) ('@' :: (p.host ++ p.tail))
  have hf := str_from_append (p.front ++ p.userinfo) ('@' :: (p.host ++ p.tail))
  rw [List.append_assoc] at ht hf
  rw [redact_uri, h.span]
  simp only [Option.bind_eq_bind, Option.bind_some, Parts.text, ht, str_from_append]
  rcases first_cases (· == ':') p.userinfo with hn | ⟨u, c, ps, hu, hr, hc⟩
  · have hs : p.userinfo.takeWhile (· != ':') = p.userinfo :=
      List.takeWhile_eq_self_iff.mpr fun c hc => by simpa using hn c hc
    simp only [find_none hn, Parts.kept, Parts.front, hs]
    rfl
  · obtain rfl : c = ':' := beq_iff_eq.mp hc
    have hk : p.kept = { p with userinfo := u } := by
      rw [Parts.kept, hu, Texts.takeWhile_split (fun c hc => by simpa using hr c hc) rfl]
    have hus := str_to_append (p.front ++ u) (':' :: (ps ++ '@' :: (p.host ++ p.tail)))
    rw [byte_length_append, List.append_assoc] at hus
    rw [hu, List.append_assoc, List.cons_append] at hf
    rw [hk]
    simp only [hu, find_first hr (beq_self_eq_true ':'), Parts.front, List.append_assoc, List.cons_append] at hf hus ⊢
    simp only [hus, hf, Option.bind_some]
    exact congrArg some (by simp)

/-! ## What is dropped -/

def query (c : Char) : Bool := c == '?' || c == '#'

/-- Without query and fragment. -/
def cut (text : List Char) : List Char := text.takeWhile fun c => !query c

theorem cut_append {a : List Char} (h : ∀ c ∈ a, query c = false) (b : List Char) : cut (a ++ b) = a ++ cut b :=
  List.takeWhile_append_of_pos fun c hc => by rw [h c hc]; rfl

theorem cut_self {text : List Char} (h : ∀ c ∈ text, query c = false) : cut text = text := by
  have hc := cut_append h []
  rw [List.append_nil] at hc
  exact hc.trans (List.append_nil text)

theorem cut_cases (t : List Char) : cut t = t ∨ ∃ c r, t = cut t ++ c :: r ∧ query c = true := by
  rcases first_cases query t with h | ⟨a, c, b, rfl, ha, hc⟩
  · exact .inl (cut_self h)
  · right
    have ht : cut (a ++ c :: b) = a := Texts.takeWhile_split (fun d hd => by rw [ha d hd]; rfl) (by rw [hc]; rfl) b
    exact ⟨c, b, by rw [ht], hc⟩

theorem query_end {c : Char} (h : query c = true) : at_end c = true := by
  rw [at_end, Bool.or_assoc]
  exact Bool.or_eq_true_iff.mpr (.inr h)

theorem not_query {c : Char} (h : at_end c = false) : query c = false :=
  Bool.eq_false_iff.mpr fun hq => by rw [query_end hq] at h; cases h

theorem not_mem_cut (t : List Char) : ∀ c ∈ cut t, query c = false := fun c hc => by
  simpa using List.mem_takeWhile_imp hc

theorem cut_slice (t : List Char) : str_to t ((find query t).getD (byte_length t)) = some (cut t) := by
  rcases first_cases query t with h | ⟨a, c, b, rfl, ha, hc⟩
  · have ht := str_to_append t []
    rw [List.append_nil] at ht
    rw [find_none h, Option.getD_none, ht, cut_self h]
  · rw [find_first ha hc, Option.getD_some, str_to_append, cut,
      Texts.takeWhile_split (fun d hd => by rw [ha d hd]; rfl) (by rw [hc]; rfl)]

theorem strict_none (h : userinfo_span uri = some none) : redact_uri_strict uri = some (cut uri) := by
  rw [redact_uri_strict, h]
  exact cut_slice uri

theorem strict_text (h : p.Valid) : redact_uri_strict p.text = some (cut (p.front ++ (p.host ++ p.tail))) := by
  have ha : byte_length (p.front ++ p.userinfo) + 1 = byte_length (p.front ++ p.userinfo ++ ['@']) := by
    rw [byte_length_append _ ['@']]
    rfl
  have hf := str_from_append (p.front ++ p.userinfo ++ ['@']) (p.host ++ p.tail)
  rw [← ha] at hf
  simp only [List.append_assoc, List.singleton_append] at hf
  rw [redact_uri_strict, h.span]
  simp only [Option.bind_eq_bind, Option.bind_some, Parts.text, str_to_append, hf]
  exact cut_slice _

theorem span_cut (h : userinfo_span uri = some none) : userinfo_span (cut uri) = some none := by
  rcases cut_cases uri with hct | ⟨c, r, hu, hc⟩
  · rw [hct, h]
  · rcases span_cases (cut uri) with hn | ⟨p, hp, hct⟩
    · exact hn
    · have hl : ({ p with tail := p.tail ++ c :: r } : Parts).Valid :=
        ⟨hp.scheme, hp.lead, hp.userinfo, hp.host, .inr (by
          rcases hp.tail with ht | ⟨d, m, ht, hd⟩
          · exact ⟨c, r, by rw [ht]; rfl, query_end hc⟩
          · exact ⟨d, m ++ c :: r, by rw [ht]; rfl, hd⟩)⟩
      have hs := hl.span
      have hx : ({ p with tail := p.tail ++ c :: r } : Parts).text = uri := by
        rw [hu, hct]
        simp [Parts.text, Parts.front]
      rw [hx, h] at hs
      cases hs

/-- No slashes, and slashes with another `@` behind them right behind the userinfo. -/
def Reopened (uri : List Char) : Prop :=
  ∃ scheme userinfo authority rest, uri = scheme ++ ':' :: (userinfo ++ '@' :: '/' :: '/' :: (authority ++ '@' :: rest)) ∧
    (∀ c ∈ scheme, (c == ':') = false ∧ query c = false) ∧ (∀ c ∈ userinfo, at_end c = false) ∧
    ∀ c ∈ authority, at_end c = false

theorem tail_cut (h : p.Valid) : Ends (cut p.tail) := by
  rcases h.tail with ht | ⟨c, r, ht, hc⟩
  · rw [ht]
    exact .inl rfl
  · rw [ht, cut, List.takeWhile_cons]
    split
    · exact .inr ⟨c, _, rfl, hc⟩
    · exact .inl rfl

theorem strict_span (h : p.Valid) (hn : ¬Reopened p.text) : userinfo_span (cut (p.front ++ (p.host ++ p.tail))) = some none := by
  rcases first_cases query p.scheme with hq | ⟨a, c, b, hs, ha, hc⟩
  · have hld : ∀ c ∈ p.lead, query c = false := by
      rcases h.lead with hl | hl <;> rw [hl] <;> simp [query]
    have ht : cut (p.front ++ (p.host ++ p.tail)) = p.scheme ++ ':' :: (p.lead ++ (p.host ++ cut p.tail)) := by
      rw [Parts.front, List.append_assoc, cut_append hq, List.cons_append, ← List.singleton_append, cut_append (by simp [query]),
        cut_append hld, cut_append fun c hc => not_query (h.host c hc).1]
      rfl
    have hnn := rfind_none fun c hc => (h.host c hc).2
    have hhs : ∀ c ∈ p.host, at_end c = false := fun c hc => (h.host c hc).1
    rw [ht]
    by_cases ho : p.lead = [] ∧ ∃ r, p.host ++ cut p.tail = '/' :: '/' :: r
    · obtain ⟨hl, r, hr⟩ := ho
      have hnl : p.host = [] := by
        cases hh : p.host with
        | nil => rfl
        | cons c host =>
          rw [hh] at hr
          obtain ⟨rfl, -⟩ := List.cons.inj hr
          exact absurd (hhs '/' (hh ▸ List.mem_cons_self)) (by decide)
      obtain ⟨head, t, rfl, hhd, htl⟩ := authority_cases r
      rw [hl, List.nil_append, hr]
      refine (span_behind h.scheme (.inl rfl) hhd htl).trans ?_
      rcases last_cases (· == '@') head with hat | ⟨ah, d, host, rfl, -, hd⟩
      · rw [rfind_none hat, Option.map_none]
      · obtain rfl : d = '@' := beq_iff_eq.mp hd
        rw [hnl, List.nil_append] at hr
        obtain ⟨more, hx⟩ : ∃ more, p.tail = cut p.tail ++ more := ⟨_, List.takeWhile_append_dropWhile.symm⟩
        refine (hn ⟨p.scheme, p.userinfo, ah, host ++ (t ++ more), ?_, fun c hc => ⟨h.scheme c hc, hq c hc⟩,
          h.userinfo, fun c hc => hhd c (List.mem_append_left _ hc)⟩).elim
        rw [Parts.text, Parts.front, hl, hnl, hx, hr]
        simp
    · rw [span_behind h.scheme (h.lead.imp_right fun hl => ⟨hl, fun r hr => ho ⟨hl, r, hr⟩⟩) hhs (tail_cut h),
        hnn, Option.map_none]
  · have ht : cut (p.front ++ (p.host ++ p.tail)) = a := by
      rw [Parts.front, hs, List.append_assoc, List.append_assoc, cut_append ha, List.cons_append, cut, List.takeWhile_cons, hc]
      exact List.append_nil a
    rw [ht, userinfo_span, find_none fun d hd => h.scheme d (hs ▸ List.mem_append_left _ hd)]

theorem reopened_span (h : Reopened uri) :
    ∃ st, redact_uri_strict uri = some st ∧ userinfo_span st ≠ some none := by
  obtain ⟨s, u, ah, r, rfl, hs, hu, ha⟩ := h
  have hv : Parts.Valid ⟨s, [], u, [], '/' :: '/' :: (ah ++ '@' :: r)⟩ :=
    ⟨fun c hc => (hs c hc).1, .inr rfl, hu, nofun, .inr ⟨'/', _, rfl, rfl⟩⟩
  obtain ⟨head, t, hr, hd, ht⟩ := authority_cases (cut r)
  have hct : cut (s ++ [':'] ++ ([] ++ '/' :: '/' :: (ah ++ '@' :: r))) =
      s ++ ':' :: (['/', '/'] ++ ((ah ++ '@' :: head) ++ t)) := by
    have hf : cut ([':', '/', '/'] ++ (ah ++ (['@'] ++ r))) =
        [':', '/', '/'] ++ (ah ++ (['@'] ++ cut r)) := by
      rw [cut_append (by simp [query]), cut_append fun c hc => not_query (ha c hc), cut_append (by simp [query])]
    rw [List.append_assoc, cut_append fun c hc => (hs c hc).2]
    exact congrArg _ (hf.trans (by rw [hr]; simp))
  have hm : ∀ c ∈ ah ++ '@' :: head, at_end c = false := fun c hc => by
    rcases List.mem_append.mp hc with hc | hc
    · exact ha c hc
    · rcases List.mem_cons.mp hc with rfl | hc
      · rfl
      · exact hd c hc
  have hx : Parts.text ⟨s, [], u, [], '/' :: '/' :: (ah ++ '@' :: r)⟩ =
      s ++ ':' :: (u ++ '@' :: '/' :: '/' :: (ah ++ '@' :: r)) := by
    simp [Parts.text, Parts.front]
  refine ⟨_, hx ▸ (strict_text hv).trans (congrArg some hct), ?_⟩
  rw [span_behind (fun c hc => (hs c hc).1) (.inl rfl) hm ht]
  rcases last_cases (· == '@') (ah ++ '@' :: head) with hn | ⟨a, c, b, hat, hb, hc⟩
  · exact absurd (hn '@' (List.mem_append_right _ List.mem_cons_self)) (by decide)
  · rw [hat, rfind_last a hb hc]
    nofun

/-- What the two functions promise of a URI. -/
def Redacted (uri : List Char) : Prop :=
  ∃ kept strict, redact_uri uri = some kept ∧ redact_uri kept = some kept ∧
    (userinfo_span uri = some none ∧ kept = uri ∨ ∃ p : Parts, p.Valid ∧ uri = p.text ∧ kept = p.kept.text) ∧
    redact_uri_strict uri = some strict ∧ redact_uri_strict strict = some strict ∧ userinfo_span strict = some none ∧
    ∀ c ∈ strict, query c = false

/-- Nothing panics; the promises hold of what is not opened again. -/
theorem redacted_iff (uri : List Char) : Redacted uri ↔ ¬Reopened uri := by
  constructor
  · rintro ⟨kept, s, -, -, -, hs, -, hsp, -⟩ ho
    obtain ⟨other, hoh, hn⟩ := reopened_span ho
    cases hs.symm.trans hoh
    exact hn hsp
  · intro hno
    obtain ⟨kept, hk, ha, hw⟩ : ∃ kept, redact_uri uri = some kept ∧ redact_uri kept = some kept ∧
        (userinfo_span uri = some none ∧ kept = uri ∨ ∃ p : Parts, p.Valid ∧ uri = p.text ∧ kept = p.kept.text) := by
      rcases span_cases uri with hnn | ⟨p, hp, rfl⟩
      · have hm : redact_uri uri = some uri := by
          rw [redact_uri, hnn]
          rfl
        exact ⟨uri, hm, hm, .inl ⟨hnn, rfl⟩⟩
      · have ht : p.kept.kept = p.kept := by
          simp only [Parts.kept, List.takeWhile_idem]
        exact ⟨_, redact_uri_text hp, (redact_uri_text hp.kept).trans (by rw [ht]), .inr ⟨p, hp, rfl, rfl⟩⟩
    obtain ⟨t, hs, hsp⟩ : ∃ t, redact_uri_strict uri = some (cut t) ∧ userinfo_span (cut t) = some none := by
      rcases span_cases uri with hnn | ⟨p, hp, rfl⟩
      · exact ⟨uri, strict_none hnn, span_cut hnn⟩
      · exact ⟨_, strict_text hp, strict_span hp hno⟩
    exact ⟨kept, cut t, hk, ha, hw, hs, (strict_none hsp).trans (by rw [cut_self (not_mem_cut t)]), hsp,
      not_mem_cut t⟩

/-- A path that becomes an authority: the token in it is shown. -/
theorem reopened_leaks : ¬∀ uri, Redacted uri := by
  intro h
  obtain ⟨kept, s, -, -, -, hs, -, hp, -⟩ := h "vault:user@//token@host".toList
  have hsh : redact_uri_strict "vault:user@//token@host".toList = some "vault://token@host".toList := by decide
  cases hs.symm.trans hsh
  exact absurd hp (by decide)

end Monosecret.Audit.RedactUri
