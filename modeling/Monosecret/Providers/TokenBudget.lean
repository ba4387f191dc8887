/-
  Monosecret.Providers.TokenBudget — the login tokens of one Vault session (`IssuedToken`,
  `TokenPool`, `KvSession` and `send_with_connect_retry` in `provider/vault_common.rs`).

  A call claims a token from the front of the pool before each of its requests, under the
  pool's lock, which it keeps over the login that replaces an exhausted one. A response, or a
  connection lost with the request on it, may have consumed a use; what is tried again after
  that needs another claim, which never logs in, and only a connection that never was keeps
  its token. Times are nanoseconds; whether a failure is tried again is any policy's choice.

  Proved, in every state reached: the requests sent with a token that may have consumed a use
  are no more than the uses its login reported; no token was claimed at or behind the time
  it is usable until; and `set_expiring` sends nothing before two uses were at hand
  (`budgeted`).
-/

import Monosecret.Lib.Machine

namespace Monosecret.Providers.TokenBudget

open Lib Machine

inductive TokenUses
  | Unlimited
  | Limited (uses : Nat)
  deriving DecidableEq

/-- What a login response says of its token. -/
structure Auth where
  num_uses : Option Nat
  lease_duration : Option Nat

/-- A token, by its number among those issued. -/
structure IssuedToken where
  value : Nat
  uses : TokenUses
  usable_until : Option Nat

def static_token (value : Nat) : IssuedToken := ⟨value, .Unlimited, none⟩

def second : Nat := 1000000000

def login_token (value : Nat) (auth : Auth) (login_started_at : Nat) : IssuedToken where
  value := value
  uses :=
    if auth.lease_duration.isSome then
      match auth.num_uses with
      | some 0 => .Unlimited
      | some uses => .Limited uses
      | none => .Limited 1
    else .Limited 1
  usable_until :=
    match auth.lease_duration with
    | none | some 0 => none
    | some seconds => some (login_started_at + (seconds * second - min (5 * second) (seconds * second / 10)))

def USIZE_MAX : Nat := 18446744073709551615

def IssuedToken.available_uses (token : IssuedToken) (now : Nat) : Nat :=
  if token.usable_until.any fun usable_until => decide (usable_until ≤ now) then 0
  else
    match token.uses with
    | .Unlimited => USIZE_MAX
    | .Limited uses => min uses USIZE_MAX

/-- The token with one use less. -/
def IssuedToken.claim (token : IssuedToken) (now : Nat) : Option IssuedToken :=
  if token.available_uses now = 0 then none
  else
    match token.uses with
    | .Unlimited => some token
    | .Limited 0 => none
    | .Limited (uses + 1) => some { token with uses := .Limited uses }

/-- The first token of the pool that can be claimed; those before it are popped. -/
def claim_front (now : Nat) : List IssuedToken → Option Nat × List IssuedToken
  | [] => (none, [])
  | token :: rest =>
    match token.claim now with
    | some claimed => (some token.value, claimed :: rest)
    | none => claim_front now rest

def discard_unusable (now : Nat) (tokens : List IssuedToken) : List IssuedToken :=
  tokens.filter fun token => decide (0 < token.available_uses now)

def available_uses (now : Nat) (tokens : List IssuedToken) : Nat :=
  tokens.foldl (fun available token => min (available + token.available_uses now) USIZE_MAX) 0

/-! ## The calls of a session -/

inductive Op
  | get
  | set
  | set_expiring
  | delete
  deriving DecidableEq

def Op.requests : Op → Nat
  | .get | .set => 1
  | .set_expiring | .delete => 2

inductive Phase
  | ensuring (additional_logins : Nat)
  | claiming
  /-- Logging in under the lock, to ensure or to claim. -/
  | exchanging (additional_logins : Option Nat)
  | sending (token : Nat)
  | retrying
  /-- Before the next attempt. -/
  | waiting (token : Nat)
  | ended

/-- The token of a request that has consumed no use yet. -/
def Phase.holds (i : Nat) : Phase → Bool
  | .sending token | .waiting token => token == i
  | _ => false

structure Call where
  op : Op
  left : Nat
  phase : Phase
  /-- The uses at hand when they were ensured. -/
  ensured : Nat
  sent : Bool

/-- What was issued: the uses reported, a missing number being one, and how long it is usable. -/
structure Issued where
  reported : Option Nat
  usable_until : Option Nat

structure State where
  now : Nat
  issued : List Issued
  tokens : List IssuedToken
  holder : Option Nat
  calls : List Call
  /-- The token of each request that may have consumed a use. -/
  consumed : List Nat
  /-- Each claim, and when. -/
  claims : List (Nat × Nat)

/-- A static token, or a login's. -/
def issued_token (value : Nat) (login_started_at : Nat) : Option Auth → IssuedToken
  | none => static_token value
  | some auth => login_token value auth login_started_at

def reported : Option Auth → Option Nat
  | none | some ⟨some 0, _⟩ => none
  | some ⟨some uses, _⟩ => some uses
  | some ⟨none, _⟩ => some 1

def State.issue (s : State) (auth : Option Auth) (login_started_at : Nat) : State :=
  let token := issued_token s.issued.length login_started_at auth
  { s with issued := s.issued ++ [⟨reported auth, token.usable_until⟩], tokens := s.tokens ++ [token] }

def State.goes (s : State) (c : Nat) (call : Call) (phase : Phase) : State :=
  { s with calls := s.calls.set c { call with phase } }

inductive Outcome
  /-- The operation may need no further request. -/
  | success (finished : Bool)
  | refused
  | failed (connected : Bool)

inductive Act
  | ensure
  | claim
  /-- No answer is a login that failed. -/
  | login (login_started_at : Nat) (answer : Option (Option Auth))
  | respond (outcome : Outcome) (retry : Bool)
  | retry
  | wake

inductive Ev
  | tick (time : Nat)
  | start (op : Op)
  | act (c : Nat) (act : Act)

def start (op : Op) : Call := ⟨op, op.requests, if op = .set_expiring then .ensuring 0 else .claiming, 0, false⟩

/-- `ensure_claims(2)`. -/
def ensure (s : State) (c : Nat) (call : Call) (additional_logins : Nat) : State :=
  let s := { s with tokens := discard_unusable s.now s.tokens }
  let available := available_uses s.now s.tokens
  if 2 ≤ available then { s.goes c { call with ensured := available } .claiming with holder := none }
  else if 2 ≤ additional_logins then { s.goes c call .ended with holder := none }
  else { s.goes c call (.exchanging (some additional_logins)) with holder := some c }

def claim (s : State) (c : Nat) (call : Call) : State :=
  match claim_front s.now s.tokens with
  | (some token, tokens) =>
    { s.goes c { call with sent := true } (.sending token) with
      tokens := tokens, holder := none, claims := (token, s.now) :: s.claims }
  | (none, tokens) => { s.goes c call (.exchanging none) with tokens := tokens, holder := some c }

/-- The lock is kept, unless the login failed. -/
def login (s : State) (c : Nat) (call : Call) (additional_logins : Option Nat) (login_started_at : Nat) :
    Option (Option Auth) → State
  | none => { s.goes c call .ended with holder := none }
  | some auth =>
    (s.goes c call (additional_logins.elim .claiming fun logins => .ensuring (logins + 1))).issue auth login_started_at

def respond (s : State) (c : Nat) (call : Call) (token : Nat) (retry : Bool) : Outcome → State
  | .success finished =>
    { s.goes c { call with left := call.left - 1 } (if finished ∨ call.left ≤ 1 then .ended else .claiming) with
      consumed := token :: s.consumed }
  | .refused | .failed true =>
    { s.goes c call (if retry then .retrying else .ended) with consumed := token :: s.consumed }
  | .failed false => s.goes c call (if retry then .waiting token else .ended)

/-- `claim_retry_token`. -/
def retry (s : State) (c : Nat) (call : Call) : State :=
  match claim_front s.now s.tokens with
  | (some token, tokens) =>
    { s.goes c call (.waiting token) with tokens := tokens, claims := (token, s.now) :: s.claims }
  | (none, tokens) => { s.goes c call .ended with tokens := tokens }

def State.free (s : State) (c : Nat) : Bool := s.holder == none || s.holder == some c

def act (s : State) (c : Nat) (call : Call) : Act → Phase → Option State
  | .ensure, .ensuring additional_logins => if s.free c then some (ensure s c call additional_logins) else none
  | .claim, .claiming => if s.free c then some (claim s c call) else none
  | .login login_started_at answer, .exchanging additional_logins =>
    some (login s c call additional_logins login_started_at answer)
  | .respond outcome retry, .sending token => some (respond s c call token retry outcome)
  | .retry, .retrying => if s.holder = none then some (retry s c call) else none
  | .wake, .waiting token => some (s.goes c call (.sending token))
  | _, _ => none

def step (s : State) : Ev → Option State
  | .tick time => some { s with now := s.now + time }
  | .start op => some { s with calls := s.calls ++ [start op] }
  | .act c e => s.calls[c]?.bind fun call => act s c call e call.phase

/-- A session, with the token it was opened with. -/
def machine (auth : Option Auth) (login_started_at : Nat) : Machine State Ev where
  init := State.issue ⟨login_started_at, [], [], none, [], [], []⟩ auth login_started_at
  step := step

structure Budgeted (s : State) : Prop where
  uses : ∀ i issued limit, s.issued[i]? = some issued → issued.reported = some limit → s.consumed.count i ≤ limit
  usable : ∀ i time, (i, time) ∈ s.claims → ∃ issued, s.issued[i]? = some issued ∧
    ∀ usable_until, issued.usable_until = some usable_until → time < usable_until
  ensured : ∀ call ∈ s.calls, call.op = .set_expiring → call.sent = true → 2 ≤ call.ensured

/-! ## Uses left -/

def TokenUses.left : TokenUses → Nat
  | .Unlimited => 0
  | .Limited uses => uses

/-- The uses of a token that can still be claimed. -/
def remaining (i : Nat) : List IssuedToken → Nat
  | [] => 0
  | token :: rest => (if token.value = i then token.uses.left else 0) + remaining i rest

theorem remaining_append (i : Nat) (tk : List IssuedToken) (tn : IssuedToken) :
    remaining i (tk ++ [tn]) = remaining i tk + if tn.value = i then tn.uses.left else 0 := by
  induction tk with
  | nil => simp [remaining]
  | cons t tk ih =>
    rw [List.cons_append, remaining, remaining, ih]
    omega

theorem remaining_filter (i : Nat) (p : IssuedToken → Bool) (tokens : List IssuedToken) :
    remaining i (tokens.filter p) ≤ remaining i tokens := by
  induction tokens with
  | nil => exact Nat.le_refl _
  | cons t tokens ih =>
    rw [List.filter_cons]
    split
    · rw [remaining, remaining]
      omega
    · rw [remaining]
      omega

/-- A token without its uses. -/
def Alike (claimed token : IssuedToken) : Prop :=
  claimed.value = token.value ∧ claimed.usable_until = token.usable_until ∧ (claimed.uses = .Unlimited ↔ token.uses = .Unlimited)

theorem claim_spec {t cl : IssuedToken} {n : Nat} (h : t.claim n = some cl) :
    Alike cl t ∧ (∀ usable_until, t.usable_until = some usable_until → n < usable_until) ∧
      cl.uses.left + (if t.uses = .Unlimited then 0 else 1) = t.uses.left := by
  unfold IssuedToken.claim at h
  split at h
  · cases h
  · rename_i ha
    have hs : ∀ usable_until, t.usable_until = some usable_until → n < usable_until := by
      intro u hu
      refine Nat.lt_of_not_le fun hle => ha ?_
      rw [IssuedToken.available_uses, hu]
      exact if_pos (decide_eq_true hle)
    split at h
    · rename_i hn
      cases h
      exact ⟨⟨rfl, rfl, Iff.rfl⟩, hs, by simp [hn]⟩
    · cases h
    · rename_i us hl
      cases h
      exact ⟨⟨rfl, rfl, by simp [hl]⟩, hs, by simp [hl, TokenUses.left]⟩

theorem claim_front_alike {n : Nat} {tk : List IssuedToken} :
    ∀ claimed ∈ (claim_front n tk).2, ∃ token ∈ tk, Alike claimed token := by
  induction tk with
  | nil => nofun
  | cons t tk ih =>
    intro claimed hm
    rw [claim_front] at hm
    split at hm
    · rename_i t' hc
      rcases List.mem_cons.mp hm with rfl | hm
      · exact ⟨t, List.mem_cons_self, (claim_spec hc).1⟩
      · exact ⟨claimed, List.mem_cons_of_mem _ hm, rfl, rfl, Iff.rfl⟩
    · obtain ⟨token, ht, ha⟩ := ih claimed hm
      exact ⟨token, List.mem_cons_of_mem _ ht, ha⟩

theorem claim_front_le (n i : Nat) (tokens : List IssuedToken) :
    remaining i (claim_front n tokens).2 ≤ remaining i tokens := by
  induction tokens with
  | nil => exact Nat.le_refl _
  | cons t tokens ih =>
    rw [claim_front]
    split
    · rename_i t' hc
      obtain ⟨⟨hv, -⟩, -, hl⟩ := claim_spec hc
      rw [remaining, remaining, hv]
      split <;> omega
    · rw [remaining]
      omega

theorem claim_front_some {n value : Nat} {tk : List IssuedToken} (h : (claim_front n tk).1 = some value) :
    ∃ tn ∈ tk, tn.value = value ∧ (∀ u, tn.usable_until = some u → n < u) ∧
      (tn.uses = .Unlimited ∨ remaining value (claim_front n tk).2 + 1 ≤ remaining value tk) := by
  induction tk with
  | nil => cases h
  | cons t tk ih =>
    rw [claim_front] at h ⊢
    split at h
    · rename_i t' hc
      obtain ⟨⟨hv, -⟩, hu, hl⟩ := claim_spec hc
      cases h
      refine ⟨t, List.mem_cons_self, rfl, hu, ?_⟩
      by_cases hn : t.uses = .Unlimited
      · exact .inl hn
      · right
        rw [if_neg hn] at hl
        simp only [remaining, hv, if_true]
        omega
    · rename_i hc
      obtain ⟨tn, ht, hv, hu, hr⟩ := ih h
      refine ⟨tn, List.mem_cons_of_mem _ ht, hv, hu, hr.imp_right fun hr => ?_⟩
      simp only [remaining]
      omega

/-! ## What the steps keep -/

/-- No token is issued for a number that is not taken. -/
def limit (s : State) (i : Nat) : Option Nat := (s.issued[i]?).elim (some 0) Issued.reported

def held (s : State) (i : Nat) : Nat := s.calls.countP fun call => call.phase.holds i

/-- Nothing was sent for a call that has not ensured its uses. -/
def Phase.early : Phase → Bool
  | .ensuring _ | .exchanging (some _) | .ended => true
  | _ => false

def Call.Ensured (call : Call) : Prop :=
  call.op = .set_expiring → 2 ≤ call.ensured ∨ call.phase.early = true ∧ call.sent = false

theorem Call.Ensured.later {call : Call} (h : call.Ensured) (hp : call.phase.early = false) (ho : call.op = .set_expiring) :
    2 ≤ call.ensured :=
  (h ho).resolve_right fun hn => by simp [hp] at hn

structure Inv (s : State) : Prop where
  uses : ∀ i l, limit s i = some l → s.consumed.count i + held s i + remaining i s.tokens ≤ l
  issued : ∀ token ∈ s.tokens, ∃ issued, s.issued[token.value]? = some issued ∧ issued.usable_until = token.usable_until ∧
    (token.uses = .Unlimited → issued.reported = none)
  usable : ∀ i time, (i, time) ∈ s.claims → ∃ issued, s.issued[i]? = some issued ∧
    ∀ usable_until, issued.usable_until = some usable_until → time < usable_until
  ensured : ∀ call ∈ s.calls, call.Ensured

theorem countP_move {calls : List Call} {c : Nat} {call : Call} (hc : calls[c]? = some call) (p : Call → Bool) (moved : Call) :
    (calls.set c moved).countP p + (if p call then 1 else 0) = calls.countP p + if p moved then 1 else 0 := by
  obtain ⟨hl, rfl⟩ := List.getElem?_eq_some_iff.mp hc
  have hle := List.boole_getElem_le_countP (p := p) hl
  rw [List.countP_set hl]
  omega

section

variable {s : State} (h : Inv s) {c : Nat} {call c' : Call} (hc : s.calls[c]? = some call)

include h hc

/-- A call moves, without taking more uses than it gives back. -/
theorem Inv.moved {tokens : List IssuedToken} {consumed : List Nat} {claims : List (Nat × Nat)} {holder : Option Nat}
    (hu : ∀ i l, limit s i = some l → consumed.count i + (if c'.phase.holds i then 1 else 0) + remaining i tokens ≤
      s.consumed.count i + (if call.phase.holds i then 1 else 0) + remaining i s.tokens)
    (ht : ∀ cl ∈ tokens, ∃ tk ∈ s.tokens, Alike cl tk)
    (hcl : ∀ i t, (i, t) ∈ claims → (i, t) ∈ s.claims ∨ ∃ issued, s.issued[i]? = some issued ∧
      ∀ u, issued.usable_until = some u → t < u)
    (he : c'.Ensured) :
    Inv { s with tokens := tokens, holder := holder, calls := s.calls.set c c', consumed := consumed, claims := claims } where
  uses := by
    intro i l hl
    have hm := countP_move hc (fun call => call.phase.holds i) c'
    have hi := h.uses i l hl
    have := hu i l hl
    unfold held at hi ⊢
    show consumed.count i + (s.calls.set c c').countP _ + remaining i tokens ≤ l
    omega
  issued := by
    intro cl hm
    obtain ⟨tk, hm, hv, ht, hn⟩ := ht cl hm
    obtain ⟨issued, hi, hu, hr⟩ := h.issued tk hm
    exact ⟨issued, by rw [hv]; exact hi, hu.trans ht.symm, fun ho => hr (hn.mp ho)⟩
  usable := fun i t hm => (hcl i t hm).elim (h.usable i t) id
  ensured := by
    intro call hm
    rcases List.mem_or_eq_of_mem_set hm with hm | rfl
    · exact h.ensured call hm
    · exact he

omit h hc in
theorem self_alike : ∀ claimed ∈ s.tokens, ∃ token ∈ s.tokens, Alike claimed token :=
  fun claimed hm => ⟨claimed, hm, rfl, rfl, Iff.rfl⟩

/-- A call that takes no token; tokens may be dropped. -/
theorem Inv.goes {tokens : List IssuedToken} {holder : Option Nat}
    (hp : ∀ i, c'.phase.holds i = true → call.phase.holds i = true) (he : c'.Ensured)
    (ht : ∀ cl ∈ tokens, ∃ t ∈ s.tokens, Alike cl t) (hl : ∀ i, remaining i tokens ≤ remaining i s.tokens) :
    Inv { s with tokens := tokens, holder := holder, calls := s.calls.set c c' } := by
  refine h.moved hc (fun i l _ => ?_) ht (fun i tm hm => .inl hm) he
  have := hl i
  have hi : (if c'.phase.holds i then 1 else 0) ≤ if call.phase.holds i then 1 else 0 := by
    split
    · rename_i hh
      exact Nat.le_of_eq (if_pos (hp i hh)).symm
    · exact Nat.zero_le _
  omega

/-- A call claims the first token that it can. -/
theorem Inv.claims {tk : Nat} {tokens : List IssuedToken} {holder : Option Nat} (hn : ∀ i, call.phase.holds i = false)
    (hf : claim_front s.now s.tokens = (some tk, tokens)) (hm : ∀ i, c'.phase.holds i = (tk == i)) (he : c'.Ensured) :
    Inv { s with tokens := tokens, holder := holder, calls := s.calls.set c c', claims := (tk, s.now) :: s.claims } := by
  have hle := fun i => claim_front_le s.now i s.tokens
  have ha := @claim_front_alike s.now s.tokens
  obtain ⟨t, ht, rfl, hs, hr⟩ := claim_front_some (congrArg Prod.fst hf)
  simp only [hf] at hle ha hr
  obtain ⟨iss, hi, hu, hun⟩ := h.issued t ht
  refine h.moved hc (fun i l hl => ?_) ha (fun i tm hmm => ?_) he
  · rw [hn i, hm i]
    have := hle i
    by_cases hv : t.value = i
    · subst hv
      rcases hr with hr | hr
      · rw [limit, hi, Option.elim_some, hun hr] at hl
        cases hl
      · simp only [beq_self_eq_true, if_true]
        simp
        omega
    · simp [hv]
      omega
  · rcases List.mem_cons.mp hmm with he | hmm
    · cases he
      exact .inr ⟨iss, hi, fun u hq => hs u (hu ▸ hq)⟩
    · exact .inl hmm

/-- No token can be claimed. -/
theorem Inv.popped {tokens : List IssuedToken} {holder : Option Nat} (hf : claim_front s.now s.tokens = (none, tokens))
    (hp : ∀ i, c'.phase.holds i = true → call.phase.holds i = true) (he : c'.Ensured) :
    Inv { s with tokens := tokens, holder := holder, calls := s.calls.set c c' } := by
  have ha := @claim_front_alike s.now s.tokens
  have hl := fun i => claim_front_le s.now i s.tokens
  simp only [hf] at ha hl
  exact h.goes hc hp he ha hl

end

theorem issued_value (value l : Nat) (a : Option Auth) : (issued_token value l a).value = value := by
  cases a <;> rfl

theorem issued_left {value lg l : Nat} {a : Option Auth} (h : reported a = some l) :
    (issued_token value lg a).uses.left ≤ l := by
  rcases a with _ | ⟨_ | uses, ls⟩
  · cases h
  · cases h
    cases ls <;> exact Nat.le_refl _
  · cases uses with
    | zero => cases h
    | succ uses =>
      cases h
      cases ls with
      | none => exact Nat.le_add_left 1 uses
      | some sc => exact Nat.le_refl _

theorem issued_unlimited {value l : Nat} {a : Option Auth}
    (h : (issued_token value l a).uses = .Unlimited) : reported a = none := by
  rcases a with _ | ⟨_ | uses, ls⟩
  · rfl
  · cases ls <;> cases h
  · cases uses with
    | zero => rfl
    | succ uses => cases ls <;> cases h

/-- A login adds a token with the uses it reported, or fewer. -/
theorem Inv.issue {s : State} (h : Inv s) (a : Option Auth) (lg : Nat) : Inv (s.issue a lg) := by
  have hold : ∀ (i : Nat) (issued : Issued), s.issued[i]? = some issued → (s.issue a lg).issued[i]? = some issued := by
    intro i issued hi
    obtain ⟨ht, -⟩ := List.getElem?_eq_some_iff.mp hi
    exact (List.getElem?_append_left ht).trans hi
  have hn : (s.issue a lg).issued[s.issued.length]? =
      some ⟨reported a, (issued_token s.issued.length lg a).usable_until⟩ := by
    simp [State.issue]
  refine ⟨fun i l hl => ?_, fun t hm => ?_, fun i tm hm => ?_, h.ensured⟩
  · show s.consumed.count i + held s i + remaining i (s.tokens ++ [_]) ≤ l
    rw [remaining_append]
    by_cases hi : i = s.issued.length
    · subst hi
      have hz := h.uses s.issued.length 0 (by simp [limit])
      rw [limit, hn, Option.elim_some] at hl
      have hs : (issued_token s.issued.length lg a).uses.left ≤ l := issued_left hl
      split <;> omega
    · have hne : ¬(issued_token s.issued.length lg a).value = i := by rw [issued_value]; exact Ne.symm hi
      rw [if_neg hne]
      refine h.uses i l (Eq.trans ?_ hl)
      unfold limit State.issue
      rw [List.getElem?_append]
      split
      · rfl
      · rename_i hg
        have : i ≠ s.issued.length := hi
        rw [List.getElem?_eq_none (by omega), List.getElem?_eq_none (by simp; omega)]
  · rcases List.mem_append.mp hm with hm | hm
    · obtain ⟨issued, hi, hu, hr⟩ := h.issued t hm
      exact ⟨issued, hold _ _ hi, hu, hr⟩
    · cases List.mem_singleton.mp hm
      refine ⟨_, by rw [issued_value]; exact hn, rfl, issued_unlimited⟩
  · obtain ⟨issued, hi, hu⟩ := h.usable i tm hm
    exact ⟨issued, hold i issued hi, hu⟩

theorem Inv.act {s t : State} (h : Inv s) {c : Nat} {call : Call} (hc : s.calls[c]? = some call) {e : Act}
    (hs : TokenBudget.act s c call e call.phase = some t) : Inv t := by
  have he := h.ensured call (List.mem_of_getElem? hc)
  unfold TokenBudget.act at hs
  split at hs
  · split at hs <;> cases hs
    have hf : ∀ claimed ∈ discard_unusable s.now s.tokens, ∃ token ∈ s.tokens, Alike claimed token :=
      fun claimed hm => ⟨claimed, (List.mem_filter.mp hm).1, rfl, rfl, Iff.rfl⟩
    have hl : ∀ i, remaining i (discard_unusable s.now s.tokens) ≤ remaining i s.tokens := fun i => remaining_filter i _ _
    have hen : call.op = .set_expiring → 2 ≤ call.ensured ∨ call.sent = false := fun ho => (he ho).imp_right And.right
    unfold ensure
    dsimp only
    split
    · rename_i ha
      exact h.goes hc nofun (fun _ => .inl ha) hf hl
    · split <;> exact h.goes hc nofun (fun ho => (hen ho).imp_right fun hn => ⟨rfl, hn⟩) hf hl
  · rename_i hp
    split at hs <;> cases hs
    have hen := he.later (by rw [hp]; rfl)
    unfold claim
    split
    · rename_i token tk hf
      exact h.claims hc (fun i => by rw [hp]; rfl) hf (fun i => rfl) fun ho => .inl (hen ho)
    · rename_i tk hf
      exact h.popped hc hf nofun fun ho => .inl (hen ho)
  · rename_i lg answer ln hp
    cases hs
    cases answer with
    | none => exact h.goes hc nofun (fun ho => (he ho).imp_right fun hn => ⟨rfl, hn.2⟩) self_alike fun i => Nat.le_refl _
    | some a =>
      refine Inv.issue (h.goes hc (fun i hh => ?_) (fun ho => ?_) self_alike fun i => Nat.le_refl _) a lg
      · cases ln <;> cases hh
      · refine (he ho).imp_right fun hn => ?_
        rw [hp] at hn
        cases ln with
        | none => cases hn.1
        | some n => exact ⟨rfl, hn.2⟩
  · rename_i o r token hp
    cases hs
    have hen := he.later (by rw [hp]; rfl)
    have hu : ∀ (c' : Call), (∀ i, c'.phase.holds i = false) → ∀ i l, limit s i = some l →
        (token :: s.consumed).count i + (if c'.phase.holds i then 1 else 0) + remaining i s.tokens ≤
          s.consumed.count i + (if call.phase.holds i then 1 else 0) + remaining i s.tokens := by
      intro c' hn i l _
      rw [hn i, hp, List.count_cons]
      simp [Phase.holds]
    cases o with
    | success | refused =>
      exact h.moved hc (hu _ fun i => by dsimp only; split <;> rfl) self_alike (fun i tm hm => .inl hm) fun ho => .inl (hen ho)
    | failed cn =>
      cases cn with
      | true =>
        exact h.moved hc (hu _ fun i => by dsimp only; split <;> rfl) self_alike (fun i tm hm => .inl hm) fun ho => .inl (hen ho)
      | false =>
        refine h.goes hc (fun i hh => ?_) (fun ho => .inl (hen ho)) self_alike fun i => Nat.le_refl _
        cases r with
        | true => rw [hp]; exact hh
        | false => cases hh
  · rename_i hp
    split at hs <;> cases hs
    have hen := he.later (by rw [hp]; rfl)
    unfold retry
    split
    · rename_i token tk hf
      exact h.claims hc (fun i => by rw [hp]; rfl) hf (fun i => rfl) fun ho => .inl (hen ho)
    · rename_i tk hf
      exact h.popped hc hf nofun fun ho => .inl (hen ho)
  · rename_i token hp
    cases hs
    have hen := he.later (by rw [hp]; rfl)
    exact h.goes hc (fun i hh => by rw [hp]; exact hh) (fun ho => .inl (hen ho)) self_alike fun i => Nat.le_refl _
  · cases hs

theorem Inv.step {s t : State} (h : Inv s) {e : Ev} (hs : TokenBudget.step s e = some t) : Inv t := by
  cases e with
  | tick tm =>
    cases hs
    exact ⟨h.uses, h.issued, h.usable, h.ensured⟩
  | start op =>
    cases hs
    refine ⟨fun i l hl => ?_, h.issued, h.usable, fun call hm => ?_⟩
    · have ht : (start op).phase.holds i = false := by cases op <;> rfl
      have hi := h.uses i l hl
      simpa [held, List.countP_append, ht] using hi
    · rcases List.mem_append.mp hm with hm | hm
      · exact h.ensured call hm
      · cases List.mem_singleton.mp hm
        rintro ⟨⟩
        exact .inr ⟨rfl, rfl⟩
  | act c e =>
    obtain ⟨call, hc, hs⟩ := Option.bind_eq_some_iff.mp hs
    exact h.act hc hs

theorem Inv.init (a : Option Auth) (lg : Nat) : Inv (machine a lg).init := by
  have h : Inv ⟨lg, [], [], none, [], [], []⟩ := ⟨fun i l _ => Nat.zero_le l, nofun, nofun, nofun⟩
  exact h.issue a lg

theorem Inv.bounds {s : State} (h : Inv s) : Budgeted s where
  uses := by
    intro i iss l hi hr
    have := h.uses i l (by rw [limit, hi]; exact hr)
    omega
  usable := h.usable
  ensured := fun call hm ho hs => (h.ensured call hm ho).resolve_right fun hn => by simp [hs] at hn

/-- In any interleaving: no token beyond its uses or its time, and no mutation in two requests before both are at hand. -/
theorem budgeted {a : Option Auth} {l : Nat} {s : State} (h : Reach (machine a l) any s) :
    Budgeted s :=
  (h.inv (Inv.init a l) fun _ _ _ hi _ hs => hi.step hs).bounds

/-- A token of one use, and a second login for the second request. -/
theorem budgeted_run : ∃ s : State, Reach (machine (some ⟨some 1, some 60⟩) 0) any s ∧ (s.consumed, s.claims) = ([1, 0], [(1, 7), (0, 7)]) ∧
    Budgeted s := by
  obtain ⟨s, hs, hr⟩ := reach_of_run (machine (some ⟨some 1, some 60⟩) 0) any
    ([.tick 7, .start .set_expiring] ++ [.ensure, .login 7 (some (some ⟨some 1, some 60⟩)), .ensure, .claim,
      .respond (.success false) false, .claim, .respond (.success false) false].map (.act 0))
    (fun s => (s.consumed, s.claims)) ([1, 0], [(1, 7), (0, 7)]) rfl
  exact ⟨s, hs, hr, budgeted hs⟩

end Monosecret.Providers.TokenBudget
