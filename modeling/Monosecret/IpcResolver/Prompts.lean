/-
  Monosecret.IpcResolver.Prompts — when the C client drops no prompt.

  The endpoint keeps a callback's slot until its response arrives, so an accepted prompt should
  stay queued or held until exactly one response is queued for it (`Responded`). `answerable`
  are the steps that drop none: no queued prompt is past its deadline where the code looks
  (`prompts_expire`, `accept_prompt`), none has a parent that the step cancels, times out or
  answers (`prompts_cancel_parent`), and no answer is refused or fails to be queued
  (`answer_prompt`). `Quiet` collects what each section leaves alone.
-/

import Monosecret.IpcResolver.Requests

namespace Monosecret.IpcResolver

open Lib Machine

variable {cfg : Config} {s t : State} {id : Nat}

def Outbound.answer_id : Outbound → Option Nat
  | .answer id => some id
  | _ => none

/-- The prompts a response was queued for, once for each response. -/
def State.answered (s : State) : List Nat := s.written.filterMap Outbound.answer_id

/-- A prompt still waits for its response, or had exactly one. -/
def Responded (s : State) (id : Nat) : Prop :=
  ((∃ p ∈ s.prompts, p.id = id) ∨ ∃ h ∈ s.held, h.id = id ∧ h.prompt.answered = false) ∧ s.answered.count id = 0 ∨
    s.answered.count id = 1

/-! ## The condition -/

def unexpired (s : State) (now : Nat) : Bool := s.prompts.all fun p => now < p.deadline_unix_ms

def childless (s : State) (id : Nat) : Bool := s.prompts.all fun p => p.parent_request_id != id

/-- The prompt is within its deadline and its parent still runs. -/
def within (s : State) (p : Prompt) (now : Nat) : Bool :=
  now < p.deadline_unix_ms &&
    match find_request s p.parent_request_id with
    | some parent => parent.running && !parent.cancel_sent && p.deadline_unix_ms ≤ parent.deadline_unix_ms
    | none => false

/-- `accept_prompt` gets as far as its deadline tests. -/
def admitted (cfg : Config) (s : State) (p : Prompt) (memory : Bool) : Bool :=
  cfg.answer_prompts && p.id != 0 && p.id ≤ SS_MAX_ID && memory &&
    match find_request s p.parent_request_id with
    | some parent =>
      parent.application && parent.running && !parent.cancel_sent && p.deadline_unix_ms ≤ parent.deadline_unix_ms
    | none => false

def call_answerable (s : State) : CallEv → Bool
  | .wait id now₁ _ =>
    match s.call id with
    | some r => r.waiter || !r.running || (unexpired s now₁ && (r.application || childless s id))
    | none => true
  | .wake id timed_out now₁ _ =>
    match s.call id with
    | some r => !r.running || if timed_out then childless s id else unexpired s now₁ && (r.application || childless s id)
    | none => true
  | .cancel id =>
    match s.call id with
    | some r => !r.running || r.cancel_sent || childless s id
    | none => true
  | _ => true

def prompt_answerable (s : State) : PromptEv → Bool
  | .take now => unexpired s now
  | .check id _ now =>
    match s.holding id with
    | some h => h.prompt.answered || within s h.prompt now
    | none => true
  | .unbuilt id own =>
    match s.holding id with
    | some h => !own || h.prompt.answered
    | none => true
  | .commit id _ reply now memory =>
    match s.holding id with
    | some h =>
      h.prompt.answered || within s h.prompt now &&
        (reply.size id > s.max_frame_bytes ||
          (memory && !s.writer_stopping && s.write_count < SS_MAX_IN_FLIGHT * 2 + 4))
    | none => true
  | .free _ => true

/-- No prompt is dropped by the step, unless the session is closed. -/
def answerable (cfg : Config) (s : State) : Ev → Bool
  | .reader (.prompt id parent_request_id deadline_unix_ms memory now₁ now₂) =>
    s.closed || !admitted cfg s { id, parent_request_id, deadline_unix_ms } memory ||
      (unexpired s now₁ && now₂ < deadline_unix_ms)
  | .reader (.response id _) => s.closed || (find_request s id).isNone || childless s id
  | .deadline now => s.closed || s.requests.all fun r => !r.running || now < r.deadline_unix_ms || childless s r.id
  | .call e => s.closed || call_answerable s e
  | .prompt e => s.closed || prompt_answerable s e
  | _ => true

/-! ## What leaves the prompts alone -/

/-- What the story of a prompt is told by, the queue apart. -/
def State.aside (s : State) := (s.held, s.last_callback_id, s.accepted, s.answered, s.closed, s.max_frame_bytes)

/-- A step that at most drops queued prompts, and none of them if it is `safe`. -/
structure Quiet (safe : Prop) (s t : State) : Prop where
  aside : t.aside = s.aside
  prompts : safe → t.prompts = s.prompts

theorem Quiet.trans {safe s' : Prop} {u : State} (h : Quiet safe s t) (h' : Quiet s' t u) :
    Quiet (safe ∧ s') s u :=
  ⟨h'.aside.trans h.aside, fun hs => (h'.prompts hs.2).trans (h.prompts hs.1)⟩

theorem Quiet.mono {safe safe' : Prop} (h : Quiet safe s t) (hs : safe' → safe) : Quiet safe' s t :=
  ⟨h.aside, fun hx => h.prompts (hs hx)⟩

theorem Quiet.same (ha : t.aside = s.aside) (hp : t.prompts = s.prompts) : Quiet True s t := ⟨ha, fun _ => hp⟩

theorem drop_prompts_quiet (s : State) (p : Prompt → Bool) :
    Quiet (∀ q ∈ s.prompts, p q = false) s (s.drop_prompts p) where
  aside := rfl
  prompts := by
    intro hn
    refine (drop_prompts_fst p s.prompts s.prompt_count).trans (List.filter_eq_self.mpr fun q hq => ?_)
    rw [hn q hq]
    rfl

theorem prompts_expire_quiet (s : State) (n : Nat) : Quiet (unexpired s n) s (prompts_expire s n) :=
  (drop_prompts_quiet s _).mono fun ha q hq => by
    have hl := of_decide_eq_true (List.all_eq_true.mp ha q hq)
    exact decide_eq_false (Nat.not_le_of_lt hl)

theorem prompts_cancel_parent_quiet (s : State) (id : Nat) :
    Quiet (childless s id) s (prompts_cancel_parent s id) :=
  (drop_prompts_quiet s _).mono fun ha q hq => by
    have hn := List.all_eq_true.mp ha q hq
    exact beq_eq_false_iff_ne.mpr (bne_iff_ne.mp hn)

theorem update_quiet (s : State) (id : Nat) (f : Request → Request) : Quiet True s (s.update id f) := .same rfl rfl

theorem finish_quiet (s : State) (id : Nat) (f : Request → Request) : Quiet True s (finish s id f) := .same rfl rfl

theorem remove_request_quiet (s : State) (id : Nat) : Quiet True s (remove_request s id) := by
  obtain ⟨p, e, he⟩ := remove_request_frame s id
  rw [he]
  exact .same rfl rfl

theorem start_request_quiet (s : State) (n d : Nat) (a : Bool) (b : Build) :
    Quiet True s (start_request s n d a b).1 := by
  obtain ⟨_, _, _, _, _, _, sn, hs, he⟩ := start_request_frame s n d a b
  have hn : sn.filterMap Outbound.answer_id = [] := by
    refine List.filterMap_eq_nil_iff.mpr fun i hi => ?_
    rw [hs i hi]
    rfl
  rw [he]
  refine .same ?_ rfl
  unfold State.aside State.answered
  rw [List.filterMap_append, hn, List.append_nil]

theorem deliver_response_quiet {st : Status} (hd : deliver_response s id st = some t) :
    Quiet (childless s id) s t := by
  unfold deliver_response at hd
  split at hd
  · cases hd
  · split_ifs at hd
    · cases hd
      exact ((prompts_cancel_parent_quiet s id).trans (remove_request_quiet _ id)).mono fun h => ⟨h, trivial⟩
    · cases hd
      have hc := (finish_quiet s id (·.leave st)).trans (prompts_cancel_parent_quiet _ id)
      exact (hc.trans (remove_request_quiet _ id)).mono fun h => ⟨⟨trivial, h⟩, trivial⟩

theorem abandon_quiet (s : State) (id : Nat) : Quiet (childless s id) s (abandon s id) :=
  ((finish_quiet s id Request.abandon).trans (prompts_cancel_parent_quiet _ id)).mono fun h => ⟨trivial, h⟩

theorem wait_abandon_quiet (s : State) (id : Nat) : Quiet (childless s id) s (wait_abandon s id) where
  aside := rfl
  prompts := (abandon_quiet s id).prompts

theorem wait_turn_quiet (s : State) (r : Request) (now₁ now₂ : Nat) :
    Quiet (r.running → unexpired s now₁ ∧ (r.application ∨ childless s r.id)) s
      (wait_turn s r now₁ now₂).1 := by
  have hp := prompts_expire_quiet s now₁
  unfold wait_turn
  dsimp only
  split_ifs with hr hn hd
  · exact ((hp.trans (update_quiet _ r.id _)).trans (update_quiet _ r.id _)).mono fun h =>
      ⟨⟨(h hr).1, trivial⟩, trivial⟩
  · refine ((hp.trans (wait_abandon_quiet _ r.id)).trans (update_quiet _ r.id _)).mono fun h => ?_
    obtain ⟨hu, ho⟩ := h hr
    refine ⟨⟨hu, ?_⟩, trivial⟩
    -- an application's request gets here only with no prompt queued
    rcases ho with ha | hc
    · have hm : (prompts_expire s now₁).prompts = [] := by
        by_contra hne
        exact hn ⟨ha, fun he => hne (List.isEmpty_iff.mp he)⟩
      unfold childless
      rw [hm]
      rfl
    · unfold childless at hc ⊢
      rw [hp.prompts hu]
      exact hc
  · exact (hp.trans (update_quiet _ r.id _)).mono fun h => ⟨(h hr).1, trivial⟩
  · exact (update_quiet s r.id _).mono fun _ => trivial

theorem wait_call_quiet (s : State) (r : Request) (now₁ now₂ : Nat) :
    Quiet (r.waiter = false → r.running →
        unexpired s now₁ ∧ (r.application ∨ childless s r.id)) s
      (wait_call s r now₁ now₂).1 := by
  unfold wait_call
  split_ifs with hw
  · exact .mono (.same rfl rfl) fun _ => trivial
  · exact ((update_quiet s r.id _).trans (wait_turn_quiet _ (r.set_waiter true) now₁ now₂)).mono fun h =>
      ⟨trivial, fun hr => h (Bool.eq_false_iff.mpr hw) hr⟩

theorem wait_wake_quiet (s : State) (r : Request) (tm : Bool) (now₁ now₂ : Nat) :
    Quiet (r.running → if tm then childless s r.id
        else unexpired s now₁ ∧ (r.application ∨ childless s r.id)) s
      (wait_wake s r tm now₁ now₂).1 := by
  unfold wait_wake
  split_ifs with ht hr
  · exact ((wait_abandon_quiet s r.id).trans (update_quiet _ r.id _)).mono fun h => ⟨h hr, trivial⟩
  · exact (update_quiet s r.id _).mono fun _ => trivial
  · exact wait_turn_quiet s r now₁ now₂

theorem call_cancel_quiet (s : State) (r : Request) :
    Quiet (r.running → r.cancel_sent = false → childless s r.id) s (call_cancel s r) := by
  unfold call_cancel
  split_ifs with hg
  · have hc := (update_quiet s r.id Request.cancel).trans (prompts_cancel_parent_quiet _ r.id)
    exact ⟨hc.aside, fun h => hc.prompts ⟨trivial, h hg.1 (Bool.eq_false_iff.mpr hg.2)⟩⟩
  · exact .mono (.same rfl rfl) fun _ => trivial

theorem write_quiet {i : Outbound} {sz : Nat} {m : Bool} (hi : i.answer_id = none)
    (hw : write_payload_locked s i sz m = some t) : Quiet True s t := by
  obtain ⟨-, -, rfl⟩ := write_payload_locked_some hw
  refine .same ?_ rfl
  unfold State.aside State.answered
  rw [List.filterMap_append, List.filterMap_cons, hi, List.filterMap_nil, List.append_nil]

theorem send_cancel_quiet (s : State) (id : Nat) (m : Bool) : Quiet True s (send_cancel s id m) := by
  unfold send_cancel
  cases hw : write_payload_locked s (.cancel id) (cancel_payload id).length m with
  | none => exact .same rfl rfl
  | some t => exact write_quiet rfl hw

/-! ## The deadline thread -/

/-- No queued prompt has a parent that is due. -/
def Undue (s : State) (now : Nat) : Prop :=
  ∀ r ∈ s.pool, r.running = true → r.deadline_unix_ms ≤ now → childless s r.id = true

theorem expire_request_quiet (s : State) (n : Nat) (i : List Nat) (id : Nat) :
    Quiet (Undue s n) s (expire_request n (s, i) id).1 := by
  unfold expire_request
  split
  · exact .mono (.same rfl rfl) fun _ => trivial
  · rename_i r hf
    obtain ⟨hr, -, rfl⟩ := find_request_some hf
    have ha := abandon_quiet s r.id
    dsimp only
    split_ifs with hd
    · exact (ha.trans (update_quiet _ r.id _)).mono fun hu => ⟨hu r hr hd.1 hd.2, trivial⟩
    · exact ha.mono fun hu => hu r hr hd.1 hd.2
    · exact .mono (.same rfl rfl) fun _ => trivial

theorem expire_requests_quiet (n : Nat) (td : List Nat) {a : State × List Nat} (h : Inv a.1) :
    Quiet (Undue a.1 n) a.1 (td.foldl (expire_request n) a).1 := by
  induction td generalizing a with
  | nil => exact .mono (.same rfl rfl) fun _ => trivial
  | cons id td ih =>
    have hf := expire_request_quiet a.1 n a.2 id
    refine (hf.trans (ih (h.expire_request n a.2 id))).mono fun hu => ⟨hu, ?_⟩
    intro r hr hn hd
    obtain ⟨hm, -⟩ := expire_request_running h n a.2 hr hn
    have hc := hu r hm hn hd
    unfold childless at hc ⊢
    rw [hf.prompts hu]
    exact hc

theorem deadline_pass_quiet (h : Inv s) (n : Nat) : Quiet (Undue s n) s (deadline_pass s n) := by
  have ha : Inv (s, ([] : List Nat)).1 := h
  have hl := expire_requests_quiet n (s.requests.map Request.id) ha
  exact ⟨hl.aside, hl.prompts⟩

end Monosecret.IpcResolver
