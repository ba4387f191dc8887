/-
  Monosecret.IpcResolver.Answers — what becomes of an accepted prompt of the C client.

  `prompts_answered`: in a run of `answerable` steps every accepted prompt of an open session is
  `Responded`. Without the condition it is not: `silently_dropped` cancels a call whose prompt
  is queued, and the prompt is gone with no response.
-/

import Monosecret.IpcResolver.Prompts

namespace Monosecret.IpcResolver

open Lib Machine
open Option (bind_eq_some_iff ite_none_right_eq_some map_eq_some_iff)
open List (forall_mem_nil mem_append mem_append_left mem_append_right mem_cons mem_map mem_map_of_mem mem_singleton)

variable {cfg : Config} {s t : State} {id : Nat}

structure Delivery (s : State) : Prop where
  distinct : (s.prompts.map Prompt.id ++ s.held.map Held.id).Nodup
  fresh : ∀ i ∈ s.prompts.map Prompt.id ++ s.held.map Held.id ++ s.answered, i ≤ s.last_callback_id
  last : s.last_callback_id ≤ SS_MAX_ID
  queued : ∀ p ∈ s.prompts, p.answered = false ∧ s.answered.count p.id = 0
  held : ∀ h ∈ s.held, s.answered.count h.id = if h.prompt.answered then 1 else 0
  declined : ∀ h ∈ s.held, h.declined.isSome = true → h.prompt.answered = true
  accepted : ∀ i ∈ s.accepted, i ∈ s.prompts.map Prompt.id ++ s.held.map Held.id ∨ s.answered.count i = 1
  frame : SS_MIN_FRAME ≤ s.max_frame_bytes

theorem decline_size (h : id ≤ SS_MAX_ID) : (decline_payload id).length ≤ SS_MIN_FRAME := by
  have hl : id < 10 ^ 16 := by
    unfold SS_MAX_ID at h
    omega
  have hd : (toString id).length ≤ 16 := (Nat.length_repr_le_iff (by decide)).mpr hl
  unfold decline_payload
  rw [String.length_append, String.length_append]
  have hhd : "\x7b\"jsonrpc\":\"2.0\",\"id\":".length ≤ 100 := by decide +kernel
  have ht : ",\"error\":\x7b\"code\":-32006,\"message\":\"interaction required\",\"data\":\x7b\"kind\":\"interaction_required\",\"retryable\":false\x7d\x7d\x7d".length ≤
      200 := by decide +kernel
  have hf : SS_MIN_FRAME = 4096 := rfl
  omega

theorem Reply.size_pos (r : Reply) (id : Nat) : 0 < r.size id := by
  have hb : 0 < "\x7b\"jsonrpc\":\"2.0\",\"id\":".length := by decide
  cases r with
  | value sz =>
    show 0 < (answer_payload id).length + sz
    unfold answer_payload
    rw [String.length_append, String.length_append]
    omega
  | decline =>
    show 0 < (decline_payload id).length
    unfold decline_payload
    rw [String.length_append, String.length_append]
    omega

theorem write_payload_locked_room {i : Outbound} {sz : Nat} {m : Bool} (ho : s.closed = false)
    (hp : 0 < sz) (hf : sz ≤ s.max_frame_bytes) (hm : m) (hr : s.writer_stopping = false)
    (hrm : s.write_count < SS_MAX_IN_FLIGHT * 2 + 4) :
    write_payload_locked s i sz m =
      some { s with
        write_queue := s.write_queue ++ [i]
        write_count := s.write_count + 1
        written := s.written ++ [i] } := by
  unfold write_payload_locked
  rw [if_neg (by rw [ho]; exact Bool.false_ne_true), if_neg (by omega), if_neg (by rw [hm]; exact fun h => h rfl),
    if_neg]
  rintro (hw | hw)
  · rw [hr] at hw
    cases hw
  · omega

theorem answerable_answered {p : Prompt} (n : Nat) (h : p.answered) :
    prompt_answerable_locked s p n = (p, .INVALID_ARGUMENT) := by
  unfold prompt_answerable_locked
  rw [if_pos h]

theorem answerable_within {p : Prompt} {now : Nat} (h : p.answered = false) (ho : s.closed = false)
    (hw : within s p now) : prompt_answerable_locked s p now = (p, .OK) := by
  obtain ⟨hd, hp⟩ := Bool.and_eq_true_iff.mp hw
  have hd : ¬ p.deadline_unix_ms ≤ now := Nat.not_le_of_lt (of_decide_eq_true hd)
  unfold prompt_answerable_locked
  rw [if_neg (by rw [h]; exact Bool.false_ne_true), if_neg (by rw [ho]; exact Bool.false_ne_true)]
  split at hp
  · rename_i parent hf
    simp only [Bool.and_eq_true, Bool.not_eq_true', decide_eq_true_eq] at hp
    obtain ⟨⟨hr, hc⟩, hl⟩ := hp
    rw [hf]
    dsimp only
    rw [if_neg, if_neg hd]
    rintro (hn | hn | hn)
    · exact hn hr
    · rw [hc] at hn
      cases hn
    · exact absurd hl (Nat.not_le_of_lt hn)
  · cases hp

theorem holding_some {h : Held} (hs : s.holding id = some h) : h ∈ s.held ∧ h.id = id := by
  have hi := List.find?_some hs
  exact ⟨List.mem_of_find?_eq_some hs, beq_iff_eq.mp hi⟩

namespace Delivery

theorem held_unique (h : Delivery s) {a b : Held} (ha : a ∈ s.held) (hb : b ∈ s.held) (he : a.id = b.id) : a = b :=
  List.inj_on_of_nodup_map (List.nodup_append.mp h.distinct).2.1 ha hb he

/-- The prompts' story is told by the same words. -/
theorem of (h : Delivery s) (ha : t.aside = s.aside) (hp : t.prompts = s.prompts) : Delivery t := by
  simp only [State.aside, Prod.mk.injEq] at ha
  obtain ⟨hl, hs, hc, hn, -, hf⟩ := ha
  constructor
  case distinct => exact hp ▸ hl ▸ h.distinct
  case fresh => exact hp ▸ hl ▸ hn ▸ hs ▸ h.fresh
  case last => exact hs ▸ h.last
  case queued => exact hp ▸ hn ▸ h.queued
  case held => exact hl ▸ hn ▸ h.held
  case declined => exact hl ▸ h.declined
  case accepted => exact hc ▸ hp ▸ hl ▸ hn ▸ h.accepted
  case frame => exact hf ▸ h.frame

theorem quiet {safe : Prop} (h : Delivery s) (hq : Quiet safe s t) (hs : safe) : Delivery t :=
  h.of hq.aside (hq.prompts hs)

/-- The end of the story, for one id. -/
theorem responded (h : Delivery s) (hi : id ∈ s.accepted) : Responded s id := by
  rcases h.accepted id hi with hm | ho
  · rcases mem_append.mp hm with hm | hm
    · obtain ⟨p, hp, rfl⟩ := mem_map.mp hm
      exact .inl ⟨.inl ⟨p, hp, rfl⟩, (h.queued p hp).2⟩
    · obtain ⟨x, hx, rfl⟩ := mem_map.mp hm
      have hc := h.held x hx
      by_cases ha : x.prompt.answered
      · rw [if_pos ha] at hc
        exact .inr hc
      · rw [if_neg ha] at hc
        exact .inl ⟨.inr ⟨x, hx, rfl, Bool.eq_false_iff.mpr ha⟩, hc⟩
  · exact .inr ho

/-! ## Held prompts -/

variable {f : Held → Held}

theorem mem_set_held {y : Held} (hy : y ∈ (s.set_held id f).held) :
    (y ∈ s.held ∧ y.id ≠ id) ∨ ∃ x ∈ s.held, x.id = id ∧ y = f x := by
  obtain ⟨x, hx, rfl⟩ := mem_map.mp hy
  by_cases hi : x.id = id
  · rw [if_pos hi]
    exact .inr ⟨x, hx, hi, rfl⟩
  · rw [if_neg hi]
    exact .inl ⟨hx, hi⟩

theorem set_held_ids (hf : ∀ x ∈ s.held, x.id = id → (f x).id = x.id) :
    (s.set_held id f).held.map Held.id = s.held.map Held.id := by
  unfold State.set_held
  rw [List.map_map]
  refine List.map_congr_left fun x hx => ?_
  rw [Function.comp_apply]
  split
  · rename_i hi
    exact hf x hx hi
  · rfl

/-- A held prompt is changed and nothing queued: it stays answered, or unanswered. -/
theorem set_held (h : Delivery s) (hd : ∀ x ∈ s.held, x.id = id → (f x).id = x.id)
    (hf : ∀ x ∈ s.held, x.id = id → (f x).prompt.answered = x.prompt.answered ∧
      ((f x).declined.isSome → (f x).prompt.answered)) : Delivery (s.set_held id f) := by
  have hi := set_held_ids hd
  constructor
  case distinct => exact hi.symm ▸ h.distinct
  case fresh => exact hi.symm ▸ h.fresh
  case last => exact h.last
  case queued => exact h.queued
  case held =>
    intro y hy
    rcases mem_set_held hy with ⟨hy, -⟩ | ⟨x, hx, hxd, rfl⟩
    · exact h.held y hy
    · rw [hd x hx hxd, (hf x hx hxd).1]
      exact h.held x hx
  case declined =>
    intro y hy
    rcases mem_set_held hy with ⟨hy, -⟩ | ⟨x, hx, hxd, rfl⟩
    · exact h.declined y hy
    · exact (hf x hx hxd).2
  case accepted => exact hi.symm ▸ h.accepted
  case frame => exact h.frame

variable {x : Held}

/-- The response of an unanswered held prompt is queued. -/
theorem answer (h : Delivery s) (hx : x ∈ s.held) (hn : x.prompt.answered = false) (hid : (f x).id = x.id)
    (hf : (f x).prompt.answered)
    (ha : t.aside = ((s.set_held x.id f).held, s.last_callback_id, s.accepted, s.answered ++ [x.id], s.closed,
      s.max_frame_bytes)) (hr : t.prompts = s.prompts) : Delivery t := by
  simp only [State.aside, Prod.mk.injEq] at ha
  obtain ⟨hl, hs, hc, han, -, hfr⟩ := ha
  have hd : t.held.map Held.id = s.held.map Held.id := by
    rw [hl]
    refine set_held_ids fun y hy hyd => ?_
    rw [h.held_unique hy hx hyd]
    exact hid
  have hxd : x.id ∈ s.held.map Held.id := mem_map_of_mem hx
  have hzr : s.answered.count x.id = 0 := by
    rw [h.held x hx, hn]
    rfl
  have hcn : ∀ i, i ≠ x.id → t.answered.count i = s.answered.count i := by
    intro i hne
    rw [han, List.count_append, List.count_singleton, if_neg (by simpa using hne.symm)]
    rfl
  have ho : t.answered.count x.id = 1 := by
    rw [han, List.count_append, hzr, List.count_singleton_self]
  constructor
  case distinct => exact hr ▸ hd.symm ▸ h.distinct
  case fresh =>
    rw [hr, hd, han, hs]
    intro i hi
    simp only [mem_append, mem_singleton] at hi
    have hold := h.fresh i
    simp only [mem_append] at hold
    rcases hi with (hi | hi) | hi | rfl
    · exact hold (.inl (.inl hi))
    · exact hold (.inl (.inr hi))
    · exact hold (.inr hi)
    · exact h.fresh x.id (mem_append_left _ (mem_append_right _ hxd))
  case last => exact hs ▸ h.last
  case queued =>
    intro p hp
    rw [hr] at hp
    have hne : p.id ≠ x.id := (List.nodup_append.mp h.distinct).2.2 p.id (mem_map_of_mem hp) x.id hxd
    rw [hcn _ hne]
    exact h.queued p hp
  case held =>
    intro y hy
    rw [hl] at hy
    rcases mem_set_held hy with ⟨hy, hne⟩ | ⟨z, hz, hzd, rfl⟩
    · rw [hcn _ hne]
      exact h.held y hy
    · obtain rfl := h.held_unique hz hx hzd
      rw [hid, ho, if_pos hf]
  case declined =>
    intro y hy
    rw [hl] at hy
    rcases mem_set_held hy with ⟨hy, -⟩ | ⟨z, hz, hzd, rfl⟩
    · exact h.declined y hy
    · obtain rfl := h.held_unique hz hx hzd
      exact fun _ => hf
  case accepted =>
    intro i hi
    rw [hc] at hi
    rw [hr, hd]
    rcases h.accepted i hi with hm | hold
    · exact .inl hm
    · by_cases hne : i = x.id
      · rw [hne]
        exact .inr ho
      · rw [hcn i hne]
        exact .inr hold
  case frame => exact hfr ▸ h.frame

/-- Queued prompts change hands. -/
theorem hand_over (h : Delivery s) {n : List Held} {r : List Prompt}
    (hm : (r.map Prompt.id ++ (n ++ s.held).map Held.id).Perm (s.prompts.map Prompt.id ++ s.held.map Held.id))
    (hr : ∀ p ∈ r, p ∈ s.prompts)
    (hn : ∀ x ∈ n, x.prompt ∈ s.prompts ∧ x.declined = none) (hl : t.held = n ++ s.held)
    (hpr : t.prompts = r) (ha : { t with held := s.held, prompts := s.prompts }.aside = s.aside) :
    Delivery t := by
  simp only [State.aside, Prod.mk.injEq] at ha
  obtain ⟨-, hs, hc, han, -, hf⟩ := ha
  have han : t.answered = s.answered := han
  constructor
  case distinct =>
    rw [hpr, hl]
    exact hm.nodup_iff.mpr h.distinct
  case fresh =>
    rw [hpr, hl, han, hs]
    intro i hi
    refine h.fresh i ?_
    rcases mem_append.mp hi with hi | hi
    · exact mem_append_left _ (hm.mem_iff.mp hi)
    · exact mem_append_right _ hi
  case last => exact hs ▸ h.last
  case queued =>
    rw [hpr, han]
    exact fun p hp => h.queued p (hr p hp)
  case held =>
    rw [hl, han]
    intro x hx
    rcases mem_append.mp hx with hx | hx
    · obtain ⟨hu, hz⟩ := h.queued _ (hn x hx).1
      rw [hu]
      exact hz
    · exact h.held x hx
  case declined =>
    rw [hl]
    intro x hx hsm
    rcases mem_append.mp hx with hx | hx
    · rw [(hn x hx).2] at hsm
      cases hsm
    · exact h.declined x hx hsm
  case accepted =>
    rw [hc, hpr, hl, han]
    intro i hi
    rcases h.accepted i hi with hmm | ho
    · exact .inl (hm.mem_iff.mpr hmm)
    · exact .inr ho
  case frame => exact hf ▸ h.frame

/-- An answered prompt is freed. -/
theorem free (h : Delivery s) (hx : x ∈ s.held) (hd : x.prompt.answered)
    (ha : t.aside = (s.held.filter (·.id != x.id), s.last_callback_id, s.accepted, s.answered, s.closed,
      s.max_frame_bytes)) (hp : t.prompts = s.prompts) : Delivery t := by
  simp only [State.aside, Prod.mk.injEq] at ha
  obtain ⟨hl, hs, hc, hn, -, hf⟩ := ha
  have hb : (t.held.map Held.id).Sublist (s.held.map Held.id) := by
    rw [hl]
    exact List.filter_sublist.map _
  have hm : ∀ {y}, y ∈ t.held → y ∈ s.held := fun hy => (List.mem_filter.mp (hl ▸ hy)).1
  have hal : (t.prompts.map Prompt.id ++ t.held.map Held.id).Sublist (s.prompts.map Prompt.id ++ s.held.map Held.id) :=
    hp ▸ List.Sublist.append (List.Sublist.refl _) hb
  constructor
  case distinct => exact h.distinct.sublist hal
  case fresh =>
    rw [hn, hs]
    intro i hi
    refine h.fresh i ?_
    rcases mem_append.mp hi with hi | hi
    · exact mem_append_left _ (hal.subset hi)
    · exact mem_append_right _ hi
  case last => exact hs ▸ h.last
  case queued => exact hp ▸ hn ▸ h.queued
  case held => exact fun y hy => hn ▸ h.held y (hm hy)
  case declined => exact fun y hy => h.declined y (hm hy)
  case accepted =>
    rw [hc]
    intro i hi
    have ho : i = x.id → t.answered.count i = 1 := by
      rintro rfl
      rw [hn, h.held x hx, if_pos hd]
    by_cases he : i = x.id
    · exact .inr (ho he)
    · rcases h.accepted i hi with hin | hin
      · rcases mem_append.mp hin with hin | hin
        · exact .inl (mem_append_left _ (hp ▸ hin))
        · obtain ⟨y, hy, rfl⟩ := mem_map.mp hin
          have hk : y ∈ t.held := hl ▸ List.mem_filter.mpr ⟨hy, bne_iff_ne.mpr he⟩
          exact .inl (mem_append_right _ (mem_map_of_mem hk))
      · exact .inr (hn ▸ hin)
  case frame => exact hf ▸ h.frame

/-- A new prompt is taken on, into the queue or in hand. -/
theorem add (h : Delivery s) {p : Prompt} (hn : p.answered = false) (hl : s.last_callback_id < p.id)
    (hm : p.id ≤ SS_MAX_ID)
    (hd : (t.prompts.map Prompt.id ++ t.held.map Held.id).Perm
      (p.id :: (s.prompts.map Prompt.id ++ s.held.map Held.id)))
    (hp : ∀ q ∈ t.prompts, q = p ∨ q ∈ s.prompts)
    (hhl : ∀ x ∈ t.held, (x.prompt = p ∧ x.declined = none) ∨ x ∈ s.held) (hs : t.last_callback_id = p.id)
    (ha : ∀ i ∈ t.accepted, i = p.id ∨ i ∈ s.accepted) (han : t.answered = s.answered)
    (hf : t.max_frame_bytes = s.max_frame_bytes) : Delivery t := by
  have hr : ∀ i ∈ s.prompts.map Prompt.id ++ s.held.map Held.id ++ s.answered, i < p.id := fun i hi =>
    Nat.lt_of_le_of_lt (h.fresh i hi) hl
  have hz : s.answered.count p.id = 0 :=
    List.count_eq_zero.mpr fun hmm => absurd rfl (Nat.ne_of_lt (hr p.id (mem_append_right _ hmm)))
  constructor
  case distinct =>
    refine hd.nodup_iff.mpr (List.nodup_cons.mpr ⟨fun hmm => ?_, h.distinct⟩)
    exact absurd rfl (Nat.ne_of_lt (hr p.id (mem_append_left _ hmm)))
  case fresh =>
    rw [hs, han]
    intro i hi
    rcases mem_append.mp hi with hi | hi
    · rcases mem_cons.mp (hd.mem_iff.mp hi) with rfl | hi
      · exact Nat.le_refl _
      · exact Nat.le_of_lt (hr i (mem_append_left _ hi))
    · exact Nat.le_of_lt (hr i (mem_append_right _ hi))
  case last => exact hs ▸ hm
  case queued =>
    rw [han]
    intro q hq
    rcases hp q hq with rfl | hq
    · exact ⟨hn, hz⟩
    · exact h.queued q hq
  case held =>
    rw [han]
    intro x hx
    rcases hhl x hx with ⟨hxp, -⟩ | hx
    · rw [Held.id, hxp, hz, hn]
      rfl
    · exact h.held x hx
  case declined =>
    intro x hx hsm
    rcases hhl x hx with ⟨-, hnn⟩ | hx
    · rw [hnn] at hsm
      cases hsm
    · exact h.declined x hx hsm
  case accepted =>
    rw [han]
    intro i hi
    rcases ha i hi with rfl | hi
    · exact .inl (hd.mem_iff.mpr (.head _))
    · rcases h.accepted i hi with hmm | ho
      · exact .inl (hd.mem_iff.mpr (.tail _ hmm))
      · exact .inr ho
  case frame => exact hf ▸ h.frame

theorem accept_answered (h : Delivery s) (ho : s.answered.count id = 1) :
    Delivery { s with accepted := s.accepted ++ [id] } := by
  refine ⟨h.distinct, h.fresh, h.last, h.queued, h.held, h.declined, fun i hi => ?_, h.frame⟩
  rcases mem_append.mp hi with hi | hi
  · exact h.accepted i hi
  · exact .inr (mem_singleton.mp hi ▸ ho)

/-! ## The two sections of `answer_prompt` -/

theorem returned_id (own : Bool) (st : Status) (x : Held) : (x.returned own st).id = x.id := by
  unfold Held.returned
  split <;> rfl

theorem returned_prompt (own : Bool) (st : Status) (x : Held) : (x.returned own st).prompt = x.prompt := by
  unfold Held.returned
  split <;> rfl

variable {own : Bool}

theorem returned_declined {st : Status} (h : ((x.returned own st).declined).isSome) :
    own ∨ x.declined.isSome := by
  unfold Held.returned at h
  by_cases ho : own
  · exact .inl ho
  · rw [if_neg ho] at h
    exact .inr h

/-- An attempt returns to an answered prompt, or to a caller. -/
theorem returned (h : Delivery s) {st : Status}
    (hn : ∀ x ∈ s.held, x.id = id → own → x.prompt.answered) :
    Delivery (s.set_held id (·.returned own st)) := by
  refine h.set_held (fun x _ _ => returned_id own st x) fun x hx hi => ?_
  rw [returned_prompt]
  refine ⟨rfl, fun hs => ?_⟩
  rcases returned_declined hs with ho | hd
  · exact hn x hx hi ho
  · exact h.declined x hx hd

theorem check_answer (h : Delivery s) (hp : s.closed = false) (hx : x ∈ s.held) {n : Nat}
    (hn : own → x.prompt.answered = false) (hg : (x.prompt.answered || within s x.prompt n)) :
    Delivery (check_answer s x own n) := by
  unfold IpcResolver.check_answer
  by_cases ha : x.prompt.answered
  · have hc : own = false := Bool.eq_false_iff.mpr fun ho => by
      rw [hn ho] at ha
      cases ha
    rw [answerable_answered n ha, hc]
    refine h.set_held (fun y hy hi => ?_) fun y hy hi => ?_
    · rw [h.held_unique hy hx hi]
      rfl
    · rw [h.held_unique hy hx hi]
      exact ⟨rfl, fun _ => ha⟩
  · have hw := Bool.eq_false_iff.mpr ha
    rw [hw, Bool.false_or] at hg
    rw [answerable_within hw hp hg]
    -- only the attempts in progress are counted
    refine h.set_held (fun y _ _ => ?_) fun y hy _ => ?_
    · split <;> rfl
    · split
      · exact ⟨rfl, h.declined y hy⟩
      · exact ⟨rfl, h.declined y hy⟩

theorem queue_answer (h : Delivery s) (hx : x ∈ s.held) (hn : x.prompt.answered = false) {sz : Nat} {m : Bool}
    (hw : write_payload_locked (s.set_held x.id fun y => { y with prompt := { x.prompt with answered := true } })
      (.answer x.id) sz m = some t) : Delivery t ∧ ∀ y ∈ t.held, y.id = x.id → y.prompt.answered := by
  obtain ⟨-, -, rfl⟩ := write_payload_locked_some hw
  constructor
  · refine h.answer hx hn (f := fun y => { y with prompt := { x.prompt with answered := true } }) rfl rfl ?_ rfl
    have hl : (s.written ++ [Outbound.answer x.id]).filterMap Outbound.answer_id = s.answered ++ [x.id] :=
      List.filterMap_append
    unfold State.aside
    rw [← hl]
    rfl
  · intro y hy hi
    rcases mem_set_held hy with ⟨-, hne⟩ | ⟨z, -, -, rfl⟩
    · exact absurd hi hne
    · rfl

theorem commit_answer (h : Delivery s) (hp : s.closed = false) (hx : x ∈ s.held) {r : Reply} {n : Nat}
    {m : Bool} (hn : own → r = .decline)
    (hg : (x.prompt.answered || within s x.prompt n && (r.size x.id > s.max_frame_bytes ||
      (m && !s.writer_stopping && s.write_count < SS_MAX_IN_FLIGHT * 2 + 4)))) :
    Delivery (commit_answer s x own r n m) := by
  unfold IpcResolver.commit_answer
  dsimp only
  by_cases ha : x.prompt.answered
  · rw [answerable_answered n ha]
    refine h.set_held (fun y hy hi => ?_) fun y hy hi => ?_
    · rw [h.held_unique hy hx hi]
      rfl
    · rw [h.held_unique hy hx hi]
      exact ⟨rfl, fun _ => ha⟩
  · have hw := Bool.eq_false_iff.mpr ha
    rw [hw, Bool.false_or, Bool.and_eq_true] at hg
    rw [answerable_within hw hp hg.1]
    dsimp only
    by_cases hs : r.size x.id > s.max_frame_bytes
    · rw [if_pos hs]
      refine h.returned fun y _ _ ho => ?_
      -- a decline fits every negotiated frame
      rw [hn ho] at hs
      have hi : x.id ≤ SS_MAX_ID := Nat.le_trans
        (h.fresh x.id (mem_append_left _ (mem_append_right _ (mem_map_of_mem hx)))) h.last
      exact absurd (Nat.le_trans (decline_size hi) h.frame) (Nat.not_le_of_lt hs)
    · rw [if_neg hs]
      have hr : (m && !s.writer_stopping && s.write_count < SS_MAX_IN_FLIGHT * 2 + 4) := by
        rcases Bool.or_eq_true_iff.mp hg.2 with hb | hr
        · exact absurd (of_decide_eq_true hb) hs
        · exact hr
      simp only [Bool.and_eq_true, Bool.not_eq_true', decide_eq_true_eq] at hr
      obtain ⟨⟨hm, ht⟩, hc⟩ := hr
      have hwr := @write_payload_locked_room
        (s.set_held x.id fun y => { y with prompt := { x.prompt with answered := true } }) (.answer x.id)
        (r.size x.id) m hp (r.size_pos x.id) (Nat.le_of_not_lt hs) hm ht hc
      rw [hwr]
      obtain ⟨hd, han⟩ := h.queue_answer hx hw hwr
      exact hd.returned fun y hy hi _ => han y hy hi

end Delivery

/-! ## The steps -/

/-- A step closes the session, or leaves it as open as it was and an `answerable` one keeps
    every prompt's story. -/
def Kept (cfg : Config) (s : State) (e : Ev) (t : State) : Prop :=
  t.closed = true ∨
    t.closed = s.closed ∧ (s.closed = false → answerable cfg s e = true → Delivery s → Delivery t)

theorem Quiet.closed {safe : Prop} (h : Quiet safe s t) : t.closed = s.closed := congrArg (·.2.2.2.2.1) h.aside

theorem Quiet.kept {safe : Prop} {e : Ev} (h : Quiet safe s t)
    (hs : s.closed = false → answerable cfg s e → safe) : Kept cfg s e t :=
  .inr ⟨h.closed, fun ho hg hd => hd.quiet h (hs ho hg)⟩

theorem fail_all_closed (s : State) (st : Status) : (fail_all s st).closed := by
  unfold fail_all
  split
  · assumption
  · rfl

theorem open_step_kept {e : OpenEv} (hs : open_step cfg s e = some t) : Kept cfg s (.opener e) t := by
  cases e with
  | start n d b =>
    replace hs := of_guard hs
    cases hs
    have hq := start_request_quiet s n d false b
    exact Quiet.kept ⟨hq.aside, hq.prompts⟩ fun _ _ => trivial
  | validated frame i =>
    obtain ⟨hg, hs⟩ := ite_none_right_eq_some.mp hs
    cases hs
    have hf : SS_MIN_FRAME ≤ frame := by
      obtain ⟨-, -, hl, -, -⟩ := hg
      simp only [limits_valid, Bool.and_eq_true, decide_eq_true_eq] at hl
      exact hl.1.1.1
    refine .inr ⟨rfl, fun _ _ hd => ?_⟩
    exact ⟨hd.distinct, hd.fresh, hd.last, hd.queued, hd.held, hd.declined, hd.accepted, hf⟩
  | _ =>
    replace hs := of_guard hs
    cases hs
    exact Quiet.kept (.same rfl rfl) fun _ _ => trivial

/-- A prompt is refused, or is new and taken on. -/
theorem accept_prompt_kept {p : Prompt} (hp : p.answered = false) (memory : Bool) (now₁ now₂ : Nat) :
    (accept_prompt cfg s p memory now₁ now₂).1.closed = s.closed ∧
      ((!admitted cfg s p memory || (unexpired s now₁ && decide (now₂ < p.deadline_unix_ms))) → Delivery s →
        Delivery (accept_prompt cfg s p memory now₁ now₂).1) := by
  have he := prompts_expire_quiet s now₁
  unfold accept_prompt
  split
  · exact ⟨rfl, fun _ hd => hd⟩
  · rename_i hn
    split
    · exact ⟨rfl, fun _ hd => hd⟩
    · rename_i parent hf
      split
      · exact ⟨rfl, fun _ hd => hd⟩
      · rename_i hr
        have ha : admitted cfg s p memory := by
          simp only [not_or, not_not, Nat.not_lt] at hn hr
          unfold admitted
          rw [hf]
          simp [hn, hr]
        rw [ha, Bool.not_true, Bool.false_or, Bool.and_eq_true, decide_eq_true_eq]
        dsimp only
        split
        · rename_i hdu
          exact ⟨he.closed, fun hg => absurd hg.2 (Nat.not_lt_of_le hdu)⟩
        · split
          · exact ⟨he.closed, fun hg hd => hd.quiet he hg.1⟩
          · rename_i hm
            simp only [not_or, Nat.not_le] at hm hn
            have hmx : p.id ≤ SS_MAX_ID := Nat.le_of_not_lt hn.2.2.1
            split
            · refine ⟨he.closed, fun hg hd => ?_⟩
              have hu := hd.quiet he hg.1
              refine hu.add hp hm.2.1 hmx ?_ (fun q hq => .inr hq) ?_ rfl (fun i hi => .inr hi) rfl rfl
              · exact List.perm_middle
              · intro x hx
                rcases mem_cons.mp hx with rfl | hx
                · exact .inl ⟨rfl, rfl⟩
                · exact .inr hx
            · refine ⟨he.closed, fun hg hd => ?_⟩
              have hu := hd.quiet he hg.1
              refine hu.add hp hm.2.1 hmx (.refl _) (fun q hq => mem_cons.mp hq) (fun x hx => .inr hx) rfl
                ?_ rfl rfl
              intro i hi
              rcases mem_append.mp hi with hi | hi
              · exact .inr hi
              · exact .inl (mem_singleton.mp hi)

theorem reader_step_kept {e : ReaderEv} (hs : reader_step cfg s e = some t) : Kept cfg s (.reader e) t := by
  cases e with
  | response id st =>
    replace hs := of_guard hs
    split at hs
    · cases hs
      exact Quiet.kept (.same rfl rfl) fun _ _ => trivial
    · rename_i u hu
      cases hs
      have hq := deliver_response_quiet hu
      refine Quiet.kept ⟨hq.aside, hq.prompts⟩ fun ho hg => ?_
      have hn : (find_request s id).isNone = false := by
        unfold deliver_response at hu
        cases hf : find_request s id with
        | none =>
          rw [hf] at hu
          cases hu
        | some r => rfl
      simp only [answerable] at hg
      rwa [ho, hn, Bool.false_or, Bool.false_or] at hg
  | prompt id parent_request_id deadline_unix_ms memory now₁ now₂ =>
    replace hs := of_guard hs
    cases hs
    obtain ⟨hc, hk⟩ := @accept_prompt_kept cfg s { id, parent_request_id, deadline_unix_ms } rfl memory now₁ now₂
    refine .inr ⟨hc, fun ho hg hd => ?_⟩
    simp only [answerable] at hg
    rw [ho, Bool.false_or] at hg
    exact (hk hg hd).of rfl rfl
  | declined =>
    simp only [reader_step] at hs
    split at hs
    · split at hs
      · rename_i id x hx
        obtain ⟨hm, rfl⟩ := holding_some hx
        obtain ⟨st, ht, rfl⟩ := map_eq_some_iff.mp hs
        have hr : ∀ u : State, u.aside = (s.held.filter (·.id != x.id), s.last_callback_id, s.accepted, s.answered,
            s.closed, s.max_frame_bytes) → u.prompts = s.prompts → Delivery s → Delivery u := by
          intro u ha hp hd
          exact hd.free hm (hd.declined x hm (by rw [ht]; rfl)) ha hp
        split
        · refine .inr ⟨rfl, fun _ _ hd => ?_⟩
          have hon : s.answered.count x.id = 1 := by
            rw [hd.held x hm, hd.declined x hm (by rw [ht]; rfl)]
            rfl
          have hu := hr { s with held := s.held.filter (·.id != x.id) } rfl rfl hd
          exact (hu.accept_answered hon).of rfl rfl
        · exact .inr ⟨rfl, fun _ _ hd => hr _ rfl rfl hd⟩
      · cases hs
    · cases hs
  | fail =>
    simp only [reader_step] at hs
    split at hs
    · cases hs
      exact .inl (fail_all_closed s _)
    · cases hs
  | _ =>
    replace hs := of_guard hs
    cases hs
    exact Quiet.kept (.same rfl rfl) fun _ _ => trivial

theorem writer_step_kept {e : WriterEv} (hs : writer_step s e = some t) : Kept cfg s (.writer e) t := by
  cases e with
  | write ok =>
    replace hs := of_guard hs
    split at hs
    · cases hs
    · cases hs
      exact Quiet.kept (.same rfl rfl) fun _ _ => trivial
  | fail =>
    replace hs := of_guard hs
    cases hs
    exact .inl (fail_all_closed s _)
  | stop =>
    replace hs := of_guard hs
    cases hs
    exact Quiet.kept (.same rfl rfl) fun _ _ => trivial

theorem deadline_step_kept (h : Inv s) {n : Nat} (hs : step cfg s (.deadline n) = some t) :
    Kept cfg s (.deadline n) t := by
  simp only [step] at hs
  split_ifs at hs
  cases hs
  refine Quiet.kept (deadline_pass_quiet h n) fun ho hg r hr hn hd => ?_
  simp only [answerable] at hg
  rw [ho, Bool.false_or] at hg
  have hl := mem_requests.mpr ⟨hr, (h.accounts.running r hr hn).1⟩
  have ht := List.all_eq_true.mp hg r hl
  rw [hn, decide_eq_false (Nat.not_lt_of_le hd)] at ht
  exact ht

theorem call_step_kept {e : CallEv} (hs : call_step s e = some t) : Kept cfg s (.call e) t := by
  cases e with
  | start now₁ now₂ d a b =>
    replace hs := of_guard hs
    cases hs
    refine @Quiet.kept _ _ _ True _ ?_ fun _ _ => trivial
    unfold call_start
    split_ifs
    · exact .same rfl rfl
    · exact start_request_quiet s now₂ d true b
    · exact .same rfl rfl
  | wait id now₁ now₂ =>
    obtain ⟨r, hr, rfl⟩ := map_eq_some_iff.mp hs
    obtain ⟨-, rfl⟩ := call_some hr
    refine Quiet.kept (wait_call_quiet s r now₁ now₂) fun ho hg hw hn => ?_
    simp only [answerable, call_answerable] at hg
    rw [ho, hr, Bool.false_or] at hg
    simpa [hw, hn] using hg
  | wake id tm now₁ now₂ =>
    obtain ⟨r, hr, hk⟩ := bind_eq_some_iff.mp hs
    replace hk := of_guard hk
    cases hk
    obtain ⟨-, rfl⟩ := call_some hr
    refine Quiet.kept (wait_wake_quiet s r tm now₁ now₂) fun ho hg hn => ?_
    simp only [answerable, call_answerable] at hg
    rw [ho, hr, Bool.false_or] at hg
    cases tm <;> simpa [hn] using hg
  | cancel id =>
    obtain ⟨r, hr, rfl⟩ := map_eq_some_iff.mp hs
    obtain ⟨-, rfl⟩ := call_some hr
    refine Quiet.kept (call_cancel_quiet s r) fun ho hg hn hsn => ?_
    simp only [answerable, call_answerable] at hg
    rw [ho, hr, Bool.false_or] at hg
    simpa [hn, hsn] using hg
  | send_cancel id m =>
    replace hs := of_guard hs
    cases hs
    have hq := send_cancel_quiet { s with cancels := s.cancels.erase id } id m
    exact Quiet.kept ⟨hq.aside, hq.prompts⟩ fun _ _ => trivial

theorem commit_answer_closed (s : State) (x : Held) (own : Bool) (r : Reply) (n : Nat) (m : Bool) :
    (commit_answer s x own r n m).closed = s.closed := by
  unfold commit_answer
  dsimp only
  split
  · split
    · rfl
    · split
      · rename_i u hu
        obtain ⟨-, -, rfl⟩ := write_payload_locked_some hu
        rfl
      · rfl
  · rfl

theorem check_answer_closed (s : State) (x : Held) (own : Bool) (n : Nat) :
    (check_answer s x own n).closed = s.closed := by
  unfold check_answer
  split <;> rfl

theorem prompt_step_kept {e : PromptEv} (hs : prompt_step s e = some t) : Kept cfg s (.prompt e) t := by
  cases e with
  | take now =>
    simp only [prompt_step] at hs
    split_ifs at hs
    have he := prompts_expire_quiet s now
    have hf : s.closed = false → answerable cfg s (.prompt (.take now)) → unexpired s now := by
      intro hp hg
      simp only [answerable, prompt_answerable] at hg
      rwa [hp, Bool.false_or] at hg
    split at hs
    · cases hs
      exact he.kept hf
    · rename_i p rs hr
      cases hs
      refine .inr ⟨he.closed, fun hp hg hd => ?_⟩
      have hu := hd.quiet he (hf hp hg)
      refine @Delivery.hand_over _ _ hu [{ prompt := p, owner := .caller }] rs ?_ ?_ ?_ rfl rfl rfl
      · rw [hr]
        exact List.perm_middle
      · intro q hq
        rw [hr]
        exact .tail _ hq
      · intro x hx
        obtain rfl := mem_singleton.mp hx
        rw [hr]
        exact ⟨.head _, rfl⟩
  | check id own now =>
    obtain ⟨x, hx, hc⟩ := bind_eq_some_iff.mp hs
    obtain ⟨hm, rfl⟩ := holding_some hx
    have hk : (own → x.prompt.answered = false) → Kept cfg s (.prompt (.check x.id own now))
        (check_answer s x own now) := by
      refine fun hn => .inr ⟨check_answer_closed s x own now, fun hp hg hd => ?_⟩
      simp only [answerable, prompt_answerable] at hg
      rw [hp, hx, Bool.false_or] at hg
      exact hd.check_answer hp hm hn hg
    split_ifs at hc with hn hg hl
    · cases hc
      exact hk fun _ => Bool.eq_false_iff.mpr hg.1
    · cases hc
      exact hk fun ho => absurd ho hn
  | unbuilt id own =>
    obtain ⟨x, hx, hun⟩ := bind_eq_some_iff.mp hs
    replace hun := of_guard hun
    cases hun
    obtain ⟨hm, rfl⟩ := holding_some hx
    refine .inr ⟨rfl, fun hp hg hd => hd.returned fun y hy hi ho => ?_⟩
    simp only [answerable, prompt_answerable] at hg
    rw [hp, hx, ho] at hg
    rw [hd.held_unique hy hm hi]
    exact hg
  | commit id own r now m =>
    obtain ⟨x, hx, hcm⟩ := bind_eq_some_iff.mp hs
    obtain ⟨ha, hcm⟩ := ite_none_right_eq_some.mp hcm
    cases hcm
    obtain ⟨hm, rfl⟩ := holding_some hx
    refine .inr ⟨commit_answer_closed s x own r now m, fun hp hg hd => ?_⟩
    simp only [answerable, prompt_answerable] at hg
    rw [hp, hx, Bool.false_or] at hg
    exact hd.commit_answer hp hm ha.2 hg
  | free id =>
    obtain ⟨x, hx, hfr⟩ := bind_eq_some_iff.mp hs
    obtain ⟨⟨-, -, -, hdn⟩, hfr⟩ := ite_none_right_eq_some.mp hfr
    cases hfr
    obtain ⟨hm, rfl⟩ := holding_some hx
    refine .inr ⟨rfl, fun _ _ hd => ?_⟩
    have han : x.prompt.answered := hdn.elim id (hd.declined x hm)
    exact hd.free hm han rfl rfl

theorem close_step_kept {e : CloseEv} (hs : close_step s e = some t) : Kept cfg s (.close e) t := by
  cases e with
  | start =>
    replace hs := of_guard hs
    cases hs
    refine .inr ⟨rfl, fun _ _ hd => ?_⟩
    refine @Delivery.hand_over _ _ hd (s.prompts.map fun p => { prompt := p, owner := .close }) [] ?_ ?_ ?_ rfl rfl rfl
    · rw [List.map_append, List.map_map]
      exact .refl _
    · exact fun p hp => absurd hp List.not_mem_nil
    · intro x hx
      obtain ⟨p, hp, rfl⟩ := mem_map.mp hx
      exact ⟨hp, rfl⟩
  | shutdown n d b =>
    replace hs := of_guard hs
    cases hs
    have hq := start_request_quiet s n d false b
    exact Quiet.kept ⟨hq.aside, hq.prompts⟩ fun _ _ => trivial
  | fail =>
    replace hs := of_guard hs
    cases hs
    exact .inl (fail_all_closed s _)
  | _ =>
    replace hs := of_guard hs
    cases hs
    exact Quiet.kept (.same rfl rfl) fun _ _ => trivial

theorem step_kept (h : Inv s) {e : Ev} (hs : step cfg s e = some t) : Kept cfg s e t := by
  cases e with
  | opener e => exact open_step_kept hs
  | reader e => exact reader_step_kept hs
  | writer e => exact writer_step_kept hs
  | deadline now => exact deadline_step_kept h hs
  | call e => exact call_step_kept hs
  | prompt e => exact prompt_step_kept hs
  | close e => exact close_step_kept hs

theorem delivery_init : Delivery (machine cfg).init where
  distinct := List.nodup_nil
  fresh := forall_mem_nil _
  last := Nat.zero_le _
  queued := forall_mem_nil _
  held := forall_mem_nil _
  declined := forall_mem_nil _
  accepted := forall_mem_nil _
  frame := (by decide : SS_MIN_FRAME ≤ SS_ABSOLUTE_MAX_FRAME)

theorem Delivery.reach (h : Reach (machine cfg) (answerable cfg) s) : s.closed = false → Delivery s := by
  refine h.inv_reach (I := fun s => s.closed = false → Delivery s) (fun _ => delivery_init) fun s e t hr hd hg hs => ?_
  intro ho
  rcases step_kept (Inv.reach hr) hs with hc | ⟨hm, hk⟩
  · rw [ho] at hc
    cases hc
  · rw [hm] at ho
    exact hk ho hg (hd ho)

/-! ## Every accepted prompt -/

theorem prompts_answered (h : Reach (machine cfg) (answerable cfg) s) (hopen : s.closed = false) :
    ∀ id ∈ s.accepted, Responded s id := fun _ hi => (Delivery.reach h hopen).responded hi

/-- A session with one call running that has raised a prompt. -/
def prompted : List Ev :=
  opened ++ [.call (.start 0 0 500 true ⟨true, some 90, true⟩), .reader (.prompt 1 2 400 true 10 10)]

/-- The prompt is taken and answered, a second one is raised and waits. -/
theorem prompts_answered_run :
    ∃ s, Reach (machine ⟨true, 4096, 4⟩) (answerable ⟨true, 4096, 4⟩) s ∧ (s.closed, s.accepted) = (false, [1, 2]) ∧
      Responded s 1 ∧ Responded s 2 := by
  obtain ⟨s, hr, hs⟩ := reach_of_run (machine ⟨true, 4096, 4⟩) (answerable ⟨true, 4096, 4⟩)
    (prompted ++ [.prompt (.take 20), .prompt (.check 1 false 20), .prompt (.commit 1 false (.value 6) 20 true),
      .prompt (.free 1), .reader (.prompt 2 2 450 true 30 30)])
    (fun s => (s.closed, s.accepted)) (false, [1, 2]) (by decide)
  obtain ⟨ho, ha⟩ := Prod.mk.inj hs
  have h := prompts_answered hr ho
  rw [ha] at h
  exact ⟨s, hr, hs, h 1 (by decide), h 2 (by decide)⟩

/-- The call that raised a queued prompt is cancelled: the prompt is gone, the session open, and
    no response was ever queued. -/
theorem silently_dropped :
    ¬ ∀ cfg s, Reach (machine cfg) any s → s.closed = false → ∀ id ∈ s.accepted, Responded s id := by
  intro ha
  obtain ⟨s, hr, hs⟩ := reach_of_run (machine ⟨true, 4096, 4⟩) any (prompted ++ [.call (.cancel 2)])
    (fun s => (s.closed, s.accepted, s.prompts, s.held, s.answered)) (false, [1], [], [], []) (by decide)
  simp only [Prod.mk.injEq] at hs
  obtain ⟨ho, hc, hpr, hl, hn⟩ := hs
  have h := ha _ s hr ho 1 (by rw [hc]; exact List.mem_singleton_self 1)
  unfold Responded at h
  rw [hpr, hl, hn] at h
  rcases h with ⟨⟨p, hp, -⟩ | ⟨x, hx, -⟩, -⟩ | h
  · exact absurd hp List.not_mem_nil
  · exact absurd hx List.not_mem_nil
  · cases h

end Monosecret.IpcResolver
