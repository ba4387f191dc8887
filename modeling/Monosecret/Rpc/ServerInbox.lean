/-
  Monosecret.Rpc.ServerInbox — what a server session takes from the frames it reads.

  It accepts an application request under the ID of its frame; it takes an offer, and
  answers it with the limit it selected from it; it settles a callback by the response that
  carries the callback's ID. Every other step leaves these alone.
-/

import Monosecret.Rpc.ServerOrder

namespace Monosecret.Rpc.Server

open Lib Machine

variable {cfg : Config} {s t : State}

/-- The frame read is a request under this ID. -/
def Ev.Asks (e : Ev) (id : RequestId) (ok : Request → Prop) : Prop :=
  ∃ r expired, e = .session (.recv (.request r) expired) ∧ r.id = id ∧ ok r

structure Inbox (s t : State) (e : Ev) : Prop where
  accepted : t.accepted = s.accepted ∨
    ∃ id, t.accepted = s.accepted ++ [id] ∧ e.Asks id fun r => is_application r.method = true
  init_request : t.init_request = s.init_request ∨ ∃ id, t.init_request = some id ∧ e.Asks id fun _ => True
  client_methods : t.client_methods = s.client_methods ∨
    ∃ id, e.Asks id fun r => ∃ params, r.params = .offer params ∧ params.client_methods = t.client_methods
  selected : t.selected = s.selected ∨ s.loop = .reading ∧ s.initialized = false

theorem Inbox.same {e : Ev} (h1 : t.accepted = s.accepted) (h2 : t.init_request = s.init_request)
    (h3 : t.client_methods = s.client_methods) (h4 : t.selected = s.selected) : Inbox s t e :=
  ⟨.inl h1, .inl h2, .inl h3, .inl h4⟩

theorem asks_offer {e : SessionEv} {id : RequestId} {methods : List String} (he : e.Offers id methods) :
    (Ev.session e).Asks id fun r => ∃ p, r.params = .offer p ∧ p.client_methods = methods := by
  obtain ⟨r, expired, p, rfl, hi, hp, hm⟩ := he
  exact ⟨r, expired, rfl, hi, p, hp, hm⟩

theorem session_inbox {e : SessionEv} (hs : session_step cfg s e = some t) : Inbox s t (.session e) := by
  cases session_step_move hs with
  | answer last selected m rs g id b done lost hl hls hrs hid ht ho =>
    rcases ho with ⟨hsl, hm⟩ | ⟨hl, hi, -, q, he⟩
    · exact .same rfl rfl hm hsl
    · exact ⟨.inl rfl, .inl rfl, .inr ⟨q, asks_offer he⟩, .inr ⟨hl, hi⟩⟩
  | offer id selected m hl hi hf hsl he =>
    obtain ⟨r, expired, hr, hid, -⟩ := asks_offer he
    exact ⟨.inl rfl, .inr ⟨id, rfl, r, expired, hr, hid, trivial⟩, .inr ⟨id, asks_offer he⟩, .inr ⟨hl, hi⟩⟩
  | accept id hl hi hf hsh he =>
    obtain ⟨r, expired, rfl, hid, ha⟩ := he
    exact ⟨.inr ⟨id, rfl, r, expired, rfl, hid, ha⟩, .inl rfl, .inl rfl, .inl rfl⟩
  | deliver id u hl hd => rcases deliver_eq hd with rfl | rfl <;> exact .same rfl rfl rfl rfl
  | _ => exact .same rfl rfl rfl rfl

theorem step_inbox {e : Ev} (hs : step cfg s e = some t) : Inbox s t e := by
  cases e with
  | session e => exact session_inbox hs
  | call p e =>
    obtain ⟨o, -, rfl⟩ := call_step_spec hs
    exact .same rfl rfl rfl rfl
  | enter parent m =>
    simp only [step] at hs
    cases of_guard hs
    exact .same rfl rfl rfl rfl
  | callback k e =>
    obtain ⟨c, d, -, -, rfl⟩ := cb_step_spec hs
    exact .same rfl rfl rfl rfl
  | take =>
    obtain ⟨-, -, ht, -⟩ := take_spec hs
    rw [ht]
    exact .same rfl rfl rfl rfl
  | writer_fail => exact Option.some.inj hs ▸ .same rfl rfl rfl rfl

/-! ## The initialize response -/

/-- Every initialize response carries the limit selected. -/
structure OfferInv (s : State) : Prop where
  asked : s.loop.opening = true → s.init_request.isSome = true
  reply : ∀ id n names done lost, s.loop ≠ .replying id (.initialized n names) done lost
  decided : ∀ id n names, s.loop = .init_reply id (.initialized n names) → n = s.selected
  sent : ∀ f ∈ s.log, ∀ n names, f.body = some (.initialized n names) → n = s.selected ∧ s.init_request.isSome = true

theorem OfferInv.init : OfferInv {} where
  asked := nofun
  reply := nofun
  decided := nofun
  sent := nofun

/-- A step that takes no offer. -/
theorem OfferInv.of (h : OfferInv s) (m : List ServerFrame) (hg : t.log = s.log ++ m)
    (hm : ∀ f ∈ m, ∀ n names, f.body = some (.initialized n names) → n = s.selected ∧ s.init_request.isSome)
    (hs : t.selected = s.selected) (hr : t.init_request = s.init_request)
    (hp : t.loop.opening → s.loop.opening)
    (hrl : ∀ id n names done lost, t.loop = .replying id (.initialized n names) done lost → s.loop = t.loop)
    (hd : ∀ id n names, t.loop = .init_reply id (.initialized n names) → s.loop = t.loop ∨ n = s.selected) :
    OfferInv t where
  asked := fun ho => hr ▸ h.asked (hp ho)
  reply := fun id n names done lost hl => h.reply id n names done lost ((hrl id n names done lost hl).trans hl)
  decided := fun id n names hl => by
    rw [hs]
    exact (hd id n names hl).elim (fun he => h.decided id n names (he.trans hl)) fun he => he
  sent := fun f hf n names hb => by
    rw [hs, hr]
    rcases List.mem_append.mp (hg ▸ hf) with hf | hf
    · exact h.sent f hf n names hb
    · exact hm f hf n names hb

/-- A step that queues nothing, to a loop state outside `rpc.initialize`. -/
theorem OfferInv.quiet (h : OfferInv s) (hg : t.log = s.log) (hs : t.selected = s.selected)
    (hr : t.init_request = s.init_request) (hp : t.loop.opening = false)
    (hrl : ∀ id n names done lost, t.loop ≠ .replying id (.initialized n names) done lost) : OfferInv t := by
  refine h.of [] (hg.trans (List.append_nil _).symm) nofun hs hr (fun ho => ?_)
    (fun id n names done lost hl => absurd hl (hrl id n names done lost)) fun id n names hl => ?_
  · rw [hp] at ho
    cases ho
  · rw [hl] at hp
    cases hp

/-- A step that leaves the loop and the offer alone. -/
theorem OfferInv.keep (h : OfferInv s) (m : List ServerFrame) (hl : t.log = s.log ++ m)
    (hm : ∀ f ∈ m, ∀ n names, f.body ≠ some (.initialized n names)) (hs : t.selected = s.selected)
    (hr : t.init_request = s.init_request) (hp : t.loop = s.loop) : OfferInv t :=
  h.of m hl (fun f hf n names hb => absurd hb (hm f hf n names)) hs hr (fun ho => hp ▸ ho)
    (fun _ _ _ _ _ _ => hp.symm) fun _ _ _ _ => .inl hp.symm

/-- While the session may take an offer, it has answered none. -/
theorem OfferInv.unsent (h : OfferInv s) (hp : PermitInv s) (hl : s.loop = .reading) (hi : s.initialized = false) :
    ∀ f ∈ s.log, ∀ n names, f.body ≠ some (.initialized n names) := fun f hf n names hb => by
  have hs := (h.sent f hf n names hb).2
  rw [hp.unasked hi (by rw [hl]; rfl)] at hs
  cases hs

theorem OfferInv.move {e : SessionEv} (h : OfferInv s) (hp : PermitInv s) (hs : session_step cfg s e = some t) :
    OfferInv t := by
  cases session_step_move hs with
  | stay => exact h
  | answer last selected m r g id b done lost hl hls hr hid ht ho hin hbd =>
    have hrl : ∀ id' n names done' lost',
        Loop.replying id b done lost ≠ .replying id' (.initialized n names) done' lost' := fun id' n names _ _ hl =>
      hbd n names (by injection hl)
    rcases ho with ⟨hsl, -⟩ | ⟨hl, hi, -, -⟩
    · exact h.quiet rfl hsl rfl rfl hrl
    · exact ⟨nofun, hrl, nofun, fun f hf n names hb =>
        absurd hb (h.unsent hp hl hi f hf n names)⟩
  | close | drain => exact h.quiet rfl rfl rfl rfl nofun
  | deliver id u hl hd =>
    rcases deliver_eq hd with rfl | rfl
    all_goals exact h.keep [] (List.append_nil _).symm nofun rfl rfl rfl
  | cancel id hl => exact h.keep [] (List.append_nil _).symm nofun rfl rfl rfl
  | offer id selected m hl hi hf hsl he =>
    exact ⟨fun _ => rfl, nofun, nofun, fun f hf n names hb => absurd hb (h.unsent hp hl hi f hf n names)⟩
  | shutdown id hl | accept id hl => exact h.keep [] (List.append_nil _).symm nofun rfl rfl rfl
  | push id b done lost hl =>
    refine h.of [.reply id b] rfl (fun f hf n names hb => ?_) rfl rfl nofun nofun nofun
    rw [List.mem_singleton.mp hf] at hb
    exact absurd (hl.trans (by rw [Option.some.inj hb])) (h.reply id n names done lost)
  | push_init id b hl =>
    refine h.of [.terminal id b] rfl (fun f hf n names hb => ?_) rfl rfl (fun _ => by rw [hl]; rfl) nofun nofun
    rw [List.mem_singleton.mp hf] at hb
    exact ⟨h.decided id n names (hl.trans (by rw [Option.some.inj hb])), h.asked (by rw [hl]; rfl)⟩
  | resume | negotiate => exact h.quiet rfl rfl rfl rfl nofun
  | decide id b hl hb =>
    refine h.of [] (List.append_nil _).symm nofun rfl rfl (fun _ => by rw [hl]; rfl) nofun
      fun id' n names hl' => .inr ?_
    injection hl' with _ hbd
    rcases hb with rfl | ⟨k, rfl⟩
    · injection hbd with hn
      exact hn.symm
    · cases hbd
  | decided id hl =>
    exact h.of [] (List.append_nil _).symm nofun rfl rfl (fun _ => by rw [hl]; rfl) nofun nofun
  | reap p hl => exact h.keep [] (List.append_nil _).symm nofun rfl rfl rfl
  | joined => exact h.quiet rfl rfl rfl rfl nofun
  | shutdown_reply id =>
    refine h.of [.shutdown id] rfl (fun f hf n names hb => ?_) rfl rfl nofun nofun nofun
    rw [List.mem_singleton.mp hf] at hb
    cases hb
  | shutdown_skip => exact h.quiet rfl rfl rfl rfl nofun

theorem of_error_ne (error : Option ErrorKind) (n : Nat) (names : List String) :
    Body.of_error error ≠ .initialized n names := by
  cases error <;> nofun

theorem CallTask.next_body {e : CallEnv} {c : CallTask} {o : CallOut} {ev : CallEv} {b : Body}
    (h : c.next e ev = some o) (he : o.emit = some b) (n : Nat) (names : List String) :
    b ≠ .initialized n names := by
  cases hp : c.phase <;> cases ev <;> simp [CallTask.next, hp, CallPhase.live] at h
  all_goals grind [of_error_ne]

theorem OfferInv.step {e : Ev} (h : OfferInv s) (hp : PermitInv s) (hs : step cfg s e = some t) : OfferInv t := by
  cases e with
  | session e => exact h.move hp hs
  | call p e =>
    obtain ⟨o, ho, rfl⟩ := call_step_spec hs
    refine h.keep _ rfl (fun f hf n names hb => ?_) rfl rfl rfl
    obtain ⟨b, hd, rfl⟩ := Option.map_eq_some_iff.mp (Option.mem_toList.mp hf)
    exact CallTask.next_body ho hd n names (Option.some.inj hb)
  | enter parent m =>
    simp only [Server.step] at hs
    cases of_guard hs
    exact h.keep [] (List.append_nil _).symm (by simp) rfl rfl rfl
  | callback k e =>
    obtain ⟨c, d, -, -, rfl⟩ := cb_step_spec hs
    refine h.keep (queued d e) rfl (fun f hf n names hb => ?_) rfl rfl rfl
    cases e <;> simp only [queued, List.not_mem_nil, List.mem_singleton] at hf
    rw [hf] at hb
    cases hb
  | take =>
    obtain ⟨-, -, ht, -⟩ := take_spec hs
    rw [ht]
    exact h.keep [] (List.append_nil _).symm (by simp) rfl rfl rfl
  | writer_fail => exact Option.some.inj hs ▸ h.keep [] (List.append_nil _).symm (by simp) rfl rfl rfl

/-! ## Answers -/

/-- A callback is answered by the response to its ID. -/
theorem deliver_answered {id : RequestId} (hd : deliver s id = some t) :
    ∀ d ∈ t.cbs, d.answered → (∃ c ∈ s.cbs, c.answered ∧ c.id = d.id) ∨ d.id = id := by
  rcases deliver_eq hd with rfl | rfl
  · intro d hd ha
    obtain ⟨c, hc, rfl⟩ := List.mem_map.mp hd
    by_cases hm : (c.pending && c.id == id)
    · rw [Callback.deliver_pending, if_pos hm]
      exact .inr (beq_iff_eq.mp (Bool.and_eq_true_iff.mp hm).2)
    · rw [Callback.deliver_pending, if_neg hm] at ha ⊢
      exact .inl ⟨c, hc, ha, rfl⟩
  · intro d hd ha
    obtain ⟨c, hc, rfl⟩ := List.mem_map.mp hd
    by_cases hm : (c.parked && c.id == id)
    · rw [Callback.deliver_parked, if_pos hm]
      exact .inr (beq_iff_eq.mp (Bool.and_eq_true_iff.mp hm).2)
    · rw [Callback.deliver_parked, if_neg hm] at ha ⊢
      exact .inl ⟨c, hc, ha, rfl⟩

theorem Callback.next_answered {e : CbEnv} {c d : Callback} {ev : CbEv} (h : c.next e ev = some d) (hk : c.Kept)
    (ha : d.answered) : c.answered ∧ d.id = c.id := by
  have := hk.unnumbered
  cases ev <;> simp only [Callback.next] at h
  all_goals grind [Callback.leave, Callback.abandon_call, CbPhase.unnumbered]

theorem Callback.next_method {e : CbEnv} {c d : Callback} {ev : CbEv} (h : c.next e ev = some d) :
    d.method = c.method := by
  cases ev <;> simp only [Callback.next] at h
  all_goals grind [Callback.leave, Callback.abandon_call]

/-- The frame read is a response to this callback. -/
def Ev.Answers (e : Ev) (id : RequestId) : Prop :=
  ∃ body expired, e = .session (.recv (.response (some id) body) expired)

/-- The callbacks after a step: an answered one was answered before, or by this step; and
    each keeps its method, or enters with one the client advertised. -/
structure Calls (s t : State) (e : Ev) : Prop where
  answered : ∀ d ∈ t.cbs, d.answered = true → (∃ c ∈ s.cbs, c.answered = true ∧ c.id = d.id) ∨ e.Answers d.id
  method : ∀ d ∈ t.cbs, (∃ c ∈ s.cbs, c.method = d.method) ∨ s.client_methods.contains d.method = true

theorem Calls.same {e : Ev} (h : t.cbs = s.cbs) : Calls s t e where
  answered := fun d hd ha => .inl ⟨d, h ▸ hd, ha, rfl⟩
  method := fun d hd => .inl ⟨d, h ▸ hd, rfl⟩

theorem Calls.fail {e : Ev} (h : t.cbs = s.cbs.map Callback.fail) : Calls s t e where
  answered := fun d hd ha => by
    obtain ⟨c, hc, rfl⟩ := List.mem_map.mp (h ▸ hd)
    exact .inl ⟨c, hc, ha, rfl⟩
  method := fun d hd => by
    obtain ⟨c, hc, rfl⟩ := List.mem_map.mp (h ▸ hd)
    exact .inl ⟨c, hc, rfl⟩

theorem session_calls {e : SessionEv} (hs : session_step cfg s e = some t) : Calls s t (.session e) := by
  cases session_step_move hs with
  | close | drain => exact .fail rfl
  | deliver id u hl hd he =>
    obtain ⟨b, expired, rfl⟩ := he
    refine ⟨fun d hd' ha => (deliver_answered hd d hd' ha).imp_right fun hi => ⟨b, expired, by rw [hi]⟩,
      fun d hd' => ?_⟩
    rcases deliver_eq hd with rfl | rfl
    · obtain ⟨c, hc, rfl⟩ := List.mem_map.mp hd'
      exact .inl ⟨c, hc, (settles_deliver_pending id c).method.symm⟩
    · obtain ⟨c, hc, rfl⟩ := List.mem_map.mp hd'
      exact .inl ⟨c, hc, (settles_deliver_parked id c).method.symm⟩
  | _ => exact .same rfl

theorem step_calls {e : Ev} (h : OrderInv s) (hs : step cfg s e = some t) : Calls s t e := by
  cases e with
  | session e => exact session_calls hs
  | call p e =>
    obtain ⟨o, -, rfl⟩ := call_step_spec hs
    exact .same rfl
  | enter parent m =>
    simp only [step] at hs
    split at hs
    · rename_i hp
      cases hs
      refine ⟨fun d hd ha => ?_, fun d hd => ?_⟩
      · rcases List.mem_append.mp hd with hd | hd
        · exact .inl ⟨d, hd, ha, rfl⟩
        · rw [List.mem_singleton.mp hd] at ha
          cases ha
      · rcases List.mem_append.mp hd with hd | hd
        · exact .inl ⟨d, hd, rfl⟩
        · rw [List.mem_singleton.mp hd]
          exact .inr hp.2.2
    · cases hs
  | callback k e =>
    obtain ⟨c, d, hk, hn, rfl⟩ := cb_step_spec hs
    have hc : c ∈ s.cbs := List.mem_of_getElem? hk
    refine ⟨fun d' hd' ha => ?_, fun d' hd' => ?_⟩
    · rcases List.mem_or_eq_of_mem_set hd' with hd' | rfl
      · exact .inl ⟨d', hd', ha, rfl⟩
      · obtain ⟨ha', hi⟩ := Callback.next_answered hn (h.kept c hc) ha
        exact .inl ⟨c, hc, ha', hi.symm⟩
    · rcases List.mem_or_eq_of_mem_set hd' with hd' | rfl
      · exact .inl ⟨d', hd', rfl⟩
      · exact .inl ⟨c, hc, (Callback.next_method hn).symm⟩
  | take =>
    obtain ⟨-, -, ht, -⟩ := take_spec hs
    rw [ht]
    exact .same rfl
  | writer_fail => exact Option.some.inj hs ▸ .same rfl

end Monosecret.Rpc.Server
