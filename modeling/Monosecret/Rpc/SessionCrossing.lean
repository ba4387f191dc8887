/-
  Monosecret.Rpc.SessionCrossing — callbacks and the requests they serve, crossing on the
  two streams.

  A callback whose parent has no response ahead of it in the server's queue is one the
  server was entitled to send. The client finds the parent pending when it reads the
  callback, and accepts it, in every run where the client gives a request up only with no
  such callback in flight, and the server queues one only for a request the client has not
  given up, within its deadline (`uncrossed`). The code does not keep to such runs: `waived`
  drops a call while its callback is in flight, `overtaken` before the cancellation arrives.
-/

import Monosecret.Rpc.Session

namespace Monosecret.Rpc.Session

open Lib Machine

/-- A response to the request is in the queue. -/
def answered (log : List ServerFrame) (id : RequestId) : Bool := log.any fun f => f.response_id == some id

/-- A callback in flight serves the request, and was queued before its response. -/
def in_flight (s : State) (id : RequestId) : Bool :=
  (List.range s.server.log.length).any fun j =>
    decide (s.read ≤ j) && (s.server.log[j]?.bind ServerFrame.parent) == some id && !answered (s.server.log.take j) id

/-- The callback's deadline is at most its request's. -/
def contained (log : List ClientFrame) (c : Server.Callback) : Bool :=
  log.all fun
    | .request r => r.id != c.parent || decide (c.deadline_unix_ms ≤ r.deadline_unix_ms)
    | _ => true

def uncrossed (s : State) : Ev → Bool
  | .client e =>
    match Client.gives_up s.client e with
    | some id => !in_flight s id
    | none => true
  | .server (.callback k .enqueue) =>
    match s.server.cbs[k]? with
    | some c => answered s.server.log c.parent || !s.given_up.contains c.parent && contained s.client.log c
    | none => true
  | _ => true

def crossing_respected (s : State) (e : Ev) : Bool := permits_held s e && uncrossed s e

variable {scfg : Server.Config} {ccfg : Client.Config} {s t : State} {e : Ev}

/-! ## Responses in the queue -/

theorem answered_iff {l : List ServerFrame} {id : RequestId} :
    answered l id ↔ ∃ f ∈ l, f.response_id = some id := by
  simp [answered]

theorem answered_mono {l m : List ServerFrame} {id : RequestId} (h : ∀ f ∈ l, f ∈ m) (ha : answered l id) :
    answered m id := by
  obtain ⟨f, hf, hi⟩ := answered_iff.mp ha
  exact answered_iff.mpr ⟨f, h f hf, hi⟩

theorem in_flight_of {j : Nat} {r : Request} {p : RequestId} (hj : s.read ≤ j)
    (hf : s.server.log[j]? = some (.callback r)) (hp : r.parent_request_id = some p)
    (ha : answered (s.server.log.take j) p = false) : in_flight s p := by
  refine List.any_eq_true.mpr ⟨j, List.mem_range.mpr (List.getElem?_eq_some_iff.mp hf).1, ?_⟩
  simp [hj, hf, ServerFrame.parent, hp, ha]

theorem contained_le {l : List ClientFrame} {c : Server.Callback} {r : Request} (h : contained l c)
    (hr : .request r ∈ l) (hi : r.id = c.parent) : c.deadline_unix_ms ≤ r.deadline_unix_ms := by
  have hl := List.all_eq_true.mp h _ hr
  simpa [hi] using hl

/-! ## The invariant -/

structure CrossingInv (ccfg : Client.Config) (s : State) : Prop where
  heard : ∀ p, p ∈ s.server.accepted ∨ s.server.init_request = some p → ∃ r, .request r ∈ s.client.log ∧ r.id = p
  /-- A request stays pending until it is answered or given up, or the session fails. -/
  asked : ∀ id ms, Client.Asks ccfg s.client id ms → answered (s.server.log.take s.read) id = true ∨
    id ∈ s.given_up ∨ s.client.failed = true ∨ ⟨id, ms⟩ ∈ s.client.pending
  methods : ∀ method ∈ s.server.client_methods, method ∈ ccfg.offer.client_methods
  called : ∀ c ∈ s.server.cbs, c.method ∈ ccfg.offer.client_methods
  flight : ∀ j r p, s.read ≤ j → s.server.log[j]? = some (.callback r) → r.parent_request_id = some p →
    answered (s.server.log.take j) p = false →
    s.client.failed = true ∨ ∃ entry ∈ s.client.pending, entry.id = p ∧ r.deadline_unix_ms ≤ entry.deadline_unix_ms
  offered : ∀ r, .callback r ∈ s.server.log → r.method ∈ ccfg.offer.client_methods

theorem CrossingInv.init : CrossingInv ccfg {} where
  heard := fun _ h => h.elim nofun nofun
  asked := fun _ _ h => by
    cases h with
    | frame r hr => cases hr
    | call c hc => cases hc
    | connect h | close _ _ h => cases h
  methods := nofun
  called := nofun
  flight := nofun
  offered := nofun

/-- What the server heard of the client's methods is the client's own offer. -/
theorem offer_methods {e : Server.Ev} {id : RequestId} {m : List String} (h : SessionInv ccfg s)
    (ha : e.Asks id fun r => ∃ p, r.params = .offer p ∧ p.client_methods = m)
    (hhr : ∀ frame expired, e = .session (.recv frame expired) → frame ∈ s.client.log) :
    m = ccfg.offer.client_methods := by
  obtain ⟨r, hr, -, p, hp, rfl⟩ := asks_frame ha hhr
  rcases h.requests r hr with rfl | ⟨-, hn⟩
  · injection hp with hp
    rw [hp]
  · exact absurd hp (hn p)

section

variable (h : CrossingInv ccfg s) (hi : SessionInv ccfg s)

include h hi

/-- A queued callback finds its parent pending at the client. -/
theorem CrossingInv.enqueue {k : Nat} {c : Server.Callback}
    (hk : s.server.cbs[k]? = some c) (hg : uncrossed s (.server (.callback k .enqueue)))
    (hn : answered s.server.log c.parent = false) : s.client.failed ∨
      ∃ en ∈ s.client.pending, en.id = c.parent ∧ c.deadline_unix_ms ≤ en.deadline_unix_ms := by
  simp only [uncrossed, hk, hn, Bool.false_or, Bool.and_eq_true, Bool.not_eq_true', List.contains_eq_mem,
    decide_eq_false_iff_not] at hg
  obtain ⟨r, hr, hd⟩ := h.heard c.parent (hi.permits.parent c (List.mem_of_getElem? hk))
  rcases h.asked r.id r.deadline_unix_ms (.frame r hr) with ha | hgn | hl | hp
  · have han := answered_mono (fun _ hf => List.mem_of_mem_take hf) (hd ▸ ha)
    rw [hn] at han
    cases han
  · exact absurd (hd ▸ hgn) hg.1
  · exact .inl hl
  · exact .inr ⟨_, hp, hd, contained_le hg.2 hr hd⟩

theorem CrossingInv.server {e' : Server.Ev} {u : Server.State} {received : Nat} (hs : Server.step scfg s.server e' = some u)
    (hg : ∀ k, e' = .callback k .enqueue → uncrossed s (.server e'))
    (hhr : ∀ frame expired, e' = .session (.recv frame expired) → frame ∈ s.client.log) :
    CrossingInv ccfg { s with server := u, received := received } := by
  obtain ⟨m, hl, hm⟩ := Server.step_log hs
  have hn := Server.step_inbox hs
  refine ⟨fun p hp => ?_, fun id ms ha => ?_, fun mt hmm => ?_, fun c hc => ?_,
    fun j r p hj hf hp ha => ?_, fun r hr => ?_⟩
  · rcases hp with hp | hp
    · rcases hn.accepted with he | ⟨id, he, hak⟩
      · exact h.heard p (.inl (he ▸ hp))
      · rcases List.mem_append.mp (he ▸ hp) with hp | hp
        · exact h.heard p (.inl hp)
        · obtain ⟨r, hr, hd, -⟩ := asks_frame hak hhr
          exact ⟨r, hr, hd.trans (List.mem_singleton.mp hp).symm⟩
    · rcases hn.init_request with he | ⟨id, he, hak⟩
      · exact h.heard p (.inr (he ▸ hp))
      · obtain ⟨r, hr, hd, -⟩ := asks_frame hak hhr
        exact ⟨r, hr, hd.trans (Option.some.inj (he.symm.trans hp))⟩
  · exact (h.asked id ms ha).imp_left (answered_mono fun f hf => hl ▸ take_mem hf)
  · rcases hn.client_methods with he | ⟨id, hak⟩
    · exact h.methods mt (he ▸ hmm)
    · exact offer_methods hi hak hhr ▸ hmm
  · rcases (Server.step_calls hi.order hs).method c hc with ⟨c0, hc0, hm0⟩ | hw
    · exact hm0 ▸ h.called c0 hc0
    · exact h.methods c.method (List.contains_iff_mem.mp hw)
  · -- A frame of the queue before, or the callback queued by this step.
    simp only [hl] at hf ha
    by_cases ht : j < s.server.log.length
    · rw [List.getElem?_append_left ht] at hf
      rw [List.take_append_of_le_length (Nat.le_of_lt ht)] at ha
      exact h.flight j r p hj hf hp ha
    · rw [List.getElem?_append_right (Nat.le_of_not_lt ht)] at hf
      obtain ⟨k, c, rfl, hk, rfl⟩ := hm r (List.mem_of_getElem? hf)
      have hz : j - s.server.log.length = 0 := by
        have := (List.getElem?_eq_some_iff.mp hf).1
        rw [List.length_singleton] at this
        omega
      rw [hz] at hf
      injection hf with hf
      injection hf with hf
      subst hf
      cases hp
      rw [List.take_append, List.take_of_length_le (Nat.le_of_not_lt ht), hz, List.take_zero, List.append_nil] at ha
      exact h.enqueue hi hk (hg k rfl) ha
  · rcases List.mem_append.mp (hl ▸ hr) with hr | hr
    · exact h.offered r hr
    · obtain ⟨k, c, -, hk, rfl⟩ := hm r hr
      injection List.mem_singleton.mp hr with hr
      rw [hr]
      exact h.called c (List.mem_of_getElem? hk)

/-- A step of the client; `n` counts the frames it has read after it. -/
theorem CrossingInv.client {e' : Client.Ev} {u : Client.State} {n : Nat} {given_up : List RequestId}
    (hs : Client.step ccfg s.client e' = some u) (hn : s.read ≤ n)
    (hm : ∀ id ∈ s.given_up, id ∈ given_up)
    (hgn : ∀ id, Client.gives_up s.client e' = some id → id ∈ given_up ∧ in_flight s id = false)
    (hd : ∀ id, e'.reads = some id → answered (s.server.log.take n) id) :
    CrossingInv ccfg { s with client := u, read := n, given_up := given_up } := by
  obtain ⟨m, hk⟩ := Client.step_keeps hs
  have hl : ∀ en ∈ s.client.pending, en ∉ u.pending → Client.gives_up s.client e' ≠ some en.id →
      e'.reads ≠ some en.id → u.failed := fun en he hno hg hr => by
    rcases hk.kept en he with hin | hv | hre | hps
    · exact absurd hin hno
    · exact absurd hv hg
    · exact absurd hre hr
    · exact hk.failed (hi.pending.failing hps)
  refine ⟨fun p hp => ?_, fun id ms ha => ?_, h.methods, h.called, fun j r p hj hf hp ha => ?_, h.offered⟩
  · obtain ⟨r, hr, hid⟩ := h.heard p hp
    exact ⟨r, hk.log ▸ List.mem_append_left _ hr, hid⟩
  · rcases hk.asks ha with ha | hpn
    · rcases h.asked id ms ha with ha | hv | hf | hpn
      · exact .inl (answered_mono (fun f hf => List.take_subset_take_left _ hn hf) ha)
      · exact .inr (.inl (hm id hv))
      · exact .inr (.inr (.inl (hk.failed hf)))
      · by_cases hin : ⟨id, ms⟩ ∈ u.pending
        · exact .inr (.inr (.inr hin))
        · by_cases hg : Client.gives_up s.client e' = some id
          · exact .inr (.inl (hgn id hg).1)
          · by_cases hr : e'.reads = some id
            · exact .inl (hd id hr)
            · exact .inr (.inr (.inl (hl _ hpn hin hg hr)))
    · exact .inr (.inr (.inr hpn))
  · have hj' : s.read ≤ j := Nat.le_trans hn hj
    rcases h.flight j r p hj' hf hp ha with hf' | ⟨en, he, rfl, hle⟩
    · exact .inl (hk.failed hf')
    · by_cases hin : en ∈ u.pending
      · exact .inr ⟨en, hin, rfl, hle⟩
      · refine .inl (hl en he hin (fun hg => ?_) fun hr => ?_)
        · have hfg := in_flight_of hj' hf hp ha
          rw [(hgn _ hg).2] at hfg
          cases hfg
        · have han := answered_mono (fun f hf => List.take_subset_take_left _ hj hf) (hd _ hr)
          rw [show answered (s.server.log.take j) en.id = false from ha] at han
          cases han

theorem CrossingInv.step (hg : uncrossed s e) (hs : Session.step scfg ccfg s e = some t) : CrossingInv ccfg t := by
  have hp := step_part hs
  clear hs
  cases hp with
  | server e' u r hs he hr =>
    refine h.server hi hs (fun k hk => ?_) hr
    rcases he with rfl | he
    · exact hg
    · rw [hk] at he
      cases he
  | client e' u hs he ho =>
    subst he
    refine h.client hi hs (Nat.le_refl _) (fun id hd => List.mem_append_left _ hd) (fun id hd => ?_) fun id hd => ?_
    · simp only [uncrossed, hd, Bool.not_eq_true'] at hg
      exact ⟨List.mem_append_right _ (by rw [hd]; exact List.mem_singleton_self _), hg⟩
    · cases e' with
      | read => cases ho
      | _ => cases hd
  | read frame u hn hs =>
    refine h.client hi hs (Nat.le_succ _) (fun id hd => hd) nofun fun id hd => ?_
    refine answered_iff.mpr ⟨frame, ?_, hd⟩
    rw [List.take_add_one, show s.server.log[s.read]? = some frame from hn]
    exact List.mem_append_right _ (List.mem_singleton_self _)

/-! ## The result -/

theorem CrossingInv.serves {r : Request} {p : RequestId}
    (hn : next_frame s = some (.callback r)) (hp : r.parent_request_id = some p)
    (he : answered (s.server.log.take s.read) p = false) (ho : s.client.failed = false) :
    (Client.serve_callback ccfg s.client r).isSome := by
  have hm := h.offered r (List.mem_of_getElem? hn)
  have hs : Client.inbound_seen s.client r.id = false := by
    cases hb : Client.inbound_seen s.client r.id
    · rfl
    · obtain ⟨i, hin, hl⟩ := hi.inbound.bound r.id hb
      exact absurd ((hi.next_newer hn).2 _ (hi.served _ (List.mem_map_of_mem hin))) (Nat.not_lt_of_le hl)
  rcases h.flight s.read r p (Nat.le_refl _) hn hp he with hf | ⟨en, ht, rfl, hl⟩
  · rw [ho] at hf
    cases hf
  · unfold Client.serve_callback
    rw [if_neg (not_not_intro (List.contains_iff_mem.mpr hm)), hp]
    dsimp only
    rw [hi.pending.find ht]
    dsimp only
    rw [if_neg (Nat.not_lt_of_le hl), hi.not_full hn, hs]
    rfl

end

/-- In every run in which no callback crosses the end of its request: a live client accepts
    every callback the server was entitled to send, and stays live. -/
theorem entitled_callback_served (scfg : Server.Config) (ccfg : Client.Config) (s : State)
    (h : Reach (machine scfg ccfg) crossing_respected s) (r : Request) (p : RequestId)
    (hnext : next_frame s = some (.callback r)) (hp : r.parent_request_id = some p)
    (hentitled : answered (s.server.log.take s.read) p = false) (hopen : s.client.failed = false) :
    ∃ u, Client.serve_callback ccfg s.client r = some u ∧ Client.read_frame ccfg s.client (.callback r) = u ∧
      u.failed = false := by
  have hn : SessionInv ccfg s ∧ CrossingInv ccfg s :=
    h.inv (I := fun s => SessionInv ccfg s ∧ CrossingInv ccfg s) ⟨.init, .init⟩ fun s e t ⟨hi, hc⟩ hg hs => by
      rw [crossing_respected, Bool.and_eq_true] at hg
      exact ⟨hi.step hg.1 hs, hc.step hi hg.2 hs⟩
  obtain ⟨u, hu⟩ := Option.isSome_iff_exists.mp (hn.2.serves hn.1 hnext hp hentitled hopen)
  have hl : ccfg.callbacks := ccfg.answerable.resolve_left fun hnl => by
    have hm := hn.2.offered r (List.mem_of_getElem? hnext)
    rw [hnl] at hm
    cases hm
  refine ⟨u, hu, by simp only [Client.read_frame, hl, if_true, hu]; rfl, ?_⟩
  obtain ⟨_, _, -, -, -, -, rfl⟩ := Client.serve_callback_spec hu
  exact hopen

/-! ## Runs -/

/-- The client drops its call while the callback that serves it is in flight. -/
def waived : List Ev := opening ++ prompt 2 0 ++ [.client (.call 0 .give_up), .client (.call 0 .settle)]

/-- It drops its call, and the callback is queued before the cancellation arrives. -/
def overtaken : List Ev := opening ++ [.client (.call 0 .give_up), .client (.call 0 .settle)] ++ prompt 2 0

/-- The first callback of request 2. -/
def prompted : Request := ⟨1, "client.prompt", 1000, some 2, .other⟩

/-- The next frame, whether request 2 is accepted and answered, and whether the client has
    failed, before it reads `prompted` and after. -/
def crossed (s : State) : Option ServerFrame × Bool × Bool × Bool × Bool :=
  (next_frame s, s.server.accepted.contains 2, answered s.server.log 2, s.client.failed,
    (Client.read_frame Client.prompting s.client (.callback prompted)).failed)

/-- The callback serves an accepted, unanswered request, and the client fails on it. -/
theorem entitled_callback_refused :
    (¬ ∀ (scfg : Server.Config) (ccfg : Client.Config) (s : State), Reach (machine scfg ccfg) any s →
      ∀ r p, next_frame s = some (.callback r) → r.parent_request_id = some p → s.server.accepted.contains p = true →
        answered s.server.log p = false → s.client.failed = false →
        (Client.read_frame ccfg s.client (.callback r)).failed = false) ∧
    ∃ s, Reach (machine narrow Client.prompting) any s ∧ crossed s = (some (.callback prompted), true, false, false, true) := by
  refine ⟨fun h => ?_, reach_of_run _ _ overtaken _ _ (by decide)⟩
  obtain ⟨s, hs, hr⟩ := reach_of_run (machine narrow Client.prompting) any waived crossed
    (some (.callback prompted), true, false, false, true) (by decide)
  simp only [crossed, Prod.mk.injEq] at hr
  obtain ⟨hn, ha, han, ho, hf⟩ := hr
  have hl := h narrow Client.prompting s hs prompted 2 hn rfl ha han ho
  rw [hf] at hl
  cases hl

/-- The client still waits when the callback arrives. -/
theorem entitled_callback_served_run :
    ∃ s, Reach (machine narrow Client.prompting) crossing_respected s ∧
      ∃ u, Client.serve_callback Client.prompting s.client prompted = some u ∧
        Client.read_frame Client.prompting s.client (.callback prompted) = u ∧ u.failed = false := by
  obtain ⟨s, hs, hr⟩ := reach_of_run (machine narrow Client.prompting) crossing_respected (opening ++ prompt 2 0)
    (fun s => (next_frame s, answered (s.server.log.take s.read) 2, s.client.failed))
    (some (.callback prompted), false, false) (by decide)
  simp only [Prod.mk.injEq] at hr
  obtain ⟨hn, he, ho⟩ := hr
  exact ⟨s, hs, entitled_callback_served narrow Client.prompting s hs prompted 2 hn rfl he ho⟩

end Monosecret.Rpc.Session
