/-
  Monosecret.Rpc.ClientState — the state a client session stores (`fail_session`, `connect`,
  `start`, `close`).

  Once CLOSED is stored the session stays closed, and a closed session whose failures have
  drained the tables has no pending request, as long as READY is stored and requests are
  registered only while the session is not CLOSED (`closed_respected`). The code checks
  before both and not at both: `reopened` is a failure between the initialize response and
  the READY store, `stranded` one between the second check of `start` and its insert.
-/

import Monosecret.Rpc.Client

namespace Monosecret.Rpc.Client

open Lib Machine

def closed_respected (s : State) : Ev → Bool
  | .connect .insert | .connect .ready | .call _ .insert | .close .insert => s.state != .CLOSED
  | _ => true

/-! ## What a step stores -/

inductive Effect (s t : State) : Prop where
  /-- The state is left alone and no request is registered. -/
  | keep (hstate : t.state = s.state) (hfailed : t.failed = s.failed) (hfailing : t.failing = s.failing)
      (hpending : ∀ r ∈ t.pending, r ∈ s.pending)
  | fail (hstate : t.state = .CLOSED) (hfailed : t.failed = true) (hfailing : 0 < t.failing)
  | drain (hstate : t.state = s.state) (hfailed : t.failed = s.failed) (hpending : t.pending = [])
  /-- The session is open, and stays so. -/
  | opened (hs : s.state ≠ .CLOSED) (ht : t.state ≠ .CLOSED) (hfailed : t.failed = s.failed)

variable {cfg : Config} {s t : State}

theorem Effect.same (h : t.state = s.state) (hf : t.failed = s.failed) (hn : t.failing = s.failing)
    (hp : t.pending = s.pending) : Effect s t := .keep h hf hn fun _ hr => hp ▸ hr

theorem effect_fail (u : State) : Effect s (fail_session u) := .fail rfl rfl (Nat.succ_pos _)

theorem mem_remove_pending {r : PendingRequest} {id : RequestId} (h : r ∈ (remove_pending s id).pending) : r ∈ s.pending :=
  (List.mem_filter.mp h).1

theorem abandon_request_keep (s : State) (id : RequestId) :
    (abandon_request s id).state = s.state ∧ (abandon_request s id).failed = s.failed ∧
      (abandon_request s id).failing = s.failing ∧ ∀ r ∈ (abandon_request s id).pending, r ∈ s.pending := by
  unfold abandon_request
  split
  · dsimp only
    split <;> exact ⟨rfl, rfl, rfl, fun _ hr => mem_remove_pending hr⟩
  · exact ⟨rfl, rfl, rfl, fun _ hr => hr⟩

theorem effect_abandon {id : RequestId} (h1 : t.state = (abandon_request s id).state)
    (h2 : t.failed = (abandon_request s id).failed) (h3 : t.failing = (abandon_request s id).failing)
    (h4 : t.pending = (abandon_request s id).pending) : Effect s t := by
  obtain ⟨k1, k2, k3, k4⟩ := abandon_request_keep s id
  exact .keep (h1.trans k1) (h2.trans k2) (h3.trans k3) fun r hr => k4 r (h4 ▸ hr)

theorem connect_effect {e : ConnectEv} (hg : closed_respected s (.connect e))
    (hs : connect_step cfg s e = some t) : Effect s t := by
  unfold connect_step at hs
  split at hs
  · cases hs
    have ho : s.state ≠ .CLOSED := bne_iff_ne.mp hg
    exact .opened ho ho rfl
  · cases of_guard hs
    exact .same rfl rfl rfl rfl
  · cases hs
    exact .keep rfl rfl rfl fun _ hr => mem_remove_pending hr
  · obtain ⟨b, -, rfl⟩ := Option.map_eq_some_iff.mp hs
    split <;> exact .same rfl rfl rfl rfl
  · cases of_guard hs
    exact .same rfl rfl rfl rfl
  · cases hs
    exact effect_abandon rfl rfl rfl rfl
  · cases hs
    exact .same rfl rfl rfl rfl
  · cases hs
    exact .opened (bne_iff_ne.mp hg) nofun rfl
  · cases hs
    exact .fail rfl rfl (Nat.succ_pos _)
  · cases hs

theorem call_effect {k : Nat} {c : Call} {e : CallEv} (hg : closed_respected s (.call k e))
    (hs : call_next cfg s k c e = some t) : Effect s t := by
  unfold call_next at hs
  split at hs
  · cases of_guard hs
    exact .same rfl rfl rfl rfl
  · cases hs
    exact .same rfl rfl rfl rfl
  · split at hs <;> exact Option.some.inj hs ▸ .same rfl rfl rfl rfl
  · cases hs
    have ho : s.state ≠ .CLOSED := bne_iff_ne.mp hg
    exact .opened ho ho rfl
  · cases hs
    exact .same rfl rfl rfl rfl
  · cases of_guard hs
    exact .same rfl rfl rfl rfl
  · cases hs
    exact .keep rfl rfl rfl fun _ hr => mem_remove_pending hr
  · cases hs
    exact .same rfl rfl rfl rfl
  · cases of_guard hs
    exact .same rfl rfl rfl rfl
  · cases of_guard hs
    exact .same rfl rfl rfl rfl
  · cases of_guard hs
    exact .same rfl rfl rfl rfl
  · cases hs
    exact effect_abandon rfl rfl rfl rfl
  · cases hs
    unfold try_queue_cancel
    split <;> exact .same rfl rfl rfl rfl
  · cases hs

theorem close_effect {e : CloseEv} (hg : closed_respected s (.close e)) (hs : close_step cfg s e = some t) :
    Effect s t := by
  unfold close_step at hs
  split at hs
  · cases of_guard hs
    exact .same rfl rfl rfl rfl
  · split at hs
    · rename_i hd
      cases hs
      exact .opened (by rw [hd]; nofun) nofun rfl
    all_goals
      cases hs
      exact .same rfl rfl rfl rfl
  · cases hs
    have ho : s.state ≠ .CLOSED := bne_iff_ne.mp hg
    exact .opened ho ho rfl
  · cases of_guard hs
    exact .same rfl rfl rfl rfl
  · cases hs
    exact .keep rfl rfl rfl fun _ hr => mem_remove_pending hr
  · cases of_guard hs
    exact .same rfl rfl rfl rfl
  · cases of_guard hs
    exact .same rfl rfl rfl rfl
  · cases hs
    exact effect_abandon rfl rfl rfl rfl
  · cases hs
    exact .fail rfl rfl (Nat.succ_pos _)
  · cases hs
    exact .keep rfl rfl rfl fun _ hr => mem_remove_pending hr
  · cases hs
    exact .same rfl rfl rfl rfl
  · cases hs
    exact .same rfl rfl rfl rfl
  · cases hs

theorem effect_read_fail : Effect s (read_fail s) := .fail rfl rfl (Nat.succ_pos _)

theorem response_effect (id : RequestId) (b : Body) : Effect s (read_response s id b) := by
  unfold read_response
  split
  · exact .keep rfl rfl rfl fun _ hr => (List.mem_filter.mp hr).1
  · split
    · exact .same rfl rfl rfl rfl
    · exact effect_read_fail

theorem serve_callback_spec {r : Request} (h : serve_callback cfg s r = some t) :
    ∃ p parent, r.parent_request_id = some p ∧ parent ∈ s.pending ∧ parent.id = p ∧ inbound_seen s r.id = false ∧
      t = { s with
        inbound := s.inbound ++ [{ id := r.id, parent := p }]
        inbound_active := s.inbound_active + 1
        inbound_last := some r.id } := by
  unfold serve_callback at h
  split at h
  · cases h
  · split at h
    · cases h
    · rename_i p hp
      split at h
      · cases h
      · rename_i parent hf
        split at h
        · cases h
        · split at h
          · cases h
          · rename_i hl
            simp only [Bool.or_eq_true, not_or, Bool.not_eq_true] at hl
            exact ⟨p, parent, hp, List.mem_of_find?_eq_some hf, by simpa using List.find?_some hf, hl.2,
              (Option.some.inj h).symm⟩

theorem read_effect (frame : ServerFrame) : Effect s (read_frame cfg s frame) := by
  cases frame with
  | callback r =>
    simp only [read_frame]
    split
    · cases h : serve_callback cfg s r with
      | none => exact effect_read_fail
      | some u =>
        obtain ⟨p, parent, -, -, -, -, rfl⟩ := serve_callback_spec h
        exact .same rfl rfl rfl rfl
    · exact effect_read_fail
  | reply id b =>
    cases id with
    | none => exact effect_read_fail
    | some id => exact response_effect id b
  | terminal id b => exact response_effect id b
  | shutdown id => exact response_effect id .result

theorem inbound_effect {k : Nat} {c : Inbound} {e : InboundEv} (hs : inbound_next cfg s k c e = some t) : Effect s t := by
  unfold inbound_next at hs
  split at hs
  · cases hs
    exact .same rfl rfl rfl rfl
  · cases of_guard hs
    exact .same rfl rfl rfl rfl
  · cases of_guard hs
    exact .same rfl rfl rfl rfl
  · cases hs

theorem step_effect {e : Ev} (hg : closed_respected s e) (hs : step cfg s e = some t) : Effect s t := by
  cases e with
  | connect e => exact connect_effect hg hs
  | start m d expired =>
    simp only [step] at hs
    cases of_guard hs
    exact .same rfl rfl rfl rfl
  | call k e =>
    simp only [step] at hs
    split at hs
    · obtain ⟨c, -, hs⟩ := Option.bind_eq_some_iff.mp hs
      exact call_effect hg hs
    · cases hs
  | close e =>
    simp only [step] at hs
    split at hs
    · exact close_effect hg hs
    · cases hs
  | read frame =>
    simp only [step] at hs
    cases of_guard hs
    exact read_effect frame
  | read_failed =>
    simp only [step] at hs
    cases of_guard hs
    exact effect_read_fail
  | inbound k e =>
    obtain ⟨c, -, hs⟩ := Option.bind_eq_some_iff.mp hs
    exact inbound_effect hs
  | abandon =>
    simp only [step] at hs
    cases of_guard hs
    exact effect_fail s
  | overflow =>
    simp only [step] at hs
    cases of_guard hs
    exact .fail rfl rfl (Nat.succ_pos _)
  | drain =>
    simp only [step] at hs
    cases of_guard hs
    exact .drain rfl rfl rfl
  | take =>
    simp only [step] at hs
    cases of_guard hs
    exact .same rfl rfl rfl rfl
  | writer_fail =>
    simp only [step] at hs
    split at hs
    · cases hs
    · cases hs
      exact .fail rfl rfl (Nat.succ_pos _)
  | writer_stop | reader_abort =>
    simp only [step] at hs
    cases of_guard hs
    exact .same rfl rfl rfl rfl

/-! ## The result -/

structure ClosedInv (s : State) : Prop where
  closed : s.failed = true ↔ s.state = .CLOSED
  drained : s.state = .CLOSED → s.failing = 0 → s.pending = []

theorem ClosedInv.init : ClosedInv {} where
  closed := ⟨fun h => (nomatch h), fun h => (nomatch h)⟩
  drained := nofun

theorem ClosedInv.effect (h : ClosedInv s) (he : Effect s t) : ClosedInv t := by
  cases he with
  | keep hst hl hfn hp =>
    refine ⟨by rw [hst, hl]; exact h.closed, fun hc hn => ?_⟩
    refine List.eq_nil_iff_forall_not_mem.mpr fun r hr => List.not_mem_nil (a := r) ?_
    rw [← h.drained (hst ▸ hc) (hfn ▸ hn)]
    exact hp r hr
  | fail hst hl hfn =>
    exact ⟨⟨fun _ => hst, fun _ => hl⟩, fun _ hn => absurd hn (Nat.ne_of_gt hfn)⟩
  | drain hst hl hp => exact ⟨by rw [hst, hl]; exact h.closed, fun _ _ => hp⟩
  | opened hs ht hl =>
    refine ⟨⟨fun hf => absurd (h.closed.mp (hl ▸ hf)) hs, fun hc => absurd hc ht⟩, fun hc => absurd hc ht⟩

theorem Effect.stays_closed (he : Effect s t) (hc : s.state = .CLOSED) : t.state = .CLOSED := by
  cases he with
  | keep ht => exact ht.trans hc
  | fail ht => exact ht
  | drain ht => exact ht.trans hc
  | opened hs => exact absurd hc hs

/-- In every run that respects CLOSED: once it is stored the state stays CLOSED and every
    later `start` fails with it, and a CLOSED session with no failure in progress has no
    pending request. -/
theorem closed_is_final (cfg : Config) (s : State) (h : Reach (machine cfg) closed_respected s) :
    (s.failed = true → s.state = .CLOSED ∧
      (∀ e t, closed_respected s e = true → step cfg s e = some t → t.failed = true ∧ t.state = .CLOSED) ∧
      ∀ method expired, start_error s method expired = some .Closed) ∧
    (s.state = .CLOSED → s.failing = 0 → s.pending = []) := by
  have hn : ClosedInv s := h.inv (I := ClosedInv) .init fun _ _ _ hi hg hs =>
    hi.effect (step_effect hg hs)
  refine ⟨fun hf => ?_, hn.drained⟩
  have hc := hn.closed.mp hf
  refine ⟨hc, fun e t hg hs => ?_, fun method expired => ?_⟩
  · have he := step_effect hg hs
    have ht := he.stays_closed hc
    exact ⟨(hn.effect he).closed.mpr ht, ht⟩
  · exact if_pos (by rw [hc]; nofun)

/-! ## Runs -/

/-- A client that answers prompts. -/
def prompting : Config where
  offer := ⟨"resolver", [1], 2, ["client.prompt"], true⟩
  startup_deadline_unix_ms := 1000
  callbacks := true
  answerable := .inr rfl
  in_range := by decide

/-- `rpc.initialize` is answered and its limits are stored. -/
def negotiating : List Ev :=
  [.connect .insert, .connect .queue, .take, .read (.terminal 1 (.initialized 2 ["resolver.resolve"])),
    .connect .respond, .connect .negotiate]

/-- The transport fails before READY is stored. -/
def reopened : List Ev := negotiating ++ [.read_failed, .drain, .connect .ready]

/-- It fails between the second check of `start` and its insert. -/
def stranded : List Ev :=
  negotiating ++ [.connect .ready, .start "resolver.resolve" 1000 false, .call 0 .order, .call 0 .recheck,
    .read_failed, .drain, .call 0 .insert, .call 0 .queue]

/-- A failed session is READY again; a closed one has a pending request. -/
theorem closed_not_final :
    (¬ ∀ (cfg : Config) (s : State), Reach (machine cfg) any s → s.failed = true → s.state = .CLOSED) ∧
      ¬ ∀ (cfg : Config) (s : State), Reach (machine cfg) any s → s.state = .CLOSED → s.failing = 0 → s.pending = [] := by
  constructor
  · intro h
    obtain ⟨s, hs, hr⟩ := reach_of_run (machine prompting) any reopened (fun s => (s.failed, s.state))
      (true, .READY) (by decide)
    simp only [Prod.mk.injEq] at hr
    have ht := h prompting s hs hr.1
    rw [hr.2] at ht
    cases ht
  · intro h
    obtain ⟨s, hs, hr⟩ := reach_of_run (machine prompting) any stranded (fun s => (s.state, s.failing, s.pending))
      (.CLOSED, 0, [⟨2, 1000⟩]) (by decide)
    simp only [Prod.mk.injEq] at hr
    have hp := h prompting s hs hr.1 hr.2.1
    rw [hr.2.2] at hp
    cases hp

/-- The same failure, after READY is stored and the request is registered. -/
theorem closed_is_final_run :
    ∃ s, Reach (machine prompting) closed_respected s ∧ (s.failed = true ∧ s.failing = 0) ∧
      (s.failed = true → s.state = .CLOSED ∧
        (∀ e t, closed_respected s e = true → step prompting s e = some t → t.failed = true ∧ t.state = .CLOSED) ∧
        ∀ method expired, start_error s method expired = some .Closed) ∧
      (s.state = .CLOSED → s.failing = 0 → s.pending = []) := by
  obtain ⟨s, hs, hr⟩ := reach_of_run (machine prompting) closed_respected
    (negotiating ++ [.connect .ready, .start "resolver.resolve" 1000 false, .call 0 .order, .call 0 .recheck,
      .call 0 .insert, .call 0 .queue, .read_failed, .drain])
    (fun s => (s.failed, s.failing)) (true, 0) (by decide)
  simp only [Prod.mk.injEq] at hr
  exact ⟨s, hs, hr, closed_is_final prompting s hs⟩

end Monosecret.Rpc.Client
