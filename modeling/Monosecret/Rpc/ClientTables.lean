/-
  Monosecret.Rpc.ClientTables — the tables of a client session: the requests it asks and the
  callbacks it serves (`PendingRequest`, `InboundCallbacks`).

  `Keeps` is what every step does to the requests: a frame is queued only for a request that
  is registered, a pending entry stays until the request is given up or answered or the
  session fails, and the limits come from an initialize response. A step is `serving` when it
  touches the inbound table; every other one leaves the table alone and queues no response.
-/

import Monosecret.Lib.Lists
import Monosecret.Rpc.ClientState

namespace Monosecret.Rpc.Client

open Lib Machine
open List (countP_set filter_sublist mem_append mem_append_left mem_map mem_singleton)

/-- The request a step gives up, its pending entry removed. -/
def gives_up (s : State) : Ev → Option RequestId
  | .connect .queue_failed | .connect .expire => some initialize_id
  | .call k (.queue_failed _) | .call k .give_up => s.calls[k]?.map (·.id)
  | .close .queue_failed | .close .expire | .close .drop =>
    match s.closer with
    | .registered id _ | .queued id => some id
    | _ => none
  | _ => none

/-- The step accepts a callback, or is one of its task. -/
def Ev.serving : Ev → Bool
  | .read (.callback _) | .inbound _ _ => true
  | _ => false

/-- The request whose response a step reads. -/
def Ev.reads : Ev → Option RequestId
  | .read frame => frame.response_id
  | _ => none

/-- The limits are stored. -/
def ConnectPhase.limited : ConnectPhase → Bool
  | .negotiated | .connected => true
  | _ => false

/-- The in-flight limit `connect` took from the initialize response. -/
def taken_limit (s : State) : Option Nat :=
  match s.connect with
  | .answered max_in_flight _ => some max_in_flight
  | .negotiated | .connected => some s.max_in_flight
  | _ => none

variable (cfg : Config)

/-- The client asks this request: it is registered, or its frame was queued. -/
inductive Asks (s : State) : RequestId → Nat → Prop where
  | frame (r : Request) (h : .request r ∈ s.log) : Asks s r.id r.deadline_unix_ms
  | call (c : Call) (hc : c ∈ s.calls) (hp : c.phase = .registered) : Asks s c.id c.deadline_unix_ms
  | connect (h : s.connect = .registered) : Asks s initialize_id cfg.startup_deadline_unix_ms
  | close (id : RequestId) (deadline_unix_ms : Nat) (h : s.closer = .registered id deadline_unix_ms) :
      Asks s id deadline_unix_ms

/-- How the pending table changes. -/
inductive Pends (s t : State) : Prop where
  | fewer (hsub : t.pending.Sublist s.pending) (hnext : s.next_id ≤ t.next_id)
      (hstart : t.connect = .starting → s.connect = .starting)
  | insert (ms : Nat) (hp : t.pending = s.pending ++ [⟨s.next_id, ms⟩]) (hnext : t.next_id = s.next_id + 1)
      (hs : s.connect = .connected) (ht : t.connect = .connected)
  | opening (ms : Nat) (hs : s.connect = .starting) (ht : t.connect = .registered)
      (hp : t.pending = s.pending ++ [⟨initialize_id, ms⟩]) (hnext : t.next_id = s.next_id)

theorem Pends.still {s t : State} (hp : t.pending = s.pending) (hn : t.next_id = s.next_id) (hc : t.connect = s.connect) :
    Pends s t :=
  .fewer (hp ▸ List.Sublist.refl _) (Nat.le_of_eq hn.symm) fun h => hc ▸ h

structure Keeps (s t : State) (e : Ev) (m : List ClientFrame) : Prop where
  log : t.log = s.log ++ m
  requests : ∀ r, .request r ∈ m → (r = initialize_request cfg ∨ s.connect.limited = true ∧ ∀ params, r.params ≠ .offer params) ∧
    Asks cfg s r.id r.deadline_unix_ms
  limit : ∀ n, taken_limit t = some n →
    taken_limit s = some n ∨ ∃ names, s.answers initialize_id = some (.initialized n names)
  unlimited : t.max_in_flight = s.max_in_flight ∧ (s.connect.limited = true → t.connect.limited = true) ∨
    t.connect.limited = true
  pends : Pends s t
  kept : ∀ r ∈ s.pending, r ∈ t.pending ∨ gives_up s e = some r.id ∨ e.reads = some r.id ∨ 0 < s.failing
  calls : ∀ c ∈ t.calls, c.phase = .registered →
    (∃ d ∈ s.calls, d.phase = .registered ∧ d.id = c.id ∧ d.deadline_unix_ms = c.deadline_unix_ms) ∨
      ⟨c.id, c.deadline_unix_ms⟩ ∈ t.pending
  connect : t.connect = .registered → s.connect = .registered ∨
    ⟨initialize_id, cfg.startup_deadline_unix_ms⟩ ∈ t.pending
  closer : ∀ id ms, t.closer = .registered id ms → s.closer = .registered id ms ∨ ⟨id, ms⟩ ∈ t.pending
  failed : s.failed = true → t.failed = true
  failing : t.failing ≤ s.failing ∨ t.failed = true
  inbound : e.serving = false → t.inbound = s.inbound ∧ t.inbound_active = s.inbound_active ∧
    t.inbound_last = s.inbound_last
  responses : e.serving = false → ∀ id body, .response id body ∉ m
  answers : ∀ id body, t.answers id = some body →
    s.answers id = some body ∨ ∃ frame, e = .read frame ∧ frame.body = some body

variable {cfg} {s t : State}

/-! ## Pieces -/

/-- What a step leaves alone, as it was. -/
theorem Keeps.same (cfg : Config) (s : State) (e : Ev) : Keeps cfg s s e [] where
  log := (List.append_nil _).symm
  requests := nofun
  limit := fun _ h => .inl h
  unlimited := .inl ⟨rfl, id⟩
  pends := .fewer (List.Sublist.refl _) (Nat.le_refl _) id
  kept := fun _ h => .inl h
  calls := fun c hc hp => .inl ⟨c, hc, hp, rfl, rfl⟩
  connect := fun h => .inl h
  closer := fun _ _ h => .inl h
  failed := id
  failing := .inl (Nat.le_refl _)
  inbound := fun _ => ⟨rfl, rfl, rfl⟩
  responses := nofun
  answers := fun _ _ h => .inl h

/-- A step that fails the session. -/
theorem Keeps.fail (cfg : Config) (s : State) (e : Ev) : Keeps cfg s (fail_session s) e [] :=
  { Keeps.same cfg s e with pends := .still rfl rfl rfl, failed := fun _ => rfl, failing := .inr rfl }

variable {id : RequestId}

theorem keeps_remove {r : PendingRequest} (hr : r ∈ s.pending) : r ∈ (remove_pending s id).pending ∨ r.id = id := by
  by_cases h : r.id = id
  · exact .inr h
  · exact .inl (List.mem_filter.mpr ⟨hr, bne_iff_ne.mpr h⟩)

theorem abandon_request_spec (s : State) (id : RequestId) :
    ∃ pending overflowing abandoned cancelled, abandon_request s id = { s with
      pending := pending, overflowing := overflowing, abandoned := abandoned, cancelled := cancelled } ∧
      pending.Sublist s.pending ∧ ∀ r ∈ s.pending, r ∈ pending ∨ r.id = id := by
  unfold abandon_request
  split
  · dsimp only
    split
    all_goals exact ⟨_, _, _, _, rfl, filter_sublist, fun _ hr => keeps_remove hr⟩
  · exact ⟨_, _, _, _, rfl, List.Sublist.refl _, fun _ hr => .inl hr⟩

theorem calls_same (h : t.calls = s.calls) : ∀ c ∈ t.calls, c.phase = .registered →
    (∃ d ∈ s.calls, d.phase = .registered ∧ d.id = c.id ∧ d.deadline_unix_ms = c.deadline_unix_ms) ∨
      ⟨c.id, c.deadline_unix_ms⟩ ∈ t.pending :=
  fun c hc hp => .inl ⟨c, h ▸ hc, hp, rfl, rfl⟩

variable {k : Nat}

/-- A call that moves on without registering: every registered one was there before. -/
theorem calls_set {c : Call} (d : Call) (hk : s.calls[k]? = some c) (hd : d.phase = .registered →
      c.phase = .registered ∧ c.id = d.id ∧ c.deadline_unix_ms = d.deadline_unix_ms) :
    ∀ c' ∈ s.calls.set k d, c'.phase = .registered →
      (∃ d' ∈ s.calls, d'.phase = .registered ∧ d'.id = c'.id ∧ d'.deadline_unix_ms = c'.deadline_unix_ms) ∨
        ⟨c'.id, c'.deadline_unix_ms⟩ ∈ t.pending := fun c' hc' hp => by
  rcases List.mem_or_eq_of_mem_set hc' with hc' | rfl
  · exact .inl ⟨c', hc', hp, rfl, rfl⟩
  · exact .inl ⟨c, List.mem_of_getElem? hk, hd hp⟩

theorem keeps_connect {e : ConnectEv} (hs : connect_step cfg s e = some t) :
    ∃ m, Keeps cfg s t (.connect e) m := by
  have same := Keeps.same cfg s (.connect e)
  unfold connect_step at hs
  split at hs
  · rename_i hc
    cases hs
    exact ⟨[], { same with
      calls := calls_same rfl
      closer := fun _ _ h => .inl h
      limit := nofun
      unlimited := .inl ⟨rfl, fun h => by rw [hc] at h; cases h⟩
      pends := .opening _ hc rfl rfl rfl
      kept := fun _ hr => .inl (mem_append_left _ hr)
      connect := fun _ => .inr (List.mem_append_right _ (List.mem_singleton_self _)) }⟩
  · rename_i hc
    cases of_guard hs
    exact ⟨[_], { same with
      connect := nofun
      log := rfl
      requests := fun r hr => by
        obtain rfl : r = initialize_request cfg := by injection mem_singleton.mp hr
        exact ⟨.inl rfl, .connect hc⟩
      limit := nofun
      unlimited := .inl ⟨rfl, fun h => by rw [hc] at h; cases h⟩
      pends := .fewer (List.Sublist.refl _) (Nat.le_refl _) nofun
      responses := by simp }⟩
  · rename_i hc
    cases hs
    exact ⟨[], { same with
      calls := calls_same rfl
      connect := nofun
      closer := fun _ _ h => .inl h
      limit := nofun
      unlimited := .inl ⟨rfl, fun h => by rw [hc] at h; cases h⟩
      pends := .fewer filter_sublist (Nat.le_refl _) nofun
      kept := fun r hr => (keeps_remove hr).imp id fun h => .inl (congrArg some h.symm) }⟩
  · rename_i hc
    obtain ⟨b, hb, rfl⟩ := Option.map_eq_some_iff.mp hs
    split
    · rename_i n names ha
      exact ⟨[], { same with
        connect := nofun
        limit := fun n' hn => .inr ⟨names, by
          unfold accepted_result at ha
          split at ha
          · split at ha
            · rw [hb]
              simp only [Option.some.injEq, Prod.mk.injEq] at ha
              rw [← Option.some.inj hn, ha.1, ha.2]
            · cases ha
          · cases ha⟩
        unlimited := .inl ⟨rfl, fun h => by rw [hc] at h; cases h⟩
        pends := .fewer (List.Sublist.refl _) (Nat.le_refl _) nofun }⟩
    · exact ⟨[], { same with
        connect := nofun
        limit := nofun
        unlimited := .inl ⟨rfl, fun h => by rw [hc] at h; cases h⟩
        pends := .fewer (List.Sublist.refl _) (Nat.le_refl _) nofun }⟩
  · rename_i hc
    cases of_guard hs
    exact ⟨[], { same with
      connect := nofun
      limit := nofun
      unlimited := .inl ⟨rfl, fun h => by rw [hc] at h; cases h⟩
      pends := .fewer (List.Sublist.refl _) (Nat.le_refl _) nofun }⟩
  · rename_i hc
    cases hs
    obtain ⟨p, o, a, c, he, hsb, hk⟩ := abandon_request_spec s initialize_id
    rw [he]
    exact ⟨[], { same with
      calls := calls_same rfl
      connect := nofun
      closer := fun _ _ h => .inl h
      limit := nofun
      unlimited := .inl ⟨rfl, fun h => by rw [hc] at h; cases h⟩
      pends := .fewer hsb (Nat.le_refl _) nofun
      kept := fun r hr => (hk r hr).imp id fun h => .inl (congrArg some h.symm) }⟩
  · rename_i n names hc
    cases hs
    exact ⟨[], { same with
      connect := nofun
      limit := fun n' hn => .inl (by unfold taken_limit; rw [hc]; exact hn)
      unlimited := .inr rfl
      pends := .fewer (List.Sublist.refl _) (Nat.le_refl _) nofun }⟩
  · rename_i hc
    cases hs
    exact ⟨[], { same with
      connect := nofun
      limit := fun n' hn => .inl (by unfold taken_limit; rw [hc]; exact hn)
      unlimited := .inr rfl
      pends := .fewer (List.Sublist.refl _) (Nat.le_refl _) nofun }⟩
  · rename_i hc
    cases hs
    exact ⟨[], { Keeps.fail cfg s _ with
      connect := nofun
      limit := nofun
      unlimited := .inl ⟨rfl, fun h => by rw [hc] at h; cases h⟩
      pends := .fewer (List.Sublist.refl _) (Nat.le_refl _) nofun }⟩
  · cases hs

theorem keeps_call {c : Call} {e : CallEv} (hc : s.connect = .connected) (hk : s.calls[k]? = some c)
    (hs : call_next cfg s k c e = some t) : ∃ m, Keeps cfg s t (.call k e) m := by
  have same := Keeps.same cfg s (.call k e)
  have hl : s.connect.limited := by rw [hc]; rfl
  have hg : ∀ {id : RequestId}, id = c.id → s.calls[k]?.map (·.id) = some id := fun h => by rw [hk, h]; rfl
  unfold call_next at hs
  split at hs
  · cases of_guard hs
    exact ⟨[], { same with pends := .still rfl rfl rfl, calls := calls_set _ hk nofun }⟩
  · cases hs
    exact ⟨[], { same with pends := .still rfl rfl rfl, calls := calls_set _ hk nofun }⟩
  · split at hs
    · cases hs
      exact ⟨[], { same with pends := .still rfl rfl rfl, calls := calls_set _ hk nofun }⟩
    · cases hs
      exact ⟨[], { same with pends := .still rfl rfl rfl, calls := calls_set _ hk nofun }⟩
  · cases hs
    exact ⟨[], { same with
      connect := fun h => .inl h
      closer := fun _ _ h => .inl h
      pends := .insert c.deadline_unix_ms rfl rfl hc hc
      kept := fun _ hr => .inl (mem_append_left _ hr)
      calls := fun c' hc' hp => by
        rcases List.mem_or_eq_of_mem_set hc' with hc' | rfl
        · exact .inl ⟨c', hc', hp, rfl, rfl⟩
        · exact .inr (List.mem_append_right _ (List.mem_singleton_self _)) }⟩
  · cases hs
    exact ⟨[], { same with
      pends := .fewer (List.Sublist.refl _) (Nat.le_succ _) id
      calls := calls_set _ hk nofun }⟩
  · rename_i hp
    cases of_guard hs
    exact ⟨[_], { same with
      pends := .still rfl rfl rfl
      log := rfl
      requests := fun r hr => by
        obtain rfl : r = ⟨c.id, c.method, c.deadline_unix_ms, none, .other⟩ := by injection mem_singleton.mp hr
        exact ⟨.inr ⟨hl, nofun⟩, .call c (List.mem_of_getElem? hk) hp⟩
      calls := calls_set _ hk nofun
      responses := by simp }⟩
  · cases hs
    exact ⟨[], { same with
      connect := fun h => .inl h
      closer := fun _ _ h => .inl h
      pends := .fewer filter_sublist (Nat.le_refl _) id
      kept := fun r hr => (keeps_remove hr).imp id fun h => .inl (hg h)
      calls := calls_set _ hk nofun }⟩
  · rename_i hp
    cases hs
    exact ⟨[], { same with pends := .still rfl rfl rfl, calls := calls_set _ hk fun h => ⟨h, rfl, rfl⟩ }⟩
  · cases of_guard hs
    exact ⟨[_], { same with
      pends := .still rfl rfl rfl
      log := rfl
      requests := by simp
      calls := calls_set _ hk fun h => ⟨h, rfl, rfl⟩
      responses := by simp }⟩
  · cases of_guard hs
    exact ⟨[], { same with pends := .still rfl rfl rfl, calls := calls_set _ hk nofun }⟩
  · cases of_guard hs
    exact ⟨[], { same with pends := .still rfl rfl rfl, calls := calls_set _ hk nofun }⟩
  · cases hs
    obtain ⟨p, o, a, cn, he, hb, hkp⟩ := abandon_request_spec s c.id
    rw [he]
    exact ⟨[], { same with
      connect := fun h => .inl h
      closer := fun _ _ h => .inl h
      pends := .fewer hb (Nat.le_refl _) id
      kept := fun r hr => (hkp r hr).imp id fun h => .inl (hg h)
      calls := calls_set _ hk nofun }⟩
  · cases hs
    unfold try_queue_cancel
    split
    · exact ⟨[_], { same with
        pends := .still rfl rfl rfl
        log := rfl
        requests := by simp
        calls := calls_set _ hk nofun
        responses := by simp }⟩
    · exact ⟨[], { same with pends := .still rfl rfl rfl, calls := calls_set _ hk nofun }⟩
  · cases hs

theorem keeps_close {e : CloseEv} (hn : s.connect = .connected) (hs : close_step cfg s e = some t) :
    ∃ m, Keeps cfg s t (.close e) m := by
  have same := Keeps.same cfg s (.close e)
  have hl : s.connect.limited := by rw [hn]; rfl
  unfold close_step at hs
  split at hs
  · cases of_guard hs
    exact ⟨[], { same with pends := .still rfl rfl rfl, closer := nofun }⟩
  · split at hs
    all_goals
      cases hs
      exact ⟨[], { same with pends := .still rfl rfl rfl, closer := nofun }⟩
  · cases hs
    exact ⟨[], { same with
      calls := calls_same rfl
      connect := fun h => .inl h
      pends := .insert _ rfl rfl hn hn
      kept := fun _ hr => .inl (mem_append_left _ hr)
      closer := fun id ms h => .inr (List.mem_append_right _ (mem_singleton.mpr (by
        injection h with h1 h2
        rw [h1, h2]))) }⟩
  · rename_i id ms hc
    cases of_guard hs
    exact ⟨[_], { same with
      pends := .still rfl rfl rfl
      log := rfl
      requests := fun r hr => by
        obtain rfl : r = ⟨id, rpc.SHUTDOWN, ms, none, .empty⟩ := by injection mem_singleton.mp hr
        exact ⟨.inr ⟨hl, nofun⟩, .close id ms hc⟩
      closer := nofun
      responses := by simp }⟩
  · rename_i id ms hc
    cases hs
    exact ⟨[], { same with
      calls := calls_same rfl
      connect := fun h => .inl h
      pends := .fewer filter_sublist (Nat.le_refl _) fun h => h
      kept := fun r hr => (keeps_remove hr).imp (fun h => h) fun h => .inl (by simp only [gives_up, hc, h])
      closer := nofun }⟩
  · cases of_guard hs
    exact ⟨[], { same with pends := .still rfl rfl rfl, closer := nofun }⟩
  · cases of_guard hs
    exact ⟨[], { same with pends := .still rfl rfl rfl, closer := nofun }⟩
  · rename_i id hc
    cases hs
    obtain ⟨p, o, a, c, he, hb, hk⟩ := abandon_request_spec s id
    rw [he]
    exact ⟨[], { same with
      calls := calls_same rfl
      connect := fun h => .inl h
      pends := .fewer hb (Nat.le_refl _) fun h => h
      kept := fun r hr => (hk r hr).imp (fun h => h) fun h => .inl (by simp only [gives_up, hc, h])
      closer := nofun }⟩
  · cases hs
    exact ⟨[], { Keeps.fail cfg s _ with pends := .still rfl rfl rfl, closer := nofun }⟩
  · rename_i id ms hc
    cases hs
    exact ⟨[], { same with
      calls := calls_same rfl
      connect := fun h => .inl h
      pends := .fewer filter_sublist (Nat.le_refl _) fun h => h
      kept := fun r hr => (keeps_remove hr).imp (fun h => h) fun h => .inl (by simp only [gives_up, hc, h])
      closer := nofun }⟩
  · cases hs
    exact ⟨[], { same with pends := .still rfl rfl rfl, closer := nofun }⟩
  · cases hs
    exact ⟨[], { same with pends := .still rfl rfl rfl, closer := nofun }⟩
  · cases hs

theorem keeps_read_fail {frame : ServerFrame} : Keeps cfg s (read_fail s) (.read frame) [] :=
  { Keeps.fail cfg s (.read frame) with pends := .still rfl rfl rfl }

theorem keeps_response {frame : ServerFrame} {b : Body} (hi : frame.response_id = some id)
    (hb : frame.body = some b) : Keeps cfg s (read_response s id b) (.read frame) [] := by
  have same := Keeps.same cfg s (.read frame)
  unfold read_response
  split
  · exact { same with
      calls := calls_same rfl
      connect := fun h => .inl h
      closer := fun _ _ h => .inl h
      pends := .fewer filter_sublist (Nat.le_refl _) fun h => h
      kept := fun r hr => by
        by_cases h : r.id = id
        · exact .inr (.inr (.inl (hi.trans (congrArg some h.symm))))
        · exact .inl (List.mem_filter.mpr ⟨hr, bne_iff_ne.mpr h⟩)
      answers := fun id' b' h => by
        simp only at h
        split at h
        · exact .inr ⟨frame, rfl, hb.trans h⟩
        · exact .inl h }
  · split
    · exact { same with pends := .still rfl rfl rfl }
    · exact keeps_read_fail

theorem keeps_read (frame : ServerFrame) : Keeps cfg s (read_frame cfg s frame) (.read frame) [] := by
  have same := Keeps.same cfg s (.read frame)
  cases frame with
  | callback r =>
    simp only [read_frame]
    split
    · cases h : serve_callback cfg s r with
      | none => exact keeps_read_fail
      | some u =>
        obtain ⟨p, parent, -, -, -, -, rfl⟩ := serve_callback_spec h
        exact { same with pends := .still rfl rfl rfl, inbound := fun h => (by cases h) }
    · exact keeps_read_fail
  | reply id b =>
    cases id with
    | none => exact keeps_read_fail
    | some id => exact keeps_response rfl rfl
  | terminal id b | shutdown id => exact keeps_response rfl rfl

theorem keeps_inbound {c : Inbound} {e : InboundEv} (hs : inbound_next cfg s k c e = some t) :
    ∃ m, Keeps cfg s t (.inbound k e) m := by
  have same := Keeps.same cfg s (.inbound k e)
  unfold inbound_next at hs
  split at hs
  · cases hs
    exact ⟨[], { same with pends := .still rfl rfl rfl, inbound := nofun }⟩
  · cases of_guard hs
    exact ⟨[_], { same with pends := .still rfl rfl rfl, log := rfl, requests := by simp, inbound := nofun, responses := nofun }⟩
  · cases of_guard hs
    exact ⟨[], { same with pends := .still rfl rfl rfl, inbound := nofun }⟩
  · cases hs

theorem keeps_start (m : String) (ms : Nat) (expired : Bool) :
    Keeps cfg s (start s m ms expired) (.start m ms expired) [] :=
  { Keeps.same cfg s (.start m ms expired) with
    pends := .still rfl rfl rfl
    calls := fun c hc hp => by
      rcases mem_append.mp hc with hc | hc
      · exact .inl ⟨c, hc, hp, rfl, rfl⟩
      · rw [mem_singleton.mp hc] at hp
        split at hp <;> cases hp }

variable {e : Ev}

theorem step_keeps (hs : step cfg s e = some t) : ∃ m, Keeps cfg s t e m := by
  cases e with
  | connect e => exact keeps_connect hs
  | start mt d expired =>
    simp only [step] at hs
    cases of_guard hs
    exact ⟨[], keeps_start mt d expired⟩
  | call k e =>
    simp only [step] at hs
    split at hs
    · rename_i hc
      obtain ⟨c, hk, hs⟩ := Option.bind_eq_some_iff.mp hs
      exact keeps_call hc hk hs
    · cases hs
  | close e =>
    simp only [step] at hs
    split at hs
    · rename_i hc
      exact keeps_close hc hs
    · cases hs
  | read frame =>
    simp only [step] at hs
    cases of_guard hs
    exact ⟨[], keeps_read frame⟩
  | inbound k e =>
    obtain ⟨c, -, hs⟩ := Option.bind_eq_some_iff.mp hs
    exact keeps_inbound hs
  | drain =>
    simp only [step] at hs
    split at hs
    · rename_i hp
      cases hs
      exact ⟨[], { Keeps.same cfg s .drain with
        calls := calls_same rfl
        connect := fun h => .inl h
        closer := fun _ _ h => .inl h
        pends := .fewer (List.nil_sublist _) (Nat.le_refl _) id
        kept := fun _ _ => .inr (.inr (.inr hp))
        failing := .inl (Nat.sub_le _ _) }⟩
    · cases hs
  | read_failed | abandon | overflow =>
    simp only [step] at hs
    cases of_guard hs
    exact ⟨[], { Keeps.fail cfg s _ with pends := .still rfl rfl rfl }⟩
  | take | writer_stop | reader_abort =>
    simp only [step] at hs
    cases of_guard hs
    exact ⟨[], { Keeps.same cfg s _ with pends := .still rfl rfl rfl }⟩
  | writer_fail =>
    simp only [step] at hs
    split at hs
    · cases hs
    · cases hs
      exact ⟨[], { Keeps.fail cfg s _ with pends := .still rfl rfl rfl }⟩

/-- A request is asked with its pending entry in place. -/
theorem Keeps.asks {m : List ClientFrame} (hk : Keeps cfg s t e m) {ms : Nat} (h : Asks cfg t id ms) :
    Asks cfg s id ms ∨ ⟨id, ms⟩ ∈ t.pending := by
  cases h with
  | frame r hr =>
    rcases mem_append.mp (hk.log ▸ hr) with hr | hr
    · exact .inl (.frame r hr)
    · exact .inl (hk.requests r hr).2
  | call c hc hp =>
    rcases hk.calls c hc hp with ⟨d, hd, hp, hi, hm⟩ | hn
    · exact .inl (hi ▸ hm ▸ .call d hd hp)
    · exact .inr hn
  | connect h => exact (hk.connect h).imp_left .connect
  | close id ms h => exact (hk.closer id ms h).imp_left (.close id ms)

/-! ## Pending requests -/

structure PendingInv (s : State) : Prop where
  below : ∀ r ∈ s.pending, r.id < s.next_id
  increasing : s.pending.Pairwise (·.id < ·.id)
  first : initialize_id < s.next_id
  starting : s.connect = .starting → s.pending = []
  failing : 0 < s.failing → s.failed = true

theorem PendingInv.init : PendingInv {} where
  below := nofun
  increasing := List.Pairwise.nil
  first := by decide
  starting := fun _ => rfl
  failing := nofun

theorem PendingInv.step (h : PendingInv s) (hs : Client.step cfg s e = some t) : PendingInv t := by
  obtain ⟨m, hk⟩ := step_keeps hs
  have hf : 0 < t.failing → t.failed := fun hps =>
    hk.failing.elim (fun hl => hk.failed (h.failing (Nat.lt_of_lt_of_le hps hl))) id
  cases hk.pends with
  | fewer hb hn ht =>
    exact ⟨fun r hr => Nat.lt_of_lt_of_le (h.below r (hb.subset hr)) hn, h.increasing.sublist hb,
      Nat.lt_of_lt_of_le h.first hn, fun hc => List.eq_nil_of_subset_nil (h.starting (ht hc) ▸ hb.subset), hf⟩
  | insert ms hp hn hsc htc =>
    refine ⟨fun r hr => ?_, ?_, hn ▸ Nat.lt_succ_of_lt h.first, fun hc => ?_, hf⟩
    · rw [hn]
      rcases mem_append.mp (hp ▸ hr) with hr | hr
      · exact Nat.lt_succ_of_lt (h.below r hr)
      · rw [mem_singleton.mp hr]
        exact Nat.lt_succ_self _
    · rw [hp]
      refine List.pairwise_append.mpr ⟨h.increasing, List.pairwise_singleton _ _, fun r hr r' hr' => ?_⟩
      rw [mem_singleton.mp hr']
      exact h.below r hr
    · rw [htc] at hc
      cases hc
  | opening ms hsc htc hp hn =>
    rw [h.starting hsc] at hp
    refine ⟨fun r hr => ?_, hp ▸ List.pairwise_singleton _ _, hn ▸ h.first, fun hc => ?_, hf⟩
    · rw [hp] at hr
      rw [mem_singleton.mp hr, hn]
      exact h.first
    · rw [htc] at hc
      cases hc

/-- The entry of an ID is the one `serve_callback` finds. -/
theorem PendingInv.find (h : PendingInv s) {r : PendingRequest} (hr : r ∈ s.pending) :
    s.pending.find? (fun p => p.id == r.id) = some r := find_increasing h.increasing hr

/-! ## Inbound callbacks -/

theorem inbound_seen_iff : inbound_seen s id ↔ ∃ last, s.inbound_last = some last ∧ id ≤ last := by
  unfold inbound_seen
  cases s.inbound_last <;> simp

structure InboundInv (s : State) : Prop where
  active : s.inbound_active = s.inbound.countP (·.phase == .calling)
  increasing : (s.inbound.map Inbound.id).Pairwise (· < ·)
  seen : ∀ i ∈ s.inbound, inbound_seen s i.id = true
  bound : ∀ id, inbound_seen s id = true → ∃ i ∈ s.inbound, id ≤ i.id
  /-- A response is queued by the task of its callback, which is then over. -/
  responded : ∀ id body, .response (some id) body ∈ s.log → ∃ i ∈ s.inbound, i.id = id ∧ i.phase = .sent

theorem InboundInv.init : InboundInv {} where
  active := rfl
  increasing := List.Pairwise.nil
  seen := nofun
  bound := nofun
  responded := nofun

section

variable (h : InboundInv s)

include h

theorem InboundInv.serve {r : Request} (hs : serve_callback cfg s r = some t) : InboundInv t := by
  obtain ⟨p, parent, -, -, -, hn, rfl⟩ := serve_callback_spec hs
  have hl : ∀ i ∈ s.inbound, i.id < r.id := fun i hi => by
    obtain ⟨last, hls, hle⟩ := inbound_seen_iff.mp (h.seen i hi)
    refine Nat.lt_of_not_le fun hr => ?_
    rw [inbound_seen_iff.mpr ⟨last, hls, Nat.le_trans hr hle⟩] at hn
    cases hn
  refine ⟨?_, ?_, fun i hi => ?_, fun id hd => ?_, fun id b hg => ?_⟩
  · rw [List.countP_append, ← h.active]
    rfl
  · rw [List.map_append]
    refine List.pairwise_append.mpr ⟨h.increasing, List.pairwise_singleton _ _, fun id hd id' hd' => ?_⟩
    obtain ⟨i, hi, rfl⟩ := mem_map.mp hd
    rw [mem_singleton.mp hd']
    exact hl i hi
  · refine inbound_seen_iff.mpr ⟨r.id, rfl, ?_⟩
    rcases mem_append.mp hi with hi | hi
    · exact Nat.le_of_lt (hl i hi)
    · exact Nat.le_of_eq (congrArg Inbound.id (mem_singleton.mp hi))
  · obtain ⟨last, hls, hle⟩ := inbound_seen_iff.mp hd
    rw [← Option.some.inj hls] at hle
    exact ⟨_, List.mem_append_right _ (List.mem_singleton_self _), hle⟩
  · obtain ⟨i, hi, hi'⟩ := h.responded id b hg
    exact ⟨i, mem_append_left _ hi, hi'⟩

/-- The task of a callback goes on. -/
theorem InboundInv.set {c : Inbound} (phase : InboundPhase) (hk : s.inbound[k]? = some c) (hc : c.phase ≠ .sent)
    (ha : t.inbound_active = (s.inbound.set k { c with phase := phase }).countP (·.phase == .calling))
    (hn : t.inbound = s.inbound.set k { c with phase := phase }) (hl : t.inbound_last = s.inbound_last)
    (hg : ∀ id b, .response (some id) b ∈ t.log →
      .response (some id) b ∈ s.log ∨ id = c.id ∧ phase = .sent) : InboundInv t := by
  have hsn : ∀ id, inbound_seen t id = inbound_seen s id := fun id => by rw [inbound_seen, hl, inbound_seen]
  have hm : t.inbound.map Inbound.id = s.inbound.map Inbound.id :=
    (congrArg (List.map Inbound.id) hn).trans (map_set_eq hk rfl)
  have hd : { c with phase := phase } ∈ t.inbound := hn ▸ List.mem_set (List.getElem?_eq_some_iff.mp hk).1 _
  refine ⟨hn ▸ ha, hm ▸ h.increasing, fun i hi => ?_, fun id hs => ?_, fun id b hf => ?_⟩
  · rw [hsn]
    obtain ⟨i', hi', hd'⟩ := mem_map.mp (hm ▸ List.mem_map_of_mem (f := Inbound.id) hi)
    exact hd' ▸ h.seen i' hi'
  · obtain ⟨i, hi, hle⟩ := h.bound id (hsn id ▸ hs)
    obtain ⟨i', hi', hd'⟩ := mem_map.mp (hm.symm ▸ List.mem_map_of_mem (f := Inbound.id) hi)
    exact ⟨i', hi', hd' ▸ hle⟩
  · rcases hg id b hf with hf | ⟨rfl, hp⟩
    · obtain ⟨i, hi, hi', hp⟩ := h.responded id b hf
      exact ⟨i, hn ▸ mem_set_of_ne hk hi fun he => hc (he ▸ hp), hi', hp⟩
    · exact ⟨_, hd, rfl, hp⟩

theorem InboundInv.inbound {c : Inbound} {e : InboundEv} (hk : s.inbound[k]? = some c)
    (hs : inbound_next cfg s k c e = some t) : InboundInv t := by
  obtain ⟨hl, hg⟩ := List.getElem?_eq_some_iff.mp hk
  unfold inbound_next at hs
  split at hs
  · rename_i hp
    cases hs
    refine h.set (.answering _) hk (by rw [hp]; nofun) ?_ rfl rfl fun _ _ hf => .inl hf
    rw [countP_set hl, hg, hp, ← h.active]
    rfl
  · rename_i hp
    cases of_guard hs
    refine h.set .sent hk (by rw [hp]; nofun) ?_ rfl rfl fun id _ hf => ?_
    · rw [countP_set hl, hg, hp]
      exact h.active
    · refine (mem_append.mp hf).imp (fun hf => hf) fun hf => ?_
      injection mem_singleton.mp hf with hi
      exact ⟨Option.some.inj hi, rfl⟩
  · rename_i hp
    cases of_guard hs
    refine h.set .gone hk (by rw [hp]; nofun) ?_ rfl rfl fun _ _ hf => .inl hf
    rw [countP_set hl, hg, hp]
    exact h.active
  · cases hs

theorem InboundInv.quiet {m : List ClientFrame} (hk : Keeps cfg s t e m) (he : e.serving = false) : InboundInv t := by
  obtain ⟨h1, h2, h3⟩ := hk.inbound he
  have hn : ∀ id, inbound_seen t id = inbound_seen s id := fun id => by rw [inbound_seen, h3, inbound_seen]
  refine ⟨by rw [h1, h2]; exact h.active, h1 ▸ h.increasing, fun i hi => hn i.id ▸ h.seen i (h1 ▸ hi),
    fun id hs => h1 ▸ h.bound id (hn id ▸ hs), fun id b hf => ?_⟩
  rw [h1]
  rcases mem_append.mp (hk.log ▸ hf) with hf | hf
  · exact h.responded id b hf
  · exact absurd hf (hk.responses he _ _)

theorem InboundInv.read_fail : InboundInv (read_fail s) :=
  ⟨h.active, h.increasing, h.seen, h.bound, h.responded⟩

theorem InboundInv.step (hs : Client.step cfg s e = some t) : InboundInv t := by
  cases he : e.serving with
  | false =>
    obtain ⟨m, hk⟩ := step_keeps hs
    exact h.quiet hk he
  | true =>
    cases e with
    | inbound k e =>
      obtain ⟨c, hk, hs⟩ := Option.bind_eq_some_iff.mp hs
      exact h.inbound hk hs
    | read frame =>
      cases frame with
      | callback r =>
        simp only [Client.step, read_frame] at hs
        cases of_guard hs
        split
        · cases hr : serve_callback cfg s r with
          | none => exact h.read_fail
          | some u => exact h.serve hr
        · exact h.read_fail
      | _ => cases he
    | _ => cases he

end

/-- The callbacks in the table are those the reader accepted. -/
theorem step_inbound_ids (hs : step cfg s e = some t) :
    t.inbound.map Inbound.id = s.inbound.map Inbound.id ∨
      ∃ r, e = .read (.callback r) ∧ t.inbound.map Inbound.id = s.inbound.map Inbound.id ++ [r.id] := by
  cases he : e.serving with
  | false =>
    obtain ⟨m, hk⟩ := step_keeps hs
    exact .inl (congrArg _ (hk.inbound he).1)
  | true =>
    cases e with
    | inbound k e =>
      obtain ⟨c, hk, hs⟩ := Option.bind_eq_some_iff.mp hs
      unfold inbound_next at hs
      split at hs
      · exact .inl (Option.some.inj hs ▸ map_set_eq hk rfl)
      · split at hs
        · exact .inl (Option.some.inj hs ▸ map_set_eq hk rfl)
        · cases hs
      · split at hs
        · exact .inl (Option.some.inj hs ▸ map_set_eq hk rfl)
        · cases hs
      · cases hs
    | read frame =>
      cases frame with
      | callback r =>
        simp only [step, read_frame] at hs
        cases of_guard hs
        split
        · cases hr : serve_callback cfg s r with
          | none => exact .inl rfl
          | some u =>
            obtain ⟨p, parent, -, -, -, -, rfl⟩ := serve_callback_spec hr
            exact .inr ⟨r, rfl, List.map_append⟩
        · exact .inl rfl
      | _ => cases he
    | _ => cases he

end Monosecret.Rpc.Client
