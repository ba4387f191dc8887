/-
  Monosecret.Rpc.Session — a client session and a server session joined by two FIFO streams.

  Each side reads the frames the other side's writer has taken, in order: the client has
  read the first `read` frames of the server, the server the first `received` of the client.

  The bound on callbacks: the server's unanswered callbacks stay within the limit the client
  enforces, so the client's table of inbound callbacks is never full when the next callback
  arrives, in every run where permits are taken as `Server.permits_held` says. The code can
  leave such runs in two ways: `dropped` is a future dropped while it waits, `swapped` a
  callback of `rpc.initialize` whose permit the negotiated semaphore does not count.
-/

import Monosecret.Rpc.ClientTables
import Monosecret.Rpc.ServerInbox

namespace Monosecret.Rpc.Session

open Lib Machine

structure State where
  server : Server.State := {}
  client : Client.State := {}
  read : Nat := 0
  received : Nat := 0
  /-- The requests the client gave up. -/
  given_up : List RequestId := []

inductive Ev where
  | server (e : Server.Ev)
  | client (e : Client.Ev)
  /-- The server reads the next frame; `expired` says whether its deadline has passed. -/
  | server_read (expired : Bool)
  /-- The client reads the next frame. -/
  | client_read

/-- The event takes a frame off the stream: it is not one of the side's own. -/
def Server.takes : Server.Ev → Bool
  | .session (.recv _ _) => true
  | _ => false

def Client.takes : Client.Ev → Bool
  | .read _ => true
  | _ => false

variable (scfg : Server.Config) (ccfg : Client.Config)

def step (s : State) : Ev → Option State
  | .server e => if Server.takes e then none else (Server.step scfg s.server e).map fun u => { s with server := u }
  | .client e =>
    if Client.takes e then none
    else (Client.step ccfg s.client e).map fun u =>
      { s with client := u, given_up := s.given_up ++ (Client.gives_up s.client e).toList }
  | .server_read expired =>
    if s.received < s.client.taken then
      (s.client.log[s.received]?).bind fun frame =>
        (Server.step scfg s.server (.session (.recv frame expired))).map fun u =>
          { s with server := u, received := s.received + 1 }
    else none
  | .client_read =>
    if s.read < s.server.taken then
      (s.server.log[s.read]?).bind fun frame =>
        (Client.step ccfg s.client (.read frame)).map fun u => { s with client := u, read := s.read + 1 }
    else none

def machine : Machine State Ev := ⟨{}, step scfg ccfg⟩

/-- The next frame the client reads. -/
def next_frame (s : State) : Option ServerFrame := s.server.log[s.read]?

/-! ## The two sides of a step -/

variable {scfg ccfg} {s t : State} {e : Ev}

inductive Part (scfg : Server.Config) (ccfg : Client.Config) (s : State) (e : Ev) : State → Prop where
  | server (e' : Server.Ev) (u : Server.State) (received : Nat) (hs : Server.step scfg s.server e' = some u)
      (he : e = .server e' ∨ Server.takes e' = true)
      (hheard : ∀ frame expired, e' = .session (.recv frame expired) → frame ∈ s.client.log) :
      Part scfg ccfg s e { s with server := u, received := received }
  | client (e' : Client.Ev) (u : Client.State) (hs : Client.step ccfg s.client e' = some u) (he : e = .client e')
      (hown : Client.takes e' = false) :
      Part scfg ccfg s e { s with client := u, given_up := s.given_up ++ (Client.gives_up s.client e').toList }
  | read (frame : ServerFrame) (u : Client.State) (hnext : next_frame s = some frame)
      (hs : Client.step ccfg s.client (.read frame) = some u) :
      Part scfg ccfg s e { s with client := u, read := s.read + 1 }

theorem step_part (hs : step scfg ccfg s e = some t) : Part scfg ccfg s e t := by
  cases e with
  | server e =>
    simp only [step] at hs
    split at hs
    · cases hs
    · rename_i ho
      obtain ⟨u, hu, rfl⟩ := Option.map_eq_some_iff.mp hs
      exact .server e u s.received hu (.inl rfl) fun frame expired he => absurd (he ▸ rfl) ho
  | client e =>
    simp only [step] at hs
    split at hs
    · cases hs
    · rename_i ho
      obtain ⟨u, hu, rfl⟩ := Option.map_eq_some_iff.mp hs
      exact .client e u hu rfl (Bool.not_eq_true _ ▸ ho)
  | server_read expired =>
    simp only [step] at hs
    split at hs
    · obtain ⟨frame, hf, hs⟩ := Option.bind_eq_some_iff.mp hs
      obtain ⟨u, hu, rfl⟩ := Option.map_eq_some_iff.mp hs
      refine .server _ u (s.received + 1) hu (.inr rfl) fun f' e' he => ?_
      injection he with he
      injection he with he
      exact he ▸ List.mem_of_getElem? hf
    · cases hs
  | client_read =>
    simp only [step] at hs
    split at hs
    · obtain ⟨frame, hf, hs⟩ := Option.bind_eq_some_iff.mp hs
      obtain ⟨u, hu, rfl⟩ := Option.map_eq_some_iff.mp hs
      exact .read frame u hf hu
    · cases hs

/-! ## The invariant -/

def permits_held (s : State) : Ev → Bool
  | .server e => Server.permits_held s.server e
  | _ => true

structure SessionInv (ccfg : Client.Config) (s : State) : Prop where
  permits : Server.PermitInv s.server
  order : Server.OrderInv s.server
  offer : Server.OfferInv s.server
  pending : Client.PendingInv s.client
  inbound : Client.InboundInv s.client
  /-- But for `rpc.initialize`, a request is sent with the limits stored. -/
  requests : ∀ r, .request r ∈ s.client.log →
    r = Client.initialize_request ccfg ∨ s.client.connect.limited = true ∧ ∀ params, r.params ≠ .offer params
  accepted : s.server.accepted ≠ [] → s.client.connect.limited = true
  answers : ∀ id n names, s.client.answers id = some (.initialized n names) →
    ∃ f ∈ s.server.log, f.body = some (.initialized n names)
  limit : ∀ n, Client.taken_limit s.client = some n → ∃ f ∈ s.server.log, ∃ names, f.body = some (.initialized n names)
  unlimited : s.client.max_in_flight = 1 ∨ s.client.connect.limited = true
  served : ∀ id ∈ s.client.inbound.map Client.Inbound.id, id ∈ Server.sent_ids (s.server.log.take s.read)
  answered : ∀ c ∈ s.server.cbs, c.answered = true → ∃ body, .response (some c.id) body ∈ s.client.log

theorem SessionInv.init : SessionInv ccfg {} where
  permits := .init
  order := .init
  offer := .init
  pending := .init
  inbound := .init
  requests := nofun
  accepted := fun h => absurd rfl h
  answers := nofun
  limit := nofun
  unlimited := .inl rfl
  served := nofun
  answered := nofun

/-- An accepted request is one the client sent. -/
theorem asks_frame {e : Server.Ev} {id : RequestId} {ok : Request → Prop} (ha : e.Asks id ok)
    (hr : ∀ frame expired, e = .session (.recv frame expired) → frame ∈ s.client.log) :
    ∃ r, .request r ∈ s.client.log ∧ r.id = id ∧ ok r := by
  obtain ⟨r, expired, he, hi, ho⟩ := ha
  exact ⟨r, hr _ _ he, hi, ho⟩

theorem take_mem {α : Type} {l m : List α} {n : Nat} {a : α} (h : a ∈ l.take n) : a ∈ (l ++ m).take n := by
  rw [List.take_append]
  exact List.mem_append_left _ h

theorem sent_ids_mono {l m : List ServerFrame} {id : RequestId} (h : ∀ f ∈ l, f ∈ m) (hi : id ∈ Server.sent_ids l) :
    id ∈ Server.sent_ids m := by
  obtain ⟨r, hr, hd⟩ := Server.mem_sent_ids.mp hi
  exact Server.mem_sent_ids.mpr ⟨r, h _ hr, hd⟩

theorem SessionInv.server {e : Server.Ev} {u : Server.State} {received : Nat} (h : SessionInv ccfg s)
    (hg : Server.permits_held s.server e) (hs : Server.step scfg s.server e = some u)
    (hhr : ∀ frame expired, e = .session (.recv frame expired) → frame ∈ s.client.log) :
    SessionInv ccfg { s with server := u, received := received } := by
  obtain ⟨m, hl, -⟩ := Server.step_log hs
  have hm : ∀ f ∈ s.server.log, f ∈ u.log := fun f hf => hl ▸ List.mem_append_left _ hf
  refine ⟨h.permits.step hg hs, h.order.step hs, h.offer.step h.permits hs, h.pending, h.inbound, h.requests,
    fun hne => ?_, fun id n names ha => ?_, fun n hn => ?_, h.unlimited, fun id hi => ?_, fun c hc ha => ?_⟩
  · rcases (Server.step_inbox hs).accepted with hq | ⟨id, -, ha⟩
    · exact h.accepted fun he => hne (hq.trans he)
    · obtain ⟨r, hr, -, hp⟩ := asks_frame ha hhr
      rcases h.requests r hr with rfl | ⟨hlm, -⟩
      · exact absurd (show Server.is_application rpc.INITIALIZE from hp) (by decide)
      · exact hlm
  · obtain ⟨f, hf, hb⟩ := h.answers id n names ha
    exact ⟨f, hm f hf, hb⟩
  · obtain ⟨f, hf, hb⟩ := h.limit n hn
    exact ⟨f, hm f hf, hb⟩
  · exact sent_ids_mono (fun f hf => hl ▸ take_mem hf) (h.served id hi)
  · rcases (Server.step_calls h.order hs).answered c hc ha with ⟨c0, hc0, ha0, hi⟩ | ⟨b, expired, he⟩
    · exact hi ▸ h.answered c0 hc0 ha0
    · exact ⟨b, hhr _ _ he⟩

/-- A step of the client; `read` counts the frame it reads, if it reads one. -/
theorem SessionInv.client {e : Client.Ev} {u : Client.State} {n : Nat} {given_up : List RequestId}
    (h : SessionInv ccfg s) (hs : Client.step ccfg s.client e = some u)
    (hfr : ∀ f, e = .read f → f ∈ s.server.log.take n) (hn : s.read ≤ n) :
    SessionInv ccfg { s with client := u, read := n, given_up := given_up } := by
  obtain ⟨m, hk⟩ := Client.step_keeps hs
  have hm : s.client.connect.limited → u.connect.limited := fun hl =>
    hk.unlimited.elim (fun hu => hu.2 hl) id
  refine ⟨h.permits, h.order, h.offer, h.pending.step hs, h.inbound.step hs, fun r hr => ?_,
    fun hne => hm (h.accepted hne), fun id k names ha => ?_, fun k hk' => ?_, ?_, fun id hi => ?_, fun c hc ha => ?_⟩
  · rcases List.mem_append.mp (hk.log ▸ hr) with hr | hr
    · exact (h.requests r hr).imp_right fun hl => ⟨hm hl.1, hl.2⟩
    · exact (hk.requests r hr).1.imp_right fun hl => ⟨hm hl.1, hl.2⟩
  · rcases hk.answers id _ ha with ha | ⟨f, he, hb⟩
    · exact h.answers id k names ha
    · exact ⟨f, List.mem_of_mem_take (hfr f he), hb⟩
  · rcases hk.limit k hk' with hl | ⟨names, ha⟩
    · exact h.limit k hl
    · obtain ⟨f, hf, hb⟩ := h.answers _ k names ha
      exact ⟨f, hf, names, hb⟩
  · rcases hk.unlimited with ⟨hx, -⟩ | hl
    · exact h.unlimited.imp (fun h1 => hx.trans h1) hm
    · exact .inr hl
  · have hd : id ∈ s.client.inbound.map Client.Inbound.id → id ∈ Server.sent_ids (s.server.log.take n) := fun hi =>
      sent_ids_mono (fun f hf => (List.take_subset_take_left _ hn) hf) (h.served id hi)
    rcases Client.step_inbound_ids hs with hq | ⟨r, he, hq⟩
    · exact hd (hq ▸ hi)
    · rcases List.mem_append.mp (hq ▸ hi) with hi | hi
      · exact hd hi
      · exact Server.mem_sent_ids.mpr ⟨r, hfr _ he, (List.mem_singleton.mp hi).symm⟩
  · obtain ⟨b, hb⟩ := h.answered c hc ha
    exact ⟨b, hk.log ▸ List.mem_append_left _ hb⟩

theorem SessionInv.step (h : SessionInv ccfg s) (hg : permits_held s e) (hs : Session.step scfg ccfg s e = some t) :
    SessionInv ccfg t := by
  have hp := step_part hs
  clear hs
  cases hp with
  | server e' u r hs he hr =>
    refine h.server ?_ hs hr
    rcases he with rfl | he
    · exact hg
    · cases e' with
      | session => rfl
      | _ => cases he
  | client e' u hs he ho =>
    exact h.client hs (fun f hf => by rw [hf] at ho; cases ho) (Nat.le_refl _)
  | read frame u hn hs =>
    refine h.client hs (fun f hf => ?_) (Nat.le_succ _)
    injection hf with hf
    rw [List.take_add_one, show s.server.log[s.read]? = some frame from hn, hf]
    exact List.mem_append_right _ (List.mem_singleton_self _)

theorem reach_inv {s : State} (h : Reach (machine scfg ccfg) permits_held s) : SessionInv ccfg s :=
  h.inv (I := SessionInv ccfg) .init fun _ _ _ hi hg hs => hi.step hg hs

/-! ## Callback capacity -/

section

variable (h : SessionInv ccfg s)

include h

/-- Once the client has stored its limit, it is the one the server selected. -/
theorem SessionInv.selected (hl : s.client.connect.limited) : s.client.max_in_flight = s.server.selected := by
  have ht : Client.taken_limit s.client = some s.client.max_in_flight := by
    unfold Client.taken_limit
    cases hc : s.client.connect <;> first | rfl | (rw [hc] at hl; cases hl)
  obtain ⟨f, hf, names, hb⟩ := h.limit _ ht
  exact (h.offer.sent f hf _ names hb).1

theorem SessionInv.outstanding_le : Server.outstanding s.server ≤ s.client.max_in_flight := by
  obtain ⟨hi, hle⟩ := h.permits.outstanding_le
  by_cases hl : s.client.connect.limited
  · rw [h.selected hl]
    exact hle
  · rw [h.unlimited.resolve_right hl]
    exact hi (Decidable.not_not.mp fun hn => hl (h.accepted hn))

/-- The next callback is newer than every callback the client has read. -/
theorem SessionInv.next_newer {r : Request} (hn : next_frame s = some (.callback r)) :
    r.id ∈ Server.sent_ids s.server.log ∧ ∀ id ∈ Server.sent_ids (s.server.log.take s.read), id < r.id := by
  obtain ⟨hl, hg⟩ := List.getElem?_eq_some_iff.mp hn
  have hs : s.server.log = s.server.log.take s.read ++ .callback r :: s.server.log.drop (s.read + 1) := by
    rw [← hg, List.getElem_cons_drop, List.take_append_drop]
  have hi := h.order.increasing
  rw [hs, Server.sent_ids_append] at hi
  refine ⟨Server.mem_sent_ids.mpr ⟨r, List.mem_of_getElem? hn, rfl⟩, fun id hd => ?_⟩
  exact (List.pairwise_append.mp hi).2.2 id hd r.id (.head _)

/-- A callback that was queued, and whose response the client has not queued, is outstanding. -/
theorem SessionInv.outstanding_of {id : RequestId} (hi : id ∈ Server.sent_ids s.server.log)
    (hn : ∀ b, .response (some id) b ∉ s.client.log) : ∃ c ∈ s.server.cbs, (c.sent && !c.answered) ∧ c.id = id := by
  obtain ⟨c, hc, hs, rfl⟩ := h.order.sender id hi
  refine ⟨c, hc, ?_, rfl⟩
  cases ha : c.answered
  · rw [hs]
    rfl
  · obtain ⟨b, hb⟩ := h.answered c hc ha
    exact absurd hb (hn b)

/-- When the next frame is a callback, the client has a slot for it. -/
theorem SessionInv.not_full {r : Request} (hn : next_frame s = some (.callback r)) :
    Client.inbound_full s.client = false := by
  obtain ⟨hs, hw⟩ := h.next_newer hn
  have hl : ∀ i ∈ s.client.inbound, i.id < r.id := fun i hi => hw i.id (h.served _ (List.mem_map_of_mem hi))
  let calling := s.client.inbound.filter fun i => i.phase == .calling
  let ids := calling.map Client.Inbound.id ++ [r.id]
  have hm : ∀ id ∈ calling.map Client.Inbound.id, ∃ i ∈ s.client.inbound, i.phase = .calling ∧ i.id = id :=
    fun id hid => by
      obtain ⟨i, hi, hii⟩ := List.mem_map.mp hid
      exact ⟨i, (List.mem_filter.mp hi).1, beq_iff_eq.mp (List.mem_filter.mp hi).2, hii⟩
  have hin : ids.Pairwise (· < ·) := by
    refine List.pairwise_append.mpr ⟨h.inbound.increasing.sublist (List.filter_sublist.map _),
      List.pairwise_singleton _ _, fun id hid id' hi' => ?_⟩
    obtain ⟨i, hi, -, rfl⟩ := hm id hid
    rw [List.mem_singleton.mp hi']
    exact hl i hi
  have ho : ∀ id ∈ ids, ∃ c ∈ s.server.cbs, (c.sent && !c.answered) ∧ c.id = id := fun id hid => by
    rcases List.mem_append.mp hid with hid | hid
    · obtain ⟨i, hi, hp, rfl⟩ := hm id hid
      refine h.outstanding_of (sent_ids_mono (fun _ hf => List.mem_of_mem_take hf) (h.served _ (List.mem_map_of_mem hi)))
        fun b hb => ?_
      -- A response belongs to a callback task that is over.
      obtain ⟨j, hj, hid, hs⟩ := h.inbound.responded _ b hb
      have hin := List.pairwise_map.mp h.inbound.increasing
      have hij : some i = some j := by rw [← find_increasing hin hi, ← find_increasing hin hj, hid]
      rw [Option.some.inj hij, hs] at hp
      cases hp
    · rw [List.mem_singleton.mp hid]
      refine h.outstanding_of hs fun b hb => ?_
      obtain ⟨j, hj, hid, -⟩ := h.inbound.responded _ b hb
      exact absurd hid (Nat.ne_of_lt (hl j hj))
  have hln := length_le_countP (hin.imp fun hl => Nat.ne_of_lt hl) ho
  have ha : s.client.inbound_active = calling.length := by rw [h.inbound.active, List.countP_eq_length_filter]
  have hd : ids.length = s.client.inbound_active + 1 := by
    rw [ha, List.length_append, List.length_map, List.length_singleton]
  have hr : s.client.inbound_active + 1 ≤ s.client.max_in_flight :=
    Nat.le_trans (Nat.le_of_eq hd.symm) (Nat.le_trans hln h.outstanding_le)
  exact decide_eq_false (Nat.not_le_of_lt hr)

end

/-- A resolver server that takes one call at a time. -/
def narrow : Server.Config := { Server.resolver with max_in_flight := 1, in_range := by decide }

/-- The client initializes. -/
def initializing : List Ev := [.client (.connect .insert), .client (.connect .queue), .client .take, .server_read false]

def initialized : List Ev :=
  [.server (.session .replied), .server (.session .committed), .server .take, .client_read, .client (.connect .respond),
    .client (.connect .negotiate), .client (.connect .ready)]

/-- The client calls `resolver.resolve`, as request 2. -/
def resolving : List Ev :=
  [.client (.start "resolver.resolve" 1000 false), .client (.call 0 .order), .client (.call 0 .recheck),
    .client (.call 0 .insert), .client (.call 0 .queue), .client .take, .server_read false]

/-- Callback `k`, of the request `parent`, is queued and written. -/
def prompt (parent : RequestId) (k : Nat) : List Ev :=
  .server (.enter parent "client.prompt") ::
    [.acquire 1000, .order, .register true, .check, .enqueue].map (fun e => .server (.callback k e)) ++ [.server .take]

def opening : List Ev := initializing ++ [.server (.session (.init_returned none))] ++ initialized ++ resolving

/-- The handler drops the future of its first callback and calls again. -/
def dropped : List Ev := opening ++ prompt 2 0 ++ [.client_read, .server (.callback 0 .drop)] ++ prompt 2 1

/-- The handler of `rpc.initialize` calls back and returns; its response is written and read
    before the callback is answered. -/
def swapped : List Ev :=
  initializing ++ prompt 1 0 ++ [.client_read, .server (.session (.init_returned none)), .server (.callback 0 .abandon)] ++
    initialized ++ resolving ++ prompt 2 1

end Monosecret.Rpc.Session
