/-
  Monosecret.Rpc.ClientLedger — who waits for which response, over any session.

  A `Ledger` is what matching responses to requests comes to: the IDs asked so far, the stake
  each waiter has, the pending entries, the markers of abandoned requests and the sender of
  each request, with a history of what was answered, given up and returned. `Balanced` is
  what a client keeps of it, and each operation is one lemma: registering, queueing, taking a
  registration back, giving up, a response that finds its entry or its marker, a waiter that
  returns, and a failed session that empties its tables.
-/

import Monosecret.Rpc.ClientMoves

namespace Monosecret.Rpc.Client

open List (mem_append mem_append_left mem_append_right mem_singleton)

structure Ledger where
  floor : RequestId
  named : RequestId → Waiter → Prop
  own : Waiter → Option (RequestId × Bool)
  asked : List RequestId
  pending : RequestId → Bool
  abandoned : List RequestId
  failed : Bool
  overflowing : Nat
  answers : RequestId → Option Body
  /-- The waiter whose `oneshot::Sender` an entry holds. -/
  senders : RequestId → Option Waiter
  /-- What was sent to a waiter, with the ID of the response. -/
  received : Waiter → Option (RequestId × Body)
  arrived : List (RequestId × Body)
  answered : List RequestId
  given_up : List RequestId
  /-- Those given up while the table of markers was full. -/
  overflowed : List RequestId
  returned : List (Nat × RequestId × Body)

structure Balanced (L : Ledger) : Prop where
  functional : ∀ w id id', L.named id w → L.named id' w → id = id'
  alone : ∀ w w' id id', L.own w = some (id, false) → L.own w' = some (id', false) → w = w'
  increasing : L.asked.Pairwise (· < ·)
  below : ∀ id ∈ L.asked, id < L.floor
  sent : ∀ id w, L.senders id = some w → L.named id w ∧ id < L.floor
  pending : ∀ id, L.pending id = true → (∃ w, L.senders id = some w) ∧ id ∉ L.abandoned ∧ id ∉ L.answered
  own : ∀ w id b, L.own w = some (id, b) →
    L.senders id = some w ∧ (L.pending id = true ∨ id ∈ L.answered ∨ L.failed = true)
  queued : ∀ w id, L.own w = some (id, true) → id ∈ L.asked
  unqueued : ∀ w id, L.own w = some (id, false) → ∀ a ∈ L.asked, a < id
  marked : ∀ id ∈ L.abandoned, id ∈ L.asked ∧ id ∉ L.answered
  distinct : L.abandoned.Nodup
  bounded : L.abandoned.length ≤ MAX_ABANDONED_REQUESTS
  once : L.answered.Nodup
  answered : ∀ id ∈ L.answered, id < L.floor
  given_up : ∀ id ∈ L.given_up,
    id ∈ L.asked ∧ (id ∈ L.abandoned ∨ id ∈ L.answered ∨ L.failed = true ∨ id ∈ L.overflowed)
  overflowed : L.overflowed ≠ [] → L.failed = true ∨ 0 < L.overflowing
  received : ∀ w id body, L.received w = some (id, body) →
    L.senders id = some w ∧ (id, body) ∈ L.arrived ∧ L.answers id = some body ∧ id ∈ L.answered
  answers : ∀ id body, L.answers id = some body → ∃ w, L.received w = some (id, body)
  returned : ∀ k id body, (k, id, body) ∈ L.returned → L.received (.call k) = some (id, body) ∧ id ∈ L.asked

variable {L : Ledger}
variable {id : RequestId} {w : Waiter}

section

variable (h : Balanced L)

include h

/-- A waiter has one request. -/
theorem Balanced.sender_inj {id' : RequestId} (h1 : L.senders id = some w) (h2 : L.senders id' = some w) : id = id' :=
  h.functional w id id' (h.sent id w h1).1 (h.sent id' w h2).1

/-- Time passes: waiters stop, IDs are skipped, the session fails. -/
theorem Balanced.grow (floor : RequestId) (named : RequestId → Waiter → Prop)
    (own : Waiter → Option (RequestId × Bool)) (failed : Bool) (overflowing : Nat) (hf : L.floor ≤ floor)
    (hn : ∀ w id id', named id w → named id' w → id = id') (hm : ∀ id w, L.named id w → named id w)
    (ho : ∀ w, own w = L.own w ∨ own w = none) (hl : L.failed → failed)
    (hv : L.overflowing ≤ overflowing ∨ failed) :
    Balanced { L with floor := floor, named := named, own := own, failed := failed, overflowing := overflowing } := by
  have hb : ∀ w r, own w = some r → L.own w = some r := fun w r hr => by
    rcases ho w with h | h
    · exact h ▸ hr
    · rw [h] at hr
      cases hr
  exact { h with
    functional := hn
    alone := fun w w' id id' h1 h2 => h.alone w w' id id' (hb _ _ h1) (hb _ _ h2)
    below := fun id hi => Nat.lt_of_lt_of_le (h.below id hi) hf
    sent := fun id w hw => ⟨hm id w (h.sent id w hw).1, Nat.lt_of_lt_of_le (h.sent id w hw).2 hf⟩
    own := fun w id b hw => (h.own w id b (hb _ _ hw)).imp_right fun h => h.imp_right fun h => h.imp_right hl
    queued := fun w id hw => h.queued w id (hb _ _ hw)
    unqueued := fun w id hw => h.unqueued w id (hb _ _ hw)
    answered := fun id hi => Nat.lt_of_lt_of_le (h.answered id hi) hf
    given_up := fun id hi => (h.given_up id hi).imp_right fun h => h.imp_right fun h => h.imp_right fun h =>
      h.imp_left hl
    overflowed := fun hne => by
      rcases h.overflowed hne with h | h
      · exact .inl (hl h)
      · exact hv.symm.imp_right fun hle => Nat.lt_of_lt_of_le h hle }

/-- A request is registered under the next ID. -/
theorem Balanced.register (w : Waiter) (floor : RequestId) (own : Waiter → Option (RequestId × Bool))
    (hf : L.floor < floor) (hn : L.named L.floor w) (hl : ∀ w' id, L.own w' ≠ some (id, false))
    (hw : own w = some (L.floor, false)) (hrs : ∀ w', w' ≠ w → own w' = L.own w') :
    Balanced { L with
      floor := floor
      own := own
      pending := fun p => L.pending p || p == L.floor
      senders := fun p => if p = L.floor then some w else L.senders p } := by
  have hb : ∀ w' r, own w' = some r → w' = w ∧ r = (L.floor, false) ∨ L.own w' = some r := fun w' r hr => by
    by_cases hw' : w' = w
    · rw [hw', hw] at hr
      exact .inl ⟨hw', (Option.some.inj hr).symm⟩
    · exact .inr (hrs w' hw' ▸ hr)
  have hold : ∀ {id w'}, L.senders id = some w' → (if id = L.floor then some w else L.senders id) = some w' := fun hs =>
    (if_neg (Nat.ne_of_lt (h.sent _ _ hs).2)).trans hs
  exact { h with
    alone := fun w1 w2 id id' h1 h2 => by
      rcases hb w1 _ h1 with ⟨rfl, -⟩ | h1
      · rcases hb w2 _ h2 with ⟨rfl, -⟩ | h2
        · rfl
        · exact absurd h2 (hl _ _)
      · exact absurd h1 (hl _ _)
    below := fun id hi => Nat.lt_trans (h.below id hi) hf
    sent := fun id w' hs => by
      dsimp only at hs
      by_cases hi : id = L.floor
      · subst hi
        rw [if_pos rfl] at hs
        cases hs
        exact ⟨hn, hf⟩
      · rw [if_neg hi] at hs
        exact (h.sent id w' hs).imp_right fun ht => Nat.lt_trans ht hf
    pending := fun id hp => by
      by_cases hi : id = L.floor
      · subst hi
        exact ⟨⟨w, if_pos rfl⟩, fun ha => Nat.lt_irrefl _ (h.below _ (h.marked _ ha).1),
          fun ha => Nat.lt_irrefl _ (h.answered _ ha)⟩
      · simp only [Bool.or_eq_true, beq_iff_eq, hi, or_false] at hp
        obtain ⟨⟨w', hw'⟩, hrs⟩ := h.pending id hp
        exact ⟨⟨w', (if_neg hi).trans hw'⟩, hrs⟩
    own := fun w' id b hw' => by
      rcases hb w' _ hw' with ⟨rfl, hr⟩ | hw'
      · obtain ⟨rfl, -⟩ := Prod.mk.inj hr
        exact ⟨if_pos rfl, .inl (by simp)⟩
      · obtain ⟨hs, hp⟩ := h.own w' id b hw'
        exact ⟨hold hs, hp.imp_left fun hp => by simp [hp]⟩
    queued := fun w' id hw' => by
      rcases hb w' _ hw' with ⟨-, hr⟩ | hw'
      · cases hr
      · exact h.queued w' id hw'
    unqueued := fun w' id hw' => by
      rcases hb w' _ hw' with ⟨-, hr⟩ | hw'
      · obtain ⟨rfl, -⟩ := Prod.mk.inj hr
        exact h.below
      · exact h.unqueued w' id hw'
    answered := fun id hi => Nat.lt_trans (h.answered id hi) hf
    received := fun w' id bd hr => (h.received w' id bd hr).imp_left hold }

variable (own : Waiter → Option (RequestId × Bool))

/-- Its frame is queued: no ID at or above it was. -/
theorem Balanced.queue (hs : L.own w = some (id, false))
    (hw : own w = some (id, true)) (hrs : ∀ w', w' ≠ w → own w' = L.own w') :
    Balanced { L with own := own, asked := L.asked ++ [id] } := by
  have hc : ∀ w' r, own w' = some r → w' = w ∧ r = (id, true) ∨ w' ≠ w ∧ L.own w' = some r := fun w' r hr => by
    by_cases hw' : w' = w
    · rw [hw', hw] at hr
      exact .inl ⟨hw', (Option.some.inj hr).symm⟩
    · exact .inr ⟨hw', hrs w' hw' ▸ hr⟩
  have hm : ∀ {p}, p ∈ L.asked → p ∈ L.asked ++ [id] := mem_append_left _
  have hn := (h.own w id false hs).1
  exact { h with
    alone := fun w1 w2 id1 id2 h1 h2 => by
      rcases hc w1 _ h1 with ⟨-, hr⟩ | ⟨-, h1⟩
      · cases hr
      · rcases hc w2 _ h2 with ⟨-, hr⟩ | ⟨-, h2⟩
        · cases hr
        · exact h.alone w1 w2 id1 id2 h1 h2
    increasing := List.pairwise_append.mpr ⟨h.increasing, List.pairwise_singleton _ _, fun a ha b hb => by
      rw [mem_singleton.mp hb]
      exact h.unqueued w id hs a ha⟩
    below := fun p hp => by
      rcases mem_append.mp hp with hp | hp
      · exact h.below p hp
      · rw [mem_singleton.mp hp]
        exact (h.sent id w hn).2
    own := fun w' p b hw' => by
      rcases hc w' _ hw' with ⟨rfl, hr⟩ | ⟨-, hw'⟩
      · obtain ⟨rfl, -⟩ := Prod.mk.inj hr
        exact h.own _ _ _ hs
      · exact h.own w' p b hw'
    queued := fun w' p hw' => by
      rcases hc w' _ hw' with ⟨-, hr⟩ | ⟨-, hw'⟩
      · exact mem_append_right _ (mem_singleton.mpr (Prod.mk.inj hr).1)
      · exact hm (h.queued w' p hw')
    unqueued := fun w' p hw' => by
      rcases hc w' _ hw' with ⟨-, hr⟩ | ⟨hne, hw'⟩
      · cases hr
      · exact absurd (h.alone w' w p id hw' hs) hne
    marked := fun p hp => (h.marked p hp).imp_left hm
    given_up := fun p hp => (h.given_up p hp).imp_left hm
    returned := fun k p bd hp => (h.returned k p bd hp).imp_right hm }

/-- A waiter stops with its entry taken back. -/
theorem Balanced.take_back {b : Bool}
    (hs : L.own w = some (id, b)) (hw : own w = none) (hrs : ∀ w', w' ≠ w → own w' = L.own w') :
    Balanced { L with own := own, pending := fun p => L.pending p && p != id } := by
  have hb : ∀ w' r, own w' = some r → w' ≠ w ∧ L.own w' = some r := fun w' r hr => by
    by_cases hw' : w' = w
    · rw [hw', hw] at hr
      cases hr
    · exact ⟨hw', hrs w' hw' ▸ hr⟩
  exact { h with
    alone := fun w1 w2 id1 id2 h1 h2 => h.alone w1 w2 id1 id2 (hb _ _ h1).2 (hb _ _ h2).2
    pending := fun p hp => h.pending p (Bool.and_eq_true_iff.mp hp).1
    own := fun w' p c hw' => by
      obtain ⟨hn, hw'⟩ := hb w' _ hw'
      obtain ⟨hs', hp⟩ := h.own w' p c hw'
      refine ⟨hs', hp.imp_left fun hp => ?_⟩
      have hi : p ≠ id := fun hi => hn (Option.some.inj (hs'.symm.trans (hi ▸ (h.own w id b hs).1)))
      simp [hp, hi]
    queued := fun w' p hw' => h.queued w' p (hb _ _ hw').2
    unqueued := fun w' p hw' => h.unqueued w' p (hb _ _ hw').2 }

/-- A queued request is given up while it is pending: it is marked, or the table is full. -/
theorem Balanced.give_up (hs : L.own w = some (id, true))
    (hw : own w = none) (hr : ∀ w', w' ≠ w → own w' = L.own w') (hp : L.pending id) :
    Balanced { L with
      own := own
      pending := fun p => L.pending p && p != id
      abandoned := if L.abandoned.length ≥ MAX_ABANDONED_REQUESTS then L.abandoned else L.abandoned ++ [id]
      overflowing := if L.abandoned.length ≥ MAX_ABANDONED_REQUESTS then L.overflowing + 1 else L.overflowing
      given_up := L.given_up ++ [id]
      overflowed := if L.abandoned.length ≥ MAX_ABANDONED_REQUESTS then L.overflowed ++ [id] else L.overflowed } := by
  have ht := h.take_back own hs hw hr
  have ha : id ∈ L.asked := h.queued w id hs
  obtain ⟨-, hu, hnw⟩ := h.pending id hp
  by_cases hf : L.abandoned.length ≥ MAX_ABANDONED_REQUESTS
  · simp only [if_pos hf]
    exact { ht with
      given_up := fun p hp => by
        rcases mem_append.mp hp with hp | hp
        · exact (h.given_up p hp).imp_right fun h => h.imp_right fun h => h.imp_right fun h =>
            h.imp_right (mem_append_left _)
        · rw [mem_singleton.mp hp]
          exact ⟨ha, .inr (.inr (.inr (mem_append_right _ (List.mem_singleton_self _))))⟩
      overflowed := fun _ => .inr (Nat.succ_pos _) }
  · simp only [if_neg hf]
    exact { ht with
      pending := fun p hp => by
        obtain ⟨hp, hne⟩ := Bool.and_eq_true_iff.mp hp
        refine (h.pending p hp).imp_right fun h => h.imp_left fun hn hm => ?_
        rcases mem_append.mp hm with hm | hm
        · exact hn hm
        · exact bne_iff_ne.mp hne (mem_singleton.mp hm)
      marked := fun p hp => by
        rcases mem_append.mp hp with hp | hp
        · exact h.marked p hp
        · rw [mem_singleton.mp hp]
          exact ⟨ha, hnw⟩
      distinct := List.concat_eq_append ▸ h.distinct.concat hu
      bounded := by
        rw [List.length_append]
        exact Nat.lt_of_not_le hf
      given_up := fun p hp => by
        rcases mem_append.mp hp with hp | hp
        · exact (h.given_up p hp).imp_right fun h => h.imp_left (mem_append_left _)
        · rw [mem_singleton.mp hp]
          exact ⟨ha, .inl (mem_append_right _ (List.mem_singleton_self _))⟩ }

/-- A request that is over is given up: its response came, or the session failed. -/
theorem Balanced.give_up_late
    (hs : L.own w = some (id, true)) (ho : ∀ w', own w' = L.own w' ∨ own w' = none) (hp : L.pending id = false) :
    Balanced { L with own := own, given_up := L.given_up ++ [id] } :=
  { h.grow L.floor L.named own L.failed L.overflowing (Nat.le_refl _) h.functional (fun _ _ h => h) ho (fun h => h)
      (.inl (Nat.le_refl _)) with
    given_up := fun p hp' => by
      rcases mem_append.mp hp' with hp' | hp'
      · exact h.given_up p hp'
      · rw [mem_singleton.mp hp']
        refine ⟨h.queued w id hs, ?_⟩
        rcases (h.own w id true hs).2 with hn | ha | hf
        · rw [hp] at hn
          cases hn
        · exact .inr (.inl ha)
        · exact .inr (.inr (.inl hf)) }

end

theorem mem_erase_ne {l : List RequestId} (hn : l.Nodup) {p : RequestId} (h : p ∈ l.erase id) : p ≠ id ∧ p ∈ l :=
  (hn.mem_erase_iff).mp h

variable (h : Balanced L)

include h

/-- A request is answered: its entry and its marker go. -/
theorem Balanced.answer (hl : id < L.floor) (hn : id ∉ L.answered) :
    Balanced { L with
      pending := fun p => L.pending p && p != id
      abandoned := L.abandoned.erase id
      answered := L.answered ++ [id] } := by
  have hg : ∀ {p}, p ∈ L.answered → p ∈ L.answered ++ [id] := mem_append_left _
  have hi : id ∈ L.answered ++ [id] := mem_append_right _ (List.mem_singleton_self _)
  have hu : ∀ {p}, p ≠ id → p ∉ L.answered → p ∉ L.answered ++ [id] := fun hne ha he =>
    (mem_append.mp he).elim ha fun he => hne (mem_singleton.mp he)
  exact { h with
    pending := fun p hp => by
      obtain ⟨hp, hne⟩ := Bool.and_eq_true_iff.mp hp
      obtain ⟨hs, hm, ha⟩ := h.pending p hp
      exact ⟨hs, fun he => hm (List.mem_of_mem_erase he), hu (bne_iff_ne.mp hne) ha⟩
    own := fun w p b hw => (h.own w p b hw).imp_right fun h => by
      by_cases hp : p = id
      · exact .inr (.inl (hp ▸ hi))
      · exact h.imp (fun h => by simp [h, hp]) fun h => h.imp_left hg
    marked := fun p hp => by
      obtain ⟨hne, hp⟩ := mem_erase_ne h.distinct hp
      exact (h.marked p hp).imp_right (hu hne)
    distinct := h.distinct.erase _
    bounded := Nat.le_trans (List.length_erase_le) h.bounded
    once := List.concat_eq_append ▸ h.once.concat hn
    answered := fun p hp => by
      rcases mem_append.mp hp with hp | hp
      · exact h.answered p hp
      · rw [mem_singleton.mp hp]
        exact hl
    given_up := fun p hp => (h.given_up p hp).imp_right fun h => by
      by_cases hp : p = id
      · exact .inr (.inl (hp ▸ hi))
      · exact h.imp (fun h => (List.mem_erase_of_ne hp).mpr h) fun h => h.imp_left hg
    received := fun w p b hr => (h.received w p b hr).imp_right fun h => h.imp_right fun h => h.imp_right hg }

/-- A response finds its pending entry and goes to the entry's sender. -/
theorem Balanced.hand_over (bd : Body) (hp : L.pending id) (hw : L.senders id = some w) :
    Balanced { L with
      pending := fun p => L.pending p && p != id
      abandoned := L.abandoned.erase id
      answers := fun p => if p = id then some bd else L.answers p
      received := fun w' => if w' = w then some (id, bd) else L.received w'
      arrived := L.arrived ++ [(id, bd)]
      answered := L.answered ++ [id] } := by
  have hn := (h.pending id hp).2.2
  -- a waiter that received before waited for another request
  have ho : ∀ w' p b, L.received w' = some (p, b) → w' ≠ w ∧ p ≠ id := fun w' p b hr => by
    obtain ⟨hs, -, -, ha⟩ := h.received w' p b hr
    have hne : p ≠ id := fun he => hn (he ▸ ha)
    exact ⟨fun he => hne (h.sender_inj (he ▸ hs) hw), hne⟩
  exact { h.answer (h.sent id w hw).2 hn with
    received := fun w' p b hr => by
      dsimp only at hr
      by_cases hw' : w' = w
      · subst hw'
        rw [if_pos rfl] at hr
        obtain ⟨rfl, rfl⟩ := Prod.mk.inj (Option.some.inj hr)
        exact ⟨hw, mem_append_right _ (List.mem_singleton_self _), if_pos rfl,
          mem_append_right _ (List.mem_singleton_self _)⟩
      · rw [if_neg hw'] at hr
        obtain ⟨hs, har, han, ha⟩ := h.received w' p b hr
        exact ⟨hs, mem_append_left _ har, (if_neg (ho w' p b hr).2).trans han, mem_append_left _ ha⟩
    answers := fun p b hb => by
      dsimp only at hb
      by_cases hi : p = id
      · rw [if_pos hi] at hb
        exact ⟨w, (if_pos rfl).trans (by rw [hi, Option.some.inj hb])⟩
      · rw [if_neg hi] at hb
        obtain ⟨w', hr⟩ := h.answers p b hb
        exact ⟨w', (if_neg (ho w' p b hr).1).trans hr⟩
    returned := fun k p b hr => by
      obtain ⟨hr, ha⟩ := h.returned k p b hr
      exact ⟨(if_neg (ho _ p b hr).1).trans hr, ha⟩ }

/-- A response that found no entry finds a marker. -/
theorem Balanced.consume (hm : id ∈ L.abandoned) :
    Balanced { L with abandoned := L.abandoned.erase id, answered := L.answered ++ [id] } := by
  obtain ⟨hk, hn⟩ := h.marked id hm
  have hp : (fun p => L.pending p && p != id) = L.pending := by
    funext p
    rw [Bool.and_eq_left_iff_imp, bne_iff_ne]
    exact fun hp he => (h.pending p hp).2.1 (he ▸ hm)
  exact hp ▸ h.answer (h.below id hk) hn

/-- A response is read. -/
theorem Balanced.arrive (r : RequestId × Body) : Balanced { L with arrived := L.arrived ++ [r] } :=
  { h with
    received := fun w p b hr =>
      (h.received w p b hr).imp_right fun h => h.imp_left (mem_append_left _) }

/-- `wait` returns what its waiter received. -/
theorem Balanced.wait {k : Nat} {bd : Body} (hr : L.received (.call k) = some (id, bd))
    (ha : id ∈ L.asked) : Balanced { L with returned := L.returned ++ [(k, id, bd)] } :=
  { h with
    returned := fun k' p b hp => by
      rcases mem_append.mp hp with hp | hp
      · exact h.returned k' p b hp
      · obtain ⟨rfl, he⟩ := Prod.mk.inj (mem_singleton.mp hp)
        obtain ⟨rfl, rfl⟩ := Prod.mk.inj he
        exact ⟨hr, ha⟩ }

/-- A failed session drops its pending entries. -/
theorem Balanced.drain (hf : L.failed) : Balanced { L with pending := fun _ => false } :=
  { h with
    pending := nofun
    own := fun w id b hw => (h.own w id b hw).imp_right fun _ => .inr (.inr hf) }

/-- A failed session drops its markers. -/
theorem Balanced.clear (hf : L.failed) : Balanced { L with abandoned := [] } :=
  { h with
    pending := fun id hp => (h.pending id hp).imp_right fun h => h.imp_left fun _ => List.not_mem_nil
    marked := nofun
    distinct := List.nodup_nil
    bounded := Nat.zero_le _
    given_up := fun id hi => (h.given_up id hi).imp_right fun _ => .inr (.inr (.inl hf)) }

end Monosecret.Rpc.Client
