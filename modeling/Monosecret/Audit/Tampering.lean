/-
  Monosecret.Audit.Tampering — what `verify_chain` tells of an edited log.

  A log is what one logger wrote, each entry with the digest of the one before it (`written`,
  `run_one_chain`). Whatever is done to its lines, as long as no new digest is in them: a line
  with a digest that verifies has the content of the entry with that digest, and follows the
  line that has the content of the entry before. So when there is no break, the lines are
  entries without a digest, and then beginnings of the log, one for each chain start
  (`tamper_evidence`). Undigested entries and repeated beginnings are no breaks
  (`unnoticed_edits`).
-/

import Monosecret.Audit.Integrity

namespace Monosecret.Audit

open Lib Json JsonText
open Cache (utf8)
open Option (bind_some map_some some_or)
open List (append_assoc append_nil lookup_cons map_append mem_append mem_append_left mem_map mem_map_of_mem
  mem_singleton nil_append)

/-! ## Canonical order -/

theorem lookup_orderedInsert (entry : String × Json) (m : List (String × Json)) (key : String) :
    (m.orderedInsert (fun a b => a.1 ≤ b.1) entry).lookup key = (entry :: m).lookup key := by
  induction m with
  | nil => rfl
  | cons head m ih =>
    by_cases hl : entry.1 ≤ head.1
    · rw [List.orderedInsert, if_pos hl]
    · rw [List.orderedInsert, if_neg hl, lookup_cons, ih, lookup_cons, lookup_cons, lookup_cons]
      by_cases hk : key = entry.1
      · have hn : entry.1 ≠ head.1 := fun he => hl (he ▸ le_refl _)
        rw [hk, beq_false_of_ne hn, beq_self_eq_true]
      · rw [beq_false_of_ne hk]

/-- Sorting is stable: the first member with a key stays the first. -/
theorem lookup_insertionSort (m : List (String × Json)) (key : String) :
    (m.insertionSort fun a b => a.1 ≤ b.1).lookup key = m.lookup key := by
  induction m with
  | nil => rfl
  | cons entry m ih => rw [List.insertionSort_cons, lookup_orderedInsert, lookup_cons, lookup_cons, ih]

theorem lookup_sort_members (m : List (String × Json)) (k : String) :
    (sort_members m).lookup k = (m.lookup k).map sort_all_objects := by
  induction m with
  | nil => rfl
  | cons entry m ih =>
    obtain ⟨n, mm⟩ := entry
    rw [sort_members, lookup_cons, lookup_cons, ih]
    cases k == n <;> rfl

theorem get_sort (value : Json) (k : String) : (sort_all_objects value).get k = (value.get k).map sort_all_objects := by
  cases value with
  | obj m => rw [sort_all_objects, get_obj, get_obj, lookup_insertionSort, lookup_sort_members]
  | _ => rfl

theorem as_str_sort (value : Json) : as_str (sort_all_objects value) = as_str value := by
  cases value <;> rfl

theorem lookup_remove {m : List (String × Json)} {key other : String} (h : other ≠ key) :
    (remove key m).lookup other = m.lookup other := by
  induction m with
  | nil => rfl
  | cons entry m ih =>
    unfold remove at ih ⊢
    rw [List.filter_cons, lookup_cons]
    split
    · rw [lookup_cons, ih]
    · rename_i hk
      obtain rfl : entry.1 = key := by simpa using hk
      rw [beq_false_of_ne h, ih]

/-- The predecessor is a member of what the digest is of. -/
theorem prev_of_canonical (value : Json) :
    (value.get "prev").bind as_str = ((sort_all_objects (stripped value)).get "prev").bind as_str := by
  have hs : (stripped value).get "prev" = value.get "prev" := by
    cases value with
    | obj m => exact lookup_remove (by decide)
    | _ => rfl
  rw [get_sort, hs]
  cases value.get "prev" with
  | none => rfl
  | some prev => exact (as_str_sort prev).symm

mutual

theorem plain_sort (value : Json) (h : Plain value) : Plain (sort_all_objects value) := by
  cases value with
  | arr i => exact plain_sort_items i h
  | obj m =>
    obtain ⟨hp, hn⟩ := h
    obtain ⟨hs, hk⟩ := plain_sort_members m hp
    have hr := List.perm_insertionSort (fun a b : String × Json => a.1 ≤ b.1) (sort_members m)
    refine ⟨plain_members_iff.mpr fun entry hm => plain_members_iff.mp hs entry (hr.mem_iff.mp hm), ?_⟩
    rw [(hr.map Prod.fst).nodup_iff, hk]
    exact hn
  | _ => exact h

theorem plain_sort_items (i : List Json) (h : PlainItems i) : PlainItems (sort_items i) := by
  cases i with
  | nil => exact h
  | cons it i => exact ⟨plain_sort it h.1, plain_sort_items i h.2⟩

theorem plain_sort_members (m : List (String × Json)) (h : PlainMembers m) :
    PlainMembers (sort_members m) ∧ (sort_members m).map Prod.fst = m.map Prod.fst := by
  cases m with
  | nil => exact ⟨h, rfl⟩
  | cons entry m =>
    obtain ⟨k, mm⟩ := entry
    obtain ⟨hr, hk⟩ := plain_sort_members m h.2
    exact ⟨⟨plain_sort mm h.1, hr⟩, congrArg (k :: ·) hk⟩

end

/-! ## One chain -/

section

variable (serde : Serde) (sha256_hex : String → String)

/-- The lines of events recorded one after the other, with their digests. -/
def written : Option String → List AuditEvent → List (String × String)
  | _, [] => []
  | prev, event :: events =>
    match chained_line serde sha256_hex event prev with
    | none => written prev events
    | some (line, digest) => (line, digest) :: written (some digest) events

/-- The predecessor of what is recorded next. -/
def tip : Option String → List AuditEvent → Option String
  | prev, [] => prev
  | prev, event :: events =>
    match chained_line serde sha256_hex event prev with
    | none => tip prev events
    | some (_, digest) => tip (some digest) events

/-- The predecessor of the entry at a position. -/
def link_at (prev : Option String) (entries : List (String × String)) : Nat → Option String
  | 0 => prev
  | i + 1 => (entries[i]?).map Prod.snd

variable {serde sha256_hex}

theorem written_append (serde : Serde) (sha256_hex : String → String) (prev : Option String) (events : List AuditEvent) (event : AuditEvent) :
    written serde sha256_hex prev (events ++ [event]) = written serde sha256_hex prev events ++
      (chained_line serde sha256_hex event (tip serde sha256_hex prev events)).toList ∧
    tip serde sha256_hex prev (events ++ [event]) =
      ((chained_line serde sha256_hex event (tip serde sha256_hex prev events)).map Prod.snd).or
        (tip serde sha256_hex prev events) := by
  induction events generalizing prev with
  | nil =>
    simp only [nil_append, written, tip]
    cases chained_line serde sha256_hex event prev with
    | none | some entry => exact ⟨rfl, rfl⟩
  | cons first events ih =>
    rw [List.cons_append, written, written, tip, tip]
    cases chained_line serde sha256_hex first prev with
    | none => exact ih prev
    | some entry =>
      obtain ⟨hw, ht⟩ := ih (some entry.2)
      exact ⟨congrArg (entry :: ·) hw, ht⟩

variable {prev : Option String}

/-- Every entry is an event's, with the entry before as its predecessor. -/
theorem written_entry {events : List AuditEvent} {i : Nat} {entry : String × String}
    (h : (written serde sha256_hex prev events)[i]? = some entry) :
    ∃ event, chained_line serde sha256_hex event (link_at prev (written serde sha256_hex prev events) i) = some entry := by
  induction events generalizing prev i with
  | nil => cases h
  | cons event events ih =>
    rw [written] at h ⊢
    cases hl : chained_line serde sha256_hex event prev with
    | none =>
      rw [hl] at h
      exact ih h
    | some first =>
      rw [hl] at h
      cases i with
      | zero =>
        cases h
        exact ⟨event, hl⟩
      | succ i =>
        obtain ⟨other, ho⟩ := ih h
        refine ⟨other, ?_⟩
        cases i <;> exact ho

/-! ## What a logger writes -/

/-- The file is one chain, which the logger goes on with. -/
def OneChain (serde : Serde) (sha256_hex : String → String) (logger : AuditLogger) : Prop :=
  ∃ events, WholeLines logger.file ((written serde sha256_hex none events).map Prod.fst) ∧
    logger.last_hash = tip serde sha256_hex none events

theorem chained_line_links (hserde : serde.Lawful) {event : AuditEvent} {line digest : String}
    (h : chained_line serde sha256_hex event prev = some (line, digest)) : Links serde sha256_hex line digest prev := by
  rw [chained_line_eq] at h
  split at h
  · cases h
    exact event.sealable.links sha256_hex prev hserde
  · cases h

/-- At a restart the entry is written without its predecessor. -/
theorem chained_line_restarts (hserde : serde.Lawful) {event : AuditEvent} {l d : String}
    (h : chained_line serde sha256_hex event prev = some (l, d)) :
    event.interaction.all InteractionReference.safe ∧
      ∃ first, chained_line serde sha256_hex event none = some first ∧ restart_chained_line serde sha256_hex l = some first := by
  rw [chained_line_eq] at h
  split at h
  · rename_i hs
    cases h
    refine ⟨hs, _, ?_, event.sealable.restarts sha256_hex prev hserde⟩
    rw [chained_line_eq, if_pos hs]
  · cases h

theorem walk_written (sha256_hex : String → String) (hserde : serde.Lawful) (events : List AuditEvent) :
    (walk serde sha256_hex ((written serde sha256_hex none events).map Prod.fst)).prev = tip serde sha256_hex none events ∧
      (walk serde sha256_hex ((written serde sha256_hex none events).map Prod.fst)).breaks = [] := by
  induction events using List.reverseRec with
  | nil => exact ⟨rfl, rfl⟩
  | append_singleton events event ih =>
    obtain ⟨hp, hb⟩ := ih
    obtain ⟨hw, ht⟩ := written_append serde sha256_hex none events event
    rw [hw, ht, map_append]
    cases hl : chained_line serde sha256_hex event (tip serde sha256_hex none events) with
    | none =>
      rw [Option.toList_none, List.map_nil, append_nil]
      exact ⟨hp, hb⟩
    | some entry =>
      rw [Option.toList_some, List.map_singleton, (chained_line_links hserde hl).walked (.inr hp.symm)]
      exact ⟨rfl, hb⟩

theorem verify_chain_written (sha256_hex : String → String) (hserde : serde.Lawful) (events : List AuditEvent) :
    (verify_chain serde sha256_hex ((written serde sha256_hex none events).map Prod.fst)).breaks = [] :=
  (walk_written sha256_hex hserde events).2

theorem one_chain_empty (logger : AuditLogger) : OneChain serde sha256_hex { logger with file := [], last_hash := none } :=
  ⟨[], whole_nil, rfl⟩

theorem OneChain.step (hserde : serde.Lawful) {l : AuditLogger} (h : OneChain serde sha256_hex l) {step : Step}
    (ht : step.torn = false) (hr : ∀ c, step ≠ .reopen c false) :
    OneChain serde sha256_hex (l.step serde sha256_hex step) := by
  obtain ⟨events, hwh, hl⟩ := h
  cases step with
  | reopen c readable =>
    obtain rfl : readable := by
      cases readable with
      | true => rfl
      | false => exact absurd rfl (hr c)
    obtain ⟨hp, hb⟩ := walk_written sha256_hex hserde events
    exact ⟨events, hwh, (from_config_prev hserde hwh hb c).trans hp⟩
  | record event d =>
    rw [AuditLogger.step, AuditLogger.record]
    cases hn : chained_line serde sha256_hex event l.last_hash with
    | none => exact ⟨events, hwh, hl⟩
    | some entry =>
      obtain ⟨ln, dg⟩ := entry
      obtain ⟨hs, first, hfr, hrs⟩ := chained_line_restarts hserde hn
      have hfl : ∀ written, d.failed = some written → written = 0 := by
        intro written hw
        rw [Step.torn, hs, Bool.true_and, hw, Option.any_some] at ht
        exact Nat.eq_zero_of_not_pos (of_decide_eq_false ht)
      simp only [write_line]
      cases restarts l.max_size_bytes l.file ln d with
      | true =>
        -- Only the restarted entry is left, or nothing.
        simp only [if_true, hrs]
        cases hf : d.failed with
        | some written =>
          rw [hfl written hf]
          exact one_chain_empty l
        | none =>
          obtain ⟨hwr, htp⟩ := written_append serde sha256_hex none [] event
          rw [tip, hfr] at hwr htp
          refine ⟨[] ++ [event], ?_, htp.symm⟩
          rw [hwr]
          exact whole_nil.append (chained_line_links hserde hfr).one_line
      | false =>
        simp only [Bool.false_eq_true, if_false]
        cases hf : d.failed with
        | some written =>
          rw [hfl written hf]
          simp only [List.take_zero, append_nil]
          exact ⟨events, hwh, hl⟩
        | none =>
          obtain ⟨hwr, htp⟩ := written_append serde sha256_hex none events event
          rw [← hl, hn] at hwr htp
          refine ⟨events ++ [event], ?_, htp.symm⟩
          rw [hwr, map_append]
          exact hwh.append (chained_line_links hserde hn).one_line

/-- Whatever is recorded from an empty file on, while the log stays readable and no write fails part way,
    the file is one chain. -/
theorem run_one_chain (hserde : serde.Lawful) {l : AuditLogger} (h : OneChain serde sha256_hex l)
    {s : List Step} (ht : ∀ step ∈ s, step.torn = false) (hr : ∀ cap, Step.reopen cap false ∉ s) :
    OneChain serde sha256_hex (l.run serde sha256_hex s) := by
  induction s generalizing l with
  | nil => exact h
  | cons step s ih =>
    obtain ⟨hs, hst⟩ := List.forall_mem_cons.mp ht
    have hf : ∀ cap, step ≠ .reopen cap false := fun cap he => hr cap (he ▸ List.mem_cons_self)
    exact ih (h.step hserde hs hf) hst fun cap hm => hr cap (.tail _ hm)

theorem probe_one_chain :
    OneChain json_text Sha256.hex (AuditLogger.run json_text Sha256.hex ⟨[], 9, none⟩ [.record probe ⟨true, true, none⟩]) :=
  run_one_chain json_text_lawful (one_chain_empty ⟨[9], 9, none⟩) (by simp [Step.torn]) (by simp)

end

/-! ## Contents -/

section

variable (serde : Serde)

/-- The digest a line carries. -/
def line_sha (line : String) : Option String :=
  (serde.from_str line).bind fun value => (value.get "sha").bind as_str

/-- What the digest of a line is of: its other members in canonical order. -/
def line_core (line : String) : Option Json := (serde.from_str line).map fun value => sort_all_objects (stripped value)

/-- What a line says, whatever the order of its members. -/
def content (line : String) : Option (Json × Option Json) :=
  (serde.from_str line).map fun value => (sort_all_objects (stripped value), value.get "sha")

/-- The text that is digested for a line. -/
def digested (line : String) : Option String :=
  (line_core serde line).map fun core =>
    ((core.get "prev").bind as_str).getD "genesis" ++ "\n" ++ serde.to_string core

/-- No two lines are digested alike that say different things. -/
structure Collisionless (sha256_hex : String → String) (found : List String) : Prop where
  digest : Set.InjOn sha256_hex {text | ∃ line ∈ found, digested serde line = some text}
  canonical : Set.InjOn serde.to_string {core | ∃ line ∈ found, line_core serde line = some core}

end

section

variable {serde : Serde} {sha256_hex : String → String}

/-- A text without a line feed is what follows the last one. -/
theorem append_last_line {a b x y : String} (hx : '\n' ∉ x.toList) (hy : '\n' ∉ y.toList)
    (h : a ++ "\n" ++ x = b ++ "\n" ++ y) : x = y := by
  have hl : ∀ {before l : String}, '\n' ∉ l.toList →
      ((before ++ "\n" ++ l).toList.reverse.takeWhile (· != '\n')).reverse = l.toList := by
    intro before l hn
    have hf : "\n".toList = ['\n'] := rfl
    rw [String.toList_append, String.toList_append, hf, append_assoc, List.singleton_append, List.reverse_append,
      List.reverse_cons, append_assoc, List.singleton_append, List.takeWhile_append_of_pos, List.takeWhile_cons_of_neg,
      append_nil, List.reverse_reverse]
    · simp
    · intro c hc
      refine bne_iff_ne.mpr ?_
      rintro rfl
      exact hn (List.mem_reverse.mp hc)
  have hs := congrArg (fun t : String => (t.toList.reverse.takeWhile (· != '\n')).reverse) h
  simp only [hl hx, hl hy] at hs
  exact String.toList_injective hs

/-- Lines in play with one digest have one core. -/
theorem Collisionless.core_eq {found : List String} (h : Collisionless serde sha256_hex found) (hserde : serde.Lawful)
    {a b : String} (ha : a ∈ found) (hb : b ∈ found) {x y : Json} (hx : line_core serde a = some x)
    (hy : line_core serde b = some y)
    (hd : sha256_hex (((x.get "prev").bind as_str).getD "genesis" ++ "\n" ++ serde.to_string x) =
      sha256_hex (((y.get "prev").bind as_str).getD "genesis" ++ "\n" ++ serde.to_string y)) : x = y := by
  have ht := h.digest ⟨a, ha, by rw [digested, hx]; rfl⟩ ⟨b, hb, by rw [digested, hy]; rfl⟩ hd
  exact h.canonical ⟨a, ha, hx⟩ ⟨b, hb, hy⟩ (append_last_line (hserde.one_line x).1 (hserde.one_line y).1 ht)

/-- The digest that a line must carry to verify. -/
theorem chain_digest_core (serde : Serde) (sha256_hex : String → String) (value : Json) :
    chain_digest serde sha256_hex ((value.get "prev").bind as_str) (stripped value) =
      sha256_hex ((((sort_all_objects (stripped value)).get "prev").bind as_str).getD "genesis" ++ "\n" ++
        serde.to_string (sort_all_objects (stripped value))) := by
  rw [chain_digest, prev_of_canonical]

/-- What an entry of the log reads as. -/
structure Reads (serde : Serde) (sha256_hex : String → String) (entry : String × String) (link : Option String)
    (value : Json) : Prop where
  read : serde.from_str entry.1 = some value
  sha : value.get "sha" = some (.str entry.2)
  prev : (value.get "prev").bind as_str = link
  digest : chain_digest serde sha256_hex link (stripped value) = entry.2

variable {entry : String × String}

theorem chained_line_reads (hserde : serde.Lawful) {event : AuditEvent} {prev : Option String}
    (h : chained_line serde sha256_hex event prev = some entry) : ∃ value, Reads serde sha256_hex entry prev value := by
  rw [chained_line_eq] at h
  split at h
  · cases h
    have hs := event.sealable
    refine ⟨sealed serde sha256_hex event.fields prev, hs.read_back sha256_hex prev hserde, hs.get_sha sha256_hex prev, ?_, ?_⟩
    · rw [hs.get_prev sha256_hex prev, bind_some, nullable_as_str]
    · rw [hs.stripped_sealed sha256_hex prev]
  · cases h

/-! ## Which entry a line is -/

section

variable {prev : Option String} {events : List AuditEvent} {lines : List String}
  (hserde : serde.Lawful)
  (hplay : Collisionless serde sha256_hex ((written serde sha256_hex none events).map Prod.fst ++ lines))

include hserde hplay

/-- A line that verifies says what the entry with its digest says. -/
theorem verified_content {line : String} (hl : line ∈ (written serde sha256_hex none events).map Prod.fst ++ lines) {value : Json} (hr : serde.from_str line = some value)
    {recorded : String} (hs : (value.get "sha").bind as_str = some recorded)
    (hd : chain_digest serde sha256_hex ((value.get "prev").bind as_str) (stripped value) = recorded)
    {i : Nat} {entry : String × String} (he : (written serde sha256_hex none events)[i]? = some entry)
    (hc : entry.2 = recorded) :
    content serde line = content serde entry.1 ∧
      (value.get "prev").bind as_str = link_at none (written serde sha256_hex none events) i := by
  obtain ⟨event, hch⟩ := written_entry he
  obtain ⟨original, ho⟩ := chained_line_reads hserde hch
  have hcr : sort_all_objects (stripped value) = sort_all_objects (stripped original) := by
    refine hplay.core_eq hserde hl
      (mem_append_left _ (mem_map_of_mem (List.mem_of_getElem? he))) ?_ ?_ ?_
    · rw [line_core, hr, map_some]
    · rw [line_core, ho.read, map_some]
    · have hm := (chain_digest_core serde sha256_hex value).symm.trans hd
      have horiginal_digest := chain_digest_core serde sha256_hex original
      rw [ho.prev, ho.digest, hc] at horiginal_digest
      exact hm.trans horiginal_digest
  constructor
  · have ht : value.get "sha" = some (.str recorded) := by
      cases hg : value.get "sha" with
      | none =>
        rw [hg] at hs
        cases hs
      | some sha =>
        rw [hg] at hs
        cases sha with
        | str text => exact congrArg (fun t => some (Json.str t)) (Option.some.inj hs)
        | _ => cases hs
    rw [content, content, hr, ho.read, map_some, map_some, hcr, ht, ho.sha, hc]
  · rw [prev_of_canonical, hcr, ← prev_of_canonical, ho.prev]

/-- No two entries of a log have one digest. -/
theorem digest_position {i j : Nat} {a b : String × String}
    (ha : (written serde sha256_hex none events)[i]? = some a) (hb : (written serde sha256_hex none events)[j]? = some b)
    (h : a.2 = b.2) : i = j := by
  have hl : ∀ {i j : Nat} {a b : String × String}, (written serde sha256_hex none events)[i]? = some a →
      (written serde sha256_hex none events)[j]? = some b → a.2 = b.2 →
        link_at none (written serde sha256_hex none events) i = link_at none (written serde sha256_hex none events) j := by
    intro i j a b ha hb h
    obtain ⟨event, hch⟩ := written_entry ha
    obtain ⟨value, hv⟩ := chained_line_reads hserde hch
    have hm : a.1 ∈ (written serde sha256_hex none events).map Prod.fst ++ lines :=
      mem_append_left lines (mem_map_of_mem (List.mem_of_getElem? ha))
    have hs : (value.get "sha").bind as_str = some a.2 := by
      rw [hv.sha]
      rfl
    exact hv.prev.symm.trans
      (verified_content hserde hplay hm hv.read hs (hv.prev.symm ▸ hv.digest) hb h.symm).2
  have hf : ∀ {i : Nat} {a : String × String}, (written serde sha256_hex none events)[i + 1]? = some a →
      ∃ b, (written serde sha256_hex none events)[i]? = some b := by
    intro i a ha
    have ht := (List.getElem?_eq_some_iff.mp ha).1
    exact ⟨_, List.getElem?_eq_getElem (Nat.lt_of_succ_lt ht)⟩
  -- Equal digests have equal predecessors, down to the first entry, which has none.
  induction i generalizing j a b with
  | zero =>
    cases j with
    | zero => rfl
    | succ j =>
      obtain ⟨c, hc⟩ := hf hb
      have hk := hl ha hb h
      rw [link_at, link_at, hc] at hk
      cases hk
  | succ i ih =>
    obtain ⟨c, hc⟩ := hf ha
    have hk := hl ha hb h
    cases j with
    | zero =>
      rw [link_at, link_at, hc] at hk
      cases hk
    | succ j =>
      obtain ⟨d, hd⟩ := hf hb
      rw [link_at, link_at, hc, hd] at hk
      exact congrArg (· + 1) (ih hc hd (Option.some.inj hk))

end

/-! ## Lines without a break -/

/-- Where a walk without a break is: it passed entries without a digest, then beginnings of the log, and its
    predecessor is the last entry of the last one. -/
structure Told (serde : Serde) (log : List (String × String)) (w : Walk) (lines legacy : List String)
    (runs : List (List String)) : Prop where
  split : lines = legacy ++ runs.flatten
  undigested : ∀ line ∈ legacy, line_sha serde line = none
  legacy_count : w.legacy = legacy.length
  start_count : w.chain_starts = runs.length
  beginnings : ∀ run ∈ runs, run ≠ [] ∧ run.map (content serde) <+: log.map fun entry => content serde entry.1
  seen : w.chained_seen = !runs.isEmpty
  last : w.prev = runs.getLast?.bind fun run => (log[run.length - 1]?).map Prod.snd

theorem told_start (l : List (String × String)) : Told serde l .start [] [] [] :=
  ⟨rfl, fun _ h => absurd h List.not_mem_nil, rfl, rfl, fun _ h => absurd h List.not_mem_nil, rfl, rfl⟩

/-- A line that says what the next entry of the log says goes on with a beginning of it. -/
theorem beginning_append {lg : List (String × String)} {run : List String} {l : String}
    (h : run.map (content serde) <+: lg.map fun entry => content serde entry.1)
    (he : lg[run.length]? = some entry) (hl : content serde l = content serde entry.1) :
    (run ++ [l]).map (content serde) <+: lg.map fun entry => content serde entry.1 := by
  obtain ⟨r, hr⟩ := h
  have hn : (lg.map fun entry => content serde entry.1)[run.length]? = some (content serde l) := by
    rw [List.getElem?_map, he, hl]
    rfl
  rw [← hr, List.getElem?_append_right (by simp), List.length_map, Nat.sub_self] at hn
  cases r with
  | nil => cases hn
  | cons first r =>
    refine ⟨r, ?_⟩
    rw [← hr, map_append, List.map_singleton, append_assoc, List.singleton_append, ← Option.some.inj hn]

/-- An entry without predecessor is the first. -/
theorem first_of_no_link {l : List (String × String)} {i : Nat} (h : l[i]? = some entry)
    (hl : link_at none l i = none) : i = 0 := by
  cases i with
  | zero => rfl
  | succ i =>
    have ht := (List.getElem?_eq_some_iff.mp h).1
    rw [link_at, List.getElem?_eq_getElem (Nat.lt_of_succ_lt ht)] at hl
    cases hl

section

variable {events : List AuditEvent} {lines : List String} (hserde : serde.Lawful)
  (hplay : Collisionless serde sha256_hex ((written serde sha256_hex none events).map Prod.fst ++ lines))

include hserde hplay

theorem Told.step {w : Walk} {before legacy : List String} {runs : List (List String)}
    (h : Told serde (written serde sha256_hex none events) w before legacy runs) {l : String} (hl : l ∈ lines)
    (hr : ∀ d, line_sha serde l = some d → d ∈ (written serde sha256_hex none events).map Prod.snd)
    {index : Nat} (hb : (verify_line serde sha256_hex w (l, index)).breaks = []) :
    ∃ legacy runs, Told serde (written serde sha256_hex none events) (verify_line serde sha256_hex w (l, index))
      (before ++ [l]) legacy runs := by
  unfold verify_line at hb ⊢
  cases hd : serde.from_str l with
  | none =>
    simp only [hd] at hb
    exact absurd hb (breaks_ne_nil w _ _)
  | some value =>
    cases hs : (value.get "sha").bind as_str with
    | none =>
      simp only [hd, hs] at hb ⊢
      split at hb
      · exact absurd hb (breaks_ne_nil w _ _)
      rename_i hn
      rw [if_neg hn]
      obtain rfl : runs = [] := by
        have he := h.seen
        rw [Bool.eq_false_iff.mpr hn] at he
        simpa using he.symm
      have hf : before = legacy := by simpa using h.split
      refine ⟨legacy ++ [l], [], ?_, ?_, ?_, h.start_count, h.beginnings, h.seen, h.last⟩
      · rw [hf, List.flatten_nil, append_nil]
      · intro other ho
        rcases mem_append.mp ho with ho | ho
        · exact h.undigested other ho
        · rw [mem_singleton.mp ho, line_sha, hd]
          exact hs
      · rw [List.length_append, List.length_singleton, h.legacy_count]
    | some recorded =>
      simp only [hd, hs] at hb ⊢
      split at hb
      · exact absurd hb (breaks_ne_nil _ _ _)
      rename_i hg
      rw [if_neg hg]
      -- The line is the entry with its digest.
      have hc : line_sha serde l = some recorded := by
        rw [line_sha, hd]
        exact hs
      obtain ⟨entry, hen, rfl⟩ := mem_map.mp (hr recorded hc)
      obtain ⟨i, hi⟩ := List.mem_iff_getElem?.mp hen
      obtain ⟨hcn, hln⟩ := verified_content hserde hplay (List.mem_append_right _ hl) hd hs
        (Classical.not_not.mp hg) hi rfl
      cases hp : (value.get "prev").bind as_str with
      | none =>
        rw [hp] at hln
        obtain rfl := first_of_no_link hi hln.symm
        refine ⟨legacy, runs ++ [[l]], ?_, h.undigested, h.legacy_count, ?_, ?_, ?_, ?_⟩
        · rw [h.split, List.flatten_append, append_assoc]
          rfl
        · rw [List.length_append, ← h.start_count]
          rfl
        · intro run hrn
          rcases mem_append.mp hrn with hrn | hrn
          · exact h.beginnings run hrn
          · rw [mem_singleton.mp hrn]
            have hnn : ([] : List String).map (content serde) <+:
                (written serde sha256_hex none events).map fun entry => content serde entry.1 := List.nil_prefix
            exact ⟨List.cons_ne_nil _ _, beginning_append hnn hi hcn⟩
        · simp [Walk.link]
        · rw [List.getLast?_append, List.getLast?_singleton, some_or, bind_some, List.length_singleton,
            Nat.sub_self, hi]
          rfl
      | some linked =>
        rw [hp] at hln hb
        have hw : w.prev = some linked := by
          by_contra hne
          rw [Walk.link, if_neg hne] at hb
          exact breaks_ne_nil _ _ _ hb
        have hls := h.last
        rw [hw] at hls
        obtain ⟨run, hrn, hn⟩ := Option.bind_eq_some_iff.mp hls.symm
        obtain ⟨b, rfl⟩ := List.getLast?_eq_some_iff.mp hrn
        obtain ⟨other, ho, rfl⟩ := Option.map_eq_some_iff.mp hn
        obtain ⟨hne, hbg⟩ := h.beginnings run (List.mem_append_right _ (List.mem_singleton_self run))
        -- It follows the entry that the walk saw last.
        have hx : i = run.length := by
          cases i with
          | zero => cases hln
          | succ i =>
            obtain ⟨previous, hpr, hm⟩ := Option.map_eq_some_iff.mp hln.symm
            have hps := digest_position hserde hplay hpr ho hm
            have hpo := List.length_pos_iff.mpr hne
            omega
        subst hx
        refine ⟨legacy, b ++ [run ++ [l]], ?_, h.undigested, ?_, ?_, ?_, ?_, ?_⟩
        · rw [h.split]
          simp
        · simp [Walk.link, hw, h.legacy_count]
        · simp [Walk.link, hw, h.start_count]
        · intro o hmm
          rcases mem_append.mp hmm with hmm | hmm
          · exact h.beginnings o (mem_append_left _ hmm)
          · rw [mem_singleton.mp hmm]
            exact ⟨by simp, beginning_append hbg hi hcn⟩
        · simp [Walk.link, hw]
        · rw [List.getLast?_append, List.getLast?_singleton, some_or, bind_some, List.length_append,
            List.length_singleton, Nat.add_sub_cancel, hi]
          rfl

theorem told_walk (hr : ∀ l ∈ lines, ∀ d, line_sha serde l = some d →
      d ∈ (written serde sha256_hex none events).map Prod.snd)
    (found : List String) (hf : ∀ l ∈ found, l ∈ lines) (hb : (walk serde sha256_hex found).breaks = []) :
    ∃ legacy runs, Told serde (written serde sha256_hex none events) (walk serde sha256_hex found) found legacy runs := by
  induction found using List.reverseRec with
  | nil => exact ⟨[], [], told_start _⟩
  | append_singleton found l ih =>
    rw [walk_append] at hb ⊢
    obtain ⟨hbf, -⟩ := verify_line_intact (walk_begun found) hb
    obtain ⟨legacy, runs, ht⟩ := ih (fun other ho => hf other (mem_append_left _ ho)) hbf
    have hl := hf l (List.mem_append_right _ (List.mem_singleton_self l))
    exact ht.step hserde hplay hl (hr l hl) hb

end

/-- A log of one chain, and any lines in which no digest is new: without a break they are entries
    without a digest and then beginnings of the log, one for each chain start. -/
theorem tamper_evidence (hserde : serde.Lawful) (events : List AuditEvent) (lines : List String)
    (hplay : Collisionless serde sha256_hex ((written serde sha256_hex none events).map Prod.fst ++ lines))
    (hrecorded : ∀ line ∈ lines, ∀ digest, line_sha serde line = some digest →
      digest ∈ (written serde sha256_hex none events).map Prod.snd)
    (hbreaks : (verify_chain serde sha256_hex lines).breaks = []) :
    (∃ (legacy : List String) (runs : List (List String)), lines = legacy ++ runs.flatten ∧ (∀ line ∈ legacy, line_sha serde line = none) ∧
      legacy.length = (verify_chain serde sha256_hex lines).legacy ∧
      runs.length = (verify_chain serde sha256_hex lines).chain_starts ∧
      ∀ run ∈ runs, run ≠ [] ∧
        run.map (content serde) <+: (written serde sha256_hex none events).map fun entry => content serde entry.1) ∧
    ((verify_chain serde sha256_hex lines).legacy = 0 → (verify_chain serde sha256_hex lines).chain_starts ≤ 1 →
      lines.map (content serde) <+: (written serde sha256_hex none events).map fun entry => content serde entry.1) := by
  obtain ⟨legacy, runs, ht⟩ := told_walk hserde hplay hrecorded lines (fun _ h => h) hbreaks
  refine ⟨⟨legacy, runs, ht.split, ht.undigested, ht.legacy_count.symm, ht.start_count.symm,
    ht.beginnings⟩, ?_⟩
  intro hl hs
  obtain rfl : legacy = [] := List.length_eq_zero_iff.mp (ht.legacy_count.symm.trans hl)
  have hn : runs.length ≤ 1 := ht.start_count ▸ hs
  rw [ht.split]
  match runs, hn with
  | [], _ => exact List.nil_prefix
  | [run], _ =>
    rw [nil_append, List.flatten_singleton]
    exact (ht.beginnings run (List.mem_singleton_self run)).2

/-! ## Edits that are no breaks -/

theorem line_sha_written (hserde : serde.Lawful) {events : List AuditEvent} {l d : String}
    (hl : l ∈ (written serde sha256_hex none events).map Prod.fst) (h : line_sha serde l = some d) :
    d ∈ (written serde sha256_hex none events).map Prod.snd := by
  obtain ⟨entry, he, rfl⟩ := mem_map.mp hl
  obtain ⟨i, hi⟩ := List.mem_iff_getElem?.mp he
  obtain ⟨event, hc⟩ := written_entry hi
  obtain ⟨value, hv⟩ := chained_line_reads hserde hc
  rw [line_sha, hv.read, bind_some, hv.sha] at h
  cases h
  exact mem_map_of_mem he

theorem undigested_plain (event : AuditEvent) (prev : Option String) :
    Plain (.obj (event.fields ++ [("prev", nullable prev)])) :=
  ⟨plain_members_append event.sealable.plain ⟨(shallow_nullable prev).1, trivial⟩, (event.sealable.chained_keys prev).1⟩

theorem written_core_plain (hserde : serde.Lawful) {events : List AuditEvent} {l : String}
    (hl : l ∈ (written serde sha256_hex none events).map Prod.fst) {core : Json}
    (h : line_core serde l = some core) : Plain core := by
  obtain ⟨entry, he, rfl⟩ := mem_map.mp hl
  obtain ⟨i, hi⟩ := List.mem_iff_getElem?.mp he
  obtain ⟨event, hc⟩ := written_entry hi
  rw [chained_line_eq] at hc
  split at hc
  · cases hc
    rw [line_core, event.sealable.read_back sha256_hex _ hserde, map_some, event.sealable.stripped_sealed] at h
    cases h
    exact plain_sort _ (undigested_plain event _)
  · cases hc

theorem written_one (event : AuditEvent) : ∀ l ∈ (written serde sha256_hex none [event]).map Prod.fst,
    ∀ other ∈ (written serde sha256_hex none [event]).map Prod.fst, l = other := by
  rw [written]
  cases chained_line serde sha256_hex event none with
  | none => exact fun l hl => absurd hl List.not_mem_nil
  | some entry =>
    intro l hl other ho
    exact (mem_singleton.mp hl).trans (mem_singleton.mp ho).symm

end

/-- An entry as it is before its digest is added. -/
def undigested (event : AuditEvent) : Json := .obj (event.fields ++ [("prev", nullable none)])

theorem undigested_stripped (event : AuditEvent) : stripped (undigested event) = undigested event := by
  have hs := (event.sealable.chained_keys none).2
  refine congrArg Json.obj (List.filter_eq_self.mpr ?_)
  intro entry hn
  exact decide_eq_true fun he => hs (he ▸ mem_map_of_mem hn)

theorem undigested_get_sha (event : AuditEvent) : (undigested event).get "sha" = none := by
  have hs := (event.sealable.chained_keys none).2
  refine List.lookup_eq_none_iff.mpr ?_
  intro entry hn
  have hne : "sha" ≠ entry.1 := fun he => hs (he ▸ mem_map_of_mem hn)
  exact bne_iff_ne.mpr hne

theorem json_text_reads {value : Json} (h : Plain value) : json_text.from_str (json_text.to_string value) = some value := by
  show parse (String.ofList (render value)).toList = some value
  rw [String.toList_ofList, parse_render h]

/-- Trees without fractions are not written alike. -/
theorem collisionless_plain {sha256_hex : String → String} {found : List String}
    (hd : Set.InjOn sha256_hex {text | ∃ l ∈ found, digested json_text l = some text})
    (hp : ∀ l ∈ found, ∀ c, line_core json_text l = some c → Plain c) :
    Collisionless json_text sha256_hex found := by
  refine ⟨hd, ?_⟩
  rintro a ⟨l, hl, ha⟩ b ⟨other, ho, hb⟩ he
  have hr := json_text_reads (hp l hl a ha)
  rw [he, json_text_reads (hp other ho b hb)] at hr
  exact (Option.some.inj hr).symm

theorem one_entry_collisionless (sha256_hex : String → String) (event : AuditEvent) :
    Collisionless json_text sha256_hex ((written json_text sha256_hex none [event]).map Prod.fst ++
      (written json_text sha256_hex none [event]).map Prod.fst) := by
  refine collisionless_plain ?_ fun l hl c => written_core_plain json_text_lawful ((mem_append.mp hl).elim id id)
  rintro a ⟨l, hl, ha⟩ b ⟨other, ho, hb⟩ -
  have hs := written_one event l ((mem_append.mp hl).elim id id) other
    ((mem_append.mp ho).elim id id)
  rw [hs, hb] at ha
  exact (Option.some.inj ha).symm

theorem untouched_log_is_beginning :
    (verify_chain json_text Sha256.hex ((written json_text Sha256.hex none [probe]).map Prod.fst)).breaks = [] ∧
      ((verify_chain json_text Sha256.hex ((written json_text Sha256.hex none [probe]).map Prod.fst)).legacy = 0 →
        (verify_chain json_text Sha256.hex ((written json_text Sha256.hex none [probe]).map Prod.fst)).chain_starts ≤ 1 →
        ((written json_text Sha256.hex none [probe]).map Prod.fst).map (content json_text) <+:
          (written json_text Sha256.hex none [probe]).map fun entry => content json_text entry.1) := by
  have hb := verify_chain_written Sha256.hex json_text_lawful [probe]
  exact ⟨hb, (tamper_evidence json_text_lawful [probe] _ (one_entry_collisionless Sha256.hex probe)
    (fun _ hl _ => line_sha_written json_text_lawful hl) hb).2⟩

/-- What may be done to the lines of a log. -/
inductive Tampered (serde : Serde) (log : List String) : List String → Prop
  | none : Tampered serde log log
  | change {before after : List String} {line changed : String} {value : Json} :
      Tampered serde log (before ++ line :: after) → serde.from_str changed = some value →
      Tampered serde log (before ++ changed :: after)
  | reorder {lines reordered : List String} : Tampered serde log lines → lines.Perm reordered → Tampered serde log reordered
  | remove {lines left : List String} : Tampered serde log lines → left.Sublist lines → Tampered serde log left

/-- Lines without a break, whose report is also as it is to be, are a beginning of the log. -/
def Detects (also : ChainReport → Prop) : Prop :=
  ∀ (serde : Serde) (sha256_hex : String → String) (events : List AuditEvent) (lines : List String), serde.Lawful →
    Function.Injective sha256_hex →
    Collisionless serde sha256_hex ((written serde sha256_hex none events).map Prod.fst ++ lines) →
    Tampered serde ((written serde sha256_hex none events).map Prod.fst) lines →
    (∀ line ∈ lines, ∀ digest, line_sha serde line = some digest →
      digest ∈ (written serde sha256_hex none events).map Prod.snd) →
    (verify_chain serde sha256_hex lines).breaks = [] → also (verify_chain serde sha256_hex lines) →
    lines.map (content serde) <+: (written serde sha256_hex none events).map fun entry => content serde entry.1

variable {event : AuditEvent}

theorem chained_line_safe (serde : Serde) (sha256_hex : String → String)
    (h : event.interaction.all InteractionReference.safe) (prev : Option String) :
    ∃ entry, chained_line serde sha256_hex event prev = some entry :=
  ⟨_, by rw [chained_line_eq, if_pos h]⟩

/-- Without its digest the only entry of a log is one from before there was a chain. -/
theorem digest_removed (hs : event.interaction.all InteractionReference.safe) {also : ChainReport → Prop}
    (ha : also ⟨1, 0, 1, 0, []⟩) : ¬ Detects also := by
  intro h
  obtain ⟨entry, he⟩ := chained_line_safe json_text id hs none
  obtain ⟨value, hv⟩ := chained_line_reads json_text_lawful he
  have hl : written json_text id none [event] = [entry] := by
    rw [written, he]
    rfl
  have hr := json_text_reads (undigested_plain event none)
  have hsh : line_sha json_text (json_text.to_string (undigested event)) = none := by
    rw [line_sha, undigested, hr, bind_some, ← undigested, undigested_get_sha]
    rfl
  have hrr : verify_chain json_text id [json_text.to_string (undigested event)] = ⟨1, 0, 1, 0, []⟩ := by
    have hg := undigested_get_sha event
    unfold undigested at hg ⊢
    simp only [verify_chain, walk, List.zipIdx_cons, List.zipIdx_nil, List.foldl_cons, List.foldl_nil, verify_line, hr,
      hg, Option.bind_none]
    rfl
  have hp := h json_text id [event] [json_text.to_string (undigested event)] json_text_lawful Function.injective_id
    (collisionless_plain Function.injective_id.injOn ?_) ?_ ?_ (by rw [hrr]) (by rwa [hrr])
  · rw [hl] at hp
    have hm : content json_text (json_text.to_string (undigested event)) = content json_text entry.1 :=
      (List.cons_prefix_cons.mp hp).1
    rw [content, content, undigested, hr, hv.read, map_some, map_some, ← undigested,
      undigested_get_sha, hv.sha] at hm
    cases congrArg Prod.snd (Option.some.inj hm)
  · intro l hn c hc
    rcases mem_append.mp hn with hn | hn
    · exact written_core_plain json_text_lawful hn hc
    · rw [mem_singleton.mp hn, line_core, undigested, hr, map_some, ← undigested,
        undigested_stripped] at hc
      cases hc
      exact plain_sort _ (undigested_plain event none)
  · rw [hl]
    have hch : Tampered json_text ([] ++ [entry.1]) ([] ++ [json_text.to_string (undigested event)]) :=
      .change .none hr
    exact hch
  · intro l hn d hd
    rw [mem_singleton.mp hn, hsh] at hd
    cases hd

/-- The first entry put over the second starts a chain again. -/
theorem start_repeated (hs : event.interaction.all InteractionReference.safe) {also : ChainReport → Prop}
    (ha : also ⟨2, 2, 0, 2, []⟩) : ¬ Detects also := by
  intro h
  obtain ⟨first, hf⟩ := chained_line_safe json_text id hs none
  obtain ⟨second, hc⟩ := chained_line_safe json_text id hs (some first.2)
  have hl : written json_text id none [event, event] = [first, second] := by
    rw [written, hf]
    simp only
    rw [written, hc]
    rfl
  have hn := chained_line_links json_text_lawful hf
  have hr : verify_chain json_text id [first.1, first.1] = ⟨2, 2, 0, 2, []⟩ := by
    have hw : walk json_text id [first.1, first.1] = ⟨2, 0, 2, [], some first.2, true⟩ := by
      have ho : walk json_text id ([] ++ [first.1]) = ⟨1, 0, 1, [], some first.2, true⟩ := hn.walked (.inl rfl)
      rw [nil_append] at ho
      rw [← List.singleton_append, hn.walked (.inl rfl), ho]
      rfl
    rw [verify_chain, hw]
    rfl
  have hls : ∀ l ∈ (written json_text id none [event, event]).map Prod.fst ++ [first.1, first.1],
      l ∈ (written json_text id none [event, event]).map Prod.fst := by
    rw [hl]
    simp
  have hcl : Collisionless json_text id
      ((written json_text id none [event, event]).map Prod.fst ++ [first.1, first.1]) :=
    collisionless_plain Function.injective_id.injOn
      fun l hli c hcr => written_core_plain json_text_lawful (hls l hli) hcr
  have hp := h json_text id [event, event] [first.1, first.1] json_text_lawful Function.injective_id hcl ?_
    (fun l hli d hd =>
      line_sha_written json_text_lawful (hls l (List.mem_append_right _ hli)) hd)
    (by rw [hr]) (by rwa [hr])
  · -- The second line would say what the second entry says, and have its digest.
    rw [hl] at hp
    have hm : content json_text first.1 = content json_text second.1 :=
      (List.cons_prefix_cons.mp (List.cons_prefix_cons.mp hp).2).1
    obtain ⟨value, hv⟩ := chained_line_reads json_text_lawful hf
    obtain ⟨other, hoh⟩ := chained_line_reads json_text_lawful hc
    rw [content, content, hv.read, hoh.read, map_some, map_some, hv.sha, hoh.sha] at hm
    have hd : first.2 = second.2 := by
      have hsh := congrArg Prod.snd (Option.some.inj hm)
      exact Json.str.inj (Option.some.inj hsh)
    have hz : (written json_text id none [event, event])[0]? = some first := by rw [hl]; rfl
    have ho : (written json_text id none [event, event])[1]? = some second := by rw [hl]; rfl
    exact absurd (digest_position json_text_lawful hcl hz ho hd) (by decide)
  · obtain ⟨value, hv⟩ := chained_line_reads json_text_lawful hf
    rw [hl]
    have hch : Tampered json_text ([first.1] ++ [second.1]) ([first.1] ++ [first.1]) := .change .none hv.read
    exact hch

/-- The digest removed from the only entry leaves an entry without digest; the first of two entries put over the
    second is a second chain start. -/
theorem unnoticed_edits :
    ¬ Detects (fun _ => True) ∧ ¬ Detects (fun report => report.chain_starts ≤ 1) ∧ ¬ Detects (fun report => report.legacy = 0) :=
  have hs : probe.interaction.all InteractionReference.safe := rfl
  ⟨digest_removed hs trivial, digest_removed hs (Nat.zero_le 1), start_repeated hs rfl⟩

end Monosecret.Audit
