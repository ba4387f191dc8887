/-
  Monosecret.Audit.Integrity — what the audit log keeps over runs.

  An entry written from the logger's state links to the last entry of the file
  (`chained_line_links`), so that appending it is no break; an entry rewritten at a restart
  starts a chain. The logger's predecessor is none or that of the verifier (`Good`), and from a
  restart on exactly that of the verifier (`Started`). A write that fails part way leaves bytes
  that end no line (`torn_not_whole`), and the entry after them is appended to them.
-/

import Mathlib.Data.List.Induction
import Monosecret.Lib.Sha256
import Monosecret.Audit.Log

namespace Monosecret.Audit

open Lib Json JsonText
open Cache (utf8)
open Option (any_some bind_eq_bind bind_some some_ne_none some_or)

/-! ## Bytes and lines -/

theorem read_to_string_utf8 (text : String) : read_to_string (utf8 text) = some text := Lib.from_utf8_bytes text

variable {file : List UInt8} {text : String}

theorem eq_utf8_of_read (h : read_to_string file = some text) : file = utf8 text := by
  unfold read_to_string String.fromUTF8? at h
  split at h
  · rw [← Option.some.inj h]
    simp [utf8, String.fromUTF8]
  · cases h

theorem utf8_append (a b : String) : utf8 (a ++ b) = utf8 a ++ utf8 b := by
  simp [utf8, String.toByteArray_append]

theorem utf8_feed : utf8 "\n" = [10] := by decide

theorem feed_ne_ofNat {n : Nat} (hl : 128 ≤ n) (hg : n < 256) : (10 : UInt8) ≠ UInt8.ofNat n := by
  intro he
  have ht : (10 : UInt8).toNat = 10 := rfl
  rw [he, UInt8.toNat_ofNat', Nat.mod_eq_of_lt hg] at ht
  omega

/-- Only a line feed's encoding has a line feed's byte. -/
theorem feed_encode {c : Char} (h : (10 : UInt8) ∈ String.utf8EncodeChar c) : c = '\n' := by
  unfold String.utf8EncodeChar at h
  simp only at h
  split_ifs at h with ho ht hth
  · have hn := congrArg UInt8.toNat (List.mem_singleton.mp h)
    rw [UInt8.toNat_ofNat', Nat.mod_eq_of_lt (by omega), UInt8.toNat_ofNat] at hn
    exact Char.toNat_inj.mp hn.symm
  · simp only [List.mem_cons, List.not_mem_nil, or_false] at h
    rcases h with h | h <;> exact absurd h (feed_ne_ofNat (by omega) (by omega))
  · simp only [List.mem_cons, List.not_mem_nil, or_false] at h
    rcases h with h | h | h <;> exact absurd h (feed_ne_ofNat (by omega) (by omega))
  · simp only [List.mem_cons, List.not_mem_nil, or_false] at h
    rcases h with h | h | h | h <;> exact absurd h (feed_ne_ofNat (by omega) (by omega))

theorem utf8_ofList (cs : List Char) : utf8 (String.ofList cs) = cs.flatMap String.utf8EncodeChar := by
  simp [utf8, List.utf8Encode]

theorem feed_utf8 (h : (10 : UInt8) ∈ utf8 text) : '\n' ∈ text.toList := by
  rw [← String.ofList_toList (s := text), utf8_ofList] at h
  obtain ⟨c, hc, hb⟩ := List.mem_flatMap.mp h
  exact feed_encode hb ▸ hc

theorem utf8_eq_nil (h : utf8 text = []) : text = "" := by
  have hr := read_to_string_utf8 text
  have hn := read_to_string_utf8 ""
  rw [h] at hr
  exact Option.some.inj (hr.symm.trans hn)

theorem whole_nil : WholeLines [] [] := ⟨"", read_to_string_utf8 "", .inl rfl, lines_empty.symm⟩

variable {found : List String} {line : String}

/-- A line that is added to whole lines is one more. -/
theorem WholeLines.append (h : WholeLines file found) (hl : OneLine line.toList) :
    WholeLines (file ++ utf8 (line ++ "\n")) (found ++ [line]) := by
  obtain ⟨c, hr, he, rfl⟩ := h
  have hf : file ++ utf8 (line ++ "\n") = utf8 (c ++ line ++ "\n") := by
    rw [eq_utf8_of_read hr, utf8_append, utf8_append, utf8_append, List.append_assoc]
  refine ⟨c ++ line ++ "\n", ?_, .inr ⟨c.toList ++ line.toList, ?_⟩, ?_⟩
  · rw [hf, read_to_string_utf8]
  · rw [String.toList_append, String.toList_append]
    rfl
  · exact (lines_append he hl.1 hl.2).symm

/-- Whole lines end with a line feed, or are none. -/
theorem WholeLines.last (h : WholeLines file found) : file = [] ∨ file.getLast? = some 10 := by
  obtain ⟨c, hr, he, -⟩ := h
  rw [eq_utf8_of_read hr]
  rcases he with hn | ⟨b, hb⟩
  · rw [String.toList_eq_nil_iff.mp hn]
    exact .inl rfl
  · right
    have hc : c = String.ofList b ++ "\n" := by
      rw [← String.ofList_toList (s := c), hb, String.ofList_append]
    rw [hc, utf8_append, utf8_feed, List.getLast?_append, List.getLast?_singleton, some_or]

/-- Some bytes of a line, and not its line feed, leave no whole lines. -/
theorem torn_not_whole {kept : List UInt8} {w : Nat} (hl : '\n' ∉ line.toList) (hne : line ≠ "")
    (hp : 0 < w) (found : List String) : ¬WholeLines (kept ++ (utf8 line).take w) found := by
  intro h
  have ht : (utf8 line).take w ≠ [] := by
    rw [Ne, List.take_eq_nil_iff]
    rintro (hz | hnl)
    · exact absurd hz (Nat.ne_of_gt hp)
    · exact hne (utf8_eq_nil hnl)
  rcases h.last with hnl | hs
  · exact ht (List.append_eq_nil_iff.mp hnl).2
  · have hm : ((utf8 line).take w).getLast? = some 10 := by
      rw [List.getLast?_append] at hs
      obtain ⟨b, hb⟩ := Option.ne_none_iff_exists'.mp (fun hn => ht (List.getLast?_eq_none_iff.mp hn))
      rw [hb, some_or] at hs
      rw [hb, hs]
    exact hl (feed_utf8 (List.take_subset _ _ (List.mem_of_getLast? hm)))

/-! ## Walking the chain -/

variable {serde : Serde} {sha256_hex : String → String}

theorem walk_append (found : List String) (line : String) :
    walk serde sha256_hex (found ++ [line]) =
      verify_line serde sha256_hex (walk serde sha256_hex found) (line, found.length) := by
  unfold walk
  rw [List.zipIdx_append, List.foldl_append, Nat.zero_add]
  rfl

theorem breaks_ne_nil (w : Walk) (i : Nat) (k : ChainBreakKind) : (w.break_at i k).breaks ≠ [] := by
  simp [Walk.break_at]

/-- Until an entry was chained there is no predecessor. -/
def Walk.Begun (w : Walk) : Prop := w.chained_seen = false → w.prev = none

theorem link_seen (w : Walk) (i : Nat) (link : Option String) : (w.link i link).chained_seen = w.chained_seen := by
  unfold Walk.link
  split
  · rfl
  · split <;> rfl

variable {link : Option String}

theorem link_intact {w : Walk} {i : Nat} (h : (w.link i link).breaks = []) : w.breaks = [] := by
  unfold Walk.link at h
  split at h
  · exact h
  · split at h
    · exact h
    · exact absurd h (breaks_ne_nil _ _ _)

theorem verify_line_begun {w : Walk} (hw : w.Begun) (line : String) (i : Nat) :
    (verify_line serde sha256_hex w (line, i)).Begun := by
  unfold verify_line
  cases serde.from_str line with
  | none => exact hw
  | some value =>
    cases hs : (value.get "sha").bind as_str with
    | none =>
      simp only [hs]
      split <;> exact hw
    | some r =>
      simp only [hs]
      intro hn
      split at hn
      · cases hn
      · rw [link_seen] at hn
        cases hn

/-- A line that is no break: its digest, if it has one, is the predecessor of what follows. -/
theorem verify_line_intact {w : Walk} {i : Nat} (hw : w.Begun)
    (h : (verify_line serde sha256_hex w (line, i)).breaks = []) :
    w.breaks = [] ∧ ∃ value, serde.from_str line = some value ∧
      (verify_line serde sha256_hex w (line, i)).prev = (value.get "sha").bind as_str := by
  unfold verify_line at h ⊢
  cases hv : serde.from_str line with
  | none =>
    simp only [hv] at h
    exact absurd h (breaks_ne_nil w _ _)
  | some value =>
    cases hs : (value.get "sha").bind as_str with
    | none =>
      simp only [hv, hs] at h ⊢
      split at h
      · exact absurd h (breaks_ne_nil w _ _)
      · rename_i hn
        rw [if_neg hn]
        exact ⟨h, value, rfl, (hw (Bool.eq_false_iff.mpr hn)).trans hs.symm⟩
    | some r =>
      simp only [hv, hs] at h ⊢
      split at h
      · exact absurd h (breaks_ne_nil _ _ _)
      · rename_i hd
        rw [if_neg hd]
        exact ⟨link_intact (w := { w with chained_seen := true }) h, value, rfl, hs.symm⟩

theorem walk_begun (found : List String) : (walk serde sha256_hex found).Begun := by
  induction found using List.reverseRec with
  | nil => exact fun _ => rfl
  | append_singleton found line ih =>
    rw [walk_append]
    exact verify_line_begun ih line found.length

theorem walk_intact (h : (walk serde sha256_hex found).breaks = []) :
    (∀ line ∈ found, (serde.from_str line).isSome) ∧
      (walk serde sha256_hex found).prev =
        (found.getLast?.bind serde.from_str).bind fun value => (value.get "sha").bind as_str := by
  induction found using List.reverseRec with
  | nil => exact ⟨fun _ hm => absurd hm List.not_mem_nil, rfl⟩
  | append_singleton found line ih =>
    rw [walk_append] at h ⊢
    obtain ⟨hb, value, hv, hp⟩ := verify_line_intact (walk_begun found) h
    refine ⟨fun l hl => ?_, ?_⟩
    · rcases List.mem_append.mp hl with hl | hl
      · exact (ih hb).1 l hl
      · rw [List.mem_singleton.mp hl, hv, Option.isSome_some]
    · rw [hp, List.getLast?_append, List.getLast?_singleton, some_or, bind_some, hv, bind_some]

/-- A log that verifies is opened with the verifier's predecessor. -/
theorem last_line_sha_intact (hserde : serde.Lawful) {content : String} (hr : read_to_string file = some content)
    (h : (walk serde sha256_hex (lines content)).breaks = []) :
    last_line_sha serde file true = (walk serde sha256_hex (lines content)).prev := by
  obtain ⟨hp, hv⟩ := walk_intact h
  have hn : ∀ line ∈ lines content, line ≠ "" := by
    rintro line hl rfl
    have hs := hp "" hl
    rw [hserde.empty] at hs
    cases hs
  have hf : (lines content).reverse.find? (fun line => line ≠ "") = (lines content).getLast? := by
    rw [List.getLast?_eq_head?_reverse]
    cases hrv : (lines content).reverse with
    | nil => rfl
    | cons line r =>
      have hm : line ∈ lines content := List.mem_reverse.mp (hrv ▸ List.mem_cons_self)
      exact List.find?_cons_of_pos (p := fun line => decide (line ≠ "")) (decide_eq_true (hn line hm))
  unfold last_line_sha
  simp only [if_true, hr, bind_eq_bind, bind_some, hf]
  rw [hv]
  cases (lines content).getLast? with
  | none => rfl
  | some line =>
    cases serde.from_str line with
    | none | some value => rfl

/-! ## One entry -/

/-- The line is an entry with this digest that is accepted after its predecessor. -/
structure Links (serde : Serde) (sha256_hex : String → String) (line digest : String) (link : Option String) : Prop where
  one_line : OneLine line.toList
  ne_empty : line ≠ ""
  accepted : ∀ (w : Walk) (index : Nat), link = none ∨ link = w.prev →
    verify_line serde sha256_hex w (line, index) =
      { w with
        chained := w.chained + 1
        chain_starts := w.chain_starts + if link.isNone then 1 else 0
        prev := some digest
        chained_seen := true }

/-- An object with a digest of its other members and of its predecessor. -/
def sealed (serde : Serde) (sha256_hex : String → String) (fields : List (String × Json)) (link : Option String) : Json :=
  let chained := fields ++ [("prev", nullable link)]
  .obj (chained ++ [("sha", .str (chain_digest serde sha256_hex link (.obj chained)))])

variable {fields : List (String × Json)} {key : String}

theorem lookup_last {value : Json} (h : key ∉ fields.map Prod.fst) (r : List (String × Json)) :
    (fields ++ (key, value) :: r).lookup key = some value := by
  induction fields with
  | nil => rw [List.nil_append, List.lookup_cons_self]
  | cons e fields ih =>
    obtain ⟨n, m⟩ := e
    obtain ⟨hn, hf⟩ := not_or.mp fun he => h (List.mem_cons.mpr he)
    rw [List.cons_append, List.lookup_cons, beq_false_of_ne hn]
    exact ih hf

theorem remove_last (value : Json) (h : key ∉ fields.map Prod.fst) :
    remove key (fields ++ [(key, value)]) = fields := by
  unfold remove
  rw [List.filter_append, List.filter_cons_of_neg (by simp), List.filter_nil, List.append_nil, List.filter_eq_self]
  intro e hn
  exact decide_eq_true fun he => h (he ▸ List.mem_map_of_mem hn)

theorem insert_last (value : Json) (h : key ∉ fields.map Prod.fst) :
    insert key value fields = fields ++ [(key, value)] := by
  unfold insert
  rw [if_neg]
  intro ha
  obtain ⟨e, hn, he⟩ := List.any_eq_true.mp ha
  exact h (eq_of_beq he ▸ List.mem_map_of_mem hn)

theorem insert_over (o value : Json) (h : key ∉ fields.map Prod.fst) :
    insert key value (fields ++ [(key, o)]) = fields ++ [(key, value)] := by
  unfold insert
  rw [if_pos, List.map_append, List.map_singleton, if_pos rfl]
  · congr 1
    refine (List.map_congr_left fun e hn => if_neg fun he => ?_).trans (List.map_id fields)
    exact h (he ▸ List.mem_map_of_mem hn)
  · simp

theorem plain_members_append {a b : List (String × Json)} (ha : PlainMembers a) (hb : PlainMembers b) :
    PlainMembers (a ++ b) :=
  plain_members_iff.mpr fun e h =>
    (List.mem_append.mp h).elim (plain_members_iff.mp ha e) (plain_members_iff.mp hb e)

theorem shallow_nullable (link : Option String) : Plain (nullable link) ∧ (nullable link).nesting = 0 := by
  cases link <;> exact ⟨trivial, rfl⟩

theorem nullable_as_str (link : Option String) : as_str (nullable link) = link := by
  cases link <;> rfl

section

variable {fields : List (String × Json)} (h : Sealable fields) (sha256_hex : String → String) (link : Option String)

include h

theorem Sealable.chained_keys : ((fields ++ [("prev", nullable link)]).map Prod.fst).Nodup ∧
    "sha" ∉ (fields ++ [("prev", nullable link)]).map Prod.fst := by
  rw [List.map_append, List.map_singleton]
  refine ⟨List.Nodup.append h.nodup (List.nodup_singleton _) ?_, fun hm => ?_⟩
  · exact List.disjoint_singleton.mpr h.no_prev
  · rcases List.mem_append.mp hm with hm | hm
    · exact h.no_sha hm
    · have hn : "sha" ≠ "prev" := by decide
      exact hn (List.mem_singleton.mp hm)

theorem Sealable.sealed_plain : Plain (sealed serde sha256_hex fields link) := by
  obtain ⟨hn, hs⟩ := h.chained_keys link
  have hp : PlainMembers [("prev", nullable link)] := ⟨(shallow_nullable link).1, trivial⟩
  refine ⟨plain_members_append (plain_members_append h.plain hp) ⟨trivial, trivial⟩, ?_⟩
  rw [List.map_append, List.map_singleton]
  exact List.Nodup.append hn (List.nodup_singleton _) (List.disjoint_singleton.mpr hs)

theorem Sealable.get_sha : (sealed serde sha256_hex fields link).get "sha" =
    some (.str (chain_digest serde sha256_hex link (.obj (fields ++ [("prev", nullable link)])))) :=
  lookup_last (h.chained_keys link).2 []

theorem Sealable.get_prev : (sealed serde sha256_hex fields link).get "prev" = some (nullable link) := by
  rw [sealed, get_obj, List.append_assoc, List.singleton_append]
  exact lookup_last h.no_prev _

theorem Sealable.stripped_sealed :
    stripped (sealed serde sha256_hex fields link) = .obj (fields ++ [("prev", nullable link)]) :=
  congrArg Json.obj (remove_last _ (h.chained_keys link).2)

theorem Sealable.sealed_nesting : (sealed serde sha256_hex fields link).nesting < 128 := by
  have hf : ∀ e ∈ fields, e.2.nesting ≤ 1 := by
    have ht := h.flat
    clear h
    induction fields with
    | nil => exact fun _ hm => absurd hm List.not_mem_nil
    | cons e fields ih =>
      obtain ⟨he, hr⟩ := max_le_iff.mp ht
      exact List.forall_mem_cons.mpr ⟨he, ih hr⟩
  have ha : members_nesting ((fields ++ [("prev", nullable link)]) ++
      [("sha", .str (chain_digest serde sha256_hex link (.obj (fields ++ [("prev", nullable link)]))))]) ≤ 1 := by
    refine members_nesting_le fun e he => ?_
    rcases List.mem_append.mp he with he | he
    · rcases List.mem_append.mp he with he | he
      · exact hf e he
      · rw [List.mem_singleton.mp he, (shallow_nullable link).2]
        exact Nat.zero_le 1
    · rw [List.mem_singleton.mp he]
      exact Nat.zero_le 1
  unfold sealed
  rw [nesting]
  omega

variable (hserde : serde.Lawful)

include hserde

theorem Sealable.read_back :
    serde.from_str (serde.to_string (sealed serde sha256_hex fields link)) = some (sealed serde sha256_hex fields link) :=
  hserde.read_back _ (h.sealed_plain sha256_hex link) (h.sealed_nesting sha256_hex link)

theorem Sealable.links : Links serde sha256_hex (serde.to_string (sealed serde sha256_hex fields link))
    (chain_digest serde sha256_hex link (.obj (fields ++ [("prev", nullable link)]))) link := by
  have hr := h.read_back sha256_hex link hserde
  refine ⟨hserde.one_line _, fun he => ?_, fun w i hl => ?_⟩
  · rw [he, hserde.empty] at hr
    cases hr
  · have has_str : ∀ digest, as_str (.str digest) = some digest := fun _ => rfl
    simp only [verify_line, hr, h.get_sha, h.get_prev, bind_some, has_str, nullable_as_str, h.stripped_sealed]
    rw [if_neg (not_not_intro rfl)]
    cases link with
    | none => rfl
    | some linked =>
      have hp : w.prev = some linked := (hl.resolve_left (some_ne_none _)).symm
      simp only [Walk.link, hp, if_true]
      rfl

theorem Sealable.restarts : restart_chained_line serde sha256_hex (serde.to_string (sealed serde sha256_hex fields link)) =
    some (serde.to_string (sealed serde sha256_hex fields none),
      chain_digest serde sha256_hex none (.obj (fields ++ [("prev", nullable none)]))) := by
  have hr := h.read_back sha256_hex link hserde
  obtain ⟨-, hs⟩ := h.chained_keys link
  obtain ⟨-, hs'⟩ := h.chained_keys none
  have hm := remove_last (.str (chain_digest serde sha256_hex link (.obj (fields ++ [("prev", nullable link)])))) hs
  have hp : insert "prev" .null (fields ++ [("prev", nullable link)]) = fields ++ [("prev", nullable none)] :=
    insert_over (nullable link) .null h.no_prev
  have hi := insert_last (.str (chain_digest serde sha256_hex none (.obj (fields ++ [("prev", nullable none)])))) hs'
  have hk : ((fields ++ [("prev", nullable link)]) ++
      [("sha", Json.str (chain_digest serde sha256_hex link (.obj (fields ++ [("prev", nullable link)]))))]).all
        (fun e => e.1 ≠ "sha") = false := by
    rw [List.all_append, List.all_cons]
    simp
  rw [restart_chained_line, hr, bind_eq_bind, bind_some]
  simp only [sealed, hk, hm, hp, hi, Bool.false_eq_true, if_false]

end

theorem chained_line_eq (serde : Serde) (sha256_hex : String → String) (event : AuditEvent) (prev : Option String) :
    chained_line serde sha256_hex event prev =
      if event.interaction.all InteractionReference.safe then
        some (serde.to_string (sealed serde sha256_hex event.fields prev),
          chain_digest serde sha256_hex prev (.obj (event.fields ++ [("prev", nullable prev)])))
      else none := by
  have hf : { event with prev := prev }.fields = event.fields := rfl
  obtain ⟨-, hs⟩ := event.sealable.chained_keys prev
  have hi := insert_last (.str (chain_digest serde sha256_hex prev (.obj (event.fields ++ [("prev", nullable prev)])))) hs
  unfold chained_line AuditEvent.to_value
  split
  · simp only [hf, hi, bind_eq_bind, bind_some, sealed]
  · rfl

/-! ## One step -/

/-- What a record that leaves no torn line does. -/
inductive Recorded (serde : Serde) (sha256_hex : String → String) (logger : AuditLogger) (event : AuditEvent) (disk : Disk) :
    AuditLogger → Prop
  /-- The event does not serialize, or its line is not written. -/
  | same (h : logger.restarts_at serde sha256_hex (.record event disk) = true → False) :
    Recorded serde sha256_hex logger event disk logger
  /-- The file restarts and nothing is written. -/
  | cleared (h : disk.failed ≠ none) : Recorded serde sha256_hex logger event disk { logger with file := [], last_hash := none }
  | appended {line digest : String} (hline : Links serde sha256_hex line digest logger.last_hash)
    (h : logger.restarts_at serde sha256_hex (.record event disk) = true → False) :
    Recorded serde sha256_hex logger event disk
      { logger with file := logger.file ++ utf8 (line ++ "\n"), last_hash := some digest }
  | restarted {line digest : String} (hline : Links serde sha256_hex line digest none) :
    Recorded serde sha256_hex logger event disk { logger with file := utf8 (line ++ "\n"), last_hash := some digest }

theorem record_cases (sha256_hex : String → String) (hserde : serde.Lawful) (logger : AuditLogger) {e : AuditEvent} {disk : Disk}
    (ht : (Step.record e disk).torn = false) :
    Recorded serde sha256_hex logger e disk (logger.record serde sha256_hex e disk) := by
  have hl := chained_line_eq serde sha256_hex e logger.last_hash
  have hln := e.sealable.links sha256_hex logger.last_hash hserde
  have hfr := e.sealable.links sha256_hex none hserde
  have hs := e.sealable.restarts sha256_hex logger.last_hash hserde
  unfold AuditLogger.record
  cases hsf : e.interaction.all InteractionReference.safe with
  | false =>
    rw [hsf, if_neg Bool.false_ne_true] at hl
    have hno : logger.restarts_at serde sha256_hex (.record e disk) → False := by
      rw [AuditLogger.restarts_at, hl]
      exact Bool.false_ne_true
    rw [hl]
    exact .same hno
  | true =>
    rw [hsf, if_pos rfl] at hl
    have ha : logger.restarts_at serde sha256_hex (.record e disk) =
        restarts logger.max_size_bytes logger.file (serde.to_string (sealed serde sha256_hex e.fields logger.last_hash))
          disk := by
      rw [AuditLogger.restarts_at, hl, any_some]
    rw [hl]
    simp only [write_line]
    rw [← ha]
    have hfl : ∀ w, disk.failed = some w → w = 0 := by
      intro w hw
      rw [Step.torn, hsf, Bool.true_and, hw, any_some] at ht
      exact Nat.eq_zero_of_not_pos (of_decide_eq_false ht)
    cases hr : logger.restarts_at serde sha256_hex (.record e disk) with
    | false =>
      have hno : logger.restarts_at serde sha256_hex (.record e disk) → False := by
        rw [hr]
        exact Bool.false_ne_true
      cases hf : disk.failed with
      | none => exact .appended hln hno
      | some w =>
        simp only [hfl w hf, List.take_zero, Bool.false_eq_true, if_false, List.append_nil]
        exact .same hno
    | true =>
      simp only [if_true, hs]
      cases hf : disk.failed with
      | none => exact .restarted hfr
      | some w =>
        simp only [hfl w hf, List.take_zero, List.append_nil]
        exact .cleared fun hn => some_ne_none _ (hf.symm.trans hn)

/-! ## What runs keep -/

/-- The log is intact, and the logger's predecessor is none or the verifier's. -/
def Good (serde : Serde) (sha256_hex : String → String) (logger : AuditLogger) : Prop :=
  ∃ found, WholeLines logger.file found ∧ (walk serde sha256_hex found).breaks = [] ∧
    (logger.last_hash = none ∨ logger.last_hash = (walk serde sha256_hex found).prev)

/-- The log has one chain start, its first line, and the logger's predecessor is the verifier's. -/
def Started (serde : Serde) (sha256_hex : String → String) (logger : AuditLogger) : Prop :=
  ∃ found, WholeLines logger.file found ∧ (walk serde sha256_hex found).breaks = [] ∧
    logger.last_hash = (walk serde sha256_hex found).prev ∧
    (found = [] ∨ (walk serde sha256_hex found).chain_starts = 1 ∧
      (walk serde sha256_hex (found.take 1)).chain_starts = 1 ∧ logger.last_hash ≠ none)

theorem Links.walked {d : String} (h : Links serde sha256_hex line d link)
    (hl : link = none ∨ link = (walk serde sha256_hex found).prev) :
    walk serde sha256_hex (found ++ [line]) =
      { walk serde sha256_hex found with
        chained := (walk serde sha256_hex found).chained + 1
        chain_starts := (walk serde sha256_hex found).chain_starts + if link.isNone then 1 else 0
        prev := some d
        chained_seen := true } := by
  rw [walk_append]
  exact h.accepted _ _ hl

variable {logger : AuditLogger}

theorem Links.good {d : String} (h : Links serde sha256_hex line d link)
    (hw : WholeLines logger.file found) (hb : (walk serde sha256_hex found).breaks = [])
    (hl : link = none ∨ link = (walk serde sha256_hex found).prev) :
    Good serde sha256_hex { logger with file := logger.file ++ utf8 (line ++ "\n"), last_hash := some d } := by
  refine ⟨found ++ [line], hw.append h.one_line, ?_, .inr ?_⟩
  · rw [h.walked hl]
    exact hb
  · rw [h.walked hl]

/-- An entry without predecessor in an empty file. -/
theorem Links.started {d : String} (h : Links serde sha256_hex line d none) (logger : AuditLogger) :
    Started serde sha256_hex { logger with file := utf8 (line ++ "\n"), last_hash := some d } := by
  have hw : walk serde sha256_hex [line] = ⟨1, 0, 1, [], some d, true⟩ := by
    rw [← List.nil_append [line], h.walked (.inl rfl)]
    rfl
  refine ⟨[line], whole_nil.append h.one_line, ?_, ?_, .inr ⟨?_, ?_, some_ne_none _⟩⟩
  · rw [hw]
  · rw [hw]
  · rw [hw]
  · rw [List.take_of_length_le (Nat.le_refl 1), hw]

theorem Started.good (h : Started serde sha256_hex logger) : Good serde sha256_hex logger := by
  obtain ⟨found, hw, hb, hp, -⟩ := h
  exact ⟨found, hw, hb, .inr hp⟩

theorem Good.intact (h : Good serde sha256_hex logger) : Intact serde sha256_hex logger.file := by
  obtain ⟨found, hw, hb, -⟩ := h
  exact ⟨found, hw, hb⟩

theorem Started.one_start (h : Started serde sha256_hex logger) : OneStart serde sha256_hex logger.file := by
  obtain ⟨found, hw, -, -, ht⟩ := h
  exact ⟨found, hw, ht.imp_right fun hs => ⟨hs.1, hs.2.1⟩⟩

theorem started_empty (logger : AuditLogger) : Started serde sha256_hex { logger with file := [], last_hash := none } :=
  ⟨[], whole_nil, rfl, rfl, .inl rfl⟩

section

variable (hserde : serde.Lawful)

include hserde

theorem from_config_prev {file : List UInt8} {found : List String} (hw : WholeLines file found)
    (hb : (walk serde sha256_hex found).breaks = []) (cp : Nat) :
    (from_config serde file cp true).last_hash = (walk serde sha256_hex found).prev := by
  obtain ⟨c, hr, -, rfl⟩ := hw
  exact last_line_sha_intact hserde hr hb

theorem good_from_config {file : List UInt8} {found : List String} (hw : WholeLines file found)
    (hb : (walk serde sha256_hex found).breaks = []) (c : Nat) (r : Bool) :
    Good serde sha256_hex (from_config serde file c r) := by
  cases r with
  | false => exact ⟨found, hw, hb, .inl rfl⟩
  | true => exact ⟨found, hw, hb, .inr (from_config_prev hserde hw hb c)⟩

variable {logger : AuditLogger}

theorem Good.step (h : Good serde sha256_hex logger) {step : Step} (ht : step.torn = false) :
    Good serde sha256_hex (logger.step serde sha256_hex step) := by
  obtain ⟨found, hw, hb, hp⟩ := h
  cases step with
  | reopen c r => exact good_from_config hserde hw hb c r
  | record e d =>
    rw [AuditLogger.step]
    have hr := record_cases sha256_hex hserde logger ht
    generalize logger.record serde sha256_hex e d = next at hr ⊢
    cases hr with
    | same => exact ⟨found, hw, hb, hp⟩
    | cleared => exact (started_empty logger).good
    | appended hl => exact hl.good hw hb hp
    | restarted hl => exact (hl.started logger).good

/-- The step at which the file restarts leaves one chain start or nothing. -/
theorem started_of_restart {step : Step} (ht : step.torn = false)
    (h : logger.restarts_at serde sha256_hex step) :
    Started serde sha256_hex (logger.step serde sha256_hex step) := by
  cases step with
  | reopen cap r => exact absurd h Bool.false_ne_true
  | record e d =>
    rw [AuditLogger.step]
    have hr := record_cases sha256_hex hserde logger ht
    generalize logger.record serde sha256_hex e d = next at hr ⊢
    cases hr with
    | same hn => exact (hn h).elim
    | cleared => exact started_empty logger
    | appended hl hn => exact (hn h).elim
    | restarted hl => exact hl.started logger

/-- The line that restarts the file is written to it. -/
theorem written_restart {step : Step} (ht : step.torn = false) (h : logger.restarts_at serde sha256_hex step)
    (hw : step.fails = false) : (logger.step serde sha256_hex step).file ≠ [] := by
  cases step with
  | reopen cap r => exact absurd h Bool.false_ne_true
  | record e d =>
    rw [AuditLogger.step]
    have hr := record_cases sha256_hex hserde logger ht
    generalize logger.record serde sha256_hex e d = next at hr ⊢
    cases hr with
    | same hno => exact (hno h).elim
    | cleared hf => exact absurd (Option.isSome_eq_false_iff.mp hw) (fun hn => hf (Option.isNone_iff_eq_none.mp hn))
    | appended hl hno => exact (hno h).elim
    | restarted hl =>
      rw [utf8_append, utf8_feed]
      exact List.append_ne_nil_of_right_ne_nil _ (List.cons_ne_nil _ _)

theorem Started.step (h : Started serde sha256_hex logger) {step : Step} (ht : step.torn = false)
    (hr : ∀ c, step ≠ .reopen c false) : Started serde sha256_hex (logger.step serde sha256_hex step) := by
  obtain ⟨found, hw, hb, hp, hst⟩ := h
  cases step with
  | reopen c readable =>
    obtain rfl : readable := by
      cases readable with
      | true => rfl
      | false => exact absurd rfl (hr c)
    have hhs := from_config_prev hserde hw hb c
    refine ⟨found, hw, hb, hhs, hst.imp_right fun hs => ⟨hs.1, hs.2.1, ?_⟩⟩
    rw [AuditLogger.step, hhs, ← hp]
    exact hs.2.2
  | record e d =>
    rw [AuditLogger.step]
    have hc := record_cases sha256_hex hserde logger ht
    generalize logger.record serde sha256_hex e d = next at hc ⊢
    cases hc with
    | same => exact ⟨found, hw, hb, hp, hst⟩
    | cleared => exact started_empty logger
    | restarted hl => exact hl.started logger
    | appended hl =>
      have hwl := hl.walked (.inr hp)
      refine ⟨found ++ [_], hw.append hl.one_line, ?_, ?_, .inr ⟨?_, ?_, some_ne_none _⟩⟩
      · rw [hwl]
        exact hb
      · rw [hwl]
      · rw [hwl]
        rcases hst with rfl | ⟨ho, -, hm⟩
        · rw [hp]
          rfl
        · rw [if_neg (fun hn => hm (Option.isNone_iff_eq_none.mp hn))]
          exact ho
      · rcases hst with rfl | ⟨-, hf, hm⟩
        · rw [List.nil_append, List.take_of_length_le (Nat.le_refl 1), ← List.nil_append [_], hwl, hp]
          rfl
        · have hln : 1 ≤ found.length := List.length_pos_iff.mpr fun hnl => hm (by rw [hp, hnl]; rfl)
          rw [List.take_append_of_le_length hln]
          exact hf

omit hserde in
theorem run_append (logger : AuditLogger) (before after : List Step) :
    logger.run serde sha256_hex (before ++ after) =
      (logger.run serde sha256_hex before).run serde sha256_hex after :=
  List.foldl_append

theorem Good.run (h : Good serde sha256_hex logger) {s : List Step} (ht : ∀ step ∈ s, step.torn = false) :
    Good serde sha256_hex (logger.run serde sha256_hex s) := by
  induction s generalizing logger with
  | nil => exact h
  | cons step s ih =>
    obtain ⟨hs, hst⟩ := List.forall_mem_cons.mp ht
    exact ih (h.step hserde hs) hst

theorem Started.run (h : Started serde sha256_hex logger) {s : List Step}
    (ht : ∀ step ∈ s, step.torn = false) (hr : ∀ cap, Step.reopen cap false ∉ s) :
    Started serde sha256_hex (logger.run serde sha256_hex s) := by
  induction s generalizing logger with
  | nil => exact h
  | cons step s ih =>
    obtain ⟨hs, hst⟩ := List.forall_mem_cons.mp ht
    have hf : ∀ cap, step ≠ .reopen cap false := fun cap he => hr cap (he ▸ List.mem_cons_self)
    exact ih (h.step hserde hs hf) hst fun cap hm => hr cap (.tail _ hm)

/-- A write that fails part way leaves no whole lines, whatever was there. -/
theorem torn_step (logger : AuditLogger) {step : Step} (h : step.torn) (found : List String) :
    ¬WholeLines (logger.step serde sha256_hex step).file found := by
  cases step with
  | reopen cap r => exact absurd h Bool.false_ne_true
  | record e d =>
    obtain ⟨hs, hl⟩ := Bool.and_eq_true_iff.mp h
    obtain ⟨written, hw, hp⟩ : ∃ written, d.failed = some written ∧ 0 < written := by
      cases hf : d.failed with
      | none =>
        rw [hf] at hl
        cases hl
      | some written =>
        rw [hf] at hl
        exact ⟨written, rfl, of_decide_eq_true hl⟩
    have hli := chained_line_eq serde sha256_hex e logger.last_hash
    have hn := e.sealable.links sha256_hex logger.last_hash hserde
    have hr := e.sealable.links sha256_hex none hserde
    have hrs := e.sealable.restarts sha256_hex logger.last_hash hserde
    rw [hs, if_pos rfl] at hli
    rw [AuditLogger.step, AuditLogger.record, hli]
    simp only [write_line, hw]
    cases restarts logger.max_size_bytes logger.file
        (serde.to_string (sealed serde sha256_hex e.fields logger.last_hash)) d with
    | false => exact torn_not_whole hn.one_line.1 hn.ne_empty hp found
    | true =>
      simp only [if_true, hrs]
      exact torn_not_whole hr.one_line.1 hr.ne_empty hp found

end

/-- The log is kept in a run exactly when it ended a line before it and no write of the run fails part way. -/
theorem keeps_iff (hserde : serde.Lawful) {file : List UInt8} (hfile : Verifies serde sha256_hex file)
    (max_size_bytes : Nat) (readable : Bool) (steps : List Step) :
    Keeps serde sha256_hex (from_config serde file max_size_bytes readable) steps ↔
      (∃ found, WholeLines file found) ∧ ∀ step ∈ steps, step.torn = false := by
  constructor
  · rintro ⟨hi, -⟩
    refine ⟨?_, fun step hp => ?_⟩
    · obtain ⟨found, hw, -⟩ := hi [] steps rfl
      exact ⟨found, hw⟩
    · obtain ⟨before, a, rfl⟩ := List.append_of_mem hp
      obtain ⟨found, hw, -⟩ := hi (before ++ [step]) a (by rw [List.append_assoc, List.singleton_append])
      rw [run_append] at hw
      cases ht : step.torn with
      | false => rfl
      | true => exact absurd hw (torn_step hserde _ ht found)
  · rintro ⟨⟨found, hw⟩, ht⟩
    obtain ⟨content, hr, hb⟩ := hfile
    obtain ⟨c', hr', he, rfl⟩ := hw
    obtain rfl : c' = content := Option.some.inj (hr'.symm.trans hr)
    have hg := good_from_config hserde ⟨c', hr, he, rfl⟩ hb max_size_bytes readable
    refine ⟨?_, ?_⟩
    · rintro before a rfl
      exact (hg.run hserde fun step hp => ht step (List.mem_append_left _ hp)).intact
    · rintro before step m a rfl hrs hd
      have hm : ∀ s ∈ m, s.torn = false := fun s hs =>
        ht s (List.mem_append_right _ (.tail _ (List.mem_append_left _ hs)))
      have hp := ht step (List.mem_append_right _ (.head _))
      have hst := (started_of_restart hserde hp hrs).run hserde hm hd
      refine ⟨?_, fun hwr => ?_⟩
      · rw [run_append]
        exact hst.one_start
      · rw [run_append]
        exact written_restart hserde hp hrs hwr


/-! ## A reader and a writer -/

def json_text : Serde where
  to_string value := String.ofList (render value)
  from_str text := parse text.toList

theorem json_text_lawful : json_text.Lawful where
  read_back value hp _ := by
    show parse (String.ofList (render value)).toList = some value
    rw [String.toList_ofList, parse_render hp]
  one_line value := by
    show OneLine (String.ofList (render value)).toList
    rw [String.toList_ofList]
    exact render_one_line value
  empty := rfl

def probe : AuditEvent where
  id := "0198c6a1"
  ts := "2026-01-01T00:00:00Z"
  session_id := "0198c6a0"
  seq := 0
  action := .get
  project := "app"
  profile := "default"
  scope := none
  key := some "DATABASE_URL"
  keys := []
  command := none
  provider := some "keyring://"
  reference := none
  outcome := .found
  error_kind := none
  interaction := none
  reason := none
  caller := none
  purpose := none
  actor := ⟨some "ada", none, false⟩
  version := "0.4.0"
  prev := none

theorem verifies_empty (sha256_hex : String → String) : Verifies json_text sha256_hex [] :=
  ⟨"", read_to_string_utf8 "", rfl⟩

/-- Two entries, one of which is lost, and the log opened anew between them. -/
theorem keeps_after_lost_entry :
    Keeps json_text Sha256.hex (from_config json_text [] 0 true)
      [.record probe ⟨true, true, none⟩, .record probe ⟨true, true, some 0⟩, .reopen 1 true,
        .record probe ⟨true, true, none⟩] :=
  (keeps_iff json_text_lawful (verifies_empty Sha256.hex) 0 true _).mpr ⟨⟨[], whole_nil⟩, by decide⟩

theorem WholeLines.unique {a b : List String} (ha : WholeLines file a) (hb : WholeLines file b) : a = b := by
  obtain ⟨c, hr, -, rfl⟩ := ha
  obtain ⟨c', hr', -, rfl⟩ := hb
  rw [Option.some.inj (hr.symm.trans hr')]

/-- An object's text begins with a brace, which no object begins with twice. -/
theorem render_brace (e : String × Json) (m : List (String × Json)) :
    ∃ text, render (.obj (e :: m)) = '\x7b' :: text ∧ parse ('\x7b' :: '\x7b' :: text) = none := by
  obtain ⟨key, mm⟩ := e
  exact ⟨_, rfl, by simp [parse, parse_value, parse_member, after]⟩

theorem take_one_brace (text : List Char) : (utf8 (String.ofList ('\x7b' :: text))).take 1 = utf8 "\x7b" := by
  have hb : String.utf8EncodeChar '\x7b' = utf8 "\x7b" := by decide
  have ho : (utf8 "\x7b").length = 1 := by decide
  rw [utf8_ofList, List.flatMap_cons, hb, List.take_append_of_le_length (Nat.le_of_eq ho.symm), ← ho,
    List.take_length]

/-- A record at a file that is not truncated. -/
theorem record_kept (logger : AuditLogger) (d : Disk) {e : AuditEvent} {dg : String}
    (hl : chained_line serde sha256_hex e logger.last_hash = some (line, dg)) (h : d.truncates = false) :
    logger.record serde sha256_hex e d =
      match d.failed with
      | some w => { logger with file := logger.file ++ (utf8 line).take w }
      | none => { logger with file := logger.file ++ utf8 (line ++ "\n"), last_hash := some dg } := by
  have hn : restarts logger.max_size_bytes logger.file line d = false := by
    rw [restarts, h, Bool.and_false]
  rw [AuditLogger.record, hl]
  simp only [write_line, hn]
  cases d.failed <;> rfl

/-- One byte of an entry is written, and the next entry is written after it: their one line does not parse. -/
theorem torn_entry_breaks :
    ¬Intact json_text Sha256.hex ((from_config json_text [] 0 true).run json_text Sha256.hex
      [.record probe ⟨true, false, some 1⟩, .record probe ⟨true, false, none⟩]).file := by
  have hl := chained_line_eq json_text Sha256.hex probe none
  have hs : probe.interaction.all InteractionReference.safe := rfl
  rw [if_pos hs] at hl
  obtain ⟨text, ht, hp⟩ : ∃ text, render (sealed json_text Sha256.hex probe.fields none) = '\x7b' :: text ∧
      parse ('\x7b' :: '\x7b' :: text) = none := render_brace _ _
  have hst : json_text.to_string (sealed json_text Sha256.hex probe.fields none) = String.ofList ('\x7b' :: text) :=
    congrArg String.ofList ht
  have ho := (probe.sealable.links Sha256.hex none json_text_lawful).one_line
  rw [hst] at hl ho
  have hf : (from_config json_text [] 0 true).record json_text Sha256.hex probe ⟨true, false, some 1⟩ =
      ⟨utf8 "\x7b", DEFAULT_MAX_SIZE_BYTES, none⟩ := by
    rw [record_kept (from_config json_text [] 0 true) ⟨true, false, some 1⟩ hl rfl]
    simp only [take_one_brace]
    rfl
  have hc := record_kept ⟨utf8 "\x7b", DEFAULT_MAX_SIZE_BYTES, none⟩ ⟨true, false, none⟩ hl rfl
  rintro ⟨found, hw, hb⟩
  have hr : OneLine ("\x7b" ++ String.ofList ('\x7b' :: text)).toList := by
    rw [String.toList_append]
    exact ho.cons ⟨by decide, by decide⟩
  have hj := whole_nil.append hr
  rw [List.nil_append, List.nil_append, String.append_assoc, utf8_append] at hj
  rw [AuditLogger.run, List.foldl_cons, List.foldl_cons, List.foldl_nil, AuditLogger.step, AuditLogger.step, hf,
    hc] at hw
  obtain rfl := hw.unique hj
  have hn : json_text.from_str ("\x7b" ++ String.ofList ('\x7b' :: text)) = none := by
    show parse ("\x7b" ++ String.ofList ('\x7b' :: text)).toList = none
    rw [String.toList_append, String.toList_ofList, String.toList_ofList]
    exact hp
  have hpr := (walk_intact hb).1 _ (.head _)
  rw [hn] at hpr
  cases hpr

end Monosecret.Audit
