/-
  Monosecret.Rpc.StrictValue — from the bytes of a frame to its value (`jsonrpc.rs`:
  `parse_strict_value`, `StrictValueVisitor`).

  `serde_json` is a parameter: a frame is what its deserializer answers the visitor, call by
  call, and whether only white space follows. A number is what serde makes of it, a whole
  number of 64 bits or a double.

  Proved: the value layer takes a document exactly when its keys are distinct, its numbers in
  range and its containers, empty objects not counted, at most 64 deep; what a rule refuses
  is an invalid request. So it keeps its promise on every frame but two kinds: 64 containers
  around empty objects pass, and a frame that repeats a key or nests too deep before it turns
  out to be malformed is not called a parse error.
-/

import Mathlib.Algebra.Order.Group.Abs
import Mathlib.Algebra.Order.Group.Int
import Monosecret.Lib.Except
import Monosecret.Rpc.Jsonrpc

namespace Monosecret.Rpc

open Lib

mutual

/-- What `deserialize_any` finds. -/
inductive Document
  | unit
  | bool (b : Bool)
  | int (n : Int)
  | real (r : Rat)
  | str (s : String)
  | seq (access : SeqAccess)
  | map (access : MapAccess)
  | malformed

/-- The answers of `next_element_seed`, in turn. -/
inductive SeqAccess
  | done
  | malformed
  | element (item : Document) (rest : SeqAccess)

/-- The answers of `next_key` and `next_value_seed`. -/
inductive MapAccess
  | done
  | malformed
  | entry (key : String) (value : Document) (rest : MapAccess)

end

/-! ## The visitor -/

/-- A `serde_json::Error`: the text is serde's own, or one of this repository. -/
inductive Failure
  | Syntax
  | Decode
  | Data (message : String)

/-- The kind `classify_json_error` gives. -/
def classify_json_error : Failure → ErrorKind
  | .Syntax => .ParseError
  | _ => .InvalidRequest

namespace StrictValueVisitor

def child (depth : Nat) : Except Failure Nat :=
  if depth ≥ MAX_NESTING then .error (.Data "JSON nesting exceeds 64 containers") else .ok (depth + 1)

mutual

def visit_any : Document → Nat → Except Failure Json
  | .unit, _ => .ok .null
  | .bool b, _ => .ok (.bool b)
  | .int n, _ => .ok (.int n)
  | .real r, _ => .ok (.real r)
  | .str s, _ => .ok (.str s)
  | .seq access, depth => (visit_seq access depth).map .arr
  | .map access, depth => (visit_map access [] depth).map .obj
  | .malformed, _ => .error .Syntax

/-- `child` is asked before the parser is. -/
def visit_seq : SeqAccess → Nat → Except Failure (List Json)
  | .done, depth => do
    let _ ← child depth
    return []
  | .malformed, depth => do
    let _ ← child depth
    throw .Syntax
  | .element item rest, depth => do
    let seed ← child depth
    let value ← visit_any item seed
    let values ← visit_seq rest depth
    return value :: values

/-- `child` is asked once there is a key. -/
def visit_map : MapAccess → List String → Nat → Except Failure (List (String × Json))
  | .done, _, _ => .ok []
  | .malformed, _, _ => .error .Syntax
  | .entry key value rest, keys, depth => do
    if keys.contains key then throw (.Data "duplicate JSON object key")
    let seed ← child depth
    let value ← visit_any value seed
    let members ← visit_map rest (key :: keys) depth
    return (key, value) :: members

end

end StrictValueVisitor

/-- A local protocol error: its own text, or serde's. -/
inductive Error
  | Protocol (message : String)
  | ProtocolOwned (failure : Failure)

variable (serde_json : List UInt8 → Document × Bool)

def parse_strict_value (bytes : List UInt8) : Except (Error × ErrorKind) Json := do
  let value ← (StrictValueVisitor.visit_any (serde_json bytes).1 0).mapError fun failure =>
    (.ProtocolOwned failure, classify_json_error failure)
  if !(serde_json bytes).2 then throw (.ProtocolOwned .Syntax, classify_json_error .Syntax)
  if !validate_value value then throw (.Protocol "JSON number is outside the version 1 safe range", .InvalidRequest)
  return value

/-! ## The document behind the answers -/

mutual

def Document.whole : Document → Bool
  | .seq access => access.whole
  | .map access => access.whole
  | .malformed => false
  | _ => true

def SeqAccess.whole : SeqAccess → Bool
  | .done => true
  | .malformed => false
  | .element item rest => item.whole && rest.whole

def MapAccess.whole : MapAccess → Bool
  | .done => true
  | .malformed => false
  | .entry _ value rest => value.whole && rest.whole

end

mutual

/-- The value, up to where the document is malformed. -/
def Document.read : Document → Json
  | .unit => .null
  | .bool b => .bool b
  | .int n => .int n
  | .real r => .real r
  | .str s => .str s
  | .seq access => .arr access.read
  | .map access => .obj access.read
  | .malformed => .null

def SeqAccess.read : SeqAccess → List Json
  | .element item rest => item.read :: if item.whole then rest.read else []
  | _ => []

def MapAccess.read : MapAccess → List (String × Json)
  | .entry key value rest => (key, value.read) :: if value.whole then rest.read else []
  | _ => []

end

/-- What the visitor makes of a value that the tree rules accept or not, read whole or not. -/
def outcome {α : Type} (accepted whole : Bool) (value : α) : Except ErrorKind α :=
  if !accepted then .error .InvalidRequest else if !whole then .error .ParseError else .ok value

theorem outcome_map {α β : Type} (accepted whole : Bool) (value : α) (f : α → β) :
    (outcome accepted whole value).map f = outcome accepted whole (f value) := by
  cases accepted <;> cases whole <;> rfl

/-- An element or an entry that reads, and those after it. -/
theorem outcome_cons {α β : Type} {x : Except Failure α} {xs : Except Failure (List β)} {accepted whole : Bool} {value : α}
    {a' w' : Bool} {v : List β} (hx : x.mapError classify_json_error = outcome accepted whole value)
    (hs : xs.mapError classify_json_error = outcome a' w' v) (f : α → β) :
    (x >>= fun value => xs >>= fun v => .ok (f value :: v)).mapError classify_json_error =
      outcome (accepted && (!whole || a')) (whole && w') (f value :: if whole then v else []) := by
  simp only [Except.mapError_bind, hx, hs]
  cases accepted <;> cases whole <;> cases a' <;> cases w' <;> rfl

theorem child_within {d : Nat} (h : d < MAX_NESTING) : StrictValueVisitor.child d = .ok (d + 1) :=
  if_neg (Nat.not_le.mpr h)

theorem child_beyond {d : Nat} (h : ¬ d < MAX_NESTING) :
    StrictValueVisitor.child d = .error (.Data "JSON nesting exceeds 64 containers") :=
  if_pos (Nat.not_lt.mp h)

mutual

theorem visit_any_outcome : ∀ (d : Document) (dp : Nat),
    (StrictValueVisitor.visit_any d dp).mapError classify_json_error =
      outcome (visit_any d.read dp) d.whole d.read
  | .unit, _ => rfl
  | .bool _, _ => rfl
  | .int _, _ => rfl
  | .real _, _ => rfl
  | .str _, _ => rfl
  | .malformed, _ => rfl
  | .seq access, dp => by
    have ha := visit_seq_outcome access dp
    simp only [StrictValueVisitor.visit_any, Document.read, Document.whole, visit_any, Except.mapError_map, ha,
      outcome_map]
  | .map access, dp => by
    have ha := visit_map_outcome access [] dp
    simp only [StrictValueVisitor.visit_any, Document.read, Document.whole, visit_any, Except.mapError_map, ha,
      outcome_map]

theorem visit_seq_outcome : ∀ (a : SeqAccess) (d : Nat),
    (StrictValueVisitor.visit_seq a d).mapError classify_json_error =
      outcome (visit_seq a.read d) a.whole a.read
  | .done, d | .malformed, d => by
    by_cases h : d < MAX_NESTING
    · simp [StrictValueVisitor.visit_seq, child_within h, SeqAccess.read, SeqAccess.whole, visit_seq, h]
      rfl
    · simp [StrictValueVisitor.visit_seq, child_beyond h, SeqAccess.read, visit_seq, h]
      rfl
  | .element i rest, d => by
    by_cases h : d < MAX_NESTING
    · have hc := outcome_cons (visit_any_outcome i (d + 1)) (visit_seq_outcome rest d) id
      rw [StrictValueVisitor.visit_seq, child_within h]
      refine hc.trans ?_
      cases hw : i.whole <;> simp [SeqAccess.read, SeqAccess.whole, visit_seq, h, hw]
    · simp [StrictValueVisitor.visit_seq, child_beyond h, SeqAccess.read, visit_seq, h]
      rfl

theorem visit_map_outcome : ∀ (a : MapAccess) (k : List String) (d : Nat),
    (StrictValueVisitor.visit_map a k d).mapError classify_json_error =
      outcome (visit_map a.read k d) a.whole a.read
  | .done, _, _ => rfl
  | .malformed, _, _ => rfl
  | .entry ky value rest, k, d => by
    by_cases hk : ky ∈ k
    · simp [StrictValueVisitor.visit_map, MapAccess.read, visit_map, hk]
      rfl
    · by_cases h : d < MAX_NESTING
      · have hc := outcome_cons (visit_any_outcome value (d + 1)) (visit_map_outcome rest (ky :: k) d)
          fun value => (ky, value)
        simp only [StrictValueVisitor.visit_map, List.contains_eq_mem, hk, decide_false, child_within h]
        refine hc.trans ?_
        cases hw : value.whole <;> simp [MapAccess.read, MapAccess.whole, visit_map, h, hk, hw]
      · simp [StrictValueVisitor.visit_map, child_beyond h, MapAccess.read, visit_map, h, hk]
        rfl

end

/-! ## The rules -/

/-- A number in the range of version 1. -/
def InRange : Json → Prop
  | .int n => |n| ≤ MAX_SAFE_INTEGER
  | .real r => |r| ≤ MAX_SAFE_INTEGER
  | _ => True

structure Rules (value : Json) : Prop where
  keys : value.Every Json.KeysDistinct
  nesting : value.nesting ≤ MAX_NESTING
  numbers : value.Every InRange

mutual

/-- `nesting`, empty objects not counted. -/
def opened : Json → Nat
  | .arr items => items_opened items + 1
  | .obj members => if members.isEmpty then 0 else members_opened members + 1
  | _ => 0

def items_opened : List Json → Nat
  | [] => 0
  | item :: items => max (opened item) (items_opened items)

def members_opened : List (String × Json) → Nat
  | [] => 0
  | (_, member) :: members => max (opened member) (members_opened members)

end

mutual

theorem opened_le_nesting : ∀ value : Json, opened value ≤ value.nesting
  | .arr i => Nat.succ_le_succ (items_opened_le i)
  | .obj m => by
    have hm := members_opened_le m
    simp only [opened, Json.nesting]
    split <;> omega
  | .null | .bool _ | .int _ | .real _ | .str _ => Nat.le_refl 0

theorem items_opened_le : ∀ i : List Json, items_opened i ≤ Json.items_nesting i
  | [] => Nat.le_refl 0
  | item :: i => max_le_max (opened_le_nesting item) (items_opened_le i)

theorem members_opened_le : ∀ m : List (String × Json), members_opened m ≤ Json.members_nesting m
  | [] => Nat.le_refl 0
  | (_, member) :: m => max_le_max (opened_le_nesting member) (members_opened_le m)

end

mutual

/-- The visitor at a depth a value can have. -/
theorem visit_any_iff : ∀ {value : Json} {d : Nat}, d ≤ MAX_NESTING →
    (visit_any value d ↔ value.Every Json.KeysDistinct ∧ opened value + d ≤ MAX_NESTING)
  | .null, _, hd | .bool _, _, hd | .int _, _, hd | .real _, _, hd | .str _, _, hd => by
    simpa [visit_any, Json.Every, Json.KeysDistinct, opened] using hd
  | .arr items, d, hd => by
    simp only [visit_any, Json.Every, Json.KeysDistinct, opened, true_and]
    rw [visit_seq_iff, Nat.add_right_comm, Nat.add_assoc]
  | .obj [], _, hd => by
    simpa [visit_any, visit_map, Json.Every, Json.KeysDistinct, Json.EveryMember, opened] using hd
  | .obj ((key, value) :: members), d, _ => by
    simp only [visit_any, Json.Every, Json.KeysDistinct, opened, List.isEmpty_cons, Bool.false_eq_true, if_false]
    by_cases h : d < MAX_NESTING
    · have hm := @visit_map_iff ((key, value) :: members) [] d h
      simp only [List.not_mem_nil, not_false_eq_true, implies_true, and_true] at hm
      rw [hm, Nat.add_right_comm, Nat.add_assoc, and_assoc]
    · have hp : ¬ members_opened ((key, value) :: members) + 1 + d ≤ MAX_NESTING := by omega
      simp [visit_map, h, hp]

theorem visit_seq_iff : ∀ {i : List Json} {d : Nat},
    visit_seq i d ↔ Json.EveryItem Json.KeysDistinct i ∧ items_opened i + (d + 1) ≤ MAX_NESTING
  | [], d => by
    simp only [visit_seq, Json.EveryItem, items_opened, decide_eq_true_eq, true_and, Nat.zero_add]
    exact Nat.lt_iff_add_one_le
  | item :: i, d => by
    by_cases h : d < MAX_NESTING
    · simp only [visit_seq, Json.EveryItem, items_opened, Bool.and_eq_true, decide_eq_true_eq, h, true_and,
        visit_any_iff (Nat.succ_le_of_lt h), visit_seq_iff, ← Nat.add_max_add_right, max_le_iff]
      exact and_and_and_comm
    · have hd : ¬ items_opened (item :: i) + (d + 1) ≤ MAX_NESTING := by omega
      simp [visit_seq, h, hd]

theorem visit_map_iff : ∀ {m : List (String × Json)} {k : List String} {d : Nat}, d < MAX_NESTING →
    (visit_map m k d ↔
      ((m.map Prod.fst).Nodup ∧ ∀ ky ∈ m.map Prod.fst, ky ∉ k) ∧
        Json.EveryMember Json.KeysDistinct m ∧ members_opened m + (d + 1) ≤ MAX_NESTING)
  | [], _, _, h => by
    simpa [visit_map, Json.EveryMember, members_opened] using Nat.succ_le_of_lt h
  | (ky, value) :: m, k, d, h => by
    have hm := @visit_map_iff m (ky :: k) d h
    simp only [visit_map, Json.EveryMember, members_opened, Bool.and_eq_true, Bool.not_eq_true', List.contains_eq_mem,
      decide_eq_true_eq, decide_eq_false_iff_not, h, and_true, visit_any_iff (Nat.succ_le_of_lt h), hm,
      List.map_cons, List.nodup_cons, List.forall_mem_cons, ← Nat.add_max_add_right, max_le_iff]
    constructor
    · rintro ⟨⟨hk, hv, hd⟩, ⟨hn, hw⟩, he, hp⟩
      refine ⟨⟨⟨fun hme => hw ky hme (.head _), hn⟩, hk, ?_⟩, ⟨hv, he⟩, hd, hp⟩
      exact fun other hme hs => hw other hme (List.mem_cons_of_mem ky hs)
    · rintro ⟨⟨⟨hf, hn⟩, hk, hw⟩, ⟨hv, he⟩, hd, hp⟩
      refine ⟨⟨hk, hv, hd⟩, ⟨hn, fun other hme hs => ?_⟩, he, hp⟩
      rcases List.mem_cons.mp hs with rfl | hs
      · exact hf hme
      · exact hw other hme hs

end

mutual

theorem validate_value_iff : ∀ value : Json, validate_value value ↔ value.Every InRange
  | .int n => by
    simp only [validate_value, Json.Every, InRange, Bool.and_eq_true, Bool.not_eq_true', decide_eq_false_iff_not,
      gt_iff_lt, not_lt, abs_le]
    exact and_comm
  | .real r => by
    simp only [validate_value, Json.Every, InRange, Bool.not_eq_true', decide_eq_false_iff_not, gt_iff_lt, not_lt]
  | .arr i => by
    simp only [validate_value, Json.Every, InRange, true_and]
    exact validate_values_iff i
  | .obj m => by
    simp only [validate_value, Json.Every, InRange, true_and]
    exact validate_members_iff m
  | .null | .bool _ | .str _ => iff_of_true rfl trivial

theorem validate_values_iff : ∀ i : List Json, validate_values i ↔ Json.EveryItem InRange i
  | [] => iff_of_true rfl trivial
  | item :: i => by
    rw [validate_values, Bool.and_eq_true, validate_value_iff item, validate_values_iff i, Json.EveryItem]

theorem validate_members_iff : ∀ m : List (String × Json),
    validate_members m ↔ Json.EveryMember InRange m
  | [] => iff_of_true rfl trivial
  | (_, member) :: m => by
    rw [validate_members, Bool.and_eq_true, validate_value_iff member, validate_members_iff m, Json.EveryMember]

end

/-! ## The value layer -/

/-- serde_json takes the bytes as one document. -/
def WellFormed (bytes : List UInt8) : Prop := (serde_json bytes).1.whole = true ∧ (serde_json bytes).2 = true

/-- A well-formed frame is taken for its value when that obeys the rules, and is an invalid
    request otherwise; any other frame is a parse error. -/
structure Strict (bytes : List UInt8) : Prop where
  takes : WellFormed serde_json bytes → Rules (serde_json bytes).1.read →
    parse_strict_value serde_json bytes = .ok (serde_json bytes).1.read
  refuses : WellFormed serde_json bytes → ¬ Rules (serde_json bytes).1.read →
    ∃ error, parse_strict_value serde_json bytes = .error (error, .InvalidRequest)
  malformed : ¬ WellFormed serde_json bytes → ∃ error, parse_strict_value serde_json bytes = .error (error, .ParseError)

/-- What the visitor's own two rules let through of a document, whole or not. -/
def Admitted (value : Json) : Prop := value.Every Json.KeysDistinct ∧ opened value ≤ MAX_NESTING

theorem visit_any_admitted (value : Json) : visit_any value 0 ↔ Admitted value := visit_any_iff (Nat.zero_le _)

variable {serde_json}
variable {bytes : List UInt8}

theorem parse_refused (h : ¬ Admitted (serde_json bytes).1.read) :
    ∃ error, parse_strict_value serde_json bytes = .error (error, .InvalidRequest) := by
  have hv := visit_any_outcome (serde_json bytes).1 0
  have hr : visit_any (serde_json bytes).1.read 0 = false :=
    Bool.eq_false_iff.mpr fun ha => h ((visit_any_admitted _).mp ha)
  rw [hr] at hv
  obtain ⟨f, hf, hk⟩ := Except.mapError_error.mp hv
  refine ⟨.ProtocolOwned f, ?_⟩
  rw [← hk, parse_strict_value, hf]
  rfl

theorem parse_admitted (h : Admitted (serde_json bytes).1.read) :
    (StrictValueVisitor.visit_any (serde_json bytes).1 0).mapError classify_json_error =
      if (serde_json bytes).1.whole then .ok (serde_json bytes).1.read else .error .ParseError := by
  rw [visit_any_outcome, (visit_any_admitted _).mpr h]
  cases (serde_json bytes).1.whole <;> rfl

theorem parse_malformed (h : Admitted (serde_json bytes).1.read) (hm : ¬ WellFormed serde_json bytes) :
    ∃ error, parse_strict_value serde_json bytes = .error (error, .ParseError) := by
  have hv := parse_admitted h
  cases hw : (serde_json bytes).1.whole with
  | false =>
    rw [hw] at hv
    obtain ⟨f, hf, hk⟩ := Except.mapError_error.mp hv
    refine ⟨.ProtocolOwned f, ?_⟩
    rw [← hk, parse_strict_value, hf]
    rfl
  | true =>
    have he : (serde_json bytes).2 = false := Bool.eq_false_iff.mpr fun he => hm ⟨hw, he⟩
    rw [hw, if_pos rfl, Except.mapError_ok] at hv
    refine ⟨.ProtocolOwned .Syntax, ?_⟩
    rw [parse_strict_value, hv, he]
    rfl

theorem parse_well_formed (h : Admitted (serde_json bytes).1.read) (hw : WellFormed serde_json bytes) :
    parse_strict_value serde_json bytes =
      if validate_value (serde_json bytes).1.read then .ok (serde_json bytes).1.read
      else .error (.Protocol "JSON number is outside the version 1 safe range", .InvalidRequest) := by
  have hv := parse_admitted h
  rw [hw.1, if_pos rfl, Except.mapError_ok] at hv
  rw [parse_strict_value, hv, hw.2]
  cases hr : validate_value (serde_json bytes).1.read <;> simp [Except.mapError, bind, Except.bind, hr] <;> rfl

/-- The two kinds of frame on which the promise is broken are the two left out here. -/
theorem strict_iff (serde_json : List UInt8 → Document × Bool) (bytes : List UInt8) :
    Strict serde_json bytes ↔
      (WellFormed serde_json bytes → Admitted (serde_json bytes).1.read → (serde_json bytes).1.read.Every InRange →
        (serde_json bytes).1.read.nesting ≤ MAX_NESTING) ∧
      (¬ WellFormed serde_json bytes → Admitted (serde_json bytes).1.read) := by
  constructor
  · intro hs
    refine ⟨fun hw hm hr => ?_, fun hl => ?_⟩
    · by_contra hd
      obtain ⟨error, he⟩ := hs.refuses hw fun hrl => hd hrl.nesting
      rw [parse_well_formed hm hw, if_pos ((validate_value_iff _).mpr hr)] at he
      cases he
    · by_contra hf
      obtain ⟨error, he⟩ := hs.malformed hl
      obtain ⟨e', he'⟩ := parse_refused hf
      rw [he] at he'
      cases he'
  · rintro ⟨hn, hm⟩
    refine ⟨fun hw hrl => ?_, fun hw hb => ?_, fun hl => ?_⟩
    · have ho := (opened_le_nesting _).trans hrl.nesting
      rw [parse_well_formed ⟨hrl.keys, ho⟩ hw, if_pos ((validate_value_iff _).mpr hrl.numbers)]
    · by_cases ha : Admitted (serde_json bytes).1.read
      · have hr : ¬ (serde_json bytes).1.read.Every InRange :=
          fun hr => hb ⟨ha.1, hn hw ha hr, hr⟩
        rw [parse_well_formed ha hw, if_neg (mt (validate_value_iff _).mp hr)]
        exact ⟨_, rfl⟩
      · exact parse_refused ha
    · exact parse_malformed (hm hl) hl

/-! A deserializer of two texts: 64 arrays around an empty object, and an object that ends after
    its second `"a":`. -/

namespace Texts

def around : Nat → Document → Document
  | 0, document => document
  | n + 1, document => .seq (.element (around n document) .done)

def deep : List UInt8 := List.replicate 64 91 ++ [123, 125] ++ List.replicate 64 93

def cut : List UInt8 := [123, 34, 97, 34, 58, 49, 44, 34, 97, 34, 58]

def from_slice (bytes : List UInt8) : Document × Bool :=
  if bytes = deep then (around 64 (.map .done), true)
  else if bytes = cut then (.map (.entry "a" (.int 1) (.entry "a" .malformed .done)), false)
  else (.malformed, false)

theorem from_slice_deep : from_slice deep = (around 64 (.map .done), true) := if_pos rfl

theorem from_slice_cut : from_slice cut = (.map (.entry "a" (.int 1) (.entry "a" .malformed .done)), false) :=
  (if_neg (by decide)).trans (if_pos rfl)

end Texts

theorem broken_promises : ¬ Strict Texts.from_slice Texts.deep ∧ ¬ Strict Texts.from_slice Texts.cut := by
  constructor
  · intro hs
    have hw : WellFormed Texts.from_slice Texts.deep := by
      rw [WellFormed, Texts.from_slice_deep]
      exact ⟨by decide, rfl⟩
    have ha : Admitted (Texts.from_slice Texts.deep).1.read := by
      rw [Texts.from_slice_deep]
      exact (visit_any_admitted _).mp (by decide +kernel)
    have hd : ¬ Rules (Texts.from_slice Texts.deep).1.read := by
      rw [Texts.from_slice_deep]
      exact fun hr => absurd hr.nesting (by decide +kernel)
    have hn : validate_value (Texts.from_slice Texts.deep).1.read := by
      rw [Texts.from_slice_deep]
      decide
    obtain ⟨error, he⟩ := hs.refuses hw hd
    rw [parse_well_formed ha hw, if_pos hn] at he
    cases he
  · intro hs
    have hc : ¬ WellFormed Texts.from_slice Texts.cut := by
      rw [WellFormed, Texts.from_slice_cut]
      exact fun hw => absurd hw.2 (by decide)
    have hf : ¬ Admitted (Texts.from_slice Texts.cut).1.read := by
      rw [Texts.from_slice_cut]
      exact fun ha => absurd ((visit_any_admitted _).mpr ha) (by decide)
    obtain ⟨error, he⟩ := hs.malformed hc
    obtain ⟨e', he'⟩ := parse_refused hf
    rw [he] at he'
    cases he'

end Monosecret.Rpc
