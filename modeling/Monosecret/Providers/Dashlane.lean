/-
  Monosecret.Providers.Dashlane — reads of Dashlane items (`DashlaneProvider` in
  `monosecret/src/provider/dashlane.rs`).

  A single read lists one content type after the other until one holds the value. A batch lists
  each type once for all the requests that are still without one.

  `searches_agree`: the batch is what the single reads are. In both, a content type takes a
  request from one `Progress` to the next (`advance`), and a request with a value stays there.
-/

import Monosecret.Lib.JsonText
import Monosecret.Lib.Texts
import Monosecret.Providers.GetEach
import Monosecret.Providers.SameEntries

namespace Monosecret.Providers.Dashlane

open Lib Manifest
open Cache (SecretBytes utf8)
open Lib.Except (bind_ok forM_ok_iff)

/-! ## Items -/

inductive ItemType
  | Secret
  | Note
  | Password
  deriving DecidableEq

namespace ItemType

def as_str : ItemType → String
  | Secret => "secret"
  | Note => "note"
  | Password => "password"

def default_field : ItemType → String
  | Secret => "content"
  | Note => "content"
  | Password => "password"

def search_order : List ItemType := [Secret, Password, Note]

end ItemType

structure VaultItem where
  id : String
  title : Option String
  fields : Map String Json

/-- Without the braces around it. -/
def bare (id : String) : String := String.ofList ((id.toList.dropWhile (· == '\x7b')).rdropWhile (· == '\x7d'))

/-- `str::eq_ignore_ascii_case`. -/
def eq_ignore_ascii_case (a b : String) : Bool := a.toList.map Char.toLower == b.toList.map Char.toLower

/-- The text of a field's value. -/
def raw_text : Json → Option String
  | .str text => some text
  | .null => none
  | other => some (String.ofList (JsonText.render other))

namespace VaultItem

def is_named (to_lowercase : String → String) (name : String) (item : VaultItem) : Bool :=
  (bare name ≠ "" && eq_ignore_ascii_case (bare item.id) (bare name)) ||
    item.title.any fun title => to_lowercase title == to_lowercase name

def field (item : VaultItem) (name : String) : Option String := ((item.fields name).bind raw_text).filter (· ≠ "")

end VaultItem

/-- What a lister comes to. -/
inductive Listing
  | Fails (message : String)
  | Unparsed (line column : Nat)
  | Items (items : List VaultItem)

structure Dcli where
  to_lowercase : String → String
  listing : ItemType → Listing

def is_unknown_command (message : String) : Bool := decide ("unknown command".toList <:+: message.toList)

inductive Found
  | Value (value : SecretBytes)
  | NoItem
  | NoField

namespace Dcli

variable (dcli : Dcli)

/-- A CLI that does not know a content type has none of it. -/
def list (item_type : ItemType) : Except String (List VaultItem) :=
  match dcli.listing item_type with
  | .Fails message => if is_unknown_command message then .ok [] else .error message
  | .Unparsed line column =>
    .error s!"could not parse the output of 'dcli {item_type.as_str} -o json' (line {line}, column {column})"
  | .Items items => .ok items

def find_unique (items : List VaultItem) (name : String) (item_type : ItemType) : Except String (Option VaultItem) :=
  match items.filter (VaultItem.is_named dcli.to_lowercase name) with
  | [] => .ok none
  | [item] => .ok (some item)
  | first :: extra =>
    .error
      (s!"{extra.length + 1} Dashlane {item_type.as_str} items are titled '{name}'. Rename them, or point the secret at " ++
        s!"one identifier with ref = \x7b item = \"{bare first.id}\" \x7d.")

def lookup (items : List VaultItem) (item_type : ItemType) (coords : NativeAddress) : Except String Found := do
  match ← dcli.find_unique items coords.item item_type with
  | none => .ok .NoItem
  | some item =>
    match item.field (coords.field.getD item_type.default_field) with
    | some value => .ok (.Value (utf8 value))
    | none => .ok (if coords.field.isSome then .NoField else .NoItem)

end Dcli

def missing_field (name field : String) : String := s!"no Dashlane item named '{name}' has a '{field}' field"

/-! ## Reads -/

structure DashlaneProvider where
  item_type : Option ItemType

/-- The values of a batch in the order they came, and the names that lacked a field. -/
structure Batch where
  found : List (String × SecretBytes)
  lacked_field : List String

namespace DashlaneProvider

variable (provider : DashlaneProvider) (dcli : Dcli)

def uri : String :=
  match provider.item_type with
  | some item_type => s!"dashlane://{item_type.as_str}"
  | none => "dashlane"

def entries : Provider Unit where
  name := "dashlane"
  supported_coords := ["field"]
  convention_address project profile key := .ok ⟨s!"monosecret/{project}/{profile}/{key}", none, none, none, none⟩
  physical_store_path := none
  entry_container_identity := provider.uri

def types_to_search : List ItemType :=
  match provider.item_type with
  | some item_type => [item_type]
  | none => ItemType.search_order

/-- The loop of a single read, and its end. -/
def search (coords : NativeAddress) : List ItemType → Bool → Except String (Option SecretBytes)
  | [], lacked_field =>
    match lacked_field, coords.field with
    | true, some field => .error (missing_field coords.item field)
    | _, _ => .ok none
  | item_type :: types, lacked_field => do
    let items ← dcli.list item_type
    match ← dcli.lookup items item_type coords with
    | .Value value => .ok (some value)
    | .NoField => search coords types true
    | .NoItem => search coords types lacked_field

def get (addr : Address) : Except String (Option SecretBytes) := do
  let coords ← provider.entries.resolve_coords addr
  search dcli coords provider.types_to_search false

/-- A request that has no value yet, against one content type. -/
def visit_request (items : List VaultItem) (item_type : ItemType) (batch : Batch) (request : String × NativeAddress) :
    Except String Batch :=
  if (batch.found.lookup request.1).isSome then .ok batch
  else do
    match ← dcli.lookup items item_type request.2 with
    | .Value value => .ok { batch with found := batch.found ++ [(request.1, value)] }
    | .NoField => .ok { batch with lacked_field := batch.lacked_field ++ [request.1] }
    | .NoItem => .ok batch

/-- The loop over the content types, which ends early when every request has a value. -/
def visit_types (resolved : List (String × NativeAddress)) : List ItemType → Batch → Except String Batch
  | [], batch => .ok batch
  | item_type :: types, batch =>
    if resolved.length = batch.found.length then .ok batch
    else do
      let items ← dcli.list item_type
      visit_types resolved types (← resolved.foldlM (visit_request dcli items item_type) batch)

def refuse_lacking (batch : Batch) (request : String × NativeAddress) : Except String Unit :=
  if (batch.found.lookup request.1).isNone ∧ request.1 ∈ batch.lacked_field then
    .error (missing_field request.2.item (request.2.field.getD ""))
  else .ok ()

def get_many (requests : List (String × Address)) : Except String (Map String SecretBytes) := do
  let resolved ← resolve_all provider.entries.resolve_coords requests
  let batch ← visit_types dcli resolved provider.types_to_search ⟨[], []⟩
  resolved.forM (refuse_lacking batch)
  return fun name => batch.found.lookup name

end DashlaneProvider

open DashlaneProvider

/-! ## One request -/

/-- How far a request has come. -/
inductive Progress
  | Found (value : SecretBytes)
  | Searching (lacked_field : Bool)

/-- What a content type adds. -/
def advance (dcli : Dcli) (coords : NativeAddress) (progress : Progress) (item_type : ItemType) : Except String Progress :=
  match progress with
  | .Found value => .ok (.Found value)
  | .Searching lacked_field => do
    let items ← dcli.list item_type
    match ← dcli.lookup items item_type coords with
    | .Value value => .ok (.Found value)
    | .NoField => .ok (.Searching true)
    | .NoItem => .ok (.Searching lacked_field)

/-- What a request comes to in the end. -/
def conclude (coords : NativeAddress) : Progress → Except String (Option SecretBytes)
  | .Found value => .ok (some value)
  | .Searching lacked_field =>
    match lacked_field, coords.field with
    | true, some field => .error (missing_field coords.item field)
    | _, _ => .ok none

variable {dcli : Dcli} {coords : NativeAddress} {item_type : ItemType} {types : List ItemType}

theorem advance_found (value : SecretBytes) : types.foldlM (advance dcli coords) (.Found value) = .ok (.Found value) := by
  induction types with
  | nil => rfl
  | cons item_type types ih =>
    rw [List.foldlM_cons, advance]
    exact ih

theorem search_eq (types : List ItemType) (l : Bool) :
    search dcli coords types l = types.foldlM (advance dcli coords) (.Searching l) >>= conclude coords := by
  induction types generalizing l with
  | nil => rfl
  | cons item_type types ih =>
    rw [search, List.foldlM_cons, advance]
    cases dcli.list item_type with
    | error error => rfl
    | ok items =>
      cases hl : dcli.lookup items item_type coords with
      | error error => simp only [bind, Except.bind, hl]
      | ok found =>
        simp only [bind, Except.bind, hl] at ih ⊢
        cases found with
        | Value value => simp only [advance_found, conclude]
        | NoField => exact ih true
        | NoItem => exact ih l

/-- A field is missed only by a request that names one. -/
theorem lookup_no_field {items : List VaultItem} (h : dcli.lookup items item_type coords = .ok .NoField) : coords.field.isSome := by
  obtain ⟨found, -, h⟩ := bind_ok h
  cases found with
  | none => cases h
  | some i =>
    cases hf : i.field (coords.field.getD item_type.default_field) with
    | some value => simp only [hf] at h; cases h
    | none =>
      simp only [hf] at h
      by_contra hn
      rw [if_neg hn] at h
      cases h

/-! ## All requests -/

/-- How far the request of a name has come in a batch. -/
def Batch.progress (batch : Batch) (name : String) : Progress :=
  match batch.found.lookup name with
  | some value => .Found value
  | none => .Searching (decide (name ∈ batch.lacked_field))

def Batch.names (batch : Batch) : List String := batch.found.map Prod.fst

variable {items : List VaultItem} {batch af : Batch} {request : String × NativeAddress} {resolved : List (String × NativeAddress)}

theorem lookup_isSome {n : String} : (batch.found.lookup n).isSome ↔ n ∈ batch.names := by
  rw [List.lookup_isSome_iff, Batch.names, List.mem_map]
  exact ⟨fun ⟨e, hm, hn⟩ => ⟨e, hm, (beq_iff_eq.mp hn).symm⟩,
    fun ⟨e, hm, hn⟩ => ⟨e, hm, beq_iff_eq.mpr hn.symm⟩⟩

theorem progress_found {n : String} : n ∈ batch.names ↔ ∃ value, batch.progress n = .Found value := by
  rw [← lookup_isSome, Batch.progress]
  cases batch.found.lookup n with
  | some value => exact iff_of_true rfl ⟨value, rfl⟩
  | none => exact iff_of_false (by simp) (by simp)

theorem visit_request_progress (hl : dcli.list item_type = .ok items) :
    (visit_request dcli items item_type batch request).map (fun af => af.progress request.1) =
      advance dcli request.2 (batch.progress request.1) item_type := by
  obtain ⟨n, coords⟩ := request
  cases hf : batch.found.lookup n with
  | some value => simp [visit_request, Batch.progress, advance, hf, Except.map]
  | none =>
    cases hk : dcli.lookup items item_type coords with
    | error error => simp [visit_request, Batch.progress, advance, hf, hl, hk, Except.map, bind, Except.bind]
    | ok found =>
      cases found <;>
        simp [visit_request, Batch.progress, advance, hf, hl, hk, Except.map, bind, Except.bind, List.lookup_append]

theorem visit_request_other (h : visit_request dcli items item_type batch request = .ok af) {name : String} (hn : name ≠ request.1) :
    af.progress name = batch.progress name := by
  unfold visit_request at h
  split_ifs at h with hf
  · cases h
    rfl
  · obtain ⟨found, -, h⟩ := bind_ok h
    cases found with
    | Value value =>
      cases h
      have hw : [(request.1, value)].lookup name = none := by rw [List.lookup_cons, beq_eq_false_iff_ne.mpr hn, List.lookup_nil]
      rw [Batch.progress, List.lookup_append, hw, Option.or_none]
      rfl
    | NoField =>
      cases h
      simp [Batch.progress, hn]
    | NoItem =>
      cases h
      rfl

theorem visit_request_names (h : visit_request dcli items item_type batch request = .ok af) (hn : batch.names.Nodup) :
    af.names.Nodup ∧ ∀ n ∈ af.names, n ∈ batch.names ∨ n = request.1 := by
  unfold visit_request at h
  split_ifs at h with hf
  · cases h
    exact ⟨hn, fun _ => .inl⟩
  · obtain ⟨found, -, h⟩ := bind_ok h
    cases found with
    | Value value =>
      cases h
      have hw : Batch.names { batch with found := batch.found ++ [(request.1, value)] } = batch.names ++ [request.1] := by
        simp [Batch.names]
      rw [hw]
      refine ⟨List.nodup_append.mpr ⟨hn, List.nodup_singleton _, ?_⟩, by simp⟩
      rintro n hm _ hl rfl
      rw [List.mem_singleton] at hl
      exact hf (lookup_isSome.mpr (hl ▸ hm))
    | NoField | NoItem =>
      cases h
      exact ⟨hn, fun _ => .inl⟩

/-- One content type, for all requests. -/
theorem visit_requests_agree (hl : dcli.list item_type = .ok items) (hd : (resolved.map Prod.fst).Nodup) :
    ((∃ af, resolved.foldlM (visit_request dcli items item_type) batch = .ok af) ↔
        ∀ request ∈ resolved, ∃ p, advance dcli request.2 (batch.progress request.1) item_type = .ok p) ∧
      ∀ af, resolved.foldlM (visit_request dcli items item_type) batch = .ok af →
        (∀ request ∈ resolved, advance dcli request.2 (batch.progress request.1) item_type = .ok (af.progress request.1)) ∧
          ∀ name, name ∉ resolved.map Prod.fst → af.progress name = batch.progress name := by
  induction resolved generalizing batch with
  | nil =>
    refine ⟨iff_of_true ⟨batch, rfl⟩ nofun, fun af h => ?_⟩
    cases h
    exact ⟨nofun, fun _ _ => rfl⟩
  | cons first resolved ih =>
    obtain ⟨hf, hd⟩ := List.nodup_cons.mp hd
    have ha : ∀ request ∈ resolved, request.1 ≠ first.1 := fun request hm hn =>
      hf (hn ▸ List.mem_map_of_mem (f := Prod.fst) hm)
    have hs := @visit_request_progress dcli item_type items batch first hl
    rw [List.forall_mem_cons, List.foldlM_cons]
    cases hv : visit_request dcli items item_type batch first with
    | error error =>
      rw [hv] at hs
      refine ⟨iff_of_false (fun h => nomatch h.choose_spec) fun h => ?_, nofun⟩
      rw [← hs] at h
      exact nomatch h.1.choose_spec
    | ok next =>
      rw [hv] at hs
      have ho : ∀ request ∈ resolved, next.progress request.1 = batch.progress request.1 :=
        fun request hm => visit_request_other hv (ha request hm)
      obtain ⟨hc, hvl⟩ := @ih next hd
      constructor
      · refine hc.trans ⟨fun h => ⟨⟨_, hs.symm⟩, fun request hm => ?_⟩, fun h request hm => ?_⟩
        · rw [← ho request hm]
          exact h request hm
        · rw [ho request hm]
          exact h.2 request hm
      · intro af haf
        obtain ⟨hi, hou⟩ := hvl af haf
        refine ⟨List.forall_mem_cons.mpr ⟨?_, fun request hm => ?_⟩, fun name hn => ?_⟩
        · rw [hou first.1 hf]
          exact hs.symm
        · rw [← ho request hm]
          exact hi request hm
        · rw [List.map_cons, List.mem_cons, not_or] at hn
          rw [hou name hn.2, visit_request_other hv hn.1]

theorem visit_requests_names (h : resolved.foldlM (visit_request dcli items item_type) batch = .ok af) (hn : batch.names.Nodup) :
    af.names.Nodup ∧ ∀ n ∈ af.names, n ∈ batch.names ∨ n ∈ resolved.map Prod.fst := by
  induction resolved generalizing batch with
  | nil =>
    cases h
    exact ⟨hn, fun _ => .inl⟩
  | cons first resolved ih =>
    rw [List.foldlM_cons] at h
    obtain ⟨next, hx, h⟩ := bind_ok h
    obtain ⟨hd, hs⟩ := visit_request_names hx hn
    obtain ⟨ha, hi⟩ := ih h hd
    refine ⟨ha, fun n hna => ?_⟩
    rw [List.map_cons, List.mem_cons]
    rcases hi n hna with hm | hm
    · exact (hs n hm).imp_right .inl
    · exact .inr (.inr hm)

/-- A batch has as many values as requests when each request has one. -/
theorem all_found (hd : (resolved.map Prod.fst).Nodup) (hn : batch.names.Nodup)
    (hs : ∀ n ∈ batch.names, n ∈ resolved.map Prod.fst) :
    resolved.length = batch.found.length ↔ ∀ request ∈ resolved, request.1 ∈ batch.names := by
  have hl : batch.names.length = batch.found.length := List.length_map _
  have hc : (resolved.map Prod.fst).length = resolved.length := List.length_map _
  constructor
  · intro h request hm
    have hp := (List.subperm_of_subset hn hs).perm_of_length_le (by rw [hc, hl, h])
    exact hp.mem_iff.mpr (List.mem_map_of_mem hm)
  · intro h
    have hle := (@List.subperm_of_subset _ _ batch.names hd fun n hna => by
      obtain ⟨request, hm, rfl⟩ := List.mem_map.mp hna
      exact h request hm).length_le
    have hg := (List.subperm_of_subset hn hs).length_le
    omega

/-- All content types, for all requests. -/
theorem visit_types_agree (hd : (resolved.map Prod.fst).Nodup) (hn : batch.names.Nodup)
    (hs : ∀ name ∈ batch.names, name ∈ resolved.map Prod.fst) :
    ((∃ af, visit_types dcli resolved types batch = .ok af) ↔
        ∀ request ∈ resolved, ∃ p, types.foldlM (advance dcli request.2) (batch.progress request.1) = .ok p) ∧
      ∀ af, visit_types dcli resolved types batch = .ok af →
        (∀ request ∈ resolved, types.foldlM (advance dcli request.2) (batch.progress request.1) = .ok (af.progress request.1)) ∧
          ∀ name, name ∉ resolved.map Prod.fst → af.progress name = batch.progress name := by
  induction types generalizing batch with
  | nil =>
    refine ⟨iff_of_true ⟨batch, rfl⟩ fun request _ => ⟨_, rfl⟩, fun af h => ?_⟩
    cases h
    exact ⟨fun _ _ => rfl, fun _ _ => rfl⟩
  | cons item_type types ih =>
    rw [visit_types]
    by_cases ha : resolved.length = batch.found.length
    · rw [if_pos ha]
      have hf : ∀ request ∈ resolved,
          (item_type :: types).foldlM (advance dcli request.2) (batch.progress request.1) = .ok (batch.progress request.1) := by
        intro request hm
        obtain ⟨value, hv⟩ := progress_found.mp ((all_found hd hn hs).mp ha request hm)
        rw [hv, advance_found]
      refine ⟨iff_of_true ⟨batch, rfl⟩ fun request hm => ⟨_, hf request hm⟩, fun af h => ?_⟩
      cases h
      exact ⟨hf, fun _ _ => rfl⟩
    · rw [if_neg ha]
      cases hl : dcli.list item_type with
      | error error =>
        -- some request is without a value, and lists the type itself
        have hms : ∃ request ∈ resolved, request.1 ∉ batch.names := by
          by_contra hc
          push Not at hc
          exact ha ((all_found hd hn hs).mpr hc)
        obtain ⟨request, hm, hr⟩ := hms
        refine ⟨iff_of_false (fun h => nomatch h.choose_spec) fun h => ?_, nofun⟩
        obtain ⟨p, hp⟩ := h request hm
        rw [List.foldlM_cons] at hp
        cases hb : batch.progress request.1 with
        | Found value => exact hr (progress_found.mpr ⟨value, hb⟩)
        | Searching l =>
          rw [hb, advance, hl] at hp
          cases hp
      | ok items =>
        obtain ⟨hsc, hvl⟩ := @visit_requests_agree dcli item_type items batch resolved hl hd
        show ((∃ af, (resolved.foldlM (visit_request dcli items item_type) batch >>= visit_types dcli resolved types) = .ok af) ↔ _) ∧
          ∀ af, (resolved.foldlM (visit_request dcli items item_type) batch >>= visit_types dcli resolved types) = .ok af → _
        cases hvs : resolved.foldlM (visit_request dcli items item_type) batch with
        | error error =>
          rw [hvs] at hsc
          refine ⟨iff_of_false (fun h => nomatch h.choose_spec) fun h => ?_, nofun⟩
          refine nomatch (hsc.mpr fun request hm => ?_).choose_spec
          obtain ⟨p, hp⟩ := h request hm
          rw [List.foldlM_cons] at hp
          obtain ⟨next, hx, -⟩ := bind_ok hp
          exact ⟨next, hx⟩
        | ok next =>
          obtain ⟨hi, ho⟩ := hvl next hvs
          obtain ⟨hx, hk⟩ := visit_requests_names hvs hn
          obtain ⟨ht, hrs⟩ := ih hx fun name hna => (hk name hna).elim (hs name) id
          have hfl : ∀ request ∈ resolved, (item_type :: types).foldlM (advance dcli request.2) (batch.progress request.1) =
              types.foldlM (advance dcli request.2) (next.progress request.1) := by
            intro request hm
            rw [List.foldlM_cons, hi request hm]
            rfl
          constructor
          · refine ht.trans ⟨fun h request hm => ?_, fun h request hm => ?_⟩
            · rw [hfl request hm]
              exact h request hm
            · rw [← hfl request hm]
              exact h request hm
          · intro af haf
            obtain ⟨hi', ho'⟩ := hrs af haf
            refine ⟨fun request hm => ?_, fun name hna => ?_⟩
            · rw [hfl request hm]
              exact hi' request hm
            · rw [ho' name hna, ho name hna]

/-! ## The batch -/

/-- The end of a batch refuses what the end of a single read refuses. -/
theorem refuse_lacking_ok (request : String × NativeAddress)
    (hf : ∀ l, batch.progress request.1 = .Searching l → l → request.2.field.isSome) :
    (refuse_lacking batch request = .ok () ↔ ∃ found, conclude request.2 (batch.progress request.1) = .ok found) ∧
      (refuse_lacking batch request = .ok () →
        conclude request.2 (batch.progress request.1) = .ok (batch.found.lookup request.1)) := by
  obtain ⟨n, coords⟩ := request
  cases hn : batch.found.lookup n with
  | some value =>
    have hr : refuse_lacking batch (n, coords) = .ok () := if_neg (by simp [hn])
    have hp : batch.progress n = .Found value := by rw [Batch.progress, hn]
    rw [hr, hp]
    exact ⟨iff_of_true rfl ⟨_, rfl⟩, fun _ => rfl⟩
  | none =>
    have hp : batch.progress n = .Searching (decide (n ∈ batch.lacked_field)) := by rw [Batch.progress, hn]
    rw [hp]
    by_cases hl : n ∈ batch.lacked_field
    · obtain ⟨field, hs⟩ := Option.isSome_iff_exists.mp (hf _ hp (decide_eq_true hl))
      have hr : refuse_lacking batch (n, coords) = .error (missing_field coords.item (coords.field.getD "")) :=
        if_pos ⟨by simp [hn], hl⟩
      have hm : coords.field = some field := hs
      have hc : conclude coords (.Searching true) = .error (missing_field coords.item field) := by simp only [conclude, hm]
      rw [hr, decide_eq_true hl, hc]
      exact ⟨iff_of_false nofun fun h => (nomatch h.choose_spec), nofun⟩
    · have hr : refuse_lacking batch (n, coords) = .ok () := if_neg fun h => hl h.2
      rw [hr, decide_eq_false hl]
      exact ⟨iff_of_true rfl ⟨none, rfl⟩, fun _ => rfl⟩

/-- A request searched on past a missing field names one. -/
theorem foldlM_field {p : Progress} {l : Bool}
    (hb : p = .Searching true → coords.field.isSome)
    (h : types.foldlM (advance dcli coords) p = .ok (.Searching l)) : l → coords.field.isSome := by
  induction types generalizing p with
  | nil =>
    rintro rfl
    exact hb (Except.ok.inj h)
  | cons item_type types ih =>
    rw [List.foldlM_cons] at h
    obtain ⟨next, hn, h⟩ := bind_ok h
    refine ih (fun hs => ?_) h
    cases p with
    | Found value =>
      cases hn
      cases hs
    | Searching lc =>
      obtain ⟨items, -, hn⟩ := bind_ok hn
      obtain ⟨found, hl, hn⟩ := bind_ok hn
      cases found with
      | Value value =>
        cases hn
        cases hs
      | NoField => exact lookup_no_field hl
      | NoItem =>
        cases hn
        exact hb hs

/-- A batch read is what the single reads are. -/
theorem searches_agree (provider : DashlaneProvider) (dcli : Dcli) (requests : List (String × Address))
    (hdistinct : (requests.map Prod.fst).Nodup) :
    Agrees requests (provider.get dcli) (provider.get_many dcli requests) := by
  unfold DashlaneProvider.get DashlaneProvider.get_many
  cases hr : resolve_all provider.entries.resolve_coords requests with
  | error error => exact agrees_refused hr
  | ok resolved =>
    refine (agrees_resolved hr).mpr ?_
    rw [← resolve_all_names hr] at hdistinct
    have hd (coords : NativeAddress) : search dcli coords provider.types_to_search false =
        provider.types_to_search.foldlM (advance dcli coords) (.Searching false) >>= conclude coords := search_eq _ _
    obtain ⟨hs, hv⟩ := @visit_types_agree dcli provider.types_to_search ⟨[], []⟩ resolved hdistinct List.nodup_nil nofun
    show Agrees resolved _ (visit_types dcli resolved provider.types_to_search ⟨[], []⟩ >>= fun batch =>
      resolved.forM (refuse_lacking batch) >>= fun _ => .ok fun n => batch.found.lookup n)
    cases hb : visit_types dcli resolved provider.types_to_search ⟨[], []⟩ with
    | error error =>
      rw [hb] at hs
      refine ⟨iff_of_false (fun h => nomatch h.choose_spec) fun h => ?_, nofun⟩
      refine nomatch (hs.mpr fun request hm => ?_).choose_spec
      obtain ⟨found, hf⟩ := h request hm
      rw [hd] at hf
      obtain ⟨p, hp, -⟩ := bind_ok hf
      exact ⟨p, hp⟩
    | ok batch =>
      obtain ⟨hi, ho⟩ := hv batch hb
      have hn : ∀ request ∈ resolved,
          search dcli request.2 provider.types_to_search false = conclude request.2 (batch.progress request.1) := by
        intro request hm
        have hl : provider.types_to_search.foldlM (advance dcli request.2) (.Searching false) = .ok (batch.progress request.1) :=
          hi request hm
        rw [hd, hl]
        rfl
      have hrf : ∀ request ∈ resolved, _ := fun request hm => @refuse_lacking_ok batch request fun l hp =>
        @foldlM_field dcli request.2 provider.types_to_search (.Searching false) l nofun (hp ▸ hi request hm)
      show Agrees resolved _ (resolved.forM (refuse_lacking batch) >>= fun _ => .ok fun n => batch.found.lookup n)
      constructor
      · constructor
        · rintro ⟨v, hk⟩ request hm
          obtain ⟨ha, -⟩ := Except.bind_unit_ok hk
          rw [hn request hm]
          exact (hrf request hm).1.mp (forM_ok_iff.mp ha request hm)
        · intro h
          have ha : resolved.forM (refuse_lacking batch) = .ok ⟨⟩ := forM_ok_iff.mpr fun request hm =>
            (hrf request hm).1.mpr (hn request hm ▸ h request hm)
          rw [ha]
          exact ⟨_, rfl⟩
      · intro v hk
        obtain ⟨ha, hk⟩ := Except.bind_unit_ok hk
        cases hk
        refine ⟨fun request hm => ?_, fun n hnm => ?_⟩
        · rw [hn request hm]
          exact (hrf request hm).2 (forM_ok_iff.mp ha request hm)
        · have hp := ho n hnm
          cases hlk : batch.found.lookup n with
          | none => exact hlk
          | some value =>
            rw [Batch.progress, hlk] at hp
            cases hp

/-! ## A vault -/

/-- One secret, one login, and notes that cannot be listed. -/
def offline_notes : Dcli where
  to_lowercase text := String.ofList (text.toList.map Char.toLower)
  listing
    | .Secret => .Items [⟨"\x7b0A\x7d", some "Token", fun name => if name = "content" then some (.str "t0k") else none⟩]
    | .Password => .Items [⟨"\x7b0B\x7d", some "token", fun name => if name = "login" then some (.str "ada") else none⟩]
    | .Note => .Fails "network is unreachable"

/-- Both requests have their values before the notes are listed. -/
theorem searches_agree_offline :
    Agrees [("TOKEN", .Native ⟨"token", none, none, none, none⟩), ("USER", .Native ⟨"0b", some "login", none, none, none⟩)]
        ((⟨none⟩ : DashlaneProvider).get offline_notes)
        ((⟨none⟩ : DashlaneProvider).get_many offline_notes
          [("TOKEN", .Native ⟨"token", none, none, none, none⟩), ("USER", .Native ⟨"0b", some "login", none, none, none⟩)]) ∧
      (⟨none⟩ : DashlaneProvider).get offline_notes (.Native ⟨"0b", some "login", none, none, none⟩) = .ok (some (utf8 "ada")) :=
  ⟨searches_agree ⟨none⟩ offline_notes _ (by decide), by rfl⟩

end Monosecret.Providers.Dashlane
