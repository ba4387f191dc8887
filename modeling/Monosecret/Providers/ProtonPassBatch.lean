/-
  Monosecret.Providers.ProtonPassBatch — batches of Proton Pass items against their single reads
  (`ProtonPassProvider::get` and `get_many` in `monosecret/src/provider/protonpass.rs`).

  A single read views one item by its title and tells a missing one from any other failure. A
  batch lists the vault and views each listed item by its identifiers, in a thread of its own,
  which has no place for an error: what fails is left out.

  `faithful_iff`: exactly when a batch is what its single reads are. `silent_outage`: an item
  that cannot be viewed is reported as a missing secret.
-/

import Monosecret.Providers.GetEach
import Monosecret.Providers.ProtonPass

namespace Monosecret.Providers.ProtonPass

open Lib Manifest ProtonPassConfig
open Cache (SecretBytes utf8)
open Keyring (from_utf8 from_utf8_iff)

/-! ## Output -/

/-- What one `item view` exits with. -/
inductive Output
  | Fails (stderr : String)
  | Prints (stdout : List UInt8)
  deriving DecidableEq

/-- How many bytes a character with this first byte has. -/
def width (lead : UInt8) : Nat :=
  if lead < 0x80 then 1
  else if 0xC2 ≤ lead ∧ lead ≤ 0xDF then 2
  else if 0xE0 ≤ lead ∧ lead ≤ 0xEF then 3
  else if 0xF0 ≤ lead ∧ lead ≤ 0xF4 then 4
  else 0

/-- Whether the second byte goes with the first. -/
def goes_with (lead second : UInt8) : Bool :=
  let low : UInt8 := if lead = 0xE0 then 0xA0 else if lead = 0xF0 then 0x90 else 0x80
  let high : UInt8 := if lead = 0xED then 0x9F else if lead = 0xF4 then 0x8F else 0xBF
  low ≤ second && second ≤ high

/-- How many bytes begin the character that the first one leads. -/
def begun (lead : UInt8) : List UInt8 → Nat
  | [] => 1
  | second :: rest =>
    if width lead < 2 ∨ !(goes_with lead second) then 1
    else 2 + ((rest.take (width lead - 2)).takeWhile fun byte => 0x80 ≤ byte && byte ≤ 0xBF).length

/-- One replacement character for each beginning that does not go on. -/
def lossy_chars : Nat → List UInt8 → List Char
  | 0, _ => []
  | _, [] => []
  | steps + 1, lead :: rest =>
    let character := (lead :: rest).take (begun lead rest)
    let chars := if width lead = begun lead rest then (from_utf8 character).map String.toList else none
    chars.getD ['\ufffd'] ++ lossy_chars steps ((lead :: rest).drop (begun lead rest))

/-- `String::from_utf8_lossy`. -/
def from_utf8_lossy (bytes : List UInt8) : String :=
  (from_utf8 bytes).getD (String.ofList (lossy_chars bytes.length bytes))

theorem from_utf8_lossy_utf8 (text : String) : from_utf8_lossy (utf8 text) = text := by
  rw [from_utf8_lossy, from_utf8_iff.mpr rfl]
  rfl

/-- What the calls of one read come to, the same for one item by its title and by its identifiers. -/
structure Session where
  vault : Vault
  list : Answer
  view : String × String → Option String → Output
  /-- The view of a title that no item has. -/
  absent : String → Option String → Output
  /-- The note of an item's JSON. -/
  parse_view : String → Option (Option String)

def run_view : Output → Except String String
  | .Fails stderr => .error (failure stderr)
  | .Prints stdout =>
    match from_utf8 stdout with
    | some text => .ok text
    | none => .error "Proton Pass CLI returned non-UTF-8 output"

def is_not_found (message : String) : Bool := contains message "No item found" || contains message "Field does not exist"

namespace Session

variable (session : Session)

/-- `item view --item-title`. -/
def view_title (title : String) (field : Option String) : Output :=
  match session.vault.view title with
  | some item => session.view item.identity field
  | none => session.absent title field

def get_field (title field : String) : Except String (Option SecretBytes) :=
  match run_view (session.view_title title (some field)) with
  | .ok output => .ok (parse_field_output output)
  | .error message => if is_not_found message then .ok none else .error message

def get_note (title : String) : Except String (Option SecretBytes) :=
  match run_view (session.view_title title none) with
  | .ok output =>
    match session.parse_view output with
    | some note => .ok (note.bind nonempty_text)
    | none => .error "Failed to parse Proton Pass CLI response"
  | .error message => if contains message "No item found" then .ok none else .error message

def read (coords : NativeAddress) : Except String (Option SecretBytes) :=
  match coords.field with
  | some field => session.get_field coords.item field
  | none => session.get_note coords.item

def get (config : ProtonPassConfig) (addr : Address) : Except String (Option SecretBytes) := do
  let coords ← config.provider.resolve_coords addr
  session.read coords

/-- A listing that does not parse is an empty one. -/
def listed : List Item := if session.list = .Done then session.vault.items else []

def item_map : Map String (String × String) :=
  session.listed.foldl (fun map item =>
    match item.title with
    | some title => map.insert title item.identity
    | none => map) .empty

/-- The thread of one item. -/
def fetch (identity : String × String) (field : Option String) : Option SecretBytes :=
  match session.view identity field with
  | .Prints stdout =>
    match field with
    | some _ => parse_field_output (from_utf8_lossy stdout)
    | none => (session.parse_view (from_utf8_lossy stdout)).join.bind nonempty_text
  | .Fails _ => none

def keys_to_fetch (resolved : List (String × NativeAddress)) : List (String × (String × String) × Option String) :=
  resolved.filterMap fun request =>
    (session.item_map request.2.item).map fun identity => (request.1, identity, request.2.field)

def get_many (config : ProtonPassConfig) (requests : List (String × Address)) : Except String (Map String SecretBytes) :=
  if requests = [] then .ok .empty
  else do
    let resolved ← resolve_all config.provider.resolve_coords requests
    run_pass_cli session.list
    return insert_each ((session.keys_to_fetch resolved).map fun key => (key.1, session.fetch key.2.1 key.2.2)) .empty

end Session

/-! ## What a batch has to be -/

/-- The listing, where one is made, goes through and parses. -/
def Session.Lists (session : Session) (requests : List (String × Address)) : Prop := requests ≠ [] → session.list = .Done

structure Faithful (config : ProtonPassConfig) (session : Session) (requests : List (String × Address)) : Prop where
  succeeds : (∃ values, session.get_many config requests = .ok values) ↔
    session.Lists requests ∧ ∀ request ∈ requests, ∃ found, session.get config request.2 = .ok found
  values : ∀ values, session.get_many config requests = .ok values →
    (∀ request ∈ requests, session.get config request.2 = .ok (values request.1)) ∧
      ∀ name, name ∉ requests.map Prod.fst → values name = none

/-- A failure says that there is nothing to read. -/
def reports_absent (field : Option String) (stderr : String) : Bool :=
  contains (failure stderr) "No item found" || (field.isSome && contains (failure stderr) "Field does not exist")

/-- The value in the output of a view. -/
def Session.shown (session : Session) (field : Option String) (text : String) : Option SecretBytes :=
  match field with
  | some _ => parse_field_output text
  | none => (session.parse_view text).join.bind nonempty_text

/-- A view that fails says that there is nothing to read; one that goes through prints text that
    parses, and a value only for a listed item. -/
inductive Clear (session : Session) (coords : NativeAddress) : Prop
  | Absent (stderr : String) (output : session.view_title coords.item coords.field = .Fails stderr)
      (reported : reports_absent coords.field stderr = true)
  | Read (text : String) (output : session.view_title coords.item coords.field = .Prints (utf8 text))
      (parses : coords.field = none → (session.parse_view text).isSome = true)
      (listed : session.vault.view coords.item = none → session.shown coords.field text = none)

/-! ## Views -/

section

variable {session : Session} {config : ProtonPassConfig} {coords : NativeAddress} {requests : List (String × Address)}

theorem item_map_apply (hl : session.list = .Done) (ht : session.vault.DistinctTitles) (t : String) :
    session.item_map t = (session.vault.view t).map Item.identity := by
  have hf (i : List Item) (map : Map String (String × String))
      (hd : i.Pairwise fun a b => ∀ t, a.title = some t → b.title ≠ some t) :
      i.foldl (fun map it => match it.title with
        | some t => map.insert t it.identity
        | none => map) map t = ((i.find? (titled t)).map Item.identity).or (map t) := by
    induction i generalizing map with
    | nil => rfl
    | cons first i ih =>
      obtain ⟨hr, hd⟩ := List.pairwise_cons.mp hd
      rw [List.foldl_cons, ih _ hd]
      by_cases htt : first.title = some t
      · have hn : i.find? (titled t) = none := List.find?_eq_none.mpr fun it hi hti =>
          hr it hi t htt (by simpa [titled] using hti)
        rw [hn, List.find?_cons_of_pos (by simp [titled, htt])]
        simp [htt]
      · rw [List.find?_cons_of_neg (by simp [titled, htt])]
        cases ho : first.title with
        | none => rfl
        | some other =>
          have hne : t ≠ other := fun h => htt (h ▸ ho)
          simp only [Map.insert_of_ne hne]
  unfold Session.item_map Session.listed Vault.view
  rw [if_pos hl, hf _ _ ht]
  simp

/-- What a batch has for a request. -/
def Session.fetched (session : Session) (coords : NativeAddress) : Option SecretBytes :=
  (session.vault.view coords.item).bind fun item => session.fetch item.identity coords.field

theorem not_text_found : is_not_found "Proton Pass CLI returned non-UTF-8 output" = false := by decide

theorem not_text_note : contains "Proton Pass CLI returned non-UTF-8 output" "No item found" = false := by decide

/-- A single read goes by the output of its view. -/
theorem read_eq (session : Session) (coords : NativeAddress) : session.read coords =
    match session.view_title coords.item coords.field with
    | .Fails st => if reports_absent coords.field st then .ok none else .error (failure st)
    | .Prints s =>
      match from_utf8 s with
      | none => .error "Proton Pass CLI returned non-UTF-8 output"
      | some t =>
        if coords.field = none ∧ session.parse_view t = none then .error "Failed to parse Proton Pass CLI response"
        else .ok (session.shown coords.field t) := by
  unfold Session.read
  cases hf : coords.field with
  | some f =>
    simp only [Session.get_field]
    cases session.view_title coords.item (some f) with
    | Fails st => simp [run_view, is_not_found, reports_absent]
    | Prints s => cases hutf8 : from_utf8 s <;> simp [run_view, hutf8, Session.shown, not_text_found]
  | none =>
    simp only [Session.get_note]
    cases session.view_title coords.item none with
    | Fails st => simp [run_view, reports_absent]
    | Prints s =>
      cases hutf8 : from_utf8 s with
      | none => simp [run_view, hutf8, not_text_note]
      | some t => cases hp : session.parse_view t <;> simp [run_view, hutf8, Session.shown, hp]

theorem fetched_listed {i : Item} (hv : session.vault.view coords.item = some i) (text : String) :
    session.view_title coords.item coords.field = .Prints (utf8 text) → session.fetched coords = session.shown coords.field text := by
  intro ho
  unfold Session.view_title at ho
  simp only [hv] at ho
  rw [Session.fetched, hv, Option.bind_some, Session.fetch, ho]
  cases coords.field <;> simp [Session.shown, from_utf8_lossy_utf8]

theorem fetched_fails {s : String} (ho : session.view_title coords.item coords.field = .Fails s) :
    session.fetched coords = none := by
  unfold Session.view_title at ho
  unfold Session.fetched
  cases hv : session.vault.view coords.item with
  | none => rfl
  | some i =>
    simp only [hv] at ho
    rw [Option.bind_some, Session.fetch, ho]

/-- A request is read as the batch has it exactly when its view is clear. -/
theorem read_fetched_iff : session.read coords = .ok (session.fetched coords) ↔ Clear session coords := by
  rw [read_eq]
  constructor
  · intro h
    cases ho : session.view_title coords.item coords.field with
    | Fails s =>
      simp only [ho] at h
      by_cases hr : reports_absent coords.field s
      · exact .Absent s ho hr
      · rw [if_neg hr] at h
        cases h
    | Prints st =>
      simp only [ho] at h
      cases ht : from_utf8 st with
      | none =>
        rw [ht] at h
        cases h
      | some t =>
        simp only [ht] at h
        rw [from_utf8_iff.mp ht] at ho
        split_ifs at h with hu
        refine .Read t ho (fun hf => ?_) fun hv => ?_
        · exact Option.isSome_iff_ne_none.mpr fun hn => hu ⟨hf, hn⟩
        · rw [Except.ok.injEq, Session.fetched, hv] at h
          exact h
  · rintro (⟨s, ho, hr⟩ | ⟨t, ho, hp, hl⟩)
    · simp only [ho, fetched_fails ho, if_pos hr]
    · have hu : ¬ (coords.field = none ∧ session.parse_view t = none) := fun h => by
        have hs := hp h.1
        rw [h.2] at hs
        cases hs
      simp only [ho, from_utf8_iff.mpr rfl, if_neg hu, Except.ok.injEq]
      cases hv : session.vault.view coords.item with
      | none => rw [hl hv, Session.fetched, hv, Option.bind_none]
      | some i => exact (fetched_listed hv t ho).symm

/-- Leaving a request out is inserting nothing for it. -/
theorem insert_keys (hl : session.list = .Done) (ht : session.vault.DistinctTitles) (r : List (String × NativeAddress))
    (results : Map String SecretBytes) :
    insert_each ((session.keys_to_fetch r).map fun k => (k.1, session.fetch k.2.1 k.2.2)) results =
      insert_each (r.map fun rq => (rq.1, session.fetched rq.2)) results := by
  induction r generalizing results with
  | nil => rfl
  | cons rq r ih =>
    unfold Session.keys_to_fetch at ih ⊢
    rw [List.map_cons, List.filterMap_cons, item_map_apply hl ht, Session.fetched]
    cases session.vault.view rq.2.item with
    | none => exact ih results
    | some i => exact ih _

/-- A batch has what was fetched for each request. -/
theorem insert_fetched (hl : session.list = .Done) (ht : session.vault.DistinctTitles) {r : List (String × NativeAddress)}
    (hd : (r.map Prod.fst).Nodup) {rs : Map String SecretBytes}
    (hr : insert_each ((session.keys_to_fetch r).map fun k => (k.1, session.fetch k.2.1 k.2.2)) .empty = rs) :
    (∀ rq ∈ r, rs rq.1 = session.fetched rq.2) ∧
      ∀ n, n ∉ r.map Prod.fst → rs n = none := by
  have hn : (r.map fun rq => (rq.1, session.fetched rq.2)).map Prod.fst = r.map Prod.fst := by
    rw [List.map_map]
    rfl
  rw [insert_keys hl ht] at hr
  rw [← hr]
  constructor
  · intro rq hm
    rw [insert_each_in (hn ▸ hd) (List.mem_map_of_mem hm)]
    exact Option.or_none
  · intro n hna
    exact insert_each_out (hn ▸ hna) .empty

theorem get_many_eq (hn : requests ≠ []) {r : List (String × NativeAddress)}
    (hr : resolve_all config.provider.resolve_coords requests = .ok r) :
    session.get_many config requests = (run_pass_cli session.list).map fun _ =>
      insert_each ((session.keys_to_fetch r).map fun k => (k.1, session.fetch k.2.1 k.2.2)) .empty := by
  rw [Session.get_many, if_neg hn, hr]
  cases run_pass_cli session.list <;> rfl

theorem faithful_agrees (hl : session.Lists requests) :
    Faithful config session requests ↔ Agrees requests (session.get config) (session.get_many config requests) :=
  ⟨fun h => ⟨h.succeeds.trans (and_iff_right hl), h.values⟩, fun h => ⟨h.succeeds.trans (and_iff_right hl).symm, h.values⟩⟩

end

/-! ## Batches -/

/-- When a batch never turns a failure into an absence: an address or the listing is refused, or
    the listing parses, if there is one, and every view is clear. -/
theorem faithful_iff (config : ProtonPassConfig) (session : Session) (requests : List (String × Address))
    (hdistinct : (requests.map Prod.fst).Nodup) (htitles : session.vault.DistinctTitles) :
    Faithful config session requests ↔
      (∃ request ∈ requests, ∃ error, config.provider.resolve_coords request.2 = .error error) ∨
      (requests ≠ [] ∧ ∃ error, run_pass_cli session.list = .error error) ∨
      (session.Lists requests ∧
        ∀ request ∈ requests, ∀ coords, config.provider.resolve_coords request.2 = .ok coords → Clear session coords) := by
  by_cases hm : requests = []
  · subst hm
    exact iff_of_true ⟨iff_of_true ⟨_, rfl⟩ ⟨nofun, nofun⟩, fun v h => ⟨nofun, fun n _ => by cases h; rfl⟩⟩
      (.inr (.inr ⟨nofun, nofun⟩))
  cases hr : resolve_all config.provider.resolve_coords requests with
  | error error =>
    have hb : session.get_many config requests = .error error := by
      rw [Session.get_many, if_neg hm, hr]
      rfl
    obtain ⟨request, hmm, rf, hf⟩ := resolve_all_error hr
    refine iff_of_true ⟨iff_of_false (fun h => ?_) fun h => ?_, fun v h => ?_⟩ (.inl ⟨request, hmm, rf, hf⟩)
    · rw [hb] at h
      exact nomatch h.choose_spec
    · obtain ⟨found, hn⟩ := h.2 request hmm
      rw [Session.get, hf] at hn
      cases hn
    · rw [hb] at h
      cases h
  | ok r =>
    have hnn : ¬ ∃ request ∈ requests, ∃ error, config.provider.resolve_coords request.2 = .error error := by
      rintro ⟨request, hmm, error, he⟩
      obtain ⟨coords, hc, -⟩ := mem_resolved hr hmm
      rw [he] at hc
      cases hc
    have hmn := @get_many_eq session config requests hm r hr
    rw [or_iff_right hnn]
    cases hrn : run_pass_cli session.list with
    | error error =>
      rw [hrn] at hmn
      refine iff_of_true ⟨iff_of_false (fun h => ?_) fun h => ?_, fun v h => ?_⟩ (.inl ⟨hm, error, rfl⟩)
      · rw [hmn] at h
        exact nomatch h.choose_spec
      · rw [h.1 hm] at hrn
        cases hrn
      · rw [hmn] at h
        cases h
    | ok done =>
      rw [hrn] at hmn
      have hl : ¬ (requests ≠ [] ∧ ∃ error, (.ok done : Except String Unit) = .error error) := fun h => nomatch h.2.choose_spec
      rw [or_iff_right hl]
      by_cases ht : session.list = .Done
      · rw [faithful_agrees fun _ => ht, hmn, Except.map]
        refine Iff.trans (agrees_resolved hr) (agrees_ok.trans ?_)
        rw [← resolve_all_names hr] at hdistinct
        obtain ⟨hi, ho⟩ := insert_fetched ht htitles hdistinct rfl
        constructor
        · rintro ⟨hd, -⟩
          refine ⟨fun _ => ht, fun request hmm coords hc => ?_⟩
          obtain ⟨found, hn, hmm⟩ := mem_resolved hr hmm
          rw [hc] at hn
          cases hn
          have hon := hd _ hmm
          rw [hi _ hmm] at hon
          exact read_fetched_iff.mp hon
        · rintro ⟨-, hcl⟩
          refine ⟨fun l hmm => ?_, ho⟩
          obtain ⟨request, hq, -, hn⟩ := resolved_mem hr hmm
          rw [hi _ hmm]
          exact read_fetched_iff.mpr (hcl request hq _ hn)
      · refine iff_of_false (fun h => ht ?_) fun h => ht (h.1 hm)
        exact (h.succeeds.mp ⟨_, hmn⟩).1 hm

/-! ## A vault -/

/-- One item, whose view is given. -/
def viewed (output : Output) : Session where
  vault := old_token
  list := .Done
  view _ _ := output
  absent _ _ := .Fails "No item found with title"
  parse_view text := if text = "\x7b\"item\":\x7b\"content\":\x7b\"note\":\"old\"\x7d\x7d\x7d" then some (some "old") else none

def token_and_missing : List (String × Address) := [("TOKEN", token), ("OTHER", .Native ⟨"OTHER", none, none, none, none⟩)]

theorem faithful_iff_token :
    Faithful defaults (viewed (.Prints (utf8 "\x7b\"item\":\x7b\"content\":\x7b\"note\":\"old\"\x7d\x7d\x7d"))) token_and_missing := by
  refine (faithful_iff defaults (viewed (.Prints (utf8 _))) token_and_missing (by decide) (List.pairwise_singleton _ _)).mpr ?_
  refine .inr (.inr ⟨fun _ => rfl, fun r hm coords hc => ?_⟩)
  rcases List.mem_cons.mp hm with rfl | hm
  · cases hc
    exact .Read _ rfl (fun _ => by rfl) nofun
  · rw [List.mem_singleton.mp hm] at hc
    cases hc
    exact .Absent "No item found with title" rfl (by decide)

/-- The item cannot be viewed, and the batch has no secret of that name. -/
theorem silent_outage :
    ¬ Faithful defaults (viewed (.Fails "network is unreachable")) [("TOKEN", token)] ∧
      (viewed (.Fails "network is unreachable")).get defaults token = .error "network is unreachable" ∧
      ∃ values, (viewed (.Fails "network is unreachable")).get_many defaults [("TOKEN", token)] = .ok values ∧ values "TOKEN" = none := by
  have hg : (viewed (.Fails "network is unreachable")).get defaults token = .error "network is unreachable" := by rfl
  refine ⟨fun h => ?_, hg, _, rfl, rfl⟩
  obtain ⟨found, hf⟩ := (h.succeeds.mp ⟨_, rfl⟩).2 ("TOKEN", token) (.head _)
  rw [hg] at hf
  cases hf

end Monosecret.Providers.ProtonPass
