/-
  Monosecret.Providers.BitwardenVault — sets and gets of fields in a Bitwarden vault.

  `field_round_trip`: of an item whose type's object is there, or that is not there yet, a get
  returns what was set; a get at another selector is left alone, unless it overhears the field
  written or is answered by a new item's own text; and a get with a selector returns what shows
  under it or nothing. `partial_names`: setting `api_key` answers for `key`.
-/

import Mathlib.Data.List.Find
import Monosecret.Lib.Lists
import Monosecret.Providers.BitwardenFields

namespace Monosecret.Providers.Bitwarden

open Lib Lib.Json
open Cache (SecretBytes utf8)

variable {to_lowercase : String → String}

/-! ## The vault -/

/-- A vault whose items can be read, each of its own identifier. -/
structure Vault where
  items : List Json
  listed : List BitwardenItem
  read : each BitwardenItem.of_json items = some listed
  distinct : (items.map id_of).Nodup

variable {cli : Cli} {provider : BitwardenProvider}
variable {item : BitwardenItem}

theorem id_of_reads {j : Json} (h : Reads j item) : id_of j = some item.id := h.id

variable {items : List Json} {listed : List BitwardenItem}

/-- A filter that keeps what is looked for loses nothing of it. -/
theorem each_filter (h : each BitwardenItem.of_json items = some listed) {p : Json → Bool} {q : BitwardenItem → Bool}
    (hc : ∀ j item, BitwardenItem.of_json j = some item → q item → p j) :
    ∃ n, each BitwardenItem.of_json (items.filter p) = some n ∧ n.filter q = listed.filter q := by
  replace h := each_iff.mp h
  induction h with
  | nil => exact ⟨[], rfl, rfl⟩
  | @cons j item items listed hr hs ih =>
    obtain ⟨n, hn, hf⟩ := ih
    by_cases hp : p j
    · refine ⟨item :: n, ?_, ?_⟩
      · rw [List.filter_cons_of_pos hp, each, hr, hn]
      · rw [List.filter_cons, List.filter_cons, hf]
    · refine ⟨n, by rw [List.filter_cons_of_neg hp, hn], ?_⟩
      rw [List.filter_cons_of_neg fun hq => hp (hc j item hr hq), hf]

variable {item_name : String}

/-- A narrowed search finds what the whole listing has. -/
theorem searched_eq (h : each BitwardenItem.of_json items = some listed) (hi : cli.parse_uuid item_name = none)
    (ha : is_ascii item_name) :
    provider.searched cli items item_name =
      (provider.resolved_item_type cli).bind fun require_type => cli.find_addressed_item listed item_name require_type := by
  obtain ⟨n, hn, hf⟩ := @each_filter items listed h (cli.search item_name)
    (fun item => cli.to_lowercase item.name == cli.to_lowercase item_name)
    fun j item hr hm => cli.search_covers item_name j item ha hr (beq_iff_eq.mp hm)
  have hfn (require_type : Option BitwardenItemType) :
      cli.find_addressed_item n item_name require_type = cli.find_addressed_item listed item_name require_type := by
    unfold Cli.find_addressed_item Cli.find_by_id Cli.candidates
    rw [hi, hf]
    rfl
  rw [BitwardenProvider.searched, list_items, hn]
  show (provider.resolved_item_type cli).bind (cli.find_addressed_item n item_name) = _
  congr 1
  exact funext hfn

/-- A get goes by the whole listing. -/
theorem get_eq (h : each BitwardenItem.of_json items = some listed) (item_name : String) (field_hint : Option String) :
    provider.get cli items item_name field_hint = provider.lookup_in cli listed item_name field_hint := by
  have hl : (list_items items).bind (fun listed => provider.lookup_in cli listed item_name field_hint) =
      provider.lookup_in cli listed item_name field_hint := by
    rw [list_items, h]
    rfl
  unfold BitwardenProvider.get
  split
  · next hn =>
    obtain ⟨hi, ha⟩ := Bool.and_eq_true_iff.mp hn
    rw [searched_eq h (by simpa using hi) ha, hl]
    cases ht : provider.resolved_item_type cli with
    | error error =>
      rw [BitwardenProvider.lookup_in, ht]
      rfl
    | ok r =>
      rw [Except.bind]
      cases hf : cli.find_addressed_item listed item_name r with
      | error error =>
        rw [BitwardenProvider.lookup_in, ht]
        show _ = (cli.find_addressed_item listed item_name r).bind _
        rw [hf]
        rfl
      | ok found =>
        cases found with
        | none => rfl
        | some item =>
          rw [BitwardenProvider.lookup_in, ht]
          show _ = (cli.find_addressed_item listed item_name r).bind _
          rw [hf]
          rfl
  · exact hl

/-! ## Finding an item again -/

theorem find_mem {require_type : Option BitwardenItemType}
    (h : cli.find_addressed_item listed item_name require_type = .ok (some item)) : item ∈ listed := by
  unfold Cli.find_addressed_item at h
  split at h
  · next found hf =>
    cases h
    obtain ⟨id, -, hd⟩ := Option.bind_eq_some_iff.mp hf
    exact List.mem_of_find?_eq_some hd
  · split at h
    · cases h
    · next only hc =>
      cases h
      have hm : item ∈ cli.candidates listed item_name require_type := by rw [hc]; exact .head _
      exact (List.mem_filter.mp (List.mem_filter.mp hm).1).1
    · cases h

/-- Changes that leave identifiers, names and types alone do not change what is found where. -/
theorem find_map {change : BitwardenItem → BitwardenItem}
    (h : ∀ item ∈ listed, (change item).id = item.id ∧ (change item).name = item.name ∧ (change item).item_type = item.item_type)
    (item_name : String) (r : Option BitwardenItemType) :
    cli.find_addressed_item (listed.map change) item_name r =
      (cli.find_addressed_item listed item_name r).map (Option.map change) := by
  have hi : cli.find_by_id (listed.map change) item_name = (cli.find_by_id listed item_name).map change := by
    unfold Cli.find_by_id
    cases cli.parse_uuid item_name with
    | none => rfl
    | some id =>
      rw [Option.bind_some, Option.bind_some, List.find?_map]
      congr 1
      exact List.find?_congr fun item hm => by rw [Function.comp_apply, (h item hm).1]
  have hc : cli.candidates (listed.map change) item_name r =
      (cli.candidates listed item_name r).map change := by
    unfold Cli.candidates
    rw [List.filter_filter, List.filter_filter, List.filter_map]
    congr 1
    refine List.filter_congr fun item hm => ?_
    obtain ⟨-, hn, ht⟩ := h item hm
    unfold Cli.of_type
    rw [Function.comp_apply, hn, ht]
  unfold Cli.find_addressed_item
  rw [hi]
  cases cli.find_by_id listed item_name with
  | some item => rfl
  | none =>
    rw [hc]
    have hs : ∀ item ∈ cli.candidates listed item_name r, item ∈ listed := fun item hm =>
      (List.mem_filter.mp (List.mem_filter.mp hm).1).1
    rcases hl : cli.candidates listed item_name r with _ | ⟨first, _ | ⟨s, rs⟩⟩
    · rfl
    · rfl
    · rw [hl] at hs
      show Except.error (Cli.ambiguous item_name ((first :: s :: rs).map change)) = Except.error (Cli.ambiguous item_name _)
      have hnm : ((first :: s :: rs).map change).map (fun item => "  " ++ item.id ++ " (" ++ Cli.type_name item.item_type ++ ")") =
          (first :: s :: rs).map fun item => "  " ++ item.id ++ " (" ++ Cli.type_name item.item_type ++ ")" := by
        rw [List.map_map]
        refine List.map_congr_left fun item hm => ?_
        obtain ⟨hsm, -, ht⟩ := h item (hs item hm)
        rw [Function.comp_apply, hsm, ht]
      rw [Cli.ambiguous, hnm, List.length_map]
      rfl

/-- A new item is found by its name where none was. -/
theorem find_new {r : Option BitwardenItemType} (hi : cli.parse_uuid item_name = none)
    (h : cli.find_addressed_item listed item_name r = .ok none) (hn : item.name = item_name)
    (ht : Cli.of_type r item) :
    cli.find_addressed_item (listed ++ [item]) item_name r = .ok (some item) := by
  have hnn (items : List BitwardenItem) : cli.find_by_id items item_name = none := by rw [Cli.find_by_id, hi]; rfl
  unfold Cli.find_addressed_item at h ⊢
  rw [hnn] at h ⊢
  have hc : cli.candidates (listed ++ [item]) item_name r = cli.candidates listed item_name r ++ [item] := by
    unfold Cli.candidates
    rw [List.filter_append, List.filter_append]
    congr 1
    rw [List.filter_cons_of_pos (by rw [hn]; exact beq_self_eq_true _), List.filter_cons_of_pos ht]
    rfl
  rw [hc]
  dsimp only at h
  split at h
  · next hl => rw [hl]; rfl
  · cases h
  · cases h

/-! ## Writing an item -/

/-- The JSON of a listed item is the one of its identifier. -/
theorem Vault.fetched (v : Vault) (h : item ∈ v.listed) :
    ∃ json, get_item_as_template v.items item.id = .ok json ∧ Reads json item := by
  obtain ⟨json, hj, hr⟩ := each_mem v.read h
  have hd := item_of_json_iff.mp hr
  have hf := (find?_key v.distinct hj (some item.id)).mpr (id_of_reads hd)
  exact ⟨json, by rw [get_item_as_template, hf], hd⟩

/-- The listing after an edit. -/
theorem each_edit (h : each BitwardenItem.of_json items = some listed) {id : String} {j : Json}
    {a : BitwardenItem} (ha : Reads j a) :
    each BitwardenItem.of_json (update_item_with_json items id j) =
      some (listed.map fun item => if item.id = id then a else item) := by
  rw [each_iff] at h ⊢
  rw [update_item_with_json, List.forall₂_map_left_iff, List.forall₂_map_right_iff]
  refine h.imp fun first item hr => ?_
  have hi := id_of_reads (item_of_json_iff.mp hr)
  by_cases hs : item.id = id
  · rw [if_pos (by rw [hi, hs]), if_pos hs]
    exact item_of_json_iff.mpr ha
  · rw [if_neg (by rw [hi]; exact fun he => hs (Option.some.inj he)), if_neg hs]
    exact hr

theorem each_append (h : each BitwardenItem.of_json items = some listed) {j : Json} (hi : Reads j item) :
    each BitwardenItem.of_json (items ++ [j]) = some (listed ++ [item]) := by
  rw [each_iff] at h ⊢
  exact List.rel_append h (.cons (item_of_json_iff.mpr hi) .nil)

section

variable (cli provider)

/-- The item a reference addresses. -/
def Addressed (items : List Json) (item_name : String) (item : BitwardenItem) : Prop :=
  ∃ listed require_type, each BitwardenItem.of_json items = some listed ∧ provider.resolved_item_type cli = .ok require_type ∧
    cli.find_addressed_item listed item_name require_type = .ok (some item)

/-- A reference that addresses no item. -/
def Unaddressed (items : List Json) (item_name : String) : Prop :=
  ∃ listed require_type, each BitwardenItem.of_json items = some listed ∧ provider.resolved_item_type cli = .ok require_type ∧
    cli.find_addressed_item listed item_name require_type = .ok none

/-- The field a write goes to. -/
def written_field (item_type : BitwardenItemType) (field : Option String) : String :=
  (provider.resolved_field field).getD item_type.default_field

end

theorem get_addressed (h : Addressed cli provider items item_name item) (f : Option String) :
    provider.get cli items item_name f = .ok (provider.extract_value_from_item cli item f) := by
  obtain ⟨listed, r, hr, ht, hf⟩ := h
  rw [get_eq hr, BitwardenProvider.lookup_in, ht]
  show (cli.find_addressed_item listed item_name r).bind _ = _
  rw [hf]
  rfl

theorem get_unaddressed (h : Unaddressed cli provider items item_name) (f : Option String) :
    provider.get cli items item_name f = .ok none := by
  obtain ⟨listed, r, hr, ht, hf⟩ := h
  rw [get_eq hr, BitwardenProvider.lookup_in, ht]
  show (cli.find_addressed_item listed item_name r).bind _ = _
  rw [hf]
  rfl

/-- A successful set writes the field of the item addressed, or of a blank one where there was none. -/
theorem set_writes {v : Vault} {f : Option String} {value : SecretBytes} {a : List Json}
    (hs : provider.set cli v.items item_name f value = .ok a) :
    ∃ t item w, value = utf8 t ∧ Addressed cli provider a item_name w ∧ w.item_type = item.item_type ∧
      Written cli.to_lowercase item (written_field provider item.item_type f) t w ∧
      (Addressed cli provider v.items item_name item ∨
        Unaddressed cli provider v.items item_name ∧ ∃ id, item = blank_item item.item_type id item_name) := by
  obtain ⟨listed, hl, hs⟩ := Except.bind_ok hs
  rw [list_items, v.read] at hl
  cases hl
  obtain ⟨r, ht, hs⟩ := Except.bind_ok hs
  obtain ⟨found, hf, hs⟩ := Except.bind_ok hs
  cases found with
  | some item =>
    obtain ⟨t, hx, hs⟩ := Except.bind_ok hs
    have hm := find_mem hf
    obtain ⟨j, hft, hr⟩ := v.fetched hm
    obtain ⟨fetched, hc, hs⟩ := Except.bind_ok hs
    rw [hft] at hc
    cases hc
    obtain ⟨u, hu, hs⟩ := Except.bind_ok hs
    cases hs
    obtain ⟨entries, rfl⟩ : ∃ entries, j = .obj entries := by
      cases j with
      | obj entries => exact ⟨entries, rfl⟩
      | _ => cases hr.id
    obtain ⟨w, ha, hi, hn, hsm, hw⟩ := update_item_updates hr hu
    have hd : ∀ other ∈ v.listed, other.id = item.id → other = item := by
      intro other ho he
      obtain ⟨found, hfn, ho⟩ := v.fetched ho
      rw [he, hft] at hfn
      cases hfn
      have := (item_of_json_iff.mpr ho).symm.trans (item_of_json_iff.mpr hr)
      exact Option.some.inj this
    refine ⟨t, item, w, require_utf8_ok hx, ⟨_, r, each_edit v.read ha, ht, ?_⟩, hsm, hw,
      .inl ⟨v.listed, r, v.read, ht, hf⟩⟩
    rw [find_map, hf]
    · show Except.ok (some (if item.id = item.id then w else item)) = _
      rw [if_pos rfl]
    · intro other ho
      by_cases he : other.id = item.id
      · rw [if_pos he, hd other ho he]
        exact ⟨hi, hn, hsm⟩
      · rw [if_neg he]
        exact ⟨rfl, rfl, rfl⟩
  | none =>
    obtain ⟨hk, hs⟩ := Except.bind_unit_ok hs
    obtain ⟨t, hx, hs⟩ := Except.bind_ok hs
    obtain ⟨ag, hg, hs⟩ := Except.bind_ok hs
    rw [ht] at hg
    cases hg
    cases hs
    have hi : cli.parse_uuid item_name = none := by
      unfold BitwardenProvider.refuse_unknown_id at hk
      cases hp : cli.parse_uuid item_name with
      | none => rfl
      | some id =>
        rw [hp] at hk
        cases hk
    obtain ⟨w, ha, -, hn, hsm, hw⟩ := @creation_updates cli.to_lowercase (r.getD .Login)
      (cli.fresh_id v.items) item_name t (written_field provider (r.getD .Login) f) provider.placement
    refine ⟨t, _, w, require_utf8_ok hx, ⟨_, r, each_append v.read ha, ht, ?_⟩, hsm, hw,
      .inr ⟨⟨v.listed, r, v.read, ht, hf⟩, _, rfl⟩⟩
    refine find_new hi hf hn ?_
    cases r with
    | none => rfl
    | some wn => exact decide_eq_true hsm

/-! ## The round trip -/

/-- What a get with an explicit selector may show: the built-in member or the body it names, or
    the custom field of the name, or for want of one the first whose name has it within. -/
inductive Shows (to_lowercase : String → String) (item : BitwardenItem) (selector value : String) : Prop
  | Member (member : String) (members : Members) (builtin : builtin_member to_lowercase item.item_type selector = some member)
      (there : item.object = some members) (value : members member = some value)
  | Body (note : item.item_type = .SecureNote) (body : is_note_body_field selector = true) (notes : item.notes = some value)
  | Named (builtin : builtin_member to_lowercase item.item_type selector = none)
      (body : item.item_type = .SecureNote → is_note_body_field selector = false) (found : BitwardenField)
      (named : item.custom_fields.find? (has_name selector) = some found) (value : found.value = some value)
  | Within (builtin : builtin_member to_lowercase item.item_type selector = none)
      (body : item.item_type = .SecureNote → is_note_body_field selector = false)
      (unnamed : item.custom_fields.find? (has_name selector) = none) (found : BitwardenField)
      (within : item.custom_fields.find? (has_name_with to_lowercase selector) = some found) (value : found.value = some value)

theorem shows_custom {selector value : String} (hb : builtin_member to_lowercase item.item_type selector = none)
    (hd : item.item_type = .SecureNote → is_note_body_field selector = false)
    (h : extract_from_custom_fields to_lowercase item selector = some value) : Shows to_lowercase item selector value := by
  unfold extract_from_custom_fields at h
  cases hn : item.custom_fields.find? (has_name selector) with
  | some found =>
    rw [hn] at h
    exact .Named hb hd found hn h
  | none =>
    rw [hn] at h
    cases hw : item.custom_fields.find? (has_name_with to_lowercase selector) with
    | some found =>
      rw [hw] at h
      exact .Within hb hd hn found hw h
    | none =>
      rw [hw] at h
      cases h

theorem extract_shows (hw : Whole item) {selector value : String}
    (h : extract_from_item to_lowercase item (some selector) = some value) : Shows to_lowercase item selector value := by
  by_cases hn : item.item_type = .SecureNote
  · rw [extract_from_item_note hn, extract_from_secure_note_item] at h
    split at h
    · next hb => exact .Body hn hb h
    · next hb => exact shows_custom (by rw [hn]; rfl) (fun _ => by simpa using hb) h
  · obtain ⟨m, ht⟩ := Option.isSome_iff_exists.mp (hw hn)
    rw [extract_from_item_object hn, ht] at h
    dsimp only at h
    cases hl : builtin_member to_lowercase item.item_type selector with
    | some mm =>
      rw [hl] at h
      exact .Member mm m hl ht h
    | none =>
      rw [hl] at h
      exact shows_custom hl (fun hy => absurd hy hn) h

/-- What a get at another selector answers after a write. -/
inductive Frame (cli : Cli) (provider : BitwardenProvider) (before after : List Json) (item_name : String) (item : BitwardenItem)
    (field value other : String) : Prop
  | Kept (same : provider.get cli after item_name (some other) = provider.get cli before item_name (some other))
  | Overheard (overheard : Overheard cli.to_lowercase item field value other)
      (written : provider.get cli after item_name (some other) = .ok (some (utf8 value)))
  | Filled (text : String) (created : Unaddressed cli provider before item_name)
      (filled : Filled cli.to_lowercase item.item_type item_name other text)
      (own : provider.get cli after item_name (some other) = .ok (some (utf8 text)))

/-- A write and what is read of the item after it. -/
structure RoundTrip (cli : Cli) (provider : BitwardenProvider) (before after : List Json) (item_name : String) (field : Option String)
    (value : SecretBytes) : Prop where
  written : provider.get cli after item_name field = .ok (some value)
  others : ∃ item text, Addressed cli provider after item_name item ∧ value = utf8 text ∧
    ∀ other, Apart cli.to_lowercase item.item_type (written_field provider item.item_type field) other →
      Frame cli provider before after item_name item (written_field provider item.item_type field) text other

theorem default_lower (cli : Cli) (i : BitwardenItemType) : cli.to_lowercase i.default_field = i.default_field := by
  cases i <;> exact (cli.lowercase_ascii _ (by decide)).trans (by decide)

theorem resolved_some (provider : BitwardenProvider) (field : String) : provider.resolved_field (some field) = some field := by
  rw [BitwardenProvider.resolved_field, Option.some_or, Option.some_or]

/-- Of an item whose object is there, or that is not there yet: a get returns what was written;
    another selector's get is left alone, unless it overhears the field written or is answered by
    a new item's own text; and an explicit selector gets what shows under it or nothing. -/
theorem field_round_trip (cli : Cli) (provider : BitwardenProvider) (vault : Vault) (item_name : String)
    (hwhole : ∀ item, Addressed cli provider vault.items item_name item → Whole item) :
    (∀ field value after, provider.set cli vault.items item_name field value = .ok after →
      RoundTrip cli provider vault.items after item_name field value) ∧
    ∀ selector value, provider.get cli vault.items item_name (some selector) = .ok (some value) →
      ∃ item text, Addressed cli provider vault.items item_name item ∧ value = utf8 text ∧ Shows cli.to_lowercase item selector text := by
  constructor
  · intro field value after hs
    obtain ⟨text, item, w, rfl, ha, ht, hw, hb⟩ := set_writes hs
    have hi : Whole item := by
      rcases hb with hb | ⟨-, id, hl⟩
      · exact hwhole item hb
      · rw [hl]
        exact blank_whole item.item_type id item_name
    have hth := hw.whole ht hi
    constructor
    · rw [get_addressed ha, BitwardenProvider.extract_value_from_item]
      have hr : extract_from_item cli.to_lowercase w (provider.resolved_field field) = some text := by
        cases hf : provider.resolved_field field with
        | some n =>
          rw [written_field, hf] at hw
          exact hw.read_field ht hth
        | none =>
          rw [written_field, hf] at hw
          exact hw.read_default ht (default_lower cli) rfl
      rw [hr]
      rfl
    · refine ⟨w, text, ha, rfl, fun other hp => ?_⟩
      rw [ht] at hp ⊢
      have he (item : BitwardenItem) : provider.extract_value_from_item cli item (some other) =
          (extract_from_item cli.to_lowercase item (some other)).map utf8 := by
        rw [BitwardenProvider.extract_value_from_item, resolved_some]
      rcases hw.read_other ht hi hp with hm | ho
      · have hg : provider.get cli after item_name (some other) =
            .ok ((extract_from_item cli.to_lowercase item (some other)).map utf8) := by
          rw [get_addressed ha, he, hm]
        rcases hb with hb | ⟨hb, id, hl⟩
        · exact .Kept (by rw [hg, get_addressed hb, he])
        · rw [hl] at hg
          rcases blank_extract item.item_type id item_name other with hn | ⟨o, hon, hd⟩
          · exact .Kept (by rw [hg, hn, get_unaddressed hb]; rfl)
          · exact .Filled o hb (ht ▸ hd) (by rw [hg, hon]; rfl)
      · refine .Overheard ho ?_
        rw [get_addressed ha, he, ho.extract hth]
        rfl
  · intro selector value hg
    rw [get_eq vault.read] at hg
    obtain ⟨r, ht, hg⟩ := Except.bind_ok hg
    obtain ⟨found, hfn, hg⟩ := Except.bind_ok hg
    cases found with
    | none => cases hg
    | some item =>
      have har : Addressed cli provider vault.items item_name item := ⟨vault.listed, r, vault.read, ht, hfn⟩
      obtain ⟨text, hx, hv⟩ := Option.map_eq_some_iff.mp (Except.ok.inj hg)
      rw [resolved_some] at hx
      exact ⟨item, text, har, hv.symm, extract_shows (hwhole item har) hx⟩

/-- A CLI that names items in turn, over lowercase of ASCII. -/
def ascii_cli : Cli where
  to_lowercase text := String.ofList (text.toList.map Char.toLower)
  parse_uuid _ := none
  search _ _ := true
  search_covers _ _ _ _ _ _ := rfl
  lowercase_ascii _ _ := rfl
  fresh_id items := s!"id-{items.length}"

def plain_provider : BitwardenProvider := ⟨none, none, none, none, ⟨none, none⟩⟩

def stripe_json : Json :=
  .obj [("id", .str "id-0"), ("name", .str "Stripe"), ("type", .int 1), ("login", .obj [("password", .str "pw")])]

def stripe_item : BitwardenItem where
  id := "id-0"
  name := "Stripe"
  item_type := .Login
  fields := none
  notes := none
  login := some fun key => if key ∈ BitwardenItemType.Login.members then
    (optional_str ([("password", .str "pw")].lookup key)).join else none
  card := none
  identity := none
  ssh_key := none

def stripe_vault : Vault where
  items := [stripe_json]
  listed := [stripe_item]
  read := rfl
  distinct := by decide

/-- The vault after an API key is set. -/
def stripe_after : List Json :=
  [.obj [("id", .str "id-0"), ("name", .str "Stripe"), ("type", .int 1), ("login", .obj [("password", .str "pw")]),
    ("fields", .arr [.obj [("name", .str "api_key"), ("value", .str "k-1"), ("type", .int 1)]])]]

theorem field_round_trip_stripe :
    (∀ field value after, plain_provider.set ascii_cli stripe_vault.items "Stripe" field value = .ok after →
      RoundTrip ascii_cli plain_provider stripe_vault.items after "Stripe" field value) ∧
    ∀ selector value, plain_provider.get ascii_cli stripe_vault.items "Stripe" (some selector) = .ok (some value) →
      ∃ item text, Addressed ascii_cli plain_provider stripe_vault.items "Stripe" item ∧ value = utf8 text ∧
        Shows ascii_cli.to_lowercase item selector text := by
  refine field_round_trip ascii_cli plain_provider stripe_vault "Stripe" fun item h => ?_
  obtain ⟨listed, _, hr, _, hf⟩ := h
  cases hr
  obtain rfl := List.mem_singleton.mp (find_mem hf)
  exact fun _ => rfl

/-- Setting one field answers for another whose name is within its name. -/
theorem partial_names :
    plain_provider.get ascii_cli stripe_vault.items "Stripe" (some "key") = .ok none ∧
      plain_provider.set ascii_cli stripe_vault.items "Stripe" (some "api_key") (utf8 "k-1") = .ok stripe_after ∧
      Apart ascii_cli.to_lowercase .Login "api_key" "key" ∧
      plain_provider.get ascii_cli stripe_after "Stripe" (some "key") = .ok (some (utf8 "k-1")) := by
  refine ⟨rfl, ?_, ⟨by decide, fun m h => ?_⟩, rfl⟩
  · rfl
  · cases h

end Monosecret.Providers.Bitwarden
