/-
  Monosecret.Providers.BitwardenFields — what a write of a field makes of a Bitwarden item.

  A write changes one member, the body or one custom field (`Written`). The field written is
  read back under its selector (`Written.read_field`) or without one (`Written.read_default`);
  another selector reads as before, unless no custom field has its full name and the field
  written is the first that has it within its own (`Written.read_other`). The update of an
  item's JSON is such a write (`update_item_updates`), and so is a template, of a blank item
  (`creation_updates`).
-/

import Monosecret.Providers.Bitwarden

namespace Monosecret.Providers.Bitwarden

open Lib Lib.Json
open Cache (SecretBytes utf8)
open Option (bind_eq_some_iff)

variable {to_lowercase : String → String}

/-! ## Members -/

/-- Every member a selector names is one its type's reader takes. -/
theorem builtin_member_mem {item_type : BitwardenItemType} {field m : String}
    (h : builtin_member to_lowercase item_type field = some m) : m ∈ item_type.members := by
  have hm : ∀ n : String, (login_member n = some m → m ∈ BitwardenItemType.Login.members) ∧
      (card_member n = some m → m ∈ BitwardenItemType.Card.members) ∧
      (identity_member n = some m → m ∈ BitwardenItemType.Identity.members) ∧
      (ssh_key_member n = some m → m ∈ BitwardenItemType.SshKey.members) := by
    intro n
    unfold login_member card_member identity_member ssh_key_member
    refine ⟨fun h => ?_, fun h => ?_, fun h => ?_, fun h => ?_⟩ <;> split at h <;> cases h <;> decide
  obtain ⟨hl, hc, hi, hs⟩ := hm (to_lowercase field)
  cases item_type with
  | Login => exact hl h
  | SecureNote => cases h
  | Card => exact hc h
  | Identity => exact hi h
  | SshKey => exact hs h

/-- The members an unqualified read prefers, the written one first. -/
def preferred : BitwardenItemType → List String
  | .Login => ["password", "username"]
  | .SecureNote => []
  | .Card => ["number"]
  | .Identity => ["email", "username"]
  | .SshKey => ["privateKey"]

variable {item : BitwardenItem}

/-- A read by what it goes by: the object of the type, the body and the custom fields. -/
theorem extract_from_item_object (h : item.item_type ≠ .SecureNote) (field : Option String) :
    extract_from_item to_lowercase item field =
      match item.object with
      | some mm =>
        match field with
        | some f =>
          match builtin_member to_lowercase item.item_type f with
          | some m => mm m
          | none => extract_from_custom_fields to_lowercase item f
        | none =>
          match (preferred item.item_type).findSome? fun m => mm m with
          | some value => some value
          | none => extract_from_custom_fields to_lowercase item "value"
      | none => extract_from_custom_fields to_lowercase item "value" := by
  unfold extract_from_item BitwardenItem.object
  cases htype : item.item_type with
  | Login => rfl
  | SecureNote => exact absurd htype h
  | Card | Identity | SshKey => rfl

theorem extract_from_item_note (h : item.item_type = .SecureNote) (field : Option String) :
    extract_from_item to_lowercase item field = extract_from_secure_note_item to_lowercase item field := by
  rw [extract_from_item, h]

/-! ## Custom fields -/

theorem eq_ignore_ascii_case_iff {a b : String} :
    eq_ignore_ascii_case a b ↔ a.toList.map Char.toLower = b.toList.map Char.toLower := beq_iff_eq

theorem eq_ignore_ascii_case_self (a : String) : eq_ignore_ascii_case a a := eq_ignore_ascii_case_iff.mpr rfl

theorem has_name_iff {field_name : String} {field : BitwardenField} :
    has_name field_name field ↔ ∃ name, field.name = some name ∧ eq_ignore_ascii_case name field_name := by
  unfold has_name
  cases field.name with
  | none => exact iff_of_false nofun nofun
  | some name => simp

/-- The fields after a write. -/
def put_field (to_lowercase : String → String) (field value : String) : List BitwardenField → List BitwardenField
  | [] => [⟨some field, some value, for_field_name to_lowercase field⟩]
  | first :: rest => if has_name field first then { first with value := some value } :: rest else first :: put_field to_lowercase field value rest

/-- The field written is found under its name. -/
theorem find_put_self (field value : String) (f : List BitwardenField) :
    ∃ found, (put_field to_lowercase field value f).find? (has_name field) = some found ∧ found.value = some value := by
  induction f with
  | nil => exact ⟨_, List.find?_cons_of_pos (eq_ignore_ascii_case_self field), rfl⟩
  | cons first r ih =>
    unfold put_field
    split
    · next hn => exact ⟨_, List.find?_cons_of_pos hn, rfl⟩
    · next hn =>
      obtain ⟨found, hf, hv⟩ := ih
      exact ⟨found, by rw [List.find?_cons_of_neg hn, hf], hv⟩

/-- Another name is found as before. -/
theorem find_put_other {field other : String} (h : eq_ignore_ascii_case other field = false) (value : String) (f : List BitwardenField) :
    (put_field to_lowercase field value f).find? (has_name other) = f.find? (has_name other) := by
  have ha : ∀ found : BitwardenField, has_name field found → has_name other found = false := by
    intro found hf
    obtain ⟨n, hn, he⟩ := has_name_iff.mp hf
    rw [has_name, hn]
    refine Bool.eq_false_iff.mpr fun hs => Bool.eq_false_iff.mp h ?_
    exact eq_ignore_ascii_case_iff.mpr ((eq_ignore_ascii_case_iff.mp hs).symm.trans (eq_ignore_ascii_case_iff.mp he))
  induction f with
  | nil =>
    have := ha ⟨some field, some value, for_field_name to_lowercase field⟩ (eq_ignore_ascii_case_self field)
    rw [put_field, List.find?_cons_of_neg (by rw [this]; nofun)]
  | cons first r ih =>
    unfold put_field
    split
    · next hn =>
      have haf := ha { first with value := some value } hn
      have hb := ha first hn
      rw [List.find?_cons_of_neg (by rw [haf]; nofun), List.find?_cons_of_neg (by rw [hb]; nofun)]
    · rw [List.find?_cons, List.find?_cons, ih]

/-- A part of a name finds what it found before, or the field written. -/
theorem find_put_within (field other value : String) (f : List BitwardenField) :
    (put_field to_lowercase field value f).find? (has_name_with to_lowercase other) =
        f.find? (has_name_with to_lowercase other) ∨
      ∃ found, (put_field to_lowercase field value f).find? (has_name_with to_lowercase other) = some found ∧
        has_name field found ∧ found.value = some value := by
  induction f with
  | nil =>
    rw [put_field, List.find?_cons]
    split
    · exact .inr ⟨_, rfl, eq_ignore_ascii_case_self field, rfl⟩
    · exact .inl rfl
  | cons first r ih =>
    unfold put_field
    split
    · next hn =>
      rw [List.find?_cons, List.find?_cons]
      have hs : has_name_with to_lowercase other { first with value := some value } = has_name_with to_lowercase other first := rfl
      rw [hs]
      cases has_name_with to_lowercase other first with
      | true => exact .inr ⟨_, rfl, hn, rfl⟩
      | false => exact .inl rfl
    · rw [List.find?_cons, List.find?_cons]
      cases has_name_with to_lowercase other first with
      | true => exact .inl rfl
      | false => exact ih

/-! ## Writes -/

/-- What a write of a field makes of an item. -/
inductive Written (to_lowercase : String → String) (item : BitwardenItem) (field value : String) (after : BitwardenItem) : Prop
  | Member (member : String) (members : Members) (builtin : builtin_member to_lowercase item.item_type field = some member)
      (there : item.object = some members) (object : after.object = some (members.insert member value))
      (fields : after.custom_fields = item.custom_fields)
  | Body (note : item.item_type = .SecureNote) (body : is_note_body_field field = true) (notes : after.notes = some value)
      (fields : after.custom_fields = item.custom_fields)
  | Custom (builtin : builtin_member to_lowercase item.item_type field = none)
      (body : item.item_type = .SecureNote → is_note_body_field field = false) (object : after.object = item.object)
      (notes : after.notes = item.notes) (fields : after.custom_fields = put_field to_lowercase field value item.custom_fields)

/-- The object of the type is there, where the type has one. -/
def Whole (item : BitwardenItem) : Prop := item.item_type ≠ .SecureNote → item.object.isSome = true

/-- A selector that names another field than the one written. -/
def Apart (to_lowercase : String → String) (item_type : BitwardenItemType) (field other : String) : Prop :=
  eq_ignore_ascii_case other field = false ∧
    ∀ member, builtin_member to_lowercase item_type field = some member → builtin_member to_lowercase item_type other ≠ some member

theorem extract_from_custom_fields_congr {after : BitwardenItem} (h : after.custom_fields = item.custom_fields)
    (field : String) :
    extract_from_custom_fields to_lowercase after field = extract_from_custom_fields to_lowercase item field := by
  rw [extract_from_custom_fields, extract_from_custom_fields, h]

theorem extract_put_self {after : BitwardenItem} {field value : String}
    (h : after.custom_fields = put_field to_lowercase field value item.custom_fields) :
    extract_from_custom_fields to_lowercase after field = some value := by
  obtain ⟨found, hf, hv⟩ := @find_put_self to_lowercase field value item.custom_fields
  rw [extract_from_custom_fields, h, hf]
  exact hv

/-- No custom field has the selector's full name, and the first whose name has it within is the
    one written. -/
structure Overheard (to_lowercase : String → String) (after : BitwardenItem) (field value other : String) : Prop where
  builtin : builtin_member to_lowercase after.item_type other = none
  body : after.item_type = .SecureNote → is_note_body_field other = false
  unnamed : after.custom_fields.find? (has_name other) = none
  within : ∃ found, after.custom_fields.find? (has_name_with to_lowercase other) = some found ∧ has_name field found = true ∧
    found.value = some value

theorem extract_put_other {after : BitwardenItem} {field value other : String}
    (ha : eq_ignore_ascii_case other field = false)
    (h : after.custom_fields = put_field to_lowercase field value item.custom_fields)
    (hb : builtin_member to_lowercase after.item_type other = none)
    (hd : after.item_type = .SecureNote → is_note_body_field other = false) :
    extract_from_custom_fields to_lowercase after other = extract_from_custom_fields to_lowercase item other ∨
      Overheard to_lowercase after field value other := by
  have hn : after.custom_fields.find? (has_name other) = item.custom_fields.find? (has_name other) := by
    rw [h]
    exact find_put_other ha value item.custom_fields
  cases hf : item.custom_fields.find? (has_name other) with
  | some found =>
    left
    rw [extract_from_custom_fields, extract_from_custom_fields, hn, hf]
  | none =>
    rcases @find_put_within to_lowercase field other value item.custom_fields with hs | hwritten
    · left
      rw [extract_from_custom_fields, extract_from_custom_fields, hn, hf, h, hs]
    · right
      exact ⟨hb, hd, hn.trans hf, h ▸ hwritten⟩

/-- The value of an overheard field is what its selector gets. -/
theorem Overheard.extract {after : BitwardenItem} {field value other : String} (h : Overheard to_lowercase after field value other)
    (hw : Whole after) : extract_from_item to_lowercase after (some other) = some value := by
  have hc : extract_from_custom_fields to_lowercase after other = some value := by
    obtain ⟨found, hf, -, hv⟩ := h.within
    rw [extract_from_custom_fields, h.unnamed, hf]
    exact hv
  by_cases hn : after.item_type = .SecureNote
  · rw [extract_from_item_note hn, extract_from_secure_note_item, h.body hn]
    exact hc
  · obtain ⟨m, hm⟩ := Option.isSome_iff_exists.mp (hw hn)
    rw [extract_from_item_object hn, hm]
    dsimp only
    rw [h.builtin]
    exact hc

section

variable {item after : BitwardenItem} {field value : String} (hwritten : Written to_lowercase item field value after)
  (htype : after.item_type = item.item_type)

include hwritten htype

theorem Written.whole (hw : Whole item) : Whole after := by
  intro hn
  cases hwritten with
  | Member mm m b t object f => rw [object]; rfl
  | Body nt bd n f => exact absurd (htype.trans nt) hn
  | Custom b bd object n f =>
    rw [object]
    exact hw (htype ▸ hn)

theorem Written.read_field (hw : Whole after) : extract_from_item to_lowercase after (some field) = some value := by
  by_cases hn : after.item_type = .SecureNote
  · rw [extract_from_item_note hn, extract_from_secure_note_item]
    cases hwritten with
    | Member mm m b t object f =>
      rw [← htype, hn] at b
      cases b
    | Body nt bd n f => rw [if_pos bd, n]
    | Custom b bd object n f =>
      rw [if_neg (by rw [bd (htype ▸ hn)]; nofun)]
      exact extract_put_self f
  · rw [extract_from_item_object hn, htype]
    cases hwritten with
    | Member mm m b t object f =>
      rw [object]
      dsimp only
      rw [b]
      exact Map.insert_self _ _ _
    | Body nt bd n f => exact absurd (htype.trans nt) hn
    | Custom b bd object n f =>
      obtain ⟨m, hm⟩ := Option.isSome_iff_exists.mp (hw hn)
      rw [hm]
      dsimp only
      rw [b]
      exact extract_put_self f

/-- Without a selector, the default field is read before any other. -/
theorem Written.read_default (hl : ∀ item_type : BitwardenItemType, to_lowercase item_type.default_field = item_type.default_field)
    (hf : field = item.item_type.default_field) : extract_from_item to_lowercase after none = some value := by
  subst hf
  by_cases hn : after.item_type = .SecureNote
  · have hi : item.item_type = .SecureNote := htype ▸ hn
    rw [extract_from_item_note hn, extract_from_secure_note_item]
    cases hwritten with
    | Member m mm b t object f =>
      rw [hi] at b
      cases b
    | Body nt bd n f =>
      rw [hi] at bd
      exact absurd bd (by decide)
    | Custom b bd object n f =>
      rw [hi] at f
      have hv := extract_put_self f
      rw [show BitwardenItemType.SecureNote.default_field = "value" from rfl] at hv
      rw [hv]
  · have hm : ∃ m rest, builtin_member to_lowercase item.item_type item.item_type.default_field = some m ∧
        preferred item.item_type = m :: rest := by
      rw [htype] at hn
      unfold builtin_member
      rw [hl]
      cases hi : item.item_type with
      | SecureNote => exact absurd hi hn
      | Login | Card | Identity | SshKey => exact ⟨_, _, rfl, rfl⟩
    obtain ⟨m, rest, hm, hp⟩ := hm
    rw [extract_from_item_object hn, htype]
    cases hwritten with
    | Member first mm b t object f =>
      rw [hm] at b
      cases b
      rw [object, hp]
      dsimp only
      rw [List.findSome?_cons, Map.insert_self]
    | Body nt bd n f => exact absurd (htype.trans nt) hn
    | Custom b bd object n f =>
      rw [hm] at b
      cases b

/-- Another selector reads as before, or overhears the field written. -/
theorem Written.read_other (hw : Whole item) {other : String} (ha : Apart to_lowercase item.item_type field other) :
    extract_from_item to_lowercase after (some other) = extract_from_item to_lowercase item (some other) ∨
      Overheard to_lowercase after field value other := by
  obtain ⟨hn, hm⟩ := ha
  by_cases ht : item.item_type = .SecureNote
  · rw [extract_from_item_note (htype.trans ht), extract_from_item_note ht, extract_from_secure_note_item,
      extract_from_secure_note_item]
    cases hwritten with
    | Member member m b t object f =>
      rw [ht] at b
      cases b
    | Body nt bd n f =>
      have hb : is_note_body_field other = false := by
        refine Bool.eq_false_iff.mpr fun ho => Bool.eq_false_iff.mp hn ?_
        exact eq_ignore_ascii_case_iff.mpr ((eq_ignore_ascii_case_iff.mp ho).trans (eq_ignore_ascii_case_iff.mp bd).symm)
      rw [hb]
      exact .inl (extract_from_custom_fields_congr f other)
    | Custom b bd object n f =>
      cases hb : is_note_body_field other with
      | true => exact .inl n
      | false =>
        have hl : builtin_member to_lowercase after.item_type other = none := by rw [htype, ht]; rfl
        exact extract_put_other hn f hl fun _ => hb
  · rw [extract_from_item_object (htype ▸ ht), extract_from_item_object ht, htype]
    obtain ⟨m, hth⟩ := Option.isSome_iff_exists.mp (hw ht)
    rw [hth]
    cases hwritten with
    | Member member found b t object f =>
      rw [hth] at t
      cases t
      rw [object]
      left
      dsimp only
      cases ho : builtin_member to_lowercase item.item_type other with
      | some a =>
        have hne : a ≠ member := fun he => hm member b (he ▸ ho)
        exact Map.insert_of_ne hne value m
      | none => exact extract_from_custom_fields_congr f other
    | Body nt bd n f => exact absurd nt ht
    | Custom b bd object n f =>
      rw [object, hth]
      dsimp only
      cases ho : builtin_member to_lowercase item.item_type other with
      | some a => exact .inl rfl
      | none => exact extract_put_other hn f (htype ▸ ho) fun h => absurd (htype ▸ h) ht

end

/-! ## The JSON of an item -/

variable {json : Json}

theorem field_of_json_iff {field : BitwardenField} :
    BitwardenField.of_json json = some field ↔
      optional_str (json.get "name") = some field.name ∧ optional_str (json.get "value") = some field.value ∧
        field_type_of (json.get "type") = some field.field_type := by
  unfold BitwardenField.of_json
  constructor
  · intro h
    obtain ⟨name, hn, h⟩ := bind_eq_some_iff.mp h
    obtain ⟨value, hv, h⟩ := bind_eq_some_iff.mp h
    obtain ⟨field_type, htype, h⟩ := bind_eq_some_iff.mp h
    cases h
    exact ⟨hn, hv, htype⟩
  · rintro ⟨hn, hv, htype⟩
    rw [hn, hv, htype]
    rfl

/-- What an item's JSON says of it. -/
structure Reads (json : Json) (item : BitwardenItem) : Prop where
  id : required_str (json.get "id") = some item.id
  name : required_str (json.get "name") = some item.name
  item_type : item_type_of (json.get "type") = some item.item_type
  fields : fields_of (json.get "fields") = some item.fields
  notes : optional_str (json.get "notes") = some item.notes
  login : members_of BitwardenItemType.Login.members (json.get "login") = some item.login
  card : members_of BitwardenItemType.Card.members (json.get "card") = some item.card
  identity : members_of BitwardenItemType.Identity.members (json.get "identity") = some item.identity
  ssh_key : members_of BitwardenItemType.SshKey.members (json.get "sshKey") = some item.ssh_key

theorem item_of_json_iff : BitwardenItem.of_json json = some item ↔ Reads json item := by
  unfold BitwardenItem.of_json
  constructor
  · intro h
    obtain ⟨id, hi, h⟩ := bind_eq_some_iff.mp h
    obtain ⟨nm, hn, h⟩ := bind_eq_some_iff.mp h
    obtain ⟨item_type, htype, h⟩ := bind_eq_some_iff.mp h
    obtain ⟨f, hf, h⟩ := bind_eq_some_iff.mp h
    obtain ⟨n, ht, h⟩ := bind_eq_some_iff.mp h
    obtain ⟨l, hl, h⟩ := bind_eq_some_iff.mp h
    obtain ⟨c, hc, h⟩ := bind_eq_some_iff.mp h
    obtain ⟨i, hin, h⟩ := bind_eq_some_iff.mp h
    obtain ⟨s, hs, h⟩ := bind_eq_some_iff.mp h
    cases h
    exact ⟨hi, hn, htype, hf, ht, hl, hc, hin, hs⟩
  · rintro ⟨hi, hn, htype, hf, ht, hl, hc, hin, hs⟩
    rw [hi, hn, htype, hf, ht, hl, hc, hin, hs]
    rfl

theorem get_insert_self (k : String) (value : Json) (e : List (String × Json)) :
    (Json.obj (insert k value e)).get k = some value := lookup_insert_self k value e

theorem get_insert_of_ne {k other : String} (h : other ≠ k) (value : Json) (e : List (String × Json)) :
    (Json.obj (insert k value e)).get other = (Json.obj e).get other := lookup_insert_of_ne h value e

/-! ## Updates of the JSON -/

theorem members_of_insert {k : List String} {e : List (String × Json)} {mm : Members}
    (h : members_of k (some (.obj e)) = some (some mm)) {m : String} (hm : m ∈ k) (value : String) :
    members_of k (some (.obj (insert m (.str value) e))) = some (some (mm.insert m value)) := by
  unfold members_of at h ⊢
  dsimp only at h ⊢
  split at h
  · next ha =>
    have hr := Option.some.inj (Option.some.inj h)
    rw [if_pos ?_]
    · congr 2
      funext ky
      by_cases hk : ky = m
      · subst hk
        rw [Map.insert_self, if_pos hm, lookup_insert_self]
        rfl
      · rw [Map.insert_of_ne hk, ← hr, lookup_insert_of_ne hk]
    · refine List.all_eq_true.mpr fun ky hi => ?_
      by_cases hk : ky = m
      · subst hk
        rw [lookup_insert_self]
        rfl
      · rw [lookup_insert_of_ne hk]
        exact List.all_eq_true.mp ha ky hi
  · cases h

theorem new_field_reads (field value : String) :
    BitwardenField.of_json (new_field to_lowercase field value) = some ⟨some field, some value, for_field_name to_lowercase field⟩ := by
  refine field_of_json_iff.mpr ⟨rfl, rfl, ?_⟩
  show field_type_of (some (.int (for_field_name to_lowercase field))) = _
  have hr : 0 ≤ for_field_name to_lowercase field ∧ for_field_name to_lowercase field ≤ 3 := by
    unfold for_field_name
    split <;> decide
  rw [field_type_of, if_pos hr]

theorem names_field_eq {found : BitwardenField} (h : BitwardenField.of_json json = some found) (field : String) :
    names_field field json = has_name field found := by
  obtain ⟨hn, -, -⟩ := field_of_json_iff.mp h
  unfold names_field has_name
  cases hg : json.get "name" with
  | none =>
    rw [hg] at hn
    rw [← Option.some.inj hn]
    rfl
  | some member =>
    rw [hg] at hn
    cases member with
    | null | str text =>
      rw [← Option.some.inj hn]
      rfl
    | _ => cases hn

theorem set_value_reads {found : BitwardenField} (h : BitwardenField.of_json json = some found) (value : String) :
    BitwardenField.of_json (set_value value json) = some { found with value := some value } := by
  obtain ⟨hn, hv, htype⟩ := field_of_json_iff.mp h
  cases json with
  | obj m =>
    refine field_of_json_iff.mpr ⟨?_, ?_, ?_⟩
    · rw [set_value, get_insert_of_ne (by decide)]
      exact hn
    · rw [set_value, get_insert_self]
      rfl
    · rw [set_value, get_insert_of_ne (by decide)]
      exact htype
  | _ => cases htype

theorem set_field_reads {i : List Json} {f : List BitwardenField} (h : each BitwardenField.of_json i = some f)
    (field value : String) :
    each BitwardenField.of_json (set_field to_lowercase field value i) = some (put_field to_lowercase field value f) := by
  rw [each_iff] at h ⊢
  induction h with
  | nil => exact .cons (new_field_reads field value) .nil
  | cons hr hs ih =>
    unfold set_field put_field
    rw [names_field_eq hr]
    split
    · exact .cons (set_value_reads hr value) hs
    · exact .cons hr ih

/-- An updated item is read as the item written to. -/
def Updates (to_lowercase : String → String) (item : BitwardenItem) (field value : String) (updated : Json) : Prop :=
  ∃ after, Reads updated after ∧ after.id = item.id ∧ after.name = item.name ∧ after.item_type = item.item_type ∧
    Written to_lowercase item field value after

section

variable {e : List (String × Json)} {item : BitwardenItem} (hreads : Reads (.obj e) item) {field text : String} {value : Json}

include hreads

theorem Reads.set_fields {fields : Option (List BitwardenField)} (hf : fields_of (some value) = some fields) :
    Reads (.obj (insert "fields" value e)) { item with fields } := by
  constructor
  case fields => rw [get_insert_self]; exact hf
  all_goals rw [get_insert_of_ne (by decide)]
  exacts [hreads.id, hreads.name, hreads.item_type, hreads.notes, hreads.login, hreads.card, hreads.identity, hreads.ssh_key]

theorem Reads.set_notes {notes : Option String} (hn : optional_str (some value) = some notes) :
    Reads (.obj (insert "notes" value e)) { item with notes } := by
  constructor
  case notes => rw [get_insert_self]; exact hn
  all_goals rw [get_insert_of_ne (by decide)]
  exacts [hreads.id, hreads.name, hreads.item_type, hreads.fields, hreads.login, hreads.card, hreads.identity, hreads.ssh_key]

theorem Reads.set_login {login : Option Members} (hl : members_of BitwardenItemType.Login.members (some value) = some login) :
    Reads (.obj (insert "login" value e)) { item with login } := by
  constructor
  case login => rw [get_insert_self]; exact hl
  all_goals rw [get_insert_of_ne (by decide)]
  exacts [hreads.id, hreads.name, hreads.item_type, hreads.fields, hreads.notes, hreads.card, hreads.identity, hreads.ssh_key]

theorem Reads.set_card {card : Option Members} (hc : members_of BitwardenItemType.Card.members (some value) = some card) :
    Reads (.obj (insert "card" value e)) { item with card } := by
  constructor
  case card => rw [get_insert_self]; exact hc
  all_goals rw [get_insert_of_ne (by decide)]
  exacts [hreads.id, hreads.name, hreads.item_type, hreads.fields, hreads.notes, hreads.login, hreads.identity, hreads.ssh_key]

theorem Reads.set_identity {identity : Option Members}
    (hi : members_of BitwardenItemType.Identity.members (some value) = some identity) :
    Reads (.obj (insert "identity" value e)) { item with identity } := by
  constructor
  case identity => rw [get_insert_self]; exact hi
  all_goals rw [get_insert_of_ne (by decide)]
  exacts [hreads.id, hreads.name, hreads.item_type, hreads.fields, hreads.notes, hreads.login, hreads.card, hreads.ssh_key]

theorem Reads.set_ssh_key {ssh_key : Option Members} (hs : members_of BitwardenItemType.SshKey.members (some value) = some ssh_key) :
    Reads (.obj (insert "sshKey" value e)) { item with ssh_key } := by
  constructor
  case ssh_key => rw [get_insert_self]; exact hs
  all_goals rw [get_insert_of_ne (by decide)]
  exacts [hreads.id, hreads.name, hreads.item_type, hreads.fields, hreads.notes, hreads.login, hreads.card, hreads.identity]

/-- The object of the type, as the JSON has it. -/
theorem Reads.object (hn : item.item_type ≠ .SecureNote) :
    members_of item.item_type.members ((Json.obj e).get item.item_type.object_key) = some item.object := by
  unfold BitwardenItem.object
  cases htype : item.item_type with
  | Login => exact hreads.login
  | SecureNote => exact absurd htype hn
  | Card => exact hreads.card
  | Identity => exact hreads.identity
  | SshKey => exact hreads.ssh_key

variable {updated : Json}

theorem member_updates {member : String} (hb : builtin_member to_lowercase item.item_type field = some member)
    (h : update_member (.obj e) item.item_type.object_key member text = .ok updated) :
    Updates to_lowercase item field text updated := by
  have hn : item.item_type ≠ .SecureNote := fun htype => by
    rw [htype] at hb
    cases hb
  have ho := hreads.object hn
  unfold update_member at h
  cases hg : (Json.obj e).get item.item_type.object_key with
  | none =>
    rw [hg] at h
    cases h
  | some found =>
    rw [hg] at h ho
    cases found with
    | obj members =>
      cases h
      obtain ⟨there, ht⟩ : ∃ there, item.object = some there := by
        cases hi : item.object with
        | some there => exact ⟨there, rfl⟩
        | none =>
          rw [hi] at ho
          unfold members_of at ho
          dsimp only at ho
          split at ho <;> cases ho
      rw [ht] at ho
      have ha := members_of_insert ho (builtin_member_mem hb) text
      have hwritten {after : BitwardenItem} (hs : after.object = some (there.insert member text))
          (hf : after.custom_fields = item.custom_fields) : Written to_lowercase item field text after :=
        .Member member there hb ht hs hf
      cases htype : item.item_type with
      | Login =>
        rw [htype] at ha
        refine ⟨_, hreads.set_login ha, rfl, rfl, htype.symm ▸ rfl, hwritten ?_ rfl⟩
        rw [BitwardenItem.object, htype]
      | SecureNote => exact absurd htype hn
      | Card =>
        rw [htype] at ha
        refine ⟨_, hreads.set_card ha, rfl, rfl, htype.symm ▸ rfl, hwritten ?_ rfl⟩
        rw [BitwardenItem.object, htype]
      | Identity =>
        rw [htype] at ha
        refine ⟨_, hreads.set_identity ha, rfl, rfl, htype.symm ▸ rfl, hwritten ?_ rfl⟩
        rw [BitwardenItem.object, htype]
      | SshKey =>
        rw [htype] at ha
        refine ⟨_, hreads.set_ssh_key ha, rfl, rfl, htype.symm ▸ rfl, hwritten ?_ rfl⟩
        rw [BitwardenItem.object, htype]
    | _ => cases h

theorem custom_updates (hb : builtin_member to_lowercase item.item_type field = none)
    (hd : item.item_type = .SecureNote → is_note_body_field field = false)
    (h : update_custom_field_in_json to_lowercase (.obj e) field text = .ok updated) :
    Updates to_lowercase item field text updated := by
  have hs {items : List Json} (hi : each BitwardenField.of_json items = some item.custom_fields) :
      Updates to_lowercase item field text (.obj (insert "fields" (.arr (set_field to_lowercase field text items)) e)) := by
    have hf : fields_of (some (.arr (set_field to_lowercase field text items))) =
        some (some (put_field to_lowercase field text item.custom_fields)) := by
      rw [fields_of, set_field_reads hi]
      rfl
    exact ⟨_, hreads.set_fields hf, rfl, rfl, rfl, .Custom hb hd rfl rfl rfl⟩
  have hf := hreads.fields
  unfold update_custom_field_in_json at h
  dsimp only at h
  rw [get_obj] at hf
  cases hl : e.lookup "fields" with
  | none =>
    rw [hl] at h hf
    cases h
    refine hs ?_
    rw [BitwardenItem.custom_fields, ← Option.some.inj hf]
    rfl
  | some found =>
    rw [hl] at h hf
    cases found with
    | null =>
      cases h
      refine hs ?_
      rw [BitwardenItem.custom_fields, ← Option.some.inj hf]
      rfl
    | arr items =>
      cases h
      refine hs ?_
      obtain ⟨fields, hi, hm⟩ := Option.map_eq_some_iff.mp hf
      rw [BitwardenItem.custom_fields, ← hm]
      exact hi
    | _ => cases h

/-- A successful update writes the field. -/
theorem update_item_updates (h : update_item_json to_lowercase item.item_type (.obj e) field text = .ok updated) :
    Updates to_lowercase item field text updated := by
  by_cases hn : item.item_type = .SecureNote
  · rw [hn] at h
    change update_secure_note_item_json to_lowercase (.obj e) field text = .ok updated at h
    unfold update_secure_note_item_json at h
    have hb : builtin_member to_lowercase item.item_type field = none := by rw [hn]; rfl
    split at h
    · next hd =>
      cases h
      exact ⟨_, hreads.set_notes rfl, rfl, rfl, rfl, .Body hn hd rfl rfl⟩
    · next hd => exact custom_updates hreads hb (fun _ => by simpa using hd) h
  · have ho : update_object_item_json to_lowercase item.item_type (.obj e) field text = .ok updated := by
      cases htype : item.item_type with
      | SecureNote => exact absurd htype hn
      | _ => rwa [htype] at h
    unfold update_object_item_json at ho
    cases hb : builtin_member to_lowercase item.item_type field with
    | some member =>
      rw [hb] at ho
      exact member_updates hreads hb ho
    | none =>
      rw [hb] at ho
      exact custom_updates hreads hb (fun htype => absurd htype hn) ho

end

/-! ## Templates -/

def blank : BitwardenItemType → List (String × Json)
  | .Login => blank_login
  | .SecureNote => [("type", .int 0)]
  | .Card => blank_card
  | .Identity => blank_identity
  | .SshKey => blank_ssh_key

/-- A template with nothing written in it. -/
def blank_template (item_type : BitwardenItemType) (item_name : String) (placement : ItemPlacement) : Json :=
  template item_type item_name (managed item_name) (.obj (blank item_type)) [] placement

/-- The members of a template with nothing written in it. -/
def blank_members (item_type : BitwardenItemType) : Members := fun key =>
  if key ∈ item_type.members then (optional_str ((blank item_type).lookup key)).join else none

def blank_object (item_type wanted : BitwardenItemType) : Option Members :=
  if item_type = wanted then some (blank_members wanted) else none

def blank_item (item_type : BitwardenItemType) (id item_name : String) : BitwardenItem where
  id := id
  name := item_name
  item_type := item_type
  fields := some []
  notes := some (managed item_name)
  login := blank_object item_type .Login
  card := blank_object item_type .Card
  identity := blank_object item_type .Identity
  ssh_key := blank_object item_type .SshKey

theorem blank_reads (item_type : BitwardenItemType) (id i : String) (p : ItemPlacement) :
    Reads (with_id id (blank_template item_type i p)) (blank_item item_type id i) := by
  cases item_type <;> exact ⟨rfl, rfl, rfl, rfl, rfl, rfl, rfl, rfl, rfl⟩

/-- Creating an item is writing to a blank one. -/
theorem creation_is_update (item_type : BitwardenItemType) (id i value field : String) (p : ItemPlacement) :
    update_item_json to_lowercase item_type (with_id id (blank_template item_type i p)) field value =
      .ok (with_id id (creation_template to_lowercase item_type i value field p)) := by
  have ho (item_type : BitwardenItemType) (hn : item_type ≠ .SecureNote) :
      update_object_item_json to_lowercase item_type (with_id id (blank_template item_type i p)) field value =
        .ok (with_id id (object_template to_lowercase item_type (blank item_type) i value field p)) := by
    unfold update_object_item_json object_template
    cases builtin_member to_lowercase item_type field with
    | none => cases item_type <;> rfl
    | some m =>
      cases item_type with
      | SecureNote => exact absurd rfl hn
      | _ => rfl
  cases item_type with
  | Login => exact ho .Login nofun
  | Card => exact ho .Card nofun
  | Identity => exact ho .Identity nofun
  | SshKey => exact ho .SshKey nofun
  | SecureNote =>
    show update_secure_note_item_json to_lowercase _ field value =
      .ok (with_id id (secure_note_template to_lowercase i value field p))
    unfold update_secure_note_item_json secure_note_template
    split <;> rfl

theorem creation_updates (item_type : BitwardenItemType) (id i value field : String) (p : ItemPlacement) :
    Updates to_lowercase (blank_item item_type id i) field value
      (with_id id (creation_template to_lowercase item_type i value field p)) :=
  @update_item_updates to_lowercase _ _ (blank_reads item_type id i p) field value _
    (creation_is_update item_type id i value field p)

theorem blank_whole (item_type : BitwardenItemType) (id i : String) : Whole (blank_item item_type id i) := by
  intro hn
  cases item_type with
  | SecureNote => exact absurd rfl hn
  | _ => rfl

/-- The texts a template has of its own, under the selectors that get them. -/
inductive Filled (to_lowercase : String → String) (item_type : BitwardenItemType) (item_name other : String) : String → Prop
  | SshKey (member : String) (ssh_key : item_type = .SshKey) (builtin : builtin_member to_lowercase item_type other = some member) :
    Filled to_lowercase item_type item_name other SSH_KEY_FIELD_UNSET
  | Note (note : item_type = .SecureNote) (body : is_note_body_field other = true) :
    Filled to_lowercase item_type item_name other (managed item_name)

theorem blank_extract (item_type : BitwardenItemType) (id item_name other : String) :
    extract_from_item to_lowercase (blank_item item_type id item_name) (some other) = none ∨
      ∃ text, extract_from_item to_lowercase (blank_item item_type id item_name) (some other) = some text ∧
        Filled to_lowercase item_type item_name other text := by
  have hc : extract_from_custom_fields to_lowercase (blank_item item_type id item_name) other = none := rfl
  by_cases hn : item_type = .SecureNote
  · subst hn
    rw [extract_from_item_note rfl, extract_from_secure_note_item]
    split
    · next hb => exact .inr ⟨_, rfl, .Note rfl hb⟩
    · exact .inl hc
  · have ho : (blank_item item_type id item_name).object = some (blank_members item_type) := by
      cases item_type with
      | SecureNote => exact absurd rfl hn
      | _ => rfl
    have he : extract_from_item to_lowercase (blank_item item_type id item_name) (some other) =
        match builtin_member to_lowercase item_type other with
        | some m => blank_members item_type m
        | none => extract_from_custom_fields to_lowercase (blank_item item_type id item_name) other := by
      rw [extract_from_item_object hn, ho]
      rfl
    rw [he]
    cases hl : builtin_member to_lowercase item_type other with
    | none => exact .inl hc
    | some m =>
      have hm := builtin_member_mem hl
      have hu : ∀ m ∈ BitwardenItemType.SshKey.members, (blank_members .SshKey m : Option String) = some SSH_KEY_FIELD_UNSET := by
        unfold BitwardenItemType.members
        simp [blank_members, blank, blank_ssh_key, optional_str, BitwardenItemType.members, List.lookup_cons]
      have hnl : ∀ item_type ∈ [BitwardenItemType.Login, .Card, .Identity], ∀ m ∈ item_type.members,
          blank_members item_type m = none := by
        simp [blank_members, blank, blank_login, blank_card, blank_identity, optional_str, BitwardenItemType.members, List.lookup_cons]
      cases item_type with
      | SecureNote => exact absurd rfl hn
      | SshKey => exact .inr ⟨SSH_KEY_FIELD_UNSET, hu m hm, .SshKey m rfl hl⟩
      | Login => exact .inl (hnl .Login (by simp) m hm)
      | Card => exact .inl (hnl .Card (by simp) m hm)
      | Identity => exact .inl (hnl .Identity (by simp) m hm)

end Monosecret.Providers.Bitwarden
