/-
  Monosecret.Providers.ProtonPass — reads and writes of Proton Pass items
  (`ProtonPassProvider` in `monosecret/src/provider/protonpass.rs`).

  A call of the CLI takes effect whole or not at all; what it prints may not be text, or not
  parse. A write lists the vault, deletes the item it finds, and creates another.

  `set_keeps_iff`: exactly when a write that fails leaves the old value and one that succeeds
  has stored the new one, items with other titles staying as they are. The value is lost when
  the new one is not text, or the creation fails, after the deletion (`lost_value`); and a
  listing that does not parse is taken for an empty vault.
-/

import Monosecret.Providers.Convention
import Monosecret.Providers.Keyring
import Monosecret.Providers.SameEntries

namespace Monosecret.Providers.ProtonPass

open Lib Manifest
open Cache (SecretBytes utf8)
open Convention (str_replace PROJECT PROFILE KEY)

/-! ## Vaults -/

structure Item where
  share_id : String
  id : String
  title : Option String
  note : Option String
  fields : List (String × String)
  deriving DecidableEq

def Item.identity (item : Item) : String × String := (item.share_id, item.id)

structure Vault where
  items : List Item
  distinct : (items.map Item.identity).Nodup

def titled (title : String) (item : Item) : Bool := item.title == some title

/-- `item view --item-title`: the first item of the title. -/
def Vault.view (vault : Vault) (title : String) : Option Item := vault.items.find? (titled title)

/-- `item delete`. -/
def Vault.delete (vault : Vault) (identity : String × String) : Vault where
  items := vault.items.filter fun item => item.identity != identity
  distinct := vault.distinct.sublist (List.filter_sublist.map _)

/-- The identifiers a new item gets. -/
structure PassCli where
  new_identity : Vault → String × String
  fresh : ∀ vault, new_identity vault ∉ vault.items.map Item.identity

/-- `item create note`. -/
def PassCli.create (cli : PassCli) (title note : String) (vault : Vault) : Vault where
  items := vault.items ++ [⟨(cli.new_identity vault).1, (cli.new_identity vault).2, some title, some note, []⟩]
  distinct := by
    rw [List.map_append, List.nodup_append]
    refine ⟨vault.distinct, List.nodup_singleton _, fun a ha b hb => ?_⟩
    rw [List.map_singleton, List.mem_singleton] at hb
    rw [hb]
    exact fun h => cli.fresh vault ((show a = cli.new_identity vault from h) ▸ ha)

/-! ## Calls -/

/-- What becomes of a call. All but `Fails` take effect. -/
inductive Answer
  | Fails (stderr : String)
  /-- It printed bytes that are not UTF-8. -/
  | NotText
  /-- It printed text that is not the expected JSON. -/
  | Unparsed
  | Done
  deriving DecidableEq

def Answer.takes_effect : Answer → Bool
  | .Fails _ => false
  | _ => true

/-- The calls of one write, in order. -/
structure Calls where
  list : Answer
  delete : Answer
  create : Answer

def contains (text part : String) : Bool := decide (part.toList <:+: text.toList)

def failure (stderr : String) : String :=
  if contains stderr "This operation requires an authenticated client" then
    "Proton Pass authentication required. Please run 'pass-cli login' first."
  else stderr

/-- What `run_pass_cli` returns: whether it printed text. -/
def run_pass_cli : Answer → Except String Unit
  | .Fails stderr => .error (failure stderr)
  | .NotText => .error "Proton Pass CLI returned non-UTF-8 output"
  | .Unparsed => .ok ()
  | .Done => .ok ()

/-- The vault after a call. -/
def after (answer : Answer) (effect : Vault → Vault) (vault : Vault) : Vault :=
  if answer.takes_effect then effect vault else vault

/-! ## The provider -/

structure ProtonPassConfig where
  vault_name : Option String
  title_template : Option String

namespace ProtonPassConfig

variable (config : ProtonPassConfig)

def format_item_title (project profile key : String) : String :=
  let template := config.title_template.getD "\x7bproject\x7d/\x7bprofile\x7d/\x7bkey\x7d"
  str_replace (str_replace (str_replace template PROJECT project) PROFILE profile) KEY key

def provider : Provider Unit where
  name := "protonpass"
  supported_coords := ["field"]
  convention_address project profile key := .ok ⟨config.format_item_title project profile key, none, none, none, none⟩
  physical_store_path := none
  entry_container_identity := ""

def nonempty_text (text : String) : Option SecretBytes := if text = "" then none else some (utf8 text)

def strip_newline (text : String) : String :=
  match text.toList.reverse with
  | '\n' :: rest => String.ofList rest.reverse
  | _ => text

/-- The field's value is printed with a newline after it. -/
def parse_field_output (output : String) : Option SecretBytes := nonempty_text (strip_newline output)

def get_field (title field : String) (vault : Vault) : Option SecretBytes :=
  ((vault.view title).bind fun item => item.fields.lookup field).bind fun value => parse_field_output (value ++ "\n")

/-- The value at a title: the note of its first item. -/
def read_note (title : String) (vault : Vault) : Option SecretBytes :=
  ((vault.view title).bind Item.note).bind nonempty_text

def get (addr : Address) (vault : Vault) : Except String (Option SecretBytes) := do
  let coords ← config.provider.resolve_coords addr
  match coords.field with
  | some field => .ok (get_field coords.item field vault)
  | none => .ok (read_note coords.item vault)

def read_only (field : String) : String :=
  "Proton Pass refs with a `field` are read-only: pass-cli can only update a field by taking the value as a command-line " ++
    s!"argument, which exposes it in the process list. Update '{field}' in a Proton Pass app instead."

def check_writable (addr : Address) : Except String Unit := do
  match (← config.provider.resolve_coords addr).field with
  | some field => .error (read_only field)
  | none => .ok ()

/-- The item to replace: a listing that does not parse is an empty one. -/
def existing_item (list : Answer) (title : String) (vault : Vault) : Option Item :=
  if list = .Done then vault.items.find? (titled title) else none

/-- The deletion, the encoding and the creation. -/
def replace_item (cli : PassCli) (title : String) (value : SecretBytes) (calls : Calls) (existing : Option Item) (vault : Vault) :
    Except String Unit × Vault :=
  let deleted := existing.map fun item => (run_pass_cli calls.delete, after calls.delete (·.delete item.identity) vault)
  match deleted.getD (.ok (), vault) with
  | (.error error, vault) => (.error error, vault)
  | (.ok _, vault) =>
    match require_utf8 "protonpass" value with
    | .error error => (.error error, vault)
    | .ok note => (run_pass_cli calls.create, after calls.create (cli.create title note) vault)

def set (cli : PassCli) (addr : Address) (value : SecretBytes) (calls : Calls) (vault : Vault) : Except String Unit × Vault :=
  match (do config.check_writable addr; config.provider.flat_item addr) with
  | .error error => (.error error, vault)
  | .ok title =>
    match run_pass_cli calls.list with
    | .error error => (.error error, vault)
    | .ok _ => replace_item cli title value calls (existing_item calls.list title vault) vault

end ProtonPassConfig

open ProtonPassConfig

/-! ## What a write may do -/

def Vault.DistinctTitles (vault : Vault) : Prop :=
  vault.items.Pairwise fun a b => ∀ title, a.title = some title → b.title ≠ some title

/-- An error leaves what is read, a success stores the value where titles are distinct, and
    items with other titles stay. -/
structure Keeps (config : ProtonPassConfig) (cli : PassCli) (addr : Address) (value : SecretBytes) (calls : Calls) (vault : Vault) :
    Prop where
  failed : ∀ error, (config.set cli addr value calls vault).1 = .error error →
    config.get addr (config.set cli addr value calls vault).2 = config.get addr vault
  stored : (config.set cli addr value calls vault).1 = .ok () → vault.DistinctTitles →
    config.get addr (config.set cli addr value calls vault).2 = .ok (some value)
  others : ∀ title, config.provider.flat_item addr = .ok title → ∀ item : Item, item.title ≠ some title →
    (item ∈ (config.set cli addr value calls vault).2.items ↔ item ∈ vault.items)

/-- Where the vault has an item of the title, and it was listed: the deletion fails, the whole
    write goes through, or the title reads the same without the item. -/
def Replaces (cli : PassCli) (title : String) (value : SecretBytes) (calls : Calls) (existing : Item) (vault : Vault) : Prop :=
  match calls.delete with
  | .Fails _ => True
  | .NotText => read_note title (vault.delete existing.identity) = read_note title vault
  | .Unparsed | .Done =>
    match require_utf8 "protonpass" value with
    | .error _ => read_note title (vault.delete existing.identity) = read_note title vault
    | .ok note =>
      match calls.create with
      | .Fails _ => read_note title (vault.delete existing.identity) = read_note title vault
      | .NotText => read_note title (cli.create title note (vault.delete existing.identity)) = read_note title vault
      | .Unparsed | .Done => True

/-- Where the listing does not parse: the title is there for a creation that is taken for a
    failure, and is not, or has the value, for one that succeeds. -/
def Adds (title : String) (value : SecretBytes) (create : Answer) (vault : Vault) : Prop :=
  match create with
  | .Fails _ => True
  | .NotText => (vault.view title).isSome = true
  | .Unparsed | .Done => vault.DistinctTitles → vault.view title = none ∨ read_note title vault = some value

/-- When a write keeps the old value or stores the new one. -/
def Safe (cli : PassCli) (title : String) (value : SecretBytes) (calls : Calls) (vault : Vault) : Prop :=
  match calls.list with
  | .Fails _ | .NotText => True
  | .Unparsed => (require_utf8 "protonpass" value).isOk = true → Adds title value calls.create vault
  | .Done =>
    match vault.view title with
    | none => (require_utf8 "protonpass" value).isOk = true → calls.create ≠ .NotText
    | some existing => Replaces cli title value calls existing vault

/-! ## Effects on a title -/

section

variable {cli : PassCli} {title note : String} {vault : Vault} {existing item : Item}

theorem view_create (cli : PassCli) (title note : String) (vault : Vault) :
    read_note title (cli.create title note vault) = if (vault.view title).isSome then read_note title vault else nonempty_text note := by
  have hn (i : String × String) :
      [(⟨i.1, i.2, some title, some note, []⟩ : Item)].find? (titled title) =
        some ⟨i.1, i.2, some title, some note, []⟩ :=
    List.find?_cons_of_pos (by simp [titled])
  unfold read_note Vault.view PassCli.create
  rw [List.find?_append, hn]
  cases vault.items.find? (titled title) <;> rfl

theorem titled_view (h : vault.view title = some existing) : existing ∈ vault.items ∧ existing.title = some title :=
  ⟨List.mem_of_find?_eq_some h, by simpa [titled] using List.find?_some h⟩

theorem view_delete (hd : vault.DistinctTitles) (h : vault.view title = some existing) :
    (vault.delete existing.identity).view title = none := by
  obtain ⟨hm, ht⟩ := titled_view h
  refine List.find?_eq_none.mpr fun item hi htt => ?_
  obtain ⟨hi, ho⟩ := List.mem_filter.mp hi
  have hs : Std.Symm fun a b : Item => ∀ title, a.title = some title → b.title ≠ some title :=
    ⟨fun a b hab title hb ha => hab title ha hb⟩
  have hn : existing ≠ item := by
    rintro rfl
    simp at ho
  exact hd.forall hm hi hn title ht (by simpa [titled] using htt)

theorem others_delete (h : vault.view title = some existing) (ho : item.title ≠ some title) :
    item ∈ (vault.delete existing.identity).items ↔ item ∈ vault.items := by
  obtain ⟨hm, ht⟩ := titled_view h
  refine ⟨fun hi => (List.mem_filter.mp hi).1, fun hi => List.mem_filter.mpr ⟨hi, ?_⟩⟩
  rw [bne_iff_ne]
  intro hs
  rw [List.inj_on_of_nodup_map vault.distinct hi hm hs] at ho
  exact ho ht

theorem others_create (ho : item.title ≠ some title) : item ∈ (cli.create title note vault).items ↔ item ∈ vault.items := by
  refine List.mem_append.trans (or_iff_left fun hn => ?_)
  rw [List.mem_singleton.mp hn] at ho
  exact ho rfl

end

/-! ## Writes -/

section

variable {config : ProtonPassConfig} {addr : Address} {title : String}

/-- A writable address is a title. -/
theorem writable_title (h : config.check_writable addr = .ok ()) (ht : config.provider.flat_item addr = .ok title) :
    ∀ vault, config.get addr vault = .ok (read_note title vault) := by
  intro vault
  obtain ⟨c, hc, hi⟩ := Except.bind_ok ht
  cases hi
  unfold ProtonPassConfig.check_writable at h
  unfold ProtonPassConfig.get
  rw [hc] at h ⊢
  obtain ⟨item, f, vault, s, version⟩ := c
  cases f with
  | some f => cases h
  | none => rfl

theorem set_writable (h : config.check_writable addr = .ok ()) (ht : config.provider.flat_item addr = .ok title)
    (cli : PassCli) (value : SecretBytes) (c : Calls) (vault : Vault) :
    config.set cli addr value c vault =
      match run_pass_cli c.list with
      | .error error => (.error error, vault)
      | .ok _ => replace_item cli title value c (existing_item c.list title vault) vault := by
  simp only [ProtonPassConfig.set, h, ht, bind, Except.bind]

/-- What `Keeps` says of the title, for an outcome. -/
structure Kept (title : String) (value : SecretBytes) (vault : Vault) (outcome : Except String Unit × Vault) : Prop where
  failed : ∀ error, outcome.1 = .error error → read_note title outcome.2 = read_note title vault
  stored : outcome.1 = .ok () → vault.DistinctTitles → read_note title outcome.2 = some value
  others : ∀ item : Item, item.title ≠ some title → (item ∈ outcome.2.items ↔ item ∈ vault.items)

theorem keeps_iff_kept (h : config.check_writable addr = .ok ()) (ht : config.provider.flat_item addr = .ok title)
    (cli : PassCli) (value : SecretBytes) (c : Calls) (vault : Vault) :
    Keeps config cli addr value c vault ↔ Kept title value vault (config.set cli addr value c vault) := by
  have hg := writable_title h ht
  constructor
  · intro hk
    refine ⟨fun error he => ?_, fun ho hd => ?_, hk.others title ht⟩
    · have hs := hk.failed error he
      rw [hg, hg] at hs
      exact Except.ok.inj hs
    · have hv := hk.stored ho hd
      rw [hg] at hv
      exact Except.ok.inj hv
  · intro hkt
    refine ⟨fun error he => ?_, fun ho hd => ?_, fun other hoh => ?_⟩
    · rw [hg, hg, hkt.failed error he]
    · rw [hg, hkt.stored ho hd]
    · rw [ht] at hoh
      cases hoh
      exact hkt.others

variable {value : SecretBytes} {vault left : Vault} {error : String}

theorem kept_error (ho : ∀ item : Item, item.title ≠ some title → (item ∈ left.items ↔ item ∈ vault.items)) :
    Kept title value vault (.error error, left) ↔ read_note title left = read_note title vault :=
  ⟨fun h => h.failed error rfl, fun h => ⟨fun _ _ => h, nofun, ho⟩⟩

theorem kept_ok (ho : ∀ item : Item, item.title ≠ some title → (item ∈ left.items ↔ item ∈ vault.items)) :
    Kept title value vault (.ok (), left) ↔ (vault.DistinctTitles → read_note title left = some value) :=
  ⟨fun h => h.stored rfl, fun h => ⟨nofun, fun _ => h, ho⟩⟩

/-- The creation, after what came before it. -/
theorem kept_create (cli : PassCli) (note : String) (c : Answer)
    (hoh : ∀ item : Item, item.title ≠ some title → (item ∈ left.items ↔ item ∈ vault.items)) :
    Kept title value vault (run_pass_cli c, after c (cli.create title note) left) ↔
      match c with
      | .Fails _ => read_note title left = read_note title vault
      | .NotText => read_note title (cli.create title note left) = read_note title vault
      | .Unparsed | .Done => vault.DistinctTitles → read_note title (cli.create title note left) = some value := by
  have hc : ∀ item : Item, item.title ≠ some title → (item ∈ (cli.create title note left).items ↔ item ∈ vault.items) :=
    fun item ho => (others_create ho).trans (hoh item ho)
  cases c with
  | Fails s => exact kept_error hoh
  | NotText => exact kept_error hc
  | Unparsed | Done => exact kept_ok hc

theorem note_of_utf8 {note : String} (hv : value ≠ []) (h : require_utf8 "protonpass" value = .ok note) :
    nonempty_text note = some value := by
  have hutf8 := require_utf8_ok h
  rw [nonempty_text, if_neg, ← hutf8]
  rintro rfl
  exact hv hutf8

/-- A listing that does not parse: the creation adds to what is there. -/
theorem kept_adds (cli : PassCli) {note : String} (hn : nonempty_text note = some value) (create : Answer) :
    Kept title value vault (run_pass_cli create, after create (cli.create title note) vault) ↔ Adds title value create vault := by
  rw [kept_create cli note create fun _ _ => Iff.rfl, view_create, hn]
  have ha : vault.view title = none → read_note title vault = none := fun h => by
    rw [read_note, h]
    rfl
  cases hv : vault.view title with
  | none =>
    cases create <;> simp [Adds, hv, ha hv]
  | some existing =>
    cases create <;> simp [Adds, hv]

/-- The item was found. -/
theorem kept_replaces (cli : PassCli) (hv : value ≠ []) {existing : Item} (hw : vault.view title = some existing) (calls : Calls) :
    Kept title value vault (replace_item cli title value calls (some existing) vault) ↔ Replaces cli title value calls existing vault := by
  have hs : ∀ item : Item, item.title ≠ some title → (item ∈ vault.items ↔ item ∈ vault.items) := fun _ _ => Iff.rfl
  have hd : ∀ item : Item, item.title ≠ some title →
      (item ∈ (vault.delete existing.identity).items ↔ item ∈ vault.items) := fun item => others_delete hw
  -- whether the answer to a deletion parses does not matter
  have hg : Kept title value vault (replace_item cli title value { calls with delete := .Done } (some existing) vault) ↔
      Replaces cli title value { calls with delete := .Done } existing vault := by
    simp only [replace_item, Replaces, run_pass_cli, after, Option.map_some, Option.getD_some]
    cases hutf8 : require_utf8 "protonpass" value with
    | error error => exact kept_error hd
    | ok note =>
      have ht : vault.DistinctTitles → read_note title (cli.create title note (vault.delete existing.identity)) = some value := by
        intro hds
        rw [view_create, view_delete hds hw, note_of_utf8 hv hutf8]
        rfl
      refine (kept_create cli note calls.create hd).trans ?_
      cases calls.create with
      | Fails s | NotText => exact Iff.rfl
      | Unparsed | Done => exact iff_of_true ht trivial
  cases hl : calls.delete with
  | Fails s =>
    rw [replace_item, Replaces, hl]
    exact iff_of_true ((kept_error hs).mpr rfl) trivial
  | NotText =>
    rw [replace_item, Replaces, hl]
    exact kept_error hd
  | Unparsed | Done =>
    rw [replace_item, Replaces, hl]
    exact hg

end

/-- A write keeps the old value or stores the new one exactly when it is safe. -/
theorem set_keeps_iff (config : ProtonPassConfig) (cli : PassCli) (addr : Address) (title : String) (value : SecretBytes)
    (calls : Calls) (vault : Vault) (hwritable : config.check_writable addr = .ok ())
    (htitle : config.provider.flat_item addr = .ok title) (hvalue : value ≠ []) :
    Keeps config cli addr value calls vault ↔ Safe cli title value calls vault := by
  rw [keeps_iff_kept hwritable htitle, set_writable hwritable htitle]
  have hs : ∀ item : Item, item.title ≠ some title → (item ∈ vault.items ↔ item ∈ vault.items) := fun _ _ => Iff.rfl
  have hn (calls : Calls) : replace_item cli title value calls none vault =
      match require_utf8 "protonpass" value with
      | .error error => (.error error, vault)
      | .ok note => (run_pass_cli calls.create, after calls.create (cli.create title note) vault) := rfl
  cases hl : calls.list with
  | Fails stderr | NotText =>
    rw [Safe, hl]
    exact iff_of_true ((kept_error hs).mpr rfl) trivial
  | Unparsed =>
    rw [Safe, hl]
    show Kept title value vault (replace_item cli title value calls none vault) ↔ _
    rw [hn]
    cases hutf8 : require_utf8 "protonpass" value with
    | error error => exact iff_of_true ((kept_error hs).mpr rfl) nofun
    | ok note => exact (kept_adds cli (note_of_utf8 hvalue hutf8) calls.create).trans ⟨fun h _ => h, fun h => h rfl⟩
  | Done =>
    rw [Safe, hl]
    show Kept title value vault (replace_item cli title value calls (vault.view title) vault) ↔ _
    cases hv : vault.view title with
    | some existing => exact kept_replaces cli hvalue hv calls
    | none =>
      rw [hn]
      cases hutf8 : require_utf8 "protonpass" value with
      | error error => exact iff_of_true ((kept_error hs).mpr rfl) nofun
      | ok note =>
        refine (kept_adds cli (note_of_utf8 hvalue hutf8) calls.create).trans ?_
        cases calls.create <;> simp [Adds, hv, Except.isOk, Except.toBool]

/-! ## A vault -/

def next_id (vault : Vault) : String := String.ofList (List.replicate ((vault.items.map fun item => item.id.length).sum + 1) 'i')

theorem id_length_le {i : List Item} {item : Item} (h : item ∈ i) :
    item.id.length ≤ (i.map fun item => item.id.length).sum := by
  induction i with
  | nil => cases h
  | cons first i ih =>
    rw [List.map_cons, List.sum_cons]
    rcases List.mem_cons.mp h with rfl | h
    · exact Nat.le_add_right _ _
    · exact (ih h).trans (Nat.le_add_left _ _)

/-- Every new item gets a longer identifier. -/
def numbered : PassCli where
  new_identity vault := ("share", next_id vault)
  fresh vault := by
    intro hmem
    obtain ⟨item, hitem, hsame⟩ := List.mem_map.mp hmem
    have hid : item.id = next_id vault := congrArg Prod.snd hsame
    have hlength : item.id.length = (vault.items.map fun item => item.id.length).sum + 1 := by
      rw [hid, next_id, String.length_ofList, List.length_replicate]
    have hle := id_length_le hitem
    omega

def defaults : ProtonPassConfig := ⟨none, none⟩

def token : Address := .Native ⟨"TOKEN", none, none, none, none⟩

def old_token : Vault := ⟨[⟨"share", "1", some "TOKEN", some "old", []⟩], List.nodup_singleton _⟩

def offline : Calls := ⟨.Done, .Done, .Fails "network is unreachable"⟩

theorem set_keeps_iff_token : Keeps defaults numbered token (utf8 "new") ⟨.Done, .Done, .Done⟩ old_token := by
  refine (set_keeps_iff defaults numbered token "TOKEN" (utf8 "new") ⟨.Done, .Done, .Done⟩ old_token rfl rfl (by decide)).mpr ?_
  have hutf8 : require_utf8 "protonpass" (utf8 "new") = .ok "new" := require_utf8_utf8 "protonpass" "new"
  have hv : old_token.view "TOKEN" = some ⟨"share", "1", some "TOKEN", some "old", []⟩ := by decide
  simp only [Safe, hv, Replaces, hutf8]

/-- The item was deleted, and its successor not created. -/
theorem lost_value :
    defaults.check_writable token = .ok () ∧
    defaults.get token old_token = .ok (some (utf8 "old")) ∧
    (defaults.set numbered token (utf8 "new") offline old_token).1 = .error "network is unreachable" ∧
    defaults.get token (defaults.set numbered token (utf8 "new") offline old_token).2 = .ok none := by
  have hutf8 : require_utf8 "protonpass" (utf8 "new") = .ok "new" := require_utf8_utf8 "protonpass" "new"
  have hs : defaults.set numbered token (utf8 "new") offline old_token =
      (.error "network is unreachable", old_token.delete ("share", "1")) := by
    rw [@set_writable defaults token "TOKEN" rfl rfl]
    show (match require_utf8 "protonpass" (utf8 "new") with
      | .error error => (Except.error error, old_token.delete ("share", "1"))
      | .ok note => (run_pass_cli offline.create, after offline.create (numbered.create "TOKEN" note) (old_token.delete ("share", "1")))) = _
    rw [hutf8]
    rfl
  rw [hs]
  exact ⟨rfl, rfl, rfl, rfl⟩

end Monosecret.Providers.ProtonPass
