/-
  Monosecret.Providers.Kdbx — secrets in a KeePass database (`KdbxProvider` in
  `monosecret/src/provider/kdbx.rs`: `get_from_database`, the change `set` makes, `save`).

  A database is a tree of groups, each known by its id, and the entries of each group. A
  group is found by its name below its parent and an entry by its title in its group; two
  of one name are refused. `set` makes the groups that are missing, edits the entry or adds
  one, and cannot write titles, so that an address stays where it is.

  Proved: after `set` its address has the value (`set_get_self`), and every other address
  reads as it did (`set_get_other`), whatever the tree.
-/

import Monosecret.Providers.Convention

namespace Monosecret.Providers.KdbxProvider

open Lib Convention.KdbxProvider

inductive DatabaseVersion where
  | KDB (minor : Nat)
  | KDB2 (minor : Nat)
  | KDB3 (minor : Nat)
  | KDB4 (minor : Nat)
  deriving DecidableEq

def DatabaseVersion.is_kdb4 : DatabaseVersion → Bool
  | .KDB4 _ => true
  | _ => false

structure Group where
  id : Nat
  parent : Nat
  name : String

structure Entry where
  id : Nat
  group : Nat
  fields : Map String String

def TITLE : String := "Title"

def Entry.get_title (entry : Entry) : Option String := entry.fields TITLE

/-- The entry with this field set, when it is the one. -/
def Entry.edit (id : Nat) (field value : String) (entry : Entry) : Entry :=
  if entry.id = id then { entry with fields := entry.fields.insert field value } else entry

theorem Entry.edit_id (id : Nat) (field value : String) (e : Entry) : (Entry.edit id field value e).id = e.id := by
  unfold Entry.edit
  split <;> rfl

theorem Entry.edit_group (id : Nat) (field value : String) (e : Entry) :
    (Entry.edit id field value e).group = e.group := by
  unfold Entry.edit
  split <;> rfl

def ROOT : Nat := 0

/-- `next` is an id no group and no entry has. -/
structure Database where
  version : DatabaseVersion
  next : Nat
  groups : List Group
  entries : List Entry
  root_lt : ROOT < next
  groups_lt : ∀ g ∈ groups, g.parent < next ∧ ROOT < g.id ∧ g.id < next
  group_ids : (groups.map (·.id)).Nodup
  entries_lt : ∀ e ∈ entries, e.id < next ∧ e.group < next
  entry_ids : (entries.map (·.id)).Nodup

namespace Database

def new : Database where
  version := .KDB4 1
  next := 1
  groups := []
  entries := []
  root_lt := Nat.one_pos
  groups_lt := nofun
  group_ids := List.nodup_nil
  entries_lt := nofun
  entry_ids := List.nodup_nil

def has_group (db : Database) (id : Nat) : Bool := id == ROOT || db.groups.any (·.id == id)

theorem lt_of_has_group {db : Database} {id : Nat} (h : db.has_group id) : id < db.next := by
  rcases Bool.or_eq_true _ _ ▸ h with h | h
  · exact beq_iff_eq.mp h ▸ db.root_lt
  · obtain ⟨g, hg, hi⟩ := List.any_eq_true.mp h
    exact beq_iff_eq.mp hi ▸ (db.groups_lt g hg).2.2

theorem nodup_concat {ids : List Nat} {id : Nat} (h : ids.Nodup) (hlt : ∀ i ∈ ids, i < id) : (ids ++ [id]).Nodup :=
  List.nodup_append.mpr ⟨h, List.nodup_singleton id, fun i hi _ hj =>
    List.mem_singleton.mp hj ▸ Nat.ne_of_lt (hlt i hi)⟩

def add_group (db : Database) (parent : Nat) (name : String) (h : parent < db.next) : Database where
  version := db.version
  next := db.next + 1
  groups := db.groups ++ [⟨db.next, parent, name⟩]
  entries := db.entries
  root_lt := Nat.lt_succ_of_lt db.root_lt
  groups_lt := by
    intro g hg
    rcases List.mem_append.mp hg with hg | hg
    · obtain ⟨hparent, hroot, hid⟩ := db.groups_lt g hg
      exact ⟨Nat.lt_succ_of_lt hparent, hroot, Nat.lt_succ_of_lt hid⟩
    · obtain rfl := List.mem_singleton.mp hg
      exact ⟨Nat.lt_succ_of_lt h, db.root_lt, Nat.lt_succ_self _⟩
  group_ids := by
    rw [List.map_append]
    refine nodup_concat db.group_ids fun i hi => ?_
    obtain ⟨g, hg, rfl⟩ := List.mem_map.mp hi
    exact (db.groups_lt g hg).2.2
  entries_lt e he := ⟨Nat.lt_succ_of_lt (db.entries_lt e he).1, Nat.lt_succ_of_lt (db.entries_lt e he).2⟩
  entry_ids := db.entry_ids

def add_entry (db : Database) (group : Nat) (fields : Map String String) (h : group < db.next) : Database where
  version := db.version
  next := db.next + 1
  groups := db.groups
  entries := db.entries ++ [⟨db.next, group, fields⟩]
  root_lt := Nat.lt_succ_of_lt db.root_lt
  groups_lt g hg := ⟨Nat.lt_succ_of_lt (db.groups_lt g hg).1, (db.groups_lt g hg).2.1, Nat.lt_succ_of_lt (db.groups_lt g hg).2.2⟩
  group_ids := db.group_ids
  entries_lt := by
    intro e he
    rcases List.mem_append.mp he with he | he
    · exact ⟨Nat.lt_succ_of_lt (db.entries_lt e he).1, Nat.lt_succ_of_lt (db.entries_lt e he).2⟩
    · obtain rfl := List.mem_singleton.mp he
      exact ⟨Nat.lt_succ_self _, Nat.lt_succ_of_lt h⟩
  entry_ids := by
    rw [List.map_append]
    refine nodup_concat db.entry_ids fun i hi => ?_
    obtain ⟨e, he, rfl⟩ := List.mem_map.mp hi
    exact (db.entries_lt e he).1

def edit_entry (db : Database) (id : Nat) (field value : String) : Database where
  version := db.version
  next := db.next
  groups := db.groups
  entries := db.entries.map (Entry.edit id field value)
  root_lt := db.root_lt
  groups_lt := db.groups_lt
  group_ids := db.group_ids
  entries_lt := by
    intro e he
    obtain ⟨old, hold, rfl⟩ := List.mem_map.mp he
    rw [Entry.edit_id, Entry.edit_group]
    exact db.entries_lt old hold
  entry_ids := by
    rw [List.map_map]
    exact (List.map_congr_left fun e _ => Entry.edit_id id field value e) ▸ db.entry_ids

def entry (db : Database) (id : Nat) : Option Entry := db.entries.find? (·.id == id)

end Database

/-! ## Reading -/

def unique_group (database : Database) (parent : Nat) (name : String) : Except String (Option Nat) :=
  if !database.has_group parent then .error "KDBX group tree contains a missing group."
  else
    match (database.groups.filter fun group => group.parent == parent && group.name == name).map (·.id) with
    | [] => .ok none
    | [id] => .ok (some id)
    | _ =>
      .error s!"KDBX group `{name}` is ambiguous: its parent contains multiple groups with that name."

def find_entry_in_group (database : Database) (group_id : Nat) (title : String) : Except String (Option Nat) :=
  if !database.has_group group_id then .error "KDBX group tree contains a missing group."
  else
    match (database.entries.filter fun entry => entry.group == group_id && entry.get_title == some title).map (·.id) with
    | [] => .ok none
    | [id] => .ok (some id)
    | _ =>
      .error s!"KDBX entry `{title}` is ambiguous: its group contains multiple entries with that title."

/-- The loop of `find_entry`, from one group down. -/
def find_entry_below (database : Database) (title : String) : Nat → List String → Except String (Option Nat)
  | group_id, [] => find_entry_in_group database group_id title
  | group_id, name :: groups =>
    match unique_group database group_id name with
    | .error error => .error error
    | .ok none => .ok none
    | .ok (some next) => find_entry_below database title next groups

def find_entry (database : Database) (location : Location) : Except String (Option Nat) :=
  find_entry_below database location.title ROOT location.groups

def get_from_database (database : Database) (location : Location) : Except String (Option String) :=
  match find_entry database location with
  | .error error => .error error
  | .ok none => .ok none
  | .ok (some entry_id) => .ok ((database.entry entry_id).bind fun entry => entry.fields location.field)

/-! ## Writing -/

def write_version_error : String :=
  "The kdbx provider can read KDBX 3 databases but cannot write them. " ++
    "Upgrade the database to KDBX 4 with KeePass or KeePassXC first."

/-- From one group down; the group the last name leads to. -/
def find_or_create_group : Database → Nat → List String → Except String (Database × Nat)
  | database, current, [] => .ok (database, current)
  | database, current, name :: groups =>
    match unique_group database current name with
    | .error error => .error error
    | .ok (some id) => find_or_create_group database id groups
    | .ok none =>
      if h : database.has_group current = true then
        find_or_create_group (database.add_group current name (Database.lt_of_has_group h)) database.next groups
      else .error "KDBX group tree contains a missing group."

/-- The fields of an entry `set` adds. -/
def new_fields (location : Location) (value : String) : Map String String :=
  (Map.empty.insert TITLE location.title).insert location.field value

/-- What `set` changes in the database it loaded. -/
def set (database : Database) (location : Location) (value : String) : Except String Database :=
  if !database.version.is_kdb4 then .error write_version_error
  else
    match find_or_create_group database ROOT location.groups with
    | .error error => .error error
    | .ok (database, group_id) =>
      match find_entry_in_group database group_id location.title with
      | .error error => .error error
      | .ok (some entry_id) => .ok (database.edit_entry entry_id location.field value)
      | .ok none =>
        if h : database.has_group group_id = true then
          .ok (database.add_entry group_id (new_fields location value) (Database.lt_of_has_group h))
        else .error "KDBX group disappeared while an entry was being created."

/-- The database `save` writes. -/
def save (database : Database) : Except String Database :=
  if !database.version.is_kdb4 then .error write_version_error
  else .ok (if database.version = .KDB4 0 then { database with version := .KDB4 1 } else database)

/-! ## What a new group leaves alone -/

variable {db : Database} {location : Location} {value : String}
variable {name : String} {found : Option Nat}

theorem unique_group_ok {parent : Nat} (h : unique_group db parent name = .ok found) :
    db.has_group parent ∧
      (db.groups.filter fun g => g.parent == parent && g.name == name).map (·.id) = found.toList := by
  unfold unique_group at h
  split at h
  · cases h
  · rename_i hs
    refine ⟨by simpa using hs, ?_⟩
    split at h
    · rename_i hi
      cases h
      exact hi
    · rename_i id hi
      cases h
      exact hi
    · cases h

variable {title : String}

theorem find_entry_in_group_ok {group_id : Nat} (h : find_entry_in_group db group_id title = .ok found) :
    db.has_group group_id ∧
      (db.entries.filter fun e => e.group == group_id && e.get_title == some title).map (·.id) = found.toList := by
  unfold find_entry_in_group at h
  split at h
  · cases h
  · rename_i hs
    refine ⟨by simpa using hs, ?_⟩
    split at h
    · rename_i hi
      cases h
      exact hi
    · rename_i id hi
      cases h
      exact hi
    · cases h

/-- A group that is found has this name below this parent. -/
theorem unique_group_some {parent id : Nat} (h : unique_group db parent name = .ok (some id)) :
    ∃ g ∈ db.groups, g.id = id ∧ g.parent = parent ∧ g.name = name := by
  obtain ⟨-, hi⟩ := unique_group_ok h
  have hd : id ∈ (db.groups.filter fun g => g.parent == parent && g.name == name).map (·.id) :=
    hi ▸ List.mem_singleton_self id
  obtain ⟨g, hg, rfl⟩ := List.mem_map.mp hd
  obtain ⟨hm, ht⟩ := List.mem_filter.mp hg
  obtain ⟨hp, hn⟩ := Bool.and_eq_true_iff.mp ht
  exact ⟨g, hm, rfl, beq_iff_eq.mp hp, beq_iff_eq.mp hn⟩

theorem unique_group_lt {parent id : Nat} (h : unique_group db parent name = .ok (some id)) : id < db.next := by
  obtain ⟨g, hg, rfl, -⟩ := unique_group_some h
  exact (db.groups_lt g hg).2.2

section

variable {parent : Nat} {name : String} (hlt : parent < db.next)

theorem add_group_has {id : Nat} (h : id < db.next) : (db.add_group parent name hlt).has_group id = db.has_group id := by
  simp only [Database.has_group, Database.add_group, List.any_append, List.any_cons, List.any_nil, Bool.or_false]
  rw [beq_false_of_ne (Nat.ne_of_gt h), Bool.or_false]

theorem add_group_has_new : (db.add_group parent name hlt).has_group db.next := by
  simp [Database.has_group, Database.add_group]

theorem add_group_entries {id : Nat} {title : String} (h : id < db.next) :
    find_entry_in_group (db.add_group parent name hlt) id title = find_entry_in_group db id title := by
  unfold find_entry_in_group
  rw [add_group_has hlt h]
  rfl

/-- Below the new group there is nothing. -/
theorem add_group_new (title : String) (names : List String) :
    find_entry_below (db.add_group parent name hlt) title db.next names = .ok none := by
  cases names with
  | nil =>
    have he : ((db.add_group parent name hlt).entries.filter fun e =>
        e.group == db.next && e.get_title == some title) = [] := by
      refine List.filter_eq_nil_iff.mpr fun e hn => ?_
      simp [Nat.ne_of_lt (db.entries_lt e hn).2]
    simp only [find_entry_below, find_entry_in_group, add_group_has_new, Bool.not_true, Bool.false_eq_true, if_false, he,
      List.map_nil]
  | cons c names =>
    have he : ((db.add_group parent name hlt).groups.filter fun g =>
        g.parent == db.next && g.name == c) = [] := by
      refine List.filter_eq_nil_iff.mpr fun g hg => ?_
      rcases List.mem_append.mp hg with hg | hg
      · simp [Nat.ne_of_lt (db.groups_lt g hg).1]
      · obtain rfl := List.mem_singleton.mp hg
        simp [Nat.ne_of_lt hlt]
    have hu : unique_group (db.add_group parent name hlt) db.next c = .ok none := by
      simp only [unique_group, add_group_has_new, Bool.not_true, Bool.false_eq_true, if_false, he, List.map_nil]
    simp only [find_entry_below, hu]

/-- Elsewhere a group is found as before. -/
theorem add_group_unique {id : Nat} {child : String} (h : id < db.next) (hn : ¬ (id = parent ∧ child = name)) :
    unique_group (db.add_group parent name hlt) id child = unique_group db id child := by
  have hw : (parent == id && name == child) = false := by
    cases ht : (parent == id && name == child) with
    | false => rfl
    | true =>
      obtain ⟨hp, hm⟩ := Bool.and_eq_true_iff.mp ht
      exact absurd ⟨(beq_iff_eq.mp hp).symm, (beq_iff_eq.mp hm).symm⟩ hn
  unfold unique_group
  rw [add_group_has hlt h]
  simp only [Database.add_group, List.filter_append, List.filter_cons, List.filter_nil, hw, Bool.false_eq_true, if_false,
    List.append_nil]

variable (hnone : unique_group db parent name = .ok none)

include hnone in
/-- What is new is found. -/
theorem add_group_found : unique_group (db.add_group parent name hlt) parent name = .ok (some db.next) := by
  obtain ⟨hs, hi⟩ := unique_group_ok hnone
  unfold unique_group
  rw [add_group_has hlt hlt, hs]
  simp only [Bool.not_true, Bool.false_eq_true, if_false, Database.add_group, List.filter_append, List.map_append, hi]
  simp

include hnone in
theorem add_group_kept {id found : Nat} {c : String} (h : unique_group db id c = .ok (some found)) :
    unique_group (db.add_group parent name hlt) id c = .ok (some found) := by
  rw [add_group_unique hlt (Database.lt_of_has_group (unique_group_ok h).1), h]
  rintro ⟨rfl, rfl⟩
  rw [hnone] at h
  cases h

include hnone in
/-- Entries are found as before. -/
theorem add_group_find (title : String) (names : List String) {start : Nat} (h : start < db.next) :
    find_entry_below (db.add_group parent name hlt) title start names = find_entry_below db title start names := by
  induction names generalizing start with
  | nil => exact add_group_entries hlt h
  | cons c names ih =>
    by_cases hn : start = parent ∧ c = name
    · obtain ⟨rfl, rfl⟩ := hn
      simp only [find_entry_below, add_group_found hlt hnone, hnone]
      exact add_group_new hlt title names
    · simp only [find_entry_below, add_group_unique hlt h hn]
      cases hu : unique_group db start c with
      | error error => rfl
      | ok found =>
        cases found with
        | none => rfl
        | some next => exact ih (unique_group_lt hu)

end

/-! ## Where names lead -/

/-- The group a path of names leads to. -/
def group_below (db : Database) : Nat → List String → Option Nat
  | id, [] => some id
  | id, name :: names =>
    match unique_group db id name with
    | .ok (some next) => group_below db next names
    | _ => none

variable {names : List String}

theorem group_below_concat {start id : Nat} (h : group_below db start (names ++ [name]) = some id) :
    ∃ parent, group_below db start names = some parent ∧ unique_group db parent name = .ok (some id) := by
  induction names generalizing start with
  | nil =>
    simp only [List.nil_append, group_below] at h
    split at h
    · rename_i next hn
      exact ⟨start, rfl, Option.some.inj h ▸ hn⟩
    · cases h
  | cons c names ih =>
    simp only [List.cons_append, group_below] at h ⊢
    split at h
    · exact ih h
    · cases h

/-- The paths of two groups differ. -/
theorem group_below_inj {names' : List String} {id : Nat} (h : group_below db ROOT names = some id)
    (h' : group_below db ROOT names' = some id) : names = names' := by
  have hr : ∀ parent name, ¬ unique_group db parent name = .ok (some ROOT) := by
    intro parent name hf
    obtain ⟨g, hg, hi, -⟩ := unique_group_some hf
    exact Nat.lt_irrefl _ (hi ▸ (db.groups_lt g hg).2.1)
  induction names using List.reverseRecOn generalizing names' id with
  | nil =>
    rcases List.eq_nil_or_concat names' with rfl | ⟨f, last, rfl⟩
    · rfl
    · rw [List.concat_eq_append] at h'
      obtain ⟨parent, -, hl⟩ := group_below_concat h'
      exact absurd (Option.some.inj h ▸ hl) (hr parent last)
  | append_singleton f last ih =>
    obtain ⟨parent, hp, hl⟩ := group_below_concat h
    rcases List.eq_nil_or_concat names' with rfl | ⟨f', l', rfl⟩
    · exact absurd (Option.some.inj h' ▸ hl) (hr parent last)
    · rw [List.concat_eq_append] at h' ⊢
      obtain ⟨p', hp', hl'⟩ := group_below_concat h'
      obtain ⟨g, hg, hi, rfl, rfl⟩ := unique_group_some hl
      obtain ⟨group', hg', hi', rfl, rfl⟩ := unique_group_some hl'
      obtain rfl : g = group' := List.inj_on_of_nodup_map db.group_ids hg hg' (hi.trans hi'.symm)
      rw [ih hp hp']

theorem find_entry_below_group {start id : Nat} (h : group_below db start names = some id) :
    find_entry_below db title start names = find_entry_in_group db id title := by
  induction names generalizing start with
  | nil =>
    cases h
    rfl
  | cons name names ih =>
    simp only [group_below] at h
    split at h
    · rename_i next hn
      simp only [find_entry_below, hn]
      exact ih h
    · cases h

theorem find_entry_below_some {start entry_id : Nat} (h : find_entry_below db title start names = .ok (some entry_id)) :
    ∃ id, group_below db start names = some id ∧ find_entry_in_group db id title = .ok (some entry_id) := by
  induction names generalizing start with
  | nil => exact ⟨start, rfl, h⟩
  | cons name names ih =>
    simp only [find_entry_below] at h
    split at h
    · cases h
    · cases h
    · rename_i next hn
      obtain ⟨id, hi, hf⟩ := ih h
      refine ⟨id, ?_, hf⟩
      simp only [group_below, hn]
      exact hi

/-- An entry that is found has this title in this group. -/
theorem find_entry_in_group_some {id entry_id : Nat} (h : find_entry_in_group db id title = .ok (some entry_id)) :
    ∃ e ∈ db.entries, e.id = entry_id ∧ e.group = id ∧ e.get_title = some title := by
  obtain ⟨-, hi⟩ := find_entry_in_group_ok h
  have hd : entry_id ∈
      (db.entries.filter fun e => e.group == id && e.get_title == some title).map (·.id) :=
    hi ▸ List.mem_singleton_self entry_id
  obtain ⟨e, he, rfl⟩ := List.mem_map.mp hd
  obtain ⟨hm, ht⟩ := List.mem_filter.mp he
  obtain ⟨hg, htitle⟩ := Bool.and_eq_true_iff.mp ht
  exact ⟨e, hm, rfl, beq_iff_eq.mp hg, beq_iff_eq.mp htitle⟩

/-- Two locations of one entry differ in their fields only. -/
theorem find_entry_inj {l' : Location} {entry_id : Nat} (h : find_entry db location = .ok (some entry_id))
    (h' : find_entry db l' = .ok (some entry_id)) (hfield : l'.field = location.field) : l' = location := by
  obtain ⟨id, hg, hf⟩ := find_entry_below_some h
  obtain ⟨id', hg', hf'⟩ := find_entry_below_some h'
  obtain ⟨e, he, hi, rfl, htitle⟩ := find_entry_in_group_some hf
  obtain ⟨entry', he', hi', rfl, ht'⟩ := find_entry_in_group_some hf'
  obtain rfl : e = entry' := List.inj_on_of_nodup_map db.entry_ids he he' (hi.trans hi'.symm)
  have hr := group_below_inj hg' hg
  have ht := Option.some.inj (ht'.symm.trans htitle)
  cases location
  cases l'
  simp only at hr ht hfield
  rw [hr, ht, hfield]

theorem id_of_entry {id : Nat} {e : Entry} (h : db.entry id = some e) : e.id = id := by
  have ht := List.find?_some h
  exact beq_iff_eq.mp ht

theorem entry_of_mem {entry : Entry} (h : entry ∈ db.entries) : db.entry entry.id = some entry := by
  cases hf : db.entry entry.id with
  | none => exact absurd (beq_self_eq_true entry.id) (List.find?_eq_none.mp hf entry h)
  | some found =>
    rw [List.inj_on_of_nodup_map db.entry_ids (List.mem_of_find?_eq_some hf) h (id_of_entry hf)]

/-! ## Groups that are made -/

/-- One database after groups were made in it. -/
structure Made (db made : Database) : Prop where
  next : db.next ≤ made.next
  entries : made.entries = db.entries
  version : made.version = db.version
  kept : ∀ parent name id, unique_group db parent name = .ok (some id) → unique_group made parent name = .ok (some id)
  find : ∀ title names start, start < db.next → find_entry_below made title start names = find_entry_below db title start names

theorem Made.refl : Made db db := ⟨le_rfl, rfl, rfl, fun _ _ _ h => h, fun _ _ _ _ => rfl⟩

theorem find_or_create_group_spec {m : Database} {current id : Nat}
    (h : find_or_create_group db current names = .ok (m, id)) (hlt : current < db.next) :
    Made db m ∧ group_below m current names = some id := by
  induction names generalizing db current with
  | nil =>
    simp only [find_or_create_group, Except.ok.injEq, Prod.mk.injEq] at h
    obtain ⟨rfl, rfl⟩ := h
    exact ⟨.refl, rfl⟩
  | cons name names ih =>
    simp only [find_or_create_group] at h
    split at h
    · cases h
    · rename_i next hn
      obtain ⟨hm, hi⟩ := ih h (unique_group_lt hn)
      refine ⟨hm, ?_⟩
      simp only [group_below, hm.kept _ _ _ hn]
      exact hi
    · rename_i hnone
      split at h
      · obtain ⟨hm, hi⟩ := ih h (Nat.lt_succ_self db.next)
        have hf := hm.kept _ _ _ (add_group_found hlt hnone)
        refine ⟨?_, ?_⟩
        · exact {
            next := Nat.le_of_succ_le hm.next
            entries := hm.entries
            version := hm.version
            kept := fun parent c id hk => hm.kept _ _ _ (add_group_kept hlt hnone hk)
            find := fun title p start hs =>
              (hm.find title p start (Nat.lt_succ_of_lt hs)).trans (add_group_find hlt hnone title p hs) }
        · simp only [group_below, hf]
          exact hi
      · cases h

/-! ## An entry edited -/

section

variable {entry_id : Nat} {field : String} (hfield : field ≠ TITLE)

theorem edit_title (e : Entry) (hfield : field ≠ TITLE) : (e.edit entry_id field value).get_title = e.get_title := by
  unfold Entry.edit Entry.get_title
  split
  · exact Map.insert_of_ne hfield.symm _ _
  · rfl

include hfield in
theorem edit_find (title : String) (names : List String) (start : Nat) :
    find_entry_below (db.edit_entry entry_id field value) title start names = find_entry_below db title start names := by
  induction names generalizing start with
  | nil =>
    have hi : ((db.edit_entry entry_id field value).entries.filter fun e =>
          e.group == start && e.get_title == some title).map (·.id) =
        (db.entries.filter fun e => e.group == start && e.get_title == some title).map (·.id) := by
      simp only [Database.edit_entry, List.filter_map, List.map_map, Function.comp_def, Entry.edit_id, Entry.edit_group,
        edit_title _ hfield]
    simp only [find_entry_below, find_entry_in_group, hi]
    rfl
  | cons name names ih =>
    have hu : unique_group (db.edit_entry entry_id field value) start name = unique_group db start name := rfl
    simp only [find_entry_below, hu, ih]

theorem edit_entry_entry (id : Nat) :
    (db.edit_entry entry_id field value).entry id = (db.entry id).map (Entry.edit entry_id field value) := by
  simp only [Database.entry, Database.edit_entry, List.find?_map, Function.comp_def, Entry.edit_id]

end

/-! ## An entry added -/

section

variable {group_id : Nat} {fields : Map String String} {title : String} (hlt : group_id < db.next)
  (htitle : fields TITLE = some title)

include htitle in
/-- Elsewhere entries are found as before. -/
theorem add_find (path : List String) (start : Nat) (wanted : String)
    (hn : ¬ (group_below db start path = some group_id ∧ wanted = title)) :
    find_entry_below (db.add_entry group_id fields hlt) wanted start path = find_entry_below db wanted start path := by
  induction path generalizing start with
  | nil =>
    have hw : (group_id == start && some title == some wanted) = false := by
      cases ht : (group_id == start && some title == some wanted) with
      | false => rfl
      | true =>
        obtain ⟨hg, hm⟩ := Bool.and_eq_true_iff.mp ht
        exact absurd ⟨congrArg some (beq_iff_eq.mp hg).symm, (Option.some.inj (beq_iff_eq.mp hm)).symm⟩ hn
    have hi : ((db.add_entry group_id fields hlt).entries.filter fun e =>
          e.group == start && e.get_title == some wanted) =
        db.entries.filter fun e => e.group == start && e.get_title == some wanted := by
      simp only [Database.add_entry, List.filter_append, List.filter_cons, List.filter_nil, Entry.get_title, htitle, hw,
        Bool.false_eq_true, if_false, List.append_nil]
    simp only [find_entry_below, find_entry_in_group, hi]
    rfl
  | cons name path ih =>
    have hu : unique_group (db.add_entry group_id fields hlt) start name = unique_group db start name := rfl
    simp only [find_entry_below, hu]
    simp only [group_below] at hn
    cases hf : unique_group db start name with
    | error error => rfl
    | ok found =>
      cases found with
      | none => rfl
      | some next =>
        rw [hf] at hn
        exact ih next hn

include htitle in
theorem add_found {p : List String} (hp : group_below db ROOT p = some group_id)
    (hnone : find_entry_in_group db group_id title = .ok none) :
    find_entry_below (db.add_entry group_id fields hlt) title ROOT p = .ok (some db.next) := by
  have hp' : group_below (db.add_entry group_id fields hlt) ROOT p = some group_id := by
    have hs : ∀ start names, group_below (db.add_entry group_id fields hlt) start names = group_below db start names := by
      intro start names
      induction names generalizing start with
      | nil => rfl
      | cons name names ih =>
        have hu : unique_group (db.add_entry group_id fields hlt) start name = unique_group db start name := rfl
        simp only [group_below, hu, ih]
    rw [hs, hp]
  obtain ⟨hhs, hi⟩ := find_entry_in_group_ok hnone
  have hh' : (db.add_entry group_id fields hlt).has_group group_id := hhs
  rw [find_entry_below_group hp']
  unfold find_entry_in_group
  rw [hh']
  simp only [Bool.not_true, Bool.false_eq_true, if_false, Database.add_entry, List.filter_append, List.map_append, hi]
  simp [Entry.get_title, htitle]

theorem add_entry_new : (db.add_entry group_id fields hlt).entry db.next = some ⟨db.next, group_id, fields⟩ :=
  @entry_of_mem (db.add_entry group_id fields hlt) ⟨db.next, group_id, fields⟩ (List.mem_append_right _ (List.mem_singleton_self _))

theorem add_entry_old {entry : Entry} (h : entry ∈ db.entries) :
    (db.add_entry group_id fields hlt).entry entry.id = some entry :=
  entry_of_mem (List.mem_append_left _ h)

end

/-! ## `set` -/

theorem new_fields_title (h : location.field ≠ TITLE) : new_fields location value TITLE = some location.title := by
  rw [new_fields, Map.insert_of_ne h.symm, Map.insert_self]

variable {af : Database}

/-- How `set` changes the database. -/
theorem set_cases (h : set db location value = .ok af) :
    ∃ m group_id, Made db m ∧ group_below m ROOT location.groups = some group_id ∧
      ((∃ entry_id, find_entry_in_group m group_id location.title = .ok (some entry_id) ∧
          af = m.edit_entry entry_id location.field value) ∨
        ∃ hlt : group_id < m.next, find_entry_in_group m group_id location.title = .ok none ∧
          af = m.add_entry group_id (new_fields location value) hlt) := by
  unfold set at h
  split at h
  · cases h
  · split at h
    · cases h
    · rename_i m group_id hm
      obtain ⟨hs, hg⟩ := find_or_create_group_spec hm db.root_lt
      refine ⟨m, group_id, hs, hg, ?_⟩
      split at h
      · cases h
      · rename_i entry_id hf
        exact .inl ⟨entry_id, hf, (Except.ok.inj h).symm⟩
      · rename_i hnone
        split at h
        · exact .inr ⟨_, hnone, (Except.ok.inj h).symm⟩
        · cases h

theorem get_of_find (h : find_entry db location = .ok found) :
    get_from_database db location = .ok (found.bind fun id => (db.entry id).bind fun e => e.fields location.field) := by
  unfold get_from_database
  rw [h]
  cases found with
  | none | some id => rfl

theorem set_get_self (hfield : location.field ≠ TITLE) (h : set db location value = .ok af) :
    get_from_database af location = .ok (some value) := by
  obtain ⟨m, group_id, -, hg, ⟨entry_id, hf, rfl⟩ | ⟨hlt, hnone, rfl⟩⟩ := set_cases h
  · have hd : find_entry (m.edit_entry entry_id location.field value) location = .ok (some entry_id) := by
      rw [find_entry, edit_find hfield, find_entry_below_group hg, hf]
    obtain ⟨e, he, rfl, -⟩ := find_entry_in_group_some hf
    rw [get_of_find hd, Option.bind_some, edit_entry_entry, entry_of_mem he]
    simp [Entry.edit]
  · rw [get_of_find (add_found hlt (new_fields_title hfield) hg hnone), Option.bind_some, add_entry_new]
    simp [new_fields]

theorem set_get_other {other : Location} (hfield : location.field ≠ TITLE) (ho : other.field ≠ TITLE)
    (hn : other ≠ location) (h : set db location value = .ok af) :
    get_from_database af other = get_from_database db other := by
  obtain ⟨made, group_id, hm, hg, hc⟩ := set_cases h
  have hf : find_entry made other = find_entry db other := hm.find _ _ _ db.root_lt
  rcases hc with ⟨entry_id, hfn, rfl⟩ | ⟨hlt, hnone, rfl⟩
  · have he : find_entry (made.edit_entry entry_id location.field value) other = find_entry made other :=
      edit_find hfield _ _ _
    cases hr : find_entry db other with
    | error error => simp only [get_from_database, he, hf, hr]
    | ok found =>
      rw [get_of_find hr, get_of_find (he.trans (hf.trans hr))]
      cases found with
      | none => rfl
      | some id =>
        have hs : made.entry id = db.entry id := by simp only [Database.entry, hm.entries]
        simp only [Option.bind_some, edit_entry_entry, hs]
        cases hen : db.entry id with
        | none => rfl
        | some entry =>
          have hi := id_of_entry hen
          simp only [Option.map_some, Option.bind_some, Entry.edit]
          split
          · rename_i ht
            -- the edited entry itself: the locations differ in their fields
            have hl : find_entry made location = .ok (some entry_id) := (find_entry_below_group hg).trans hfn
            have hfl : other.field ≠ location.field := by
              intro hs
              refine hn (find_entry_inj hl ?_ hs)
              rw [hf, hr, ← hi, ht]
            exact congrArg Except.ok (Map.insert_of_ne hfl value entry.fields)
          · rfl
  · by_cases hat : group_below made ROOT other.groups = some group_id ∧ other.title = location.title
    · -- the new entry: it has no other field yet
      have hgr : other.groups = location.groups := group_below_inj hat.1 hg
      have hfl : other.field ≠ location.field := by
        intro hs
        refine hn ?_
        cases other
        cases location
        simp only at hgr hat hs
        rw [hgr, hat.2, hs]
      have hb : find_entry made other = .ok none := by
        rw [find_entry, hat.2, find_entry_below_group hat.1, hnone]
      have haf : find_entry (made.add_entry group_id (new_fields location value) hlt) other = .ok (some made.next) := by
        rw [find_entry, hat.2]
        exact add_found hlt (new_fields_title hfield) hat.1 hnone
      have hab : new_fields location value other.field = none := by
        rw [new_fields, Map.insert_of_ne hfl, Map.insert_of_ne ho]
        rfl
      rw [get_of_find haf, get_of_find (hf ▸ hb), Option.bind_some, add_entry_new, Option.bind_some]
      exact congrArg Except.ok hab
    · have ha : find_entry (made.add_entry group_id (new_fields location value) hlt) other = find_entry made other :=
        add_find hlt (new_fields_title hfield) _ _ _ hat
      cases hr : find_entry db other with
      | error error => simp only [get_from_database, ha, hf, hr]
      | ok found =>
        rw [get_of_find hr, get_of_find (ha.trans (hf.trans hr))]
        cases found with
        | none => rfl
        | some id =>
          obtain ⟨_, -, hin⟩ := find_entry_below_some (hf.trans hr)
          obtain ⟨entry, hen, rfl, -⟩ := find_entry_in_group_some hin
          have hb : db.entry entry.id = some entry := entry_of_mem (hm.entries ▸ hen)
          simp only [Option.bind_some, add_entry_old hlt hen, hb]

theorem save_get (h : save db = .ok af) (location : Location) :
    get_from_database af location = get_from_database db location := by
  unfold save at h
  split at h
  · cases h
  · cases h
    split
    · have hf : ∀ title start names, find_entry_below { db with version := .KDB4 1 } title start names =
          find_entry_below db title start names := by
        intro title start names
        induction names generalizing start with
        | nil => rfl
        | cons name names ih =>
          have hu : unique_group { db with version := .KDB4 1 } start name = unique_group db start name := rfl
          simp only [find_entry_below, hu, ih]
      simp only [get_from_database, find_entry, hf]
      rfl
    · rfl

/-! ## Addresses -/

/-- `str::eq_ignore_ascii_case`. -/
def eq_ignore_ascii_case (a b : String) : Bool := a.toList.map Char.toLower == b.toList.map Char.toLower

/-- What `check_writable` lets through: the title is part of the address. -/
structure Address where
  location : Location
  writable : eq_ignore_ascii_case location.field TITLE = false
  deriving DecidableEq

theorem Address.field_ne (a : Address) : a.location.field ≠ TITLE := by
  intro h
  have hw := a.writable
  rw [h] at hw
  exact absurd (beq_self_eq_true (TITLE.toList.map Char.toLower)) (Bool.eq_false_iff.mp hw)

end Monosecret.Providers.KdbxProvider
