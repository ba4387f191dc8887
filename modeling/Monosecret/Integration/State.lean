/-
  Monosecret.Integration.State — what the Docker and the Claude Code integration share
  (`monosecret/src/cli/docker.rs`, `cli/claude.rs`): options, paths, the settings file of the
  other program, and the entries of a state file.

  A state file is the JSON value it holds, none when there is no file; paths are UTF-8, as a
  value with any other path is not written. `upsert` puts an entry in the place of the one it
  replaces, or at the end: a key that names at most one entry still does
  (`upsert_nodup`).
-/

import Monosecret.Audit.Log
import Monosecret.Integration.Registry
import Monosecret.Rpc.Jsonrpc

namespace Monosecret.Integration

open Lib Manifest Rpc

/-! ## Options and paths -/

/-- Which options stand on the command line, rather than in the environment. -/
structure TypedArgs where
  profile : Bool
  provider : Bool
  reason : Bool

def is_absolute (path : String) : Bool := path.toList.head? == some '/'

structure AbsolutePath where
  text : String
  absolute : is_absolute text = true

/-- `Path::join`. -/
def join (directory path : String) : String :=
  if is_absolute path then path
  else if directory.toList.getLast? = some '/' then directory ++ path
  else directory ++ "/" ++ path

theorem join_absolute {d : String} (h : is_absolute d) (p : String) :
    is_absolute (join d p) := by
  unfold join
  have hn : d.toList ≠ [] := fun he => by simp [is_absolute, he] at h
  split
  · assumption
  · split
    · simp only [is_absolute, String.toList_append, List.head?_append_of_ne_nil _ hn] at h ⊢
      exact h
    · simp only [is_absolute, String.toList_append, List.append_assoc, List.head?_append_of_ne_nil _ hn] at h ⊢
      exact h

def manifest_path (current_dir : Except String AbsolutePath) (path : String) : Except String AbsolutePath :=
  if h : is_absolute path then .ok ⟨path, h⟩
  else current_dir.map fun directory => ⟨join directory.text path, join_absolute directory.absolute path⟩

/-! ## Checks -/

def has_control (text : String) : Bool := text.toList.any is_ascii_control

/-- `credential` is what the error calls the credential. -/
def validate_secret {rules : Rules} (credential : String) (secrets : Secrets rules) (name profile : String) :
    Except String Unit :=
  if name = "" then .error "Secret name cannot be empty"
  else
    match secrets.resolve_secret_config name none with
    | none => .error s!"Secret '{name}' is not declared in Monosecret profile '{profile}'"
    | some secret =>
      if secret.as_path = some true then
        .error s!"Secret '{name}' uses as_path and cannot be returned as a {credential} credential"
      else .ok ()

theorem validate_secret_ok {r : Rules} {c n p : String} {s : Secrets r}
    (h : validate_secret c s n p = .ok ()) :
    n ≠ "" ∧ (s.resolve_secret_config n none).isSome := by
  unfold validate_secret at h
  split at h
  · cases h
  · rename_i hn
    refine ⟨hn, ?_⟩
    cases hc : s.resolve_secret_config n none with
    | none => simp [hc] at h
    | some cn => rfl

/-- `answer` is what the operator answers at a terminal. -/
def confirm (refusal : String) (yes terminal : Bool) (answer : Except String Bool) : Except String Bool :=
  if yes then .ok true else if terminal then answer else .error refusal

/-- The settings file of the other program: none when there is no file, and inside that none
    when it is not JSON. -/
abbrev Contents := Option (Option Json)

def parse_object (unparsed other : String) : Contents → Except String Json
  | none => .ok (.obj [])
  | some none => .error unparsed
  | some (some value) => if value.is_obj then .ok value else .error other

/-- How a command ends that does not fail. -/
inductive Done where
  | AlreadyConfigured
  | Cancelled
  | Configured
  | NothingFound
  | Removed
  deriving DecidableEq

/-! ## Reading a state file -/

/-- The fields of a struct that knows no other, none of them given twice. -/
def state_fields (names : List String) (value : Json) : Option (List (Option Json)) :=
  match value with
  | .obj members =>
    if (members.map Prod.fst).Nodup ∧ members.all fun member => names.contains member.1 then struct_fields names value else none
  | _ => none

theorem lookup_zip {names : List String} {v : List Json} (hn : names.Nodup) (hl : names.length = v.length) :
    names.map (fun n => (names.zip v).lookup n) = v.map some := by
  induction names generalizing v with
  | nil =>
    obtain rfl := List.eq_nil_of_length_eq_zero hl.symm
    rfl
  | cons n names ih =>
    obtain ⟨hm, hn⟩ := List.nodup_cons.mp hn
    cases v with
    | nil => cases hl
    | cons value v =>
      have hr : ∀ other ∈ names, ((n, value) :: names.zip v).lookup other = (names.zip v).lookup other := by
        intro other ho
        have hne : (other == n) = false := beq_false_of_ne fun he => hm (he ▸ ho)
        rw [List.lookup_cons, hne]
      rw [List.zip_cons_cons, List.map_cons, List.map_cons, List.lookup_cons, beq_self_eq_true, List.map_congr_left hr,
        ih hn (Nat.succ.inj hl)]

/-- A struct that is written with its fields is read with them. -/
theorem state_fields_written (names : List String) (v : List Json) (hn : names.Nodup) (hl : names.length = v.length) :
    state_fields names (.obj (names.zip v)) = some (v.map some) := by
  have hk : (names.zip v).map Prod.fst = names := List.map_fst_zip hl.le
  have hkn : (names.zip v).all (fun m => names.contains m.1) := by
    refine List.all_eq_true.mpr fun m hm => List.contains_iff_mem.mpr ?_
    exact hk ▸ List.mem_map_of_mem hm
  have hd : ((names.zip v).map Prod.fst).Nodup := by rwa [hk]
  rw [state_fields, if_pos ⟨hd, hkn⟩, struct_fields, lookup_zip hn hl]

def optional_text (field : Option Json) : Option (Option String) := defaulted none (nullable string) field

def nullable_text (text : Option String) : Json := (text.map Json.str).getD .null

@[simp] theorem optional_nullable_text (text : Option String) : optional_text (some (nullable_text text)) = some text := by
  cases text <;> rfl

theorem u8_read_back {n : Nat} (h : n < 2 ^ 8) :
    (u64 (.int n)).filter (· < 2 ^ 8) = some n := by
  simp only [u64, Int.natCast_nonneg, if_true, Int.toNat_natCast]
  exact Option.filter_eq_some_iff.mpr ⟨rfl, decide_eq_true h⟩

theorem list_map {α : Type} {e : α → Json} {d : Json → Option α} (h : ∀ a, d (e a) = some a) (l : List α) :
    list d (.arr (l.map e)) = some l := by
  rw [list]
  induction l with
  | nil => rfl
  | cons a l ih => simp [h, ih]

/-! ## Entries -/

/-- The keys of a list are distinct and new: the first is, and so are the others after it. -/
theorem distinct_cons {α β : Type} (f : α → β) (seen : List β) (a : α) (l : List α) :
    (((a :: l).map f).Nodup ∧ ∀ b ∈ a :: l, f b ∉ seen) ↔ f a ∉ seen ∧ (l.map f).Nodup ∧ ∀ b ∈ l, f b ∉ f a :: seen := by
  rw [List.map_cons, List.nodup_cons, List.forall_mem_cons]
  constructor
  · rintro ⟨⟨hf, hn⟩, hw, ho⟩
    refine ⟨hw, hn, fun b hb hm => ?_⟩
    rcases List.mem_cons.mp hm with hk | hm
    · exact hf (hk ▸ List.mem_map_of_mem hb)
    · exact ho b hb hm
  · rintro ⟨hw, hn, ho⟩
    refine ⟨⟨fun hm => ?_, hn⟩, hw, fun b hb hm => ho b hb (.tail _ hm)⟩
    obtain ⟨b, hb, hk⟩ := List.mem_map.mp hm
    exact ho b hb (hk ▸ List.mem_cons_self)

section

variable {α β : Type} (same : α → Bool)

def upsert (a : α) (l : List α) : List α :=
  match l.findIdx? same with
  | some i => l.set i a
  | none => l ++ [a]

variable {same} {a b : α} {l : List α}

theorem mem_upsert_self : a ∈ upsert same a l := by
  unfold upsert
  cases h : l.findIdx? same with
  | none => exact List.mem_append_right _ (.head _)
  | some i =>
    obtain ⟨hl, -⟩ := List.findIdx?_eq_some_iff_getElem.mp h
    exact List.mem_set hl a

theorem mem_upsert (h : b ∈ upsert same a l) : b = a ∨ b ∈ l := by
  unfold upsert at h
  cases hf : l.findIdx? same with
  | none =>
    rw [hf] at h
    exact (List.mem_append.mp h).symm.imp List.mem_singleton.mp id
  | some i =>
    rw [hf] at h
    exact (List.mem_or_eq_of_mem_set h).symm

/-- All entries are as they should when they were and the new one is. -/
theorem forall_upsert {P : α → Prop} (h : ∀ b ∈ l, P b) : (∀ b ∈ upsert same a l, P b) ↔ P a := by
  constructor
  · intro hl
    exact hl a mem_upsert_self
  · intro ha b hb
    rcases mem_upsert hb with rfl | hb
    · exact ha
    · exact h b hb

/-- The entry that is replaced has the key of the new one, and no other entry does. -/
theorem upsert_nodup {k : α → β} (hm : ∀ b ∈ l, same b → k b = k a)
    (hn : (∀ b ∈ l, same b = false) → k a ∉ l.map k) (h : (l.map k).Nodup) :
    ((upsert same a l).map k).Nodup := by
  unfold upsert
  cases hf : l.findIdx? same with
  | none =>
    have hno := hn fun b hb => by simpa using List.findIdx?_eq_none_iff.mp hf b hb
    rw [List.map_append, List.map_singleton]
    exact List.concat_eq_append ▸ h.concat hno
  | some i =>
    obtain ⟨hl, hs, -⟩ := List.findIdx?_eq_some_iff_getElem.mp hf
    rw [map_set_eq (List.getElem?_eq_getElem hl) (hm _ (List.getElem_mem hl) hs).symm]
    exact h

end

end Monosecret.Integration
