/-
  Monosecret.Providers.FileStore — `set` and `delete` on one file, from many threads
  (`DotEnvProvider`, `AgeProvider` and `KdbxProvider` in `monosecret/src/provider/`).

  Each operation reads and parses the whole file, changes its own copy and replaces the
  file by it. The KDBX provider holds one lock from the read to the replacement, the others
  none. Any step may fail, and then the operation returns an error and the file stays.

  `Reflected`: every key reads as the last operation that returned Ok on it left it, and a
  key without one as at the start. Proved, over every run in which an operation completes
  only while its copy still agrees with the file on the keys of the operations completed so
  far, its own apart, or finds nothing to remove while there is nothing (`current`): it
  holds in every state, and a completion that is not `current` breaks it; KDBX runs are
  always `current` (`reflected_iff`).

  Runs: two threads set different keys of one dotenv file, both having read it before
  either replaced it, and the first value is gone (`lost`).
-/

import Monosecret.Lib.Lists
import Monosecret.Lib.Machine
import Monosecret.Providers.Kdbx

namespace Monosecret.Providers.FileStore

open Lib Machine

/-! ## The providers -/

/-- A provider that rewrites one file. `get` is what a key reads as in a parsed file. -/
structure Backend where
  Key : Type
  key_eq : DecidableEq Key
  Copy : Type
  /-- What `set` starts from when there is no file. -/
  new : Copy
  get : Copy → Key → Except String (Option String)
  set : Copy → Key → String → Except String Copy
  /-- `none`: there is nothing to remove. -/
  delete : Option (Copy → Key → Option Copy)
  save : Copy → Except String Copy
  locked : Bool
  get_new : ∀ key, get new key = .ok none
  set_self : ∀ {copy key value after}, set copy key value = .ok after → get after key = .ok (some value)
  set_other : ∀ {copy key value after}, set copy key value = .ok after → ∀ other, other ≠ key → get after other = get copy other
  delete_self : ∀ remove ∈ delete, ∀ {copy key after}, remove copy key = some after → get after key = .ok none
  delete_other : ∀ remove ∈ delete, ∀ {copy key after}, remove copy key = some after →
    ∀ other, other ≠ key → get after other = get copy other
  delete_none : ∀ remove ∈ delete, ∀ {copy key}, remove copy key = none → get copy key = .ok none
  save_get : ∀ {copy after}, save copy = .ok after → ∀ key, get after key = get copy key

instance (B : Backend) : DecidableEq B.Key := B.key_eq

/-- The key/value pairs of a dotenv text. -/
abbrev Vars := Map String String

def remove (vars : Vars) (key : String) : Option Vars := if vars key = none then none else some (vars.remove key)

/-- The dotenv provider and the age provider change the same map. -/
def vars_backend : Backend where
  Key := String
  key_eq := inferInstance
  Copy := Vars
  new := Map.empty
  get vars key := .ok (vars key)
  set vars key value := .ok (vars.insert key value)
  delete := some remove
  save := .ok
  locked := false
  get_new _ := rfl
  set_self h := by
    cases h
    rw [Map.insert_self]
  set_other h other hne := by
    cases h
    rw [Map.insert_of_ne hne]
  delete_self r hr {copy key after} h := by
    cases hr
    unfold remove at h
    split at h
    · cases h
    · cases h
      rw [Map.remove_self]
  delete_other r hr {copy key after} h other hne := by
    cases hr
    unfold remove at h
    split at h
    · cases h
    · cases h
      rw [Map.remove_of_ne hne]
  delete_none r hr {copy key} h := by
    cases hr
    unfold remove at h
    split at h
    · rename_i hnone
      rw [hnone]
    · cases h
  save_get h key := by
    cases h
    rfl

/-- `deletion_unsupported`; the lock is `KDBX_IO_LOCK`. -/
def kdbx_backend : Backend where
  Key := KdbxProvider.Address
  key_eq := inferInstance
  Copy := KdbxProvider.Database
  new := .new
  get database address := KdbxProvider.get_from_database database address.location
  set database address value := KdbxProvider.set database address.location value
  delete := none
  save := KdbxProvider.save
  locked := true
  get_new address := by
    cases hgroups : address.location.groups with
    | nil => simp only [KdbxProvider.get_from_database, KdbxProvider.find_entry, hgroups]; rfl
    | cons name names => simp only [KdbxProvider.get_from_database, KdbxProvider.find_entry, hgroups]; rfl
  set_self {_ address _ _} h := KdbxProvider.set_get_self address.field_ne h
  set_other {_ address _ _} h other hne := KdbxProvider.set_get_other address.field_ne other.field_ne (fun h => hne (by
    cases address
    cases other
    cases h
    rfl)) h
  delete_self := nofun
  delete_other := nofun
  delete_none := nofun
  save_get h address := KdbxProvider.save_get h address.location

inductive Kind where
  | dotenv
  | age
  | kdbx
  deriving DecidableEq

def Kind.backend : Kind → Backend
  | .dotenv => vars_backend
  | .age => vars_backend
  | .kdbx => kdbx_backend

/-- The bytes of a file. Rendering may draw randomness. -/
structure Codec (B : Backend) where
  Bytes : Type
  Nonce : Type
  parse : Bytes → Except String B.Copy
  render : B.Copy → Nonce → Except String Bytes
  round_trip : ∀ {copy nonce bytes}, render copy nonce = .ok bytes → parse bytes = .ok copy

/-! ## Operations -/

variable {B : Backend}

inductive Op (B : Backend) where
  | set (key : B.Key) (value : String)
  | delete (key : B.Key)

def Op.key : Op B → B.Key
  | .set key _ => key
  | .delete key => key

/-- What the key holds after the operation. -/
def Op.value : Op B → Option String
  | .set _ value => some value
  | .delete _ => none

def deletion_unsupported : String := "deletion is not supported"

def Op.supported : Op B → Bool
  | .set _ _ => true
  | .delete _ => B.delete.isSome

/-- The change in memory; `none` when a delete has nothing to remove. -/
def change (op : Op B) (store : Option B.Copy) : Except String (Option B.Copy) :=
  match op with
  | .set key value => (B.set (store.getD B.new) key value).map some
  | .delete key =>
    match B.delete, store with
    | none, _ => .error deletion_unsupported
    | some _, none => .ok none
    | some remove, some copy => .ok (remove copy key)

inductive Phase (B : Backend) where
  | called
  /-- `none`: there is no file. -/
  | loaded (store : Option B.Copy)
  | changed (copy : B.Copy)
  | returned (result : Except String Bool)

structure Running (B : Backend) where
  op : Op B
  phase : Phase B

variable (C : Codec B)

structure State where
  file : Option C.Bytes
  lock : Option Nat
  ops : List (Running B)
  /-- The operations that returned Ok, in this order. -/
  completed : List (Op B)

inductive Ev where
  | call (op : Op B)
  | read (i : Nat)
  | change (i : Nat)
  | replace (i : Nat) (nonce : C.Nonce)
  | fail (i : Nat) (error : String)

variable {C}

def State.set_phase (s : State C) (i : Nat) (phase : Phase B) : State C :=
  { s with ops := s.ops.modify i fun r => { r with phase := phase } }

/-- Operation `i` returns, and gives up the lock when it holds it. -/
def State.return_ (s : State C) (i : Nat) (result : Except String Bool) : State C :=
  { s.set_phase i (.returned result) with lock := if s.lock = some i then none else s.lock }

def State.complete (s : State C) (i : Nat) (op : Op B) (result : Bool) : State C :=
  { s.return_ i (.ok result) with completed := s.completed ++ [op] }

def load (file : Option C.Bytes) : Except String (Option B.Copy) :=
  match file with
  | none => .ok none
  | some bytes => (C.parse bytes).map some

/-- The bytes the file is replaced by. -/
def stored (C : Codec B) (copy : B.Copy) (nonce : C.Nonce) : Except String C.Bytes := do
  C.render (← B.save copy) nonce

def step (s : State C) : Ev C → Option (State C)
  | .call op =>
    some { s with ops := s.ops ++ [⟨op, if op.supported then .called else .returned (.error deletion_unsupported)⟩] }
  | .read i => do
    match (← s.ops[i]?).phase with
    | .called =>
      if B.locked && s.lock.isSome then none
      else
        match load s.file with
        | .error error => some (s.return_ i (.error error))
        | .ok store => some { s.set_phase i (.loaded store) with lock := if B.locked then some i else s.lock }
    | _ => none
  | .change i => do
    let running ← s.ops[i]?
    match running.phase with
    | .loaded store =>
      match change running.op store with
      | .error error => some (s.return_ i (.error error))
      | .ok none => some (s.complete i running.op false)
      | .ok (some copy) => some (s.set_phase i (.changed copy))
    | _ => none
  | .replace i nonce => do
    let running ← s.ops[i]?
    match running.phase with
    | .changed copy =>
      match stored C copy nonce with
      | .error error => some (s.return_ i (.error error))
      | .ok bytes => some { s.complete i running.op true with file := some bytes }
    | _ => none
  | .fail i error => do
    match (← s.ops[i]?).phase with
    | .returned _ => none
    | _ => some (s.return_ i (.error error))

def machine (file : Option C.Bytes) : Machine (State C) (Ev C) where
  init := ⟨file, none, [], []⟩
  step := step

/-! ## What the file reads as -/

def get (store : Option B.Copy) (key : B.Key) : Except String (Option String) :=
  match store with
  | none => .ok none
  | some copy => B.get copy key

def get_file (file : Option C.Bytes) (key : B.Key) : Except String (Option String) := do
  get (← load file) key

/-- The last operation completed on a key. -/
def last (completed : List (Op B)) (key : B.Key) : Option (Op B) := (completed.filter (·.key == key)).getLast?

/-- The key as its last completed operation left it, or as at the start. -/
def expected (initial : Option C.Bytes) (completed : List (Op B)) (key : B.Key) : Except String (Option String) :=
  match last completed key with
  | some op => .ok op.value
  | none => get_file initial key

def Reflected (initial : Option C.Bytes) (s : State C) : Prop := ∀ key, get_file s.file key = expected initial s.completed key

/-- The copy agrees with the file on the keys of completed operations, but for its own key. -/
def agrees (s : State C) (op : Op B) (copy : B.Copy) : Bool :=
  s.completed.all fun done => done.key == op.key || decide (B.get copy done.key = get_file s.file done.key)

/-- The step completes no operation, or one whose copy the file still is. -/
def current (s : State C) : Ev C → Bool
  | .change i =>
    match s.ops[i]? with
    | some ⟨op, .loaded store⟩ =>
      match change op store with
      | .ok none => decide (get_file s.file op.key = .ok none)
      | _ => true
    | _ => true
  | .replace i _ =>
    match s.ops[i]? with
    | some ⟨op, .changed copy⟩ => agrees s op copy
    | _ => true
  | _ => true

/-! ## One operation -/

variable {s t : State C} {op : Op B} {i : Nat}

theorem last_concat (completed : List (Op B)) (op : Op B) (key : B.Key) :
    last (completed ++ [op]) key = if op.key = key then some op else last completed key := by
  unfold last
  rw [List.filter_append]
  split
  all_goals
    rename_i h
    simp [h]

theorem expected_self {initial : Option C.Bytes} (c : List (Op B)) (op : Op B) :
    expected initial (c ++ [op]) op.key = .ok op.value := by
  simp only [expected, last_concat, if_pos]

theorem expected_other {initial : Option C.Bytes} (completed : List (Op B)) {op : Op B} {key : B.Key} (h : op.key ≠ key) :
    expected initial (completed ++ [op]) key = expected initial completed key := by
  simp only [expected, last_concat, if_neg h]

theorem last_key {c : List (Op B)} {key : B.Key} (h : last c key = some op) : op ∈ c ∧ op.key = key := by
  have hm := List.mem_of_getLast? h
  obtain ⟨hi, hk⟩ := List.mem_filter.mp hm
  exact ⟨hi, beq_iff_eq.mp hk⟩

theorem last_none_concat {c : List (Op B)} {k : B.Key} (h : last (c ++ [op]) k = none) :
    op.key ≠ k ∧ last c k = none := by
  rw [last_concat] at h
  split at h
  · cases h
  · rename_i hn
    exact ⟨hn, h⟩

variable {store : Option B.Copy} {copy : B.Copy}

/-- The change in memory changes its key only. -/
theorem change_some (h : change op store = .ok (some copy)) :
    B.get copy op.key = .ok op.value ∧ ∀ key, key ≠ op.key → B.get copy key = get store key := by
  cases op with
  | set key value =>
    simp only [change] at h
    cases hs : B.set (store.getD B.new) key value with
    | error error =>
      rw [hs] at h
      cases h
    | ok a =>
      rw [hs] at h
      obtain rfl := Option.some.inj (Except.ok.inj h)
      refine ⟨B.set_self hs, fun other hn => (B.set_other hs other hn).trans ?_⟩
      cases store with
      | none => exact B.get_new other
      | some copy => rfl
  | delete key =>
    simp only [change] at h
    split at h
    · cases h
    · cases h
    · rename_i remove before hr
      have ha := Except.ok.inj h
      exact ⟨B.delete_self remove hr ha, B.delete_other remove hr ha⟩

/-- An operation that changes nothing is a delete of what is not there. -/
theorem change_none (h : change op store = .ok none) : op.value = none ∧ get store op.key = .ok none := by
  cases op with
  | set k value =>
    simp only [change] at h
    cases hs : B.set (store.getD B.new) k value with
    | error error | ok a =>
      rw [hs] at h
      cases h
  | delete k =>
    refine ⟨rfl, ?_⟩
    simp only [change] at h
    split at h
    · cases h
    · rfl
    · rename_i remove before hr
      exact B.delete_none remove hr (Except.ok.inj h)

theorem get_file_of_load {file : Option C.Bytes} (h : load file = .ok store) (key : B.Key) :
    get_file file key = get store key := by
  unfold get_file
  rw [h]
  rfl

/-- What is stored reads as the copy. -/
theorem stored_get {n : C.Nonce} {b : C.Bytes} (h : stored C copy n = .ok b) (key : B.Key) :
    get_file (some b) key = B.get copy key := by
  unfold stored at h
  cases hs : B.save copy with
  | error error =>
    rw [hs] at h
    cases h
  | ok sv =>
    rw [hs] at h
    have hl : load (some b) = .ok (some sv) := by
      simp only [load, C.round_trip h]
      rfl
    rw [get_file_of_load hl]
    exact B.save_get hs key

variable {r : Running B}

theorem set_phase_ops {j : Nat} {phase : Phase B} (h : (s.set_phase i phase).ops[j]? = some r) :
    (j = i ∧ ∃ before, s.ops[i]? = some before ∧ r = { before with phase := phase }) ∨ j ≠ i ∧ s.ops[j]? = some r := by
  simp only [State.set_phase, List.getElem?_modify] at h
  by_cases hj : j = i
  · subst hj
    simp only [if_pos, Option.map_eq_map, Option.map_eq_some_iff] at h
    obtain ⟨before, hb, rfl⟩ := h
    exact .inl ⟨rfl, before, hb, rfl⟩
  · simp only [if_neg (Ne.symm hj), Option.map_eq_map, Option.map_id_fun', id_eq] at h
    exact .inr ⟨hj, h⟩

/-- The ways a step can go. -/
inductive Moves (s : State C) : Ev C → State C → Prop where
  | call (op : Op B) (phase : Phase B) (hphase : phase = .called ∨ ∃ error, phase = .returned (.error error)) :
      Moves s (.call op) { s with ops := s.ops ++ [⟨op, phase⟩] }
  | read (i : Nat) (r : Running B) (store : Option B.Copy) (hr : s.ops[i]? = some r) (hp : r.phase = .called)
      (hlock : B.locked = true → s.lock = none) (hload : load s.file = .ok store) :
      Moves s (.read i) { s.set_phase i (.loaded store) with lock := if B.locked then some i else s.lock }
  | changed (i : Nat) (r : Running B) (store : Option B.Copy) (copy : B.Copy) (hr : s.ops[i]? = some r)
      (hp : r.phase = .loaded store) (hchange : change r.op store = .ok (some copy)) :
      Moves s (.change i) (s.set_phase i (.changed copy))
  | unchanged (i : Nat) (r : Running B) (store : Option B.Copy) (hr : s.ops[i]? = some r) (hp : r.phase = .loaded store)
      (hchange : change r.op store = .ok none) : Moves s (.change i) (s.complete i r.op false)
  | replaced (i : Nat) (r : Running B) (copy : B.Copy) (nonce : C.Nonce) (bytes : C.Bytes) (hr : s.ops[i]? = some r)
      (hp : r.phase = .changed copy) (hstored : stored C copy nonce = .ok bytes) :
      Moves s (.replace i nonce) { s.complete i r.op true with file := some bytes }
  | failed (e : Ev C) (i : Nat) (error : String) : Moves s e (s.return_ i (.error error))

variable {e : Ev C}

theorem step_moves (h : step s e = some t) : Moves s e t := by
  cases e with
  | call op =>
    cases h
    refine .call op _ ?_
    split
    · exact .inl rfl
    · exact .inr ⟨_, rfl⟩
  | read i =>
    obtain ⟨r, hr, h⟩ := Option.bind_eq_some_iff.mp h
    split at h
    · rename_i hp
      split at h
      · cases h
      · rename_i hl
        split at h
        · cases h
          exact .failed _ _ _
        · rename_i store hd
          cases h
          refine .read i r store hr hp (fun hc => ?_) hd
          rw [hc, Bool.true_and, Bool.not_eq_true, Option.isSome_eq_false_iff, Option.isNone_iff_eq_none] at hl
          exact hl
    · cases h
  | change i =>
    obtain ⟨r, hr, h⟩ := Option.bind_eq_some_iff.mp h
    split at h
    · rename_i store hp
      split at h
      · cases h
        exact .failed _ _ _
      · rename_i hch
        cases h
        exact .unchanged i r store hr hp hch
      · rename_i copy hch
        cases h
        exact .changed i r store copy hr hp hch
    · cases h
  | replace i n =>
    obtain ⟨r, hr, h⟩ := Option.bind_eq_some_iff.mp h
    split at h
    · rename_i copy hp
      split at h
      · cases h
        exact .failed _ _ _
      · rename_i b hs
        cases h
        exact .replaced i r copy n b hr hp hs
    · cases h
  | fail i error =>
    obtain ⟨r, -, h⟩ := Option.bind_eq_some_iff.mp h
    split at h
    · cases h
    · cases h
      exact .failed _ _ _

theorem current_change (hr : s.ops[i]? = some r) (hp : r.phase = .loaded store) (hc : change r.op store = .ok none) :
    current s (.change i) = decide (get_file s.file r.op.key = .ok none) := by
  obtain ⟨op, p⟩ := r
  simp only at hp
  subst hp
  simp only [current, hr, hc]

theorem current_replace {n : C.Nonce} (hr : s.ops[i]? = some r) (hp : r.phase = .changed copy) :
    current s (.replace i n) = agrees s r.op copy := by
  obtain ⟨op, p⟩ := r
  simp only at hp
  subst hp
  simp only [current, hr]

theorem agrees_iff : agrees s op copy ↔
    ∀ done ∈ s.completed, done.key ≠ op.key → B.get copy done.key = get_file s.file done.key := by
  simp only [agrees, List.all_eq_true, Bool.or_eq_true, beq_iff_eq, decide_eq_true_eq]
  constructor
  · intro h done hd hn
    exact (h done hd).resolve_left hn
  · intro h done hd
    by_cases hk : done.key = op.key
    · exact .inl hk
    · exact .inr (h done hd hk)

/-! ## Runs whose completions are current -/

variable {initial : Option C.Bytes}

/-- The copy of an operation holds what was there at the start, on keys no operation completed on. -/
def CopyHolds (initial : Option C.Bytes) (s : State C) (r : Running B) : Prop :=
  match r.phase with
  | .loaded store => ∀ key, last s.completed key = none → get store key = get_file initial key
  | .changed copy => B.get copy r.op.key = .ok r.op.value ∧
      ∀ key, key ≠ r.op.key → last s.completed key = none → B.get copy key = get_file initial key
  | _ => True

structure Inv (initial : Option C.Bytes) (s : State C) : Prop where
  reflected : Reflected initial s
  copies : ∀ (i : Nat) (r : Running B), s.ops[i]? = some r → CopyHolds initial s r

theorem CopyHolds.mono (h : CopyHolds initial s r)
    (hg : ∀ k, last t.completed k = none → last s.completed k = none) : CopyHolds initial t r := by
  unfold CopyHolds at h ⊢
  split
  · rename_i store hp
    rw [hp] at h
    exact fun k hk => h k (hg k hk)
  · rename_i copy hp
    rw [hp] at h
    exact ⟨h.1, fun k hn hk => h.2 k hn (hg k hk)⟩
  · trivial

theorem Inv.init : Inv initial (machine initial).init where
  reflected _ := rfl
  copies i r h := by cases h

/-- The other operations keep their copies. -/
theorem Inv.set_phase (h : Inv initial s) (i : Nat) (phase : Phase B)
    (hg : ∀ k, last t.completed k = none → last s.completed k = none)
    (hs : ∀ r, s.ops[i]? = some r → CopyHolds initial t { r with phase := phase })
    (hops : t.ops = (s.set_phase i phase).ops) : ∀ (j : Nat) (r : Running B), t.ops[j]? = some r → CopyHolds initial t r := by
  intro j r hr
  rw [hops] at hr
  rcases set_phase_ops hr with ⟨-, before, hb, rfl⟩ | ⟨-, hold⟩
  · exact hs before hb
  · exact (h.copies j r hold).mono hg

theorem Inv.step (h : Inv initial s) (ho : current s e) (hs : FileStore.step s e = some t) : Inv initial t := by
  cases step_moves hs with
  | call op p hph =>
    refine ⟨h.reflected, fun j r hr => ?_⟩
    rcases List.mem_append.mp (List.mem_of_getElem? hr) with hold | hn
    · obtain ⟨k, hk⟩ := List.mem_iff_getElem?.mp hold
      exact h.copies k r hk
    · obtain rfl := List.mem_singleton.mp hn
      rcases hph with rfl | ⟨error, rfl⟩
      · trivial
      · trivial
  | read i r store hr hp hl hd =>
    refine ⟨h.reflected, h.set_phase i (.loaded store) (fun _ hy => hy) (fun before _ key hy => ?_) rfl⟩
    have hrd : get_file s.file key = get_file initial key := by
      rw [h.reflected key, expected, show last s.completed key = none from hy]
    exact (get_file_of_load hd key).symm.trans hrd
  | changed i r store copy hr hp hc =>
    refine ⟨h.reflected, h.set_phase i (.changed copy) (fun _ hy => hy) (fun before hb => ?_) rfl⟩
    obtain rfl := Option.some.inj (hr.symm.trans hb)
    obtain ⟨hsl, hoh⟩ := change_some hc
    have hcp := h.copies i r hr
    unfold CopyHolds at hcp
    rw [hp] at hcp
    exact ⟨hsl, fun key hne hy => (hoh key hne).trans (hcp key hy)⟩
  | unchanged i r store hr hp hc =>
    obtain ⟨hv, -⟩ := change_none hc
    rw [current_change hr hp hc, decide_eq_true_eq] at ho
    refine ⟨fun key => ?_, h.set_phase i (.returned (.ok false)) (fun key hy => (last_none_concat hy).2) (fun _ _ => trivial) rfl⟩
    by_cases hy : r.op.key = key
    · subst hy
      exact ho.trans ((congrArg Except.ok hv.symm).trans (expected_self s.completed r.op).symm)
    · exact (h.reflected key).trans (expected_other s.completed hy).symm
  | replaced i r copy n b hr hp ht =>
    rw [current_replace hr hp, agrees_iff] at ho
    have hcp := h.copies i r hr
    unfold CopyHolds at hcp
    rw [hp] at hcp
    refine ⟨fun key => ?_, h.set_phase i (.returned (.ok true)) (fun key hy => (last_none_concat hy).2) (fun _ _ => trivial) rfl⟩
    refine (stored_get ht key).trans ?_
    by_cases hy : r.op.key = key
    · subst hy
      exact hcp.1.trans (expected_self s.completed r.op).symm
    · refine Eq.trans ?_ (expected_other s.completed hy).symm
      cases hls : last s.completed key with
      | none =>
        rw [expected, hls]
        exact hcp.2 key (Ne.symm hy) hls
      | some done =>
        -- an earlier operation on this key: the copy has what it left
        obtain ⟨hm, rfl⟩ := last_key hls
        exact (ho done hm (Ne.symm hy)).trans (h.reflected done.key)
  | failed e i error => exact ⟨h.reflected, h.set_phase i (.returned (.error error)) (fun _ hy => hy) (fun _ _ => trivial) rfl⟩

/-- A completion that is not current breaks what held. -/
theorem reflected_step (h : Inv initial s) (hs : FileStore.step s e = some t) (hc : t.completed ≠ s.completed) :
    Reflected initial t ↔ current s e := by
  refine ⟨fun ht => ?_, fun ho => (h.step ho hs).reflected⟩
  cases step_moves hs with
  | call op phase hph | read i r store hr hp hl hd
  | changed i r store copy hr hp hch => exact absurd rfl hc
  | unchanged i r store hr hp hch =>
    rw [current_change hr hp hch, decide_eq_true_eq]
    exact (ht r.op.key).trans ((expected_self s.completed r.op).trans (congrArg Except.ok (change_none hch).1))
  | replaced i r copy n b hr hp hst =>
    rw [current_replace hr hp, agrees_iff]
    intro done hn hne
    calc B.get copy done.key
      _ = get_file (some b) done.key := (stored_get hst done.key).symm
      _ = expected initial (s.completed ++ [r.op]) done.key := ht done.key
      _ = expected initial s.completed done.key := expected_other s.completed (Ne.symm hne)
      _ = get_file s.file done.key := (h.reflected done.key).symm
  | failed e i error => exact absurd rfl hc

theorem inv_of_reach (h : Reach (machine initial) current s) : Inv initial s :=
  h.inv .init fun _ _ _ hi ho hs => hi.step ho hs

/-! ## Runs under the lock -/

/-- An operation past its read holds the lock, and its copy is the file but for its own key. -/
def HoldsLock (s : State C) (i : Nat) (r : Running B) : Prop :=
  match r.phase with
  | .loaded store => s.lock = some i ∧ ∀ key, get store key = get_file s.file key
  | .changed copy => s.lock = some i ∧ ∀ key, key ≠ r.op.key → B.get copy key = get_file s.file key
  | _ => True

def Locked (s : State C) : Prop := ∀ (i : Nat) (r : Running B), s.ops[i]? = some r → HoldsLock s i r

theorem HoldsLock.frame (h : HoldsLock s i r) (hl : s.lock = some i → t.lock = some i ∧ t.file = s.file) :
    HoldsLock t i r := by
  unfold HoldsLock at h ⊢
  split
  · rename_i store hp
    rw [hp] at h
    obtain ⟨ht, hf⟩ := hl h.1
    exact ⟨ht, hf ▸ h.2⟩
  · rename_i copy hp
    rw [hp] at h
    obtain ⟨ht, hf⟩ := hl h.1
    exact ⟨ht, hf ▸ h.2⟩
  · trivial

theorem Locked.set_phase (h : Locked s) (i : Nat) (phase : Phase B)
    (hf : ∀ j, j ≠ i → s.lock = some j → t.lock = some j ∧ t.file = s.file)
    (hs : ∀ r, s.ops[i]? = some r → HoldsLock t i { r with phase := phase })
    (hops : t.ops = (s.set_phase i phase).ops) : Locked t := by
  intro j r hr
  rw [hops] at hr
  rcases set_phase_ops hr with ⟨rfl, before, hb, rfl⟩ | ⟨hn, hold⟩
  · exact hs before hb
  · exact (h j r hold).frame (hf j hn)

theorem return_lock {j : Nat} (hn : j ≠ i) (h : s.lock = some j) (rs : Except String Bool) :
    (s.return_ i rs).lock = some j := by
  have ho : ¬ s.lock = some i := fun hi => hn (Option.some.inj (h.symm.trans hi))
  show (if s.lock = some i then none else s.lock) = some j
  rw [if_neg ho, h]

theorem Locked.step (hl : B.locked) (h : Locked s) (hs : FileStore.step s e = some t) : Locked t := by
  cases step_moves hs with
  | call op p hph =>
    intro j r hr
    rcases getElem?_snoc hr with hr | ⟨-, rfl⟩
    · exact (h j r hr).frame fun hk => ⟨hk, rfl⟩
    · rcases hph with rfl | ⟨error, rfl⟩
      all_goals trivial
  | read i r store hr hp hk hd =>
    refine h.set_phase i (.loaded store) (fun j _ hj => ?_) (fun before _ => ?_) rfl
    · rw [hk hl] at hj
      cases hj
    · exact ⟨if_pos hl, fun k => (get_file_of_load hd k).symm⟩
  | changed i r store copy hr hp hc =>
    refine h.set_phase i (.changed copy) (fun j _ hj => ⟨hj, rfl⟩) (fun before hb => ?_) rfl
    obtain rfl := Option.some.inj (hr.symm.trans hb)
    have hcp := h i r hr
    unfold HoldsLock at hcp
    rw [hp] at hcp
    exact ⟨hcp.1, fun k hne => ((change_some hc).2 k hne).trans (hcp.2 k)⟩
  | unchanged i r store hr hp hc =>
    exact h.set_phase i (.returned (.ok false)) (fun j hne hj => ⟨return_lock hne hj (.ok false), rfl⟩) (fun _ _ => trivial) rfl
  | replaced i r copy n b hr hp ht =>
    refine h.set_phase i (.returned (.ok true)) (fun j hne hj => ?_) (fun _ _ => trivial) rfl
    -- the lock is this operation's
    have hcp := h i r hr
    unfold HoldsLock at hcp
    rw [hp] at hcp
    exact absurd (Option.some.inj (hj.symm.trans hcp.1)) hne
  | failed e i error =>
    exact h.set_phase i (.returned (.error error)) (fun j hne hj => ⟨return_lock hne hj _, rfl⟩) (fun _ _ => trivial) rfl

/-- Under the lock every step is current. -/
theorem Locked.current (h : Locked s) (e : Ev C) : current s e := by
  cases e with
  | change i =>
    simp only [FileStore.current]
    split
    · rename_i op store hr
      split
      · rename_i hc
        have hp : s.lock = some i ∧ ∀ key, get store key = get_file s.file key := h i _ hr
        exact decide_eq_true ((hp.2 op.key).symm.trans (change_none hc).2)
      · rfl
    · rfl
  | replace i n =>
    simp only [FileStore.current]
    split
    · rename_i op copy hr
      have hp : s.lock = some i ∧ ∀ key, key ≠ op.key → B.get copy key = get_file s.file key := h i _ hr
      exact agrees_iff.mpr fun done _ hn => hp.2 done.key hn
    · rfl
  | call op | read i | fail i error => rfl

theorem reach_current (hl : B.locked) (h : Reach (machine initial) any s) : Reach (machine initial) current s ∧ Locked s := by
  induction h with
  | init => exact ⟨.init, nofun⟩
  | step e _ _ hs ih => exact ⟨.step e ih.1 (ih.2.current e) hs, ih.2.step hl hs⟩

/-! ## No lost update -/

/-- A file is kept as what it parses to. -/
def plain (B : Backend) : Codec B where
  Bytes := B.Copy
  Nonce := Unit
  parse := .ok
  render copy _ := .ok copy
  round_trip h := by
    cases h
    rfl

/-- In a run whose completions are current every update is kept, and a completion that is not
    current loses one; KDBX loses none. -/
theorem reflected_iff (kind : Kind) (C : Codec kind.backend) (initial : Option C.Bytes) :
    (∀ s, Reach (machine initial) current s → Reflected initial s ∧
      ∀ e t, step s e = some t → t.completed ≠ s.completed → (Reflected initial t ↔ current s e = true)) ∧
    (kind = .kdbx → ∀ s, Reach (machine initial) any s → Reflected initial s) := by
  refine ⟨fun s h => ⟨(inv_of_reach h).reflected, fun e t hs hc => reflected_step (inv_of_reach h) hs hc⟩, ?_⟩
  rintro rfl s h
  exact (inv_of_reach (reach_current rfl h).1).reflected

/-- The second thread reads after the first has replaced. -/
def in_turn (B : Backend) (first second : Op B) : List (Ev (plain B)) :=
  [.call first, .call second, .read 0, .change 0, .replace 0 (), .read 1, .change 1, .replace 1 ()]

theorem password_writable : KdbxProvider.eq_ignore_ascii_case "Password" KdbxProvider.TITLE = false := by decide +kernel

/-- A password below a group that is made. -/
def password (title : String) : KdbxProvider.Address := ⟨⟨["monosecret"], title, "Password"⟩, password_writable⟩

theorem kept_in_turn :
    (∃ s, Reach (machine (C := plain Kind.dotenv.backend) none) current s ∧ s.completed.length = 2 ∧ Reflected none s) ∧
      ∃ s, Reach (machine (C := plain Kind.kdbx.backend) none) any s ∧ s.completed.length = 2 ∧ Reflected none s := by
  constructor
  · obtain ⟨s, hs, hr⟩ := reach_of_run (machine (C := plain Kind.dotenv.backend) none) current
      (in_turn Kind.dotenv.backend (.set "API_KEY" "k1") (.delete "API_KEY")) (fun s => s.completed.length) 2 (by decide +kernel)
    exact ⟨s, hs, hr, ((reflected_iff .dotenv (plain Kind.dotenv.backend) none).1 s hs).1⟩
  · obtain ⟨s, hs, hr⟩ := reach_of_run (machine (C := plain Kind.kdbx.backend) none) any
      (in_turn Kind.kdbx.backend (.set (password "a") "1") (.set (password "b") "2")) (fun s => s.completed.length) 2
      (by decide +kernel)
    exact ⟨s, hs, hr, (reflected_iff .kdbx (plain Kind.kdbx.backend) none).2 rfl s hs⟩

/-- Two threads set different keys; the second reads before the first replaces. -/
def overlapping : List (Ev (plain Kind.dotenv.backend)) :=
  [.call (.set "API_KEY" "k1"), .call (.set "DB_PASSWORD" "p1"), .read 0, .read 1, .change 0, .change 1, .replace 0 (),
    .replace 1 ()]

/-- What the first key reads as, and should. -/
def readings (s : State (plain Kind.dotenv.backend)) : Except String (Option String) × Except String (Option String) :=
  (get_file s.file "API_KEY", expected (C := plain Kind.dotenv.backend) none s.completed "API_KEY")

/-- Both sets returned Ok and one value is gone. -/
theorem lost : ¬ ∀ (kind : Kind) (C : Codec kind.backend) (initial : Option C.Bytes) (s : State C),
    Reach (machine initial) any s → Reflected initial s := by
  intro h
  obtain ⟨s, hs, hr⟩ := reach_of_run (machine (C := plain Kind.dotenv.backend) none) any overlapping readings
    (.ok none, .ok (some "k1")) (by decide +kernel)
  have hk := h .dotenv (plain Kind.dotenv.backend) none s hs "API_KEY"
  rw [(Prod.mk.inj hr).1, (Prod.mk.inj hr).2] at hk
  cases hk

end Monosecret.Providers.FileStore
