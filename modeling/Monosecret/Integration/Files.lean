/-
  Monosecret.Integration.Files — the two files a command of the Docker or Claude Code
  integration changes (`cli/docker.rs`, `cli/claude.rs`: `configure`, `unconfigure`).

  The commands of `Monosecret.Integration.Docker` and `Monosecret.Integration.Claude` say what
  becomes of the state file; here each is run on the contents of both files, as bytes. A read
  answers in a `Reads`, the other operations in the `World`; a file is replaced at once, so a
  write that fails leaves it. What a text says and how a value is written are a `Codec`.

  `all_or_nothing`, for every world in which a file is put back when that is tried:
  (1) a command that fails leaves both files as they were;
  (2) one that does not fail changes the helper entries of its registries, or of its settings
      file, and its own records of them, and nothing else of what the files say;
  (3) an entry that no record claims is as it was.
-/

import Monosecret.Audit.Tampering
import Monosecret.Integration.Loadable

namespace Monosecret.Integration

open Lib Manifest Rpc
open Lib.Except (bind_ok bind_unit_ok map_eq_ok rest_ok)

/-! ## Contents -/

abbrev Raw := List UInt8

/-- `serde_json`. -/
structure Codec where
  read : Raw → Option Json
  print : Json → Raw

/-- The contents of the two files: the settings of the other program, and the state. -/
structure Pair where
  settings : Option Raw
  state : Option Raw

/-- What the reads of a command answer. -/
structure Reads where
  settings : Except String Unit
  state : Except String Unit
  reload : Except String Unit

namespace Codec

variable (codec : Codec)

def contents (file : Option Raw) : Contents := file.map codec.read

/-- What a file says; an absent one says nothing. -/
def value : Option Raw → Option Json
  | none => some (.obj [])
  | some bytes => codec.read bytes

/-- The path of the state file, unless the file cannot be read. -/
def state_path (path : Except String String) (reads : List (Except String Unit)) (state : Option Raw) : Except String String := do
  let path ← path
  reads.forM id
  match codec.contents state with
  | some none => throw s!"Failed to parse {path}"
  | _ => return path

/-- The file is as it was, or holds a value that comes from the one it held. -/
def Edited (edit : Json → Json → Prop) (old new : Option Raw) : Prop :=
  new = old ∨ ∃ before after, codec.value old = some before ∧ new = some (codec.print after) ∧ edit before after

variable {codec}

theorem parse_object_value {u other : String} {file : Option Raw} {value : Json}
    (h : parse_object u other (codec.contents file) = .ok value) : codec.value file = some value := by
  cases file with
  | none =>
    cases h
    rfl
  | some b =>
    show codec.read b = some value
    have hr : parse_object u other (some (codec.read b)) = .ok value := h
    cases he : codec.read b with
    | none =>
      rw [he] at hr
      cases hr
    | some read =>
      rw [he] at hr
      dsimp only [parse_object] at hr
      split at hr
      · exact congrArg some (Except.ok.inj hr)
      · cases hr

end Codec

/-- A command that fails leaves both files; another leaves them, or makes this of them. -/
def Settled {Done : Type} (Makes : Pair → Prop) (files : Pair) (result : Except String Done × Pair) : Prop :=
  (∀ message, result.1 = .error message → result.2 = files) ∧ ∀ done, result.1 = .ok done → result.2 = files ∨ Makes result.2

section

variable {Done : Type} {Makes : Pair → Prop} {files : Pair}

theorem settled_error (m : String) : Settled Makes files ((.error m, files) : Except String Done × Pair) :=
  ⟨fun _ _ => rfl, nofun⟩

theorem settled_kept (done : Done) : Settled Makes files (.ok done, files) :=
  ⟨nofun, fun _ _ => .inl rfl⟩

theorem settled_made {w : Pair} (done : Done) (h : Makes w) : Settled Makes files (.ok done, w) :=
  ⟨nofun, fun _ _ => .inr h⟩

/-- Two files are written, and the first is put back where the second cannot be. -/
theorem settled_writes {done : Done} {first second back : Except String Unit} {whole undone : Pair}
    {lost : String → String → Except String Done × Pair} :
    back = .ok () → undone = files → Makes whole → Settled Makes files
      (match first with
        | .error message => (.error message, files)
        | .ok () =>
          match second with
          | .ok () => (.ok done, whole)
          | .error message =>
            match back with
            | .ok () => (.error message, undone)
            | .error error => lost message error) := by
  rintro rfl rfl h
  cases first with
  | error m => exact settled_error m
  | ok =>
    cases second with
    | ok => exact settled_made done h
    | error m => exact settled_error m

end

/-! ## Members of an object -/

theorem lookup_insert_self (k : String) (value : Json) (m : List (String × Json)) :
    (Audit.insert k value m).lookup k = some value := by
  unfold Audit.insert
  split
  · rename_i ha
    induction m with
    | nil => cases ha
    | cons mm m ih =>
      rw [List.map_cons, List.lookup_cons]
      by_cases hk : mm.1 = k
      · rw [if_pos hk, beq_self_eq_true]
      · rw [if_neg hk, beq_false_of_ne (Ne.symm hk)]
        rw [List.any_cons, beq_false_of_ne hk, Bool.false_or] at ha
        exact ih ha
  · rename_i ha
    have hn : m.lookup k = none := by
      rw [List.lookup_eq_none_iff]
      intro mm hm
      have hne := fun he : mm.1 = k => ha (List.any_eq_true.mpr ⟨mm, hm, beq_iff_eq.mpr he⟩)
      exact bne_iff_ne.mpr (Ne.symm hne)
    rw [List.lookup_append, hn, Option.none_or, List.lookup_cons_self]

theorem lookup_replaced {k other : String} (h : other ≠ k) (value : Json) (m : List (String × Json)) :
    (m.map fun e => if e.1 = k then (k, value) else e).lookup other = m.lookup other := by
  induction m with
  | nil => rfl
  | cons mm m ih =>
    rw [List.map_cons, List.lookup_cons, List.lookup_cons, ih]
    by_cases hk : mm.1 = k
    · rw [if_pos hk, hk, beq_false_of_ne h]
    · rw [if_neg hk]

theorem lookup_insert_of_ne {k other : String} (h : other ≠ k) (value : Json) (m : List (String × Json)) :
    (Audit.insert k value m).lookup other = m.lookup other := by
  unfold Audit.insert
  split
  · exact lookup_replaced h value m
  · rw [List.lookup_append, List.lookup_cons, beq_false_of_ne h, List.lookup_nil, Option.or_none]

theorem lookup_remove_self (k : String) (m : List (String × Json)) : (Audit.remove k m).lookup k = none := by
  rw [List.lookup_eq_none_iff]
  intro mm hm
  exact bne_iff_ne.mpr (Ne.symm (by simpa using (List.mem_filter.mp hm).2))

/-! ## Records -/

variable {α : Type}

theorem filter_set_of_neg {p : α → Bool} {l : List α} {i : Nat} {a b : α} (hi : l[i]? = some a) (ha : p a = false)
    (hb : p b = false) : (l.set i b).filter p = l.filter p := by
  induction l generalizing i with
  | nil => cases hi
  | cons c l ih =>
    cases i with
    | zero =>
      cases hi
      rw [List.set_cons_zero, List.filter_cons_of_neg (by rw [hb]; exact Bool.false_ne_true),
        List.filter_cons_of_neg (by rw [ha]; exact Bool.false_ne_true)]
    | succ i =>
      rw [List.set_cons_succ, List.filter_cons, List.filter_cons, ih hi]

/-- The other entries stay, in their order. -/
theorem upsert_filter {same : α → Bool} {a : α} (ha : same a) (l : List α) :
    (upsert same a l).filter (fun b => !same b) = l.filter fun b => !same b := by
  unfold upsert
  cases hf : l.findIdx? same with
  | none => rw [List.filter_append, List.filter_singleton, ha]; exact List.append_nil _
  | some i =>
    obtain ⟨hl, hs, -⟩ := List.findIdx?_eq_some_iff_getElem.mp hf
    exact filter_set_of_neg (List.getElem?_eq_getElem hl) (by rw [hs]; rfl) (by rw [ha]; rfl)

theorem filterAuxM_ok {f : α → Except String Bool} {l ac m : List α} (h : l.filterAuxM f ac = .ok m) :
    (∀ a ∈ l, ∃ b, f a = .ok b) ∧ ∀ a, a ∈ m ↔ a ∈ ac ∨ a ∈ l ∧ f a = .ok true := by
  induction l generalizing ac with
  | nil =>
    cases h
    exact ⟨fun _ ha => (by cases ha), fun a => by simp⟩
  | cons first l ih =>
    obtain ⟨b, hf, hr⟩ := bind_ok h
    obtain ⟨hl, hm⟩ := ih hr
    refine ⟨List.forall_mem_cons.mpr ⟨⟨b, hf⟩, hl⟩, fun a => ?_⟩
    rw [hm, List.mem_cons]
    cases b with
    | true =>
      rw [cond_true, List.mem_cons]
      constructor
      · rintro ((rfl | hc) | ⟨hi, ht⟩)
        · exact .inr ⟨.inl rfl, hf⟩
        · exact .inl hc
        · exact .inr ⟨.inr hi, ht⟩
      · rintro (hc | ⟨rfl | hi, ht⟩)
        · exact .inl (.inr hc)
        · exact .inl (.inl rfl)
        · exact .inr ⟨hi, ht⟩
    | false =>
      rw [cond_false]
      constructor
      · rintro (hc | ⟨hi, ht⟩)
        · exact .inl hc
        · exact .inr ⟨.inr hi, ht⟩
      · rintro (hc | ⟨rfl | hi, ht⟩)
        · exact .inl hc
        · rw [hf] at ht
          cases ht
        · exact .inr ⟨hi, ht⟩

theorem filterM_ok {f : α → Except String Bool} {l m : List α} (h : l.filterM f = .ok m) :
    (∀ a ∈ l, ∃ b, f a = .ok b) ∧ ∀ a, a ∈ m ↔ a ∈ l ∧ f a = .ok true := by
  obtain ⟨r, ha, h⟩ := bind_ok h
  cases h
  obtain ⟨hl, hm⟩ := filterAuxM_ok ha
  exact ⟨hl, fun a => by rw [List.mem_reverse, hm]; simp⟩

namespace Docker

variable {rules : Rules} (codec : Codec) (parse : UrlParser) (world : World rules) (reads : Reads)

/-! ## Docker -/

/-- The world in which the files are what they are. -/
def found (files : Pair) : World rules :=
  { world with
    docker := reads.settings.map fun _ => codec.contents files.settings
    state_path := codec.state_path world.state_path [reads.state, reads.reload] files.state }

/-- Each file is replaced at once; when the second cannot be, the first is put back. -/
def configure_files (options : ConfigureOptions) (files : Pair) : Except String Done × Pair :=
  match configure_plan parse (found codec world reads files) options (files.state.bind codec.read) with
  | .error message => (.error message, files)
  | .ok (.Keep done) => (.ok done, files)
  | .ok (.Write state docker) =>
    match world.write_state with
    | .error message => (.error message, files)
    | .ok () =>
      let written := { files with state := some (codec.print state.to_value) }
      match world.recheck >>= fun _ => world.write_docker with
      | .ok () => (.ok .Configured, { written with settings := some (codec.print docker) })
      | .error message =>
        match world.restore with
        | .ok () => (.error message, { written with state := files.state })
        | .error message => (.error message, written)

/-- The Docker configuration is written when it names a helper that goes. -/
def unconfigure_files (registry : Option String) (all yes : Bool) (files : Pair) : Except String Done × Pair :=
  match unconfigure_plan parse (found codec world reads files) registry all yes (files.state.bind codec.read) with
  | .error message => (.error message, files)
  | .ok (.Keep done) => (.ok done, files)
  | .ok (.Write state docker) =>
    match docker.elim (.ok ()) fun _ => world.write_docker with
    | .error message => (.error message, files)
    | .ok () =>
      let written := docker.elim files fun docker => { files with settings := some (codec.print docker) }
      match world.recheck >>= fun _ => world.write_state with
      | .ok () =>
        (.ok .Removed,
          { written with
            state := if state.credentials = [] ∧ world.state_entry_is_symlink = false then none
              else some (codec.print state.to_value) })
      | .error message =>
        match docker.elim (.ok ()) fun _ => world.restore with
        | .ok () => (.error message, { written with settings := files.settings })
        | .error message => (.error message, written)

/-! ### The helper entries -/

/-- What a Docker configuration names for a registry. -/
def helper_entry (docker : Json) (registry : String) : Option Json :=
  match docker.get "credHelpers" with
  | some (.obj helpers) => helpers.lookup registry
  | _ => none

/-- Only the entries of these registries change, and `credHelpers` with them. -/
structure Entries (registries : List String) (before after : Json) : Prop where
  others : ∀ field, field ≠ "credHelpers" → after.get field = before.get field
  kept : ∀ registry, registry ∉ registries → helper_entry after registry = helper_entry before registry
  dropped : after.get "credHelpers" ≠ some (.obj [])

theorem helper_entry_obj {m he : List (String × Json)} (h : m.lookup "credHelpers" = some (.obj he))
    (registry : String) : helper_entry (.obj m) registry = he.lookup registry := by
  unfold helper_entry
  rw [Json.get_obj, h]

theorem helper_entry_none {m : List (String × Json)} (h : m.lookup "credHelpers" = none) (registry : String) :
    helper_entry (.obj m) registry = none := by
  unfold helper_entry
  rw [Json.get_obj, h]

variable {docker : Json} {registry : String}

theorem set_credential_helper_entries {a : Json} {helper : String}
    (h : set_credential_helper docker registry helper = .ok a) :
    Entries [registry] docker a ∧ helper_entry a registry = some (.str helper) := by
  unfold set_credential_helper at h
  split at h
  · rename_i m
    split at h
    · rename_i he hl
      cases h
      have hk := lookup_insert_self "credHelpers" (.obj (Audit.insert registry (.str helper) he)) m
      have hb : ∀ other, helper_entry (.obj m) other = he.lookup other := by
        intro other
        cases hc : m.lookup "credHelpers" with
        | none =>
          rw [hc] at hl
          obtain rfl := Json.obj.inj hl
          rw [helper_entry_none hc]
          rfl
        | some value =>
          rw [hc] at hl
          exact helper_entry_obj (hl ▸ hc) other
      refine ⟨⟨fun f hf => lookup_insert_of_ne hf _ m, fun other ho => ?_, ?_⟩, ?_⟩
      · rw [helper_entry_obj hk, lookup_insert_of_ne (by simpa using ho), hb]
      · rw [Json.get_obj, hk]
        intro hm
        have hs := lookup_insert_self registry (.str helper) he
        rw [Json.obj.inj (Option.some.inj hm)] at hs
        cases hs
      · rw [helper_entry_obj hk, lookup_insert_self]
    · cases h
  · cases h

theorem remove_credential_helper_entries {a : Json} (h : remove_credential_helper docker registry = .ok a) :
    Entries [registry] docker a ∧ helper_entry a registry = none := by
  unfold remove_credential_helper at h
  split at h
  · rename_i m
    split at h
    · rename_i hl hhl
      dsimp only at h
      split at h
      · rename_i hm
        cases h
        have hg := lookup_remove_self "credHelpers" m
        refine ⟨⟨fun f hf => Audit.lookup_remove hf, fun other ho => ?_, ?_⟩, helper_entry_none hg registry⟩
        · have hoh := @Audit.lookup_remove hl registry other (by simpa using ho)
          rw [helper_entry_none hg, helper_entry_obj hhl, ← hoh, hm, List.lookup_nil]
        · rw [Json.get_obj, hg]
          exact Option.some_ne_none _ |>.symm
      · rename_i hlf
        cases h
        have hk := lookup_insert_self "credHelpers" (.obj (Audit.remove registry hl)) m
        refine ⟨⟨fun f hf => lookup_insert_of_ne hf _ m, fun other ho => ?_, ?_⟩, ?_⟩
        · rw [helper_entry_obj hk, helper_entry_obj hhl, Audit.lookup_remove (by simpa using ho)]
        · rw [Json.get_obj, hk]
          exact fun he => hlf (Json.obj.inj (Option.some.inj he))
        · rw [helper_entry_obj hk, lookup_remove_self]
    · cases h
    · rename_i hn
      cases h
      refine ⟨⟨fun f hf => rfl, fun other ho => rfl, ?_⟩, helper_entry_none hn registry⟩
      rw [Json.get_obj, hn]
      exact Option.some_ne_none _ |>.symm
  · cases h

/-- One removal after the other; the last leaves no empty field. -/
theorem remove_all_entries {r : List String} {a : Json} (hs : r ≠ [])
    (h : r.foldlM remove_credential_helper docker = .ok a) :
    Entries r docker a ∧ ∀ registry ∈ r, helper_entry a registry = none := by
  induction r generalizing docker with
  | nil => exact absurd rfl hs
  | cons registry r ih =>
    rw [List.foldlM_cons] at h
    obtain ⟨next, ht, hr⟩ := bind_ok h
    obtain ⟨he, hg⟩ := remove_credential_helper_entries ht
    by_cases hl : r = []
    · subst hl
      cases hr
      exact ⟨he, fun other ho => List.mem_singleton.mp ho ▸ hg⟩
    · obtain ⟨hm, hn⟩ := ih hl hr
      refine ⟨⟨fun f hf => (hm.others f hf).trans (he.others f hf), fun other ho => ?_, hm.dropped⟩,
        fun other ho => ?_⟩
      · obtain ⟨hne, hou⟩ := not_or.mp (mt List.mem_cons.mpr ho)
        exact (hm.kept other hou).trans (he.kept other (by simpa using hne))
      · by_cases hi : other ∈ r
        · exact hn other hi
        · rcases List.mem_cons.mp ho with rfl | hi'
          · exact (hm.kept other hi).trans hg
          · exact absurd hi' hi

theorem credential_helper_entry {helper : Option String} (h : credential_helper docker registry = .ok helper) :
    helper_entry docker registry = helper.map Json.str := by
  obtain ⟨he, hl, h⟩ := bind_ok h
  have hk : helper_entry docker registry = he.bind fun he => he.lookup registry := by
    unfold credential_helpers at hl
    unfold helper_entry
    split at hl
    · rename_i found hf
      cases hl
      rw [hf]
      rfl
    · cases hl
    · rename_i hn
      cases hl
      rw [hn]
      rfl
  rw [hk]
  split at h
  · rename_i hn
    cases h
    exact hn
  · rename_i found hf
    cases h
    exact hf
  · cases h

/-! ### One run -/

/-- The entry of a registry is this state's own. -/
def ManagedState.Owns (state : ManagedState) (docker_config registry : String) (entry : Json) : Prop :=
  entry = .str HELPER_NAME ∧ ∃ credential ∈ state.credentials, manages registry docker_config credential = true

def selects (registries : List String) (docker_config : String) (credential : ManagedCredential) : Bool :=
  credential.docker_config == docker_config && registries.contains credential.registry

/-- What a run that found `state` makes of the entries and the records of these registries. -/
structure Change (state : ManagedState) (docker_config : String) (registries : List String) (entry : Option Json)
    (files files' : Pair) : Prop where
  settings : codec.Edited (fun before after =>
    Entries registries before after ∧ (∀ registry ∈ registries, helper_entry after registry = entry) ∧
      ∀ registry found, helper_entry before registry = some found → ¬state.Owns docker_config registry found →
        helper_entry after registry = some found) files.settings files'.settings
  state : ∃ left : ManagedState, left.version = state.version ∧
    (left.credentials.filter fun credential => !selects registries docker_config credential) =
      (state.credentials.filter fun credential => !selects registries docker_config credential) ∧
    (files'.state = some (codec.print left.to_value) ∨ files'.state = none ∧ left.credentials = [])

/-- The state a command finds. -/
def Starts (files : Pair) (state : ManagedState) : Prop := ∃ path, load_state parse path (files.state.bind codec.read) = .ok state

/-- What `configure` makes of the files. -/
def Configures (options : ConfigureOptions) (files written : Pair) : Prop :=
  ∃ registry docker_config old, canonical_registry parse options.registry = .ok registry ∧
    world.docker_config_path = .ok docker_config ∧ Starts codec parse files old ∧
    Change codec old docker_config.text [registry] (some (.str HELPER_NAME)) files written

def Unconfigures (registry : Option String) (all : Bool) (files written : Pair) : Prop :=
  ∃ named docker_config old registries, registry.mapM (canonical_registry parse) = .ok named ∧
    world.docker_config_path = .ok docker_config ∧ Starts codec parse files old ∧
    (∀ registry ∈ registries, (all = true ∨ named = some registry) ∧
      ∃ credential ∈ old.credentials, manages registry docker_config.text credential = true) ∧
    Change codec old docker_config.text registries none files written

variable {codec parse world reads} {files : Pair}

theorem selects_one {docker_config : String} : selects [registry] docker_config = manages registry docker_config := by
  funext credential
  rw [selects, manages, Bool.and_comm, List.contains_cons, List.contains_nil, Bool.or_false]

theorem found_value {c : Contents} {u other : String} {before : Json}
    (hc : (found codec world reads files).docker = .ok c) (h : parse_object u other c = .ok before) :
    codec.value files.settings = some before := by
  obtain ⟨_, -, rfl⟩ := map_eq_ok.mp hc
  exact Codec.parse_object_value h

variable {state : ManagedState}

/-- The entry that is there is the helper's, and a record claims it. -/
theorem check_helper_owns {docker_config : String} {helper : Option String}
    (h : check_helper registry (state.credentials.find? (manages registry docker_config)).isSome helper = .ok ())
    {entry : Json} (he : helper.map Json.str = some entry) : state.Owns docker_config registry entry := by
  obtain ⟨n, rfl, rfl⟩ := Option.map_eq_some_iff.mp he
  unfold check_helper at h
  dsimp only at h
  split at h
  · cases h
  · rename_i hn
    split at h
    · cases h
    · rename_i hm
      rw [Bool.not_eq_false] at hm
      obtain ⟨c, hf⟩ := Option.isSome_iff_exists.mp hm
      exact ⟨congrArg Json.str (not_not.mp hn), c, List.mem_of_find?_eq_some hf, List.find?_some hf⟩

theorem configure_plan_write {options : ConfigureOptions}
    (h : configure_plan parse (found codec world reads files) options (files.state.bind codec.read) = .ok (.Write state docker))
    (written : Pair) (ht : written.settings = some (codec.print docker))
    (hs : written.state = some (codec.print state.to_value)) : Configures codec parse world options files written := by
  obtain ⟨registry, hr, h⟩ := bind_ok h
  obtain ⟨d, hc, h⟩ := bind_ok h
  obtain ⟨s, -, h⟩ := bind_ok h
  obtain ⟨cn, hn, h⟩ := bind_ok h
  obtain ⟨before, hb, h⟩ := bind_ok h
  obtain ⟨e, hl, h⟩ := bind_ok h
  obtain ⟨p, -, h⟩ := bind_ok h
  obtain ⟨o, hd, h⟩ := bind_ok h
  obtain ⟨hch, h⟩ := bind_unit_ok h
  dsimp only at h
  split at h
  · cases h
  · obtain ⟨c, -, h⟩ := bind_ok h
    split at h
    · cases h
    · replace h := rest_ok h
      replace h := rest_ok h
      obtain ⟨a, hse, h⟩ := bind_ok h
      obtain ⟨rfl, rfl⟩ := Plan.Write.inj (Except.ok.inj h)
      obtain ⟨hen, het⟩ := set_credential_helper_entries hse
      have hm : manages registry d.text (options.credential registry d.text s) := by
        simp [manages, ConfigureOptions.credential]
      have hf := upsert_filter hm o.credentials
      refine ⟨registry, d, o, hr, hc, ⟨p, hd⟩, ?_, ?_⟩
      · refine .inr ⟨before, a, found_value hn hb, ht, hen, ?_, ?_⟩
        · exact fun other ho => List.mem_singleton.mp ho ▸ het
        · intro other en he hfr
          by_cases ho : other = registry
          · subst ho
            exact absurd (check_helper_owns hch ((credential_helper_entry hl).symm.trans he)) hfr
          · rw [hen.kept other (by simpa using ho), he]
      · refine ⟨⟨o.version, upsert _ _ o.credentials⟩, rfl, ?_, .inl hs⟩
        rw [selects_one]
        exact hf

/-- A run of `configure`, where a file is put back when that is tried. -/
theorem configure_run (hr : world.restore = .ok ()) (o : ConfigureOptions) (files : Pair) :
    Settled (Configures codec parse world o files) files (configure_files codec parse world reads o files) := by
  unfold configure_files
  cases hp : configure_plan parse (found codec world reads files) o (files.state.bind codec.read) with
  | error m => exact settled_error m
  | ok p =>
    cases p with
    | Keep done => exact settled_kept done
    | Write state docker =>
      dsimp only
      exact settled_writes hr rfl (configure_plan_write hp _ rfl rfl)

/-- What the entry of a selected registry is. -/
theorem check_selected_entry {c : Bool} (h : check_selected docker registry = .ok c) :
    helper_entry docker registry = if c then some (.str HELPER_NAME) else none := by
  obtain ⟨helper, hl, h⟩ := bind_ok h
  rw [credential_helper_entry hl]
  cases helper with
  | none =>
    cases h
    rfl
  | some helper =>
    dsimp only at h
    split at h
    · rename_i hn
      cases h
      rw [hn]
      rfl
    · cases h

theorem unconfigure_plan_write {registry : Option String} {all y : Bool} {docker : Option Json}
    (h : unconfigure_plan parse (found codec world reads files) registry all y (files.state.bind codec.read) = .ok (.Write state docker))
    (written : Pair) (ht : written.settings = docker.elim files.settings fun docker => some (codec.print docker))
    (hs : written.state = some (codec.print state.to_value) ∨ written.state = none ∧ state.credentials = []) :
    Unconfigures codec parse world registry all files written := by
  obtain ⟨named, hn, h⟩ := bind_ok h
  obtain ⟨d, hcn, h⟩ := bind_ok h
  obtain ⟨ct, hct, h⟩ := bind_ok h
  obtain ⟨before, hf, h⟩ := bind_ok h
  obtain ⟨p, -, h⟩ := bind_ok h
  obtain ⟨o, hl, h⟩ := bind_ok h
  dsimp only at h
  split at h
  · cases h
  · obtain ⟨c, hcf, h⟩ := bind_ok h
    obtain ⟨cn, -, h⟩ := bind_ok h
    split at h
    · cases h
    · replace h := rest_ok h
      replace h := rest_ok h
      obtain ⟨a, hm, h⟩ := bind_ok h
      obtain ⟨rfl, rfl⟩ := Removal.Write.inj (Except.ok.inj h)
      obtain ⟨hch, hmm⟩ := filterM_ok hcf
      have hsl : ∀ registry ∈ (o.credentials.filter fun credential =>
          credential.docker_config == d.text && (all || named == some credential.registry)).map ManagedCredential.registry,
          (all ∨ named = some registry) ∧
            ∃ credential ∈ o.credentials, manages registry d.text credential := by
        intro registry hr
        obtain ⟨credential, hc, rfl⟩ := List.mem_map.mp hr
        obtain ⟨hold, hmt⟩ := List.mem_filter.mp hc
        obtain ⟨hcn, hns⟩ := Bool.and_eq_true_iff.mp hmt
        refine ⟨(Bool.or_eq_true_iff.mp hns).imp id eq_of_beq, credential, hold, ?_⟩
        rw [manages, hcn, beq_self_eq_true, Bool.and_self]
      refine ⟨named, d, o, _, hn, hcn, ⟨p, hl⟩, hsl, ?_, ?_⟩
      · by_cases hnn : c = []
        · rw [if_pos hnn] at ht
          exact .inl ht
        · rw [if_neg hnn] at ht
          obtain ⟨hen, hg⟩ := remove_all_entries hnn hm
          refine .inr ⟨before, a, found_value hct hf, ht, ?_, fun registry hr => ?_, ?_⟩
          · exact ⟨hen.others, fun registry hr => hen.kept registry fun hi => hr ((hmm registry).mp hi).1, hen.dropped⟩
          · by_cases hi : registry ∈ c
            · exact hg registry hi
            · obtain ⟨b, hb⟩ := hch registry hr
              cases b with
              | true => exact absurd ((hmm registry).mpr ⟨hr, hb⟩) hi
              | false =>
                rw [hen.kept registry hi, check_selected_entry hb]
                exact if_neg Bool.false_ne_true
          · intro registry e he hfr
            by_cases hi : registry ∈ c
            · obtain ⟨hr, hb⟩ := (hmm registry).mp hi
              rw [check_selected_entry hb] at he
              exact absurd ⟨(Option.some.inj he).symm, (hsl registry hr).2⟩ hfr
            · rw [hen.kept registry hi, he]
      · refine ⟨⟨o.version, o.credentials.filter _⟩, rfl, ?_, hs⟩
        rw [List.filter_filter]
        refine List.filter_congr fun credential _ => ?_
        rw [selects, Bool.not_and]
        exact Bool.and_self _

/-- A run of `unconfigure`, where a file is put back when that is tried. -/
theorem unconfigure_run (hr : world.restore = .ok ()) (registry : Option String) (a y : Bool) (files : Pair) :
    Settled (Unconfigures codec parse world registry a files)
      files (unconfigure_files codec parse world reads registry a y files) := by
  unfold unconfigure_files
  cases hp : unconfigure_plan parse (found codec world reads files) registry a y (files.state.bind codec.read) with
  | error m => exact settled_error m
  | ok p =>
    cases p with
    | Keep done => exact settled_kept done
    | Write state docker =>
      dsimp only
      refine settled_writes (by cases docker <;> first | rfl | exact hr) (by cases docker <;> rfl)
        (unconfigure_plan_write hp _ ?_ ?_)
      · cases docker <;> rfl
      · dsimp only
        split
        · rename_i he
          exact .inr ⟨rfl, he.1⟩
        · exact .inl rfl

end Docker

namespace Claude

variable {rules : Rules} (codec : Codec) (parse_uuid : String → Bool) (world : World rules) (reads : Reads)

/-! ## Claude Code -/

/-- The world in which the files are what they are; the state is read once. -/
def found (files : Pair) : World rules :=
  { world with
    settings := reads.settings.map fun _ => codec.contents files.settings
    state_path := codec.state_path world.state_path [reads.state] files.state }

/-- A file is written when its value changes. When the settings cannot be replaced, the state is put back. -/
def configure_files (options : ConfigureOptions) (files : Pair) : Except String Done × Pair :=
  match configure_plan parse_uuid (found codec world reads files) options (files.state.bind codec.read) with
  | .error message => (.error message, files)
  | .ok (.Keep done) => (.ok done, files)
  | .ok (.Write state settings) =>
    match state.elim (.ok ()) fun _ => world.write_state with
    | .error message => (.error message, files)
    | .ok () =>
      let written := state.elim files fun state => { files with state := some (codec.print state.to_value) }
      match settings.elim (.ok ()) fun _ => world.write_settings with
      | .ok () => (.ok .Configured, settings.elim written fun settings => { written with settings := some (codec.print settings) })
      | .error message =>
        match state.elim (.ok ()) fun _ => world.restore with
        | .ok () => (.error message, { written with state := files.state })
        | .error _ => (.error message, written)

def unconfigure_files (is_global yes : Bool) (files : Pair) : Except String Done × Pair :=
  match unconfigure_plan parse_uuid (found codec world reads files) is_global yes (files.state.bind codec.read) with
  | .error message => (.error message, files)
  | .ok (.Keep done) => (.ok done, files)
  | .ok (.Write state settings) =>
    match settings.elim (.ok ()) fun _ => world.write_settings with
    | .error message => (.error message, files)
    | .ok () =>
      let written := settings.elim files fun settings => { files with settings := some (codec.print settings) }
      match world.write_state with
      | .ok () => (.ok .Removed, { written with state := some (codec.print state.to_value) })
      | .error message =>
        match settings.elim (.ok ()) fun _ => world.restore with
        | .ok () => (.error message, { written with settings := files.settings })
        | .error _ => (.error message, written)

/-! ### One run -/

/-- The helper of a settings file is this state's own. -/
def ManagedState.Owns (state : ManagedState) (path : String) (entry : Json) : Prop :=
  ∃ setting ∈ state.settings, manages path setting = true ∧ entry = .str setting.helper

/-- What a run that found `state` makes of the helper and the record of a settings file. -/
structure Change (state : ManagedState) (path : String) (entry : Option Json) (files files' : Pair) : Prop where
  settings : codec.Edited (fun before after =>
    (∀ field, field ≠ "apiKeyHelper" → after.get field = before.get field) ∧ after.get "apiKeyHelper" = entry ∧
      ∀ found, before.get "apiKeyHelper" = some found → ¬state.Owns path found → after.get "apiKeyHelper" = some found)
    files.settings files'.settings
  state : files'.state = files.state ∨ ∃ left : ManagedState, left.version = state.version ∧
    (left.settings.filter fun setting => !manages path setting) = (state.settings.filter fun setting => !manages path setting) ∧
    files'.state = some (codec.print left.to_value)

def Starts (files : Pair) (state : ManagedState) : Prop := ∃ path, parse_state parse_uuid path (files.state.bind codec.read) = .ok state

/-- What `configure` makes of the files. -/
def Configures (files written : Pair) : Prop :=
  ∃ path old id, world.settings_path = .ok path ∧ Starts codec parse_uuid files old ∧
    Change codec old path.text (some (.str (helper_command id))) files written

def Unconfigures (files written : Pair) : Prop :=
  ∃ path old, world.settings_path = .ok path ∧ Starts codec parse_uuid files old ∧ Change codec old path.text none files written

variable {codec parse_uuid world reads} {files : Pair}

theorem found_value {c : Contents} {u other : String} {before : Json}
    (hc : (found codec world reads files).settings = .ok c) (h : parse_object u other c = .ok before) :
    codec.value files.settings = some before := by
  obtain ⟨_, -, rfl⟩ := map_eq_ok.mp hc
  exact Codec.parse_object_value h

theorem api_key_helper_entry {s : Json} {p : String} {helper : Option String} (h : api_key_helper s p = .ok helper) :
    s.get "apiKeyHelper" = helper.map Json.str := by
  unfold api_key_helper at h
  split at h
  · rename_i hn
    cases h
    exact hn
  · rename_i found hf
    cases h
    exact hf
  · cases h

theorem set_api_key_helper_entry {s a : Json} {helper p : String} (h : set_api_key_helper s helper p = .ok a) :
    (∀ f, f ≠ "apiKeyHelper" → a.get f = s.get f) ∧ a.get "apiKeyHelper" = some (.str helper) := by
  unfold set_api_key_helper at h
  split at h
  · cases h
    exact ⟨fun f hf => lookup_insert_of_ne hf _ _, lookup_insert_self _ _ _⟩
  · cases h

theorem remove_api_key_helper_entry {s a : Json} {p : String} (h : remove_api_key_helper s p = .ok a) :
    (∀ f, f ≠ "apiKeyHelper" → a.get f = s.get f) ∧ a.get "apiKeyHelper" = none := by
  unfold remove_api_key_helper at h
  split at h
  · cases h
    exact ⟨fun f hf => Audit.lookup_remove hf, lookup_remove_self _ _⟩
  · cases h

theorem check_helper_owns {path w : String} {state : ManagedState} {helper : Option String}
    (h : check_helper w (state.settings.find? (manages path)) helper = .ok ()) {entry : Json}
    (he : helper.map Json.str = some entry) : state.Owns path entry := by
  obtain ⟨n, rfl, rfl⟩ := Option.map_eq_some_iff.mp he
  cases hf : state.settings.find? (manages path) with
  | none =>
    rw [hf] at h
    cases h
  | some s =>
    rw [hf] at h
    dsimp only [check_helper] at h
    split at h
    · rename_i hs
      exact ⟨s, List.mem_of_find?_eq_some hf, List.find?_some hf, congrArg Json.str hs⟩
    · cases h

theorem configure_plan_write {o : ConfigureOptions} {state : Option ManagedState} {s : Option Json}
    (h : configure_plan parse_uuid (found codec world reads files) o (files.state.bind codec.read) = .ok (.Write state s))
    (written : Pair) (ht : written.settings = s.elim files.settings fun s => some (codec.print s))
    (hs : written.state = state.elim files.state fun state => some (codec.print state.to_value)) :
    Configures codec parse_uuid world files written := by
  replace h := rest_ok h
  obtain ⟨p, hp, h⟩ := bind_ok h
  obtain ⟨sr, -, h⟩ := bind_ok h
  obtain ⟨t, -, h⟩ := bind_ok h
  obtain ⟨cn, hc, h⟩ := bind_ok h
  obtain ⟨before, hb, h⟩ := bind_ok h
  obtain ⟨w, -, h⟩ := bind_ok h
  obtain ⟨ol, hr, h⟩ := bind_ok h
  obtain ⟨e, hl, h⟩ := bind_ok h
  obtain ⟨hch, h⟩ := bind_unit_ok h
  split at h
  · cases h
  · obtain ⟨c, -, h⟩ := bind_ok h
    split at h
    · cases h
    · replace h := rest_ok h
      replace h := rest_ok h
      obtain ⟨a, hse, h⟩ := bind_ok h
      obtain ⟨rfl, rfl⟩ := Plan.Write.inj (Except.ok.inj h)
      obtain ⟨ho, hn⟩ := set_api_key_helper_entry hse
      refine ⟨p, ol, (ol.settings.find? (manages p.text)).elim (simple world.id) ManagedSetting.id, hp,
        ⟨w, hr⟩, ?_, ?_⟩
      · split at ht
        · exact .inl ht
        · refine .inr ⟨before, a, found_value hc hb, ht, ho, hn, fun en he hf => ?_⟩
          exact absurd (check_helper_owns hch ((api_key_helper_entry hl).symm.trans he)) hf
      · split at hs
        · exact .inl hs
        · refine .inr ⟨_, ?_, ?_, hs⟩
          · rfl
          · have hm : manages p.text (o.setting ((ol.settings.find? (manages p.text)).elim (simple world.id)
                ManagedSetting.id) p.text t sr) := beq_self_eq_true p.text
            exact upsert_filter hm ol.settings

/-- A run of `configure`, where a file is put back when that is tried. -/
theorem configure_run (hr : world.restore = .ok ()) (o : ConfigureOptions) (files : Pair) :
    Settled (Configures codec parse_uuid world files) files (configure_files codec parse_uuid world reads o files) := by
  unfold configure_files
  cases hp : configure_plan parse_uuid (found codec world reads files) o (files.state.bind codec.read) with
  | error m => exact settled_error m
  | ok p =>
    cases p with
    | Keep done => exact settled_kept done
    | Write state s =>
      dsimp only
      refine settled_writes (by cases state <;> first | rfl | exact hr) (by cases state <;> rfl)
        (configure_plan_write hp _ ?_ ?_)
      all_goals cases state <;> cases s <;> rfl

theorem unconfigure_plan_write {i y : Bool} {state : ManagedState} {s : Option Json}
    (h : unconfigure_plan parse_uuid (found codec world reads files) i y (files.state.bind codec.read) = .ok (.Write state s))
    (written : Pair) (ht : written.settings = s.elim files.settings fun s => some (codec.print s))
    (hs : written.state = some (codec.print state.to_value)) : Unconfigures codec parse_uuid world files written := by
  obtain ⟨p, hp, h⟩ := bind_ok h
  obtain ⟨w, -, h⟩ := bind_ok h
  obtain ⟨o, hr, h⟩ := bind_ok h
  cases hf : o.settings.find? (manages p.text) with
  | none =>
    rw [hf] at h
    cases h
  | some managed =>
    rw [hf] at h
    dsimp only at h
    split at h
    · cases h
    · obtain ⟨cn, hc, h⟩ := bind_ok h
      obtain ⟨before, hb, h⟩ := bind_ok h
      obtain ⟨e, hl, h⟩ := bind_ok h
      obtain ⟨hrf, h⟩ := bind_unit_ok h
      obtain ⟨c, -, h⟩ := bind_ok h
      split at h
      · cases h
      · replace h := rest_ok h
        replace h := rest_ok h
        obtain ⟨a, hm, h⟩ := bind_ok h
        obtain ⟨rfl, rfl⟩ := Removal.Write.inj (Except.ok.inj h)
        obtain ⟨ho, hn⟩ := remove_api_key_helper_entry hm
        have hmn : manages p.text managed := @List.find?_some _ (manages p.text) _ _ hf
        refine ⟨p, o, hp, ⟨w, hr⟩, ?_, .inr ⟨_, ?_, ?_, hs⟩⟩
        · cases e with
          | none => exact .inl ht
          | some helper =>
            refine .inr ⟨before, a, found_value hc hb, ht, ho, hn, fun en he hfr => ?_⟩
            have hsm : helper = managed.helper := by simpa using refuse_ok hrf
            rw [api_key_helper_entry hl] at he
            cases he
            exact absurd ⟨managed, List.mem_of_find?_eq_some hf, hmn, congrArg Json.str hsm⟩ hfr
        · rfl
        · have hp : managed.settings = p.text := eq_of_beq hmn
          have hd : manages p.text { managed with configured := false } := hmn
          have hfl := upsert_filter hd o.settings
          rwa [← hp] at hfl ⊢

/-- A run of `unconfigure`, where a file is put back when that is tried. -/
theorem unconfigure_run (hr : world.restore = .ok ()) (i y : Bool) (files : Pair) :
    Settled (Unconfigures codec parse_uuid world files) files (unconfigure_files codec parse_uuid world reads i y files) := by
  unfold unconfigure_files
  cases hp : unconfigure_plan parse_uuid (found codec world reads files) i y (files.state.bind codec.read) with
  | error m => exact settled_error m
  | ok p =>
    cases p with
    | Keep done => exact settled_kept done
    | Write state s =>
      dsimp only
      refine settled_writes (by cases s <;> first | rfl | exact hr) (by cases s <;> rfl)
        (unconfigure_plan_write hp _ ?_ rfl)
      cases s <;> rfl

end Claude

/-! ## All or nothing -/

theorem all_or_nothing {rules : Rules} (codec : Codec) (reads : Reads) (files : Pair) :
    (∀ (parse : UrlParser) (world : Docker.World rules), world.restore = .ok () →
      (∀ options,
        (∀ message, (Docker.configure_files codec parse world reads options files).1 = .error message →
          (Docker.configure_files codec parse world reads options files).2 = files) ∧
        ∀ done, (Docker.configure_files codec parse world reads options files).1 = .ok done →
          (Docker.configure_files codec parse world reads options files).2 = files ∨
            ∃ registry docker_config old, canonical_registry parse options.registry = .ok registry ∧
              world.docker_config_path = .ok docker_config ∧ Docker.Starts codec parse files old ∧
              Docker.Change codec old docker_config.text [registry] (some (.str Docker.HELPER_NAME)) files
                (Docker.configure_files codec parse world reads options files).2) ∧
      ∀ registry all yes,
        (∀ message, (Docker.unconfigure_files codec parse world reads registry all yes files).1 = .error message →
          (Docker.unconfigure_files codec parse world reads registry all yes files).2 = files) ∧
        ∀ done, (Docker.unconfigure_files codec parse world reads registry all yes files).1 = .ok done →
          (Docker.unconfigure_files codec parse world reads registry all yes files).2 = files ∨
            ∃ named docker_config old registries, registry.mapM (canonical_registry parse) = .ok named ∧
              world.docker_config_path = .ok docker_config ∧ Docker.Starts codec parse files old ∧
              (∀ registry ∈ registries, (all = true ∨ named = some registry) ∧
                ∃ credential ∈ old.credentials, Docker.manages registry docker_config.text credential = true) ∧
              Docker.Change codec old docker_config.text registries none files
                (Docker.unconfigure_files codec parse world reads registry all yes files).2) ∧
    ∀ (parse_uuid : String → Bool) (world : Claude.World rules), world.restore = .ok () →
      (∀ options,
        (∀ message, (Claude.configure_files codec parse_uuid world reads options files).1 = .error message →
          (Claude.configure_files codec parse_uuid world reads options files).2 = files) ∧
        ∀ done, (Claude.configure_files codec parse_uuid world reads options files).1 = .ok done →
          (Claude.configure_files codec parse_uuid world reads options files).2 = files ∨
            ∃ path old id, world.settings_path = .ok path ∧ Claude.Starts codec parse_uuid files old ∧
              Claude.Change codec old path.text (some (.str (Claude.helper_command id))) files
                (Claude.configure_files codec parse_uuid world reads options files).2) ∧
      ∀ is_global yes,
        (∀ message, (Claude.unconfigure_files codec parse_uuid world reads is_global yes files).1 = .error message →
          (Claude.unconfigure_files codec parse_uuid world reads is_global yes files).2 = files) ∧
        ∀ done, (Claude.unconfigure_files codec parse_uuid world reads is_global yes files).1 = .ok done →
          (Claude.unconfigure_files codec parse_uuid world reads is_global yes files).2 = files ∨
            ∃ path old, world.settings_path = .ok path ∧ Claude.Starts codec parse_uuid files old ∧
              Claude.Change codec old path.text none files
                (Claude.unconfigure_files codec parse_uuid world reads is_global yes files).2 :=
  ⟨fun _ _ hr => ⟨fun options => Docker.configure_run hr options files,
      fun registry all yes => Docker.unconfigure_run hr registry all yes files⟩,
    fun _ _ hr => ⟨fun options => Claude.configure_run hr options files,
      fun is_global yes => Claude.unconfigure_run hr is_global yes files⟩⟩

namespace Sample

def codec : Codec := ⟨JsonText.of_bytes, JsonText.to_bytes⟩

def answered : Reads := ⟨.ok (), .ok (), .ok ()⟩

/-- Another helper has a registry, and no state is recorded yet. -/
def files : Pair := ⟨some (JsonText.to_bytes (.obj [("credHelpers", .obj [("quay.io", .str "pass")])])), none⟩

def full_disk : Docker.World ascii := { docker_world with write_docker := .error "No space left on device" }

def ghcr : Docker.ConfigureOptions :=
  ⟨"ghcr.io", none, some "dev", none, none, none, true, none, none, ⟨false, false, false⟩⟩

def api : Claude.ConfigureOptions :=
  ⟨none, none, none, "api.anthropic.com", false, false, none, none, ⟨false, false, false⟩⟩

/-- The state is written first and put back; on a disk with room the helper of `quay.io` stays. -/
theorem all_or_nothing_full_disk :
    (Docker.configure_files codec parse full_disk answered ghcr files).1 = .error "No space left on device" ∧
      (Docker.configure_files codec parse full_disk answered ghcr files).2 = files ∧
      (∃ registry docker_config old, Docker.Change codec old docker_config [registry] (some (.str Docker.HELPER_NAME)) files
        (Docker.configure_files codec parse docker_world answered ghcr files).2) ∧
      ∃ path old helper, Claude.Change codec old path (some (.str helper)) ⟨none, none⟩
        (Claude.configure_files codec parse_uuid claude_world answered api ⟨none, none⟩).2 := by
  have hf : (Docker.configure_files codec parse full_disk answered ghcr files).1 = .error "No space left on device" := by
    decide +kernel
  have hd := (((all_or_nothing codec answered files).1 parse docker_world rfl).1 ghcr).2 .Configured (by decide +kernel)
  have hc := (((all_or_nothing codec answered ⟨none, none⟩).2 parse_uuid claude_world rfl).1 api).2 .Configured (by decide +kernel)
  refine ⟨hf, (((all_or_nothing codec answered files).1 parse full_disk rfl).1 ghcr).1 _ hf, ?_, ?_⟩
  · rcases hd with hs | ⟨registry, docker_config, old, -, -, -, hch⟩
    · have hw : (Docker.configure_files codec parse docker_world answered ghcr files).2.state.isSome := by decide +kernel
      rw [hs] at hw
      cases hw
    · exact ⟨registry, docker_config.text, old, hch⟩
  · rcases hc with hs | ⟨path, old, id, -, -, hch⟩
    · have hw : (Claude.configure_files codec parse_uuid claude_world answered api ⟨none, none⟩).2.state.isSome := by
        decide +kernel
      rw [hs] at hw
      cases hw
    · exact ⟨path.text, old, _, hch⟩

end Sample

end Monosecret.Integration
