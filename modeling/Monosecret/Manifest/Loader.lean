/-
  Monosecret.Manifest.Loader — loading a configuration and everything it extends
  (`ConfigGraphLoader` in `monosecret/src/config.rs`).

  `visit` walks the `extends` graph depth first: `active` holds the files it is inside of,
  `emitted` those it has finished, in the order of their documents. What the operating system
  and the TOML reader answer is `FileSystem`. A file extends the same files by whichever path
  it is reached: a manifest that is itself a symbolic link is outside the model, for the
  loader resolves its `extends` beside the link, by design.

  `visit` follows the search of `Lib.Search` (`visit_search`), so over a finite graph it ends:
  at a cycle, or with every reachable document emitted once and after everything it extends
  (`load_graph`). The overlay of the documents in that order then gives each field the value
  of the last document that sets it, whether the root was read or given as content.
-/

import Monosecret.Lib.Search
import Monosecret.Manifest.Document

namespace Monosecret.Manifest

open Lib

inductive ParseError where
  | Io (message : String)
  | Toml (message : String)
  | UnsupportedRevision (revision : String)
  | CircularDependency (message : String)
  | Validation (message : String)
  | ExtendedConfigNotFound (path : String)
  deriving DecidableEq

def ends_with (suffix text : String) : Bool := suffix.toList.isSuffixOf text.toList

/-- The manifest an `extends` entry names: only a lower-case `.toml` marks a file. -/
def full_path {Path : Type} (join : Path → String → Path) (base_dir : Path) (extend_path : String) : Path :=
  if ends_with ".toml" extend_path then join base_dir extend_path
  else join (join base_dir extend_path) "monosecret.toml"

/-- What the loader asks of the operating system and of the TOML reader. -/
structure FileSystem (Path : Type) where
  canonicalize : Path → Except String Path
  /-- `path.exists()`. -/
  is_there : Path → Bool
  /-- `path.parent()`, or `.`. -/
  parent : Path → Path
  join : Path → String → Path
  display : Path → String
  read_to_string : Path → Except String String
  toml_from_str : String → Except ParseError Config
  canonical_self : ∀ {path c : Path}, canonicalize path = .ok c → canonicalize c = .ok c
  same_extends : ∀ {path c : Path}, canonicalize path = .ok c → ∀ extend_path : String,
    is_there (full_path join (parent path) extend_path) = is_there (full_path join (parent c) extend_path) ∧
      canonicalize (full_path join (parent path) extend_path) = canonicalize (full_path join (parent c) extend_path)

structure ConfigGraphLoader (Path : Type) where
  active : List Path
  emitted : List Path
  documents : List Config

/-- Why a load stopped. -/
inductive LoadStop where
  | fuel
  | panic (message : String)
  | error (error : ParseError)

namespace ConfigGraphLoader

variable {Path : Type}

def empty : ConfigGraphLoader Path := ⟨[], [], []⟩

variable [DecidableEq Path] (fs : FileSystem Path)

def parse_document (content : String) : Except ParseError Config := do
  let config ← fs.toml_from_str content
  if config.project.revision ≠ "1.0" then throw (.UnsupportedRevision config.project.revision)
  return config

/-- One entry of `extends`. -/
def visit_extend (visit : Path → ConfigGraphLoader Path → Except LoadStop (ConfigGraphLoader Path)) (base_dir : Path)
    (loader : ConfigGraphLoader Path) (extend_path : String) : Except LoadStop (ConfigGraphLoader Path) :=
  if fs.is_there (full_path fs.join base_dir extend_path) then visit (full_path fs.join base_dir extend_path) loader
  else .error (.error (.ExtendedConfigNotFound (fs.display (full_path fs.join base_dir extend_path))))

def visit_extends (visit : Path → ConfigGraphLoader Path → Except LoadStop (ConfigGraphLoader Path)) (config : Config)
    (base_dir : Path) (loader : ConfigGraphLoader Path) : Except LoadStop (ConfigGraphLoader Path) :=
  (config.project.extends_.getD []).foldlM (visit_extend fs visit base_dir) loader

def circular (canonical_path : Path) : ParseError :=
  let shown := fs.display canonical_path
  .CircularDependency s!"Configuration file {shown} is part of a circular dependency chain"

/-- `fuel` bounds the depth of the recursion. -/
def visit : Nat → Path → ConfigGraphLoader Path → Except LoadStop (ConfigGraphLoader Path)
  | 0, _, _ => .error .fuel
  | fuel + 1, path, loader =>
    match fs.canonicalize path with
    | .error e =>
      let shown := fs.display path
      .error (.error (.Io s!"Failed to resolve path {shown}: {e}"))
    | .ok canonical_path =>
      if canonical_path ∈ loader.emitted then .ok loader
      else if canonical_path ∈ loader.active then .error (.error (circular fs canonical_path))
      else
        match fs.read_to_string canonical_path with
        | .error e => .error (.error (.Io e))
        | .ok content =>
          match parse_document fs content with
          | .error e => .error (.error e)
          | .ok config => do
            let loader ← visit_extends fs (visit fuel) config (fs.parent path)
              { loader with active := canonical_path :: loader.active }
            return ⟨loader.active.erase canonical_path, loader.emitted ++ [canonical_path], loader.documents ++ [config]⟩

/-- The first document, with the later ones laid over it. -/
def merge : List Config → Option Config
  | [] => none
  | first :: rest => some (rest.foldl Config.overlay_with first)

def load (fuel : Nat) (path : Path) : Except LoadStop Config := do
  let loader ← visit fs fuel path empty
  match merge loader.documents with
  | some merged => return merged
  | none => .error (.panic "visiting a root always emits at least one document")

/-- The extended documents, and the root laid over them last. -/
def from_root_in (fuel : Nat) (root : Config) (base_dir : Path) : Except LoadStop Config := do
  let loader ← visit_extends fs (visit fs fuel) root base_dir empty
  match merge loader.documents with
  | some merged => return merged.overlay_with root
  | none => return root

def load_inline (fuel : Nat) (content : String) (base_dir : Path) : Except LoadStop Config :=
  match parse_document fs content with
  | .error e => .error (.error e)
  | .ok root => from_root_in fs fuel root base_dir

/-! ## The graph of files -/

/-- The document in a file, by the file's canonical path. -/
def document (c : Path) : Option Config :=
  match fs.read_to_string c with
  | .ok content => (parse_document fs content).toOption
  | .error _ => none

/-- The file an entry of `extends` leads to. -/
def extended (base_dir : Path) (extend_path : String) : Option Path :=
  (fs.canonicalize (full_path fs.join base_dir extend_path)).toOption

/-- The files a file extends, in order. -/
def extends_of (c : Path) : List Path :=
  match document fs c with
  | some config => (config.project.extends_.getD []).filterMap (extended fs (fs.parent c))
  | none => []

/-- Finitely many files, each with a document that extends files among them. -/
structure Graph (files : List Path) : Prop where
  documents : ∀ c ∈ files, ∃ config, document fs c = some config
  extends_ : ∀ c ∈ files, ∀ config, document fs c = some config → ∀ extend_path ∈ config.project.extends_.getD [],
    fs.is_there (full_path fs.join (fs.parent c) extend_path) = true ∧
      ∃ d ∈ files, fs.canonicalize (full_path fs.join (fs.parent c) extend_path) = .ok d

variable {fs}
variable {files : List Path}

omit [DecidableEq Path] in
theorem Graph.closed (h : Graph fs files) : ∀ c ∈ files, ∀ d ∈ extends_of fs c, d ∈ files := by
  intro c hc d hd
  obtain ⟨cn, hn⟩ := h.documents c hc
  simp only [extends_of, hn, List.mem_filterMap] at hd
  obtain ⟨e, hm, he⟩ := hd
  obtain ⟨-, d', hd', hca⟩ := h.extends_ c hc cn hn e hm
  simp only [extended, hca, Except.toOption, Option.some.injEq] at he
  exact he ▸ hd'

/-! ## The loader follows a search -/

/-- A loader and a search in the same place. -/
structure Beside (fs : FileSystem Path) (loader : ConfigGraphLoader Path) (s : Search Path) : Prop where
  active : loader.active = s.active
  emitted : loader.emitted = s.done
  documents : loader.documents.map some = s.done.map (document fs)

/-- How a visit ends when the search ends so. -/
def Ends (fs : FileSystem Path) :
    Except (Search.Stop Path) (Search Path) → Except LoadStop (ConfigGraphLoader Path) → Prop
  | .ok t, result => ∃ loader, result = .ok loader ∧ Beside fs loader t
  | .error .fuel, result => result = .error .fuel
  | .error (.cycle c), result => result = .error (.error (circular fs c))

omit [DecidableEq Path] in
/-- The entries of one document, when each visit follows the search. -/
theorem extends_search {v : Path → ConfigGraphLoader Path → Except LoadStop (ConfigGraphLoader Path)}
    (sr : Search Path → Path → Except (Search.Stop Path) (Search Path)) {b : Path}
    (hv : ∀ pt c, fs.canonicalize pt = .ok c → c ∈ files → ∀ loader s, Beside fs loader s →
      Ends fs (sr s c) (v pt loader)) (en : List String)
    (he : ∀ e ∈ en, fs.is_there (full_path fs.join b e) ∧
      ∃ d ∈ files, fs.canonicalize (full_path fs.join b e) = .ok d) (loader : ConfigGraphLoader Path)
    (s : Search Path) (hb : Beside fs loader s) :
    Ends fs ((en.filterMap (extended fs b)).foldlM sr s)
      (en.foldlM (visit_extend fs v b) loader) := by
  induction en generalizing loader s with
  | nil => exact ⟨loader, rfl, hb⟩
  | cons e en ih =>
    obtain ⟨ht, d, hd, hc⟩ := he e (.head _)
    have het : extended fs b e = some d := by
      simp only [extended, hc, Except.toOption]
    rw [List.filterMap_cons_some het, List.foldlM_cons, List.foldlM_cons]
    have ho := hv _ d hc hd loader s hb
    have hst : visit_extend fs v b loader e =
        v (full_path fs.join b e) loader := if_pos ht
    rw [hst]
    cases hs : sr s d with
    | error st =>
      rw [hs] at ho
      cases st with
      | fuel =>
        have ho : v (full_path fs.join b e) loader = .error .fuel := ho
        rw [ho]
        exact rfl
      | cycle c =>
        have ho : v (full_path fs.join b e) loader = .error (.error (circular fs c)) := ho
        rw [ho]
        exact rfl
    | ok t =>
      rw [hs] at ho
      obtain ⟨next, hn, hbs⟩ := ho
      rw [hn]
      exact ih (fun p hp => he p (.tail _ hp)) next t hbs

omit [DecidableEq Path] in
/-- A file in the graph is read, and its document extends the same files from any path. -/
theorem Graph.read (hg : Graph fs files) {p c : Path} (hp : fs.canonicalize p = .ok c) (hc : c ∈ files) :
    ∃ ct cn, fs.read_to_string c = .ok ct ∧ parse_document fs ct = .ok cn ∧
      document fs c = some cn ∧
      extends_of fs c = (cn.project.extends_.getD []).filterMap (extended fs (fs.parent p)) ∧
      ∀ ex ∈ cn.project.extends_.getD [],
        fs.is_there (full_path fs.join (fs.parent p) ex) ∧
          ∃ d ∈ files, fs.canonicalize (full_path fs.join (fs.parent p) ex) = .ok d := by
  obtain ⟨cn, hn⟩ := hg.documents c hc
  have hs := fs.same_extends hp
  have he : extended fs (fs.parent p) = extended fs (fs.parent c) := by
    funext ex
    rw [extended, (hs ex).2, extended]
  have hd := hn
  unfold document at hd
  split at hd
  · rename_i ct hr
    cases hpr : parse_document fs ct with
    | error e => rw [hpr] at hd; cases hd
    | ok pr =>
      rw [hpr] at hd
      cases hd
      refine ⟨ct, cn, hr, hpr, hn, ?_, ?_⟩
      · simp only [extends_of, hn, he]
      · intro ex hm
        rw [(hs ex).1, (hs ex).2]
        exact hg.extends_ c hc cn hn ex hm
  · cases hd

theorem visit_search (hg : Graph fs files) (fuel : Nat) (pt c : Path) (ht : fs.canonicalize pt = .ok c)
    (hc : c ∈ files) (ld : ConfigGraphLoader Path) (s : Search Path) (hb : Beside fs ld s) :
    Ends fs (Search.search (extends_of fs) fuel c s) (visit fs fuel pt ld) := by
  induction fuel generalizing pt c ld s with
  | zero => exact rfl
  | succ fuel ih =>
    obtain ⟨cn, cf, hr, hpr, hn, he, hen⟩ := hg.read ht hc
    unfold visit Search.search
    simp only [ht, hb.emitted, hb.active]
    by_cases hd : c ∈ s.done
    · rw [if_pos hd, if_pos hd]
      exact ⟨ld, rfl, hb⟩
    rw [if_neg hd, if_neg hd]
    by_cases ha : c ∈ s.active
    · rw [if_pos ha, if_pos ha]
      exact rfl
    rw [if_neg ha, if_neg ha]
    simp only [hr, hpr]
    have hs := extends_search (fun s b => Search.search (extends_of fs) fuel b s)
      (fun p d hp hd l t hl => ih p d hp hd l t hl) _ hen
      ⟨c :: s.active, s.done, ld.documents⟩ ⟨c :: s.active, s.done⟩ ⟨rfl, rfl, hb.documents⟩
    rw [← he] at hs
    unfold visit_extends
    cases hf : (extends_of fs c).foldlM (fun s b => Search.search (extends_of fs) fuel b s) ⟨c :: s.active, s.done⟩ with
    | error st =>
      rw [hf] at hs
      cases st with
      | fuel | cycle b => exact congrArg (· >>= _) hs
    | ok t =>
      rw [hf] at hs
      obtain ⟨next, hx, hbs⟩ := hs
      rw [hx]
      refine ⟨_, rfl, ?_, ?_, ?_⟩
      · show next.active.erase c = s.active
        rw [hbs.active, Search.foldlM_active hf, List.erase_cons_head]
      · simp [hbs.emitted]
      · simp [hbs.documents, hn]

/-! ## Whole loads -/

/-- The file leads to another through `extends`. -/
abbrev Reaches (fs : FileSystem Path) (c d : Path) : Prop := Relation.ReflTransGen (Search.Leads (extends_of fs)) c d

/-- The file extends itself, directly or not. -/
abbrev Circular (fs : FileSystem Path) (c : Path) : Prop := Search.Cyclic (extends_of fs) c

omit [DecidableEq Path] in
theorem beside_empty : Beside fs (empty : ConfigGraphLoader Path) Search.empty := ⟨rfl, rfl, rfl⟩

variable {fuel : Nat}

theorem search_root {c : Path} :
    Search.search_all (extends_of fs) fuel [c] .empty = Search.search (extends_of fs) fuel c .empty := by
  exact bind_pure _

/-- What the root's document extends, loaded from a fresh loader. -/
theorem visit_entries (hg : Graph fs files) {r c : Path} (hr : fs.canonicalize r = .ok c) (hc : c ∈ files)
    (fuel : Nat) :
    ∃ ct cn, fs.read_to_string c = .ok ct ∧ parse_document fs ct = .ok cn ∧
      document fs c = some cn ∧ (cn.project.extends_ = none → extends_of fs c = []) ∧
      Ends fs (Search.search_all (extends_of fs) fuel (extends_of fs c) .empty)
        (visit_extends fs (visit fs fuel) cn (fs.parent r) empty) := by
  obtain ⟨ct, cn, hrd, hpr, hn, he, hen⟩ := hg.read hr hc
  refine ⟨ct, cn, hrd, hpr, hn, ?_, ?_⟩
  · intro hnn
    rw [he, hnn]
    rfl
  · have hed := extends_search (fun s b => Search.search (extends_of fs) fuel b s)
      (fun p d hp hd l t hl => visit_search hg fuel p d hp hd l t hl) _ hen empty .empty beside_empty
    rw [← he] at hed
    exact hed

/-- The root's visit without cycles: what the root extends is done first, as from a fresh loader. -/
theorem visit_acyclic (hg : Graph fs files) {r c : Path} (hr : fs.canonicalize r = .ok c) (hc : c ∈ files)
    (hf : files.length < fuel) (hn : ∀ b, Reaches fs c b → ¬ Circular fs b) :
    ∃ ct cn l e, fs.read_to_string c = .ok ct ∧ parse_document fs ct = .ok cn ∧
      visit fs fuel r empty = .ok l ∧ l.active = [] ∧ l.emitted.Nodup ∧
      (∀ b, b ∈ l.emitted ↔ Reaches fs c b) ∧ Walk.Topological (extends_of fs) l.emitted ∧
      l.documents.map some = l.emitted.map (document fs) ∧
      visit_extends fs (visit fs fuel) cn (fs.parent r) empty = .ok e ∧
      l.documents = e.documents ++ [cn] ∧
      (cn.project.extends_ = none → e.documents = []) := by
  obtain ⟨ct, cn, hd, hp, hcn, hnn, hen⟩ := visit_entries hg hr hc fuel
  have hrt : ∀ a ∈ [c], a ∈ files := by
    intro a ha
    rw [List.mem_singleton.mp ha]
    exact hc
  obtain ⟨t, ht⟩ := (Search.search_all_ok_iff hg.closed hrt hf).mpr (by
    intro a ha b hb
    rw [List.mem_singleton.mp ha] at hb
    exact hn b hb)
  obtain ⟨w, hw⟩ := (Search.search_all_ok_iff hg.closed (hg.closed c hc) hf).mpr
    fun a ha b hb => hn b (.head ha hb)
  have hfr := Search.search_all_outcome hg.closed hrt hf
  have hv := visit_search hg fuel r c hr hc empty .empty beside_empty
  rw [ht] at hfr
  rw [← search_root, ht] at hv
  rw [hw] at hen
  obtain ⟨l, hl, hs⟩ := hv
  obtain ⟨e, het, hb'⟩ := hen
  -- the root is done last, after what it extends
  have hdn : t.done = w.done ++ [c] := by
    obtain ⟨k, rfl⟩ : ∃ k, fuel = k + 1 := ⟨fuel - 1, by omega⟩
    have hsr := search_root.symm.trans ht
    unfold Search.search at hsr
    rw [if_neg (by simp [Search.empty]), if_neg (by simp [Search.empty])] at hsr
    obtain ⟨i, hi, hsr⟩ := Except.bind_ok hsr
    cases hsr
    have hm := Search.foldlM_succ (fun a s t h => Search.search_succ h) hi
    exact congrArg (· ++ [c]) (Search.search_all_done_eq
      (show (⟨[c], []⟩ : Search Path).done = Search.empty.done from rfl) hm hw)
  have hdc : l.documents = e.documents ++ [cn] := by
    refine List.map_injective_iff.mpr (fun _ _ h => Option.some.inj h) ?_
    rw [hs.documents, hdn, List.map_append, List.map_append, hb'.documents, List.map_singleton,
      List.map_singleton, hcn]
  refine ⟨ct, cn, l, e, hd, hp, hl, ?_, ?_, ?_, ?_, ?_, het, hdc, ?_⟩
  · rw [hs.active, hfr.active]
    rfl
  · rw [hs.emitted]
    exact hfr.inv.nodup
  · intro b
    rw [hs.emitted, hfr.mem_done rfl]
    simp
  · rw [hs.emitted]
    exact hfr.inv.topological
  · rw [hs.documents, hs.emitted]
  · intro he
    rw [hnn he] at hw
    cases hw
    exact List.map_eq_nil_iff.mp hb'.documents

/-- A search that meets a cycle makes the loader report one. -/
theorem Ends.circular {r : List Path} (hu : ∀ a ∈ files, ∀ b ∈ extends_of fs a, b ∈ files)
    (hr : ∀ a ∈ r, a ∈ files) (hf : files.length < fuel) {a b : Path} (ha : a ∈ r) (hb : Reaches fs a b)
    (hc : Circular fs b) {rs : Except LoadStop (ConfigGraphLoader Path)}
    (h : Ends fs (Search.search_all (extends_of fs) fuel r .empty) rs) :
    ∃ d, rs = .error (.error (ConfigGraphLoader.circular fs d)) := by
  have ho := Search.search_all_outcome hu hr hf
  cases hs : Search.search_all (extends_of fs) fuel r .empty with
  | ok t => exact absurd hc ((Search.search_all_ok_iff hu hr hf).mp ⟨t, hs⟩ a ha b hb)
  | error s =>
    rw [hs] at ho h
    cases s with
    | fuel => exact ho.elim
    | cycle d => exact ⟨d, h⟩

/-- With a cycle both ways of loading report one. -/
theorem visit_circular (hg : Graph fs files) {r c : Path} (hr : fs.canonicalize r = .ok c) (hc : c ∈ files)
    (hf : files.length < fuel) {b : Path} (hb : Reaches fs c b) (hy : Circular fs b) :
    ∃ cn cf d d', fs.read_to_string c = .ok cn ∧ parse_document fs cn = .ok cf ∧
      visit fs fuel r empty = .error (.error (circular fs d)) ∧
      visit_extends fs (visit fs fuel) cf (fs.parent r) empty = .error (.error (circular fs d')) := by
  obtain ⟨cn, cf, hrd, hp, -, -, he⟩ := visit_entries hg hr hc fuel
  have ht : ∀ a ∈ [c], a ∈ files := by
    intro a ha
    rw [List.mem_singleton.mp ha]
    exact hc
  have hv := visit_search hg fuel r c hr hc empty .empty beside_empty
  rw [← search_root] at hv
  obtain ⟨d, hd⟩ := hv.circular hg.closed ht hf (List.mem_singleton_self c) hb hy
  -- some entry of the root leads to a cycle: the one met, or the root's own
  have het : ∃ a ∈ extends_of fs c, ∃ b, Reaches fs a b ∧ Circular fs b := by
    rcases Relation.ReflTransGen.cases_head hb with rfl | ⟨a, ha, hab⟩
    · obtain ⟨a, ha, hac⟩ := Relation.TransGen.head'_iff.mp hy
      exact ⟨a, ha, c, hac, hy⟩
    · exact ⟨a, ha, b, hab, hy⟩
  obtain ⟨a, ha, b', hab, hc'⟩ := het
  obtain ⟨d', hd'⟩ := he.circular hg.closed (hg.closed c hc) hf ha hab hc'
  exact ⟨cn, cf, d, d', hrd, hp, hd, hd'⟩

theorem merge_snoc (d : List Config) (dc : Config) :
    merge (d ++ [dc]) =
      some (match merge d with | some merged => merged.overlay_with dc | none => dc) := by
  cases d with
  | nil => rfl
  | cons first r => simp [merge]

/-- The merge of a root after what it extends has the fields last set. -/
theorem merge_get {d : List Config} {r merged : Config} (h : merge (d ++ [r]) = some merged)
    (hn : r.project.extends_ = none → d = []) (f : Field) :
    f.get merged = last_set f (d ++ [r]) := by
  by_cases hf : f = .extends_
  · subst hf
    rw [merge_snoc] at h
    rw [last_set_snoc]
    cases hr : r.project.extends_ with
    | none =>
      rw [hn hr] at h ⊢
      cases h
      show r.project.extends_ = r.project.extends_.or none
      rw [hr]
      rfl
    | some entries =>
      have hg : Field.extends_.get merged = some entries := by
        cases hm : merge d <;> rw [hm] at h <;> cases h <;> exact hr
      rw [hg, show Field.extends_.get r = some entries from hr]
      rfl
  · cases d with
    | nil =>
      cases h
      exact overlay_all_get r [] f hf
    | cons first rs =>
      cases h
      exact overlay_all_get first (rs ++ [r]) f hf

/-- Over a finite graph a load ends. If the root reaches no cycle, every file it reaches is
    emitted once, after what it extends, and the merge gives each field the value of the last
    document that sets it, from a path and from content alike; otherwise both report a cycle. -/
theorem load_graph (fs : FileSystem Path) {files : List Path} (hg : Graph fs files) {root c : Path}
    (hroot : fs.canonicalize root = .ok c) (hc : c ∈ files) {fuel : Nat} (hf : files.length < fuel) :
    ((∀ b, Reaches fs c b → ¬ Circular fs b) →
      ∃ order documents merged, visit fs fuel root empty = .ok ⟨[], order, documents⟩ ∧
        order.Nodup ∧ (∀ b, b ∈ order ↔ Reaches fs c b) ∧ Walk.Topological (extends_of fs) order ∧
        documents.map some = order.map (document fs) ∧
        load fs fuel root = .ok merged ∧ (∀ field : Field, field.get merged = last_set field documents) ∧
        ∀ content, fs.read_to_string c = .ok content → load_inline fs fuel content (fs.parent root) = .ok merged) ∧
    ((∃ b, Reaches fs c b ∧ Circular fs b) →
      (∃ message, load fs fuel root = .error (.error (.CircularDependency message))) ∧
        ∀ content, fs.read_to_string c = .ok content →
          ∃ message, load_inline fs fuel content (fs.parent root) = .error (.error (.CircularDependency message))) := by
  constructor
  · intro hn
    obtain ⟨content, cn, loader, e, hr, hp, hv, ha, hd, hm, ht, hdc, he,
      hl, hnn⟩ := visit_acyclic hg hroot hc hf hn
    obtain ⟨active, order, documents⟩ := loader
    obtain rfl : active = [] := ha
    obtain rfl : documents = e.documents ++ [cn] := hl
    have hmr := merge_snoc e.documents cn
    refine ⟨order, _, _, hv, hd, hm, ht, hdc, ?_, merge_get hmr hnn, ?_⟩
    · simp [load, hv, bind, Except.bind, hmr, pure, Except.pure]
    · intro c' hcn
      rw [hr] at hcn
      cases hcn
      simp only [load_inline, hp, from_root_in, he, bind, Except.bind]
      cases merge e.documents <;> rfl
  · rintro ⟨b, hb, hy⟩
    obtain ⟨content, cn, d, d', hr, hp, hv, he⟩ := visit_circular hg hroot hc hf hb hy
    constructor
    · exact ⟨_, by simp only [load, hv, bind, Except.bind, circular]; rfl⟩
    · intro c' hcn
      rw [hr] at hcn
      cases hcn
      exact ⟨_, by simp only [load_inline, hp, from_root_in, he, bind, Except.bind, circular]; rfl⟩

/-! ## A definition is replaced as a whole -/

/-- `API_KEY`, described by `base.toml` and given a default by the root that extends it. -/
def key_secret (description default : Option String) : Secret := { Secret.empty with description, default }

def one_secret (project : Project) (secret : Secret) : Config where
  project
  profiles := AList.insert "default" ⟨none, AList.insert "API_KEY" secret ∅⟩ ∅
  defaults := none
  providers := none
  groups := none
  scopes := none

def base_document : Config := one_secret ⟨"base", "1.0", none, none⟩ (key_secret (some "the key") none)

def app_document : Config := one_secret ⟨"app", "1.0", some ["base.toml"], none⟩ (key_secret none (some "dev"))

theorem ok_self {c p : Nat} (_ : (.ok p : Except String Nat) = .ok c) : (.ok c : Except String Nat) = .ok c := rfl

/-- File 0 is the root, file 1 `base.toml`. -/
def two_files : FileSystem Nat where
  canonicalize path := .ok path
  is_there path := decide (path < 2)
  parent path := path
  join _ entry := if entry = "base.toml" then 1 else 2
  display path := s!"{path}"
  read_to_string path := if path = 0 then .ok "app" else if path = 1 then .ok "base" else .error "no such file"
  toml_from_str content := if content = "app" then .ok app_document else .ok base_document
  canonical_self h := by cases h; rfl
  same_extends h extend_path := by cases h; exact ⟨rfl, rfl⟩

theorem two_files_graph : Graph two_files [0, 1] := by
  constructor
  · intro c hc
    simp only [List.mem_cons, List.not_mem_nil, or_false] at hc
    rcases hc with rfl | rfl
    · exact ⟨app_document, rfl⟩
    · exact ⟨base_document, rfl⟩
  · intro c hc cn hn e he
    simp only [List.mem_cons, List.not_mem_nil, or_false] at hc
    rcases hc with rfl | rfl
    · cases hn
      obtain rfl : e = "base.toml" := by simpa [app_document, one_secret] using he
      exact ⟨rfl, 1, by simp, rfl⟩
    · cases hn
      simp [base_document, one_secret] at he

theorem two_files_leads {a b : Nat} (h : Search.Leads (extends_of two_files) a b) : a = 0 ∧ b = 1 := by
  have hb : b ∈ extends_of two_files a := h
  by_cases h0 : a = 0
  · subst h0
    exact ⟨rfl, List.mem_singleton.mp hb⟩
  · by_cases h1 : a = 1
    · subst h1
      cases hb
    · have hr : two_files.read_to_string a = .error "no such file" := by simp [two_files, h0, h1]
      simp [extends_of, document, hr] at hb

theorem two_files_acyclic (a : Nat) : ¬ Circular two_files a := by
  intro h
  obtain ⟨b, hb, -⟩ := Relation.TransGen.head'_iff.mp h
  obtain ⟨c, -, hc⟩ := Relation.TransGen.tail'_iff.mp h
  have h0 := (two_files_leads hb).1
  have h1 := (two_files_leads hc).2
  omega

theorem load_graph_two_files : ∃ merged, load two_files 3 0 = .ok merged ∧
    (Field.secret "default" "API_KEY").get merged = last_set (.secret "default" "API_KEY") [base_document, app_document] ∧
    load_inline two_files 3 "app" 0 = .ok merged := by
  obtain ⟨o, d, merged, hv, -, -, -, -, hl, hg, hi⟩ :=
    (load_graph two_files two_files_graph (show two_files.canonicalize 0 = .ok 0 from rfl) (by simp)
      (show [0, 1].length < 3 by decide)).1
      fun b _ => two_files_acyclic b
  have hd : visit two_files 3 0 empty = .ok ⟨[], [1, 0], [base_document, app_document]⟩ := rfl
  rw [hd] at hv
  cases hv
  exact ⟨merged, hl, hg _, hi "app" rfl⟩

/-- `base.toml` is the last document that describes the key, and the merged key has no
    description. -/
theorem description_replaced :
    visit two_files 3 0 empty = .ok ⟨[], [1, 0], [base_document, app_document]⟩ ∧
    ((Field.secret "default" "API_KEY").get base_document).bind Secret.description = some "the key" ∧
    ((Field.secret "default" "API_KEY").get app_document).bind Secret.description = none ∧
    ∃ merged, load two_files 3 0 = .ok merged ∧
      ((Field.secret "default" "API_KEY").get merged).bind Secret.description = none :=
  ⟨rfl, rfl, rfl, _, rfl, rfl⟩

end ConfigGraphLoader

end Monosecret.Manifest
