/-
  Monosecret.Lib.Unix — a Unix file system as path resolution sees it.

  A node stands at a location, the names that lead to it from the root. A path is walked
  component by component; a symbolic link on the way is replaced by its target, so many times
  at most. What a walk comes to is a real location: every directory above it is there, none of
  them a link, and may be searched (`canonicalize_real`); and a real location leads to itself
  (`canonicalize_self`).
-/

import Mathlib.Data.String.Basic
import Monosecret.Lib.Except

namespace Lib.Unix

structure PathBuf where
  absolute : Bool
  components : List String
  deriving DecidableEq

def PathBuf.join (path : PathBuf) (name : String) : PathBuf := { path with components := path.components ++ [name] }

def split_at (separator : Char) (text : List Char) : List String := (text.splitOn separator).map String.ofList

def PathBuf.of_text (text : String) : PathBuf :=
  match text.toList with
  | [] => ⟨false, []⟩
  | '/' :: rest => ⟨true, split_at '/' rest⟩
  | text => ⟨false, split_at '/' text⟩

inductive Kind
  | Directory
  | Regular (content : List UInt8)
  | Symlink (target : PathBuf)
  deriving DecidableEq

structure Node where
  kind : Kind
  ino : Nat
  mode : Nat
  uid : Nat
  deriving DecidableEq

def Node.is_dir (node : Node) : Bool :=
  match node.kind with
  | .Directory => true
  | _ => false

def Node.is_file (node : Node) : Bool :=
  match node.kind with
  | .Regular _ => true
  | _ => false

def Node.is_symlink (node : Node) : Bool :=
  match node.kind with
  | .Symlink _ => true
  | _ => false

inductive Errno
  | ENOENT
  | ENOTDIR
  | EACCES
  | ELOOP
  deriving DecidableEq

/-- The file system as one process may use it. -/
structure FileSystem where
  node : List String → Option Node
  root : ∃ found, node [] = some found ∧ found.is_dir = true
  cwd : List String
  searches : Node → Bool
  reads : Node → Bool

/-- A name of an entry, not of the directory itself or the one above. -/
def Plain (name : String) : Prop := name ≠ "" ∧ name ≠ "." ∧ name ≠ ".."

instance (name : String) : Decidable (Plain name) := inferInstanceAs (Decidable (_ ∧ _))

/-- Where components lead, up to the first link that is to be followed. -/
inductive Walked
  | Arrives (location : List String)
  | Fails (error : Errno)
  | Follows (directory : List String) (components : List String)
  deriving DecidableEq

namespace FileSystem

variable (files : FileSystem)

/-- A component is looked up in a directory that may be searched. -/
def enters (directory : List String) : Except Errno Unit :=
  match files.node directory with
  | none => .error .ENOENT
  | some node => if !node.is_dir then .error .ENOTDIR else if !files.searches node then .error .EACCES else .ok ()

def advance (follow : Bool) : List String → List String → Walked
  | directory, [] => .Arrives directory
  | directory, name :: rest =>
    match files.enters directory with
    | .error error => .Fails error
    | .ok () =>
      if name = "" ∨ name = "." then advance follow directory rest
      else if name = ".." then advance follow directory.dropLast rest
      else
        match files.node (directory ++ [name]) with
        | none => .Fails .ENOENT
        | some node =>
          match node.kind with
          | .Symlink target =>
            if rest = [] ∧ follow = false then .Arrives (directory ++ [name])
            else .Follows (if target.absolute then [] else directory) (target.components ++ rest)
          | _ => advance follow (directory ++ [name]) rest

def walk (follow : Bool) : Nat → List String → List String → Except Errno (List String)
  | links, directory, components =>
    match files.advance follow directory components with
    | .Arrives location => .ok location
    | .Fails error => .error error
    | .Follows directory components =>
      match links with
      | 0 => .error .ELOOP
      | links + 1 => walk follow links directory components

def MAXSYMLINKS : Nat := 40

def locate (follow : Bool) (path : PathBuf) : Except Errno (List String) :=
  if path = ⟨false, []⟩ then .error .ENOENT
  else files.walk follow MAXSYMLINKS (if path.absolute then [] else files.cwd) path.components

def canonicalize (path : PathBuf) : Except Errno PathBuf := (files.locate true path).map (PathBuf.mk true)

def node_at (location : List String) : Except Errno Node :=
  match files.node location with
  | none => .error .ENOENT
  | some node => .ok node

def metadata (path : PathBuf) : Except Errno Node := (files.locate true path).bind files.node_at

def symlink_metadata (path : PathBuf) : Except Errno Node := (files.locate false path).bind files.node_at

def try_exists (path : PathBuf) : Except Errno Bool :=
  match files.metadata path with
  | .ok _ => .ok true
  | .error .ENOENT => .ok false
  | .error error => .error error

def is_file (path : PathBuf) : Bool :=
  match files.metadata path with
  | .ok node => node.is_file
  | .error _ => false

def open_file (path : PathBuf) : Except Errno Node :=
  match files.metadata path with
  | .error error => .error error
  | .ok node => if files.reads node then .ok node else .error .EACCES

end FileSystem

/-- The locations above one, the nearest first. -/
def ancestors (location : List String) : List (List String) := (List.range location.length).reverse.map location.take

variable {location : List String}

theorem mem_ancestors {above : List String} : above ∈ ancestors location ↔ above <+: location ∧ above ≠ location := by
  unfold ancestors
  simp only [List.mem_map, List.mem_reverse, List.mem_range]
  constructor
  · rintro ⟨k, hk, rfl⟩
    refine ⟨List.take_prefix k location, fun he => ?_⟩
    have := congrArg List.length he
    rw [List.length_take] at this
    omega
  · rintro ⟨hu, hn⟩
    refine ⟨above.length, lt_of_le_of_ne hu.length_le fun hl => hn (hu.eq_of_length hl), ?_⟩
    exact (List.prefix_iff_eq_take.mp hu).symm

/-! ## Real locations -/

variable {files : FileSystem}

/-- Every step of a location is an entry of a directory that may be searched. -/
def Rooted (files : FileSystem) (location : List String) : Prop :=
  ∀ above name rest, location = above ++ name :: rest → Plain name ∧ files.enters above = .ok ()

structure Real (files : FileSystem) (location : List String) : Prop where
  rooted : Rooted files location
  found : ∃ node, files.node location = some node ∧ node.is_symlink = false

variable {directory : List String}

theorem enters_ok :
    files.enters directory = .ok () ↔
      ∃ node, files.node directory = some node ∧ node.is_dir ∧ files.searches node := by
  unfold FileSystem.enters
  cases files.node directory with
  | none => exact iff_of_false nofun nofun
  | some node =>
    cases hd : node.is_dir <;> cases hs : files.searches node <;> simp [hd, hs]

theorem not_symlink_of_dir {n : Node} (h : n.is_dir) : n.is_symlink = false := by
  unfold Node.is_dir at h
  unfold Node.is_symlink
  cases hk : n.kind with
  | Symlink t =>
    rw [hk] at h
    cases h
  | _ => rfl

theorem not_symlink_of_file {n : Node} (h : n.is_file) : n.is_symlink = false := by
  unfold Node.is_file at h
  unfold Node.is_symlink
  cases hk : n.kind with
  | Symlink t =>
    rw [hk] at h
    cases h
  | _ => rfl

theorem real_of_enters (hr : Rooted files directory) (he : files.enters directory = .ok ()) :
    Real files directory := by
  obtain ⟨n, hn, hd, -⟩ := enters_ok.mp he
  exact ⟨hr, n, hn, not_symlink_of_dir hd⟩

theorem rooted_nil : Rooted files [] := fun above _ _ h => absurd h.symm (by simp)

theorem real_nil : Real files [] := by
  obtain ⟨n, hn, hd⟩ := files.root
  exact ⟨rooted_nil, n, hn, not_symlink_of_dir hd⟩

theorem Rooted.of_prefix {above : List String} (h : Rooted files location) (hu : above <+: location) :
    Rooted files above := by
  obtain ⟨t, rfl⟩ := hu
  rintro f n r rfl
  exact h f n (r ++ t) (by simp)

theorem Rooted.snoc (h : Rooted files directory) (he : files.enters directory = .ok ()) {n : String}
    (hp : Plain n) : Rooted files (directory ++ [n]) := by
  intro above other r hq
  rcases List.eq_nil_or_concat r with rfl | ⟨f, last, rfl⟩
  · obtain ⟨rfl, hn⟩ := List.append_inj' hq rfl
    obtain rfl := List.head_eq_of_cons_eq hn
    exact ⟨hp, he⟩
  · have hq : directory ++ [n] = (above ++ other :: f) ++ [last] := by simpa using hq
    exact h above other f (List.append_inj' hq rfl).1

/-- The directory above a real location. -/
theorem Real.parent (h : Real files location) : Real files location.dropLast := by
  rcases List.eq_nil_or_concat location with rfl | ⟨above, n, rfl⟩
  · exact h
  · rw [List.concat_eq_append, List.dropLast_concat]
    obtain ⟨hr, -⟩ := h
    have := hr above n [] (by simp)
    exact real_of_enters (hr.of_prefix ⟨[n], by simp⟩) this.2

/-! ## Walks -/

/-- Links followed, a walk stands at real locations. -/
def Walked.Stands (files : FileSystem) : Walked → Prop
  | .Arrives location => Real files location
  | .Fails _ => True
  | .Follows directory _ => Real files directory

theorem advance_stands {c : List String} (h : Real files directory) :
    (files.advance true directory c).Stands files := by
  induction c generalizing directory with
  | nil => exact h
  | cons name r ih =>
    rw [FileSystem.advance]
    cases he : files.enters directory with
    | error error => trivial
    | ok _ =>
      dsimp only
      by_cases hs : name = "" ∨ name = "."
      · rw [if_pos hs]
        exact ih h
      rw [if_neg hs]
      by_cases ha : name = ".."
      · rw [if_pos ha]
        exact ih h.parent
      rw [if_neg ha]
      have hp : Plain name := ⟨fun h => hs (.inl h), fun h => hs (.inr h), ha⟩
      cases hn : files.node (directory ++ [name]) with
      | none => trivial
      | some n =>
        have ht (hl : n.is_symlink = false) : Real files (directory ++ [name]) :=
          ⟨h.rooted.snoc he hp, n, hn, hl⟩
        dsimp only
        cases hk : n.kind with
        | Directory | Regular cn => exact ih (ht (by rw [Node.is_symlink, hk]))
        | Symlink t =>
          dsimp only
          rw [if_neg (by simp)]
          split
          · exact real_nil
          · exact h

theorem walk_eq (follow : Bool) (links : Nat) (components : List String) :
    files.walk follow links directory components =
      match files.advance follow directory components, links with
      | .Arrives location, _ => .ok location
      | .Fails error, _ => .error error
      | .Follows _ _, 0 => .error .ELOOP
      | .Follows directory components, links + 1 => files.walk follow links directory components := by
  cases links <;> rw [FileSystem.walk] <;> cases files.advance follow directory components <;> rfl

theorem walk_real {links : Nat} {directory c : List String} (h : Real files directory)
    (hw : files.walk true links directory c = .ok location) : Real files location := by
  have hs := @advance_stands files directory c h
  rw [walk_eq] at hw
  cases ha : files.advance true directory c with
  | Arrives location =>
    rw [ha] at hw hs
    cases hw
    exact hs
  | Fails error =>
    rw [ha] at hw
    cases hw
  | Follows directory c =>
    rw [ha] at hw hs
    cases links with
    | zero => cases hw
    | succ links => exact walk_real hs hw

/-- The way to a real location, from any of the directories above it. -/
theorem advance_self {f : Bool} (h : Real files location) {rest : List String} (he : location = directory ++ rest) :
    files.advance f directory rest = .Arrives location := by
  induction rest generalizing directory with
  | nil => rw [he, List.append_nil, FileSystem.advance]
  | cons n rest ih =>
    obtain ⟨⟨hm, hs, hp⟩, hn⟩ := h.rooted directory n rest he
    have he : location = (directory ++ [n]) ++ rest := by rw [he, List.append_assoc, List.singleton_append]
    rw [FileSystem.advance, hn]
    dsimp only
    rw [if_neg (by simp [hm, hs]), if_neg hp]
    have hr : ∃ nd, files.node (directory ++ [n]) = some nd ∧ nd.is_symlink = false := by
      cases rest with
      | nil =>
        rw [List.append_nil] at he
        exact he ▸ h.found
      | cons next rest =>
        have := h.rooted (directory ++ [n]) next rest he
        exact (real_of_enters (h.rooted.of_prefix ⟨next :: rest, he.symm⟩) this.2).found
    obtain ⟨nd, hd, hr⟩ := hr
    rw [hd]
    dsimp only
    cases hk : nd.kind with
    | Directory | Regular c => exact ih he
    | Symlink t =>
      rw [Node.is_symlink, hk] at hr
      cases hr

theorem locate_self {f : Bool} (h : Real files location) :
    files.locate f ⟨true, location⟩ = .ok location := by
  rw [FileSystem.locate, if_neg (by simp), if_pos rfl]
  rw [FileSystem.walk, advance_self h (List.nil_append location).symm]

variable {path : PathBuf}

theorem canonicalize_real (ha : path.absolute) {r : PathBuf}
    (h : files.canonicalize path = .ok r) : ∃ location, r = ⟨true, location⟩ ∧ Real files location := by
  obtain ⟨location, hl, rfl⟩ := Except.map_eq_ok.mp h
  rw [FileSystem.locate, ha, if_neg (fun he => by rw [he] at ha; cases ha), if_pos rfl] at hl
  exact ⟨location, rfl, walk_real real_nil hl⟩

theorem canonicalize_self (h : Real files location) : files.canonicalize ⟨true, location⟩ = .ok ⟨true, location⟩ := by
  rw [FileSystem.canonicalize, locate_self h]
  rfl

theorem symlink_metadata_self (h : Real files location) :
    files.symlink_metadata ⟨true, location⟩ = files.node_at location := by
  rw [FileSystem.symlink_metadata, locate_self h]
  rfl

/-- What stands above a real location is real. -/
theorem Real.above {above : List String} (h : Real files location) (ha : above ∈ ancestors location) :
    Real files above := by
  obtain ⟨⟨r, rfl⟩, hn⟩ := mem_ancestors.mp ha
  cases r with
  | nil => exact absurd (List.append_nil above).symm hn
  | cons n r =>
    exact real_of_enters (h.rooted.of_prefix ⟨n :: r, rfl⟩) (h.rooted above n r rfl).2

/-! ## Links -/

/-- Following a last link too, a walk differs only where it arrived at one. -/
theorem advance_follows {c : List String} {walked : Walked}
    (h : files.advance false directory c = walked)
    (hn : ∀ location n, walked = .Arrives location → files.node location = some n → n.is_symlink = false) :
    files.advance true directory c = walked := by
  induction c generalizing directory with
  | nil => exact h
  | cons nm r ih =>
    rw [FileSystem.advance] at h ⊢
    cases he : files.enters directory with
    | error error =>
      rw [he] at h
      exact h
    | ok _ =>
      rw [he] at h
      dsimp only at h ⊢
      by_cases hs : nm = "" ∨ nm = "."
      · rw [if_pos hs] at h ⊢
        exact ih h
      rw [if_neg hs] at h ⊢
      by_cases hp : nm = ".."
      · rw [if_pos hp] at h ⊢
        exact ih h
      rw [if_neg hp] at h ⊢
      cases hf : files.node (directory ++ [nm]) with
      | none =>
        rw [hf] at h
        exact h
      | some n =>
        rw [hf] at h
        dsimp only at h ⊢
        cases hk : n.kind with
        | Directory | Regular cn =>
          rw [hk] at h
          exact ih h
        | Symlink t =>
          rw [hk] at h
          dsimp only at h ⊢
          rw [if_neg (by simp)]
          by_cases hl : r = []
          · rw [if_pos ⟨hl, rfl⟩] at h
            have := hn _ n h.symm hf
            rw [Node.is_symlink, hk] at this
            cases this
          · rwa [if_neg fun h => hl h.1] at h

theorem walk_follows {links : Nat} {directory c : List String} {result : Except Errno (List String)}
    (h : files.walk false links directory c = result)
    (hn : ∀ location n, result = .ok location → files.node location = some n → n.is_symlink = false) :
    files.walk true links directory c = result := by
  rw [walk_eq] at h ⊢
  cases ha : files.advance false directory c with
  | Arrives location =>
    rw [ha] at h
    rw [advance_follows ha fun a n he hf => hn a n (by cases he; exact h.symm) hf]
    exact h
  | Fails r =>
    rw [advance_follows ha nofun]
    rwa [ha] at h
  | Follows above rs =>
    rw [advance_follows ha nofun]
    rw [ha] at h
    cases links with
    | zero => exact h
    | succ links => exact walk_follows h hn

theorem locate_follows {result : Except Errno (List String)} (h : files.locate false path = result)
    (hn : ∀ location n, result = .ok location → files.node location = some n → n.is_symlink = false) :
    files.locate true path = result := by
  unfold FileSystem.locate at h ⊢
  split
  · next he => rwa [if_pos he] at h
  · next he =>
    rw [if_neg he] at h
    exact walk_follows h hn

/-- What is no link looks the same through links. -/
theorem metadata_follows {result : Except Errno Node} (h : files.symlink_metadata path = result)
    (hn : ∀ n, result = .ok n → n.is_symlink = false) : files.metadata path = result := by
  unfold FileSystem.symlink_metadata at h
  unfold FileSystem.metadata
  rw [locate_follows rfl ?_]
  · exact h
  · intro location n hl hf
    rw [hl, Except.bind, FileSystem.node_at, hf] at h
    exact hn n h.symm

end Lib.Unix
