/-
  Monosecret.Providers.Discovered — what provider discovery finds, and from which source.

  A source has an entry unless the name looked for is not there: a directory that cannot be
  looked into answers with that error.

  `discovery_iff`: every endpoint found may be trusted and the search path is left alone unless
  it may be used; and the answer is the highest source's with an entry, exactly when no entry
  above it is a link to nothing. `dangling_registration`: such a link is taken for no entry, and
  a registration below it answers.
-/

import Monosecret.Providers.Discovery

namespace Monosecret.Providers.Discovery

open Lib Lib.Unix
open Lib.Except (bind_ok bind_unit_eq_ok bind_unit_ok map_eq_ok rest_ok)
open ProviderDiscovery (registered resolve on_search_path)

/-! ## Checks -/

theorem refuse_ok {c : Bool} {r : Refusal} : refuse c r = .ok () ↔ c = false := by
  cases c <;> simp [refuse]

theorem discovery_io_ok {α : Type} {x : Except Errno α} {found : α} : discovery_io x = .ok found ↔ x = .ok found := by
  cases x <;> simp [discovery_io]

variable {host : Host}

/-- What a scope asks of a file or directory: its owner, and that others cannot write. -/
def Safe (host : Host) (scope : RegistrationScope) (node : Node) : Prop :=
  host.owner_is_trusted node.uid scope = true ∧ node.mode &&& OTHERS_WRITE = 0

def SafeAbove (host : Host) (scope : RegistrationScope) (node : Node) : Prop :=
  host.owner_is_trusted node.uid scope = true ∧ (node.mode &&& OTHERS_WRITE = 0 ∨ node.mode &&& STICKY_BIT ≠ 0)

/-- A program that may be run. -/
structure Trusted (host : Host) (scope : RegistrationScope) (executable : PathBuf) : Prop where
  absolute : executable.absolute = true
  canonical : host.files.canonicalize executable = .ok executable
  program : ∃ node, host.files.node executable.components = some node ∧ node.is_file = true ∧ node.mode &&& ANY_EXECUTE ≠ 0 ∧
    Safe host scope node
  above : ∀ ancestor, ancestor <+: executable.components → ancestor ≠ executable.components →
    ∃ node, host.files.node ancestor = some node ∧ node.is_dir = true ∧ SafeAbove host scope node

variable {location : List String}

theorem symlink_metadata_real (h : Real host.files location) {node : Node}
    (hm : host.files.symlink_metadata ⟨true, location⟩ = .ok node) : host.files.node location = some node := by
  rw [symlink_metadata_self h, FileSystem.node_at] at hm
  cases hn : host.files.node location with
  | none =>
    rw [hn] at hm
    cases hm
  | some found =>
    rw [hn] at hm
    cases hm
    rfl

variable {scope : RegistrationScope}

theorem check_file_security_ok (hr : Real host.files location)
    (h : host.check_file_security ⟨true, location⟩ scope true = .ok ()) :
    ∃ node, host.files.node location = some node ∧ node.is_file ∧ node.mode &&& ANY_EXECUTE ≠ 0 ∧ Safe host scope node := by
  obtain ⟨r, hs, h⟩ := bind_ok h
  rw [canonicalize_self hr] at hs
  cases hs
  obtain ⟨node, hm, h⟩ := bind_ok h
  obtain ⟨hf, h⟩ := bind_unit_ok h
  obtain ⟨ho, he⟩ := bind_unit_eq_ok.mp h
  have hn := symlink_metadata_real hr (discovery_io_ok.mp hm)
  have hf := refuse_ok.mp hf
  have ho := refuse_ok.mp ho
  have he := refuse_ok.mp he
  simp at hf ho he
  exact ⟨node, hn, hf.1, he, ho, hf.2⟩

theorem check_ancestor_ok {a : List String} (hr : Real host.files a)
    (h : host.check_ancestor scope a = .ok ()) :
    ∃ node, host.files.node a = some node ∧ node.is_dir ∧ SafeAbove host scope node := by
  obtain ⟨node, hm, h⟩ := bind_ok h
  obtain ⟨hd, h⟩ := bind_unit_ok h
  obtain ⟨hw, ho⟩ := bind_unit_eq_ok.mp h
  have hn := symlink_metadata_real hr (discovery_io_ok.mp hm)
  have hd := refuse_ok.mp hd
  have ho := refuse_ok.mp ho
  have hw := refuse_ok.mp hw
  simp at hd ho hw
  refine ⟨node, hn, hd, ho, ?_⟩
  by_cases hoh : node.mode &&& OTHERS_WRITE = 0
  · exact .inl hoh
  · exact .inr (hw hoh)

theorem check_parent_security_ok (hr : Real host.files location)
    (h : host.check_parent_security ⟨true, location⟩ scope = .ok ()) {a : List String}
    (ha : a ∈ ancestors location) :
    ∃ node, host.files.node a = some node ∧ node.is_dir ∧ SafeAbove host scope node := by
  obtain ⟨r, hs, h⟩ := bind_ok h
  rw [canonicalize_self hr] at hs
  cases hs
  obtain ⟨hn, -⟩ := bind_unit_eq_ok.mp h
  exact check_ancestor_ok (hr.above ha) (Except.forM_ok_iff.mp hn a ha)

variable {endpoint found : ProviderEndpoint} {scheme : String}

/-- An endpoint that passes has a program to be trusted, found where it really is. -/
theorem validate_endpoint_trusted (h : host.validate_endpoint endpoint scheme scope = .ok found) :
    Trusted host scope found.executable := by
  replace h := rest_ok h
  replace h := rest_ok h
  replace h := rest_ok h
  obtain ⟨ha, h⟩ := bind_unit_ok h
  obtain ⟨e, he, h⟩ := bind_ok h
  replace h := rest_ok h
  obtain ⟨hc, h⟩ := bind_unit_ok h
  cases h
  obtain ⟨location, rfl, hr⟩ :=
    canonicalize_real (by simpa using refuse_ok.mp ha) (discovery_io_ok.mp he)
  obtain ⟨hf, hp⟩ := bind_unit_eq_ok.mp hc
  refine ⟨rfl, canonicalize_self hr, check_file_security_ok hr hf, fun a hu hn => ?_⟩
  exact check_parent_security_ok hr hp (mem_ancestors.mpr ⟨hu, hn⟩)

variable {from_slice : List UInt8 → Option Json}
variable {path : PathBuf}

theorem load_registration_trusted (h : host.load_registration from_slice path scheme scope = .ok found) :
    Trusted host scope found.executable := by
  obtain ⟨m, -, h⟩ := bind_ok h
  replace h := rest_ok h
  replace h := rest_ok h
  obtain ⟨o, -, h⟩ := bind_ok h
  replace h := rest_ok h
  replace h := rest_ok h
  obtain ⟨current, -, h⟩ := bind_ok h
  replace h := rest_ok h
  replace h := rest_ok h
  obtain ⟨c, -, h⟩ := bind_ok h
  replace h := rest_ok h
  exact validate_endpoint_trusted h

/-! ## The refusal of a link -/

theorem bind_avoids {ε α β : Type} {error : ε} {x : Except ε α} {f : α → Except ε β} (hx : x ≠ .error error)
    (hf : ∀ a, f a ≠ .error error) : (x >>= f) ≠ .error error := by
  cases x with
  | error other =>
    intro h
    exact hx (Except.error.inj h ▸ rfl)
  | ok a => exact hf a

theorem map_avoids {ε α β : Type} {error : ε} {x : Except ε α} {f : α → β} (hx : x ≠ .error error) : x.map f ≠ .error error :=
  fun h => hx (Except.error_of_map h)

theorem refuse_avoids {c : Bool} {r : Refusal} (h : r ≠ .RegistrationNotRegular) :
    refuse c r ≠ .error .RegistrationNotRegular := by
  cases c with
  | false => exact nofun
  | true => exact fun he => h (Except.error.inj he)

theorem discovery_io_avoids {α : Type} {x : Except Errno α} : discovery_io x ≠ .error .RegistrationNotRegular := by
  cases x <;> exact nofun

theorem forM_avoids {ε α : Type} {error : ε} {f : α → Except ε Unit} {l : List α} (h : ∀ a ∈ l, f a ≠ .error error) :
    l.forM f ≠ .error error := by
  intro hq
  obtain ⟨a, ha, he⟩ := Except.forM_error hq
  exact h a ha he

theorem check_file_security_avoids {e : Bool} :
    host.check_file_security path scope e ≠ .error .RegistrationNotRegular :=
  bind_avoids discovery_io_avoids fun _ => bind_avoids discovery_io_avoids fun _ => bind_avoids (refuse_avoids nofun) fun _ =>
    bind_avoids (refuse_avoids nofun) fun _ => refuse_avoids nofun

theorem check_parent_security_avoids : host.check_parent_security path scope ≠ .error .RegistrationNotRegular :=
  bind_avoids discovery_io_avoids fun _ => bind_avoids
    (forM_avoids fun _ _ => bind_avoids discovery_io_avoids fun _ => bind_avoids (refuse_avoids nofun) fun _ =>
      bind_avoids (refuse_avoids nofun) fun _ => refuse_avoids nofun)
    fun _ => refuse_avoids nofun

theorem validate_endpoint_avoids : host.validate_endpoint endpoint scheme scope ≠ .error .RegistrationNotRegular :=
  bind_avoids (refuse_avoids nofun) fun _ => bind_avoids (refuse_avoids nofun) fun _ =>
    bind_avoids (forM_avoids fun _ _ => refuse_avoids nofun) fun _ => bind_avoids (refuse_avoids nofun) fun _ =>
      bind_avoids discovery_io_avoids fun _ => bind_avoids (refuse_avoids nofun) fun _ =>
        bind_avoids (bind_avoids check_file_security_avoids fun _ => check_parent_security_avoids) fun _ => nofun

/-- A registration is refused for what it is exactly when it is there and not a regular file itself. -/
theorem load_registration_irregular :
    host.load_registration from_slice path scheme scope = .error .RegistrationNotRegular ↔
      ∃ n, host.files.symlink_metadata path = .ok n ∧ n.is_file = false := by
  unfold Host.load_registration
  cases hm : host.files.symlink_metadata path with
  | error error => exact iff_of_false nofun nofun
  | ok n =>
    show (do refuse (n.is_symlink || !n.is_file) .RegistrationNotRegular; _) = _ ↔ _
    cases hf : n.is_file with
    | false =>
      rw [Bool.not_false, Bool.or_true]
      exact iff_of_true rfl ⟨n, rfl, hf⟩
    | true =>
      rw [not_symlink_of_file hf]
      refine iff_of_false ?_ ?_
      · refine bind_avoids nofun fun _ => bind_avoids (refuse_avoids nofun) fun _ => bind_avoids discovery_io_avoids fun _ =>
          bind_avoids (refuse_avoids nofun) fun _ =>
            bind_avoids (bind_avoids check_file_security_avoids fun _ => check_parent_security_avoids) fun _ =>
              bind_avoids discovery_io_avoids fun _ => bind_avoids (refuse_avoids nofun) fun _ =>
                bind_avoids (refuse_avoids nofun) fun _ => bind_avoids ?_ fun _ => bind_avoids (refuse_avoids nofun) fun _ =>
                  validate_endpoint_avoids
        unfold required
        split <;> exact nofun
      · rintro ⟨_, he, hi⟩
        cases he
        rw [hf] at hi
        cases hi

/-! ## Sources -/

/-- A link to nothing under a registration's name. -/
def Dangling (host : Host) (directory : Option PathBuf) (scheme : String) : Prop :=
  ∃ path, directory = some path ∧ (∃ node, host.files.symlink_metadata (registration path scheme) = .ok node) ∧
    host.files.metadata (registration path scheme) = .error .ENOENT

/-- Something, of any kind, under a registration's name: all but a name that is not there. -/
def Entry (host : Host) (directory : Option PathBuf) (scheme : String) : Prop :=
  ∃ path, directory = some path ∧ host.files.symlink_metadata (registration path scheme) ≠ .error .ENOENT

/-- A registration that is there, and there through links too, but is no regular file itself. -/
def Irregular (host : Host) (directory : Option PathBuf) (scheme : String) : Prop :=
  ∃ path, directory = some path ∧ host.files.try_exists (registration path scheme) = .ok true ∧
    ∃ node, host.files.symlink_metadata (registration path scheme) = .ok node ∧ node.is_file = false

/-- The answer of one directory's registration. -/
def registered_answer (from_slice : List UInt8 → Option Json) (host : Host) (scheme : String) (scope : RegistrationScope) :
    Option PathBuf → Except Refusal (Option ProviderEndpoint)
  | none => .ok none
  | some directory => do
    let _ ← discovery_io (host.files.try_exists (registration directory scheme))
    (host.load_registration from_slice (registration directory scheme) scheme scope).map some

section

variable {directory : Option PathBuf} {scheme : String} {scope : RegistrationScope}

theorem try_exists_false {path : PathBuf} : host.files.try_exists path = .ok false ↔ host.files.metadata path = .error .ENOENT := by
  unfold FileSystem.try_exists
  cases host.files.metadata path with
  | ok n => exact iff_of_false nofun nofun
  | error error => cases error <;> simp

theorem entry_of_dangling (h : Dangling host directory scheme) : Entry host directory scheme := by
  obtain ⟨path, rfl, ⟨n, hn⟩, -⟩ := h
  exact ⟨path, rfl, by rw [hn]; nofun⟩

theorem registered_answer_some {path : PathBuf} {found : Bool} (h : host.files.try_exists (registration path scheme) = .ok found) :
    registered_answer from_slice host scheme scope (some path) =
      (host.load_registration from_slice (registration path scheme) scheme scope).map some := by
  rw [registered_answer, h]
  rfl

theorem map_some_error {ε α : Type} {x : Except ε α} {error : ε} : x.map some = .error error ↔ x = .error error := by
  cases x <;> simp [Except.map]

theorem dangling_answer (h : Dangling host directory scheme) :
    registered_answer from_slice host scheme scope directory = .error .RegistrationNotRegular := by
  obtain ⟨path, rfl, ⟨n, hn⟩, hm⟩ := h
  rw [registered_answer_some (try_exists_false.mpr hm), map_some_error, load_registration_irregular]
  refine ⟨n, hn, ?_⟩
  by_contra hf
  have ht := metadata_follows hn fun _ he => by
    cases he
    exact not_symlink_of_file (by simpa using hf)
  rw [hm] at ht
  cases ht

theorem irregular_answer_iff (hn : ¬ Dangling host directory scheme) :
    registered_answer from_slice host scheme scope directory = .error .RegistrationNotRegular ↔ Irregular host directory scheme := by
  constructor
  · intro h
    cases directory with
    | none => cases h
    | some path =>
      cases he : host.files.try_exists (registration path scheme) with
      | error error =>
        rw [registered_answer, he] at h
        cases h
      | ok found =>
        rw [registered_answer_some he, map_some_error, load_registration_irregular] at h
        cases found with
        | true => exact ⟨path, rfl, he, h⟩
        | false =>
          obtain ⟨n, hd, -⟩ := h
          exact absurd ⟨path, rfl, ⟨n, hd⟩, try_exists_false.mp he⟩ hn
  · rintro ⟨path, rfl, he, hi⟩
    rw [registered_answer_some he, map_some_error, load_registration_irregular]
    exact hi

variable {otherwise : Except Refusal (Option ProviderEndpoint)} {rest : List (Option PathBuf × RegistrationScope)}

/-- A directory with no entry, or with a link to nothing, is passed over. -/
theorem registered_passes (h : ¬ Entry host directory scheme ∨ Dangling host directory scheme) :
    registered from_slice host scheme otherwise ((directory, scope) :: rest) =
      registered from_slice host scheme otherwise rest := by
  cases directory with
  | none => rfl
  | some path =>
    have hm : host.files.metadata (registration path scheme) = .error .ENOENT := by
      rcases h with hn | ⟨_, he, -, hm⟩
      · by_contra ht
        exact hn ⟨path, rfl, fun hm => ht (metadata_follows hm nofun)⟩
      · cases he
        exact hm
    rw [registered, try_exists_false.mpr hm]
    rfl

/-- Any other entry answers. -/
theorem registered_answers (he : Entry host directory scheme) (hn : ¬ Dangling host directory scheme) :
    registered from_slice host scheme otherwise ((directory, scope) :: rest) =
      registered_answer from_slice host scheme scope directory := by
  obtain ⟨path, rfl, hf⟩ := he
  rw [registered, registered_answer]
  cases hs : host.files.try_exists (registration path scheme) with
  | error error => rfl
  | ok found =>
    cases found with
    | true => rfl
    | false =>
      have hm := try_exists_false.mp hs
      cases ht : host.files.symlink_metadata (registration path scheme) with
      | ok n => exact absurd ⟨path, rfl, ⟨n, ht⟩, hm⟩ hn
      | error error =>
        have := metadata_follows ht nofun
        rw [hm] at this
        cases this
        exact absurd ht hf

theorem registered_answer_trusted {found : ProviderEndpoint}
    (h : registered_answer from_slice host scheme scope directory = .ok (some found)) : Trusted host scope found.executable := by
  cases directory with
  | none => cases h
  | some path =>
    obtain ⟨_, -, h⟩ := bind_ok h
    obtain ⟨endpoint, hl, he⟩ := map_eq_ok.mp h
    cases he
    exact load_registration_trusted hl

end

section

variable (from_slice) (host) (discovery : ProviderDiscovery) (search_path : Option String) (scheme : String)

/-- A source with an entry for the scheme. -/
def HasEntry : RegistrationScope → Prop
  | .Explicit => (discovery.explicit scheme).isSome = true
  | .User => Entry host discovery.user_directory scheme
  | .System => Entry host discovery.system_directory scheme
  | .Path => discovery.allow_path = true ∧ host.is_privileged_process = false ∧
      ((candidates search_path scheme).find? host.files.is_file).isSome = true

/-- What a source answers. -/
def answer : RegistrationScope → Except Refusal (Option ProviderEndpoint)
  | .Explicit =>
    match discovery.explicit scheme with
    | some endpoint => (host.validate_endpoint endpoint scheme .Explicit).map some
    | none => .ok none
  | .User => registered_answer from_slice host scheme .User discovery.user_directory
  | .System => registered_answer from_slice host scheme .System discovery.system_directory
  | .Path => discovery.on_search_path host search_path scheme

/-- The sources before one. -/
def above : RegistrationScope → List RegistrationScope
  | .Explicit => []
  | .User => [.Explicit]
  | .System => [.Explicit, .User]
  | .Path => [.Explicit, .User, .System]

/-- Precedence and trust of a discovery. -/
structure Discovers : Prop where
  highest : ∀ scope, HasEntry host discovery search_path scheme scope →
    (∀ higher ∈ above scope, ¬ HasEntry host discovery search_path scheme higher) →
    discovery.resolve from_slice host search_path scheme = answer host from_slice discovery search_path scheme scope
  nothing : (∀ scope, ¬ HasEntry host discovery search_path scheme scope) →
    discovery.resolve from_slice host search_path scheme = .ok none
  trusted : ∀ endpoint, discovery.resolve from_slice host search_path scheme = .ok (some endpoint) →
    ∃ scope, HasEntry host discovery search_path scheme scope ∧
      answer host from_slice discovery search_path scheme scope = .ok (some endpoint) ∧ Trusted host scope endpoint.executable
  allowed : discovery.allow_path = false ∨ host.is_privileged_process = true →
    ∀ other, discovery.resolve from_slice host search_path scheme = discovery.resolve from_slice host other scheme

/-- No link to nothing stands above the source that answers, or what is below it is refused as it would be. -/
def Undeceived : Prop :=
  HasEntry host discovery search_path scheme .Explicit ∨
    (¬ Dangling host discovery.user_directory scheme ∧
      (HasEntry host discovery search_path scheme .User ∨ ¬ Dangling host discovery.system_directory scheme)) ∨
    (Dangling host discovery.user_directory scheme ∧ Irregular host discovery.system_directory scheme)

end

variable {discovery : ProviderDiscovery} {search_path : Option String} {scheme : String}

theorem resolve_explicit (hs : is_valid_scheme scheme) (h : HasEntry host discovery search_path scheme .Explicit) :
    discovery.resolve from_slice host search_path scheme = answer host from_slice discovery search_path scheme .Explicit := by
  obtain ⟨endpoint, he⟩ := Option.isSome_iff_exists.mp h
  rw [resolve, validate_scheme, hs, answer, he]
  rfl

theorem resolve_registered (hs : is_valid_scheme scheme) (h : ¬ HasEntry host discovery search_path scheme .Explicit) :
    discovery.resolve from_slice host search_path scheme =
      registered from_slice host scheme (discovery.on_search_path host search_path scheme)
        [(discovery.user_directory, .User), (discovery.system_directory, .System)] := by
  have hn : discovery.explicit scheme = none := by simpa [HasEntry] using h
  rw [resolve, validate_scheme, hs, hn]
  rfl

theorem on_search_path_avoids : discovery.on_search_path host search_path scheme ≠ .error .RegistrationNotRegular := by
  unfold on_search_path
  split
  · exact nofun
  · split
    · exact nofun
    · exact map_avoids validate_endpoint_avoids

theorem on_search_path_without (h : ¬ HasEntry host discovery search_path scheme .Path) :
    discovery.on_search_path host search_path scheme = .ok none := by
  unfold on_search_path
  split
  · rfl
  · next ha =>
    simp at ha
    cases hf : (candidates search_path scheme).find? host.files.is_file with
    | none => rfl
    | some path => exact absurd ⟨ha.1, ha.2, by rw [hf]; rfl⟩ h

theorem on_search_path_trusted (h : discovery.on_search_path host search_path scheme = .ok (some found)) :
    HasEntry host discovery search_path scheme .Path ∧ Trusted host .Path found.executable := by
  have he : HasEntry host discovery search_path scheme .Path := by
    by_contra hn
    rw [on_search_path_without hn] at h
    cases h
  refine ⟨he, ?_⟩
  obtain ⟨ha, hp, hf⟩ := he
  obtain ⟨path, ht⟩ := Option.isSome_iff_exists.mp hf
  rw [on_search_path, ha, hp, ht] at h
  obtain ⟨endpoint, hv, hq⟩ := map_eq_ok.mp h
  cases hq
  exact validate_endpoint_trusted hv

/-- Below the user's directory. -/
theorem system_then_path (h : ¬ Entry host discovery.system_directory scheme ∨ Dangling host discovery.system_directory scheme) :
    registered from_slice host scheme (discovery.on_search_path host search_path scheme)
      [(discovery.system_directory, .System)] = discovery.on_search_path host search_path scheme := registered_passes h

theorem resolve_allowed (h : discovery.allow_path = false ∨ host.is_privileged_process) (other : Option String) :
    discovery.resolve from_slice host search_path scheme = discovery.resolve from_slice host other scheme := by
  have hn (search_path : Option String) : discovery.on_search_path host search_path scheme = .ok none :=
    on_search_path_without fun he => by
      obtain ⟨ha, hp, -⟩ := he
      rcases h with h | h
      · rw [h] at ha
        cases ha
      · rw [h] at hp
        cases hp
  unfold resolve
  rw [hn search_path, hn other]

/-- Whatever is found comes from a source with an entry, and is safe by its rules. -/
theorem resolve_trusted (hs : is_valid_scheme scheme)
    (h : discovery.resolve from_slice host search_path scheme = .ok (some endpoint)) :
    ∃ scope, HasEntry host discovery search_path scheme scope ∧
      answer host from_slice discovery search_path scheme scope = .ok (some endpoint) ∧ Trusted host scope endpoint.executable := by
  by_cases he : HasEntry host discovery search_path scheme .Explicit
  · rw [resolve_explicit hs he] at h
    refine ⟨.Explicit, he, h, ?_⟩
    obtain ⟨g, hg⟩ := Option.isSome_iff_exists.mp he
    rw [answer, hg] at h
    obtain ⟨found, hv, hq⟩ := map_eq_ok.mp h
    cases hq
    exact validate_endpoint_trusted hv
  rw [resolve_registered hs he] at h
  by_cases hu : Entry host discovery.user_directory scheme ∧ ¬ Dangling host discovery.user_directory scheme
  · rw [registered_answers hu.1 hu.2] at h
    exact ⟨.User, hu.1, h, registered_answer_trusted h⟩
  rw [registered_passes (by tauto)] at h
  by_cases hy : Entry host discovery.system_directory scheme ∧ ¬ Dangling host discovery.system_directory scheme
  · rw [registered_answers hy.1 hy.2] at h
    exact ⟨.System, hy.1, h, registered_answer_trusted h⟩
  rw [system_then_path (by tauto)] at h
  obtain ⟨hp, ht⟩ := on_search_path_trusted h
  exact ⟨.Path, hp, h, ht⟩

/-- Without links to nothing in its way, the highest source answers. -/
theorem resolve_highest (hs : is_valid_scheme scheme) (h : Undeceived host discovery search_path scheme)
    (he : HasEntry host discovery search_path scheme scope)
    (ha : ∀ hi ∈ above scope, ¬ HasEntry host discovery search_path scheme hi) :
    discovery.resolve from_slice host search_path scheme = answer host from_slice discovery search_path scheme scope := by
  cases scope with
  | Explicit => exact resolve_explicit hs he
  | User =>
    have hp := ha .Explicit (by simp [above])
    rw [resolve_registered hs hp]
    rcases h with h | ⟨hn, -⟩ | ⟨hd, hr⟩
    · exact absurd h hp
    · exact registered_answers he hn
    · have ⟨path, ht, hes, node, hnd, _⟩ := hr
      have hy : Entry host discovery.system_directory scheme := ⟨path, ht, by rw [hnd]; nofun⟩
      have hn : ¬ Dangling host discovery.system_directory scheme := by
        rintro ⟨other, ho, -, hm⟩
        rw [ht] at ho
        cases ho
        rw [try_exists_false.mpr hm] at hes
        cases hes
      rw [registered_passes (.inr hd), registered_answers hy hn]
      exact ((irregular_answer_iff hn).mpr hr).trans (dangling_answer hd).symm
  | System =>
    have hp := ha .Explicit (by simp [above])
    have hu := ha .User (by simp [above])
    rw [resolve_registered hs hp, registered_passes (.inl hu)]
    rcases h with h | ⟨-, h | hn⟩ | ⟨hd, -⟩
    · exact absurd h hp
    · exact absurd h hu
    · exact registered_answers he hn
    · exact absurd (entry_of_dangling hd) hu
  | Path =>
    have hp := ha .Explicit (by simp [above])
    have hu := ha .User (by simp [above])
    have hy := ha .System (by simp [above])
    rw [resolve_registered hs hp, registered_passes (.inl hu), system_then_path (.inl hy)]
    rfl

/-- Endpoints found may be trusted and the search path is used only where it may be; and the
    highest source with an entry answers exactly when no link to nothing deceives the search. -/
theorem discovery_iff (from_slice : List UInt8 → Option Json) (host : Host) (discovery : ProviderDiscovery) (search_path : Option String)
    (scheme : String) (hscheme : is_valid_scheme scheme = true) :
    Discovers host from_slice discovery search_path scheme ↔ Undeceived host discovery search_path scheme := by
  constructor
  · intro h
    by_cases he : HasEntry host discovery search_path scheme .Explicit
    · exact .inl he
    have hr := @resolve_registered host from_slice discovery search_path scheme hscheme he
    by_cases hu : Dangling host discovery.user_directory scheme
    · refine .inr (.inr ⟨hu, ?_⟩)
      have hg := h.highest .User (entry_of_dangling hu) (by simpa [above] using he)
      rw [hr, registered_passes (.inr hu), answer, dangling_answer hu] at hg
      by_cases hs : Entry host discovery.system_directory scheme ∧ ¬ Dangling host discovery.system_directory scheme
      · rw [registered_answers hs.1 hs.2] at hg
        exact (irregular_answer_iff hs.2).mp hg
      · rw [system_then_path (by tauto)] at hg
        exact absurd hg on_search_path_avoids
    · refine .inr (.inl ⟨hu, ?_⟩)
      by_contra hn
      obtain ⟨hnn, hs⟩ := not_or.mp hn
      rw [not_not] at hs
      have hg := h.highest .System (entry_of_dangling hs) (by simpa [above] using ⟨he, hnn⟩)
      rw [hr, registered_passes (.inl hnn), system_then_path (.inr hs), answer, dangling_answer hs] at hg
      exact on_search_path_avoids hg
  · intro h
    refine ⟨fun scope => resolve_highest hscheme h, fun hnn => ?_, fun endpoint => resolve_trusted hscheme, resolve_allowed⟩
    rw [resolve_registered hscheme (hnn .Explicit), registered_passes (.inl (hnn .User)), system_then_path (.inl (hnn .System)),
      on_search_path_without (hnn .Path)]

def owned_by_root (ino : Nat) (kind : Kind) : Node := ⟨kind, ino, 0o755, 0⟩

def acme_claim : Json := .obj [("executable", .str "/bin/acme"), ("environment", .arr [.str "ACME_*"])]

/-- The claim of the only registration there is. -/
def acme_slice (_ : List UInt8) : Option Json := some acme_claim

def acme_tree (user : Kind) : List (List String × Node) :=
  [([], owned_by_root 1 .Directory), (["bin"], owned_by_root 2 .Directory), (["bin", "acme"], owned_by_root 3 (.Regular [])),
    (["etc"], owned_by_root 4 .Directory), (["etc", "acme.monosecret.json"], owned_by_root 5 (.Regular [])),
    (["home"], owned_by_root 6 .Directory), (["home", "acme.monosecret.json"], owned_by_root 7 user)]

def acme_host (user : Kind) : Host where
  files := ⟨fun location => (acme_tree user).lookup location, ⟨_, rfl, rfl⟩, [], fun _ => true, fun _ => true⟩
  effective_uid := 1000
  real_uid := 1000
  effective_gid := 1000
  real_gid := 1000

def acme_discovery : ProviderDiscovery := ⟨.empty, some (.of_text "/home"), some (.of_text "/etc"), false⟩

def acme_endpoint : ProviderEndpoint := ⟨"acme", .of_text "/bin/acme", ["provider"], ["ACME_*"]⟩

theorem discovery_iff_acme :
    Discovers (acme_host (.Regular [])) acme_slice acme_discovery none "acme" ↔
      Undeceived (acme_host (.Regular [])) acme_discovery none "acme" :=
  discovery_iff acme_slice (acme_host (.Regular [])) acme_discovery none "acme" (by decide)

theorem dangling_registration :
    is_valid_scheme "acme" = true ∧
      acme_discovery.resolve acme_slice (acme_host (.Symlink (.of_text "/opt/acme.json"))) none "acme" = .ok (some acme_endpoint) ∧
      ¬ Discovers (acme_host (.Symlink (.of_text "/opt/acme.json"))) acme_slice acme_discovery none "acme" := by
  have hr : acme_discovery.resolve acme_slice (acme_host (.Symlink (.of_text "/opt/acme.json"))) none "acme" =
      .ok (some acme_endpoint) := by rfl
  refine ⟨by decide, hr, fun h => ?_⟩
  have he : HasEntry (acme_host (.Symlink (.of_text "/opt/acme.json"))) acme_discovery none "acme" .User :=
    ⟨_, rfl, by decide⟩
  have hg := h.highest .User he (by simp [above, HasEntry, acme_discovery])
  have ha : answer (acme_host (.Symlink (.of_text "/opt/acme.json"))) acme_slice acme_discovery none "acme" .User =
      .error .RegistrationNotRegular := by rfl
  rw [hr, ha] at hg
  cases hg

end Monosecret.Providers.Discovery
