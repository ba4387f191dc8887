/-
  Monosecret.Providers.SameEntries — whether two providers' addresses name one entry
  (`Provider::same_entries` in `monosecret/src/provider/traits.rs`, `flat_item` in
  `address.rs`), and what it is asked for.

  Two entries are the same in one container and at equal coordinates. Containers with a path
  are compared by the file system, others by their identity. `Isolated` is what a deletion
  relies on: where a successful write or deletion at the first address can change what is
  read at the second, the two are reported as one entry, or not compared at all.
-/

import Monosecret.Cache.Envelope
import Monosecret.Lib.Cells
import Monosecret.Manifest.Document

namespace Monosecret.Providers

open Lib Manifest Cache

inductive Address where
  | Convention (project profile key : String)
  | Native (address : NativeAddress)
  deriving DecidableEq

/-- What the file system says of two paths. -/
structure Files (Path : Type) where
  /-- None when one of them cannot be opened. -/
  is_same_file : Path → Path → Option Bool
  comparable_missing_file_path : Path → Path

/-- How a provider names and places its entries. -/
structure Provider (Path : Type) where
  name : String
  supported_coords : List String
  convention_address : String → String → String → Except String NativeAddress
  physical_store_path : Option Path
  entry_container_identity : String

variable {Path : Type}

namespace Provider

def refuse_unsupported (p : Provider Path) (item : String) : String × Option String → Except String Unit
  | (_, none) => .ok ()
  | (name, some _) =>
    if name = "item" ∨ name ∈ p.supported_coords then .ok ()
    else .error
      (s!"the {p.name} provider does not support the `{name}` coordinate. Drop `{name}` from the ref for `{item}`, " ++
        "or give this provider its own address with `refs.<alias>` or an alias `ref` template (0.19+): " ++
        "https://monosecret.dev/concepts/references/#different-coordinates-per-provider-019")

def native_address (p : Provider Path) : Address → Except String NativeAddress
  | .Native native => .ok native
  | .Convention project profile key => p.convention_address project profile key

def resolve_coords (p : Provider Path) (addr : Address) : Except String NativeAddress := do
  let coords ← p.native_address addr
  coords.coordinates.forM (p.refuse_unsupported coords.item)
  return coords

/-- None of the providers here looks its coordinates up. -/
def entry_coordinates (p : Provider Path) (addr : Address) : Except String NativeAddress := p.resolve_coords addr

def flat_item (p : Provider Path) (addr : Address) : Except String String := do
  return (← p.resolve_coords addr).item

end Provider

variable {p : Provider Path} {addr : Address}

/-- What is no item and not supported is not among the coordinates. -/
theorem Provider.resolve_coords_none {c : NativeAddress} (h : p.resolve_coords addr = .ok c) {n : String}
    (hn : ¬(n = "item" ∨ n ∈ p.supported_coords)) (o : Option String) (hm : (n, o) ∈ c.coordinates) : o = none := by
  obtain ⟨nt, -, h⟩ := Except.bind_ok h
  obtain ⟨hs, h⟩ := Except.bind_unit_ok h
  cases h
  have ho := Except.forM_ok_iff.mp hs _ hm
  cases o with
  | none => rfl
  | some value => simp [Provider.refuse_unsupported, hn] at ho

/-- Where no coordinate but the item is supported, the item is all. -/
theorem Provider.resolve_coords_flat (hp : p.supported_coords = []) {c : NativeAddress}
    (h : p.resolve_coords addr = .ok c) : c = ⟨c.item, none, none, none, none⟩ := by
  have hn := @Provider.resolve_coords_none _ _ _ _ h
  obtain ⟨i, field, vault, s, version⟩ := c
  simp only [NativeCoordinates.coordinates, hp] at hn
  cases hn (n := "field") (by simp) field (by simp)
  cases hn (n := "vault") (by simp) vault (by simp)
  cases hn (n := "section") (by simp) s (by simp)
  cases hn (n := "version") (by simp) version (by simp)
  rfl

theorem Provider.flat_item_ok (hp : p.supported_coords = []) {i : String} (h : p.flat_item addr = .ok i) :
    p.resolve_coords addr = .ok ⟨i, none, none, none, none⟩ := by
  obtain ⟨c, hc, h⟩ := Except.bind_ok h
  cases h
  rw [hc, Provider.resolve_coords_flat hp hc]

/-! ## Containers -/

section

variable [DecidableEq Path]

def same_container_at (files : Files Path) (left right : Provider Path) : Bool :=
  match left.physical_store_path, right.physical_store_path with
  | some left, some right =>
    (files.is_same_file left right).getD
      (files.comparable_missing_file_path left = files.comparable_missing_file_path right)
  | none, none => left.entry_container_identity = right.entry_container_identity
  | _, _ => false

def same_entries (files : Files Path) (first : Provider Path) (a : Address) (second : Provider Path) (b : Address) :
    Except String Bool :=
  if same_container_at files first second then do
    let coordinates ← first.entry_coordinates a
    return decide (coordinates = (← second.entry_coordinates b))
  else .ok false

/-- The two are one entry, or are not compared. -/
def Reported (files : Files Path) (first : Provider Path) (a : Address) (second : Provider Path) (b : Address) : Prop :=
  same_entries files first a second b = .ok true ∨ ∃ e, same_entries files first a second b = .error e

/-- Entries at known coordinates are reported in one container and at equal ones. -/
theorem reported_iff (f : Files Path) {first second : Provider Path} {a b : Address} {left right : NativeAddress}
    (ha : first.resolve_coords a = .ok left) (hb : second.resolve_coords b = .ok right) :
    Reported f first a second b ↔ same_container_at f first second ∧ left = right := by
  rw [Reported, same_entries, Provider.entry_coordinates, Provider.entry_coordinates, ha, hb]
  by_cases hc : same_container_at f first second
  · simp [hc, bind, Except.bind, pure, Except.pure]
  · simp [hc]

end

/-! ## Isolation -/

/-- A provider and what its operations do to a remote state. -/
structure Store (Path Remote : Type) extends Provider Path where
  get : Address → Remote → Except String (Option SecretBytes)
  set : Address → SecretBytes → Remote → Except String Remote
  delete : Address → Remote → Except String (Bool × Remote)

variable {Remote : Type}

/-- A successful write or deletion at the first address changes what is read at the second. -/
def Reaches (first : Store Path Remote) (a : Address) (second : Store Path Remote) (b : Address) (remote : Remote) : Prop :=
  (∃ value after, first.set a value remote = .ok after ∧ second.get b after ≠ second.get b remote) ∨
    ∃ existed after, first.delete a remote = .ok (existed, after) ∧ second.get b after ≠ second.get b remote

def Isolated [DecidableEq Path] (files : Files Path) (first : Store Path Remote) (a : Address)
    (second : Store Path Remote) (b : Address) (remote : Remote) : Prop :=
  Reaches first a second b remote → Reported files first.toProvider a second.toProvider b

/-! ## Values -/

def require_utf8 (provider : String) (value : SecretBytes) : Except String String :=
  match String.fromUTF8? ⟨value.toArray⟩ with
  | some text => .ok text
  | none => .error s!"provider '{provider}' requires UTF-8 secret values"

theorem require_utf8_utf8 (pr text : String) : require_utf8 pr (utf8 text) = .ok text := by
  rw [require_utf8, utf8, from_utf8_bytes]

theorem require_utf8_ok {pr text : String} {value : SecretBytes} (h : require_utf8 pr value = .ok text) : value = utf8 text := by
  unfold require_utf8 at h
  cases ht : String.fromUTF8? ⟨value.toArray⟩ with
  | none =>
    rw [ht] at h
    cases h
  | some found =>
    rw [ht] at h
    rw [← Except.ok.inj h]
    unfold String.fromUTF8? at ht
    split_ifs at ht with hv
    rw [← Option.some.inj ht]
    rfl

theorem utf8_inj {a b : String} : utf8 a = utf8 b ↔ a = b := by
  refine ⟨fun h => ?_, congrArg utf8⟩
  have hr := require_utf8_utf8 "" a
  rw [h, require_utf8_utf8] at hr
  cases hr
  rfl

/-- There is always another value to write. -/
theorem exists_other (value : Option SecretBytes) : ∃ t : String, value ≠ some (utf8 t) := by
  by_cases h : value = some (utf8 "")
  · refine ⟨"x", fun hx => ?_⟩
    rw [h, Option.some.injEq, utf8_inj] at hx
    exact absurd hx (by decide)
  · exact ⟨"", h⟩

/-! ## Remote states of cells -/

section

variable {Names Place Cell Q Q' R : Type} [DecidableEq Place]
variable {first second : Store Path (Cells Names Place Cell)} {a b : Address}
variable {writes : Names → Except String Q} {w : Q → Place} {write : SecretBytes → Q → Cell → Except String Cell}
variable {dl : Names → Except String Q'} {d : Q' → Place} {remove : Q' → Cell → Bool × Cell}
variable {reads : Names → Except String R} {slot : R → Place} {read : R → Cell → Except String (Option SecretBytes)}

/-- Where each operation works on one cell, reaching is a matter of the cell both are about. -/
theorem reaches_iff_cells
    (hs : ∀ value s af, first.set a value s = .ok af ↔
      Cells.writing writes w (fun q c => (write value q c).map ((), ·)) s = .ok ((), af))
    (hd : ∀ s, first.delete a s = Cells.writing dl d (fun q c => .ok (remove q c)) s)
    (hg : ∀ s, second.get b s = Cells.reading reads slot read s) (s : Cells Names Place Cell) :
    Reaches first a second b s ↔ ∃ r, reads s.names = .ok r ∧
      ((∃ q, writes s.names = .ok q ∧ w q = slot r ∧
          ∃ value c, write value q (s.held (slot r)) = .ok c ∧ read r c ≠ read r (s.held (slot r))) ∨
        ∃ q, dl s.names = .ok q ∧ d q = slot r ∧
          read r (remove q (s.held (slot r))).2 ≠ read r (s.held (slot r))) := by
  constructor
  · rintro (⟨value, af, hw, hn⟩ | ⟨e, af, hw, hn⟩)
    · rw [hs] at hw
      rw [hg, hg] at hn
      obtain ⟨q, r, _, c, hq, hr, hl, hc, hsn⟩ := Cells.writing_seen_iff.mp ⟨_, _, hw, hn⟩
      obtain ⟨c', hc', he⟩ := Except.map_eq_ok.mp hc
      cases he
      exact ⟨r, hr, .inl ⟨q, hq, hl, value, c, hl ▸ hc', hsn⟩⟩
    · rw [hd] at hw
      rw [hg, hg] at hn
      obtain ⟨q, r, _, c, hq, hr, hl, hc, hsn⟩ := Cells.writing_seen_iff.mp ⟨_, _, hw, hn⟩
      rw [hl, Except.ok.injEq] at hc
      exact ⟨r, hr, .inr ⟨q, hq, hl, by rwa [hc]⟩⟩
  · rintro ⟨r, hr, ⟨q, hq, hl, value, c, hc, hsn⟩ | ⟨q, hq, hl, hsn⟩⟩
    · have hwr : ∃ b af,
          Cells.writing writes w (fun q c => (write value q c).map ((), ·)) s = .ok (b, af) ∧
            Cells.reading reads slot read af ≠ Cells.reading reads slot read s :=
        Cells.writing_seen_iff.mpr ⟨q, r, (), c, hq, hr, hl, by rw [hl, hc]; rfl, hsn⟩
      obtain ⟨_, af, ht, hn⟩ := hwr
      refine .inl ⟨value, af, (hs value s af).mpr ht, ?_⟩
      rwa [hg, hg]
    · have hwr : ∃ b af,
          Cells.writing dl d (fun q c => .ok (remove q c)) s = .ok (b, af) ∧
            Cells.reading reads slot read af ≠ Cells.reading reads slot read s :=
        Cells.writing_seen_iff.mpr ⟨q, r, _, _, hq, hr, hl, by rw [hl], hsn⟩
      obtain ⟨e, af, ht, hn⟩ := hwr
      refine .inr ⟨e, af, by rw [hd, ht], ?_⟩
      rwa [hg, hg]

end

end Monosecret.Providers
