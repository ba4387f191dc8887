/-
  Monosecret.Plan.Fingerprint — the fingerprints a cache entry is bound to
  (`stable_fingerprint`, `coordinate_fingerprint` in `monosecret/src/plan.rs`).

  FNV-1a over the length-delimited parts, printed as sixteen hex digits. A 64-bit hash is
  not injective; `Separates` says that it keeps a given list of inputs apart, and the
  lemmas below carry a difference of parts through the hash.
-/

import Monosecret.Lib.LengthPrefix

namespace Monosecret.Plan

open Lib

/-! ## The hash -/

def FNV_OFFSET : UInt64 := 0xcbf29ce484222325

def FNV_PRIME : UInt64 := 0x100000001b3

def fnv1a (bytes : List UInt8) : UInt64 :=
  bytes.foldl (fun hash byte => (hash ^^^ byte.toUInt64) * FNV_PRIME) FNV_OFFSET

def hex_digit (d : Nat) : Char := if d < 10 then Char.ofNat (48 + d) else Char.ofNat (87 + d)

/-- `{hash:016x}`. -/
def hex16 (hash : UInt64) : List Char := ((digits 16 16 hash.toNat).map hex_digit).reverse

theorem hex_digit_inj : ∀ c < 16, ∀ d < 16, hex_digit c = hex_digit d → c = d := by decide

theorem hex16_inj {a b : UInt64} (h : hex16 a = hex16 b) : a = b := by
  have hm := List.reverse_inj.mp h
  exact UInt64.toNat_inj.mp (map_digits_inj (by decide) hex_digit hex_digit_inj 16 a.toNat_lt b.toNat_lt hm)

theorem ofList_size_le (l : List Char) : (String.ofList l).utf8ByteSize ≤ 4 * l.length := by
  induction l with
  | nil => decide
  | cons c l ih =>
    have hc := c.utf8Size_le_four
    rw [String.ofList_cons, String.utf8ByteSize_append, String.utf8ByteSize_singleton, List.length_cons]
    omega

theorem versioned_fits (hash : UInt64) : ("v1-" ++ String.ofList (hex16 hash)).utf8ByteSize < 256 ^ 8 := by
  have hs := ofList_size_le (hex16 hash)
  have hl : (hex16 hash).length = 16 := by simp [hex16]
  have hv : "v1-".utf8ByteSize = 3 := by decide
  rw [String.utf8ByteSize_append, hv]
  omega

def stable_fingerprint (parts : List Text) : Text :=
  let hash := fnv1a (delimited_text parts)
  ⟨"v1-" ++ String.ofList (hex16 hash), versioned_fits hash⟩

/-- The hash keeps these inputs apart. -/
def Separates (inputs : List (List Text)) : Prop :=
  ∀ as ∈ inputs, ∀ bs ∈ inputs,
    fnv1a (delimited_text as) = fnv1a (delimited_text bs) → delimited_text as = delimited_text bs

instance (inputs : List (List Text)) : Decidable (Separates inputs) := List.decidableBAll _ _

theorem Separates.stable_fingerprint_inj {i : List (List Text)} (h : Separates i) {as bs : List Text}
    (ha : as ∈ i) (hb : bs ∈ i) (he : stable_fingerprint as = stable_fingerprint bs) : as = bs := by
  have ht := congrArg Text.text he
  have hx := String.ofList_injective ((String.append_right_inj _).mp ht)
  exact delimited_text_inj (h as ha bs hb (hex16_inj hx))

/-- A fingerprint is not the text that stands for an address by convention. -/
theorem stable_fingerprint_ne_convention (p : List Text) : stable_fingerprint p ≠ Text.of "convention" := by
  intro h
  have hl := congrArg (fun t : Text => t.text.toList.head?) h
  rw [show (Text.of "convention").text.toList.head? = some 'c' by decide] at hl
  simp [stable_fingerprint] at hl

/-! ## Native coordinates -/

/-- `NativeAddress` and `NativeAddressTemplate` have the same five coordinates. -/
structure NativeCoordinates where
  item : Text
  field : Option Text
  vault : Option Text
  section_ : Option Text
  version : Option Text
  deriving DecidableEq

abbrev NativeAddress := NativeCoordinates

abbrev NativeAddressTemplate := NativeCoordinates

def NativeCoordinates.coordinates (address : NativeCoordinates) : List (Text × Option Text) :=
  [(Text.of "vault", address.vault),
   (Text.of "item", some address.item),
   (Text.of "section", address.section_),
   (Text.of "field", address.field),
   (Text.of "version", address.version)]

def coordinate_part : Text × Option Text → List Text
  | (name, some value) => [name, Text.of "present", value]
  | (name, none) => [name, Text.of "absent"]

def coordinate_parts (kind : Text) (coordinates : List (Text × Option Text)) : List Text :=
  kind :: coordinates.flatMap coordinate_part

def coordinate_fingerprint (kind : Text) (coordinates : List (Text × Option Text)) : Text :=
  stable_fingerprint (coordinate_parts kind coordinates)

/-- Coordinates of the same names are determined by their parts: a value is never read as a
    marker, whatever its text. -/
theorem coordinate_parts_inj {as bs : List (Text × Option Text)} (hn : as.map Prod.fst = bs.map Prod.fst)
    (h : as.flatMap coordinate_part = bs.flatMap coordinate_part) : as = bs := by
  induction as generalizing bs with
  | nil =>
    cases bs with
    | nil => rfl
    | cons b bs => simp at hn
  | cons a as ih =>
    cases bs with
    | nil => simp at hn
    | cons b bs =>
      obtain ⟨n, value⟩ := a
      obtain ⟨other, v'⟩ := b
      simp only [List.map_cons, List.cons.injEq] at hn
      obtain ⟨rfl, hr⟩ := hn
      have hm : Text.of "present" ≠ Text.of "absent" := by decide
      cases value with
      | none =>
        cases v' with
        | none =>
          simp only [List.flatMap_cons, coordinate_part, List.cons_append, List.nil_append, List.cons.injEq,
            true_and] at h
          rw [ih hr h]
        | some w =>
          simp only [List.flatMap_cons, coordinate_part, List.cons_append, List.cons.injEq, true_and] at h
          exact absurd h.1.symm hm
      | some v =>
        cases v' with
        | none =>
          simp only [List.flatMap_cons, coordinate_part, List.cons_append, List.cons.injEq, true_and] at h
          exact absurd h.1 hm
        | some w =>
          simp only [List.flatMap_cons, coordinate_part, List.cons_append, List.nil_append, List.cons.injEq,
            true_and] at h
          obtain ⟨rfl, h⟩ := h
          rw [ih hr h]

theorem NativeCoordinates.coordinates_inj {a b : NativeCoordinates} (h : a.coordinates = b.coordinates) : a = b := by
  obtain ⟨i, f, v, sec, version⟩ := a
  simp only [coordinates, List.cons.injEq, Prod.mk.injEq, Option.some.injEq, true_and, and_true] at h
  obtain ⟨rfl, rfl, rfl, rfl, rfl⟩ := h
  rfl

theorem Separates.coordinate_fingerprint_inj {i : List (List Text)} (h : Separates i) {k : Text}
    {a b : NativeCoordinates} (ha : coordinate_parts k a.coordinates ∈ i)
    (hb : coordinate_parts k b.coordinates ∈ i)
    (he : coordinate_fingerprint k a.coordinates = coordinate_fingerprint k b.coordinates) : a = b := by
  have hp := h.stable_fingerprint_inj ha hb he
  simp only [coordinate_parts, List.cons.injEq, true_and] at hp
  exact NativeCoordinates.coordinates_inj (coordinate_parts_inj rfl hp)

end Monosecret.Plan
