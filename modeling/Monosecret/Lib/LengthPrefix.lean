/-
  Monosecret.Lib.LengthPrefix — fixed-width digits and length-delimited byte strings.

  A number below `b ^ w` is determined by its `w` digits in base `b`. Parts that are each
  preceded by their length in `w` bytes, little or big end first, are determined by what
  they are joined to: no text inside a part can be read as the boundary of another.
-/
import Mathlib.Algebra.GroupWithZero.Nat

namespace Lib

universe u

/-! ## Digits -/

/-- The `w` lowest digits of `n` in base `b`, lowest first. -/
def digits (b : Nat) : Nat → Nat → List Nat
  | 0, _ => []
  | w + 1, n => n % b :: digits b w (n / b)

@[simp] theorem digits_length (b w n : Nat) : (digits b w n).length = w := by
  induction w generalizing n with
  | zero => rfl
  | succ w ih => simp [digits, ih]

theorem digits_lt {b : Nat} (hb : 0 < b) (w n : Nat) : ∀ d ∈ digits b w n, d < b := by
  induction w generalizing n with
  | zero => simp [digits]
  | succ w ih =>
    intro d hd
    rcases List.mem_cons.mp hd with rfl | hd
    · exact Nat.mod_lt _ hb
    · exact ih _ d hd

theorem digits_inj {b : Nat} (w : Nat) {m n : Nat} (hm : m < b ^ w) (hn : n < b ^ w) (h : digits b w m = digits b w n) :
    m = n := by
  induction w generalizing m n with
  | zero => simp at hm hn; omega
  | succ w ih =>
    simp only [digits, List.cons.injEq] at h
    have hd : ∀ {k}, k < b ^ (w + 1) → k / b < b ^ w := by
      intro k hk
      exact Nat.div_lt_of_lt_mul (by rw [Nat.pow_succ, Nat.mul_comm] at hk; exact hk)
    have hq := ih (hd hm) (hd hn) h.2
    rw [← Nat.div_add_mod m b, ← Nat.div_add_mod n b, hq, h.1]

/-- A rendering of digits is determined by the number when it keeps digits apart. -/
theorem map_digits_inj {α : Type u} {b : Nat} (hb : 0 < b) (f : Nat → α) (hf : ∀ c < b, ∀ d < b, f c = f d → c = d)
    (w : Nat) {m n : Nat} (hm : m < b ^ w) (hn : n < b ^ w) (h : (digits b w m).map f = (digits b w n).map f) : m = n := by
  apply digits_inj w hm hn
  refine List.ext_getElem (by simp) ?_
  intro i hi hj
  have hg := List.getElem_of_eq h (i := i) (by simpa using hi)
  simp only [List.getElem_map] at hg
  exact hf _ (digits_lt hb w m _ (List.getElem_mem hi)) _ (digits_lt hb w n _ (List.getElem_mem hj)) hg

/-! ## Bytes -/

def le_bytes (w n : Nat) : List UInt8 := (digits 256 w n).map UInt8.ofNat

@[simp] theorem le_bytes_length (w n : Nat) : (le_bytes w n).length = w := by simp [le_bytes]

theorem le_bytes_inj {w m n : Nat} (hm : m < 256 ^ w) (hn : n < 256 ^ w) (h : le_bytes w m = le_bytes w n) : m = n := by
  refine map_digits_inj (by decide) UInt8.ofNat ?_ w hm hn h
  intro c hc d hd hcd
  have ht := congrArg UInt8.toNat hcd
  simp only [UInt8.toNat_ofNat'] at ht
  omega

def be_bytes (w n : Nat) : List UInt8 := (le_bytes w n).reverse

@[simp] theorem be_bytes_length (w n : Nat) : (be_bytes w n).length = w := by simp [be_bytes]

theorem be_bytes_inj {w m n : Nat} (hm : m < 256 ^ w) (hn : n < 256 ^ w) (h : be_bytes w m = be_bytes w n) : m = n :=
  le_bytes_inj hm hn (List.reverse_inj.mp h)

/-- Each part after its length, as `size` writes it. -/
def framed (size : Nat → List UInt8) (parts : List (List UInt8)) : List UInt8 :=
  parts.flatMap fun part => size part.length ++ part

theorem framed_cons (s : Nat → List UInt8) (p : List UInt8) (pr : List (List UInt8)) :
    framed s (p :: pr) = s p.length ++ (p ++ framed s pr) := by
  simp [framed]

/-- Lengths of one width that tell numbers apart tell the parts apart. -/
theorem framed_inj {s : Nat → List UInt8} {w : Nat} (hw : 0 < w) (hs : ∀ n, (s n).length = w)
    (hi : ∀ m < 256 ^ w, ∀ n < 256 ^ w, s m = s n → m = n) {as bs : List (List UInt8)}
    (ha : ∀ a ∈ as, a.length < 256 ^ w) (hb : ∀ b ∈ bs, b.length < 256 ^ w) (h : framed s as = framed s bs) :
    as = bs := by
  have hn : ∀ pr p, framed s (pr :: p) ≠ [] := by
    intro pr p he
    have hl := congrArg List.length he
    rw [framed_cons, List.length_append, hs] at hl
    simp at hl
    omega
  induction as generalizing bs with
  | nil =>
    cases bs with
    | nil => rfl
    | cons b bs => exact absurd h.symm (hn b bs)
  | cons a as ih =>
    cases bs with
    | nil => exact absurd h (hn a as)
    | cons b bs =>
      rw [framed_cons, framed_cons] at h
      obtain ⟨hln, hr⟩ := List.append_inj h (by rw [hs, hs])
      have hl : a.length = b.length :=
        hi _ (ha a (.head _)) _ (hb b (.head _)) hln
      obtain ⟨rfl, ht⟩ := List.append_inj hr hl
      have hm := ih (fun x hx => ha x (.tail _ hx)) (fun x hx => hb x (.tail _ hx)) ht
      rw [hm]

/-- Each part after its length. -/
def delimited (w : Nat) (parts : List (List UInt8)) : List UInt8 := parts.flatMap fun part => le_bytes w part.length ++ part

theorem delimited_inj {w : Nat} (hw : 0 < w) {as bs : List (List UInt8)} (ha : ∀ a ∈ as, a.length < 256 ^ w)
    (hb : ∀ b ∈ bs, b.length < 256 ^ w) (h : delimited w as = delimited w bs) : as = bs :=
  framed_inj hw (le_bytes_length w) (fun _ hm _ hn => le_bytes_inj hm hn) ha hb h

/-! ## Text -/

/-- The bytes of a text are read back. -/
theorem from_utf8_bytes (text : String) : String.fromUTF8? ⟨text.toByteArray.data.toList.toArray⟩ = some text := by
  have h : (⟨text.toByteArray.data.toList.toArray⟩ : ByteArray) = text.toByteArray := by simp
  rw [h, String.fromUTF8?, dif_pos text.isValidUTF8]
  rfl

/-- A string whose length in bytes is a 64-bit number. -/
structure Text where
  text : String
  fits : text.utf8ByteSize < 256 ^ 8
  deriving DecidableEq

theorem true_eq : true = true := rfl

theorem fits_of (s : String) (h : decide (s.utf8ByteSize < 256 ^ 8) = true) : s.utf8ByteSize < 256 ^ 8 :=
  of_decide_eq_true h

namespace Text

/-- A text written out. -/
def of (s : String) (h : s.utf8ByteSize < 256 ^ 8 := by exact fits_of _ true_eq) : Text := ⟨s, h⟩

instance : ToString Text := ⟨text⟩

def bytes (t : Text) : List UInt8 := t.text.toByteArray.data.toList

theorem bytes_length (t : Text) : t.bytes.length < 256 ^ 8 := t.fits

theorem bytes_inj {s t : Text} (h : s.bytes = t.bytes) : s = t := by
  obtain ⟨s, hs⟩ := s
  obtain ⟨t, ht⟩ := t
  simp only [Text.mk.injEq]
  apply String.toByteArray_inj.mp
  exact ByteArray.ext (Array.toList_inj.mp h)

end Text

/-- What a list of texts is hashed as: each preceded by its length in eight bytes. -/
def delimited_text (parts : List Text) : List UInt8 := delimited 8 (parts.map Text.bytes)

theorem bytes_fit (ts : List Text) : ∀ b ∈ ts.map Text.bytes, b.length < 256 ^ 8 := by
  intro b hb
  obtain ⟨t, -, rfl⟩ := List.mem_map.mp hb
  exact t.bytes_length

theorem map_bytes_inj {as bs : List Text} (h : as.map Text.bytes = bs.map Text.bytes) : as = bs :=
  (List.map_inj_right fun _ _ hs => Text.bytes_inj hs).mp h

theorem delimited_text_inj {as bs : List Text} (h : delimited_text as = delimited_text bs) : as = bs :=
  map_bytes_inj (delimited_inj (by decide) (bytes_fit as) (bytes_fit bs) h)

/-- The same with the lengths big end first. -/
def framed_text (parts : List Text) : List UInt8 := framed (be_bytes 8) (parts.map Text.bytes)

theorem framed_text_inj {as bs : List Text} (h : framed_text as = framed_text bs) : as = bs :=
  map_bytes_inj (framed_inj (by decide) (be_bytes_length 8) (fun _ hm _ hn => be_bytes_inj hm hn) (bytes_fit as)
    (bytes_fit bs) h)

end Lib
