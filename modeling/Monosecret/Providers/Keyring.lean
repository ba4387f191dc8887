/-
  Monosecret.Providers.Keyring — what the Windows credential blob holds
  (`encode_windows_secret` and `decode_windows_secret` in `monosecret/src/provider/keyring.rs`).

  Text is stored as UTF-16LE, as older versions stored it. Other bytes follow a marker that
  begins with a low surrogate, which no text begins with. `windows_blobs_unambiguous`: both
  kinds are read back, no two values share a blob, and nothing else is accepted.
-/

import Monosecret.Lib.Utf16
import Monosecret.Cache.Envelope

namespace Monosecret.Providers.Keyring

open Lib
open Cache (SecretBytes utf8)

def WINDOWS_BINARY_PREFIX : SecretBytes := 0x00 :: 0xdc :: utf8 "Monosecret\x00bytes\x01"

/-- `std::str::from_utf8`. -/
def from_utf8 (bytes : SecretBytes) : Option String := String.fromUTF8? ⟨bytes.toArray⟩

/-- The blob of a text: `text.encode_utf16().flat_map(u16::to_le_bytes)`. -/
def legacy_blob (text : String) : SecretBytes := encode_utf16le text.toList

def encode_windows_secret (value : SecretBytes) : SecretBytes :=
  match from_utf8 value with
  | some text => legacy_blob text
  | none => WINDOWS_BINARY_PREFIX ++ value

def invalid_password : String := "keyring password is not valid UTF-16LE"

def decode_windows_secret (bytes : SecretBytes) : Except String SecretBytes :=
  if WINDOWS_BINARY_PREFIX.isPrefixOf bytes then .ok (bytes.drop WINDOWS_BINARY_PREFIX.length)
  else
    match units_of_bytes bytes with
    | none => .error invalid_password
    | some words =>
      match decode_utf16 words with
      | some text => .ok (utf8 (String.ofList text))
      | none => .error invalid_password

/-! ## The two kinds of blob -/

theorem from_utf8_iff {b : SecretBytes} {text : String} : from_utf8 b = some text ↔ b = utf8 text := by
  refine ⟨fun h => ?_, fun h => h ▸ from_utf8_bytes text⟩
  unfold from_utf8 String.fromUTF8? at h
  split_ifs at h with hv
  rw [← Option.some.inj h]
  rfl

/-- No text begins as the marker does. -/
theorem legacy_not_marked (text : String) : ¬ WINDOWS_BINARY_PREFIX <+: legacy_blob text := by
  intro hm
  obtain ⟨r, hr⟩ := hm
  rw [legacy_blob, encode_utf16le] at hr
  cases hu : encode_utf16 text.toList with
  | nil =>
    rw [hu] at hr
    cases hr
  | cons u un =>
    rw [hu, List.flatMap_cons] at hr
    have hb : to_le_bytes u = [0x00, 0xdc] := by
      have ht := congrArg (List.take 2) hr
      exact ht.symm
    have hut := from_to_le_bytes u []
    rw [hb] at hut
    have hl : u = from_le_bytes 0x00 0xdc := by
      simpa [units_of_bytes] using hut.symm
    have hn := encode_utf16_head hu
    rw [hl] at hn
    revert hn
    decide

theorem decode_marked (value : SecretBytes) : decode_windows_secret (WINDOWS_BINARY_PREFIX ++ value) = .ok value := by
  rw [decode_windows_secret, if_pos (by simp [List.isPrefixOf_iff_prefix]), List.drop_left]

theorem decode_unmarked {b : SecretBytes} (h : ¬ WINDOWS_BINARY_PREFIX <+: b) :
    decode_windows_secret b =
      match decode_utf16le b with
      | some t => .ok (utf8 (String.ofList t))
      | none => .error invalid_password := by
  rw [decode_windows_secret, if_neg (by simpa [List.isPrefixOf_iff_prefix] using h), decode_utf16le]
  cases units_of_bytes b <;> rfl

theorem decode_legacy (t : String) : decode_windows_secret (legacy_blob t) = .ok (utf8 t) := by
  have hd : decode_utf16le (legacy_blob t) = some t.toList := decode_utf16le_iff.mpr rfl
  rw [decode_unmarked (legacy_not_marked t), hd]
  simp only [String.ofList_toList]

theorem decode_encode (value : SecretBytes) : decode_windows_secret (encode_windows_secret value) = .ok value := by
  unfold encode_windows_secret
  cases ht : from_utf8 value with
  | some t => rw [from_utf8_iff.mp ht]; exact decode_legacy t
  | none => exact decode_marked value

/-- What is neither marked nor a text is refused. -/
theorem decode_error_iff {b : SecretBytes} :
    decode_windows_secret b = .error invalid_password ↔ ¬ WINDOWS_BINARY_PREFIX <+: b ∧ ∀ text, b ≠ legacy_blob text := by
  constructor
  · intro h
    refine ⟨?_, ?_⟩
    · rintro ⟨value, rfl⟩
      rw [decode_marked] at h
      cases h
    · rintro text rfl
      rw [decode_legacy] at h
      cases h
  · rintro ⟨hm, ht⟩
    rw [decode_unmarked hm]
    cases hd : decode_utf16le b with
    | none => rfl
    | some text =>
      have hb := decode_utf16le_iff.mp hd
      refine absurd ?_ (ht (String.ofList text))
      rw [legacy_blob, String.toList_ofList, hb]

theorem windows_blobs_unambiguous :
    (∀ value, decode_windows_secret (encode_windows_secret value) = .ok value) ∧
    (∀ text, ¬ WINDOWS_BINARY_PREFIX <+: legacy_blob text ∧ decode_windows_secret (legacy_blob text) = .ok (utf8 text)) ∧
    (∀ value other, encode_windows_secret value = encode_windows_secret other ↔ value = other) ∧
    ∀ blob, decode_windows_secret blob = .error invalid_password ↔
      ¬ WINDOWS_BINARY_PREFIX <+: blob ∧ ∀ text, blob ≠ legacy_blob text := by
  refine ⟨decode_encode, fun text => ⟨legacy_not_marked text, decode_legacy text⟩, fun value other => ?_,
    fun blob => decode_error_iff⟩
  refine ⟨fun h => ?_, congrArg encode_windows_secret⟩
  have hv := decode_encode value
  rw [h, decode_encode] at hv
  exact (Except.ok.inj hv).symm

end Monosecret.Providers.Keyring
