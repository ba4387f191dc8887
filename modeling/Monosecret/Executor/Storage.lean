/-
  Monosecret.Executor.Storage — what is kept of a value and what is read back
  (`monosecret/src/secrets.rs`).

  An encoded secret is stored as canonical text; reading ignores one line ending after it and
  takes base64 with or without padding. The three ways a value gets into a store, `set`, a
  generator and a prompt, are given here with the write they make (`Written`); the last two
  are the executor's, with what they write kept (`generate_traced`, `prompt_traced`).

  The codecs are the `data_encoding` crate's: `Codecs.Documented` is what it documents of
  them, and the encodings of `Lib.Rfc4648` have it (`rfc4648_documented`).
-/

import Monosecret.Executor.Run
import Monosecret.Lib.Rfc4648

namespace Monosecret.Executor

open Lib Manifest
open Plan (MonosecretError Route)
open Cache (SecretBytes utf8)
open Resolve (GeneratedValue)

/-! ## Codecs -/

/-- `data_encoding::Encoding`. -/
structure Encoding where
  encode : List UInt8 → List UInt8
  decode : List UInt8 → Except String (List UInt8)

structure Codecs where
  BASE64 : Encoding
  BASE64_NOPAD : Encoding
  BASE64URL : Encoding
  BASE64URL_NOPAD : Encoding
  HEXLOWER : Encoding
  HEXLOWER_PERMISSIVE : Encoding

/-- A letter, a digit or one of the signs of the base64 alphabets. -/
def is_symbol (c : UInt8) : Bool :=
  (65 ≤ c && c ≤ 90) || (97 ≤ c && c ≤ 122) || (48 ≤ c && c ≤ 57) || c == 43 || c == 47 || c == 45 || c == 95

def PAD : UInt8 := 61

namespace Codecs

/-- Each encoding reads what it writes, hexadecimal in either case; what is written is symbols
    and, where it is padded, padding; and text that needs no padding reads the same as text
    that takes none. -/
structure Documented (codecs : Codecs) : Prop where
  base64 : ∀ bytes, codecs.BASE64.decode (codecs.BASE64.encode bytes) = .ok bytes
  base64url : ∀ bytes, codecs.BASE64URL_NOPAD.decode (codecs.BASE64URL_NOPAD.encode bytes) = .ok bytes
  hex : ∀ bytes, codecs.HEXLOWER_PERMISSIVE.decode (codecs.HEXLOWER.encode bytes) = .ok bytes
  base64_symbols : ∀ bytes, ∀ c ∈ codecs.BASE64.encode bytes, is_symbol c = true ∨ c = PAD
  base64url_symbols : ∀ bytes, ∀ c ∈ codecs.BASE64URL_NOPAD.encode bytes, is_symbol c = true
  hex_symbols : ∀ bytes, ∀ c ∈ codecs.HEXLOWER.encode bytes, is_symbol c = true
  unpadded : ∀ text bytes, PAD ∉ text → codecs.BASE64URL.decode text = .ok bytes → codecs.BASE64URL_NOPAD.decode text = .ok bytes

end Codecs

section

variable (codecs : Codecs)

def strip_suffix (suffix bytes : SecretBytes) : Option SecretBytes :=
  if suffix <:+ bytes then some (bytes.take (bytes.length - suffix.length)) else none

def CRLF : SecretBytes := [13, 10]

def LF : SecretBytes := [10]

def decode_base (encoded : SecretBytes) (padded unpadded : Encoding) : Except String SecretBytes :=
  if PAD ∈ encoded then padded.decode encoded
  else
    match padded.decode encoded with
    | .ok bytes => .ok bytes
    | .error _ => unpadded.decode encoded

/-- One trailing LF or CRLF is ignored. -/
def decode_stored_value (encoding : SecretEncoding) (diagnostic_name : String) (value : SecretBytes) :
    Except MonosecretError SecretBytes :=
  let encoded := ((strip_suffix CRLF value).or (strip_suffix LF value)).getD value
  let decoded :=
    match encoding with
    | .Base64 => decode_base encoded codecs.BASE64 codecs.BASE64_NOPAD
    | .Base64Url => decode_base encoded codecs.BASE64URL codecs.BASE64URL_NOPAD
    | .Hex => codecs.HEXLOWER_PERMISSIVE.decode encoded
  decoded.mapError (decode_failed diagnostic_name (SecretEncoding.as_str encoding))

def encode_logical_bytes (encoding : SecretEncoding) (bytes : SecretBytes) : SecretBytes :=
  match encoding with
  | .Base64 => codecs.BASE64.encode bytes
  | .Base64Url => codecs.BASE64URL_NOPAD.encode bytes
  | .Hex => codecs.HEXLOWER.encode bytes

/-- A world that encodes and decodes as the resolver does. -/
def World.coded {Provider Address Identity : Type} (world : World Provider Address Identity) : World Provider Address Identity :=
  { world with
    decode_stored_value := Executor.decode_stored_value codecs
    encode_logical_bytes := Executor.encode_logical_bytes codecs }

variable {codecs}

/-! ### Reading back what was encoded -/

/-- What a store may leave after encoded text. -/
def LineEnding (ending : SecretBytes) : Prop := ending = [] ∨ ending = LF ∨ ending = CRLF

theorem strip_suffix_append (bytes s : SecretBytes) : strip_suffix s (bytes ++ s) = some bytes := by
  unfold strip_suffix
  rw [if_pos (List.suffix_append _ _), List.length_append, Nat.add_sub_cancel, List.take_left]

theorem strip_suffix_none {s b : SecretBytes} (h : ¬ s <:+ b) : strip_suffix s b = none := if_neg h

/-- The line ending goes, and nothing of the text. -/
theorem stripped {text e : SecretBytes} (h10 : 10 ∉ text) (h13 : 13 ∉ text) (he : LineEnding e) :
    ((strip_suffix CRLF (text ++ e)).or (strip_suffix LF (text ++ e))).getD (text ++ e) = text := by
  rcases he with rfl | rfl | rfl
  · have hc : ¬ CRLF <:+ text := fun h => h10 (h.subset (by simp [CRLF]))
    have hl : ¬ LF <:+ text := fun h => h10 (h.subset (by simp [LF]))
    rw [List.append_nil, strip_suffix_none hc, strip_suffix_none hl]
    rfl
  · have hc : ¬ CRLF <:+ text ++ LF := by
      rintro ⟨f, hf⟩
      have hs : (f ++ [13]) ++ [10] = text ++ [10] := by
        rw [List.append_assoc]
        exact hf
      have ht := List.append_cancel_right hs
      exact h13 (ht ▸ List.mem_append_right _ (List.mem_singleton_self _))
    rw [strip_suffix_none hc, strip_suffix_append]
    rfl
  · rw [strip_suffix_append]
    rfl

variable (h : codecs.Documented)

include h in
theorem encoded_has_no_line_ending (encoding : SecretEncoding) (bytes : SecretBytes) :
    10 ∉ encode_logical_bytes codecs encoding bytes ∧ 13 ∉ encode_logical_bytes codecs encoding bytes := by
  have hy : ∀ c ∈ encode_logical_bytes codecs encoding bytes, is_symbol c ∨ c = PAD := by
    cases encoding with
    | Base64 => exact h.base64_symbols bytes
    | Base64Url => exact fun c hc => .inl (h.base64url_symbols bytes c hc)
    | Hex => exact fun c hc => .inl (h.hex_symbols bytes c hc)
  constructor
  all_goals
    intro hm
    rcases hy _ hm with hs | hs <;> revert hs <;> decide

include h in
/-- What was encoded decodes to itself, with a line ending after it or not. -/
theorem decode_encoded (en : SecretEncoding) (n : String) (bytes : SecretBytes) {ed : SecretBytes}
    (he : LineEnding ed) :
    decode_stored_value codecs en n (encode_logical_bytes codecs en bytes ++ ed) = .ok bytes := by
  obtain ⟨h10, h13⟩ := encoded_has_no_line_ending h en bytes
  unfold decode_stored_value
  rw [stripped h10 h13 he]
  cases en with
  | Base64 =>
    have hb : decode_base (codecs.BASE64.encode bytes) codecs.BASE64 codecs.BASE64_NOPAD = .ok bytes := by
      unfold decode_base
      rw [h.base64 bytes]
      exact ite_self _
    simp only [encode_logical_bytes, hb]
    rfl
  | Base64Url =>
    have hp : PAD ∉ codecs.BASE64URL_NOPAD.encode bytes := by
      intro hm
      have hs := h.base64url_symbols bytes _ hm
      revert hs
      decide
    have hb : decode_base (codecs.BASE64URL_NOPAD.encode bytes) codecs.BASE64URL codecs.BASE64URL_NOPAD = .ok bytes := by
      unfold decode_base
      rw [if_neg hp]
      cases hd : codecs.BASE64URL.decode (codecs.BASE64URL_NOPAD.encode bytes) with
      | ok read =>
        have hsm := h.unpadded _ _ hp hd
        rw [h.base64url] at hsm
        cases hsm
        rfl
      | error e => exact h.base64url bytes
    simp only [encode_logical_bytes, hb]
    rfl
  | Hex =>
    simp only [encode_logical_bytes, h.hex bytes]
    rfl

end

/-! ### The encodings themselves -/

def ascii_bytes (text : String) : List UInt8 := text.toList.map fun c => UInt8.ofNat c.toNat

def base64_alphabet : Alphabet 64 :=
  .of_list (ascii_bytes "ABCDEFGHIJKLMNOPQRSTUVWXYZabcdefghijklmnopqrstuvwxyz0123456789+/") (by decide +kernel) (by decide +kernel)

def base64url_alphabet : Alphabet 64 :=
  .of_list (ascii_bytes "ABCDEFGHIJKLMNOPQRSTUVWXYZabcdefghijklmnopqrstuvwxyz0123456789-_") (by decide +kernel) (by decide +kernel)

def hex_alphabet : Alphabet 16 := .of_list (ascii_bytes "0123456789abcdef") (by decide +kernel) (by decide +kernel)

/-- Digits in either case. -/
def hex_permissive_alphabet : Alphabet 16 where
  symbol := hex_alphabet.symbol
  value c := hex_alphabet.value (if 65 ≤ c && c ≤ 90 then c + 32 else c)
  value_symbol := by decide +kernel

def encoding_of (encode : List UInt8 → List UInt8) (decode : List UInt8 → Option (List UInt8)) : Encoding where
  encode
  decode text :=
    match decode text with
    | some bytes => .ok bytes
    | none => .error "invalid encoding"

def rfc4648 : Codecs where
  BASE64 := encoding_of (Base64.encode base64_alphabet PAD true) (Base64.decode base64_alphabet PAD true)
  BASE64_NOPAD := encoding_of (Base64.encode base64_alphabet PAD false) (Base64.decode base64_alphabet PAD false)
  BASE64URL := encoding_of (Base64.encode base64url_alphabet PAD true) (Base64.decode base64url_alphabet PAD true)
  BASE64URL_NOPAD := encoding_of (Base64.encode base64url_alphabet PAD false) (Base64.decode base64url_alphabet PAD false)
  HEXLOWER := encoding_of (Base16.encode hex_alphabet) (Base16.decode hex_alphabet)
  HEXLOWER_PERMISSIVE := encoding_of (Base16.encode hex_alphabet) (Base16.decode hex_permissive_alphabet)

theorem rfc4648_documented : rfc4648.Documented := by
  have hs : (∀ d, is_symbol (base64_alphabet.symbol d)) ∧ (∀ d, is_symbol (base64url_alphabet.symbol d)) ∧
      ∀ d, is_symbol (hex_alphabet.symbol d) := by decide +kernel
  have hp : base64_alphabet.value PAD = none ∧ base64url_alphabet.value PAD = none := by decide +kernel
  have hr : ∀ d, hex_permissive_alphabet.value (hex_alphabet.symbol d) = some d := hex_permissive_alphabet.value_symbol
  constructor
  · intro b
    simp only [rfc4648, encoding_of, Base64.decode_encode hp.1]
  · intro b
    simp only [rfc4648, encoding_of, Base64.decode_encode hp.2]
  · intro b
    simp only [rfc4648, encoding_of, Base16.decode_encode hr]
  · intro b c hc
    rcases Base64.mem_encode hc with ⟨d, rfl⟩ | ⟨-, hp⟩
    · exact .inl (hs.1 d)
    · exact .inr hp
  · intro b c hc
    rcases Base64.mem_encode hc with ⟨d, rfl⟩ | ⟨hf, -⟩
    · exact hs.2.1 d
    · cases hf
  · intro b c hc
    obtain ⟨d, rfl⟩ := Base16.mem_encode hc
    exact hs.2.2 d
  · intro t b hp hr
    simp only [rfc4648, encoding_of] at hr ⊢
    cases hd : Base64.decode base64url_alphabet PAD true t with
    | none =>
      rw [hd] at hr
      cases hr
    | some read =>
      rw [hd] at hr
      rw [Base64.decode_unpadded hp hd]
      exact hr

/-! ## Writes -/

/-- A value put into a store. -/
structure Written (Provider Address : Type) where
  backend : Provider
  address : Address
  stored : SecretBytes

section

variable {Provider Address Identity : Type} (world : World Provider Address Identity)

def encoded_for_storage (planned : PlannedSecret) (value : SecretBytes) : Option SecretBytes :=
  planned.encoding.map fun encoding => world.encode_logical_bytes encoding value

/-- `x509_identity::validate`. -/
def validate_identity (bytes : SecretBytes) (name : String) : Except MonosecretError Unit :=
  (world.decode_identity bytes none name).map fun _ => ()

/-- An identity is entered encoded, text as it is. -/
def prompted_value_for_storage (planned : PlannedSecret) (diagnostic_name : String) (value : SecretBytes) :
    Attempt MonosecretError (Option SecretBytes) :=
  if planned.is_typed_stored then do
    let encoding ← Attempt.expect "binary stored types always carry an encoding" planned.encoding
    let bytes ← Attempt.call (world.decode_stored_value encoding diagnostic_name value)
    if (planned.credential "password").isNone then do
      Attempt.call (validate_identity world bytes diagnostic_name)
      .ok (some (world.encode_logical_bytes encoding bytes))
    else .ok (some (world.encode_logical_bytes encoding bytes))
  else .ok (encoded_for_storage world planned value)

def derived_read_only (planned : PlannedSecret) : MonosecretError :=
  match planned.source with
  | some source => .Other s!"Secret '{planned.name}' is derived from '{source}' and is read-only; change '{source}' instead"
  | none =>
    .Other s!"Composed secret '{planned.name}' is derived from other secrets and has no stored value to change"

/-- What `set` stores of a value that was entered: encoded when `encoded_typed_input` says that
    a typed value comes in its encoding, logical bytes otherwise. -/
def prepared_for_storage (planned : PlannedSecret) (name : String) (value : SecretBytes) (encoded_typed_input : Bool) :
    Attempt MonosecretError (Option SecretBytes) :=
  if encoded_typed_input then prompted_value_for_storage world planned name value
  else if planned.is_typed_stored && (planned.credential "password").isNone then do
    Attempt.call (validate_identity world value name)
    .ok (encoded_for_storage world planned value)
  else .ok (encoded_for_storage world planned value)

/-- `ensure_reason` is the session's reason policy, `input` what reading the value came to. -/
def store_secret_with_input (planner : Planner) (profile_name : String) (profile : CompiledProfile)
    (ensure_reason : Except MonosecretError Unit) (name : String) (input : Except MonosecretError SecretBytes)
    (encoded_typed_input : Bool) :
    Attempt MonosecretError (PlannedSecret × Written Provider Address) := do
  Attempt.call ensure_reason
  match profile.get name with
  | none =>
    .error (.failed (.SecretNotFound (s!"Secret '{name}' is not defined in profile '{profile_name}'. Available secrets: " ++
      String.intercalate ", " profile.names)))
  | some secret => do
    let planned ← plan_one_secret planner name secret
    if planned.extract.isSome && planned.source.isNone then
      .error (.failed (.Other
        s!"Secret '{name}' uses `extract` and is read-only; update its containing document in the source provider instead"))
    else
      match planned.route with
      | none => .error (.failed (derived_read_only planned))
      | some route => do
        let backend ← Attempt.call (world.get_route_provider (group_key route))
        let address ← Attempt.call (world.address_for_spec planned (group_key route))
        Attempt.call (world.preflight_write planned backend)
        let value ← Attempt.call input
        if value.isEmpty then .error (.failed (.ProviderOperationFailed "Secret value cannot be empty"))
        else do
          let encoded ← prepared_for_storage world planned name value encoded_typed_input
          let stored := encoded.getD value
          Attempt.call (world.set backend address stored)
          .ok (planned, ⟨backend, address, stored⟩)

/-- `try_generate_secret`, with the write it made. -/
def generate_traced (planned : PlannedSecret) :
    Attempt MonosecretError (Option (GeneratedValue × Option (Written Provider Address))) :=
  match planned.config.generate.filter GenerateConfig.is_enabled with
  | none => .ok none
  | some config =>
    if planned.extract.isSome then
      .error (.failed (.Other
        s!"Secret '{planned.name}' uses `extract` and is read-only; update its containing document in the source provider instead"))
    else
      match planned.config.secret_type with
      | none =>
        .error (.failed (.Other s!"Secret generation failed: Secret '{planned.name}' has generate config but no type"))
      | some secret_type => do
        let value ← Attempt.call (mint world config secret_type)
        let route ← Attempt.expect "a generating secret is provider-backed" planned.route
        let address ← Attempt.call (world.address_for_spec planned (group_key route))
        let backend ← Attempt.call (world.get_route_provider (group_key route))
        if world.generated_value_persistence backend = .Ephemeral then .ok (some (value, none))
        else do
          Attempt.call (world.ensure_produced_write_allowed planned.name)
          Attempt.call (world.check_writable backend address)
          let stored ← stored_form world planned value
          Attempt.call (world.set backend address stored)
          let _ ← Attempt.expect "a generating secret is provider-backed" planned.route
          .ok (some (value, some ⟨backend, address, stored⟩))

/-- `try_prompt_secret`, with the write it made. -/
def prompt_traced (planned : PlannedSecret) : Attempt MonosecretError (SecretBytes × Option (Written Provider Address)) := do
  let route ← Attempt.expect "a prompted secret is provider-backed" planned.route
  let address ← Attempt.call (world.address_for_spec planned (group_key route))
  let backend ← Attempt.call (world.get_route_provider (group_key route))
  if world.prompted_value_persistence backend = .Persist then do
    Attempt.call (world.ensure_produced_write_allowed planned.name)
    Attempt.call (world.preflight_write planned backend)
    let value ← Attempt.call (world.prompt_run_secret planned.name (some (world.uri backend)))
    let stored := (encoded_for_storage world planned value).getD value
    Attempt.call (world.set backend address stored)
    .ok (value, some ⟨backend, address, stored⟩)
  else (Attempt.call (world.prompt_run_secret planned.name none)).map fun value => (value, none)

/-! ### What is traced is what the executor does -/

theorem try_generate_secret_traced (p : PlannedSecret) :
    try_generate_secret world p = (generate_traced world p).map (Option.map Prod.fst) := by
  unfold try_generate_secret generate_traced
  cases p.config.generate.filter GenerateConfig.is_enabled with
  | none => rfl
  | some c =>
    simp only
    by_cases hx : p.extract.isSome
    · rw [if_pos hx, if_pos hx]
      rfl
    · rw [if_neg hx, if_neg hx]
      cases p.config.secret_type with
      | none => rfl
      | some s =>
        simp only [Except.map_bind]
        refine bind_congr fun value => bind_congr fun r => bind_congr fun a => bind_congr fun b => ?_
        by_cases hp : world.generated_value_persistence b = .Ephemeral
        · rw [if_pos hp, if_pos hp]
          rfl
        · rw [if_neg hp, if_neg hp]
          simp only [Except.map_bind]
          rfl

theorem try_prompt_secret_traced (p : PlannedSecret) :
    try_prompt_secret world p = (prompt_traced world p).map Prod.fst := by
  unfold try_prompt_secret prompt_traced
  simp only [Except.map_bind]
  refine bind_congr fun r => bind_congr fun a => bind_congr fun b => ?_
  by_cases hp : world.prompted_value_persistence b = .Persist
  · rw [if_pos hp, if_pos hp]
    simp only [Except.map_bind]
    rfl
  · rw [if_neg hp, if_neg hp]
    cases Attempt.call (world.prompt_run_secret p.name none) <;> rfl

end

end Monosecret.Executor
