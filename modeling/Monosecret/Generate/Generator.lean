/-
  Monosecret.Generate.Generator — minting a value (`monosecret/src/generator.rs`, `generate`
  in `x509_identity.rs`, and the choice between them in `secrets.rs`).

  What a run finds is a `Machine`: the randomness of the operating system, the process's own
  generator, the shell, and what the cryptographic libraries answer. A key is what its
  accessors return. The error is the text of `GenerationFailed`; an `expect`, an `assert` or
  an index that fails is a panic.

  The fixed preferences of an OpenPGP key and the parameters of the PKCS#12 archive are left
  out, and so is the wiping of memory.
-/

import Monosecret.Cache.Envelope
import Monosecret.Generate.Rules
import Monosecret.Lib.JsonText
import Monosecret.Lib.Panic
import Monosecret.Manifest.Selection

namespace Monosecret.Generate

open Lib Manifest
open Cache (SecretBytes utf8)

/-! ## The machine -/

structure Output where
  success : Bool
  code : Option Int
  stdout : SecretBytes
  /-- Read lossily. -/
  stderr : String

structure RsaKey where
  to_pkcs1_pem : Except String SecretBytes
  precompute : Except String Unit
  n : SecretBytes
  e : SecretBytes
  d : SecretBytes
  primes : List SecretBytes
  dp : Option SecretBytes
  dq : Option SecretBytes
  /-- None inside when the number is negative. -/
  qinv : Option (Option SecretBytes)

structure P256Key where
  secret : SecretBytes
  x : Option SecretBytes
  y : Option SecretBytes

inductive KeyType where
  | Ed25519Legacy
  | EcdhCurve25519Legacy
  | Rsa (bits : Nat)
  deriving DecidableEq

structure SubkeyParams where
  key_type : KeyType
  can_sign : Bool
  can_encrypt : Bool
  deriving DecidableEq

structure SecretKeyParams where
  key_type : KeyType
  primary_user_id : String
  subkeys : List SubkeyParams
  deriving DecidableEq

structure OpenPgpKey where
  verify_bindings : Except String Unit
  to_armored_string : Except String String

structure SshKey where
  /-- The encoding with a comment. -/
  to_openssh : String → Except String SecretBytes

structure SshRsaKeypair where
  /-- The key with a comment. -/
  new : String → Except String SshKey

inductive SanType where
  | DnsName (name : List Char)
  | IpAddress (octets : List UInt8)
  deriving DecidableEq

inductive ExtendedKeyUsagePurpose where
  | ServerAuth
  | ClientAuth
  deriving DecidableEq

/-- Times are in seconds. -/
structure CertificateParams where
  subject_alt_names : List SanType
  common_name : List Char
  extended_key_usages : List ExtendedKeyUsagePurpose
  serial_number : List UInt8
  not_before : Int
  not_after : Int
  deriving DecidableEq

structure X509Key where
  self_signed : CertificateParams → Except String SecretBytes
  /-- The certificate of these bytes, in an archive with the key. -/
  certificate : SecretBytes → Except String (Except String SecretBytes)

structure Machine where
  os_random : Except String (Nat → UInt8)
  /-- The draws of the process's generator. -/
  random : Nat → Nat
  uuid : String
  /-- `sh -c`. -/
  sh : String → Except String Output
  now : Int
  ed25519 : SecretBytes × SecretBytes
  p256 : P256Key
  rsa : Nat → Except String RsaKey
  mnemonic : SecretBytes → Except String String
  hrp : String → Except String Unit
  bech32 : String → SecretBytes → Except String String
  openpgp_subkey : SubkeyParams → Except String Unit
  openpgp_params : SecretKeyParams → Except String Unit
  openpgp_key : SecretKeyParams → Except String OpenPgpKey
  ssh_ed25519 : Except String SshKey
  ssh_rsa : Nat → Except String SshRsaKeypair
  x509_key : Except String X509Key

/-- What the libraries are: the encoders, the word list and the sizes of an RSA key that are
    supported, among them all from 2048 to 8192 bits. -/
structure Libraries where
  BASE64 : List UInt8 → List UInt8
  BASE64URL_NOPAD : List UInt8 → List UInt8
  HEXLOWER : List UInt8 → List UInt8
  parse_ip : String → Option (List UInt8)
  word_list : List String
  word_list_length : word_list.length = 2048
  rsa_sizes : Nat → Bool
  rsa_range : ∀ bits, 2048 ≤ bits → bits ≤ 8192 → rsa_sizes bits = true

abbrev Mint := Attempt String

/-- A fallible call; `context` is what the error says first. -/
def answer {α : Type} (context : String) (x : Except String α) : Mint α :=
  Attempt.call (x.mapError fun error => s!"{context}: {error}")

def fail {α : Type} (message : String) : Mint α := .error (.failed message)

def guarded (x : Except String Unit) : Mint Unit := Attempt.call x

section

variable (lib : Libraries) (machine : Machine)

def fill_os_random (n : Nat) (purpose : String) : Mint SecretBytes := do
  let stream ← answer s!"operating-system randomness failed while generating {purpose}" machine.os_random
  return (List.range n).map stream

/-! ## Texts -/

/-- Two bytes, the low one first. -/
def chunks : List UInt8 → List Nat
  | low :: high :: rest => (low.toNat + 256 * high.toNat) :: chunks rest
  | _ => []

def generate_passphrase (config : GenerateConfig) : Mint SecretBytes := do
  let words := ((options config).bind GenerateOptions.words).getD PASSPHRASE_DEFAULT_WORDS
  let separator := ((options config).bind GenerateOptions.separator).getD "-"
  guarded (check_words words)
  guarded (check_separator separator)
  let entropy ← fill_os_random machine (words * 2) "passphrase"
  let chosen ← (chunks entropy).mapM fun chunk =>
    Attempt.expect "invariant: index is reduced modulo the word list length" lib.word_list[chunk % lib.word_list.length]?
  return utf8 (separator.intercalate chosen)

def generate_mnemonic (config : GenerateConfig) : Mint SecretBytes := do
  let algorithm := ((options config).bind GenerateOptions.algorithm).getD "bip39"
  let words := ((options config).bind GenerateOptions.words).getD MNEMONIC_DEFAULT_WORDS
  let language := ((options config).bind GenerateOptions.language).getD "english"
  guarded (refuse (algorithm != "bip39") s!"unknown mnemonic algorithm '{algorithm}'; expected 'bip39'")
  guarded (refuse (language != "english") s!"unknown mnemonic language '{language}'; expected 'english'")
  guarded (check_word_count words)
  let entropy ← fill_os_random machine (words / 3 * 4) "BIP-39 mnemonic"
  let mnemonic ← answer "failed to encode BIP-39 mnemonic" (machine.mnemonic entropy)
  return utf8 mnemonic

/-- A bound that slipped through the manifest's rules is a panic. -/
def debug_assert_passed_generation_bounds (config : GenerateConfig) : Mint Unit :=
  match check_bounds config with
  | .ok () => .ok ()
  | .error _ => .error (.panicked "generate.length/bytes escaped manifest validation")

def alphanumeric : List UInt8 :=
  ((List.range' 97 26) ++ (List.range' 65 26) ++ (List.range' 48 10)).map UInt8.ofNat

def ascii_charset : List UInt8 := (List.range' 33 94).map UInt8.ofNat

def charset (name : String) : Except String (List UInt8) :=
  match name with
  | "alphanumeric" => .ok alphanumeric
  | "ascii" => .ok ascii_charset
  | unknown => .error s!"unknown charset '{unknown}', expected 'alphanumeric' or 'ascii'"

def generate_password (config : GenerateConfig) : Mint SecretBytes := do
  debug_assert_passed_generation_bounds config
  let length := ((options config).bind GenerateOptions.length).getD 32
  let charset ← Attempt.call (charset (((options config).bind GenerateOptions.charset).getD "alphanumeric"))
  guarded (refuse charset.isEmpty "charset is empty")
  (List.range length).mapM fun i =>
    Attempt.expect "invariant: index within charset" charset[machine.random i % charset.length]?

def random_bytes (config : GenerateConfig) : Mint SecretBytes := do
  debug_assert_passed_generation_bounds config
  let bytes := ((options config).bind GenerateOptions.bytes).getD 32
  return (List.range bytes).map fun i => UInt8.ofNat (machine.random i)

def generate_hex (config : GenerateConfig) : Mint SecretBytes := do
  let bytes ← random_bytes machine config
  return lib.HEXLOWER bytes

def generate_base64 (config : GenerateConfig) : Mint SecretBytes := do
  let bytes ← random_bytes machine config
  return lib.BASE64 bytes

/-! ## Keys -/

def generate_rsa (config : GenerateConfig) : Mint SecretBytes := do
  let bits := ((options config).bind GenerateOptions.bits).getD 2048
  let private_key ← answer "failed to generate RSA key" (machine.rsa bits)
  answer "failed to encode RSA key as PEM" private_key.to_pkcs1_pem

/-- Bits cleared and set at the two ends, as `wg genkey` does. -/
def clamp (key : List UInt8) : Option (List UInt8) := do
  let first ← key.head?
  let key := key.set 0 (first &&& 0xf8)
  let last ← key.getLast?
  return key.set (key.length - 1) (last &&& 0x7f ||| 0x40)

def generate_wireguard : Mint SecretBytes := do
  let key ← fill_os_random machine 32 "WireGuard private key"
  let key ← Attempt.expect "invariant: fixed 32-byte key" (clamp key)
  return lib.BASE64 key

def generate_age_identity : Mint SecretBytes := do
  let scalar ← fill_os_random machine 32 "age identity"
  answer "failed to configure age identity" (machine.hrp "AGE-SECRET-KEY-")
  let encoded ← answer "failed to encode age identity" (machine.bech32 "AGE-SECRET-KEY-" scalar)
  return utf8 (String.ofList (encoded.toList.map Char.toUpper))

def jwk_base64 (bytes : List UInt8) : Json := .str (String.ofList ((lib.BASE64URL_NOPAD bytes).map fun b => Char.ofNat b.toNat))

/-- Without leading zeros. -/
def jwk_integer (bytes : List UInt8) : Json :=
  match bytes.dropWhile (· == 0) with
  | [] => jwk_base64 lib [0]
  | digits => jwk_base64 lib digits

/-- `serde_json::to_string` of a key. -/
def jwk_text (kind : List (String × Json)) (parts : List (String × Json)) (kid : Option String) : SecretBytes :=
  JsonText.to_bytes (.obj (kind ++ [("use", .str "sig"), ("key_ops", .arr [.str "sign"])] ++ parts ++
    (kid.map fun kid => ("kid", Json.str kid)).toList))

def okp_jwk (kid : Option String) : SecretBytes :=
  jwk_text [("kty", .str "OKP"), ("crv", .str "Ed25519"), ("alg", .str "Ed25519")]
    [("x", jwk_base64 lib machine.ed25519.2), ("d", jwk_base64 lib machine.ed25519.1)] kid

def ec_jwk (kid : Option String) : Mint SecretBytes :=
  match machine.p256.x, machine.p256.y with
  | some x, some y => .ok <| jwk_text [("kty", .str "EC"), ("crv", .str "P-256"), ("alg", .str "ES256")]
      [("x", jwk_base64 lib x), ("y", jwk_base64 lib y), ("d", jwk_base64 lib machine.p256.secret)] kid
  | _, _ => fail "generated P-256 JSON Web Key has no affine coordinates"

/-- A part that the library did not give. -/
def part {α : Type} (message : String) (value : Option α) : Mint α := value.elim (fail message) .ok

def rsa_jwk (bits : Nat) (kid : Option String) : Mint SecretBytes := do
  let key ← answer "failed to generate RSA JSON Web Key" (machine.rsa bits)
  answer "failed to compute RSA JSON Web Key parameters" key.precompute
  let p ← part "generated RSA JSON Web Key has fewer than two primes" key.primes[0]?
  let q ← part "generated RSA JSON Web Key has fewer than two primes" key.primes[1]?
  let dp ← part "generated RSA JSON Web Key has no first CRT exponent" key.dp
  let dq ← part "generated RSA JSON Web Key has no second CRT exponent" key.dq
  let qi ← part "generated RSA JSON Web Key has no CRT coefficient" key.qinv
  let qi ← part "failed to encode RSA JSON Web Key q inverse" qi
  return jwk_text [("kty", .str "RSA"), ("alg", .str "RS256")]
    [("n", jwk_integer lib key.n), ("e", jwk_integer lib key.e), ("d", jwk_integer lib key.d), ("p", jwk_integer lib p),
      ("q", jwk_integer lib q), ("dp", jwk_integer lib dp), ("dq", jwk_integer lib dq), ("qi", jwk_integer lib qi)] kid

def generate_jwk (config : GenerateConfig) : Mint SecretBytes := do
  let opts := options config
  let kid := opts.bind GenerateOptions.kid
  guarded (kid.forM check_kid)
  match (opts.bind GenerateOptions.algorithm).getD "ed25519" with
  | "ed25519" => do
    guarded (check_no_bits opts)
    return okp_jwk lib machine kid
  | "p256" => do
    guarded (check_no_bits opts)
    ec_jwk lib machine kid
  | "rsa" => do
    let bits := (opts.bind GenerateOptions.bits).getD JWK_RSA_DEFAULT_BITS
    guarded (check_rsa_bits "JWK" JWK_RSA_MIN_BITS JWK_RSA_MAX_BITS bits)
    rsa_jwk lib machine bits kid
  | algorithm => fail s!"unknown JWK algorithm '{algorithm}'; expected `ed25519`, `p256`, or `rsa`"

/-- The types of the primary key, of the signing and of the encryption key. -/
def openpgp_key_types (opts : GenerateOptions) : Except String (KeyType × KeyType × KeyType) :=
  match opts.algorithm.getD "ed25519" with
  | "ed25519" => do
    check_no_bits opts
    return (.Ed25519Legacy, .Ed25519Legacy, .EcdhCurve25519Legacy)
  | "rsa" => do
    let bits := opts.bits.getD OPENPGP_RSA_DEFAULT_BITS
    check_rsa_bits "OpenPGP" OPENPGP_RSA_MIN_BITS OPENPGP_RSA_MAX_BITS bits
    refuse (!(bits < 2 ^ 32)) "OpenPGP RSA generate.bits is too large"
    return (.Rsa bits, .Rsa bits, .Rsa bits)
  | algorithm => .error s!"unknown OpenPGP algorithm '{algorithm}'; expected `ed25519` or `rsa`"

/-- Whether to sign and whether to encrypt. -/
def select_capabilities (selected : Bool × Bool) : List String → Except String (Bool × Bool)
  | [] => .ok selected
  | "sign" :: capabilities => do
    refuse selected.1 "generate.capabilities contains duplicate capability 'sign'"
    select_capabilities (true, selected.2) capabilities
  | "encrypt" :: capabilities => do
    refuse selected.2 "generate.capabilities contains duplicate capability 'encrypt'"
    select_capabilities (selected.1, true) capabilities
  | _ :: _ => .error "generate.capabilities accepts only `sign` and `encrypt`"

def openpgp_capabilities : Option (List String) → Except String (Bool × Bool)
  | none => .ok (true, true)
  | some [] => .error "generate.capabilities must contain `sign`, `encrypt`, or both"
  | some capabilities => select_capabilities (false, false) capabilities

def openpgp_subkeys (sign encrypt : Bool) (signing_key_type encryption_key_type : KeyType) : List (String × SubkeyParams) :=
  (if sign then [("signing", ⟨signing_key_type, true, false⟩)] else []) ++
    if encrypt then [("encryption", ⟨encryption_key_type, false, true⟩)] else []

def build_subkey (subkey : String × SubkeyParams) : Mint SubkeyParams := do
  let purpose := subkey.1
  answer s!"failed to configure OpenPGP {purpose} subkey" (machine.openpgp_subkey subkey.2)
  return subkey.2

def generate_openpgp : GenerateConfig → Mint SecretBytes
  | .Flag _ => fail "type = \"openpgp_private_key\" requires generate = \x7b user_id = \"Name <email>\" \x7d"
  | .Options opts => do
    let user_id ← part "type = \"openpgp_private_key\" requires generate.user_id" opts.user_id
    guarded (refuse (is_blank user_id) "generate.user_id cannot be empty or whitespace")
    guarded (refuse (has_control user_id) "generate.user_id cannot contain control characters")
    let types ← Attempt.call (openpgp_key_types opts)
    let selected ← Attempt.call (openpgp_capabilities opts.capabilities)
    let subkeys ← (openpgp_subkeys selected.1 selected.2 types.2.1 types.2.2).mapM (build_subkey machine)
    let params : SecretKeyParams := ⟨types.1, user_id, subkeys⟩
    answer "failed to configure OpenPGP private key" (machine.openpgp_params params)
    let key ← answer "failed to generate OpenPGP private key" (machine.openpgp_key params)
    answer "generated OpenPGP private key failed self-verification" key.verify_bindings
    let armored ← answer "failed to armor OpenPGP private key" key.to_armored_string
    return utf8 armored

def ssh_key (opts : Option GenerateOptions) (comment : String) : Mint SshKey :=
  match (opts.bind GenerateOptions.algorithm).getD "ed25519" with
  | "ed25519" => do
    guarded (check_no_bits opts)
    answer "failed to generate Ed25519 SSH private key" machine.ssh_ed25519
  | "rsa" => do
    let bits := (opts.bind GenerateOptions.bits).getD SSH_RSA_DEFAULT_BITS
    guarded (check_rsa_bits "SSH" SSH_RSA_MIN_BITS SSH_RSA_MAX_BITS bits)
    let keypair ← answer "failed to generate RSA SSH private key" (machine.ssh_rsa bits)
    answer "failed to assemble RSA SSH private key" (keypair.new comment)
  | algorithm => fail s!"unknown SSH algorithm '{algorithm}'; expected `ed25519` or `rsa`"

def generate_ssh (config : GenerateConfig) : Mint SecretBytes := do
  let opts := options config
  let comment := (opts.bind GenerateOptions.comment).getD ""
  guarded (refuse (has_control comment) "generate.comment cannot contain control characters")
  let key ← ssh_key machine opts comment
  answer "failed to encode OpenSSH private key" (key.to_openssh comment)

/-! ## Commands -/

/-- `Command::output`: an argument with a NUL byte is refused before the program starts. -/
def run (command : String) : Except String Output :=
  if command.toList.contains '\x00' then .error "nul byte found in provided data" else machine.sh command

/-- Whether the bytes are text with nothing but whitespace in it. -/
def is_blank_text (bytes : SecretBytes) : Bool := (String.fromUTF8? ⟨bytes.toArray⟩).any is_blank

def generate_from_command (config : GenerateConfig) : Mint SecretBytes := do
  let command ← part "type = \"command\" requires generate = \x7b command = \"...\" \x7d"
    ((options config).bind GenerateOptions.command)
  let output ← answer s!"failed to execute command '{command}'" (run machine command)
  let code := output.code.getD (-1)
  let stderr := trimmed output.stderr
  guarded (refuse (!output.success) s!"command '{command}' failed with exit code {code}: {stderr}")
  guarded (refuse (is_blank_text output.stdout) s!"command '{command}' produced empty output")
  return output.stdout

/-! ## X.509 identities -/

def san_type (san : String) : Mint SanType :=
  match behind "dns:".toList san.toList with
  | some dns => do
    guarded (refuse (!is_ascii dns) "invalid DNS SAN: Invalid IA5String")
    return .DnsName dns
  | none => do
    let ip ← Attempt.expect "validated IP SAN" (behind "ip:".toList san.toList)
    let address ← Attempt.expect "validated IP address" (lib.parse_ip (String.ofList ip))
    return .IpAddress address

def subject_alt_name (san : String) : Mint SanType := do
  guarded (validate_san lib.parse_ip san)
  san_type lib san

def common_name (sans : List String) : List Char :=
  ((sans.findSome? fun san => behind "dns:".toList san.toList).filter fun name => byte_len name ≤ 64).getD
    "Monosecret generated identity".toList

def key_usage : String → Mint ExtendedKeyUsagePurpose
  | "server_auth" => .ok .ServerAuth
  | "client_auth" => .ok .ClientAuth
  | _ => fail "invalid X.509 extended key usage"

def generate_x509 : GenerateConfig → Mint SecretBytes
  | .Flag _ => fail "type = \"x509_identity\" requires generate = \x7b san = [\"dns:localhost\"] \x7d"
  | .Options opts => do
    let valid_days ← Attempt.call (parse_valid_days opts.valid_for)
    let sans ← part "X.509 generation requires generate.san" (opts.san.filter fun sans => !sans.isEmpty)
    let subject_alt_names ← sans.mapM (subject_alt_name lib)
    let extended_key_usages ← (opts.usages.getD ["server_auth"]).mapM key_usage
    let stream ← answer "failed to generate X.509 serial" machine.os_random
    let serial := (List.range 16).map stream
    let not_before := machine.now - 300
    let params : CertificateParams := {
      subject_alt_names
      common_name := common_name sans
      extended_key_usages
      serial_number := serial.modify 0 (· ||| 0x80)
      not_before
      not_after := not_before + 86400 * valid_days }
    let key ← answer "failed to generate P-256 private key" machine.x509_key
    let generated ← answer "failed to sign X.509 certificate" (key.self_signed params)
    let archive ← answer "failed to encode X.509 certificate" (key.certificate generated)
    answer "failed to build PKCS#12 identity" archive

/-! ## The generators -/

def generate (secret_type : String) (config : GenerateConfig) : Mint SecretBytes :=
  match secret_type with
  | "password" => generate_password machine config
  | "passphrase" => generate_passphrase lib machine config
  | "mnemonic" => generate_mnemonic machine config
  | "hex" => generate_hex lib machine config
  | "base64" => generate_base64 lib machine config
  | "uuid" => .ok (utf8 machine.uuid)
  | "command" => generate_from_command machine config
  | "rsa_private_key" => generate_rsa machine config
  | "openpgp_private_key" => generate_openpgp machine config
  | "ssh_private_key" => generate_ssh machine config
  | "wireguard_private_key" => generate_wireguard lib machine
  | "jwk_private_key" => generate_jwk lib machine config
  | "age_identity" => generate_age_identity machine
  | unknown => fail s!"unknown secret type '{unknown}'"

/-- The part of `try_generate_secret` that mints. -/
def mint (secret_type : String) (config : GenerateConfig) : Mint SecretBytes :=
  if secret_type = "x509_identity" then generate_x509 lib machine config else generate lib machine secret_type config

end

end Monosecret.Generate
