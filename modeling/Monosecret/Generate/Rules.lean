/-
  Monosecret.Generate.Rules — what a manifest may ask a generator for (the generation rules
  of `Secret::validate_semantics` in `monosecret/src/config.rs`, `validate_san` and
  `parse_valid_days` in `x509_identity.rs`).

  Each type has its rules for the options it reads, and refuses most of the others. The types
  `password`, `hex`, `base64`, `uuid` and `rsa_private_key` have none of their own: only
  `length` and `bytes` are bounded for every type. So `charset` is not checked, nor `bits`
  of a plain RSA key, nor what a command is.
-/

import Mathlib.Algebra.GroupWithZero.Nat
import Monosecret.Lib.Texts
import Monosecret.Manifest.Validate

namespace Monosecret.Generate

open Lib Manifest

def GENERATE_MAX_LENGTH : Nat := 4096
def OPENPGP_RSA_DEFAULT_BITS : Nat := 3072
def OPENPGP_RSA_MIN_BITS : Nat := 2048
def OPENPGP_RSA_MAX_BITS : Nat := 8192
def SSH_RSA_DEFAULT_BITS : Nat := 3072
def SSH_RSA_MIN_BITS : Nat := 2048
def SSH_RSA_MAX_BITS : Nat := 8192
def JWK_RSA_DEFAULT_BITS : Nat := 3072
def JWK_RSA_MIN_BITS : Nat := 2048
def JWK_RSA_MAX_BITS : Nat := 8192
def PASSPHRASE_DEFAULT_WORDS : Nat := 7
def PASSPHRASE_MIN_WORDS : Nat := 6
def PASSPHRASE_MAX_WORDS : Nat := 32
def MNEMONIC_DEFAULT_WORDS : Nat := 24
def MNEMONIC_WORD_COUNTS : List Nat := [12, 15, 18, 21, 24]
def MAX_VALID_DAYS : Nat := 200

/-- None where generation is only switched on. -/
def options : GenerateConfig → Option GenerateOptions
  | .Flag _ => none
  | .Options opts => some opts

/-! ## Checks that several types share -/

/-- `char::is_control`. -/
def is_control (c : Char) : Bool := c.toNat < 0x20 || (0x7f ≤ c.toNat && c.toNat < 0xa0)

def has_control (text : String) : Bool := text.toList.any is_control

/-- The key types with a curve have no size. -/
def check_no_bits (opts : Option GenerateOptions) : Except String Unit :=
  refuse (opts.any fun opts => opts.bits.isSome) "generate.bits is only valid when generate.algorithm = \"rsa\""

/-- `kind` is how the error names the key. -/
def check_rsa_bits (kind : String) (min max bits : Nat) : Except String Unit :=
  refuse (!(min ≤ bits && bits ≤ max)) s!"{kind} RSA generate.bits must be between 2048 and 8192"

def check_bounds (config : GenerateConfig) : Except String Unit :=
  (options config).forM fun opts =>
    [("length", opts.length), ("bytes", opts.bytes)].forM fun bound =>
      let field := bound.1
      bound.2.forM fun value =>
        refuse (!(1 ≤ value && value ≤ GENERATE_MAX_LENGTH)) s!"generate.{field} must be between 1 and {GENERATE_MAX_LENGTH}"

/-- Each item is one of `known`, and none is given twice. -/
def check_choices (known : List String) (unknown twice : String → String) (seen : List String) : List String → Except String Unit
  | [] => .ok ()
  | choice :: choices => do
    refuse (!known.contains choice) (unknown choice)
    refuse (seen.contains choice) (twice choice)
    check_choices known unknown twice (choice :: seen) choices

/-! ## One type -/

def check_command (config : GenerateConfig) : Except String Unit :=
  refuse ((options config).bind GenerateOptions.command).isNone "type = \"command\" requires generate = \x7b command = \"...\" \x7d"

def check_capabilities (capabilities : List String) : Except String Unit := do
  refuse capabilities.isEmpty "generate.capabilities must contain `sign`, `encrypt`, or both"
  check_choices ["sign", "encrypt"]
    (fun capability => s!"unknown OpenPGP capability '{capability}'; expected `sign` or `encrypt`")
    (fun capability => s!"generate.capabilities contains duplicate capability '{capability}'") [] capabilities

def check_openpgp_algorithm (opts : GenerateOptions) : Except String Unit :=
  match opts.algorithm.getD "ed25519" with
  | "ed25519" => check_no_bits opts
  | "rsa" =>
    check_rsa_bits "OpenPGP" OPENPGP_RSA_MIN_BITS OPENPGP_RSA_MAX_BITS (opts.bits.getD OPENPGP_RSA_DEFAULT_BITS)
  | algorithm => .error s!"unknown OpenPGP algorithm '{algorithm}'; expected `ed25519` or `rsa`"

def check_openpgp : GenerateConfig → Except String Unit
  | .Flag _ => .error "type = \"openpgp_private_key\" requires generate = \x7b user_id = \"Name <email>\" \x7d"
  | .Options opts => do
    let user_id ← opts.user_id.elim (.error "type = \"openpgp_private_key\" requires generate.user_id") Except.ok
    refuse (is_blank user_id) "generate.user_id cannot be empty or whitespace"
    refuse (has_control user_id) "generate.user_id cannot contain control characters"
    refuse (opts.length.isSome || opts.bytes.isSome || opts.charset.isSome || opts.command.isSome || opts.comment.isSome ||
        opts.words.isSome || opts.separator.isSome || opts.language.isSome || opts.kid.isSome)
      "openpgp_private_key generation accepts only `algorithm`, `bits`, `user_id`, and `capabilities` options"
    check_openpgp_algorithm opts
    opts.capabilities.forM check_capabilities

def check_ssh_algorithm (opts : GenerateOptions) : Except String Unit :=
  match opts.algorithm.getD "ed25519" with
  | "ed25519" => check_no_bits opts
  | "rsa" => check_rsa_bits "SSH" SSH_RSA_MIN_BITS SSH_RSA_MAX_BITS (opts.bits.getD SSH_RSA_DEFAULT_BITS)
  | algorithm => .error s!"unknown SSH algorithm '{algorithm}'; expected `ed25519` or `rsa`"

def check_ssh (config : GenerateConfig) : Except String Unit :=
  (options config).forM fun opts => do
    refuse (opts.length.isSome || opts.bytes.isSome || opts.charset.isSome || opts.command.isSome || opts.user_id.isSome ||
        opts.capabilities.isSome || opts.words.isSome || opts.separator.isSome || opts.language.isSome || opts.kid.isSome)
      "ssh_private_key generation accepts only `algorithm`, `bits`, and `comment` options"
    refuse (opts.comment.any has_control) "generate.comment cannot contain control characters"
    check_ssh_algorithm opts

def check_words (words : Nat) : Except String Unit :=
  refuse (!(PASSPHRASE_MIN_WORDS ≤ words && words ≤ PASSPHRASE_MAX_WORDS))
    s!"passphrase generate.words must be between {PASSPHRASE_MIN_WORDS} and {PASSPHRASE_MAX_WORDS}"

def check_separator (separator : String) : Except String Unit :=
  refuse (separator == "" || has_control separator)
    "passphrase generate.separator must be non-empty and contain no control characters"

def check_passphrase (config : GenerateConfig) : Except String Unit :=
  (options config).forM fun opts => do
    check_words (opts.words.getD PASSPHRASE_DEFAULT_WORDS)
    opts.separator.forM check_separator
    refuse (opts.length.isSome || opts.bytes.isSome || opts.charset.isSome || opts.command.isSome || opts.algorithm.isSome ||
        opts.bits.isSome || opts.user_id.isSome || opts.capabilities.isSome || opts.comment.isSome || opts.kid.isSome ||
        opts.language.isSome)
      "passphrase generation accepts only `words` and `separator` options"

def check_word_count (words : Nat) : Except String Unit :=
  refuse (!MNEMONIC_WORD_COUNTS.contains words) "mnemonic generate.words must be one of 12, 15, 18, 21, or 24"

def check_mnemonic (config : GenerateConfig) : Except String Unit :=
  (options config).forM fun opts => do
    check_word_count (opts.words.getD MNEMONIC_DEFAULT_WORDS)
    refuse (opts.algorithm.getD "bip39" != "bip39") "unknown mnemonic algorithm; expected `bip39`"
    refuse (opts.language.getD "english" != "english") "unknown mnemonic language; expected `english`"
    refuse (opts.length.isSome || opts.bytes.isSome || opts.charset.isSome || opts.command.isSome || opts.bits.isSome ||
        opts.user_id.isSome || opts.capabilities.isSome || opts.comment.isSome || opts.separator.isSome || opts.kid.isSome)
      "mnemonic generation accepts only `algorithm`, `words`, and `language` options"

def check_kid (kid : String) : Except String Unit :=
  refuse (is_blank kid || has_control kid) "JWK generate.kid must be non-empty and contain no control characters"

def check_jwk_algorithm (opts : GenerateOptions) : Except String Unit :=
  match opts.algorithm.getD "ed25519" with
  | "ed25519" | "p256" => check_no_bits opts
  | "rsa" => check_rsa_bits "JWK" JWK_RSA_MIN_BITS JWK_RSA_MAX_BITS (opts.bits.getD JWK_RSA_DEFAULT_BITS)
  | algorithm => .error s!"unknown JWK algorithm '{algorithm}'; expected `ed25519`, `p256`, or `rsa`"

def check_jwk (config : GenerateConfig) : Except String Unit :=
  (options config).forM fun opts => do
    opts.kid.forM check_kid
    check_jwk_algorithm opts
    refuse (opts.length.isSome || opts.bytes.isSome || opts.charset.isSome || opts.command.isSome || opts.user_id.isSome ||
        opts.capabilities.isSome || opts.comment.isSome || opts.words.isSome || opts.separator.isSome || opts.language.isSome)
      "JWK generation accepts only `algorithm`, `bits`, and `kid` options"

def check_bare (secret_type : String) (config : GenerateConfig) : Except String Unit :=
  (options config).forM fun opts =>
    refuse (opts.length.isSome || opts.bytes.isSome || opts.charset.isSome || opts.command.isSome || opts.bits.isSome ||
        opts.algorithm.isSome || opts.user_id.isSome || opts.capabilities.isSome || opts.comment.isSome || opts.words.isSome ||
        opts.separator.isSome || opts.language.isSome || opts.kid.isSome)
      s!"{secret_type} generation does not accept options"

/-! ## X.509 identities -/

/-- The text behind another one. -/
def behind (start text : List Char) : Option (List Char) :=
  if start.isPrefixOf text then some (text.drop start.length) else none

def byte_len (text : List Char) : Nat := (text.map Char.utf8Size).sum

def is_ascii (text : List Char) : Bool := text.all fun c => c.toNat < 0x80

def valid_label (label : List Char) : Bool :=
  !label.isEmpty && byte_len label ≤ 63 && label.head? != some '-' && label.getLast? != some '-' &&
    label.all fun c => c.isAlphanum || c == '-'

def validate_dns_name (name : List Char) : Except String Unit :=
  let ordinary := (behind ['*', '.'] name).getD name
  let text := String.ofList name
  refuse (ordinary.isEmpty || 253 < byte_len ordinary || !is_ascii ordinary || !(ordinary.splitOn '.').all valid_label)
    s!"invalid X.509 DNS SAN `dns:{text}`"

def parse_valid_days (value : Option String) : Except String Nat := do
  let value := value.getD "30d"
  let digits ← (if value.toList.getLast? = some 'd' then some value.toList.dropLast else none).elim
    (.error "generate.valid_for must be a whole number of days such as `30d`") Except.ok
  let days ← (Texts.parse_unsigned (2 ^ 32) digits).elim
    (.error "generate.valid_for must be a whole number of days such as `30d`") Except.ok
  refuse (!(1 ≤ days && days ≤ MAX_VALID_DAYS)) s!"X.509 generate.valid_for must be between 1d and {MAX_VALID_DAYS}d"
  return days

section

-- `str::parse::<IpAddr>`.
variable (parse_ip : String → Option (List UInt8))

def validate_san (value : String) : Except String Unit :=
  match behind "dns:".toList value.toList with
  | some dns => validate_dns_name dns
  | none =>
    match behind "ip:".toList value.toList with
    | some ip => refuse (parse_ip (String.ofList ip)).isNone s!"invalid X.509 IP SAN `{value}`"
    | none => .error s!"invalid X.509 SAN `{value}`; expected `dns:name` or `ip:address`"

def check_sans (seen : List String) : List String → Except String Unit
  | [] => .ok ()
  | san :: sans => do
    validate_san parse_ip san
    refuse (seen.contains san) s!"generate.san contains duplicate name '{san}'"
    check_sans (san :: seen) sans

def check_usages (usages : List String) : Except String Unit := do
  refuse usages.isEmpty "X.509 generate.usages must contain `server_auth`, `client_auth`, or both"
  check_choices ["server_auth", "client_auth"]
    (fun usage => s!"unknown X.509 usage '{usage}'; expected `server_auth` or `client_auth`")
    (fun usage => s!"generate.usages contains duplicate usage '{usage}'") [] usages

def check_x509 : GenerateConfig → Except String Unit
  | .Flag _ => .error "type = \"x509_identity\" requires generate = \x7b san = [\"dns:localhost\"] \x7d"
  | .Options opts => do
    refuse (opts.issuer.getD "self_signed" != "self_signed") "unknown X.509 issuer; expected `self_signed`"
    refuse (opts.algorithm.getD "p256" != "p256") "unknown X.509 algorithm; expected `p256`"
    let sans ← opts.san.elim (.error "type = \"x509_identity\" requires generate.san") Except.ok
    refuse (sans.isEmpty || 100 < sans.length) "X.509 generate.san must contain between 1 and 100 names"
    check_sans parse_ip [] sans
    opts.usages.forM check_usages
    let _ ← parse_valid_days opts.valid_for
    refuse (opts.length.isSome || opts.bytes.isSome || opts.charset.isSome || opts.command.isSome || opts.bits.isSome ||
        opts.user_id.isSome || opts.capabilities.isSome || opts.comment.isSome || opts.words.isSome || opts.separator.isSome ||
        opts.language.isSome || opts.kid.isSome)
      "X.509 generation accepts only `issuer`, `algorithm`, `san`, `usages`, and `valid_for` options"

/-! ## All types -/

def check_foreign (secret_type : String) (config : GenerateConfig) : Except String Unit :=
  (options config).forM fun opts =>
    refuse (secret_type != "x509_identity" &&
        (opts.issuer.isSome || opts.san.isSome || opts.usages.isSome || opts.valid_for.isSome))
      "generate.issuer, generate.san, generate.usages, and generate.valid_for are only valid for type = \"x509_identity\""

def check_options (secret_type : String) (config : GenerateConfig) : Except String Unit := do
  check_bounds config
  check_foreign secret_type config
  match secret_type with
  | "command" => check_command config
  | "openpgp_private_key" => check_openpgp config
  | "ssh_private_key" => check_ssh config
  | "passphrase" => check_passphrase config
  | "mnemonic" => check_mnemonic config
  | "jwk_private_key" => check_jwk config
  | "x509_identity" => check_x509 parse_ip config
  | "wireguard_private_key" | "age_identity" => check_bare secret_type config
  | _ => .ok ()

/-- The rules of the manifest with those of the generators. -/
def generation_rules (rules : Rules) : Rules := { rules with check_options := check_options parse_ip }

end

end Monosecret.Generate
