/-
  Monosecret.Codegen.Ir — the fields of the generated types (`monosecret/src/codegen.rs`).

  A profile has a field for each of its effective secrets, optional when a successful
  resolution may leave it out; the union has a field for each secret of any profile. The
  emitters are left out.
-/

import Monosecret.Manifest.Compile

namespace Monosecret.Codegen

open Manifest

structure IrField where
  name : String
  optional : Bool
  as_path : Bool
  description : Option String
  deriving DecidableEq

structure IrProfile where
  name : String
  fields : List IrField
  deriving DecidableEq

structure CodegenIr where
  project : String
  profiles : List String
  union : List IrField
  profile_fields : List IrProfile
  deriving DecidableEq

def guaranteed_on_success (missing : MissingPolicy) : Bool := missing ≠ .Omit

/-- What is gathered of one name over the profiles. -/
structure Acc where
  guaranteed_count : Nat
  as_path : Bool
  description : Option String

def Acc.add (acc : Acc) (secret : CompiledSecret) : Acc where
  guaranteed_count := acc.guaranteed_count + if guaranteed_on_success secret.missing then 1 else 0
  as_path := acc.as_path || secret.config.as_path == some true
  description := acc.description <|> secret.config.description

/-- Every secret with its name, profile by profile. -/
def declarations (manifest : CompiledSpec) : List (String × CompiledSecret) :=
  manifest.profiles.flatMap fun profile => profile.2.secrets

def gathered (manifest : CompiledSpec) (name : String) : Acc :=
  (((declarations manifest).filter fun entry => entry.1 = name).map Prod.snd).foldl Acc.add ⟨0, false, none⟩

def build_union (manifest : CompiledSpec) : List IrField :=
  (sorted_set ((declarations manifest).map Prod.fst)).map fun name =>
    let acc := gathered manifest name
    { name, optional := acc.guaranteed_count ≠ manifest.profiles.length, as_path := acc.as_path, description := acc.description }

def build_profile_fields (secrets : List (String × CompiledSecret)) : List IrField :=
  secrets.map fun (name, secret) =>
    { name, optional := !guaranteed_on_success secret.missing, as_path := secret.config.as_path.getD false
      description := secret.config.description }

/-- Without a declared profile there is a `default` with every field. -/
def build_ir (manifest : CompiledSpec) : CodegenIr :=
  let union := build_union manifest
  let profile_fields :=
    if manifest.profiles = [] then [⟨"default", union⟩]
    else manifest.profiles.map fun (name, profile) => ⟨name, build_profile_fields profile.secrets⟩
  { project := manifest.project, profiles := profile_fields.map IrProfile.name, union, profile_fields }

end Monosecret.Codegen
