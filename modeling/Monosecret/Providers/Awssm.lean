/-
  Monosecret.Providers.Awssm — reads of AWS Secrets Manager, one by one and in batches
  (`AwssmProvider` in `monosecret/src/provider/awssm.rs`, `digest` in `revision.rs`).

  The service holds secrets by name and by ARN. An identifier is a name, a full ARN, or an ARN
  without its random suffix; the service reads it the same way alone and in a batch, and
  reports what it found under its name and its full ARN. A batch may answer in any order.
  `from_str` parses JSON. Names of different secrets differ, as do their ARNs, and no name is
  an ARN.

  Proved, for every service and every list of requests with distinct names: a batch is what
  the single reads are exactly when some request fails in both, or no request names by an ARN
  without suffix a secret with the value asked for (`get_many_agrees_iff`); the batch looks its
  answers up by the identifier asked for, and finds none under such an ARN.

  Counterexample: a secret named by its ARN without suffix (`suffix_left_out`).
-/

import Monosecret.Lib.JsonText
import Monosecret.Lib.Sha256
import Monosecret.Providers.Convention
import Monosecret.Providers.GetEach
import Monosecret.Providers.SameEntries

namespace Monosecret.Providers.Awssm

open Lib Manifest
open Cache (SecretBytes utf8)

/-! ## The service -/

structure Secret where
  name : String
  /-- The ARN without its suffix. -/
  bare_arn : String
  suffix : String
  version_id : Option String
  secret_binary : Option SecretBytes
  secret_string : Option String
  deriving DecidableEq

def Secret.arn (secret : Secret) : String := secret.bare_arn ++ "-" ++ secret.suffix

/-- A read secret, alone or in a batch. -/
structure Output where
  name : Option String
  arn : Option String
  version_id : Option String
  secret_binary : Option SecretBytes
  secret_string : Option String
  deriving DecidableEq

def Secret.output (secret : Secret) : Output :=
  ⟨some secret.name, some secret.arn, secret.version_id, secret.secret_binary, secret.secret_string⟩

/-- An error other than that the secret is not there. -/
structure ServiceError where
  code : Option String
  message : Option String
  chain : String
  there : code ≠ some "ResourceNotFoundException"

inductive Answer
  | Found (output : Output)
  | NotFound
  | Fails (error : ServiceError)

structure Service where
  secrets : List Secret
  fails : String → Option ServiceError
  /-- Credentials load and a client is made. -/
  client : Except String Unit
  names : (secrets.map Secret.name).Nodup
  arns : (secrets.map Secret.arn).Nodup
  apart : ∀ a ∈ secrets, ∀ b ∈ secrets, a.name ≠ b.arn

namespace Service

variable (service : Service)

/-- The secret with the name or the full ARN. -/
def named (id : String) : Option Secret :=
  (service.secrets.find? fun secret => secret.name = id).or (service.secrets.find? fun secret => secret.arn = id)

def find (id : String) : Option Secret :=
  (service.named id).or (service.secrets.find? fun secret => secret.bare_arn = id)

def get_secret_value (id : String) : Answer :=
  match service.fails id with
  | some error => .Fails error
  | none =>
    match service.find id with
    | some secret => .Found secret.output
    | none => .NotFound

end Service

/-- An entry of a batch's errors. -/
structure BatchError where
  secret_id : Option String
  error_code : Option String
  message : Option String
  deriving DecidableEq

structure Response where
  secret_values : List Output
  errors : List BatchError

/-- What a batch says of an identifier it finds nothing for. -/
def Answer.error (id : String) : Answer → Option BatchError
  | .Found _ => none
  | .NotFound => some ⟨some id, some "ResourceNotFoundException", none⟩
  | .Fails error => some ⟨some id, error.code, error.message⟩

/-- Batch reads that answer each identifier as a single read does, in any order. -/
structure BatchApi (service : Service) where
  batch_get_secret_value : List String → Response
  found : ∀ ids output, output ∈ (batch_get_secret_value ids).secret_values ↔
    ∃ id ∈ ids, service.get_secret_value id = .Found output
  errors : ∀ ids error, error ∈ (batch_get_secret_value ids).errors ↔
    ∃ id ∈ ids, (service.get_secret_value id).error id = some error

/-! ## Values -/

structure ProviderValue where
  value : SecretBytes
  expires_at_unix_ms : Option UInt64
  revision : Option String
  deriving DecidableEq

/-- Every part is hashed after its length. -/
def revision_digest (domain : String) (fields : List String) : String :=
  "ssr1:" ++ Sha256.hex_bytes (framed (be_bytes 8) ((domain :: fields).map utf8))

/-- The length of the longest prefix that is text. -/
def valid_up_to (value : SecretBytes) : Nat :=
  ((List.range value.length).reverse.find? fun n => (String.fromUTF8? ⟨(value.take n).toArray⟩).isSome).getD 0

def try_as_utf8_for (name : String) (value : SecretBytes) : Except String String :=
  match String.fromUTF8? ⟨value.toArray⟩ with
  | some text => .ok text
  | none =>
    .error (s!"Secret '{name}' is not usable as text: it contains bytes that are not valid UTF-8 " ++
      s!"(first invalid byte at offset {valid_up_to value}); declare `as_path = true` to receive a file path or resolve it as bytes")

/-- `json_field::render_field`. -/
def render_field : Json → Option String
  | .null => none
  | .str text => some text
  | other => some (String.ofList (JsonText.render other))

def secret_value (binary : Option SecretBytes) (text : Option String) : Option SecretBytes := binary.or (text.map utf8)

def versioned_value (value : SecretBytes) (arn version : Option String) : ProviderValue :=
  let revision := match arn.filter (· ≠ ""), version.filter (· ≠ "") with
    | some arn, some version => some (revision_digest "monosecret.awssm.v1" [arn, version])
    | _, _ => none
  ⟨value, none, revision⟩

def format_aws_error (error : ServiceError) : String :=
  match error.code, error.message with
  | some code, some message => s!"{code}: {message}"
  | some code, none => code
  | none, some message => message
  | none, none => error.chain

section

variable (from_str : String → Except String Json)

def extract_json_key (name value json_key : String) : Except String (Option SecretBytes) :=
  match from_str value with
  | .error error => .error s!"secret '{name}' is not JSON, cannot extract key '{json_key}': {error}"
  | .ok json => .ok (((json.get json_key).bind render_field).map utf8)

/-- The value asked for, before its revision. -/
def selected (name : String) (value : SecretBytes) : Option String → Except String (Option SecretBytes)
  | none => .ok (some value)
  | some field => try_as_utf8_for name value >>= fun text => extract_json_key from_str name text field

def select_value (name : String) (value : ProviderValue) (field : Option String) : Except String (Option ProviderValue) := do
  let selected ← selected from_str name value.value field
  let revision := value.revision.map fun revision =>
    revision_digest "monosecret.awssm.selection.v1" [revision, if field.isSome then "field" else "whole", field.getD ""]
  return selected.map fun value => ⟨value, none, revision⟩

def single_result (name : String) (json_key : Option String) (output : Output) : Except String (Option ProviderValue) :=
  match secret_value output.secret_binary output.secret_string with
  | none => .ok none
  | some value => select_value from_str name (versioned_value value output.arn output.version_id) json_key

end

/-! ## Reads -/

def index_batch_values (fetched : Map String ProviderValue) (secrets : List Output) : Map String ProviderValue :=
  secrets.foldl (fun fetched secret =>
    match secret_value secret.secret_binary secret.secret_string with
    | none => fetched
    | some value =>
      let value := versioned_value value secret.arn secret.version_id
      let by_name := match secret.name with
        | some name => fetched.insert name value
        | none => fetched
      match secret.arn with
      | some arn => by_name.insert arn value
      | none => by_name) fetched

/-- The identifiers, each once. -/
def unique_ids (resolved : List (String × NativeAddress)) : List String :=
  resolved.foldl (fun unique request => if request.2.item ∈ unique then unique else unique ++ [request.2.item]) []

/-- `slice::chunks`. -/
def chunks {α : Type} (n : Nat) (l : List α) : List (List α) :=
  (List.range ((l.length + n - 1) / n)).map fun i => (l.drop (n * i)).take n

def AWS_BATCH_GET_MAX_SECRETS : Nat := 20

def refuse_error (error : BatchError) : Except String Unit :=
  let error_code := error.error_code.getD "Unknown"
  let secret_id := error.secret_id.getD "unknown"
  let message := error.message.getD "no message"
  if error_code ≠ "ResourceNotFoundException" then .error s!"Failed to get secret '{secret_id}': {error_code} - {message}"
  else .ok ()

structure AwssmProvider where
  folder_prefix : Option String
  entry_container_identity : String
  deriving DecidableEq

namespace AwssmProvider

variable (provider : AwssmProvider) (from_str : String → Except String Json) (service : Service)

def entries : Provider String where
  name := "awssm"
  supported_coords := ["field"]
  convention_address project profile key :=
    (Convention.AwssmProvider.format_secret_name provider.folder_prefix project profile key).map fun item =>
      ⟨item, none, none, none, none⟩
  physical_store_path := none
  entry_container_identity := provider.entry_container_identity

def get_coords (coords : NativeAddress) : Except String (Option ProviderValue) := do
  service.client
  match service.get_secret_value coords.item with
  | .NotFound => .ok none
  | .Fails error => .error s!"Failed to get secret '{coords.item}': {format_aws_error error}"
  | .Found output => single_result from_str coords.item coords.field output

def get_with_metadata (addr : Address) : Except String (Option ProviderValue) :=
  provider.entries.resolve_coords addr >>= get_coords from_str service

variable {service} (api : BatchApi service)

def fetch_chunk (fetched : Map String ProviderValue) (chunk : List String) : Except String (Map String ProviderValue) := do
  let response := api.batch_get_secret_value chunk
  let fetched := index_batch_values fetched response.secret_values
  response.errors.forM refuse_error
  return fetched

/-- What the batch has of a request. -/
def served (fetched : Map String ProviderValue) (coords : NativeAddress) : Except String (Option ProviderValue) :=
  match fetched coords.item with
  | none => .ok none
  | some value => select_value from_str coords.item value coords.field

def get_many_resolved (resolved : List (String × NativeAddress)) : Except String (Map String ProviderValue) := do
  service.client
  let fetched ← (chunks AWS_BATCH_GET_MAX_SECRETS (unique_ids resolved)).foldlM (fetch_chunk api) .empty
  collect_each (served from_str fetched) resolved .empty

def get_many_with_metadata (requests : List (String × Address)) : Except String (Map String ProviderValue) :=
  if requests = [] then .ok .empty
  else resolve_all provider.entries.resolve_coords requests >>= get_many_resolved from_str api

end AwssmProvider

open AwssmProvider (fetch_chunk get_many_resolved get_coords served)

/-! ## Conditions -/

section

variable (provider : AwssmProvider) (from_str : String → Except String Json) (service : Service)

/-- Alone and in a batch: no client, an address that is not resolved, an identifier the service fails for, or a
    secret found by its name or full ARN that has no value of the kind asked for. -/
def Refused (addr : Address) : Prop :=
  (∃ error, service.client = .error error) ∨ (∃ error, provider.entries.resolve_coords addr = .error error) ∨
    ∃ coords, provider.entries.resolve_coords addr = .ok coords ∧
      (service.fails coords.item ≠ none ∨
        ∃ secret error, service.named coords.item = some secret ∧
          single_result from_str coords.item coords.field secret.output = .error error)

/-- The secret an ARN without suffix names has nothing that was asked for. -/
def Lacks (addr : Address) : Prop :=
  ∀ coords, provider.entries.resolve_coords addr = .ok coords → service.named coords.item = none →
    ∀ secret, service.find coords.item = some secret →
      single_result from_str coords.item coords.field secret.output = .ok none

end

/-! ## Identifiers -/

section

variable {service : Service} {id : String} {secret : Secret}

theorem find?_of_mem {f : Secret → String} {s : List Secret} (hd : (s.map f).Nodup) (h : secret ∈ s) :
    (s.find? fun other => f other = f secret) = some secret := by
  cases hf : s.find? fun other => f other = f secret with
  | none =>
    have hn := List.find?_eq_none.mp hf secret h
    simp at hn
  | some other =>
    have hs : f other = f secret := by simpa using List.find?_some hf
    rw [List.inj_on_of_nodup_map hd (List.mem_of_find?_eq_some hf) h hs]

theorem named_iff : service.named id = some secret ↔ secret ∈ service.secrets ∧ (secret.name = id ∨ secret.arn = id) := by
  unfold Service.named
  rw [Option.or_eq_some_iff]
  constructor
  · rintro (h | ⟨-, h⟩)
    · exact ⟨List.mem_of_find?_eq_some h, .inl (by simpa using List.find?_some h)⟩
    · exact ⟨List.mem_of_find?_eq_some h, .inr (by simpa using List.find?_some h)⟩
  · rintro ⟨hm, rfl | rfl⟩
    · exact .inl (find?_of_mem service.names hm)
    · refine .inr ⟨List.find?_eq_none.mpr fun other ho => ?_, find?_of_mem service.arns hm⟩
      simpa using service.apart other ho secret hm

theorem find_mem (h : service.find id = some secret) : secret ∈ service.secrets := by
  rcases Option.or_eq_some_iff.mp h with h | ⟨-, h⟩
  · exact (named_iff.mp h).1
  · exact List.mem_of_find?_eq_some h

theorem find_named (h : service.named id = some secret) : service.find id = some secret := by
  rw [Service.find, h]
  rfl

theorem found_iff {output : Output} : service.get_secret_value id = .Found output ↔
    service.fails id = none ∧ ∃ secret, service.find id = some secret ∧ secret.output = output := by
  unfold Service.get_secret_value
  cases service.fails id with
  | some error => simp
  | none => cases service.find id <;> simp

end

theorem mem_unique_ids {r : List (String × NativeAddress)} {id : String} :
    id ∈ unique_ids r ↔ ∃ rq ∈ r, rq.2.item = id := by
  have hf : ∀ unique : List String, id ∈ r.foldl (fun unique rq =>
      if rq.2.item ∈ unique then unique else unique ++ [rq.2.item]) unique ↔
      id ∈ unique ∨ ∃ rq ∈ r, rq.2.item = id := by
    induction r with
    | nil => simp
    | cons rq r ih =>
      intro unique
      rw [List.foldl_cons, ih, List.exists_mem_cons_iff, ← or_assoc]
      refine or_congr_left ?_
      split
      · rename_i hm
        exact ⟨.inl, fun h => h.elim (fun h => h) fun he => he ▸ hm⟩
      · simp [eq_comm]
  simpa [unique_ids] using hf []

theorem mem_chunks {α : Type} {n : Nat} (hn : 0 < n) {l : List α} {a : α} : (∃ c ∈ chunks n l, a ∈ c) ↔ a ∈ l := by
  constructor
  · rintro ⟨c, hc, ha⟩
    obtain ⟨i, -, rfl⟩ := List.mem_map.mp hc
    exact List.mem_of_mem_drop (List.mem_of_mem_take ha)
  · intro ha
    obtain ⟨k, hk, rfl⟩ := List.mem_iff_getElem.mp ha
    have hl : k / n < (l.length + n - 1) / n := by
      rw [Nat.div_lt_iff_lt_mul hn]
      have := Nat.div_add_mod (l.length + n - 1) n
      have := Nat.mod_lt (l.length + n - 1) hn
      rw [Nat.mul_comm]
      omega
    refine ⟨_, List.mem_map_of_mem (List.mem_range.mpr hl), List.mem_iff_getElem.mpr ⟨k % n, ?_, ?_⟩⟩
    · have := Nat.div_add_mod k n
      have := Nat.mod_lt k hn
      rw [List.length_take, List.length_drop]
      omega
    · rw [List.getElem_take, List.getElem_drop]
      congr 1
      exact Nat.div_add_mod k n

/-- The batches are of the identifiers asked for. -/
theorem mem_batches {r : List (String × NativeAddress)} {id : String} :
    (∃ c ∈ chunks AWS_BATCH_GET_MAX_SECRETS (unique_ids r), id ∈ c) ↔ ∃ rq ∈ r, rq.2.item = id :=
  (mem_chunks (by decide)).trans mem_unique_ids

/-! ## Answers indexed -/

def value_of (secret : Secret) : Option ProviderValue :=
  (secret_value secret.secret_binary secret.secret_string).map fun value => versioned_value value (some secret.arn) secret.version_id

section

variable {service : Service} {fetched : Map String ProviderValue}

/-- Every value stands under the name or the ARN of its secret. -/
def Indexed (service : Service) (fetched : Map String ProviderValue) : Prop :=
  ∀ id value, fetched id = some value → (service.named id).bind value_of = some value

/-- What is there for an identifier, where nothing is missing. -/
theorem Indexed.value (h : Indexed service fetched) {id : String}
    (ht : ∀ value, (service.named id).bind value_of = some value → fetched id ≠ none) :
    fetched id = (service.named id).bind value_of := by
  cases ha : fetched id with
  | some value => exact (h id value ha).symm
  | none =>
    cases hv : (service.named id).bind value_of with
    | none => rfl
    | some value => exact absurd ha (ht value hv)

theorem index_one (fetched : Map String ProviderValue) {secret : Secret} (h : secret ∈ service.secrets) (id : String) :
    index_batch_values fetched [secret.output] id =
      if service.named id = some secret then (value_of secret).or (fetched id) else fetched id := by
  have hm : service.named id = some secret ↔ id = secret.name ∨ id = secret.arn := by
    rw [named_iff]
    exact ⟨fun hn => hn.2.imp Eq.symm Eq.symm, fun hn => ⟨h, hn.imp Eq.symm Eq.symm⟩⟩
  simp only [index_batch_values, List.foldl_cons, List.foldl_nil, Secret.output, value_of, hm]
  cases secret_value secret.secret_binary secret.secret_string with
  | none => simp
  | some value =>
    show ((fetched.insert secret.name _).insert secret.arn _) id = _
    by_cases ha : id = secret.arn
    · simp [ha]
    · rw [Map.insert_of_ne ha]
      by_cases hna : id = secret.name
      · simp [hna]
      · rw [Map.insert_of_ne hna, if_neg (by simp [hna, ha])]

/-- Values stay where they were, and those of a secret among the answers are there. -/
theorem index_spec {o : List Output} (hn : ∀ ot ∈ o, ∃ secret ∈ service.secrets, secret.output = ot)
    (h : Indexed service fetched) : Indexed service (index_batch_values fetched o) ∧
      (∀ id, fetched id ≠ none → index_batch_values fetched o id ≠ none) ∧
      ∀ id secret, secret.output ∈ o → service.named id = some secret → value_of secret ≠ none →
        index_batch_values fetched o id ≠ none := by
  induction o generalizing fetched with
  | nil => exact ⟨h, fun _ => id, nofun⟩
  | cons ot o ih =>
    obtain ⟨⟨secret, hm, rfl⟩, hr⟩ := List.forall_mem_cons.mp hn
    have hf := fun id => index_one fetched hm id
    have hon : Indexed service (index_batch_values fetched [secret.output]) := by
      intro id value hl
      rw [hf] at hl
      split at hl
      · rename_i hnm
        rcases Option.or_eq_some_iff.mp hl with hv | ⟨-, hv⟩
        · rw [hnm]
          exact hv
        · exact h id value hv
      · exact h id value hl
    have hk : ∀ id, fetched id ≠ none → index_batch_values fetched [secret.output] id ≠ none := by
      intro id hd
      rw [hf]
      split
      · rw [Ne, Option.or_eq_none_iff]
        exact fun hnn => hd hnn.2
      · exact hd
    obtain ⟨hi, hp, ha⟩ := ih hr hon
    refine ⟨hi, fun id hd => hp id (hk id hd), ?_⟩
    intro id other hoh hnm hl
    rcases List.mem_cons.mp hoh with hs | hoh
    · refine hp id ?_
      rw [hf]
      obtain ⟨ho, -⟩ := named_iff.mp hnm
      have hna : other.name = secret.name := Option.some.inj (congrArg Output.name hs)
      obtain rfl := List.inj_on_of_nodup_map service.names ho hm hna
      rw [if_pos hnm, Ne, Option.or_eq_none_iff]
      exact fun hnn => hl hnn.1
    · exact ha id other hoh hnm hl

/-- A batch goes through when the service fails for none of its identifiers, and then each has the value of the
    secret with this name or ARN. -/
theorem fetch_chunk_spec (api : BatchApi service) (c : List String) (h : Indexed service fetched) :
    ((∃ after, fetch_chunk api fetched c = .ok after) ↔ ∀ id ∈ c, service.fails id = none) ∧
      ∀ after, fetch_chunk api fetched c = .ok after →
        Indexed service after ∧ (∀ id, fetched id ≠ none → after id ≠ none) ∧
          ∀ id ∈ c, after id = (service.named id).bind value_of := by
  have hn : ∀ output ∈ (api.batch_get_secret_value c).secret_values, ∃ secret ∈ service.secrets, secret.output = output := by
    intro output ho
    obtain ⟨id, -, hf⟩ := (api.found c output).mp ho
    obtain ⟨-, secret, hs, hou⟩ := found_iff.mp hf
    exact ⟨secret, find_mem hs, hou⟩
  have hr : (api.batch_get_secret_value c).errors.forM refuse_error = .ok () ↔ ∀ id ∈ c, service.fails id = none := by
    rw [Except.forM_ok_iff]
    constructor
    · intro ha id hd
      cases hl : service.fails id with
      | none => rfl
      | some error =>
        have han : service.get_secret_value id = .Fails error := by rw [Service.get_secret_value, hl]
        have hon := ha _ ((api.errors c _).mpr ⟨id, hd, congrArg (Answer.error id) han⟩)
        have hcd : error.code.getD "Unknown" ≠ "ResourceNotFoundException" := by
          have ht := error.there
          cases hc : error.code with
          | none => decide
          | some cd =>
            rw [hc] at ht
            simpa using ht
        simp [refuse_error, hcd] at hon
    · intro ha error he
      obtain ⟨id, hd, han⟩ := (api.errors c error).mp he
      simp only [Service.get_secret_value, ha id hd] at han
      cases hfd : service.find id with
      | some secret => simp [hfd, Answer.error] at han
      | none =>
        simp only [hfd, Answer.error, Option.some.injEq] at han
        rw [← han]
        rfl
  obtain ⟨hi, hk, ha⟩ := index_spec hn h
  have hch : ∀ after, fetch_chunk api fetched c = .ok after ↔
      (api.batch_get_secret_value c).errors.forM refuse_error = .ok () ∧
        index_batch_values fetched (api.batch_get_secret_value c).secret_values = after := by
    intro after
    have hdf : fetch_chunk api fetched c = ((api.batch_get_secret_value c).errors.forM refuse_error >>= fun _ =>
        .ok (index_batch_values fetched (api.batch_get_secret_value c).secret_values)) := rfl
    rw [hdf]
    cases (api.batch_get_secret_value c).errors.forM refuse_error with
    | error error => exact iff_of_false nofun fun hno => nomatch hno.1
    | ok u => exact ⟨fun hy => ⟨rfl, Except.ok.inj hy⟩, fun hy => congrArg Except.ok hy.2⟩
  refine ⟨⟨fun ⟨after, haf⟩ => hr.mp ((hch after).mp haf).1, fun hfi => ⟨_, (hch _).mpr ⟨hr.mpr hfi, rfl⟩⟩⟩, ?_⟩
  intro after haf
  obtain ⟨hg, rfl⟩ := (hch after).mp haf
  refine ⟨hi, hk, fun id hd => hi.value fun value hv => ?_⟩
  obtain ⟨secret, hm, hof⟩ := Option.bind_eq_some_iff.mp hv
  have hf : service.get_secret_value id = .Found secret.output :=
    found_iff.mpr ⟨hr.mp hg id hd, secret, find_named hm, rfl⟩
  exact ha id secret ((api.found c _).mpr ⟨id, hd, hf⟩) hm (by rw [hof]; nofun)

/-- All batches, one after the other. -/
theorem fetch_chunks_spec (api : BatchApi service) (al : List (List String)) (h : Indexed service fetched) :
    ((∃ a, al.foldlM (fetch_chunk api) fetched = .ok a) ↔
        ∀ c ∈ al, ∀ id ∈ c, service.fails id = none) ∧
      ∀ a, al.foldlM (fetch_chunk api) fetched = .ok a →
        Indexed service a ∧ (∀ id, fetched id ≠ none → a id ≠ none) ∧
          ∀ c ∈ al, ∀ id ∈ c, a id = (service.named id).bind value_of := by
  induction al generalizing fetched with
  | nil =>
    refine ⟨iff_of_true ⟨fetched, rfl⟩ nofun, fun a ha => ?_⟩
    cases ha
    exact ⟨h, fun _ => id, nofun⟩
  | cons c al ih =>
    obtain ⟨hs, hv⟩ := fetch_chunk_spec api c h
    rw [List.forall_mem_cons, List.foldlM_cons]
    cases hf : fetch_chunk api fetched c with
    | error error =>
      refine ⟨iff_of_false (fun hn => nomatch hn.choose_spec) fun hl => ?_, nofun⟩
      obtain ⟨a, ha⟩ := hs.mpr hl.1
      rw [hf] at ha
      cases ha
    | ok m =>
      obtain ⟨hi, hk, hc⟩ := hv m hf
      obtain ⟨hr, ht⟩ := ih hi
      refine ⟨hr.trans ⟨fun hl => ⟨hs.mp ⟨m, hf⟩, hl⟩, And.right⟩, fun a ha => ?_⟩
      obtain ⟨hafter_indexed, hp, hl⟩ := ht a ha
      refine ⟨hafter_indexed, fun id hd => hp id (hk id hd), ?_⟩
      refine List.forall_mem_cons.mpr ⟨fun id hd => hafter_indexed.value fun value hva => hp id ?_, hl⟩
      rw [hc id hd, hva]
      nofun

end

/-! ## A batch and single reads -/

section

variable {provider : AwssmProvider} {from_str : String → Except String Json} {service : Service}

/-- What a secret, if there is one, gives for the coordinates. -/
def look (from_str : String → Except String Json) (coords : NativeAddress) : Option Secret → Except String (Option ProviderValue)
  | none => .ok none
  | some secret => single_result from_str coords.item coords.field secret.output

variable {coords : NativeAddress}

theorem get_coords_look (hc : service.client = .ok ()) (hf : service.fails coords.item = none) :
    get_coords from_str service coords = look from_str coords (service.find coords.item) := by
  rw [get_coords, hc, Service.get_secret_value, hf]
  cases service.find coords.item <;> rfl

theorem get_coords_fails (from_str : String → Except String Json) (hf : service.fails coords.item ≠ none) :
    ∃ error, get_coords from_str service coords = .error error := by
  obtain ⟨error, he⟩ := Option.ne_none_iff_exists'.mp hf
  rw [get_coords, Service.get_secret_value, he]
  cases service.client with
  | error error | ok u => exact ⟨_, rfl⟩

theorem served_look {fetched : Map String ProviderValue}
    (h : fetched coords.item = (service.named coords.item).bind value_of) :
    served from_str fetched coords = look from_str coords (service.named coords.item) := by
  rw [served, h]
  cases service.named coords.item with
  | none => rfl
  | some secret =>
    simp only [Option.bind_some, value_of, look, single_result, Secret.output]
    cases secret_value secret.secret_binary secret.secret_string <;> rfl

/-- What the index answers and what the service does agree where both fail, or where an ARN without suffix names
    nothing of the kind asked for. -/
theorem looks_agree_iff (resolved : List (String × NativeAddress)) :
    ((∃ request ∈ resolved, ∃ error, look from_str request.2 (service.named request.2.item) = .error error) ∧
        (∃ request ∈ resolved, ∃ error, look from_str request.2 (service.find request.2.item) = .error error) ∨
      ∀ request ∈ resolved, ∃ found, look from_str request.2 (service.named request.2.item) = .ok found ∧
        look from_str request.2 (service.find request.2.item) = .ok found) ↔
    ((∃ request ∈ resolved, ∃ secret error, service.named request.2.item = some secret ∧
        single_result from_str request.2.item request.2.field secret.output = .error error) ∨
      ∀ request ∈ resolved, service.named request.2.item = none → ∀ secret, service.find request.2.item = some secret →
        single_result from_str request.2.item request.2.field secret.output = .ok none) := by
  have he : ∀ coords : NativeAddress, ∀ error, look from_str coords (service.named coords.item) = .error error →
      ∃ secret, service.named coords.item = some secret ∧
        single_result from_str coords.item coords.field secret.output = .error error ∧
        look from_str coords (service.find coords.item) = .error error := by
    intro coords error hl
    cases hn : service.named coords.item with
    | none =>
      rw [hn] at hl
      cases hl
    | some secret =>
      rw [hn] at hl
      exact ⟨secret, rfl, hl, by rw [find_named hn]; exact hl⟩
  constructor
  · rintro (⟨⟨request, hm, error, hl⟩, -⟩ | hb)
    · obtain ⟨secret, hn, hr, -⟩ := he _ _ hl
      exact .inl ⟨request, hm, secret, error, hn, hr⟩
    · refine .inr fun request hm hn secret hf => ?_
      obtain ⟨found, hi, hs⟩ := hb request hm
      rw [hn] at hi
      cases hi
      rw [hf] at hs
      exact hs
  · rintro (⟨request, hm, secret, error, hn, hr⟩ | hc)
    · refine .inl ⟨⟨request, hm, error, ?_⟩, request, hm, error, ?_⟩
      · rw [hn]
        exact hr
      · rw [find_named hn]
        exact hr
    · by_cases hfl : ∃ request ∈ resolved, ∃ error, look from_str request.2 (service.named request.2.item) = .error error
      · obtain ⟨request, hm, error, hl⟩ := hfl
        obtain ⟨secret, -, -, hs⟩ := he _ _ hl
        exact .inl ⟨⟨request, hm, error, hl⟩, request, hm, error, hs⟩
      · refine .inr fun request hm => ?_
        cases hn : service.named request.2.item with
        | none =>
          refine ⟨none, rfl, ?_⟩
          cases hf : service.find request.2.item with
          | none => rfl
          | some secret => exact hc request hm hn secret hf
        | some secret =>
          cases hl : look from_str request.2 (service.named request.2.item) with
          | error error => exact absurd ⟨request, hm, error, hl⟩ hfl
          | ok found =>
            rw [hn] at hl
            exact ⟨found, hl, by rw [find_named hn]; exact hl⟩

/-- Where a client is made and the service fails for none of the identifiers, only what was asked for counts. -/
theorem get_many_resolved_iff (hc : service.client = .ok ()) (api : BatchApi service)
    {resolved : List (String × NativeAddress)} (hd : (resolved.map Prod.fst).Nodup)
    (hf : ∀ request ∈ resolved, service.fails request.2.item = none) :
    Agrees resolved (get_coords from_str service) (get_many_resolved from_str api resolved) ↔
      ((∃ request ∈ resolved, ∃ secret error, service.named request.2.item = some secret ∧
          single_result from_str request.2.item request.2.field secret.output = .error error) ∨
        ∀ request ∈ resolved, service.named request.2.item = none → ∀ secret, service.find request.2.item = some secret →
          single_result from_str request.2.item request.2.field secret.output = .ok none) := by
  have hi : ∀ chunk ∈ chunks AWS_BATCH_GET_MAX_SECRETS (unique_ids resolved), ∀ id ∈ chunk, service.fails id = none := by
    intro chunk hch id hid
    obtain ⟨request, hm, rfl⟩ := mem_batches.mp ⟨chunk, hch, hid⟩
    exact hf request hm
  have he : Indexed service .empty := nofun
  obtain ⟨hs, hv⟩ := fetch_chunks_spec api (chunks AWS_BATCH_GET_MAX_SECRETS (unique_ids resolved)) he
  obtain ⟨fetched, ht⟩ := hs.mpr hi
  obtain ⟨-, -, ha⟩ := hv fetched ht
  have hr : ∀ request ∈ resolved, served from_str fetched request.2 =
      look from_str request.2 (service.named request.2.item) := by
    intro request hm
    obtain ⟨chunk, hch, hid⟩ := mem_batches.mpr ⟨request, hm, rfl⟩
    exact served_look (ha chunk hch _ hid)
  have hb : get_many_resolved from_str api resolved =
      collect_each (served from_str fetched) resolved .empty := by
    simp only [get_many_resolved, hc, ht]
    rfl
  rw [hb, (collect_each_agrees hd).other, ← looks_agree_iff]
  refine or_congr (and_congr ?_ ?_) ?_
  · exact exists_congr fun request => and_congr_right fun hm => by rw [hr request hm]
  · exact exists_congr fun request => and_congr_right fun hm => by rw [get_coords_look hc (hf request hm)]
  · exact forall₂_congr fun request hm => by rw [hr request hm, get_coords_look hc (hf request hm)]

theorem get_many_resolved_fails (from_str : String → Except String Json) (api : BatchApi service) {r : List (String × NativeAddress)}
    {rq : String × NativeAddress} (hm : rq ∈ r) (hf : service.fails rq.2.item ≠ none) :
    ∃ error, get_many_resolved from_str api r = .error error := by
  have he : Indexed service .empty := nofun
  obtain ⟨hs, -⟩ := fetch_chunks_spec api (chunks AWS_BATCH_GET_MAX_SECRETS (unique_ids r)) he
  have hd : get_many_resolved from_str api r = (service.client >>= fun _ =>
      (chunks AWS_BATCH_GET_MAX_SECRETS (unique_ids r)).foldlM (fetch_chunk api) .empty >>= fun fetched =>
        collect_each (served from_str fetched) r .empty) := rfl
  rw [hd]
  cases service.client with
  | error error => exact ⟨error, rfl⟩
  | ok u =>
    cases ht : (chunks AWS_BATCH_GET_MAX_SECRETS (unique_ids r)).foldlM (fetch_chunk api) .empty with
    | error error => exact ⟨error, rfl⟩
    | ok fetched =>
      obtain ⟨c, hc, hi⟩ := mem_batches.mpr ⟨rq, hm, rfl⟩
      exact absurd (hs.mp ⟨fetched, ht⟩ c hc _ hi) hf

/-- A batch is what the single reads are when some request is refused either way, or each secret named by an ARN
    without suffix lacks what was asked for; and only then. -/
theorem get_many_agrees_iff (provider : AwssmProvider) (from_str : String → Except String Json) (service : Service)
    (api : BatchApi service) (requests : List (String × Address)) (hdistinct : (requests.map Prod.fst).Nodup) :
    Agrees requests (provider.get_with_metadata from_str service) (provider.get_many_with_metadata from_str api requests) ↔
      (∃ request ∈ requests, Refused provider from_str service request.2) ∨
        ∀ request ∈ requests, Lacks provider from_str service request.2 := by
  unfold AwssmProvider.get_many_with_metadata AwssmProvider.get_with_metadata
  by_cases hn : requests = []
  · subst hn
    exact iff_of_true (agrees_ok.mpr ⟨nofun, fun _ _ => rfl⟩) (.inr nofun)
  rw [if_neg hn]
  cases hr : resolve_all provider.entries.resolve_coords requests with
  | error error =>
    obtain ⟨request, hm, rf⟩ := resolve_all_error hr
    exact iff_of_true (agrees_refused hr) (.inl ⟨request, hm, .inr (.inl rf)⟩)
  | ok r =>
    rw [agrees_resolved hr]
    show Agrees r _ (get_many_resolved from_str api r) ↔ _
    obtain ⟨first, hf⟩ := List.exists_mem_of_ne_nil _ hn
    cases hc : service.client with
    | error error =>
      -- without a client nothing is read
      refine iff_of_true ⟨iff_of_false (fun ho => ?_) fun ha => ?_, fun v ho => ?_⟩ (.inl ⟨first, hf, .inl ⟨error, hc⟩⟩)
      · rw [get_many_resolved, hc] at ho
        exact nomatch ho.choose_spec
      · obtain ⟨coords, -, hm⟩ := mem_resolved hr hf
        obtain ⟨found, hfn⟩ := ha _ hm
        rw [get_coords, hc] at hfn
        cases hfn
      · rw [get_many_resolved, hc] at ho
        cases ho
    | ok u =>
      by_cases hl : ∀ request ∈ r, service.fails request.2.item = none
      · rw [← resolve_all_names hr] at hdistinct
        rw [get_many_resolved_iff hc api hdistinct hl]
        refine or_congr ⟨?_, ?_⟩ ⟨?_, ?_⟩
        · rintro ⟨l, hm, secret, error, hnm, hrl⟩
          obtain ⟨request, hq, -, hcr⟩ := resolved_mem hr hm
          exact ⟨request, hq, .inr (.inr ⟨_, hcr, .inr ⟨secret, error, hnm, hrl⟩⟩)⟩
        · rintro ⟨request, hq, ⟨error, hno⟩ | ⟨error, hno⟩ | ⟨coords, hcr, hw⟩⟩
          · rw [hc] at hno
            cases hno
          · obtain ⟨coords, hcr, -⟩ := mem_resolved hr hq
            rw [hcr] at hno
            cases hno
          · obtain ⟨found, hfn, hm⟩ := mem_resolved hr hq
            rw [hcr] at hfn
            cases hfn
            rcases hw with hw | ⟨secret, error, hnm, hrl⟩
            · exact absurd (hl _ hm) hw
            · exact ⟨_, hm, secret, error, hnm, hrl⟩
        · intro hlc request hq coords hcr
          obtain ⟨found, hfn, hm⟩ := mem_resolved hr hq
          rw [hcr] at hfn
          cases hfn
          exact hlc _ hm
        · intro hlc l hm
          obtain ⟨request, hq, -, hcr⟩ := resolved_mem hr hm
          exact hlc request hq _ hcr
      · -- the service fails for an identifier, either way
        push Not at hl
        obtain ⟨l, hm, hw⟩ := hl
        obtain ⟨request, hq, -, hcr⟩ := resolved_mem hr hm
        obtain ⟨error, hb⟩ := get_many_resolved_fails from_str api hm hw
        rw [hb]
        refine iff_of_true ⟨iff_of_false (fun ho => nomatch ho.choose_spec) fun ha => ?_, nofun⟩
          (.inl ⟨request, hq, .inr (.inr ⟨_, hcr, .inl hw⟩)⟩)
        obtain ⟨found, hfn⟩ := ha l hm
        obtain ⟨rf, hrf⟩ := get_coords_fails from_str hw
        rw [hrf] at hfn
        cases hfn

end

/-! ## An ARN without suffix -/

/-- A service with one secret, and batches in the order asked for. -/
def db : Secret :=
  ⟨"db", "arn:aws:secretsmanager:us-east-1:123:secret:db", "abcdef", some "version-1", none, some "s3cret"⟩

def account : Service where
  secrets := [db]
  fails _ := none
  client := .ok ()
  names := by decide
  arns := by decide
  apart := by decide

def in_order : BatchApi account where
  batch_get_secret_value ids :=
    ⟨ids.filterMap fun id => (account.find id).map Secret.output, ids.filterMap fun id => (account.get_secret_value id).error id⟩
  found := by
    intro ids output
    simp [found_iff, account]
  errors := by
    intro ids error
    simp

def provider : AwssmProvider := ⟨none, "awssm"⟩

def not_json (_ : String) : Except String Json := .error "expected value at line 1 column 1"

def by_arn (id : String) : List (String × Address) := [("TOKEN", .Native ⟨id, none, none, none, none⟩)]

/-- A single read finds the secret, and a batch leaves it out. -/
theorem suffix_left_out :
    (∃ value, provider.get_with_metadata not_json account (.Native ⟨db.bare_arn, none, none, none, none⟩) = .ok (some value) ∧
      value.value = utf8 "s3cret") ∧
    (∃ values, provider.get_many_with_metadata not_json in_order (by_arn db.bare_arn) = .ok values ∧ values "TOKEN" = none) ∧
    ¬ Agrees (by_arn db.bare_arn) (provider.get_with_metadata not_json account)
      (provider.get_many_with_metadata not_json in_order (by_arn db.bare_arn)) := by
  have hs : ∃ value, provider.get_with_metadata not_json account (.Native ⟨db.bare_arn, none, none, none, none⟩) =
      .ok (some value) ∧ value.value = utf8 "s3cret" := ⟨_, rfl, rfl⟩
  have hb : ∃ values, provider.get_many_with_metadata not_json in_order (by_arn db.bare_arn) = .ok values ∧
      values "TOKEN" = none := ⟨_, rfl, rfl⟩
  refine ⟨hs, hb, fun ha => ?_⟩
  obtain ⟨value, hr, -⟩ := hs
  obtain ⟨values, hv, hn⟩ := hb
  have ho := (ha.values values hv).1 _ (.head _)
  rw [hr, hn] at ho
  cases ho

/-- By its full ARN both read it. -/
theorem get_many_agrees_full :
    Agrees (by_arn db.arn) (provider.get_with_metadata not_json account) (provider.get_many_with_metadata not_json in_order (by_arn db.arn)) := by
  refine (get_many_agrees_iff provider not_json account in_order (by_arn db.arn) (by decide)).mpr (.inr ?_)
  intro r hm coords hc hn
  obtain rfl := List.mem_singleton.mp hm
  cases hc
  cases hn

end Monosecret.Providers.Awssm
