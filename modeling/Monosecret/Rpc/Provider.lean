/-
  Monosecret.Rpc.Provider — the reads of the provider protocol (`protocol.rs`, module
  `provider`) and how an endpoint serves them (`ProviderApplication` in `provider.rs`).

  A batch has a bound on its length and on its names that a single read has not
  (`GetManyParams.validate`), and its results carry a name beside the status. Proved: what
  either side writes the other reads back, so a served request is one that is valid, whose
  handler answers with an expiry the wire can carry.

  The other methods of `ProviderApplication::call` are left out, and arrays in place of
  objects, which serde reads but no side writes.
-/

import Monosecret.Rpc.Envelope

namespace Monosecret.Rpc.provider

open Lib jsonrpc

def GET : String := "provider.get"
def GET_MANY : String := "provider.get_many"
def EXISTS : String := "provider.exists"
def SET : String := "provider.set"
def SET_EXPIRING : String := "provider.set_expiring"
def RESOLVE_ADDRESS : String := "provider.resolve_address"

def validate_capabilities (capabilities : List String) : Except String Unit :=
  let has := fun method => capabilities.contains method
  if !has RESOLVE_ADDRESS || !([GET, EXISTS, SET].any has) || (has GET_MANY && !has GET) || (has SET_EXPIRING && !has SET) then
    .error "provider capability set violates version 1 dependencies"
  else .ok ()

/-! ## Addresses -/

inductive CoordinateName
  | Field
  | Vault
  | Section
  | Version
  deriving DecidableEq

structure Coordinates where
  item : String
  field : Option String
  vault : Option String
  section_ : Option String
  version : Option String
  deriving DecidableEq

inductive Address
  | Convention (project profile key : String)
  | Native (coordinates : Coordinates)
  deriving DecidableEq

def validate_optional_bytes (label : String) (value : Option String) (max : Nat) : Except String Unit :=
  if value.any fun value => value.utf8ByteSize > max then .error label else .ok ()

def Coordinates.validate (coordinates : Coordinates) : Except String Unit := do
  validate_nonempty_bytes "item has an invalid byte length" coordinates.item 4096
  [coordinates.field, coordinates.vault, coordinates.section_, coordinates.version].forM fun value =>
    validate_optional_bytes "coordinate is too long" value 4096

def Coordinates.unsupported (coordinates : Coordinates) (supported : List CoordinateName) : Option CoordinateName :=
  [(CoordinateName.Field, coordinates.field.isSome), (.Vault, coordinates.vault.isSome),
    (.Section, coordinates.section_.isSome), (.Version, coordinates.version.isSome)].findSome? fun coordinate =>
      if coordinate.2 && !supported.contains coordinate.1 then some coordinate.1 else none

def Address.validate : Address → Except String Unit
  | .Convention project profile key =>
    [project, profile, key].forM fun value =>
      if value.utf8ByteSize > 4096 then .error "convention address component is too long" else .ok ()
  | .Native coordinates => coordinates.validate

def optional_text (name : String) : Option String → List (String × Json)
  | none => []
  | some value => [(name, .str value)]

def Coordinates.serialize (coordinates : Coordinates) : Json :=
  .obj (("item", .str coordinates.item) :: (optional_text "field" coordinates.field ++ optional_text "vault" coordinates.vault ++
    optional_text "section" coordinates.section_ ++ optional_text "version" coordinates.version))

def Coordinates.deserialize (value : Json) : Option Coordinates :=
  match strict_fields ["item", "field", "vault", "section", "version"] value with
  | some [item, field, vault, section_, version] => do
    let item ← item.bind string
    let field ← defaulted none (nullable string) field
    let vault ← defaulted none (nullable string) vault
    let section_ ← defaulted none (nullable string) section_
    let version ← defaulted none (nullable string) version
    some { item, field, vault, section_, version }
  | _ => none

def Address.serialize : Address → Json
  | .Convention project profile key =>
    .obj [("kind", .str "convention"), ("project", .str project), ("profile", .str profile), ("key", .str key)]
  | .Native coordinates => .obj [("kind", .str "native"), ("coordinates", coordinates.serialize)]

/-- The members beside the tag. -/
def untagged (tag : String) (members : List (String × Json)) : Json := .obj (members.filter fun member => member.1 != tag)

def Address.deserialize : Json → Option Address
  | .obj members =>
    match (members.lookup "kind").bind string with
    | some "convention" =>
      match strict_fields ["project", "profile", "key"] (untagged "kind" members) with
      | some [project, profile, key] => do
        some (.Convention (← project.bind string) (← profile.bind string) (← key.bind string))
      | _ => none
    | some "native" =>
      match strict_fields ["coordinates"] (untagged "kind" members) with
      | some [coordinates] => (coordinates.bind Coordinates.deserialize).map .Native
      | _ => none
    | _ => none
  | _ => none

/-- `AddressParams`. -/
def address_params (address : Address) : Json := .obj [("address", address.serialize)]

def AddressParams.deserialize (value : Json) : Option Address :=
  match strict_fields ["address"] value with
  | some [address] => address.bind Address.deserialize
  | _ => none

/-! ## Batches -/

structure NamedRequest where
  name : String
  address : Address
  deriving DecidableEq

def NamedRequest.serialize (request : NamedRequest) : Json :=
  .obj [("name", .str request.name), ("address", request.address.serialize)]

def NamedRequest.deserialize (value : Json) : Option NamedRequest :=
  match strict_fields ["name", "address"] value with
  | some [name, address] => do
    some ⟨← name.bind string, ← address.bind Address.deserialize⟩
  | _ => none

structure GetManyParams where
  requests : List NamedRequest

def GetManyParams.serialize (params : GetManyParams) : Json := .obj [("requests", .arr (params.requests.map NamedRequest.serialize))]

def GetManyParams.deserialize (value : Json) : Option GetManyParams :=
  match strict_fields ["requests"] value with
  | some [requests] => (requests.bind (list NamedRequest.deserialize)).map .mk
  | _ => none

/-- A name that was not seen. -/
def new_name (names : List String) (name : String) : Except String Unit :=
  if names.contains name then .error "batch names must be unique" else .ok ()

/-- The loop of `GetManyParams::validate`, with the names seen. -/
def validate_requests (names : List String) : List NamedRequest → Except String Unit
  | [] => .ok ()
  | request :: requests => do
    validate_nonempty_bytes "batch name has an invalid byte length" request.name 4096
    new_name names request.name
    request.address.validate
    validate_requests (request.name :: names) requests

def GetManyParams.validate (params : GetManyParams) : Except String Unit :=
  if params.requests.length > 1024 then .error "get_many contains more than 1024 requests"
  else validate_requests [] params.requests

/-! ## Results -/

def is_revision (value : String) : Bool :=
  !value.isEmpty && value.utf8ByteSize ≤ 256 && value.toList.all fun c => c.isAlphanum || "._:-".toList.contains c

/-- A token that `Revision::new` accepts. -/
structure Revision where
  token : String
  valid : is_revision token = true
  deriving DecidableEq

def Revision.new (token : String) : Option Revision := if h : is_revision token = true then some ⟨token, h⟩ else none

inductive GetResult
  | Found (value : String) (expires_at_unix_ms : Option UInt64) (revision : Option Revision)
  | Missing
  deriving DecidableEq

/-- The members after the tag. -/
def found_members (value : String) (expires_at_unix_ms : Option UInt64) (revision : Option Revision) :
    Except Failure (List (String × Json)) := do
  let expires_at_unix_ms ← serialize_optional (expires_at_unix_ms.map UInt64.toNat)
  .ok (("value", .str value) :: ("expires_at_unix_ms", expires_at_unix_ms) :: optional_text "revision" (revision.map Revision.token))

def GetResult.members : GetResult → Except Failure (List (String × Json))
  | .Found value expires_at_unix_ms revision =>
    (found_members value expires_at_unix_ms revision).map fun members => ("status", .str "found") :: members
  | .Missing => .ok [("status", .str "missing")]

def GetResult.serialize (result : GetResult) : Except Failure Json := result.members.map .obj

def u64_expiry (value : Json) : Option (Option UInt64) := (optional_integer value).map fun value => value.map UInt64.ofNat

def revision_value (value : Json) : Option Revision := (string value).bind Revision.new

/-- The found variant, whatever other members there are. -/
def found_deserialize (members : List (String × Json)) : Option GetResult := do
  let value ← (members.lookup "value").bind string
  let expires_at_unix_ms ← (members.lookup "expires_at_unix_ms").bind u64_expiry
  let revision ← defaulted none (nullable revision_value) (members.lookup "revision")
  some (.Found value expires_at_unix_ms revision)

def GetResult.deserialize : Json → Option GetResult
  | .obj members =>
    match (members.lookup "status").bind string with
    | some "found" => found_deserialize members
    | some "missing" => some .Missing
    | _ => none
  | _ => none

structure NamedGetResult where
  name : String
  outcome : GetResult
  deriving DecidableEq

/-- The outcome's members are flattened. -/
def NamedGetResult.serialize (result : NamedGetResult) : Except Failure Json :=
  result.outcome.members.map fun members => .obj (("name", .str result.name) :: members)

/-- A member that holds this text. -/
def has_text (text : String) (value : Option Json) : Option Unit :=
  (value.bind string).bind fun found => if found = text then some () else none

/-- The untagged reader: found when it decodes, else missing. -/
def NamedGetResult.deserialize : Json → Option NamedGetResult
  | .obj members =>
    (do
      let name ← (members.lookup "name").bind string
      has_text "found" (members.lookup "status")
      some ⟨name, ← found_deserialize members⟩) <|>
    (do
      let name ← (members.lookup "name").bind string
      has_text "missing" (members.lookup "status")
      some ⟨name, .Missing⟩)
  | _ => none

structure GetManyResult where
  results : List NamedGetResult

def GetManyResult.serialize (result : GetManyResult) : Except Failure Json := do
  let results ← result.results.mapM NamedGetResult.serialize
  .ok (.obj [("results", .arr results)])

def GetManyResult.deserialize : Json → Option GetManyResult
  | .obj members => ((members.lookup "results").bind (list NamedGetResult.deserialize)).map .mk
  | _ => none

/-- The check of a batch's names, on either side. -/
def names_differ (results : List NamedGetResult) (expected : List String) : Bool :=
  results.length != expected.length || (results.zip expected).any fun pair => pair.1.name != pair.2

/-! ## Serving -/

structure ProvidedSecret where
  value : String
  expires_at_unix_ms : Option UInt64
  revision : Option Revision

/-- The reads of a `ProviderHandler`; an error is its kind. -/
structure ProviderHandler where
  get : Address → Except ErrorKind (Option ProvidedSecret)
  get_many : GetManyParams → Except ErrorKind GetManyResult

structure ProviderApplication where
  handler : ProviderHandler
  supported_coordinates : List CoordinateName

def parse {α : Type} : Option α → Except ErrorKind α
  | some value => .ok value
  | none => .error .InvalidParams

def encode (value : Except Failure Json) : Except ErrorKind Json := value.mapError fun _ => .Internal

def invalid_params (check : Except String Unit) : Except ErrorKind Unit := check.mapError fun _ => .InvalidParams

namespace ProviderApplication

variable (app : ProviderApplication)

def supports_coordinates : Address → Bool
  | .Native coordinates => (coordinates.unsupported app.supported_coordinates).isNone
  | .Convention _ _ _ => true

def validate_address (address : Address) : Except ErrorKind Unit := do
  invalid_params address.validate
  if app.supports_coordinates address then .ok () else .error .InvalidParams

def get_result : Option ProvidedSecret → GetResult
  | some secret => .Found secret.value secret.expires_at_unix_ms secret.revision
  | none => .Missing

def serve_get (params : Json) : Except ErrorKind Json := do
  let address ← parse (AddressParams.deserialize params)
  app.validate_address address
  let found ← app.handler.get address
  encode (get_result found).serialize

def serve_get_many (params : Json) : Except ErrorKind Json := do
  let params ← parse (GetManyParams.deserialize params)
  invalid_params params.validate
  params.requests.forM fun request => app.validate_address request.address
  let result ← app.handler.get_many params
  if names_differ result.results (params.requests.map NamedRequest.name) then .error .OperationFailed
  else encode result.serialize

/-- `ProviderApplication::call`, at the reads. -/
def call (method : String) (params : Json) : Except ErrorKind Json :=
  if method = GET then app.serve_get params
  else if method = GET_MANY then app.serve_get_many params
  else .error .MethodNotFound

end ProviderApplication

/-! ## Reading back -/

theorem coordinates_read_back (coordinates : Coordinates) :
    Coordinates.deserialize coordinates.serialize = some coordinates := by
  obtain ⟨i, f, v, s, version⟩ := coordinates
  cases f <;> cases v <;> cases s <;> cases version <;> rfl

theorem address_read_back (address : Address) : Address.deserialize address.serialize = some address := by
  cases address with
  | Convention p pr key => rfl
  | Native c => exact congrArg (Option.map Address.Native) (coordinates_read_back c)

theorem address_params_read_back (address : Address) : AddressParams.deserialize (address_params address) = some address :=
  address_read_back address

theorem request_read_back (request : NamedRequest) : NamedRequest.deserialize request.serialize = some request := by
  show (do some (NamedRequest.mk (← some request.name) (← Address.deserialize request.address.serialize))) = _
  rw [address_read_back]
  rfl

theorem mapM_read_back {α β : Type} {write : α → β} {read : β → Option α} (h : ∀ a, read (write a) = some a) (values : List α) :
    (values.map write).mapM read = some values := by
  induction values with
  | nil => rfl
  | cons value values ih => rw [List.map_cons, List.mapM_cons, h, ih]; rfl

theorem params_read_back (params : GetManyParams) : GetManyParams.deserialize params.serialize = some params := by
  show (((params.requests.map NamedRequest.serialize).mapM NamedRequest.deserialize).map GetManyParams.mk) = _
  rw [mapM_read_back request_read_back]
  rfl

/-- An expiry that JSON carries exactly. -/
def GetResult.carried : GetResult → Bool
  | .Found _ expires_at_unix_ms _ => expires_at_unix_ms.all fun expires_at => expires_at.toNat ≤ MAX_SAFE_INTEGER
  | .Missing => true

theorem new_token (revision : Revision) : Revision.new revision.token = some revision := by
  rw [Revision.new, dif_pos revision.valid]

theorem revision_read_back (revision : Option Revision) :
    defaulted none (nullable revision_value) ((optional_text "revision" (revision.map Revision.token)).lookup "revision") = some revision := by
  cases revision with
  | none => rfl
  | some revision => exact congrArg (Option.map some) (new_token revision)

theorem expiry_read_back {expires_at_unix_ms : Option UInt64}
    (h : (expires_at_unix_ms.all fun e => e.toNat ≤ MAX_SAFE_INTEGER)) :
    ∃ value, serialize_optional (expires_at_unix_ms.map UInt64.toNat) = .ok value ∧ u64_expiry value = some expires_at_unix_ms := by
  cases expires_at_unix_ms with
  | none => exact ⟨_, rfl, rfl⟩
  | some e =>
    have hb : e.toNat ≤ MAX_SAFE_INTEGER := by simpa using h
    have hn : ¬ e.toNat > MAX_SAFE_INTEGER := by omega
    refine ⟨.int e.toNat, if_neg hn, ?_⟩
    simp [u64_expiry, optional_integer, nullable, u64, hb, Option.filter]

theorem found_read_back {members : List (String × Json)} {value : String} {expires_at_unix_ms : Option UInt64} {revision : Option Revision}
    (hv : members.lookup "value" = some (.str value))
    (he : (members.lookup "expires_at_unix_ms").bind u64_expiry = some expires_at_unix_ms)
    (hr : defaulted none (nullable revision_value) (members.lookup "revision") = some revision) :
    found_deserialize members = some (.Found value expires_at_unix_ms revision) := by
  rw [found_deserialize, hv, he, hr]
  rfl

/-- The result is written when its expiry can be, and then read back, alone or with a name. -/
theorem result_members (result : GetResult) :
    (result.carried ∧ ∃ members, result.members = .ok members ∧ GetResult.deserialize (.obj members) = some result ∧
      ∀ name, NamedGetResult.deserialize (.obj (("name", .str name) :: members)) = some ⟨name, result⟩) ∨
    (result.carried = false ∧ ∃ failure, result.members = .error failure) := by
  cases result with
  | Missing => exact .inl ⟨rfl, _, rfl, rfl, fun name => rfl⟩
  | Found value expires_at_unix_ms revision =>
    cases hc : (GetResult.Found value expires_at_unix_ms revision).carried with
    | true =>
      obtain ⟨expiry, hw, hr⟩ := expiry_read_back hc
      refine .inl ⟨rfl, ("status", .str "found") :: ("value", .str value) :: ("expires_at_unix_ms", expiry) ::
        optional_text "revision" (revision.map Revision.token), ?_, ?_, fun name => ?_⟩
      · simp only [GetResult.members, found_members, hw, bind, Except.bind, Except.map]
      · show found_deserialize _ = _
        exact found_read_back rfl hr (revision_read_back revision)
      · have hf : found_deserialize (("name", .str name) :: ("status", .str "found") :: ("value", .str value) ::
            ("expires_at_unix_ms", expiry) :: optional_text "revision" (revision.map Revision.token)) =
              some (.Found value expires_at_unix_ms revision) :=
          found_read_back rfl hr (revision_read_back revision)
        simp [NamedGetResult.deserialize, hf, has_text, string, List.lookup_cons]
    | false =>
      refine .inr ⟨rfl, ?_⟩
      cases expires_at_unix_ms with
      | none => cases hc
      | some expires_at =>
        have hb : expires_at.toNat > MAX_SAFE_INTEGER := by
          simpa [GetResult.carried] using hc
        have hrf : serialize_optional ((some expires_at).map UInt64.toNat) =
            .error (.Data "JSON integer exceeds the version 1 safe range") := if_pos hb
        exact ⟨.Data "JSON integer exceeds the version 1 safe range", by
          simp only [GetResult.members, found_members, hrf, bind, Except.bind, Except.map]⟩

/-- A batch is read back, when every expiry can be written. -/
theorem results_read_back (results : List NamedGetResult) :
    ((results.all fun result => result.outcome.carried) ∧ ∃ value, GetManyResult.serialize ⟨results⟩ = .ok value ∧
      GetManyResult.deserialize value = some ⟨results⟩) ∨
    ((results.all fun result => result.outcome.carried) = false ∧ ∃ failure, GetManyResult.serialize ⟨results⟩ = .error failure) := by
  have hi : ((results.all fun result => result.outcome.carried) ∧ ∃ items,
      results.mapM NamedGetResult.serialize = .ok items ∧ items.mapM NamedGetResult.deserialize = some results) ∨
      ((results.all fun result => result.outcome.carried) = false ∧ ∃ failure, results.mapM NamedGetResult.serialize = .error failure) := by
    induction results with
    | nil => exact .inl ⟨rfl, [], rfl, rfl⟩
    | cons result results ih =>
      obtain ⟨name, outcome⟩ := result
      rcases result_members outcome with ⟨hc, members, hm, -, hr⟩ | ⟨hc, failure, hm⟩
      · have hw : NamedGetResult.serialize ⟨name, outcome⟩ = .ok (.obj (("name", .str name) :: members)) := by
          rw [NamedGetResult.serialize, hm]
          rfl
        rcases ih with ⟨ha, items, hi, hb⟩ | ⟨ha, failure, hi⟩
        · refine .inl ⟨by rw [List.all_cons, hc, ha]; rfl, .obj (("name", .str name) :: members) :: items, ?_, ?_⟩
          · rw [List.mapM_cons, hw, hi]
            rfl
          · rw [List.mapM_cons, hr, hb]
            rfl
        · refine .inr ⟨by rw [List.all_cons, hc, ha]; rfl, failure, ?_⟩
          rw [List.mapM_cons, hw, hi]
          rfl
      · refine .inr ⟨by rw [List.all_cons, hc]; rfl, failure, ?_⟩
        have hw : NamedGetResult.serialize ⟨name, outcome⟩ = .error failure := by
          rw [NamedGetResult.serialize, hm]
          rfl
        rw [List.mapM_cons, hw]
        rfl
  rcases hi with ⟨ha, items, hw, hb⟩ | ⟨ha, failure, hw⟩
  · refine .inl ⟨ha, .obj [("results", .arr items)], ?_, ?_⟩
    · simp only [GetManyResult.serialize, hw, bind, Except.bind]
    · show ((items.mapM NamedGetResult.deserialize).map GetManyResult.mk) = _
      rw [hb]
      rfl
  · refine .inr ⟨ha, failure, ?_⟩
    simp only [GetManyResult.serialize, hw, bind, Except.bind]

theorem names_differ_iff {r : List NamedGetResult} {expected : List String} :
    names_differ r expected = false ↔ r.map NamedGetResult.name = expected := by
  unfold names_differ
  induction r generalizing expected with
  | nil => cases expected <;> simp
  | cons rs r ih =>
    cases expected with
    | nil => simp
    | cons n expected =>
      rw [List.map_cons, List.cons.injEq, ← ih]
      simp only [List.length_cons, List.zip_cons_cons, List.any_cons, Bool.or_eq_false_iff, bne_eq_false_iff_eq,
        Nat.add_right_cancel_iff]
      tauto

/-! ## What is served -/

theorem nonempty_bytes_ok {l value : String} {max : Nat} :
    validate_nonempty_bytes l value max = .ok () ↔ value ≠ "" ∧ value.utf8ByteSize ≤ max := by
  unfold validate_nonempty_bytes
  split_ifs with h
  · refine iff_of_false nofun fun hv => ?_
    rcases h with h | h
    · exact hv.1 (String.isEmpty_iff.mp h)
    · omega
  · rw [not_or] at h
    exact iff_of_true rfl ⟨fun hv => h.1 (String.isEmpty_iff.mpr hv), by omega⟩

theorem validate_requests_ok {names : List String} {rq : List NamedRequest} :
    validate_requests names rq = .ok () ↔
      (∀ r ∈ rq, (r.name ≠ "" ∧ r.name.utf8ByteSize ≤ 4096) ∧ r.name ∉ names ∧
        r.address.validate = .ok ()) ∧ (rq.map NamedRequest.name).Nodup := by
  induction rq generalizing names with
  | nil => exact iff_of_true rfl ⟨nofun, List.nodup_nil⟩
  | cons r rq ih =>
    have hs : new_name names r.name = .ok () ↔ r.name ∉ names := by
      unfold new_name
      split_ifs with h <;> simpa using h
    rw [validate_requests, Except.bind_unit_eq_ok, Except.bind_unit_eq_ok, Except.bind_unit_eq_ok, nonempty_bytes_ok, hs, ih,
      List.forall_mem_cons, List.map_cons, List.nodup_cons]
    simp only [List.mem_cons, not_or, List.mem_map, not_exists, not_and]
    constructor
    · rintro ⟨hn, hw, ha, hr, hd⟩
      exact ⟨⟨⟨hn, hw, ha⟩, fun other ho => ⟨(hr other ho).1, (hr other ho).2.1.2, (hr other ho).2.2⟩⟩,
        fun other ho => (hr other ho).2.1.1, hd⟩
    · rintro ⟨⟨⟨hn, hw, ha⟩, hr⟩, hp, hd⟩
      exact ⟨hn, hw, ha, fun other ho =>
        ⟨(hr other ho).1, ⟨hp other ho, (hr other ho).2.1⟩, (hr other ho).2.2⟩, hd⟩

namespace ProviderApplication

variable (app : ProviderApplication)

def answer (request : NamedRequest) : Except ErrorKind NamedGetResult :=
  (app.handler.get request.address).map fun found => ⟨request.name, get_result found⟩

/-- The handler answers a batch as it answers the requests one by one; which error it gives is
    its own. -/
def RequestByRequest : Prop :=
  ∀ params result, app.handler.get_many params = .ok result ↔ params.requests.mapM app.answer = .ok result.results

/-- What no read of the address can go through for: it is not valid, not supported, or the
    handler's answer is an error or cannot be written. -/
def refuses (address : Address) : Bool :=
  !address.validate.isOk || !app.supports_coordinates address ||
    match app.handler.get address with
    | .error _ => true
    | .ok found => !(get_result found).carried

variable {app} {address : Address}

theorem invalid_params_ok {c : Except String Unit} : invalid_params c = .ok () ↔ c = .ok () := by
  cases c with
  | error m => exact iff_of_false nofun nofun
  | ok valid => exact iff_of_true rfl rfl

theorem validate_address_ok : app.validate_address address = .ok () ↔
    address.validate = .ok () ∧ app.supports_coordinates address := by
  rw [validate_address, Except.bind_unit_eq_ok, invalid_params_ok]
  refine and_congr_right fun _ => ?_
  split_ifs with h <;> simp [h]

theorem refuses_eq_false : app.refuses address = false ↔
    app.validate_address address = .ok () ∧ ∃ found, app.handler.get address = .ok found ∧ (get_result found).carried := by
  rw [validate_address_ok, refuses, Bool.or_eq_false_iff, Bool.or_eq_false_iff]
  have hv : (!address.validate.isOk) = false ↔ address.validate = .ok () := by
    cases address.validate with
    | error m => exact iff_of_false nofun nofun
    | ok valid => exact iff_of_true rfl rfl
  have hs : (!app.supports_coordinates address) = false ↔ app.supports_coordinates address := by
    cases app.supports_coordinates address <;> simp
  rw [hv, hs]
  refine and_congr_right fun _ => ?_
  cases app.handler.get address with
  | error k => exact iff_of_false nofun fun h => nomatch h.choose_spec.1
  | ok found => simp

/-- A single read goes through unless it is refused. -/
theorem served_get (app : ProviderApplication) (address : Address) :
    (app.refuses address = false ∧ ∃ found value, app.handler.get address = .ok found ∧
      app.serve_get (address_params address) = .ok value ∧ GetResult.deserialize value = some (get_result found)) ∨
    (app.refuses address ∧ ∃ k, app.serve_get (address_params address) = .error k) := by
  have hs : app.serve_get (address_params address) = (do
      app.validate_address address
      let found ← app.handler.get address
      encode (get_result found).serialize) := by
    rw [serve_get, address_params_read_back]
    rfl
  rw [hs]
  cases hr : app.refuses address with
  | false =>
    obtain ⟨hv, found, hf, hc⟩ := refuses_eq_false.mp hr
    rcases result_members (get_result found) with ⟨-, m, hm, hd, -⟩ | ⟨hn, -⟩
    · refine .inl ⟨rfl, found, .obj m, hf, ?_, hd⟩
      simp only [hv, hf, GetResult.serialize, hm, bind, Except.bind]
      rfl
    · rw [hc] at hn
      cases hn
  | true =>
    refine .inr ⟨rfl, ?_⟩
    cases hv : app.validate_address address with
    | error k => exact ⟨k, rfl⟩
    | ok valid =>
      cases hf : app.handler.get address with
      | error k => exact ⟨k, rfl⟩
      | ok found =>
        rcases result_members (get_result found) with ⟨hc, -⟩ | ⟨-, f, hm⟩
        · rw [refuses_eq_false.mpr ⟨hv, found, hf, hc⟩] at hr
          cases hr
        · refine ⟨.Internal, ?_⟩
          simp only [GetResult.serialize, hm, bind, Except.bind]
          rfl

theorem answer_ok {r : NamedRequest} {rs : NamedGetResult} (h : app.answer r = .ok rs) :
    rs.name = r.name ∧ ∃ found, app.handler.get r.address = .ok found ∧ rs.outcome = get_result found := by
  obtain ⟨found, hf, rfl⟩ := Except.map_eq_ok.mp h
  exact ⟨rfl, found, hf, rfl⟩

/-- A result that no request is refused for is written. -/
theorem answer_carried {r : NamedRequest} {rs : NamedGetResult} (h : app.answer r = .ok rs)
    (hv : app.validate_address r.address = .ok ()) : rs.outcome.carried = !app.refuses r.address := by
  obtain ⟨-, found, hf, ho⟩ := answer_ok h
  cases hc : rs.outcome.carried with
  | true => rw [refuses_eq_false.mpr ⟨hv, found, hf, ho ▸ hc⟩]; rfl
  | false =>
    cases hr : app.refuses r.address with
    | true => rfl
    | false =>
      obtain ⟨-, other, hoh, hs⟩ := refuses_eq_false.mp hr
      rw [hf] at hoh
      rw [ho, Except.ok.inj hoh, hs] at hc
      cases hc

/-- A batch goes through when it is valid and none of its addresses is refused. -/
theorem served_get_many (h : app.RequestByRequest) (r : List NamedRequest) :
    (GetManyParams.validate ⟨r⟩ = .ok () ∧ (∀ rq ∈ r, app.refuses rq.address = false) ∧
      ∃ results value, r.mapM app.answer = .ok results ∧
        app.serve_get_many (GetManyParams.serialize ⟨r⟩) = .ok value ∧
        GetManyResult.deserialize value = some ⟨results⟩) ∨
    (¬ (GetManyParams.validate ⟨r⟩ = .ok () ∧ ∀ rq ∈ r, app.refuses rq.address = false) ∧
      ∃ k, app.serve_get_many (GetManyParams.serialize ⟨r⟩) = .error k) := by
  have hs : app.serve_get_many (GetManyParams.serialize ⟨r⟩) = (do
      invalid_params (GetManyParams.validate ⟨r⟩)
      r.forM fun rq => app.validate_address rq.address
      let rs ← app.handler.get_many ⟨r⟩
      if names_differ rs.results (r.map NamedRequest.name) then .error .OperationFailed
      else encode rs.serialize) := by
    rw [serve_get_many, params_read_back]
    rfl
  rw [hs]
  cases hv : invalid_params (GetManyParams.validate ⟨r⟩) with
  | error k =>
    refine .inr ⟨fun hand => ?_, k, rfl⟩
    rw [invalid_params_ok.mpr hand.1] at hv
    cases hv
  | ok valid =>
    have hv := invalid_params_ok.mp hv
    cases hr : r.forM fun rq => app.validate_address rq.address with
    | error k =>
      refine .inr ⟨fun hand => ?_, k, rfl⟩
      rw [Except.forM_ok_iff.mpr fun rq hq => (refuses_eq_false.mp (hand.2 rq hq)).1] at hr
      cases hr
    | ok checked =>
      have hr := Except.forM_ok_iff.mp hr
      cases hrs : app.handler.get_many ⟨r⟩ with
      | error k =>
        refine .inr ⟨fun hand => ?_, k, rfl⟩
        obtain ⟨results, hl⟩ : ∃ results, r.mapM app.answer = .ok results := by
          refine Except.mapM_ok_of fun rq hq => ?_
          obtain ⟨-, found, hf, -⟩ := refuses_eq_false.mp (hand.2 rq hq)
          exact ⟨⟨rq.name, get_result found⟩, by rw [answer, hf]; rfl⟩
        rw [(h ⟨r⟩ ⟨results⟩).mpr hl] at hrs
        cases hrs
      | ok rs =>
        have hn := (h ⟨r⟩ rs).mp hrs
        have hm : names_differ rs.results (r.map NamedRequest.name) = false :=
          names_differ_iff.mpr (Except.mapM_ok_keys (fun rq rs ha => (answer_ok ha).1) hn)
        rcases results_read_back rs.results with ⟨hc, value, hw, hd⟩ | ⟨hc, f, hw⟩
        · refine .inl ⟨hv, fun rq hq => ?_, rs.results, value, hn, ?_, hd⟩
          · obtain ⟨answered, hmm, ha⟩ := Except.mapM_mem_ok hn hq
            have ho := List.all_eq_true.mp hc answered hmm
            rw [answer_carried ha (hr rq hq)] at ho
            simpa using ho
          · simp only [bind, Except.bind, hm]
            rw [if_neg Bool.false_ne_true, hw]
            rfl
        · refine .inr ⟨fun hand => ?_, .Internal, ?_⟩
          · obtain ⟨answered, hmm, ht⟩ := List.all_eq_false.mp hc
            obtain ⟨rq, hq, ha⟩ := Except.mapM_ok_mem hn hmm
            rw [answer_carried ha (hr rq hq), hand.2 rq hq] at ht
            exact ht rfl
          · simp only [bind, Except.bind, hm]
            rw [if_neg Bool.false_ne_true, hw]
            rfl

end ProviderApplication

end Monosecret.Rpc.provider
