/-
  Monosecret.Providers.ExternalBatch — batches of an external provider against its single
  reads (`get_with_metadata` and `get_many_with_metadata` of `ExternalProvider` in
  `monosecret/src/provider/external.rs`).

  The session is one endpoint that answers; requests and responses travel as frames of
  bounded size. An endpoint without `provider.get_many` is read request by request.
  `batches_agree_iff`: where no frame is too large, the batch is what the single reads are
  exactly when it is not longer than a request may be, some name is not longer, or a single
  read fails. A batch of 1025 names is refused, each of which reads (`long_batch`).
-/

import Monosecret.Cache.Envelope
import Monosecret.Providers.GetEach
import Monosecret.Rpc.Provider

namespace Monosecret.Providers.ExternalBatch

open Lib Rpc.provider
open Rpc (ErrorKind)
open Cache (SecretBytes utf8)

structure ProviderValue where
  value : SecretBytes
  expires_at_unix_ms : Option UInt64
  revision : Option Revision
  deriving DecidableEq

/-- What a call fails with. -/
inductive CallError
  | Unsupported (method : String)
  | MessageTooLarge
  | Remote (kind : ErrorKind)
  | Decode
  | Discovery (message : String)
  deriving DecidableEq

/-- A session with an endpoint, and the sizes of the frames that carry a request or a result. -/
structure ProviderSession where
  capabilities : List String
  accepted : Rpc.provider.validate_capabilities capabilities = .ok ()
  app : ProviderApplication
  request_bytes : String → Json → Nat
  response_bytes : Json → Nat
  max_frame_bytes : Nat

variable (session : ProviderSession)

def supports (method : String) : Bool := session.capabilities.contains method

def exchange (method : String) (params : Json) : Except CallError Json :=
  if session.max_frame_bytes < session.request_bytes method params then .error .MessageTooLarge
  else
    match session.app.call method params with
    | .error kind => .error (.Remote kind)
    | .ok result => if session.max_frame_bytes < session.response_bytes result then .error .MessageTooLarge else .ok result

def decoded {α : Type} : Option α → Except CallError α
  | some value => .ok value
  | none => .error .Decode

/-- `ExternalProvider::call`. -/
def call {α : Type} (method : String) (params : Json) (deserialize : Json → Option α) : Except CallError α := do
  let result ← if supports session method then exchange session method params else .error (.Unsupported method)
  decoded (deserialize result)

def provider_value : GetResult → Option ProviderValue
  | .Found value expires_at_unix_ms revision => some ⟨utf8 value, expires_at_unix_ms, revision⟩
  | .Missing => none

def get_with_metadata (address : Rpc.provider.Address) : Except CallError (Option ProviderValue) :=
  (call session GET (address_params address) GetResult.deserialize).map provider_value

/-- The results under their names. -/
def collect (results : List NamedGetResult) : Map String ProviderValue :=
  results.foldl (fun values item => values.insert_option item.name (provider_value item.outcome)) .empty

def named_request (request : String × Rpc.provider.Address) : NamedRequest := ⟨request.1, request.2⟩

def get_many_params (requests : List (String × Rpc.provider.Address)) : GetManyParams := ⟨requests.map named_request⟩

def get_many_with_metadata (hash : HashOrder (Rpc.provider.Address × List String)) (requests : List (String × Rpc.provider.Address)) :
    Except CallError (Map String ProviderValue) :=
  if !supports session GET_MANY then get_each_with hash requests (get_with_metadata session)
  else do
    let result ← call session GET_MANY (get_many_params requests).serialize GetManyResult.deserialize
    if names_differ result.results (requests.map Prod.fst) then
      .error (.Discovery "provider batch response did not preserve request names")
    else .ok (collect result.results)

/-! ## Frames that fit -/

/-- The frames of a call are within the bound. -/
def Fits (method : String) (params : Json) : Prop :=
  session.request_bytes method params ≤ session.max_frame_bytes ∧
    ∀ result, session.app.call method params = .ok result → session.response_bytes result ≤ session.max_frame_bytes

/-- No frame of the batch or of its single reads is too large. -/
def AllFit (requests : List (String × Rpc.provider.Address)) : Prop :=
  (supports session GET_MANY = true → Fits session GET_MANY (get_many_params requests).serialize) ∧
    ∀ request ∈ requests, Fits session GET (address_params request.2)

variable {session}

theorem exchange_fits {m : String} {p : Json} (h : Fits session m p) :
    exchange session m p = (session.app.call m p).mapError .Remote := by
  obtain ⟨hr, hs⟩ := h
  rw [exchange, if_neg (by omega)]
  cases hc : session.app.call m p with
  | error k => rfl
  | ok r =>
    have hf := hs r hc
    show (if session.max_frame_bytes < session.response_bytes r then _ else _) = _
    rw [if_neg (by omega)]
    rfl

theorem call_fits {α : Type} {m : String} {p : Json} {d : Json → Option α} (h : Fits session m p)
    (hs : supports session m) :
    call session m p d = (do
      let result ← (session.app.call m p).mapError .Remote
      decoded (d result)) := by
  rw [call, if_pos hs, exchange_fits h]

/-- An endpoint with batches has single reads. -/
theorem supports_get (h : supports session GET_MANY) : supports session GET := by
  have ha := session.accepted
  unfold supports at h ⊢
  unfold Rpc.provider.validate_capabilities at ha
  have hn := Except.check_ok ha
  simp only [h, Bool.true_and, Bool.or_eq_true, not_or] at hn
  simpa using hn.1.2

/-- A single read goes through unless the endpoint refuses it. -/
theorem read_one (h : supports session GET) {a : Rpc.provider.Address} (hf : Fits session GET (address_params a)) :
    (session.app.refuses a = false ∧ ∃ found, session.app.handler.get a = .ok found ∧
      get_with_metadata session a = .ok (provider_value (ProviderApplication.get_result found))) ∨
    (session.app.refuses a ∧ ∃ error, get_with_metadata session a = .error error) := by
  have hc : session.app.call GET (address_params a) = session.app.serve_get (address_params a) := if_pos rfl
  rcases session.app.served_get a with ⟨hr, found, value, hn, hs, hd⟩ | ⟨hr, k, hs⟩
  · refine .inl ⟨hr, found, hn, ?_⟩
    rw [get_with_metadata, call_fits hf h, hc, hs]
    show (decoded (GetResult.deserialize value)).map provider_value = _
    rw [hd]
    rfl
  · refine .inr ⟨hr, .Remote k, ?_⟩
    rw [get_with_metadata, call_fits hf h, hc, hs]
    rfl

/-! ## Collecting -/

theorem collect_into (rs : List NamedGetResult) (hd : (rs.map NamedGetResult.name).Nodup) (values : Map String ProviderValue)
    (hn : ∀ r ∈ rs, values r.name = none) :
    (∀ r ∈ rs, rs.foldl (fun values i => values.insert_option i.name (provider_value i.outcome)) values
      r.name = provider_value r.outcome) ∧
    ∀ name, name ∉ rs.map NamedGetResult.name →
      rs.foldl (fun values i => values.insert_option i.name (provider_value i.outcome)) values name = values name := by
  induction rs generalizing values with
  | nil => exact ⟨nofun, fun _ _ => rfl⟩
  | cons first rs ih =>
    rw [List.map_cons, List.nodup_cons] at hd
    have ha : ∀ r ∈ rs, r.name ≠ first.name :=
      fun r hr he => hd.1 (he ▸ List.mem_map_of_mem hr)
    obtain ⟨hi, ho⟩ := ih hd.2 (values.insert_option first.name (provider_value first.outcome)) fun r hr => by
      rw [Map.insert_option_of_ne (ha r hr)]
      exact hn r (.tail _ hr)
    constructor
    · intro r hr
      rcases List.mem_cons.mp hr with rfl | hr
      · rw [List.foldl_cons, ho _ hd.1, Map.insert_option_self, hn _ (.head _), Option.or_none]
      · exact hi r hr
    · intro name hm
      rw [List.map_cons, List.mem_cons, not_or] at hm
      rw [List.foldl_cons, ho _ hm.2, Map.insert_option_of_ne hm.1]

theorem collect_values {r : List NamedGetResult} (hd : (r.map NamedGetResult.name).Nodup) :
    (∀ rs ∈ r, collect r rs.name = provider_value rs.outcome) ∧
      ∀ n, n ∉ r.map NamedGetResult.name → collect r n = none :=
  collect_into r hd .empty fun _ _ => rfl

/-! ## Batches -/

section

variable {requests : List (String × Rpc.provider.Address)}

theorem request_names : (requests.map named_request).map NamedRequest.name = requests.map Prod.fst := by
  rw [List.map_map]
  rfl

/-- The bounds on a request for a batch. -/
def Bounded (requests : List (String × Rpc.provider.Address)) : Prop :=
  requests.length ≤ 1024 ∧ ∀ request ∈ requests, request.1.utf8ByteSize ≤ 4096

theorem validate_ok (hd : (requests.map Prod.fst).Nodup) (hn : ∀ r ∈ requests, r.1 ≠ "") :
    (get_many_params requests).validate = .ok () ↔ Bounded requests ∧ ∀ r ∈ requests, r.2.validate = .ok () := by
  unfold GetManyParams.validate get_many_params Bounded
  rw [List.length_map]
  by_cases hl : requests.length > 1024
  · rw [if_pos hl]
    exact iff_of_false nofun fun h => by omega
  · rw [if_neg hl, validate_requests_ok, request_names, List.forall_mem_map]
    constructor
    · rintro ⟨h, -⟩
      exact ⟨⟨by omega, fun r hr => (h r hr).1.2⟩, fun r hr => (h r hr).2.2⟩
    · rintro ⟨⟨-, hs⟩, ha⟩
      exact ⟨fun r hr =>
        ⟨⟨hn r hr, hs r hr⟩, List.not_mem_nil, ha r hr⟩, hd⟩

/-- A batch the endpoint serves goes through when it is within the bounds and no single read is
    refused. -/
theorem read_many (h : supports session GET_MANY) (hone_by_one : session.app.RequestByRequest)
    (hash : HashOrder (Rpc.provider.Address × List String)) (hd : (requests.map Prod.fst).Nodup)
    (hn : ∀ request ∈ requests, request.1 ≠ "") (hf : AllFit session requests) :
    ((Bounded requests ∧ ∀ request ∈ requests, session.app.refuses request.2 = false) ∧
      ∃ values, get_many_with_metadata session hash requests = .ok values ∧
        (∀ request ∈ requests, get_with_metadata session request.2 = .ok (values request.1)) ∧
          ∀ name, name ∉ requests.map Prod.fst → values name = none) ∨
    (¬ (Bounded requests ∧ ∀ request ∈ requests, session.app.refuses request.2 = false) ∧
      ∃ error, get_many_with_metadata session hash requests = .error error) := by
  have hc (params : Json) : session.app.call GET_MANY params = session.app.serve_get_many params := by
    rw [ProviderApplication.call, if_neg (by decide), if_pos rfl]
  have hm : get_many_with_metadata session hash requests = _ := if_neg (by rw [h]; decide)
  have hr : (∀ request ∈ requests.map named_request, session.app.refuses request.address = false) ↔
      ∀ request ∈ requests, session.app.refuses request.2 = false := List.forall_mem_map
  rcases ProviderApplication.served_get_many hone_by_one (requests.map named_request) with
    ⟨hv, hs, results, value, ha, hsv, hrd⟩ | ⟨ht, kind, hsv⟩
  · have hs := hr.mp hs
    have hnm : results.map NamedGetResult.name = requests.map Prod.fst := by
      rw [← request_names]
      exact Except.mapM_ok_keys (fun request result han => (ProviderApplication.answer_ok han).1) ha
    refine .inl ⟨⟨((validate_ok hd hn).mp hv).1, hs⟩, collect results, ?_, ?_, ?_⟩
    · rw [hm, call_fits (hf.1 h) h, hc, get_many_params, hsv]
      show (do
        let result ← decoded (GetManyResult.deserialize value)
        if names_differ result.results (requests.map Prod.fst) then
          .error (.Discovery "provider batch response did not preserve request names")
        else .ok (collect result.results)) = _
      rw [hrd]
      show (if names_differ results (requests.map Prod.fst) then _ else _) = _
      rw [names_differ_iff.mpr hnm]
      rfl
    · intro request hq
      obtain ⟨result, hmm, han⟩ := Except.mapM_mem_ok ha (List.mem_map_of_mem hq)
      obtain ⟨hna, found, hfn, ho⟩ := ProviderApplication.answer_ok han
      rcases read_one (supports_get h) (hf.2 request hq) with ⟨-, other, hoh, hva⟩ | ⟨hrs, -⟩
      · have hsm : found = other := Except.ok.inj (hfn.symm.trans hoh)
        have hl := (collect_values (hnm ▸ hd)).1 result hmm
        rw [hna, ho, hsm] at hl
        rw [hva, show request.1 = (named_request request).name from rfl, hl]
      · rw [hs request hq] at hrs
        cases hrs
    · exact fun name hna => (collect_values (hnm ▸ hd)).2 name (hnm ▸ hna)
  · refine .inr ⟨fun hand => ht ⟨(validate_ok hd hn).mpr ⟨hand.1, fun request hq => ?_⟩, hr.mpr hand.2⟩,
      .Remote kind, ?_⟩
    · exact (ProviderApplication.validate_address_ok.mp (ProviderApplication.refuses_eq_false.mp (hand.2 request hq)).1).1
    · rw [hm, call_fits (hf.1 h) h, hc, get_many_params, hsv]
      rfl

/-- The batch is what the single reads are, unless it is longer than one request may be, or a
    name is, while every single read goes through. -/
theorem batches_agree_iff (session : ProviderSession) (hash : HashOrder (Rpc.provider.Address × List String)) (requests : List (String × Rpc.provider.Address))
    (hone_by_one : session.app.RequestByRequest) (hdistinct : (requests.map Prod.fst).Nodup)
    (hnamed : ∀ request ∈ requests, request.1 ≠ "") (hfits : AllFit session requests) :
    Agrees requests (get_with_metadata session) (get_many_with_metadata session hash requests) ↔
      supports session GET_MANY = false ∨
        (requests.length ≤ 1024 ∧ ∀ request ∈ requests, request.1.utf8ByteSize ≤ 4096) ∨
          ∃ request ∈ requests, session.app.refuses request.2 = true := by
  cases h : supports session GET_MANY with
  | false =>
    refine iff_of_true ?_ (.inl rfl)
    rw [get_many_with_metadata, h]
    exact get_each_agrees hash hdistinct (get_with_metadata session)
  | true =>
    have hs : (∀ request ∈ requests, ∃ found, get_with_metadata session request.2 = .ok found) ↔
        ∀ request ∈ requests, session.app.refuses request.2 = false := by
      refine forall₂_congr fun request hr => ?_
      rcases read_one (supports_get h) (hfits.2 request hr) with ⟨hf, found, -, hv⟩ | ⟨hf, error, he⟩
      · exact iff_of_true ⟨_, hv⟩ hf
      · refine iff_of_false (fun ⟨found, hn⟩ => ?_) (by rw [hf]; decide)
        rw [he] at hn
        cases hn
    have hm : (∃ request ∈ requests, session.app.refuses request.2) ↔
        ¬ ∀ request ∈ requests, session.app.refuses request.2 = false := by simp
    rw [hm]
    rcases read_many h hone_by_one hash hdistinct hnamed hfits with ⟨⟨hb, hsr⟩, v, hl, hi, ho⟩ | ⟨ht, error, he⟩
    · refine iff_of_true ⟨iff_of_true ⟨v, hl⟩ (hs.mpr hsr), fun other hoh => ?_⟩ (.inr (.inl hb))
      rw [hl] at hoh
      rw [← Except.ok.inj hoh]
      exact ⟨hi, ho⟩
    · constructor
      · intro ha
        by_cases hsr : ∀ request ∈ requests, session.app.refuses request.2 = false
        · obtain ⟨v, hl⟩ := ha.succeeds.mpr (hs.mpr hsr)
          rw [he] at hl
          cases hl
        · exact .inr (.inr hsr)
      · rintro (hfl | hb | hf)
        · cases hfl
        · refine ⟨iff_of_false (fun ⟨v, hl⟩ => ?_) fun hal => ht ⟨hb, hs.mp hal⟩, fun v hl => ?_⟩
          · rw [he] at hl
            cases hl
          · rw [he] at hl
            cases hl
        · refine ⟨iff_of_false (fun ⟨v, hl⟩ => ?_) fun hal => hf (hs.mp hal), fun v hl => ?_⟩
          · rw [he] at hl
            cases hl
          · rw [he] at hl
            cases hl

end

/-! ## An endpoint -/

/-- Every address holds the same value. -/
def echo_app : ProviderApplication where
  handler :=
    { get := fun _ => .ok (some ⟨"value", none, none⟩)
      get_many := fun params => .ok ⟨params.requests.map fun request => ⟨request.name, .Found "value" none none⟩⟩ }
  supported_coordinates := []

theorem echo_one_by_one : echo_app.RequestByRequest := by
  intro p rs
  obtain ⟨requests⟩ := p
  obtain ⟨rl⟩ := rs
  have ha : requests.mapM echo_app.answer = .ok (requests.map fun r => ⟨r.name, .Found "value" none none⟩) := by
    induction requests with
    | nil => rfl
    | cons r requests ih => rw [List.mapM_cons, ih]; rfl
  rw [ha]
  simp [echo_app]

/-- Bytes enough for frames whose names have few letters. -/
def frame_bytes : Json → Nat
  | .obj [(_, .arr items)] => 200 + 100 * items.length
  | _ => 200

theorem batch_bytes (requests : List (String × Rpc.provider.Address)) :
    frame_bytes (get_many_params requests).serialize = 200 + 100 * requests.length := by
  rw [GetManyParams.serialize, frame_bytes, get_many_params, List.length_map, List.length_map]

def echo : ProviderSession where
  capabilities := [RESOLVE_ADDRESS, GET, GET_MANY]
  accepted := rfl
  app := echo_app
  request_bytes _ := frame_bytes
  response_bytes := frame_bytes
  max_frame_bytes := Rpc.ABSOLUTE_MAX_FRAME_BYTES

theorem echo_request_fits {requests : List (String × Rpc.provider.Address)} (h : requests.length ≤ 2048) :
    echo.request_bytes GET_MANY (get_many_params requests).serialize ≤ echo.max_frame_bytes := by
  show frame_bytes (get_many_params requests).serialize ≤ Rpc.ABSOLUTE_MAX_FRAME_BYTES
  rw [batch_bytes, Rpc.ABSOLUTE_MAX_FRAME_BYTES]
  omega

def token : Rpc.provider.Address := .Convention "app" "default" "TOKEN"

def in_order : HashOrder (Rpc.provider.Address × List String) := ⟨id, fun _ => .refl _⟩

theorem echo_get : echo.app.call GET (address_params token) =
    .ok (.obj [("status", .str "found"), ("value", .str "value"), ("expires_at_unix_ms", .null)]) :=
  rfl

theorem echo_fits : Fits echo GET (address_params token) := by
  refine ⟨by decide, fun r hr => ?_⟩
  rw [echo_get] at hr
  rw [← Except.ok.inj hr]
  decide

def one_request : List (String × Rpc.provider.Address) := [("TOKEN", token)]

theorem echo_get_many : echo.app.call GET_MANY (get_many_params one_request).serialize =
    .ok (.obj [("results", .arr [.obj [("name", .str "TOKEN"), ("status", .str "found"), ("value", .str "value"),
      ("expires_at_unix_ms", .null)]])]) :=
  rfl

theorem batches_agree_iff_echo :
    Agrees one_request (get_with_metadata echo) (get_many_with_metadata echo in_order one_request) := by
  refine (batches_agree_iff echo in_order one_request echo_one_by_one (by decide) (by decide)
    ⟨fun _ => ⟨by decide, fun r hr => ?_⟩, ?_⟩).mpr (.inr (.inl (by decide)))
  · rw [echo_get_many] at hr
    rw [← Except.ok.inj hr]
    decide
  · simp [one_request, echo_fits]

def many_requests : List (String × Rpc.provider.Address) := (List.range 1025).map fun n => (n.repr, token)

theorem repr_inj {m n : Nat} (h : m.repr = n.repr) : m = n := by
  have hd := congrArg (fun t => Nat.ofDigitChars 10 t.toList 0) h
  simpa only [Nat.toList_repr, Nat.ofDigitChars_toDigits (b := 10) (by decide) (by decide)] using hd

/-- One name too many for a request: each reads, and the batch is refused. -/
theorem long_batch :
    (many_requests.map Prod.fst).Nodup ∧ (∀ request ∈ many_requests, request.1 ≠ "") ∧ echo.app.RequestByRequest ∧
      AllFit echo many_requests ∧ (∀ request ∈ many_requests, ∃ found, get_with_metadata echo request.2 = .ok found) ∧
        ∃ error, get_many_with_metadata echo in_order many_requests = .error error := by
  have ha : ∀ request ∈ many_requests, request.2 = token ∧ request.1 ≠ "" := by
    intro request hr
    obtain ⟨n, -, rfl⟩ := List.mem_map.mp hr
    exact ⟨rfl, Nat.repr_ne_empty⟩
  have hd : (many_requests.map Prod.fst).Nodup := by
    rw [many_requests, List.map_map]
    exact List.nodup_range.map fun m n h => repr_inj h
  have hl : many_requests.length = 1025 := by rw [many_requests, List.length_map, List.length_range]
  have ho : ∀ request ∈ many_requests, Fits echo GET (address_params request.2) := fun request hr =>
    (ha request hr).1 ▸ echo_fits
  have hf : ∃ kind, echo.app.call GET_MANY (get_many_params many_requests).serialize = .error kind := by
    rcases ProviderApplication.served_get_many echo_one_by_one (many_requests.map named_request) with ⟨hv, -⟩ | ⟨-, kind, hs⟩
    · have hb := ((validate_ok hd fun request hr => (ha request hr).2).mp hv).1.1
      omega
    · exact ⟨kind, hs⟩
  have ht : AllFit echo many_requests := by
    obtain ⟨kind, hk⟩ := hf
    refine ⟨fun _ => ⟨?_, fun r hrs => ?_⟩, ho⟩
    · exact echo_request_fits (hl.le.trans (by decide))
    · rw [hk] at hrs
      cases hrs
  refine ⟨hd, fun request hr => (ha request hr).2, echo_one_by_one, ht, fun request hr => ?_, ?_⟩
  · rw [(ha request hr).1]
    exact ⟨_, rfl⟩
  · have hm : supports echo GET_MANY := rfl
    rcases @read_many echo many_requests hm echo_one_by_one in_order hd (fun request hr => (ha request hr).2) ht
      with ⟨⟨hb, -⟩, -⟩ | ⟨-, error, he⟩
    · exact absurd (hl ▸ hb.1) (by decide)
    · exact ⟨error, he⟩

end Monosecret.Providers.ExternalBatch
