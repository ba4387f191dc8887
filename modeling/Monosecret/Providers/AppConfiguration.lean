/-
  Monosecret.Providers.AppConfiguration — discovery in Azure App Configuration (`AacProvider` in
  `monosecret/src/provider/aac.rs`).

  One page at a time is requested from a list URL, and each page may link to the next. The
  link is joined to the list URL and compared with it. What the server replies is the event
  of a step, so any server, one that forges pages included, is a run. Sending a request adds
  its URL to `sent`, whatever comes back.

  A URL is `Kept` when it is the list URL up to its `after` parameters, and a link is `quiet`
  when it is refused or names no user information but the endpoint's.

  Proved, for every run: no URL is requested twice, every declaration stands for a record
  received under the configured label and the discovery prefix, and every URL requested is
  the list URL up to its `after` parameters, its user information and its fragment; over
  quiet links, from an endpoint without a fragment, it is `Kept` (`paging_confined`).

  Run: a page links to the next under a user of its own, and the request follows
  (`forged_user`).
-/

import Monosecret.Lib.Machine
import Monosecret.Lib.Whatwg
import Monosecret.Manifest.Validate

namespace Monosecret.Providers.AppConfiguration

open Lib Machine Manifest Whatwg

/-! ## Names -/

def validate_name_component (name value : String) : Except String Unit :=
  if value = "" then .error s!"{name} cannot be empty"
  else
    match value.toList.find? fun c => !c.isAlphanum && c != '_' && c != '-' with
    | some character =>
      .error (s!"{name} contains invalid character '{character}': only ASCII letters, digits, underscores, " ++
        "and hyphens are allowed")
    | none => .ok ()

def is_ascii (text : String) : Bool := text.toList.all fun c => decide (c.toNat < 128)

def validate_appconfig_key (key name : String) : Except String Unit :=
  if key = "" then .error s!"{name} cannot be empty"
  else if '%' ∈ key.toList ∨ key = "." ∨ key = ".." then
    .error (s!"{name} '{key}' is not a valid Azure App Configuration key: percent signs and whole keys '.' or '..' " ++
      "are not allowed")
  else .ok ()

def escape_filter (value : String) : String :=
  .ofList (value.toList.flatMap fun c => if c = '*' ∨ c = ',' ∨ c = '\\' then ['\\', c] else [c])

/-- `str::strip_prefix`. -/
def text_after (start text : String) : Option String :=
  if start.toList <+: text.toList then some (.ofList (text.toList.drop start.toList.length)) else none

/-- A declaration built in Rust. -/
def required (description : String) : Secret := { Secret.empty with description := some description, required := some true }

def API_VERSION : String := "2026-04-01"

/-! ## Records -/

structure KeyValue where
  key : String
  label : Option String
  content_type : Option String
  deriving DecidableEq

inductive ValueType where
  | Direct
  | KeyVaultReference
  | AzureSpecial (content_type : String)
  deriving DecidableEq

def KEY_VAULT_REFERENCE_TYPE : List Char := "application/vnd.microsoft.appconfig.keyvaultref+json".toList

def AZURE_SPECIAL_PREFIX : List Char := "application/vnd.microsoft.appconfig.".toList

def lowercase (text : List Char) : List Char := text.map Char.toLower

def trimmed (text : List Char) : List Char := Texts.trim is_whitespace text

/-- A `charset=utf-8` parameter. -/
def is_utf8_parameter (parameter : List Char) : Bool :=
  match Texts.split_once ['='] parameter with
  | some (name, value) =>
    lowercase (trimmed name) == "charset".toList && lowercase (Texts.trim (· == '"') (trimmed value)) == "utf-8".toList
  | none => false

def value_type (content_type : Option String) : ValueType :=
  match content_type.map (fun text => trimmed text.toList) with
  | none | some [] => .Direct
  | some text =>
    let parts := text.splitOn ';'
    let base := lowercase (trimmed (parts.head?.getD []))
    if base = KEY_VAULT_REFERENCE_TYPE then
      if parts.tail.any is_utf8_parameter then .KeyVaultReference else .AzureSpecial (.ofList text)
    else if AZURE_SPECIAL_PREFIX <+: base then .AzureSpecial (.ofList text)
    else .Direct

/-- A configuration that was accepted. The store's host is read from a URI, so the URL made of it may have more than a
host. -/
structure AacConfig where
  endpoint : Url
  label : Option String
  prefix_ : Option String
  tags : List (String × String)
  https : endpoint.scheme = "https"
  usable : ∀ text, prefix_ = some text → validate_appconfig_key text "prefix" = .ok ()

structure DiscoveryContext where
  project : String
  profile : String
  deriving DecidableEq

section

variable (rules : Rules) (config : AacConfig)

def is_valid_secret_name (value : String) : Bool := value != "defaults" && is_ascii value && is_valid_identifier rules value

def convention_key (project profile key : String) : Except String String := do
  validate_name_component "project" project
  validate_name_component "profile" profile
  if is_valid_secret_name rules key then
    let native := config.prefix_.getD "" ++ "monosecret:" ++ project ++ ":" ++ profile ++ ":" ++ key
    validate_appconfig_key native "convention key"
    return native
  else
    .error (s!"key '{key}' cannot become a Monosecret declaration: use an ASCII letter or underscore first, followed by " ++
      "ASCII letters, digits, or underscores, and avoid the reserved name 'defaults'")

def discovery_prefix ( context : DiscoveryContext) : Except String String := do
  let base := config.prefix_.getD "" ++ "monosecret:" ++ context.project ++ ":" ++ context.profile ++ ":"
  validate_name_component "project" context.project
  validate_name_component "profile" context.profile
  validate_appconfig_key base "discovery prefix"
  return base

/-- The query of the list URL. -/
def list_pairs (base : String) : List (String × String) :=
  [("api-version", API_VERSION), ("key", escape_filter base ++ "*"),
      ("label", escape_filter (config.label.getD "\x00"))] ++
    config.tags.map (fun (name, value) => ("tags", escape_filter name ++ "=" ++ escape_filter value)) ++
    [("$select", "key,label,content_type")]

def declaration_from_record (context : DiscoveryContext) (record : KeyValue) :
    Except String (Option (String × Secret)) :=
  if record.label ≠ config.label then
    .error s!"Azure App Configuration discovery returned key '{record.key}' from a different label"
  else do
    let base ← discovery_prefix config context
    match text_after base record.key with
    | none => .ok none
    | some key =>
      if ':' ∈ key.toList then
        .error s!"Azure App Configuration key '{record.key}' is nested inside the Monosecret discovery namespace"
      else if is_valid_secret_name rules key then
        match value_type record.content_type with
        | .Direct | .KeyVaultReference => .ok (some (key, required s!"{key} secret"))
        | .AzureSpecial content_type =>
          .error s!"Azure App Configuration key '{record.key}' uses unsupported special content type '{content_type}'"
      else .error s!"Azure App Configuration key '{record.key}' maps to invalid Monosecret name '{key}'"

/-- The records of a page, declared one after the other. -/
def declare_records (context : DiscoveryContext) : List KeyValue → Table Secret → Except String (Table Secret)
  | [], declarations => .ok declarations
  | record :: records, declarations => do
    match ← declaration_from_record rules config context record with
    | none => declare_records context records declarations
    | some (name, declaration) =>
      if name ∈ declarations then
        .error s!"Azure App Configuration discovery mapped more than one entry to '{name}'"
      else declare_records context records (declarations.insert name declaration)

end

/-! ## Pages -/

inductive Reply where
  /-- No answer, another status than OK, or a body that is no page. -/
  | Failed (error : String)
  | Page (items : List KeyValue) (next_link : Option String)

structure State where
  /-- The URL to request, none after the last page. -/
  next : Except String (Option Url)
  visited : List String
  /-- The last request first. -/
  sent : List Url
  received : List KeyValue
  declarations : Table Secret

def pair_le (a b : String × String) : Bool := decide (a.1 < b.1 ∨ a.1 = b.1 ∧ a.2 ≤ b.2)

section

variable (rules : Rules) (parts : Parts) (config : AacConfig) (context : DiscoveryContext)

def list_url : Except String Url := do
  let base ← discovery_prefix config context
  return { config.endpoint with
    path := Parts.push config.endpoint.path "kv"
    query := some (parts.append_pairs config.endpoint.query (list_pairs config base)) }

/-- The pairs of a query that are no `after` parameter. -/
def kept_pairs (url : Url) : List (String × String) :=
  (parts.query_pairs url).filter fun pair => lowercase pair.1.toList ≠ "after".toList

def scope (url : Url) : List (String × String) := (kept_pairs parts url).insertionSort fun a b => pair_le a b

def validate_continuation (initial : Url) (next_link : String) : Except String Url :=
  if (parts.parse next_link).isSome then .error "Azure App Configuration returned an absolute continuation link"
  else
    match parts.join initial next_link with
    | none => .error "Azure App Configuration returned an invalid continuation link"
    | some next =>
      if next.scheme ≠ "https" ∨ next.origin ≠ initial.origin ∨ next.path ≠ initial.path ∨ next.fragment.isSome then
        .error "Azure App Configuration continuation changed endpoint or operation"
      else if scope parts next ≠ scope parts initial then
        .error "Azure App Configuration continuation broadened discovery filters"
      else .ok next

/-- What follows a reply. -/
def receive (initial : Url) (s : State) : Reply → State
  | .Failed error => { s with next := .error error }
  | .Page items next_link =>
    let s := { s with received := s.received ++ items }
    match declare_records rules config context items s.declarations with
    | .error error => { s with next := .error error }
    | .ok declarations =>
      { s with
        declarations := declarations
        next := match next_link with
          | some link => (validate_continuation parts initial link).map some
          | none => .ok none }

def request (initial url : Url) (s : State) (reply : Reply) : State :=
  if url.text ∈ s.visited then { s with next := .error "Azure App Configuration returned a cyclic continuation link" }
  else
    let s := { s with visited := url.text :: s.visited }
    if url.scheme ≠ "https" ∨ url.origin ≠ config.endpoint.origin then
      { s with next := .error "refusing Azure App Configuration request outside configured HTTPS endpoint" }
    else receive rules parts config context initial { s with sent := url :: s.sent } reply

/-- Reflection from the list URL on. -/
def reflection (initial : Url) : Machine State Reply where
  init := ⟨.ok (some initial), [], [], [], ∅⟩
  step s reply :=
    match s.next with
    | .ok (some url) => some (request rules parts config context initial url s reply)
    | _ => none

/-! ## Confinement -/

/-- The initial URL up to its `after` parameters. -/
structure Kept (initial url : Url) : Prop where
  scheme : url.scheme = initial.scheme
  host : url.host = initial.host
  port : url.port = initial.port
  user : url.user = initial.user
  path : url.path = initial.path
  pairs : (kept_pairs parts url).Perm (kept_pairs parts initial)
  fragment : url.fragment = none

/-- The initial URL up to its `after` parameters, its user information and its fragment. -/
structure Aimed (initial url : Url) : Prop where
  origin : url.origin = initial.origin
  path : url.path = initial.path
  pairs : (kept_pairs parts url).Perm (kept_pairs parts initial)

/-- A declaration stands for a record of the configured label and the discovery prefix. -/
def Declared (s : State) : Prop :=
  ∀ name ∈ s.declarations, ∃ record ∈ s.received, record.label = config.label ∧
    ∃ base, discovery_prefix config context = .ok base ∧ record.key = base ++ name

structure Confined (initial : Url) (s : State) : Prop where
  kept : ∀ url ∈ s.sent, Kept parts initial url
  once : s.sent.Nodup
  declared : Declared config context s

/-- The list URL has no fragment, and the reply's link is refused or names no user information but the endpoint's. -/
def quiet (initial : Url) (_ : State) (reply : Reply) : Bool :=
  initial.fragment.isNone &&
    match reply with
    | .Page _ (some link) =>
      !(validate_continuation parts initial link).isOk || (named_user initial.scheme link).getD initial.user == initial.user
    | _ => true

end

/-! ## Lemmas about names -/

theorem text_after_eq_some {start tx rest : String} : text_after start tx = some rest ↔ tx = start ++ rest := by
  unfold text_after
  constructor
  · intro h
    split at h
    · rename_i hp
      obtain ⟨a, ha⟩ := hp
      have hr := Option.some.inj h
      rw [← ha, List.drop_left] at hr
      rw [← hr, ← String.toList_inj, String.toList_append, String.toList_ofList, ha]
    · cases h
  · rintro rfl
    rw [String.toList_append, if_pos (List.prefix_append _ _), List.drop_left, String.ofList_toList]

/-- What `char::is_alphabetic` and `char::is_alphanumeric` say of ASCII characters. -/
structure OnAscii (rules : Rules) : Prop where
  alphabetic : ∀ c, c.toNat < 128 → rules.is_alphabetic c = c.isAlpha
  alphanumeric : ∀ c, c.toNat < 128 → rules.is_alphanumeric c = c.isAlphanum

theorem valid_secret_name_plain {rules : Rules} (hr : OnAscii rules) {n : String} (h : is_valid_secret_name rules n) {c : Char}
    (hc : c.isAlphanum = false ∧ c ≠ '_') : c ∉ n.toList := by
  obtain ⟨h, hi⟩ := Bool.and_eq_true_iff.mp h
  have ha := List.all_eq_true.mp (Bool.and_eq_true_iff.mp h).2
  intro hm
  have hl : c.toNat < 128 := of_decide_eq_true (ha c hm)
  have hal : c.isAlpha = false := by
    have hb := hc.1
    rw [Char.isAlphanum, Bool.or_eq_false_iff] at hb
    exact hb.1
  unfold is_valid_identifier at hi
  cases hs : n.toList with
  | nil =>
    rw [hs] at hm
    cases hm
  | cons first r =>
    rw [hs] at hm
    simp only [hs, Bool.and_eq_true, Bool.or_eq_true, beq_iff_eq, List.all_eq_true] at hi
    rcases List.mem_cons.mp hm with rfl | hm
    · rcases hi.1 with ht | hu
      · rw [hr.alphabetic c hl, hal] at ht
        cases ht
      · exact hc.2 hu
    · rcases hi.2 c hm with ht | hu
      · rw [hr.alphanumeric c hl, hc.1] at ht
        cases ht
      · exact hc.2 hu

section

variable {rules : Rules} {parts : Parts} {config : AacConfig} {context : DiscoveryContext} {initial url : Url} {s t : State}

/-! ## Records declared -/

/-- What a declaration is made from, once the record's label and the discovery prefix are right. -/
theorem declaration_from_record_ok {record : KeyValue} {declared : Option (String × Secret)}
    (h : declaration_from_record rules config context record = .ok declared) :
    record.label = config.label ∧ ∃ b, discovery_prefix config context = .ok b ∧
      (∀ k, text_after b record.key = some k →
        is_valid_secret_name rules k ∧ declared = some (k, required s!"{k} secret")) ∧
      (text_after b record.key = none → declared = none) := by
  unfold declaration_from_record at h
  split at h
  · cases h
  rename_i hl
  obtain ⟨b, hb, h⟩ := Except.bind_ok h
  refine ⟨not_not.mp hl, b, hb, ?_⟩
  cases ha : text_after b record.key with
  | none =>
    simp only [ha] at h
    exact ⟨fun _ hk => (nomatch hk), fun _ => (Except.ok.inj h).symm⟩
  | some k =>
    simp only [ha] at h
    refine ⟨fun _ hk => Option.some.inj hk ▸ ?_, fun hk => (nomatch hk)⟩
    split at h
    · cases h
    · split at h
      · rename_i hv
        refine ⟨hv, ?_⟩
        split at h
        · exact (Except.ok.inj h).symm
        · exact (Except.ok.inj h).symm
        · cases h
      · cases h

/-- The names a page adds are those its records are declared under. -/
theorem declare_records_ok {r : List KeyValue} {d declared : Table Secret}
    (h : declare_records rules config context r d = .ok declared) :
    (∀ record ∈ r, ∃ found, declaration_from_record rules config context record = .ok found) ∧
      ∀ n, n ∈ declared ↔ n ∈ d ∨ ∃ record ∈ r, ∃ dc,
        declaration_from_record rules config context record = .ok (some (n, dc)) := by
  induction r generalizing d with
  | nil =>
    rw [declare_records] at h
    simp [Except.ok.inj h]
  | cons record r ih =>
    rw [declare_records] at h
    obtain ⟨found, hf, h⟩ := Except.bind_ok h
    have hr : ∃ before, declare_records rules config context r before = .ok declared ∧
        ∀ n, n ∈ before ↔ n ∈ d ∨ ∃ dc, found = some (n, dc) := by
      cases found with
      | none => exact ⟨d, h, by simp⟩
      | some e =>
        simp only at h
        split at h
        · cases h
        · refine ⟨_, h, fun n => ?_⟩
          rw [AList.mem_insert, or_comm]
          simp [Prod.ext_iff, eq_comm]
    obtain ⟨before, hb, hn⟩ := hr
    obtain ⟨ha, hd⟩ := ih hb
    refine ⟨?_, fun n => ?_⟩
    · simp only [List.mem_cons, forall_eq_or_imp]
      exact ⟨⟨found, hf⟩, ha⟩
    · rw [hd, hn, or_assoc]
      simp only [List.mem_cons, exists_eq_or_imp, hf, Except.ok.injEq]

/-! ## Steps -/

/-- A reply leaves what was requested and visited. -/
theorem receive_fixed (reply : Reply) :
    (receive rules parts config context initial s reply).sent = s.sent ∧
      (receive rules parts config context initial s reply).visited = s.visited := by
  cases reply with
  | Failed error => exact ⟨rfl, rfl⟩
  | Page i n =>
    simp only [receive]
    split <;> exact ⟨rfl, rfl⟩

variable {reply : Reply}

/-- The next URL is an accepted link of the reply. -/
theorem receive_next (h : (receive rules parts config context initial s reply).next = .ok (some url)) :
    ∃ i link, reply = .Page i (some link) ∧ validate_continuation parts initial link = .ok url := by
  cases reply with
  | Failed error => cases h
  | Page i n =>
    simp only [receive] at h
    split at h
    · cases h
    · cases n with
      | none => cases h
      | some link =>
        obtain ⟨next, hn, hs⟩ := Except.map_eq_ok.mp h
        exact ⟨i, link, rfl, hn.trans (congrArg _ (Option.some.inj hs))⟩

/-- A request that is refused sends nothing and ends the reflection, any other is sent and answered. -/
theorem step_cases (h : (reflection rules parts config context initial).step s reply = some t) :
    ∃ url, s.next = .ok (some url) ∧
      ((∃ error, t.next = .error error) ∧ t.sent = s.sent ∧ s.visited ⊆ t.visited ∧ t.received = s.received ∧
          t.declarations = s.declarations ∨
        url.text ∉ s.visited ∧ url.scheme = "https" ∧ t = receive rules parts config context initial
          { s with visited := url.text :: s.visited, sent := url :: s.sent } reply) := by
  simp only [reflection] at h
  split at h
  · rename_i url hn
    refine ⟨url, hn, ?_⟩
    have ht := Option.some.inj h
    unfold request at ht
    split at ht
    · exact .inl (ht ▸ ⟨⟨_, rfl⟩, rfl, fun _ hv => hv, rfl, rfl⟩)
    · rename_i hs
      simp only at ht
      split at ht
      · exact .inl (ht ▸ ⟨⟨_, rfl⟩, rfl, fun _ hv => .tail _ hv, rfl, rfl⟩)
      · rename_i ha
        rw [not_or, not_not] at ha
        exact .inr ⟨hs, ha.1, ht.symm⟩
  · cases h

/-! ## Links -/

theorem kept_pairs_perm {a b : Url} (h : scope parts a = scope parts b) : (kept_pairs parts a).Perm (kept_pairs parts b) := by
  have ha := List.perm_insertionSort (fun a b => pair_le a b) (kept_pairs parts a)
  have hb := List.perm_insertionSort (fun a b => pair_le a b) (kept_pairs parts b)
  exact ha.symm.trans ((List.Perm.of_eq h).trans hb)

variable {link : String}

/-- What the comparison of an accepted link says of its URL. -/
theorem validate_continuation_ok {next : Url} (h : validate_continuation parts initial link = .ok next) :
    parts.parse link = none ∧ parts.join initial link = some next ∧ Aimed parts initial next ∧ next.fragment = none := by
  unfold validate_continuation at h
  split at h
  · cases h
  rename_i hp
  split at h
  · cases h
  rename_i j hj
  split at h
  · cases h
  rename_i hs
  simp only [not_or, not_not, ne_eq] at hs
  obtain ⟨-, ho, ht, hf⟩ := hs
  split at h
  · cases h
  rename_i hc
  cases h
  exact ⟨Option.not_isSome_iff_eq_none.mp hp, hj,
    ⟨ho, ht, kept_pairs_perm (not_not.mp hc)⟩, Option.not_isSome_iff_eq_none.mp hf⟩

theorem Aimed.kept (h : Aimed parts initial url) (hu : url.user = initial.user) (hf : url.fragment = none) :
    Kept parts initial url := by
  obtain ⟨hs, hhs, hp⟩ : url.scheme = initial.scheme ∧ url.host = initial.host ∧ url.port = initial.port := by
    simpa only [Url.origin, Prod.mk.injEq] using h.origin
  exact ⟨hs, hhs, hp, hu, h.path, h.pairs, hf⟩

/-- The comparison leaves out the user information: the URL of an accepted link is kept as far as that is. -/
theorem validate_continuation_kept {next : Url} (h : validate_continuation parts initial link = .ok next) :
    Kept parts initial next ↔ (named_user initial.scheme link).getD initial.user = initial.user := by
  obtain ⟨hp, hj, ha, hf⟩ := validate_continuation_ok h
  have hu := (join_user hp hj).2
  constructor
  · exact fun hk => hu.symm.trans hk.user
  · exact fun hn => ha.kept (hu.trans hn) hf

/-! ## Runs -/

variable {ok : State → Reply → Bool}

/-- What holds of the list URL and of each URL a step accepts holds of every URL requested. -/
theorem sent_inv {P : Url → Prop} (h : Reach (reflection rules parts config context initial) ok s)
    (h0 : ∀ s reply, ok s reply → P initial)
    (hl : ∀ s i link next, ok s (.Page i (some link)) →
      validate_continuation parts initial link = .ok next → P next) :
    (∀ url ∈ s.sent, P url) ∧ ∀ url, s.next = .ok (some url) → url = initial ∨ P url := by
  refine h.inv (I := fun s => (∀ url ∈ s.sent, P url) ∧ ∀ url, s.next = .ok (some url) → url = initial ∨ P url) ?_ ?_
  · exact ⟨fun _ hu => (nomatch hu), fun url hu => .inl (Option.some.inj (Except.ok.inj hu)).symm⟩
  · rintro s reply t ⟨hs, hn⟩ ho hst
    obtain ⟨url, hu, hf | ⟨-, -, ht⟩⟩ := step_cases hst
    · obtain ⟨⟨error, hr⟩, hk, -⟩ := hf
      exact ⟨hk ▸ hs, fun _ hw => by rw [hr] at hw; cases hw⟩
    · subst ht
      rw [(receive_fixed reply).1]
      have hhr : P url := (hn url hu).elim (fun he => he ▸ h0 s reply ho) id
      refine ⟨List.forall_mem_cons.mpr ⟨hhr, hs⟩, fun next hw => ?_⟩
      obtain ⟨i, link, rfl, hv⟩ := receive_next hw
      exact .inr (hl s i link next ho hv)

/-- A URL that was requested was visited, and is not requested again. -/
theorem sent_once (h : Reach (reflection rules parts config context initial) ok s) : s.sent.Nodup := by
  have hi : s.sent.Nodup ∧ ∀ url ∈ s.sent, url.text ∈ s.visited := by
    refine h.inv (I := fun s => s.sent.Nodup ∧ ∀ url ∈ s.sent, url.text ∈ s.visited) ?_ ?_
    · exact ⟨List.nodup_nil, nofun⟩
    · rintro s reply t ⟨ho, hv⟩ - hs
      obtain ⟨url, -, hr | ⟨hn, -, ht⟩⟩ := step_cases hs
      · obtain ⟨-, hsn, hm, -⟩ := hr
        exact ⟨hsn ▸ ho, fun url hu => hm (hv url (hsn ▸ hu))⟩
      · subst ht
        rw [(receive_fixed reply).1, (receive_fixed reply).2]
        refine ⟨List.nodup_cons.mpr ⟨fun ha => hn (hv url ha), ho⟩, ?_⟩
        exact List.forall_mem_cons.mpr ⟨.head _, fun o hold => .tail _ (hv o hold)⟩
  exact hi.1

theorem receive_declared (h : Declared config context s) :
    Declared config context (receive rules parts config context initial s reply) := by
  have hm : ∀ i, Declared config context { s with received := s.received ++ i } := by
    intro i n hn
    obtain ⟨record, hr, hs⟩ := h n hn
    exact ⟨record, List.mem_append_left i hr, hs⟩
  cases reply with
  | Failed error => exact h
  | Page i nx =>
    simp only [receive]
    split
    · exact hm i
    · rename_i d hd
      intro n hn
      rcases ((declare_records_ok hd).2 n).mp hn with hold | ⟨record, hr, dc, hf⟩
      · exact hm i n hold
      · obtain ⟨hl, b, hb, hsm, hnn⟩ := declaration_from_record_ok hf
        refine ⟨record, List.mem_append_right _ hr, hl, b, hb, ?_⟩
        cases ha : text_after b record.key with
        | none => cases hnn ha
        | some k =>
          obtain ⟨rfl, -⟩ := Prod.mk.inj (Option.some.inj (hsm k ha).2)
          exact text_after_eq_some.mp ha

theorem declared (h : Reach (reflection rules parts config context initial) ok s) : Declared config context s := by
  refine h.inv (fun _ hn => absurd hn (AList.notMem_empty _)) ?_
  intro s reply t hd _ hs
  obtain ⟨url, -, hr | ⟨-, -, ht⟩⟩ := step_cases hs
  · obtain ⟨-, -, -, hc, hm⟩ := hr
    intro n hn
    rw [hm] at hn
    rw [hc]
    exact hd n hn
  · exact ht ▸ receive_declared (s := { s with visited := url.text :: s.visited, sent := url :: s.sent }) hd

theorem quiet_kept {i : List KeyValue} {next : Url} (hq : quiet parts initial s (.Page i (some link)))
    (h : validate_continuation parts initial link = .ok next) : Kept parts initial next := by
  rw [quiet, h, Bool.and_eq_true, Bool.or_eq_true, beq_iff_eq] at hq
  rcases hq.2 with hr | hn
  · cases hr
  · exact (validate_continuation_kept h).mpr hn

theorem quiet_fragment (h : quiet parts initial s reply) : initial.fragment = none :=
  Option.isNone_iff_eq_none.mp (Bool.and_eq_true_iff.mp h).1

theorem list_url_ok (h : list_url parts config context = .ok initial) :
    initial.origin = config.endpoint.origin ∧ initial.user = config.endpoint.user := by
  obtain ⟨b, -, hu⟩ := Except.bind_ok h
  exact Except.ok.inj hu ▸ ⟨rfl, rfl⟩

/-- Requests are the list URL's up to their `after` parameters over quiet links, and up to their user information and
fragment over any; an accepted link is the list URL's exactly when it names no other user information. -/
theorem paging_confined (h : list_url parts config context = .ok initial) :
    (initial.origin = config.endpoint.origin ∧ initial.user = config.endpoint.user) ∧
      (∀ s, Reach (reflection rules parts config context initial) (quiet parts initial) s →
        Confined parts config context initial s) ∧
      (∀ s, Reach (reflection rules parts config context initial) any s →
        (∀ url ∈ s.sent, Aimed parts initial url) ∧ s.sent.Nodup ∧ Declared config context s) ∧
      ∀ link next, validate_continuation parts initial link = .ok next →
        (Kept parts initial next ↔ (named_user initial.scheme link).getD initial.user = initial.user) := by
  have ha : Aimed parts initial initial := ⟨rfl, rfl, .refl _⟩
  refine ⟨list_url_ok h, fun s hs => ?_, fun s hs => ?_, fun link next => validate_continuation_kept⟩
  · refine ⟨(sent_inv hs ?_ ?_).1, sent_once hs, declared hs⟩
    · exact fun _ _ hq => ha.kept rfl (quiet_fragment hq)
    · exact fun _ _ _ _ hq => quiet_kept hq
  · refine ⟨(sent_inv hs ?_ ?_).1, sent_once hs, declared hs⟩
    · exact fun _ _ _ => ha
    · exact fun _ _ _ _ _ hv => (validate_continuation_ok hv).2.2.1

end

/-! ## Forged pages -/

def hex_value (c : Char) : Nat := if c.isDigit then c.toNat - 48 else c.toUpper.toNat - 55

/-- Form decoding of ASCII texts. -/
def form_decode : List Char → List Char
  | '%' :: high :: low :: rest => Char.ofNat (hex_value high * 16 + hex_value low) :: form_decode rest
  | '+' :: rest => ' ' :: form_decode rest
  | c :: rest => c :: form_decode rest
  | [] => []

def form_encode (text : List Char) : List Char :=
  text.flatMap fun c =>
    if c = ' ' then ['+']
    else if c.isAlphanum || "*-._".toList.contains c then [c] else (String.utf8EncodeChar c).flatMap percent

/-- The parts of URLs whose hosts have no port, whose paths have no dot segments, and whose queries are ASCII. -/
def plain : Parts where
  absolute _ _ := none
  host text := if text = [] then none else some (.ofList (text.map Char.toLower), none)
  path _ text := .ofList text
  query text := .ofList text
  fragment text := .ofList text
  pairs query := ((query.toList.splitOn '&').filter (· ≠ [])).map fun pair =>
    match cut '=' pair with
    | (name, value) => (.ofList (form_decode name), .ofList (form_decode (value.getD [])))
  append_pairs query pairs :=
    let written := List.intercalate ['&'] (pairs.map fun pair => form_encode pair.1.toList ++ '=' :: form_encode pair.2.toList)
    .ofList (query.elim written fun query => query.toList ++ '&' :: written)

def store : AacConfig where
  endpoint := ⟨"https", "", "", "app.azconfig.io", none, "/", none, none⟩
  label := some "prod"
  prefix_ := none
  tags := []
  https := rfl
  usable _ h := nomatch h

def LIST_QUERY : String :=
  "api-version=2026-04-01&key=monosecret%3Aapp%3Aprod%3A*&label=prod&%24select=key%2Clabel%2Ccontent_type"

def LIST_URL : Url := ⟨"https", "", "", "app.azconfig.io", none, "/kv", some LIST_QUERY, none⟩

def discovery : Machine State Reply := reflection ascii plain store ⟨"app", "prod"⟩ LIST_URL

def db_password : KeyValue := ⟨"monosecret:app:prod:DB_PASSWORD", some "prod", none⟩

theorem lists_app : list_url plain store ⟨"app", "prod"⟩ = .ok LIST_URL := by decide +kernel

theorem one_page_confined : ∃ s, Reach discovery (quiet plain LIST_URL) s ∧ s.declarations.keys = ["DB_PASSWORD"] ∧
    Confined plain store ⟨"app", "prod"⟩ LIST_URL s := by
  have hr : (discovery.run (quiet plain LIST_URL) discovery.init [.Page [db_password] none]).map
      (fun s => s.declarations.keys) = some ["DB_PASSWORD"] := by decide +kernel
  obtain ⟨s, hc, hk⟩ := discovery.reach_of_run _ _ _ _ hr
  exact ⟨s, hc, hk, (paging_confined lists_app).2.1 s hc⟩

/-- A page links to the next under a user of its own, and the request follows. -/
theorem forged_user : list_url plain store ⟨"app", "prod"⟩ = .ok LIST_URL ∧
    ∃ s, Reach discovery any s ∧ ¬Confined plain store ⟨"app", "prod"⟩ LIST_URL s := by
  have hr : (discovery.run any discovery.init
      [.Page [] (some ("//user:pw@app.azconfig.io/kv?" ++ LIST_QUERY ++ "&After=2")), .Page [] none]).map
      (fun s => s.sent.map Url.user) = some [("user", "pw"), ("", "")] := by decide +kernel
  obtain ⟨s, hc, hu⟩ := discovery.reach_of_run _ _ _ _ hr
  refine ⟨lists_app, s, hc, fun hn => ?_⟩
  have hf : ("user", "pw") ∈ s.sent.map Url.user := hu ▸ List.mem_cons_self
  obtain ⟨url, hl, hur⟩ := List.mem_map.mp hf
  have hk : url.user = ("", "") := (hn.kept url hl).user
  exact absurd (hur.symm.trans hk) (by decide)

end Monosecret.Providers.AppConfiguration
