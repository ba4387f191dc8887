/-
  Monosecret.Resolve.Read — reading the sources of a plan (`ResolutionExecution` in
  `monosecret/src/secrets.rs`: `read_cached_values`, `fetch_primary_values`,
  `fetch_fallback_values`, and `Secrets::read_fallback_chain`).

  Secrets of one primary store are fetched together; each fallback chain is walked for one
  secret. What the stores, the generator, the prompt and the type registry answer during
  the pass is `Answers`; a batch answers for the secrets it was asked. A link's address is
  always formed: an alias validates its ref template, whose expansion fails on no name.

  `chain_result` is what the answers of one route come to, and `read_source_eq` that the
  four phases compute it.
-/

import Mathlib.Data.List.Induction
import Monosecret.Cache.Envelope
import Monosecret.Lib.Map
import Monosecret.Resolve.Profile

namespace Monosecret.Resolve

open Lib Plan Cache

/-- Whether a value crossed a storage boundary. -/
inductive ResolvedRepresentation where
  | Stored
  | Logical
  deriving DecidableEq

inductive GeneratedValue where
  | Text (value : SecretBytes)
  | Binary (bytes : SecretBytes)
  deriving DecidableEq

/-- A registry-typed value waiting for its credentials. -/
inductive PendingTyped where
  | Stored (value : SecretBytes)
  | Logical (bytes : SecretBytes)
  deriving DecidableEq

/-- What everything outside the executor answers during one pass. `Identity` is a decoded
    X.509 identity. -/
structure Answers (Identity : Type) where
  /-- A fresh cache entry, the URI of the store serving it and its refresh time. -/
  cached : PlannedSecret → Option (ProviderValue × Text × Option UInt64)
  get_route_provider : Option Text → Except MonosecretError Text
  resolve_coords : Option Text → PlannedSecret → Except MonosecretError Unit
  get_many : Option Text → List PlannedSecret → Except MonosecretError (PlannedSecret → Option ProviderValue)
  resolve_one_provider : Text → Except MonosecretError Text
  shared_provider : Text → Except MonosecretError Text
  get_with_metadata : Text → PlannedSecret → Except MonosecretError (Option ProviderValue)
  effective_revision : Revision → PlannedSecret → Revision
  prepare_resolved : PlannedSecret → SecretBytes → ResolvedRepresentation → Except MonosecretError SecretBytes
  try_prompt_secret : PlannedSecret → Except MonosecretError SecretBytes
  try_generate_secret : PlannedSecret → Except MonosecretError GeneratedValue
  /-- Only an `x509_identity` is generated as bytes. -/
  generated_binary : ∀ planned bytes, planned.secret.is_derived = false →
    try_generate_secret planned = .ok (.Binary bytes) → planned.secret.is_typed_stored = true
  generated_value_is_stored : PlannedSecret → Bool
  decode_stored_value : PlannedSecret → SecretBytes → Except MonosecretError SecretBytes
  validate_credential : Text → SecretBytes → Except MonosecretError SecretBytes
  decode_identity : PlannedSecret → SecretBytes → Option SecretBytes → Except MonosecretError Identity
  deliver_bytes : PlannedSecret → SecretBytes → Except MonosecretError SecretBytes
  extract_source : PlannedSecret → PlannedSecret → SecretBytes → Except MonosecretError SecretBytes
  project : Identity → PlannedSecret → Option SecretBytes → Except MonosecretError SecretBytes
  report_provider_uri : Except MonosecretError Text

variable {Identity : Type} (answers : Answers Identity)

/-! ## Primary stores -/

def add_to_group (key : Option Text) (planned : PlannedSecret) :
    List (Option Text × List PlannedSecret) → List (Option Text × List PlannedSecret)
  | [] => [(key, [planned])]
  | (other, members) :: rest =>
    if other = key then (other, members ++ [planned]) :: rest else (other, members) :: add_to_group key planned rest

/-- `Route::group_key`: the raw primary spec, none for the default provider. -/
def group_key (route : Route) : Option Text := route.primary.map ResolvedPrimary.spec

/-- Primary-store groups in first-seen order. -/
def groups (secrets : List PlannedSecret) : List (Option Text × List PlannedSecret) :=
  secrets.foldl (fun groups planned =>
    match planned.route with
    | some route => add_to_group (group_key route) planned groups
    | none => groups) []

structure GroupFetch where
  key : Option Text
  uri : Option Text
  result : Except MonosecretError (PlannedSecret → Option ProviderValue)

def fetch_group (group : Option Text × List PlannedSecret) : GroupFetch :=
  match answers.get_route_provider group.1 with
  | .error e => ⟨group.1, none, .error e⟩
  | .ok uri => ⟨group.1, some uri, answers.get_many group.1 group.2⟩

/-- A route that consults one store must be able to express its coordinates there. -/
def check_single_store_ref_coords (group : Option Text × List PlannedSecret) : Except MonosecretError Unit :=
  match answers.get_route_provider group.1 with
  | .error _ => .ok ()
  | .ok _ =>
    group.2.forM fun planned =>
      match planned.route with
      | none => .ok ()
      | some route => if route.fallback ≠ [] then .ok () else answers.resolve_coords group.1 planned

/-- The groups with a secret that no cache served. -/
def pending_groups (plan : ResolutionPlan) : List (Option Text × List PlannedSecret) :=
  ((groups plan.secrets).map fun group => (group.1, group.2.filter fun planned => (answers.cached planned).isNone)).filter
    fun group => !group.2.isEmpty

def fetch_primary_values (plan : ResolutionPlan) : Except MonosecretError (List GroupFetch) := do
  (pending_groups answers plan).forM (check_single_store_ref_coords answers)
  .ok ((pending_groups answers plan).map (fetch_group answers))

def find_fetch (fetches : List GroupFetch) (key : Option Text) : Option GroupFetch :=
  fetches.find? fun fetch => fetch.key = key

def fetched_value (fetches : List GroupFetch) (planned : PlannedSecret) (route : Route) : Option ProviderValue :=
  match find_fetch fetches (group_key route) with
  | some fetch =>
    match fetch.result with
    | .ok values => values planned
    | .error _ => none
  | none => none

/-- `failed_primary_uris`. -/
def failed_primary (fetches : List GroupFetch) (route : Route) : Option MonosecretError :=
  match find_fetch fetches (group_key route) with
  | some fetch =>
    match fetch.result with
    | .ok _ => none
    | .error e => some e
  | none => none

/-! ## Fallback chains -/

structure FallbackRead where
  value : Option ProviderValue
  provider_uri : Option Text

/-- What one link answers: its spec, its provider or the read may fail. -/
def read_link (planned : PlannedSecret) (spec : Text) : Except MonosecretError (Option ProviderValue) := do
  let _ ← answers.resolve_one_provider spec
  let _ ← answers.shared_provider spec
  answers.get_with_metadata spec planned

/-- The links left to walk, with the last error, whether a link answered that the secret is
    not there, and the URI of the last provider built. -/
def walk_chain (planned : PlannedSecret) (last_error : Option MonosecretError) (any_healthy : Bool)
    (last_uri : Option Text) : List Text → Except MonosecretError FallbackRead
  | [] =>
    match last_error, any_healthy with
    | some e, false => .error e
    | _, _ => .ok ⟨none, last_uri⟩
  | spec :: specs =>
    match answers.resolve_one_provider spec with
    | .error e => walk_chain planned (some e) any_healthy last_uri specs
    | .ok _ =>
      match answers.shared_provider spec with
      | .error e => walk_chain planned (some e) any_healthy last_uri specs
      | .ok uri =>
        match answers.get_with_metadata spec planned with
        | .ok (some value) => .ok ⟨some value, some uri⟩
        | .ok none => walk_chain planned last_error true (some uri) specs
        | .error e => walk_chain planned (some e) any_healthy (some uri) specs

def read_fallback_chain (planned : PlannedSecret) (specs : List Text) : Except MonosecretError FallbackRead :=
  walk_chain answers planned none false none specs

/-! ## One secret -/

structure Found where
  value : ProviderValue
  source_provider : Option Text
  refresh : Option UInt64

/-- A value found by the walk, a failed primary without one, or absence. -/
def after_fallbacks (failed : Option MonosecretError) (resolved : FallbackRead) : Except MonosecretError (Option Found) :=
  match resolved.value with
  | some value => .ok (some ⟨value, resolved.provider_uri, none⟩)
  | none =>
    match failed with
    | some e => .error e
    | none => .ok none

/-- What the reads of one secret came to, before its missing policy. -/
def read_source (fetches : List GroupFetch) (planned : PlannedSecret) (route : Route) :
    Except MonosecretError (Option Found) :=
  match answers.cached planned with
  | some (value, uri, refresh) => .ok (some ⟨value, some uri, refresh⟩)
  | none =>
    match fetched_value fetches planned route with
    | some value => .ok (some ⟨value, (find_fetch fetches (group_key route)).bind GroupFetch.uri, none⟩)
    | none =>
      if route.fallback = [] then
        match failed_primary fetches route with
        | some e => .error e
        | none => .ok none
      else read_fallback_chain answers planned route.fallback >>= after_fallbacks (failed_primary fetches route)

/-! ## The chain as a whole -/

/-- What one source of a route answers: a value, its absence, or an error. -/
abbrev Answer := Except MonosecretError (Option ProviderValue)

/-- What a chain of sources comes to. -/
inductive ChainResult where
  | value (found : ProviderValue)
  | failed (error : MonosecretError)
  | absent
  deriving DecidableEq

/-- The first source in order that has a value. -/
def first_value : List Answer → Option ProviderValue
  | [] => none
  | .ok (some value) :: _ => some value
  | _ :: rest => first_value rest

def last_error : List Answer → Option MonosecretError
  | [] => none
  | .error e :: rest => some ((last_error rest).getD e)
  | .ok _ :: rest => last_error rest

def Answer.failure : Answer → Option MonosecretError
  | .error e => some e
  | .ok _ => none

/-- A source that answered that the secret is not there. -/
def Answer.is_absence : Answer → Bool
  | .ok none => true
  | _ => false

/-- Without a value, fallbacks none of which answered report their last error, then a failed
    primary reports its own; what remains is a definite absence. -/
def chain_result (primary : Answer) (fallbacks : List Answer) : ChainResult :=
  match first_value (primary :: fallbacks) with
  | some value => .value value
  | none =>
    match last_error fallbacks, fallbacks.any Answer.is_absence with
    | some e, false => .failed e
    | _, _ =>
      match primary.failure with
      | some e => .failed e
      | none => .absent

/-- What a read reports of a result. -/
def ChainResult.read : ChainResult → Answer
  | ChainResult.value found => .ok (some found)
  | ChainResult.failed e => .error e
  | ChainResult.absent => .ok none

/-- The answers of a route's sources. A fresh cache entry answers before them. -/
def primary_answer (plan : ResolutionPlan) (planned : PlannedSecret) (route : Route) : Answer :=
  match answers.get_route_provider (group_key route) with
  | .error e => .error e
  | .ok _ =>
    (answers.get_many (group_key route) (plan.secrets.filter fun other =>
      decide (other.route.map group_key = some (group_key route)) && (answers.cached other).isNone)).map fun values =>
        values planned

def fallback_answers (planned : PlannedSecret) (route : Route) : List Answer :=
  route.fallback.map (read_link answers planned)

def source_result (plan : ResolutionPlan) (planned : PlannedSecret) (route : Route) : ChainResult :=
  match answers.cached planned with
  | some (value, _) => .value value
  | none => chain_result (primary_answer answers plan planned route) (fallback_answers answers planned route)

/-! ## Groups -/

theorem add_to_group_find (ky k : Option Text) (planned : PlannedSecret) (gs : List (Option Text × List PlannedSecret)) :
    ((add_to_group ky planned gs).find? fun g => g.1 = k) =
      if k = ky then some (ky, (((gs.find? fun g => g.1 = k).map Prod.snd).getD []) ++ [planned])
      else gs.find? fun g => g.1 = k := by
  induction gs with
  | nil =>
    unfold add_to_group
    by_cases hk : k = ky
    · simp [hk]
    · simp [hk, Ne.symm hk]
  | cons g gs ih =>
    obtain ⟨other, m⟩ := g
    unfold add_to_group
    by_cases ho : other = ky
    · subst ho
      by_cases hk : k = other
      · simp [hk]
      · simp [hk, Ne.symm hk]
    · rw [if_neg ho]
      by_cases hok : other = k
      · subst hok
        simp [ho]
      · simp only [List.find?_cons, hok, decide_false]
        exact ih

/-- The secrets of one primary store, in plan order. -/
def members_of (secrets : List PlannedSecret) (key : Option Text) : List PlannedSecret :=
  secrets.filter fun planned => decide (planned.route.map group_key = some key)

/-- A group is found under its key, with its members. -/
theorem groups_find (secrets : List PlannedSecret) (k : Option Text) :
    ((groups secrets).find? fun g => g.1 = k) =
      if members_of secrets k = [] then none else some (k, members_of secrets k) := by
  induction secrets using List.reverseRecOn with
  | nil => rfl
  | append_singleton secrets planned ih =>
    have hs : groups (secrets ++ [planned]) =
        match planned.route with
        | some route => add_to_group (group_key route) planned (groups secrets)
        | none => groups secrets := by
      simp [groups, List.foldl_append]
    have hmm : ∀ ky, members_of (secrets ++ [planned]) ky =
        members_of secrets ky ++ if planned.route.map group_key = some ky then [planned] else [] := by
      intro ky
      rw [members_of, List.filter_append, List.filter_singleton]
      by_cases hk : planned.route.map group_key = some ky
      all_goals simp [hk, members_of]
    rw [hs, hmm]
    cases hr : planned.route with
    | none => simpa using ih
    | some route =>
      have hg : (((groups secrets).find? fun g => g.1 = k).map Prod.snd).getD [] = members_of secrets k := by
        rw [ih]
        by_cases hm : members_of secrets k = []
        all_goals simp [hm]
      simp only
      rw [add_to_group_find, hg, ih]
      by_cases hk : k = group_key route
      · simp [hk]
      · simp [hk, Ne.symm hk]

variable {planned : PlannedSecret}

theorem add_to_group_members {k : Option Text} {gs : List (Option Text × List PlannedSecret)}
    {gr : Option Text × List PlannedSecret} (hg : gr ∈ add_to_group k planned gs) {m : PlannedSecret}
    (hm : m ∈ gr.2) : (m = planned ∧ gr.1 = k) ∨ ∃ g ∈ gs, g.1 = gr.1 ∧ m ∈ g.2 := by
  induction gs with
  | nil =>
    rw [add_to_group, List.mem_singleton] at hg
    subst hg
    exact .inl ⟨List.mem_singleton.mp hm, rfl⟩
  | cons first r ih =>
    obtain ⟨other, mm⟩ := first
    unfold add_to_group at hg
    split at hg
    · rename_i hy
      rcases List.mem_cons.mp hg with rfl | hg
      · rcases List.mem_append.mp hm with hm | hm
        · exact .inr ⟨_, List.mem_cons_self, rfl, hm⟩
        · exact .inl ⟨List.mem_singleton.mp hm, hy⟩
      · exact .inr ⟨gr, List.mem_cons_of_mem _ hg, rfl, hm⟩
    · rcases List.mem_cons.mp hg with rfl | hg
      · exact .inr ⟨_, List.mem_cons_self, rfl, hm⟩
      · rcases ih hg with h | ⟨g, hg', hk, hm'⟩
        · exact .inl h
        · exact .inr ⟨g, List.mem_cons_of_mem _ hg', hk, hm'⟩

/-- A group holds planned secrets of its store. -/
theorem groups_members (s : List PlannedSecret) {g : Option Text × List PlannedSecret}
    (hg : g ∈ groups s) {m : PlannedSecret} (hm : m ∈ g.2) :
    m ∈ s ∧ ∃ route, m.route = some route ∧ group_key route = g.1 := by
  induction s using List.reverseRecOn generalizing g with
  | nil => cases hg
  | append_singleton s planned ih =>
    rw [groups, List.foldl_append] at hg
    simp only [List.foldl_cons, List.foldl_nil] at hg
    cases hr : planned.route with
    | none =>
      rw [hr] at hg
      obtain ⟨hmm, ht⟩ := ih hg hm
      exact ⟨List.mem_append_left _ hmm, ht⟩
    | some route =>
      rw [hr] at hg
      rcases add_to_group_members hg hm with ⟨rfl, hk⟩ | ⟨other, ho, hk, hm'⟩
      · exact ⟨List.mem_append_right _ (List.mem_singleton_self _), route, hr, hk.symm⟩
      · obtain ⟨hmm, ht⟩ := ih ho hm'
        exact ⟨List.mem_append_left _ hmm, hk ▸ ht⟩

theorem find_filter {α : Type} {p q : α → Bool} {l : List α} {a : α} (h : l.find? q = some a) (hp : p a) :
    (l.filter p).find? q = some a := by
  induction l with
  | nil => cases h
  | cons x l ih =>
    by_cases hq : q x
    · rw [List.find?_cons_of_pos hq] at h
      cases h
      rw [List.filter_cons_of_pos hp, List.find?_cons_of_pos hq]
    · rw [List.find?_cons_of_neg hq] at h
      by_cases hx : p x
      · rw [List.filter_cons_of_pos hx, List.find?_cons_of_neg hq]
        exact ih h
      · rw [List.filter_cons_of_neg hx]
        exact ih h

variable {route : Route}

/-- The group an uncached secret is fetched in. -/
theorem pending_find (plan : ResolutionPlan) (hp : planned ∈ plan.secrets) (hr : planned.route = some route)
    (hc : answers.cached planned = none) :
    ((pending_groups answers plan).find? fun g => g.1 = group_key route) =
      some (group_key route, plan.secrets.filter fun other =>
        decide (other.route.map group_key = some (group_key route)) && (answers.cached other).isNone) := by
  have hm : planned ∈ members_of plan.secrets (group_key route) := by
    simp [members_of, hp, hr]
  have hf := groups_find plan.secrets (group_key route)
  rw [if_neg (List.ne_nil_of_mem hm)] at hf
  refine find_filter ?_ ?_
  · rw [List.find?_map]
    have hk : ((fun g : Option Text × List PlannedSecret => decide (g.1 = group_key route)) ∘
        fun g : Option Text × List PlannedSecret =>
          (g.1, g.2.filter fun planned => (answers.cached planned).isNone)) = fun g => decide (g.1 = group_key route) := rfl
    rw [hk, hf, Option.map_some, members_of, List.filter_filter]
    congr 2
    apply List.filter_congr
    intro other _
    exact Bool.and_comm _ _
  · simp only [Bool.not_eq_true', List.isEmpty_eq_false_iff]
    exact List.ne_nil_of_mem (a := planned) (by simp [hp, hr, hc])

/-! ## The four phases compute it -/

/-- The secrets a primary store is asked for. -/
def batch (plan : ResolutionPlan) (route : Route) : List PlannedSecret :=
  plan.secrets.filter fun other =>
    decide (other.route.map group_key = some (group_key route)) && (answers.cached other).isNone

variable {plan : ResolutionPlan} {fetches : List GroupFetch}

theorem fetch_find_batch (h : fetch_primary_values answers plan = .ok fetches) (hp : planned ∈ plan.secrets)
    (hr : planned.route = some route) (hc : answers.cached planned = none) :
    find_fetch fetches (group_key route) = some (fetch_group answers (group_key route, batch answers plan route)) := by
  replace h := Except.rest_ok h
  cases h
  have hf := pending_find answers plan hp hr hc
  have hk : ((fun f : GroupFetch => decide (f.key = group_key route)) ∘ fetch_group answers) =
      fun g => decide (g.1 = group_key route) := by
    funext g
    unfold Function.comp fetch_group
    cases answers.get_route_provider g.1 with
    | error e | ok uri => rfl
  rw [find_fetch, List.find?_map, hk, hf, Option.map_some]
  rfl

theorem fetch_find (h : fetch_primary_values answers plan = .ok fetches) (hp : planned ∈ plan.secrets)
    (hr : planned.route = some route) (hc : answers.cached planned = none) :
    ∃ f, find_fetch fetches (group_key route) = some f ∧
      f.result.map (fun v => v planned) = primary_answer answers plan planned route := by
  refine ⟨_, fetch_find_batch answers h hp hr hc, ?_⟩
  unfold fetch_group primary_answer batch
  cases answers.get_route_provider (group_key route) with
  | error e | ok uri => rfl

/-- A walk over the links left, as the answers it will get. -/
theorem walk_chain_eq (planned : PlannedSecret) (s : List Text) (error : Option MonosecretError) (he : Bool)
    (ur : Option Text) :
    (walk_chain answers planned error he ur s).map FallbackRead.value =
      match first_value (s.map (read_link answers planned)) with
      | some value => .ok (some value)
      | none =>
        match (last_error (s.map (read_link answers planned))).or error,
          he || (s.map (read_link answers planned)).any Answer.is_absence with
        | some e, false => .error e
        | _, _ => .ok none := by
  induction s generalizing error he ur with
  | nil =>
    cases error <;> cases he <;> rfl
  | cons sp s ih =>
    have hf : ∀ e u', read_link answers planned sp = .error e →
        (walk_chain answers planned (some e) he u' s).map FallbackRead.value =
          match first_value ((sp :: s).map (read_link answers planned)) with
          | some value => .ok (some value)
          | none =>
            match (last_error ((sp :: s).map (read_link answers planned))).or error,
              he || ((sp :: s).map (read_link answers planned)).any Answer.is_absence with
            | some e, false => .error e
            | _, _ => .ok none := by
      intro e u' hl
      rw [ih, List.map_cons, hl]
      simp only [first_value, last_error, List.any_cons, Answer.is_absence, Bool.false_or]
      cases last_error (s.map (read_link answers planned)) with
      | none | some e' => rfl
    unfold walk_chain
    cases hs : answers.resolve_one_provider sp with
    | error e => exact hf e ur (by simp [read_link, hs, bind, Except.bind])
    | ok u =>
      cases hb : answers.shared_provider sp with
      | error e => exact hf e ur (by simp [read_link, hs, hb, bind, Except.bind])
      | ok p =>
        cases hg : answers.get_with_metadata sp planned with
        | error e => exact hf e (some p) (by simp [read_link, hs, hb, hg, bind, Except.bind])
        | ok found =>
          have hl : read_link answers planned sp = .ok found := by
            simp [read_link, hs, hb, hg, bind, Except.bind]
          cases found with
          | some value => rw [List.map_cons, hl]; rfl
          | none =>
            simp only
            rw [ih, List.map_cons, hl]
            simp only [first_value, last_error, List.any_cons, Answer.is_absence, Bool.true_or, Bool.or_true]

/-- The part of a route after its primary. -/
theorem read_fallbacks_eq (planned : PlannedSecret) (route : Route) (p : Answer)
    (hp : first_value [p] = none) :
    (read_fallback_chain answers planned route.fallback >>= after_fallbacks p.failure).map
        (fun found => found.map Found.value) =
      (chain_result p (fallback_answers answers planned route)).read := by
  have hwl := walk_chain_eq answers planned route.fallback none false none
  have hf : ∀ l, first_value (p :: l) = first_value l := by
    intro l
    rcases p with e | (_ | value)
    · rfl
    · rfl
    · cases hp
  have hb : ∀ r : FallbackRead, r.value = none →
      (after_fallbacks p.failure r).map (fun found => found.map Found.value) =
        ChainResult.read (match p.failure with | some e => .failed e | none => .absent) := by
    intro r hvl
    unfold after_fallbacks
    rw [hvl]
    cases p.failure with
    | some e | none => rfl
  unfold chain_result fallback_answers read_fallback_chain
  rw [hf]
  simp only [Option.or_none, Bool.false_or] at hwl
  cases hv : first_value (route.fallback.map (read_link answers planned)) with
  | some value =>
    rw [hv] at hwl
    obtain ⟨r, hw, hvl⟩ := Except.map_eq_ok.mp hwl
    simp [hw, bind, Except.bind, after_fallbacks, hvl, Except.map, ChainResult.read]
  | none =>
    rw [hv] at hwl
    cases hl : last_error (route.fallback.map (read_link answers planned)) with
    | none =>
      rw [hl] at hwl
      obtain ⟨r, hw, hvl⟩ := Except.map_eq_ok.mp hwl
      rw [hw]
      exact hb r hvl
    | some e =>
      rw [hl] at hwl
      cases ha : (route.fallback.map (read_link answers planned)).any Answer.is_absence with
      | true =>
        rw [ha] at hwl
        obtain ⟨r, hw, hvl⟩ := Except.map_eq_ok.mp hwl
        rw [hw]
        exact hb r hvl
      | false =>
        rw [ha] at hwl
        rw [Except.error_of_map hwl]
        rfl

/-- Reading one secret, through the batch and the walk, is what its sources come to. -/
theorem read_source_eq (h : fetch_primary_values answers plan = .ok fetches) (hp : planned ∈ plan.secrets)
    (hr : planned.route = some route) :
    (read_source answers fetches planned route).map (fun found => found.map Found.value) =
      (source_result answers plan planned route).read := by
  unfold read_source source_result
  cases hc : answers.cached planned with
  | some s => rfl
  | none =>
    obtain ⟨f, hf, hs⟩ := fetch_find answers h hp hr hc
    have hv : fetched_value fetches planned route = first_value [primary_answer answers plan planned route] := by
      simp only [fetched_value, hf]
      rw [← hs]
      cases f.result with
      | error e => rfl
      | ok vl =>
        simp only [Except.map]
        cases vl planned with
        | none | some value => rfl
    have hl : failed_primary fetches route = (primary_answer answers plan planned route).failure := by
      simp only [failed_primary, hf]
      rw [← hs]
      cases f.result with
      | error e | ok vl => rfl
    simp only
    rw [hv, hl]
    cases hfr : first_value [primary_answer answers plan planned route] with
    | some value =>
      have ha : first_value (primary_answer answers plan planned route :: fallback_answers answers planned route) =
          some value := by
        rcases hpa : primary_answer answers plan planned route with e | (_ | v) <;> rw [hpa] at hfr
        · cases hfr
        · cases hfr
        · exact hfr
      rw [chain_result, ha]
      rfl
    | none =>
      simp only
      rw [← read_fallbacks_eq answers planned route _ hfr]
      by_cases he : route.fallback = []
      · rw [if_pos he, he]
        rfl
      · rw [if_neg he]

end Monosecret.Resolve
