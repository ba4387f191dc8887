/-
  Monosecret.Providers.Bws — one instance of the Bitwarden Secrets Manager provider
  (`BwsProvider` in `monosecret/src/provider/bws.rs`).

  A project is a list of secrets with distinct ids and any keys. Only the instance changes
  it: `secret edit` replaces the value of one id and `secret create` appends. Every run of the
  CLI may fail, and then changes nothing. The first listing a read makes is kept for good; a
  write makes its own. A single read takes the first secret of a key, a batch the last, a
  write edits the first.

  Proved: in a state in which reads observe writes (`Observes`), they still do after a step
  exactly when the step is `quiet`: it is no successful write, or writes the value the key
  has, or writes before anything was read a key that no two secrets have. So they do over
  every run of quiet steps exactly when the first and the last secret of each key have one
  value at the start (`observes_iff`).

  Run: a key read, then set, then read back as it was (`read_back_stale`).
-/

import Monosecret.Lib.Machine
import Monosecret.Providers.GetEach
import Monosecret.Providers.SameEntries

namespace Monosecret.Providers.Bws

open Lib Machine Manifest Cache

structure BwsSecret where
  id : String
  key : String
  value : String
  deriving DecidableEq

/-- The secrets of a project. -/
structure Project where
  secrets : List BwsSecret
  distinct : (secrets.map BwsSecret.id).Nodup

structure BwsProvider where
  uri : String
  /-- `MONOSECRET_BWS_ALLOW_ARGV_VALUES`, which opts in to writes. -/
  allow_argv_values : Option String
  deriving DecidableEq

def BwsProvider.entries (p : BwsProvider) : Provider String where
  name := "bws"
  supported_coords := []
  convention_address _ _ key := .ok ⟨key, none, none, none, none⟩
  physical_store_path := none
  entry_container_identity := p.uri

structure State where
  secrets_cache : Option (List BwsSecret)
  project : Project
  /-- The keys and values set, the last of them first. -/
  sets : List (String × String)

/-! ## Operations -/

def first (key : String) (secrets : List BwsSecret) : Option String :=
  (secrets.find? fun secret => secret.key = key).map BwsSecret.value

/-- A map collected from the secrets. -/
def by_key (secrets : List BwsSecret) : Map String String :=
  secrets.foldl (fun collected secret => collected.insert secret.key secret.value) .empty

/-- The listing kept, and one made if there is none and the CLI lists. -/
def ensure_secrets (s : State) (list : Except String Unit) : Except String (List BwsSecret) :=
  match s.secrets_cache with
  | some secrets => .ok secrets
  | none => list.map fun _ => s.project.secrets

def listed (s : State) (list : Except String Unit) : State :=
  match ensure_secrets s list with
  | .ok secrets => { s with secrets_cache := some secrets }
  | .error _ => s

namespace BwsProvider

variable (p : BwsProvider)

def get_secret (s : State) (list : Except String Unit) (target : String) : Except String (Option SecretBytes) := do
  let secrets ← ensure_secrets s list
  return (first target secrets).map utf8

def get (s : State) (list : Except String Unit) (addr : Address) : Except String (Option SecretBytes) :=
  p.entries.flat_item addr >>= get_secret s list

def get_many (s : State) (list : Except String Unit) (requests : List (String × Address)) :
    Except String (Map String SecretBytes) :=
  if requests = [] then .ok .empty
  else do
    let targets ← resolve_all p.entries.flat_item requests
    let secrets ← ensure_secrets s list
    return insert_each (targets.map fun located => (located.1, (by_key secrets located.2).map utf8)) .empty

def check_writable : Except String Unit :=
  match p.allow_argv_values with
  | some value => if value ≠ "" then .ok () else .error refused
  | none => .error refused
where
  refused : String :=
    "BWS writes are disabled by default: the bws CLI only accepts a secret value as a command-line argument, " ++
      "which exposes it in the process list to other local users. Set MONOSECRET_BWS_ALLOW_ARGV_VALUES=1 to opt in, " ++
      "or write the secret with the bws CLI directly."

end BwsProvider

namespace Project

def edit (project : Project) (id value : String) : Project where
  secrets := project.secrets.map fun secret => if secret.id = id then { secret with value := value } else secret
  distinct := by
    have hids : (project.secrets.map fun secret => if secret.id = id then { secret with value := value } else secret).map
        BwsSecret.id = project.secrets.map BwsSecret.id := by
      rw [List.map_map]
      refine List.map_congr_left fun secret _ => ?_
      simp only [Function.comp_apply]
      split <;> rfl
    rw [hids]
    exact project.distinct

def create (project : Project) (id key value : String) (h : id ∉ project.secrets.map BwsSecret.id) : Project where
  secrets := project.secrets ++ [⟨id, key, value⟩]
  distinct := by
    rw [List.map_append]
    exact List.nodup_append.mpr ⟨project.distinct, by simp, by simpa using fun a ha hid => h (List.mem_map.mpr ⟨a, ha, hid⟩)⟩

end Project

/-- What the outside answers to one write: the listing, the run that writes, and a new id. -/
structure Write (project : Project) where
  list : Except String Unit
  run : Except String Unit
  id : String
  fresh : id ∉ project.secrets.map BwsSecret.id

/-- The project with the key set. -/
def Project.put (project : Project) (w : Write project) (key text : String) : Project :=
  match project.secrets.find? fun secret => secret.key = key with
  | some existing => project.edit existing.id text
  | none => project.create w.id key text w.fresh

namespace BwsProvider

variable (p : BwsProvider)

def set_secret (s : State) (w : Write s.project) (key : String) (value : SecretBytes) : Except String State := do
  w.list
  let text ← require_utf8 "bws" value
  w.run
  return { s with project := s.project.put w key text, sets := (key, text) :: s.sets }

def set (s : State) (w : Write s.project) (addr : Address) (value : SecretBytes) : Except String State := do
  p.check_writable
  let target ← p.entries.flat_item addr
  set_secret s w target value

end BwsProvider

/-! ## Runs -/

inductive Ev where
  | get (list : Except String Unit) (addr : Address)
  | get_many (list : Except String Unit) (requests : List (String × Address))
  | set (list run : Except String Unit) (id : String) (addr : Address) (value : SecretBytes)

namespace BwsProvider

variable (p : BwsProvider)

/-- The state after a call; no new secret has the id of another. -/
def step (s : State) : Ev → Option State
  | .get list addr => some (if (p.entries.flat_item addr).isOk then listed s list else s)
  | .get_many list requests =>
    some (if requests ≠ [] ∧ (resolve_all p.entries.flat_item requests).isOk then listed s list else s)
  | .set list run id addr value =>
    if h : id ∉ s.project.secrets.map BwsSecret.id then some ((p.set s ⟨list, run, id, h⟩ addr value).toOption.getD s)
    else none

def machine (project : Project) : Machine State Ev where
  init := ⟨none, project, []⟩
  step := p.step

/-- The value set last, or the one that was there. -/
def expected (project : Project) (s : State) (key : String) : Option String :=
  (s.sets.lookup key).or (first key project.secrets)

/-- Reads observe writes: a single read has the value set last, and a batch what single reads have. -/
structure Observes (project : Project) (s : State) : Prop where
  get : ∀ addr key, p.entries.flat_item addr = .ok key → p.get s (.ok ()) addr = .ok ((expected project s key).map utf8)
  get_many : ∀ list requests, (requests.map Prod.fst).Nodup → Agrees requests (p.get s list) (p.get_many s list requests)

/-- A write that fails, changes no value, or comes before every read to a key of one secret at most. -/
def quiet (s : State) : Ev → Bool
  | .set list run _ addr value =>
    match p.check_writable, p.entries.flat_item addr, list, require_utf8 "bws" value, run with
    | .ok (), .ok key, .ok (), .ok text, .ok () =>
      first key s.project.secrets == some text ||
        s.secrets_cache.isNone && decide (s.project.secrets.countP (fun secret => secret.key = key) ≤ 1)
    | _, _, _, _, _ => true
  | _ => true

end BwsProvider

open BwsProvider

/-! ## Keys -/

/-- The last value of the key. -/
def last (key : String) (secrets : List BwsSecret) : Option String := first key secrets.reverse

theorem by_key_last (secrets : List BwsSecret) (key : String) : by_key secrets key = last key secrets := by
  induction secrets using List.reverseRecOn with
  | nil => rfl
  | append_singleton secrets sc ih =>
    rw [by_key, List.foldl_append, ← by_key, List.foldl_cons, List.foldl_nil, last, List.reverse_append,
      List.reverse_singleton, List.singleton_append, first, List.find?_cons]
    by_cases hk : sc.key = key
    · simp [hk]
    · rw [Map.insert_of_ne (Ne.symm hk), ih]
      simp [hk, last, first]

theorem first_append (key : String) (before a : List BwsSecret) :
    first key (before ++ a) = (first key before).or (first key a) := by
  rw [first, List.find?_append, first, first]
  cases before.find? fun sc => sc.key = key <;> rfl

theorem last_append (key : String) (before a : List BwsSecret) :
    last key (before ++ a) = (last key a).or (last key before) := by
  rw [last, List.reverse_append, first_append]
  rfl

theorem first_cons (key : String) (sc : BwsSecret) (a : List BwsSecret) :
    first key (sc :: a) = (if sc.key = key then some sc.value else none).or (first key a) := by
  by_cases hk : sc.key = key <;> simp [first, hk]

theorem last_cons (key : String) (sc : BwsSecret) (a : List BwsSecret) :
    last key (sc :: a) = (last key a).or (if sc.key = key then some sc.value else none) := by
  have hn : first key [] = none := rfl
  rw [last, List.reverse_cons, first_append, first_cons, hn, Option.or_none, ← last]

variable {key : String} {secrets : List BwsSecret}

theorem first_none_iff : first key secrets = none ↔ ∀ sc ∈ secrets, sc.key ≠ key := by
  simp [first]

theorem last_none_iff : last key secrets = none ↔ ∀ sc ∈ secrets, sc.key ≠ key := by
  rw [last, first_none_iff]
  simp

/-- The first secret of a key, with what is before and after it. -/
theorem find_split {e : BwsSecret} (h : (secrets.find? fun sc => sc.key = key) = some e) :
    e.key = key ∧ ∃ before a, secrets = before ++ e :: a ∧ ∀ sc ∈ before, sc.key ≠ key := by
  obtain ⟨hk, before, a, hs, hb⟩ := List.find?_eq_some_iff_append.mp h
  exact ⟨of_decide_eq_true hk, before, a, hs, fun sc hm => by simpa using hb sc hm⟩

/-- The one secret with an id is edited. -/
theorem edit_split {project : Project} {before after : List BwsSecret} {existing : BwsSecret}
    (h : project.secrets = before ++ existing :: after) (value : String) :
    (project.edit existing.id value).secrets = before ++ { existing with value := value } :: after := by
  have hd := project.distinct
  rw [h, List.map_append, List.map_cons] at hd
  obtain ⟨-, ha, hp⟩ := List.nodup_append.mp hd
  have hs : ∀ secrets : List BwsSecret, (∀ secret ∈ secrets, secret.id ≠ existing.id) →
      secrets.map (fun secret => if secret.id = existing.id then { secret with value := value } else secret) = secrets := by
    intro secrets hn
    conv_rhs => rw [← List.map_id secrets]
    exact List.map_congr_left fun secret hm => if_neg (hn secret hm)
  show project.secrets.map _ = _
  rw [h, List.map_append, List.map_cons, if_pos rfl, hs before, hs after]
  · intro secret hm hi
    exact (List.nodup_cons.mp ha).1 (List.mem_map.mpr ⟨secret, hm, hi⟩)
  · intro secret hm hi
    exact hp _ (List.mem_map_of_mem hm) _ (.head _) hi

/-- Where a key is set: at its first secret, with what is before and after it, or at the end. -/
theorem put_split (project : Project) (w : Write project) (key tx : String) :
    (∃ before existing a, project.secrets = before ++ existing :: a ∧ existing.key = key ∧
      (∀ sc ∈ before, sc.key ≠ key) ∧
      (project.put w key tx).secrets = before ++ { existing with value := tx } :: a) ∨
    (∀ sc ∈ project.secrets, sc.key ≠ key) ∧
      (project.put w key tx).secrets = project.secrets ++ [⟨w.id, key, tx⟩] := by
  unfold Project.put
  cases hf : project.secrets.find? fun sc => sc.key = key with
  | some existing =>
    obtain ⟨hk, before, a, hs, hb⟩ := find_split hf
    exact .inl ⟨before, existing, a, hs, hk, hb, edit_split hs tx⟩
  | none =>
    refine .inr ⟨fun sc hm => ?_, rfl⟩
    simpa using List.find?_eq_none.mp hf sc hm

/-- Setting a key changes the first value of that key alone. -/
theorem first_put (project : Project) (w : Write project) (key tx other : String) :
    first other (project.put w key tx).secrets = if other = key then some tx else first other project.secrets := by
  rcases put_split project w key tx with ⟨before, e, a, hs, hk, hb, hp⟩ | ⟨hn, hp⟩
  · rw [hp, hs, first_append, first_append, first_cons, first_cons]
    by_cases ho : other = key
    · rw [if_pos ho, ho, first_none_iff.mpr hb]
      simp [hk]
    · have hne : e.key ≠ other := fun h => ho (h.symm.trans hk)
      simp [hne, ho]
  · rw [hp, first_append, first_cons]
    by_cases ho : other = key
    · rw [if_pos ho, ho, first_none_iff.mpr hn]
      simp
    · rw [if_neg (Ne.symm ho), if_neg ho]
      exact Option.or_none

theorem last_put_other (project : Project) (w : Write project) {other : String} (tx : String) (h : other ≠ key) :
    last other (project.put w key tx).secrets = last other project.secrets := by
  rcases put_split project w key tx with ⟨before, e, a, hs, hk, -, hp⟩ | ⟨-, hp⟩
  · have hn : e.key ≠ other := fun he => h (he.symm.trans hk)
    rw [hp, hs]
    simp only [last_append, last_cons, if_neg hn]
  · rw [hp, last_append, last_cons, if_neg (Ne.symm h)]
    rfl

/-- The last value of the key that is set is the text, or that of another secret. -/
theorem last_put_self (project : Project) (w : Write project) (key tx : String) :
    last key (project.put w key tx).secrets =
      if project.secrets.countP (fun sc => sc.key = key) ≤ 1 then some tx else last key project.secrets := by
  rcases put_split project w key tx with ⟨before, e, a, hs, hk, hb, hp⟩ | ⟨hn, hp⟩
  · have hc : project.secrets.countP (fun sc => sc.key = key) =
        a.countP (fun sc => sc.key = key) + 1 := by
      rw [hs, List.countP_append, List.countP_cons_of_pos (by simpa using hk),
        List.countP_eq_zero.mpr (by simpa using hb), Nat.zero_add]
    rw [hc, hp, hs]
    simp only [last_append, last_cons, hk, if_true]
    by_cases ho : a.countP (fun sc => sc.key = key) + 1 ≤ 1
    · have hz : a.countP (fun sc => sc.key = key) = 0 := by omega
      have ha : last key a = none := last_none_iff.mpr (by simpa using List.countP_eq_zero.mp hz)
      rw [if_pos ho, ha]
      simp
    · have ha : last key a ≠ none := by
        intro ha
        have hz : a.countP (fun sc => sc.key = key) = 0 :=
          List.countP_eq_zero.mpr (by simpa using last_none_iff.mp ha)
        omega
      obtain ⟨value, hv⟩ := Option.ne_none_iff_exists'.mp ha
      rw [if_neg ho, hv]
      rfl
  · have hc : project.secrets.countP (fun sc => sc.key = key) = 0 :=
      List.countP_eq_zero.mpr (by simpa using hn)
    rw [hp, last_append, last_cons, if_pos rfl, hc]
    rfl

/-! ## Reads -/

/-- The listing that reads are served from, when it can be made. -/
def view (s : State) : List BwsSecret := s.secrets_cache.getD s.project.secrets

theorem ensure_secrets_ok {s : State} {l : Except String Unit} (h : ensure_secrets s l = .ok secrets) :
    secrets = view s := by
  unfold ensure_secrets at h
  unfold view
  cases hc : s.secrets_cache with
  | some kept =>
    rw [hc] at h
    exact (Except.ok.inj h).symm
  | none =>
    rw [hc] at h
    obtain ⟨-, -, rfl⟩ := Except.map_eq_ok.mp h
    rfl

theorem ensure_secrets_listed (s : State) : ensure_secrets s (.ok ()) = .ok (view s) := by
  unfold ensure_secrets view
  cases s.secrets_cache <;> rfl

/-- What is read does not change what is read next. -/
theorem listed_view (s : State) (l : Except String Unit) :
    view (listed s l) = view s ∧ (listed s l).project = s.project ∧ (listed s l).sets = s.sets := by
  unfold listed
  cases hr : ensure_secrets s l with
  | error error => exact ⟨rfl, rfl, rfl⟩
  | ok secrets => exact ⟨ensure_secrets_ok hr, rfl, rfl⟩

section

variable {p : BwsProvider} {project : Project} {s : State}

theorem get_view {a : Address} {key : String} (h : p.entries.flat_item a = .ok key) :
    p.get s (.ok ()) a = .ok ((first key (view s)).map utf8) := by
  rw [BwsProvider.get, h]
  show get_secret s (.ok ()) key = _
  rw [get_secret, ensure_secrets_listed]
  rfl

/-- A batch is what single reads are where each key has one value. -/
theorem get_many_agrees_view (h : ∀ key, last key (view s) = first key (view s)) (ls : Except String Unit)
    {r : List (String × Address)} (hd : (r.map Prod.fst).Nodup) :
    Agrees r (p.get s ls) (p.get_many s ls r) := by
  cases r with
  | nil => exact agrees_ok.mpr ⟨nofun, fun _ _ => rfl⟩
  | cons rq r =>
    unfold BwsProvider.get_many
    rw [if_neg (List.cons_ne_nil _ _)]
    cases hr : resolve_all p.entries.flat_item (rq :: r) with
    | error error => exact agrees_refused hr
    | ok tr =>
      refine (agrees_resolved hr).mpr ?_
      have hn := resolve_all_names hr
      rw [← hn] at hd
      cases hrd : ensure_secrets s ls with
      | error error =>
        refine ⟨iff_of_false (fun ho => nomatch ho.choose_spec) fun ha => ?_, nofun⟩
        obtain ⟨tg, -, hm⟩ := mem_resolved hr (.head _)
        obtain ⟨found, hf⟩ := ha _ hm
        rw [get_secret, hrd] at hf
        cases hf
      | ok secrets =>
        obtain rfl := ensure_secrets_ok hrd
        refine agrees_ok.mpr ⟨fun l hm => ?_, fun n hna => ?_⟩
        · have hi := insert_each_in (by rwa [List.map_map]) (List.mem_map_of_mem
            (f := fun l => (l.1, (by_key (view s) l.2).map utf8)) hm) .empty
          rw [hi, get_secret, hrd]
          simp only [by_key_last, h, Map.empty_apply, Option.or_none]
          rfl
        · rw [insert_each_out (by rwa [List.map_map])]
          rfl

theorem get_many_last (key : String) : ∃ v,
    p.get_many s (.ok ()) [("", .Native ⟨key, none, none, none, none⟩)] = .ok v ∧
      v "" = (last key (view s)).map utf8 := by
  refine ⟨insert_each [("", (by_key (view s) key).map utf8)] .empty, ?_, ?_⟩
  · show (ensure_secrets s (.ok ()) >>= fun secrets => _) = _
    rw [ensure_secrets_listed]
    rfl
  · rw [by_key_last]
    exact (Map.insert_option_self _ _ _).trans Option.or_none

theorem observes_iff_view : p.Observes project s ↔
    ∀ key, first key (view s) = expected project s key ∧ last key (view s) = first key (view s) := by
  constructor
  · rintro ⟨hg, hget_many⟩ key
    have ha : p.entries.flat_item (.Native ⟨key, none, none, none, none⟩) = .ok key := rfl
    have ho := hg _ key ha
    rw [get_view ha] at ho
    obtain ⟨v, hb, hl⟩ := get_many_last (p := p) (s := s) key
    have hbh := ((hget_many (.ok ()) [("", .Native ⟨key, none, none, none, none⟩)] (by simp)).values v hb).1 _
      List.mem_cons_self
    rw [get_view ha, hl] at hbh
    have hi : Function.Injective (Option.map utf8) := Option.map_injective fun _ _ h => utf8_inj.mp h
    exact ⟨hi (Except.ok.inj ho), (hi (Except.ok.inj hbh)).symm⟩
  · intro h
    refine ⟨fun a key ha => ?_, fun l r hd => ?_⟩
    · rw [get_view ha, (h key).1]
    · exact get_many_agrees_view (fun key => (h key).2) l hd

end

/-! ## Steps -/

variable {p : BwsProvider} {project : Project} {s t : State}

/-- A write that goes through. -/
theorem set_ok {w : Write s.project} {a : Address} {value : SecretBytes} (h : p.set s w a value = .ok t) :
    ∃ key tx, p.check_writable = .ok () ∧ p.entries.flat_item a = .ok key ∧ w.list = .ok () ∧
      require_utf8 "bws" value = .ok tx ∧ w.run = .ok () ∧
        t = { s with project := s.project.put w key tx, sets := (key, tx) :: s.sets } := by
  obtain ⟨hw, h⟩ := Except.bind_unit_ok h
  obtain ⟨key, hk, h⟩ := Except.bind_ok h
  obtain ⟨hl, h⟩ := Except.bind_unit_ok h
  obtain ⟨tx, ht, h⟩ := Except.bind_ok h
  obtain ⟨hr, h⟩ := Except.bind_unit_ok h
  cases h
  exact ⟨key, tx, hw, hk, hl, ht, hr, rfl⟩

/-- What a step can do: change nothing but the listing kept, or set one key. -/
theorem step_cases {e : Ev} (h : p.step s e = some t) :
    (view t = view s ∧ t.project = s.project ∧ t.sets = s.sets ∧ p.quiet s e) ∨
    ∃ w key tx, t = { s with project := s.project.put w key tx, sets := (key, tx) :: s.sets } ∧
      p.quiet s e = (first key s.project.secrets == some tx ||
        s.secrets_cache.isNone && decide (s.project.secrets.countP (fun sc => sc.key = key) ≤ 1)) := by
  cases e with
  | get l a | get_many l r =>
    simp only [BwsProvider.step, Option.some.injEq] at h
    subst h
    split
    · obtain ⟨hv, hp, hs⟩ := listed_view s l
      exact .inl ⟨hv, hp, hs, rfl⟩
    · exact .inl ⟨rfl, rfl, rfl, rfl⟩
  | set l run id a value =>
    simp only [BwsProvider.step] at h
    split at h
    · rename_i hf
      simp only [Option.some.injEq] at h
      subst h
      cases hse : p.set s ⟨l, run, id, hf⟩ a value with
      | ok af =>
        obtain ⟨key, tx, hw, hk, hl, ht, hr, rfl⟩ := set_ok hse
        have hl : l = .ok () := hl
        have hr : run = .ok () := hr
        exact .inr ⟨_, key, tx, rfl, by simp only [quiet, hw, hk, hl, ht, hr]⟩
      | error error =>
        refine .inl ⟨rfl, rfl, rfl, ?_⟩
        simp only [quiet]
        split
        · rename_i key tx hw hk ht
          simp only [BwsProvider.set, set_secret, hw, hk, ht] at hse
          cases hse
        · rfl
    · cases h

/-- The project always has what was set last. -/
def Kept (project : Project) (s : State) : Prop := ∀ key, first key s.project.secrets = expected project s key

theorem Kept.step (hk : Kept project s) {e : Ev} (h : p.step s e = some t) : Kept project t := by
  intro other
  rcases step_cases h with ⟨-, hp, hs, -⟩ | ⟨w, key, tx, rfl, -⟩
  · rw [expected, hp, hs]
    exact hk other
  · rw [expected]
    rw [first_put, List.lookup_cons]
    by_cases ho : other = key
    · simp [ho]
    · have hn : (other == key) = false := by simpa using ho
      rw [if_neg ho, hn]
      exact hk other

theorem kept_reach (h : Reach (p.machine project) any s) : Kept project s :=
  h.inv (I := Kept project) (fun _ => rfl) fun _ _ _ hk _ hs => Kept.step hk hs

theorem expected_set (key text other : String) (a : Project) :
    expected project { s with project := a, sets := (key, text) :: s.sets } other =
      if other = key then some text else expected project s other := by
  show (((key, text) :: s.sets).lookup other).or _ = _
  rw [List.lookup_cons]
  by_cases ho : other = key
  · simp [ho]
  · have hn : (other == key) = false := by simpa using ho
    rw [if_neg ho, hn]
    rfl

/-- From a state in which reads observe writes, the quiet steps are those that keep it so. -/
theorem observes_step (hk : Kept project s) (ho : p.Observes project s) {e : Ev} (h : p.step s e = some t) :
    p.Observes project t ↔ p.quiet s e := by
  rw [observes_iff_view] at ho ⊢
  rcases step_cases h with ⟨hv, -, hs, hq⟩ | ⟨w, key, tx, rfl, hq⟩
  · refine iff_of_true (fun other => ?_) hq
    rw [hv, expected, hs]
    exact ho other
  · simp only [expected_set, hq, Bool.or_eq_true, beq_iff_eq, Bool.and_eq_true, decide_eq_true_eq]
    obtain ⟨c, current, st⟩ := s
    cases c with
    | some secrets =>
      -- reads go on from the listing, which has the value from before
      have hv : ∀ current st, view ⟨some secrets, current, st⟩ = secrets := fun _ _ => rfl
      simp only [hv] at ho ⊢
      constructor
      · intro hl
        have hy := (hl key).1
        rw [if_pos rfl, (ho key).1, ← hk key] at hy
        exact .inl hy
      · rintro (hm | ⟨hn, -⟩)
        · intro other
          refine ⟨?_, (ho other).2⟩
          rw [(ho other).1, ← hk other]
          by_cases hoh : other = key
          · rw [if_pos hoh, hoh, hm]
          · rw [if_neg hoh]
        · cases hn
    | none =>
      -- the next read lists the project as it is now
      have hv : ∀ current st, view ⟨none, current, st⟩ = current.secrets := fun _ _ => rfl
      simp only [hv] at ho ⊢
      constructor
      · intro hl
        have hy := (hl key).2
        rw [first_put, if_pos rfl, last_put_self] at hy
        by_cases hon : current.secrets.countP (fun sc => sc.key = key) ≤ 1
        · exact .inr ⟨rfl, hon⟩
        · rw [if_neg hon, (ho key).2] at hy
          exact .inl hy
      · intro hq other
        by_cases hoh : other = key
        · subst hoh
          rw [first_put, if_pos rfl, last_put_self]
          refine ⟨(if_pos rfl).symm, ?_⟩
          split
          · rfl
          · rename_i hmn
            rw [(ho other).2]
            exact hq.resolve_right fun hon => hmn hon.2
        · rw [first_put, if_neg hoh, if_neg hoh, last_put_other _ _ _ hoh]
          exact ho other

/-- Reads observe writes over every run of quiet steps when each key has one value at the start, and a step that is
    not quiet ends it. -/
theorem observes_iff (p : BwsProvider) (project : Project) :
    ((∀ s, Reach (p.machine project) p.quiet s → p.Observes project s) ↔
      ∀ key, first key project.secrets = last key project.secrets) ∧
    ∀ s e t, Reach (p.machine project) any s → p.Observes project s → p.step s e = some t →
      (p.Observes project t ↔ p.quiet s e = true) := by
  have ht : p.Observes project (p.machine project).init ↔ ∀ key, first key project.secrets = last key project.secrets := by
    rw [observes_iff_view]
    exact forall_congr' fun key => ⟨fun h => h.2.symm, fun h => ⟨rfl, h.symm⟩⟩
  constructor
  · constructor
    · exact fun h => ht.mp (h _ .init)
    · intro hn s hs
      refine hs.inv_reach (I := p.Observes project) (ht.mpr hn) fun s e t hr ho hq hp => ?_
      exact (observes_step (kept_reach hr.any) ho hp).mpr hq
  · exact fun s e t hr ho hp => observes_step (kept_reach hr) ho hp

/-! ## A read before a write -/

def provider : BwsProvider := ⟨"bws://a9230ec4-5507-4870-b8b5-b3f500587e4c", some "1"⟩

def database_url : Address := .Convention "app" "default" "DATABASE_URL"

/-- Nothing is stored under the key; it is read, set, and read back. -/
def read_set : List Ev :=
  [.get (.ok ()) database_url, .set (.ok ()) (.ok ()) "1b2c" database_url (utf8 "postgres://db")]

/-- The read after the write still finds nothing. -/
theorem read_back_stale : ∃ s, Reach (provider.machine ⟨[], by simp⟩) any s ∧ s.sets = [("DATABASE_URL", "postgres://db")] ∧
    provider.get s (.ok ()) database_url = .ok none ∧ ¬ provider.Observes ⟨[], by simp⟩ s := by
  obtain ⟨s, hs, hr⟩ := reach_of_run (provider.machine ⟨[], by simp⟩) any read_set
    (fun s => (s.sets, provider.get s (.ok ()) database_url)) ([("DATABASE_URL", "postgres://db")], .ok none) (by decide)
  obtain ⟨ht, hg⟩ := Prod.mk.inj hr
  refine ⟨s, hs, ht, hg, fun ho => ?_⟩
  have hd := ho.get database_url "DATABASE_URL" rfl
  rw [hg, expected, ht] at hd
  cases hd

end Monosecret.Providers.Bws
