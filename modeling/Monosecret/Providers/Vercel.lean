/-
  Monosecret.Providers.Vercel — environment variables of Vercel projects
  (`monosecret/src/provider/vercel.rs`).

  Configurations are those `try_from` accepts. The service has a list of entries for a
  project, each serving some targets; an upsert gives one target an entry of its own, and
  DELETE drops one entry. A project is named by its ID or its name, in a team or in the
  token's own scope, and which one that is, is the service's.

  Proved: what an operation of one configuration changes for another (`touches_iff`), and the
  two are isolated or reported exactly where those it touches are written alike
  (`isolated_iff`).
-/

import Monosecret.Providers.Variables

namespace Monosecret.Providers

open Lib Cache

namespace Vercel

def KNOWN_TARGETS : List String := ["production", "preview", "development"]

def KNOWN_TYPES : List String := ["encrypted", "plain", "sensitive"]

def SENSITIVE_TYPE : String := "sensitive"

def name_is_plain (value : String) : Bool :=
  value ≠ "" && value.utf8ByteSize ≤ 100 && value.toList.all fun c => c.isAlphanum || c == '-' || c == '_'

def validate_project_name (project : String) : Except String Unit :=
  if name_is_plain project then .ok ()
  else .error "Vercel project IDs and names are at most 100 ASCII letters, digits, hyphens, or underscores"

def validate_team_id (team_id : String) : Except String Unit :=
  if name_is_plain team_id then .ok ()
  else .error "Vercel team IDs are at most 100 ASCII letters, digits, hyphens, or underscores"

structure VercelConfig where
  /-- An ID or a name. -/
  project : String
  team_id : Option String
  target : String
  kind : String
  project_valid : validate_project_name project = .ok ()
  team_valid : ∀ team ∈ team_id, validate_team_id team = .ok ()
  target_known : target ∈ KNOWN_TARGETS
  kind_known : kind ∈ KNOWN_TYPES

structure EnvEntry where
  id : Nat
  key : String
  value : Option String
  /-- A string, an array, or none. -/
  target : List String
  var_type : Option String
  deriving DecidableEq

/-- The entries of a project. -/
structure Project where
  entries : List EnvEntry
  ids_distinct : (entries.map EnvEntry.id).Nodup

/-- The project that a name or ID is for a team, or for the token's own scope. -/
abbrev Projects := Option String → String → String

abbrev Remote := Cells Projects String Project

def matches_key (key target : String) (entry : EnvEntry) : Bool := entry.key = key && target ∈ entry.target

/-- The entry without the target; none when it served no other. -/
def without_target (key target : String) (entry : EnvEntry) : Option EnvEntry :=
  if matches_key key target entry then
    if entry.target.all (· = target) then none else some { entry with target := entry.target.filter (· ≠ target) }
  else some entry

def Project.next_id (project : Project) : Nat := (project.entries.map EnvEntry.id).max?.getD 0 + 1

theorem without_target_id {k t : String} {e e' : EnvEntry} (h : without_target k t e = some e') :
    e'.id = e.id := by
  unfold without_target at h
  split_ifs at h <;> cases h <;> rfl

theorem filterMap_ids_sublist {f : EnvEntry → Option EnvEntry} (hf : ∀ e e', f e = some e' → e'.id = e.id)
    (en : List EnvEntry) : ((en.filterMap f).map EnvEntry.id).Sublist (en.map EnvEntry.id) := by
  induction en with
  | nil => exact .slnil
  | cons e en ih =>
    cases he : f e with
    | none => simpa [he] using ih.cons e.id
    | some e' => simpa [he, hf e e' he] using ih

/-- POST with `upsert=true`. -/
def Project.upsert (project : Project) (key target value kind : String) : Project where
  entries := project.entries.filterMap (without_target key target) ++
    [⟨project.next_id, key, some value, [target], some kind⟩]
  ids_distinct := by
    rw [List.map_append, List.map_singleton, List.nodup_append]
    have hsub := filterMap_ids_sublist (fun _ _ => @without_target_id key target _ _) project.entries
    refine ⟨project.ids_distinct.sublist hsub, List.nodup_singleton _, ?_⟩
    intro id hid new hnew he
    have hle : id ≤ (project.entries.map EnvEntry.id).max?.getD 0 := List.le_max?_getD_of_mem (hsub.subset hid)
    rw [he, List.mem_singleton.mp hnew, Project.next_id] at hle
    exact absurd hle (Nat.not_succ_le_self _)

/-- DELETE of one entry. -/
def Project.remove (project : Project) (id : Nat) : Project where
  entries := project.entries.filter (·.id ≠ id)
  ids_distinct := project.ids_distinct.sublist (List.filter_sublist.map _)

namespace VercelConfig

variable (c : VercelConfig) (VERCEL_ORG_ID : Option String)

def team_id_or_env : Option String :=
  (c.team_id.or (VERCEL_ORG_ID.filter (· ≠ ""))).filter (· ≠ "")

def storage_identity : String :=
  "vercel://" ++ (((c.team_id_or_env VERCEL_ORG_ID).getD "personal" ++ "/" ++ c.project) ++ "/" ++ c.target)

def provider : Provider String := variable_provider "vercel" (c.storage_identity VERCEL_ORG_ID)

def secret_name (addr : Address) : Except String String := do
  checked_name "Vercel environment" (← (c.provider VERCEL_ORG_ID).flat_item addr)

def envs_path (projects : Projects) : String := projects (c.team_id_or_env VERCEL_ORG_ID) c.project

def list_envs (remote : Remote) : List EnvEntry := (remote.held (c.envs_path VERCEL_ORG_ID remote.names)).entries

/-- What an entry that was found reads as. -/
def read_entry (key : String) : Option EnvEntry → Except String (Option SecretBytes)
  | none => .ok none
  | some entry =>
    if entry.var_type = some SENSITIVE_TYPE then
      .error
        (s!"Vercel variable '{key}' is sensitive, so its value is readable only inside Vercel deployments; write it " ++
          "with `type=encrypted` or read it from another provider")
    else
      match entry.value with
      | none =>
        let var_type := entry.var_type.getD "unknown"
        .error s!"Vercel returned no decrypted value for '{key}' (type '{var_type}')"
      | some value => .ok (some (utf8 value))

def get_async (key : String) (remote : Remote) : Except String (Option SecretBytes) :=
  read_entry key ((c.list_envs VERCEL_ORG_ID remote).find? (matches_key key c.target))

def set_async (key value : String) (remote : Remote) : Remote :=
  let path := c.envs_path VERCEL_ORG_ID remote.names
  remote.put path ((remote.held path).upsert key c.target value c.kind)

/-- Each matching entry goes, with all its targets. -/
def delete_matching (key : String) (project : Project) : Project :=
  (project.entries.filter (matches_key key c.target)).foldl (fun project entry => project.remove entry.id) project

def delete_async (key : String) (remote : Remote) : Bool × Remote :=
  let path := c.envs_path VERCEL_ORG_ID remote.names
  ((c.list_envs VERCEL_ORG_ID remote).any (matches_key key c.target), remote.put path (c.delete_matching key (remote.held path)))

def store : Store String Remote where
  toProvider := c.provider VERCEL_ORG_ID
  get addr remote := do
    let name ← c.secret_name VERCEL_ORG_ID addr
    c.get_async VERCEL_ORG_ID name remote
  set addr value remote := do
    let name ← c.secret_name VERCEL_ORG_ID addr
    let value ← require_utf8 "vercel" value
    return c.set_async VERCEL_ORG_ID name value remote
  delete addr remote := do
    let name ← c.secret_name VERCEL_ORG_ID addr
    return c.delete_async VERCEL_ORG_ID name remote

end VercelConfig

/-! ### What each operation leaves to be found -/

theorem matches_without_target {k target key' target' : String} (h : ¬(k = key' ∧ target = target')) (entry : EnvEntry) :
    ((without_target k target entry).any (matches_key key' target')) = matches_key key' target' entry := by
  unfold without_target
  split_ifs with hm ha
  · simp only [matches_key, Bool.and_eq_true, decide_eq_true_eq, List.all_eq_true] at hm ha
    simp only [Option.any_none, matches_key, Bool.false_eq, Bool.and_eq_false_iff, decide_eq_false_iff_not]
    by_contra hc
    push Not at hc
    exact h ⟨hm.1.symm.trans hc.1, (ha target' hc.2).symm⟩
  · simp only [matches_key, Bool.and_eq_true, decide_eq_true_eq] at hm
    have hk : entry.key = key' → target' ≠ target := fun hy ht => h ⟨hm.1.symm.trans hy, ht.symm⟩
    by_cases hy : entry.key = key'
    · simp [matches_key, hy, hk hy]
    · simp [matches_key, hy]
  · rfl

theorem matches_without_own (k t : String) (e : EnvEntry) :
    ((without_target k t e).any (matches_key k t)) = false := by
  unfold without_target
  split_ifs with hm ha
  · rfl
  · simp [matches_key]
  · simpa using hm

/-- An upsert is found under its own key and target. -/
theorem find_upsert (p : Project) (k t value kn : String) :
    (p.upsert k t value kn).entries.find? (matches_key k t) =
      some ⟨p.next_id, k, some value, [t], some kn⟩ := by
  have hn : p.entries.find? (fun _ => false) = none := List.find?_eq_none.mpr fun _ _ => Bool.false_ne_true
  simp [Project.upsert, matches_without_own, hn, matches_key]

theorem read_without_target {k t k' : String} {e : EnvEntry} (h : (without_target k t e).isSome) :
    VercelConfig.read_entry k' (without_target k t e) = VercelConfig.read_entry k' (some e) := by
  unfold without_target at h ⊢
  split_ifs with hm ha
  · simp [hm, ha] at h
  · rfl
  · rfl

theorem read_upsert_other {k t k' t' : String} (h : ¬(k = k' ∧ t = t')) (p : Project)
    (value kn : String) :
    VercelConfig.read_entry k' ((p.upsert k t value kn).entries.find? (matches_key k' t')) =
      VercelConfig.read_entry k' (p.entries.find? (matches_key k' t')) := by
  have hn : matches_key k' t' ⟨p.next_id, k, some value, [t], some kn⟩ = false := by
    simp only [matches_key, List.mem_singleton, Bool.and_eq_false_iff, decide_eq_false_iff_not]
    by_contra hc
    push Not at hc
    exact h ⟨hc.1, hc.2.symm⟩
  simp only [Project.upsert, List.find?_append, List.find?_filterMap, matches_without_target h, List.find?_singleton, hn,
    Bool.false_eq_true, if_false, Option.or_none]
  cases hf : p.entries.find? (matches_key k' t') with
  | none => rfl
  | some e =>
    refine read_without_target ?_
    have ha := matches_without_target h e
    rw [List.find?_some hf] at ha
    exact Option.isSome_of_any ha

theorem entries_remove_each (r : List EnvEntry) (p : Project) :
    (r.foldl (fun p e => p.remove e.id) p).entries =
      p.entries.filter fun e => r.all fun g => g.id ≠ e.id := by
  induction r generalizing p with
  | nil => simp
  | cons g r ih =>
    rw [List.foldl_cons, ih, Project.remove, List.filter_filter]
    refine List.filter_congr fun e _ => ?_
    simp only [List.all_cons, ne_eq, eq_comm, Bool.and_comm]

/-- A deletion leaves the entries that do not match. -/
theorem entries_delete_matching (c : VercelConfig) (k : String) (p : Project) :
    (c.delete_matching k p).entries = p.entries.filter fun entry => !matches_key k c.target entry := by
  rw [VercelConfig.delete_matching, entries_remove_each]
  refine List.filter_congr fun entry hm => ?_
  cases ht : matches_key k c.target entry with
  | true =>
    rw [Bool.not_true, List.all_eq_false]
    exact ⟨entry, List.mem_filter.mpr ⟨hm, ht⟩, by simp⟩
  | false =>
    rw [Bool.not_false, List.all_eq_true]
    intro g hg
    obtain ⟨hg, hc⟩ := List.mem_filter.mp hg
    refine decide_eq_true fun hi => ?_
    rw [List.inj_on_of_nodup_map p.ids_distinct hg hm hi, ht] at hc
    cases hc

namespace VercelConfig

/-- What one configuration's operations on a project change for the other, at one key. -/
def Touches (first second : VercelConfig) (key : String) (project : Project) : Prop :=
  first.target = second.target ∨
    read_entry key ((project.entries.filter fun entry => !matches_key key first.target entry).find?
        (matches_key key second.target)) ≠
      read_entry key (project.entries.find? (matches_key key second.target))

theorem read_upsert_own (first : VercelConfig) (k value : String) (p : Project) :
    read_entry k ((p.upsert k first.target value first.kind).entries.find? (matches_key k first.target)) ≠
      .ok none := by
  rw [find_upsert, read_entry]
  split
  · simp
  · simp

theorem touches_iff {first second : VercelConfig} {k key' : String} {project : Project} :
    ((∃ value, read_entry key' ((project.upsert k first.target value first.kind).entries.find?
          (matches_key key' second.target)) ≠ read_entry key' (project.entries.find? (matches_key key' second.target))) ∨
      read_entry key' ((first.delete_matching k project).entries.find? (matches_key key' second.target)) ≠
        read_entry key' (project.entries.find? (matches_key key' second.target))) ↔
      k = key' ∧ Touches first second key' project := by
  rw [entries_delete_matching]
  constructor
  · rintro (⟨value, hn⟩ | hn)
    · by_cases hs : k = key' ∧ first.target = second.target
      · exact ⟨hs.1, .inl hs.2⟩
      · exact absurd (read_upsert_other hs project value first.kind) hn
    · by_cases hk : k = key'
      · subst hk
        exact ⟨rfl, .inr hn⟩
      · have hp : ∀ entry : EnvEntry, (decide ((!matches_key k first.target entry) ∧
            matches_key key' second.target entry)) = matches_key key' second.target entry := by
          intro entry
          by_cases he : entry.key = key'
          · simp [matches_key, he, Ne.symm hk]
          · simp [matches_key, he]
        rw [List.find?_filter, funext hp] at hn
        exact absurd rfl hn
  · rintro ⟨rfl, ht | hn⟩
    · rw [ht]
      cases hf : project.entries.find? (matches_key k second.target) with
      | none =>
        refine .inl ⟨"", ?_⟩
        have ho := read_upsert_own first k "" project
        rwa [ht] at ho
      | some entry =>
        refine .inr ?_
        have hnn : (project.entries.filter fun entry => !matches_key k second.target entry).find?
            (matches_key k second.target) = none := by
          rw [List.find?_eq_none]
          intro entry he
          simpa using (List.mem_filter.mp he).2
        rw [hnn, read_entry, read_entry]
        split
        · simp
        · split <;> simp
    · exact .inr hn

variable {VERCEL_ORG_ID : Option String}

/-- One reaches the other where the project and the key are the same and the operations touch it. -/
theorem reaches_iff {first s : VercelConfig} {a b : Address} {r : Remote} :
    Reaches (first.store VERCEL_ORG_ID) a (s.store VERCEL_ORG_ID) b r ↔
      ∃ k, first.secret_name VERCEL_ORG_ID a = .ok k ∧ s.secret_name VERCEL_ORG_ID b = .ok k ∧
        first.envs_path VERCEL_ORG_ID r.names = s.envs_path VERCEL_ORG_ID r.names ∧
          Touches first s k (r.held (s.envs_path VERCEL_ORG_ID r.names)) := by
  rw [reaches_iff_named (fun _ names => .ok (first.envs_path VERCEL_ORG_ID names))
    (fun _ names => .ok (s.envs_path VERCEL_ORG_ID names))
    (fun k t p => p.upsert k first.target t first.kind)
    (fun k p => (p.entries.any (matches_key k first.target), first.delete_matching k p))
    (fun k p => read_entry k (p.entries.find? (matches_key k s.target)))
    (fun _ _ => rfl) (fun _ => rfl) (fun _ => rfl)]
  constructor
  · rintro ⟨k, k', pt, hk, hk', hp, hp', hs⟩
    cases hp
    have hm : first.envs_path VERCEL_ORG_ID r.names = s.envs_path VERCEL_ORG_ID r.names :=
      (Except.ok.inj hp').symm
    obtain ⟨rfl, ht⟩ := touches_iff.mp hs
    exact ⟨k, hk, hk', hm, hm ▸ ht⟩
  · rintro ⟨k, hk, hk', hp, ht⟩
    exact ⟨k, k, _, hk, hk', rfl, by rw [hp], touches_iff.mpr ⟨rfl, hp ▸ ht⟩⟩

theorem project_no_slash (c : VercelConfig) : '/' ∉ c.project.toList := by
  have hv := c.project_valid
  unfold validate_project_name at hv
  split at hv
  · next h =>
    intro hm
    simp only [name_is_plain, Bool.and_eq_true, List.all_eq_true] at h
    exact absurd (h.2 '/' hm) (by decide)
  · cases hv

theorem target_no_slash (c : VercelConfig) : '/' ∉ c.target.toList := by
  have hk : ∀ t ∈ KNOWN_TARGETS, '/' ∉ t.toList := by decide
  exact hk c.target c.target_known

theorem storage_identity_iff {first s : VercelConfig} :
    first.storage_identity VERCEL_ORG_ID = s.storage_identity VERCEL_ORG_ID ↔
      (first.team_id_or_env VERCEL_ORG_ID).getD "personal" = (s.team_id_or_env VERCEL_ORG_ID).getD "personal" ∧
        first.project = s.project ∧ first.target = s.target := by
  rw [storage_identity, storage_identity, String.append_right_inj,
    last_slash_iff (target_no_slash first) (target_no_slash s),
    last_slash_iff (project_no_slash first) (project_no_slash s), and_assoc]

theorem secret_name_ok {c : VercelConfig} {a : Address} {key : String}
    (h : c.secret_name VERCEL_ORG_ID a = .ok key) : (c.provider VERCEL_ORG_ID).flat_item a = .ok key := by
  obtain ⟨n, hn, h⟩ := Except.bind_ok h
  rw [hn, checked_name_ok h]

/-- One that reaches the other is reported exactly where the two are written alike. -/
theorem isolated_iff (f : Files String) {first s : VercelConfig} {a b : Address} {r : Remote} :
    Isolated f (first.store VERCEL_ORG_ID) a (s.store VERCEL_ORG_ID) b r ↔
      ∀ k, first.secret_name VERCEL_ORG_ID a = .ok k → s.secret_name VERCEL_ORG_ID b = .ok k →
        first.envs_path VERCEL_ORG_ID r.names = s.envs_path VERCEL_ORG_ID r.names →
          Touches first s k (r.held (s.envs_path VERCEL_ORG_ID r.names)) →
            (first.team_id_or_env VERCEL_ORG_ID).getD "personal" = (s.team_id_or_env VERCEL_ORG_ID).getD "personal" ∧
              first.project = s.project ∧ first.target = s.target := by
  rw [isolated_iff_named f rfl rfl (fun _ => secret_name_ok) (fun _ => secret_name_ok) reaches_iff]
  simp only [and_imp, storage_identity_iff]

end VercelConfig

end Vercel

end Monosecret.Providers
