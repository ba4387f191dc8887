/-
  Monosecret.Manifest.Composition — the dependency graph of a profile
  (`validate_composition_graph` in `monosecret/src/config.rs`).

  Templates, `from` and credentials share one graph. A visit is inside of a stack of names,
  each of which leads to the one above it; meeting a name it is inside of, it reports the
  part of the stack from there on. So a profile is accepted exactly when every edge is
  declared and of the right type and nothing depends on itself (`Composable`), and what is
  reported as a cycle is one (`composition_graph_checked`).
-/

import Mathlib.Data.List.Chain
import Mathlib.Data.List.Nodup
import Monosecret.Manifest.Validate

namespace Monosecret.Manifest

open Lib

/-! ## One profile -/

variable {profile : CompiledProfile} {name : String} {secret : CompiledSecret}

theorem CompiledProfile.get_mem (h : profile.get name = some secret) : (name, secret) ∈ profile.secrets := by
  obtain ⟨pre, p, hs, -⟩ := List.lookup_eq_some_iff.mp h
  rw [hs]
  exact List.mem_append_right _ (.head _)

theorem CompiledProfile.get_isSome : (profile.get name).isSome ↔ name ∈ profile.names := by
  unfold CompiledProfile.get CompiledProfile.names
  induction profile.secrets with
  | nil => simp
  | cons e en ih =>
    rw [List.lookup_cons, List.map_cons, List.mem_cons]
    by_cases hk : name = e.1
    · simp [hk]
    · simp only [beq_false_of_ne hk, hk, false_or]
      exact ih

theorem CompiledProfile.get_of_mem (hn : profile.names.Nodup) {e : String × CompiledSecret}
    (h : e ∈ profile.secrets) : profile.get e.1 = some e.2 := by
  obtain ⟨other, ho⟩ := Option.isSome_iff_exists.mp (get_isSome.mpr (List.mem_map_of_mem h))
  have hs := List.inj_on_of_nodup_map hn h (get_mem ho) rfl
  rw [ho, hs]

/-! ## The rules -/

/-- What a secret needs directly. -/
inductive Needs (secret : CompiledSecret) : String → Prop
  | reference {template : Template} {d : String} : secret.composition = some template → d ∈ template.dependencies →
      Needs secret d
  | source {d : String} : secret.config.source = some d → Needs secret d
  | credential {role d : String} : (role, d) ∈ secret.config.credential_secrets → Needs secret d

theorem mem_dependencies {d : String} : d ∈ secret.dependencies ↔ Needs secret d := by
  unfold CompiledSecret.dependencies
  rw [List.mem_append, List.mem_append]
  constructor
  · rintro ((h | h) | h)
    · cases hc : secret.composition with
      | none =>
        rw [hc] at h
        cases h
      | some t =>
        rw [hc] at h
        exact .reference hc h
    · exact .source (Option.mem_toList.mp h)
    · obtain ⟨⟨r, c⟩, hm, rfl⟩ := List.mem_map.mp h
      exact .credential hm
  · rintro (⟨hc, h⟩ | h | h)
    · left
      left
      rw [hc]
      exact h
    · exact .inl (.inr (Option.mem_toList.mpr h))
    · exact .inr (List.mem_map.mpr ⟨_, h, rfl⟩)

variable (profile : CompiledProfile)

def DependsOn (a b : String) : Prop := ∃ secret, profile.get a = some secret ∧ Needs secret b

/-- What a conversion or a selection may start from. -/
def source_fits (config source : Secret) : Prop :=
  match config.typed_contract with
  | some contract => contract.accepts_source source.secret_type = true
  | none => source.is_binary_value = false

/-- The edges of one secret are as they must be. -/
structure Connected (name : String) (secret : CompiledSecret) : Prop where
  declared : ∀ d, Needs secret d → d ≠ name ∧ ∃ other, profile.get d = some other
  source : ∀ d other, secret.config.source = some d → profile.get d = some other → source_fits secret.config other.config
  credential : ∀ role d other, (role, d) ∈ secret.config.credential_secrets → profile.get d = some other →
    other.config.as_path ≠ some true ∧ other.config.is_binary_value = false

/-- What the composition graph of a profile must be. -/
structure Composable : Prop where
  connected : ∀ name secret, (name, secret) ∈ profile.secrets → Connected profile name secret
  acyclic : ∀ name, ¬ Relation.TransGen (DependsOn profile) name name

/-- What a profile may be refused with. -/
inductive Refused (profile_name : String) : ParseError → Prop
  | dependency {name : String} {secret : CompiledSecret} {message : String} : (name, secret) ∈ profile.secrets →
      ¬ Connected profile name secret →
      Refused profile_name (.Validation s!"Profile '{profile_name}': Secret '{name}': {message}")
  | cycle {walk : List String} {shown : String} :
      (∀ name secret, (name, secret) ∈ profile.secrets → Connected profile name secret) →
      Search.ClosedWalk (DependsOn profile) walk → shown = " -> ".intercalate walk →
      Refused profile_name (.Validation s!"Profile '{profile_name}': derived secret cycle: {shown}")

variable {profile}

/-! ## The checks of one secret -/

theorem refuse_eq_ok {b : Bool} {m : String} : refuse b m = .ok () ↔ b = false := by
  cases b <;> simp [refuse]

theorem option_forM_eq_ok {α : Type} {f : α → Except String Unit} {o : Option α} :
    o.forM f = .ok () ↔ ∀ a, o = some a → f a = .ok () := by
  cases o with
  | none => exact iff_of_true rfl nofun
  | some a => exact ⟨fun h b hb => by cases hb; exact h, fun h => h a rfl⟩

theorem validate_dependency_ok {d : String} :
    validate_dependency profile name d = .ok () ↔ d ≠ name ∧ ∃ other, profile.get d = some other := by
  unfold validate_dependency
  rw [Except.bind_unit_eq_ok, refuse_eq_ok, refuse_eq_ok, ← Option.isSome_iff_exists]
  simp

variable {other : CompiledSecret}

theorem dependency_config_of {d : String} (h : profile.get d = some other) :
    dependency_config profile d = .ok other.config := by
  rw [dependency_config, h]

theorem validate_source_type_ok {c : Secret} {d : String} (h : profile.get d = some other) :
    validate_source_type profile c d = .ok () ↔ source_fits c other.config := by
  unfold validate_source_type source_fits
  rw [dependency_config_of h]
  cases c.typed_contract with
  | none => exact refuse_eq_ok
  | some cn =>
    refine refuse_eq_ok.trans ?_
    simp

theorem validate_credential_type_ok (b : String × String) (h : profile.get b.2 = some other) :
    validate_credential_type profile b = .ok () ↔
      other.config.as_path ≠ some true ∧ other.config.is_binary_value = false := by
  unfold validate_credential_type
  simp only [dependency_config_of h]
  refine Except.bind_unit_eq_ok.trans ?_
  rw [refuse_eq_ok, refuse_eq_ok]
  simp

theorem validate_dependencies_ok :
    validate_dependencies profile name secret = .ok () ↔ Connected profile name secret := by
  unfold validate_dependencies
  rw [Except.bind_unit_eq_ok, Except.bind_unit_eq_ok, Except.forM_ok_iff, option_forM_eq_ok, Except.forM_ok_iff]
  have hdc : (∀ d ∈ secret.dependencies, validate_dependency profile name d = .ok ()) ↔
      ∀ d, Needs secret d → d ≠ name ∧ ∃ other, profile.get d = some other := by
    simp only [mem_dependencies, validate_dependency_ok]
  rw [hdc]
  constructor
  · rintro ⟨hd, hs, hc⟩
    refine ⟨hd, ?_, ?_⟩
    · intro d other hr hg
      exact (validate_source_type_ok hg).mp (hs d hr)
    · intro r d other hm hg
      exact (validate_credential_type_ok (r, d) hg).mp (hc _ hm)
  · rintro ⟨hd, hs, hc⟩
    refine ⟨hd, ?_, ?_⟩
    · intro d hr
      obtain ⟨other, hg⟩ := (hd d (.source hr)).2
      exact (validate_source_type_ok hg).mpr (hs d other hr hg)
    · rintro ⟨r, d⟩ hm
      obtain ⟨other, hg⟩ := (hd d (.credential hm)).2
      exact (validate_credential_type_ok (r, d) hg).mpr (hc r d other hm hg)

/-! ## The visit -/

/-- The visit of a search that is inside of `stack`: it goes through as the search does, and what
    it reports when the search stops at a cycle is one. -/
def Mirrors (next : String → List String) (stack : List String) :
    Except (List String) (List String) → Except (Search.Stop String) (Search String) → Prop
  | .ok done, searched => searched = .ok ⟨stack, done⟩
  | .error walk, searched =>
    searched = .error .fuel ∨ (∃ b, searched = .error (.cycle b)) ∧ Search.ClosedWalk (Search.Leads next) walk

theorem Mirrors.bind {next : String → List String} {st s' : List String}
    {v : Except (List String) (List String)} {s : Except (Search.Stop String) (Search String)}
    {f : List String → Except (List String) (List String)} {g : Search String → Except (Search.Stop String) (Search String)}
    (h : Mirrors next st v s) (hr : ∀ m, Mirrors next s' (f m) (g ⟨st, m⟩)) :
    Mirrors next s' (v >>= f) (s >>= g) := by
  cases v with
  | error w =>
    rcases h with hf | ⟨⟨b, hc⟩, hw⟩
    · rw [hf]
      exact .inl rfl
    · rw [hc]
      exact .inr ⟨⟨b, rfl⟩, hw⟩
  | ok m =>
    rw [show s = .ok ⟨st, m⟩ from h]
    exact hr m

/-- From the last name of the stack on it comes back to `name`. -/
theorem closed_walk_of_stack {next : String → List String} {s : List String}
    (hi : List.IsChain (fun b a => Search.Leads next a b) (name :: s)) (hm : name ∈ s) :
    Search.ClosedWalk (Search.Leads next) (name :: (s.takeWhile (· != name)).reverse ++ [name]) := by
  refine ⟨name, (s.takeWhile (· != name)).reverse, rfl, ?_⟩
  -- The stack goes on from the part above `name` with `name` itself.
  have hs : ∃ below, s = s.takeWhile (· != name) ++ name :: below := by
    clear hi
    induction s with
    | nil => cases hm
    | cons t s ih =>
      by_cases ht : t = name
      · exact ⟨s, by simp [ht]⟩
      · obtain ⟨below, hb⟩ := ih ((List.mem_cons.mp hm).resolve_left (Ne.symm ht))
        refine ⟨below, ?_⟩
        rw [List.takeWhile_cons_of_pos (by simpa using ht), List.cons_append, ← hb]
  obtain ⟨below, hb⟩ := hs
  have hp : List.IsChain (fun b a => Search.Leads next a b) (name :: s.takeWhile (· != name) ++ [name]) := by
    rw [hb, ← List.singleton_append (l := below), ← List.append_assoc, ← List.cons_append] at hi
    exact hi.left_of_append
  have hr := List.isChain_reverse.mpr hp
  simpa using hr

theorem visit_mirrors {next : String → List String} {f : Nat} {st : List String} (done : List String)
    (hi : List.IsChain (fun b a => Search.Leads next a b) (name :: st)) :
    Mirrors next st (visit next f name st done) (Search.search next f name ⟨st, done⟩) := by
  induction f generalizing name st done with
  | zero => exact .inl rfl
  | succ f ih =>
    have hf : ∀ (r : List String) (done : List String), (∀ b ∈ r, Search.Leads next name b) →
        Mirrors next (name :: st)
          (r.foldlM (fun done d => visit next f d (name :: st) done) done)
          (r.foldlM (fun s b => Search.search next f b s) ⟨name :: st, done⟩) := by
      intro r
      induction r with
      | nil => exact fun _ _ => rfl
      | cons rt r i =>
        intro done hr
        have ho := @ih rt (name :: st) done
          (List.isChain_cons_cons.mpr ⟨hr rt (.head _), hi⟩)
        rw [List.foldlM_cons, List.foldlM_cons]
        exact ho.bind fun m => i m fun b hb => hr b (.tail _ hb)
    unfold visit Search.search
    by_cases hd : name ∈ done
    · rw [if_pos hd, if_pos hd]
      exact rfl
    rw [if_neg hd, if_neg hd]
    by_cases hs : name ∈ st
    · rw [if_pos hs, if_pos hs]
      exact .inr ⟨⟨name, rfl⟩, closed_walk_of_stack hi hs⟩
    rw [if_neg hs, if_neg hs]
    exact (hf (next name) done fun b hb => hb).bind fun m => rfl

/-- Each root is visited from outside. -/
theorem visits_mirror (next : String → List String) (f : Nat) (r done : List String) :
    Mirrors next [] (r.foldlM (fun done name => visit next f name [] done) done)
      (Search.search_all next f r ⟨[], done⟩) := by
  unfold Search.search_all
  induction r generalizing done with
  | nil => exact rfl
  | cons rt r ih =>
    have ho := @visit_mirrors rt next f [] done (List.isChain_singleton rt)
    rw [List.foldlM_cons, List.foldlM_cons]
    exact ho.bind fun m => ih m

/-! ## The graph -/

theorem mem_composition_nodes (hg : profile.get name = some secret) (hd : secret.dependencies ≠ []) :
    name ∈ composition_nodes profile :=
  List.mem_map.mpr ⟨(name, secret), List.mem_filter.mpr ⟨CompiledProfile.get_mem hg, by simpa using hd⟩, rfl⟩

theorem graph_edge {d : String} (hg : profile.get name = some secret) (hd : d ∈ secret.dependencies)
    (ho : profile.get d = some other) (hn : other.dependencies ≠ []) : d ∈ composition_graph profile name := by
  unfold composition_graph
  rw [hg]
  exact List.mem_filter.mpr ⟨hd, by simpa [ho] using hn⟩

theorem graph_declared {a b : String} (h : b ∈ composition_graph profile a) : b ∈ profile.names := by
  unfold composition_graph at h
  cases hg : profile.get a with
  | none =>
    rw [hg] at h
    cases h
  | some secret =>
    rw [hg] at h
    obtain ⟨-, ha⟩ := List.mem_filter.mp h
    refine CompiledProfile.get_isSome.mp ?_
    cases ho : profile.get b with
    | none =>
      rw [ho] at ha
      cases ha
    | some other => rfl


theorem leads_depends {a b : String} (h : Search.Leads (composition_graph profile) a b) : DependsOn profile a b := by
  unfold Search.Leads composition_graph at h
  cases hg : profile.get a with
  | none =>
    rw [hg] at h
    cases h
  | some secret =>
    rw [hg] at h
    exact ⟨secret, hg, mem_dependencies.mp (List.mem_filter.mp h).1⟩

theorem depends_leads {a b c : String} (ha : DependsOn profile a b) (hb : DependsOn profile b c) :
    Search.Leads (composition_graph profile) a b := by
  obtain ⟨secret, hg, hn⟩ := ha
  obtain ⟨other, ho, hn'⟩ := hb
  exact graph_edge hg (mem_dependencies.mpr hn) ho (List.ne_nil_of_mem (mem_dependencies.mpr hn'))

/-- A name without dependencies is on no cycle, so leaving those out loses none. -/
theorem cyclic_iff :
    Search.Cyclic (composition_graph profile) name ↔ Relation.TransGen (DependsOn profile) name name := by
  constructor
  · have hl : Search.Leads (composition_graph profile) ≤ DependsOn profile := fun _ _ => leads_depends
    exact Relation.TransGen.mono hl name name
  · intro h
    have hp : ∀ {a b}, Relation.TransGen (DependsOn profile) a b → (∃ c, DependsOn profile b c) →
        Relation.TransGen (Search.Leads (composition_graph profile)) a b := by
      intro a b ha
      induction ha with
      | single hs => exact fun ⟨_, hn⟩ => .single (depends_leads hs hn)
      | tail _ hs ih => exact fun ⟨_, hn⟩ => (ih ⟨_, hs⟩).tail (depends_leads hs hn)
    obtain ⟨c, hf, -⟩ := Relation.TransGen.head'_iff.mp h
    exact hp h ⟨c, hf⟩

theorem composition_node_declared (h : name ∈ composition_nodes profile) : name ∈ profile.names := by
  obtain ⟨e, he, rfl⟩ := List.mem_map.mp h
  exact List.mem_map_of_mem (List.mem_filter.mp he).1

/-- The visits of all nodes: they go through when nothing depends on itself, and otherwise end at a cycle. -/
theorem visits_ok_iff (profile : CompiledProfile) :
    match (composition_nodes profile).foldlM (fun done name =>
        visit (composition_graph profile) (profile.secrets.length + 1) name [] done) [] with
    | .ok _ => ∀ name, ¬ Relation.TransGen (DependsOn profile) name name
    | .error w => Search.ClosedWalk (DependsOn profile) w ∧ ∃ name, Relation.TransGen (DependsOn profile) name name := by
  have hl : profile.names.length < profile.secrets.length + 1 := by simp [CompiledProfile.names]
  have ho := @Search.search_all_outcome String _ (composition_graph profile) profile.names (composition_nodes profile) _
    (fun _ _ _ hb => graph_declared hb) (fun _ => composition_node_declared) hl
  have hk := @Search.search_all_ok_iff String _ (composition_graph profile) profile.names (composition_nodes profile) _
    (fun _ _ _ hb => graph_declared hb) (fun _ => composition_node_declared) hl
  have hm := visits_mirror (composition_graph profile) (profile.secrets.length + 1) (composition_nodes profile) []
  cases hv : (composition_nodes profile).foldlM (fun done name =>
      visit (composition_graph profile) (profile.secrets.length + 1) name [] done) [] with
  | ok done =>
    rw [hv] at hm
    intro name hc
    obtain ⟨c, ⟨secret, hg, hn⟩, -⟩ := Relation.TransGen.head'_iff.mp hc
    have hno := mem_composition_nodes hg (List.ne_nil_of_mem (mem_dependencies.mpr hn))
    exact hk.mp ⟨_, hm⟩ name hno name .refl (cyclic_iff.mpr hc)
  | error w =>
    rw [hv] at hm
    rcases hm with hf | ⟨⟨b, hc⟩, a, i, hw, hch⟩
    · rw [show Search.search_all (composition_graph profile) (profile.secrets.length + 1) (composition_nodes profile)
        .empty = .error .fuel from hf] at ho
      exact ho.elim
    · rw [show Search.search_all (composition_graph profile) (profile.secrets.length + 1) (composition_nodes profile)
        .empty = .error (.cycle b) from hc] at ho
      exact ⟨⟨a, i, hw, hch.imp fun _ _ => leads_depends⟩, b, cyclic_iff.mp ho.1⟩

/-- `validate_composition_graph` accepts the composable profiles, and a cycle it reports is one. -/
theorem composition_graph_checked (profile_name : String) (profile : CompiledProfile) :
    (validate_composition_graph profile_name profile = .ok () ↔ Composable profile) ∧
      ∀ error, validate_composition_graph profile_name profile = .error error → Refused profile profile_name error := by
  have hs := visits_ok_iff profile
  unfold validate_composition_graph
  cases hl : profile.secrets.forM fun en =>
      let name := en.1
      (validate_dependencies profile name en.2).mapError fun m =>
        ParseError.Validation s!"Profile '{profile_name}': Secret '{name}': {m}" with
  | error e =>
    obtain ⟨⟨name, secret⟩, hm, he⟩ := Except.forM_error hl
    obtain ⟨m, hr, rfl⟩ := Except.mapError_error.mp he
    have hn : ¬ Connected profile name secret := by
      rw [← validate_dependencies_ok, hr]
      exact nofun
    constructor
    · exact iff_of_false nofun fun hc => hn (hc.connected name secret hm)
    · rintro error ⟨⟩
      exact .dependency hm hn
  | ok u =>
    have hcn : ∀ name secret, (name, secret) ∈ profile.secrets → Connected profile name secret := by
      intro name secret hm
      exact validate_dependencies_ok.mp (Except.mapError_ok.mp (Except.forM_ok_iff.mp hl _ hm))
    cases hv : (composition_nodes profile).foldlM (fun done name =>
        visit (composition_graph profile) (profile.secrets.length + 1) name [] done) [] with
    | ok done =>
      rw [hv] at hs
      exact ⟨iff_of_true rfl ⟨hcn, hs⟩, nofun⟩
    | error w =>
      rw [hv] at hs
      obtain ⟨hw, name, hy⟩ := hs
      constructor
      · exact iff_of_false nofun fun hc => hc.acyclic name hy
      · rintro error ⟨⟩
        exact .cycle hcn hw rfl

end Monosecret.Manifest
