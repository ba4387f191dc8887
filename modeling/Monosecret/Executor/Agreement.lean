/-
  Monosecret.Executor.Agreement — one secret planned alone and in a batch, the groups of a plan
  and what its routes are made of (`monosecret/src/plan.rs`).

  `plan_secret` serves one lookup, `build_plan_from_names` a batch; both plan a secret with
  `plan_one_secret`, under the override a command finds. `groups` is the loop over the planned
  secrets, with the index of each key it has met.

  Proved, for every configuration (`planning_agrees`): a batch is planned exactly when each of
  its names is, and to the same; the groups are the routed secrets by their key, in the order
  the keys are first seen; and nothing an accepted route names is a cached alias, but for the
  alias of the inline form, which names its own store, and no cache is the store of a source.

  Run: an inline alias is the primary of its own route (`inline_names_itself`).
-/

import Monosecret.Executor.Plan
import Monosecret.Plan.RouteChange

namespace Monosecret.Executor

open Lib Manifest
open Plan (MonosecretError Route ResolvedCache ProviderAlias ProviderCache)

/-! ## One secret and a batch -/

/-- What decides the override of a command; `ambient` is the environment's, unless blank. -/
structure Overrides where
  in_dependency_resolution : Bool
  provider : Option String
  ignore_ambient_provider : Bool
  ambient : Option String

def Overrides.explicit_provider_spec (overrides : Overrides) (override_arg : Option String) : Option String :=
  if overrides.in_dependency_resolution then override_arg
  else (override_arg.or overrides.provider).or (if overrides.ignore_ambient_provider then none else overrides.ambient)

theorem mapM_of_forall₂ {ε α β : Type} {f : α → Except ε β} {l : List α} {m : List β} (h : List.Forall₂ (fun a b => f a = .ok b) l m) :
    l.mapM f = .ok m := by
  induction h with
  | nil => rfl
  | cons ha _ ih =>
    rw [List.mapM_cons, ha, ih]
    rfl

section

variable (planner : Option String → Planner) (overrides : Overrides) (spec : CompiledSpec)

def plan_one (name profile_name : String) (override_spec : Option String) : Attempt MonosecretError (Option PlannedSecret) :=
  match (spec.profile profile_name).bind fun profile => profile.get name with
  | none => .ok none
  | some secret => (plan_one_secret (planner override_spec) name secret).map some

def plan_secret (name profile_name : String) (override_arg : Option String) : Attempt MonosecretError (Option PlannedSecret) :=
  plan_one planner spec name profile_name (overrides.explicit_provider_spec override_arg)

/-- A batch takes no override of its own. -/
def build_plan (profile_name : String) (names : List String) : Attempt MonosecretError ResolutionPlan :=
  build_plan_from_names (planner (overrides.explicit_provider_spec none)) spec profile_name names

variable {planner overrides spec} {profile_name : String} {override_arg : Option String}

theorem plan_secret_iff {p : CompiledProfile} (hp : spec.profile profile_name = some p)
    (ha : overrides.explicit_provider_spec override_arg = overrides.explicit_provider_spec none) (n : String) (pl : PlannedSecret) :
    plan_named (planner (overrides.explicit_provider_spec none)) p n = .ok pl ↔
      plan_secret planner overrides spec n profile_name override_arg = .ok (some pl) := by
  rw [plan_secret, ha, plan_one, hp, plan_named]
  show (Attempt.expect _ (p.get n) >>= _) = _ ↔ (match p.get n with | none => _ | some sc => _) = _
  cases p.get n with
  | none => exact iff_of_false nofun nofun
  | some sc =>
    show plan_one_secret _ n sc = _ ↔ (plan_one_secret _ n sc).map some = _
    rw [Except.map_eq_ok]
    exact ⟨fun h => ⟨pl, h, rfl⟩, fun ⟨other, h, hs⟩ => Option.some.inj hs ▸ h⟩

theorem build_plan_iff (ha : overrides.explicit_provider_spec override_arg = overrides.explicit_provider_spec none)
    (names : List String) (p : ResolutionPlan) :
    build_plan planner overrides spec profile_name names = .ok p ↔
      (spec.profile profile_name).isSome ∧ p.profile = profile_name ∧
        (planner (overrides.explicit_provider_spec none)).override_uri = .ok p.override_uri ∧
        List.Forall₂ (fun n pl => plan_secret planner overrides spec n profile_name override_arg = .ok (some pl))
          names p.secrets := by
  unfold build_plan build_plan_from_names
  cases hp : spec.profile profile_name with
  | none => exact iff_of_false nofun nofun
  | some pr =>
    simp only [← plan_secret_iff hp ha]
    constructor
    · intro h
      obtain ⟨p', hf, h⟩ := Except.bind_ok h
      cases hf
      obtain ⟨sc, hs, h⟩ := Except.bind_ok h
      obtain ⟨u, hu, h⟩ := Except.bind_ok h
      cases h
      exact ⟨rfl, rfl, Except.mapError_ok.mp hu, Except.mapM_ok hs⟩
    · rintro ⟨-, rfl, hu, hl⟩
      have hs := mapM_of_forall₂ hl
      show (names.mapM _ >>= fun sc => Attempt.call _ >>= fun u => _) = _
      rw [hs, Attempt.call, hu]
      rfl

end

/-! ## The groups of a plan -/

/-- The groups so far, and the index of each key. -/
structure Grouping (κ α : Type) where
  groups : List (κ × List α)
  group_index : Map κ Nat

section

variable {κ α : Type} [DecidableEq κ] {key : α → Option κ}

def Grouping.push (grouping : Grouping κ α) (primary : κ) (secret : α) : Grouping κ α :=
  match grouping.group_index primary with
  | some idx => { grouping with groups := grouping.groups.modify idx fun group => (group.1, group.2 ++ [secret]) }
  | none => ⟨grouping.groups ++ [(primary, [secret])], grouping.group_index.insert primary grouping.groups.length⟩

def group_by (key : α → Option κ) (secrets : List α) : Grouping κ α :=
  secrets.foldl (fun grouping secret => (key secret).elim grouping (grouping.push · secret)) ⟨[], .empty⟩

variable [BEq κ] [LawfulBEq κ]

/-- What is known of the groups when these have been seen. -/
structure Grouped (key : α → Option κ) (seen : List α) (grouping : Grouping κ α) : Prop where
  indexed : ∀ k i, grouping.group_index k = some i ↔ (grouping.groups.map Prod.fst)[i]? = some k
  members : ∀ (i : Nat) (group : κ × List α), grouping.groups[i]? = some group → group.2 = seen.filter fun a => key a = some group.1
  order : grouping.groups.map Prod.fst = (seen.filterMap key).eraseDups

theorem Grouped.push {sn : List α} {g : Grouping κ α} (h : Grouped key sn g) {a : α} {k : κ} (ha : key a = some k) :
    Grouped key (sn ++ [a]) (g.push k a) := by
  have hs : ((sn ++ [a]).filterMap key).eraseDups = (sn.filterMap key).eraseDups ++ if k ∈ sn.filterMap key then [] else [k] := by
    rw [List.filterMap_append, List.eraseDups_append]
    by_cases hn : k ∈ sn.filterMap key <;> simp [ha, hn, List.removeAll, List.eraseDups_cons, -List.mem_filterMap]
  unfold Grouping.push
  cases hd : g.group_index k with
  | some ix =>
    dsimp only
    have ht := (h.indexed k ix).mp hd
    have hn : k ∈ sn.filterMap key := List.mem_eraseDups.mp (h.order ▸ List.mem_of_getElem? ht)
    have hk : (g.groups.modify ix fun gr => (gr.1, gr.2 ++ [a])).map Prod.fst = g.groups.map Prod.fst := by
      refine List.ext_getElem? fun i => ?_
      rw [List.getElem?_map, List.getElem?_map, List.getElem?_modify]
      split_ifs <;> cases g.groups[i]? <;> rfl
    refine ⟨fun other i => ?_, fun i gr hg => ?_, ?_⟩
    · rw [hk]
      exact h.indexed other i
    · rw [List.getElem?_modify] at hg
      rw [List.filter_append, List.filter_singleton]
      obtain ⟨before, hf, hg⟩ := Option.map_eq_some_iff.mp hg
      have hke : before.1 = k ↔ ix = i := by
        constructor
        · rintro rfl
          have ho := (h.indexed before.1 i).mpr (by rw [List.getElem?_map, hf]; rfl)
          exact Option.some.inj (hd.symm.trans ho)
        · rintro rfl
          rw [List.getElem?_map, hf] at ht
          exact Option.some.inj ht
      split_ifs at hg with hi
      · cases hg
        simp [h.members i before hf, ha, hke.mpr hi]
      · cases hg
        have hne : k ≠ gr.1 := fun he => hi (hke.mp he.symm)
        simp [h.members i gr hf, ha, hne]
    · rw [hk, hs, if_pos hn, List.append_nil]
      exact h.order
  | none =>
    dsimp only
    have hnt : k ∉ sn.filterMap key := by
      intro hn
      obtain ⟨i, hi⟩ := List.mem_iff_getElem?.mp (List.mem_eraseDups.mpr hn)
      rw [← h.order] at hi
      cases hd.symm.trans ((h.indexed k i).mpr hi)
    have hl : (g.groups.map Prod.fst).length = g.groups.length := List.length_map _
    refine ⟨fun other i => ?_, fun i gr hg => ?_, ?_⟩
    · show g.group_index.insert k g.groups.length other = some i ↔ _
      rw [List.map_append, List.map_singleton, List.getElem?_append, hl]
      by_cases ho : other = k
      · subst ho
        rw [Map.insert_self]
        split_ifs with hi
        · have hno : (g.groups.map Prod.fst)[i]? ≠ some other := fun hi => by cases hd.symm.trans ((h.indexed other i).mpr hi)
          exact iff_of_false (fun he => by cases he; exact hi.false) hno
        · rw [List.getElem?_singleton]
          split_ifs with hz
          · simp only [Option.some.injEq, iff_true]
            omega
          · simp only [Option.some.injEq, iff_false]
            omega
      · rw [Map.insert_of_ne ho, h.indexed other i]
        split_ifs with hi
        · rfl
        · rw [List.getElem?_eq_none (by rw [hl]; exact Nat.not_lt.mp hi), List.getElem?_singleton]
          split_ifs <;> simp [Ne.symm ho]
    · rw [List.getElem?_append] at hg
      rw [List.filter_append, List.filter_singleton]
      split_ifs at hg with hi
      · have hne : k ≠ gr.1 := by
          rintro rfl
          exact hnt (List.mem_eraseDups.mp (h.order ▸ List.mem_map_of_mem (List.mem_of_getElem? hg)))
        simp [h.members i gr hg, ha, hne]
      · rw [List.getElem?_singleton] at hg
        split_ifs at hg
        cases hg
        have hnn : sn.filter (fun b => key b = some k) = [] :=
          List.filter_eq_nil_iff.mpr fun b hb hke => hnt (List.mem_filterMap.mpr ⟨b, hb, of_decide_eq_true hke⟩)
        simp [hnn, ha]
    · rw [List.map_append, hs, if_neg hnt, h.order]
      rfl

theorem grouped (key : α → Option κ) (sc : List α) : Grouped key sc (group_by key sc) := by
  induction sc using List.reverseRecOn with
  | nil => exact ⟨fun k i => by simp [group_by], nofun, rfl⟩
  | append_singleton sc a ih =>
    have hs : group_by key (sc ++ [a]) = (key a).elim (group_by key sc) ((group_by key sc).push · a) := by
      rw [group_by, List.foldl_append]
      rfl
    rw [hs]
    cases ha : key a with
    | some k => exact ih.push ha
    | none =>
      show Grouped key _ (group_by key sc)
      refine ⟨ih.indexed, fun i g hg => ?_, ?_⟩
      · rw [ih.members i g hg]
        simp [ha]
      · rw [ih.order]
        simp [ha]

end

/-- Primary-store groups in first-seen order, as the loop collects them. -/
def ResolutionPlan.grouped (plan : ResolutionPlan) : List (Option Text × List PlannedSecret) :=
  (group_by (fun planned => planned.route.map group_key) plan.secrets).groups

/-- The groups have each routed secret once, under its key. -/
theorem grouped_partition (pl : ResolutionPlan) :
    pl.grouped = pl.groups ∧ (pl.grouped.map Prod.fst).Nodup ∧
      ∀ p ∈ pl.secrets, p.route.isSome → ∃! g, g ∈ pl.grouped ∧ p ∈ g.2 := by
  have h := Executor.grouped (fun p : PlannedSecret => p.route.map group_key) pl.secrets
  have hm : ∀ g ∈ pl.grouped, g.2 = pl.secrets.filter fun p => p.route.map group_key = some g.1 := by
    intro g hg
    obtain ⟨i, hi⟩ := List.mem_iff_getElem?.mp hg
    exact h.members i g hi
  have hp : pl.grouped = pl.groups := by
    rw [ResolutionPlan.groups, ← h.order, List.map_map]
    refine (List.map_id _).symm.trans (List.map_congr_left fun g hg => ?_)
    exact Prod.ext rfl (hm g hg)
  refine ⟨hp, ?_, fun p hl hr => ?_⟩
  · refine List.nodup_iff_injective_getElem.mpr fun i j hij => Fin.ext ?_
    have hi := (h.indexed _ _).mpr (List.getElem?_eq_getElem i.isLt)
    have hj := (h.indexed _ _).mpr (List.getElem?_eq_getElem j.isLt)
    rw [show (pl.grouped.map Prod.fst)[i.val] = (pl.grouped.map Prod.fst)[j.val] from hij] at hi
    exact Option.some.inj (hi.symm.trans hj)
  · obtain ⟨route, hr⟩ := Option.isSome_iff_exists.mp hr
    have hk : p.route.map group_key = some (group_key route) := by rw [hr]; rfl
    have hme : (group_key route, pl.secrets.filter fun p => p.route.map group_key = some (group_key route)) ∈ pl.grouped := by
      rw [hp]
      exact List.mem_map.mpr ⟨_, List.mem_eraseDups.mpr (List.mem_filterMap.mpr ⟨p, hl, hk⟩), rfl⟩
    refine ⟨_, ⟨hme, List.mem_filter.mpr ⟨hl, decide_eq_true hk⟩⟩, ?_⟩
    rintro g ⟨hg, hn⟩
    rw [hm g hg] at hn
    have hs : group_key route = g.1 := Option.some.inj (hk.symm.trans (of_decide_eq_true (List.mem_filter.mp hn).2))
    exact Prod.ext hs.symm (by rw [hm g hg, hs])

/-! ## What routes are made of -/

section

variable {s : Plan.Secrets} {route : Route}

/-- Nothing a route names is a cached alias, but for an inline alias, whose store is its own URI. -/
structure Leaves (s : Plan.Secrets) (route : Route) : Prop where
  primary : ∀ primary, route.primary = some primary → s.cached_alias primary.spec = none ∨
    ∃ entry uri, s.cached_alias primary.spec = some entry ∧ entry.authoritative_uri = some uri ∧
      s.resolve_one_provider uri = .ok primary.uri ∧ route.fallback = []
  fallback : ∀ spec ∈ route.fallback, s.cached_alias spec = none
  cache : ∀ cache, route.cache = some cache → s.cached_alias cache.spec = none

theorem cached_route_leaves {n : Text} {e : Plan.ProviderAlias} (ha : s.cached_alias n = some e)
    (h : s.cached_route n e = .ok route) : Leaves s route := by
  obtain ⟨pl, sc, ur, cc, he⟩ := Plan.Secrets.cached_route_ok h
  have hp := Plan.Secrets.cached_sources_map_fst he.from_sources
  have hc : ∀ c, route.cache = some c → s.cached_alias c.spec = none := by
    intro c hc
    cases he.resolved.symm.trans hc
    exact he.leaves _ (List.mem_append_right _ (List.mem_singleton_self _))
  cases hu : e.authoritative_uri with
  | some u =>
    have hr := he.from_sources
    rw [Plan.Secrets.cached_sources, hu] at hr
    replace hr := Except.rest_ok hr
    obtain ⟨r, hrs, hr⟩ := Except.bind_ok hr
    cases hr
    have hn : route.fallback = [] := he.fallback
    refine ⟨fun p hpr => ?_, fun spec hs => ?_, hc⟩
    · cases he.primary.symm.trans hpr
      exact .inr ⟨e, u, ha, hu, hrs, hn⟩
    · rw [hn] at hs
      cases hs
  | none =>
    rw [hu, if_neg (by simp)] at hp
    have hl : ∀ sr ∈ sc, s.cached_alias sr.1 = none := fun sr hsc =>
      he.leaves _ (List.mem_append_left _ (hp ▸ List.mem_map_of_mem hsc))
    refine ⟨fun p hpr => .inl ?_, fun spec hs => ?_, hc⟩
    · obtain ⟨sr, hd, rfl⟩ := Option.map_eq_some_iff.mp (he.primary.symm.trans hpr)
      exact hl sr (List.mem_of_mem_head? hd)
    · rw [he.fallback] at hs
      obtain ⟨sr, hsc, rfl⟩ := List.mem_map.mp hs
      exact hl sr (List.mem_of_mem_tail hsc)

theorem route_leaves {p : Plan.PlannedSecret} {o : Option Text} (h : s.route_for p o = .ok route) : Leaves s route := by
  unfold Plan.Secrets.route_for at h
  split at h
  · split at h
    · rename_i e ha
      exact cached_route_leaves ha h
    · rename_i spec _ ha
      replace h := Except.rest_ok h
      cases h
      exact ⟨fun pr hp => .inl (by cases hp; exact ha), nofun, nofun⟩
  · split at h
    · rename_i first f hv
      split at h
      · split_ifs at h
        split at h
        · rename_i e ha
          exact cached_route_leaves ha h
        · cases h
      · rename_i hn
        have hl : ∀ spec ∈ first :: f, s.cached_alias spec = none := by simpa using hn
        obtain ⟨uri, -, h⟩ := Except.bind_ok h
        replace h := Except.rest_ok h
        cases h
        exact ⟨fun pr hp => .inl (by cases hp; exact hl _ (.head _)),
          fun spec hs => hl spec (.tail _ hs), nofun⟩
    · split at h
      · rename_i spec e hf
        obtain ⟨found, -, hf⟩ := Option.bind_eq_some_iff.mp hf
        obtain ⟨e', ha, hm⟩ := Option.map_eq_some_iff.mp hf
        cases hm
        exact cached_route_leaves ha h
      · cases h
        exact ⟨nofun, nofun, nofun⟩

end

theorem planning_agrees (planner : Option String → Planner) (overrides : Overrides) (spec : CompiledSpec) (s : Plan.Secrets) :
    (∀ profile_name names plan override_arg, overrides.explicit_provider_spec override_arg = overrides.explicit_provider_spec none →
      (build_plan planner overrides spec profile_name names = .ok plan ↔
        (spec.profile profile_name).isSome = true ∧ plan.profile = profile_name ∧
          (planner (overrides.explicit_provider_spec none)).override_uri = .ok plan.override_uri ∧
          List.Forall₂ (fun name planned => plan_secret planner overrides spec name profile_name override_arg = .ok (some planned))
            names plan.secrets)) ∧
    (∀ plan : ResolutionPlan, plan.grouped = plan.groups ∧ (plan.grouped.map Prod.fst).Nodup ∧
      ∀ planned ∈ plan.secrets, planned.route.isSome = true → ∃! group, group ∈ plan.grouped ∧ planned ∈ group.2) ∧
    ∀ planned override_spec route, s.route_for planned override_spec = .ok route → Leaves s route :=
  ⟨fun _ names plan _ ha => build_plan_iff ha names plan, grouped_partition, fun _ _ _ h => route_leaves h⟩

open Plan.Moved in
/-- An inline alias is the primary of the route it is. -/
theorem inline_names_itself :
    (secrets old_store).route_for asking.planned (some (Text.of "inline")) = .ok (inline_route old_store) ∧
      (inline_route old_store).primary.map Plan.ResolvedPrimary.spec = some (Text.of "inline") ∧
      ((secrets old_store).cached_alias (Text.of "inline")).isSome = true := by
  have ha : (secrets old_store).cached_alias (Text.of "inline") = some inline_old.entry := by decide +kernel
  refine ⟨?_, rfl, by rw [ha]; rfl⟩
  rw [Plan.Secrets.route_for]
  rw [ha]
  exact inline_old.built

end Monosecret.Executor
