/-
  Monosecret.Manifest.Added — what an accepted configuration becomes when it declares one
  secret more.

  The secret is effective in its profile and, when that is `default`, in every profile that
  inherits and has no entry of its own. There it has its description and what the `[defaults]`
  tables supply (`supplied`). Every other effective secret is as it was (`effective_added`).
  The configuration is accepted again (`accepted_added`) when no name of the profile's own
  differs from the new one by case only, and when no provider that the new secret routes
  through is built from it.
-/

import Monosecret.Manifest.Merge
import Monosecret.Manifest.SpecEdit

namespace Monosecret.Manifest.SpecEdit

open Lib
open Lib.Except (bind_unit_eq_ok bind_unit_ok forM_ok_iff mapError_ok rest_ok)
open Option (bind_some isSome_iff_exists)

/-! ## Sorted names -/

theorem sorted_set_pairwise (names : List String) : (sorted_set names).Pairwise (· ≤ ·) := List.pairwise_insertionSort _ _

theorem sorted_set_congr {names more : List String} (h : ∀ name, name ∈ names ↔ name ∈ more) :
    sorted_set names = sorted_set more := by
  refine List.Perm.eq_of_pairwise' (sorted_set_pairwise names) (sorted_set_pairwise more) ?_
  rw [List.perm_ext_iff_of_nodup (sorted_set_nodup names) (sorted_set_nodup more)]
  intro name
  rw [mem_sorted_set, mem_sorted_set, h]

/-- A name that is left out. -/
theorem sorted_set_filter {names more : List String} {name : String}
    (h : ∀ other, other ∈ more ↔ other ∈ names ∧ other ≠ name) :
    (sorted_set names).filter (· ≠ name) = sorted_set more := by
  refine List.Perm.eq_of_pairwise' ((sorted_set_pairwise names).filter _) (sorted_set_pairwise more) ?_
  rw [List.perm_ext_iff_of_nodup ((sorted_set_nodup names).filter _) (sorted_set_nodup more)]
  intro other
  rw [List.mem_filter, mem_sorted_set, mem_sorted_set, h]
  simp

theorem keyed_filter {β : Type} (find : String → Option β) (k : List String) (name : String) :
    (keyed find k).filter (fun en => en.1 ≠ name) = keyed find (k.filter (· ≠ name)) := by
  induction k with
  | nil => rfl
  | cons ky k ih =>
    unfold keyed at ih ⊢
    rw [List.filterMap_cons]
    by_cases hk : ky = name
    · rw [List.filter_cons_of_neg (by simpa using hk), ← ih]
      cases find ky with
      | none => rfl
      | some value => exact List.filter_cons_of_neg (by simpa using hk)
    · rw [List.filter_cons_of_pos (by simpa using hk), List.filterMap_cons, ← ih]
      cases find ky with
      | none => rfl
      | some value => exact List.filter_cons_of_pos (by simpa using hk)

theorem keyed_congr {β : Type} {find look : String → Option β} {keys : List String}
    (h : ∀ k ∈ keys, find k = look k) : keyed find keys = keyed look keys := by
  unfold keyed
  refine List.filterMap_congr fun k hk => ?_
  rw [h k hk]

/-! ## The new secret -/

/-- A route that a profile gives the secrets without their own. -/
def default_route (config : Config) (profile : Profile) : List ProviderRef :=
  ((profile.defaults.bind ProfileDefaults.providers).or (config.defaults.map ProjectDefaults.providers)).getD []

/-- The new secret as a profile has it. -/
def supplied (config : Config) (profile : Profile) (description : String) : Secret where
  description := some description
  required := profile.defaults.bind ProfileDefaults.required
  at_least_one := none
  exactly_one := none
  default := profile.defaults.bind ProfileDefaults.default
  groups := none
  composed := none
  providers := (profile.defaults.bind ProfileDefaults.providers).or (config.defaults.map ProjectDefaults.providers)
  reference := none
  refs := none
  as_path := none
  encoding := none
  extract := none
  secret_type := none
  format := none
  source := none
  credentials := none
  generate := none
  prompt := none

theorem resolved_own (config : Config) (profile : Profile) (description : String) :
    Secret.resolved (some (only_described description)) none profile.defaults config.defaults =
      some (supplied config profile description) := by
  simp [Secret.resolved, inherit, chosen, inherited_credentials, only_described, Secret.empty, supplied,
    Secret.has_required_setting, Secret.is_addressed, Option.filter]

theorem resolved_inherited (config : Config) (profile : Profile) (description : String) :
    Secret.resolved none (some (only_described description)) profile.defaults config.defaults =
      some (supplied config profile description) := by
  simp [Secret.resolved, inherit, chosen, inherited_credentials, only_described, Secret.empty, supplied,
    Secret.has_required_setting, Secret.is_addressed, Option.filter]

/-- A description is all that the new secret could give an entry. -/
theorem resolved_over {o : Secret} (h : o.description.isSome) (description : String)
    (defaults : Option ProfileDefaults) (project_defaults : Option ProjectDefaults) :
    Secret.resolved (some o) (some (only_described description)) defaults project_defaults =
      Secret.resolved (some o) none defaults project_defaults := by
  have hf {α : Type} (field : Secret → Option α) (hn : field (only_described description) = none) :
      inherit (some o) (some (only_described description)) field = inherit (some o) none field := by
    unfold inherit
    rw [bind_some, bind_some, hn]
    rfl
  have hd : inherit (some o) (some (only_described description)) Secret.description =
      inherit (some o) none Secret.description := by
    obtain ⟨t, ht⟩ := isSome_iff_exists.mp h
    unfold inherit
    rw [bind_some, ht]
    rfl
  have hc (sets : Secret → Bool) (hnt : sets (only_described description) = false) :
      chosen (some o) (some (only_described description)) sets = chosen (some o) none sets := by
    unfold chosen
    rw [show (some (only_described description)).filter sets = none by simp [Option.filter, hnt]]
    rfl
  have hr : inherited_credentials (some o) (some (only_described description)) =
      inherited_credentials (some o) none := by
    unfold inherited_credentials
    cases (some o).bind Secret.credentials <;> rfl
  unfold Secret.resolved
  rw [hd, hf Secret.composed rfl, hf Secret.source rfl, hf Secret.default rfl, hf Secret.groups rfl,
    hf Secret.providers rfl, hf Secret.as_path rfl, hf Secret.encoding rfl, hf Secret.extract rfl,
    hf Secret.secret_type rfl, hf Secret.format rfl, hf Secret.generate rfl, hf Secret.prompt rfl,
    hc Secret.has_required_setting rfl, hc Secret.is_addressed rfl, hr]
  rfl

/-! ## Profiles -/

/-- The profile has the declaration, or inherits it. -/
def Sees (profile p : String) (entry : Profile) : Prop := p = profile ∨ (profile = "default" ∧ entry.inherits_default = true)

instance (profile p : String) (entry : Profile) : Decidable (Sees profile p entry) :=
  inferInstanceAs (Decidable (p = profile ∨ (profile = "default" ∧ entry.inherits_default = true)))

section

variable {rules : Rules} {config after : Config} {spec : CompiledSpec} {profile name description : String}

/-- A profile and what it became. -/
structure Kept (profile name : String) (secret : Secret) (p : String) (before now : Profile) : Prop where
  defaults : now.defaults = before.defaults
  secrets : ∀ other, now.secrets.lookup other = if p = profile ∧ other = name then some secret else before.secrets.lookup other

variable {secret : Secret} {p : String} {before : Profile}

theorem kept_of_before (h : Declares config after profile name secret) (hp : config.profiles.lookup p = some before) :
    ∃ now, after.profiles.lookup p = some now ∧ Kept profile name secret p before now := by
  by_cases he : p = profile
  · obtain ⟨t, ht, hd, hs⟩ := h.target
    subst he
    rw [hp] at hd hs
    refine ⟨t, ht, hd, fun other => ?_⟩
    rw [hs, bind_some]
    simp
  · refine ⟨before, (h.others p he).trans hp, rfl, fun other => ?_⟩
    rw [if_neg fun hand => he hand.1]

theorem kept_of_now (h : Declares config after profile name secret)
    (ht : (config.profiles.lookup profile).isSome) {now : Profile} (hp : after.profiles.lookup p = some now) :
    ∃ before, config.profiles.lookup p = some before ∧ Kept profile name secret p before now := by
  have hb : ∃ before, config.profiles.lookup p = some before := by
    by_cases he : p = profile
    · exact isSome_iff_exists.mp (he ▸ ht)
    · exact ⟨now, (h.others p he).symm.trans hp⟩
  obtain ⟨before, hb⟩ := hb
  obtain ⟨other, ho, hk⟩ := kept_of_before h hb
  obtain rfl := Option.some.inj (hp.symm.trans ho)
  exact ⟨before, hb, hk⟩

theorem Kept.inherits {n : Profile} (h : Kept profile name secret p before n) :
    n.inherits_default = before.inherits_default := by
  unfold Profile.inherits_default
  rw [h.defaults]

/-- What a profile inherits, and the declaration when `default` has it. -/
theorem inherited_added (h : Declares config after profile name secret)
    (ht : (config.profiles.lookup profile).isSome) {n : Profile}
    (hk : Kept profile name secret p before n) (other : String) :
    ((inherited after p n).bind fun default => default.secrets.lookup other) =
      if p ≠ "default" ∧ before.inherits_default ∧ profile = "default" ∧ other = name then some secret
      else (inherited config p before).bind fun default => default.secrets.lookup other := by
  unfold inherited
  rw [hk.inherits]
  by_cases hp : p = "default"
  · simp [hp]
  by_cases hi : before.inherits_default
  · have hc : (p != "default" && before.inherits_default) := by simp [hp, hi]
    rw [if_pos hc, if_pos hc]
    by_cases hd : profile = "default"
    · subst hd
      obtain ⟨first, hf⟩ := isSome_iff_exists.mp ht
      obtain ⟨t, hr, hfirst_kept⟩ := kept_of_before h hf
      rw [hr, hf, bind_some, bind_some, hfirst_kept.secrets]
      simp [hp, hi]
    · rw [h.others "default" (Ne.symm hd), if_neg fun hand => hd hand.2.2.1]
  · have hc : (p != "default" && before.inherits_default) = false := by simp [hi]
    rw [hc, if_neg Bool.false_ne_true, if_neg Bool.false_ne_true, if_neg fun hand => hi hand.2.1]

theorem compiled_get (config : Config) (p : String) (en : Profile) (other : String) :
    (compile_profile config p en).get other = (effective_secret config p en other).map compile_secret := by
  rw [CompiledProfile.get, compile_profile]
  rw [lookup_map_snd (fun _ => compile_secret), effective, keyed_lookup fun _ => effective_secret_isSome config p en]
  split_ifs with hm
  · rfl
  · cases hs : effective_secret config p en other with
    | none => rfl
    | some secret => exact absurd (mem_of_effective_secret hs) hm

theorem resolved_eq_none {current default : Option Secret} {d : Option ProfileDefaults}
    {pr : Option ProjectDefaults} (h : Secret.resolved current default d pr = none) :
    current = none ∧ default = none := by
  unfold Secret.resolved at h
  split_ifs at h with hn
  simpa using hn

/-- An entry of an accepted profile has a description, or inherits one. -/
theorem own_described (h : config.validate_and_compile rules = .ok spec) {en : Profile}
    (hp : config.profiles.lookup p = some en) {o : Secret} (ho : en.secrets.lookup name = some o)
    (hi : ((inherited config p en).bind fun default => default.secrets.lookup name) = none) :
    o.description.isSome := by
  obtain ⟨secret, hs⟩ := isSome_iff_exists.mp
    (effective_secret_isSome config p en ((mem_effective_names config p en).mpr (.inl (AList.lookup_isSome.mp (by rw [ho]; rfl)))))
  have hv := validated h
  have hc : spec.profile p = some (compile_profile config p en) := by
    rw [hv.compiled, compile_lookup, hp]
    rfl
  obtain ⟨he, -⟩ := bind_unit_ok (hv.checked p _ hc)
  have hm : (name, compile_secret secret) ∈ (compile_profile config p en).secrets :=
    List.mem_map.mpr ⟨(name, secret), mem_keyed.mpr ⟨mem_of_effective_secret hs, hs⟩, rfl⟩
  obtain ⟨hd, -⟩ := bind_unit_ok (mapError_ok.mp (forM_ok_iff.mp he _ hm))
  have hsm : secret.description = o.description := by
    rw [effective_secret, ho, hi] at hs
    cases hs
    exact Option.or_none
  change secret.validate_description = .ok () at hd
  rw [← hsm]
  unfold Secret.validate_description at hd
  split at hd
  · cases hd
  · cases hd
  · rename_i hso
    rw [hso]
    rfl

/-- Every effective secret is as it was, but for the new one where it is seen. -/
theorem effective_added (hv : config.validate_and_compile rules = .ok spec)
    (h : Declares config after profile name (only_described description))
    (ht : (config.profiles.lookup profile).isSome) (hn : (spec.profile profile).bind (·.get name) = none)
    {n : Profile} (hp : config.profiles.lookup p = some before)
    (hk : Kept profile name (only_described description) p before n) (other : String) :
    effective_secret after p n other =
      if other = name ∧ Sees profile p before ∧ effective_secret config p before name = none then
        some (supplied config before description)
      else effective_secret config p before other := by
  obtain ⟨first, hf⟩ := isSome_iff_exists.mp ht
  have hu : first.secrets.lookup name = none ∧
      ((inherited config profile first).bind fun default => default.secrets.lookup name) = none := by
    rw [(validated hv).compiled, compile_lookup, hf, Option.map_some, bind_some, compiled_get,
      Option.map_eq_none_iff] at hn
    exact resolved_eq_none hn
  have ha : effective_secret after p n other =
      Secret.resolved (if p = profile ∧ other = name then some (only_described description) else before.secrets.lookup other)
        (if p ≠ "default" ∧ before.inherits_default ∧ profile = "default" ∧ other = name then
          some (only_described description)
        else (inherited config p before).bind fun default => default.secrets.lookup other) before.defaults config.defaults := by
    rw [effective_secret, hk.defaults, h.defaults, hk.secrets, inherited_added h ht hk]
  rw [ha]
  by_cases ho : other = name
  swap
  · rw [if_neg fun hand => ho hand.2, if_neg fun hand => ho hand.2.2.2, if_neg fun hand => ho hand.1]
    rfl
  subst ho
  by_cases hr : p = profile
  · subst hr
    obtain rfl := Option.some.inj (hp.symm.trans hf)
    have hnn : effective_secret config p before other = none := by
      rw [effective_secret, hu.1, hu.2]
      rfl
    rw [if_pos ⟨rfl, rfl⟩, if_neg fun hand => hand.1 hand.2.2.1, hu.2, resolved_own, if_pos ⟨rfl, .inl rfl, hnn⟩]
  rw [if_neg fun hand => hr hand.1]
  by_cases hs : profile = "default" ∧ before.inherits_default
  · obtain ⟨hd, hi⟩ := hs
    subst hd
    have hin : ((inherited config p before).bind fun default => default.secrets.lookup other) = none := by
      rw [inherited, if_pos (by simp [hr, hi]), hf]
      exact hu.1
    rw [if_pos ⟨hr, hi, rfl, rfl⟩]
    cases hon : before.secrets.lookup other with
    | none =>
      have hnn : effective_secret config p before other = none := by
        rw [effective_secret, hon, hin]
        rfl
      rw [resolved_inherited, if_pos ⟨rfl, .inr ⟨rfl, hi⟩, hnn⟩]
    | some o =>
      have hm : effective_secret config p before other =
          Secret.resolved (some o) none before.defaults config.defaults := by
        rw [effective_secret, hon, hin]
      have hso : effective_secret config p before other ≠ none := by
        intro hnn
        rw [hm] at hnn
        cases (resolved_eq_none hnn).1
      rw [resolved_over (own_described hv hp hon hin), if_neg fun hand => hso hand.2.2, hm]
  · rw [if_neg fun hand => hs ⟨hand.2.2.1, hand.2.1⟩, if_neg]
    · rfl
    · rintro ⟨-, hw, -⟩
      rcases hw with hw | hw
      · exact hr hw
      · exact hs hw

/-! ## Compiled profiles -/

theorem mem_effective_names_iff (config : Config) (p : String) (en : Profile) (other : String) :
    other ∈ effective_names config p en ↔ (effective_secret config p en other).isSome := by
  constructor
  · exact effective_secret_isSome config p en
  · intro h
    obtain ⟨secret, hs⟩ := isSome_iff_exists.mp h
    exact mem_of_effective_secret hs

theorem mem_declared_iff (config : Config) (p : String) (en : Profile) (other : String) :
    other ∈ en.secrets.keys ++ inherited_names config p en ↔ (effective_secret config p en other).isSome :=
  mem_sorted_set.symm.trans (mem_effective_names_iff config p en other)

theorem effective_congr {n : Profile}
    (h : ∀ other, effective_secret after p n other = effective_secret config p before other) :
    effective after p n = effective config p before := by
  have hn : effective_names after p n = effective_names config p before := by
    refine sorted_set_congr fun other => ?_
    rw [mem_declared_iff, mem_declared_iff, h]
  rw [effective, effective, hn]
  exact keyed_congr fun other _ => h other

/-- Without the new entry, the effective secrets are those there were. -/
theorem effective_filter {n : Profile}
    (h : ∀ other, effective_secret after p n other = if other = name then some secret else effective_secret config p before other)
    (hn : effective_secret config p before name = none) :
    (effective after p n).filter (fun en => en.1 ≠ name) = effective config p before := by
  have hm : (effective_names after p n).filter (· ≠ name) = effective_names config p before := by
    refine sorted_set_filter fun other => ?_
    rw [mem_declared_iff, mem_declared_iff, h]
    by_cases ho : other = name
    · simp [ho, hn]
    · simp [ho]
  rw [effective, effective, keyed_filter, hm]
  refine keyed_congr fun other hmm => ?_
  have ho : other ≠ name := by
    rintro rfl
    rw [mem_effective_names_iff, hn] at hmm
    cases hmm
  rw [h, if_neg ho]

theorem flatMap_filter {α β : Type} {f : α → List β} {keep : α → Bool} {l : List α} (h : ∀ a ∈ l, keep a = false → f a = []) :
    (l.filter keep).flatMap f = l.flatMap f := by
  induction l with
  | nil => rfl
  | cons a l ih =>
    have ih := ih fun b hb => h b (.tail _ hb)
    rw [List.filter_cons, List.flatMap_cons]
    split_ifs with hk
    · rw [List.flatMap_cons, ih]
    · rw [ih, h a (.head _) (by simpa using hk), List.nil_append]

variable {entries : List (String × Secret)}

/-- A secret in no group makes no group. -/
theorem constraint_groups_filter {groups : Secret → Option (List String)} {keep : String × Secret → Bool}
    (h : ∀ en ∈ entries, keep en = false → groups en.2 = none) :
    constraint_groups groups (entries.filter keep) = constraint_groups groups entries := by
  unfold constraint_groups
  rw [flatMap_filter fun en he hk => by rw [h en he hk]; rfl]
  refine List.map_congr_left fun g _ => ?_
  rw [flatMap_filter fun en he hk => by rw [h en he hk]; rfl]

theorem supplied_valid (rules : Rules) (config : Config) (en : Profile) (hd : description ≠ "") :
    (supplied config en description).validate_effective rules = .ok () := by
  have hs : (supplied config en description).validate_description = .ok () := by
    unfold Secret.validate_description supplied
    split
    · rename_i he
      exact absurd (Option.some.inj he) hd
    · rename_i hn
      cases hn
    · rfl
  have hg : (supplied config en description).validate_groups = .ok () := by
    show refuse (_ && false) _ = _
    rw [Bool.and_false]
    rfl
  unfold Secret.validate_effective Secret.validate_semantics
  rw [hs, hg]
  rfl

/-- A secret that needs nothing, and that no other needs, leaves a profile composable. -/
theorem composable_added {before now : CompiledProfile} {secret : CompiledSecret} (hn : now.names.Nodup)
    (hg : ∀ other, now.get other = if other = name then some secret else before.get other)
    (hnn : before.get name = none) (hnd : ∀ d, ¬ Needs secret d) (h : Composable before) : Composable now := by
  have hf : ∀ {d other}, before.get d = some other → now.get d = some other := by
    intro d other hd
    rw [hg, if_neg, hd]
    rintro rfl
    rw [hnn] at hd
    cases hd
  have hold : ∀ other found, now.get other = some found → (∃ d, Needs found d) → before.get other = some found := by
    intro other found ho hd
    rw [hg] at ho
    split_ifs at ho with hoh
    · cases ho
      exact absurd hd.choose_spec (hnd _)
    · exact ho
  have hcn : ∀ other found, before.get other = some found → Connected before other found :=
    fun other found ho => h.connected other found (CompiledProfile.get_mem ho)
  constructor
  · intro other found hm
    have ho : now.get other = some found := CompiledProfile.get_of_mem hn hm
    refine ⟨fun d hd => ?_, fun d t hs ht => ?_, fun r d t hb ht => ?_⟩
    · obtain ⟨hne, t, ht⟩ := (hcn other found (hold other found ho ⟨d, hd⟩)).declared d hd
      exact ⟨hne, t, hf ht⟩
    · have hd : Needs found d := .source hs
      have hc := hcn other found (hold other found ho ⟨d, hd⟩)
      obtain ⟨-, k, hk⟩ := hc.declared d hd
      obtain rfl := Option.some.inj ((hf hk).symm.trans ht)
      exact hc.source d k hs hk
    · have hd : Needs found d := .credential hb
      have hc := hcn other found (hold other found ho ⟨d, hd⟩)
      obtain ⟨-, k, hk⟩ := hc.declared d hd
      obtain rfl := Option.some.inj ((hf hk).symm.trans ht)
      exact hc.credential r d k hb hk
  · intro other hy
    have hp : ∀ a b, DependsOn now a b → DependsOn before a b := by
      rintro a b ⟨found, hfound_now, hd⟩
      exact ⟨found, hold a found hfound_now ⟨b, hd⟩, hd⟩
    exact h.acyclic other (Relation.TransGen.mono hp other other hy)

theorem supplied_needs (en : Profile) (d : String) : ¬ Needs (compile_secret (supplied config en description)) d := by
  rintro (⟨hc, -⟩ | hs | hb)
  · cases hc
  · cases hs
  · cases hb

/-- A profile that was accepted is accepted with the new secret. -/
theorem checked_added {n : Profile} (hd : description ≠ "") (h : ∀ other, effective_secret after p n other =
      if other = name then some (supplied config before description) else effective_secret config p before other)
    (hn : effective_secret config p before name = none)
    (hc : validate_compiled_profile rules p (compile_profile config p before) = .ok ()) :
    validate_compiled_profile rules p (compile_profile after p n) = .ok () := by
  have hf := effective_filter h hn
  have he : ∀ en ∈ effective after p n, en.1 = name → en.2 = supplied config before description := by
    rintro ⟨other, secret⟩ hm rfl
    have hs := (mem_keyed.mp hm).2
    rw [h, if_pos rfl] at hs
    exact (Option.some.inj hs).symm
  have hu (g : Secret → Option (List String)) (hg : g (supplied config before description) = none) :
      constraint_groups g (effective after p n) = constraint_groups g (effective config p before) := by
    rw [← hf]
    refine (constraint_groups_filter fun en hm hk => ?_).symm
    rw [he en hm (by simpa using hk), hg]
  obtain ⟨hef, hc⟩ := bind_unit_ok hc
  obtain ⟨hcn, hr⟩ := bind_unit_eq_ok.mp hc
  refine bind_unit_eq_ok.mpr ⟨?_, bind_unit_eq_ok.mpr ⟨?_, ?_⟩⟩
  · refine forM_ok_iff.mpr fun c hm => mapError_ok.mpr ?_
    obtain ⟨en, hi, rfl⟩ := List.mem_map.mp hm
    by_cases hnm : en.1 = name
    · show en.2.validate_effective rules = .ok ()
      rw [he en hi hnm]
      exact supplied_valid rules config before hd
    · have hold : en ∈ effective config p before := hf ▸ List.mem_filter.mpr ⟨hi, by simpa using hnm⟩
      exact mapError_ok.mp (forM_ok_iff.mp hef _ (List.mem_map_of_mem hold))
  · unfold validate_profile_constraints at hcn ⊢
    have ho : (compile_profile after p n).at_least_one = (compile_profile config p before).at_least_one := hu _ rfl
    have hec : (compile_profile after p n).exactly_one = (compile_profile config p before).exactly_one := hu _ rfl
    rw [ho, hec]
    exact hcn
  · have ht : ∀ other, (compile_profile after p n).get other =
        if other = name then some (compile_secret (supplied config before description))
        else (compile_profile config p before).get other := by
      intro other
      rw [compiled_get, compiled_get, h]
      split_ifs <;> rfl
    have hfr : (compile_profile config p before).get name = none := by
      rw [compiled_get, hn]
      rfl
    exact (composition_graph_checked p _).1.mpr (composable_added (compile_profile_nodup after p n) ht hfr
      (supplied_needs before) ((composition_graph_checked p _).1.mp hr))

/-! ## The whole configuration -/

/-- The names of a profile, when they went through. -/
theorem validate_names_of {f : Map String String}
    (hv : ∀ en ∈ entries, is_valid_identifier rules en.1 ∧ en.2.validate_required_default = .ok ())
    (hd : CaseDistinct rules (entries.map Prod.fst))
    (hf : ∀ en ∈ entries, ∀ ex, f (rules.to_lowercase en.1) = some ex → ex = en.1) :
    Profile.validate_names rules f entries = .ok () := by
  induction entries generalizing f with
  | nil => rfl
  | cons en entries ih =>
    obtain ⟨first, secret⟩ := en
    obtain ⟨hr, hdf⟩ := hv _ (.head _)
    refine bind_unit_eq_ok.mpr ⟨?_, bind_unit_eq_ok.mpr ⟨?_, bind_unit_eq_ok.mpr ⟨?_, ?_⟩⟩⟩
    · rw [hr]
      rfl
    · rw [option_forM_eq_ok]
      intro ex he
      rw [refuse_eq_ok, hf _ (.head _) ex he]
      exact bne_self_eq_false _
    · rw [hdf]
      rfl
    · refine ih (fun en hn => hv en (.tail _ hn)) ?_ ?_
      · exact fun a ha b hb => hd a (.tail _ ha) b (.tail _ hb)
      · intro en hn ex he
        by_cases hs : rules.to_lowercase en.1 = rules.to_lowercase first
        · rw [hs, Map.insert_self] at he
          cases he
          exact hd first (.head _) en.1 (.tail _ (List.mem_map_of_mem hn)) hs.symm
        · rw [Map.insert_of_ne hs] at he
          exact hf en (.tail _ hn) ex he

/-- The entries of a profile, when they went through. -/
theorem validate_names_defaults {f : Map String String} (h : Profile.validate_names rules f entries = .ok ()) :
    ∀ en ∈ entries, en.2.validate_required_default = .ok () := by
  induction entries generalizing f with
  | nil => exact fun _ h => absurd h List.not_mem_nil
  | cons en entries ih =>
    replace h := rest_ok h
    replace h := rest_ok h
    obtain ⟨hd, h⟩ := bind_unit_ok h
    intro other ho
    rcases List.mem_cons.mp ho with rfl | ho
    · exact mapError_ok.mp hd
    · exact ih h other ho

/-- The names of the profile's own differ from the new one in more than case. -/
def CaseApart (rules : Rules) (config : Config) (profile name : String) : Prop :=
  ∀ entry, config.profiles.lookup profile = some entry → ∀ own ∈ entry.secrets.keys,
    rules.to_lowercase own ≠ rules.to_lowercase name

theorem empty_of_lookup {β : Type} {t : Table β} (h : ∀ k, t.lookup k = none) : t = ∅ := by
  have hy : t.keys = [] :=
    List.eq_nil_iff_forall_not_mem.mpr fun k hk => AList.lookup_eq_none.mp (h k) (AList.mem_keys.mpr hk)
  exact AList.ext (List.map_eq_nil_iff.mp hy)

theorem validate_raw_added {n : Profile} {c : Bool} (hv : is_valid_identifier rules name)
    (hap : CaseApart rules config profile name) (hp : config.profiles.lookup p = some before)
    (hk : Kept profile name (only_described description) p before n)
    (h : before.validate_raw rules c = .ok ()) :
    n.validate_raw rules c = .ok () := by
  obtain ⟨hm, h⟩ := bind_unit_ok h
  have hn : ∀ en ∈ n.secrets.sorted,
      (p = profile ∧ en = (name, only_described description)) ∨ en ∈ before.secrets.sorted := by
    rintro ⟨other, secret⟩ hmm
    have hl := Table.mem_sorted.mp hmm
    rw [hk.secrets] at hl
    split_ifs at hl with hw
    · cases hl
      exact .inl ⟨hw.1, Prod.ext hw.2 rfl⟩
    · exact .inr (Table.mem_sorted.mpr hl)
  have hd := (validate_names_ok h).1
  have hc : ∀ en ∈ before.secrets.sorted, p = profile → rules.to_lowercase en.1 ≠ rules.to_lowercase name := by
    rintro en hmm rfl
    refine hap before hp en.1 (AList.mem_keys.mp (AList.lookup_isSome.mp ?_))
    rw [Table.mem_sorted.mp hmm]
    rfl
  refine bind_unit_eq_ok.mpr ⟨?_, validate_names_of (fun en hmm => ?_) ?_ fun _ _ _ he => ?_⟩
  · have hs := refuse_ok hm
    rw [refuse_eq_ok]
    cases hno : n.secrets.is_empty with
    | false => rfl
    | true =>
      have hf : before.secrets.is_empty := by
        refine Table.is_empty_iff.mpr (empty_of_lookup fun other => ?_)
        have hl := hk.secrets other
        rw [Table.is_empty_iff.mp hno] at hl
        split_ifs at hl
        · exact absurd (show (none : Option Secret) = some _ from hl) nofun
        · exact hl.symm
      rwa [hf] at hs
  · rcases hn en hmm with ⟨-, rfl⟩ | hold
    · exact ⟨hv, rfl⟩
    · exact ⟨validate_names_valid h en hold, validate_names_defaults h en hold⟩
  · intro a ha b hb hsm
    obtain ⟨first, hr, rfl⟩ := List.mem_map.mp ha
    obtain ⟨s, hsc, rfl⟩ := List.mem_map.mp hb
    rcases hn first hr with ⟨hp, rfl⟩ | hr <;> rcases hn s hsc with ⟨hp', rfl⟩ | hsc
    · rfl
    · exact absurd hsm.symm (hc s hsc hp)
    · exact absurd hsm (hc first hr hp')
    · exact hd _ (List.mem_map_of_mem hr) _ (List.mem_map_of_mem hsc) hsm
  · cases he

theorem mem_compiled {c : Config} {en : Profile} {cm : String × CompiledSecret} :
    cm ∈ (compile_profile c p en).secrets ↔
      ∃ secret, effective_secret c p en cm.1 = some secret ∧ cm.2 = compile_secret secret := by
  constructor
  · intro h
    obtain ⟨⟨other, secret⟩, hm, rfl⟩ := List.mem_map.mp h
    exact ⟨secret, (mem_keyed.mp hm).2, rfl⟩
  · rintro ⟨secret, hs, hc⟩
    exact List.mem_map.mpr ⟨(cm.1, secret), mem_keyed.mpr ⟨mem_of_effective_secret hs, hs⟩, by rw [← hc]⟩

theorem mem_compiled_profiles {c : Config} {cm : String × CompiledProfile} :
    cm ∈ (CompiledSpec.compile c).profiles ↔
      ∃ entry, c.profiles.lookup cm.1 = some entry ∧ cm.2 = compile_profile c cm.1 entry := by
  constructor
  · intro h
    obtain ⟨⟨p, entry⟩, hm, rfl⟩ := List.mem_map.mp h
    exact ⟨entry, Table.mem_sorted.mp hm, rfl⟩
  · rintro ⟨entry, hp, hc⟩
    exact List.mem_map.mpr ⟨(cm.1, entry), Table.mem_sorted.mpr hp, by rw [← hc]⟩

/-- No provider that a new secret routes through is built from it. -/
def RoutesApart (config : Config) (profile name : String) : Prop :=
  ∀ providers, config.providers = some providers → ∀ alias_name provider, providers.lookup alias_name = some provider →
    ∀ dependency ∈ provider.depends_on, dependency.secret = name →
      ∀ p entry, config.profiles.lookup p = some entry → Sees profile p entry →
        ∀ reference ∈ default_route config entry, reference.provider_alias ≠ alias_name

/-- A configuration that declares one secret more than an accepted one. -/
structure Extended (rules : Rules) (config after : Config) (spec : CompiledSpec) (profile name description : String) : Prop where
  valid : config.validate_and_compile rules = .ok spec
  declares : Declares config after profile name (only_described description)
  profile_there : (config.profiles.lookup profile).isSome = true
  undeclared : (spec.profile profile).bind (·.get name) = none
  identifier : is_valid_identifier rules name = true
  described : description ≠ ""
  case_apart : CaseApart rules config profile name
  routes_apart : RoutesApart config profile name

namespace Extended

variable (e : Extended rules config after spec profile name description)

include e

variable {p other : String}

section

variable {before n : Profile} (hp : config.profiles.lookup p = some before)
  (hk : Kept profile name (only_described description) p before n)

include hp hk

/-- An effective secret is the new one or one that there was. -/
theorem secret_cases {secret : Secret} (hs : effective_secret after p n other = some secret) :
    (other = name ∧ Sees profile p before ∧ secret = supplied config before description) ∨
      effective_secret config p before other = some secret := by
  rw [effective_added e.valid e.declares e.profile_there e.undeclared hp hk] at hs
  split_ifs at hs with hn
  · exact .inl ⟨hn.1, hn.2.1, (Option.some.inj hs).symm⟩
  · exact .inr hs

theorem secret_kept {secret : Secret}
    (hs : effective_secret config p before other = some secret) : effective_secret after p n other = some secret := by
  rw [effective_added e.valid e.declares e.profile_there e.undeclared hp hk, if_neg, hs]
  rintro ⟨rfl, -, hn⟩
  rw [hs] at hn
  cases hn

theorem profile_checked (hc : validate_compiled_profile rules p (compile_profile config p before) = .ok ()) :
    validate_compiled_profile rules p (compile_profile after p n) = .ok () := by
  have he := effective_added e.valid e.declares e.profile_there e.undeclared hp hk
  by_cases hs : Sees profile p before ∧ effective_secret config p before name = none
  · refine checked_added e.described (fun other => ?_) hs.2 hc
    rw [he]
    by_cases ho : other = name
    · rw [if_pos ⟨ho, hs⟩, if_pos ho]
    · rw [if_neg fun hand => ho hand.1, if_neg ho]
  · have hm : effective after p n = effective config p before := by
      refine effective_congr fun other => ?_
      rw [he, if_neg fun hand => hs hand.2]
    unfold compile_profile at hc ⊢
    rw [hm]
    exact hc

theorem profile_valid {c : Bool} (hn : after.profiles.lookup p = some n)
    (h : Config.validate_profile rules (.compile config) p before c = .ok ()) :
    Config.validate_profile rules (.compile after) p n c = .ok () := by
  obtain ⟨hr, hc⟩ := validate_profile_ok h
  refine bind_unit_eq_ok.mpr ⟨?_, ?_⟩
  · rw [validate_raw_added e.identifier e.case_apart hp hk hr]
    rfl
  · rw [compile_lookup, hn]
    exact e.profile_checked hp hk (hc _ (by rw [compile_lookup, hp]; rfl))

end

theorem filter_groups_valid (h : Config.validate_filter_groups config (.compile config) = .ok ()) :
    Config.validate_filter_groups after (.compile after) = .ok () := by
  unfold Config.validate_filter_groups at h ⊢
  rw [e.declares.groups]
  refine forM_ok_iff.mpr fun c hm => forM_ok_iff.mpr fun en he => ?_
  obtain ⟨now, hn, hc⟩ := mem_compiled_profiles.mp hm
  obtain ⟨before, hb, hk⟩ := kept_of_now e.declares e.profile_there hn
  rw [hc] at he
  obtain ⟨secret, hs, hsc⟩ := mem_compiled.mp he
  rcases e.secret_cases hb hk hs with ⟨-, -, hne⟩ | hold
  · rw [hsc, hne]
    rfl
  · exact forM_ok_iff.mp (forM_ok_iff.mp h (c.1, compile_profile config c.1 before)
      (mem_compiled_profiles.mpr ⟨before, hb, rfl⟩)) en (mem_compiled.mpr ⟨secret, hold, hsc⟩)

theorem names_kept (h : other ∈ (CompiledSpec.compile config).profiles.flatMap fun profile => profile.2.names) :
    other ∈ (CompiledSpec.compile after).profiles.flatMap fun profile => profile.2.names := by
  obtain ⟨c, hm, ho⟩ := List.mem_flatMap.mp h
  obtain ⟨before, hb, hc⟩ := mem_compiled_profiles.mp hm
  obtain ⟨n, hn, hk⟩ := kept_of_before e.declares hb
  refine List.mem_flatMap.mpr ⟨(c.1, compile_profile after c.1 n), mem_compiled_profiles.mpr ⟨n, hn, rfl⟩, ?_⟩
  rw [hc, compile_profile_names, mem_effective_names_iff] at ho
  obtain ⟨secret, hs⟩ := isSome_iff_exists.mp ho
  rw [compile_profile_names, mem_effective_names_iff, e.secret_kept hb hk hs]
  rfl

theorem scope_secrets_valid {sc : String} {sn s : List String}
    (h : Config.validate_scope_secrets (.compile config) sc sn s = .ok ()) :
    Config.validate_scope_secrets (.compile after) sc sn s = .ok () := by
  induction s generalizing sn with
  | nil => rfl
  | cons secret s ih =>
    obtain ⟨hb, h⟩ := bind_unit_ok h
    obtain ⟨hs, h⟩ := bind_unit_ok h
    obtain ⟨hd, h⟩ := bind_unit_ok h
    refine bind_unit_eq_ok.mpr ⟨hb, bind_unit_eq_ok.mpr ⟨hs, bind_unit_eq_ok.mpr ⟨?_, ih h⟩⟩⟩
    have hd := refuse_ok hd
    rw [refuse_eq_ok]
    simp only [Bool.not_eq_false', List.contains_iff_mem] at hd ⊢
    exact e.names_kept hd

theorem scopes_valid (h : Config.validate_scopes config (.compile config) = .ok ()) :
    Config.validate_scopes after (.compile after) = .ok () := by
  unfold Config.validate_scopes at h ⊢
  rw [e.declares.scopes]
  cases hs : config.scopes with
  | none => rfl
  | some sc =>
    rw [hs] at h
    refine forM_ok_iff.mpr fun s hm => ?_
    have hc := mapError_ok.mp (forM_ok_iff.mp h s hm)
    refine mapError_ok.mpr ?_
    obtain ⟨hb, hc⟩ := bind_unit_ok hc
    obtain ⟨he, hc⟩ := bind_unit_ok hc
    exact bind_unit_eq_ok.mpr ⟨hb, bind_unit_eq_ok.mpr ⟨he, e.scope_secrets_valid hc⟩⟩

theorem provider_dependencies_valid (h : Config.validate_provider_dependencies config (.compile config) = .ok ()) :
    Config.validate_provider_dependencies after (.compile after) = .ok () := by
  unfold Config.validate_provider_dependencies at h ⊢
  rw [e.declares.providers]
  cases hp : config.providers with
  | none => rfl
  | some pv =>
    rw [hp] at h
    refine forM_ok_iff.mpr fun pr hv => forM_ok_iff.mpr fun d hd => ?_
    have hold := forM_ok_iff.mp (forM_ok_iff.mp h pr hv) d hd
    refine forM_ok_iff.mpr fun c hm => ?_
    obtain ⟨n, hn, hc⟩ := mem_compiled_profiles.mp hm
    obtain ⟨before, hb, hk⟩ := kept_of_now e.declares e.profile_there hn
    have hold := forM_ok_iff.mp hold (c.1, compile_profile config c.1 before)
      (mem_compiled_profiles.mpr ⟨before, hb, rfl⟩)
    simp only [hc, compiled_get] at hold ⊢
    cases hs : effective_secret after c.1 n d.secret with
    | none => rfl
    | some secret =>
      rcases e.secret_cases hb hk hs with ⟨hnm, hss, hne⟩ | hsc
      · refine mapError_ok.mpr (refuse_eq_ok.mpr (List.any_eq_false.mpr fun r hr => ?_))
        rw [hne] at hr
        have ha := e.routes_apart pv hp pr.1 pr.2 (Table.mem_sorted.mp hv) d
          hd hnm c.1 before hb hss r hr
        simpa using ha
      · rw [hsc] at hold
        exact hold

/-- It is accepted. -/
theorem accepted : after.validate_and_compile rules = .ok (.compile after) := by
  obtain ⟨hn, h⟩ := bind_unit_ok e.valid
  obtain ⟨hp, h⟩ := bind_unit_ok h
  obtain ⟨hd, h⟩ := bind_unit_ok h
  obtain ⟨hl, h⟩ := bind_unit_ok h
  obtain ⟨hoh, h⟩ := bind_unit_ok h
  obtain ⟨hg, h⟩ := bind_unit_ok h
  obtain ⟨hs, h⟩ := bind_unit_ok h
  obtain ⟨hdp, -⟩ := bind_unit_ok h
  have ht : (after.profiles.lookup "default").isSome = (config.profiles.lookup "default").isSome := by
    cases hb : config.profiles.lookup "default" with
    | some before =>
      obtain ⟨n, hw, -⟩ := kept_of_before e.declares hb
      rw [hw]
      rfl
    | none =>
      cases hw : after.profiles.lookup "default" with
      | none => rfl
      | some n =>
        obtain ⟨before, hm, -⟩ := kept_of_now e.declares e.profile_there hw
        rw [hb] at hm
        cases hm
  have hn : (refuse after.project.name.isEmpty "Project name cannot be empty").mapError ParseError.Validation = .ok () := by
    rw [e.declares.project]
    exact hn
  have hp : (refuse after.profiles.is_empty "At least one profile must be defined").mapError ParseError.Validation =
      .ok () := by
    refine mapError_ok.mpr (refuse_eq_ok.mpr ?_)
    obtain ⟨t, hr, -⟩ := e.declares.target
    cases he : after.profiles.is_empty with
    | false => rfl
    | true =>
      rw [Table.is_empty_iff.mp he] at hr
      exact absurd (show (none : Option Profile) = some t from hr) nofun
  have hd : (after.defaults.forM fun d => d.validate.mapError ParseError.Validation) = .ok () := by
    rw [e.declares.defaults]
    exact hd
  have hl : ((after.profiles.lookup "default").forM fun profile =>
      Config.validate_profile rules (.compile after) "default" profile false) = .ok () := by
    cases hw : after.profiles.lookup "default" with
    | none => rfl
    | some n =>
      obtain ⟨before, hb, hk⟩ := kept_of_now e.declares e.profile_there hw
      exact e.profile_valid hb hk hw (Except.option_forM_ok hl hb)
  have hoh : ((after.profiles.sorted.filter fun profile => profile.1 != "default").forM fun profile =>
      Config.validate_profile rules (.compile after) profile.1 profile.2
        ((after.profiles.lookup "default").isSome && profile.2.inherits_default)) = .ok () := by
    refine forM_ok_iff.mpr fun en hen => ?_
    obtain ⟨hmm, ho⟩ := List.mem_filter.mp hen
    obtain ⟨before, hb, hk⟩ := kept_of_now e.declares e.profile_there (Table.mem_sorted.mp hmm)
    rw [ht, hk.inherits]
    exact e.profile_valid hb hk (Table.mem_sorted.mp hmm)
      (forM_ok_iff.mp hoh (en.1, before) (List.mem_filter.mpr ⟨Table.mem_sorted.mpr hb, ho⟩))
  unfold Config.validate_and_compile
  simp only [hn, hp, hd, hl, hoh, e.filter_groups_valid hg, e.scopes_valid hs,
    e.provider_dependencies_valid hdp, bind, Except.bind]

end Extended

end

end Monosecret.Manifest.SpecEdit
