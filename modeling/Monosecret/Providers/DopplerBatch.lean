/-
  Monosecret.Providers.DopplerBatch — batches of Doppler secrets against their single reads.

  `batches_agree`: for every server, the batch is what the single reads are; it asks for
  nothing but the names wanted, each once, in filters that are not empty and within the bound
  unless they are one name; and the coordinates of an address are those its requests go to.
-/

import Monosecret.Lib.Lists
import Monosecret.Providers.Doppler

namespace Monosecret.Providers.Doppler

open Lib Manifest
open Cache (SecretBytes utf8)
open DopplerProvider (filter_names get_async list_chunks list_group write_async place_of)
open List (forall_mem_cons map_cons mem_append mem_cons mem_map nil_append prefix_rfl)

/-! ## Filters -/

/-- A name a filter can carry. -/
def Plain (name : String) : Prop := name ≠ "" ∧ ',' ∉ name.toList

def joined (names : List String) : String := String.ofList ([','].intercalate (names.map String.toList))

theorem toList_joined (names : List String) : (joined names).toList = [','].intercalate (names.map String.toList) :=
  String.toList_ofList

variable {names : List String}

theorem joined_snoc (hn : names ≠ []) (name : String) : joined (names ++ [name]) = joined names ++ "," ++ name := by
  have hl : ∀ names : List String, names ≠ [] →
      [','].intercalate ((names ++ [name]).map String.toList) = [','].intercalate (names.map String.toList) ++ ',' :: name.toList := by
    intro names
    induction names with
    | nil => exact fun h => absurd rfl h
    | cons first names ih =>
      intro _
      cases names with
      | nil => simp [List.intercalate_cons_cons]
      | cons s names =>
        have := ih (by simp)
        simp only [List.cons_append, map_cons, List.intercalate_cons_cons] at this ⊢
        rw [this]
        simp
  apply String.toList_injective
  rw [toList_joined, hl names hn, String.toList_append, String.toList_append, toList_joined]
  simp

theorem names_of_joined (hn : names ≠ []) (h : ∀ name ∈ names, Plain name) : names_of (joined names) = names := by
  rw [names_of, toList_joined, List.splitOn_intercalate]
  · rw [List.map_map]
    exact List.map_id'' (fun name => String.ofList_toList) names
  · intro t ht
    obtain ⟨name, hm, rfl⟩ := mem_map.mp ht
    exact (h name hm).2
  · simpa using hn

theorem joined_singleton (name : String) : joined [name] = name := by
  rw [joined, List.map_singleton, List.intercalate_singleton, String.ofList_toList]

theorem joined_ne (hn : names ≠ []) (h : ∀ name ∈ names, Plain name) : joined names ≠ "" := by
  intro he
  have hm := names_of_joined hn h
  rw [he, show names_of "" = [""] from rfl] at hm
  exact (h "" (hm ▸ List.mem_singleton_self _)).1 rfl

def Fits (names : List String) : Prop := (joined names).utf8ByteSize ≤ MAX_FILTER_BYTES ∨ ∃ name, names = [name]

/-- The chunks so far hold the names so far. -/
structure Chunked (done : List String) (chunks : List String × String) (groups : List (List String)) (last : List String) : Prop where
  chunks : chunks = (groups.map joined, joined last)
  names : groups.flatten ++ last = done
  groups : ∀ group ∈ groups, group ≠ [] ∧ Fits group
  last : last = [] ∧ done = [] ∨ last ≠ [] ∧ Fits last

theorem Chunked.push {done : List String} {c : List String × String} {groups : List (List String)} {last : List String}
    (h : Chunked done c groups last) (hp : ∀ name ∈ done, Plain name) (name : String) :
    ∃ groups last, Chunked (done ++ [name]) (push_name c name) groups last := by
  obtain ⟨rfl, rfl, hg, hl⟩ := h
  rcases hl with ⟨rfl, hd⟩ | ⟨hn, hf⟩
  · refine ⟨groups, [name], ?_, by simp, hg, .inr ⟨by simp, .inr ⟨name, rfl⟩⟩⟩
    rw [joined_singleton]
    simp [push_name, joined]
  · have hc : joined last ≠ "" := joined_ne hn fun name hm => hp name (List.mem_append_right _ hm)
    by_cases hln : (joined last).utf8ByteSize + 1 + name.utf8ByteSize > MAX_FILTER_BYTES
    · refine ⟨groups ++ [last], [name], ?_, by simp, ?_, .inr ⟨by simp, .inr ⟨name, rfl⟩⟩⟩
      · rw [joined_singleton]
        simp [push_name, hc, hln]
      · intro g hr
        rcases mem_append.mp hr with hr | hr
        · exact hg g hr
        · cases List.mem_singleton.mp hr
          exact ⟨hn, hf⟩
    · refine ⟨groups, last ++ [name], ?_, by simp, hg, .inr ⟨by simp, .inl ?_⟩⟩
      · rw [joined_snoc hn]
        simp [push_name, hc, hln]
      · have hcm : (",").utf8ByteSize = 1 := rfl
        rw [joined_snoc hn, String.utf8ByteSize_append, String.utf8ByteSize_append]
        omega

theorem filter_chunks_groups {wanted : List String} (hn : wanted ≠ []) (hp : ∀ name ∈ wanted, Plain name) :
    ∃ groups : List (List String), filter_chunks wanted = groups.map joined ∧ groups.flatten = wanted ∧
      ∀ group ∈ groups, group ≠ [] ∧ Fits group := by
  have hr : ∀ (r done : List String) (c : List String × String) (groups : List (List String)) (last : List String),
      Chunked done c groups last → (∀ name ∈ done ++ r, Plain name) →
        ∃ groups last, Chunked (done ++ r) (r.foldl push_name c) groups last := by
    intro r
    induction r with
    | nil =>
      intro done c groups last h _
      exact ⟨groups, last, by rwa [List.append_nil]⟩
    | cons name r ih =>
      intro done c groups last h hp
      obtain ⟨groups, last, hs⟩ := h.push (fun name hna => hp name (List.mem_append_left _ hna)) name
      have := ih (done ++ [name]) _ groups last hs (by simpa using hp)
      simpa using this
  obtain ⟨groups, last, hc, hm, hg, hl⟩ := hr wanted [] ([], "") [] [] ⟨rfl, rfl, nofun, .inl ⟨rfl, rfl⟩⟩ hp
  rcases hl with ⟨-, hnn⟩ | ⟨hl, hf⟩
  · exact absurd hnn hn
  · refine ⟨groups ++ [last], ?_, ?_, ?_⟩
    · rw [filter_chunks, hc, List.map_append]
      rfl
    · rw [← nil_append wanted, ← hm]
      simp
    · intro group hgr
      rcases mem_append.mp hgr with hgr | hgr
      · exact hg group hgr
      · cases List.mem_singleton.mp hgr
        exact ⟨hl, hf⟩

/-- The filters of the wanted names: none is empty, each is within the bound or one name, and
    together they hold each name once. -/
theorem filter_chunks_spec {wanted : List String} (hn : wanted ≠ []) (hp : ∀ name ∈ wanted, Plain name) :
    (filter_chunks wanted).flatMap names_of = wanted ∧ ∀ filter ∈ filter_chunks wanted,
      filter ≠ "" ∧ (filter.utf8ByteSize ≤ MAX_FILTER_BYTES ∨ names_of filter = [filter]) := by
  obtain ⟨gr, hc, rfl, hg⟩ := filter_chunks_groups hn hp
  have hp' : ∀ g ∈ gr, ∀ name ∈ g, Plain name := fun g hr name hm =>
    hp name (List.mem_flatten_of_mem hr hm)
  rw [hc]
  constructor
  · rw [List.flatMap_map, List.flatMap_def]
    congr 1
    refine (List.map_congr_left fun g hr => ?_).trans (List.map_id gr)
    exact names_of_joined (hg g hr).1 (hp' g hr)
  · intro filter hf
    obtain ⟨g, hr, rfl⟩ := mem_map.mp hf
    obtain ⟨hn, ht⟩ := hg g hr
    refine ⟨joined_ne hn (hp' g hr), ht.imp_right ?_⟩
    rintro ⟨name, rfl⟩
    rw [names_of_joined (by simp) (hp' _ hr), joined_singleton]

/-! ## Secrets -/

/-- What a secret object of the server reads as. -/
def entry_value (value : Json) (name : String) : Except String (Option SecretBytes) :=
  if is_reserved name then .ok none else secret_value value name

variable {config : String} {sr : List (String × Json)}

theorem collect_secrets_ok {l : Map String SecretBytes} :
    (∃ v, collect_secrets config sr l = .ok v) ↔
      ∀ s ∈ sr, ∃ found, entry_value s.2 s.1 = .ok found := by
  induction sr generalizing l with
  | nil => exact iff_of_true ⟨l, rfl⟩ nofun
  | cons s sr ih =>
    obtain ⟨name, value⟩ := s
    rw [forall_mem_cons, collect_secrets, entry_value]
    split
    · exact ih.trans ⟨fun h => ⟨⟨none, rfl⟩, h⟩, And.right⟩
    · split
      · cases hv : secret_value value name with
        | error error => exact iff_of_false (fun h => nomatch h.choose_spec) fun h => nomatch h.1.choose_spec
        | ok found => exact ih.trans ⟨fun h => ⟨⟨found, rfl⟩, h⟩, And.right⟩
      · next ho =>
        rw [secret_value, if_neg ho]
        exact iff_of_false (fun h => nomatch h.choose_spec) fun h => nomatch h.1.choose_spec

theorem collect_secrets_cons {name : String} {value : Json} {l values : Map String SecretBytes}
    (h : collect_secrets config ((name, value) :: sr) l = .ok values) :
    ∃ found, entry_value value name = .ok found ∧ collect_secrets config sr (l.insert_option name found) = .ok values := by
  rw [collect_secrets] at h
  rw [entry_value]
  split at h
  · next hr => exact ⟨none, if_pos hr, h⟩
  · next hr =>
    split at h
    · next ho =>
      cases hv : secret_value value name with
      | error error =>
        rw [hv] at h
        cases h
      | ok found =>
        rw [hv] at h
        exact ⟨found, if_neg hr, h⟩
    · cases h

theorem collect_secrets_values {listed v : Map String SecretBytes} (hd : (sr.map Prod.fst).Nodup)
    (hn : ∀ s ∈ sr, listed s.1 = none) (h : collect_secrets config sr listed = .ok v) :
    (∀ s ∈ sr, entry_value s.2 s.1 = .ok (v s.1)) ∧
      ∀ name, name ∉ sr.map Prod.fst → v name = listed name := by
  induction sr generalizing listed with
  | nil =>
    cases h
    exact ⟨nofun, fun _ _ => rfl⟩
  | cons s sr ih =>
    obtain ⟨name, value⟩ := s
    obtain ⟨hf, hd⟩ := List.nodup_cons.mp hd
    obtain ⟨hm, hn⟩ := forall_mem_cons.mp hn
    obtain ⟨found, hfn, hr⟩ := collect_secrets_cons h
    have ho : ∀ other ∈ sr, other.1 ≠ name := by
      rintro other hmm rfl
      exact hf (mem_map.mpr ⟨other, hmm, rfl⟩)
    obtain ⟨hi, hou⟩ := ih hd
      (fun other hmm => by rw [Map.insert_option_of_ne (ho other hmm)]; exact hn other hmm) hr
    constructor
    · intro s hs
      rcases mem_cons.mp hs with rfl | hs
      · rw [hou name hf, Map.insert_option_self, hm, Option.or_none]
        exact hfn
      · exact hi s hs
    · intro other hmm
      rw [map_cons, mem_cons, not_or] at hmm
      obtain ⟨hne, hmm⟩ := hmm
      rw [hou other hmm, Map.insert_option_of_ne hne]

/-! ## Listings -/

section

variable (provider : DopplerProvider) (server : Server) (config : String)

/-- The single read of a name in a config. -/
def single (name : String) : Except String (Option SecretBytes) :=
  (get_async server ⟨provider.config.project, config, name⟩ .IsAnError).2

variable {provider server config}
variable {name : String}

theorem single_reserved (h : is_reserved name) : single provider server config name = .ok none := by
  rw [single, get_async, if_pos h]

theorem single_refused {r : Refusal} (h : server.config config = .error r)
    (hn : is_reserved name = false) : ∃ error, single provider server config name = .error error := by
  rw [single, get_async, if_neg (by simp [hn]), Server.read, h]
  show ∃ error, (if r.status = 404 ∧ AbsentConfig.IsAnError = .HoldsNothing then _ else _) = Except.error error
  rw [if_neg (by simp)]
  exact ⟨_, rfl⟩

theorem single_stored {s : Stored} (h : server.config config = .ok s) (hn : is_reserved name = false)
    {value : Json} (hv : s.secrets.lookup name = some value) (found : Option SecretBytes) :
    single provider server config name = .ok found ↔ entry_value value name = .ok found := by
  have hr : single provider server config name =
      parse_secret_value (.obj [("name", .str name), ("value", value), ("success", .bool true)]) name := by
    rw [single, get_async, if_neg (by simp [hn]), Server.read, h]
    show parse_secret_value (.obj [_, ("value", (s.secrets.lookup name).getD absent_object), _]) name = _
    rw [hv]
    rfl
  rw [hr, parse_secret_value, entry_value, if_neg (by simp [hn])]
  rw [show (Json.obj [("name", .str name), ("value", value), ("success", .bool true)]).get "value" = some value from rfl]
  cases ho : value.is_obj with
  | true => rw [Option.filter_some, ho]; simp
  | false => rw [Option.filter_some, ho, secret_value, ho]; simp

theorem single_absent {s : Stored} (h : server.config config = .ok s)
    (hv : s.secrets.lookup name = none) : single provider server config name = .ok none := by
  cases hn : is_reserved name with
  | true => exact single_reserved hn
  | false =>
    rw [single, get_async, if_neg (by simp [hn]), Server.read, h]
    show parse_secret_value (.obj [_, ("value", (s.secrets.lookup name).getD absent_object), _]) name = _
    rw [hv]
    rfl

/-- The answer to a filter holds the single reads of its names, and nothing else. -/
theorem listing_spec {filter : String} (hf : filter ≠ "") :
    ((∃ m, interpret_listing provider.config.project config (server.list config filter) = .ok m) ↔
      (∃ s, server.config config = .ok s) ∧
        ∀ name ∈ names_of filter, is_reserved name = false → ∃ found, single provider server config name = .ok found) ∧
    ∀ m, interpret_listing provider.config.project config (server.list config filter) = .ok m →
      (∀ name ∈ names_of filter, is_reserved name = false → single provider server config name = .ok (m name)) ∧
        ∀ name, name ∉ names_of filter ∨ is_reserved name → m name = none := by
  cases hc : server.config config with
  | error r =>
    have he : interpret_listing provider.config.project config (server.list config filter) =
        .error (http_error provider.config.project r s!"listing config '{config}'") := by
      rw [Server.list, hc]
      rfl
    rw [he]
    exact ⟨iff_of_false (fun h => nomatch h.choose_spec) (fun h => nomatch h.1.choose_spec), nofun⟩
  | ok s =>
    have hl : interpret_listing provider.config.project config (server.list config filter) =
        collect_secrets config (s.secrets.filter fun sc => (names_of filter).contains sc.1) .empty := by
      rw [Server.list, hc]
      show collect_secrets config (if filter = "" then _ else _) .empty = _
      rw [if_neg hf]
    have hm {sc : String × Json} : sc ∈ s.secrets.filter (fun sc => (names_of filter).contains sc.1) ↔
        sc ∈ s.secrets ∧ sc.1 ∈ names_of filter := by
      rw [List.mem_filter, List.contains_iff_mem]
    rw [hl]
    constructor
    · rw [collect_secrets_ok]
      constructor
      · refine fun h => ⟨⟨s, rfl⟩, fun name hn hr => ?_⟩
        cases hv : s.secrets.lookup name with
        | none => exact ⟨none, single_absent hc hv⟩
        | some value =>
          obtain ⟨found, hfn⟩ := h _ (hm.mpr ⟨(lookup_iff_mem s.distinct).mp hv, hn⟩)
          exact ⟨found, (single_stored hc hr hv found).mpr hfn⟩
      · rintro ⟨-, h⟩ ⟨name, value⟩ hs
        obtain ⟨hs, hn⟩ := hm.mp hs
        cases hr : is_reserved name with
        | true => exact ⟨none, if_pos hr⟩
        | false =>
          obtain ⟨found, hfn⟩ := h name hn hr
          exact ⟨found, (single_stored hc hr ((lookup_iff_mem s.distinct).mpr hs) found).mp hfn⟩
    · intro m hmr
      obtain ⟨hi, ho⟩ := collect_secrets_values (s.distinct.sublist (List.filter_sublist.map _)) (fun _ _ => rfl) hmr
      have ho' {name : String} (h : ∀ value, (name, value) ∈ s.secrets → name ∉ names_of filter) : m name = none := by
        refine ho name fun hk => ?_
        obtain ⟨sc, hs, rfl⟩ := mem_map.mp hk
        exact h sc.2 (hm.mp hs).1 (hm.mp hs).2
      constructor
      · intro name hn hr
        cases hv : s.secrets.lookup name with
        | none =>
          rw [ho' fun value ht => by rw [(lookup_iff_mem s.distinct).mpr ht] at hv; cases hv]
          exact single_absent hc hv
        | some value =>
          exact (single_stored hc hr hv _).mpr (hi _ (hm.mpr ⟨(lookup_iff_mem s.distinct).mp hv, hn⟩))
      · rintro name (hn | hr)
        · exact ho' fun _ _ => hn
        · by_cases hk : name ∈ (s.secrets.filter fun sc => (names_of filter).contains sc.1).map Prod.fst
          · obtain ⟨sc, hs, rfl⟩ := mem_map.mp hk
            have hv := hi sc hs
            rw [entry_value, if_pos hr] at hv
            exact (Except.ok.inj hv).symm
          · exact ho name hk

/-- What the listings hold of a name, once each is in. -/
theorem list_chunks_spec {f : List String} (hf : ∀ filter ∈ f, filter ≠ "")
    (hp : ∀ filter ∈ f, ∀ name ∈ names_of filter, is_reserved name = false) (l : Map String SecretBytes) :
    ((∃ v, (provider.list_chunks server config f l).2 = .ok v) ↔
      ∀ filter ∈ f, (∃ s, server.config config = .ok s) ∧
        ∀ name ∈ names_of filter, ∃ found, single provider server config name = .ok found) ∧
    ∀ v, (provider.list_chunks server config f l).2 = .ok v → ∀ name,
      ((∃ filter ∈ f, name ∈ names_of filter) → (l name = none ∨ single provider server config name = .ok (l name)) →
        single provider server config name = .ok (v name)) ∧
      ((∀ filter ∈ f, name ∉ names_of filter) → v name = l name) := by
  induction f generalizing l with
  | nil =>
    refine ⟨iff_of_true ⟨l, rfl⟩ nofun, fun v hv name => ?_⟩
    cases hv
    exact ⟨fun ⟨_, hm, _⟩ => absurd hm List.not_mem_nil, fun _ => rfl⟩
  | cons filter f ih =>
    obtain ⟨ht, hf⟩ := forall_mem_cons.mp hf
    obtain ⟨hr, hp⟩ := forall_mem_cons.mp hp
    obtain ⟨ho, hva⟩ := @listing_spec provider server config filter ht
    rw [forall_mem_cons, list_chunks]
    cases hl : interpret_listing provider.config.project config (server.list config filter) with
    | error error =>
      refine ⟨iff_of_false (fun h => nomatch h.choose_spec) fun h => ?_, nofun⟩
      obtain ⟨m, hmr⟩ := ho.mpr ⟨h.1.1, fun name hn _ => h.1.2 name hn⟩
      rw [hl] at hmr
      cases hmr
    | ok m =>
      obtain ⟨hi, hou⟩ := hva m hl
      obtain ⟨hs, hsn⟩ := ho.mp ⟨m, hl⟩
      obtain ⟨hrs, hv⟩ := ih hf hp fun name => (m name).or (l name)
      refine ⟨hrs.trans ⟨fun h => ⟨⟨hs, fun name hn => hsn name hn (hr name hn)⟩, h⟩, And.right⟩, ?_⟩
      intro v hrn name
      obtain ⟨hlr, hk⟩ := hv v hrn name
      -- what is listed after the first filter is still nothing or the single read
      have hg : (l name = none ∨ single provider server config name = .ok (l name)) →
          (m name).or (l name) = none ∨ single provider server config name = .ok ((m name).or (l name)) := by
        intro hlt
        cases hmr : m name with
        | none => rwa [Option.none_or]
        | some value =>
          by_cases hn : name ∈ names_of filter
          · right
            rw [Option.some_or, ← hmr]
            exact hi name hn (hr name hn)
          · rw [hou name (.inl hn)] at hmr
            cases hmr
      constructor
      · rintro ⟨found, hfn, hn⟩ hlt
        by_cases ha : ∃ filter ∈ f, name ∈ names_of filter
        · exact hlr ha (hg hlt)
        · rcases mem_cons.mp hfn with rfl | hfn
          · rw [hk fun filter ht hm => ha ⟨filter, ht, hm⟩]
            have hd := hi name hn (hr name hn)
            rcases hg hlt with hnn | hsm
            · rw [hnn, hd, (Option.or_eq_none_iff.mp hnn).1]
            · exact hsm
          · exact absurd ⟨found, hfn, hn⟩ ha
      · intro hnt
        obtain ⟨hnt, hnn⟩ := forall_mem_cons.mp hnt
        rw [hk hnn, hou name (.inl hnt), Option.none_or]

theorem mem_filter_names {k : List String} :
    name ∈ filter_names k ↔ name ∈ k ∧ is_reserved name = false := by
  rw [filter_names, mem_sorted_set, List.mem_filter, Bool.not_eq_true']

/-- The listing of a config, of the names it is asked for. -/
theorem list_group_spec {keys : List String} (hp : ∀ key ∈ keys, Plain key) :
    ((∃ l, (provider.list_group server config keys).2 = .ok l) ↔
      ∀ key ∈ keys, ∃ found, single provider server config key = .ok found) ∧
    ∀ l, (provider.list_group server config keys).2 = .ok l →
      ∀ key ∈ keys, single provider server config key = .ok (l key) := by
  have hr {key : String} (hk : key ∈ keys) (h : key ∉ filter_names keys) : is_reserved key := by
    by_contra hn
    exact h (mem_filter_names.mpr ⟨hk, by simpa using hn⟩)
  rw [list_group]
  split
  · next hnn =>
    have ha {key : String} (hk : key ∈ keys) : single provider server config key = .ok none :=
      single_reserved (hr hk (hnn ▸ List.not_mem_nil))
    refine ⟨iff_of_true ⟨.empty, rfl⟩ fun key hk => ⟨none, ha hk⟩, fun l hl key hk => ?_⟩
    cases hl
    exact ha hk
  · next hs =>
    have hm : ∀ name ∈ filter_names keys, Plain name := fun name hna => hp name (mem_filter_names.mp hna).1
    obtain ⟨hf, ht⟩ := filter_chunks_spec hs hm
    have hmm {name : String} : (∃ filter ∈ filter_chunks (filter_names keys), name ∈ names_of filter) ↔
        name ∈ filter_names keys := by
      rw [← List.mem_flatMap, hf]
    have ho : ∀ filter ∈ filter_chunks (filter_names keys), ∀ name ∈ names_of filter, is_reserved name = false :=
      fun filter hfl name hna => (mem_filter_names.mp (hmm.mp ⟨filter, hfl, hna⟩)).2
    obtain ⟨hok, hv⟩ := @list_chunks_spec provider server config _ (fun filter hfl => (ht filter hfl).1) ho .empty
    constructor
    · refine hok.trans ⟨fun h key hk => ?_, fun h filter hfl => ⟨?_, fun name hna => ?_⟩⟩
      · by_cases hna : key ∈ filter_names keys
        · obtain ⟨filter, hfl, hi⟩ := hmm.mpr hna
          exact (h filter hfl).2 key hi
        · exact ⟨none, single_reserved (hr hk hna)⟩
      · obtain ⟨name, hna⟩ := List.exists_mem_of_ne_nil _ hs
        obtain ⟨hk, ho⟩ := mem_filter_names.mp hna
        obtain ⟨found, hfn⟩ := h name hk
        cases hc : server.config config with
        | ok s => exact ⟨s, rfl⟩
        | error r =>
          obtain ⟨error, he⟩ := @single_refused provider server config name r hc ho
          rw [hfn] at he
          cases he
      · exact h name (mem_filter_names.mp (hmm.mp ⟨filter, hfl, hna⟩)).1
    · intro l hl key hk
      by_cases hna : key ∈ filter_names keys
      · exact (hv l hl key).1 (hmm.mpr hna) (.inl rfl)
      · rw [(hv l hl key).2 fun filter hfl hi => hna (hmm.mp ⟨filter, hfl, hi⟩)]
        exact single_reserved (hr hk hna)

end

/-! ## Locations -/

theorem valid_secret_name {name : String} (h : validate_secret_name name = .ok ()) : Plain name := by
  unfold validate_secret_name at h
  split at h
  · cases h
  · next hn =>
    split at h
    · cases h
    · split at h
      · next hc =>
        refine ⟨hn, fun hm => ?_⟩
        exact absurd (List.all_eq_true.mp hc ',' hm) (by decide)
      · cases h

theorem slug_slash (h : is_doppler_slug config) : '/' ∉ config.toList := by
  intro hs
  unfold is_doppler_slug at h
  exact absurd (List.all_eq_true.mp (Bool.and_eq_true_iff.mp h).2 '/' hs) (by decide)

theorem parse_item_ok {i name : String} {f : Option (String × ConfigSource)}
    (h : parse_item i f = .ok (config, name)) :
    is_doppler_slug config ∧ validate_secret_name name = .ok () := by
  obtain ⟨⟨c', n', s⟩, -, h⟩ := Except.bind_ok h
  obtain ⟨⟨⟩, hc, h⟩ := Except.bind_ok h
  obtain ⟨⟨⟩, hn, h⟩ := Except.bind_ok h
  cases h
  refine ⟨?_, hn⟩
  unfold validate_config_name at hc
  split at hc
  · assumption
  · cases hc

/-- The coordinates of a location read back as it. -/
theorem parse_item_coordinates {name : String} (hc : is_doppler_slug config)
    (hn : validate_secret_name name = .ok ()) : parse_item s!"{config}/{name}" none = .ok (config, name) := by
  have hp : item_parts s!"{config}/{name}" none = .ok (config, name, .Ref) := by
    have hl : (s!"{config}/{name}").toList = config.toList ++ '/' :: name.toList := by
      show (config ++ "/" ++ name).toList = _
      simp
    rw [item_parts, hl, Texts.split_once_first (slug_slash hc)]
    simp
  rw [parse_item, hp]
  show (do validate_config_name config .Ref; validate_secret_name name; pure (config, name)) = _
  rw [validate_config_name, if_pos hc, hn]
  rfl

section

variable {provider : DopplerProvider} {server : Server}
variable {addr : Address}

theorem locate_ok {l : Location} (h : provider.locate addr = .ok l) :
    l.project = provider.config.project ∧ is_doppler_slug l.config ∧ validate_secret_name l.name = .ok () := by
  obtain ⟨i, -, h⟩ := Except.bind_ok h
  obtain ⟨⟨config, name⟩, hi, h⟩ := Except.bind_ok h
  cases h
  exact ⟨rfl, parse_item_ok hi⟩

theorem place_of_ok {config name : String} :
    provider.place_of addr = .ok (config, name) ↔ provider.locate addr = .ok ⟨provider.config.project, config, name⟩ := by
  rw [place_of, Except.map_eq_ok]
  constructor
  · rintro ⟨loc, hl, he⟩
    obtain ⟨hp, -⟩ := locate_ok hl
    cases he
    rw [hl, ← hp]
  · exact fun h => ⟨_, h, rfl⟩

theorem get_located {config name : String} (h : provider.place_of addr = .ok (config, name)) :
    (provider.get server addr).2 = single provider server config name := by
  rw [DopplerProvider.get, place_of_ok.mp h]
  rfl

theorem get_unlocated {error : String} (h : provider.place_of addr = .error error) :
    (provider.get server addr).2 = .error error := by
  have hl : provider.locate addr = .error error := Except.error_of_map h
  rw [DopplerProvider.get, hl]

/-- What is sent to one config. -/
def sent (config : String) (calls : List Call) : List String :=
  calls.filterMap fun call =>
    match call with
    | .List _ listed names => if listed = config then some names else none
    | .Read _ | .Write _ _ => none

theorem list_chunks_calls (config : String) (f : List String) (l : Map String SecretBytes) :
    ∃ asked, asked <+: f ∧ (provider.list_chunks server config f l).1 = asked.map (Call.List provider.config.project config) ∧
      ((∃ v, (provider.list_chunks server config f l).2 = .ok v) → asked = f) := by
  induction f generalizing l with
  | nil => exact ⟨[], prefix_rfl, rfl, fun _ => rfl⟩
  | cons filter f ih =>
    rw [list_chunks]
    cases hl : interpret_listing provider.config.project config (server.list config filter) with
    | error error => exact ⟨[filter], ⟨f, rfl⟩, rfl, fun ⟨_, h⟩ => by cases h⟩
    | ok m =>
      obtain ⟨asked, ha, hc, hal⟩ := ih fun name => (m name).or (l name)
      refine ⟨filter :: asked, List.cons_prefix_cons.mpr ⟨rfl, ha⟩, ?_, fun h => ?_⟩
      · show _ :: _ = _ :: _
        rw [hc]
      · rw [hal h]

theorem sent_map (config : String) (p other : String) (f : List String) :
    sent config (f.map (Call.List p other)) = if other = config then f else [] := by
  rw [sent, List.filterMap_map]
  split
  · next h =>
    subst h
    simp
  · next h => simp [h]

/-- The filters for the keys wanted in a config. -/
def filters_for (keys : List String) : List String :=
  if filter_names keys = [] then [] else filter_chunks (filter_names keys)

theorem list_group_calls (config : String) (k : List String) :
    ∃ asked, asked <+: filters_for k ∧ (provider.list_group server config k).1 = asked.map (Call.List provider.config.project config) ∧
      ((∃ v, (provider.list_group server config k).2 = .ok v) → asked = filters_for k) := by
  rw [list_group, filters_for]
  split
  · exact ⟨[], prefix_rfl, rfl, fun _ => rfl⟩
  · exact list_chunks_calls config _ _

/-- The filters hold each ordinary key once, and are bounded. -/
theorem filters_for_spec {k : List String} (hp : ∀ ky ∈ k, Plain ky) :
    ((filters_for k).flatMap names_of).Nodup ∧
      (∀ name, name ∈ (filters_for k).flatMap names_of ↔ name ∈ k ∧ is_reserved name = false) ∧
        ∀ filter ∈ filters_for k, filter ≠ "" ∧ (filter.utf8ByteSize ≤ MAX_FILTER_BYTES ∨ names_of filter = [filter]) := by
  unfold filters_for
  split
  · next hn =>
    refine ⟨List.nodup_nil, fun name => ?_, nofun⟩
    rw [← mem_filter_names, hn]
    rfl
  · next hs =>
    have hm : ∀ name ∈ filter_names k, Plain name := fun name hna => hp name (mem_filter_names.mp hna).1
    obtain ⟨hf, hl⟩ := filter_chunks_spec hs hm
    rw [hf]
    exact ⟨sorted_set_nodup _, fun name => mem_filter_names, hl⟩

/-- Of groups with distinct places, only the one at a place sends anything there. -/
theorem sent_groups {config : String} {g : List (String × List (Wanted String String))} {c : String × List (Wanted String String) → List Call}
    (hc : ∀ gr ∈ g, ∃ asked : List String, c gr = asked.map (Call.List provider.config.project gr.1))
    (hd : (g.map Prod.fst).Nodup) :
    (config ∉ g.map Prod.fst → sent config (g.flatMap c) = []) ∧
      ∀ gr ∈ g, gr.1 = config → sent config (g.flatMap c) = sent config (c gr) := by
  induction g with
  | nil => exact ⟨fun _ => rfl, nofun⟩
  | cons first g ih =>
    obtain ⟨hf, hr⟩ := List.nodup_cons.mp hd
    obtain ⟨⟨asked, ha⟩, hc⟩ := forall_mem_cons.mp hc
    obtain ⟨ho, hi⟩ := ih hc hr
    have hp : sent config ((first :: g).flatMap c) = sent config (c first) ++ sent config (g.flatMap c) := by
      rw [List.flatMap_cons, sent, List.filterMap_append]
      rfl
    have hoh (h : first.1 ≠ config) : sent config (c first) = [] := by rw [ha, sent_map, if_neg h]
    rw [hp]
    constructor
    · intro h
      rw [map_cons, mem_cons, not_or] at h
      rw [hoh (Ne.symm h.1), ho h.2, nil_append]
    · intro gr hg ht
      rcases mem_cons.mp hg with rfl | hg
      · rw [ho (ht ▸ hf), List.append_nil]
      · have hn : first.1 ≠ config := by
          rintro rfl
          exact hf (mem_map.mpr ⟨gr, hg, ht⟩)
        rw [hoh hn, hi gr hg ht, nil_append]

/-! ## Batches -/

variable {requests : List (String × Address)} {wanted : List (Wanted String String)}

variable (hash : HashOrder (String × List (Wanted String String)))

theorem get_many_located (h : locate_all provider.place_of requests = .ok wanted) : provider.get_many server hash requests =
      ((hash.order (groups_by_place wanted)).flatMap fun g => (provider.list_group server g.1 (g.2.map Wanted.key)).1,
        get_listed hash wanted (fun config k => (provider.list_group server config k).2) .empty) := by
  rw [DopplerProvider.get_many]
  split
  · next hn =>
    subst hn
    obtain rfl : wanted = [] := List.map_eq_nil_iff.mp (locate_all_names h)
    have he : hash.order (groups_by_place ([] : List (Wanted String String))) = [] := (hash.perm _).eq_nil
    rw [get_listed, he]
    rfl
  · rw [h]

theorem located_plain (h : locate_all provider.place_of requests = .ok wanted) {r : Wanted String String} (hr : r ∈ wanted) :
    Plain r.key := by
  obtain ⟨_, -, -, hp⟩ := located_mem h hr
  exact valid_secret_name (locate_ok (place_of_ok.mp hp)).2.2

theorem keys_plain (h : locate_all provider.place_of requests = .ok wanted) {config key : String} (hk : key ∈ keys_at config wanted) :
    Plain key := by
  obtain ⟨r, hr, rfl⟩ := mem_map.mp hk
  exact located_plain h (mem_wanted_at.mp hr).1

theorem get_many_unlocated {error : String}
    (h : locate_all provider.place_of requests = .error error) : provider.get_many server hash requests = ([], .error error) := by
  rw [DopplerProvider.get_many, if_neg, h]
  rintro rfl
  cases h

theorem get_many_agrees (hd : (requests.map Prod.fst).Nodup) :
    Agrees requests (fun addr => (provider.get server addr).2) (provider.get_many server hash requests).2 := by
  cases hl : locate_all provider.place_of requests with
  | error error =>
    rw [get_many_unlocated hash hl]
    refine ⟨iff_of_false (fun h => nomatch h.choose_spec) fun h => ?_, nofun⟩
    obtain ⟨wanted, hw⟩ := @locate_all_ok _ _ _ _ provider.place_of requests fun r hr => by
      cases hp : provider.place_of r.2 with
      | ok found => exact ⟨found, rfl⟩
      | error error =>
        obtain ⟨found, hf⟩ := h r hr
        rw [get_unlocated hp] at hf
        cases hf
    rw [hw] at hl
    cases hl
  | ok wanted =>
    rw [get_many_located hash hl]
    have hn := locate_all_names hl
    have hs (config : String) := @list_group_spec provider server config (keys_at config wanted) fun k hk => keys_plain hl hk
    have hk {r : Wanted String String} (hr : r ∈ wanted) : r.key ∈ keys_at r.place wanted :=
      List.mem_map_of_mem (mem_wanted_at.mpr ⟨hr, rfl⟩)
    constructor
    · rw [get_listed_succeeds]
      constructor
      · intro h r hr
        obtain ⟨⟨config, k⟩, hp, hm⟩ := mem_located hl hr
        rw [get_located hp]
        exact (hs config).1.mp (h _ hm) k (hk hm)
      · intro h r hr
        refine (hs r.place).1.mpr fun k hk => ?_
        obtain ⟨other, ho, rfl⟩ := mem_map.mp hk
        obtain ⟨ho, ha⟩ := mem_wanted_at.mp ho
        obtain ⟨asked, hak, -, hp⟩ := located_mem hl ho
        rw [← ha, ← get_located hp]
        exact h asked hak
    · intro v hv
      dsimp only at hv
      obtain ⟨hi, hou⟩ := get_listed_values hash (hn ▸ hd) hv
      constructor
      · intro r hr
        obtain ⟨⟨config, k⟩, hp, hm⟩ := mem_located hl hr
        obtain ⟨l, hls, hva⟩ := hi _ hm
        have hrd := (hs config).2 l hls k (hk hm)
        rw [get_located hp, hrd, hva, Map.empty_apply, Option.or_none]
      · intro name hna
        exact hou name (hn ▸ hna)

theorem groups_calls {g : String × List (Wanted String String)} (hg : g ∈ hash.order (groups_by_place wanted)) :
    ∃ asked, asked <+: filters_for (keys_at g.1 wanted) ∧
      (provider.list_group server g.1 (g.2.map Wanted.key)).1 = asked.map (Call.List provider.config.project g.1) ∧
        ((∃ v, (provider.list_group server g.1 (keys_at g.1 wanted)).2 = .ok v) →
          asked = filters_for (keys_at g.1 wanted)) := by
  have hk : g.2.map Wanted.key = keys_at g.1 wanted :=
    congrArg (List.map Wanted.key) (mem_groups_by_place.mp ((hash.perm _).mem_iff.mp hg)).2
  rw [hk]
  exact list_group_calls g.1 (keys_at g.1 wanted)

/-- A config is sent filters of the keys wanted there, all of them when the batch goes through. -/
theorem sent_config (h : locate_all provider.place_of requests = .ok wanted) (config : String) :
    sent config (provider.get_many server hash requests).1 <+: filters_for (keys_at config wanted) ∧
      ((∃ v, (provider.get_many server hash requests).2 = .ok v) →
        sent config (provider.get_many server hash requests).1 = filters_for (keys_at config wanted)) := by
  rw [get_many_located hash h]
  have hp : ((hash.order (groups_by_place wanted)).map Prod.fst).Nodup := by
    refine (((hash.perm _).map Prod.fst).nodup_iff).mpr ?_
    rw [groups_by_place, List.map_map]
    exact (List.nodup_dedup _).map_on fun _ _ _ _ he => he
  obtain ⟨ho, hi⟩ := @sent_groups provider config (hash.order (groups_by_place wanted))
    (fun g => (provider.list_group server g.1 (g.2.map Wanted.key)).1)
    (fun g hg => let ⟨asked, _, hk, _⟩ := groups_calls hash hg; ⟨asked, hk⟩) hp
  by_cases hl : config ∈ (hash.order (groups_by_place wanted)).map Prod.fst
  · obtain ⟨g, hg, rfl⟩ := mem_map.mp hl
    obtain ⟨asked, ha, hk, hal⟩ := @groups_calls provider server wanted hash g hg
    have hs : sent g.1 ((hash.order (groups_by_place wanted)).flatMap fun g =>
        (provider.list_group server g.1 (g.2.map Wanted.key)).1) = asked := by
      rw [hi g hg rfl, hk, sent_map, if_pos rfl]
    dsimp only
    rw [hs]
    refine ⟨ha, fun hok => hal ?_⟩
    obtain ⟨r, hr, ht⟩ := mem_map.mp (mem_groups_by_place.mp ((hash.perm _).mem_iff.mp hg)).1
    exact ht ▸ (get_listed_succeeds hash).mp hok r hr
  · have hn : keys_at config wanted = [] := by
      refine List.map_eq_nil_iff.mpr (List.filter_eq_nil_iff.mpr fun r hr ht => hl ?_)
      refine mem_map.mpr ⟨_, (hash.perm _).mem_iff.mpr (group_of_wanted hr), ?_⟩
      exact of_decide_eq_true ht
    have hs := ho hl
    dsimp only at hs ⊢
    rw [hs, hn]
    exact ⟨prefix_rfl, fun _ => rfl⟩

theorem get_many_calls {call : Call}
    (hc : call ∈ (provider.get_many server hash requests).1) : ∃ config filter, call = .List provider.config.project config filter := by
  cases hl : locate_all provider.place_of requests with
  | error error =>
    rw [get_many_unlocated hash hl] at hc
    cases hc
  | ok wanted =>
    rw [get_many_located hash hl] at hc
    obtain ⟨g, hg, hc⟩ := List.mem_flatMap.mp hc
    obtain ⟨asked, -, ha, -⟩ := groups_calls hash hg
    rw [ha] at hc
    obtain ⟨filter, -, rfl⟩ := mem_map.mp hc
    exact ⟨g.1, filter, rfl⟩

/-! ## Coordinates -/

theorem calls_at {loc : Location} (h : provider.locate addr = .ok loc) (value : SecretBytes) :
    ∀ call ∈ (provider.get server addr).1 ++ (provider.set server addr value).1 ++ (provider.delete server addr).1,
      call.location = some loc := by
  have hr (a : AbsentConfig) : ∀ call ∈ (get_async server loc a).1, call.location = some loc := by
    unfold get_async
    split
    · exact nofun
    · simp [Call.location]
  have hw (value : Option String) : ∀ call ∈ (write_async server loc value).1, call.location = some loc := by
    simp [write_async, Call.location]
  have hwr : ∀ found, provider.locate_writable addr = .ok found → found = loc := by
    intro found hf
    obtain ⟨l, hl, hf⟩ := Except.bind_ok hf
    obtain ⟨⟨⟩, -, hf⟩ := Except.bind_ok hf
    cases hf
    exact Except.ok.inj (hl.symm.trans h)
  intro call hc
  rcases mem_append.mp hc with hc | hc
  · rcases mem_append.mp hc with hc | hc
    · rw [DopplerProvider.get, h] at hc
      exact hr _ call hc
    · unfold DopplerProvider.set at hc
      split at hc
      · cases hc
      · next found hf =>
        obtain rfl := hwr found hf
        split at hc
        · cases hc
        · exact hw _ call hc
  · unfold DopplerProvider.delete at hc
    split at hc
    · cases hc
    · next found hf =>
      obtain rfl := hwr found hf
      have hd := hr .HoldsNothing
      split at hc
      · next calls error hg =>
        rw [hg] at hd
        exact hd call hc
      · next calls hg =>
        rw [hg] at hd
        exact hd call hc
      · next calls value hg =>
        rw [hg] at hd
        rcases mem_append.mp hc with hc | hc
        · exact hd call hc
        · exact hw none call hc

/-- The batch agrees with the single reads and sends each config the ordinary names asked for in
    it, in bounded filters; every request of an address goes to its coordinates. -/
theorem batches_agree (provider : DopplerProvider) (server : Server) (hash : HashOrder (String × List (Wanted String String)))
    (requests : List (String × Address)) (hdistinct : (requests.map Prod.fst).Nodup) :
    Agrees requests (fun addr => (provider.get server addr).2) (provider.get_many server hash requests).2 ∧
    (∀ call ∈ (provider.get_many server hash requests).1, ∃ config filter,
      call = .List provider.config.project config filter ∧ filter ≠ "") ∧
    (((provider.get_many server hash requests).1 = [] ∧ ∃ request ∈ requests, ∃ error, provider.locate request.2 = .error error) ∨
      ∀ config, ∃ filters : List String,
        sent config (provider.get_many server hash requests).1 <+: filters ∧
        ((∃ values, (provider.get_many server hash requests).2 = .ok values) →
          sent config (provider.get_many server hash requests).1 = filters) ∧
        (filters.flatMap names_of).Nodup ∧
        (∀ name, name ∈ filters.flatMap names_of ↔ is_reserved name = false ∧
          ∃ request ∈ requests, provider.locate request.2 = .ok ⟨provider.config.project, config, name⟩) ∧
        ∀ filter ∈ filters, filter.utf8ByteSize ≤ MAX_FILTER_BYTES ∨ names_of filter = [filter]) ∧
    ∀ addr coords, provider.configured_entry_coordinates addr = .ok coords → ∃ config name,
      parse_item coords.item none = .ok (config, name) ∧
      ∀ value, ∀ call ∈ (provider.get server addr).1 ++ (provider.set server addr value).1 ++ (provider.delete server addr).1,
        call.location = some ⟨provider.config.project, config, name⟩ := by
  have hs : ∀ wanted, locate_all provider.place_of requests = .ok wanted → ∀ config, ∃ filters : List String,
      sent config (provider.get_many server hash requests).1 <+: filters ∧
      ((∃ values, (provider.get_many server hash requests).2 = .ok values) →
        sent config (provider.get_many server hash requests).1 = filters) ∧
      (filters.flatMap names_of).Nodup ∧
      (∀ name, name ∈ filters.flatMap names_of ↔ is_reserved name = false ∧
        ∃ request ∈ requests, provider.locate request.2 = .ok ⟨provider.config.project, config, name⟩) ∧
      ∀ filter ∈ filters, filter ≠ "" ∧ (filter.utf8ByteSize ≤ MAX_FILTER_BYTES ∨ names_of filter = [filter]) := by
    intro wanted hl config
    obtain ⟨ha, hal⟩ := @sent_config provider server requests wanted hash hl config
    obtain ⟨hn, hm, hb⟩ := @filters_for_spec (keys_at config wanted) fun key hk => keys_plain hl hk
    refine ⟨_, ha, hal, hn, fun name => ?_, hb⟩
    rw [hm, and_comm]
    refine and_congr_right fun _ => ⟨fun hk => ?_, ?_⟩
    · obtain ⟨lc, hi, rfl⟩ := mem_map.mp hk
      obtain ⟨hi, ht⟩ := mem_wanted_at.mp hi
      obtain ⟨request, hr, -, hp⟩ := located_mem hl hi
      exact ⟨request, hr, place_of_ok.mp (ht ▸ hp)⟩
    · rintro ⟨request, hr, hp⟩
      obtain ⟨found, hf, hm⟩ := mem_located hl hr
      rw [place_of_ok.mpr hp] at hf
      cases hf
      exact List.mem_map_of_mem (mem_wanted_at.mpr ⟨hm, rfl⟩)
  refine ⟨get_many_agrees hash hdistinct, fun call hc => ?_, ?_, fun addr coords hcr => ?_⟩
  · obtain ⟨config, filter, rfl⟩ := get_many_calls hash hc
    refine ⟨config, filter, rfl, ?_⟩
    cases hl : locate_all provider.place_of requests with
    | error error =>
      rw [get_many_unlocated hash hl] at hc
      cases hc
    | ok wanted =>
      obtain ⟨filters, ha, -, -, -, hb⟩ := hs wanted hl config
      refine (hb filter (ha.subset ?_)).1
      exact List.mem_filterMap.mpr ⟨_, hc, if_pos rfl⟩
  · cases hl : locate_all provider.place_of requests with
    | error error =>
      rw [get_many_unlocated hash hl]
      left
      refine ⟨rfl, ?_⟩
      by_contra hnn
      obtain ⟨wanted, hw⟩ := @locate_all_ok _ _ _ _ provider.place_of requests fun request hr => by
        cases hlt : provider.locate request.2 with
        | ok l => exact ⟨_, Except.map_eq_ok.mpr ⟨l, hlt, rfl⟩⟩
        | error error => exact absurd ⟨request, hr, error, hlt⟩ hnn
      rw [hw] at hl
      cases hl
    | ok wanted =>
      right
      intro config
      obtain ⟨filters, ha, hal, hn, hm, hb⟩ := hs wanted hl config
      exact ⟨filters, ha, hal, hn, hm, fun filter hfl => (hb filter hfl).2⟩
  · obtain ⟨l, hlo, hcr⟩ := Except.bind_ok hcr
    cases hcr
    obtain ⟨hpr, hcn, hnm⟩ := locate_ok hlo
    refine ⟨l.config, l.name, parse_item_coordinates hcn hnm, fun value call hc => ?_⟩
    rw [calls_at hlo value call hc, ← hpr]

end

def dev_server : Server where
  config
    | "dev" => .ok ⟨[("API_KEY", .obj [("computed", .str "k-1")]), ("PAGER", .obj [("computed", .null)])], by decide⟩
    | _ => .error ⟨404, "Could not find requested config"⟩
  write _ _ := .ok ()

def dev_requests : List (String × Address) :=
  [("key", .Convention "app" "dev" "API_KEY"), ("pager", .Native ⟨"dev/PAGER", none, none, none, none⟩),
    ("config", .Native ⟨"DOPPLER_CONFIG", none, none, none, none⟩)]

theorem batches_agree_dev :
    Agrees dev_requests (fun addr => (DopplerProvider.get ⟨⟨"myapp", none⟩, some "dev"⟩ dev_server addr).2)
      (DopplerProvider.get_many ⟨⟨"myapp", none⟩, some "dev"⟩ dev_server ⟨id, fun _ => .refl _⟩ dev_requests).2 :=
  (batches_agree _ _ _ dev_requests (by decide)).1

end Monosecret.Providers.Doppler
