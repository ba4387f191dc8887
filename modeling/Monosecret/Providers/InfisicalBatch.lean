/-
  Monosecret.Providers.InfisicalBatch — batches of Infisical secrets against their single reads.

  A listing shows, under each key, the first secret by precedence that has something to show
  (`shown`), where a single read goes by the first one, value or not.

  `listings_agree_iff`: in existing environments, the batch is what the single reads are exactly
  when one of these is refused, or every listed folder withholds nothing and a secret without a
  value hides none that has one. `disagreeing_batches`: a secret nobody asks for is withheld,
  and an import stands in for a secret without a value.
-/

import Monosecret.Providers.Infisical

namespace Monosecret.Providers.Infisical

open Lib Manifest
open Cache (SecretBytes utf8)
open InfisicalProvider (version_of pinned Orders list_async get_async fetch_pinned ensure_environment_exists place_of list_folder
  missed_environment probe_missing)

/-! ## Secret objects -/

/-- The secret under a key that comes first of those with something to show. -/
def shown (secrets : List Secret) (key : String) : Option Held :=
  (secrets.find? fun secret => has_key key secret && secret.current ≠ .Without).map Secret.current

def text_of : Option Held → Option SecretBytes
  | some (.Given text) => some (utf8 text)
  | _ => none

theorem json_key (secret : Secret) : ((secret.json).get "secretKey").bind as_str = some secret.key := by
  unfold Secret.json
  cases secret.current <;> rfl

theorem secret_value_given (key n t : String) : secret_value (secret_json key (.Given t)) n = .ok (some (utf8 t)) := rfl

theorem secret_value_without (key n : String) : secret_value (secret_json key .Without) n = .ok none := rfl

theorem secret_value_withheld (key n : String) : ∃ error, secret_value (secret_json key .Withheld) n = .error error := ⟨_, rfl⟩

section

variable {secrets : List Secret} {key : String}
variable {secret : Secret}

theorem shown_cons_other (h : secret.key ≠ key) : shown (secret :: secrets) key = shown secrets key := by
  rw [shown, List.find?_cons_of_neg (by simp [has_key, h]), ← shown]

theorem shown_cons_without (h : secret.current = .Without) : shown (secret :: secrets) key = shown secrets key := by
  rw [shown, List.find?_cons_of_neg (by simp [h]), ← shown]

theorem shown_cons_self (h : secret.current ≠ .Without) :
    shown (secret :: secrets) secret.key = some secret.current := by
  rw [shown, List.find?_cons_of_pos (by simp [has_key, h])]
  rfl

theorem shown_ne_without : shown secrets key ≠ some .Without := by
  intro h
  obtain ⟨secret, hf, hc⟩ := Option.map_eq_some_iff.mp h
  have hs := List.find?_some hf
  simp [hc] at hs

end

/-! ## Listings -/

/-- The secrets of an import by key: what is listed already stays, and the first of the rest that
    shows something decides. -/
theorem list_imported_spec (secrets : List Secret) (l : Map String SecretBytes) :
    ((∃ v, list_imported (secrets.map Secret.json) l = .ok v) ↔
      ∀ key, l key = none → shown secrets key ≠ some .Withheld) ∧
    ∀ v, list_imported (secrets.map Secret.json) l = .ok v →
      ∀ key, v key = (l key).or (text_of (shown secrets key)) := by
  induction secrets generalizing l with
  | nil =>
    refine ⟨iff_of_true ⟨l, rfl⟩ nofun, fun v h key => ?_⟩
    cases h
    exact (Option.or_none).symm
  | cons secret secrets ih =>
    rw [List.map_cons, list_imported, json_key]
    dsimp only
    split
    · next hc =>
      obtain ⟨ho, hv⟩ := ih l
      have hs {key : String} (h : l key = none) : shown (secret :: secrets) key = shown secrets key := by
        refine shown_cons_other ?_
        rintro rfl
        rw [h] at hc
        cases hc
      refine ⟨ho.trans (forall_congr' fun key => ?_), fun v h key => ?_⟩
      · exact ⟨fun h hn => by rw [hs hn]; exact h hn, fun h hn => by rw [← hs hn]; exact h hn⟩
      · rw [hv v h key]
        cases hl : l key with
        | none => rw [hs hl]
        | some value => rfl
    · next hf =>
      have hn : l secret.key = none := by simpa using hf
      cases hr : secret.current with
      | Withheld =>
        obtain ⟨error, he⟩ := secret_value_withheld secret.key secret.key
        rw [Secret.json, hr, he]
        refine ⟨iff_of_false (fun h => nomatch h.choose_spec) fun h => h secret.key hn ?_, nofun⟩
        rw [shown_cons_self (by simp [hr]), hr]
      | Without =>
        rw [Secret.json, hr, secret_value_without]
        obtain ⟨ho, hv⟩ := ih l
        simp only [shown_cons_without hr]
        exact ⟨ho, hv⟩
      | Given t =>
        rw [Secret.json, hr, secret_value_given]
        obtain ⟨ho, hv⟩ := ih (l.insert secret.key (utf8 t))
        have hsl : shown (secret :: secrets) secret.key = some (.Given t) := by
          rw [shown_cons_self (by simp [hr]), hr]
        refine ⟨ho.trans (forall_congr' fun key => ?_), fun v h key => ?_⟩
        · by_cases hk : key = secret.key
          · subst hk
            rw [Map.insert_self, hsl]
            exact iff_of_true nofun nofun
          · rw [Map.insert_of_ne hk, shown_cons_other (Ne.symm hk)]
        · rw [hv v h key]
          by_cases hk : key = secret.key
          · subst hk
            rw [Map.insert_self, hn, hsl]
            rfl
          · rw [Map.insert_of_ne hk, shown_cons_other (Ne.symm hk)]

theorem list_imported_append (secrets o : List Json) (l : Map String SecretBytes) :
    list_imported (secrets ++ o) l = (list_imported secrets l).bind (list_imported o) := by
  induction secrets generalizing l with
  | nil => rfl
  | cons secret secrets ih =>
    rw [List.cons_append, list_imported, list_imported]
    cases (secret.get "secretKey").bind as_str with
    | none => exact ih l
    | some key =>
      dsimp only
      split
      · exact ih l
      · cases secret_value secret key with
        | error error => rfl
        | ok value => exact ih (l.insert_option key value)

/-- The folder's own secrets, of distinct keys, are listed as an import of nothing else would be. -/
theorem list_direct_eq {secrets : List Secret} (hd : (secrets.map Secret.key).Nodup) {listed : Map String SecretBytes}
    (hf : ∀ secret ∈ secrets, listed secret.key = none) :
    list_direct (secrets.map Secret.json) listed = list_imported (secrets.map Secret.json) listed := by
  induction secrets generalizing listed with
  | nil => rfl
  | cons secret secrets ih =>
    obtain ⟨hr, hd⟩ := List.nodup_cons.mp hd
    obtain ⟨hs, hf⟩ := List.forall_mem_cons.mp hf
    rw [List.map_cons, list_direct, list_imported, json_key]
    dsimp only
    rw [if_neg (by simp [hs])]
    cases secret_value secret.json secret.key with
    | error error => rfl
    | ok value =>
      refine ih hd fun other ho => ?_
      have hn : other.key ≠ secret.key := fun he => hr (List.mem_map.mpr ⟨other, ho, he⟩)
      rw [Map.insert_option_of_ne hn]
      exact hf other ho

theorem list_imports_eq (i : List (List Secret)) (listed : Map String SecretBytes) :
    list_imports (i.map fun secrets => .obj [("secrets", .arr (secrets.map Secret.json))]) listed =
      list_imported (i.flatten.map Secret.json) listed := by
  induction i generalizing listed with
  | nil => rfl
  | cons secrets i ih =>
    rw [List.map_cons, list_imports, List.flatten_cons, List.map_append, list_imported_append]
    have hg : ((Json.obj [("secrets", .arr (secrets.map Secret.json))]).get "secrets").bind as_array =
        some (secrets.map Secret.json) := rfl
    simp only [hg]
    cases list_imported (secrets.map Secret.json) listed with
    | error error => rfl
    | ok listed => exact ih listed

variable {server : Server}

/-- A listing goes by precedence. -/
theorem list_async_folder {e s : String} {f : Folder} (h : server.folder e s = some f) :
    list_async server e s = (list_imported (f.ranked.map Secret.json) .empty).map some := by
  rw [list_async, Server.list, h]
  show (parse_listing (.obj [("secrets", .arr (f.direct.map Secret.json)), ("imports", .arr _)])).map some = _
  congr 1
  show (list_direct (f.direct.map Secret.json) .empty).bind (list_imports (f.imports.map _).reverse) = _
  rw [list_direct_eq f.distinct fun _ _ => rfl, Folder.ranked, List.map_append, list_imported_append, ← List.map_reverse]
  congr 1
  funext listed
  exact list_imports_eq f.imports.reverse listed

theorem list_async_none {e s : String} (h : server.folder e s = none) :
    list_async server e s = .ok none := by
  rw [list_async, Server.list, h]
  rfl

/-! ## Reads -/

section

variable {provider : InfisicalProvider}

def read_held (key : String) : Option Held → Except String (Option SecretBytes)
  | none => .ok none
  | some held => secret_value (secret_json key held) key

variable {key : String}

theorem read_held_ok {held : Option Held} (h : held ≠ some .Withheld) : read_held key held = .ok (text_of held) := by
  rcases held with _ | ⟨t⟩ | _ | _
  · rfl
  · rfl
  · rfl
  · exact absurd rfl h

theorem read_held_withheld : ∃ error, read_held key (some .Withheld) = .error error :=
  secret_value_withheld key key

theorem get_async_held (loc : Location) (version : Option String) :
    get_async server loc version =
      match server.held loc version with
      | none => .ok .NotFound
      | some held => (secret_value (secret_json loc.key held) loc.key).map .Response := by
  rw [get_async, Server.read]
  cases server.held loc version with
  | none | some held => rfl

variable {e : String} {found : Environment}

theorem root_listed (h : server.environments e = some found) :
    (server.list e "/").isSome := by
  rw [Server.list, Option.isSome_map, Server.folder, h]
  exact found.root

theorem environment_exists (h : server.environments e = some found) :
    provider.ensure_environment_exists server e = .ok () := by
  rw [ensure_environment_exists, if_pos (root_listed h)]

variable {ad : Address} {loc : Location}

theorem get_held (hl : provider.locate ad = .ok loc) (he : server.environments loc.environment = some found) :
    provider.get server ad = read_held loc.key (server.held loc (version_of ad)) := by
  rw [InfisicalProvider.get, hl]
  show (get_async server loc (version_of ad)).bind _ = _
  rw [get_async_held]
  cases server.held loc (version_of ad) with
  | none =>
    rw [environment_exists he]
    rfl
  | some held =>
    show ((secret_value (secret_json loc.key held) loc.key).map SecretRead.Response).bind _ = secret_value _ _
    cases secret_value (secret_json loc.key held) loc.key <;> rfl

theorem fetch_held (hl : provider.locate ad = .ok loc) :
    provider.fetch_pinned server ad = read_held loc.key (server.held loc (version_of ad)) := by
  rw [fetch_pinned, hl]
  show (get_async server loc (version_of ad)).bind _ = _
  rw [get_async_held]
  cases server.held loc (version_of ad) with
  | none => rfl
  | some held =>
    show ((secret_value (secret_json loc.key held) loc.key).map SecretRead.Response).bind _ = secret_value _ _
    cases secret_value (secret_json loc.key held) loc.key <;> rfl

theorem get_unlocated {error : String} (h : provider.locate ad = .error error) :
    provider.get server ad = .error error ∧ provider.fetch_pinned server ad = .error error := by
  rw [InfisicalProvider.get, fetch_pinned, h]
  exact ⟨rfl, rfl⟩

/-- What a single read goes by, of a secret that is not pinned. -/
theorem held_winner {f : Folder} (h : server.folder loc.environment loc.secret_path = some f) :
    server.held loc none = (f.winner loc.key).map Secret.current := by
  rw [Server.held, h, Option.bind_some]
  cases f.winner loc.key <;> rfl

theorem held_absent (h : server.folder loc.environment loc.secret_path = none) (version : Option String) :
    server.held loc version = none := by
  rw [Server.held, h]
  rfl

/-- The secret that wins is the one a listing shows, unless it has nothing to show. -/
theorem shown_of_winner {f : Folder} (h : (f.winner key).map Secret.current ≠ some .Without) :
    shown f.ranked key = (f.winner key).map Secret.current := by
  unfold Folder.winner at h ⊢
  cases hf : f.ranked.find? (has_key key) with
  | none =>
    have hn : f.ranked.find? (fun secret => has_key key secret && secret.current ≠ .Without) = none := by
      refine List.find?_eq_none.mpr fun secret hs hsh => ?_
      exact List.find?_eq_none.mp hf secret hs (Bool.and_eq_true_iff.mp hsh).1
    rw [shown, hn]
  | some secret =>
    rw [hf] at h
    obtain ⟨hk, before, a, hp, hb⟩ := List.find?_eq_some_iff_append.mp hf
    have hm : f.ranked.find? (fun secret => has_key key secret && secret.current ≠ .Without) = some secret := by
      refine List.find?_eq_some_iff_append.mpr ⟨?_, before, a, hp, fun other ho => ?_⟩
      · have hc : secret.current ≠ .Without := fun hc => h (by rw [← hc]; rfl)
        simp [hk, hc]
      · have hno : has_key key other = false := by simpa using hb other ho
        simp [hno]
    rw [shown, hm]

/-! ## Batches -/

variable {requests : List (String × Address)}

/-- The environments asked for are there. -/
def Exist (provider : InfisicalProvider) (server : Server) (requests : List (String × Address)) : Prop :=
  ∀ request ∈ requests, ∀ loc, provider.locate request.2 = .ok loc → ∃ found, server.environments loc.environment = some found

/-- A request with no location, or whose secret the caller may not see. -/
def Refused (provider : InfisicalProvider) (server : Server) (requests : List (String × Address)) : Prop :=
  ∃ request ∈ requests, (∃ error, provider.locate request.2 = .error error) ∨
    ∃ loc, provider.locate request.2 = .ok loc ∧ server.held loc (version_of request.2) = some .Withheld

/-- Every folder of an unpinned request shows what it has to show, and a secret without a value is
    not stood in for. -/
def Shows (provider : InfisicalProvider) (server : Server) (requests : List (String × Address)) : Prop :=
  ∀ request ∈ requests, version_of request.2 = none → ∀ loc, provider.locate request.2 = .ok loc →
    ∀ folder, server.folder loc.environment loc.secret_path = some folder →
      (∀ key, shown folder.ranked key ≠ some .Withheld) ∧
        (server.held loc none = some .Without → shown folder.ranked loc.key = none)

variable {request : String × Address}

theorem mem_pinned : request ∈ requests.filter pinned ↔
    request ∈ requests ∧ (version_of request.2).isSome := List.mem_filter

theorem mem_unpinned : request ∈ requests.filter (fun request => !pinned request) ↔
    request ∈ requests ∧ version_of request.2 = none := by
  rw [List.mem_filter, pinned]
  simp

theorem single_refused (hs : Exist provider server requests) (hr : request ∈ requests) :
    (∃ error, provider.get server request.2 = .error error) ↔
      (∃ error, provider.locate request.2 = .error error) ∨
        ∃ loc, provider.locate request.2 = .ok loc ∧ server.held loc (version_of request.2) = some .Withheld := by
  cases hl : provider.locate request.2 with
  | error error => exact iff_of_true ⟨error, (get_unlocated hl).1⟩ (.inl ⟨error, rfl⟩)
  | ok loc =>
    obtain ⟨found, hf⟩ := hs request hr loc hl
    rw [get_held hl hf]
    constructor
    · rintro ⟨error, he⟩
      refine .inr ⟨loc, rfl, ?_⟩
      by_contra hn
      rw [read_held_ok hn] at he
      cases he
    · rintro (⟨error, he⟩ | ⟨_, hlo, hhl⟩)
      · cases he
      · cases hlo
        rw [hhl]
        exact read_held_withheld

theorem place_of_ok {p : (String × String) × String} :
    provider.place_of ad = .ok p ↔ provider.locate ad = .ok ⟨p.1.1, p.1.2, p.2⟩ := by
  rw [place_of, Except.map_eq_ok]
  constructor
  · rintro ⟨loc, hl, rfl⟩
    exact hl
  · exact fun h => ⟨_, h, rfl⟩

/-- The listing of a folder of an existing environment. -/
theorem list_folder_spec {s : String} (he : server.environments e = some found) :
    ((∃ l, provider.list_folder server (e, s) = .ok l) ↔
      ∀ f, server.folder e s = some f → ∀ key, shown f.ranked key ≠ some .Withheld) ∧
    ∀ l, provider.list_folder server (e, s) = .ok l → ∀ key,
      l key = text_of ((server.folder e s).bind fun f => shown f.ranked key) := by
  unfold list_folder
  dsimp only
  cases hf : server.folder e s with
  | none =>
    have hr : s ≠ "/" := by
      rintro rfl
      have := found.root
      rw [Server.folder, he, Option.bind_some] at hf
      rw [hf] at this
      cases this
    rw [list_async_none hf]
    dsimp only
    rw [if_neg hr]
    refine ⟨iff_of_true ⟨.empty, rfl⟩ nofun, fun l h key => ?_⟩
    cases h
    rfl
  | some f =>
    obtain ⟨ho, hv⟩ := list_imported_spec f.ranked .empty
    rw [list_async_folder hf]
    cases hl : list_imported (f.ranked.map Secret.json) .empty with
    | error error =>
      refine ⟨iff_of_false (fun h => nomatch h.choose_spec) fun h => ?_, nofun⟩
      obtain ⟨v, ht⟩ := ho.mpr fun key _ => h f rfl key
      rw [hl] at ht
      cases ht
    | ok l =>
      refine ⟨iff_of_true ⟨l, rfl⟩ fun other hoh key => ?_, fun v h key => ?_⟩
      · cases hoh
        exact ho.mp ⟨l, hl⟩ key rfl
      · cases h
        exact (hv l hl key).trans (Option.none_or)

/-- Probes of existing environments find them. -/
theorem probes_ok (he : Exist provider server requests) {w : List (Wanted (String × String) String)}
    (hw : locate_all provider.place_of (requests.filter fun request => !pinned request) = .ok w) :
    (provider.uncertain server (requests.filter pinned) w).forM
      (provider.ensure_environment_exists server) = .ok () := by
  refine Except.forM_ok_iff.mpr fun e hn => ?_
  rcases List.mem_append.mp (List.mem_filter.mp hn).1 with hm | hu
  · obtain ⟨request, hr, hm⟩ := List.mem_filterMap.mp hm
    unfold missed_environment at hm
    split at hm
    · cases hm
    · next loc hl =>
      split at hm
      · cases hm
        obtain ⟨found, hf⟩ := he request (mem_pinned.mp hr).1 loc hl
        exact environment_exists hf
      · cases hm
  · obtain ⟨f, hfl, rfl⟩ := List.mem_map.mp hu
    obtain ⟨l, hc, rfl⟩ := List.mem_map.mp (List.mem_filter.mp hfl).1
    obtain ⟨request, hr, -, hp⟩ := located_mem hw hc
    obtain ⟨found, hf⟩ := he request (mem_unpinned.mp hr).1 _ (place_of_ok.mp hp)
    exact environment_exists hf

/-- In existing environments nothing comes of the probes. -/
theorem get_many_eq (he : Exist provider server requests) (o : Orders) :
    provider.get_many server o requests = (do
      let r ← get_each_with o.addresses (requests.filter pinned) (provider.fetch_pinned server)
      let w ← locate_all provider.place_of (requests.filter fun request => !pinned request)
      get_listed o.folders w (fun f _ => provider.list_folder server f) r) := by
  unfold InfisicalProvider.get_many
  refine congrArg (Except.bind _) (funext fun r => ?_)
  cases hw : locate_all provider.place_of (requests.filter fun request => !pinned request) with
  | error error => rfl
  | ok w =>
    show (get_listed o.folders w (fun f _ => provider.list_folder server f) r).bind _ =
      get_listed o.folders w (fun f _ => provider.list_folder server f) r
    cases get_listed o.folders w (fun f _ => provider.list_folder server f) r with
    | error error => rfl
    | ok v =>
      show (provider.probe_missing server requests w v).bind _ = .ok v
      rw [probe_missing, probes_ok he hw, ite_self]
      rfl

theorem names_distinct (hd : (requests.map Prod.fst).Nodup) (p : String × Address → Bool) :
    ((requests.filter p).map Prod.fst).Nodup :=
  hd.sublist (List.filter_sublist.map _)

/-- A single read that is refused makes the batch fail. -/
theorem get_many_refused (hs : Exist provider server requests) (hd : (requests.map Prod.fst).Nodup)
    (o : Orders) (hr : Refused provider server requests) {values : Map String SecretBytes} :
    provider.get_many server o requests ≠ .ok values := by
  rw [get_many_eq hs]
  intro h
  obtain ⟨r, hrs, h⟩ := Except.bind_ok h
  obtain ⟨w, hw, h⟩ := Except.bind_ok h
  obtain ⟨request, hq, hwh⟩ := hr
  cases hv : version_of request.2 with
  | some version =>
    have hp : request ∈ requests.filter pinned := mem_pinned.mpr ⟨hq, by rw [hv]; rfl⟩
    have ha := get_each_agrees o.addresses (names_distinct hd pinned) (provider.fetch_pinned server)
    obtain ⟨found, hf⟩ := ha.succeeds.mp ⟨r, hrs⟩ request hp
    rcases hwh with ⟨error, he⟩ | ⟨loc, hl, hhl⟩
    · rw [(get_unlocated he).2] at hf
      cases hf
    · obtain ⟨error, he⟩ := @read_held_withheld loc.key
      rw [fetch_held hl, hhl, he] at hf
      cases hf
  | none =>
    obtain ⟨p, hpl, hm⟩ := mem_located hw (mem_unpinned.mpr ⟨hq, hv⟩)
    have hc := place_of_ok.mp hpl
    rcases hwh with ⟨error, he⟩ | ⟨loc, hl, hhl⟩
    · rw [he] at hc
      cases hc
    · rw [hc] at hl
      cases hl
      rw [hv] at hhl
      obtain ⟨found, hf⟩ := hs request hq _ hc
      cases hfl : server.folder p.1.1 p.1.2 with
      | none =>
        rw [held_absent hfl] at hhl
        cases hhl
      | some f =>
        rw [held_winner hfl] at hhl
        have hsh := @shown_of_winner p.2 f (by rw [hhl]; simp)
        have hls := (get_listed_succeeds o.folders).mp ⟨values, h⟩ _ hm
        exact (list_folder_spec hf).1.mp hls f hfl p.2 (hsh.trans hhl)

theorem pinned_apart (hd : (requests.map Prod.fst).Nodup) (hr : request ∈ requests)
    (hv : version_of request.2 = none) :
    request.1 ∉ (requests.filter pinned).map Prod.fst := by
  intro hm
  obtain ⟨other, ho, hn⟩ := List.mem_map.mp hm
  obtain ⟨ho, hp⟩ := mem_pinned.mp ho
  rw [List.inj_on_of_nodup_map hd ho hr hn, hv] at hp
  cases hp

theorem unpinned_apart (hd : (requests.map Prod.fst).Nodup) (hr : request ∈ requests)
    (hv : (version_of request.2).isSome) :
    request.1 ∉ (requests.filter fun request => !pinned request).map Prod.fst := by
  intro hm
  obtain ⟨other, ho, hn⟩ := List.mem_map.mp hm
  obtain ⟨ho, hu⟩ := mem_unpinned.mp ho
  rw [← List.inj_on_of_nodup_map hd ho hr hn, hu] at hv
  cases hv

theorem text_of_shown {secrets : List Secret} (hs : shown secrets key ≠ some .Withheld)
    (h : text_of (shown secrets key) = none) : shown secrets key = none := by
  rcases hf : shown secrets key with _ | ⟨t⟩ | _ | _
  · rfl
  · rw [hf] at h
    cases h
  · exact absurd hf shown_ne_without
  · exact absurd hf hs

/-- A read that is not refused has what its folder shows. -/
theorem get_shown (hg : ¬ Refused provider server requests) (he : Exist provider server requests)
    (hs : Shows provider server requests) (hr : request ∈ requests)
    (hv : version_of request.2 = none) (hl : provider.locate request.2 = .ok loc) :
    provider.get server request.2 =
      .ok (text_of ((server.folder loc.environment loc.secret_path).bind fun f => shown f.ranked loc.key)) := by
  obtain ⟨found, hf⟩ := he request hr loc hl
  have hhl : server.held loc none ≠ some .Withheld := fun hhl =>
    hg ⟨request, hr, .inr ⟨loc, hl, by rw [hv, hhl]⟩⟩
  rw [get_held hl hf, hv, read_held_ok hhl]
  cases hfl : server.folder loc.environment loc.secret_path with
  | none => rw [held_absent hfl, Option.bind_none]
  | some f =>
    rw [Option.bind_some]
    by_cases hw : server.held loc none = some .Without
    · rw [hw, (hs request hr hv loc hl f hfl).2 hw]
      rfl
    · rw [held_winner hfl] at hw ⊢
      rw [shown_of_winner hw]

/-- What a batch comes to when no single read is refused: the listings, over the pinned reads. -/
theorem get_many_granted (he : Exist provider server requests) (hd : (requests.map Prod.fst).Nodup)
    (o : Orders) (hg : ¬ Refused provider server requests) :
    ∃ resolved w,
      (∀ request ∈ requests, (version_of request.2).isSome → provider.get server request.2 = .ok (resolved request.1)) ∧
      (∀ n, n ∉ (requests.filter pinned).map Prod.fst → resolved n = none) ∧
      locate_all provider.place_of (requests.filter fun request => !pinned request) = .ok w ∧
      provider.get_many server o requests =
        get_listed o.folders w (fun f _ => provider.list_folder server f) resolved := by
  have hl : ∀ request ∈ requests, ∃ loc, provider.locate request.2 = .ok loc ∧
      server.held loc (version_of request.2) ≠ some .Withheld := by
    intro request hr
    cases ht : provider.locate request.2 with
    | error error => exact absurd ⟨request, hr, .inl ⟨error, ht⟩⟩ hg
    | ok loc => exact ⟨loc, rfl, fun hhl => hg ⟨request, hr, .inr ⟨loc, ht, hhl⟩⟩⟩
  have ha := get_each_agrees o.addresses (names_distinct hd pinned) (provider.fetch_pinned server)
  obtain ⟨resolved, hs⟩ := ha.succeeds.mpr fun request hr => by
    obtain ⟨loc, hlo, hhl⟩ := hl request (mem_pinned.mp hr).1
    exact ⟨_, (fetch_held hlo).trans (read_held_ok hhl)⟩
  obtain ⟨w, hw⟩ := @locate_all_ok _ _ _ _ provider.place_of (requests.filter fun request => !pinned request)
    fun request hr => by
      obtain ⟨loc, hlo, -⟩ := hl request (mem_unpinned.mp hr).1
      exact ⟨_, Except.map_eq_ok.mpr ⟨loc, hlo, rfl⟩⟩
  obtain ⟨hi, ho⟩ := ha.values resolved hs
  refine ⟨resolved, w, fun request hr hv => ?_, ho, hw, ?_⟩
  · obtain ⟨loc, hlo, -⟩ := hl request hr
    obtain ⟨found, hf⟩ := he request hr loc hlo
    rw [get_held hlo hf, ← fetch_held hlo]
    exact hi request (mem_pinned.mpr ⟨hr, hv⟩)
  · rw [get_many_eq he, hs, hw]
    rfl

/-- In existing environments, the batch is what the single reads are exactly where one of these is
    refused, or every folder it lists shows what it has. -/
theorem listings_agree_iff (provider : InfisicalProvider) (server : Server) (orders : InfisicalProvider.Orders)
    (requests : List (String × Address)) (hdistinct : (requests.map Prod.fst).Nodup) (hexist : Exist provider server requests) :
    Agrees requests (provider.get server) (provider.get_many server orders requests) ↔
      Refused provider server requests ∨ Shows provider server requests := by
  by_cases hr : Refused provider server requests
  · refine iff_of_true ⟨iff_of_false ?_ fun h => ?_, fun v h => ?_⟩ (.inl hr)
    · rintro ⟨v, hv⟩
      exact get_many_refused hexist hdistinct orders hr hv
    · obtain ⟨request, hq, hw⟩ := hr
      obtain ⟨error, he⟩ := (single_refused hexist hq).mpr hw
      obtain ⟨found, hf⟩ := h request hq
      rw [hf] at he
      cases he
    · exact absurd h (get_many_refused hexist hdistinct orders hr)
  · rw [or_iff_right hr]
    obtain ⟨r, w, hp, hs, hn, hm⟩ := get_many_granted hexist hdistinct orders hr
    have hsn : ∀ request ∈ requests, ∃ found, provider.get server request.2 = .ok found := by
      intro request hq
      cases hg : provider.get server request.2 with
      | ok found => exact ⟨found, rfl⟩
      | error error => exact absurd ⟨request, hq, (single_refused hexist hq).mp ⟨error, hg⟩⟩ hr
    have hnm := locate_all_names hn
    have ha : (w.map Wanted.name).Nodup := hnm ▸ names_distinct hdistinct fun request => !pinned request
    rw [hm]
    constructor
    · intro hag request hq hvr loc hl f hfl
      obtain ⟨v, hv⟩ := hag.succeeds.mpr hsn
      obtain ⟨pl, hpl, hmm⟩ := mem_located hn (mem_unpinned.mpr ⟨hq, hvr⟩)
      have hc := place_of_ok.mp hpl
      rw [hl] at hc
      cases hc
      obtain ⟨found, hf⟩ := hexist request hq _ hl
      obtain ⟨ho, ht⟩ := @list_folder_spec server provider _ found _ hf
      have hsh := ho.mp ((get_listed_succeeds orders.folders).mp ⟨v, hv⟩ _ hmm) f hfl
      refine ⟨hsh, fun hwt => text_of_shown (hsh _) ?_⟩
      obtain ⟨l, hls, hva⟩ := (get_listed_values orders.folders ha hv).1 _ hmm
      have hd := (hag.values v hv).1 request hq
      rw [get_held hl hf, hvr, hwt, read_held_ok (by simp), hva,
        hs _ (pinned_apart hdistinct hq hvr), Option.or_none, ht l hls, hfl] at hd
      exact (Except.ok.inj hd).symm
    · intro hsh
      refine ⟨iff_of_true ?_ hsn, fun v hv => ?_⟩
      · refine (get_listed_succeeds orders.folders).mpr fun lc hc => ?_
        obtain ⟨request, hq, -, hpl⟩ := located_mem hn hc
        obtain ⟨hq, hvr⟩ := mem_unpinned.mp hq
        have hl := place_of_ok.mp hpl
        obtain ⟨found, hf⟩ := hexist request hq _ hl
        exact list_folder_spec hf |>.1.mpr fun f hfl => (hsh request hq hvr _ hl f hfl).1
      · obtain ⟨hi, hou⟩ := get_listed_values orders.folders ha hv
        rw [hnm] at hou
        constructor
        · intro request hq
          cases hvr : version_of request.2 with
          | some version =>
            rw [hp request hq (by rw [hvr]; rfl), hou request.1 (unpinned_apart hdistinct hq (by rw [hvr]; rfl))]
          | none =>
            obtain ⟨pl, hpl, hmm⟩ := mem_located hn (mem_unpinned.mpr ⟨hq, hvr⟩)
            have hl := place_of_ok.mp hpl
            obtain ⟨found, hf⟩ := hexist request hq _ hl
            obtain ⟨l, hls, hva⟩ := hi _ hmm
            rw [hva, hs _ (pinned_apart hdistinct hq hvr), Option.or_none, (list_folder_spec hf).2 l hls]
            exact get_shown hr hexist hsh hq hvr hl
        · intro n hna
          have hnt (p : String × Address → Bool) : n ∉ (requests.filter p).map Prod.fst :=
            fun hmm => hna ((List.filter_sublist.map Prod.fst).subset hmm)
          rw [hou n (hnt _), hs n (hnt _)]

end

/-- The folder `/app` in every environment, over an empty root. -/
def app_server (folder : Folder) : Server where
  environments _ := some
    ⟨fun secret_path => if secret_path = "/" then some ⟨[], .nil, []⟩ else if secret_path = "/app" then some folder else none, rfl⟩

def app_provider : InfisicalProvider := ⟨⟨"p-1", some "prod", "/"⟩, none⟩

def in_order : Orders := ⟨⟨id, fun _ => .refl _⟩, ⟨id, fun _ => .refl _⟩⟩

def imported_folder : Folder where
  direct := [⟨"API_KEY", .Given "k-1", fun version => if version = "3" then some (.Given "k-0") else none⟩]
  distinct := by decide
  imports := [[⟨"PAGER", .Given "p-1", fun _ => none⟩], [⟨"PAGER", .Given "p-2", fun _ => none⟩]]

def app_requests : List (String × Address) :=
  [("key", .Native ⟨"/app/API_KEY", none, none, none, none⟩), ("old", .Native ⟨"/app/API_KEY", none, none, none, some "3"⟩),
    ("pager", .Native ⟨"app/PAGER", none, none, none, none⟩)]

theorem listings_agree_iff_imported :
    Agrees app_requests (app_provider.get (app_server imported_folder))
        (app_provider.get_many (app_server imported_folder) in_order app_requests) ↔
      Refused app_provider (app_server imported_folder) app_requests ∨ Shows app_provider (app_server imported_folder) app_requests :=
  listings_agree_iff _ _ _ app_requests (by decide) fun _ _ _ _ => ⟨_, rfl⟩

/-- Next to the key asked for, a secret the caller may not see. -/
def guarded_folder : Folder where
  direct := [⟨"API_KEY", .Given "k-1", fun _ => none⟩, ⟨"PAGER", .Withheld, fun _ => none⟩]
  distinct := by decide
  imports := []

/-- The key asked for has no value, and one of the same name is imported. -/
def valueless_folder : Folder where
  direct := [⟨"API_KEY", .Without, fun _ => none⟩]
  distinct := by decide
  imports := [[⟨"API_KEY", .Given "k-2", fun _ => none⟩]]

def key_requests : List (String × Address) := [("key", .Native ⟨"/app/API_KEY", none, none, none, none⟩)]

theorem disagreeing_batches :
    (¬ Agrees key_requests (app_provider.get (app_server guarded_folder))
        (app_provider.get_many (app_server guarded_folder) in_order key_requests)) ∧
      ¬ Agrees key_requests (app_provider.get (app_server valueless_folder))
        (app_provider.get_many (app_server valueless_folder) in_order key_requests) := by
  constructor
  · intro ha
    have hs : app_provider.get (app_server guarded_folder) (.Native ⟨"/app/API_KEY", none, none, none, none⟩) = .ok (some (utf8 "k-1")) := rfl
    have hb : ∃ error, app_provider.get_many (app_server guarded_folder) in_order key_requests = .error error := ⟨_, rfl⟩
    obtain ⟨error, he⟩ := hb
    obtain ⟨v, hv⟩ := ha.succeeds.mpr (List.forall_mem_singleton.mpr ⟨_, hs⟩)
    rw [he] at hv
    cases hv
  · intro ha
    have hs : app_provider.get (app_server valueless_folder) (.Native ⟨"/app/API_KEY", none, none, none, none⟩) = .ok none := rfl
    have hb : ∃ v, app_provider.get_many (app_server valueless_folder) in_order key_requests = .ok v ∧
        v "key" = some (utf8 "k-2") := ⟨_, rfl, rfl⟩
    obtain ⟨v, hv, hk⟩ := hb
    have hr := (ha.values v hv).1 _ (.head _)
    rw [hs, hk] at hr
    cases hr

end Monosecret.Providers.Infisical
