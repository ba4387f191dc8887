/-
  Monosecret.Providers.Variables — what the providers of deployment variables share
  (`netlify.rs`, `vercel.rs` and `railway.rs` in `monosecret/src/provider/`).

  A key is the name of a variable, and the configuration says where the variable is; what the
  service does with it is each provider's. Requests that fail are left out.

  Proved: one configuration's address reaches another's exactly where both come to one place,
  and a write or deletion there changes what is read (`reaches_iff_named`); and the two are
  reported as one entry exactly where the storage identities are the same.
-/

import Monosecret.Providers.Convention
import Monosecret.Providers.SameEntries

namespace Monosecret.Providers

open Lib Manifest Cache

/-! ## Variable names -/

def is_valid_env_key (name : String) : Bool :=
  name.toList.head?.any (fun c => c.isAlpha || c == '_') && name.toList.all fun c => c.isAlphanum || c == '_'

/-- A provider of variables: the key is the name. -/
def variable_provider (name identity : String) : Provider String where
  name := name
  supported_coords := []
  convention_address _ _ key := .ok ⟨key, none, none, none, none⟩
  physical_store_path := none
  entry_container_identity := identity

def checked_name (what : String) (name : String) : Except String String :=
  if is_valid_env_key name then .ok name
  else .error
    (s!"'{name}' is not a valid {what} variable name: names are ASCII letters, digits, or underscores and start " ++
      "with a letter or underscore")

theorem checked_name_ok {w name key : String} (h : checked_name w name = .ok key) : name = key := by
  unfold checked_name at h
  split at h <;> cases h
  rfl

/-- Names that come to one key are one entry where the identities are the same. -/
theorem variables_reported_iff (f : Files String) {name i identity' k : String} {a b : Address}
    (ha : (variable_provider name i).flat_item a = .ok k) (hb : (variable_provider name identity').flat_item b = .ok k) :
    Reported f (variable_provider name i) a (variable_provider name identity') b ↔ i = identity' := by
  rw [reported_iff f (Provider.flat_item_ok rfl ha) (Provider.flat_item_ok rfl hb)]
  simp only [same_container_at, variable_provider, and_true]
  exact decide_eq_true_iff

section

variable {Names Place Cell : Type} [DecidableEq Place] {first sc : Store String (Cells Names Place Cell)} {a b : Address}
variable {label : String} {name name' : Except String String}

/-- Where a key and a place are resolved first, reaching is a matter of one cell's text and keys. -/
theorem reaches_iff_named (p p' : String → Names → Except String Place) (write : String → String → Cell → Cell)
    (remove : String → Cell → Bool × Cell) (read : String → Cell → Except String (Option SecretBytes))
    (hs : ∀ value s, first.set a value s = do
      let k ← name
      let t ← require_utf8 label value
      let at_ ← p k s.names
      return s.put at_ (write k t (s.held at_)))
    (hd : ∀ s, first.delete a s = do
      let k ← name
      let at_ ← p k s.names
      return ((remove k (s.held at_)).1, s.put at_ (remove k (s.held at_)).2))
    (hg : ∀ s, sc.get b s = do
      let k ← name'
      let at_ ← p' k s.names
      read k (s.held at_))
    (s : Cells Names Place Cell) :
    Reaches first a sc b s ↔ ∃ k k' at_, name = .ok k ∧ name' = .ok k' ∧ p k s.names = .ok at_ ∧
      p' k' s.names = .ok at_ ∧
        ((∃ t, read k' (write k t (s.held at_)) ≠ read k' (s.held at_)) ∨
          read k' (remove k (s.held at_)).2 ≠ read k' (s.held at_)) := by
  have hs' : ∀ value s af, first.set a value s = .ok af ↔
      Cells.writing (fun names => name.bind fun k => (p k names).map (·, k)) Prod.fst
        (fun q c => ((require_utf8 label value).map fun t => write q.2 t c).map ((), ·)) s = .ok ((), af) := by
    intro value s af
    rw [hs]
    cases name with
    | error e => simp [Cells.writing, bind, Except.bind]
    | ok k =>
      cases ht : require_utf8 label value <;> cases hp : p k s.names <;>
        simp [Cells.writing, hp, bind, Except.bind, pure, Except.pure, Except.map]
  have hd' : ∀ s, first.delete a s =
      Cells.writing (fun names => name.bind fun k => (p k names).map (·, k)) Prod.fst
        (fun q c => .ok (remove q.2 c)) s := by
    intro s
    rw [hd]
    cases name with
    | error e => rfl
    | ok k => cases hp : p k s.names <;> simp [Cells.writing, hp, bind, Except.bind, pure, Except.pure, Except.map]
  have hg' : ∀ s, sc.get b s =
      Cells.reading (fun names => name'.bind fun k => (p' k names).map (·, k)) Prod.fst
        (fun r c => read r.2 c) s := by
    intro s
    rw [hg]
    cases name' with
    | error e => rfl
    | ok k => cases hp : p' k s.names <;> simp [Cells.reading, hp, bind, Except.bind, Except.map]
  have ha : ∀ {name : Except String String} {p : String → Names → Except String Place} {q : Place × String},
      (name.bind fun k => (p k s.names).map (·, k)) = .ok q ↔ name = .ok q.2 ∧ p q.2 s.names = .ok q.1 := by
    intro name p q
    cases name with
    | error e => simp [Except.bind]
    | ok k =>
      obtain ⟨at_, k'⟩ := q
      rw [Except.bind, Except.map_eq_ok]
      constructor
      · rintro ⟨_, hp, he⟩
        cases he
        exact ⟨rfl, hp⟩
      · rintro ⟨hk, hp⟩
        cases hk
        exact ⟨at_, hp, rfl⟩
  rw [reaches_iff_cells hs' hd' hg']
  constructor
  · rintro ⟨⟨at_, k'⟩, hr, ⟨⟨at', k⟩, hq, hl, value, c, hc, hn⟩ | ⟨⟨at', k⟩, hq, hl, hn⟩⟩
    · obtain rfl : at' = at_ := hl
      obtain ⟨t, -, rfl⟩ := Except.map_eq_ok.mp hc
      exact ⟨k, k', at', (ha.mp hq).1, (ha.mp hr).1, (ha.mp hq).2, (ha.mp hr).2, .inl ⟨t, hn⟩⟩
    · obtain rfl : at' = at_ := hl
      exact ⟨k, k', at', (ha.mp hq).1, (ha.mp hr).1, (ha.mp hq).2, (ha.mp hr).2, .inr hn⟩
  · rintro ⟨k, k', at_, hm, hn', hp, hp', hsn⟩
    refine ⟨(at_, k'), ha.mpr ⟨hn', hp'⟩, ?_⟩
    rcases hsn with ⟨t, hn⟩ | hn
    · exact .inl ⟨(at_, k), ha.mpr ⟨hm, hp⟩, rfl, utf8 t, _, by rw [require_utf8_utf8]; rfl, hn⟩
    · exact .inr ⟨(at_, k), ha.mpr ⟨hm, hp⟩, rfl, hn⟩

end

/-- Where keys that reach come to the same one, isolation is a matter of the identities. -/
theorem isolated_iff_named {Remote : Type} (f : Files String) {first sc : Store String Remote} {a b : Address}
    {r : Remote} {name i identity' : String} {ky k' : Except String String} {t : String → Prop}
    (hf : first.toProvider = variable_provider name i)
    (hs : sc.toProvider = variable_provider name identity')
    (hy : ∀ k, ky = .ok k → first.flat_item a = .ok k) (hy' : ∀ k, k' = .ok k → sc.flat_item b = .ok k)
    (hr : Reaches first a sc b r ↔ ∃ k, ky = .ok k ∧ k' = .ok k ∧ t k) :
    Isolated f first a sc b r ↔ ∀ k, ky = .ok k → k' = .ok k → t k → i = identity' := by
  have hrr : ∀ k, ky = .ok k → k' = .ok k →
      (Reported f first.toProvider a sc.toProvider b ↔ i = identity') := by
    intro k hk hk'
    rw [hf, hs]
    exact variables_reported_iff f (hf ▸ hy k hk) (hs ▸ hy' k hk')
  rw [Isolated, hr]
  constructor
  · intro h k hk hk' ht
    exact (hrr k hk hk').mp (h ⟨k, hk, hk', ht⟩)
  · rintro h ⟨k, hk, hk', ht⟩
    exact (hrr k hk hk').mpr (h k hk hk' ht)

/-- Texts joined by a slash that the first ones do not have. -/
theorem slash_joined_iff {a b c d : String} (ha : '/' ∉ a.toList) (hb : '/' ∉ b.toList) :
    a ++ "/" ++ c = b ++ "/" ++ d ↔ a = b ∧ c = d := by
  refine ⟨fun h => ?_, by rintro ⟨rfl, rfl⟩; rfl⟩
  have hl := congrArg String.toList h
  simp only [String.toList_append, show "/".toList = ['/'] from rfl, List.append_assoc, List.singleton_append] at hl
  rcases List.append_eq_append_iff.mp hl with ⟨bt, hf, hr⟩ | ⟨bt, hf, hr⟩ <;>
    cases bt with
    | nil => simp_all [String.toList_inj]
    | cons c bt =>
      obtain ⟨rfl, -⟩ := List.cons_eq_cons.mp hr
      simp [hf] at ha hb

/-- Texts joined by a slash that the last ones do not have. -/
theorem last_slash_iff {a b c d : String} (hc : '/' ∉ c.toList) (hd : '/' ∉ d.toList) :
    a ++ "/" ++ c = b ++ "/" ++ d ↔ a = b ∧ c = d := by
  refine ⟨fun h => ?_, by rintro ⟨rfl, rfl⟩; rfl⟩
  have hl := congrArg String.toList h
  simp only [String.toList_append, show "/".toList = ['/'] from rfl, List.append_assoc, List.singleton_append] at hl
  obtain ⟨hf, ht⟩ := (Convention.last_slash hc hd).mp hl
  exact ⟨String.toList_injective hf, String.toList_injective ht⟩

end Monosecret.Providers
