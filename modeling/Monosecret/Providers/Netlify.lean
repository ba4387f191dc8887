/-
  Monosecret.Providers.Netlify — environment variables of Netlify accounts and sites
  (`monosecret/src/provider/netlify.rs`).

  Configurations are those `try_from` accepts. The service has one variable for a key of an
  account or site, with a value for each context; PATCH replaces one context's value, POST
  creates the variable, DELETE drops it. An account is named by its ID or its slug, and which
  one that is, is the service's. Scopes change nothing that is read, and are left out.

  Proved: what an operation of one configuration changes for another (`touches_iff`), and the
  two are isolated or reported exactly where those it touches are written alike
  (`isolated_iff`).
-/

import Monosecret.Providers.Variables

namespace Monosecret.Providers

open Lib Cache

namespace Netlify

def GENERIC_CONTEXT : String := "all"

def KNOWN_CONTEXTS : List String := ["all", "production", "deploy-preview", "branch-deploy", "dev"]

def validate_netlify_slug (label value : String) : Except String Unit :=
  if value = "" ∨ 64 < value.utf8ByteSize ∨ ¬value.toList.all (fun c => c.isAlphanum || c == '-' || c == '_') then
    .error s!"Netlify {label} must be at most 64 ASCII letters, digits, hyphens, or underscores"
  else .ok ()

structure NetlifyConfig where
  /-- An ID or a slug. -/
  account_id : String
  site_id : Option String
  context : String
  secret : Bool
  account_valid : validate_netlify_slug "account ID" account_id = .ok ()
  site_valid : ∀ site ∈ site_id, validate_netlify_slug "site ID" site = .ok ()
  context_known : context ∈ KNOWN_CONTEXTS

structure EnvVarValue where
  context : String
  value : Option String
  deriving DecidableEq

structure EnvVar where
  values : List EnvVarValue
  is_secret : Bool
  deriving DecidableEq

/-- The account or site that an account, by ID or slug, and a site name. -/
abbrev Accounts := String → Option String → String

/-- The variables, by the account or site and the key. -/
abbrev Remote := Cells Accounts (String × String) (Option EnvVar)

/-- The context's own value wins over the one shared with `all`. -/
def context_value (var : EnvVar) (context : String) : Option String :=
  ((var.values.find? fun value => value.context = context).or
    (var.values.find? fun value => value.context = GENERIC_CONTEXT)).bind (·.value)

def patched (context value : String) (entry : EnvVarValue) : EnvVarValue :=
  if entry.context = context then ⟨context, some value⟩ else entry

/-- PATCH. -/
def patch_value (context value : String) (values : List EnvVarValue) : List EnvVarValue :=
  if values.any (fun entry => entry.context = context) then values.map (patched context value)
  else values ++ [⟨context, some value⟩]

namespace NetlifyConfig

variable (c : NetlifyConfig)

def storage_identity : String :=
  "netlify://" ++ (c.account_id ++ "/" ++ (c.site_id.getD "account" ++ "/" ++ c.context))

def provider : Provider String := variable_provider "netlify" c.storage_identity

def secret_name (addr : Address) : Except String String := do
  checked_name "Netlify environment" (← c.provider.flat_item addr)

def var_path (accounts : Accounts) (key : String) : String × String := (accounts c.account_id c.site_id, key)

def get_var (key : String) (remote : Remote) : Option EnvVar := remote.held (c.var_path remote.names key)

/-- What a variable that was fetched reads as. -/
def read_var (key : String) : Option EnvVar → Except String (Option SecretBytes)
  | none => .ok none
  | some var =>
    if var.is_secret then
      .error
        (s!"Netlify variable '{key}' is marked secret, so its value is readable only inside Netlify build and " ++
          "runtime systems; use `secret=false` or another provider for readable values")
    else .ok ((context_value var c.context).map utf8)

def get_async (key : String) (remote : Remote) : Except String (Option SecretBytes) :=
  c.read_var key (c.get_var key remote)

/-- PATCH leaves the values of the other contexts; POST creates the variable. -/
def written (value : String) : Option EnvVar → EnvVar
  | some var => { var with values := patch_value c.context value var.values }
  | none => ⟨[⟨c.context, some value⟩], c.secret⟩

def set_async (key value : String) (remote : Remote) : Remote :=
  remote.put (c.var_path remote.names key) (some (c.written value (c.get_var key remote)))

/-- DELETE is for the whole variable. -/
def delete_async (key : String) (remote : Remote) : Bool × Remote :=
  match c.get_var key remote with
  | none => (false, remote)
  | some _ => (true, remote.put (c.var_path remote.names key) none)

def store : Store String Remote where
  toProvider := c.provider
  get addr remote := do
    let name ← c.secret_name addr
    c.get_async name remote
  set addr value remote := do
    let name ← c.secret_name addr
    let value ← require_utf8 "netlify" value
    return c.set_async name value remote
  delete addr remote := do
    let name ← c.secret_name addr
    return c.delete_async name remote

end NetlifyConfig

theorem patched_context (cn value : String) (e : EnvVarValue) :
    (patched cn value e).context = e.context := by
  unfold patched
  split
  · next h => exact h.symm
  · rfl

theorem find_map_patched (cn other value : String) (v : List EnvVarValue) :
    (v.map (patched cn value)).find? (fun e => e.context = other) =
      (v.find? fun e => e.context = other).map (patched cn value) := by
  simp only [List.find?_map, Function.comp_def, patched_context]

theorem find_of_context {v : List EnvVarValue} {context : String} {e : EnvVarValue}
    (h : (v.find? fun e => e.context = context) = some e) : e.context = context := by
  simpa using List.find?_some h

theorem find_none_iff {v : List EnvVarValue} {context : String} :
    (v.find? fun e => e.context = context) = none ↔ ∀ e ∈ v, e.context ≠ context := by
  simp [List.find?_eq_none]

theorem find_patched (cn value : String) (v : List EnvVarValue) :
    (patch_value cn value v).find? (fun e => e.context = cn) = some ⟨cn, some value⟩ := by
  unfold patch_value
  cases hf : v.find? fun e => e.context = cn with
  | none =>
    have ha : v.any (fun e => e.context = cn) = false := by
      simpa using find_none_iff.mp hf
    simp [ha, hf]
  | some found =>
    have hc := find_of_context hf
    have ha : v.any (fun e => e.context = cn) :=
      List.any_eq_true.mpr ⟨found, List.mem_of_find?_eq_some hf, decide_eq_true hc⟩
    rw [if_pos ha, find_map_patched, hf, Option.map_some, patched, if_pos hc]

theorem find_patched_other {cn other : String} (h : other ≠ cn) (value : String) (v : List EnvVarValue) :
    (patch_value cn value v).find? (fun e => e.context = other) =
      v.find? fun e => e.context = other := by
  unfold patch_value
  split
  · rw [find_map_patched]
    cases hf : v.find? fun e => e.context = other with
    | none => rfl
    | some found => rw [Option.map_some, patched, if_neg (find_of_context hf ▸ h)]
  · simp [Ne.symm h]

/-- The contexts a value written for one is read under. -/
def Shown (context other : String) (var : EnvVar) : Prop :=
  context = other ∨ context = GENERIC_CONTEXT ∧ ∀ entry ∈ var.values, entry.context ≠ other

theorem context_value_shown {cn other : String} {v : EnvVar} (h : Shown cn other v) (value : String)
    (i : Bool) : context_value ⟨patch_value cn value v.values, i⟩ other = some value := by
  rcases h with rfl | ⟨rfl, hn⟩
  · simp [context_value, find_patched]
  · by_cases hc : other = GENERIC_CONTEXT
    · simp [context_value, hc, find_patched]
    · simp [context_value, find_patched_other hc, find_none_iff.mpr hn, find_patched]

theorem context_value_hidden {context other : String} {var : EnvVar} (h : ¬Shown context other var) (value : String)
    (i : Bool) :
    context_value ⟨patch_value context value var.values, i⟩ other = context_value var other := by
  have ho : other ≠ context := fun he => h (.inl he.symm)
  by_cases hg : context = GENERIC_CONTEXT
  · cases hf : var.values.find? fun e => e.context = other with
    | none => exact absurd (.inr ⟨hg, find_none_iff.mp hf⟩) h
    | some found => simp [context_value, find_patched_other ho, hf]
  · simp [context_value, find_patched_other ho, find_patched_other (Ne.symm hg)]

namespace NetlifyConfig

/-- What one configuration's operations on a variable change for the other. -/
def Touches (first second : NetlifyConfig) : Option EnvVar → Prop
  | none => first.secret = true ∨ first.context = second.context ∨ first.context = GENERIC_CONTEXT
  | some var =>
    var.is_secret = true ∨ (context_value var second.context).isSome = true ∨ Shown first.context second.context var

theorem touches_iff {first second : NetlifyConfig} {k : String} {var : Option EnvVar} :
    ((∃ value, second.read_var k (some (first.written value var)) ≠ second.read_var k var) ∨
      second.read_var k none ≠ second.read_var k var) ↔ Touches first second var := by
  cases var with
  | none =>
    simp only [Touches, ne_eq, not_true_eq_false, or_false]
    constructor
    · rintro ⟨value, hn⟩
      by_contra hc
      push Not at hc
      obtain ⟨hs, hcn, hg⟩ := hc
      simp [read_var, written, hs, context_value, hcn, hg] at hn
    · rintro (hs | hcn | hg)
      · exact ⟨"", by simp [read_var, written, hs]⟩
      · refine ⟨"", ?_⟩
        by_cases hs : first.secret <;> simp [read_var, written, hs, context_value, hcn]
      · refine ⟨"", ?_⟩
        by_cases hs : first.secret <;> by_cases hcn : GENERIC_CONTEXT = second.context <;>
          simp [read_var, written, hs, context_value, hg, hcn]
  | some var =>
    simp only [Touches]
    by_cases hs : var.is_secret
    · simp [read_var, written, hs]
    · simp only [read_var, written, hs, Bool.false_eq_true, if_false, ne_eq, Except.ok.injEq, false_or]
      constructor
      · rintro (⟨value, hn⟩ | hn)
        · by_cases hsh : Shown first.context second.context var
          · exact .inr hsh
          · rw [context_value_hidden hsh] at hn
            exact absurd rfl hn
        · refine .inl (Option.isSome_iff_ne_none.mpr fun hnn => hn ?_)
          rw [hnn, Option.map_none]
      · rintro (hm | hsh)
        · obtain ⟨value, hv⟩ := Option.isSome_iff_exists.mp hm
          simp [hv]
        · obtain ⟨t, ht⟩ := exists_other ((context_value var second.context).map utf8)
          refine .inl ⟨t, ?_⟩
          rw [context_value_shown hsh, Option.map_some]
          exact Ne.symm ht

/-- One reaches the other where the keys are one variable's and the operations touch it. -/
theorem reaches_iff {first sc : NetlifyConfig} {a b : Address} {r : Remote} :
    Reaches first.store a sc.store b r ↔ ∃ k, first.secret_name a = .ok k ∧ sc.secret_name b = .ok k ∧
      first.var_path r.names k = sc.var_path r.names k ∧
        Touches first sc (sc.get_var k r) := by
  have hd : ∀ s, first.store.delete a s = (do
      let k ← first.secret_name a
      let p ← .ok (first.var_path s.names k)
      return ((s.held p).isSome, s.put p none)) := by
    intro s
    cases hn : first.secret_name a with
    | error e => simp [store, hn, bind, Except.bind]
    | ok k =>
      cases hv : s.held (first.var_path s.names k) with
      | none => simp [store, hn, bind, Except.bind, pure, Except.pure, delete_async, get_var, hv, s.put_held hv]
      | some var => simp [store, hn, bind, Except.bind, pure, Except.pure, delete_async, get_var, hv]
  rw [reaches_iff_named (fun k names => .ok (first.var_path names k)) (fun k names => .ok (sc.var_path names k))
    (fun _ t cl => some (first.written t cl)) (fun _ cl => (cl.isSome, none)) sc.read_var
    (fun _ _ => rfl) hd (fun _ => rfl)]
  constructor
  · rintro ⟨k, key', p, hk, hk', hp, hp', hs⟩
    cases hp
    have hm : first.var_path r.names k = sc.var_path r.names key' := (Except.ok.inj hp').symm
    obtain rfl : k = key' := congrArg Prod.snd hm
    exact ⟨k, hk, hk', hm, touches_iff.mp (by rwa [hm] at hs)⟩
  · rintro ⟨k, hk, hk', hp, ht⟩
    exact ⟨k, k, _, hk, hk', rfl, by rw [hp], by rw [hp]; exact touches_iff.mpr ht⟩

theorem slug_no_slash {l value : String} (h : validate_netlify_slug l value = .ok ()) : '/' ∉ value.toList := by
  unfold validate_netlify_slug at h
  split at h
  · cases h
  · next hv =>
    intro hm
    simp only [not_or, not_not, List.all_eq_true] at hv
    exact absurd (hv.2.2 '/' hm) (by decide)

theorem storage_identity_iff {first s : NetlifyConfig} :
    first.storage_identity = s.storage_identity ↔ first.account_id = s.account_id ∧
      first.site_id.getD "account" = s.site_id.getD "account" ∧ first.context = s.context := by
  have hs : ∀ c : NetlifyConfig, '/' ∉ (c.site_id.getD "account").toList := by
    intro c
    cases hs : c.site_id with
    | none => decide
    | some st => exact slug_no_slash (c.site_valid st hs)
  rw [storage_identity, storage_identity, String.append_right_inj, slash_joined_iff (slug_no_slash first.account_valid)
    (slug_no_slash s.account_valid), slash_joined_iff (hs first) (hs s)]

theorem secret_name_ok {c : NetlifyConfig} {a : Address} {key : String} (h : c.secret_name a = .ok key) :
    c.provider.flat_item a = .ok key := by
  obtain ⟨n, hn, h⟩ := Except.bind_ok h
  rw [hn, checked_name_ok h]

/-- One that reaches the other is reported exactly where the two are written alike. -/
theorem isolated_iff (f : Files String) {first s : NetlifyConfig} {a b : Address} {r : Remote} :
    Isolated f first.store a s.store b r ↔
      ∀ k, first.secret_name a = .ok k → s.secret_name b = .ok k →
        first.var_path r.names k = s.var_path r.names k →
          Touches first s (s.get_var k r) →
            first.account_id = s.account_id ∧ first.site_id.getD "account" = s.site_id.getD "account" ∧
              first.context = s.context := by
  rw [isolated_iff_named f rfl rfl (fun _ => secret_name_ok) (fun _ => secret_name_ok) reaches_iff]
  simp only [and_imp, storage_identity_iff]

end NetlifyConfig

end Netlify

end Monosecret.Providers
