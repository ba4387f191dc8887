/-
  Monosecret.Lib.Versioned — a remote document replaced by version.

  One party sends requests. Between any two of them other writers may change, create or
  delete the document, and every change gives it a new version. A replacement that names an
  outdated version is turned away, as is the creation of a document that is there. What the
  party itself writes is logged with the document it took effect on.

  Proved: a request that does not take effect leaves the log as it is (`read_log`,
  `replace_log`, `create_log`); a replacement under the version of the last read takes effect
  on the document that was read (`replace_after_read`). `Exact` says of a run of rounds that
  it edits one key of what it is based on, or nothing; `exact_iff` leaves of it what the last
  write has to meet.
-/

namespace Lib.Versioned

universe u v

variable {δ : Type u}

structure Remote (δ : Type u) where
  document : Option δ
  version : Nat

/-- What happens before a request is served: what others leave in place of the document, and
    the error the request is answered with without effect. -/
structure Turn (δ : Type u) where
  change : Option (Option δ)
  refuses : Option String

inductive Write (δ : Type u)
  | Replaced (base new : δ)
  /-- The request that made it, counted from 0. -/
  | Created (request : Nat) (new : δ)

def Write.base : Write δ → Option δ
  | .Replaced base _ => some base
  | .Created _ _ => none

def Write.new : Write δ → δ
  | .Replaced _ new => new
  | .Created _ new => new

structure World (δ : Type u) where
  remote : Remote δ
  requests : Nat
  writes : List (Write δ)

def World.start (remote : Remote δ) : World δ := ⟨remote, 0, []⟩

inductive Answer
  | Done
  | Missing
  | Conflict
  | Refused (error : String)
  deriving DecidableEq

/-! ## Requests -/

section

variable (turns : Nat → Turn δ)

/-- The world a request finds. -/
def World.arrive (world : World δ) : World δ where
  remote := match (turns world.requests).change with
    | none => world.remote
    | some document => ⟨document, world.remote.version + 1⟩
  requests := world.requests + 1
  writes := world.writes

/-- What the party's own write leaves. -/
def World.wrote (world : World δ) (write : Write δ) : World δ where
  remote := ⟨some write.new, world.remote.version + 1⟩
  requests := world.requests
  writes := world.writes ++ [write]

def read (world : World δ) : Except String (Option (δ × Nat)) × World δ :=
  let found := world.arrive turns
  match (turns world.requests).refuses with
  | some error => (.error error, found)
  | none => (.ok (found.remote.document.map fun document => (document, found.remote.version)), found)

def replace (version : Nat) (new : δ) (world : World δ) : Answer × World δ :=
  let found := world.arrive turns
  match (turns world.requests).refuses, found.remote.document with
  | some error, _ => (.Refused error, found)
  | none, none => (.Missing, found)
  | none, some base =>
    if found.remote.version = version then (.Done, found.wrote (.Replaced base new)) else (.Conflict, found)

def create (new : δ) (world : World δ) : Answer × World δ :=
  let found := world.arrive turns
  match (turns world.requests).refuses, found.remote.document with
  | some error, _ => (.Refused error, found)
  | none, some _ => (.Conflict, found)
  | none, none => (.Done, found.wrote (.Created world.requests new))

end

/-! ## What a request leaves -/

variable {turns : Nat → Turn δ} {world : World δ}

theorem arrive_version (h : (world.arrive turns).remote.version = world.remote.version) :
    (world.arrive turns).remote = world.remote := by
  unfold World.arrive at h ⊢
  split
  · rfl
  · next document hc =>
    simp only [hc] at h
    omega

theorem read_log (turns : Nat → Turn δ) (world : World δ) :
    (read turns world).2.writes = world.writes ∧ (read turns world).2.requests = world.requests + 1 := by
  unfold read
  split <;> exact ⟨rfl, rfl⟩

variable {version : Nat}

theorem read_found {d : δ} {found : World δ} (h : read turns world = (.ok (some (d, version)), found)) :
    found.remote = ⟨some d, version⟩ := by
  unfold read at h
  dsimp only at h
  split at h
  · cases h
  · obtain ⟨ha, rfl⟩ := Prod.mk.inj h
    obtain ⟨held, hl, he⟩ := Option.map_eq_some_iff.mp (Except.ok.inj ha)
    obtain ⟨rfl, rfl⟩ := Prod.mk.inj he
    rw [← hl]

theorem replace_log {n : δ} (h : (replace turns version n world).1 ≠ .Done) :
    (replace turns version n world).2.writes = world.writes ∧
      (replace turns version n world).2.requests = world.requests + 1 := by
  unfold replace at h ⊢
  dsimp only at h ⊢
  split
  · exact ⟨rfl, rfl⟩
  · exact ⟨rfl, rfl⟩
  · split
    · next hv => simp_all
    · exact ⟨rfl, rfl⟩

theorem create_log {n : δ} (h : (create turns n world).1 ≠ .Done) :
    (create turns n world).2.writes = world.writes ∧ (create turns n world).2.requests = world.requests + 1 := by
  unfold create at h ⊢
  dsimp only at h ⊢
  split
  · exact ⟨rfl, rfl⟩
  · exact ⟨rfl, rfl⟩
  · simp_all

/-- No change by others comes between a read and the replacement under its version. -/
theorem replace_after_read {d new : δ} (hr : world.remote = ⟨some d, version⟩)
    (h : (replace turns version new world).1 = .Done) :
    (replace turns version new world).2.writes = world.writes ++ [.Replaced d new] ∧
      (replace turns version new world).2.requests = world.requests + 1 ∧
        (replace turns version new world).2.remote.document = some new := by
  unfold replace at h ⊢
  dsimp only at h ⊢
  split
  · simp_all
  · simp_all
  · next base hb =>
    split
    · next hv =>
      have hs : (world.arrive turns).remote = world.remote := arrive_version (by rw [hv, hr])
      rw [hs, hr] at hb
      cases hb
      exact ⟨rfl, rfl, rfl⟩
    · simp_all

theorem create_done {new : δ} (h : (create turns new world).1 = .Done) :
    (create turns new world).2.writes = world.writes ++ [.Created world.requests new] ∧
      (create turns new world).2.requests = world.requests + 1 ∧
        (create turns new world).2.remote.document = some new := by
  unfold create at h ⊢
  dsimp only at h ⊢
  split
  · simp_all
  · simp_all
  · exact ⟨rfl, rfl, rfl⟩

/-! ## Edits of one key -/

/-- How rounds under a counter end. -/
inductive Outcome (α : Type v)
  | Returned (result : Except String α)
  | Underflow

/-- What a document holds: values under keys, and members besides. -/
structure View (δ : Type u) (κ ν μ : Type v) where
  value : δ → κ → ν → Prop
  member : δ → μ → Prop

/-- The new document is the one it is based on, but for the value under one key. -/
structure KeyEdited {κ ν μ : Type v} (view : View δ κ ν μ) (key : κ) (value : Option ν) (base : Option δ) (new : δ) : Prop where
  written : ∀ v, view.value new key v ↔ value = some v
  values_kept : ∀ k, k ≠ key → ∀ v, view.value new k v ↔ ∃ document, base = some document ∧ view.value document k v
  members_kept : ∀ document, base = some document → ∀ m, view.member new m ↔ view.member document m

section

variable {α : Type v} (edit edit' : Option δ → δ → Prop) (fresh : δ → Prop) (changed : α → Bool)

/-- After what was written before, an error wrote nothing, and a success the edit it reports. -/
def Settled (before : List (Write δ)) (world : World δ) : Except String α → Prop
  | .error _ => world.writes = before
  | .ok a =>
    if changed a then
      ∃ last, world.writes = before ++ [last] ∧ edit last.base last.new ∧ world.remote.document = some last.new
    else world.writes = before

def Exact : Outcome α × World δ → Prop
  | (.Underflow, _) => False
  | (.Returned result, world) =>
    ∃ before : List (Write δ), (∀ write ∈ before, ∃ request new, write = .Created request new ∧ fresh new) ∧
      Settled edit changed before world result

variable {edit edit' fresh changed} {before : List (Write δ)} {result : Except String α}
variable {run : Outcome α × World δ}

theorem Exact.returns (h : Exact edit fresh changed run) : run.1 ≠ .Underflow := by
  rintro hu
  obtain ⟨o, world⟩ := run
  obtain rfl : o = .Underflow := hu
  exact h

theorem exact_of_settled (hr : run.1 = .Returned result) (h : Settled edit changed [] run.2 result) :
    Exact edit fresh changed run := by
  obtain ⟨o, world⟩ := run
  obtain rfl : o = .Returned result := hr
  exact ⟨[], ⟨fun _ hw => absurd hw List.not_mem_nil, h⟩⟩

/-- What was written is what was there before, and an edit in case of success. -/
theorem Settled.writes (h : Settled edit changed before world result) :
    world.writes = before ∨ ∃ last, world.writes = before ++ [last] ∧ edit last.base last.new := by
  cases result with
  | error e => exact .inl h
  | ok a =>
    cases ha : changed a with
    | true =>
      simp only [Settled, ha, if_true] at h
      obtain ⟨last, hw, he, -⟩ := h
      exact .inr ⟨last, hw, he⟩
    | false =>
      simp only [Settled, ha, Bool.false_eq_true, if_false] at h
      exact .inl h

/-- Rounds of two requests that return within their number. -/
def Returns (edit : Option δ → δ → Prop) (changed : α → Bool) (rounds : Nat) (world : World δ) (run : Outcome α × World δ) : Prop :=
  ∃ result, run.1 = .Returned result ∧ Settled edit changed world.writes run.2 result ∧
    run.2.requests ≤ world.requests + 2 * rounds

theorem Returns.unchanged {r : Nat} {world af : World δ} (hr : ∀ a, result = .ok a → changed a = false)
    (hl : af.writes = world.writes) (hc : af.requests ≤ world.requests + 2 * r) :
    Returns edit changed r world (.Returned result, af) := by
  refine ⟨result, rfl, ?_, hc⟩
  cases result with
  | error e => exact hl
  | ok a =>
    have ha := hr a rfl
    simp only [Settled, ha, Bool.false_eq_true, if_false]
    exact hl

theorem Returns.edited {r : Nat} {world af : World δ} {a : α} {last : Write δ} (ha : changed a)
    (hl : af.writes = world.writes ++ [last]) (he : edit last.base last.new)
    (hd : af.remote.document = some last.new) (hc : af.requests ≤ world.requests + 2 * r) :
    Returns edit changed r world (.Returned (.ok a), af) := by
  refine ⟨.ok a, rfl, ?_, hc⟩
  simp only [Settled, ha, if_true]
  exact ⟨last, hl, he, hd⟩

theorem Returns.later {r : Nat} {world next : World δ} (hl : next.writes = world.writes)
    (hc : next.requests = world.requests + 2) (h : Returns edit changed r next run) :
    Returns edit changed (r + 1) world run := by
  obtain ⟨result, hr, hs, hb⟩ := h
  exact ⟨result, hr, hl ▸ hs, by omega⟩

theorem exact_iff (hb : ∀ write ∈ before, ∃ r n, write = .Created r n ∧ fresh n)
    (h : Settled edit changed before world result) :
    Exact edit' fresh changed (.Returned result, world) ↔
      ∀ last, world.writes = before ++ [last] → edit' last.base last.new := by
  cases result with
  | error e =>
    have hw : world.writes = before := h
    refine iff_of_true ⟨before, hb, h⟩ fun last hl => ?_
    simp [hw] at hl
  | ok a =>
    cases ha : changed a with
    | false =>
      have hw : world.writes = before := by simpa only [Settled, ha, Bool.false_eq_true, if_false] using h
      refine iff_of_true ⟨before, hb, ?_⟩ fun last hl => ?_
      · simpa only [Settled, ha, Bool.false_eq_true, if_false] using hw
      · simp [hw] at hl
    | true =>
      simp only [Settled, ha, if_true] at h
      obtain ⟨last, hw, -, hd⟩ := h
      constructor
      · rintro ⟨o, -, hs⟩ last' hl'
        simp only [Settled, ha, if_true] at hs
        obtain ⟨w, ht, he, -⟩ := hs
        obtain rfl : w = last' := by
          have := ht.symm.trans hl'
          simpa using congrArg List.getLast? this
        exact he
      · intro he
        refine ⟨before, hb, ?_⟩
        simp only [Settled, ha, if_true]
        exact ⟨last, hw, he last hw, hd⟩

end

end Lib.Versioned
