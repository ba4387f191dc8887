/-
  Monosecret.Generate.Pkcs12 — the chain that `Identity::decode` builds of the bags of an archive
  (`monosecret/src/x509_identity.rs`).

  The bags come in any order. The leaf has the public key of the private key; where several
  have it, the local key ID decides. From the leaf on, each turn takes the only bag left that
  issued the last certificate, until none is left. What certificates say is an `X509`.

  Proved, for every archive: it is decoded to exactly the identity it `Assembles`, whose chain
  has every other certificate once, each the issuer of the one before, whatever the order of the
  bags (`assembled_exactly`).

  Run: a lone leaf that names itself as issuer, without its own signature (`unsigned_leaf_refused`).
-/

import Monosecret.Manifest.Validate

namespace Monosecret.Generate.Pkcs12

open Lib
open Manifest (refuse)
open Lib.Except (bind_ok bind_unit_ok)

/-! ## Decoding -/

/-- `x509-parser` and the signatures it checks. -/
structure X509 (Der Parsed Name PublicKey : Type) where
  from_der : Der → Except String Parsed
  public_key : Parsed → PublicKey
  subject : Parsed → Name
  issuer : Parsed → Name
  not_before : Parsed → Int
  not_after : Parsed → Int
  is_valid_at : Parsed → Int → Bool
  signature_valid : Parsed → Option PublicKey → Bool
  subject_public_key_info : List UInt8 → Except String PublicKey

structure KeyBag where
  key : List UInt8
  local_key_id : Option (List UInt8)

structure CertBag (Der : Type) where
  cert : Der
  local_key_id : Option (List UInt8)

structure Pkcs12Archive (Der : Type) where
  keys : List KeyBag
  certs : List (CertBag Der)

structure Identity (Der : Type) where
  key : List UInt8
  certificate : Der
  chain : List Der

def MAX_CHAIN_CERTIFICATES : Nat := 16

/-- What stands at the indices that the test picks out. -/
def matching {α : Type} (test : α → Except String Bool) : Nat → List α → Except String (List (α × Nat))
  | _, [] => .ok []
  | index, a :: rest => do
    let picked ← test a
    let found ← matching test (index + 1) rest
    return if picked then (a, index) :: found else found

def incoherent : String := "PKCS#12 certificate bags do not form one unambiguous, coherent chain"

variable {Der Parsed Name PublicKey : Type} (x : X509 Der Parsed Name PublicKey)

def issued [DecidableEq Name] (child : Parsed) (candidate : Der) : Except String Bool := do
  let issuer ← x.from_der candidate
  return x.subject issuer = x.issuer child && x.signature_valid child (some (x.public_key issuer))

/-- The turns of the loop; each takes one certificate. -/
def assemble [DecidableEq Name] : Nat → Der → List Der → Except String (List Der)
  | 0, _, _ => .ok []
  | turns + 1, last, remaining => do
    let child ← x.from_der last
    match ← matching (issued x child) 0 remaining with
    | [(issuer, next)] => return issuer :: (← assemble turns issuer (remaining.eraseIdx next))
    | _ => throw incoherent

/-- Where several bags have the key, its local key ID decides. -/
def retained (key_id : Option (List UInt8)) (found : List (CertBag Der × Nat)) : List (CertBag Der × Nat) :=
  match key_id with
  | some key_id => if found.length > 1 then found.filter fun entry => entry.1.local_key_id = some key_id else found
  | none => found

def valid_now (now : Int) (issuer : Der) : Except String Unit := do
  refuse (!x.is_valid_at (← x.from_der issuer) now) "PKCS#12 certificate chain contains a certificate outside its validity period"

section

variable [DecidableEq PublicKey]

def has_key (expected : PublicKey) (certificate : CertBag Der) : Except String Bool :=
  return x.public_key (← x.from_der certificate.cert) = expected

/-- `Identity::decode`, once the archive is open. -/
def Identity.decode [DecidableEq Name] [DecidableEq Der] (now : Int) (archive : Pkcs12Archive Der) : Except String (Identity Der) := do
  match archive.keys with
  | [bag] =>
    refuse (archive.certs.length > MAX_CHAIN_CERTIFICATES + 1)
      s!"PKCS#12 identity has more than {MAX_CHAIN_CERTIFICATES} chain certificates"
    let expected ← x.subject_public_key_info bag.key
    refuse (¬ (archive.certs.map CertBag.cert).Nodup) "duplicate certificate bags do not form one unambiguous, coherent chain"
    match retained bag.local_key_id (← matching (has_key x expected) 0 archive.certs) with
    | [(certificate, leaf_index)] =>
      let remaining := (archive.certs.eraseIdx leaf_index).map CertBag.cert
      let leaf ← x.from_der certificate.cert
      refuse (now < x.not_before leaf) "leaf certificate is not valid yet"
      refuse (x.not_after leaf < now) "leaf certificate has expired"
      remaining.forM (valid_now x now)
      let chain ← assemble x remaining.length certificate.cert remaining
      refuse (chain.isEmpty && x.issuer leaf = x.subject leaf && !x.signature_valid leaf none)
        "self-signed leaf certificate has an invalid signature"
      return ⟨bag.key, certificate.cert, chain⟩
    | _ => throw "PKCS#12 identity must hold one leaf certificate that matches the private key"
  | _ => throw "PKCS#12 identity must hold exactly one private key"

end

/-! ## The order of a chain -/

section

variable {α : Type} {Issued : α → α → Prop}

/-- Each certificate was issued by the next and by none after it. -/
def Ordered (Issued : α → α → Prop) : α → List α → Prop
  | _, [] => True
  | child, issuer :: rest => Issued child issuer ∧ (∀ other ∈ rest, ¬ Issued child other) ∧ Ordered Issued issuer rest

theorem Ordered.isChain {c : α} {ch : List α} (h : Ordered Issued c ch) : (c :: ch).IsChain Issued := by
  induction ch generalizing c with
  | nil => exact .singleton c
  | cons i r ih => exact .cons_cons h.1 (ih h.2.2)

end

/-! ## Certificates that match -/

section

variable {α : Type} {test : α → Except String Bool} {l : List α}

/-- The test says yes. -/
def holds (answer : Except String Bool) : Bool := answer matches .ok true

theorem matching_ok {i : Nat} {found : List (α × Nat)} :
    matching test i l = .ok found ↔
      (∀ a ∈ l, ∃ b, test a = .ok b) ∧ found = (l.zipIdx i).filter fun e => holds (test e.1) := by
  induction l generalizing i found with
  | nil => simp [matching, eq_comm]
  | cons a r ih =>
    rw [List.forall_mem_cons, List.zipIdx_cons, matching]
    cases ha : test a with
    | error error => simp [bind, Except.bind]
    | ok p =>
      constructor
      · intro h
        obtain ⟨p', hp, h⟩ := bind_ok h
        cases hp
        obtain ⟨m, hm, h⟩ := bind_ok h
        obtain ⟨hl, rfl⟩ := ih.mp hm
        cases h
        refine ⟨⟨⟨p, rfl⟩, hl⟩, ?_⟩
        cases p <;> simp [ha, holds]
      · rintro ⟨⟨-, hl⟩, rfl⟩
        rw [ih.mpr ⟨hl, rfl⟩]
        cases p <;> simp [ha, holds, bind, Except.bind, pure, Except.pure]

/-- An entry that is picked out can be put first. -/
theorem perm_of_mem {a : α} {i : Nat} (h : (a, i) ∈ l.zipIdx) : l.Perm (a :: l.eraseIdx i) := by
  obtain ⟨hl, ha⟩ := List.getElem?_eq_some_iff.mp (List.mem_zipIdx_iff_getElem?.mp h)
  rw [← show l[i] = a from ha]
  exact (List.getElem_cons_eraseIdx_perm hl).symm

theorem map_fst_filter (p : α → Bool) (l : List α) (i : Nat) :
    ((l.zipIdx i).filter fun e => p e.1).map Prod.fst = l.filter p := by
  rw [← List.zipIdx_map_fst i l, List.filter_map, List.zipIdx_map_fst]
  rfl

/-- One entry is picked out when the test says yes to it and no to the rest. -/
theorem filter_eq_singleton {p : α → Bool} {a : α} {r : List α} (h : l.Perm (a :: r)) :
    l.filter p = [a] ↔ p a ∧ ∀ b ∈ r, p b = false := by
  have hf := h.filter p
  constructor
  · intro ho
    have ha : p a := (List.mem_filter.mp (ho ▸ List.mem_singleton_self a : a ∈ l.filter p)).2
    rw [ho, List.filter_cons_of_pos ha, List.singleton_perm] at hf
    have hn := List.filter_eq_nil_iff.mp (List.cons.inj hf).2.symm
    exact ⟨ha, fun b hb => Bool.eq_false_iff.mpr (hn b hb)⟩
  · rintro ⟨ha, hn⟩
    have hr : r.filter p = [] := List.filter_eq_nil_iff.mpr fun b hb => Bool.eq_false_iff.mp (hn b hb)
    rw [List.filter_cons_of_pos ha, hr, List.perm_singleton] at hf
    exact hf

theorem sole {p : α → Bool} {a : α} {i : Nat} (h : (l.zipIdx.filter fun e => p e.1) = [(a, i)]) :
    l.filter p = [a] ∧ l.Perm (a :: l.eraseIdx i) := by
  have hm : (a, i) ∈ l.zipIdx.filter fun e => p e.1 := h ▸ List.mem_singleton_self _
  exact ⟨by rw [← map_fst_filter p l 0, h]; rfl, perm_of_mem (List.mem_of_mem_filter hm)⟩

theorem exists_sole {p : α → Bool} {a : α} (h : l.filter p = [a]) : ∃ i, (l.zipIdx.filter fun e => p e.1) = [(a, i)] := by
  rw [← map_fst_filter p l 0, List.map_eq_singleton_iff] at h
  obtain ⟨⟨b, i⟩, he, rfl⟩ := h
  exact ⟨i, he⟩

end

/-! ## Chains assembled -/

section

variable {x : X509 Der Parsed Name PublicKey} {now : Int} {archive : Pkcs12Archive Der} {identity : Identity Der}

/-- The second names the first's issuer, and its key made the signature. -/
def Issued (x : X509 Der Parsed Name PublicKey) (child issuer : Der) : Prop :=
  ∃ c i, x.from_der child = .ok c ∧ x.from_der issuer = .ok i ∧ x.subject i = x.issuer c ∧ x.signature_valid c (some (x.public_key i)) = true

section

variable [DecidableEq Name]

theorem holds_issued {child : Der} {c : Parsed} (h : x.from_der child = .ok c) (candidate : Der) :
    holds (issued x c candidate) ↔ Issued x child candidate := by
  unfold issued Issued
  cases hi : x.from_der candidate with
  | error error => simp [holds, bind, Except.bind]
  | ok i =>
    have hr : holds (.ok (decide (x.subject i = x.issuer c) && x.signature_valid c (some (x.public_key i)))) =
        (decide (x.subject i = x.issuer c) && x.signature_valid c (some (x.public_key i))) := by
      cases decide (x.subject i = x.issuer c) && x.signature_valid c (some (x.public_key i)) <;> rfl
    show holds (.ok _) ↔ _
    rw [hr, Bool.and_eq_true, decide_eq_true_iff]
    simp [h]

theorem issued_ok {c : Parsed} {cn : Der} (h : ∃ i, x.from_der cn = .ok i) : ∃ b, issued x c cn = .ok b := by
  obtain ⟨i, hi⟩ := h
  exact ⟨_, by rw [issued, hi]; rfl⟩

/-- The chain has what is left, in its order. -/
theorem assemble_ok {last : Der} {r chain : List Der} (hl : ∃ c, x.from_der last = .ok c)
    (hp : ∀ d ∈ r, ∃ c, x.from_der d = .ok c) :
    assemble x r.length last r = .ok chain ↔ chain.Perm r ∧ Ordered (Issued x) last chain := by
  generalize hn : r.length = t
  induction t generalizing last r chain with
  | zero =>
    obtain rfl := List.eq_nil_of_length_eq_zero hn
    rw [assemble, List.perm_nil]
    constructor
    · intro h
      cases h
      exact ⟨rfl, trivial⟩
    · rintro ⟨rfl, -⟩
      rfl
  | succ t ih =>
    obtain ⟨ch, hc⟩ := hl
    have hm : matching (issued x ch) 0 r = .ok _ :=
      matching_ok.mpr ⟨fun d hd => issued_ok (hp d hd), rfl⟩
    have hx {issuer : Der} {rest left : List Der} (hpm : r.Perm (issuer :: left)) :
        assemble x t issuer left = .ok rest ↔ rest.Perm left ∧ Ordered (Issued x) issuer rest := by
      refine ih (hp issuer (hpm.mem_iff.mpr (.head _))) (fun d hd => ?_) ?_
      · exact hp d (hpm.mem_iff.mpr (.tail _ hd))
      · exact (Nat.succ.inj (hn.symm.trans hpm.length_eq)).symm
    have ht {issuer : Der} {left : List Der} (hpm : r.Perm (issuer :: left)) :
        (r.filter fun d => holds (issued x ch d)) = [issuer] ↔
          Issued x last issuer ∧ ∀ other ∈ left, ¬ Issued x last other := by
      rw [filter_eq_singleton hpm]
      simp only [← holds_issued hc, Bool.not_eq_true]
    rw [assemble, hc]
    show (matching (issued x ch) 0 r >>= _) = _ ↔ _
    rw [hm]
    constructor
    · intro h
      dsimp only [bind, Except.bind] at h
      split at h
      next issuer i hs =>
        obtain ⟨hf, hpm⟩ := sole (p := fun d => holds (issued x ch d)) hs
        obtain ⟨rest, hr, h⟩ := bind_ok h
        cases h
        obtain ⟨hsm, ho⟩ := (hx hpm).mp hr
        obtain ⟨hi, hon⟩ := (ht hpm).mp hf
        exact ⟨(hsm.cons issuer).trans hpm.symm, hi, fun other hoh => hon other (hsm.mem_iff.mp hoh), ho⟩
      next => cases h
    · rintro ⟨hpm, ho⟩
      cases chain with
      | nil => cases hn.symm.trans (congrArg List.length hpm.nil_eq.symm)
      | cons issuer rest =>
        obtain ⟨hi, hon, ho⟩ := ho
        obtain ⟨i, hs⟩ := exists_sole ((ht hpm.symm).mpr ⟨hi, hon⟩)
        have hlf := (sole (p := fun d => holds (issued x ch d)) hs).2
        have hsm : rest.Perm (r.eraseIdx i) := (hpm.trans hlf).cons_inv
        rw [hs]
        show (assemble x t issuer (r.eraseIdx i) >>= _) = _
        rw [(hx hlf).mpr ⟨hsm, ho⟩]
        rfl

end

theorem remaining_parsed {c : List (CertBag Der)} {cr : CertBag Der} {i : Nat} (hp : c.Perm (cr :: c.eraseIdx i))
    (h : ∀ cr ∈ c, ∃ parsed, x.from_der cr.cert = .ok parsed) :
    ∀ d ∈ (c.eraseIdx i).map CertBag.cert, ∃ parsed, x.from_der d = .ok parsed := by
  intro d hd
  obtain ⟨other, ho, rfl⟩ := List.mem_map.mp hd
  exact h other (hp.mem_iff.mpr (.tail _ ho))

variable [DecidableEq PublicKey]

/-- A bag with the key, and with its local key ID where several have the key. -/
def selects (p : CertBag Der → Bool) (key_id : Option (List UInt8)) (certs : List (CertBag Der)) (cert : CertBag Der) : Bool :=
  p cert && key_id.all fun key_id => (certs.filter p).length ≤ 1 || cert.local_key_id = some key_id

theorem retained_eq (p : CertBag Der → Bool) (k : Option (List UInt8)) (c : List (CertBag Der)) :
    retained k (c.zipIdx.filter fun e => p e.1) = c.zipIdx.filter fun e => selects p k c e.1 := by
  have hl : (c.zipIdx.filter fun e => p e.1).length = (c.filter p).length := by
    rw [← map_fst_filter p c 0, List.length_map]
  cases k with
  | none => simp [retained, selects]
  | some k =>
    simp only [retained, hl, selects, Option.all_some]
    split_ifs with hm
    · simp [List.filter_filter, Bool.and_comm, Nat.not_le.mpr hm]
    · simp [Nat.not_lt.mp hm]

/-- What the archive is to be decoded to. -/
structure Assembles (x : X509 Der Parsed Name PublicKey) (now : Int) (archive : Pkcs12Archive Der) (identity : Identity Der) : Prop where
  leaf : ∃ bag expected cert, archive.keys = [bag] ∧ x.subject_public_key_info bag.key = .ok expected ∧ bag.key = identity.key ∧
    archive.certs.filter (selects (fun cert => holds (has_key x expected cert)) bag.local_key_id archive.certs) = [cert] ∧
    cert.cert = identity.certificate
  few : archive.certs.length ≤ MAX_CHAIN_CERTIFICATES + 1
  distinct : (archive.certs.map CertBag.cert).Nodup
  parsed : ∀ cert ∈ archive.certs, ∃ parsed, x.from_der cert.cert = .ok parsed
  others : (identity.certificate :: identity.chain).Perm (archive.certs.map CertBag.cert)
  ordered : Ordered (Issued x) identity.certificate identity.chain
  in_time : ∀ leaf, x.from_der identity.certificate = .ok leaf → x.not_before leaf ≤ now ∧ now ≤ x.not_after leaf
  chain_in_time : ∀ issuer ∈ identity.chain, ∀ parsed, x.from_der issuer = .ok parsed → x.is_valid_at parsed now = true
  signed : identity.chain = [] → ∀ leaf, x.from_der identity.certificate = .ok leaf → x.issuer leaf = x.subject leaf →
    x.signature_valid leaf none = true

theorem Assembles.perm {certs : List (CertBag Der)} (h : Assembles x now archive identity) (hp : certs.Perm archive.certs) :
    Assembles x now { archive with certs } identity := by
  obtain ⟨b, e, c, hk, he, hke, hl, hc⟩ := h.leaf
  refine ⟨⟨b, e, c, hk, he, hke, ?_, hc⟩, hp.length_eq ▸ h.few, (hp.map _).nodup_iff.mpr h.distinct,
    fun c hm => h.parsed c (hp.mem_iff.mp hm), h.others.trans (hp.map _).symm, h.ordered, h.in_time, h.chain_in_time, h.signed⟩
  have hs : selects (fun c => holds (has_key x e c)) b.local_key_id certs =
      selects (fun c => holds (has_key x e c)) b.local_key_id archive.certs := by
    funext c
    rw [selects, selects, (hp.filter _).length_eq]
  rw [hs, ← List.perm_singleton, ← hl]
  exact hp.filter _

theorem has_key_ok {e : PublicKey} {c : CertBag Der} :
    (∃ b, has_key x e c = .ok b) ↔ ∃ parsed, x.from_der c.cert = .ok parsed := by
  unfold has_key
  cases x.from_der c.cert <;> simp [bind, Except.bind, pure, Except.pure]

theorem refuse_iff {b : Bool} {m : String} : refuse b m = .ok () ↔ b = false := by
  cases b <;> simp [refuse]

variable [DecidableEq Name] [DecidableEq Der]

theorem decode_iff : Identity.decode x now archive = .ok identity ↔ Assembles x now archive identity := by
  constructor
  · intro h
    unfold Identity.decode at h
    split at h
    next b hk =>
      obtain ⟨hf, h⟩ := bind_unit_ok h
      obtain ⟨e, he, h⟩ := bind_ok h
      obtain ⟨hd, h⟩ := bind_unit_ok h
      obtain ⟨found, hn, h⟩ := bind_ok h
      obtain ⟨hp, rfl⟩ := matching_ok.mp hn
      rw [retained_eq fun c => holds (has_key x e c)] at h
      split at h
      next c i hs =>
        obtain ⟨hl, hm⟩ := sole hs
        obtain ⟨leaf, hr, h⟩ := bind_ok h
        obtain ⟨hel, h⟩ := bind_unit_ok h
        obtain ⟨ht, h⟩ := bind_unit_ok h
        obtain ⟨hv, h⟩ := bind_unit_ok h
        obtain ⟨ch, hc, h⟩ := bind_ok h
        obtain ⟨hg, h⟩ := bind_unit_ok h
        cases h
        have hdr : ∀ c ∈ archive.certs, ∃ parsed, x.from_der c.cert = .ok parsed := fun c hmm => has_key_ok.mp (hp c hmm)
        have hmp := hm.map CertBag.cert
        obtain ⟨hsm, ho⟩ := (assemble_ok ⟨leaf, hr⟩ (remaining_parsed hm hdr)).mp hc
        refine ⟨⟨b, e, c, hk, he, rfl, hl, rfl⟩, by simpa using refuse_iff.mp hf, by simpa using refuse_iff.mp hd, hdr,
          (hsm.cons _).trans hmp.symm, ho, fun l' hr' => ?_, fun ir hir parsed hi => ?_, fun hnl l' hr' hsf => ?_⟩
        · cases hr.symm.trans hr'
          exact ⟨by simpa using refuse_iff.mp hel, by simpa using refuse_iff.mp ht⟩
        · have hon := Except.forM_ok_iff.mp hv ir (hsm.mem_iff.mp hir)
          rw [valid_now, hi] at hon
          simpa using refuse_iff.mp hon
        · cases hr.symm.trans hr'
          have hno := refuse_iff.mp hg
          rw [show ch = [] from hnl] at hno
          simpa [hsf] using hno
      next => cases h
    next => cases h
  · intro h
    obtain ⟨b, e, c, hk, he, hke, hl, hcr⟩ := h.leaf
    obtain ⟨i, hs⟩ := exists_sole hl
    have hm := (sole hs).2
    have hmp := hm.map CertBag.cert
    have hn : matching (has_key x e) 0 archive.certs = .ok _ :=
      matching_ok.mpr ⟨fun c hmm => has_key_ok.mpr (h.parsed c hmm), rfl⟩
    have hsm : identity.chain.Perm ((archive.certs.eraseIdx i).map CertBag.cert) := by
      have hoh := h.others.trans hmp
      rw [← hcr] at hoh
      exact hoh.cons_inv
    obtain ⟨leaf, hr⟩ : ∃ leaf, x.from_der c.cert = .ok leaf := h.parsed c (hm.mem_iff.mpr (.head _))
    obtain ⟨hel, ht⟩ := h.in_time leaf (hcr ▸ hr)
    have hrm := remaining_parsed hm h.parsed
    have hc := (assemble_ok ⟨leaf, hr⟩ hrm).mpr ⟨hsm, hcr ▸ h.ordered⟩
    have hv : ((archive.certs.eraseIdx i).map CertBag.cert).forM (valid_now x now) = .ok () := Except.forM_ok_iff.mpr fun ir hir => by
      obtain ⟨parsed, hp⟩ := hrm ir hir
      rw [valid_now, hp]
      exact refuse_iff.mpr (by simpa using h.chain_in_time ir (hsm.mem_iff.mpr hir) parsed hp)
    have hg : (identity.chain.isEmpty && x.issuer leaf = x.subject leaf && !x.signature_valid leaf none) = false := by
      by_contra hb
      simp only [Bool.not_eq_false, Bool.and_eq_true, List.isEmpty_iff, decide_eq_true_eq, Bool.not_eq_true'] at hb
      have hgd := h.signed hb.1.1 leaf (hcr ▸ hr) hb.1.2
      rw [hb.2] at hgd
      cases hgd
    unfold Identity.decode
    rw [hk]
    dsimp only
    rw [refuse_iff.mpr (decide_eq_false (Nat.not_lt.mpr h.few)), he, refuse_iff.mpr (decide_eq_false (not_not.mpr h.distinct))]
    dsimp only [bind, Except.bind]
    rw [hn]
    dsimp only
    rw [retained_eq fun c => holds (has_key x e c), hs]
    dsimp only
    rw [hr]
    dsimp only
    rw [ refuse_iff.mpr (decide_eq_false (Int.not_lt.mpr hel)), refuse_iff.mpr (decide_eq_false (Int.not_lt.mpr ht)), hv, hc]
    dsimp only [bind, Except.bind]
    rw [refuse_iff.mpr hg, hke, hcr]
    rfl

/-- Archives are decoded to what their bags assemble to, in whatever order they come. -/
theorem assembled_exactly (x : X509 Der Parsed Name PublicKey) (now : Int) (archive : Pkcs12Archive Der) :
    (∀ identity, Identity.decode x now archive = .ok identity ↔ Assembles x now archive identity) ∧
    (∀ identity, Identity.decode x now archive = .ok identity →
      (identity.certificate :: identity.chain).Perm (archive.certs.map CertBag.cert) ∧ (identity.certificate :: identity.chain).Nodup ∧
        (identity.certificate :: identity.chain).IsChain (Issued x)) ∧
    ∀ certs, certs.Perm archive.certs → ∀ identity,
      Identity.decode x now { archive with certs } = .ok identity ↔ Identity.decode x now archive = .ok identity := by
  refine ⟨fun identity => decode_iff, fun identity h => ?_, fun certs hp identity => ?_⟩
  · have ha := decode_iff.mp h
    exact ⟨ha.others, ha.others.nodup_iff.mpr ha.distinct, ha.ordered.isChain⟩
  · rw [decode_iff, decode_iff]
    exact ⟨fun h => h.perm hp.symm, fun h => h.perm hp⟩

end

/-! ## A lone leaf -/

/-- Every certificate reads as itself, names itself as issuer, and has no valid signature. -/
def unsigned : X509 Nat Nat Unit Unit where
  from_der der := .ok der
  public_key _ := ()
  subject _ := ()
  issuer _ := ()
  not_before _ := 0
  not_after _ := 0
  is_valid_at _ _ := true
  signature_valid _ _ := false
  subject_public_key_info _ := .ok ()

/-- It has the key and nothing is left to issue it, but it is refused. -/
theorem unsigned_leaf_refused :
    let leaf : CertBag Nat := ⟨7, none⟩
    let archive : Pkcs12Archive Nat := ⟨[⟨[], none⟩], [leaf]⟩
    archive.certs.filter (selects (fun c => holds (has_key unsigned () c)) none archive.certs) = [leaf] ∧
      Ordered (Issued unsigned) leaf.cert [] ∧
      Identity.decode unsigned 0 archive = .error "self-signed leaf certificate has an invalid signature" :=
  ⟨rfl, trivial, rfl⟩

end Monosecret.Generate.Pkcs12
