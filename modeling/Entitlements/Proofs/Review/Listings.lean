import Entitlements.Proofs.Directory.Memory
import Entitlements.Proofs.Review.Alike

/-! # Partial listings

A listing of policies may leave out statements, and descriptions with them (`Policy.ListedAs`).
Where the policies that are listed in full are those that are fetched, a directory that lists less
of them gives the same matrix, the same findings and the same reports (`partial_listings_agree`):
what is missing is fetched before it is looked at. -/

namespace Entitlements

open Access

/-! ### Listed policies -/

/-- How a policy may stand in a listing: as it is, without its statement, or without its statement
and its description. -/
inductive Policy.ListedAs (p : Policy) : Policy → Prop
  | full : p.ListedAs p
  | withoutStatement : p.ListedAs p.withoutStatement
  | bare : p.ListedAs { p.withoutStatement with description := none }

namespace Policy.ListedAs

variable {p q : Policy}

theorem uuid_eq (h : p.ListedAs q) : q.uuid = p.uuid := by cases h <;> rfl

theorem name_eq (h : p.ListedAs q) : q.name = p.name := by cases h <;> rfl

/-- What is listed with a statement is listed as it is. -/
theorem eq_of_statement (h : p.ListedAs q) (hq : q.statementQuery.isNone = false) : q = p := by
  cases h with
  | full => rfl
  | withoutStatement => cases hq
  | bare => cases hq

end Policy.ListedAs

/-- The first policies of a name in two listings: none in either, or one as it may be listed. -/
theorem find?_name_listedAs {ps qs : List Policy} (h : List.Forall₂ Policy.ListedAs ps qs)
    (name : String) :
    (ps.find? (·.name == name) = none ∧ qs.find? (·.name == name) = none) ∨
    ∃ p q, ps.find? (·.name == name) = some p ∧ qs.find? (·.name == name) = some q ∧
      p.ListedAs q := by
  induction h with
  | nil => exact .inl ⟨rfl, rfl⟩
  | @cons p q _ _ hpq _ ih =>
    rw [List.find?_cons, List.find?_cons, hpq.name_eq]
    cases p.name == name with
    | true => exact .inr ⟨p, q, rfl, rfl, hpq⟩
    | false => exact ih

/-! ### Directories -/

/-- Directories that answer alike, but for what the second one leaves out of its listing of
policies. -/
structure Directory.ListsLess {σ τ : Type} (R : σ → τ → Prop) (d : Directory σ) (e : Directory τ) :
    Prop where
  ask : ∀ c, c ≠ .policies → Related R Eq (d.ask c) (e.ask c)
  policies : Related R (List.Forall₂ Policy.ListedAs) d.policies e.policies
  /-- What the first one lists is what it gives for the uuid. -/
  fetched : ∀ {s t ps s'}, R s t → d.policies.call s = (.ok ps, s') → ∀ p ∈ ps,
    ((d.policy p.uuid).call s').1 = .ok p
  /-- It does not matter how often a policy is fetched. -/
  refetch : ∀ {s t} (uuid : String), R s t → R s ((e.policy uuid).call t).2

namespace Directory.ListsLess

variable {σ τ : Type} {R : σ → τ → Prop} {d : Directory σ} {e : Directory τ} (h : d.ListsLess R e)
include h

theorem policy (uuid : String) : Related R Eq (d.policy uuid) (e.policy uuid) :=
  h.ask (.policy uuid) nofun

/-- A policy that the first directory would give at this point is given by the second one, as if it
had not been asked. -/
theorem call_policy_of_fetched {p : Policy} {s : σ} {t : τ} (hst : R s t)
    (hp : ((d.policy p.uuid).call s).1 = .ok p) :
    ∃ t', (e.policy p.uuid).call t = (.ok p, t') ∧ R s t' := by
  refine ⟨_, Prod.ext ?_ rfl, h.refetch p.uuid hst⟩
  rw [← hp]
  exact (h.policy p.uuid s t hst).answer_eq.symm

/-- A listed policy, fetched if its statement is missing. -/
theorem agree_complete {p q : Policy} (hpq : p.ListedAs q) {s : σ} {t : τ} (hst : R s t)
    (hp : ((d.policy p.uuid).call s).1 = .ok p) :
    Agree R Eq
      (Access.call (if p.statementQuery.isNone then do return some (← d.policy p.uuid)
        else return some p) s)
      (Access.call (if q.statementQuery.isNone then do return some (← e.policy q.uuid)
        else return some q) t) := by
  cases hq : q.statementQuery.isNone with
  | false =>
    obtain rfl := hpq.eq_of_statement hq
    rw [hq]
    exact .ok rfl hst
  | true =>
    rw [hpq.uuid_eq]
    cases p.statementQuery.isNone with
    | true => exact (h.policy p.uuid).bind_eq (fun _ => related_pure rfl) s t hst
    | false =>
      obtain ⟨t', ht, hst'⟩ := h.call_policy_of_fetched hst hp
      rw [if_pos rfl, call_bind, ht]
      exact .ok rfl hst'

/-- **The policy found** is the same, whether its statement was listed or had to be fetched. -/
theorem findPolicy (identifier : String) :
    Related R Eq (d.findPolicy identifier) (e.findPolicy identifier) := by
  unfold Directory.findPolicy
  refine (h.policy identifier).orMissing.bind_eq fun found => ?_
  cases found with
  | some policy => exact related_pure rfl
  | none =>
    intro s t hst
    have hlisted := h.policies s t hst
    simp only [Directory.policyByName, call_bind, call_pure]
    generalize hd : d.policies.call s = r, e.policies.call t = r' at hlisted
    cases hlisted with
    | error state => exact .error state
    | ok hlisted state =>
      rcases find?_name_listedAs hlisted identifier with ⟨hp, hq⟩ | ⟨p, q, hp, hq, hpq⟩
      · simp only [hp, hq]
        exact .ok rfl state
      · simp only [hp, hq]
        exact h.agree_complete hpq state (h.fetched hst hd p (List.mem_of_find?_eq_some hp))

/-- Listed policies are each fetched once more. What is made of them is the same if it shows no more
than names and uuids of the listing. -/
theorem related_mapM_policy {α : Type} {f : Policy → Policy → α}
    (hf : ∀ p q fetched, p.ListedAs q → f p fetched = f q fetched) {ps qs : List Policy}
    (hlisted : List.Forall₂ Policy.ListedAs ps qs) :
    Related R Eq (ps.mapM fun p => do return f p (← d.policy p.uuid))
      (qs.mapM fun q => do return f q (← e.policy q.uuid)) := by
  rw [← List.forall₂_eq_eq_eq]
  refine related_mapM (fun p q hpq => ?_) hlisted
  rw [hpq.uuid_eq]
  exact (h.policy p.uuid).bind_eq fun fetched => related_pure (hf p q fetched hpq)

theorem policyMatrix : Related R Eq d.policyMatrix e.policyMatrix := by
  have hcovered : ∀ (p q fetched : Policy), p.ListedAs q →
      (⟨p.name, p.uuid, .ofList (keysOf fetched.statement)⟩ : CoveredEntity) =
        ⟨q.name, q.uuid, .ofList (keysOf fetched.statement)⟩ := by
    intro p q fetched hpq
    rw [hpq.name_eq, hpq.uuid_eq]
  unfold Directory.policyMatrix
  refine h.policies.bind fun ps qs hlisted => ?_
  exact Related.bind_eq (h.related_mapM_policy hcovered hlisted) fun _ => related_pure rfl

theorem leastPrivilege : Related R Eq d.leastPrivilege e.leastPrivilege := by
  have hfindings : ∀ (p q fetched : Policy), p.ListedAs q →
      PolicyFindings.ofStatement? p fetched.statement =
        PolicyFindings.ofStatement? q fetched.statement := by
    intro p q fetched hpq
    simp only [PolicyFindings.ofStatement?, hpq.name_eq, hpq.uuid_eq]
  unfold Directory.leastPrivilege
  refine h.policies.bind fun ps qs hlisted => ?_
  refine (h.related_mapM_policy hfindings hlisted).bind_eq fun _ => ?_
  rw [hlisted.length_eq]
  exact related_pure rfl

theorem analyzePolicy (identifier : String) :
    Related R Eq (d.analyzePolicy identifier) (e.analyzePolicy identifier) :=
  related_analyzePolicy (h.findPolicy identifier) (h.ask .bindings nofun)
    fun uuid => h.ask (.group uuid) nofun

/-- **Partial listings do not matter.** A directory that leaves statements out of its listing, and
answers otherwise like one whose listed policies are those that it gives, has the same matrix of
policies and the same findings, and the same report on a policy for every identifier. -/
theorem partial_listings_agree {s : σ} {t : τ} (hst : R s t) :
    Agree R Eq (d.policyMatrix.call s) (e.policyMatrix.call t) ∧
    Agree R Eq (d.leastPrivilege.call s) (e.leastPrivilege.call t) ∧
    ∀ identifier, Agree R Eq ((d.analyzePolicy identifier).call s)
      ((e.analyzePolicy identifier).call t) :=
  ⟨h.policyMatrix s t hst, h.leastPrivilege s t hst,
    fun identifier => h.analyzePolicy identifier s t hst⟩

end Directory.ListsLess

/-! ### Directories in memory -/

namespace MemoryDirectory

/-- The directory of these records, with a listing of policies of its own. -/
def listing (m : MemoryDirectory) (listed : List Policy) : Directory Nat :=
  { m.directory with
    policies := do
      m.begin .listPolicies
      return listed }

/-- Policies that can be told by their uuids may be listed in part. -/
theorem listsLess {m : MemoryDirectory} (hfailures : m.failures = [])
    (hdistinct : ∀ p ∈ m.policies, m.policies.find? (·.uuid == p.uuid) = some p)
    {listed : List Policy} (hlisted : List.Forall₂ Policy.ListedAs m.policies listed) :
    (m.listing m.policies).ListsLess (fun _ _ => True) (m.listing listed) where
  ask c hc := by
    have hsame : ∀ ps, (m.listing ps).ask c = m.directory.ask c := fun ps => by
      cases c with
      | policies => exact absurd rfl hc
      | _ => rfl
    rw [hsame, hsame]
    exact related_self_of_answer_eq fun s t => by rw [m.call_ask, m.call_ask]
  policies s t _ := by
    have hcall : ∀ ps n, (m.listing ps).policies.call n = (.ok ps, n + 1) := fun ps n =>
      call_begin_bind hfailures .listPolicies (fun _ => pure ps) n
    rw [hcall, hcall]
    exact .ok hlisted trivial
  fetched {s t ps s'} _ hps p hp := by
    have hcall : (m.listing m.policies).policies.call s = (.ok m.policies, s + 1) :=
      call_begin_bind hfailures .listPolicies (fun _ => pure m.policies) s
    rw [hcall] at hps
    cases hps
    show (Access.call (do m.begin .getPolicy; found _ _ _) (s + 1)).1 = .ok p
    rw [call_begin_bind hfailures, hdistinct p hp]
    rfl
  refetch _ _ := trivial

/-- Two policies of one name, and a third. -/
def sameName : MemoryDirectory where
  account := "account"
  groups := [⟨"g", "Ops", none, none⟩]
  policies := [⟨"p", "Reader", some "Reads", some "ALLOW settings:objects:read"⟩,
    ⟨"q", "Reader", none, some "ALLOW a"⟩, ⟨"r", "Admin", some "All", some "ALLOW *"⟩]
  bindings := [{ policyUuid := "p", groupUuid := "g" }]

/-- One statement is missing from the listing, another one with its description. -/
def sameNameListed : List Policy :=
  [⟨"p", "Reader", none, none⟩, ⟨"q", "Reader", none, some "ALLOW a"⟩,
    ⟨"r", "Admin", some "All", none⟩]

/-- The policy of a name is reported with the statement and the description that were not listed. -/
theorem sameName_listings_agree :
    let d := sameName.listing sameName.policies
    let e := sameName.listing sameNameListed
    d.ListsLess (fun _ _ => True) e ∧
    (Agree (fun _ _ => True) Eq (d.policyMatrix.call 0) (e.policyMatrix.call 0) ∧
    Agree (fun _ _ => True) Eq (d.leastPrivilege.call 0) (e.leastPrivilege.call 0) ∧
    ∀ identifier, Agree (fun _ _ => True) Eq ((d.analyzePolicy identifier).call 0)
      ((e.analyzePolicy identifier).call 0)) ∧
    ∃ r, ((e.analyzePolicy "Reader").call 0).1 = .ok (.found r) ∧
      r.policy = ⟨"p", "Reader", "Reads", "ALLOW settings:objects:read"⟩ := by
  intro d e
  have hlisted : List.Forall₂ Policy.ListedAs sameName.policies sameNameListed :=
    .cons .bare (.cons .full (.cons .withoutStatement .nil))
  have h : d.ListsLess (fun _ _ => True) e := listsLess rfl (by decide +kernel) hlisted
  exact ⟨h, h.partial_listings_agree trivial, _, rfl, rfl⟩

end MemoryDirectory

end Entitlements
