import Entitlements.Proofs.Access.Related
import Entitlements.Proofs.Directory.Calls
import Entitlements.Review.Audit
import Entitlements.Review.Coverage
import Entitlements.Review.Resolution
import Entitlements.Review.Responsibility

/-! # Alike directories

Two directories are alike when every call of one is related to the same call of the other
(`Directory.Alike`). An analysis only makes calls, so that on alike directories it fails alike or
gives the same answer (`Directory.Alike.engine`); `EngineCall` lists all that can be asked. A
directory whose answers do not change (`Directory.Steady`) is alike to itself on any two states. -/

namespace Entitlements

open Access

/-- Directories whose calls answer alike on related states. -/
structure Directory.Alike {σ τ : Type} (R : σ → τ → Prop) (d : Directory σ) (e : Directory τ) :
    Prop where
  account : d.account = e.account
  ask : ∀ c, Related R Eq (d.ask c) (e.ask c)
  page : ∀ query page size, Related R Eq (d.effectivePermissions query page size)
    (e.effectivePermissions query page size)

/-! ### Calls made of others -/

section Calls
variable {σ τ : Type} {R : σ → τ → Prop} {d : Directory σ} {e : Directory τ}

theorem Directory.related_groupByName (hgroups : Related R Eq d.groups e.groups) (name : String) :
    Related R Eq (d.groupByName name) (e.groupByName name) :=
  hgroups.bind_eq fun _ => related_pure rfl

theorem Directory.related_userByEmail (husers : Related R Eq d.users e.users) (email : String) :
    Related R Eq (d.userByEmail email) (e.userByEmail email) :=
  husers.bind_eq fun _ => related_pure rfl

theorem Directory.related_findUser (huser : ∀ uid, Related R Eq (d.user uid) (e.user uid))
    (husers : Related R Eq d.users e.users) (identifier : String) :
    Related R Eq (d.findUser identifier) (e.findUser identifier) := by
  unfold Directory.findUser
  split
  · exact related_userByEmail husers identifier
  · refine (huser identifier).orMissing.bind_eq fun user => ?_
    cases user with
    | some user => exact related_pure rfl
    | none => exact related_userByEmail husers identifier

theorem Directory.related_findGroup (hgroup : ∀ uuid, Related R Eq (d.group uuid) (e.group uuid))
    (hgroups : Related R Eq d.groups e.groups) (identifier : String) :
    Related R Eq (d.findGroup identifier) (e.findGroup identifier) := by
  unfold Directory.findGroup
  refine (hgroup identifier).orMissing.bind_eq fun group => ?_
  cases group with
  | some group => exact related_pure rfl
  | none => exact related_groupByName hgroups identifier

section Reports
variable (hcollect : ∀ group, Related R Eq (d.collectGroup group) (e.collectGroup group))
include hcollect

/-- A group is resolved alike when it is found alike and the reports are alike. -/
theorem Directory.related_resolveGroup
    (hgroup : ∀ uuid, Related R Eq (d.group uuid) (e.group uuid))
    (hgroups : Related R Eq d.groups e.groups) (identifier : String) :
    Related R Eq (d.resolveGroup identifier) (e.resolveGroup identifier) := by
  unfold Directory.resolveGroup
  refine (related_findGroup hgroup hgroups identifier).bind_eq fun group => ?_
  cases group with
  | some group => exact (hcollect group).bind_eq fun _ => related_pure rfl
  | none => exact related_pure rfl

theorem Directory.related_responsibilityMatrix (hgroups : Related R Eq d.groups e.groups)
    (templateName : String) :
    Related R Eq (d.responsibilityMatrix templateName) (e.responsibilityMatrix templateName) := by
  unfold Directory.responsibilityMatrix
  split
  · exact related_pure rfl
  · refine hgroups.bind_eq fun groups => ?_
    refine Related.bind_eq (related_mapM_eq (fun group => ?_) groups) fun _ => related_pure rfl
    exact (hcollect group).bind_eq fun _ => related_pure rfl

end Reports

/-- A policy is reported on alike when it is found alike. -/
theorem Directory.related_analyzePolicy {identifier : String}
    (hfind : Related R Eq (d.findPolicy identifier) (e.findPolicy identifier))
    (hbindings : Related R Eq d.bindings e.bindings)
    (hgroup : ∀ uuid, Related R Eq (d.group uuid) (e.group uuid)) :
    Related R Eq (d.analyzePolicy identifier) (e.analyzePolicy identifier) := by
  have hbound : ∀ b, Related R Eq (d.boundGroup? b) (e.boundGroup? b) := by
    intro b
    unfold Directory.boundGroup?
    refine (hgroup b.groupUuid).orMissing.bind_eq fun group => ?_
    cases group with
    | some group => exact related_pure rfl
    | none => exact related_pure rfl
  unfold Directory.analyzePolicy
  refine hfind.bind_eq fun policy => ?_
  cases policy with
  | none => exact related_pure rfl
  | some policy =>
    refine hbindings.bind_eq fun bindings => ?_
    exact Related.bind_eq (related_mapM_eq hbound _) fun _ => related_pure rfl

end Calls

namespace Directory.Alike

variable {σ τ : Type} {R : σ → τ → Prop} {d : Directory σ} {e : Directory τ} (h : d.Alike R e)
include h

theorem groupByName (name : String) : Related R Eq (d.groupByName name) (e.groupByName name) :=
  related_groupByName (h.ask .groups) name

theorem userByEmail (email : String) : Related R Eq (d.userByEmail email) (e.userByEmail email) :=
  related_userByEmail (h.ask .users) email

theorem policyByName (name : String) : Related R Eq (d.policyByName name) (e.policyByName name) :=
  (h.ask .policies).bind_eq fun _ => related_pure rfl

theorem findUser (identifier : String) :
    Related R Eq (d.findUser identifier) (e.findUser identifier) :=
  related_findUser (fun uid => h.ask (.user uid)) (h.ask .users) identifier

theorem findGroup (identifier : String) :
    Related R Eq (d.findGroup identifier) (e.findGroup identifier) :=
  related_findGroup (fun uuid => h.ask (.group uuid)) (h.ask .groups) identifier

theorem findPolicy (identifier : String) :
    Related R Eq (d.findPolicy identifier) (e.findPolicy identifier) := by
  unfold Directory.findPolicy
  refine (h.ask (.policy identifier)).orMissing.bind_eq fun policy => ?_
  cases policy with
  | some policy => exact related_pure rfl
  | none =>
    refine (h.policyByName identifier).bind_eq fun policy => ?_
    cases policy with
    | none => exact related_pure rfl
    | some policy =>
      dsimp only
      split
      · exact (h.ask (.policy policy.uuid)).bind_eq fun _ => related_pure rfl
      · exact related_pure rfl

/-! ### Grants -/

theorem boundPolicies (groupUuid : String) :
    Related R Eq (d.boundPolicies groupUuid) (e.boundPolicies groupUuid) := by
  unfold Directory.boundPolicies
  refine (h.ask (.bindingsOfGroup groupUuid)).bind_eq fun bindings => ?_
  refine related_mapM_eq (fun b => ?_) bindings
  exact (h.ask (.policy b.policyUuid)).bind_eq fun _ => related_pure rfl

theorem collectGroup (group : Group) :
    Related R Eq (d.collectGroup group) (e.collectGroup group) :=
  (h.boundPolicies group.uuid).bind_eq fun _ => related_pure rfl

theorem resolveGroup (identifier : String) :
    Related R Eq (d.resolveGroup identifier) (e.resolveGroup identifier) :=
  related_resolveGroup h.collectGroup (fun uuid => h.ask (.group uuid)) (h.ask .groups) identifier

theorem resolveUser (identifier : String) :
    Related R Eq (d.resolveUser identifier) (e.resolveUser identifier) := by
  unfold Directory.resolveUser
  refine (h.findUser identifier).bind_eq fun user => ?_
  cases user with
  | none => exact related_pure rfl
  | some user =>
    refine (h.ask (.groupsOfUser user.uid)).bind_eq fun groups => ?_
    refine Related.bind_eq (related_mapM_eq (fun group => ?_) groups) fun _ => related_pure rfl
    exact (h.boundPolicies group.uuid).bind_eq fun _ => related_pure rfl

/-! ### Matrices -/

theorem policyMatrix : Related R Eq d.policyMatrix e.policyMatrix := by
  unfold Directory.policyMatrix
  refine (h.ask .policies).bind_eq fun policies => ?_
  refine Related.bind_eq (related_mapM_eq (fun policy => ?_) policies) fun _ => related_pure rfl
  exact (h.ask (.policy policy.uuid)).bind_eq fun _ => related_pure rfl

theorem groupMatrix : Related R Eq d.groupMatrix e.groupMatrix := by
  unfold Directory.groupMatrix
  refine (h.ask .groups).bind_eq fun groups => ?_
  refine Related.bind_eq (related_mapM_eq (fun group => ?_) groups) fun _ => related_pure rfl
  exact (h.boundPolicies group.uuid).bind_eq fun _ => related_pure rfl

theorem responsibilityMatrix (templateName : String) :
    Related R Eq (d.responsibilityMatrix templateName) (e.responsibilityMatrix templateName) :=
  related_responsibilityMatrix h.collectGroup (h.ask .groups) templateName

/-! ### Audits -/

theorem analyzePolicy (identifier : String) :
    Related R Eq (d.analyzePolicy identifier) (e.analyzePolicy identifier) :=
  related_analyzePolicy (h.findPolicy identifier) (h.ask .bindings) fun uuid => h.ask (.group uuid)

theorem leastPrivilege : Related R Eq d.leastPrivilege e.leastPrivilege := by
  unfold Directory.leastPrivilege
  refine (h.ask .policies).bind_eq fun policies => ?_
  refine Related.bind_eq (related_mapM_eq (fun policy => ?_) policies) fun _ => related_pure rfl
  exact (h.ask (.policy policy.uuid)).bind_eq fun _ => related_pure rfl

/-! ### Resolution by the platform -/

theorem canonicalId (entityType : EntityType) (identifier : String) :
    Related R Eq (d.canonicalId entityType identifier) (e.canonicalId entityType identifier) := by
  unfold Directory.canonicalId
  cases entityType with
  | user =>
    dsimp only
    split
    · exact (h.userByEmail identifier).bind_eq fun _ => related_pure rfl
    · exact related_pure rfl
  | group => exact (h.findGroup identifier).bind_eq fun _ => related_pure rfl

theorem fetchPages (query : EffectivePermissionsQuery) : ∀ (more page : Nat) (received : List Json),
    Related R Eq (d.fetchPages query more page received) (e.fetchPages query more page received)
  | 0, _, _ => related_throw _
  | more + 1, page, received => by
    unfold Directory.fetchPages
    refine (h.page query page pageSize).bind_eq fun answer => ?_
    dsimp only
    split
    · exact related_pure rfl
    · exact fetchPages query more (page + 1) _

theorem resolveQuery (query : EffectivePermissionsQuery) (allPages : Bool) :
    Related R Eq (d.resolveQuery query allPages) (e.resolveQuery query allPages) := by
  unfold Directory.resolveQuery
  dsimp only
  split
  · refine Related.bind_eq ?_ fun _ => related_pure rfl
    exact (h.fetchPages query maxPages 1 []).bind_eq fun _ => related_pure rfl
  · refine Related.bind_eq ?_ fun _ => related_pure rfl
    exact (h.page query 1 pageSize).bind_eq fun _ => related_pure rfl

theorem resolve (request : ResolveRequest) :
    Related R Eq (d.resolve request) (e.resolve request) := by
  unfold Directory.resolve
  rw [h.account]
  refine (h.canonicalId request.entityType request.entityId).reported.bind_eq fun found => ?_
  match found with
  | .error _ => exact related_pure rfl
  | .ok none => exact related_pure rfl
  | .ok (some entityId) =>
    exact (h.resolveQuery _ request.allPages).reported.bind_eq fun _ => related_pure rfl

end Directory.Alike

/-! ### Directories that do not change -/

/-- A directory whose answers do not change. -/
structure Directory.Steady {σ : Type} (d : Directory σ) : Prop where
  ask : ∀ c s t, ((d.ask c).call s).1 = ((d.ask c).call t).1
  page : ∀ query page size s t, ((d.effectivePermissions query page size).call s).1 =
    ((d.effectivePermissions query page size).call t).1

/-- A call whose answer does not change is alike to itself, whatever the states. -/
theorem related_self_of_answer_eq {σ α : Type} {a : Access σ α}
    (ha : ∀ s t, (a.call s).1 = (a.call t).1) : Related (fun _ _ => True) Eq a a := by
  intro s t _
  have heq : a.call t = ((a.call s).1, (a.call t).2) := Prod.ext (ha t s) rfl
  rw [heq]
  exact agree_same (a.call s).1 trivial

theorem Directory.Steady.alike {σ : Type} {d : Directory σ} (h : d.Steady) :
    d.Alike (fun _ _ => True) d :=
  ⟨rfl, fun c => related_self_of_answer_eq (h.ask c),
    fun query page size => related_self_of_answer_eq (h.page query page size)⟩

/-! ### All that can be asked -/

/-- A call of a directory, or an analysis of its records. -/
inductive EngineCall where
  | ask (c : CachedCall)
  | groupByName (name : String)
  | userByEmail (email : String)
  | policyByName (name : String)
  | page (query : EffectivePermissionsQuery) (number size : Nat)
  | resolveUser (identifier : String)
  | collectGroup (group : Group)
  | resolveGroup (identifier : String)
  | policyMatrix
  | groupMatrix
  | responsibilityMatrix (templateName : String)
  | analyzePolicy (identifier : String)
  | leastPrivilege
  | resolve (request : ResolveRequest)

namespace EngineCall

/-- What a call gives when it does not fail. -/
def Answer : EngineCall → Type
  | ask c => c.Answer
  | groupByName _ => Option Group
  | userByEmail _ => Option User
  | policyByName _ => Option Policy
  | page .. => EffectivePermissionsPage
  | resolveUser _ => Outcome UserEffectivePermissions
  | collectGroup _ => GroupEffectivePermissions
  | resolveGroup _ => Outcome GroupEffectivePermissions
  | policyMatrix | groupMatrix => CoverageMatrix
  | responsibilityMatrix _ => Except UnknownTemplate GovernanceMatrix
  | analyzePolicy _ => Outcome PolicyAnalysis
  | leastPrivilege => LeastPrivilegeReport
  | resolve _ => Outcome EffectivePermissionsReport

/-- The call on a directory. -/
def on {σ : Type} (d : Directory σ) : (x : EngineCall) → Access σ x.Answer
  | ask c => d.ask c
  | groupByName name => d.groupByName name
  | userByEmail email => d.userByEmail email
  | policyByName name => d.policyByName name
  | page query number size => d.effectivePermissions query number size
  | resolveUser identifier => d.resolveUser identifier
  | collectGroup group => d.collectGroup group
  | resolveGroup identifier => d.resolveGroup identifier
  | policyMatrix => d.policyMatrix
  | groupMatrix => d.groupMatrix
  | responsibilityMatrix templateName => d.responsibilityMatrix templateName
  | analyzePolicy identifier => d.analyzePolicy identifier
  | leastPrivilege => d.leastPrivilege
  | resolve request => d.resolve request

end EngineCall

/-- **Alike directories** are alike for whatever is asked of them. -/
theorem Directory.Alike.engine {σ τ : Type} {R : σ → τ → Prop} {d : Directory σ} {e : Directory τ}
    (h : d.Alike R e) (x : EngineCall) : Related R Eq (x.on d) (x.on e) := by
  cases x with
  | ask c => exact h.ask c
  | groupByName name => exact h.groupByName name
  | userByEmail email => exact h.userByEmail email
  | policyByName name => exact h.policyByName name
  | page query number size => exact h.page query number size
  | resolveUser identifier => exact h.resolveUser identifier
  | collectGroup group => exact h.collectGroup group
  | resolveGroup identifier => exact h.resolveGroup identifier
  | policyMatrix => exact h.policyMatrix
  | groupMatrix => exact h.groupMatrix
  | responsibilityMatrix templateName => exact h.responsibilityMatrix templateName
  | analyzePolicy identifier => exact h.analyzePolicy identifier
  | leastPrivilege => exact h.leastPrivilege
  | resolve request => exact h.resolve request

end Entitlements
