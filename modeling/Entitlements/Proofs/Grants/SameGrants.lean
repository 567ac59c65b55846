import Entitlements.Directory.Memory
import Entitlements.Proofs.Grants.Exactness
import Entitlements.Proofs.Review.Alike

/-! # Directories that grant the same

Of the statement of a policy, only the actions that it allows matter to grants. Policies grant the
same when they have one name and allow the same actions in the same order (`Policy.SameGrants`):
what they deny, the conditions, the pieces that are no clause and the layout may all differ. If two
directories differ in their policies alone, and no further than this, then users and groups are
granted the same from the same sources, and groups play the same roles (`reviews_agree`). -/

namespace Entitlements

open Access

theorem map_eq_of_forall₂ {α β γ : Type} {Q : α → β → Prop} {f : α → γ} {g : β → γ} {xs : List α}
    {ys : List β} (h : List.Forall₂ Q xs ys) (hfg : ∀ x y, Q x y → f x = g y) :
    xs.map f = ys.map g := by
  have hmap := List.forall₂_map_left_iff.mpr (List.forall₂_map_right_iff.mpr (h.imp hfg))
  rwa [List.forall₂_eq_eq_eq] at hmap

/-! ### Policies -/

/-- The actions that a policy allows, in order and with repetitions. -/
def Policy.allowedActions (p : Policy) : List String :=
  ((parseStatement p.statement).filter (·.effect.isAllow)).map (·.action)

/-- They are the items of the `ALLOW` clauses, whatever stands before, between and behind these. -/
theorem Policy.allowedActions_eq (p : Policy) : p.allowedActions =
    ((parseClauses p.statement).filter (·.effect.isAllow)).flatMap (·.actions) := by
  unfold Policy.allowedActions parseStatement
  induction parseClauses p.statement with
  | nil => rfl
  | cons c cs ih =>
    have hactions : (c.declarations.filter (·.effect.isAllow)).map (·.action) =
        if c.effect.isAllow then c.actions else [] := by
      rw [Clause.declarations, List.filter_map, List.map_map]
      cases h : c.effect.isAllow <;> simp [PermissionStatement.declare, Function.comp_def, h]
    rw [List.flatMap_cons, List.filter_append, List.map_append, hactions, ih, List.filter_cons]
    split
    · rw [List.flatMap_cons]
    · rw [List.nil_append]

/-- Policies of one name that allow the same. -/
structure Policy.SameGrants (p q : Policy) : Prop where
  name : p.name = q.name
  allowedActions : p.allowedActions = q.allowedActions

/-- One binding, of policies that grant the same. -/
structure BoundPolicy.SameGrants (b c : BoundPolicy) : Prop where
  binding : b.binding = c.binding
  policy : b.policy.SameGrants c.policy

theorem BoundPolicy.SameGrants.source_eq {b c : BoundPolicy} (h : b.SameGrants c)
    (group : Option String) : b.source group = c.source group := by
  rw [BoundPolicy.source, BoundPolicy.source, h.policy.name, h.binding]

/-! ### Grants -/

/-- All that entries keep of a grant besides the standard description. -/
def Grant.gathered (g : Grant) : (Effect × String) × PermissionSource := (g.kind, g.source)

theorem BoundPolicy.map_gathered_grants (b : BoundPolicy) (group : Option String) :
    (b.grants group).map (·.gathered) =
      b.policy.allowedActions.map fun action => ((.allow, action), b.source group) := by
  rw [BoundPolicy.grants, Policy.allowedActions, List.map_map, List.map_map]
  refine List.map_congr_left fun p hp => ?_
  have hallow : p.effect = .allow := Effect.isAllow_iff.mp (List.mem_filter.mp hp).2
  simp only [Function.comp_apply, Grant.gathered, Grant.kind, hallow]

theorem ExactGrants.eq_of_gathered_eq {es es' : List EffectivePermission} {gs gs' : List Grant}
    (h : ExactGrants es gs) (h' : ExactGrants es' gs')
    (heq : gs.map (·.gathered) = gs'.map (·.gathered)) : es = es' := by
  have hkinds : ∀ l : List Grant, l.map (·.kind) = (l.map (·.gathered)).map (·.1) := fun l => by
    rw [List.map_map]
    rfl
  have hsources : ∀ (l : List Grant) (action : String),
      (l.filter (·.statement.action = action)).map (·.source) =
        ((l.map (·.gathered)).filter (·.1.2 = action)).map (·.2) := fun l action => by
    rw [List.filter_map, List.map_map]
    rfl
  -- Exact entries are a function of the kinds and of the sources for each action.
  rw [h.eq_map, h'.eq_map]
  simp only [hkinds, hsources, heq]

/-- What is met may be replaced by what grants the same. -/
theorem grantsOf_eq_of_forall₂ {met met' : List (Option String × BoundPolicy)}
    (h : List.Forall₂ (fun x y => x.1 = y.1 ∧ x.2.SameGrants y.2) met met') :
    grantsOf met = grantsOf met' := by
  refine (exactGrants_grantsOf met).eq_of_gathered_eq (exactGrants_grantsOf met') ?_
  rw [List.map_flatMap, List.map_flatMap, List.flatMap_def, List.flatMap_def]
  refine congrArg List.flatten (map_eq_of_forall₂ h fun x y hxy => ?_)
  obtain ⟨hgroup, hsame⟩ := hxy
  rw [BoundPolicy.map_gathered_grants, BoundPolicy.map_gathered_grants, hgroup,
    hsame.policy.allowedActions, hsame.source_eq]

/-! ### Reports -/

theorem GroupEffectivePermissions.ofBindings_congr (group : Group) {bs cs : List BoundPolicy}
    (h : List.Forall₂ BoundPolicy.SameGrants bs cs) : ofBindings group bs = ofBindings group cs := by
  have hgrants : grantsOf (bs.map fun b => (none, b)) = grantsOf (cs.map fun b => (none, b)) := by
    refine grantsOf_eq_of_forall₂ ?_
    rw [List.forall₂_map_left_iff, List.forall₂_map_right_iff]
    exact h.imp fun _ _ hbc => ⟨rfl, hbc⟩
  simp only [ofBindings, hgrants, h.length_eq, map_eq_of_forall₂ h fun _ _ hbc => hbc.binding]

/-- The binding without the declarations of its policy. -/
def UserBinding.withoutPermissions (b : UserBinding) : UserBinding := { b with permissions := [] }

/-- Reports on users that differ at most in the declarations shown with the bindings. -/
structure UserEffectivePermissions.SameGrants (r r' : UserEffectivePermissions) : Prop where
  user : r.user = r'.user
  groups : r.groups = r'.groups
  groupCount : r.groupCount = r'.groupCount
  bindings : r.bindings.map (·.withoutPermissions) = r'.bindings.map (·.withoutPermissions)
  bindingCount : r.bindingCount = r'.bindingCount
  effectivePermissions : r.effectivePermissions = r'.effectivePermissions
  permissionCount : r.permissionCount = r'.permissionCount

/-- Groups whose bindings were fetched and grant the same. -/
def SameBound (x y : Group × List BoundPolicy) : Prop :=
  x.1 = y.1 ∧ List.Forall₂ BoundPolicy.SameGrants x.2 y.2

theorem UserEffectivePermissions.sameGrants_ofGroups (user : User)
    {bound bound' : List (Group × List BoundPolicy)} (h : List.Forall₂ SameBound bound bound') :
    (ofGroups user bound).SameGrants (ofGroups user bound') := by
  have hmet : List.Forall₂ (fun x y : Group × BoundPolicy => x.1 = y.1 ∧ x.2.SameGrants y.2)
      (bound.flatMap fun x => x.2.map fun b => (x.1, b))
      (bound'.flatMap fun x => x.2.map fun b => (x.1, b)) := by
    refine List.rel_flatMap h fun x y hxy => ?_
    obtain ⟨hgroup, hbound⟩ := hxy
    rw [List.forall₂_map_left_iff, List.forall₂_map_right_iff]
    exact hbound.imp fun _ _ hbc => ⟨hgroup, hbc⟩
  have hgrants : (ofGroups user bound).effectivePermissions =
      (ofGroups user bound').effectivePermissions := by
    refine grantsOf_eq_of_forall₂ ?_
    rw [List.forall₂_map_left_iff, List.forall₂_map_right_iff]
    exact hmet.imp fun _ _ hxy => ⟨congrArg (some ·.name) hxy.1, hxy.2⟩
  refine ⟨rfl, map_eq_of_forall₂ h fun _ _ hxy => congrArg Group.ref hxy.1, h.length_eq, ?_, ?_,
    hgrants, congrArg List.length hgrants⟩
  · simp only [ofGroups, List.map_map]
    refine map_eq_of_forall₂ hmet fun x y hxy => ?_
    obtain ⟨hgroup, hsame⟩ := hxy
    simp only [Function.comp_apply, BoundPolicy.forUser, UserBinding.withoutPermissions, hgroup,
      hsame.binding, hsame.policy.name]
  · simp only [ofGroups, List.length_map, hmet.length_eq]

/-- Outcomes that fail alike, or find records that are related. -/
inductive Outcome.Both {α β : Type} (Q : α → β → Prop) : Outcome α → Outcome β → Prop
  | failed (e : SoftError) : Both Q (.failed e) (.failed e)
  | found {a : α} {b : β} (h : Q a b) : Both Q (.found a) (.found b)

/-! ### Directories -/

/-- Directories that answer alike but for their policies, which grant the same. -/
structure Directory.SameGrants {σ τ : Type} (R : σ → τ → Prop) (d : Directory σ) (e : Directory τ) :
    Prop where
  groups : Related R Eq d.groups e.groups
  group : ∀ uuid, Related R Eq (d.group uuid) (e.group uuid)
  users : Related R Eq d.users e.users
  user : ∀ uid, Related R Eq (d.user uid) (e.user uid)
  groupsOfUser : ∀ uid, Related R Eq (d.groupsOfUser uid) (e.groupsOfUser uid)
  bindingsOfGroup : ∀ uuid, Related R Eq (d.bindingsOfGroup uuid) (e.bindingsOfGroup uuid)
  policy : ∀ uuid, Related R Policy.SameGrants (d.policy uuid) (e.policy uuid)

namespace Directory.SameGrants

variable {σ τ : Type} {R : σ → τ → Prop} {d : Directory σ} {e : Directory τ} (h : d.SameGrants R e)
include h

theorem boundPolicies (groupUuid : String) :
    Related R (List.Forall₂ BoundPolicy.SameGrants) (d.boundPolicies groupUuid)
      (e.boundPolicies groupUuid) := by
  unfold Directory.boundPolicies
  refine (h.bindingsOfGroup groupUuid).bind_eq fun bindings => ?_
  refine related_mapM_same (fun b => ?_) bindings
  exact (h.policy b.policyUuid).bind fun _ _ hpq => related_pure ⟨rfl, hpq⟩

theorem collectGroup (group : Group) :
    Related R Eq (d.collectGroup group) (e.collectGroup group) :=
  (h.boundPolicies group.uuid).bind fun _ _ hbound =>
    related_pure (GroupEffectivePermissions.ofBindings_congr group hbound)

theorem resolveGroup (identifier : String) :
    Related R Eq (d.resolveGroup identifier) (e.resolveGroup identifier) :=
  related_resolveGroup h.collectGroup h.group h.groups identifier

theorem resolveUser (identifier : String) :
    Related R (Outcome.Both UserEffectivePermissions.SameGrants) (d.resolveUser identifier)
      (e.resolveUser identifier) := by
  unfold Directory.resolveUser
  refine (related_findUser h.user h.users identifier).bind_eq fun user => ?_
  cases user with
  | none => exact related_pure (.failed _)
  | some user =>
    refine (h.groupsOfUser user.uid).bind_eq fun groups => ?_
    have hbound : Related R (List.Forall₂ SameBound)
        (groups.mapM fun group => do return (group, ← d.boundPolicies group.uuid))
        (groups.mapM fun group => do return (group, ← e.boundPolicies group.uuid)) := by
      refine related_mapM_same (fun group => ?_) groups
      exact (h.boundPolicies group.uuid).bind fun _ _ hbs => related_pure ⟨rfl, hbs⟩
    exact hbound.bind fun _ _ hbound =>
      related_pure (.found (UserEffectivePermissions.sameGrants_ofGroups user hbound))

theorem responsibilityMatrix (templateName : String) :
    Related R Eq (d.responsibilityMatrix templateName) (e.responsibilityMatrix templateName) :=
  related_responsibilityMatrix h.collectGroup h.groups templateName

/-- **Only what is allowed matters to grants.** On directories that grant the same, each user is
found or fails alike and is granted the same, each group has one report, and each template one
matrix. -/
theorem reviews_agree {s : σ} {t : τ} (hst : R s t) :
    (∀ identifier, Agree R (Outcome.Both UserEffectivePermissions.SameGrants)
      ((d.resolveUser identifier).call s) ((e.resolveUser identifier).call t)) ∧
    (∀ identifier, Agree R Eq ((d.resolveGroup identifier).call s)
      ((e.resolveGroup identifier).call t)) ∧
    ∀ templateName, Agree R Eq ((d.responsibilityMatrix templateName).call s)
      ((e.responsibilityMatrix templateName).call t) :=
  ⟨fun identifier => h.resolveUser identifier s t hst,
    fun identifier => h.resolveGroup identifier s t hst,
    fun templateName => h.responsibilityMatrix templateName s t hst⟩

end Directory.SameGrants

/-! ### Directories in memory -/

namespace MemoryDirectory

/-- Records that are the same but for the policies, which stand in one order and grant the same. -/
structure SameGrants (m m' : MemoryDirectory) : Prop where
  groups : m.groups = m'.groups
  users : m.users = m'.users
  bindings : m.bindings = m'.bindings
  memberships : m.memberships = m'.memberships
  failures : m.failures = m'.failures
  policies : List.Forall₂ (fun p q => p.uuid = q.uuid ∧ p.SameGrants q) m.policies m'.policies

theorem related_refl {α : Type} (a : Access Nat α) : Related Eq Eq a a := by
  rintro s _ rfl
  exact agree_same (a.call s).1 rfl

/-- The policies found under a uuid grant the same. -/
theorem related_found_find? {ps qs : List Policy}
    (h : List.Forall₂ (fun p q => p.uuid = q.uuid ∧ p.SameGrants q) ps qs) (uuid : String) :
    Related Eq Policy.SameGrants (found "policy" uuid (ps.find? (·.uuid == uuid)))
      (found "policy" uuid (qs.find? (·.uuid == uuid))) := by
  induction h with
  | nil => exact related_throw _
  | @cons p q _ _ hpq _ ih =>
    obtain ⟨huuid, hsame⟩ := hpq
    rw [List.find?_cons, List.find?_cons, ← huuid]
    cases p.uuid == uuid with
    | true => exact related_pure hsame
    | false => exact ih

theorem SameGrants.directory {m m' : MemoryDirectory} (h : m.SameGrants m') :
    m.directory.SameGrants Eq m'.directory := by
  have hbegin : ∀ op, m.begin op = m'.begin op := fun op => by rw [begin, begin, h.failures]
  have hgroupsOf : ∀ uid, m.groupsOf uid = m'.groupsOf uid := fun uid => by
    rw [groupsOf, groupsOf, h.memberships, h.groups]
  constructor
  case policy =>
    intro uuid
    simp only [MemoryDirectory.directory, hbegin]
    exact (related_refl _).bind_eq fun _ => related_found_find? h.policies uuid
  all_goals
    intros
    simp only [MemoryDirectory.directory, hbegin, hgroupsOf, h.groups, h.users, h.bindings]
    exact related_refl _

/-- A policy that only allows. -/
def terse : MemoryDirectory where
  account := "account"
  groups := [⟨"g", "Ops", none, none⟩]
  users := [{ uid := "u", email := "u@example.com" }]
  memberships := [("u", "g")]
  policies := [⟨"p", "Mixed", none, some "ALLOW account:users:read, a; ALLOW a"⟩]
  bindings := [{ policyUuid := "p", groupUuid := "g", boundaries := ["b"] }]

/-- The same policy with denials, conditions and other text around what it allows. -/
def wordy : MemoryDirectory :=
  { terse with policies := [⟨"p", "Mixed", some "Reworded",
      some "DENY a, b;; allow  account:users:read ,a where x = 1; REVOKE c; Allow a as well; DENY z"⟩] }

/-- Two entries are granted either way, the second from two sources, while what is declared
differs. -/
theorem terse_wordy_agree :
    terse.directory.SameGrants Eq wordy.directory ∧
    ((∀ identifier, Agree Eq (Outcome.Both UserEffectivePermissions.SameGrants)
      ((terse.directory.resolveUser identifier).call 0)
      ((wordy.directory.resolveUser identifier).call 0)) ∧
    (∀ identifier, Agree Eq Eq ((terse.directory.resolveGroup identifier).call 0)
      ((wordy.directory.resolveGroup identifier).call 0)) ∧
    ∀ templateName, Agree Eq Eq ((terse.directory.responsibilityMatrix templateName).call 0)
      ((wordy.directory.responsibilityMatrix templateName).call 0)) ∧
    terse.policies.map (parseStatement ·.statement) ≠
      wordy.policies.map (parseStatement ·.statement) ∧
    ∃ r, (wordy.directory.resolveUser "u").call 0 = (.ok (.found r), 4) ∧
      r.effectivePermissions.map (fun p => (p.key, p.sources.length)) =
        [("ALLOW:account:users:read", 1), ("ALLOW:a", 2)] := by
  have hpolicies : List.Forall₂ (fun p q => p.uuid = q.uuid ∧ p.SameGrants q) terse.policies
      wordy.policies := .cons ⟨rfl, rfl, by decide +kernel⟩ .nil
  have h : terse.directory.SameGrants Eq wordy.directory :=
    SameGrants.directory ⟨rfl, rfl, rfl, rfl, rfl, hpolicies⟩
  exact ⟨h, h.reviews_agree rfl, by decide +kernel, _, rfl, by decide +kernel⟩

end MemoryDirectory

end Entitlements
