import Entitlements.Proofs.Grants.Merge
import Entitlements.Proofs.Responsibility.Chart
import Entitlements.Proofs.Review.Views
import Entitlements.Proofs.Statement.Parsing
import Mathlib.Data.List.Flatten

/-! # More grants

A directory grants more when bindings of its policies are added and text is appended to statements,
behind a `;` (`MemoryDirectory.GrantsMore`). Whatever is added, nothing is taken away. What was
declared is still declared, so that the grants met in a group are, in their order, among those met
now (`GrantsMore.grantsUnder_sublist`, `walkGroup_grants`). Each entry of a report is still there,
with its sources (`GroupEffectivePermissions.GrantedIn`), and a cell that shows a role goes on to
show it (`RaciRow.FillsMore`, `MemoryDirectory.responsibilityMatrix_grows`). -/

namespace Entitlements

open Access

/-! ### Entries and cells that stay -/

/-- Every entry is found in the other report under its key, where its sources are, in their order,
among those given. -/
def GroupEffectivePermissions.GrantedIn (r r' : GroupEffectivePermissions) : Prop :=
  ∀ e ∈ r.effectivePermissions, ∃ e' ∈ r'.effectivePermissions,
    e'.key = e.key ∧ e.sources.Sublist e'.sources

/-- A row of the same activity with the same columns, in which the cells with a role stay. -/
structure RaciRow.FillsMore (row row' : RaciRow) : Prop where
  activity : row'.activity = row.activity
  category : row'.category = row.category
  requiredPermissions : row'.requiredPermissions = row.requiredPermissions
  columns : row'.roles.map (·.1) = row.roles.map (·.1)
  kept : ∀ (i : Nat) name role, row.roles[i]? = some (name, some role) →
    row'.roles[i]? = some (name, some role)

/-- A matrix with the same entities and activities, in which the cells with a role stay. -/
structure GovernanceMatrix.FillsMore (x x' : GovernanceMatrix) : Prop where
  template : x'.template = x.template
  description : x'.description = x.description
  activities : x'.activities = x.activities
  entities : x'.entities = x.entities
  rows : List.Forall₂ RaciRow.FillsMore x.rows x'.rows

/-- More grants leave each entry under its key, with its sources. -/
theorem ExactGrants.exists_entry {es es' : List EffectivePermission} {gs gs' : List Grant}
    (h : ExactGrants es gs) (h' : ExactGrants es' gs') (hgs : gs.Sublist gs')
    {e : EffectivePermission} (he : e ∈ es) :
    ∃ e' ∈ es', e'.key = e.key ∧ e.sources.Sublist e'.sources := by
  have hkind : e.kind ∈ (gs.map (·.kind)).eraseDups := h.kinds ▸ List.mem_map_of_mem he
  have hkind' : e.kind ∈ es'.map (·.kind) := by
    rw [h'.kinds, List.mem_eraseDups]
    exact (hgs.map _).subset (List.mem_eraseDups.mp hkind)
  obtain ⟨e', he', heq⟩ := List.mem_map.mp hkind'
  obtain ⟨heffect, haction⟩ := Prod.mk.inj heq
  refine ⟨e', he', by rw [EffectivePermission.key, heffect, haction, ← EffectivePermission.key], ?_⟩
  rw [h.sources e he, h'.sources e' he', haction]
  exact (hgs.filter _).map _

theorem GovernanceActivity.PlayedBy.mono {a : GovernanceActivity}
    {r r' : GroupEffectivePermissions} (h : a.PlayedBy r) (hr : r.GrantedIn r') :
    a.PlayedBy r' := by
  obtain ⟨e, he, hallow, pattern, hpattern, hmeets⟩ := h
  obtain ⟨e', he', hkey, -⟩ := hr e he
  obtain ⟨heffect, haction⟩ := keyword_append_inj.mp hkey
  exact ⟨e', he', heffect.trans hallow, pattern, hpattern, haction ▸ hmeets⟩

/-- More reports fill a row further. -/
theorem ActivityRow.fillsMore {listed listed' : List (Group × GroupEffectivePermissions)}
    {names : List String} {a : GovernanceActivity} {row row' : RaciRow}
    (h : ActivityRow listed names a row) (h' : ActivityRow listed' names a row')
    (hlisted : ∀ p ∈ listed, ∃ p' ∈ listed', p'.1 = p.1 ∧ p.2.GrantedIn p'.2) :
    row.FillsMore row' := by
  have hcolumns : row'.roles.map (·.1) = row.roles.map (·.1) := h'.columns.trans h.columns.symm
  refine ⟨h'.activity.trans h.activity.symm, h'.category.trans h.category.symm,
    h'.requiredPermissions.trans h.requiredPermissions.symm, hcolumns, fun i name role hcell => ?_⟩
  have hmem : (name, some role) ∈ row.roles := List.mem_of_getElem? hcell
  have hplayed : ∃ p ∈ listed, p.1.name = name ∧ a.PlayedBy p.2 := by
    by_contra hnone
    cases (h.blank _ hmem).mpr hnone
  have hrole : some role = some a.role := (h.role _ hmem).mpr hplayed
  obtain ⟨p, hp, hname, hplays⟩ := hplayed
  obtain ⟨p', hp', hgroup, hgranted⟩ := hlisted p hp
  have hcolumn := congrArg (·[i]?) hcolumns
  simp only [List.getElem?_map, hcell, Option.map_some] at hcolumn
  obtain ⟨c, hc, hfirst⟩ := Option.map_eq_some_iff.mp hcolumn
  have hsecond : c.2 = some a.role := (h'.role c (List.mem_of_getElem? hc)).mpr
    ⟨p', hp', by rw [hgroup, hname, hfirst], hplays.mono hgranted⟩
  rw [hc, hrole, ← hsecond, ← hfirst]

/-- Rows of the same activities are filled further one by one. -/
theorem forall₂_fillsMore {listed listed' : List (Group × GroupEffectivePermissions)}
    {names : List String}
    (hlisted : ∀ p ∈ listed, ∃ p' ∈ listed', p'.1 = p.1 ∧ p.2.GrantedIn p'.2)
    {activities : List GovernanceActivity} {rows rows' : List RaciRow}
    (h : List.Forall₂ (ActivityRow listed names) activities rows)
    (h' : List.Forall₂ (ActivityRow listed' names) activities rows') :
    List.Forall₂ RaciRow.FillsMore rows rows' := by
  induction h generalizing rows' with
  | nil =>
    cases h'
    exact .nil
  | cons head _ ih =>
    obtain _ | ⟨head', tail'⟩ := h'
    exact .cons (head.fillsMore head' hlisted) (ih tail')

/-- **More grants fill a matrix further.** -/
theorem ResponsibilityChart.fillsMore {t : RaciTemplate} {groups : List Group}
    {reports reports' : List GroupEffectivePermissions} {x x' : GovernanceMatrix}
    (h : ResponsibilityChart t groups reports x) (h' : ResponsibilityChart t groups reports' x')
    (hreports : ∀ p ∈ groups.zip reports, ∃ p' ∈ groups.zip reports',
      p'.1 = p.1 ∧ p.2.GrantedIn p'.2) : x.FillsMore x' := by
  have hentities : x'.entities = x.entities := h'.entities.trans h.entities.symm
  refine ⟨h'.template.trans h.template.symm, h'.description.trans h.description.symm,
    h'.activities.trans h.activities.symm, hentities, ?_⟩
  have hrows := h'.rows
  rw [hentities] at hrows
  exact forall₂_fillsMore hreports h.rows hrows

/-! ### Directories that grant more -/

/-- The policy with some text behind its statement and a `;`. -/
def Policy.extend (p : Policy) (text : String) : Policy :=
  { p with statementQuery := some (p.statement ++ ";" ++ text) }

/-- The same policy, or the policy with more in its statement. -/
def Policy.Extends (p q : Policy) : Prop := q = p ∨ ∃ text, q = p.extend text

theorem Policy.Extends.uuid_eq {p q : Policy} (h : p.Extends q) : q.uuid = p.uuid := by
  obtain rfl | ⟨text, rfl⟩ := h
  · rfl
  · rfl

theorem Policy.Extends.name_eq {p q : Policy} (h : p.Extends q) : q.name = p.name := by
  obtain rfl | ⟨text, rfl⟩ := h
  · rfl
  · rfl

/-- **What is appended leaves what was declared.** -/
theorem Policy.Extends.parseStatement_prefix {p q : Policy} (h : p.Extends q) :
    parseStatement p.statement <+: parseStatement q.statement := by
  obtain rfl | ⟨text, rfl⟩ := h
  · exact List.prefix_refl _
  · exact ⟨_, (parseStatement_append p.statement text).symm⟩

namespace MemoryDirectory

/-- The directory with the same groups and failures, with bindings of its policies added anywhere
and with more in some of the statements. -/
structure GrantsMore (m m' : MemoryDirectory) : Prop where
  groups : m'.groups = m.groups
  failures : m'.failures = m.failures
  bindings : m.bindings.Sublist m'.bindings
  /-- Whatever is added binds a policy that there is. -/
  bound : ∀ b ∈ m'.bindings, b ∈ m.bindings ∨ ∃ p ∈ m.policies, p.uuid = b.policyUuid
  policies : List.Forall₂ Policy.Extends m.policies m'.policies

/-- A binding of a policy that there is may be added to any group. -/
theorem grantsMore_addBinding {m : MemoryDirectory} {b : Binding}
    (h : ∃ p ∈ m.policies, p.uuid = b.policyUuid) : m.GrantsMore (m.addBinding b) := by
  refine ⟨rfl, rfl, List.sublist_append_left _ _, fun c hc => ?_, ?_⟩
  · obtain hc | hc := List.mem_append.mp hc
    · exact .inl hc
    · obtain rfl := List.mem_singleton.mp hc
      obtain ⟨p, hp, huuid⟩ := h
      exact .inr ⟨p, hp, by split <;> exact huuid⟩
  · exact List.forall₂_same.mpr fun _ _ => .inl rfl

/-- What a binding grants: what its policy allows, if there is one. -/
def grantsUnder (m : MemoryDirectory) (b : Binding) : List Grant :=
  match m.policies.find? (·.uuid == b.policyUuid) with
  | none => []
  | some p => (BoundPolicy.mk b p).grants none

/-- The grants met on a walk through a group are those under its bindings. -/
theorem walkGroup_grants {m : MemoryDirectory} {g : Group} {met : List MetBinding} {n n' : Nat}
    (h : m.directory.WalkGroup g n met n') : met.flatMap (·.grants none) =
      (m.bindings.filter (·.groupUuid == g.uuid)).flatMap m.grantsUnder := by
  obtain ⟨hbindings, hfound⟩ := walkGroup_met h
  rw [← hbindings, List.flatMap_map]
  refine List.flatMap_congr fun b hb => ?_
  rw [grantsUnder, hfound b hb]
  rfl

/-- The groups whose roles a matrix shows are reported on. -/
theorem exists_collectGroup_of_call {m : MemoryDirectory} {t : RaciTemplate}
    (ht : t ∈ RaciTemplate.all) {x : GovernanceMatrix} {n n' : Nat}
    (hx : (m.directory.responsibilityMatrix t.name).call n = (.ok (.ok x), n')) {g : Group}
    (hg : g ∈ m.groups) : ∃ r s s', (m.directory.collectGroup g).call s = (.ok r, s') := by
  obtain ⟨groups, reports, n₁, hgroups, hreports, -⟩ :=
    (m.directory.responsibilityMatrix_charts ht n n').2 x hx
  obtain rfl := eq_groups_of_call hgroups
  obtain ⟨r, hr⟩ := hreports.exists_answer hg
  obtain ⟨s, s', hcall⟩ := hreports.exists_call hr
  exact ⟨r, s, s', hcall⟩

namespace GrantsMore
variable {m m' : MemoryDirectory} (h : m.GrantsMore m')
include h

/-- A policy that is found is found again, with all it declares. -/
theorem exists_find? {uuid : String} {p : Policy}
    (hp : m.policies.find? (·.uuid == uuid) = some p) :
    ∃ q, m'.policies.find? (·.uuid == uuid) = some q ∧ p.Extends q := by
  have hpolicies := h.policies
  generalize m.policies = ps at hp hpolicies
  generalize m'.policies = qs at hpolicies
  induction hpolicies with
  | nil => cases hp
  | @cons p₁ q₁ ps qs head _ ih =>
    rw [List.find?_cons] at hp ⊢
    rw [head.uuid_eq]
    cases hfound : p₁.uuid == uuid with
    | true =>
      rw [hfound] at hp
      cases hp
      exact ⟨q₁, rfl, head⟩
    | false =>
      rw [hfound] at hp
      exact ih hp

/-- **A binding grants what it granted**, and then what was appended. -/
theorem grantsUnder_sublist (b : Binding) : (m.grantsUnder b).Sublist (m'.grantsUnder b) := by
  unfold grantsUnder
  cases hfind : m.policies.find? (·.uuid == b.policyUuid) with
  | none => exact List.nil_sublist _
  | some p =>
    obtain ⟨q, hq, hpq⟩ := h.exists_find? hfind
    rw [hq]
    simp only [BoundPolicy.grants, BoundPolicy.source, BoundPolicy.permissions, hpq.name_eq]
    exact (hpq.parseStatement_prefix.sublist.filter _).map _

/-- **Reports on a group**: every entry stays, with its sources. -/
theorem grantedIn {g : Group} {r r' : GroupEffectivePermissions} {n n' k k' : Nat}
    (hr : (m.directory.collectGroup g).call n = (.ok r, n'))
    (hr' : (m'.directory.collectGroup g).call k = (.ok r', k')) : r.GrantedIn r' := by
  obtain ⟨met, hwalk, hreport⟩ := (Directory.call_collectGroup_eq_ok_iff _).mp hr
  obtain ⟨met', hwalk', hreport'⟩ := (Directory.call_collectGroup_eq_ok_iff _).mp hr'
  have hgrants : (met.flatMap (·.grants none)).Sublist (met'.flatMap (·.grants none)) := by
    rw [walkGroup_grants hwalk, walkGroup_grants hwalk']
    exact (List.Sublist.flatMap_right _ fun b _ => h.grantsUnder_sublist b).trans
      ((h.bindings.filter _).flatMap _)
  exact fun e he => hreport.grants.exists_entry hreport'.grants hgrants he

section Unfailing
variable (hfailures : m.failures = [])
include hfailures

/-- A group that can be reported on still can be: the policies of all its bindings are found. -/
theorem exists_collectGroup {g : Group} {r : GroupEffectivePermissions} {n n' : Nat}
    (hr : (m.directory.collectGroup g).call n = (.ok r, n')) (k : Nat) :
    ∃ r' k', (m'.directory.collectGroup g).call k = (.ok r', k') := by
  obtain ⟨met, hwalk, -⟩ := (Directory.call_collectGroup_eq_ok_iff _).mp hr
  obtain ⟨hmet, hfound⟩ := walkGroup_met hwalk
  have hnofailures : m'.failures = [] := h.failures.trans hfailures
  have hpolicy : ∀ b ∈ m'.bindings.filter (·.groupUuid == g.uuid),
      ∃ p, m.policies.find? (·.uuid == b.policyUuid) = some p := by
    intro b hb
    obtain ⟨hb, hgroup⟩ := List.mem_filter.mp hb
    obtain hold | hadded := h.bound b hb
    · have hmem : b ∈ met.map (·.binding) := hmet ▸ List.mem_filter.mpr ⟨hold, hgroup⟩
      obtain ⟨c, hc, rfl⟩ := List.mem_map.mp hmem
      exact ⟨c.policy, hfound c hc⟩
    · obtain ⟨p, hp, huuid⟩ := hadded
      exact Option.isSome_iff_exists.mp (List.find?_isSome.mpr ⟨p, hp, beq_iff_eq.mpr huuid⟩)
  obtain ⟨policies, k', hpolicies⟩ :=
    exists_each (f := fun b : Binding => m'.directory.policy b.policyUuid) (fun b hb t => by
      obtain ⟨p, hp⟩ := hpolicy b hb
      obtain ⟨q, hq, -⟩ := h.exists_find? hp
      exact ⟨q, t + 1, call_policy_of_find? hnofailures hq t⟩) (k + 1)
  have hlist : (m'.directory.bindingsOfGroup g.uuid).call k =
      (.ok (m'.bindings.filter (·.groupUuid == g.uuid)), k + 1) :=
    call_begin_bind hnofailures .listBindingsForGroup _ k
  exact ⟨_, k', (Directory.call_collectGroup_eq_ok_iff _).mpr
    ⟨_, ⟨_, policies, k + 1, hlist, hpolicies, rfl⟩, groupReport_mk g _⟩⟩

/-- **The matrix can be made again**, and is filled further. -/
theorem exists_responsibilityMatrix {t : RaciTemplate} (ht : t ∈ RaciTemplate.all)
    {x : GovernanceMatrix} {n n' : Nat}
    (hx : (m.directory.responsibilityMatrix t.name).call n = (.ok (.ok x), n')) (k : Nat) :
    ∃ x' k', (m'.directory.responsibilityMatrix t.name).call k = (.ok (.ok x'), k') ∧
      x.FillsMore x' := by
  obtain ⟨groups, reports, n₁, hgroups, hreports, hchart⟩ :=
    (m.directory.responsibilityMatrix_charts ht n n').2 x hx
  obtain rfl := eq_groups_of_call hgroups
  have hgroups' : m'.directory.groups.call k = (.ok m.groups, k + 1) :=
    h.groups ▸ call_begin_bind (h.failures.trans hfailures) .listGroups _ k
  obtain ⟨reports', k', hreports'⟩ := exists_each (f := m'.directory.collectGroup) (fun g hg t => by
    obtain ⟨r, s, s', hcall⟩ := exists_collectGroup_of_call ht hx hg
    exact h.exists_collectGroup hfailures hcall t) (k + 1)
  obtain ⟨x', hx', hchart'⟩ := (m'.directory.responsibilityMatrix_charts ht k k').1
    m.groups reports' (k + 1) hgroups' hreports'
  refine ⟨x', k', hx', hchart.fillsMore hchart' fun ⟨g, r⟩ hr => ?_⟩
  obtain ⟨r', hr'⟩ := hreports'.exists_answer (List.of_mem_zip hr).1
  obtain ⟨s, s', hcall⟩ := hreports.exists_call hr
  obtain ⟨t, t', hcall'⟩ := hreports'.exists_call hr'
  exact ⟨(g, r'), hr', rfl, h.grantedIn hcall hcall'⟩

end Unfailing

end GrantsMore

/-- **More grants never blank a cell.** Without calls that are set to fail, a matrix that is made
can still be made once the directory grants more: it has the same entities and activities, and every
cell with a role keeps it. Every group of the account can be reported on before and after, and each
entry of its report stays, with its sources in their order. -/
theorem responsibilityMatrix_grows {m m' : MemoryDirectory} (h : m.GrantsMore m')
    (hfailures : m.failures = []) {templateName : String} {x : GovernanceMatrix} {n : Nat}
    (hx : ((m.directory.responsibilityMatrix templateName).call n).1 = .ok (.ok x)) :
    (∃ x', (∀ k, ((m'.directory.responsibilityMatrix templateName).call k).1 = .ok (.ok x')) ∧
      x.FillsMore x') ∧
    ∀ g ∈ m.groups, ∃ r r', (∀ k, ((m.directory.collectGroup g).call k).1 = .ok r) ∧
      (∀ k, ((m'.directory.collectGroup g).call k).1 = .ok r') ∧ r.GrantedIn r' := by
  have hcall : (m.directory.responsibilityMatrix templateName).call n = (.ok (.ok x), _) :=
    Prod.ext hx rfl
  obtain ⟨t, ht, rfl⟩ := m.directory.exists_template_of_call hcall
  constructor
  · obtain ⟨x', k', hx', hfills⟩ := h.exists_responsibilityMatrix hfailures ht hcall 0
    refine ⟨x', fun k => ?_, hfills⟩
    rw [(m'.steady.alike.responsibilityMatrix t.name k 0 trivial).answer_eq, hx']
  · intro g hg
    obtain ⟨r, s, s', hr⟩ := exists_collectGroup_of_call ht hcall hg
    obtain ⟨r', k', hr'⟩ := h.exists_collectGroup hfailures hr 0
    refine ⟨r, r', fun k => ?_, fun k => ?_, h.grantedIn hr hr'⟩
    · rw [(m.steady.alike.collectGroup g k s trivial).answer_eq, hr]
    · rw [(m'.steady.alike.collectGroup g k 0 trivial).answer_eq, hr']

/-- The directory with two groups of one name, where bindings are added before, between and behind
the others, one of them to a group that does not exist, and every statement goes on with a denial,
a text that is no clause and a grant. -/
def sharedNameExtended : MemoryDirectory :=
  { sharedName with
    policies := sharedName.policies.map
      (·.extend "DENY account:*; ALLOW; account:users:read,; ALLOW account:groups:read")
    bindings := [{ policyUuid := "q", groupUuid := "g2" }, { policyUuid := "p", groupUuid := "g1" },
      { policyUuid := "p", groupUuid := "missing" }, { policyUuid := "q", groupUuid := "g3" },
      { policyUuid := "p", groupUuid := "g1", boundaries := ["x"] }] }

/-- A column without a role gets the roles of the policy that its group is now bound to. -/
theorem sharedNameExtended_grows : ∃ x x',
    sharedName.GrantsMore sharedNameExtended ∧ sharedName.failures = [] ∧
    ((sharedName.directory.responsibilityMatrix "basic").call 0).1 = .ok (.ok x) ∧
    x.rows.map (·.role? "Admins") = [none, none, none, none, none, none, none] ∧
    x'.rows.map (·.role? "Admins") = [none, none, some .accountable, some .accountable,
      some .accountable, some .consulted, some .consulted] ∧
    (∀ k, ((sharedNameExtended.directory.responsibilityMatrix "basic").call k).1 =
      .ok (.ok x')) ∧ x.FillsMore x' ∧
    ∀ g ∈ sharedName.groups, ∃ r r',
      (∀ k, ((sharedName.directory.collectGroup g).call k).1 = .ok r) ∧
      (∀ k, ((sharedNameExtended.directory.collectGroup g).call k).1 = .ok r') ∧
      r.GrantedIn r' := by
  have hmore : sharedName.GrantsMore sharedNameExtended := by
    refine ⟨rfl, rfl, by decide, by decide, ?_⟩
    exact List.forall₂_map_right_iff.mpr (List.forall₂_same.mpr fun _ _ => .inr ⟨_, rfl⟩)
  have hx : ((sharedName.directory.responsibilityMatrix "basic").call 0).1 = .ok (.ok _) := rfl
  have hx' : ((sharedNameExtended.directory.responsibilityMatrix "basic").call 0).1 =
      .ok (.ok _) := rfl
  obtain ⟨⟨x', hanswer, hfills⟩, hreports⟩ := responsibilityMatrix_grows hmore rfl hx
  obtain rfl : _ = x' := Except.ok.inj (Except.ok.inj (hx'.symm.trans (hanswer 0)))
  exact ⟨_, _, hmore, rfl, hx, by decide +kernel, by decide +kernel, hanswer, hfills, hreports⟩

end MemoryDirectory

end Entitlements
