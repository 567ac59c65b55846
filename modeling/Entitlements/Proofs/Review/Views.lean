import Entitlements.Proofs.Directory.Memory
import Entitlements.Proofs.Grants.Exactness
import Entitlements.Proofs.Review.Failures

/-! # A binding seen from its policy and from its group

A binding is reported twice: an analysed policy shows it among the groups that the policy is bound
to, and its group among the policies that are bound to it. `ViewsAgree` says that both reports show
the same bindings of the one to the other, and that what the policy allows is granted to the group
with the boundaries of these bindings. In a directory in memory the two views agree for every policy
and every group, and every grant is explained by a policy
(`MemoryDirectory.policy_view_agrees`). -/

namespace Entitlements

open Access

/-- A report on a policy and one on a group agree on the bindings between the two. -/
structure ViewsAgree (a : PolicyAnalysis) (g : Group) (r : GroupEffectivePermissions) : Prop where
  /-- The policy shows the group for each of its bindings to it, in order. -/
  bindings : a.bindings.filter (·.uuid == g.uuid) =
    (r.bindings.filter (·.policyUuid == a.policy.uuid)).map fun b => ⟨g.uuid, g.name, b.boundary⟩
  /-- What the policy allows comes from it, under the boundaries of each of these bindings. -/
  grants : ∀ b ∈ a.bindings, b.uuid = g.uuid → ∀ p ∈ a.permissions, p.effect = .allow →
    ∃ e ∈ r.effectivePermissions, e.effect = .allow ∧ e.action = p.action ∧
      ⟨none, a.policy.name, b.boundary⟩ ∈ e.sources

/-- The sources of an action are those of the grants of this action. -/
theorem ExactGrants.mem_sources_iff {es : List EffectivePermission} {gs : List Grant}
    (h : ExactGrants es gs) {action : String} {s : PermissionSource} :
    (∃ e ∈ es, e.action = action ∧ s ∈ e.sources) ↔
      ∃ g ∈ gs, g.statement.action = action ∧ g.source = s := by
  constructor
  · rintro ⟨e, he, rfl, hs⟩
    rw [h.sources e he] at hs
    obtain ⟨g, hg, hsource⟩ := List.mem_map.mp hs
    obtain ⟨hg, haction⟩ := List.mem_filter.mp hg
    exact ⟨g, hg, of_decide_eq_true haction, hsource⟩
  · rintro ⟨g, hg, rfl, rfl⟩
    have hkind : g.kind ∈ es.map (·.kind) := by
      rw [h.kinds, List.mem_eraseDups]
      exact List.mem_map_of_mem hg
    obtain ⟨e, he, hkind⟩ := List.mem_map.mp hkind
    have haction : e.action = g.statement.action := congrArg Prod.snd hkind
    refine ⟨e, he, haction, ?_⟩
    rw [h.sources e he]
    exact List.mem_map_of_mem (List.mem_filter.mpr ⟨hg, decide_eq_true haction.symm⟩)

namespace MemoryDirectory

variable {m : MemoryDirectory}

/-! ### The view of a group -/

/-- A walk through a group meets its bindings, each with the policy that is found. -/
theorem walkGroup_met {g : Group} {met : List MetBinding} {n n' : Nat}
    (h : m.directory.WalkGroup g n met n') :
    met.map (·.binding) = m.bindings.filter (·.groupUuid == g.uuid) ∧
      ∀ b ∈ met, m.policies.find? (·.uuid == b.binding.policyUuid) = some b.policy := by
  obtain ⟨bindings, policies, n₁, hbindings, hpolicies, rfl⟩ := h
  rw [← eq_bindings_of_call hbindings, ← List.map_uncurry_zip_eq_zipWith]
  constructor
  · rw [List.map_map]
    exact List.map_fst_zip (Nat.le_of_eq hpolicies.length_eq)
  · intro b hb
    obtain ⟨⟨binding, policy⟩, hzip, rfl⟩ := List.mem_map.mp hb
    obtain ⟨t, t', hcall⟩ := hpolicies.exists_call hzip
    exact find?_policies_of_call hcall

/-- **The sources of an action** are the bindings of the group to policies that allow it. -/
theorem mem_sources_iff {g : Group} {r : GroupEffectivePermissions} {n n' : Nat}
    (h : (m.directory.collectGroup g).call n = (.ok r, n')) {action : String}
    {s : PermissionSource} : (∃ e ∈ r.effectivePermissions, e.action = action ∧ s ∈ e.sources) ↔
      ∃ b ∈ r.bindings, ∃ policy, m.policies.find? (·.uuid == b.policyUuid) = some policy ∧
        (∃ p ∈ parseStatement policy.statement, p.effect = .allow ∧ p.action = action) ∧
        s = ⟨none, policy.name, b.boundary⟩ := by
  obtain ⟨met, hwalk, hreport⟩ := (Directory.call_collectGroup_eq_ok_iff _).mp h
  obtain ⟨-, hfound⟩ := walkGroup_met hwalk
  rw [hreport.grants.mem_sources_iff, hreport.bindings]
  constructor
  · rintro ⟨grant, hgrant, rfl, rfl⟩
    obtain ⟨b, hb, hgrant⟩ := List.mem_flatMap.mp hgrant
    obtain ⟨p, hp, rfl⟩ := List.mem_map.mp hgrant
    obtain ⟨hp, hallow⟩ := List.mem_filter.mp hp
    exact ⟨b.binding, List.mem_map_of_mem hb, b.policy, hfound b hb,
      ⟨p, hp, Effect.isAllow_iff.mp hallow, rfl⟩, rfl⟩
  · rintro ⟨_, hb, policy, hpolicy, ⟨p, hp, hallow, rfl⟩, rfl⟩
    obtain ⟨b, hmet, rfl⟩ := List.mem_map.mp hb
    obtain rfl : b.policy = policy := Option.some.inj ((hfound b hmet).symm.trans hpolicy)
    have hgrant : Grant.mk p ⟨none, b.policy.name, b.binding.boundary⟩ ∈ b.grants none :=
      List.mem_map_of_mem (List.mem_filter.mpr ⟨hp, Effect.isAllow_iff.mpr hallow⟩)
    exact ⟨_, List.mem_flatMap.mpr ⟨b, hmet, hgrant⟩, rfl, rfl⟩

/-! ### The view of a policy -/

/-- A group that exists is shown for each binding to it. -/
theorem filter_showsGroups {q : String} {g : Group}
    (hgroup : ∀ n, (m.directory.group q).call n = (.ok g, n + 1)) {bs : List Binding}
    {shown : List BoundGroup} {n n' : Nat} (h : m.directory.ShowsGroups n bs shown n') :
    shown.filter (·.uuid == q) =
      (bs.filter (·.groupUuid == q)).map fun b => ⟨q, g.name, b.boundary⟩ := by
  induction h with
  | nil => rfl
  | @found b bs g' shown n n₁ n₂ head _ ih =>
    by_cases hb : b.groupUuid = q
    · subst hb
      rw [hgroup n] at head
      cases head
      simp [ih]
    · simp [hb, ih]
  | @missing b bs shown n n₁ n₂ head _ ih =>
    by_cases hb : b.groupUuid = q
    · subst hb
      obtain ⟨e, -, hmissing⟩ := head
      cases (hgroup n).symm.trans hmissing
    · simp [hb, ih]

section Unfailing
variable (hfailures : m.failures = [])
include hfailures

theorem call_policy (uuid : String) (n : Nat) : (m.directory.policy uuid).call n =
    (found "policy" uuid (m.policies.find? (·.uuid == uuid))).call (n + 1) :=
  call_begin_bind hfailures .getPolicy _ n

theorem call_group (uuid : String) (n : Nat) : (m.directory.group uuid).call n =
    (found "group" uuid (m.groups.find? (·.uuid == uuid))).call (n + 1) :=
  call_begin_bind hfailures .getGroup _ n

theorem call_policy_of_find? {uuid : String} {policy : Policy}
    (h : m.policies.find? (·.uuid == uuid) = some policy) (n : Nat) :
    (m.directory.policy uuid).call n = (.ok policy, n + 1) := by
  rw [call_policy hfailures, h]
  rfl

/-- What an identifier finds is the policy under its uuid, with its statement. -/
theorem find?_of_findPolicy {identifier : String} {policy : Policy} {n n' : Nat}
    (h : (m.directory.findPolicy identifier).call n = (.ok (some policy), n')) :
    m.policies.find? (·.uuid == policy.uuid) = some policy ∧
      ((∃ p ∈ m.policies, p.uuid = identifier) → policy.uuid = identifier) := by
  have huuid : ∀ {uuid : String} {p : Policy}, m.policies.find? (·.uuid == uuid) = some p →
      p.uuid = uuid := fun hfind => by simpa using List.find?_some hfind
  rcases Directory.call_orMissing_bind_eq_ok_iff.mp h with
    ⟨p, n₁, hlookup, hreturn⟩ | ⟨n₁, ⟨e, -, hmissing⟩, hscan⟩
  · cases (call_pure_eq_ok_iff.mp hreturn).1
    have hfind := find?_policies_of_call hlookup
    have hid := huuid hfind
    exact ⟨by rw [hid, hfind], fun _ => hid⟩
  · constructor
    · -- A policy that is found by its name is listed without its statement, and fetched.
      obtain ⟨found, n₂, hbyName, hfetch⟩ := call_bind_eq_ok_iff.mp hscan
      obtain ⟨listed, hlisted, hnamed⟩ := call_map_eq_ok_iff.mp hbyName
      rw [eq_policies_of_call hlisted] at hnamed
      cases found with
      | none => cases (call_pure_eq_ok_iff.mp hfetch).1
      | some p =>
        obtain ⟨p₀, -, rfl⟩ := List.mem_map.mp (List.mem_of_find?_eq_some hnamed)
        obtain ⟨policy', hpolicy, heq⟩ := call_map_eq_ok_iff.mp hfetch
        cases heq
        have hfind := find?_policies_of_call hpolicy
        rw [huuid hfind, hfind]
    · rintro ⟨p, hp, rfl⟩
      obtain ⟨p', hfind⟩ : ∃ p', m.policies.find? (·.uuid == p.uuid) = some p' :=
        Option.isSome_iff_exists.mp (List.find?_isSome.mpr ⟨p, hp, by simp⟩)
      cases (call_policy_of_find? hfailures hfind n).symm.trans hmissing

/-- The groups of any bindings can be shown. -/
theorem exists_showsGroups (bs : List Binding) (n : Nat) :
    ∃ shown n', m.directory.ShowsGroups n bs shown n' := by
  induction bs generalizing n with
  | nil => exact ⟨[], n, .nil n⟩
  | cons b bs ih =>
    obtain ⟨shown, n', htail⟩ := ih (n + 1)
    have hcall := call_group hfailures b.groupUuid n
    cases hfind : m.groups.find? (·.uuid == b.groupUuid) with
    | none =>
      rw [hfind] at hcall
      exact ⟨shown, n', .missing ⟨_, rfl, hcall⟩ htail⟩
    | some g =>
      rw [hfind] at hcall
      exact ⟨_, n', .found hcall htail⟩

/-- Every policy can be analysed. -/
theorem exists_analysis {uuid : String} {policy : Policy}
    (h : m.policies.find? (·.uuid == uuid) = some policy) (n : Nat) :
    ∃ shown n', (m.directory.analyzePolicy uuid).call n =
      (.ok (.found (.ofBindings policy shown)), n') := by
  obtain ⟨shown, n', hshown⟩ := exists_showsGroups hfailures
    (m.bindings.filter (·.policyUuid == policy.uuid)) (n + 1 + 1)
  refine ⟨shown, n', Directory.call_analyzePolicy_eq_found_iff.mpr
    ⟨policy, m.bindings, shown, n + 1, n + 1 + 1, ?_, ?_, hshown, rfl⟩⟩
  · exact Directory.call_orMissing_bind_eq_ok_iff.mpr
      (.inl ⟨policy, n + 1, call_policy_of_find? hfailures h n, rfl⟩)
  · exact call_begin_bind hfailures .listBindings (fun _ => pure m.bindings) (n + 1)

end Unfailing

/-! ### Both views -/

section Both
variable {q : String} {g : Group} {r : GroupEffectivePermissions} {n n' k k' l l' : Nat}
  (hgroup : (m.directory.group q).call n = (.ok g, n'))
  (hcollect : (m.directory.collectGroup g).call k = (.ok r, k'))
include hgroup hcollect

/-- **The bindings of an analysed policy to a group**, as both reports show them. -/
theorem bindings_of_analysis {identifier : String} {a : PolicyAnalysis}
    (h : (m.directory.analyzePolicy identifier).call l = (.ok (.found a), l')) :
    a.bindings.filter (·.uuid == g.uuid) =
      (r.bindings.filter (·.policyUuid == a.policy.uuid)).map
        fun b => ⟨g.uuid, g.name, b.boundary⟩ := by
  have hanswer : m.answer (.group q) = .ok g :=
    congrArg Prod.fst ((m.call_ask (.group q) n).symm.trans hgroup)
  have hq : g.uuid = q := by simpa using List.find?_some (find?_groups_of_call hgroup)
  obtain ⟨policy, bindings, shown, l₁, l₂, hfind, hbindings, hshown, rfl⟩ :=
    Directory.call_analyzePolicy_eq_found_iff.mp h
  obtain ⟨met, hwalk, hreport⟩ := (Directory.call_collectGroup_eq_ok_iff _).mp hcollect
  have hmet : r.bindings = m.bindings.filter (·.groupUuid == q) := by
    rw [hreport.bindings, (walkGroup_met hwalk).1, hq]
  have hshows := filter_showsGroups (fun n => hanswer ▸ m.call_ask (.group q) n) hshown
  rw [eq_listedBindings_of_call hbindings] at hshows
  show shown.filter _ = (r.bindings.filter (·.policyUuid == policy.uuid)).map _
  rw [hq, hmet, hshows, List.filter_filter, List.filter_filter]
  simp only [Bool.and_comm]

theorem viewsAgree (hfailures : m.failures = []) {identifier : String} {a : PolicyAnalysis}
    (h : (m.directory.analyzePolicy identifier).call l = (.ok (.found a), l')) :
    ViewsAgree a g r := by
  have hbindings := bindings_of_analysis hgroup hcollect h
  refine ⟨hbindings, fun b hb hg p hp hallow => ?_⟩
  -- The group shows the binding as well, and its policy is the one that is analysed.
  have hmem : b ∈ a.bindings.filter (·.uuid == g.uuid) :=
    List.mem_filter.mpr ⟨hb, beq_iff_eq.mpr hg⟩
  rw [hbindings] at hmem
  obtain ⟨binding, hshared, rfl⟩ := List.mem_map.mp hmem
  obtain ⟨hbinding, huuid⟩ := List.mem_filter.mp hshared
  obtain ⟨policy, _, _, _, _, hfind, _, _, rfl⟩ :=
    Directory.call_analyzePolicy_eq_found_iff.mp h
  have hpolicy := (find?_of_findPolicy hfailures hfind).1
  rw [← show binding.policyUuid = policy.uuid from beq_iff_eq.mp huuid] at hpolicy
  obtain ⟨e, he, haction, hsource⟩ := (mem_sources_iff hcollect).mpr
    ⟨binding, hbinding, policy, hpolicy, ⟨p, hp, hallow, rfl⟩, rfl⟩
  obtain ⟨met, -, hreport⟩ := (Directory.call_collectGroup_eq_ok_iff _).mp hcollect
  exact ⟨e, he, hreport.grants.allowed e he, haction, hsource⟩

end Both

/-- **The views of a policy and of a group agree.** Without calls that are set to fail, the report
on any policy and that on any group show the same bindings between the two, and the group is granted
what the policy allows under each of them. Every source of a grant of the group is such a binding of
a policy that can be analysed. -/
theorem policy_view_agrees (m : MemoryDirectory) (hfailures : m.failures = []) {q : String}
    {g : Group} {r : GroupEffectivePermissions} {n n' k k' : Nat}
    (hgroup : (m.directory.group q).call n = (.ok g, n'))
    (hcollect : (m.directory.collectGroup g).call k = (.ok r, k')) :
    g.uuid = q ∧
    (∀ identifier a l l', (m.directory.analyzePolicy identifier).call l = (.ok (.found a), l') →
      ((∃ p ∈ m.policies, p.uuid = identifier) → a.policy.uuid = identifier) ∧
        ViewsAgree a g r) ∧
    ∀ e ∈ r.effectivePermissions, ∀ s ∈ e.sources, ∃ b ∈ r.bindings, ∀ l, ∃ a l',
      (m.directory.analyzePolicy b.policyUuid).call l = (.ok (.found a), l') ∧
        a.policy.uuid = b.policyUuid ∧ ⟨q, g.name, b.boundary⟩ ∈ a.bindings ∧
        s = ⟨none, a.policy.name, b.boundary⟩ ∧
        ∃ p ∈ a.permissions, p.effect = .allow ∧ p.action = e.action := by
  have hq : g.uuid = q := by simpa using List.find?_some (find?_groups_of_call hgroup)
  refine ⟨hq, fun identifier a l l' h => ⟨fun hp => ?_, viewsAgree hgroup hcollect hfailures h⟩,
    fun e he s hs => ?_⟩
  · obtain ⟨policy, _, _, _, _, hfind, _, _, rfl⟩ :=
      Directory.call_analyzePolicy_eq_found_iff.mp h
    exact (find?_of_findPolicy hfailures hfind).2 hp
  · obtain ⟨b, hb, policy, hpolicy, hallows, rfl⟩ :=
      (mem_sources_iff hcollect).mp ⟨e, he, rfl, hs⟩
    have huuid : policy.uuid = b.policyUuid := by simpa using List.find?_some hpolicy
    refine ⟨b, hb, fun l => ?_⟩
    obtain ⟨shown, l', hanalysis⟩ := exists_analysis hfailures hpolicy l
    refine ⟨_, l', hanalysis, huuid, ?_, rfl, hallows⟩
    have hshown : (⟨g.uuid, g.name, b.boundary⟩ : BoundGroup) ∈
        shown.filter (·.uuid == g.uuid) := by
      rw [show shown.filter _ = _ from
        bindings_of_analysis hgroup hcollect hanalysis]
      exact List.mem_map_of_mem (List.mem_filter.mpr ⟨hb, beq_iff_eq.mpr huuid.symm⟩)
    rw [← hq]
    exact (List.mem_filter.mp hshown).1

/-- A policy that is bound twice to one group, once within boundaries, and once to a group that
does not exist; another policy and another group of the same uuids stand behind the ones that are
found. -/
def boundTwice : MemoryDirectory where
  account := "account"
  groups := [⟨"g", "Ops", none, none⟩, ⟨"g", "Others", none, none⟩]
  policies := [⟨"p", "Reader", none, some "ALLOW a, b; DENY c"⟩,
    ⟨"p", "Hidden", none, some "ALLOW d"⟩, ⟨"r", "Writer", none, some "ALLOW b WHERE x = 1"⟩]
  bindings := [{ policyUuid := "p", groupUuid := "g", boundaries := ["x", "y"] },
    { policyUuid := "p", groupUuid := "missing" }, { policyUuid := "r", groupUuid := "g" },
    { policyUuid := "p", groupUuid := "g" }]

/-- Both reports show the policy's two bindings to the group; one action comes from both
policies. -/
theorem boundTwice_agrees : ∃ g r a,
    boundTwice.failures = [] ∧ (boundTwice.directory.group "g").call 0 = (.ok g, 1) ∧
    (boundTwice.directory.collectGroup g).call 1 = (.ok r, 5) ∧
    (boundTwice.directory.analyzePolicy "p").call 5 = (.ok (.found a), 10) ∧
    a.bindings = [⟨"g", "Ops", some "x, y"⟩, ⟨"g", "Ops", none⟩] ∧
    r.effectivePermissions.map (·.sources) =
      [[⟨none, "Reader", some "x, y"⟩, ⟨none, "Reader", none⟩],
        [⟨none, "Reader", some "x, y"⟩, ⟨none, "Writer", none⟩, ⟨none, "Reader", none⟩]] ∧
    a.policy.uuid = "p" ∧ ViewsAgree a g r ∧
    ∀ e ∈ r.effectivePermissions, ∀ s ∈ e.sources, ∃ b ∈ r.bindings, ∀ l, ∃ a l',
      (boundTwice.directory.analyzePolicy b.policyUuid).call l = (.ok (.found a), l') ∧
        a.policy.uuid = b.policyUuid ∧ ⟨"g", g.name, b.boundary⟩ ∈ a.bindings ∧
        s = ⟨none, a.policy.name, b.boundary⟩ ∧
        ∃ p ∈ a.permissions, p.effect = .allow ∧ p.action = e.action := by
  have hgroup : (boundTwice.directory.group "g").call 0 = (.ok _, 1) := rfl
  have hcollect : (boundTwice.directory.collectGroup ⟨"g", "Ops", none, none⟩).call 1 =
    (.ok _, 5) := rfl
  have hanalysis : (boundTwice.directory.analyzePolicy "p").call 5 = (.ok (.found _), 10) := rfl
  obtain ⟨-, hviews, hsources⟩ := boundTwice.policy_view_agrees rfl hgroup hcollect
  obtain ⟨huuid, hagree⟩ := hviews "p" _ 5 10 hanalysis
  exact ⟨_, _, _, rfl, hgroup, hcollect, hanalysis, by decide +kernel, by decide +kernel,
    huuid ⟨_, List.mem_cons_self, rfl⟩, hagree, hsources⟩

end MemoryDirectory

end Entitlements
