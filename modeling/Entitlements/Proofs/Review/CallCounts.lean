import Entitlements.Proofs.Access.Spends
import Entitlements.Proofs.Directory.Memory
import Entitlements.Proofs.Review.Failures
import Entitlements.Review.Audit
import Entitlements.Review.Coverage
import Entitlements.Review.Responsibility
import Mathlib.Algebra.BigOperators.Group.List.Basic

/-! # How many calls an analysis makes

A directory in memory counts its calls. An analysis that succeeds has listed what it goes through
once, and has made one call for each thing that it met on the way, as often as it met it: for each
group its bindings, for each binding its policy or its group. What the identifier costs depends on
how it leads to the record (`spends_findUser`, `spends_findGroup`, `spends_findPolicy`).
`calls_counted` puts it together. -/

namespace Entitlements.MemoryDirectory

open Access

variable (m : MemoryDirectory)

/-- The bindings of the group with this uuid. -/
def bindingsTo (uuid : String) : List Binding := m.bindings.filter (·.groupUuid == uuid)

/-- How many bindings some groups have, a group that comes twice counted twice. -/
def bindingTotal (groups : List Group) : Nat :=
  (groups.map fun g => (m.bindingsTo g.uuid).length).sum

variable {m}

/-! ### Calls -/

theorem spends_ask (c : CachedCall) : Spends (m.directory.ask c) fun _ n => n = 1 := by
  intro n x n' h
  exact ⟨1, congrArg Prod.snd (h.symm.trans (m.call_ask c n)), rfl⟩

/-- A call whose answer is known when it succeeds. -/
theorem spends_ask_of_eq {c : CachedCall} {x : c.Answer}
    (h : ∀ {y n n'}, (m.directory.ask c).call n = (.ok y, n') → y = x) :
    Spends (m.directory.ask c) fun y n => y = x ∧ n = 1 := by
  intro n y n' hcall
  obtain ⟨k, hn, hk⟩ := spends_ask c n y n' hcall
  exact ⟨k, hn, h hcall, hk⟩

theorem spends_boundPolicies (uuid : String) :
    Spends (m.directory.boundPolicies uuid) fun _ n => n = 1 + (m.bindingsTo uuid).length := by
  have hbindings := spends_ask_of_eq (m := m) (c := .bindingsOfGroup uuid) eq_bindings_of_call
  refine hbindings.bind fun bs n h => ?_
  obtain ⟨rfl, rfl⟩ := h
  have hpolicies := Spends.mapM_one fun (b : Binding) (_ : b ∈ m.bindingsTo uuid) =>
    (spends_ask (m := m) (.policy b.policyUuid)).map (g := BoundPolicy.mk b) fun _ _ hn => hn
  exact hpolicies.mono fun _ n hn => by rw [hn]

/-- Something that needs the bound policies of each of some groups. -/
theorem spends_mapM_groups {β : Type} {f : Group → Access Nat β}
    (h : ∀ g, Spends (f g) fun _ n => n = 1 + (m.bindingsTo g.uuid).length) (groups : List Group) :
    Spends (groups.mapM f) fun _ n => n = groups.length + m.bindingTotal groups := by
  refine (Spends.mapM fun g _ => h g).mono fun _ n hn => ?_
  rw [hn, List.sum_map_add, List.map_const', List.sum_replicate_nat, Nat.mul_one]
  rfl

theorem spends_collectGroup (g : Group) :
    Spends (m.directory.collectGroup g) fun _ n => n = 1 + (m.bindingsTo g.uuid).length :=
  (spends_boundPolicies g.uuid).map fun _ _ hn => hn

theorem eq_groupsOf_of_call {uid : String} {gs : List Group} {n n' : Nat}
    (h : (m.directory.groupsOfUser uid).call n = (.ok gs, n')) : gs = m.groupsOf uid := by
  have hcall := call_of_begin .getUserGroups _ h
  split at hcall
  · exact (call_pure_eq_ok_iff.mp hcall).1.symm
  · cases hcall

/-! ### Whole listings -/

/-- Something that fetches every listed policy. -/
theorem spends_policies_bind {β γ : Type} {f : Policy → Access Nat β} {g : List Policy → List β → γ}
    (h : ∀ p, Spends (f p) fun _ n => n = 1) :
    Spends (do
      let ps ← m.directory.policies
      return g ps (← ps.mapM f)) fun _ n => n = 1 + m.policies.length := by
  have hpolicies := spends_ask_of_eq (m := m) (c := .policies) eq_policies_of_call
  refine hpolicies.bind fun ps n hps => ?_
  obtain ⟨rfl, rfl⟩ := hps
  exact (Spends.mapM_one fun p _ => h p).map fun _ n hn => by rw [hn, List.length_map]

/-- Something that needs the bound policies of every listed group. -/
theorem spends_groups_bind {β γ : Type} {f : Group → Access Nat β} {g : List β → γ}
    (h : ∀ g, Spends (f g) fun _ n => n = 1 + (m.bindingsTo g.uuid).length) :
    Spends (do return g (← (← m.directory.groups).mapM f)) fun _ n =>
      n = 1 + m.groups.length + m.bindingTotal m.groups := by
  have hgroups := spends_ask_of_eq (m := m) (c := .groups) eq_groups_of_call
  refine hgroups.bind fun gs n hgs => ?_
  obtain ⟨rfl, rfl⟩ := hgs
  exact (spends_mapM_groups h m.groups).map fun _ n hn => by rw [hn, Nat.add_assoc]

theorem spends_groupMatrix :
    Spends m.directory.groupMatrix fun _ n => n = 1 + m.groups.length + m.bindingTotal m.groups :=
  spends_groups_bind fun g => (spends_boundPolicies g.uuid).map fun _ _ hn => hn

theorem spends_policyMatrix :
    Spends m.directory.policyMatrix fun _ n => n = 1 + m.policies.length :=
  spends_policies_bind fun p => (spends_ask (.policy p.uuid)).map fun _ _ hn => hn

theorem spends_leastPrivilege :
    Spends m.directory.leastPrivilege fun _ n => n = 1 + m.policies.length :=
  spends_policies_bind fun p => (spends_ask (.policy p.uuid)).map fun _ _ hn => hn

/-- A template that exists leads through all groups. -/
theorem spends_responsibilityMatrix (templateName : String) :
    Spends (m.directory.responsibilityMatrix templateName) fun answer n =>
      ∀ x, answer = .ok x → n = 1 + m.groups.length + m.bindingTotal m.groups := by
  unfold Directory.responsibilityMatrix
  cases RaciTemplate.find? templateName with
  | none => exact (spends_pure _).mono fun _ _ h x hx => by cases h.1.symm.trans hx
  | some template =>
    have hgroups := spends_groups_bind (m := m)
      (g := fun columns => (.ok (template.fill columns) : Except UnknownTemplate GovernanceMatrix))
      fun g => (spends_collectGroup g).map (g := fun r => (g.name, r.allowedActions))
        fun _ _ hn => hn
    exact hgroups.mono fun _ n hn _ _ => hn

/-! ### Identifiers -/

theorem mem_ids_iff {α : Type} {id : α → String} {xs : List α} {i : String} :
    i ∈ xs.map id ↔ (xs.find? (id · == i)).isSome = true := by
  simp [List.find?_isSome]

section Unfailing
variable (hfailures : m.failures = [])
include hfailures

/-- A record that is asked for by its id, or the report that there is none. -/
theorem spends_orMissing {α : Type} (op : Operation) (resource id : String) (o : Option α) :
    Spends (do m.begin op; found resource id o : Access Nat α).orMissing fun y n =>
      y = o ∧ n = 1 := by
  refine spends_of_call fun c => ?_
  rw [call_orMissing, call_begin_bind hfailures]
  cases o with
  | none => rfl
  | some a => rfl

theorem spends_findGroup (i : String) : Spends (m.directory.findGroup i) fun _ n =>
    n = if i ∈ m.groups.map (·.uuid) then 1 else 2 := by
  have hid := spends_orMissing hfailures .getGroup "group" i (m.groups.find? (·.uuid == i))
  simp only [mem_ids_iff]
  refine hid.bind fun found n h => ?_
  obtain ⟨hfound, rfl⟩ := h
  rw [← hfound]
  cases found with
  | some g => exact (spends_pure _).mono fun _ n hn => by rw [hn.2]; rfl
  | none => exact (spends_ask .groups).map fun _ n hn => by rw [hn]; rfl

theorem spends_findUser (i : String) : Spends (m.directory.findUser i) fun _ n =>
    n = if '@' ∈ i.toList ∨ i ∈ m.users.map (·.uid) then 1 else 2 := by
  have hemail : Spends (m.directory.userByEmail i) fun _ n => n = 1 :=
    (spends_ask .users).map fun _ _ hn => hn
  unfold Directory.findUser
  simp only [mem_ids_iff]
  by_cases hat : '@' ∈ i.toList
  · have hi : Directory.isEmail i = true := List.contains_iff_mem.mpr hat
    rw [if_pos hi]
    exact hemail.mono fun _ n hn => by rw [hn, if_pos (.inl hat)]
  · have hi : ¬ Directory.isEmail i = true := mt List.contains_iff_mem.mp hat
    have hid := spends_orMissing hfailures .getUser "user" i (m.users.find? (·.uid == i))
    rw [if_neg hi]
    simp only [hat, false_or]
    refine hid.bind fun found n h => ?_
    obtain ⟨hfound, rfl⟩ := h
    rw [← hfound]
    cases found with
    | some u => exact (spends_pure _).mono fun _ n hn => by rw [hn.2]; rfl
    | none => exact hemail.mono fun _ n hn => by rw [hn]; rfl

/-- A policy that is found by its name is listed without its statement, and fetched. -/
theorem spends_findPolicy (i : String) : Spends (m.directory.findPolicy i) fun found n =>
    found.isSome = true → n = if i ∈ m.policies.map (·.uuid) then 1 else 3 := by
  have hid := spends_orMissing hfailures .getPolicy "policy" i (m.policies.find? (·.uuid == i))
  simp only [mem_ids_iff]
  refine hid.bind fun found n h => ?_
  obtain ⟨hfound, rfl⟩ := h
  rw [← hfound]
  cases found with
  | some p => exact (spends_pure _).mono fun _ n hn _ => by rw [hn.2]; rfl
  | none =>
    have hnamed : Spends (m.directory.policyByName i) fun found n =>
        (∀ p, found = some p → p.statementQuery = none) ∧ n = 1 := by
      have hpolicies := spends_ask_of_eq (m := m) (c := .policies) eq_policies_of_call
      refine hpolicies.map fun ps n h => ⟨fun p hp => ?_, h.2⟩
      obtain ⟨p', -, rfl⟩ := List.mem_map.mp (h.1 ▸ List.mem_of_find?_eq_some hp)
      rfl
    refine hnamed.bind fun listed n h => ?_
    obtain ⟨hlisted, rfl⟩ := h
    cases listed with
    | none => exact (spends_pure _).mono fun _ n hn hsome => by rw [hn.1] at hsome; cases hsome
    | some p =>
      have hstatement : p.statementQuery.isNone = true := by rw [hlisted p rfl]; rfl
      simp only [hstatement, if_true]
      exact (spends_ask (.policy p.uuid)).map fun _ n hn _ => by rw [hn]; rfl

/-! ### Reports -/

theorem spends_resolveGroup (i : String) : Spends (m.directory.resolveGroup i) fun outcome n =>
    ∀ r, outcome = .found r → n = (if i ∈ m.groups.map (·.uuid) then 1 else 2) + 1 +
      (m.bindingsTo r.group.uuid).length := by
  refine (spends_findGroup hfailures i).bind fun found n hn => ?_
  rw [hn]
  cases found with
  | none => exact (spends_pure _).mono fun _ _ h r hr => by cases h.1.symm.trans hr
  | some g =>
    have hcollect : Spends (m.directory.collectGroup g) fun r n =>
        r.group = g.ref ∧ n = 1 + (m.bindingsTo g.uuid).length :=
      (spends_boundPolicies g.uuid).map fun _ _ hn => ⟨rfl, hn⟩
    refine hcollect.map fun r k hk r' hr' => ?_
    cases hr'
    rw [hk.1, hk.2, Nat.add_assoc]
    rfl

theorem spends_resolveUser (i : String) : Spends (m.directory.resolveUser i) fun outcome n =>
    ∀ r, outcome = .found r →
      n = (if '@' ∈ i.toList ∨ i ∈ m.users.map (·.uid) then 1 else 2) + 1 +
        (m.groupsOf r.user.uid).length + m.bindingTotal (m.groupsOf r.user.uid) := by
  refine (spends_findUser hfailures i).bind fun found n hn => ?_
  rw [hn]
  cases found with
  | none => exact (spends_pure _).mono fun _ _ h r hr => by cases h.1.symm.trans hr
  | some u =>
    have hgroups := spends_ask_of_eq (m := m) (c := .groupsOfUser u.uid) eq_groupsOf_of_call
    refine hgroups.bind fun gs n h => ?_
    obtain ⟨rfl, rfl⟩ := h
    have hbound := spends_mapM_groups (m := m) (f := fun g => do
        return (g, ← m.directory.boundPolicies g.uuid))
      (fun g => (spends_boundPolicies g.uuid).map fun _ _ hn => hn) (m.groupsOf u.uid)
    refine hbound.map fun bound k hk r hr => ?_
    cases hr
    rw [hk, ← Nat.add_assoc, ← Nat.add_assoc]
    rfl

theorem spends_analyzePolicy (i : String) : Spends (m.directory.analyzePolicy i) fun outcome n =>
    ∀ r, outcome = .found r → n = (if i ∈ m.policies.map (·.uuid) then 1 else 3) + 1 +
      (m.bindings.filter (·.policyUuid == r.policy.uuid)).length := by
  refine (spends_findPolicy hfailures i).bind fun found n hn => ?_
  cases found with
  | none => exact (spends_pure _).mono fun _ _ h r hr => by cases h.1.symm.trans hr
  | some p =>
    rw [hn rfl]
    have hbindings := spends_ask_of_eq (m := m) (c := .bindings) eq_listedBindings_of_call
    refine hbindings.bind fun bs n h => ?_
    obtain ⟨rfl, rfl⟩ := h
    have hgroup : ∀ b, Spends (m.directory.boundGroup? b) fun _ n => n = 1 := fun b => by
      have hid := spends_orMissing hfailures .getGroup "group" b.groupUuid
        (m.groups.find? (·.uuid == b.groupUuid))
      refine hid.bind fun found n h => ?_
      obtain ⟨-, rfl⟩ := h
      cases found with
      | some g => exact (spends_pure _).mono fun _ k hk => by rw [hk.2]
      | none => exact (spends_pure _).mono fun _ k hk => by rw [hk.2]
    refine (Spends.mapM_one fun b _ => hgroup b).map fun shown k hk r hr => ?_
    cases hr
    rw [hk, Nat.add_assoc]
    rfl

end Unfailing

/-- **An analysis makes a call for each thing it meets, and no other.** When no call is set to fail,
what succeeds has made exactly so many calls. A matrix of the groups, and one of responsibilities by
a template that exists, lists the groups and asks for the bindings of each group and the policy of
each binding; a matrix or an audit of the policies lists them and asks for each. A report on a user
or a group makes one call or two to find it, and an analysis of a policy one or three. The user's
groups are listed, and their bindings are gone through as often as a group comes. Every binding of
the policy leads to a group, also where there is none. A template that does not exist makes no
call. -/
theorem calls_counted (m : MemoryDirectory) (hfailures : m.failures = []) :
    (Spends m.directory.groupMatrix fun _ n =>
      n = 1 + m.groups.length + m.bindingTotal m.groups) ∧
    (∀ t, (Spends (m.directory.responsibilityMatrix t) fun answer n => ∀ x, answer = .ok x →
        n = 1 + m.groups.length + m.bindingTotal m.groups) ∧
      (t ∉ RaciTemplate.all.map (·.name) → ∀ c, (m.directory.responsibilityMatrix t).call c =
        (.ok (.error ⟨t, RaciTemplate.all.map (·.name)⟩), c))) ∧
    (Spends m.directory.policyMatrix fun _ n => n = 1 + m.policies.length) ∧
    (Spends m.directory.leastPrivilege fun _ n => n = 1 + m.policies.length) ∧
    ∀ i,
      (Spends (m.directory.resolveUser i) fun outcome n => ∀ r, outcome = .found r →
        n = (if '@' ∈ i.toList ∨ i ∈ m.users.map (·.uid) then 1 else 2) + 1 +
          (m.groupsOf r.user.uid).length + m.bindingTotal (m.groupsOf r.user.uid)) ∧
      (Spends (m.directory.resolveGroup i) fun outcome n => ∀ r, outcome = .found r →
        n = (if i ∈ m.groups.map (·.uuid) then 1 else 2) + 1 +
          (m.bindingsTo r.group.uuid).length) ∧
      Spends (m.directory.analyzePolicy i) fun outcome n => ∀ r, outcome = .found r →
        n = (if i ∈ m.policies.map (·.uuid) then 1 else 3) + 1 +
          (m.bindings.filter (·.policyUuid == r.policy.uuid)).length := by
  refine ⟨spends_groupMatrix, fun t => ⟨spends_responsibilityMatrix t, fun ht c => ?_⟩,
    spends_policyMatrix, spends_leastPrivilege, fun i => ⟨spends_resolveUser hfailures i,
      spends_resolveGroup hfailures i, spends_analyzePolicy hfailures i⟩⟩
  have hnone : RaciTemplate.find? t = none := by
    rw [mem_ids_iff, Bool.not_eq_true, Option.isSome_eq_false_iff, Option.isNone_iff_eq_none] at ht
    exact ht
  unfold Directory.responsibilityMatrix
  rw [hnone]
  rfl

/-- A user who is twice in a group that is twice bound to a policy; the policy is bound to a group
that does not exist as well. -/
def repeats : MemoryDirectory where
  account := "account"
  groups := [⟨"g", "Ops", none, none⟩, ⟨"h", "Ops", none, none⟩]
  users := [⟨"u", "u@acme", none, none⟩]
  policies := [⟨"p", "Reader", none, some "ALLOW a"⟩]
  bindings := [{ policyUuid := "p", groupUuid := "g" }, { policyUuid := "p", groupUuid := "g" },
    { policyUuid := "p", groupUuid := "missing" }]
  memberships := [("u", "g"), ("u", "g"), ("u", "missing")]

/-- All repetitions count. -/
theorem repeats_counted : repeats.failures = [] ∧
    (∃ x, repeats.directory.groupMatrix.call 0 = (.ok x, 5)) ∧
    (∃ r, (repeats.directory.resolveUser "U@acme").call 5 = (.ok (.found r), 13)) ∧
    (∃ r, (repeats.directory.analyzePolicy "Reader").call 13 = (.ok (.found r), 20)) := by
  obtain ⟨hmatrix, -, -, -, hreports⟩ := repeats.calls_counted rfl
  refine ⟨rfl, ?_, ?_, ?_⟩
  · obtain ⟨x, c, hx⟩ : ∃ x c, repeats.directory.groupMatrix.call 0 = (.ok x, c) := ⟨_, _, rfl⟩
    obtain ⟨n, rfl, rfl⟩ := hmatrix 0 x c hx
    exact ⟨x, hx⟩
  · obtain ⟨r, c, hr, hu⟩ : ∃ r c, (repeats.directory.resolveUser "U@acme").call 5 =
        (.ok (.found r), c) ∧ r.user = ⟨"u", "u@acme"⟩ := ⟨_, _, rfl, rfl⟩
    obtain ⟨n, rfl, hn⟩ := (hreports "U@acme").1 5 _ c hr
    obtain rfl : n = 8 := by
      rw [hn r rfl, hu]
      decide
    exact ⟨r, hr⟩
  · obtain ⟨r, c, hr, hp⟩ : ∃ r c, (repeats.directory.analyzePolicy "Reader").call 13 =
        (.ok (.found r), c) ∧ r.policy.uuid = "p" := ⟨_, _, rfl, rfl⟩
    obtain ⟨n, rfl, hn⟩ := (hreports "Reader").2.2 13 _ c hr
    obtain rfl : n = 7 := by
      rw [hn r rfl, hp]
      decide
    exact ⟨r, hr⟩

end Entitlements.MemoryDirectory
