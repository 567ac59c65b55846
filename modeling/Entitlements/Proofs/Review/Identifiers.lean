import Entitlements.Proofs.Access.Always
import Entitlements.Proofs.Pages.Collection
import Entitlements.Proofs.Review.Views
import Entitlements.Proofs.Text.LowerCase
import Mathlib.Data.List.Nodup

/-! # What an identifier stands for

An identifier can be the id of one record and the name or email of others. `Finds` says which record
it stands for: the one with this id, else the first listed one of this name. In a directory in
memory every analysis reports on this record (`ReportsOn`), and the platform is asked about the same
id (`MemoryDirectory.PlatformAsks`); an analysis fails only where a binding that it meets names a
policy that does not exist (`MemoryDirectory.identifiers_resolve`). -/

namespace Entitlements

open Access

/-! ### The record of an identifier -/

/-- What is found among records: the one with the id, else the first one of the name, else
nothing. -/
inductive Finds {α : Type} (hasId hasName : α → Prop) (records : List α) : Option α → Prop
  | byId {a : α} (mem : a ∈ records) (id : hasId a) (only : ∀ b ∈ records, hasId b → b = a) :
      Finds hasId hasName records (some a)
  | byName {a : α} {before after : List α} (noId : ∀ b ∈ records, ¬ hasId b)
      (split : records = before ++ a :: after) (name : hasName a)
      (first : ∀ b ∈ before, ¬ hasName b) : Finds hasId hasName records (some a)
  | nothing (noId : ∀ b ∈ records, ¬ hasId b) (noName : ∀ b ∈ records, ¬ hasName b) :
      Finds hasId hasName records none

/-- A search by ids, no two of which are equal, and then by names. -/
theorem finds_find? {α : Type} {hasId hasName : α → Prop} {p q : α → Bool} {records : List α}
    (hp : ∀ a, p a = true ↔ hasId a) (hq : ∀ a, q a = true ↔ hasName a)
    (hid : ∀ a ∈ records, ∀ b ∈ records, hasId a → hasId b → b = a) :
    Finds hasId hasName records ((records.find? p).or (records.find? q)) := by
  cases hfirst : records.find? p with
  | some a =>
    have ha : hasId a := (hp a).mp (List.find?_some hfirst)
    have hmem := List.mem_of_find?_eq_some hfirst
    exact .byId hmem ha fun b hb => hid a hmem b hb ha
  | none =>
    have hnoId : ∀ b ∈ records, ¬ hasId b := fun b hb h =>
      List.find?_eq_none.mp hfirst b hb ((hp b).mpr h)
    cases hsecond : records.find? q with
    | some a =>
      obtain ⟨hname, before, after, hsplit, hbefore⟩ :=
        List.find?_eq_some_iff_append.mp hsecond
      refine .byName hnoId hsplit ((hq a).mp hname) fun b hb h => ?_
      have hfalse := hbefore b hb
      rw [(hq b).mpr h] at hfalse
      cases hfalse
    | none => exact .nothing hnoId fun b hb h => List.find?_eq_none.mp hsecond b hb ((hq b).mpr h)

section DistinctIds
variable {α : Type} {id : α → String} {records : List α} (h : (records.map id).Nodup)
include h

/-- Records with the same id are equal when no id occurs twice. -/
theorem eq_of_nodup_ids {i : String} : ∀ a ∈ records, ∀ b ∈ records,
    id a = i → id b = i → b = a := fun _ ha _ hb hai hbi =>
  List.inj_on_of_nodup_map h hb ha (hbi.trans hai.symm)

/-- A record is found by its id. -/
theorem find?_of_nodup_ids {a : α} (ha : a ∈ records) :
    records.find? (id · == id a) = some a := by
  obtain ⟨b, hb⟩ : ∃ b, records.find? (id · == id a) = some b :=
    Option.isSome_iff_exists.mp (List.find?_isSome.mpr ⟨a, ha, beq_self_eq_true _⟩)
  have hid : id b = id a := by simpa using List.find?_some hb
  rw [hb, eq_of_nodup_ids h a ha b (List.mem_of_find?_eq_some hb) rfl hid]

end DistinctIds

/-- An analysis reports on what is found: nothing is a soft failure, and a record has a report about
it unless there is a reason to fail. -/
structure ReportsOn {α β : Type} (find : Access Nat (Option α)) (analysis : Access Nat (Outcome β))
    (kind identifier : String) (about : α → β → Prop) (reason : α → Failure → Prop)
    (found : Option α) : Prop where
  lookup : Always find (.ok found)
  missing : found = none → Always analysis (.ok (.notFound kind identifier))
  report : ∀ a, found = some a → (∀ e, ¬ reason a e) →
    ∃ r, Always analysis (.ok (.found r)) ∧ about a r
  stopped : ∀ a, found = some a → (∃ e, reason a e) → ∃ e, reason a e ∧ Always analysis (.error e)

/-- An analysis that looks for its record first. -/
theorem ReportsOn.of_find {α β : Type} {find : Access Nat (Option α)}
    {f : Option α → Access Nat (Outcome β)} {kind identifier : String} {about : α → β → Prop}
    {reason : α → Failure → Prop} {found : Option α} (hfind : Always find (.ok found))
    (hnone : f none = pure (.notFound kind identifier))
    (hsome : ∀ a, found = some a →
      (∃ r, Always (f (some a)) (.ok (.found r)) ∧ about a r) ∧ (∀ e, ¬ reason a e) ∨
        ∃ e, reason a e ∧ Always (f (some a)) (.error e)) :
    ReportsOn find (find >>= f) kind identifier about reason found where
  lookup := hfind
  missing := by
    rintro rfl
    refine hfind.bind ?_
    rw [hnone]
    exact always_pure _
  report := by
    rintro a rfl hno
    rcases hsome a rfl with ⟨⟨r, hr, habout⟩, -⟩ | ⟨e, he, -⟩
    · exact ⟨r, hfind.bind hr, habout⟩
    · exact absurd he (hno e)
  stopped := by
    rintro a rfl ⟨e, he⟩
    rcases hsome a rfl with ⟨-, hno⟩ | ⟨e', he', herror⟩
    · exact absurd he (hno e)
    · exact ⟨e', he', hfind.bind herror⟩

namespace MemoryDirectory

variable (m : MemoryDirectory)

/-- The failure of a binding of the group to a policy that does not exist. -/
def LacksPolicy (groupUuid : String) (e : Failure) : Prop :=
  ∃ b ∈ m.bindings, b.groupUuid = groupUuid ∧ (∀ p ∈ m.policies, p.uuid ≠ b.policyUuid) ∧
    e = .error (.notFound "policy" b.policyUuid)

/-- The platform is asked about the entity with this id, or not at all when there is none. -/
structure PlatformAsks (entityType : EntityType) (identifier : String) (entityId : Option String) :
    Prop where
  lookup : Always (m.directory.canonicalId entityType identifier) (.ok entityId)
  missing : entityId = none → ∀ request : ResolveRequest, request.entityType = entityType →
    request.entityId = identifier →
      Always (m.directory.resolve request) (.ok (.notFound entityType.title identifier))
  /-- The answer is the one to the query about this id, whose failures are outcomes. -/
  asks : ∀ id, entityId = some id → ∀ request : ResolveRequest, request.entityType = entityType →
    request.entityId = identifier → ∀ s, ∃ s', (m.directory.resolve request).call s =
      (do
        let answer ← (m.directory.resolveQuery (request.query m.account id)
          request.allPages).reported
        return Outcome.ofExcept answer : Access Nat (Outcome EffectivePermissionsReport)).call s'

variable {m}

/-- Whatever the identifier of an entity stands for, the platform is asked about it. -/
theorem PlatformAsks.of_lookup {entityType : EntityType} {identifier : String}
    {entityId : Option String}
    (h : Always (m.directory.canonicalId entityType identifier) (.ok entityId)) :
    m.PlatformAsks entityType identifier entityId where
  lookup := h
  missing := by
    rintro rfl request rfl rfl
    exact h.reported.bind (always_pure _)
  asks := by
    rintro id rfl request rfl rfl s
    obtain ⟨s', hcall⟩ := h.reported.exists_call s
    exact ⟨s', by rw [Directory.resolve, call_bind, hcall]; rfl⟩

section Unfailing
variable (hfailures : m.failures = [])
include hfailures

/-! ### What the calls answer -/

theorem always_list {α : Type} (op : Operation) (xs : List α) :
    Always (do m.begin op; return xs) (.ok xs) := fun n => by
  rw [call_begin_bind hfailures]
  rfl

theorem always_found {α : Type} (op : Operation) (resource id : String) (a : α) :
    Always (do m.begin op; found resource id (some a)) (.ok a) := fun n => by
  rw [call_begin_bind hfailures]
  rfl

theorem always_notFound {α : Type} (op : Operation) (resource id : String) :
    Always (do m.begin op; found resource id (none : Option α))
      (.error (.error (.notFound resource id))) := fun n => by
  rw [call_begin_bind hfailures]
  rfl

theorem always_orMissing {α : Type} (op : Operation) (resource id : String) (o : Option α) :
    Always (do m.begin op; found resource id o : Access Nat α).orMissing (.ok o) := by
  cases o with
  | some a => exact (always_found hfailures op resource id a).orMissing
  | none => exact (always_notFound hfailures op resource id).orMissing_notFound rfl

/-! ### What is found -/

theorem always_findGroup (i : String) : Always (m.directory.findGroup i)
    (.ok ((m.groups.find? (·.uuid == i)).or (m.groups.find? (·.name == i)))) := by
  refine (always_orMissing hfailures .getGroup "group" i _).bind ?_
  cases m.groups.find? (·.uuid == i) with
  | some g => exact always_pure _
  | none => exact (always_list hfailures .listGroups m.groups).map _

theorem always_userByEmail (i : String) :
    Always (m.directory.userByEmail i) (.ok (m.users.find? (sameLetters ·.email i))) :=
  (always_list hfailures .listUsers m.users).map _

theorem always_findUser (i : String) : Always (m.directory.findUser i)
    (.ok ((m.users.find? fun u => !Directory.isEmail i && u.uid == i).or
      (m.users.find? (sameLetters ·.email i)))) := by
  unfold Directory.findUser
  split
  · next hemail =>
    have hnone : (m.users.find? fun u => !Directory.isEmail i && u.uid == i) = none := by
      simp [hemail]
    rw [hnone]
    exact always_userByEmail hfailures i
  · next hemail =>
    have huid : (m.users.find? fun u => !Directory.isEmail i && u.uid == i) =
        m.users.find? (·.uid == i) := by simp [hemail]
    rw [huid]
    refine (always_orMissing hfailures .getUser "user" i _).bind ?_
    cases m.users.find? (·.uid == i) with
    | some u => exact always_pure _
    | none => exact always_userByEmail hfailures i

/-- A policy that is found by its name is listed without its statement; it is fetched, and its uuid
leads back to the record that was listed. -/
theorem always_findPolicy (hpolicies : (m.policies.map (·.uuid)).Nodup) (i : String) :
    Always (m.directory.findPolicy i)
      (.ok ((m.policies.find? (·.uuid == i)).or (m.policies.find? (·.name == i)))) := by
  refine (always_orMissing hfailures .getPolicy "policy" i _).bind ?_
  cases m.policies.find? (·.uuid == i) with
  | some p => exact always_pure _
  | none =>
    have hlisted : Always (m.directory.policyByName i)
        (.ok ((m.policies.find? (·.name == i)).map Policy.withoutStatement)) := by
      have hmap : (m.policies.map Policy.withoutStatement).find? (·.name == i) =
          (m.policies.find? (·.name == i)).map Policy.withoutStatement := List.find?_map
      rw [← hmap]
      exact (always_list hfailures .listPolicies _).map _
    refine hlisted.bind ?_
    cases hnamed : m.policies.find? (·.name == i) with
    | none => exact always_pure _
    | some p =>
      have hfetched := find?_of_nodup_ids hpolicies (List.mem_of_find?_eq_some hnamed)
      have hpolicy : Always (m.directory.policy p.uuid) (.ok p) := fun n =>
        congrArg Prod.fst (call_policy_of_find? hfailures hfetched n)
      exact hpolicy.map some

/-! ### What is reported -/

/-- A policy can be fetched unless it does not exist. -/
theorem okUnless_policy (uuid : String) :
    OkUnless (fun e => (∀ p ∈ m.policies, p.uuid ≠ uuid) ∧ e = .error (.notFound "policy" uuid))
      (m.directory.policy uuid) := by
  cases hfind : m.policies.find? (·.uuid == uuid) with
  | some p =>
    have huuid : p.uuid = uuid := by simpa using List.find?_some hfind
    refine .inl ⟨⟨p, fun n => ?_⟩, fun _ h => h.1 p (List.mem_of_find?_eq_some hfind) huuid⟩
    exact congrArg Prod.fst (call_policy_of_find? hfailures hfind n)
  | none =>
    refine .inr ⟨_, ⟨by simpa using hfind, rfl⟩, fun n => ?_⟩
    rw [call_policy hfailures, hfind]
    rfl

theorem okUnless_boundPolicies (uuid : String) :
    OkUnless (m.LacksPolicy uuid) (m.directory.boundPolicies uuid) := by
  have hbindings : Always (m.directory.bindingsOfGroup uuid)
      (.ok (m.bindings.filter (·.groupUuid == uuid))) :=
    always_list hfailures .listBindingsForGroup _
  refine hbindings.bind_okUnless (OkUnless.mapM fun b _ =>
    (okUnless_policy hfailures b.policyUuid).map (BoundPolicy.mk b)) |>.congr fun e => ?_
  simp [LacksPolicy, and_assoc]

theorem always_groupsOfUser {u : User} (hu : u ∈ m.users) :
    Always (m.directory.groupsOfUser u.uid) (.ok (m.groupsOf u.uid)) := by
  have hany : m.users.any (·.uid == u.uid) = true := List.any_eq_true.mpr ⟨u, hu, by simp⟩
  have hcall : m.directory.groupsOfUser u.uid =
    (do
      m.begin .getUserGroups
      if m.users.any (·.uid == u.uid) then return m.groupsOf u.uid
      else .fail (.notFound "user" u.uid)) := rfl
  rw [hcall, hany]
  exact always_list hfailures .getUserGroups (m.groupsOf u.uid)

/-- A binding to a group that does not exist is passed over. -/
theorem okUnless_boundGroup? (b : Binding) :
    OkUnless (fun _ => False) (m.directory.boundGroup? b) := by
  refine Always.bind_okUnless (always_orMissing hfailures .getGroup "group" b.groupUuid _) ?_
  cases m.groups.find? (·.uuid == b.groupUuid) with
  | some g => exact .inl ⟨⟨_, always_pure _⟩, fun _ => id⟩
  | none => exact .inl ⟨⟨_, always_pure _⟩, fun _ => id⟩

theorem reportsOn_group {i : String} {found : Option Group}
    (hfind : Always (m.directory.findGroup i) (.ok found)) :
    ReportsOn (m.directory.findGroup i) (m.directory.resolveGroup i) "Group" i
      (fun g r => r.group = g.ref) (fun g => m.LacksPolicy g.uuid) found := by
  refine .of_find hfind rfl fun g _ => ?_
  rcases okUnless_boundPolicies hfailures g.uuid with ⟨⟨bs, hbs⟩, hno⟩ | ⟨e, he, herror⟩
  · exact .inl ⟨⟨.ofBindings g bs, (hbs.map _).map _, rfl⟩, hno⟩
  · exact .inr ⟨e, he, (herror.bind_error _).bind_error _⟩

theorem reportsOn_user {i : String} {found : Option User}
    (hfind : Always (m.directory.findUser i) (.ok found))
    (hmem : ∀ u, found = some u → u ∈ m.users) :
    ReportsOn (m.directory.findUser i) (m.directory.resolveUser i) "User" i
      (fun u r => r.user = u.ref) (fun u e => ∃ g ∈ m.groupsOf u.uid, m.LacksPolicy g.uuid e)
      found := by
  refine .of_find hfind rfl fun u hu => ?_
  have hgroups := always_groupsOfUser hfailures (hmem u hu)
  have hbound := OkUnless.mapM fun (g : Group) (_ : g ∈ m.groupsOf u.uid) =>
    (okUnless_boundPolicies hfailures g.uuid).map (Prod.mk g)
  rcases hbound with ⟨⟨bs, hbs⟩, hno⟩ | ⟨e, he, herror⟩
  · exact .inl ⟨⟨.ofGroups u bs, hgroups.bind (hbs.map _), rfl⟩, hno⟩
  · exact .inr ⟨e, he, hgroups.bind (herror.bind_error _)⟩

theorem reportsOn_policy {i : String} {found : Option Policy}
    (hfind : Always (m.directory.findPolicy i) (.ok found)) :
    ReportsOn (m.directory.findPolicy i) (m.directory.analyzePolicy i) "Policy" i
      (fun p r => r.policy = p.summary) (fun _ _ => False) found := by
  refine .of_find hfind rfl fun p _ => ?_
  have hbindings : Always m.directory.bindings (.ok m.bindings) :=
    always_list hfailures .listBindings m.bindings
  let bound := m.bindings.filter (·.policyUuid == p.uuid)
  have hshown := OkUnless.mapM fun (b : Binding) (_ : b ∈ bound) => okUnless_boundGroup? hfailures b
  rcases hshown with ⟨⟨shown, hshown⟩, -⟩ | ⟨e, ⟨_, _, hfalse⟩, _⟩
  · exact .inl ⟨⟨.ofBindings p (shown.filterMap id), hbindings.bind (hshown.map _), rfl⟩,
      fun _ => id⟩
  · exact hfalse.elim

end Unfailing

end MemoryDirectory

/-! ### Emails -/

namespace Directory

theorem isEmail_eq_true_iff {i : String} : isEmail i = true ↔ '@' ∈ i.toList :=
  List.contains_iff_mem

theorem isEmail_congr {i j : String} (h : sameLetters i j = true) : isEmail i = isEmail j := by
  have hmem : ∀ s : String, '@' ∈ s.toList ↔ '@' ∈ s.toList.map Char.toLower := fun s => by
    simp [toLower_eq_iff (x := '@') (by decide)]
  rw [Bool.eq_iff_iff, isEmail_eq_true_iff, isEmail_eq_true_iff, hmem, hmem, beq_iff_eq.mp h]

variable {σ : Type} (d : Directory σ)

/-- **Emails that differ in the case of their letters only** stand for the same user. -/
theorem findUser_congr {i j : String} (hi : '@' ∈ i.toList) (h : sameLetters i j = true) :
    d.findUser j = d.findUser i ∧ d.canonicalId .user j = d.canonicalId .user i := by
  have hsame : ∀ u : User, sameLetters u.email j = sameLetters u.email i := fun u => by
    unfold sameLetters
    rw [beq_iff_eq.mp h]
  have hemail : d.userByEmail j = d.userByEmail i := by
    unfold userByEmail
    simp only [hsame]
  have hi : isEmail i = true := isEmail_eq_true_iff.mpr hi
  have hj : isEmail j = true := (isEmail_congr h).symm.trans hi
  unfold findUser canonicalId
  simp only [hi, hj, hemail, if_true, and_self]

end Directory

/-! ### All identifiers -/

namespace MemoryDirectory

/-- **What an identifier stands for**, without calls that are set to fail and with distinct ids: the
record with this id, even if another one has this name, else the first one of this name. An `@`
makes it an email, whatever the uids are. Every analysis reports on this record, or fails because of
a binding to a policy that does not exist; the platform is asked about the same group, and about the
same user where the identifier is an email. The case of the letters of an email is nothing to go
by. -/
theorem identifiers_resolve (m : MemoryDirectory) (hfailures : m.failures = [])
    (hgroups : (m.groups.map (·.uuid)).Nodup) (husers : (m.users.map (·.uid)).Nodup)
    (hpolicies : (m.policies.map (·.uuid)).Nodup) (i : String) :
    (∃ found, Finds (·.uuid = i) (·.name = i) m.groups found ∧
      ReportsOn (m.directory.findGroup i) (m.directory.resolveGroup i) "Group" i
        (fun g r => r.group = g.ref) (fun g => m.LacksPolicy g.uuid) found ∧
      m.PlatformAsks .group i (found.map (·.uuid))) ∧
    (∃ found, Finds (·.uuid = i) (·.name = i) m.policies found ∧
      ReportsOn (m.directory.findPolicy i) (m.directory.analyzePolicy i) "Policy" i
        (fun p r => r.policy = p.summary) (fun _ _ => False) found) ∧
    (∃ found, Finds (fun u => '@' ∉ i.toList ∧ u.uid = i) (sameLetters ·.email i = true)
        m.users found ∧
      ReportsOn (m.directory.findUser i) (m.directory.resolveUser i) "User" i
        (fun u r => r.user = u.ref) (fun u e => ∃ g ∈ m.groupsOf u.uid, m.LacksPolicy g.uuid e)
        found ∧
      ('@' ∈ i.toList → m.PlatformAsks .user i (found.map (·.uid)))) ∧
    ∀ j, '@' ∈ i.toList → sameLetters i j = true →
      m.directory.findUser j = m.directory.findUser i ∧
        m.directory.canonicalId .user j = m.directory.canonicalId .user i := by
  have hgroup := always_findGroup hfailures i
  have hpolicy := always_findPolicy hfailures hpolicies i
  have huser := always_findUser hfailures i
  refine ⟨⟨_, ?_, reportsOn_group hfailures hgroup, .of_lookup (hgroup.map _)⟩,
    ⟨_, ?_, reportsOn_policy hfailures hpolicy⟩, ⟨_, ?_, reportsOn_user hfailures huser ?_, ?_⟩,
    fun j => m.directory.findUser_congr⟩
  · exact finds_find? (fun _ => beq_iff_eq) (fun _ => beq_iff_eq) (eq_of_nodup_ids hgroups)
  · exact finds_find? (fun _ => beq_iff_eq) (fun _ => beq_iff_eq) (eq_of_nodup_ids hpolicies)
  · refine finds_find? (fun u => ?_) (fun _ => Iff.rfl) fun u hu v hv hui hvi =>
      eq_of_nodup_ids husers u hu v hv hui.2 hvi.2
    rw [Bool.and_eq_true, Bool.not_eq_true', beq_iff_eq, ← Bool.not_eq_true,
      Directory.isEmail_eq_true_iff]
  · intro u hu
    rcases Option.or_eq_some_iff.mp hu with h | ⟨-, h⟩
    · exact List.mem_of_find?_eq_some h
    · exact List.mem_of_find?_eq_some h
  · intro hemail
    refine .of_lookup ?_
    have hi := Directory.isEmail_eq_true_iff.mpr hemail
    unfold Directory.findUser at huser
    unfold Directory.canonicalId
    simp only [hi, if_true] at huser ⊢
    exact huser.map _

/-- Records whose ids and names shadow one another. -/
def shadowing : MemoryDirectory where
  account := "account"
  groups := [⟨"g", "ops@acme", none, none⟩, ⟨"ops@acme", "Ops", none, none⟩]
  users := [⟨"ops@acme", "other@acme", none, none⟩, ⟨"u", "Ops@Acme", none, none⟩]
  policies := [⟨"p", "Reader", none, some "ALLOW a"⟩, ⟨"r", "ops@acme", none, some "ALLOW b"⟩]
  bindings := [{ policyUuid := "p", groupUuid := "ops@acme" }]
  memberships := [("u", "ops@acme")]

/-- The group goes by its uuid, the policy by its name and the user by the email. -/
theorem shadowing_identifiers : shadowing.failures = [] ∧
    (∃ r, Always (shadowing.directory.resolveGroup "ops@acme") (.ok (.found r)) ∧
      r.group = ⟨"ops@acme", "Ops"⟩) ∧
    shadowing.PlatformAsks .group "ops@acme" (some "ops@acme") ∧
    (∃ r, Always (shadowing.directory.analyzePolicy "ops@acme") (.ok (.found r)) ∧
      r.policy = ⟨"r", "ops@acme", "", "ALLOW b"⟩) ∧
    (∃ r, Always (shadowing.directory.resolveUser "ops@acme") (.ok (.found r)) ∧
      r.user = ⟨"u", "Ops@Acme"⟩) ∧
    shadowing.PlatformAsks .user "ops@acme" (some "u") ∧
    shadowing.directory.findUser "OPS@acme" = shadowing.directory.findUser "ops@acme" := by
  obtain ⟨⟨g, -, hgroup, hasksGroup⟩, ⟨p, -, hpolicy⟩, ⟨u, -, huser, hasksUser⟩, hemails⟩ :=
    shadowing.identifiers_resolve rfl (by decide) (by decide) (by decide) "ops@acme"
  have hg : g = some ⟨"ops@acme", "Ops", none, none⟩ := (Except.ok.inj (hgroup.lookup 0)).symm
  have hp : p = some ⟨"r", "ops@acme", none, some "ALLOW b"⟩ :=
    (Except.ok.inj (hpolicy.lookup 0)).symm
  have hu : u = some ⟨"u", "Ops@Acme", none, none⟩ := (Except.ok.inj (huser.lookup 0)).symm
  subst hg hp hu
  have hlacks : ∀ q e, ¬ shadowing.LacksPolicy q e := by
    rintro q e ⟨b, hb, -, hmissing, -⟩
    obtain rfl := List.mem_singleton.mp hb
    exact hmissing _ List.mem_cons_self rfl
  exact ⟨rfl, hgroup.report _ rfl (hlacks _), hasksGroup, hpolicy.report _ rfl fun _ => id,
    huser.report _ rfl fun e ⟨g, _, he⟩ => hlacks g.uuid e he, hasksUser (by decide),
    (hemails "OPS@acme" (by decide) (by decide)).1⟩

/-- A group that is bound to a policy that does not exist. -/
def dangling : MemoryDirectory where
  account := "account"
  groups := [⟨"g", "Ops", none, none⟩]
  bindings := [{ policyUuid := "p", groupUuid := "g" }]

/-- The group is found, but there is no outcome of any kind for it. -/
theorem dangling_has_no_outcome : dangling.failures = [] ∧
    (dangling.groups.map (·.uuid)).Nodup ∧ (dangling.users.map (·.uid)).Nodup ∧
    (dangling.policies.map (·.uuid)).Nodup ∧
    Always (dangling.directory.findGroup "g") (.ok (some ⟨"g", "Ops", none, none⟩)) ∧
    ∀ s outcome s', (dangling.directory.resolveGroup "g").call s ≠ (.ok outcome, s') := by
  refine ⟨rfl, by decide, by decide, by decide, fun _ => rfl, fun s outcome s' h => ?_⟩
  have hcall : (dangling.directory.resolveGroup "g").call s =
    (.error (.error (.notFound "policy" "p")), s + 3) := rfl
  rw [hcall] at h
  cases h

end MemoryDirectory

end Entitlements
