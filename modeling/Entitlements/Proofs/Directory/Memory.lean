import Entitlements.Directory.Memory
import Entitlements.Proofs.Access.Each
import Entitlements.Proofs.Directory.Calls

/-! # Answers from memory

A directory in memory counts its calls, and answers a call in the same way each time
(`MemoryDirectory.answer`, `MemoryDirectory.call_ask`). A call that succeeds gives what is at
hand. -/

namespace Entitlements.MemoryDirectory

open Access

variable (m : MemoryDirectory)

/-- A call that is counted and gives the same answer each time. -/
def Counted {α : Type} (a : Access Nat α) (answer : Except Failure α) : Prop :=
  ∀ n, a.call n = (answer, n + 1)

theorem counted_begin (op : Operation) : ∃ answer, Counted (m.begin op) answer := by
  unfold begin
  cases hfail : m.failures.lookup op with
  | none => exact ⟨_, fun n => rfl⟩
  | some status => exact ⟨_, fun n => rfl⟩

theorem Counted.bind {α β : Type} {a : Access Nat α} {answer : Except Failure α}
    (h : Counted a answer) {f : α → Access Nat β}
    (hf : ∀ x, ∃ answer', ∀ n, (f x).call n = (answer', n)) :
    ∃ answer', Counted (a >>= f) answer' := by
  cases answer with
  | error e => exact ⟨.error e, fun n => by rw [call_bind, h n]⟩
  | ok x =>
    obtain ⟨answer', hx⟩ := hf x
    exact ⟨answer', fun n => by rw [call_bind, h n, ← hx (n + 1)]⟩

theorem exists_call_found {α : Type} (resource id : String) (o : Option α) :
    ∃ answer, ∀ n, (found resource id o).call n = (answer, n) := by
  cases o with
  | none => exact ⟨_, fun n => rfl⟩
  | some a => exact ⟨_, fun n => rfl⟩

theorem exists_counted_ask (c : CachedCall) : ∃ answer, Counted (m.directory.ask c) answer := by
  cases c with
  | groups =>
    obtain ⟨answer, h⟩ := m.counted_begin .listGroups
    exact h.bind fun _ => ⟨_, fun n => rfl⟩
  | group uuid =>
    obtain ⟨answer, h⟩ := m.counted_begin .getGroup
    exact h.bind fun _ => exists_call_found _ _ _
  | users =>
    obtain ⟨answer, h⟩ := m.counted_begin .listUsers
    exact h.bind fun _ => ⟨_, fun n => rfl⟩
  | user uid =>
    obtain ⟨answer, h⟩ := m.counted_begin .getUser
    exact h.bind fun _ => exists_call_found _ _ _
  | groupsOfUser uid =>
    obtain ⟨answer, h⟩ := m.counted_begin .getUserGroups
    refine h.bind fun _ => ?_
    split
    · exact ⟨_, fun n => rfl⟩
    · exact ⟨_, fun n => rfl⟩
  | bindings =>
    obtain ⟨answer, h⟩ := m.counted_begin .listBindings
    exact h.bind fun _ => ⟨_, fun n => rfl⟩
  | bindingsOfGroup uuid =>
    obtain ⟨answer, h⟩ := m.counted_begin .listBindingsForGroup
    exact h.bind fun _ => ⟨_, fun n => rfl⟩
  | policies =>
    obtain ⟨answer, h⟩ := m.counted_begin .listPolicies
    exact h.bind fun _ => ⟨_, fun n => rfl⟩
  | policy uuid =>
    obtain ⟨answer, h⟩ := m.counted_begin .getPolicy
    exact h.bind fun _ => exists_call_found _ _ _

theorem exists_counted_page (query : EffectivePermissionsQuery) (page size : Nat) :
    ∃ answer, Counted (m.directory.effectivePermissions query page size) answer := by
  obtain ⟨answer, h⟩ := m.counted_begin .getEffectivePermissions
  refine h.bind fun _ => ?_
  split
  · exact ⟨_, fun n => rfl⟩
  · exact ⟨_, fun n => rfl⟩

/-- What a call is always answered. -/
def answer (c : CachedCall) : Except Failure c.Answer := ((m.directory.ask c).call 0).1

theorem call_ask (c : CachedCall) (n : Nat) :
    (m.directory.ask c).call n = (m.answer c, n + 1) := by
  obtain ⟨answer, h⟩ := m.exists_counted_ask c
  rw [MemoryDirectory.answer, h 0, h n]

/-- What the call for a page is always answered. -/
def pageAnswer (query : EffectivePermissionsQuery) (page size : Nat) :
    Except Failure EffectivePermissionsPage :=
  ((m.directory.effectivePermissions query page size).call 0).1

theorem call_page (query : EffectivePermissionsQuery) (page size n : Nat) :
    (m.directory.effectivePermissions query page size).call n =
      (m.pageAnswer query page size, n + 1) := by
  obtain ⟨answer, h⟩ := m.exists_counted_page query page size
  rw [pageAnswer, h 0, h n]

/-! ### Calls that succeed -/

section Succeed
variable {m}

/-- A call of an operation that is not set to fail is counted, and goes on. -/
theorem call_begin (hfailures : m.failures = []) (op : Operation) (n : Nat) :
    (m.begin op).call n = (.ok (), n + 1) := by
  rw [begin, hfailures]
  rfl

theorem call_begin_bind {α : Type} (hfailures : m.failures = []) (op : Operation)
    (f : Unit → Access Nat α) (n : Nat) : (m.begin op >>= f).call n = (f ()).call (n + 1) := by
  rw [call_bind, call_begin hfailures]

/-- A call that succeeds gives what it gives once it is counted. -/
theorem call_of_begin {α : Type} (op : Operation) (f : Unit → Access Nat α) {x : α} {n n' : Nat}
    (h : (m.begin op >>= f).call n = (.ok x, n')) : (f ()).call (n + 1) = (.ok x, n') := by
  obtain ⟨answer, hbegin⟩ := m.counted_begin op
  obtain ⟨⟨⟩, n₁, hcall, hf⟩ := call_bind_eq_ok_iff.mp h
  rw [hbegin n] at hcall
  cases hcall
  exact hf

/-- A listing that succeeds. -/
theorem eq_of_begin {α : Type} (op : Operation) {x y : α} {n n' : Nat}
    (h : (do m.begin op; return x : Access Nat α).call n = (.ok y, n')) : y = x :=
  (call_pure_eq_ok_iff.mp (call_of_begin op (fun _ => pure x) h)).1.symm

theorem eq_groups_of_call {gs : List Group} {n n' : Nat}
    (h : m.directory.groups.call n = (.ok gs, n')) : gs = m.groups :=
  eq_of_begin .listGroups h

theorem eq_policies_of_call {ps : List Policy} {n n' : Nat}
    (h : m.directory.policies.call n = (.ok ps, n')) :
    ps = m.policies.map Policy.withoutStatement :=
  eq_of_begin .listPolicies h

theorem eq_bindings_of_call {uuid : String} {bs : List Binding} {n n' : Nat}
    (h : (m.directory.bindingsOfGroup uuid).call n = (.ok bs, n')) :
    bs = m.bindings.filter (·.groupUuid == uuid) :=
  eq_of_begin .listBindingsForGroup h

theorem eq_listedBindings_of_call {bs : List Binding} {n n' : Nat}
    (h : m.directory.bindings.call n = (.ok bs, n')) : bs = m.bindings :=
  eq_of_begin .listBindings h

/-- A lookup that succeeds. -/
theorem eq_some_of_found {α : Type} {resource id : String} {o : Option α} {x : α} {n n' : Nat}
    (h : (found resource id o).call n = (.ok x, n')) : o = some x := by
  cases o with
  | none => cases h
  | some y => exact congrArg some (call_pure_eq_ok_iff.mp h).1

theorem find?_policies_of_call {uuid : String} {p : Policy} {n n' : Nat}
    (h : (m.directory.policy uuid).call n = (.ok p, n')) :
    m.policies.find? (·.uuid == uuid) = some p :=
  eq_some_of_found (call_of_begin .getPolicy _ h)

theorem find?_groups_of_call {uuid : String} {g : Group} {n n' : Nat}
    (h : (m.directory.group uuid).call n = (.ok g, n')) :
    m.groups.find? (·.uuid == uuid) = some g :=
  eq_some_of_found (call_of_begin .getGroup _ h)

end Succeed

/-- A directory with one group and nothing else. -/
def oneGroup : MemoryDirectory := { account := "account", groups := [⟨"g", "Group", none, none⟩] }

end Entitlements.MemoryDirectory
