import Entitlements.Proofs.Directory.Calls

/-! # Recorded directories

A directory that writes down every call with its answer (`Directory.recorded`). It answers like the
directory that it records. `lastAnswer?` reads the last answer to a call off the records. -/

namespace Entitlements

/-- A call that a directory was asked, and its answer. -/
inductive Record where
  | kept (c : CachedCall) (answer : Except Failure c.Answer)
  | page (query : EffectivePermissionsQuery) (page size : Nat)
      (answer : Except Failure EffectivePermissionsPage)

/-- `a`, with its answer written down. -/
def Access.recorded {σ α : Type} (a : Access σ α) (record : Except Failure α → Record) :
    Access (σ × List Record) α := fun s =>
  match a.call s.1 with
  | (answer, inner) => (answer, inner, s.2 ++ [record answer])

/-- `d`, with every call written down. -/
def Directory.recorded {σ : Type} (d : Directory σ) : Directory (σ × List Record) where
  account := d.account
  groups := d.groups.recorded (.kept .groups)
  group uuid := (d.group uuid).recorded (.kept (.group uuid))
  users := d.users.recorded (.kept .users)
  user uid := (d.user uid).recorded (.kept (.user uid))
  groupsOfUser uid := (d.groupsOfUser uid).recorded (.kept (.groupsOfUser uid))
  bindings := d.bindings.recorded (.kept .bindings)
  bindingsOfGroup uuid := (d.bindingsOfGroup uuid).recorded (.kept (.bindingsOfGroup uuid))
  policies := d.policies.recorded (.kept .policies)
  policy uuid := (d.policy uuid).recorded (.kept (.policy uuid))
  effectivePermissions query page size :=
    (d.effectivePermissions query page size).recorded (.page query page size)

theorem Directory.ask_recorded {σ : Type} (d : Directory σ) (c : CachedCall) :
    d.recorded.ask c = (d.ask c).recorded (.kept c) := by
  cases c <;> rfl

theorem Access.call_recorded {σ α : Type} (a : Access σ α) (record : Except Failure α → Record)
    (s : σ) (log : List Record) : (a.recorded record).call (s, log) =
      ((a.call s).1, (a.call s).2, log ++ [record (a.call s).1]) := rfl

theorem Access.call_recorded_eq {σ α : Type} {a : Access σ α} {record : Except Failure α → Record}
    {s s' : σ × List Record} {answer : Except Failure α}
    (h : (a.recorded record).call s = (answer, s')) :
    answer = (a.call s.1).1 ∧ s' = ((a.call s.1).2, s.2 ++ [record answer]) := by
  rw [show s = (s.1, s.2) from rfl, call_recorded] at h
  cases h
  exact ⟨rfl, rfl⟩

/-! ### The last answer -/

/-- The answer to `c` that a record shows. -/
def Record.answerTo? (c : CachedCall) : Record → Option (Except Failure c.Answer)
  | kept c' answer => if h : c' = c then some (h ▸ answer) else none
  | page .. => none

/-- The answer that was given last when `c` was asked. -/
def lastAnswer? (c : CachedCall) (log : List Record) : Option (Except Failure c.Answer) :=
  (log.filterMap (Record.answerTo? c)).getLast?

theorem lastAnswer?_append_kept (c : CachedCall) (log : List Record)
    (answer : Except Failure c.Answer) : lastAnswer? c (log ++ [.kept c answer]) = some answer := by
  simp [lastAnswer?, Record.answerTo?]

theorem lastAnswer?_append_of_not_mem {c : CachedCall} (log : List Record) {new : List Record}
    (h : ∀ answer, .kept c answer ∉ new) : lastAnswer? c (log ++ new) = lastAnswer? c log := by
  have hnew : new.filterMap (Record.answerTo? c) = [] := by
    refine List.filterMap_eq_nil_iff.mpr fun r hr => ?_
    cases r with
    | kept c' answer =>
      refine dif_neg ?_
      rintro rfl
      exact h answer hr
    | page => rfl
  rw [lastAnswer?, List.filterMap_append, hnew, List.append_nil, lastAnswer?]

end Entitlements
