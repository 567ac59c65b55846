import Entitlements.Proofs.Access.FirstFailure

/-! # Answers that do not depend on the state

Calls that are answered in the same way on every state (`Access.Always`), as those on a directory in
memory are. What is put together from such calls is one of them: a chain of calls gives the answer
of the last one or the first failure, and calls for the items of a list all succeed or end with the
failure of one item (`Access.OkUnless.mapM`). -/

namespace Entitlements.Access

variable {σ α β : Type}

/-- Whatever the state, this is the answer. -/
def Always (a : Access σ α) (answer : Except Failure α) : Prop := ∀ s, (a.call s).1 = answer

theorem always_pure (x : α) : Always (pure x : Access σ α) (.ok x) := fun _ => rfl

theorem Always.exists_call {a : Access σ α} {answer : Except Failure α} (ha : Always a answer)
    (s : σ) : ∃ s', a.call s = (answer, s') :=
  ⟨(a.call s).2, Prod.ext (ha s) rfl⟩

section Steps
variable {a : Access σ α} {x : α}

theorem Always.bind {f : α → Access σ β} {answer : Except Failure β} (ha : Always a (.ok x))
    (hf : Always (f x) answer) : Always (a >>= f) answer := by
  intro s
  obtain ⟨s', hcall⟩ := ha.exists_call s
  rw [call_bind, hcall]
  exact hf s'

/-- A failure ends a chain of calls. -/
theorem Always.bind_error {e : Failure} (ha : Always a (.error e)) (f : α → Access σ β) :
    Always (a >>= f) (.error e) := by
  intro s
  obtain ⟨s', hcall⟩ := ha.exists_call s
  rw [call_bind, hcall]

theorem Always.map (ha : Always a (.ok x)) (g : α → β) :
    Always (do return g (← a) : Access σ β) (.ok (g x)) :=
  ha.bind (always_pure (g x))

theorem Always.orMissing (ha : Always a (.ok x)) : Always a.orMissing (.ok (some x)) := by
  intro s
  obtain ⟨s', hcall⟩ := ha.exists_call s
  rw [call_orMissing, hcall]

/-- A resource that does not exist is reported as none. -/
theorem Always.orMissing_notFound {e : DirectoryError} (hmissing : e.isNotFound = true)
    (ha : Always a (.error (.error e))) : Always a.orMissing (.ok none) := by
  intro s
  obtain ⟨s', hcall⟩ := ha.exists_call s
  rw [call_orMissing, hcall]
  simp only [hmissing, if_true]

theorem Always.reported (ha : Always a (.ok x)) : Always a.reported (.ok (.ok x)) := by
  intro s
  obtain ⟨s', hcall⟩ := ha.exists_call s
  rw [call_reported, hcall]

end Steps

/-! ### Failures for a reason -/

/-- There is an answer unless there is a reason to fail, and then the failure is for such a
reason. -/
def OkUnless (reason : Failure → Prop) (a : Access σ α) : Prop :=
  (∃ x, Always a (.ok x)) ∧ (∀ e, ¬ reason e) ∨ ∃ e, reason e ∧ Always a (.error e)

section OkUnless
variable {reason : Failure → Prop}

theorem OkUnless.congr {reason' : Failure → Prop} {a : Access σ α} (h : OkUnless reason a)
    (hiff : ∀ e, reason' e ↔ reason e) : OkUnless reason' a := by
  simpa only [OkUnless, hiff] using h

theorem OkUnless.map {a : Access σ α} (h : OkUnless reason a) (g : α → β) :
    OkUnless reason (do return g (← a) : Access σ β) := by
  rcases h with ⟨⟨x, hx⟩, hno⟩ | ⟨e, he, herror⟩
  · exact .inl ⟨⟨g x, hx.map g⟩, hno⟩
  · exact .inr ⟨e, he, herror.bind_error _⟩

/-- What follows a call that succeeds. -/
theorem Always.bind_okUnless {a : Access σ α} {x : α} (ha : Always a (.ok x)) {f : α → Access σ β}
    (h : OkUnless reason (f x)) : OkUnless reason (a >>= f) := by
  rcases h with ⟨⟨y, hy⟩, hno⟩ | ⟨e, he, herror⟩
  · exact .inl ⟨⟨y, ha.bind hy⟩, hno⟩
  · exact .inr ⟨e, he, ha.bind herror⟩

/-- **Calls for the items of a list** all succeed, unless one of the items is a reason to fail. -/
theorem OkUnless.mapM {f : α → Access σ β} {reason : α → Failure → Prop} : ∀ {xs : List α},
    (∀ x ∈ xs, OkUnless (reason x) (f x)) → OkUnless (fun e => ∃ x ∈ xs, reason x e) (xs.mapM f)
  | [], _ => .inl ⟨⟨[], by rw [List.mapM_nil]; exact always_pure []⟩, by simp⟩
  | x :: xs, h => by
    obtain ⟨hx, hxs⟩ := List.forall_mem_cons.mp h
    rw [List.mapM_cons]
    rcases hx with ⟨⟨y, hy⟩, hno⟩ | ⟨e, he, herror⟩
    · refine hy.bind_okUnless ((OkUnless.mapM hxs).map (y :: ·)) |>.congr fun e => ?_
      simp [hno e]
    · exact .inr ⟨e, ⟨x, List.mem_cons_self, he⟩, herror.bind_error _⟩

end OkUnless

end Entitlements.Access
