import Entitlements.Directory.Basic
import Mathlib.Data.List.Forall2

/-! # Related calls

Two calls on states of different kinds are related when from related states they fail alike or give
related answers, and leave related states (`Access.Related`). Everything that is made of related
calls in the same way is related again. -/

namespace Entitlements

namespace Access

variable {σ τ α β γ δ : Type} {R : σ → τ → Prop} {Q : α → β → Prop} {Q' : γ → δ → Prop}

/-- Related answers, or the same failure, and related states. -/
inductive Agree (R : σ → τ → Prop) (Q : α → β → Prop) :
    Except Failure α × σ → Except Failure β × τ → Prop
  | ok {x : α} {y : β} {s : σ} {t : τ} (answer : Q x y) (state : R s t) :
      Agree R Q (.ok x, s) (.ok y, t)
  | error {f : Failure} {s : σ} {t : τ} (state : R s t) : Agree R Q (.error f, s) (.error f, t)

theorem agree_same (answer : Except Failure α) {s : σ} {t : τ} (h : R s t) :
    Agree R Eq (answer, s) (answer, t) := by
  cases answer with
  | ok x => exact .ok rfl h
  | error f => exact .error h

theorem Agree.answer_eq {p : Except Failure α × σ} {q : Except Failure α × τ} (h : Agree R Eq p q) :
    p.1 = q.1 := by
  cases h with
  | ok answer => exact congrArg Except.ok answer
  | error => rfl

theorem Agree.state {p : Except Failure α × σ} {q : Except Failure β × τ} (h : Agree R Q p q) :
    R p.2 q.2 := by
  cases h with
  | ok _ state => exact state
  | error state => exact state

/-- Calls that agree on related states. -/
def Related (R : σ → τ → Prop) (Q : α → β → Prop) (a : Access σ α) (b : Access τ β) : Prop :=
  ∀ s t, R s t → Agree R Q (a.call s) (b.call t)

theorem related_pure {x : α} {y : β} (h : Q x y) :
    Related R Q (pure x : Access σ α) (pure y : Access τ β) := fun _ _ hst => .ok h hst

theorem related_throw (f : Failure) :
    Related R Q (throw f : Access σ α) (throw f : Access τ β) := fun _ _ hst => .error hst

theorem Related.bind {a : Access σ α} {b : Access τ β} {f : α → Access σ γ} {g : β → Access τ δ}
    (h : Related R Q a b) (hf : ∀ x y, Q x y → Related R Q' (f x) (g y)) :
    Related R Q' (a >>= f) (b >>= g) := by
  intro s t hst
  rw [call_bind, call_bind]
  have hagree := h s t hst
  generalize a.call s = r, b.call t = r' at hagree
  cases hagree with
  | ok answer state => exact hf _ _ answer _ _ state
  | error state => exact .error state

/-- Calls with equal answers go on alike. -/
theorem Related.bind_eq {a : Access σ α} {b : Access τ α} {f : α → Access σ γ} {g : α → Access τ δ}
    (h : Related R Eq a b) (hf : ∀ x, Related R Q' (f x) (g x)) :
    Related R Q' (a >>= f) (b >>= g) :=
  h.bind fun x _ hxy => hxy ▸ hf x

theorem related_mapM {f : α → Access σ γ} {g : β → Access τ δ}
    (hf : ∀ x y, Q x y → Related R Q' (f x) (g y)) {xs : List α} {ys : List β}
    (h : List.Forall₂ Q xs ys) : Related R (List.Forall₂ Q') (xs.mapM f) (ys.mapM g) := by
  induction h with
  | nil =>
    rw [List.mapM_nil, List.mapM_nil]
    exact related_pure .nil
  | cons hxy _ ih =>
    rw [List.mapM_cons, List.mapM_cons]
    exact (hf _ _ hxy).bind fun _ _ h => ih.bind fun _ _ hs => related_pure (.cons h hs)

/-- The same list is gone through alike. -/
theorem related_mapM_same {f : α → Access σ γ} {g : α → Access τ δ}
    (hf : ∀ x, Related R Q' (f x) (g x)) (xs : List α) :
    Related R (List.Forall₂ Q') (xs.mapM f) (xs.mapM g) := by
  have hf' : ∀ x y, x = y → Related R Q' (f x) (g y) := by
    rintro x _ rfl
    exact hf x
  exact related_mapM hf' (List.forall₂_same.mpr fun x (_ : x ∈ xs) => rfl)

theorem related_mapM_eq {f : α → Access σ γ} {g : α → Access τ γ}
    (hf : ∀ x, Related R Eq (f x) (g x)) (xs : List α) :
    Related R Eq (xs.mapM f) (xs.mapM g) := by
  have h := related_mapM_same hf xs
  rwa [List.forall₂_eq_eq_eq] at h

theorem Related.orMissing {a : Access σ α} {b : Access τ α} (h : Related R Eq a b) :
    Related R Eq a.orMissing b.orMissing := by
  intro s t hst
  have hagree := h s t hst
  unfold Access.call Access.orMissing
  generalize a.call s = r, b.call t = r' at hagree
  cases hagree with
  | ok answer state => exact .ok (congrArg some answer) state
  | @error f _ _ state =>
    cases f with
    | error e =>
      dsimp only
      split
      · exact .ok rfl state
      · exact .error state
    | abort => exact .error state

theorem Related.reported {a : Access σ α} {b : Access τ α} (h : Related R Eq a b) :
    Related R Eq a.reported b.reported := by
  intro s t hst
  have hagree := h s t hst
  unfold Access.call Access.reported
  generalize a.call s = r, b.call t = r' at hagree
  cases hagree with
  | ok answer state => exact .ok (congrArg Except.ok answer) state
  | @error f _ _ state =>
    cases f with
    | error e => exact .ok rfl state
    | abort => exact .error state

end Access

end Entitlements
