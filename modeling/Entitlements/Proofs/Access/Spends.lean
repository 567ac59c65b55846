import Entitlements.Proofs.Access.Each
import Mathlib.Algebra.GroupWithZero.Nat

/-! # Calls that are counted

How many calls an analysis makes when the state of the directory is a counter. `Access.Spends` says
it of every success, by the answer; it is kept by what calls are put together with: a chain spends
what its parts do, and calls for the items of a list spend the sum (`Spends.mapM`). -/

namespace Entitlements.Access

variable {α β : Type}

/-- Whenever `a` succeeds, the counter has grown by a number that goes with the answer. -/
def Spends (a : Access Nat α) (spent : α → Nat → Prop) : Prop :=
  ∀ c x c', a.call c = (.ok x, c') → ∃ n, c' = c + n ∧ spent x n

theorem spends_pure (x : α) : Spends (pure x) fun y n => y = x ∧ n = 0 := by
  intro c y c' h
  obtain ⟨rfl, rfl⟩ := call_pure_eq_ok_iff.mp h
  exact ⟨0, rfl, rfl, rfl⟩

/-- A call that is answered and counted whatever the counter. -/
theorem spends_of_call {a : Access Nat α} {x : α} (h : ∀ c, a.call c = (.ok x, c + 1)) :
    Spends a fun y n => y = x ∧ n = 1 := by
  intro c y c' hcall
  cases (h c).symm.trans hcall
  exact ⟨1, rfl, rfl, rfl⟩

section Rules
variable {a : Access Nat α} {P P' : α → Nat → Prop}

theorem Spends.mono (h : Spends a P) (himp : ∀ x n, P x n → P' x n) : Spends a P' := by
  intro c x c' hcall
  obtain ⟨n, rfl, hn⟩ := h c x c' hcall
  exact ⟨n, rfl, himp x n hn⟩

theorem Spends.bind {f : α → Access Nat β} {Q : β → Nat → Prop} (ha : Spends a P)
    (hf : ∀ x n, P x n → Spends (f x) fun y k => Q y (n + k)) : Spends (a >>= f) Q := by
  intro c y c' h
  obtain ⟨x, c₁, hx, hy⟩ := call_bind_eq_ok_iff.mp h
  obtain ⟨n, rfl, hn⟩ := ha c x c₁ hx
  obtain ⟨k, rfl, hk⟩ := hf x n hn _ y c' hy
  exact ⟨n + k, Nat.add_assoc c n k, hk⟩

/-- What is computed from an answer spends nothing. -/
theorem Spends.map (h : Spends a P) {g : α → β} {Q : β → Nat → Prop}
    (himp : ∀ x n, P x n → Q (g x) n) : Spends (do return g (← a) : Access Nat β) Q :=
  h.bind fun x n hn => (spends_pure (g x)).mono fun _ _ ⟨hy, hk⟩ => by
    subst hy hk
    exact himp x n hn

/-- **Calls for the items of a list** spend the sum of what they spend one by one. -/
theorem Spends.mapM {f : α → Access Nat β} {k : α → Nat} : ∀ {xs : List α},
    (∀ x ∈ xs, Spends (f x) fun _ n => n = k x) →
      Spends (xs.mapM f) fun _ n => n = (xs.map k).sum
  | [], _ => by
    rw [List.mapM_nil]
    exact (spends_pure []).mono fun _ _ h => h.2
  | x :: xs, h => by
    obtain ⟨hx, hxs⟩ := List.forall_mem_cons.mp h
    rw [List.mapM_cons, List.map_cons, List.sum_cons]
    refine hx.bind fun y n hn => (Spends.mapM hxs).map fun ys j hj => ?_
    rw [hn, hj]

/-- Calls that spend one each. -/
theorem Spends.mapM_one {f : α → Access Nat β} {xs : List α}
    (h : ∀ x ∈ xs, Spends (f x) fun _ n => n = 1) :
    Spends (xs.mapM f) fun _ n => n = xs.length :=
  (Spends.mapM h).mono fun _ n hn => by
    rw [hn, List.map_const', List.sum_replicate_nat, Nat.mul_one]

end Rules

end Entitlements.Access
