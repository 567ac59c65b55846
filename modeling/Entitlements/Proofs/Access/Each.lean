import Entitlements.Directory.Basic

/-! # Calls made one after the other

When a chain of calls succeeds: both parts of a bind do (`call_bind_eq_ok_iff`), and every call of a
list does, each on the state that the one before it left (`Access.Each`, `call_mapM_eq_ok_iff`). -/

namespace Entitlements.Access

variable {σ α β γ : Type}

/-- Calls for the items of a list, one after the other, all of which succeed: from the first state
they give these answers and leave the last state. -/
inductive Each (f : α → Access σ β) : σ → List α → List β → σ → Prop
  | nil (s : σ) : Each f s [] [] s
  | cons {x : α} {xs : List α} {y : β} {ys : List β} {s s₁ s₂ : σ}
      (head : (f x).call s = (.ok y, s₁)) (tail : Each f s₁ xs ys s₂) :
      Each f s (x :: xs) (y :: ys) s₂

theorem Each.length_eq {f : α → Access σ β} {xs : List α} {ys : List β} {s s' : σ}
    (h : Each f s xs ys s') : xs.length = ys.length := by
  induction h with
  | nil => rfl
  | cons _ _ ih => rw [List.length_cons, List.length_cons, ih]

/-- Every item has an answer. -/
theorem Each.exists_answer {f : α → Access σ β} {xs : List α} {ys : List β} {s s' : σ}
    (h : Each f s xs ys s') {x : α} (hx : x ∈ xs) : ∃ y, (x, y) ∈ xs.zip ys := by
  induction h with
  | nil => simp at hx
  | cons _ _ ih =>
    rcases List.mem_cons.mp hx with rfl | hx
    · exact ⟨_, List.mem_cons_self⟩
    · obtain ⟨y, hy⟩ := ih hx
      exact ⟨y, List.mem_cons_of_mem _ hy⟩

/-- Every pair of an item and its answer belongs to one of the calls. -/
theorem Each.exists_call {f : α → Access σ β} {xs : List α} {ys : List β} {s s' : σ}
    (h : Each f s xs ys s') {x : α} {y : β} (hxy : (x, y) ∈ xs.zip ys) :
    ∃ t t', (f x).call t = (.ok y, t') := by
  induction h with
  | nil => simp at hxy
  | cons head _ ih =>
    rcases List.mem_cons.mp (List.zip_cons_cons ▸ hxy) with heq | hmem
    · cases heq
      exact ⟨_, _, head⟩
    · exact ih hmem

/-- Calls that succeed on any state can be made one after the other. -/
theorem exists_each {f : α → Access σ β} : ∀ {xs : List α},
    (∀ x ∈ xs, ∀ s, ∃ y s', (f x).call s = (.ok y, s')) → ∀ s, ∃ ys s', Each f s xs ys s'
  | [], _, s => ⟨[], s, .nil s⟩
  | x :: xs, h, s => by
    obtain ⟨hx, hxs⟩ := List.forall_mem_cons.mp h
    obtain ⟨y, s₁, hy⟩ := hx s
    obtain ⟨ys, s₂, hys⟩ := exists_each hxs s₁
    exact ⟨y :: ys, s₂, .cons hy hys⟩

theorem call_pure_eq_ok_iff {a b : α} {s s' : σ} :
    (pure a : Access σ α).call s = (.ok b, s') ↔ a = b ∧ s = s' := by
  rw [call_pure]; simp

theorem call_bind_eq_ok_iff {a : Access σ α} {f : α → Access σ β} {y : β} {s s' : σ} :
    (a >>= f).call s = (.ok y, s') ↔
      ∃ x s₁, a.call s = (.ok x, s₁) ∧ (f x).call s₁ = (.ok y, s') := by
  rw [call_bind]
  rcases a.call s with ⟨e | x, s₁⟩
  · simp
  · constructor
    · intro h; exact ⟨x, s₁, rfl, h⟩
    · rintro ⟨_, _, heq, h⟩; cases heq; exact h

/-- A call whose answer is changed afterwards. -/
theorem call_map_eq_ok_iff {a : Access σ α} {g : α → β} {y : β} {s s' : σ} :
    (do return g (← a) : Access σ β).call s = (.ok y, s') ↔
      ∃ x, a.call s = (.ok x, s') ∧ g x = y := by
  rw [call_bind_eq_ok_iff]
  simp only [call_pure_eq_ok_iff]
  constructor
  · rintro ⟨x, s₁, h, hy, rfl⟩; exact ⟨x, h, hy⟩
  · rintro ⟨x, h, hy⟩; exact ⟨x, s', h, hy, rfl⟩

/-- What is computed from an answer leaves the state that the answer leaves. -/
theorem call_map_snd (a : Access σ α) (g : α → β) (s : σ) :
    ((do return g (← a) : Access σ β).call s).2 = (a.call s).2 := by
  rw [call_bind]
  rcases a.call s with ⟨e | x, s'⟩
  · rfl
  · rfl

theorem call_reported (a : Access σ α) (s : σ) :
    a.reported.call s =
      match a.call s with
      | (.ok x, s) => (.ok (.ok x), s)
      | (.error (.error e), s) => (.ok (.error e), s)
      | (.error f, s) => (.error f, s) := rfl

/-- **A list of calls succeeds** exactly when each of them does on the state before it. -/
theorem call_mapM_eq_ok_iff {f : α → Access σ β} : ∀ {xs : List α} {ys : List β} {s s' : σ},
    (xs.mapM f).call s = (.ok ys, s') ↔ Each f s xs ys s'
  | [], ys, s, s' => by
    rw [List.mapM_nil, call_pure_eq_ok_iff]
    constructor
    · rintro ⟨rfl, rfl⟩; exact .nil s
    · rintro (_ | _); exact ⟨rfl, rfl⟩
  | x :: xs, ys, s, s' => by
    rw [List.mapM_cons, call_bind_eq_ok_iff]
    constructor
    · rintro ⟨y, s₁, hy, h⟩
      obtain ⟨zs, hzs, rfl⟩ := call_map_eq_ok_iff.mp h
      exact .cons hy (call_mapM_eq_ok_iff.mp hzs)
    · rintro (_ | ⟨hy, h⟩)
      exact ⟨_, _, hy, call_map_eq_ok_iff.mpr ⟨_, call_mapM_eq_ok_iff.mpr h, rfl⟩⟩

/-- Calls whose answers are changed one by one. -/
theorem each_map_iff {f : α → Access σ β} {g : α → β → γ} :
    ∀ {xs : List α} {zs : List γ} {s s' : σ},
      Each (fun x => do return g x (← f x)) s xs zs s' ↔
        ∃ ys, Each f s xs ys s' ∧ zs = List.zipWith g xs ys
  | [], zs, s, s' => by
    constructor
    · rintro (_ | _); exact ⟨[], .nil s, rfl⟩
    · rintro ⟨_, _ | _, rfl⟩; exact .nil s
  | x :: xs, zs, s, s' => by
    constructor
    · rintro (_ | ⟨hz, h⟩)
      obtain ⟨y, hy, rfl⟩ := call_map_eq_ok_iff.mp hz
      obtain ⟨ys, hys, rfl⟩ := each_map_iff.mp h
      exact ⟨y :: ys, .cons hy hys, rfl⟩
    · rintro ⟨_, _ | ⟨hy, h⟩, rfl⟩
      exact .cons (call_map_eq_ok_iff.mpr ⟨_, hy, rfl⟩) (each_map_iff.mpr ⟨_, h, rfl⟩)

end Entitlements.Access
