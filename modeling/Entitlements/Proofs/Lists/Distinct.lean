import Mathlib.Data.List.Induction
import Mathlib.Data.List.Nodup

/-! # Lists without repetitions

A list with each of its members at its first occurrence, where the list is put together from parts,
mapped or filtered. -/

namespace Entitlements

variable {α : Type} [BEq α] [LawfulBEq α]

theorem eraseDups_append_singleton (l : List α) (a : α) :
    (l ++ [a]).eraseDups = if a ∈ l then l.eraseDups else l.eraseDups ++ [a] := by
  rw [List.eraseDups_append]
  by_cases h : a ∈ l <;> simp [List.removeAll, List.eraseDups_cons, h]

theorem nodup_eraseDups (l : List α) : l.eraseDups.Nodup := by
  induction l using List.reverseRecOn with
  | nil => exact .nil
  | append_singleton l a ih =>
    rw [eraseDups_append_singleton]
    split
    · exact ih
    · next ha =>
      rw [← List.concat_eq_append]
      exact ih.concat (mt List.mem_eraseDups.mp ha)

theorem eraseDups_filter (p : α → Bool) (l : List α) :
    (l.filter p).eraseDups = l.eraseDups.filter p := by
  induction l using List.reverseRecOn with
  | nil => rfl
  | append_singleton l a ih =>
    rw [List.filter_append, eraseDups_append_singleton]
    by_cases hp : p a = true
    · by_cases ha : a ∈ l <;> simp [eraseDups_append_singleton, ha, hp, ih]
    · by_cases ha : a ∈ l <;> simp [ha, hp, ih]

theorem eraseDups_append_congr {xs ys : List α} (h : xs.eraseDups = ys.eraseDups) (l : List α) :
    (xs ++ l).eraseDups = (ys ++ l).eraseDups := by
  have hmem : ∀ a, a ∈ xs ↔ a ∈ ys := fun a => by
    rw [← List.mem_eraseDups, h, List.mem_eraseDups]
  have hremove : l.removeAll xs = l.removeAll ys := List.filter_congr fun a _ => by simp [hmem]
  rw [List.eraseDups_append, List.eraseDups_append, h, hremove]

theorem eraseDups_append_eraseDups (xs ys : List α) :
    (xs ++ ys.eraseDups).eraseDups = (xs ++ ys).eraseDups := by
  induction ys using List.reverseRecOn with
  | nil => rfl
  | append_singleton ys a ih =>
    have hright := eraseDups_append_singleton (xs ++ ys) a
    rw [List.append_assoc] at hright
    rw [hright, eraseDups_append_singleton]
    by_cases ha : a ∈ ys
    · rw [if_pos ha, if_pos (List.mem_append_right xs ha), ih]
    · rw [if_neg ha, ← List.append_assoc, eraseDups_append_singleton, ih]
      simp only [List.mem_append, List.mem_eraseDups]

/-- Repetitions may be left out part by part first. -/
theorem eraseDups_flatMap_eraseDups {ι : Type} (f : ι → List α) (l : List ι) :
    (l.flatMap fun x => (f x).eraseDups).eraseDups = (l.flatMap f).eraseDups := by
  induction l using List.reverseRecOn with
  | nil => rfl
  | append_singleton l x ih =>
    simp only [List.flatMap_append, List.flatMap_singleton]
    rw [eraseDups_append_eraseDups]
    exact eraseDups_append_congr ih (f x)

theorem eraseDups_map_of_injective {β : Type} [BEq β] [LawfulBEq β] {f : α → β}
    (hf : ∀ a b, f a = f b → a = b) (l : List α) : (l.map f).eraseDups = l.eraseDups.map f := by
  induction l using List.reverseRecOn with
  | nil => rfl
  | append_singleton l a ih =>
    have hmem : f a ∈ l.map f ↔ a ∈ l := by
      constructor
      · intro h
        obtain ⟨b, hb, heq⟩ := List.mem_map.mp h
        exact hf b a heq ▸ hb
      · exact List.mem_map_of_mem
    rw [List.map_append, List.map_singleton, eraseDups_append_singleton,
      eraseDups_append_singleton, ih]
    by_cases ha : a ∈ l
    · rw [if_pos ha, if_pos (hmem.mpr ha)]
    · rw [if_neg ha, if_neg (mt hmem.mp ha), List.map_append, List.map_singleton]

end Entitlements
