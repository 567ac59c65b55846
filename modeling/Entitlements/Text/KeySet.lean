/-! # Key sets

Finite sets of strings, kept as their strictly increasing list, so that two sets with the same
members are equal. The order is by Unicode scalar values. `SortedEntries` are the maps with such
keys: the latest value written under a key counts. -/

namespace Entitlements

/-- The increasing list `xs` with `k` put at its place, if it is not there yet. -/
def insertKey (k : String) : List String → List String
  | [] => [k]
  | x :: xs => if k < x then k :: x :: xs else if k = x then x :: xs else x :: insertKey k xs

theorem mem_insertKey {k x : String} {xs : List String} : x ∈ insertKey k xs ↔ x = k ∨ x ∈ xs := by
  induction xs with
  | nil => simp [insertKey]
  | cons y ys ih =>
    simp only [insertKey]
    split
    · simp
    · split
      · next h => subst h; simp
      · simp only [List.mem_cons, ih]
        constructor
        · rintro (h | h | h) <;> simp [h]
        · rintro (h | h | h) <;> simp [h]

theorem pairwise_insertKey {k : String} {xs : List String} (h : xs.Pairwise (· < ·)) :
    (insertKey k xs).Pairwise (· < ·) := by
  induction xs with
  | nil => simp [insertKey]
  | cons y ys ih =>
    obtain ⟨hy, hys⟩ := List.pairwise_cons.1 h
    simp only [insertKey]
    split
    · next hk =>
      refine List.pairwise_cons.2 ⟨fun z hz => ?_, h⟩
      rcases List.mem_cons.1 hz with rfl | hz
      · exact hk
      · exact String.lt_trans hk (hy z hz)
    · next hk =>
      split
      · exact h
      · next hne =>
        refine List.pairwise_cons.2 ⟨fun z hz => ?_, ih hys⟩
        rcases mem_insertKey.1 hz with rfl | hz
        · rcases Std.lt_trichotomy z y with h' | h' | h'
          · exact absurd h' hk
          · exact absurd h' hne
          · exact h'
        · exact hy z hz

/-- A finite set of strings. -/
structure KeySet where
  /-- The members, in increasing order. -/
  toList : List String
  /-- The list is strictly increasing, so no member stands twice. -/
  sorted : toList.Pairwise (· < ·)
  deriving DecidableEq

namespace KeySet

/-- The set without members. -/
def empty : KeySet := ⟨[], .nil⟩

instance : EmptyCollection KeySet := ⟨empty⟩

instance : Inhabited KeySet := ⟨empty⟩

instance : Membership String KeySet := ⟨fun s k => k ∈ s.toList⟩

instance (k : String) (s : KeySet) : Decidable (k ∈ s) := inferInstanceAs (Decidable (k ∈ s.toList))

/-- The set with `k` as a further member. -/
def insert (s : KeySet) (k : String) : KeySet := ⟨insertKey k s.toList, pairwise_insertKey s.sorted⟩

/-- The set with all of `ks` as further members. -/
def insertAll (s : KeySet) (ks : List String) : KeySet := ks.foldl insert s

/-- The set of the strings in a list. -/
def ofList (ks : List String) : KeySet := empty.insertAll ks

/-- The members of either set. -/
def union (s t : KeySet) : KeySet := s.insertAll t.toList

/-- The number of members. -/
def size (s : KeySet) : Nat := s.toList.length

theorem mem_def {k : String} {s : KeySet} : k ∈ s ↔ k ∈ s.toList := Iff.rfl

theorem nodup (s : KeySet) : s.toList.Nodup :=
  s.sorted.imp String.ne_of_lt

@[simp] theorem not_mem_empty (k : String) : ¬ k ∈ (∅ : KeySet) := List.not_mem_nil

@[simp] theorem mem_insert {k x : String} {s : KeySet} : x ∈ s.insert k ↔ x = k ∨ x ∈ s :=
  mem_insertKey

@[simp] theorem mem_insertAll {x : String} {s : KeySet} {ks : List String} :
    x ∈ s.insertAll ks ↔ x ∈ s ∨ x ∈ ks := by
  induction ks generalizing s with
  | nil => simp [insertAll]
  | cons k ks ih =>
    have : s.insertAll (k :: ks) = (s.insert k).insertAll ks := rfl
    rw [this, ih, mem_insert, List.mem_cons]
    constructor
    · rintro ((h | h) | h) <;> simp [h]
    · rintro (h | h | h) <;> simp [h]

@[simp] theorem mem_ofList {x : String} {ks : List String} : x ∈ ofList ks ↔ x ∈ ks := by
  rw [ofList, mem_insertAll]
  exact or_iff_right (not_mem_empty x)

@[simp] theorem mem_union {x : String} {s t : KeySet} : x ∈ s.union t ↔ x ∈ s ∨ x ∈ t :=
  mem_insertAll

end KeySet

/-! ### Maps with sorted keys -/

/-- The entries with `v` under `k`: a value already there is replaced, and a new key is put at its
place in the order. -/
def insertEntry {α : Type} (k : String) (v : α) : List (String × α) → List (String × α)
  | [] => [(k, v)]
  | (x, w) :: rest =>
    if k < x then (k, v) :: (x, w) :: rest
    else if k = x then (k, v) :: rest
    else (x, w) :: insertEntry k v rest

/-- The entries in the order of their keys, the last value of a repeated key counting. -/
def sortEntries {α : Type} (entries : List (String × α)) : List (String × α) :=
  entries.foldl (fun sorted e => insertEntry e.1 e.2 sorted) []

theorem mem_keys_insertEntry {α : Type} {k x : String} {v : α} {es : List (String × α)} :
    x ∈ (insertEntry k v es).map Prod.fst ↔ x = k ∨ x ∈ es.map Prod.fst := by
  induction es with
  | nil => simp [insertEntry]
  | cons e es ih =>
    obtain ⟨y, w⟩ := e
    simp only [insertEntry]
    split
    · simp
    · split
      · next h => subst h; simp
      · simp only [List.map_cons, List.mem_cons, ih]
        constructor
        · rintro (h | h | h) <;> simp [h]
        · rintro (h | h | h) <;> simp [h]

theorem pairwise_keys_insertEntry {α : Type} {k : String} {v : α} {es : List (String × α)}
    (h : (es.map Prod.fst).Pairwise (· < ·)) :
    ((insertEntry k v es).map Prod.fst).Pairwise (· < ·) := by
  induction es with
  | nil => simp [insertEntry]
  | cons e es ih =>
    obtain ⟨y, w⟩ := e
    obtain ⟨hy, hys⟩ := List.pairwise_cons.1 h
    simp only [insertEntry]
    split
    · next hk =>
      refine List.pairwise_cons.2 ⟨fun z hz => ?_, h⟩
      rcases List.mem_cons.1 hz with rfl | hz
      · exact hk
      · exact String.lt_trans hk (hy z hz)
    · next hk =>
      split
      · next heq => subst heq; exact List.pairwise_cons.2 ⟨hy, hys⟩
      · next hne =>
        refine List.pairwise_cons.2 ⟨fun z hz => ?_, ih hys⟩
        rcases mem_keys_insertEntry.1 hz with rfl | hz
        · rcases Std.lt_trichotomy z y with h' | h' | h'
          · exact absurd h' hk
          · exact absurd h' hne
          · exact h'
        · exact hy z hz

end Entitlements
