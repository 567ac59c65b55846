import Entitlements.Json.Record
import Mathlib.Data.List.Forall2
import Mathlib.Data.List.Induction
import Mathlib.Data.List.Perm.Subperm

/-! # Canonical form

The canonical form of a value is canonical (`Json.canonical_of_canonical?`). This rests on what
sorting does to entries: none is added, every key stays, and entries that are in order are left
alone. A value has a canonical form when nothing in it is unreadable (`Json.Readable`). -/

namespace Entitlements

/-! ### Sorted entries -/

section SortEntries
variable {α : Type}

theorem sortEntries_append_singleton (es : List (String × α)) (e : String × α) :
    sortEntries (es ++ [e]) = insertEntry e.1 e.2 (sortEntries es) :=
  List.foldl_append

theorem insertEntry_subperm (k : String) (v : α) :
    ∀ es : List (String × α), (insertEntry k v es).Subperm ((k, v) :: es)
  | [] => .refl _
  | (x, w) :: es => by
    rw [insertEntry]
    split
    · exact .refl _
    · split
      · exact (List.Sublist.cons_cons _ (List.sublist_cons_self _ _)).subperm
      · have hswap : ((x, w) :: (k, v) :: es).Subperm ((k, v) :: (x, w) :: es) :=
          (List.Perm.swap _ _ _).subperm
        exact ((List.subperm_cons _).mpr (insertEntry_subperm k v es)).trans hswap

/-- Sorting adds nothing. -/
theorem sortEntries_subperm (es : List (String × α)) : (sortEntries es).Subperm es := by
  induction es using List.reverseRecOn with
  | nil => exact .refl _
  | append_singleton es e ih =>
    rw [sortEntries_append_singleton]
    exact ((insertEntry_subperm e.1 e.2 _).trans ((List.subperm_cons e).mpr ih)).trans
      (List.perm_append_singleton e es).symm.subperm

theorem mem_keys_sortEntries {es : List (String × α)} {k : String} :
    k ∈ (sortEntries es).map Prod.fst ↔ k ∈ es.map Prod.fst := by
  induction es using List.reverseRecOn with
  | nil => rfl
  | append_singleton es e ih =>
    rw [sortEntries_append_singleton, mem_keys_insertEntry, ih, List.map_append, List.mem_append]
    simp [or_comm]

theorem pairwise_keys_sortEntries (es : List (String × α)) :
    ((sortEntries es).map Prod.fst).Pairwise (· < ·) := by
  induction es using List.reverseRecOn with
  | nil => exact .nil
  | append_singleton es e ih =>
    rw [sortEntries_append_singleton]
    exact pairwise_keys_insertEntry ih

/-- A key behind all others goes to the end. -/
theorem insertEntry_of_forall_lt {k : String} {v : α} :
    ∀ {es : List (String × α)}, (∀ x ∈ es.map Prod.fst, x < k) → insertEntry k v es = es ++ [(k, v)]
  | [], _ => rfl
  | (x, w) :: es, h => by
    obtain ⟨hx, hes⟩ := List.forall_mem_cons.mp h
    have hne : k ≠ x := fun heq => String.lt_irrefl x (heq ▸ hx)
    rw [insertEntry, if_neg (String.lt_asymm hx), if_neg hne, insertEntry_of_forall_lt hes]
    rfl

/-- Entries in order stay as they are. -/
theorem sortEntries_eq_self {es : List (String × α)} (h : (es.map Prod.fst).Pairwise (· < ·)) :
    sortEntries es = es := by
  induction es using List.reverseRecOn with
  | nil => rfl
  | append_singleton es e ih =>
    rw [List.map_append, List.pairwise_append] at h
    obtain ⟨hes, -, hlt⟩ := h
    rw [sortEntries_append_singleton, ih hes]
    exact insertEntry_of_forall_lt fun x hx => hlt x hx e.1 (List.mem_singleton_self _)

theorem insertEntry_map_values {β : Type} (f : α → β) (k : String) (v : α) :
    ∀ es : List (String × α), insertEntry k (f v) (es.map fun e => (e.1, f e.2)) =
      (insertEntry k v es).map fun e => (e.1, f e.2)
  | [] => rfl
  | (x, w) :: es => by
    rw [List.map_cons, insertEntry, insertEntry, insertEntry_map_values f k v es]
    split_ifs <;> rfl

/-- Sorting looks at keys only. -/
theorem sortEntries_map_values {β : Type} (f : α → β) (es : List (String × α)) :
    sortEntries (es.map fun e => (e.1, f e.2)) = (sortEntries es).map fun e => (e.1, f e.2) := by
  induction es using List.reverseRecOn with
  | nil => rfl
  | append_singleton es e ih =>
    rw [List.map_append, List.map_singleton, sortEntries_append_singleton, ih,
      sortEntries_append_singleton]
    exact insertEntry_map_values f e.1 e.2 _

/-- A key before all others goes to the front. -/
theorem insertEntry_of_forall_gt {k : String} {v : α} {es : List (String × α)}
    (h : ∀ x ∈ es.map Prod.fst, k < x) : insertEntry k v es = (k, v) :: es := by
  cases es with
  | nil => rfl
  | cons e es => rw [insertEntry, if_pos (List.forall_mem_cons.mp h).1]

theorem filter_insertEntry (p : String → Bool) (k : String) (v : α) :
    ∀ {es : List (String × α)}, (es.map Prod.fst).Pairwise (· < ·) →
      (insertEntry k v es).filter (fun e => p e.1) =
        if p k then insertEntry k v (es.filter fun e => p e.1) else es.filter fun e => p e.1
  | [], _ => by cases hk : p k <;> simp [insertEntry, hk]
  | (x, w) :: es, h => by
    obtain ⟨hx, hes⟩ := List.pairwise_cons.mp h
    have ih := filter_insertEntry p k v hes
    rw [insertEntry]
    by_cases hlt : k < x
    · have hgt : ∀ y ∈ (((x, w) :: es).filter fun e => p e.1).map Prod.fst, k < y := by
        intro y hy
        rcases List.mem_cons.mp ((List.filter_sublist.map _).subset hy) with rfl | hy
        · exact hlt
        · exact String.lt_trans hlt (hx y hy)
      rw [if_pos hlt, insertEntry_of_forall_gt hgt, List.filter_cons]
    · rw [if_neg hlt]
      by_cases heq : k = x
      · subst heq
        rw [if_pos rfl, List.filter_cons, List.filter_cons]
        by_cases hk : p k <;> simp [hk, insertEntry]
      · rw [if_neg heq, List.filter_cons, List.filter_cons, ih]
        by_cases hk : p k <;> by_cases hpx : p x <;> simp [hk, hpx, insertEntry, hlt, heq]

theorem filter_sortEntries (p : String → Bool) (es : List (String × α)) :
    (sortEntries es).filter (fun e => p e.1) = sortEntries (es.filter fun e => p e.1) := by
  induction es using List.reverseRecOn with
  | nil => rfl
  | append_singleton es e ih =>
    rw [sortEntries_append_singleton, filter_insertEntry p _ _ (pairwise_keys_sortEntries es), ih,
      List.filter_append, List.filter_singleton]
    cases p e.1 <;> simp [sortEntries_append_singleton]

end SortEntries

/-! ### Lists matched item by item -/

section Matched
variable {α β : Type}

/-- A list has a counterpart when each of its members has one. -/
theorem exists_forall₂_iff {R : α → β → Prop} {xs : List α} :
    (∃ ys, List.Forall₂ R xs ys) ↔ ∀ x ∈ xs, ∃ y, R x y := by
  induction xs with
  | nil => simp
  | cons x xs ih =>
    rw [List.forall_mem_cons, ← ih]
    constructor
    · rintro ⟨_, _ | ⟨hx, hxs⟩⟩
      exact ⟨⟨_, hx⟩, _, hxs⟩
    · rintro ⟨⟨_, hx⟩, _, hxs⟩
      exact ⟨_, .cons hx hxs⟩

theorem mapM_eq_some_iff_forall₂ {f : α → Option β} {xs : List α} {ys : List β} :
    xs.mapM f = some ys ↔ List.Forall₂ (fun x y => f x = some y) xs ys := by
  induction xs generalizing ys with
  | nil => simp [eq_comm]
  | cons x xs ih =>
    rw [List.mapM_cons, List.forall₂_cons_left_iff]
    simp only [Option.bind_eq_bind, Option.bind_eq_some_iff, ih]
    constructor
    · rintro ⟨y, hy, ys, hys, h⟩
      exact ⟨y, ys, hy, hys, (Option.some.inj h).symm⟩
    · rintro ⟨y, ys, hy, hys, rfl⟩
      exact ⟨y, hy, ys, hys, rfl⟩

end Matched

namespace Json

/-! ### Canonical values -/

theorem canonicalItems?_eq_mapM : ∀ js : List Json, canonicalItems? js = js.mapM canonical?
  | [] => rfl
  | j :: js => by rw [canonicalItems?, List.mapM_cons, canonicalItems?_eq_mapM js]

theorem canonicalItems?_eq_some_iff {js js' : List Json} :
    canonicalItems? js = some js' ↔ List.Forall₂ (fun j j' => j.canonical? = some j') js js' := by
  rw [canonicalItems?_eq_mapM, mapM_eq_some_iff_forall₂]

/-- Whether an entry has the canonical form of another one's value, under the same key. -/
def CanonicalEntry (e e' : String × Json) : Prop := e'.1 = e.1 ∧ e.2.canonical? = some e'.2

theorem canonicalEntries?_eq_mapM : ∀ es : List (String × Json),
    canonicalEntries? es = es.mapM fun e => e.2.canonical?.map (e.1, ·)
  | [] => rfl
  | (k, j) :: es => by
    rw [canonicalEntries?, List.mapM_cons, canonicalEntries?_eq_mapM es]
    cases j.canonical? <;> rfl

theorem canonicalEntries?_eq_some_iff {es es' : List (String × Json)} :
    canonicalEntries? es = some es' ↔ List.Forall₂ CanonicalEntry es es' := by
  have hentry : ∀ e e' : String × Json,
      e.2.canonical?.map (e.1, ·) = some e' ↔ CanonicalEntry e e' := by
    intro e e'
    rw [Option.map_eq_some_iff]
    constructor
    · rintro ⟨j, hj, rfl⟩
      exact ⟨rfl, hj⟩
    · rintro ⟨hkey, hj⟩
      exact ⟨e'.2, hj, by rw [← hkey]⟩
  simp only [canonicalEntries?_eq_mapM, mapM_eq_some_iff_forall₂, hentry]

theorem canonicalItems?_of_canonical {js : List Json} (h : ∀ j ∈ js, j.Canonical) :
    canonicalItems? js = some js := by
  rw [canonicalItems?_eq_some_iff, List.forall₂_same]
  exact h

theorem canonicalEntries?_of_canonical {es : List (String × Json)} (h : ∀ e ∈ es, e.2.Canonical) :
    canonicalEntries? es = some es := by
  rw [canonicalEntries?_eq_some_iff, List.forall₂_same]
  exact fun e he => ⟨rfl, h e he⟩

mutual

/-- **The canonical form is canonical.** -/
theorem canonical_of_canonical? : ∀ {j j' : Json}, j.canonical? = some j' → j'.Canonical
  | .null, _, rfl | .bool _, _, rfl | .int _, _, rfl | .float _, _, rfl | .str _, _, rfl => rfl
  | .arr items, _, h => by
    obtain ⟨items', hitems, rfl⟩ := Option.map_eq_some_iff.mp h
    rw [Canonical, canonical?, canonicalItems?_of_canonical (canonical_of_canonicalItems? hitems)]
    rfl
  | .obj entries, _, h => by
    obtain ⟨entries', hentries, rfl⟩ := Option.map_eq_some_iff.mp h
    have hcanonical : ∀ e ∈ sortEntries entries', e.2.Canonical := fun e he =>
      canonical_of_canonicalEntries? hentries e ((sortEntries_subperm entries').subset he)
    rw [Canonical, canonical?, canonicalEntries?_of_canonical hcanonical, Option.map_some,
      sortEntries_eq_self (pairwise_keys_sortEntries entries')]

theorem canonical_of_canonicalItems? : ∀ {js js' : List Json}, canonicalItems? js = some js' →
    ∀ j ∈ js', j.Canonical
  | [], _, rfl => List.forall_mem_nil _
  | _ :: _, _, h => by
    obtain ⟨j', js', hj, hjs, rfl⟩ :=
      List.forall₂_cons_left_iff.mp (canonicalItems?_eq_some_iff.mp h)
    exact List.forall_mem_cons.mpr ⟨canonical_of_canonical? hj,
      canonical_of_canonicalItems? (canonicalItems?_eq_some_iff.mpr hjs)⟩

theorem canonical_of_canonicalEntries? : ∀ {es es' : List (String × Json)},
    canonicalEntries? es = some es' → ∀ e ∈ es', e.2.Canonical
  | [], _, rfl => List.forall_mem_nil _
  | (_, _) :: _, _, h => by
    obtain ⟨e', es', ⟨-, he⟩, hes, rfl⟩ :=
      List.forall₂_cons_left_iff.mp (canonicalEntries?_eq_some_iff.mp h)
    exact List.forall_mem_cons.mpr ⟨canonical_of_canonical? he,
      canonical_of_canonicalEntries? (canonicalEntries?_eq_some_iff.mpr hes)⟩

end

/-! ### Readable values -/

/-- Whether nothing in a value is unreadable. -/
def Readable (j : Json) : Prop := ∃ j', j.canonical? = some j'

theorem Canonical.readable {j : Json} (h : j.Canonical) : j.Readable := ⟨j, h⟩

@[simp] theorem readable_str (s : String) : Readable (.str s) := ⟨_, rfl⟩

@[simp] theorem readable_int (n : Int) : Readable (.int n) := ⟨_, rfl⟩

@[simp] theorem readable_arr {items : List Json} :
    Readable (.arr items) ↔ ∀ j ∈ items, Readable j := by
  simp only [Readable, ← exists_forall₂_iff, ← canonicalItems?_eq_some_iff]
  simp [canonical?]

/-- Whether nothing in the values of some entries is unreadable. -/
def ReadableEntries (entries : List (String × Json)) : Prop := ∀ e ∈ entries, Readable e.2

@[simp] theorem readable_obj {entries : List (String × Json)} :
    Readable (.obj entries) ↔ ReadableEntries entries := by
  have hentry : ∀ e : String × Json, Readable e.2 ↔ ∃ e', CanonicalEntry e e' :=
    fun e => ⟨fun ⟨j, h⟩ => ⟨(e.1, j), rfl, h⟩, fun ⟨e', _, h⟩ => ⟨e'.2, h⟩⟩
  simp only [ReadableEntries, hentry, ← exists_forall₂_iff, ← canonicalEntries?_eq_some_iff]
  simp [Readable, canonical?]

@[simp] theorem readableEntries_nil : ReadableEntries [] := List.forall_mem_nil _

@[simp] theorem readableEntries_cons {e : String × Json} {es : List (String × Json)} :
    ReadableEntries (e :: es) ↔ Readable e.2 ∧ ReadableEntries es := List.forall_mem_cons

@[simp] theorem readableEntries_append {es es' : List (String × Json)} :
    ReadableEntries (es ++ es') ↔ ReadableEntries es ∧ ReadableEntries es' :=
  List.forall_mem_append

@[simp] theorem readableEntries_entryOfSome {α : Type} {name : String} {write : α → Json}
    {o : Option α} :
    ReadableEntries (entryOfSome name write o) ↔ ∀ a, o = some a → (write a).Readable := by
  cases o <;> simp [entryOfSome]

end Json

end Entitlements
