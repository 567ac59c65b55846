import Entitlements.Proofs.Json.Canonical
import Mathlib.Data.List.Nodup

/-! # Records in any order

What a record reads from an object does not depend on the order of its entries
(`Json.exists_fields?_of_canonical?`). So what is read from a value is read from its canonical form
too, and readers of which this holds (`Json.Stable`) are closed under the ways in which records are
read: field by field (`Json.StableFields`), and then `Json.stable_record`. The converse fails, for
an object with a repeated key has a canonical form without. -/

namespace Entitlements.Json

/-! ### Values under distinct keys -/

section Lookup
variable {α : Type}

/-- Under distinct keys, what is found is what is there. -/
theorem lookup_eq_some_iff_of_nodup {l : List (String × α)} (h : (l.map Prod.fst).Nodup)
    {k : String} {v : α} : l.lookup k = some v ↔ (k, v) ∈ l := by
  induction l with
  | nil => simp
  | cons e l ih =>
    obtain ⟨x, w⟩ := e
    rw [List.map_cons, List.nodup_cons] at h
    rw [List.lookup_cons, List.mem_cons]
    by_cases hk : k = x
    · subst hk
      have hnot : (k, v) ∉ l := fun hmem => h.1 (List.mem_map.mpr ⟨_, hmem, rfl⟩)
      simp [hnot, eq_comm]
    · have hne : (k == x) = false := beq_false_of_ne hk
      simp [hne, hk, ih h.2]

theorem lookup_congr_of_nodup {l l' : List (String × α)} (h : (l.map Prod.fst).Nodup)
    (h' : (l'.map Prod.fst).Nodup) (hmem : ∀ e, e ∈ l ↔ e ∈ l') (k : String) :
    l.lookup k = l'.lookup k := by
  refine Option.ext fun v => ?_
  rw [lookup_eq_some_iff_of_nodup h, lookup_eq_some_iff_of_nodup h', hmem]

end Lookup

/-! ### The entries that a record looks at -/

/-- The name of the field that a key stands for. -/
def fieldOf? (names : List FieldName) (key : String) : Option String :=
  (names.find? (·.accepts key)).map (·.name)

/-- The values of the named fields, under their names. -/
def named (names : List FieldName) (entries : List (String × Json)) : List (String × Json) :=
  entries.filterMap fun e => (fieldOf? names e.1).map (·, e.2)

variable {names : List FieldName}

theorem mem_named {entries : List (String × Json)} {name : String} {j : Json} :
    (name, j) ∈ named names entries ↔
      ∃ key, (key, j) ∈ entries ∧ fieldOf? names key = some name := by
  simp [named]

/-- **A record finds** the named entries, unless two of them stand for one field. -/
theorem namedFields?_eq (names : List FieldName) (entries : List (String × Json)) :
    namedFields? names entries =
      if ((named names entries).map Prod.fst).Nodup then some (named names entries) else none := by
  induction entries with
  | nil => rfl
  | cons e entries ih =>
    obtain ⟨key, j⟩ := e
    rw [namedFields?, ih]
    cases hf : names.find? (·.accepts key) with
    | none =>
      have hnamed : named names ((key, j) :: entries) = named names entries := by
        simp [named, fieldOf?, hf]
      rw [hnamed]
      split <;> rfl
    | some f =>
      have hnamed : named names ((key, j) :: entries) = (f.name, j) :: named names entries := by
        simp [named, fieldOf?, hf]
      have hany : f.name ∈ (named names entries).map Prod.fst ↔
          (named names entries).any (·.1 == f.name) = true := by simp
      simp only [hnamed, List.map_cons, List.nodup_cons, hany]
      by_cases hnodup : ((named names entries).map Prod.fst).Nodup
      · simp only [hnodup, and_true, if_true, ite_not]
        rfl
      · simp only [hnodup, and_false, if_false]
        rfl

theorem fields?_obj_eq_some_iff {entries : List (String × Json)} {f : Fields} :
    (obj entries).fields? names = some f ↔
      ((named names entries).map Prod.fst).Nodup ∧ f = ⟨false, named names entries⟩ := by
  rw [fields?, namedFields?_eq]
  split
  · next h => simp [h, eq_comm]
  · next h => simp [h]

/-! ### Fields without aliases -/

/-- The values that an object holds under a key. -/
def valuesOf (key : String) (entries : List (String × Json)) : List Json :=
  (entries.filter (·.1 == key)).map Prod.snd

theorem lookup_eq_head?_valuesOf (key : String) (entries : List (String × Json)) :
    entries.lookup key = (valuesOf key entries).head? := by
  induction entries with
  | nil => rfl
  | cons e entries ih =>
    obtain ⟨k, j⟩ := e
    rw [List.lookup_cons, Bool.beq_comm]
    cases hk : k == key with
    | true => simp [valuesOf, hk]
    | false => simpa [valuesOf, hk] using ih

theorem count_keys_eq_length_valuesOf (key : String) (entries : List (String × Json)) :
    (entries.map Prod.fst).count key = (valuesOf key entries).length := by
  rw [valuesOf, List.length_map, ← List.countP_eq_length_filter, List.count, List.countP_map]
  rfl

theorem fieldOf?_plain (keys : List String) (key : String) :
    fieldOf? (keys.map fun k => ⟨k, []⟩) key = if key ∈ keys then some key else none := by
  induction keys with
  | nil => rfl
  | cons k keys ih =>
    unfold fieldOf? at ih ⊢
    rw [List.map_cons, List.find?_cons]
    by_cases hk : k = key
    · simp [FieldName.accepts, hk]
    · have haccepts : FieldName.accepts ⟨k, []⟩ key = false := by simp [FieldName.accepts, hk]
      rw [haccepts]
      simpa [Ne.symm hk] using ih

theorem named_plain (keys : List String) (entries : List (String × Json)) :
    named (keys.map fun k => ⟨k, []⟩) entries = entries.filter (keys.contains ·.1) := by
  induction entries with
  | nil => rfl
  | cons e entries ih =>
    unfold named at ih ⊢
    rw [List.filterMap_cons, List.filter_cons, fieldOf?_plain, ih]
    by_cases he : e.1 ∈ keys <;> simp [he]

theorem valuesOf_named_plain {keys : List String} {key : String} (hkey : key ∈ keys)
    (entries : List (String × Json)) :
    valuesOf key (named (keys.map fun k => ⟨k, []⟩) entries) = valuesOf key entries := by
  rw [valuesOf, valuesOf, named_plain, List.filter_filter]
  congr 1
  refine List.filter_congr fun e _ => ?_
  by_cases he : e.1 = key <;> simp [he, hkey]

/-- **Fields that are given once at most** are found under their keys. -/
theorem exists_fields?_plain {keys : List String} {entries : List (String × Json)}
    (h : ∀ key ∈ keys, (valuesOf key entries).length ≤ 1) :
    ∃ f, (obj entries).fields? (keys.map fun k => ⟨k, []⟩) = some f ∧
      ∀ key ∈ keys, f.values.lookup key = (valuesOf key entries).head? := by
  refine ⟨_, fields?_obj_eq_some_iff.mpr ⟨List.nodup_iff_count_le_one.mpr fun key => ?_, rfl⟩,
    fun key hkey => ?_⟩
  · rw [count_keys_eq_length_valuesOf]
    by_cases hkey : key ∈ keys
    · rw [valuesOf_named_plain hkey]
      exact h key hkey
    · have hnone : valuesOf key (named (keys.map fun k => ⟨k, []⟩) entries) = [] := by
        rw [valuesOf, named_plain, List.filter_filter, List.map_eq_nil_iff, List.filter_eq_nil_iff]
        rintro e -
        by_cases he : e.1 = key <;> simp [he, hkey]
      simp [hnone]
  · rw [lookup_eq_head?_valuesOf, valuesOf_named_plain hkey]

/-! ### Records field by field -/

section Given
variable {α β : Type} {f : Fields} {name : String} {j : Json} {a : α} {b : β}
  {read : Json → Option α}

theorem record_eq_some {look : Fields → Option α} (hf : j.fields? names = some f)
    (ha : look f = some a) : (j.fields? names >>= look) = some a :=
  Option.bind_eq_some_iff.mpr ⟨f, hf, ha⟩

/-- A field that is given is read, and then what comes next. -/
theorem required_bind_eq_some {next : α → Option β} (hj : f.values.lookup name = some j)
    (ha : read j = some a) (hb : next a = some b) : (f.required name read >>= next) = some b := by
  rw [Fields.required, hj]
  exact Option.bind_eq_some_iff.mpr ⟨a, ha, hb⟩

theorem optional_bind_eq_some {next : Option α → Option β} (hj : f.values.lookup name = some j)
    (hnull : j ≠ .null) (ha : read j = some a) (hb : next (some a) = some b) :
    (f.optional name read >>= next) = some b := by
  have hread : orNull? read j = some (some a) := by
    unfold orNull?
    split
    · exact absurd rfl hnull
    · rw [ha, Option.map_some]
  rw [Fields.optional, hj]
  exact Option.bind_eq_some_iff.mpr ⟨some a, hread, hb⟩

end Given

/-! ### Entries in another order -/

/-- Whether the fields of a record are those of another one with their values in canonical form. -/
def Fields.CanonicalOf (f' f : Fields) : Prop :=
  ∀ name, Option.Rel (fun j j' => j.canonical? = some j')
    (f.values.lookup name) (f'.values.lookup name)

section Canonical
variable {es es' : List (String × Json)} (h : List.Forall₂ CanonicalEntry es es')
include h

theorem keys_eq_of_canonicalEntry : es'.map Prod.fst = es.map Prod.fst := by
  induction h with
  | nil => rfl
  | cons he _ ih => rw [List.map_cons, List.map_cons, he.1, ih]

theorem rel_lookup_of_canonicalEntry (name : String) :
    Option.Rel (fun j j' => j.canonical? = some j') (es.lookup name) (es'.lookup name) := by
  induction h with
  | nil => exact .none
  | @cons e e' _ _ he _ ih =>
    rw [List.lookup_cons, List.lookup_cons, he.1]
    cases name == e.1
    · exact ih
    · exact .some he.2

theorem named_of_canonicalEntry :
    List.Forall₂ CanonicalEntry (named names es) (named names es') := by
  refine List.rel_filterMap (fun e e' he => ?_) h
  rw [he.1]
  cases fieldOf? names e.1 with
  | none => exact .none
  | some name => exact .some ⟨rfl, he.2⟩

end Canonical

theorem zip_of_canonicalItems {js js' : List Json}
    (h : List.Forall₂ (fun j j' => j.canonical? = some j') js js') (keys : List String) :
    List.Forall₂ CanonicalEntry (keys.zip js) (keys.zip js') := by
  induction h generalizing keys with
  | nil => simp
  | cons hj _ ih =>
    cases keys with
    | nil => exact .nil
    | cons key keys => exact .cons ⟨rfl, hj⟩ (ih keys)

/-- Sorting keeps the named entries when no two of them stand for one field. -/
theorem mem_named_sortEntries {entries : List (String × Json)}
    (h : ((named names entries).map Prod.fst).Nodup) {e : String × Json} :
    e ∈ named names (sortEntries entries) ↔ e ∈ named names entries := by
  obtain ⟨name, j⟩ := e
  have hsubset := (sortEntries_subperm entries).subset
  constructor
  · intro he
    obtain ⟨key, hmem, hkey⟩ := mem_named.mp he
    exact mem_named.mpr ⟨key, hsubset hmem, hkey⟩
  · intro he
    obtain ⟨key, hmem, hkey⟩ := mem_named.mp he
    obtain ⟨⟨_, j'⟩, hmem', rfl⟩ := List.mem_map.mp
      (mem_keys_sortEntries.mpr (List.mem_map_of_mem hmem : key ∈ _))
    -- The value that is kept for the key is the only one of the field.
    have he' : (name, j') ∈ named names entries := mem_named.mpr ⟨_, hsubset hmem', hkey⟩
    rw [← lookup_eq_some_iff_of_nodup h] at he he'
    rw [Option.some.inj (he.symm.trans he')]
    exact mem_named.mpr ⟨_, hmem', hkey⟩

theorem nodup_named_sortEntries {entries : List (String × Json)}
    (h : ((named names entries).map Prod.fst).Nodup) :
    ((named names (sortEntries entries)).map Prod.fst).Nodup := by
  obtain ⟨l, hperm, hsub⟩ := sortEntries_subperm entries
  exact (((hsub.filterMap _).map _).nodup h).perm ((hperm.filterMap _).map _)

/-- **What a record holds** does not depend on the order of its entries. -/
theorem exists_fields?_of_canonical? {j j' : Json} {f : Fields} (hj : j.canonical? = some j')
    (hf : j.fields? names = some f) : ∃ f', j'.fields? names = some f' ∧ f'.CanonicalOf f := by
  cases j with
  | obj entries =>
    obtain ⟨entries', hentries, rfl⟩ := Option.map_eq_some_iff.mp hj
    obtain ⟨hnodup, rfl⟩ := fields?_obj_eq_some_iff.mp hf
    have hnamed : List.Forall₂ CanonicalEntry (named names entries) (named names entries') :=
      named_of_canonicalEntry (canonicalEntries?_eq_some_iff.mp hentries)
    have hnodup' : ((named names entries').map Prod.fst).Nodup := by
      rwa [keys_eq_of_canonicalEntry hnamed]
    have hsorted := nodup_named_sortEntries hnodup'
    refine ⟨_, fields?_obj_eq_some_iff.mpr ⟨hsorted, rfl⟩, fun name => ?_⟩
    show Option.Rel _ ((named names entries).lookup name) (List.lookup name (named names _))
    rw [lookup_congr_of_nodup hsorted hnodup' fun _ => mem_named_sortEntries hnodup']
    exact rel_lookup_of_canonicalEntry hnamed name
  | arr items =>
    obtain ⟨items', hitems, rfl⟩ := Option.map_eq_some_iff.mp hj
    rw [canonicalItems?_eq_some_iff] at hitems
    rw [fields?, Option.ite_none_right_eq_some] at hf
    obtain ⟨hlength, hf⟩ := hf
    obtain rfl := Option.some.inj hf
    exact ⟨_, if_pos (hitems.length_eq ▸ hlength),
      rel_lookup_of_canonicalEntry (zip_of_canonicalItems hitems _)⟩
  | _ => exact absurd hf nofun

/-! ### Stable readers -/

variable {α β : Type}

/-- Whether what is read from a value is read from its canonical form too. -/
def Stable (read : Json → Option α) : Prop :=
  ∀ ⦃j j' a⦄, j.canonical? = some j' → read j = some a → read j' = some a

theorem stable_canonical? : Stable canonical? := by
  intro j j' a hj ha
  obtain rfl := Option.some.inj (hj.symm.trans ha)
  exact canonical_of_canonical? hj

theorem stable_asString? : Stable asString? := by
  intro j j' a hj ha
  cases j with
  | str s => exact Option.some.inj hj ▸ ha
  | _ => exact absurd ha nofun

theorem stable_asNat? (width : Nat) : Stable (asNat? width) := by
  intro j j' a hj ha
  cases j with
  | int n => exact Option.some.inj hj ▸ ha
  | _ => exact absurd ha nofun

theorem stable_variant? : Stable variant? := by
  intro j j' a hj ha
  unfold variant? at ha
  split at ha
  · exact Option.some.inj hj ▸ ha
  · exact Option.some.inj hj ▸ ha
  · exact absurd ha nofun

theorem Stable.bind {read : Json → Option α} (h : Stable read) (f : α → Option β) :
    Stable fun j => read j >>= f := by
  intro j j' b hj hb
  obtain ⟨a, ha, hb⟩ := Option.bind_eq_some_iff.mp hb
  exact Option.bind_eq_some_iff.mpr ⟨a, h hj ha, hb⟩

theorem Stable.map {read : Json → Option α} (h : Stable read) (f : α → β) :
    Stable fun j => (read j).map f := by
  intro j j' b hj hb
  obtain ⟨a, ha, rfl⟩ := Option.map_eq_some_iff.mp hb
  exact Option.map_eq_some_iff.mpr ⟨a, h hj ha, rfl⟩

theorem Stable.mapM {read : Json → Option α} (h : Stable read) {js js' : List Json} {as : List α}
    (hjs : List.Forall₂ (fun j j' => j.canonical? = some j') js js')
    (has : js.mapM read = some as) : js'.mapM read = some as := by
  rw [mapM_eq_some_iff_forall₂] at has ⊢
  induction hjs generalizing as with
  | nil =>
    cases has
    exact .nil
  | cons hj _ ih =>
    cases has with
    | cons ha has => exact .cons (h hj ha) (ih has)

theorem stable_asList? {read : Json → Option α} (h : Stable read) : Stable (asList? read) := by
  intro j j' as hj has
  cases j with
  | arr items =>
    obtain ⟨items', hitems, rfl⟩ := Option.map_eq_some_iff.mp hj
    exact h.mapM (canonicalItems?_eq_some_iff.mp hitems) has
  | _ => exact absurd has nofun

theorem stable_orNull? {read : Json → Option α} (h : Stable read) : Stable (orNull? read) := by
  intro j j' a hj ha
  cases j with
  | null => exact Option.some.inj hj ▸ ha
  | arr items =>
    obtain ⟨items', -, rfl⟩ := Option.map_eq_some_iff.mp hj
    exact h.map some hj ha
  | obj entries =>
    obtain ⟨entries', -, rfl⟩ := Option.map_eq_some_iff.mp hj
    exact h.map some hj ha
  | unreadable => exact absurd hj nofun
  | _ => exact Option.some.inj hj ▸ ha

/-! ### Stable records -/

/-- Whether what is read from the fields of a record is read from their canonical forms too. -/
def StableFields (read : Fields → Option α) : Prop :=
  ∀ ⦃f f' a⦄, Fields.CanonicalOf f' f → read f = some a → read f' = some a

/-- **A record is stable** when what it reads from its fields is. -/
theorem stable_record {read : Fields → Option α} (h : StableFields read) :
    Stable fun j => j.fields? names >>= read := by
  intro j j' a hj ha
  obtain ⟨f, hf, ha⟩ := Option.bind_eq_some_iff.mp ha
  obtain ⟨f', hf', hcanonical⟩ := exists_fields?_of_canonical? hj hf
  exact Option.bind_eq_some_iff.mpr ⟨f', hf', h hcanonical ha⟩

namespace StableFields

theorem const (a : Option α) : StableFields fun _ => a := fun _ _ _ _ ha => ha

theorem bind {read : Fields → Option α} {next : α → Fields → Option β} (h : StableFields read)
    (hnext : ∀ a, StableFields (next a)) : StableFields fun f => read f >>= fun a => next a f := by
  intro f f' b hf hb
  obtain ⟨a, ha, hb⟩ := Option.bind_eq_some_iff.mp hb
  exact Option.bind_eq_some_iff.mpr ⟨a, h hf ha, hnext a hf hb⟩

variable {read : Json → Option α} (h : Stable read) (name : String)
include h

/-- A field is read when it is given, and stands for something fixed when it is not. -/
theorem field {look : Fields → Option α} (default : Option α)
    (hlook : ∀ f : Fields, look f = (f.values.lookup name).elim default read) :
    StableFields look := by
  intro f f' a hf ha
  have hrel := hf name
  rw [hlook] at ha ⊢
  generalize f.values.lookup name = j, f'.values.lookup name = j' at hrel ha ⊢
  cases hrel with
  | none => exact ha
  | some hj => exact h hj ha

theorem required : StableFields (·.required name read) :=
  field h name none fun f => by unfold Fields.required; cases f.values.lookup name <;> rfl

theorem orDefault (default : α) : StableFields (·.orDefault name read default) :=
  field h name (some default) fun f => by
    unfold Fields.orDefault; cases f.values.lookup name <;> rfl

theorem optional : StableFields (·.optional name read) :=
  field (stable_orNull? h) name (some none) fun f => by
    unfold Fields.optional; cases f.values.lookup name <;> rfl

end StableFields

end Entitlements.Json
