import Entitlements.Proofs.Pages.Memory
import Mathlib.Algebra.GroupWithZero.Nat

/-! # Pages of any size

A directory in memory hands out the permissions of an entity in pages of whatever size is asked for.
`Partition` says what makes pages a division of the items: put together they are the items from the
first one on, each of them is full as long as there is another one behind it, and behind the items
they are empty. The pages of one size are such a division (`partition_pageOf`), which
`pages_partition` says of the answers to the calls. -/

namespace Entitlements

/-- The pages are a division of the items, with room for so many on each page. Pages count from one,
and page zero is the first. -/
structure Partition (items : List Json) (room : Nat) (page : Nat → List Json) : Prop where
  upTo : ∀ k, (List.range' 1 k).flatMap page = items.take (k * room)
  /-- A page in front of one that is not empty. -/
  full : ∀ n n', max n 1 < n' → page n' ≠ [] → (page n).length = room
  /-- The pages that start past the end. -/
  eq_nil_iff : ∀ n, page n = [] ↔ items.length ≤ (max n 1 - 1) * room
  zero : page 0 = page 1

namespace MemoryDirectory

/-! ### The items on a page -/

section Items
variable (items : List Json) (size : Nat)

theorem length_pageOf (n : Nat) :
    (pageOf items n size).length = min (max size 1) (items.length - pageStart n size) := by
  unfold pageOf
  rw [List.length_take, List.length_drop]

theorem pageOf_eq_nil_iff (n : Nat) :
    pageOf items n size = [] ↔ items.length ≤ pageStart n size := by
  have hroom : 1 ≤ max size 1 := Nat.le_max_right ..
  rw [← List.length_eq_zero_iff, length_pageOf]
  omega

/-- One page more holds the items that follow. -/
theorem flatMap_pageOf : ∀ k,
    (List.range' 1 k).flatMap (pageOf items · size) = items.take (max size 1 * k)
  | 0 => rfl
  | k + 1 => by
    rw [List.range'_1_concat, List.flatMap_append, flatMap_pageOf k, List.flatMap_singleton,
      Nat.add_comm 1 k, pageOf_succ_size, Nat.mul_succ, List.take_add]

/-- What starts behind a page leaves no room on it. -/
theorem pageStart_add_le {n n' : Nat} (h : max n 1 < n') :
    pageStart n size + max size 1 ≤ pageStart n' size := by
  have hbefore : max n 1 - 1 + 1 ≤ max n' 1 - 1 := by omega
  unfold pageStart
  rw [← Nat.succ_mul]
  exact Nat.mul_le_mul_right _ hbefore

theorem length_pageOf_of_later {n n' : Nat} (h : max n 1 < n')
    (hne : pageOf items n' size ≠ []) : (pageOf items n size).length = max size 1 := by
  have hstart := pageStart_add_le size h
  have hmore : pageStart n' size < items.length :=
    Nat.not_le.mp (mt (pageOf_eq_nil_iff items size n').mpr hne)
  rw [length_pageOf]
  omega

/-- **The pages of one size** are a division of the items. -/
theorem partition_pageOf : Partition items (max size 1) (pageOf items · size) where
  upTo k := by rw [flatMap_pageOf, Nat.mul_comm]
  full _ _ := length_pageOf_of_later items size
  eq_nil_iff := pageOf_eq_nil_iff items size
  zero := rfl

end Items

/-! ### Where a page starts -/

theorem toNat_max_one (n : UInt32) : (max n 1).toNat = max n.toNat 1 := by
  have hmax : max n 1 = if n ≤ 1 then 1 else n := rfl
  have hle : n ≤ 1 ↔ n.toNat ≤ 1 := Iff.rfl
  rw [hmax]
  split_ifs with h
  · exact (Nat.max_eq_right (hle.mp h)).symm
  · exact (Nat.max_eq_left (Nat.le_of_not_le (mt hle.mpr h))).symm

theorem pageStart_lt (page size : UInt32) : pageStart page.toNat size.toNat < 2 ^ 64 := by
  have hpage : max page.toNat 1 - 1 < 2 ^ 32 := by have := page.toNat_lt; omega
  have hsize : max size.toNat 1 < 2 ^ 32 := by have := size.toNat_lt; omega
  calc pageStart page.toNat size.toNat < 2 ^ 32 * 2 ^ 32 := Nat.mul_lt_mul'' hpage hsize
    _ = 2 ^ 64 := (Nat.pow_add 2 32 32).symm

/-- Numbers of 64 bits hold the start of every page with a number and a size of 32 bits. -/
theorem toNat_start (page size : UInt32) :
    (((max page 1).toUInt64 - 1) * (max size 1).toUInt64).toNat =
      pageStart page.toNat size.toNat := by
  have hpage : (1 : UInt64) ≤ (max page 1).toUInt64 := by
    rw [UInt64.le_iff_toNat_le, UInt32.toNat_toUInt64, toNat_max_one]
    exact Nat.le_max_right ..
  have hlt := pageStart_lt page size
  unfold pageStart at hlt ⊢
  rw [UInt64.toNat_mul, UInt64.toNat_sub_of_le _ _ hpage, UInt32.toNat_toUInt64,
    UInt32.toNat_toUInt64, toNat_max_one, toNat_max_one]
  exact Nat.mod_eq_of_lt hlt

/-! ### The answers -/

variable {m : MemoryDirectory}

theorem counted_page (hfailures : m.failures = []) (hpages : m.pageFailures = [])
    (query : EffectivePermissionsQuery) (n size : Nat) :
    Counted (m.directory.effectivePermissions query n size)
      (.ok ⟨pageOf (m.resolved query.entityId) n size,
        some (m.resolved query.entityId).length⟩) := by
  intro c
  show (m.begin .getEffectivePermissions >>= _).call c = _
  rw [call_begin_bind hfailures, hpages]
  rfl

/-- Calls that succeed one after the other. -/
theorem call_mapM_of_counted {α β : Type} {f : α → Access Nat β} {g : α → β}
    (h : ∀ x, Counted (f x) (.ok (g x))) :
    ∀ (xs : List α) (c : Nat), (xs.mapM f).call c = (.ok (xs.map g), c + xs.length)
  | [], c => by rw [List.mapM_nil]; rfl
  | x :: xs, c => by
    rw [List.mapM_cons, Access.call_bind, h x c]
    dsimp only
    rw [Access.call_bind, call_mapM_of_counted h xs (c + 1), List.map_cons, List.length_cons,
      Nat.add_right_comm]
    rfl

/-- **Pages divide the items.** When no call is set to fail, every page of whatever size is answered
with the number of all items as its total. The pages of one size divide the items, so that asking
for the first ones one after the other, and for as many as one likes, gives the items in their order
as far as there is room. The start of a page never leaves 64 bits, however it is asked for with
32. -/
theorem pages_partition (m : MemoryDirectory) (hfailures : m.failures = [])
    (hpages : m.pageFailures = []) (query : EffectivePermissionsQuery) (size : Nat) :
    let items := m.resolved query.entityId
    let ask n := m.directory.effectivePermissions query n size
    (∃ page, Partition items (max size 1) page ∧
      (∀ n c, (ask n).call c = (.ok ⟨page n, some items.length⟩, c + 1)) ∧
      ∀ k c, ∃ pages, ((List.range' 1 k).mapM ask).call c = (.ok pages, c + k) ∧
        pages.flatMap (·.items) = items.take (k * max size 1)) ∧
    ∀ n s : UInt32, (max n.toNat 1 - 1) * max s.toNat 1 < 2 ^ 64 ∧
      (((max n 1).toUInt64 - 1) * (max s 1).toUInt64).toNat =
        (max n.toNat 1 - 1) * max s.toNat 1 := by
  intro items ask
  have hcounted : ∀ n, Counted (ask n) (.ok ⟨pageOf items n size, some items.length⟩) :=
    fun n => counted_page hfailures hpages query n size
  have hpartition := partition_pageOf items size
  refine ⟨⟨_, hpartition, hcounted, fun k c => ?_⟩, fun n s => ⟨pageStart_lt n s, toNat_start n s⟩⟩
  have hcall := call_mapM_of_counted hcounted (List.range' 1 k) c
  rw [List.length_range'] at hcall
  refine ⟨_, hcall, ?_⟩
  rw [List.flatMap_map]
  exact hpartition.upTo k

/-- A user with five permissions. -/
def fiveItems : MemoryDirectory where
  account := "account"
  resolutions := [("u", [.ofNat 0, .ofNat 1, .ofNat 2, .ofNat 3, .ofNat 4])]

/-- Two items on a page: the third page holds what is left, and the fourth is empty. -/
theorem fiveItems_partition :
    let query : EffectivePermissionsQuery := ⟨"u", .user, "account", "account", []⟩
    let ask n := fiveItems.directory.effectivePermissions query n 2
    fiveItems.failures = [] ∧ fiveItems.pageFailures = [] ∧
      ∃ page, Partition (fiveItems.resolved "u") 2 page ∧
        (∀ n c, (ask n).call c = (.ok ⟨page n, some 5⟩, c + 1)) ∧
        page 0 = [.ofNat 0, .ofNat 1] ∧ page 3 = [.ofNat 4] ∧ page 4 = [] := by
  intro query ask
  obtain ⟨⟨page, hpartition, hask, -⟩, -⟩ := fiveItems.pages_partition rfl rfl query 2
  have hpage : ∀ n items, (ask n).call 0 = (.ok ⟨items, some 5⟩, 1) → page n = items := by
    intro n items h
    have heq := (hask n 0).symm.trans h
    cases heq
    rfl
  exact ⟨rfl, rfl, page, hpartition, hask, hpage 0 _ rfl, hpage 3 _ rfl, hpage 4 _ rfl⟩

end MemoryDirectory

end Entitlements
