import Entitlements.Proofs.Pages.Collection

/-! # Pages from memory

A directory in memory cuts the permissions of an entity into pages, and each of them can be set to
fail (`MemoryDirectory.pageServer`). As long as none fails, the pages `1` to `i` are the first
`pageSize * i` items (`itemsUpTo_pageServer`), so the page with number `pageCount` is the last one
(`lastPage_pageServer`). `resolve_pages` says what is resolved from memory for a request for all
pages and for the first one. Pages have numbers of 32 bits, and when there are more of them a
request for all stops the caller (`resolve_overflows`). -/

namespace Entitlements

/-- The number of pages with `n` items; without items there is one, which is empty. -/
def pageCount (n : Nat) : Nat := max 1 ((n + (pageSize - 1)) / pageSize)

theorem pageCount_pos (n : Nat) : 1 ≤ pageCount n := Nat.le_max_left ..

theorem lt_pageCount_iff {i n : Nat} (hi : 1 ≤ i) : i < pageCount n ↔ pageSize * i < n := by
  unfold pageCount pageSize
  omega

theorem le_mul_pageCount (n : Nat) : n ≤ pageSize * pageCount n := by
  unfold pageCount pageSize
  omega

namespace MemoryDirectory

variable (m : MemoryDirectory)

/-! ### The server -/

/-- How a page fails that is set to. -/
def pageError (entityId : String) (n : Nat) (status : UInt16) : DirectoryError :=
  .ofStatus status "effective permissions" "resolve" entityId
    ("page " ++ toString n ++ " unavailable")

theorem statusCode_pageError (entityId : String) (n : Nat) (status : UInt16) :
    (pageError entityId n status).statusCode = some status :=
  DirectoryError.statusCode_ofStatus ..

/-- The pages with the permissions of an entity. -/
def pageServer (entityId : String) : PageServer := fun n =>
  match m.pageFailures.lookup n with
  | some status => .error (pageError entityId n status)
  | none => .ok ⟨pageOf (m.resolved entityId) n pageSize, some (m.resolved entityId).length⟩

variable {m} {entityId : String}

theorem pageServer_eq_ok {n : Nat} (h : m.pageFailures.lookup n = none) :
    m.pageServer entityId n =
      .ok ⟨pageOf (m.resolved entityId) n pageSize, some (m.resolved entityId).length⟩ := by
  rw [pageServer, h]

theorem pageServer_eq_error {n : Nat} {status : UInt16}
    (h : m.pageFailures.lookup n = some status) :
    m.pageServer entityId n = .error (pageError entityId n status) := by
  rw [pageServer, h]

theorem serves_pageServer (hfailures : m.failures = []) (query : EffectivePermissionsQuery)
    (c : Nat) : m.directory.Serves query c (m.pageServer query.entityId) := by
  intro n
  generalize m.directory.afterPages query c n = c'
  show ((m.begin .getEffectivePermissions >>= _).call c').1 = _
  rw [Access.call_bind, call_begin hfailures, pageServer]
  cases m.pageFailures.lookup (n + 1) with
  | none => rfl
  | some status => rfl

theorem afterPages_eq (query : EffectivePermissionsQuery) (c : Nat) : ∀ n,
    m.directory.afterPages query c n = c + n
  | 0 => rfl
  | n + 1 => by
    rw [Directory.afterPages, m.call_page, afterPages_eq query c n]
    rfl

/-! ### The items on the pages -/

/-- A page has the items behind those of the pages before it. -/
theorem pageOf_succ_size (items : List Json) (n size : Nat) :
    pageOf items (n + 1) size = (items.drop (max size 1 * n)).take (max size 1) := by
  have hbefore : max (n + 1) 1 - 1 = n := by omega
  rw [pageOf, pageStart, hbefore, Nat.mul_comm]

theorem pageOf_succ (items : List Json) (n : Nat) :
    pageOf items (n + 1) pageSize = (items.drop (pageSize * n)).take pageSize :=
  pageOf_succ_size items n pageSize

theorem pageOf_one (items : List Json) :
    pageOf items 1 pageSize = items.take (min items.length pageSize) := by
  rw [pageOf_succ, Nat.mul_zero, List.drop_zero, Nat.min_comm, ← List.take_take, List.take_length]

theorem itemsUpTo_pageServer : ∀ {n : Nat}, (∀ i, 1 ≤ i → i ≤ n → m.pageFailures.lookup i = none) →
    (m.pageServer entityId).itemsUpTo n = (m.resolved entityId).take (pageSize * n)
  | 0, _ => rfl
  | n + 1, h => by
    have ih := itemsUpTo_pageServer fun i hi hle => h i hi (Nat.le_succ_of_le hle)
    have hpage : m.pageServer entityId (n + 1) = _ :=
      pageServer_eq_ok (h (n + 1) (by omega) le_rfl)
    rw [PageServer.itemsUpTo_succ, ih, PageServer.itemsOf_eq hpage, pageOf_succ, Nat.mul_succ,
      List.take_add]

theorem continues_pageServer {n : Nat} (hn : 1 ≤ n)
    (hlt : n < pageCount (m.resolved entityId).length)
    (h : ∀ i, 1 ≤ i → i ≤ n → m.pageFailures.lookup i = none) :
    (m.pageServer entityId).Continues n := by
  have hmore := (lt_pageCount_iff hn).mp hlt
  refine ⟨_, pageServer_eq_ok (h n hn le_rfl), ?_, ?_⟩
  · rw [itemsUpTo_pageServer h, List.length_take]
    exact Nat.lt_of_le_of_lt (Nat.min_le_left ..) hmore
  · obtain ⟨k, rfl⟩ := Nat.exists_eq_add_of_le' hn
    refine List.length_pos_iff.mp ?_
    rw [pageOf_succ, List.length_take, List.length_drop]
    unfold pageSize at hmore ⊢
    omega

theorem lastPage_pageServer
    (h : ∀ i, 1 ≤ i → i ≤ pageCount (m.resolved entityId).length →
      m.pageFailures.lookup i = none) :
    (m.pageServer entityId).LastPage (pageCount (m.resolved entityId).length) where
  pos := pageCount_pos _
  before _ hi hlt :=
    continues_pageServer hi hlt fun j hj hle => h j hj (Nat.le_trans hle (Nat.le_of_lt hlt))
  ends := by
    refine ⟨_, pageServer_eq_ok (h _ (pageCount_pos _) le_rfl), .inl ?_⟩
    rw [itemsUpTo_pageServer h, List.length_take]
    exact le_min (le_mul_pageCount _) le_rfl

theorem failsAt_pageServer {p : Nat} {status : UInt16} (hp : 1 ≤ p)
    (hle : p ≤ pageCount (m.resolved entityId).length)
    (hfail : m.pageFailures.lookup p = some status)
    (h : ∀ i, 1 ≤ i → i < p → m.pageFailures.lookup i = none) :
    (m.pageServer entityId).FailsAt p (pageError entityId p status) where
  pos := hp
  before _ hi hlt :=
    continues_pageServer hi (Nat.lt_of_lt_of_le hlt hle) fun j hj hji =>
      h j hj (Nat.lt_of_le_of_lt hji hlt)
  fails := pageServer_eq_error hfail

/-! ### What is resolved -/

/-- **All pages of a directory in memory**: all items when none of the pages fails, else the error
of the first one that does, and no page is asked for behind it. A request for the first page depends
on this page alone. Pages are numbered with 32 bits, and more of them cannot be asked for. -/
theorem resolve_pages (m : MemoryDirectory) {request : ResolveRequest} {entityId : String}
    {c₀ c : Nat} {log₀ log : List Record} (hfailures : m.failures = [])
    (hid : (m.directory.recorded.canonicalId request.entityType request.entityId).call (c₀, log₀) =
      (.ok (some entityId), (c, log))) :
    let query := request.query m.account entityId
    let items := m.resolved entityId
    let pages := pageCount items.length
    let resolvesTo outcome n := (m.directory.recorded.resolve request).call (c₀, log₀) =
      (.ok outcome, (c + n, log ++ (m.pageServer entityId).records query n))
    (request.allPages = true →
      (pages ≤ maxPages → (∀ i, 1 ≤ i → i ≤ pages → m.pageFailures.lookup i = none) →
        resolvesTo (.found (query.report items items.length)) pages) ∧
      ∀ p status, 1 ≤ p → p ≤ pages → p ≤ maxPages → m.pageFailures.lookup p = some status →
        (∀ i, 1 ≤ i → i < p → m.pageFailures.lookup i = none) →
          resolvesTo (.failed ⟨(pageError entityId p status).message, some status⟩) p) ∧
    (request.allPages = false →
      (m.pageFailures.lookup 1 = none →
        resolvesTo (.found (query.report (items.take (min items.length pageSize)) items.length)) 1) ∧
      ∀ status, m.pageFailures.lookup 1 = some status →
        resolvesTo (.failed ⟨(pageError entityId 1 status).message, some status⟩) 1) := by
  intro query items pages resolvesTo
  have hserver : m.directory.Serves query c (m.pageServer entityId) :=
    serves_pageServer hfailures query c
  have hrecorded := hserver.recorded log
  have hstate : ∀ n, m.directory.recorded.afterPages query (c, log) n =
      (c + n, log ++ (m.pageServer entityId).records query n) := fun n => by
    rw [hserver.afterPages_recorded log n, afterPages_eq query c n]
  refine ⟨fun hall => ⟨fun hpages h => ?_, fun p status hp hle hnumber hfail h => ?_⟩,
    fun hfirst => ⟨fun h => ?_, fun status h => ?_⟩⟩
  · have hcall := Directory.Serves.call_resolve_of_lastPage hall hrecorded hid
      (lastPage_pageServer h) hpages
    have hitems : (m.pageServer entityId).itemsUpTo pages = items := by
      rw [itemsUpTo_pageServer h]
      exact List.take_of_length_le (le_mul_pageCount _)
    rw [hitems] at hcall
    exact hcall.trans (Prod.ext rfl (hstate pages))
  · have hcall := Directory.Serves.call_resolve_of_failsAt hall hrecorded hid
      (failsAt_pageServer hp hle hfail h) hnumber
    rw [statusCode_pageError] at hcall
    exact hcall.trans (Prod.ext rfl (hstate p))
  · have hcall := Directory.Serves.call_resolve_of_first hfirst hrecorded hid (pageServer_eq_ok h)
    rw [pageOf_one] at hcall
    exact hcall.trans (Prod.ext rfl (hstate 1))
  · have hcall := Directory.Serves.call_resolve_of_first_fails hfirst hrecorded hid
      (pageServer_eq_error h)
    rw [statusCode_pageError] at hcall
    exact hcall.trans (Prod.ext rfl (hstate 1))

/-- The items of two pages. -/
def manyItems : List Json := (List.range 150).map Json.ofNat

/-- A user with 150 permissions, and a page set to fail behind the two that hold them. -/
def twoPages : MemoryDirectory where
  account := "account"
  resolutions := [("u", manyItems)]
  pageFailures := [(9, 500)]

/-- The same user, whose second page is set to fail as well. -/
def secondFails : MemoryDirectory :=
  { twoPages with pageFailures := [(9, 500), (2, 503)] }

theorem length_manyItems : manyItems.length = 150 := by
  rw [manyItems, List.length_map, List.length_range]

theorem resolved_twoPages : twoPages.resolved "u" = manyItems := rfl

theorem lookup_twoPages : ∀ i, 1 ≤ i → i ≤ 2 → twoPages.pageFailures.lookup i = none
  | 1, _, _ => rfl
  | 2, _, _ => rfl

theorem lookup_secondFails : ∀ i, 1 ≤ i → i < 2 → secondFails.pageFailures.lookup i = none
  | 1, _, _ => rfl

/-- All items after two requests, the error of the second page, and the first items in spite of
it. -/
theorem twoPages_resolve_pages :
    let all := ResolveRequest.ofUser "u"
    let first := { all with allPages := false }
    let query := all.query "account" "u"
    (twoPages.directory.recorded.resolve all).call (0, []) =
        (.ok (.found (query.report manyItems 150)),
          (2, (twoPages.pageServer "u").records query 2)) ∧
      (secondFails.directory.recorded.resolve all).call (0, []) =
        (.ok (.failed ⟨"Failed to resolve effective permissions: page 2 unavailable", some 503⟩),
          (2, (secondFails.pageServer "u").records query 2)) ∧
      (secondFails.directory.recorded.resolve first).call (0, []) =
        (.ok (.found (query.report (manyItems.take 100) 150)),
          (1, (secondFails.pageServer "u").records query 1)) := by
  intro all first query
  have hid : ∀ (m : MemoryDirectory) (r : ResolveRequest), r.entityType = .user →
      r.entityId = "u" → (m.directory.recorded.canonicalId r.entityType r.entityId).call (0, []) =
        (.ok (some "u"), (0, [])) := fun m r htype hentity => by
    rw [htype, hentity]
    rfl
  have hcount : pageCount 150 = 2 := rfl
  have hall := (twoPages.resolve_pages rfl (hid _ all rfl rfl)).1
  have hfails := (secondFails.resolve_pages rfl (hid _ all rfl rfl)).1
  have hfirst := (secondFails.resolve_pages rfl (hid _ first rfl rfl)).2
  have hsame : secondFails.resolved "u" = manyItems := rfl
  simp only [resolved_twoPages, hsame, length_manyItems, hcount] at hall hfails hfirst
  refine ⟨(hall rfl).1 (by decide) lookup_twoPages, ?_, (hfirst rfl).1 rfl⟩
  exact (hfails rfl).2 2 503 (by decide) (by decide) (by decide) rfl lookup_secondFails

/-- With more pages than can be numbered, a request for all of them stops the caller. -/
theorem resolve_overflows (m : MemoryDirectory) {request : ResolveRequest} {entityId : String}
    {c₀ c : Nat} (hfailures : m.failures = []) (hall : request.allPages = true)
    (hid : (m.directory.canonicalId request.entityType request.entityId).call c₀ =
      (.ok (some entityId), c))
    (hmany : maxPages < pageCount (m.resolved entityId).length)
    (h : ∀ i, 1 ≤ i → i ≤ maxPages → m.pageFailures.lookup i = none) :
    (m.directory.resolve request).call c₀ =
      (.error (.abort .pageOverflow), c + maxPages) := by
  have hserver : m.directory.Serves (request.query m.account entityId) c (m.pageServer entityId) :=
    serves_pageServer hfailures _ c
  have hcontinues : ∀ i, 1 ≤ i → i ≤ maxPages → (m.pageServer entityId).Continues i :=
    fun i hi hle => continues_pageServer hi (Nat.lt_of_le_of_lt hle hmany) fun j hj hji =>
      h j hj (Nat.le_trans hji hle)
  have hcall := Directory.Serves.call_resolve_of_continues hall hserver hid hcontinues
  exact hcall.trans (Prod.ext rfl (afterPages_eq _ c maxPages))

/-- A user with that many permissions. -/
def withItems (n : Nat) : MemoryDirectory where
  account := "account"
  resolutions := [("u", List.replicate n .null)]

/-- One permission more than the numbered pages hold is on a page without a number. No page is set
to fail, and nothing is resolved. -/
theorem withItems_overflows :
    let n := 429496729501
    let m := withItems n
    (m.resolved "u").length = n ∧ n / pageSize < Nat.pow 2 32 ∧ pageCount n = Nat.pow 2 32 ∧
      (∀ i, m.pageFailures.lookup i = none) ∧
      (m.directory.resolve (.ofUser "u")).call 0 =
        (.error (.abort .pageOverflow), Nat.pow 2 32 - 1) := by
  intro n m
  have hlength : (m.resolved "u").length = n := List.length_replicate
  have hmany : maxPages < pageCount (m.resolved "u").length := by
    rw [hlength]
    decide
  have hcall : (m.directory.resolve (.ofUser "u")).call 0 =
      (.error (.abort .pageOverflow), 0 + maxPages) :=
    m.resolve_overflows rfl rfl rfl hmany fun _ _ _ => rfl
  rw [Nat.zero_add] at hcall
  exact ⟨hlength, by decide, by decide, fun _ => rfl, hcall⟩

end MemoryDirectory

end Entitlements
