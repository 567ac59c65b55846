import Mathlib.Data.Nat.Find
import Mathlib.Order.Basic
import Mathlib.Tactic.ByContra
import Entitlements.Proofs.Access.Each
import Entitlements.Proofs.Directory.Memory
import Entitlements.Proofs.Directory.Recorded
import Entitlements.Review.Resolution

/-! # Collecting pages

What becomes of a request for all pages, whatever server answers it (`PageServer`). The pages are
asked for in order until one of them is the last (`PageServer.LastPage`) or fails
(`PageServer.FailsAt`). `Serves.call_fetchPages_succ` is one page of the loop,
`Serves.call_fetchPages_add` the pages that do not end it; `resolve_collects_pages` says what is
reported after which requests, and how many they are at most when the reported totals are
bounded. -/

namespace Entitlements

/-! ### Servers -/

/-- The answer to the request for each page, by its number. -/
abbrev PageServer := Nat → Except DirectoryError EffectivePermissionsPage

namespace PageServer

variable (server : PageServer)

/-- The items of a page; none when it fails. -/
def itemsOf (n : Nat) : List Json := ((server n).toOption.map (·.items)).getD []

/-- The items of the pages `1` to `n`, in order. -/
def itemsUpTo (n : Nat) : List Json := (List.range' 1 n).flatMap server.itemsOf

/-- A page with items, behind which fewer have been received than it reports in total. -/
def Continues (n : Nat) : Prop :=
  ∃ p, server n = .ok p ∧ (server.itemsUpTo n).length < p.reportedTotal ∧ p.items ≠ []

/-- `k` is the first page at which as many items have been received as it reports in total, or
which is empty; no page before it fails. -/
structure LastPage (k : Nat) : Prop where
  pos : 1 ≤ k
  before : ∀ i, 1 ≤ i → i < k → server.Continues i
  ends : ∃ p, server k = .ok p ∧ (p.reportedTotal ≤ (server.itemsUpTo k).length ∨ p.items = [])

/-- `j` is the first page that fails, and no page before it is the last one. -/
structure FailsAt (j : Nat) (e : DirectoryError) : Prop where
  pos : 1 ≤ j
  before : ∀ i, 1 ≤ i → i < j → server.Continues i
  fails : server j = .error e

variable {server}

theorem itemsOf_eq {n : Nat} {p : EffectivePermissionsPage} (h : server n = .ok p) :
    server.itemsOf n = p.items := by
  rw [itemsOf, h]
  rfl

theorem itemsUpTo_succ (n : Nat) :
    server.itemsUpTo (n + 1) = server.itemsUpTo n ++ server.itemsOf (n + 1) := by
  rw [itemsUpTo, itemsUpTo, List.range'_1_concat, List.flatMap_append, List.flatMap_singleton,
    Nat.add_comm 1 n]

/-- Every page that does not end the collection brings at least one item. -/
theorem le_length_itemsUpTo : ∀ {n : Nat}, (∀ i, 1 ≤ i → i ≤ n → server.Continues i) →
    n ≤ (server.itemsUpTo n).length
  | 0, _ => Nat.zero_le _
  | n + 1, h => by
    have ih := le_length_itemsUpTo fun i hi hle => h i hi (Nat.le_succ_of_le hle)
    obtain ⟨p, hp, -, hne⟩ := h (n + 1) (by omega) le_rfl
    have hpos : 0 < p.items.length := List.length_pos_iff.mpr hne
    rw [itemsUpTo_succ, itemsOf_eq hp, List.length_append]
    omega

theorem length_itemsOf_le {n : Nat} (hn : 1 ≤ n) :
    (server.itemsOf n).length ≤ (server.itemsUpTo n).length := by
  obtain ⟨m, rfl⟩ := Nat.exists_eq_add_of_le' hn
  rw [itemsUpTo_succ, List.length_append]
  omega

/-- **A bound on the totals bounds the pages** that do not end the collection: such a page reports
a total, and more items are missing than pages have been asked for. -/
theorem lt_of_continues {T n : Nat} (hT : ∀ n p t, server n = .ok p → p.total = some t → t ≤ T)
    (hn : 1 ≤ n) (h : ∀ i, 1 ≤ i → i ≤ n → server.Continues i) : n < T := by
  obtain ⟨p, hp, hlt, -⟩ := h n hn le_rfl
  have hle := le_length_itemsUpTo h
  have hitems : (server.itemsOf n).length ≤ (server.itemsUpTo n).length := length_itemsOf_le hn
  rw [itemsOf_eq hp] at hitems
  cases htotal : p.total with
  | none =>
    -- a page without a total reports its own items, and they have been received
    rw [EffectivePermissionsPage.reportedTotal, htotal, Option.getD_none] at hlt
    omega
  | some t =>
    have ht := hT n p t hp htotal
    rw [EffectivePermissionsPage.reportedTotal, htotal, Option.getD_some] at hlt
    omega

/-- The first page that does not continue is the last one or fails. -/
theorem lastPage_or_failsAt {n : Nat} (hn : 1 ≤ n)
    (hbefore : ∀ i, 1 ≤ i → i < n → server.Continues i) (h : ¬ server.Continues n) :
    server.LastPage n ∨ ∃ e, server.FailsAt n e := by
  cases hanswer : server n with
  | error e => exact .inr ⟨e, hn, hbefore, hanswer⟩
  | ok p =>
    refine .inl ⟨hn, hbefore, p, hanswer, ?_⟩
    by_contra hends
    rw [not_or, Nat.not_le] at hends
    exact h ⟨p, hanswer, hends⟩

theorem exists_lastPage_or_failsAt {T : Nat}
    (hT : ∀ n p t, server n = .ok p → p.total = some t → t ≤ T) :
    ∃ n, 1 ≤ n ∧ n ≤ max 1 T ∧ (server.LastPage n ∨ ∃ e, server.FailsAt n e) := by
  classical
  have hexists : ∃ n, 1 ≤ n ∧ ¬ server.Continues n := by
    by_contra hnone
    have hall : ∀ i, 1 ≤ i → i ≤ max 1 T → server.Continues i := fun i hi _ => by
      by_contra hi'
      exact hnone ⟨i, hi, hi'⟩
    have := lt_of_continues hT (Nat.le_max_left 1 T) hall
    omega
  obtain ⟨hpos, hstop⟩ := Nat.find_spec hexists
  have hbefore : ∀ i, 1 ≤ i → i < Nat.find hexists → server.Continues i := fun i hi hlt => by
    by_contra hi'
    exact Nat.find_min hexists hlt ⟨hi, hi'⟩
  refine ⟨Nat.find hexists, hpos, ?_, lastPage_or_failsAt hpos hbefore hstop⟩
  by_contra hgt
  have hall : ∀ i, 1 ≤ i → i ≤ max 1 T → server.Continues i := fun i hi hle =>
    hbefore i hi (by omega)
  have := lt_of_continues hT (Nat.le_max_left 1 T) hall
  omega

end PageServer

/-! ### Requests -/

/-- The requests for the pages `1` to `n`, in order, with the answers of the server. -/
def PageServer.records (server : PageServer) (query : EffectivePermissionsQuery) (n : Nat) :
    List Record :=
  (List.range' 1 n).map fun i => .page query i pageSize ((server i).mapError Failure.error)

theorem one_le_maxPages : 1 ≤ maxPages := by decide

namespace Directory

/-- The state after the pages `1` to `n` have been asked for in order, and nothing else. -/
def afterPages {σ : Type} (d : Directory σ) (query : EffectivePermissionsQuery) (s : σ) : Nat → σ
  | 0 => s
  | n + 1 => ((d.effectivePermissions query (n + 1) pageSize).call (afterPages d query s n)).2

variable {σ : Type} {d : Directory σ} {query : EffectivePermissionsQuery} {s : σ}
  {server : PageServer}

/-- Asked for its pages in order, the directory answers like `server`. -/
def Serves (d : Directory σ) (query : EffectivePermissionsQuery) (s : σ) (server : PageServer) :
    Prop :=
  ∀ n, ((d.effectivePermissions query (n + 1) pageSize).call (d.afterPages query s n)).1 =
    (server (n + 1)).mapError Failure.error

theorem Serves.call_eq (h : d.Serves query s server) (n : Nat) :
    (d.effectivePermissions query (n + 1) pageSize).call (d.afterPages query s n) =
      ((server (n + 1)).mapError Failure.error, d.afterPages query s (n + 1)) :=
  Prod.ext (h n) rfl

theorem Serves.afterPages_recorded (h : d.Serves query s server) (log : List Record) : ∀ n,
    d.recorded.afterPages query (s, log) n =
      (d.afterPages query s n, log ++ server.records query n)
  | 0 => by simp [afterPages, PageServer.records]
  | n + 1 => by
    rw [afterPages, h.afterPages_recorded log n]
    show (((d.effectivePermissions query (n + 1) pageSize).recorded _).call _).2 = _
    rw [Access.call_recorded, h.call_eq n, PageServer.records, PageServer.records,
      List.range'_1_concat, List.map_append, List.append_assoc, Nat.add_comm 1 n]
    rfl

theorem Serves.recorded (h : d.Serves query s server) (log : List Record) :
    d.recorded.Serves query (s, log) server := by
  intro n
  rw [h.afterPages_recorded log n]
  exact h n

/-! ### The loop -/

section Loop
variable (h : d.Serves query s server)
include h

/-- **One page more**: it fails, or it is the last one, or the next page is asked for. -/
theorem Serves.call_fetchPages_succ (more n : Nat) :
    (d.fetchPages query (more + 1) (n + 1) (server.itemsUpTo n)).call (d.afterPages query s n) =
      match server (n + 1) with
      | .error e => (.error (.error e), d.afterPages query s (n + 1))
      | .ok p =>
        if p.reportedTotal ≤ (server.itemsUpTo (n + 1)).length ∨ p.items = [] then
          (.ok (server.itemsUpTo (n + 1)), d.afterPages query s (n + 1))
        else (d.fetchPages query more (n + 1 + 1) (server.itemsUpTo (n + 1))).call
          (d.afterPages query s (n + 1)) := by
  rw [fetchPages, Access.call_bind, h.call_eq n]
  cases hanswer : server (n + 1) with
  | error e => rfl
  | ok p =>
    have hitems : server.itemsUpTo (n + 1) = _ := PageServer.itemsUpTo_succ n
    rw [PageServer.itemsOf_eq hanswer] at hitems
    simp only [Except.mapError, ← hitems, Bool.or_eq_true, decide_eq_true_eq, List.isEmpty_iff]
    split
    · rfl
    · rfl

/-- Pages that do not end the collection are gone through. -/
theorem Serves.call_fetchPages_add (more : Nat) : ∀ {n : Nat},
    (∀ i, 1 ≤ i → i ≤ n → server.Continues i) →
      (d.fetchPages query (n + more) 1 []).call s =
        (d.fetchPages query more (n + 1) (server.itemsUpTo n)).call (d.afterPages query s n)
  | 0, _ => by rw [Nat.zero_add]; rfl
  | n + 1, hcontinues => by
    have ih := Serves.call_fetchPages_add (more + 1) fun i hi hle =>
      hcontinues i hi (Nat.le_succ_of_le hle)
    obtain ⟨p, hp, hlt, hne⟩ := hcontinues (n + 1) (by omega) le_rfl
    have hgoes : ¬ (p.reportedTotal ≤ (server.itemsUpTo (n + 1)).length ∨ p.items = []) :=
      fun hends => hends.elim (Nat.not_le.mpr hlt) hne
    rw [Nat.add_right_comm, Nat.add_assoc, ih, h.call_fetchPages_succ, hp]
    exact if_neg hgoes

theorem Serves.call_fetchPages_of_before {n : Nat} (hn : 1 ≤ n) (hmax : n ≤ maxPages)
    (hbefore : ∀ i, 1 ≤ i → i < n → server.Continues i) :
    ∃ more, (d.fetchPages query maxPages 1 []).call s =
      match server n with
      | .error e => (.error (.error e), d.afterPages query s n)
      | .ok p =>
        if p.reportedTotal ≤ (server.itemsUpTo n).length ∨ p.items = [] then
          (.ok (server.itemsUpTo n), d.afterPages query s n)
        else (d.fetchPages query more (n + 1) (server.itemsUpTo n)).call
          (d.afterPages query s n) := by
  obtain ⟨m, rfl⟩ := Nat.exists_eq_add_of_le' hn
  -- the number of pages is split, never computed: the loop recurses on it
  have hmore : maxPages = m + (maxPages - (m + 1) + 1) := by omega
  refine ⟨maxPages - (m + 1), ?_⟩
  rw [hmore, h.call_fetchPages_add _ fun i hi hle => hbefore i hi (Nat.lt_succ_of_le hle),
    ← hmore, h.call_fetchPages_succ]

theorem Serves.call_fetchAll_of_lastPage {k : Nat} (hk : server.LastPage k) (hmax : k ≤ maxPages) :
    (d.fetchAll query).call s =
      (.ok (server.itemsUpTo k, (server.itemsUpTo k).length), d.afterPages query s k) := by
  obtain ⟨p, hp, hends⟩ := hk.ends
  obtain ⟨more, hcall⟩ := h.call_fetchPages_of_before hk.pos hmax hk.before
  rw [hp] at hcall
  simp only [if_pos hends] at hcall
  rw [fetchAll, Access.call_bind, hcall]
  rfl

theorem Serves.call_fetchAll_of_failsAt {j : Nat} {e : DirectoryError} (hj : server.FailsAt j e)
    (hmax : j ≤ maxPages) :
    (d.fetchAll query).call s = (.error (.error e), d.afterPages query s j) := by
  obtain ⟨more, hcall⟩ := h.call_fetchPages_of_before hj.pos hmax hj.before
  rw [hj.fails] at hcall
  rw [fetchAll, Access.call_bind, hcall]

/-- When none of the numbered pages ends the collection, there is no number for the next one. -/
theorem Serves.call_fetchAll_of_continues
    (hcontinues : ∀ i, 1 ≤ i → i ≤ maxPages → server.Continues i) :
    (d.fetchAll query).call s =
      (.error (.abort .pageOverflow), d.afterPages query s maxPages) := by
  have hcall := h.call_fetchPages_add 0 hcontinues
  rw [Nat.add_zero] at hcall
  rw [fetchAll, Access.call_bind, hcall]
  rfl

theorem Serves.call_fetchFirst :
    (d.fetchFirst query).call s =
      match server 1 with
      | .error e => (.error (.error e), d.afterPages query s 1)
      | .ok p => (.ok (p.items, p.reportedTotal), d.afterPages query s 1) := by
  have hcall : (d.effectivePermissions query 1 pageSize).call s = _ := h.call_eq 0
  rw [fetchFirst, Access.call_bind, hcall]
  cases server 1 with
  | error e => rfl
  | ok p => rfl

end Loop

end Directory

/-! ### Reports -/

/-- What the platform is asked for once the entity is known; `account` is the level when none is
given. -/
def ResolveRequest.query (request : ResolveRequest) (account entityId : String) :
    EffectivePermissionsQuery :=
  ⟨entityId, request.entityType, request.levelType, request.levelId.getD account,
    request.services⟩

/-- All permissions of the user with a uid. -/
def ResolveRequest.ofUser (uid : String) : ResolveRequest :=
  { entityId := uid, entityType := .user }

/-- The report on these items. -/
def EffectivePermissionsQuery.report (query : EffectivePermissionsQuery) (items : List Json)
    (total : Nat) : EffectivePermissionsReport :=
  ⟨query.entityId, query.entityType, query.levelType, query.levelId, items, total⟩

namespace Directory

variable {σ : Type} (d : Directory σ) {request : ResolveRequest} {entityId : String}

/-- The items of one page or of all. -/
def fetch (query : EffectivePermissionsQuery) (allPages : Bool) : Access σ (List Json × Nat) :=
  if allPages then d.fetchAll query else d.fetchFirst query

theorem resolveQuery_eq (query : EffectivePermissionsQuery) (allPages : Bool) :
    d.resolveQuery query allPages =
      (do let p ← d.fetch query allPages; return query.report p.1 p.2) := by
  cases allPages with
  | true => rfl
  | false => rfl

/-- What a request becomes once the entity is known: the failure of a page is an outcome. -/
theorem call_resolve {s₀ s : σ}
    (hid : (d.canonicalId request.entityType request.entityId).call s₀ =
      (.ok (some entityId), s)) :
    (d.resolve request).call s₀ =
      match (d.fetch (request.query d.account entityId) request.allPages).call s with
      | (.ok p, s') => (.ok (.found ((request.query d.account entityId).report p.1 p.2)), s')
      | (.error (.error e), s') => (.ok (.failed ⟨e.message, e.statusCode⟩), s')
      | (.error (.abort a), s') => (.error (.abort a), s') := by
  rw [resolve, Access.call_bind, Access.call_reported, hid]
  show ((d.resolveQuery (request.query d.account entityId) _).reported >>= _).call s = _
  rw [Access.call_bind, Access.call_reported, resolveQuery_eq, Access.call_bind]
  rcases (d.fetch (request.query d.account entityId) request.allPages).call s with
    ⟨(e | a) | p, s'⟩
  · rfl
  · rfl
  · rfl

theorem call_resolve_of_ok {s₀ s s' : σ} {items : List Json} {total : Nat}
    (hid : (d.canonicalId request.entityType request.entityId).call s₀ = (.ok (some entityId), s))
    (hfetch : (d.fetch (request.query d.account entityId) request.allPages).call s =
      (.ok (items, total), s')) :
    (d.resolve request).call s₀ =
      (.ok (.found ((request.query d.account entityId).report items total)), s') := by
  rw [d.call_resolve hid, hfetch]

theorem call_resolve_of_error {s₀ s s' : σ} {e : DirectoryError}
    (hid : (d.canonicalId request.entityType request.entityId).call s₀ = (.ok (some entityId), s))
    (hfetch : (d.fetch (request.query d.account entityId) request.allPages).call s =
      (.error (.error e), s')) :
    (d.resolve request).call s₀ = (.ok (.failed ⟨e.message, e.statusCode⟩), s') := by
  rw [d.call_resolve hid, hfetch]

section AllPages
variable {d} {s₀ s : σ} {server : PageServer} (hall : request.allPages = true)
  (hserver : d.Serves (request.query d.account entityId) s server)
  (hid : (d.canonicalId request.entityType request.entityId).call s₀ = (.ok (some entityId), s))
include hall hserver hid

theorem Serves.call_resolve_of_lastPage {k : Nat} (hk : server.LastPage k) (hmax : k ≤ maxPages) :
    (d.resolve request).call s₀ =
      (.ok (.found ((request.query d.account entityId).report (server.itemsUpTo k)
        (server.itemsUpTo k).length)), d.afterPages (request.query d.account entityId) s k) := by
  refine d.call_resolve_of_ok hid ?_
  rw [hall]
  exact hserver.call_fetchAll_of_lastPage hk hmax

theorem Serves.call_resolve_of_failsAt {j : Nat} {e : DirectoryError} (hj : server.FailsAt j e)
    (hmax : j ≤ maxPages) :
    (d.resolve request).call s₀ = (.ok (.failed ⟨e.message, e.statusCode⟩),
      d.afterPages (request.query d.account entityId) s j) := by
  refine d.call_resolve_of_error hid ?_
  rw [hall]
  exact hserver.call_fetchAll_of_failsAt hj hmax

theorem Serves.call_resolve_of_continues
    (hcontinues : ∀ i, 1 ≤ i → i ≤ maxPages → server.Continues i) :
    (d.resolve request).call s₀ = (.error (.abort .pageOverflow),
      d.afterPages (request.query d.account entityId) s maxPages) := by
  have hfetch := hserver.call_fetchAll_of_continues hcontinues
  rw [d.call_resolve hid, hall]
  show (match (d.fetchAll _).call s with
    | (.ok p, s') => _ | (.error (.error e), s') => _ | (.error (.abort a), s') => _) = _
  rw [hfetch]

end AllPages

section FirstPage
variable {d} {s₀ s : σ} {server : PageServer} (hfirst : request.allPages = false)
  (hserver : d.Serves (request.query d.account entityId) s server)
  (hid : (d.canonicalId request.entityType request.entityId).call s₀ = (.ok (some entityId), s))
include hfirst hserver hid

theorem Serves.call_resolve_of_first {p : EffectivePermissionsPage} (hp : server 1 = .ok p) :
    (d.resolve request).call s₀ =
      (.ok (.found ((request.query d.account entityId).report p.items p.reportedTotal)),
        d.afterPages (request.query d.account entityId) s 1) := by
  refine d.call_resolve_of_ok hid ?_
  rw [hfirst]
  have hfetch := hserver.call_fetchFirst
  rw [hp] at hfetch
  exact hfetch

theorem Serves.call_resolve_of_first_fails {e : DirectoryError} (he : server 1 = .error e) :
    (d.resolve request).call s₀ = (.ok (.failed ⟨e.message, e.statusCode⟩),
      d.afterPages (request.query d.account entityId) s 1) := by
  refine d.call_resolve_of_error hid ?_
  rw [hfirst]
  have hfetch := hserver.call_fetchFirst
  rw [he] at hfetch
  exact hfetch

end FirstPage

/-- **All pages, whatever the server.** The pages `1`, `2`, … are asked for with the same query and
size, each once. If `k` is the last page, the report holds the items of the pages `1` to `k`; if `j`
is the first to fail, the outcome is its error and no page is asked for behind it. When the totals
are bounded by `T`, there are at most `T` requests, or the one that is always made. -/
theorem resolve_collects_pages {s₀ s : σ} {log₀ log : List Record} {server : PageServer}
    (hall : request.allPages = true)
    (hid : (d.recorded.canonicalId request.entityType request.entityId).call (s₀, log₀) =
      (.ok (some entityId), (s, log)))
    (hserver : d.Serves (request.query d.account entityId) s server) :
    let query := request.query d.account entityId
    let resolvesTo outcome n := (d.recorded.resolve request).call (s₀, log₀) =
      (.ok outcome, (d.afterPages query s n, log ++ server.records query n))
    (∀ k, server.LastPage k → k ≤ maxPages →
      resolvesTo (.found (query.report (server.itemsUpTo k) (server.itemsUpTo k).length)) k) ∧
    (∀ j e, server.FailsAt j e → j ≤ maxPages →
      resolvesTo (.failed ⟨e.message, e.statusCode⟩) j) ∧
    ∀ T, T ≤ maxPages → (∀ n p t, server n = .ok p → p.total = some t → t ≤ T) →
      ∃ n outcome, 1 ≤ n ∧ n ≤ max 1 T ∧ resolvesTo outcome n := by
  intro query resolvesTo
  have hrecorded := hserver.recorded log
  have hstate := hserver.afterPages_recorded log
  have hlast : ∀ k, server.LastPage k → k ≤ maxPages →
      resolvesTo (.found (query.report (server.itemsUpTo k) (server.itemsUpTo k).length)) k := by
    intro k hk hmax
    have hcall := Serves.call_resolve_of_lastPage hall hrecorded hid hk hmax
    exact hcall.trans (Prod.ext rfl (hstate k))
  have hfails : ∀ j e, server.FailsAt j e → j ≤ maxPages →
      resolvesTo (.failed ⟨e.message, e.statusCode⟩) j := by
    intro j e hj hmax
    have hcall := Serves.call_resolve_of_failsAt hall hrecorded hid hj hmax
    exact hcall.trans (Prod.ext rfl (hstate j))
  refine ⟨hlast, hfails, fun T hT hbound => ?_⟩
  obtain ⟨n, hpos, hn, hstop⟩ := PageServer.exists_lastPage_or_failsAt hbound
  have hmax : n ≤ maxPages := Nat.le_trans hn (Nat.max_le.mpr ⟨one_le_maxPages, hT⟩)
  rcases hstop with hk | ⟨e, hj⟩
  · exact ⟨n, _, hpos, hn, hlast n hk hmax⟩
  · exact ⟨n, _, hpos, hn, hfails n e hj hmax⟩

end Directory

namespace PageServer

/-- A directory with one group that answers like `server` when it is asked for pages, and counts
these requests. -/
def directory (server : PageServer) : Directory Nat :=
  { MemoryDirectory.oneGroup.directory with
    effectivePermissions := fun _ page _ n => ((server page).mapError Failure.error, n + 1) }

theorem serves_directory (server : PageServer) (query : EffectivePermissionsQuery) (n : Nat) :
    server.directory.Serves query n server := fun _ => rfl

/-- Three pages that report three totals, or none; the third one is the last. -/
def shifting : PageServer
  | 1 => .ok ⟨[.str "a", .str "b"], some 3⟩
  | 2 => .ok ⟨[.str "c"], some 7⟩
  | 3 => .ok ⟨[.str "d"], none⟩
  | _ => .error (.conflict "page")

theorem continues_shifting : ∀ i, 1 ≤ i → i < 3 → shifting.Continues i
  | 1, _, _ => ⟨_, rfl, by decide, by decide⟩
  | 2, _, _ => ⟨_, rfl, by decide, by decide⟩

theorem lastPage_shifting : shifting.LastPage 3 where
  pos := by decide
  before := continues_shifting
  ends := ⟨_, rfl, by decide⟩

/-- The pages of `shifting`, the third of which fails. -/
def breaking : PageServer
  | 1 => shifting 1
  | 2 => shifting 2
  | _ => .error (.conflict "page")

theorem failsAt_breaking : breaking.FailsAt 3 (.conflict "page") where
  pos := by decide
  before
    | 1, _, _ => continues_shifting 1 (by decide) (by decide)
    | 2, _, _ => continues_shifting 2 (by decide) (by decide)
  fails := rfl

theorem shifting_total_le : ∀ n p t, shifting n = .ok p → p.total = some t → t ≤ 7
  | 1, _, _, rfl, rfl => by decide
  | 2, _, _, rfl, rfl => by decide
  | 3, _, _, rfl, htotal => nomatch htotal
  | 0, _, _, hp, _ | _ + 4, _, _, hp, _ => nomatch hp

/-- From the one server four items, after three requests; from the other one its error. -/
theorem shifting_collects_pages :
    let query := (ResolveRequest.ofUser "u").query "account" "u"
    (shifting.directory.recorded.resolve (.ofUser "u")).call (0, []) =
        (.ok (.found (query.report [.str "a", .str "b", .str "c", .str "d"] 4)),
          (3, shifting.records query 3)) ∧
      (breaking.directory.recorded.resolve (.ofUser "u")).call (0, []) =
        (.ok (.failed ⟨"Conflict: page already exists or version mismatch", some 409⟩),
          (3, breaking.records query 3)) ∧
      ∃ n outcome, 1 ≤ n ∧ n ≤ 7 ∧
        (shifting.directory.recorded.resolve (.ofUser "u")).call (0, []) =
          (.ok outcome, (shifting.directory.afterPages query 0 n, shifting.records query n)) := by
  intro query
  have hmax : 3 ≤ maxPages := by decide
  have hall : (ResolveRequest.ofUser "u").allPages = true := rfl
  have hid : ∀ server : PageServer,
      (server.directory.recorded.canonicalId (ResolveRequest.ofUser "u").entityType
        (ResolveRequest.ofUser "u").entityId).call (0, []) = (.ok (some "u"), (0, [])) :=
    fun _ => rfl
  have hshifting := shifting.directory.resolve_collects_pages hall (hid shifting)
    (shifting.serves_directory query 0)
  have hbreaking := breaking.directory.resolve_collects_pages hall (hid breaking)
    (breaking.serves_directory query 0)
  exact ⟨hshifting.1 3 lastPage_shifting hmax, hbreaking.2.1 3 _ failsAt_breaking hmax,
    hshifting.2.2 7 (by decide) shifting_total_le⟩

end PageServer

end Entitlements
