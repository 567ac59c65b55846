import Entitlements.Proofs.Http.Address
import Entitlements.Proofs.Http.Calls

/-! # Targets of requests

What the requests of a client name, for a plain configuration (`DirectoryConfig.Plain`). A call with
a plain argument asks for the segments of its path (`HttpClient.exists_target?_eq`), so that no two
such calls have the same target (`HttpClient.targets_distinct`). Arguments stand in a path as they
are, and others reach further: two dots at the start of one lead out of its place
(`HttpClient.target?_climbing`). -/

namespace Entitlements

/-! ### Names -/

/-- A text that names a resource as it stands: one segment of a path, of which nothing is taken off
or encoded already. -/
structure PlainName (s : String) : Prop where
  undivided : Undivided s.toList
  percent : '%' ∉ s.toList
  dot : isDot s.toList = false
  doubleDot : isDoubleDot s.toList = false
  last : ∀ c ∈ s.toList.getLast?, 0x20 < c.toNat

instance (s : String) : Decidable (PlainName s) :=
  decidable_of_iff (Undivided s.toList ∧ '%' ∉ s.toList ∧ isDot s.toList = false ∧
      isDoubleDot s.toList = false ∧ s.toList.getLast?.all (0x20 < ·.toNat) = true)
    ⟨fun ⟨undivided, percent, dot, doubleDot, last⟩ =>
      ⟨undivided, percent, dot, doubleDot, by simpa [Option.all_eq_true] using last⟩,
      fun h => ⟨h.undivided, h.percent, h.dot, h.doubleDot, by simpa [Option.all_eq_true] using h.last⟩⟩

/-- A configuration with a plain address and account, and a token that can be sent. -/
structure DirectoryConfig.Plain (c : DirectoryConfig) (names : AsciiNames) : Prop where
  address : PlainAddress names c.apiUrl
  account : PlainName c.account
  token : c.bearerToken.all HttpClient.isSendable = true

theorem PlainName.enter_eq {s : String} (h : PlainName s) (done : List (List Char)) :
    enter done s.toList = encodeWhere isEncodedInPath s.toList :: done := by
  rw [enter, h.doubleDot, h.dot]
  rfl

/-- Two dots leave a segment that was just entered. -/
theorem PlainName.enter_doubleDot {s : String} (h : PlainName s) (done : List (List Char)) :
    enter (enter done s.toList) "..".toList = done := by
  rw [h.enter_eq, enter, if_pos (by decide), List.tail_cons]

theorem PlainName.resolveFrom_eq {s : String} (h : PlainName s) (done : List (List Char)) :
    resolveFrom done [s.toList] = (encodeWhere isEncodedInPath s.toList :: done).reverse := by
  rw [resolveFrom, h.doubleDot, h.dot]
  rfl

/-- The segments of a path with plain names, as they are sent. -/
def sentSegments (names : List String) : List (List Char) :=
  names.map fun s => encodeWhere isEncodedInPath s.toList

/-- **A path of plain names** is read name by name. -/
theorem Url.below_names (origin : Origin) : ∀ {names : List String} (done : List (List Char)),
    names ≠ [] → (∀ s ∈ names, PlainName s) →
      Url.below origin done (['/'].intercalate (names.map String.toList)) =
        ⟨origin, done.reverse ++ sentSegments names, none⟩
  | [s], done, _, h => by
    have hs := h s List.mem_cons_self
    rw [List.map_cons, List.map_nil, List.intercalate_singleton,
      Url.below_segment _ _ hs.undivided hs.last, hs.resolveFrom_eq, List.reverse_cons]
    rfl
  | s :: t :: names, done, _, h => by
    have hs := h s List.mem_cons_self
    rw [List.map_cons, List.map_cons, List.intercalate_cons_cons, List.append_assoc,
      List.singleton_append, Url.below_cons _ _ hs.undivided, hs.enter_eq, ← List.map_cons,
      Url.below_names origin _ (List.cons_ne_nil t names) fun x hx =>
        h x (List.mem_cons_of_mem s hx)]
    simp [sentSegments]

theorem sentSegments_inj : ∀ {ns ms : List String}, (∀ s ∈ ns, PlainName s) →
    (∀ s ∈ ms, PlainName s) → sentSegments ns = sentSegments ms → ns = ms
  | [], [], _, _, _ => rfl
  | [], _ :: _, _, _, h => absurd h nofun
  | _ :: _, [], _, _, h => absurd h nofun
  | s :: ns, t :: ms, hns, hms, h => by
    obtain ⟨hs, hns⟩ := List.forall_mem_cons.mp hns
    obtain ⟨ht, hms⟩ := List.forall_mem_cons.mp hms
    obtain ⟨hhead, hrest⟩ := List.cons.inj h
    rw [String.toList_inj.mp (encodeWhere_inj hs.percent ht.percent hhead),
      sentSegments_inj hns hms hrest]

theorem sentSegments_ne_nil {names : List String} (h : names ≠ []) : sentSegments names ≠ [] :=
  mt List.map_eq_nil_iff.mp h

theorem slash_not_mem_sentSegments {names : List String} (h : ∀ s ∈ names, PlainName s) :
    ∀ segment ∈ sentSegments names, '/' ∉ segment := by
  intro segment hsegment
  obtain ⟨s, hs, rfl⟩ := List.mem_map.mp hsegment
  exact slash_not_mem_encodeWhere ((h s hs).undivided _ (by decide))

/-- Paths that start alike name different segments only if they differ. -/
theorem intercalate_append_inj {sep : Char} {xs ys : List (List Char)} (hxs : xs ≠ [])
    (hys : ys ≠ []) (hx : ∀ x ∈ xs, sep ∉ x) (hy : ∀ y ∈ ys, sep ∉ y) :
    ∀ {start : List (List Char)},
      [sep].intercalate (start ++ xs) = [sep].intercalate (start ++ ys) → xs = ys
  | [], h => by
    rw [← splitOn_intercalate hxs hx, ← splitOn_intercalate hys hy]
    exact congrArg (splitOn sep) h
  | a :: start, h => by
    obtain ⟨b, bs, hb⟩ := List.exists_cons_of_ne_nil (List.append_ne_nil_of_right_ne_nil start hxs)
    obtain ⟨c, cs, hc⟩ := List.exists_cons_of_ne_nil (List.append_ne_nil_of_right_ne_nil start hys)
    refine intercalate_append_inj hxs hys hx hy (?_ : [sep].intercalate (start ++ xs) = _)
    rw [List.cons_append, List.cons_append, hb, hc, List.intercalate_cons_cons,
      List.intercalate_cons_cons] at h
    rw [hb, hc]
    exact List.append_cancel_left h

/-! ### Paths of calls -/

namespace CachedCall

/-- What a call is about, if that is not everything. -/
def argument? : CachedCall → Option String
  | groups | users | bindings | policies => none
  | group id | user id | groupsOfUser id | bindingsOfGroup id | policy id => some id

/-- The path of the resource that a call asks for. -/
def path (account : String) : CachedCall → List String
  | groups => ["accounts", account, "groups"]
  | group uuid => ["accounts", account, "groups", uuid]
  | users => ["accounts", account, "users"]
  | user uid => ["accounts", account, "users", uid]
  | groupsOfUser uid => ["accounts", account, "users", uid, "groups"]
  | bindings => ["repo", "account", account, "bindings"]
  | bindingsOfGroup uuid => ["repo", "account", account, "bindings", "groups", uuid]
  | policies => ["repo", "account", account, "policies"]
  | policy uuid => ["repo", "account", account, "policies", uuid]

/-- The call that asks for a path. -/
def ofPath? : List String → Option CachedCall
  | ["accounts", _, "groups"] => some groups
  | ["accounts", _, "groups", uuid] => some (group uuid)
  | ["accounts", _, "users"] => some users
  | ["accounts", _, "users", uid] => some (user uid)
  | ["accounts", _, "users", uid, "groups"] => some (groupsOfUser uid)
  | ["repo", "account", _, "bindings"] => some bindings
  | ["repo", "account", _, "bindings", "groups", uuid] => some (bindingsOfGroup uuid)
  | ["repo", "account", _, "policies"] => some policies
  | ["repo", "account", _, "policies", uuid] => some (policy uuid)
  | _ => none

theorem ofPath?_path (account : String) (x : CachedCall) : ofPath? (x.path account) = some x := by
  cases x <;> simp [ofPath?, path]

theorem path_injective {account : String} {x y : CachedCall}
    (h : x.path account = y.path account) : x = y := by
  have := ofPath?_path account x
  rw [h, ofPath?_path account y] at this
  exact (Option.some.inj this).symm

theorem path_ne_nil (account : String) (x : CachedCall) : x.path account ≠ [] := by
  cases x <;> exact List.cons_ne_nil _ _

/-- The words in the paths of calls. -/
def pathWords : List String :=
  ["accounts", "groups", "users", "repo", "account", "bindings", "policies"]

theorem mem_path {account s : String} {x : CachedCall} (h : s ∈ x.path account) :
    s ∈ pathWords ∨ s = account ∨ x.argument? = some s := by
  cases x
  all_goals
    simp only [path, List.mem_cons, List.not_mem_nil, or_false] at h
    simp only [pathWords, argument?, List.mem_cons, List.not_mem_nil, or_false, reduceCtorEq,
      Option.some.injEq]
    grind

/-- A call that is about something with a plain name, or about everything. -/
def Plain (x : CachedCall) : Prop := ∀ id ∈ x.argument?, PlainName id

theorem Plain.path {x : CachedCall} (h : x.Plain) {account : String}
    (haccount : PlainName account) : ∀ s ∈ x.path account, PlainName s := by
  have hwords : ∀ s ∈ pathWords, PlainName s := by decide
  intro s hs
  rcases mem_path hs with hword | rfl | hargument
  · exact hwords s hword
  · exact haccount
  · exact h s hargument

end CachedCall

/-! ### Addresses of calls -/

namespace DirectoryConfig

theorem dropSlashes_eq_self {s : String} (h : s.toList.head? ≠ some '/') : dropSlashes s = s := by
  have hdrop : s.toList.dropWhile (· == '/') = s.toList := by
    cases hs : s.toList with
    | nil => rfl
    | cons c cs =>
      rw [hs, List.head?_cons] at h
      exact List.dropWhile_cons_of_neg (by simpa using h)
  rw [dropSlashes, hdrop, String.ofList_toList]

variable (config : DirectoryConfig)

theorem toList_accountUrl {p : String} (hp : p.toList.head? ≠ some '/') :
    (config.accountUrl p).toList = (dropSlashesEnd config.apiUrl).toList ++
      '/' :: ("accounts".toList ++ '/' :: (config.account.toList ++ '/' :: p.toList)) := by
  rw [accountUrl, url, dropSlashes_eq_self hp, dropSlashes_eq_self (by simp)]
  simp

theorem toList_repositoryUrl {p : String} (hp : p.toList.head? ≠ some '/') :
    (config.repositoryUrl p).toList = (dropSlashesEnd config.apiUrl).toList ++
      '/' :: ("repo".toList ++ '/' :: ("account".toList ++ '/' ::
        (config.account.toList ++ '/' :: p.toList))) := by
  rw [repositoryUrl, url, dropSlashes_eq_self hp, dropSlashes_eq_self (by simp)]
  simp

/-- The address of a resource is the path of its call behind the address of the service. -/
theorem toList_questionOf_url (x : CachedCall) :
    (Fetch.questionOf config x).url.toList = (dropSlashesEnd config.apiUrl).toList ++
      '/' :: ['/'].intercalate ((x.path config.account).map String.toList) := by
  cases x with
  | groups | group | users | user | groupsOfUser =>
    refine (config.toList_accountUrl (by simp)).trans ?_
    simp [CachedCall.path, List.intercalate_cons_cons, List.intercalate_singleton]
  | bindings | bindingsOfGroup | policies | policy =>
    refine (config.toList_repositoryUrl (by simp)).trans ?_
    simp [CachedCall.path, List.intercalate_cons_cons, List.intercalate_singleton]

end DirectoryConfig

/-! ### Targets -/

namespace HttpClient

variable {τ : Type} {c : HttpClient τ}

/-- What the request for a call names, if it can be sent. -/
def target? (c : HttpClient τ) (x : CachedCall) : Option String :=
  let q := Fetch.questionOf c.config x
  (c.request? q.url q.fields).map (·.target)

theorem target?_eq (h : c.config.Plain c.transport.names) {x : CachedCall} {u : Url}
    (hu : Url.parse? c.transport.names (Fetch.questionOf c.config x).url = some u) :
    c.target? x = some (u.withFields []).target := by
  have hfields : (Fetch.questionOf c.config x).fields = [] := by cases x <;> rfl
  unfold target? request?
  dsimp only
  rw [hu, hfields, h.token]
  rfl

/-- **The target of a call** is its path behind the path of the service's address. -/
theorem exists_target?_eq (h : c.config.Plain c.transport.names) : ∃ start : List (List Char),
    ∀ x : CachedCall, x.Plain → c.target? x = some (.ofList ('/' :: ['/'].intercalate
      (start ++ sentSegments (x.path c.config.account)))) := by
  obtain ⟨origin, done, hbelow⟩ := h.address.exists_below
  refine ⟨done.reverse, fun x hx => ?_⟩
  have hparse := hbelow _ _ (c.config.toList_questionOf_url x)
  rw [Url.below_names origin done (x.path_ne_nil _) (hx.path h.account)] at hparse
  rw [target?_eq h hparse]
  simp [Url.target, Url.withFields, Url.path]

/-- **Distinct calls have distinct targets**, where what they are about has a plain name. -/
theorem targets_distinct (h : c.config.Plain c.transport.names) {x y : CachedCall}
    (hx : x.Plain) (hy : y.Plain) (hne : x ≠ y) :
    ∃ t t', c.target? x = some t ∧ c.target? y = some t' ∧ t ≠ t' := by
  obtain ⟨start, htarget⟩ := exists_target?_eq h
  refine ⟨_, _, htarget x hx, htarget y hy, fun heq => hne ?_⟩
  have hnames := hx.path h.account
  have hnames' := hy.path h.account
  have htext := (List.cons.inj (String.ofList_injective heq)).2
  have hsent : sentSegments (x.path c.config.account) = sentSegments (y.path c.config.account) :=
    intercalate_append_inj (sentSegments_ne_nil (x.path_ne_nil _))
      (sentSegments_ne_nil (y.path_ne_nil _)) (slash_not_mem_sentSegments hnames)
      (slash_not_mem_sentSegments hnames') htext
  exact CachedCall.path_injective (sentSegments_inj hnames hnames' hsent)

/-- A service on the machine itself. -/
def nearby : HttpClient Unit :=
  ofConfig { account := "acc-1", apiUrl := "http://localhost/iam/v1", bearerToken := some "t" }
    { send _ := return .failed ⟨.noConnection, none⟩ }

theorem nearby_targets_distinct :
    nearby.config.Plain nearby.transport.names ∧ (CachedCall.group "a").Plain ∧
      (CachedCall.group "b").Plain ∧
      ∃ t t', nearby.target? (.group "a") = some t ∧ nearby.target? (.group "b") = some t' ∧
        t ≠ t' := by
  have hconfig : nearby.config.Plain nearby.transport.names :=
    ⟨by decide +kernel, by decide +kernel, by decide +kernel⟩
  have hplain : ∀ id ∈ ["a", "b"], (CachedCall.group id).Plain := by
    rintro id hid _ ⟨⟩
    revert id
    decide +kernel
  have ha := hplain "a" (by decide)
  have hb := hplain "b" (by decide)
  exact ⟨hconfig, ha, hb, targets_distinct hconfig ha hb (by decide)⟩

/-- **Two dots lead out of the groups**: under the name of a group any user can be asked for. -/
theorem target?_climbing (h : c.config.Plain c.transport.names) (uid : String) :
    c.target? (.group ("../users/" ++ uid)) = c.target? (.user uid) := by
  obtain ⟨origin, done, hbelow⟩ := h.address.exists_below
  have hgroup := hbelow _ _ (c.config.toList_questionOf_url (.group ("../users/" ++ uid)))
  have huser := hbelow _ _ (c.config.toList_questionOf_url (.user uid))
  have hclimb : ['/'].intercalate
      (((CachedCall.group ("../users/" ++ uid)).path c.config.account).map String.toList) =
        "accounts".toList ++ '/' :: (c.config.account.toList ++ '/' :: ("groups".toList ++
          '/' :: ("..".toList ++ '/' :: ("users".toList ++ '/' :: uid.toList)))) := by
    simp [CachedCall.path, List.intercalate_cons_cons, List.intercalate_singleton]
  have hstraight : ['/'].intercalate
      (((CachedCall.user uid).path c.config.account).map String.toList) =
        "accounts".toList ++ '/' :: (c.config.account.toList ++ '/' :: ("users".toList ++
          '/' :: uid.toList)) := by
    simp [CachedCall.path, List.intercalate_cons_cons, List.intercalate_singleton]
  have haccount := h.account.undivided
  have hword : ∀ s ∈ ["accounts", "groups", "..", "users"], Undivided s.toList := by decide
  have hgroups : PlainName "groups" := by decide
  rw [hclimb, Url.below_cons _ _ (hword _ (by decide)), Url.below_cons _ _ haccount,
    Url.below_cons _ _ (hword _ (by decide)), Url.below_cons _ _ (hword _ (by decide)),
    hgroups.enter_doubleDot] at hgroup
  rw [hstraight, Url.below_cons _ _ (hword _ (by decide)), Url.below_cons _ _ haccount] at huser
  rw [target?_eq h hgroup, target?_eq h huser]

/-- The same target for different names: what follows a `#` is dropped, and dots are resolved. -/
theorem reserved_targets_meet :
    nearby.target? (.group "a#b") = some "/iam/v1/accounts/acc-1/groups/a" ∧
    nearby.target? (.group "a") = some "/iam/v1/accounts/acc-1/groups/a" ∧
    nearby.target? (.group "../users/u") = some "/iam/v1/accounts/acc-1/users/u" ∧
    nearby.target? (.user "u") = some "/iam/v1/accounts/acc-1/users/u" := by
  decide +kernel

end HttpClient

end Entitlements
