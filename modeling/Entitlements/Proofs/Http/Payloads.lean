import Entitlements.Proofs.Http.Calls
import Entitlements.Proofs.Wire.Reports

/-! # The shapes of payloads

What a call makes of a success is what its question reads from the payload
(`HttpClient.Settles.call_of_receives`). The service sends a list alone or under one of four keys
(`Carries`), and the items of a page under one of two (`HoldsPage`); the shape does not matter, and
a payload that holds two lists is refused (`HttpClient.payload_shapes`). Other entries of a list's
payload have to be readable, those of a page need not be. -/

namespace Entitlements

open Json

/-! ### Successes -/

/-- Within the limit, and after deliveries that may pass, the request is answered with success. The
body of the answer consists of this value. -/
def Transport.Receives {τ : Type} (t : Transport τ) (request : Request) (w : τ) (limit : Nat)
    (payload : Json) : Prop :=
  ∃ k < limit, (∀ i < k, (t.delivery request w i).Passes) ∧
    ∃ r bytes, t.delivery request w k = .answered r ∧ r.Succeeded ∧ r.body = .ok bytes ∧
      parseBytes? bytes = some payload

/-- An answer that cannot be read, whatever is said of it. -/
def InvalidResponse {α : Type} (answer : Except Failure α) : Prop :=
  ∃ detail, answer = .error (.error (.invalidResponse detail))

/-- **A success** is answered by what the payload is read as, and only its shape can be wrong. -/
theorem HttpClient.Settles.call_of_receives {τ α : Type} {config : DirectoryConfig}
    {t : Transport τ} {q : Question α} {a : Access (HttpState τ) α} (h : Settles config t q a)
    {s : HttpState τ} {request : Request} {payload : Json}
    (hrequest : (ofConfig config t).request? q.url q.fields = some request)
    (hreceives : t.Receives request s.network config.retryPolicy.maxAttempts payload) :
    match q.decode payload with
    | some x => (a.call s).1 = .ok x
    | none => InvalidResponse (a.call s).1 := by
  obtain ⟨k, hk, hpasses, r, bytes, hdelivery, hsuccess, hbytes, hpayload⟩ := hreceives
  have hsettled := h s
  rw [hrequest] at hsettled
  generalize (a.call s).1 = answer, (a.call s).2.network = w' at hsettled ⊢
  cases hsettled with
  | @sent _ n outcome _ hsent hreads =>
    have hstops : ¬ (t.delivery request s.network k).Passes := by
      rw [hdelivery]
      exact Arrival.not_passes hsuccess
    rw [hsent.eq_succ hk hpasses hstops, Nat.add_sub_cancel, hdelivery] at hreads
    cases hreads with
    | decoded _ hbody hdecodes =>
      obtain ⟨payload', hpayload', hx⟩ := hdecodes
      cases hbytes.symm.trans hbody
      cases hpayload.symm.trans hpayload'
      rw [hx]
      rfl
    | undecodable _ hbody hnone =>
      cases hbytes.symm.trans hbody
      cases hdecode : q.decode payload with
      | none => exact ⟨_, rfl⟩
      | some x => exact absurd ⟨payload, hpayload, hdecode⟩ (hnone x)
    | stalled _ hbody => cases hbytes.symm.trans hbody
    | missing hs => exact absurd (hs ▸ hsuccess.2) (by decide)
    | denied hs => exact absurd (hs ▸ hsuccess.2) (by decide)
    | conflicting hs => exact absurd (hs ▸ hsuccess.2) (by decide)
    | refused hs => exact absurd hsuccess hs

/-! ### Lists -/

/-- The keys under which a list may stand. -/
def listKeys : List String := ["items", "groups", "users", "policies"]

/-- A list alone, or in an object under one of the keys; the other entries of the object are
whatever they are, as long as they can be read. -/
inductive Carries (list : Json) : Json → Prop
  | bare : Carries list list
  | wrapped {before after : List (String × Json)} {key : String} (hkey : key ∈ listKeys)
      (hothers : ∀ e ∈ before ++ after, e.1 ∉ listKeys ∧ e.2.Readable) :
      Carries list (.obj (before ++ (key, list) :: after))

/-- An object in which two entries stand under keys of lists, be it the same key. -/
inductive HoldsTwoLists : Json → Prop
  | intro {entries : List (String × Json)} {e e' : String × Json} (he : e.1 ∈ listKeys)
      (he' : e'.1 ∈ listKeys) (hsub : [e, e'].Sublist entries) : HoldsTwoLists (.obj entries)

theorem named_listFieldName (entries : List (String × Json)) :
    named [listFieldName] entries =
      (entries.filter (listKeys.contains ·.1)).map fun e => ("items", e.2) := by
  induction entries with
  | nil => rfl
  | cons e entries ih =>
    have haccepts : listFieldName.accepts e.1 = listKeys.contains e.1 := by
      rw [Bool.eq_iff_iff]
      simp [FieldName.accepts, listFieldName, listKeys, eq_comm (b := e.1)]
    unfold named at ih ⊢
    rw [List.filterMap_cons, List.filter_cons, ih, fieldOf?, List.find?_cons, haccepts]
    cases listKeys.contains e.1 <;> rfl

section Lists
variable {α : Type} [Wire α]

theorem listPayload?_of_carries [CanonicalWire α] {xs : List α} {payload : Json}
    (h : Carries (toJson xs) payload) : listPayload? payload = some xs := by
  have hxs : asList? ofJson? (toJson xs) = some xs := mapM_ofJson?_toJson xs
  have hreadable : (toJson xs).Readable := readable_toJson xs
  cases h with
  | bare =>
    obtain ⟨j, hj⟩ := hreadable
    exact Option.bind_eq_some_iff.mpr ⟨j, hj, hxs⟩
  | @wrapped before after key hkey hothers =>
    have hentries : ReadableEntries (before ++ (key, toJson xs) :: after) := by
      intro e he
      rcases List.mem_append.mp he with he | he
      · exact (hothers e (List.mem_append_left _ he)).2
      · rcases List.mem_cons.mp he with rfl | he
        · exact hreadable
        · exact (hothers e (List.mem_append_right _ he)).2
    have hnone : ∀ es : List (String × Json), (∀ e ∈ es, e ∈ before ++ after) →
        es.filter (listKeys.contains ·.1) = [] := fun es hes =>
      List.filter_eq_nil_iff.mpr fun e he => by simpa using (hothers e (hes e he)).1
    have hnamed : named [listFieldName] (before ++ (key, toJson xs) :: after) =
        [("items", toJson xs)] := by
      rw [named_listFieldName, List.filter_append, List.filter_cons,
        hnone before fun _ => List.mem_append_left _, hnone after fun _ => List.mem_append_right _]
      simp [hkey]
    obtain ⟨j, hj⟩ := readable_obj.mpr hentries
    refine Option.bind_eq_some_iff.mpr ⟨j, hj, ?_⟩
    refine record_eq_some (fields?_obj_eq_some_iff.mpr ⟨?_, rfl⟩) ?_
    · rw [hnamed]
      simp
    · rw [hnamed]
      exact hxs

theorem listPayload?_of_holdsTwoLists {payload : Json} (h : HoldsTwoLists payload) :
    (listPayload? payload : Option (List α)) = none := by
  obtain ⟨he, he', hsub⟩ := h
  rename_i entries e e'
  have hfields : (obj entries).fields? [listFieldName] = none := by
    refine Option.eq_none_iff_forall_ne_some.mpr fun f hf => ?_
    obtain ⟨hnodup, -⟩ := fields?_obj_eq_some_iff.mp hf
    rw [named_listFieldName, List.map_map] at hnodup
    have htwice := ((hsub.filter (listKeys.contains ·.1)).map _).nodup hnodup
    simp [he, he'] at htwice
  unfold listPayload?
  rw [hfields]
  cases (obj entries).canonical? <;> rfl

end Lists

/-! ### Pages -/

/-- No value, or `null`. -/
inductive GivesNothing : List Json → Prop
  | missing : GivesNothing []
  | null : GivesNothing [.null]

/-- The total that values give: a number of 64 bits, or none. -/
inductive GivesTotal : List Json → Option Nat → Prop
  | nothing {values : List Json} (h : GivesNothing values) : GivesTotal values none
  | given {n : Nat} (h : n < Nat.pow 2 64) : GivesTotal [.ofNat n] (some n)

/-- The items that the values under both keys give. Those under the first key win, and those under
the second stand in for them; items are of free form and read in canonical form. -/
inductive GivesItems : List Json → List Json → List Json → Prop
  | first {given items others : List Json} (h : given.mapM canonical? = some items)
      (hothers : GivesNothing others ∨ ∃ list, others = [.arr list] ∧ (arr list).Readable) :
      GivesItems [.arr given] others items
  | second {values given items : List Json} (h : given.mapM canonical? = some items)
      (hvalues : GivesNothing values) : GivesItems values [.arr given] items

/-- An object that gives the items and the total of this page; other entries do not matter. -/
inductive HoldsPage (page : EffectivePermissionsPage) : Json → Prop
  | intro {entries : List (String × Json)}
      (hitems : GivesItems (valuesOf "effectivePermissions" entries) (valuesOf "items" entries)
        page.items)
      (htotal : GivesTotal (valuesOf "total" entries) page.total) : HoldsPage page (.obj entries)

section Optional
variable {α : Type} {f : Fields} {name : String} {values : List Json} {read : Json → Option α}
  (hlookup : f.values.lookup name = values.head?)
include hlookup

theorem optional_of_givesNothing (h : GivesNothing values) : f.optional name read = some none := by
  rw [Fields.optional, hlookup]
  cases h with
  | missing => rfl
  | null => rfl

theorem optional_of_given {j : Json} {a : α} (hvalues : values = [j]) (hnull : j ≠ .null)
    (ha : read j = some a) : f.optional name read = some (some a) := by
  rw [hvalues] at hlookup
  simpa using optional_bind_eq_some hlookup hnull ha rfl

end Optional

theorem GivesNothing.length_le {values : List Json} (h : GivesNothing values) :
    values.length ≤ 1 := by
  cases h <;> simp

theorem GivesTotal.length_le {values : List Json} {total : Option Nat}
    (h : GivesTotal values total) : values.length ≤ 1 := by
  cases h with
  | nothing h => exact h.length_le
  | given => simp

theorem GivesTotal.optional_eq {f : Fields} {name : String} {values : List Json}
    {total : Option Nat} (h : GivesTotal values total)
    (hlookup : f.values.lookup name = values.head?) :
    f.optional name (asNat? 64) = some total := by
  cases h with
  | nothing h => exact optional_of_givesNothing hlookup h
  | given h => exact optional_of_given hlookup rfl nofun (asNat?_ofNat h)

theorem GivesItems.length_le {values values' items : List Json}
    (h : GivesItems values values' items) : values.length ≤ 1 ∧ values'.length ≤ 1 := by
  cases h with
  | first _ hothers =>
    refine ⟨by simp, ?_⟩
    rcases hothers with h | ⟨list, rfl, -⟩
    · exact h.length_le
    · simp
  | second _ h => exact ⟨h.length_le, by simp⟩

theorem GivesItems.optional_eq {f : Fields} {name name' : String} {values values' items : List Json}
    (h : GivesItems values values' items) (hlookup : f.values.lookup name = values.head?)
    (hlookup' : f.values.lookup name' = values'.head?) :
    ∃ permissions others, f.optional name (ofJson? : Json → Option (List Json)) = some permissions ∧
      f.optional name' (ofJson? : Json → Option (List Json)) = some others ∧
        (permissions.or others).getD [] = items := by
  have hlist : ∀ {given items : List Json}, given.mapM canonical? = some items →
      (ofJson? (arr given) : Option (List Json)) = some items := id
  have hnull : ∀ given : List Json, arr given ≠ .null := by simp
  cases h with
  | first hgiven hothers =>
    have hfirst := optional_of_given hlookup rfl (hnull _) (hlist hgiven)
    rcases hothers with h | ⟨given', heq, hreadable⟩
    · exact ⟨_, _, hfirst, optional_of_givesNothing hlookup' h, rfl⟩
    · obtain ⟨j, hj⟩ := hreadable
      obtain ⟨others, hothers, -⟩ := Option.map_eq_some_iff.mp hj
      rw [canonicalItems?_eq_mapM] at hothers
      exact ⟨_, _, hfirst, optional_of_given hlookup' heq (hnull _) (hlist hothers), rfl⟩
  | second hgiven h =>
    exact ⟨_, _, optional_of_givesNothing hlookup h,
      optional_of_given hlookup' rfl (hnull _) (hlist hgiven), rfl⟩

/-- **A page is read** from any object that holds it. -/
theorem HoldsPage.ofJson?_eq {page : EffectivePermissionsPage} {payload : Json}
    (h : HoldsPage page payload) : ofJson? payload = some page := by
  obtain ⟨hitems, htotal⟩ := h
  rename_i entries
  have honce : ∀ key ∈ ["effectivePermissions", "items", "total"],
      (valuesOf key entries).length ≤ 1 := by simp [hitems.length_le, htotal.length_le]
  obtain ⟨f, hf, hlookup⟩ := exists_fields?_plain honce
  obtain ⟨permissions, others, hpermissions, hothers, hread⟩ :=
    hitems.optional_eq (hlookup _ (by simp)) (hlookup _ (by simp))
  have htotal := htotal.optional_eq (hlookup _ (by simp))
  refine record_eq_some hf ?_
  simp only [hpermissions, hothers, htotal, hread, Option.bind_eq_bind, Option.bind_some,
    Option.pure_def]

/-! ### Pages that are written -/

namespace EffectivePermissionsPage

/-- A page as it is kept: its items are canonical, and its total is of 64 bits. -/
structure Kept (p : EffectivePermissionsPage) : Prop where
  items : ∀ j ∈ p.items, j.Canonical
  total : ∀ n, p.total = some n → n < Nat.pow 2 64

variable {p : EffectivePermissionsPage}

theorem Kept.holdsPage (h : p.Kept) : HoldsPage p (toJson p) := by
  obtain ⟨items, total⟩ := p
  have hitems : (items.map toJson).mapM canonical? = some items := ofJson?_toJson_list h.items
  cases total with
  | none => exact .intro (.first hitems (.inl .missing)) (.nothing .missing)
  | some n => exact .intro (.first hitems (.inl .missing)) (.given (h.total n rfl))

theorem Kept.readBack (h : p.Kept) : ReadBack p := by
  refine readBack_of_stable ?_ (readable_obj.mpr ?_) h.holdsPage.ofJson?_eq
  · exact stable_record <| .bind (.optional (stable_asList? stable_canonical?) _) fun _ =>
      .bind (.optional (stable_asList? stable_canonical?) _) fun _ =>
      .bind (.optional (stable_asNat? 64) _) fun _ => .const _
  · have hreadable : (toJson p.items).Readable :=
      readable_arr.mpr <| List.forall_mem_map.mpr fun j hj => (h.items j hj).readable
    simp [hreadable]

end EffectivePermissionsPage

/-! ### All shapes -/

/-- The calls that ask for a list of groups, users or policies. -/
inductive CachedCall.Listing : CachedCall → Prop
  | groups : Listing .groups
  | users : Listing .users
  | policies : Listing .policies
  | groupsOfUser (uid : String) : Listing (.groupsOfUser uid)

namespace HttpClient

variable {τ : Type}

/-- What the call gives for every success with a payload of this shape. -/
def Gives (config : DirectoryConfig) (t : Transport τ) (x : Fetch) (shape : Json → Prop)
    (expected : Except Failure x.Answer → Prop) : Prop :=
  ∀ s request payload,
    (ofConfig config t).request? (x.question config).url (x.question config).fields = some request →
      t.Receives request s.network config.retryPolicy.maxAttempts payload → shape payload →
        expected ((x.on (ofConfig config t).directory).call s).1

theorem gives_of_decode {config : DirectoryConfig} {t : Transport τ} {x : Fetch}
    {shape : Json → Prop} {a : x.Answer}
    (h : ∀ payload, shape payload → (x.question config).decode payload = some a) :
    Gives config t x shape (· = .ok a) := by
  intro s request payload hrequest hreceives hshape
  have hcall := (settles_fetch config t x).call_of_receives hrequest hreceives
  rw [h payload hshape] at hcall
  exact hcall

theorem gives_of_decode_eq_none {config : DirectoryConfig} {t : Transport τ} {x : Fetch}
    {shape : Json → Prop}
    (h : ∀ payload, shape payload → (x.question config).decode payload = none) :
    Gives config t x shape InvalidResponse := by
  intro s request payload hrequest hreceives hshape
  have hcall := (settles_fetch config t x).call_of_receives hrequest hreceives
  rw [h payload hshape] at hcall
  exact hcall

/-- **The shape of a payload does not matter.** A list of groups, users or policies is what the call
gives, whether it is sent alone or under one of the keys; an object with two of the keys is an
invalid response. A page is what its payload holds under either key, and what is written of a page
is read as that page, also from its text when it fits: when no more containers than the limit are
within each other, and the doubles in it are read as themselves. -/
theorem payload_shapes (config : DirectoryConfig) (t : Transport τ) :
    (∀ gs : List Group, Gives config t (.ask .groups) (Carries (toJson gs)) (· = .ok gs)) ∧
    (∀ us : List User, Gives config t (.ask .users) (Carries (toJson us)) (· = .ok us)) ∧
    (∀ ps : List Policy, Gives config t (.ask .policies) (Carries (toJson ps)) (· = .ok ps)) ∧
    (∀ uid, ∀ gs : List Group,
      Gives config t (.ask (.groupsOfUser uid)) (Carries (toJson gs)) (· = .ok gs)) ∧
    (∀ c : CachedCall, c.Listing → Gives config t (.ask c) HoldsTwoLists InvalidResponse) ∧
    (∀ page payload, HoldsPage page payload → ofJson? payload = some page) ∧
    (∀ query number size page,
      Gives config t (.page query number size) (HoldsPage page) (· = .ok page)) ∧
    ∀ page : EffectivePermissionsPage, page.Kept → ReadBack page ∧
      ((toJson page).Fits maxDepth → ofText? (toText page) = some page) := by
  refine ⟨fun gs => gives_of_decode fun _ => listPayload?_of_carries,
    fun us => gives_of_decode fun _ => listPayload?_of_carries,
    fun ps => gives_of_decode fun _ => listPayload?_of_carries,
    fun uid gs => gives_of_decode fun _ => listPayload?_of_carries,
    fun c hc => gives_of_decode_eq_none fun payload h => ?_,
    fun page payload => HoldsPage.ofJson?_eq,
    fun query number size page => gives_of_decode fun _ => HoldsPage.ofJson?_eq,
    fun page hpage => ⟨hpage.readBack, fun hfits => ?_⟩⟩
  · cases hc with
    | groups => exact listPayload?_of_holdsTwoLists h
    | users => exact listPayload?_of_holdsTwoLists h
    | policies => exact listPayload?_of_holdsTwoLists h
    | groupsOfUser uid => exact listPayload?_of_holdsTwoLists h
  · rw [ofText?_toText_eq hfits]
    exact hpage.holdsPage.ofJson?_eq

/-! ### Examples of payloads -/

/-- A service that answers each request with the next of these bodies. -/
def inTurn (bodies : List String) : Transport Nat where
  send _ := fun n =>
    let body := bodies.getD n ""
    (.answered ⟨200, none, .ok (bytesOfText body), body⟩, n + 1)

theorem receives_inTurn {bodies : List String} {request : Request} {n : Nat} {payload : Json}
    (hpayload : parse? (bodies.getD n "") = some payload) :
    (inTurn bodies).Receives request n 4 payload :=
  have hrun : ((inTurn bodies).attempt request).run n = _ :=
    Transport.run_follow_of_ends rfl rfl
  have hok : (200 : UInt16) ≤ 200 ∧ (200 : UInt16) < 300 := by decide
  ⟨0, by decide, nofun, _, _, congrArg Prod.fst hrun, hok, rfl,
    (parseBytes?_bytesOfText _).trans hpayload⟩

/-- A wrapped list of groups, two lists of users in one object, and a page under the second key. -/
def bodies : List String :=
  ["\x7b\"next\":null,\"groups\":[\x7b\"uuid\":\"g\",\"name\":\"Ops\"\x7d]\x7d",
    "\x7b\"items\":[],\"users\":[]\x7d",
    "\x7b\"items\":[\"a\"],\"effectivePermissions\":null,\"total\":1\x7d"]

/-- What the calls make of these bodies. -/
theorem bodies_payload_shapes :
    let d := (ofConfig testConfig (inTurn bodies)).directory
    let query : EffectivePermissionsQuery := ⟨"u", .user, "account", "acc", []⟩
    (d.groups.call ⟨0, []⟩).1 = .ok [⟨"g", "Ops", none, none⟩] ∧
      InvalidResponse (d.users.call ⟨1, []⟩).1 ∧
      ((d.effectivePermissions query 1 100).call ⟨2, []⟩).1 = .ok ⟨[.str "a"], some 1⟩ := by
  intro d query
  obtain ⟨hgroups, -, -, -, htwo, -, hpage, -⟩ := payload_shapes testConfig (inTurn bodies)
  refine ⟨?_, ?_, ?_⟩
  · let ops : List Group := [⟨"g", "Ops", none, none⟩]
    have hshape : Carries (toJson ops)
        (.obj ([("next", .null)] ++ ("groups", toJson ops) :: [])) :=
      .wrapped (by decide) (by simp [listKeys, Readable, canonical?])
    exact hgroups _ ⟨0, []⟩
      ⟨testAddress ["v1", "accounts", "acc", "groups"], none, none, none, agent⟩ _
      (by decide +kernel) (receives_inTurn (by decide +kernel)) hshape
  · have hshape : HoldsTwoLists (.obj [("items", .arr []), ("users", .arr [])]) :=
      .intro (by decide) (by decide) (.refl _)
    exact htwo .users .users ⟨1, []⟩
      ⟨testAddress ["v1", "accounts", "acc", "users"], none, none, none, agent⟩ _
      (by decide +kernel) (receives_inTurn (by decide +kernel)) hshape
  · have hshape : HoldsPage ⟨[.str "a"], some 1⟩ (.obj [("items", .arr [.str "a"]),
        ("effectivePermissions", .null), ("total", .int 1)]) :=
      .intro (.second rfl .null) (.given (by decide))
    exact hpage query 1 100 _ ⟨2, []⟩
      ⟨{ testAddress ["v1", "resolution", "account", "acc", "effectivepermissions"] with
          query := some "entityId=u&entityType=user&page=1&size=100".toList },
        none, none, none, agent⟩ _ (by decide +kernel) (receives_inTurn (by decide +kernel)) hshape

/-- A page whose one item is the double nearest to `1e-23`. -/
def tinyPage : EffectivePermissionsPage := ⟨[.float 0x3b282db34012b251], none⟩

/-- An empty list within as many others. -/
def nested : Nat → Json
  | 0 => .arr []
  | n + 1 => .arr [nested n]

/-- A page whose one item has 126 lists within each other. -/
def deepPage : EffectivePermissionsPage := ⟨[nested 125], none⟩

/-- A list of groups next to a number that is no double. -/
def withVastNumber : String := "\x7b\"groups\":[],\"next\":1e999\x7d"

/-- The double is written with the fewest digits and read as the one next to it; a page too deep is
written but not read; and next to a number that cannot be read there is no list. -/
theorem pages_not_read_back : tinyPage.Kept ∧
    toText tinyPage = "\x7b\"effectivePermissions\":[1e-23]\x7d" ∧
    ofText? (toText tinyPage) ≠ some tinyPage ∧
    deepPage.Kept ∧ (ofText? (toText deepPage) : Option EffectivePermissionsPage) = none ∧
    ((ofConfig testConfig (inTurn [withVastNumber])).directory.groups.call ⟨0, []⟩).1 =
      .error (.error (.invalidResponse none)) := by
  refine ⟨⟨by decide, nofun⟩, by decide +kernel, by decide +kernel, ⟨by decide +kernel, nofun⟩, ?_,
    by decide +kernel⟩
  rw [ofText?, toText, parse?, render, String.toList_ofList]
  decide +kernel

end HttpClient

end Entitlements
