import Entitlements.Http.Url
import Entitlements.Directory.Config
import Entitlements.Proofs.Http.Percent
import Mathlib.Data.List.DropRight

/-! # Addresses below an address

What is read where a path follows a plain address (`PlainAddress.exists_below`): the server stays,
and the path starts behind the segments of the address. Reading goes on segment by segment
(`Url.below_cons`). -/

namespace Entitlements

/-! ### Cleaning -/

/-- What is dropped from the end does not reach behind a character that stays. -/
theorem rdropWhile_append_cons {p : Char → Bool} {c : Char} (hc : p c = false) (a b : List Char) :
    (a ++ c :: b).rdropWhile p = a ++ c :: b.rdropWhile p := by
  unfold List.rdropWhile
  rw [List.reverse_append, List.reverse_cons, List.append_assoc, List.dropWhile_append]
  split
  · next hempty =>
    rw [List.isEmpty_iff.mp hempty, List.singleton_append,
      List.dropWhile_cons_of_neg (by simp [hc])]
    simp
  · simp

/-- The text without controls and spaces at its end, and without tabs and line ends. -/
def cleanEnd (cs : List Char) : List Char :=
  (cs.rdropWhile fun c => c.toNat ≤ 0x20).filter fun c => c != '\t' && c != '\n' && c != '\r'

/-- A text without tabs and line ends. -/
def OneLine (cs : List Char) : Prop := ∀ c ∈ cs, c ≠ '\t' ∧ c ≠ '\n' ∧ c ≠ '\r'

theorem OneLine.filter_eq {cs : List Char} (h : OneLine cs) :
    cs.filter (fun c => c != '\t' && c != '\n' && c != '\r') = cs :=
  List.filter_eq_self.mpr fun c hc => by simpa [and_assoc] using h c hc

theorem cleanAddress_cons {c : Char} (hc : 0x20 < c.toNat) (cs : List Char) :
    cleanAddress (c :: cs) = cleanEnd (c :: cs) := by
  unfold cleanAddress
  dsimp only
  rw [List.dropWhile_cons_of_neg (by simpa using hc)]
  rfl

theorem cleanEnd_append_slash {segment : List Char} (h : OneLine segment) (cs : List Char) :
    cleanEnd (segment ++ '/' :: cs) = segment ++ '/' :: cleanEnd cs := by
  rw [cleanEnd, rdropWhile_append_cons (by decide), List.filter_append, h.filter_eq,
    List.filter_cons_of_pos (by decide), cleanEnd]

/-- A text that neither ends with a control or a space nor has a tab or line end in it stays. -/
theorem cleanEnd_eq_self {cs : List Char} (h : OneLine cs)
    (hlast : ∀ c, cs.getLast? = some c → 0x20 < c.toNat) : cleanEnd cs = cs := by
  have hdrop : cs.rdropWhile (fun c => c.toNat ≤ 0x20) = cs :=
    List.rdropWhile_eq_self_iff.mpr fun hne => by
      simpa using hlast _ (List.getLast?_eq_some_getLast hne)
  rw [cleanEnd, hdrop, h.filter_eq]

/-! ### Paths -/

/-- The segments behind which a path goes on after a segment. -/
def enter (done : List (List Char)) (segment : List Char) : List (List Char) :=
  if isDoubleDot segment then done.tail
  else if isDot segment then done
  else encodeWhere isEncodedInPath segment :: done

theorem resolveFrom_append {rest : List (List Char)} (h : rest ≠ []) :
    ∀ (segments done : List (List Char)),
      resolveFrom done (segments ++ rest) = resolveFrom (segments.foldl enter done) rest
  | [], _ => rfl
  | segment :: segments, done => by
    have hne : segments ++ rest ≠ [] := by simp [h]
    rw [List.foldl_cons, ← resolveFrom_append h segments, enter, List.cons_append]
    rw [resolveFrom]
    · split_ifs <;> rfl
    · exact hne

/-- The text with slashes in place of backslashes. -/
def withSlashes (cs : List Char) : List Char := cs.map fun c => if c = '\\' then '/' else c

namespace Url

/-- The address that is read when `cs` follows the segments `done`, the last one first, and a
slash. -/
def below (origin : Origin) (done : List (List Char)) (cs : List Char) : Url :=
  let resource := (cleanEnd cs).takeWhile (· != '#')
  ⟨origin, resolveFrom done (splitOn '/' (withSlashes (resource.takeWhile (· != '?')))),
    queryOf resource⟩

end Url

section Cutting
variable {x : Char} {segment : List Char} (h : x ∉ segment)
include h

theorem bne_of_not_mem : ∀ c ∈ segment, (c != x) = true := fun _ hc =>
  bne_iff_ne.mpr fun heq => h (heq ▸ hc)

/-- Cutting at a character finds it behind the slash at the earliest. -/
theorem takeWhile_append_slash (hx : x ≠ '/') (cs : List Char) :
    (segment ++ '/' :: cs).takeWhile (· != x) = segment ++ '/' :: cs.takeWhile (· != x) := by
  rw [List.takeWhile_append_of_pos (bne_of_not_mem h),
    List.takeWhile_cons_of_pos (p := (· != x)) (bne_iff_ne.mpr hx.symm)]

theorem dropWhile_append_slash (hx : x ≠ '/') (cs : List Char) :
    (segment ++ '/' :: cs).dropWhile (· != x) = cs.dropWhile (· != x) := by
  rw [List.dropWhile_append_of_pos (bne_of_not_mem h),
    List.dropWhile_cons_of_pos (p := (· != x)) (bne_iff_ne.mpr hx.symm)]

end Cutting

theorem withSlashes_append_slash (a b : List Char) :
    withSlashes (a ++ '/' :: b) = withSlashes a ++ '/' :: withSlashes b := by
  rw [withSlashes, List.map_append, List.map_cons]
  rfl

theorem withSlashes_eq_self {cs : List Char} (h : '\\' ∉ cs) : withSlashes cs = cs := by
  refine (List.map_congr_left fun c hc => ?_).trans (List.map_id cs)
  exact if_neg fun (heq : c = '\\') => h (heq ▸ hc)

/-- A text without the characters that end a segment or vanish from it. -/
def Undivided (cs : List Char) : Prop :=
  ∀ c ∈ ['/', '\\', '?', '#', '\t', '\n', '\r'], c ∉ cs

instance (cs : List Char) : Decidable (Undivided cs) := List.decidableBAll (· ∉ cs) _

theorem Undivided.oneLine {segment : List Char} (h : Undivided segment) : OneLine segment := by
  intro c hc
  refine ⟨?_, ?_, ?_⟩ <;> rintro rfl <;> exact h _ (by decide) hc

namespace Url

variable (origin : Origin) (done : List (List Char)) {segment : List Char}

/-- **A segment** is entered, and reading goes on behind the slash. -/
theorem below_cons (h : Undivided segment) (cs : List Char) :
    below origin done (segment ++ '/' :: cs) = below origin (enter done segment) cs := by
  have hquery : '?' ∉ segment := h _ (by decide)
  unfold below queryOf
  rw [cleanEnd_append_slash h.oneLine, takeWhile_append_slash (h _ (by decide)) (by decide)]
  dsimp only
  rw [takeWhile_append_slash hquery (by decide), dropWhile_append_slash hquery (by decide),
    withSlashes_append_slash, withSlashes_eq_self (h _ (by decide)),
    splitOn_append_cons _ (h _ (by decide))]
  rw [← List.singleton_append, resolveFrom_append (splitOn_ne_nil _ _), List.foldl_cons,
    List.foldl_nil]

/-- The last segment. -/
theorem below_segment (h : Undivided segment)
    (hlast : ∀ c, segment.getLast? = some c → 0x20 < c.toNat) :
    below origin done segment = ⟨origin, resolveFrom done [segment], none⟩ := by
  have hfragment := bne_of_not_mem (h '#' (by decide))
  have hquery := bne_of_not_mem (h '?' (by decide))
  unfold below queryOf
  rw [cleanEnd_eq_self h.oneLine hlast, List.takeWhile_eq_self_iff.mpr hfragment]
  dsimp only
  rw [List.takeWhile_eq_self_iff.mpr hquery, List.dropWhile_eq_nil_iff.mpr hquery,
    withSlashes_eq_self (h _ (by decide)), splitOn_of_not_mem (h _ (by decide))]

end Url

/-! ### Plain addresses -/

/-- A text that starts with `https:` does not start with `http:`. -/
theorem stripWord?_http_eq_none {w : List Char}
    (h : w.map Char.toLower = "https:".toList.map Char.toLower) (xs : List Char) :
    stripWord? "http:".toList (w ++ xs) = none := by
  rw [Option.eq_none_iff_forall_ne_some]
  intro rest hrest
  obtain ⟨v, hv, hlower⟩ := stripWord?_eq_some_iff.mp hrest
  have hw : w.length = 6 := by simpa using congrArg List.length h
  have hlength : v.length = 5 := by simpa using congrArg List.length hlower
  have htake : w.take 5 = v := by
    rw [← List.take_append_of_le_length (show 5 ≤ w.length by omega), hv, List.take_left' hlength]
  rw [← htake, List.map_take, h] at hlower
  revert hlower
  decide

theorem exists_scheme {cs rest : List Char} {secure : Bool}
    (h : takeScheme? cs = some (secure, rest)) :
    ∃ scheme, cs = scheme ++ rest ∧ ∀ xs, takeScheme? (scheme ++ xs) = some (secure, xs) := by
  unfold takeScheme? at h
  split at h
  · next hhttp =>
    cases h
    obtain ⟨w, rfl, hw⟩ := stripWord?_eq_some_iff.mp hhttp
    refine ⟨w, rfl, fun xs => ?_⟩
    rw [takeScheme?, stripWord?_eq_some_iff.mpr ⟨w, rfl, hw⟩]
  · obtain ⟨_, hhttps, heq⟩ := Option.map_eq_some_iff.mp h
    cases heq
    obtain ⟨w, rfl, hw⟩ := stripWord?_eq_some_iff.mp hhttps
    refine ⟨w, rfl, fun xs => ?_⟩
    rw [takeScheme?, stripWord?_http_eq_none hw, stripWord?_eq_some_iff.mpr ⟨w, rfl, hw⟩]
    rfl

/-- What follows the scheme and its slashes can be exchanged for something else. -/
theorem exists_front {cs rest : List Char} {secure : Bool}
    (h : takeServer? cs = some (secure, rest)) :
    ∃ front, cs = front ++ rest ∧ ∀ xs, (∀ c, xs.head? = some c → isSlash c = false) →
      takeServer? (front ++ xs) = some (secure, xs) := by
  obtain ⟨⟨_, rest⟩, hscheme, heq⟩ := Option.map_eq_some_iff.mp h
  cases heq
  obtain ⟨scheme, rfl, htake⟩ := exists_scheme hscheme
  refine ⟨scheme ++ rest.takeWhile isSlash, ?_, fun xs hxs => ?_⟩
  · rw [List.append_assoc, List.takeWhile_append_dropWhile]
  · rw [List.append_assoc, takeServer?, htake, Option.map_some,
      List.dropWhile_append_of_pos fun c hc => List.all_eq_true.mp List.all_takeWhile c hc]
    cases xs with
    | nil => rfl
    | cons c xs => rw [List.dropWhile_cons_of_neg (by simp [hxs c rfl])]

namespace Url

theorem parse?_eq (names : AsciiNames) (s : String) : parse? names s =
    (takeServer? (cleanAddress s.toList)).bind fun (secure, rest) =>
      (originOf? names secure (rest.takeWhile (!endsServer ·))).map fun origin =>
        ofResource origin (rest.dropWhile (!endsServer ·)) :=
  bind_congr fun _ => bind_pure_comp _ _

/-- Where a path goes on, the segments in front of its slash have been entered. -/
theorem exists_ofResource (origin : Origin) {path : List Char} (hquery : '?' ∉ path)
    (hfragment : '#' ∉ path) : ∃ done, ∀ cs, ofResource origin (path ++ '/' :: cleanEnd cs) =
      below origin done cs := by
  have hresolve : ∃ done, ∀ cs, resolvePath (path ++ '/' :: cs) =
      resolveFrom done (splitOn '/' (withSlashes cs)) := by
    cases path with
    | nil => exact ⟨[], fun cs => rfl⟩
    | cons c path =>
      refine ⟨(splitOn '/' (withSlashes path)).foldl enter [], fun cs => ?_⟩
      show resolveFrom [] (splitOn '/' (withSlashes (path ++ '/' :: cs))) = _
      rw [withSlashes_append_slash, splitOn_append_sep, resolveFrom_append (splitOn_ne_nil _ _)]
  obtain ⟨done, hdone⟩ := hresolve
  refine ⟨done, fun cs => ?_⟩
  unfold ofResource below queryOf
  dsimp only
  rw [takeWhile_append_slash hfragment (by decide), takeWhile_append_slash hquery (by decide),
    dropWhile_append_slash hquery (by decide), hdone]

end Url

/-- An address that can be read, without a query or a fragment, and without blanks and controls. -/
structure PlainAddress (names : AsciiNames) (s : String) : Prop where
  readable : (Url.parse? names s).isSome = true
  chars : ∀ c ∈ s.toList, 0x20 < c.toNat ∧ c ≠ '?' ∧ c ≠ '#'

instance (names : AsciiNames) (s : String) : Decidable (PlainAddress names s) :=
  decidable_of_iff ((Url.parse? names s).isSome = true ∧
      s.toList.all (fun c => 0x20 < c.toNat && c != '?' && c != '#') = true)
    ⟨fun ⟨readable, chars⟩ => ⟨readable, by simpa [and_assoc] using chars⟩,
      fun h => ⟨h.readable, by simpa [and_assoc] using h.chars⟩⟩

theorem hostOf?_nil (names : AsciiNames) : hostOf? names [] = none := by
  have hname : (textOfBytes (percentDecode [])).toList = [] := by decide +kernel
  rw [hostOf?, hname]
  · rfl
  · nofun

theorem originOf?_nil (names : AsciiNames) (secure : Bool) : originOf? names secure [] = none := by
  show (hostOf? names []).bind _ = none
  rw [hostOf?_nil]
  rfl

/-- The parts of an address: what stands in front of the server's name, the name, and the path. -/
structure AddressParts (names : AsciiNames) (cs front server path : List Char) (secure : Bool)
    (origin : Origin) : Prop where
  text : cs = front ++ (server ++ path)
  front : ∀ xs, (∀ c, xs.head? = some c → isSlash c = false) →
    takeServer? (front ++ xs) = some (secure, xs)
  origin : originOf? names secure server = some origin
  server : ∀ c ∈ server, endsServer c = false
  path : ∀ c, path.head? = some c → endsServer c = true

theorem isSlash_eq_false {c : Char} (h : endsServer c = false) : isSlash c = false := by
  simp only [endsServer, isSlash, Bool.or_eq_false_iff] at h ⊢
  exact h.1.1

/-- The name of a server reaches up to the first character that ends it. -/
theorem server_append {server rest : List Char} (hserver : ∀ c ∈ server, endsServer c = false)
    (hrest : ∀ c, rest.head? = some c → endsServer c = true) :
    (server ++ rest).takeWhile (!endsServer ·) = server ∧
      (server ++ rest).dropWhile (!endsServer ·) = rest := by
  have hall : ∀ c ∈ server, (!endsServer c) = true := fun c hc => by simp [hserver c hc]
  rw [List.takeWhile_append_of_pos hall, List.dropWhile_append_of_pos hall]
  cases rest with
  | nil => exact ⟨List.append_nil server, rfl⟩
  | cons c rest => simp [hrest c rfl]

theorem oneLine_of_lt {cs : List Char} (h : ∀ c ∈ cs, 0x20 < c.toNat) : OneLine cs := by
  intro c hc
  refine ⟨?_, ?_, ?_⟩ <;> rintro rfl <;> exact absurd (h _ hc) (by decide)

/-- A text that starts with more than controls and spaces is cleaned at its end only. -/
theorem cleanAddress_append_slash {segment : List Char} (hne : segment ≠ [])
    (h : ∀ c ∈ segment, 0x20 < c.toNat) (cs : List Char) :
    cleanAddress (segment ++ '/' :: cs) = segment ++ '/' :: cleanEnd cs := by
  obtain ⟨c, segment, rfl⟩ := List.exists_cons_of_ne_nil hne
  rw [List.cons_append, cleanAddress_cons (h c List.mem_cons_self), ← List.cons_append,
    cleanEnd_append_slash (oneLine_of_lt h)]

section AddressParts
variable {names : AsciiNames} {s : String} {front server path : List Char} {secure : Bool}
  {origin : Origin} (h : AddressParts names s.toList front server path secure origin)
include h

/-- The name of a server is not empty. -/
theorem AddressParts.exists_concat : ∃ init last, server = init ++ [last] := by
  rcases List.eq_nil_or_concat' server with rfl | hconcat
  · exact absurd h.origin (by rw [originOf?_nil]; nofun)
  · exact hconcat

theorem AddressParts.takeServer?_eq (cs : List Char) :
    takeServer? (front ++ (server ++ cs)) = some (secure, server ++ cs) := by
  obtain ⟨init, last, rfl⟩ := h.exists_concat
  refine h.front _ fun c hc => ?_
  rw [List.head?_append_of_ne_nil _ (by simp)] at hc
  exact isSlash_eq_false (h.server c (List.mem_of_head? hc))

/-- The slashes that are dropped belong to the path, since the name of the server has none. -/
theorem AddressParts.toList_dropSlashesEnd : (DirectoryConfig.dropSlashesEnd s).toList =
    front ++ (server ++ path.rdropWhile (· == '/')) := by
  obtain ⟨init, last, rfl⟩ := h.exists_concat
  have hlast : (last == '/') = false := by
    rw [beq_eq_false_iff_ne]
    rintro rfl
    exact absurd (h.server '/' (by simp)) (by decide)
  show (String.ofList (s.toList.rdropWhile (· == '/'))).toList = _
  rw [String.toList_ofList, h.text, List.append_assoc, List.singleton_append,
    ← List.append_assoc, rdropWhile_append_cons (p := (· == '/')) hlast]
  simp

/-- A path behind the name ends it, whatever is left of the path itself. -/
theorem AddressParts.head_path {path' : List Char} (hpath : path' <+: path) (cs : List Char) :
    ∀ c, (path' ++ '/' :: cs).head? = some c → endsServer c = true := by
  intro c hc
  cases path' with
  | nil =>
    cases hc
    decide
  | cons x path' =>
    cases hc
    obtain ⟨rest, rfl⟩ := hpath
    exact h.path _ rfl

end AddressParts

section Plain
variable {names : AsciiNames} {s : String} (h : PlainAddress names s)
include h

theorem PlainAddress.cleanAddress_eq : cleanAddress s.toList = s.toList := by
  have hchars : ∀ c ∈ s.toList, 0x20 < c.toNat := fun c hc => (h.chars c hc).1
  cases hs : s.toList with
  | nil => rfl
  | cons c cs =>
    rw [cleanAddress_cons (hchars c (by simp [hs])), ← hs]
    exact cleanEnd_eq_self (oneLine_of_lt hchars) fun c hc => hchars c (List.mem_of_getLast? hc)

theorem PlainAddress.exists_parts :
    ∃ front server path secure origin,
      AddressParts names s.toList front server path secure origin := by
  obtain ⟨u, hu⟩ := Option.isSome_iff_exists.mp h.readable
  rw [Url.parse?_eq, h.cleanAddress_eq] at hu
  obtain ⟨⟨secure, rest⟩, hserver, hu⟩ := Option.bind_eq_some_iff.mp hu
  obtain ⟨origin, horigin, -⟩ := Option.map_eq_some_iff.mp hu
  obtain ⟨front, htext, hfront⟩ := exists_front hserver
  refine ⟨front, rest.takeWhile (!endsServer ·), rest.dropWhile (!endsServer ·), secure, origin,
    ⟨?_, hfront, horigin, fun c hc => ?_, fun c hc => ?_⟩⟩
  · rw [List.takeWhile_append_dropWhile, htext]
  · simpa using List.all_eq_true.mp List.all_takeWhile c hc
  · have := List.head?_dropWhile_not (!endsServer ·) rest
    rw [hc] at this
    simpa using this

/-- **Below a plain address** a path is read behind the server and the segments of the address. -/
theorem PlainAddress.exists_below :
    ∃ origin done, ∀ (t : String) (cs : List Char),
      t.toList = (DirectoryConfig.dropSlashesEnd s).toList ++ '/' :: cs →
        Url.parse? names t = some (Url.below origin done cs) := by
  obtain ⟨front, server, path, secure, origin, hparts⟩ := h.exists_parts
  have hbase := hparts.toList_dropSlashesEnd
  have hpath : path.rdropWhile (· == '/') <+: path := List.rdropWhile_prefix _ _
  generalize path.rdropWhile (· == '/') = path' at hbase hpath
  have hsubset : ∀ c ∈ front ++ (server ++ path'), c ∈ s.toList := by
    rw [hparts.text]
    have hprefix := (List.prefix_append_right_inj server).mpr hpath
    exact fun c hc => ((List.prefix_append_right_inj front).mpr hprefix).subset hc
  have hmem : ∀ c ∈ path', c ∈ s.toList := fun c hc => hsubset c (by simp [hc])
  have hquery : '?' ∉ path' := fun hm => (h.chars _ (hmem _ hm)).2.1 rfl
  have hfragment : '#' ∉ path' := fun hm => (h.chars _ (hmem _ hm)).2.2 rfl
  obtain ⟨done, hdone⟩ := Url.exists_ofResource origin hquery hfragment
  refine ⟨origin, done, fun t cs ht => ?_⟩
  have hne : front ++ (server ++ path') ≠ [] := by
    obtain ⟨init, last, rfl⟩ := hparts.exists_concat
    simp
  have hclean := cleanAddress_append_slash hne (fun c hc => (h.chars c (hsubset c hc)).1) cs
  obtain ⟨htake, hdrop⟩ := server_append hparts.server (hparts.head_path hpath (cleanEnd cs))
  rw [Url.parse?_eq, ht, hbase, hclean, List.append_assoc, List.append_assoc,
    hparts.takeServer?_eq, Option.bind_some]
  dsimp only
  rw [htake, hdrop, hparts.origin, Option.map_some, hdone]

end Plain

end Entitlements
