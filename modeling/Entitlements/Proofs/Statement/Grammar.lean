import Entitlements.Proofs.Text.LowerCase
import Entitlements.Statement.Clause

/-! # The grammar of clauses

The parts of a clause, said without the scanners that read them. A clause opens with an effect
(`OpensWith`); then comes the longest run of items (`LongestRun`), and behind it there may be
conditions (`Conditions`). The scanners of a clause find just these, each its own part
(`opensWith_iff`, `longestRun_iff`, `conditions_iff`). -/

namespace Entitlements

/-! ### Words -/

/-- A word at the start of a text, in any case of the letters `A` to `Z`, then at least one blank,
and the rest. -/
def StartsWith (word : String) (cs rest : List Char) : Prop :=
  ∃ w b, cs = w ++ b ++ rest ∧ w.map Char.toLower = word.toList.map Char.toLower ∧ b ≠ [] ∧ Blanks b

theorem StartsWith.afterWord?_eq {word : String} {cs rest : List Char}
    (h : StartsWith word cs rest) : afterWord? word.toList cs = some (dropBlanks rest) := by
  obtain ⟨w, b, rfl, hw, hne, hb⟩ := h
  obtain ⟨c, b, rfl⟩ := List.exists_cons_of_ne_nil hne
  have hstrip := stripWord?_eq_some_iff.mpr ⟨w, List.append_assoc w (c :: b) rest, hw⟩
  rw [afterWord?, hstrip]
  show (if isBlank c = true then some (dropBlanks (b ++ rest)) else none) = _
  rw [if_pos (hb c List.mem_cons_self),
    dropBlanks_append fun x hx => hb x (List.mem_cons_of_mem c hx)]

theorem startsWith_of_afterWord? {word : String} {cs rest : List Char}
    (h : afterWord? word.toList cs = some rest) : StartsWith word cs rest := by
  unfold afterWord? at h
  split at h
  · next c rest' hstrip =>
    obtain ⟨w, rfl, hw⟩ := stripWord?_eq_some_iff.mp hstrip
    obtain ⟨b, hb, hrest⟩ := exists_blanks_append rest'
    split at h
    · next hc =>
      obtain rfl := Option.some.inj h
      refine ⟨w, c :: b, by simp [← hrest], hw, by simp, ?_⟩
      intro x hx
      rcases List.mem_cons.mp hx with rfl | hx
      · exact hc
      · exact hb x hx
    · cases h
  · cases h

theorem StartsWith.stripWord?_eq {word : String} {cs rest : List Char}
    (h : StartsWith word cs rest) : ∃ w b, cs = w ++ b ++ rest ∧
      w.map Char.toLower = word.toList.map Char.toLower ∧ b ≠ [] ∧ Blanks b ∧
        stripWord? word.toList cs = some (b ++ rest) := by
  obtain ⟨w, b, rfl, hw, hne, hb⟩ := h
  exact ⟨w, b, rfl, hw, hne, hb, stripWord?_eq_some_iff.mpr ⟨w, List.append_assoc w b rest, hw⟩⟩

theorem head_eq_of_stripWord? {word cs rest : List Char} (h : stripWord? word cs = some rest)
    (hword : word ≠ []) : cs.head?.map Char.toLower = word.head?.map Char.toLower := by
  obtain ⟨w, rfl, hw⟩ := stripWord?_eq_some_iff.mp h
  have hne : w ≠ [] := by
    rintro rfl
    exact hword (by simpa using hw.symm)
  obtain ⟨c, w, rfl⟩ := List.exists_cons_of_ne_nil hne
  have := congrArg List.head? hw
  simpa [List.head?_map] using this

theorem StartsWith.head_eq {word : String} {cs rest : List Char} (h : StartsWith word cs rest)
    (hword : word.toList ≠ []) :
    cs.head?.map Char.toLower = word.toList.head?.map Char.toLower := by
  obtain ⟨w, b, -, -, -, -, hstrip⟩ := h.stripWord?_eq
  exact head_eq_of_stripWord? hstrip hword

/-! ### Effects -/

/-- A text that opens a clause: the keyword of an effect, then at least one blank, and the rest,
which starts with a character that is neither blank nor a comma. -/
def OpensWith (e : Effect) (cs rest : List Char) : Prop :=
  StartsWith e.keyword cs rest ∧ ∃ c, rest.head? = some c ∧ isBlank c = false ∧ c ≠ ','

theorem isItemChar_iff {c : Char} : isItemChar c = true ↔ isBlank c = false ∧ c ≠ ',' := by
  simp [isItemChar]

theorem stripWord?_allow_eq_none {cs rest : List Char}
    (h : stripWord? Effect.deny.keyword.toList cs = some rest) :
    stripWord? Effect.allow.keyword.toList cs = none := by
  rw [Option.eq_none_iff_forall_ne_some]
  intro rest' h'
  have hhead := head_eq_of_stripWord? h (by decide)
  rw [head_eq_of_stripWord? h' (by decide)] at hhead
  exact absurd hhead (by decide)

theorem opensWith_iff {e : Effect} {cs rest : List Char} :
    OpensWith e cs rest ↔
      takeEffect? cs = some (e, rest) ∧ ∃ c, rest.head? = some c ∧ isItemChar c = true := by
  simp only [isItemChar_iff]
  constructor
  · rintro ⟨h, c, hc, hb, hcomma⟩
    refine ⟨?_, c, hc, hb, hcomma⟩
    have hrest : dropBlanks rest = rest := dropBlanks_eq_self fun c' hc' => by
      rw [hc] at hc'; cases hc'; exact hb
    have hafter := h.afterWord?_eq
    rw [hrest] at hafter
    unfold takeEffect?
    cases e with
    | allow => rw [hafter]
    | deny =>
      have hallow : afterWord? Effect.allow.keyword.toList cs = none := by
        obtain ⟨w, b, -, -, -, -, hstrip⟩ := h.stripWord?_eq
        rw [afterWord?, stripWord?_allow_eq_none hstrip]
      rw [hallow, hafter]
  · rintro ⟨h, c, hc, hb, hcomma⟩
    refine ⟨?_, c, hc, hb, hcomma⟩
    unfold takeEffect? at h
    split at h
    · next hallow => cases h; exact startsWith_of_afterWord? hallow
    · split at h
      · next hdeny => cases h; exact startsWith_of_afterWord? hdeny
      · cases h

/-! ### Runs of items -/

/-- An item: at least one character, none of them blank or a comma. -/
def IsItem (item : List Char) : Prop := item ≠ [] ∧ ∀ c ∈ item, isBlank c = false ∧ c ≠ ','

/-- Items separated by commas, with any blanks around the commas. -/
inductive ItemRun : List Char → List (List Char) → Prop
  | one {item : List Char} (h : IsItem item) : ItemRun item [item]
  | more {item b b' text : List Char} {items : List (List Char)} (h : IsItem item)
      (hb : Blanks b) (hb' : Blanks b') (rest : ItemRun text items) :
      ItemRun (item ++ b ++ ',' :: (b' ++ text)) (item :: items)

/-- The longest run of items at the start of a text, and the rest. -/
def LongestRun (cs : List Char) (items : List (List Char)) (rest : List Char) : Prop :=
  (∃ text, cs = text ++ rest ∧ ItemRun text items) ∧
    ∀ text' items' rest', cs = text' ++ rest' → ItemRun text' items' → rest.length ≤ rest'.length

theorem IsItem.noBlankEnds {item : List Char} (h : IsItem item) : NoBlankEnds item :=
  ⟨fun c hc => (h.2 c (List.mem_of_head? hc)).1, fun c hc => (h.2 c (List.mem_of_getLast? hc)).1⟩

theorem IsItem.isItemChar {item : List Char} (h : IsItem item) :
    ∀ c ∈ item, isItemChar c = true := fun c hc => isItemChar_iff.mpr (h.2 c hc)

theorem isItem_takeWhile {cs : List Char} (h : cs.takeWhile isItemChar ≠ []) :
    IsItem (cs.takeWhile isItemChar) :=
  ⟨h, fun _ hc => isItemChar_iff.mp (List.all_eq_true.mp List.all_takeWhile _ hc)⟩

theorem takeItem_append {item rest : List Char} (h : IsItem item)
    (hrest : ∀ c, rest.head? = some c → isItemChar c = false) :
    takeItem (item ++ rest) = (item, rest) := by
  rw [takeItem, List.takeWhile_append_of_pos h.isItemChar,
    List.dropWhile_append_of_pos h.isItemChar]
  cases rest with
  | nil => simp
  | cons c rest => simp [hrest c rfl]

theorem ItemRun.isItem {text : List Char} {items : List (List Char)} (h : ItemRun text items) :
    items ≠ [] ∧ ∀ item ∈ items, IsItem item := by
  induction h with
  | one h => exact ⟨by simp, fun _ hm => List.mem_singleton.mp hm ▸ h⟩
  | more h _ _ _ ih =>
    refine ⟨by simp, fun item hm => ?_⟩
    rcases List.mem_cons.mp hm with rfl | hm
    · exact h
    · exact ih.2 item hm

theorem ItemRun.subset {run : List Char} {items : List (List Char)} (h : ItemRun run items) :
    ∀ item ∈ items, item ⊆ run := by
  induction h with
  | one => exact List.forall_mem_singleton.mpr fun _ hc => hc
  | more _ _ _ _ ih =>
    refine List.forall_mem_cons.mpr ⟨by simp, fun item hm c hc => ?_⟩
    simp [ih item hm hc]

/-- The next item stands behind a comma, with any blanks around it. -/
theorem exists_of_nextItem? {cs item rest : List Char} (h : nextItem? cs = some (item, rest)) :
    ∃ b b', Blanks b ∧ Blanks b' ∧ IsItem item ∧ cs = b ++ ',' :: (b' ++ (item ++ rest)) := by
  obtain ⟨b, hb, hcs⟩ := exists_blanks_append cs
  unfold nextItem? at h
  split at h
  · next rest' hdrop =>
    obtain ⟨b', hb', hrest⟩ := exists_blanks_append rest'
    split at h
    · cases h
    · next hne =>
      obtain ⟨rfl, rfl⟩ := Prod.mk.inj (Option.some.inj h)
      refine ⟨b, b', hb, hb', isItem_takeWhile fun hnil => ?_, ?_⟩
      · exact hne _ (by rw [takeItem, hnil])
      · rw [List.takeWhile_append_dropWhile, ← hrest, ← hdrop, ← hcs]
  · cases h

theorem moreItems_eq_none {cs : List Char} (h : nextItem? cs = none) : moreItems cs = ([], cs) := by
  rw [moreItems]
  split
  · rfl
  · next heq => rw [h] at heq; cases heq

theorem moreItems_eq_some {cs item rest : List Char} (h : nextItem? cs = some (item, rest)) :
    moreItems cs = (item :: (moreItems rest).1, (moreItems rest).2) := by
  rw [moreItems]
  split
  · next heq => rw [h] at heq; cases heq
  · next heq => rw [h] at heq; cases heq; rfl

/-- Whatever item stands in front, it starts a run that goes on with the items that follow. -/
theorem exists_run_moreItems (cs : List Char) : ∃ tail, cs = tail ++ (moreItems cs).2 ∧
    ∀ item, IsItem item → ItemRun (item ++ tail) (item :: (moreItems cs).1) := by
  cases h : nextItem? cs with
  | none =>
    refine ⟨[], by rw [moreItems_eq_none h]; rfl, fun item hitem => ?_⟩
    rw [moreItems_eq_none h, List.append_nil]
    exact .one hitem
  | some p =>
    obtain ⟨next, rest⟩ := p
    have := length_of_nextItem? h
    obtain ⟨b, b', hb, hb', hnext, hcs⟩ := exists_of_nextItem? h
    obtain ⟨tail, htail, hrun⟩ := exists_run_moreItems rest
    refine ⟨b ++ ',' :: (b' ++ (next ++ tail)), ?_, fun item hitem => ?_⟩
    · rw [moreItems_eq_some h]
      simp only [List.append_assoc, List.cons_append, ← htail]
      exact hcs
    · rw [moreItems_eq_some h, ← List.append_assoc]
      exact .more hitem hb hb' (hrun next hnext)
termination_by cs.length

theorem moreItems_length_le (cs : List Char) : (moreItems cs).2.length ≤ cs.length := by
  obtain ⟨tail, h, -⟩ := exists_run_moreItems cs
  have := congrArg List.length h
  rw [List.length_append] at this
  omega

/-- A run of items is taken: the first one, and those that follow. -/
theorem takeItems?_eq_some_iff {cs rest : List Char} {items : List (List Char)} :
    takeItems? cs = some (items, rest) ↔ ∃ item r, cs = item ++ r ∧ IsItem item ∧
      takeItem cs = (item, r) ∧ items = item :: (moreItems r).1 ∧ rest = (moreItems r).2 := by
  unfold takeItems?
  constructor
  · intro h
    split at h
    · cases h
    · next item r hne htake =>
      obtain ⟨rfl, rfl⟩ := Prod.mk.inj htake
      obtain ⟨rfl, rfl⟩ := Prod.mk.inj (Option.some.inj h)
      exact ⟨_, _, List.takeWhile_append_dropWhile.symm, isItem_takeWhile hne, rfl, rfl, rfl⟩
  · rintro ⟨item, r, -, hitem, htake, rfl, rfl⟩
    obtain ⟨c, item, rfl⟩ := List.exists_cons_of_ne_nil hitem.1
    rw [htake]

/-- There is a run where an item can start. -/
theorem takeItems?_isSome_iff {cs : List Char} :
    (takeItems? cs).isSome = true ↔ ∃ c, cs.head? = some c ∧ isItemChar c = true := by
  constructor
  · intro h
    obtain ⟨⟨items, rest⟩, htake⟩ := Option.isSome_iff_exists.mp h
    obtain ⟨item, r, rfl, hitem, -⟩ := takeItems?_eq_some_iff.mp htake
    obtain ⟨c, item, rfl⟩ := List.exists_cons_of_ne_nil hitem.1
    exact ⟨c, rfl, hitem.isItemChar c List.mem_cons_self⟩
  · rintro ⟨c, hhead, hc⟩
    obtain ⟨tail, rfl⟩ := List.head?_eq_some_iff.mp hhead
    rw [takeItems?, takeItem, List.takeWhile_cons_of_pos hc]
    rfl

/-- What `takeItems?` takes is a run. -/
theorem exists_run_of_takeItems? {cs rest : List Char} {items : List (List Char)}
    (h : takeItems? cs = some (items, rest)) : ∃ text, cs = text ++ rest ∧ ItemRun text items := by
  obtain ⟨item, r, rfl, hitem, -, rfl, rfl⟩ := takeItems?_eq_some_iff.mp h
  obtain ⟨tail, htail, hrun⟩ := exists_run_moreItems r
  exact ⟨item ++ tail, by rw [List.append_assoc, ← htail], hrun item hitem⟩

/-- A run that can be taken may also follow a comma. -/
theorem moreItems_eq_of_takeItems? {cs rest b b' : List Char} {items : List (List Char)}
    (h : takeItems? cs = some (items, rest)) (hb : Blanks b) (hb' : Blanks b') :
    moreItems (b ++ ',' :: (b' ++ cs)) = (items, rest) := by
  obtain ⟨item, r, hcs, hitem, htake, rfl, rfl⟩ := takeItems?_eq_some_iff.mp h
  obtain ⟨c, item, rfl⟩ := List.exists_cons_of_ne_nil hitem.1
  have hhead : ∀ x, cs.head? = some x → isBlank x = false := by
    intro x hx
    rw [hcs] at hx
    cases hx
    exact (hitem.2 c List.mem_cons_self).1
  have hnext : nextItem? (b ++ ',' :: (b' ++ cs)) = some (c :: item, r) := by
    have hcomma : dropBlanks (',' :: (b' ++ cs)) = ',' :: (b' ++ cs) :=
      dropBlanks_eq_self fun x hx => by cases hx; decide
    rw [nextItem?, dropBlanks_append hb, hcomma]
    simp only [dropBlanks_append hb', dropBlanks_eq_self hhead, htake]
  rw [moreItems_eq_some hnext]

/-- No run is longer than the one that is taken. -/
theorem ItemRun.exists_takeItems? {text : List Char} {items : List (List Char)}
    (h : ItemRun text items) (rest : List Char) : ∃ items' rest',
      takeItems? (text ++ rest) = some (items', rest') ∧ rest'.length ≤ rest.length := by
  induction h with
  | @one item h =>
    have htake : takeItem (item ++ rest) =
        (item ++ rest.takeWhile isItemChar, rest.dropWhile isItemChar) := by
      rw [takeItem, List.takeWhile_append_of_pos h.isItemChar,
        List.dropWhile_append_of_pos h.isItemChar]
    obtain ⟨c, item, rfl⟩ := List.exists_cons_of_ne_nil h.1
    refine ⟨(c :: item ++ rest.takeWhile isItemChar) :: (moreItems (rest.dropWhile isItemChar)).1,
      (moreItems (rest.dropWhile isItemChar)).2, ?_, ?_⟩
    · rw [takeItems?, htake]
      rfl
    · exact Nat.le_trans (moreItems_length_le _) (List.dropWhile_suffix isItemChar).length_le
  | @more item b b' text items h hb hb' _ ih =>
    obtain ⟨items', rest', htake, hle⟩ := ih
    have hstop : ∀ c, (b ++ ',' :: (b' ++ (text ++ rest))).head? = some c →
        isItemChar c = false := by
      intro c hc
      cases b with
      | nil => cases hc; decide
      | cons x b =>
        have hx : isBlank c = true := by cases hc; exact hb c List.mem_cons_self
        simp [Entitlements.isItemChar, hx]
    refine ⟨item :: items', rest', takeItems?_eq_some_iff.mpr
      ⟨item, b ++ ',' :: (b' ++ (text ++ rest)), by simp, h, ?_, ?_, ?_⟩, hle⟩
    · simpa using takeItem_append h hstop
    · rw [moreItems_eq_of_takeItems? htake hb hb']
    · rw [moreItems_eq_of_takeItems? htake hb hb']

/-- A run has one reading. -/
theorem ItemRun.splitOn_eq {text : List Char} {items : List (List Char)} (h : ItemRun text items) :
    (splitOn ',' text).map trim = items := by
  induction h with
  | @one item h =>
    rw [splitOn_of_not_mem fun hm => (h.2 _ hm).2 rfl, List.map_singleton,
      trim_eq_self h.noBlankEnds]
  | @more item b b' text items h hb hb' hrun ih =>
    have hcomma : ',' ∉ item ++ b := by
      intro hm
      rcases List.mem_append.mp hm with hm | hm
      · exact (h.2 _ hm).2 rfl
      · exact absurd (hb _ hm) (by decide)
    rw [splitOn_append_cons _ hcomma, List.map_cons, trim_append_blanks hb,
      trim_eq_self h.noBlankEnds, map_trim_splitOn_append (by decide) hb', ih]

/-- **The longest run of items** is the one that is taken. -/
theorem longestRun_iff {cs rest : List Char} {items : List (List Char)} :
    LongestRun cs items rest ↔ takeItems? cs = some (items, rest) := by
  have longest {items' rest'} (h : takeItems? cs = some (items', rest')) :
      LongestRun cs items' rest' := by
    refine ⟨exists_run_of_takeItems? h, fun text'' items'' rest'' hcs hrun => ?_⟩
    obtain ⟨items₁, rest₁, h₁, hle⟩ := hrun.exists_takeItems? rest''
    rw [← hcs, h] at h₁
    cases h₁
    exact hle
  constructor
  · rintro ⟨⟨text, hcs, hrun⟩, hmax⟩
    obtain ⟨items', rest', htake, hle⟩ := hrun.exists_takeItems? rest
    rw [← hcs] at htake
    obtain ⟨⟨text', hcs', hrun'⟩, -⟩ := longest htake
    have hlen := hmax text' items' rest' hcs' hrun'
    obtain ⟨rfl, rfl⟩ := List.append_inj' (hcs.symm.trans hcs') (by omega)
    rw [htake, ← hrun.splitOn_eq, hrun'.splitOn_eq]
  · exact longest

/-! ### Conditions -/

/-- The conditions behind the items: what follows the word `WHERE` without the blanks around it. -/
inductive Conditions (cs : List Char) : Option String → Prop
  | given {b text rest t : List Char} (hcs : cs = b ++ text) (hb : Blanks b)
      (h : StartsWith "WHERE" text rest) (ht : Trimmed rest t) (hne : t ≠ []) :
      Conditions cs (some (String.ofList t))
  | absent (h : ∀ b text rest, cs = b ++ text → Blanks b → ¬ StartsWith "WHERE" text rest) :
      Conditions cs none

theorem dropBlanks_append_startsWith {b text rest : List Char} (hb : Blanks b)
    (h : StartsWith "WHERE" text rest) : dropBlanks (b ++ text) = text := by
  rw [dropBlanks_append hb]
  refine dropBlanks_eq_self fun c hc => ?_
  have hlower := h.head_eq (by decide)
  rw [hc] at hlower
  have hw : c.toLower = 'w' := Option.some.inj hlower
  exact not_isBlank_of_toLower hw (by decide)

/-- A text that does not end with a blank goes on behind a word and its blanks. -/
theorem StartsWith.ne_nil {word : String} {cs rest : List Char} (h : StartsWith word cs rest)
    (hlast : ∀ c, cs.getLast? = some c → isBlank c = false) : rest ≠ [] := by
  rintro rfl
  obtain ⟨w, b, rfl, -, hne, hb⟩ := h
  have hmem := List.getLast_mem hne
  have hblank := hlast (b.getLast hne) (by
    rw [List.append_nil, List.getLast?_append, List.getLast?_eq_some_getLast hne]
    rfl)
  rw [hb _ hmem] at hblank
  cases hblank

theorem dropBlanksEnd_ne_nil {cs : List Char} (hne : dropBlanks cs ≠ []) :
    dropBlanksEnd (dropBlanks cs) ≠ [] := by
  intro hnil
  obtain ⟨b, hb, h⟩ := exists_append_blanks (dropBlanks cs)
  rw [hnil, List.nil_append] at h
  obtain ⟨c, tail, hcons⟩ := List.exists_cons_of_ne_nil hne
  have hhead := head_dropBlanks cs c (by rw [hcons]; rfl)
  rw [hb c (by rw [← h, hcons]; exact List.mem_cons_self)] at hhead
  cases hhead

/-- Behind a text that does not end with a blank, the conditions are those that are taken. -/
theorem conditions_iff {cs : List Char} {o : Option String}
    (hlast : ∀ c, cs.getLast? = some c → isBlank c = false) :
    Conditions cs o ↔ (takeConditions? (dropBlanks cs)).map String.ofList = o := by
  obtain ⟨b, hb, hcs⟩ := exists_blanks_append cs
  constructor
  · rintro (@⟨b, text, rest, t, rfl, hb, h, ht, hne⟩ | habsent)
    · have hrest : dropBlanks rest ≠ [] := by
        intro hnil
        rw [← ht.trim_eq, trim, hnil] at hne
        exact hne rfl
      rw [dropBlanks_append_startsWith hb h, takeConditions?, h.afterWord?_eq, ← ht.trim_eq]
      split
      · next heq => exact absurd (Option.some.inj heq) hrest
      · next heq => rw [← Option.some.inj heq]; rfl
      · next heq => cases heq
    · have hnone : afterWord? "WHERE".toList (dropBlanks cs) = none := by
        rw [Option.eq_none_iff_forall_ne_some]
        exact fun rest h => habsent b _ rest hcs hb (startsWith_of_afterWord? h)
      rw [takeConditions?, hnone]
      rfl
  · rintro rfl
    rw [takeConditions?]
    split
    · next h =>
      rw [hcs] at hlast
      exact absurd rfl ((startsWith_of_afterWord? h).ne_nil (last_of_append hlast))
    · next rest hrest h =>
      have hstart := startsWith_of_afterWord? h
      have hdrop : dropBlanks rest = rest := Option.some.inj (hstart.afterWord?_eq.symm.trans h)
      have ht := trimmed_trim rest
      rw [trim, hdrop] at ht
      refine .given hcs hb hstart ht ?_
      rw [← hdrop]
      exact dropBlanksEnd_ne_nil (by rwa [hdrop])
    · next h =>
      refine .absent fun b' text rest hcs' hb' hstart => ?_
      rw [hcs', dropBlanks_append_startsWith hb' hstart, hstart.afterWord?_eq] at h
      cases h

end Entitlements
