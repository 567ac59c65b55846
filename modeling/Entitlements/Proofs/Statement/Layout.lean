import Entitlements.Proofs.Statement.Parsing

/-! # Layouts: the texts that write given clauses

A layout of a list of clauses is a text that writes them one after the other between `;`
(`Layout`). It is free in the case of the keywords, in the blanks behind the effect, around `WHERE`,
around commas and around clauses, and in the number of blank pieces. Clauses that can be written
(`Clause.Writable`) have a layout (`exists_layout`), and every layout of them is read back as these
clauses (`parseClauses_of_layout`, `parse_undoes_layout`). -/

namespace Entitlements

/-! ### What can be written -/

/-- An action that can be written: an item without a `;`. -/
def IsAction (action : String) : Prop := IsItem action.toList ∧ ';' ∉ action.toList

/-- Conditions that can be written. -/
structure IsConditions (conditions : String) : Prop where
  ne_nil : conditions.toList ≠ []
  ends : NoBlankEnds conditions.toList
  noSeparator : ';' ∉ conditions.toList

/-- A clause that can be written. -/
structure Clause.Writable (c : Clause) : Prop where
  actions_ne_nil : c.actions ≠ []
  actions : ∀ action ∈ c.actions, IsAction action
  conditions : ∀ conditions ∈ c.conditions, IsConditions conditions

/-! ### How it is written -/

/-- A keyword in any case of its letters. -/
def Spells (w : List Char) (keyword : String) : Prop :=
  w.map Char.toLower = keyword.toList.map Char.toLower

instance (w : List Char) (keyword : String) : Decidable (Spells w keyword) :=
  inferInstanceAs (Decidable (_ = _))

/-- At least one blank. -/
def Gap (b : List Char) : Prop := b ≠ [] ∧ Blanks b

/-- What stands behind the actions of a clause with these conditions. -/
inductive ConditionsWritten : Option String → List Char → Prop
  | absent : ConditionsWritten none []
  | given {b w b' : List Char} (conditions : String) (hb : Gap b) (hw : Spells w "WHERE")
      (hb' : Gap b') : ConditionsWritten (some conditions) (b ++ w ++ b' ++ conditions.toList)

/-- A text that writes one clause, without blanks around it. -/
inductive ClauseWritten (c : Clause) : List Char → Prop
  | mk {w b run tail : List Char} (hw : Spells w c.effect.keyword) (hb : Gap b)
      (hrun : ItemRun run (c.actions.map String.toList))
      (htail : ConditionsWritten c.conditions tail) : ClauseWritten c (w ++ b ++ run ++ tail)

/-- Pieces that write clauses: each piece is blank, or the next clause with blanks around it. -/
inductive PiecesWritten : List Clause → List (List Char) → Prop
  | nil : PiecesWritten [] []
  | blank {b : List Char} {cs : List Clause} {pieces : List (List Char)} (hb : Blanks b)
      (rest : PiecesWritten cs pieces) : PiecesWritten cs (b :: pieces)
  | clause {b text b' : List Char} {c : Clause} {cs : List Clause} {pieces : List (List Char)}
      (hb : Blanks b) (h : ClauseWritten c text) (hb' : Blanks b')
      (rest : PiecesWritten cs pieces) : PiecesWritten (c :: cs) ((b ++ text ++ b') :: pieces)

/-- A text that writes clauses: the pieces of some layout with a `;` between any two. -/
def Layout (cs : List Clause) (statement : String) : Prop :=
  ∃ pieces, PiecesWritten cs pieces ∧ statement.toList = [';'].intercalate pieces

/-! ### The parts of a clause -/

theorem Gap.head {b : List Char} (h : Gap b) (rest : List Char) :
    ∃ c, (b ++ rest).head? = some c ∧ isBlank c = true := by
  obtain ⟨c, b, rfl⟩ := List.exists_cons_of_ne_nil h.1
  exact ⟨c, rfl, h.2 c List.mem_cons_self⟩

theorem gap_space : Gap [' '] := by simp [Gap, Blanks, isBlank]

theorem ItemRun.head {run : List Char} {items : List (List Char)} (h : ItemRun run items) :
    ∃ c, run.head? = some c ∧ isBlank c = false ∧ c ≠ ',' := by
  cases h with
  | one h =>
    obtain ⟨c, item, rfl⟩ := List.exists_cons_of_ne_nil h.1
    exact ⟨c, rfl, h.2 c List.mem_cons_self⟩
  | more h =>
    obtain ⟨c, item, rfl⟩ := List.exists_cons_of_ne_nil h.1
    exact ⟨c, rfl, h.2 c List.mem_cons_self⟩

theorem ItemRun.last {run : List Char} {items : List (List Char)} (h : ItemRun run items) :
    ∃ c, run.getLast? = some c ∧ isBlank c = false := by
  induction h with
  | @one item h =>
    have hlast := List.getLast?_eq_some_getLast h.1
    exact ⟨_, hlast, (h.2 _ (List.getLast_mem h.1)).1⟩
  | @more item b b' text items h hb hb' rest ih =>
    obtain ⟨c, hc, hblank⟩ := ih
    refine ⟨c, ?_, hblank⟩
    have hcomma : (',' :: (b' ++ text)).getLast? = some c := by
      rw [← List.singleton_append, ← List.append_assoc, List.getLast?_append, hc]
      rfl
    rw [List.getLast?_append, hcomma]
    rfl

/-- A character that is in no item, no comma and no blank is not in the run. -/
theorem ItemRun.not_mem {x : Char} (hx : isBlank x = false) (hcomma : x ≠ ',') {run : List Char}
    {items : List (List Char)} (h : ItemRun run items) (hitems : ∀ item ∈ items, x ∉ item) :
    x ∉ run := by
  have hblanks : ∀ {b : List Char}, Blanks b → x ∉ b := fun hb hm => by
    have := hb x hm
    rw [hx] at this
    cases this
  induction h with
  | one => exact hitems _ List.mem_cons_self
  | more _ hb hb' _ ih =>
    have hitem := hitems _ List.mem_cons_self
    have htext := ih fun item hm => hitems item (List.mem_cons_of_mem _ hm)
    simp [hitem, hblanks hb, hblanks hb', htext, hcomma]

/-- Nothing here belongs to a run of items in front of it. -/
def EndsRun (tail : List Char) : Prop :=
  (∀ c, tail.head? = some c → isItemChar c = false) ∧ nextItem? tail = none

/-- **A run of items is taken as it stands**, up to where no item goes on and none follows. -/
theorem ItemRun.takeItems?_eq {run tail : List Char} {items : List (List Char)}
    (h : ItemRun run items) (htail : EndsRun tail) :
    takeItems? (run ++ tail) = some (items, tail) := by
  induction h with
  | @one item h =>
    have hmore := moreItems_eq_none htail.2
    exact takeItems?_eq_some_iff.mpr
      ⟨item, tail, rfl, h, takeItem_append h htail.1, by rw [hmore], by rw [hmore]⟩
  | @more item b b' text items h hb hb' _ ih =>
    have hmore := moreItems_eq_of_takeItems? ih hb hb'
    have hstop : ∀ c, (b ++ ',' :: (b' ++ (text ++ tail))).head? = some c →
        isItemChar c = false := by
      intro c hc
      cases b with
      | nil => cases hc; decide
      | cons x b =>
        have hx : isBlank c = true := by cases hc; exact hb c List.mem_cons_self
        simp [Entitlements.isItemChar, hx]
    have htake := takeItem_append h hstop
    refine takeItems?_eq_some_iff.mpr
      ⟨item, b ++ ',' :: (b' ++ (text ++ tail)), by simp, h, ?_, by rw [hmore], by rw [hmore]⟩
    simpa using htake

theorem Spells.head {w : List Char} {keyword : String} (h : Spells w keyword)
    (hne : keyword.toList ≠ []) : ∃ c w', w = c :: w' ∧
      keyword.toList.head?.map Char.toLower = some c.toLower := by
  have hw : w ≠ [] := by
    rintro rfl
    exact hne (by simpa [Spells] using h.symm)
  obtain ⟨c, w', rfl⟩ := List.exists_cons_of_ne_nil hw
  have := congrArg List.head? h
  exact ⟨c, w', rfl, by simpa [List.head?_map] using this.symm⟩

/-- No character of a keyword is a `;`, in any case. -/
theorem Spells.not_mem {w : List Char} {keyword : String} (h : Spells w keyword)
    (hkeyword : ';' ∉ keyword.toList.map Char.toLower) : ';' ∉ w := by
  intro hm
  have := List.mem_map_of_mem (f := Char.toLower) hm
  rw [h] at this
  exact hkeyword this

/-- What stands behind the actions ends their run. -/
theorem ConditionsWritten.endsRun {tail : List Char} {o : Option String}
    (h : ConditionsWritten o tail) : EndsRun tail := by
  cases h with
  | absent =>
    refine ⟨fun c hc => ?_, by decide⟩
    cases hc
  | @given b w b' conditions hb hw hb' =>
    obtain ⟨x, w', rfl, hx⟩ := hw.head (by decide)
    have hx : x.toLower = 'w' := (Option.some.inj hx).symm
    have hblank : isBlank x = false := not_isBlank_of_toLower hx (by decide)
    have hcomma : x ≠ ',' := by
      rintro rfl
      exact absurd hx (by decide)
    have hdrop : dropBlanks (b ++ (x :: w' ++ (b' ++ conditions.toList))) =
        x :: (w' ++ (b' ++ conditions.toList)) := by
      rw [dropBlanks_append hb.2]
      exact dropBlanks_eq_self fun c hc => by cases hc; exact hblank
    simp only [List.append_assoc]
    constructor
    · intro c hc
      obtain ⟨c', hc', hblank'⟩ := hb.head (x :: w' ++ (b' ++ conditions.toList))
      obtain rfl : c = c' := Option.some.inj (hc.symm.trans hc')
      simp [isItemChar, hblank']
    · rw [nextItem?, hdrop]
      split
      · next heq => cases heq; exact absurd rfl hcomma
      · rfl

theorem ConditionsWritten.last {tail : List Char} {o : Option String}
    (h : ConditionsWritten o tail) (ho : ∀ conditions ∈ o, IsConditions conditions) :
    ∀ c, tail.getLast? = some c → isBlank c = false := by
  intro c hc
  cases h with
  | absent => cases hc
  | @given b w b' conditions =>
    have hconditions := ho conditions rfl
    obtain ⟨x, hx⟩ := Option.isSome_iff_exists.mp
      (List.getLast?_isSome.mpr hconditions.ne_nil)
    rw [List.getLast?_append, hx] at hc
    cases hc
    exact hconditions.ends.last _ hx

/-- What stands behind the actions is read as the conditions. -/
theorem ConditionsWritten.takeConditions?_eq {tail : List Char} {o : Option String}
    (h : ConditionsWritten o tail) (ho : ∀ conditions ∈ o, IsConditions conditions) :
    (takeConditions? (dropBlanks tail)).map String.ofList = o := by
  have hlast := h.last ho
  refine (conditions_iff hlast).mp ?_
  cases h with
  | absent =>
    refine .absent fun b text rest hcs _ hstart => ?_
    obtain ⟨-, rfl⟩ := List.append_eq_nil_iff.mp hcs.symm
    have hhead := hstart.head_eq (by decide)
    exact absurd hhead (by decide)
  | @given b w b' conditions hb hw hb' =>
    have hconditions := ho conditions rfl
    have hstart : StartsWith "WHERE" (w ++ b' ++ conditions.toList) conditions.toList :=
      ⟨w, b', rfl, hw, hb'.1, hb'.2⟩
    have htrimmed : Trimmed conditions.toList conditions.toList :=
      ⟨[], [], by simp [Blanks], by simp [Blanks], by simp, hconditions.ends⟩
    have hgiven : Conditions (b ++ w ++ b' ++ conditions.toList)
        (some (String.ofList conditions.toList)) :=
      .given (by simp) hb.2 hstart htrimmed hconditions.ne_nil
    rwa [String.ofList_toList] at hgiven

/-! ### Clauses -/

section ClauseWritten
variable {c : Clause} {text : List Char} (h : ClauseWritten c text) (hc : c.Writable)
include h hc

/-- **A clause is read back** from the text that writes it. -/
theorem ClauseWritten.parse?_eq : Clause.parse? text = some c := by
  obtain @⟨w, b, run, tail, hw, hb, hrun, htail⟩ := h
  have hopens : OpensWith c.effect (w ++ b ++ run ++ tail) (run ++ tail) := by
    obtain ⟨x, hx, hblank⟩ := hrun.head
    refine ⟨⟨w, b, by simp, hw, hb.1, hb.2⟩, x, ?_, hblank⟩
    rw [List.head?_append, hx]
    rfl
  have hactions : (c.actions.map String.toList).map String.ofList = c.actions := by
    simp [Function.comp_def]
  rw [parse?_eq_some hopens (hrun.takeItems?_eq htail.endsRun), hactions,
    htail.takeConditions?_eq hc.conditions]

theorem ClauseWritten.noBlankEnds : NoBlankEnds text := by
  obtain @⟨w, b, run, tail, hw, hb, hrun, htail⟩ := h
  constructor
  · intro x hx
    obtain ⟨y, w', rfl, hy⟩ := hw.head (by cases c.effect <;> decide)
    obtain rfl : y = x := by simpa using hx
    cases heffect : c.effect with
    | allow =>
      rw [heffect] at hy
      exact not_isBlank_of_toLower (Option.some.inj hy).symm (by decide)
    | deny =>
      rw [heffect] at hy
      exact not_isBlank_of_toLower (Option.some.inj hy).symm (by decide)
  · intro x hx
    obtain ⟨y, hy, hblank⟩ := hrun.last
    rw [List.getLast?_append] at hx
    cases htail' : tail.getLast? with
    | none =>
      rw [htail', List.getLast?_append, hy] at hx
      cases hx
      exact hblank
    | some z =>
      rw [htail'] at hx
      cases hx
      exact htail.last hc.conditions _ htail'

theorem ClauseWritten.not_mem : ';' ∉ text := by
  obtain @⟨w, b, run, tail, hw, hb, hrun, htail⟩ := h
  have hblanks : ∀ {b : List Char}, Gap b → ';' ∉ b := fun hb hm =>
    absurd (hb.2 _ hm) (by decide)
  have hkeyword : ';' ∉ w := hw.not_mem (by cases c.effect <;> decide)
  have hitems : ';' ∉ run := by
    refine hrun.not_mem (by decide) (by decide) fun item hm => ?_
    obtain ⟨action, haction, rfl⟩ := List.mem_map.mp hm
    exact (hc.actions action haction).2
  have hconditions : ';' ∉ tail := by
    generalize ho : c.conditions = o at htail
    cases htail with
    | absent => exact List.not_mem_nil
    | given conditions hb hw hb' =>
      have hs := (hc.conditions conditions (by rw [ho]; rfl)).noSeparator
      simp [hblanks hb, hblanks hb', hw.not_mem (by decide), hs]
  simp [hkeyword, hblanks hb, hitems, hconditions]

end ClauseWritten

/-! ### Statements -/

section PiecesWritten
variable {cs : List Clause} {pieces : List (List Char)} (h : PiecesWritten cs pieces)
  (hcs : ∀ c ∈ cs, c.Writable)
include h hcs

theorem PiecesWritten.not_mem : ∀ piece ∈ pieces, ';' ∉ piece := by
  have hblanks : ∀ {b : List Char}, Blanks b → ';' ∉ b := fun hb hm => absurd (hb _ hm) (by decide)
  induction h with
  | nil => exact fun _ hm => absurd hm List.not_mem_nil
  | blank hb _ ih => exact List.forall_mem_cons.mpr ⟨hblanks hb, ih hcs⟩
  | clause hb htext hb' _ ih =>
    obtain ⟨hc, hcs⟩ := List.forall_mem_cons.mp hcs
    refine List.forall_mem_cons.mpr ⟨?_, ih hcs⟩
    simp [hblanks hb, htext.not_mem hc, hblanks hb']

theorem PiecesWritten.filterMap_eq :
    pieces.filterMap (fun piece => Clause.parse? (trim piece)) = cs := by
  induction h with
  | nil => rfl
  | blank hb _ ih => rw [List.filterMap_cons, trim_eq_nil hb, parse?_nil, ih hcs]
  | clause hb htext hb' _ ih =>
    obtain ⟨hc, hcs⟩ := List.forall_mem_cons.mp hcs
    have htrim := trim_eq_self (htext.noBlankEnds hc)
    rw [List.filterMap_cons, trim_append_blanks hb', trim_blanks_append hb, htrim,
      htext.parse?_eq hc, ih hcs]

end PiecesWritten

/-- **The clauses are read back** from every layout of them. -/
theorem parseClauses_of_layout {cs : List Clause} {statement : String}
    (hcs : ∀ c ∈ cs, c.Writable) (h : Layout cs statement) : parseClauses statement = cs := by
  obtain ⟨pieces, hpieces, hstatement⟩ := h
  rw [parseClauses, hstatement]
  rcases eq_or_ne pieces [] with rfl | hne
  · cases hpieces
    decide
  · rw [splitOn_intercalate hne (hpieces.not_mem hcs)]
    exact hpieces.filterMap_eq hcs

/-! ### Every writable clause has a layout -/

theorem exists_itemRun : ∀ {items : List (List Char)}, items ≠ [] → (∀ item ∈ items, IsItem item) →
    ∃ run, ItemRun run items
  | [item], _, h => ⟨item, .one (h item List.mem_cons_self)⟩
  | item :: next :: items, _, h => by
    obtain ⟨hitem, hitems⟩ := List.forall_mem_cons.mp h
    obtain ⟨run, hrun⟩ := exists_itemRun (List.cons_ne_nil next items) hitems
    have hblanks : Blanks [] := by simp [Blanks]
    exact ⟨_, .more hitem hblanks hblanks hrun⟩

theorem exists_clauseWritten {c : Clause} (hc : c.Writable) : ∃ text, ClauseWritten c text := by
  have hitems : ∀ item ∈ c.actions.map String.toList, IsItem item := by
    intro item hm
    obtain ⟨action, haction, rfl⟩ := List.mem_map.mp hm
    exact (hc.actions action haction).1
  obtain ⟨run, hrun⟩ := exists_itemRun (by simpa using hc.actions_ne_nil) hitems
  have htail : ∃ tail, ConditionsWritten c.conditions tail := by
    cases c.conditions with
    | none => exact ⟨_, .absent⟩
    | some conditions => exact ⟨_, .given conditions gap_space (w := "WHERE".toList) rfl gap_space⟩
  obtain ⟨tail, htail⟩ := htail
  exact ⟨_, .mk (w := c.effect.keyword.toList) rfl gap_space hrun htail⟩

theorem exists_layout : ∀ {cs : List Clause}, (∀ c ∈ cs, c.Writable) →
    ∃ pieces, PiecesWritten cs pieces
  | [], _ => ⟨[], .nil⟩
  | c :: cs, h => by
    obtain ⟨hc, hcs⟩ := List.forall_mem_cons.mp h
    obtain ⟨text, htext⟩ := exists_clauseWritten hc
    obtain ⟨pieces, hpieces⟩ := exists_layout hcs
    have hblanks : Blanks [] := by simp [Blanks]
    exact ⟨_, .clause hblanks htext hblanks hpieces⟩

/-- **Parsing undoes writing.** Clauses that can be written have a layout, and whichever it is, what
is parsed is one declaration for each action, in order, with the effect and the conditions of its
clause and the standard description. -/
theorem parse_undoes_layout (cs : List Clause) (hcs : ∀ c ∈ cs, c.Writable) :
    (∃ statement, Layout cs statement) ∧
      ∀ statement, Layout cs statement → parseStatement statement =
        cs.flatMap fun c => c.actions.map fun action =>
          ⟨c.effect, action, c.conditions, (describeAction? action).getD action⟩ := by
  constructor
  · obtain ⟨pieces, hpieces⟩ := exists_layout hcs
    exact ⟨String.ofList ([';'].intercalate pieces), pieces, hpieces, String.toList_ofList⟩
  · intro statement h
    rw [parseStatement, parseClauses_of_layout hcs h]
    rfl

/-- Actions and conditions that spell keywords, line breaks and a clause of other letters. -/
theorem parse_undoes_layout_of_keywords :
    let cs : List Clause :=
      [⟨.allow, ["WHERE", "allow"], some "x, WHERE y"⟩, ⟨.deny, ["größe"], none⟩]
    let statement := " \n;aLLow\tWHERE ,\n allow wHere\nx, WHERE y ;; DENY\u00a0größe;"
    (∀ c ∈ cs, c.Writable) ∧ Layout cs statement ∧ parseStatement statement =
      [⟨.allow, "WHERE", some "x, WHERE y", "WHERE"⟩, ⟨.allow, "allow", some "x, WHERE y", "allow"⟩,
        ⟨.deny, "größe", none, "größe"⟩] := by
  intro cs statement
  have haction : ∀ action ∈ ["WHERE", "allow", "größe"], IsAction action := by
    simp [IsAction, IsItem, isBlank]
  have hwritable : ∀ c ∈ cs, c.Writable := by
    refine List.forall_mem_cons.mpr ⟨⟨by simp, by simp_all, ?_⟩,
      List.forall_mem_singleton.mpr ⟨by simp, by simp_all, by simp⟩⟩
    rintro _ ⟨⟩
    exact ⟨by decide, ⟨by simp [isBlank], by simp [isBlank]⟩, by decide⟩
  have hlayout : Layout cs statement := by
    have hnone : Blanks [] := by simp [Blanks]
    have hone : ∀ c ∈ [' ', '\t', '\n', '\u00a0'], Gap [c] := by simp [Gap, Blanks, isBlank]
    have htwo : Blanks ['\n', ' '] ∧ Blanks [' ', '\n'] := by simp [Blanks, isBlank]
    have hspace : Gap [' '] := hone ' ' (by simp)
    have hitem : ∀ action ∈ ["WHERE", "allow", "größe"], IsItem action.toList :=
      fun action h => (haction action h).1
    have hrun : ItemRun ("WHERE".toList ++ [' '] ++ ',' :: (['\n', ' '] ++ "allow".toList))
        ["WHERE".toList, "allow".toList] :=
      .more (hitem _ (by simp)) hspace.2 htwo.1 (.one (hitem _ (by simp)))
    have htail : ConditionsWritten (some "x, WHERE y")
        ([' '] ++ "wHere".toList ++ ['\n'] ++ "x, WHERE y".toList) :=
      .given _ hspace (by decide) (hone _ (by simp))
    have hallow := ClauseWritten.mk (c := ⟨.allow, ["WHERE", "allow"], some "x, WHERE y"⟩)
      (w := "aLLow".toList) (by decide) (hone '\t' (by simp)) hrun htail
    have hdeny := ClauseWritten.mk (c := ⟨.deny, ["größe"], none⟩) (w := "DENY".toList) (by decide)
      (hone '\u00a0' (by simp)) (.one (hitem _ (by simp))) .absent
    exact ⟨_, .blank htwo.2 (.clause hnone hallow hspace.2 (.blank hnone
      (.clause hspace.2 hdeny hnone (.blank hnone .nil)))), by decide⟩
  exact ⟨hwritable, hlayout, (parse_undoes_layout cs hwritable).2 statement hlayout⟩

end Entitlements
