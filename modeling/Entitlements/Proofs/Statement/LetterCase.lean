import Entitlements.Proofs.Statement.Grammar

/-! # Statements in lower case

A statement in lower case declares the same as before, with actions and conditions in lower case
(`parseStatement_toLower`). Each scanner commutes with lower case: it looks at blanks and signs, and
at letters only to find a keyword, in any letter case. -/

namespace Entitlements

/-! ### Items -/

theorem isItemChar_toLower (c : Char) : isItemChar c.toLower = isItemChar c := by
  have hcomma : c.toLower = ',' ↔ c = ',' := toLower_eq_iff (by decide)
  have hne : (c.toLower != ',') = (c != ',') := by
    by_cases hc : c = ','
    · rw [hcomma.mpr hc, hc]
    · rw [bne_iff_ne.mpr hc, bne_iff_ne.mpr (mt hcomma.mp hc)]
  rw [isItemChar, isBlank_toLower, hne, ← isItemChar]

theorem takeItem_map_toLower (cs : List Char) : takeItem (cs.map Char.toLower) =
    (takeItem cs).map (List.map Char.toLower) (List.map Char.toLower) := by
  have h : isItemChar ∘ Char.toLower = isItemChar := funext isItemChar_toLower
  rw [takeItem, List.takeWhile_map, List.dropWhile_map, h]
  rfl

theorem nextItem?_map_toLower (cs : List Char) : nextItem? (cs.map Char.toLower) =
    (nextItem? cs).map (Prod.map (List.map Char.toLower) (List.map Char.toLower)) := by
  unfold nextItem?
  rw [dropBlanks_map_toLower]
  rcases dropBlanks cs with _ | ⟨c, rest⟩
  · rfl
  · have hcomma : c.toLower = ',' ↔ c = ',' := toLower_eq_iff (by decide)
    by_cases hc : c = ','
    · subst hc
      rw [List.map_cons, hcomma.mpr rfl]
      simp only [dropBlanks_map_toLower, takeItem_map_toLower]
      rcases takeItem (dropBlanks rest) with ⟨_ | _, _⟩ <;> rfl
    · have hc' := mt hcomma.mp hc
      simp [hc, hc']

theorem moreItems_map_toLower (cs : List Char) : moreItems (cs.map Char.toLower) =
    (moreItems cs).map (List.map (List.map Char.toLower)) (List.map Char.toLower) := by
  have hnext := nextItem?_map_toLower cs
  rcases h : nextItem? cs with _ | ⟨item, rest⟩
  · rw [h] at hnext
    rw [moreItems_eq_none h, moreItems_eq_none hnext]
    rfl
  · have := length_of_nextItem? h
    rw [h] at hnext
    rw [moreItems_eq_some h, moreItems_eq_some hnext, moreItems_map_toLower rest]
    rfl
termination_by cs.length

theorem takeItems?_map_toLower (cs : List Char) : takeItems? (cs.map Char.toLower) =
    (takeItems? cs).map (Prod.map (List.map (List.map Char.toLower)) (List.map Char.toLower)) := by
  unfold takeItems?
  rw [takeItem_map_toLower]
  rcases takeItem cs with ⟨_ | ⟨c, item⟩, rest⟩
  · rfl
  · simp only [Prod.map, List.map_cons, moreItems_map_toLower, Option.map_some]

/-! ### Keywords -/

theorem stripWord?_map_toLower (word cs : List Char) : stripWord? word (cs.map Char.toLower) =
    (stripWord? word cs).map (List.map Char.toLower) := by
  induction word generalizing cs with
  | nil => rfl
  | cons w word ih =>
    cases cs with
    | nil => rfl
    | cons c cs =>
      rw [List.map_cons, stripWord?, stripWord?, toLower_toLower, ih]
      split <;> rfl

theorem afterWord?_map_toLower (word cs : List Char) : afterWord? word (cs.map Char.toLower) =
    (afterWord? word cs).map (List.map Char.toLower) := by
  unfold afterWord?
  rw [stripWord?_map_toLower]
  rcases stripWord? word cs with _ | _ | ⟨c, rest⟩
  · rfl
  · rfl
  · simp only [Option.map_some, List.map_cons, isBlank_toLower, dropBlanks_map_toLower]
    split <;> rfl

theorem takeEffect?_map_toLower (cs : List Char) : takeEffect? (cs.map Char.toLower) =
    (takeEffect? cs).map (Prod.map id (List.map Char.toLower)) := by
  unfold takeEffect?
  rw [afterWord?_map_toLower, afterWord?_map_toLower]
  rcases afterWord? Effect.allow.keyword.toList cs with _ | _
  · rcases afterWord? Effect.deny.keyword.toList cs with _ | _ <;> rfl
  · rfl

theorem takeConditions?_map_toLower (cs : List Char) : takeConditions? (cs.map Char.toLower) =
    (takeConditions? cs).map (List.map Char.toLower) := by
  unfold takeConditions?
  rw [afterWord?_map_toLower]
  rcases afterWord? "WHERE".toList cs with _ | _ | ⟨c, conditions⟩
  · rfl
  · rfl
  · simp only [Option.map_some, List.map_cons, ← dropBlanksEnd_map_toLower]

/-! ### Clauses and statements -/

/-- The clause with its actions and conditions in lower case. -/
def Clause.toLower (c : Clause) : Clause :=
  ⟨c.effect, c.actions.map String.toLower, c.conditions.map String.toLower⟩

/-- The declaration of the action in lower case, under the conditions in lower case. -/
def PermissionStatement.toLower (p : PermissionStatement) : PermissionStatement :=
  .declare p.effect p.action.toLower (p.conditions.map String.toLower)

theorem parse?_map_toLower (cs : List Char) :
    Clause.parse? (cs.map Char.toLower) = (Clause.parse? cs).map Clause.toLower := by
  unfold Clause.parse?
  rw [takeEffect?_map_toLower]
  rcases takeEffect? cs with _ | ⟨effect, rest⟩
  · rfl
  · simp only [Option.map_some, Prod.map, Option.bind_eq_bind, Option.bind_some,
      takeItems?_map_toLower]
    rcases takeItems? rest with _ | ⟨items, rest⟩
    · rfl
    · simp [Clause.toLower, dropBlanks_map_toLower, takeConditions?_map_toLower,
        ofList_map_toLower, Function.comp_def]

theorem parseClauses_toLower (statement : String) :
    parseClauses statement.toLower = (parseClauses statement).map Clause.toLower := by
  have hsep : ∀ c : Char, c.toLower = ';' ↔ c = ';' := fun c => toLower_eq_iff (by decide)
  unfold parseClauses
  rw [toList_toLower, splitOn_map hsep, List.filterMap_map, List.map_filterMap]
  simp only [Function.comp_def, trim_map_toLower, parse?_map_toLower]

theorem declarations_toLower (c : Clause) :
    c.toLower.declarations = c.declarations.map PermissionStatement.toLower := by
  simp only [Clause.declarations, Clause.toLower, List.map_map]
  rfl

/-- **A statement in lower case** declares the same in lower case. -/
theorem parseStatement_toLower (statement : String) : parseStatement statement.toLower =
    (parseStatement statement).map PermissionStatement.toLower := by
  rw [parseStatement, parseClauses_toLower, List.flatMap_map, parseStatement, List.map_flatMap]
  simp only [declarations_toLower]

end Entitlements
