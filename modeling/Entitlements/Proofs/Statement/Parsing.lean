import Entitlements.Proofs.Statement.Pattern
import Mathlib.Data.List.Forall2

/-! # Parsing: what a statement declares

A statement declares what its pieces between the `;` declare, one after the other
(`StatementDeclares`): a piece that no effect opens declares nothing, any other one all items of its
longest run, with one effect and the same conditions (`Declares`). This is what parsing gives, and
what the pattern of a clause gives on every piece (`parseStatement_exact`). -/

namespace Entitlements

/-- What a text without blanks around it declares: nothing when no effect opens it, else every item
of the longest run, with the same effect and the same conditions. -/
inductive Declares (cs : List Char) : List PermissionStatement → Prop
  | nothing (h : ∀ e rest, ¬ OpensWith e cs rest) : Declares cs []
  | clause {e : Effect} {rest tail : List Char} {items : List (List Char)}
      {conditions : Option String} (h : OpensWith e cs rest) (hrun : LongestRun rest items tail)
      (hcond : Conditions tail conditions) :
      Declares cs (items.map fun item => .declare e (String.ofList item) conditions)

/-- What a piece of a statement declares, the blanks around it taken off. -/
def PieceDeclares (piece : List Char) (ps : List PermissionStatement) : Prop :=
  ∃ cs, Trimmed piece cs ∧ Declares cs ps

/-- What a statement declares: what its pieces between the `;` declare, in order. -/
def StatementDeclares (statement : String) (ps : List PermissionStatement) : Prop :=
  ∃ pieces declared, Cut ';' statement.toList pieces ∧
    List.Forall₂ PieceDeclares pieces declared ∧ declared.flatten = ps

/-! ### Pieces -/

theorem opensWith_iff_takeItems? {e : Effect} {cs rest : List Char} :
    OpensWith e cs rest ↔ takeEffect? cs = some (e, rest) ∧ (takeItems? rest).isSome = true := by
  rw [opensWith_iff, takeItems?_isSome_iff]

theorem parse?_eq_some {e : Effect} {cs rest tail : List Char} {items : List (List Char)}
    (h : OpensWith e cs rest) (htake : takeItems? rest = some (items, tail)) :
    Clause.parse? cs = some ⟨e, items.map String.ofList,
      (takeConditions? (dropBlanks tail)).map String.ofList⟩ := by
  simp [Clause.parse?, (opensWith_iff.mp h).1, htake]

theorem parse?_eq_none {cs : List Char} (h : ∀ e rest, ¬ OpensWith e cs rest) :
    Clause.parse? cs = none := by
  unfold Clause.parse?
  rcases heffect : takeEffect? cs with _ | ⟨e, rest⟩
  · rfl
  · rcases htake : takeItems? rest with _ | taken
    · simp [htake]
    · exact absurd (opensWith_iff_takeItems?.mpr ⟨heffect, by rw [htake]; rfl⟩) (h e rest)

/-- A text is opened by an effect, and items follow, or it is not. -/
theorem opensWith_or (cs : List Char) :
    (∃ e rest items tail, OpensWith e cs rest ∧ takeItems? rest = some (items, tail)) ∨
      ∀ e rest, ¬ OpensWith e cs rest := by
  by_cases h : ∃ e rest, OpensWith e cs rest
  · obtain ⟨e, rest, h⟩ := h
    obtain ⟨⟨items, tail⟩, htake⟩ :=
      Option.isSome_iff_exists.mp (opensWith_iff_takeItems?.mp h).2
    exact .inl ⟨e, rest, items, tail, h, htake⟩
  · exact .inr fun e rest h' => h ⟨e, rest, h'⟩

/-- What follows the items ends like the text. -/
theorem OpensWith.last_tail {e : Effect} {cs rest tail : List Char} {items : List (List Char)}
    (h : OpensWith e cs rest) (htake : takeItems? rest = some (items, tail))
    (hcs : NoBlankEnds cs) :
    ∀ c, tail.getLast? = some c → isBlank c = false := by
  obtain ⟨⟨w, b, rfl, -⟩, -⟩ := h
  obtain ⟨text, rfl, -⟩ := exists_run_of_takeItems? htake
  exact last_of_append (last_of_append hcs.last)

theorem declares_iff {cs : List Char} {ps : List PermissionStatement} (hcs : NoBlankEnds cs) :
    Declares cs ps ↔ (Clause.parse? cs).toList.flatMap Clause.declarations = ps := by
  rcases opensWith_or cs with ⟨e, rest, items, tail, h, htake⟩ | hnone
  · rw [parse?_eq_some h htake]
    have hlast := h.last_tail htake hcs
    constructor
    · rintro (hnone | @⟨e', rest', tail', items', conditions, h', hrun, hcond⟩)
      · exact absurd h (hnone e rest)
      · obtain ⟨rfl, rfl⟩ := Prod.mk.inj (Option.some.inj
          ((opensWith_iff.mp h).1.symm.trans (opensWith_iff.mp h').1))
        obtain ⟨rfl, rfl⟩ := Prod.mk.inj (Option.some.inj
          (htake.symm.trans (longestRun_iff.mp hrun)))
        simp [Clause.declarations, (conditions_iff hlast).mp hcond, Function.comp_def]
    · rintro rfl
      have := Declares.clause h (longestRun_iff.mpr htake) ((conditions_iff hlast).mpr rfl)
      simpa [Clause.declarations, Function.comp_def] using this
  · rw [parse?_eq_none hnone]
    constructor
    · rintro (- | ⟨h, -, -⟩)
      · rfl
      · exact absurd h (hnone _ _)
    · rintro rfl
      exact .nothing hnone

theorem pieceDeclares_iff {piece : List Char} {ps : List PermissionStatement} :
    PieceDeclares piece ps ↔
      (Clause.parse? (trim piece)).toList.flatMap Clause.declarations = ps := by
  constructor
  · rintro ⟨cs, ht, h⟩
    rw [← ht.trim_eq] at h
    exact (declares_iff (noBlankEnds_trim piece)).mp h
  · intro h
    exact ⟨trim piece, trimmed_trim piece, (declares_iff (noBlankEnds_trim piece)).mpr h⟩

theorem parseStatement_eq (statement : String) : parseStatement statement =
    (splitOn ';' statement.toList).flatMap fun piece =>
      (Clause.parse? (trim piece)).toList.flatMap Clause.declarations := by
  rw [parseStatement, parseClauses]
  induction splitOn ';' statement.toList with
  | nil => rfl
  | cons piece pieces ih =>
    rw [List.filterMap_cons, List.flatMap_cons, ← ih]
    rcases Clause.parse? (trim piece) with _ | c <;> simp

/-- What stands behind a `;` leaves what is parsed in front of it as it is. -/
theorem parseStatement_append (a b : String) :
    parseStatement (a ++ ";" ++ b) = parseStatement a ++ parseStatement b := by
  have hcut : splitOn ';' (a ++ ";" ++ b).toList =
      splitOn ';' a.toList ++ splitOn ';' b.toList := by
    have := splitOn_append_sep ';' a.toList b.toList
    simpa using this
  simp only [parseStatement_eq, hcut, List.flatMap_append]

theorem statementDeclares_iff {statement : String} {ps : List PermissionStatement} :
    StatementDeclares statement ps ↔ parseStatement statement = ps := by
  rw [parseStatement_eq, List.flatMap_def]
  constructor
  · rintro ⟨pieces, declared, hcut, hdeclared, rfl⟩
    rw [cut_iff.mp hcut]
    congr 1
    refine List.forall₂_eq_eq_eq ▸ List.forall₂_map_left_iff.mpr (hdeclared.imp fun _ _ h => ?_)
    exact pieceDeclares_iff.mp h
  · rintro rfl
    refine ⟨_, _, cut_iff.mpr rfl, ?_, rfl⟩
    exact List.forall₂_map_right_iff.mpr
      (List.forall₂_same.mpr fun _ _ => pieceDeclares_iff.mpr rfl)

/-! ### Reading the captures -/

namespace Match

/-- The effect with the captured keyword. -/
def effect? (m : Match) : Option Effect :=
  (m.capture? 1).bind fun w => Effect.ofKeyword? (String.ofList w)

/-- The pieces of the captured items between the commas, without the blanks around them. -/
def items (m : Match) : List (List Char) := (splitOn ',' ((m.capture? 2).getD [])).map trim

/-- The captured conditions without the blanks around them. -/
def conditions? (m : Match) : Option String :=
  (m.capture? 3).map fun conditions => String.ofList (trim conditions)

/-- What the captures declare. A keyword that is none drops everything, an empty item itself. -/
def declarations (m : Match) : List PermissionStatement :=
  match m.effect? with
  | none => []
  | some e =>
    (m.items.filter (· ≠ [])).map fun item => .declare e (String.ofList item) m.conditions?

end Match

/-- What the pattern of a clause finds in the pieces of a statement that are not empty. -/
def patternDeclarations (statement : String) : List PermissionStatement :=
  (((splitOn ';' statement.toList).map trim).filter (· ≠ [])).flatMap fun piece =>
    (clausePattern.first? piece).toList.flatMap Match.declarations

theorem ofKeyword?_eq_some {w : List Char} {e : Effect}
    (h : w.map Char.toLower = e.keyword.toList.map Char.toLower) :
    Effect.ofKeyword? (String.ofList w) = some e := by
  rw [Effect.ofKeyword?, sameLetters, sameLetters, String.toList_ofList, h]
  cases e <;> decide

theorem takeConditions?_eq {cs : List Char}
    (hlast : ∀ c, cs.getLast? = some c → isBlank c = false) :
    takeConditions? cs = (afterWord? "WHERE".toList cs).map trim := by
  unfold takeConditions?
  split
  · next h => exact absurd rfl ((startsWith_of_afterWord? h).ne_nil hlast)
  · next t _ h =>
    have hdrop : dropBlanks t = t :=
      Option.some.inj ((startsWith_of_afterWord? h).afterWord?_eq.symm.trans h)
    rw [h, Option.map_some, trim, hdrop]
  · next h => rw [h]; rfl

/-- What the pattern finds is the clause, and nothing of it is dropped. -/
theorem read_clausePattern {cs : List Char} {m : Match} (hcs : NoBlankEnds cs)
    (h : clausePattern.first? cs = some m) : ∃ c, Clause.parse? cs = some c ∧
      m.effect? = some c.effect ∧ m.items.map String.ofList = c.actions ∧
        m.conditions? = c.conditions ∧ m.items ≠ [] ∧ ∀ item ∈ m.items, item ≠ [] := by
  rcases opensWith_or cs with ⟨e, rest, items, tail, hopens, htake⟩ | hnone
  · have hlast := hopens.last_tail htake hcs
    obtain ⟨text, htext, hrun⟩ := exists_run_of_takeItems? htake
    obtain ⟨m', w, hfirst, hw, h1, h2, h3⟩ := first?_clausePattern hopens.1 htake htext hlast
    obtain rfl := Option.some.inj (h.symm.trans hfirst)
    have hitems : m.items = items := by
      rw [Match.items, h2]
      exact hrun.splitOn_eq
    refine ⟨_, parse?_eq_some hopens htake, ?_, ?_, ?_, ?_, ?_⟩
    · rw [Match.effect?, h1]
      exact ofKeyword?_eq_some hw
    · rw [hitems]
    · obtain ⟨b, -, htail⟩ := exists_blanks_append tail
      rw [Match.conditions?, h3, takeConditions?_eq (last_of_append (htail ▸ hlast)),
        Option.map_map]
      rfl
    · rw [hitems]
      exact hrun.isItem.1
    · rw [hitems]
      exact fun item hm => (hrun.isItem.2 item hm).1
  · rw [first?_clausePattern_eq_none hnone] at h
    cases h

theorem parse?_eq_none_of_first? {cs : List Char} (hcs : NoBlankEnds cs)
    (h : clausePattern.first? cs = none) : Clause.parse? cs = none := by
  rcases opensWith_or cs with ⟨e, rest, items, tail, hopens, htake⟩ | hnone
  · obtain ⟨text, htext, -⟩ := exists_run_of_takeItems? htake
    obtain ⟨m, w, hfirst, -⟩ :=
      first?_clausePattern hopens.1 htake htext (hopens.last_tail htake hcs)
    rw [hfirst] at h
    cases h
  · exact parse?_eq_none hnone

theorem declarations_clausePattern {cs : List Char} (hcs : NoBlankEnds cs) :
    (clausePattern.first? cs).toList.flatMap Match.declarations =
      (Clause.parse? cs).toList.flatMap Clause.declarations := by
  rcases h : clausePattern.first? cs with _ | m
  · rw [parse?_eq_none_of_first? hcs h]
    rfl
  · obtain ⟨c, hparse, heffect, hactions, hconditions, -, hitems⟩ := read_clausePattern hcs h
    have hfilter : m.items.filter (· ≠ []) = m.items :=
      List.filter_eq_self.mpr fun item hm => decide_eq_true (hitems item hm)
    rw [hparse, Option.toList_some, Option.toList_some, List.flatMap_singleton,
      List.flatMap_singleton, Match.declarations, heffect]
    show (m.items.filter (· ≠ [])).map _ = _
    rw [hfilter, hconditions, Clause.declarations, ← hactions, List.map_map]
    rfl

theorem parse?_nil : Clause.parse? [] = none := by decide

theorem patternDeclarations_eq (statement : String) :
    patternDeclarations statement = parseStatement statement := by
  rw [parseStatement_eq, patternDeclarations]
  induction splitOn ';' statement.toList with
  | nil => rfl
  | cons piece pieces ih =>
    rw [List.map_cons, List.flatMap_cons, ← ih, List.filter_cons]
    split
    · rw [List.flatMap_cons, declarations_clausePattern (noBlankEnds_trim piece)]
    · next hnil =>
      have hnil : trim piece = [] := by simpa using hnil
      rw [hnil, parse?_nil]
      rfl

/-- **A statement declares exactly what the grammar says.** What is parsed is what the pieces
declare, in order; it is also what the pattern of a clause finds in them, where a match is never
dropped: its keyword is that of an effect, it has an item, and no item is empty. -/
theorem parseStatement_exact (statement : String) :
    (∀ ps, parseStatement statement = ps ↔ StatementDeclares statement ps) ∧
      parseStatement statement = patternDeclarations statement ∧
      ∀ piece ∈ splitOn ';' statement.toList, ∀ m, clausePattern.first? (trim piece) = some m →
        m.effect?.isSome = true ∧ m.items ≠ [] ∧ ∀ item ∈ m.items, item ≠ [] := by
  refine ⟨fun ps => statementDeclares_iff.symm, (patternDeclarations_eq statement).symm, ?_⟩
  intro piece _ m h
  obtain ⟨c, -, heffect, -, -, hne, hitems⟩ := read_clausePattern (noBlankEnds_trim piece) h
  exact ⟨by rw [heffect]; rfl, hne, hitems⟩

end Entitlements
