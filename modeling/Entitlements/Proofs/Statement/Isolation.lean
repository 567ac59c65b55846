import Entitlements.Proofs.Statement.Parsing

/-! # Clauses on their own

A `;` cuts a statement wherever it stands, so that each clause is read without the others. A
statement is its clauses with a `;` between any two (`exists_clauses`), and what it declares is what
they declare on their own, one after the other (`parseStatement_intercalate`). Text with nothing in
it that the pattern of a clause matches (`Matchless`) declares nothing, and no other text does
(`parseStatement_eq_nil_iff`); so it is the text that can be put between clauses without a change
(`clauses_isolated`). -/

namespace Entitlements

/-! ### Putting statements together -/

/-- **Statements with a `;` between any two** declare what each of them declares. -/
theorem parseStatement_intercalate (clauses : List String) :
    parseStatement (";".intercalate clauses) = clauses.flatMap parseStatement := by
  induction clauses with
  | nil =>
    rw [String.intercalate_nil]
    decide
  | cons clause rest ih =>
    cases rest with
    | nil => rw [String.intercalate_singleton, List.flatMap_singleton]
    | cons next rest =>
      rw [List.flatMap_cons, String.intercalate_cons_cons, parseStatement_append, ih]

theorem length_parseClauses_le_one {text : String} (h : ';' ∉ text.toList) :
    (parseClauses text).length ≤ 1 := by
  rw [parseClauses, splitOn_of_not_mem h]
  exact List.length_filterMap_le _ _

/-- Every statement is its clauses with a `;` between any two. -/
theorem exists_clauses (statement : String) : ∃ clauses, statement = ";".intercalate clauses ∧
    ∀ clause ∈ clauses, ';' ∉ clause.toList ∧ (parseClauses clause).length ≤ 1 := by
  obtain ⟨pieces, hcut⟩ := exists_cut ';' statement.toList
  refine ⟨pieces.map String.ofList, ?_, fun clause hclause => ?_⟩
  · have hjoin := hcut.intercalate_eq
    apply String.toList_injective
    rw [String.toList_intercalate, List.map_map, ← hjoin]
    simp [Function.comp_def]
  · obtain ⟨piece, hpiece, rfl⟩ := List.mem_map.mp hclause
    have hsep : ';' ∉ (String.ofList piece).toList := by
      rw [String.toList_ofList]
      exact hcut.not_mem piece hpiece
    exact ⟨hsep, length_parseClauses_le_one hsep⟩

/-! ### Text that declares nothing -/

/-- A text with no piece that the pattern of a clause matches. -/
def Matchless (text : String) : Prop :=
  ∀ piece ∈ splitOn ';' text.toList, clausePattern.first? (trim piece) = none

/-- **A match declares something**, for it has an item. -/
theorem declarations_eq_nil_iff {cs : List Char} (hcs : NoBlankEnds cs) :
    (Clause.parse? cs).toList.flatMap Clause.declarations = [] ↔
      clausePattern.first? cs = none := by
  rcases h : clausePattern.first? cs with _ | m
  · simp [parse?_eq_none_of_first? hcs h]
  · obtain ⟨c, hparse, -, hactions, -, hitems, -⟩ := read_clausePattern hcs h
    have hne : c.actions ≠ [] := by
      rw [← hactions]
      simpa using hitems
    simpa [hparse, Clause.declarations] using hne

theorem parseStatement_eq_nil_iff {text : String} : parseStatement text = [] ↔ Matchless text := by
  rw [parseStatement_eq, List.flatMap_eq_nil_iff]
  exact forall₂_congr fun piece _ => declarations_eq_nil_iff (noBlankEnds_trim piece)

/-- **Clauses do not touch each other.** What stands on both sides of a `;` declares what each side
declares. Text in which nothing is matched, and no other text, can be put as clauses of its own
between, before and behind any others without a change. A statement is made of clauses, each of
which it reads as if there were no other one. -/
theorem clauses_isolated :
    (∀ a b, parseStatement (a ++ ";" ++ b) = parseStatement a ++ parseStatement b) ∧
    (∀ text, Matchless text ↔
      (∀ a b, parseStatement (a ++ ";" ++ text ++ ";" ++ b) = parseStatement (a ++ ";" ++ b)) ∧
      (∀ a, parseStatement (text ++ ";" ++ a) = parseStatement a) ∧
      ∀ a, parseStatement (a ++ ";" ++ text) = parseStatement a) ∧
    (∀ clauses, parseStatement (";".intercalate clauses) = clauses.flatMap parseStatement) ∧
    ∀ statement, ∃ clauses, statement = ";".intercalate clauses ∧
      ∀ clause ∈ clauses, ';' ∉ clause.toList ∧ (parseClauses clause).length ≤ 1 := by
  refine ⟨parseStatement_append, fun text => ?_, parseStatement_intercalate, exists_clauses⟩
  rw [← parseStatement_eq_nil_iff]
  constructor
  · intro h
    refine ⟨fun a b => ?_, fun a => ?_, fun a => ?_⟩
    · rw [parseStatement_append, parseStatement_append, parseStatement_append, h, List.append_nil]
    · rw [parseStatement_append, h, List.nil_append]
    · rw [parseStatement_append, h, List.append_nil]
  · rintro ⟨-, -, h⟩
    exact List.append_right_eq_self.mp ((parseStatement_append "" text).symm.trans (h ""))

/-- A keyword that is cut by the `;`, an effect without items, and quotes that are left open. -/
example : parseStatement "ALLOW a WHERE x = \";AL;LOW b;DENY ,c; \";DENY d" =
    parseStatement "ALLOW a WHERE x = \";DENY d" := by decide +kernel

end Entitlements
