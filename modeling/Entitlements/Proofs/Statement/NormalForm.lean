import Entitlements.Proofs.Statement.Layout

/-! # The normal form of a statement

Whatever text a statement is, what is parsed from it can be written again: each declaration is one
with an action and conditions that can stand in a clause (`PermissionStatement.Normal`), and written
as clauses of their own, one after the other (`normalForm`), the declarations are read back
(`parse_normalForm`). The first part follows the scanners down a piece, which has no `;`; the second
one is that a normal form is a layout (`layout_normalForm`). -/

namespace Entitlements

namespace PermissionStatement

/-- A declaration that can be written as a clause and has the standard description. -/
structure Normal (p : PermissionStatement) : Prop where
  action : IsAction p.action
  conditions : ∀ conditions ∈ p.conditions, IsConditions conditions
  description : p.description = (describeAction? p.action).getD p.action

/-- The text of conditions, behind `WHERE`. -/
def writtenConditions : Option String → String
  | none => ""
  | some conditions => " WHERE " ++ conditions

/-- The text of a declaration: the effect, the action, and the conditions if there are any. -/
def written (p : PermissionStatement) : String :=
  p.effect.keyword ++ " " ++ p.action ++ writtenConditions p.conditions

/-- The clause with this one declaration. -/
def clause (p : PermissionStatement) : Clause := ⟨p.effect, [p.action], p.conditions⟩

end PermissionStatement

/-- The normal form of declarations: each one written as a clause, and `"; "` between any two. -/
def normalForm (ps : List PermissionStatement) : String :=
  "; ".intercalate (ps.map PermissionStatement.written)

/-! ### What is parsed can be written -/

theorem Conditions.isConditions {cs : List Char} {o : Option String} (h : Conditions cs o)
    (hsep : ';' ∉ cs) : ∀ conditions ∈ o, IsConditions conditions := by
  rintro conditions rfl
  obtain @⟨b, text, rest, t, rfl, -, ⟨w, b', rfl, -⟩, ht, hne⟩ := h
  have hnot : ';' ∉ t := fun hm => hsep (by simp [ht.subset hm])
  exact ⟨by simpa using hne, by simpa using ht.noBlankEnds, by simpa using hnot⟩

/-- **A clause that is read can be written.** -/
theorem Clause.writable_of_parse? {cs : List Char} {c : Clause} (hcs : NoBlankEnds cs)
    (hsep : ';' ∉ cs) (h : Clause.parse? cs = some c) : c.Writable := by
  rcases opensWith_or cs with ⟨e, rest, items, tail, hopens, htake⟩ | hnone
  · rw [parse?_eq_some hopens htake] at h
    obtain rfl := Option.some.inj h
    have hlast := hopens.last_tail htake hcs
    obtain ⟨⟨w, b, rfl, -⟩, -⟩ := hopens
    obtain ⟨run, rfl, hrun⟩ := exists_run_of_takeItems? htake
    have hsep : ';' ∉ run ∧ ';' ∉ tail := by
      constructor <;> exact fun hm => hsep (by simp [hm])
    obtain ⟨hne, hitems⟩ := hrun.isItem
    refine ⟨by simpa using hne, ?_, ((conditions_iff hlast).mpr rfl).isConditions hsep.2⟩
    intro action haction
    obtain ⟨item, hm, rfl⟩ := List.mem_map.mp haction
    have hnot : ';' ∉ item := fun hc => hsep.1 (hrun.subset item hm hc)
    exact ⟨by simpa using hitems item hm, by simpa using hnot⟩
  · rw [parse?_eq_none hnone] at h
    cases h

theorem Clause.writable_of_mem_parseClauses {statement : String} {c : Clause}
    (h : c ∈ parseClauses statement) : c.Writable := by
  obtain ⟨piece, hpiece, hparse⟩ := List.mem_filterMap.mp h
  have hsep : ';' ∉ piece := (cut_iff.mpr rfl).not_mem piece hpiece
  exact writable_of_parse? (noBlankEnds_trim piece)
    (fun hm => hsep ((trimmed_trim piece).subset hm)) hparse

theorem PermissionStatement.normal_of_mem_parseStatement {statement : String}
    {p : PermissionStatement} (h : p ∈ parseStatement statement) : p.Normal := by
  obtain ⟨c, hc, hp⟩ := List.mem_flatMap.mp h
  obtain ⟨action, haction, rfl⟩ := List.mem_map.mp hp
  have hwritable := Clause.writable_of_mem_parseClauses hc
  exact ⟨hwritable.actions action haction, hwritable.conditions, rfl⟩

/-! ### A normal form is a layout -/

theorem conditionsWritten (o : Option String) :
    ConditionsWritten o (PermissionStatement.writtenConditions o).toList := by
  cases o with
  | none => exact .absent
  | some conditions =>
    have h := ConditionsWritten.given conditions gap_space (w := "WHERE".toList) rfl gap_space
    simpa [PermissionStatement.writtenConditions] using h

namespace PermissionStatement.Normal
variable {p : PermissionStatement} (hp : p.Normal)
include hp

theorem writable_clause : p.clause.Writable :=
  ⟨List.cons_ne_nil _ _, List.forall_mem_singleton.mpr hp.action, hp.conditions⟩

theorem declarations_clause : p.clause.declarations = [p] := by
  show [PermissionStatement.declare p.effect p.action p.conditions] = [p]
  rw [declare, ← hp.description]

theorem clauseWritten : ClauseWritten p.clause p.written.toList := by
  have h := ClauseWritten.mk (c := p.clause) (w := p.effect.keyword.toList) rfl gap_space
    (.one hp.action.1) (conditionsWritten p.conditions)
  simpa [written] using h

end PermissionStatement.Normal

/-- What follows a separator may as well stand in front of each piece but the first. -/
theorem intercalate_append {α : Type*} (sep pad first : List α) (rest : List (List α)) :
    (sep ++ pad).intercalate (first :: rest) = sep.intercalate (first :: rest.map (pad ++ ·)) := by
  induction rest generalizing first with
  | nil => simp
  | cons next rest ih =>
    rw [List.map_cons, List.intercalate_cons_cons, List.intercalate_cons_cons, ih]
    cases rest with
    | nil => simp
    | cons => simp [List.intercalate_cons_cons]

section NormalForm
variable {ps : List PermissionStatement} (h : ∀ p ∈ ps, p.Normal)
include h

theorem piecesWritten_of_normal : PiecesWritten (ps.map PermissionStatement.clause)
    (ps.map fun p => ' ' :: p.written.toList) := by
  induction ps with
  | nil => exact .nil
  | cons p ps ih =>
    obtain ⟨hp, hps⟩ := List.forall_mem_cons.mp h
    have hnone : Blanks [] := by simp [Blanks]
    simpa using PiecesWritten.clause gap_space.2 hp.clauseWritten hnone (ih hps)

/-- **A normal form writes the clauses** of its declarations. -/
theorem layout_normalForm : Layout (ps.map PermissionStatement.clause) (normalForm ps) := by
  cases ps with
  | nil => exact ⟨[], .nil, rfl⟩
  | cons p ps =>
    obtain ⟨hp, hps⟩ := List.forall_mem_cons.mp h
    have hnone : Blanks [] := by simp [Blanks]
    refine ⟨p.written.toList :: ps.map fun p => ' ' :: p.written.toList, ?_, ?_⟩
    · simpa using PiecesWritten.clause hnone hp.clauseWritten hnone (piecesWritten_of_normal hps)
    · have := intercalate_append [';'] [' '] p.written.toList
        (ps.map fun p => p.written.toList)
      simpa [normalForm, String.toList_intercalate, Function.comp_def] using this

theorem parseStatement_normalForm : parseStatement (normalForm ps) = ps := by
  have hwritable : ∀ c ∈ ps.map PermissionStatement.clause, c.Writable := by
    intro c hc
    obtain ⟨p, hp, rfl⟩ := List.mem_map.mp hc
    exact (h p hp).writable_clause
  rw [parseStatement, parseClauses_of_layout hwritable (layout_normalForm h), List.flatMap_map]
  calc ps.flatMap (fun p => p.clause.declarations)
      = ps.flatMap (fun p => [p]) := List.flatMap_congr fun p hp => (h p hp).declarations_clause
    _ = ps := List.flatMap_singleton' ps

end NormalForm

/-- The lists that some statement declares are those of normal declarations. -/
theorem exists_parseStatement_eq_iff {ps : List PermissionStatement} :
    (∃ statement, parseStatement statement = ps) ↔ ∀ p ∈ ps, p.Normal := by
  constructor
  · rintro ⟨statement, rfl⟩ p hp
    exact p.normal_of_mem_parseStatement hp
  · exact fun h => ⟨normalForm ps, parseStatement_normalForm h⟩

/-- **What is parsed has a normal form.** Whatever the statement, each declaration has an action
and conditions that can be written, and the standard description; and the declarations, each written
as a clause, are parsed as they are. -/
theorem parse_normalForm (statement : String) :
    (∀ p ∈ parseStatement statement, p.Normal) ∧
      parseStatement (normalForm (parseStatement statement)) = parseStatement statement := by
  have hnormal : ∀ p ∈ parseStatement statement, p.Normal := fun p hp =>
    p.normal_of_mem_parseStatement hp
  exact ⟨hnormal, parseStatement_normalForm hnormal⟩

/-- Keywords as actions, conditions that two declarations share, and a piece that is no clause. -/
example : normalForm (parseStatement ";allow deny ,where\nwhere  a , ; Deny z:y , WHERE b; c") =
    "ALLOW deny WHERE a ,; ALLOW where WHERE a ,; DENY z:y; DENY WHERE" := by decide +kernel

end Entitlements
